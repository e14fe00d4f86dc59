import Mathlib
import Facet.Proofs.Descriptors
import Facet.Record.Codec

/-!
# Words and records

The bytes of a word stand lowest first and a word with a sign is read in two's complement: so the
bytes of a number of 64 bits spell this number, and what eight bytes spell has these bytes. A record
is two such words. Its bytes and its numbers determine each other, and it is that of a configuration
if its first number is an order and its second one the side of a window.
-/

namespace Facet

/-! ## Numbers of 64 bits -/

/-- Whether a number fits in 64 bits with a sign. -/
def FitsWord (v : Int) : Prop := -2 ^ 63 ≤ v ∧ v < 2 ^ 63

instance : DecidablePred FitsWord := fun _ => inferInstanceAs (Decidable (_ ∧ _))

theorem fitsSigned_iff (v : Int) : Word.fitsSigned 64 v = true ↔ FitsWord v := by
  have hend : Word.signedEnd 64 = 2 ^ 63 := rfl
  simp [Word.fitsSigned, FitsWord, hend]

/-! ## Bytes of a number -/

namespace Word

theorem length_bytes (width n : Nat) : (bytes width n).length = width := by
  induction width generalizing n with
  | zero => rfl
  | succ width ih => rw [bytes, List.length_cons, ih]

theorem ofBytes_bytes (width n : Nat) : ofBytes (bytes width n) = n % 256 ^ width := by
  induction width generalizing n with
  | zero => rw [pow_zero, Nat.mod_one]; rfl
  | succ width ih =>
    have hbyte : (UInt8.ofNat (n % 256)).toNat = n % 256 := by
      rw [UInt8.toNat_ofNat']
      omega
    rw [bytes, ofBytes, ih, hbyte, pow_succ', Nat.mod_mul]

theorem ofBytes_lt (data : List UInt8) : ofBytes data < 256 ^ data.length := by
  induction data with
  | nil => exact Nat.one_pos
  | cons b rest ih =>
    have hb := b.toNat_lt
    rw [ofBytes, List.length_cons, pow_succ']
    omega

theorem bytes_ofBytes (data : List UInt8) : bytes data.length (ofBytes data) = data := by
  induction data with
  | nil => rfl
  | cons b rest ih =>
    have hb := b.toNat_lt
    have hlow : (b.toNat + 256 * ofBytes rest) % 256 = b.toNat := by omega
    have hrest : (b.toNat + 256 * ofBytes rest) / 256 = ofBytes rest := by omega
    rw [List.length_cons, ofBytes, bytes, hlow, hrest, ih, UInt8.ofNat_toNat]

/-- The number that bytes stand for, the byte at place `j` counting `256 ^ j`. -/
def unsigned (data : List UInt8) : Nat := ∑ j : Fin data.length, data[j].toNat * 256 ^ j.val

theorem unsigned_eq_ofBytes (data : List UInt8) : unsigned data = ofBytes data := by
  unfold unsigned
  induction data with
  | nil => rfl
  | cons b rest ih =>
    rw [ofBytes, ← ih, Finset.mul_sum]
    refine (Fin.sum_univ_succ _).trans ?_
    refine congrArg₂ _ ?_ (Finset.sum_congr rfl fun j _ => ?_)
    · simp
    · simp only [Fin.val_succ, pow_succ']
      exact mul_left_comm _ _ _

/-- The number that eight bytes stand for in two's complement. -/
def twosComplement (data : List UInt8) : Int :=
  if unsigned data < 2 ^ 63 then unsigned data else unsigned data - 2 ^ 64

theorem ofSignedBytes_eq {data : List UInt8} (h : data.length = 8) :
    ofSignedBytes data = twosComplement data := by
  have hlt := ofBytes_lt data
  rw [h] at hlt
  have hcount : count 64 = 2 ^ 64 := rfl
  rw [ofSignedBytes, twosComplement, unsigned_eq_ofBytes, hcount, Int.bmod_def]
  split <;> split <;> omega

theorem wrap_cast (n : Int) : (wrap 64 n : Int) = n % 2 ^ 64 := by
  have hcount : count 64 = 2 ^ 64 := rfl
  rw [wrap, hcount]
  omega

theorem ofBytes_signedBytes (n : Int) : (ofBytes (signedBytes n) : Int) = n % 2 ^ 64 := by
  have hwidth : (256 : Nat) ^ 8 = 2 ^ 64 := by decide
  have hwrap := wrap_cast n
  rw [signedBytes, ofBytes_bytes, hwidth]
  omega

/-- A number of 64 bits is found again in its bytes. -/
theorem ofSignedBytes_signedBytes {n : Int} (hlow : -2 ^ 63 ≤ n) (hhigh : n < 2 ^ 63) :
    ofSignedBytes (signedBytes n) = n := by
  have hcount : (count 64 : Int) = 2 ^ 64 := rfl
  rw [ofSignedBytes, ofBytes_signedBytes, Int.bmod_def, hcount]
  split <;> omega

/-- Eight bytes are the bytes of the number that they stand for. -/
theorem signedBytes_ofSignedBytes {data : List UInt8} (h : data.length = 8) :
    signedBytes (ofSignedBytes data) = data := by
  have hlt := ofBytes_lt data
  rw [h] at hlt
  have hmod : ofSignedBytes data % 2 ^ 64 = ofBytes data := by
    rw [ofSignedBytes_eq h, twosComplement, unsigned_eq_ofBytes]
    split <;> omega
  have hvalue : wrap 64 (ofSignedBytes data) = ofBytes data := by
    have hwrap := wrap_cast (ofSignedBytes data)
    omega
  rw [signedBytes, hvalue, ← h, bytes_ofBytes]

end Word

/-! ## Numbers of a record -/

namespace Record

/-- The number in the first eight bytes. -/
def firstField (b : List UInt8) : Int := Word.twosComplement (b.take 8)

/-- The number in the bytes after the first eight. -/
def secondField (b : List UInt8) : Int := Word.twosComplement (b.drop 8)

/-- Whether a byte string is a record of a valid configuration: sixteen bytes that stand for an
order and for the side of a window. -/
def Valid (b : List UInt8) : Prop :=
  b.length = 16 ∧ (1 ≤ firstField b ∧ firstField b ≤ 6) ∧
    3 ≤ secondField b ∧ secondField b % 2 = 1

instance (b : List UInt8) : Decidable (Valid b) := inferInstanceAs (Decidable (_ ∧ _))

theorem length_halves {b : List UInt8} (h : b.length = 16) :
    (b.take 8).length = 8 ∧ (b.drop 8).length = 8 := by
  rw [List.length_take, List.length_drop]
  omega

theorem decode_eq {b : List UInt8} (h : b.length = 16) :
    decode b = .ok ⟨Word.ofSignedBytes (b.take 8), Word.ofSignedBytes (b.drop 8)⟩ := if_pos h

theorem fields_eq {b : List UInt8} (h : b.length = 16) :
    firstField b = Word.ofSignedBytes (b.take 8) ∧
      secondField b = Word.ofSignedBytes (b.drop 8) := by
  obtain ⟨hfirst, hsecond⟩ := length_halves h
  exact ⟨(Word.ofSignedBytes_eq hfirst).symm, (Word.ofSignedBytes_eq hsecond).symm⟩

theorem decode_of_length {b : List UInt8} (h : b.length = 16) :
    decode b = .ok ⟨firstField b, secondField b⟩ := by
  obtain ⟨hfirst, hsecond⟩ := fields_eq h
  rw [decode_eq h, hfirst, hsecond]

theorem length_of_decode {b : List UInt8} {r : Record} (h : decode b = .ok r) : b.length = 16 := by
  unfold decode at h
  split at h
  · assumption
  · cases h

/-- What is decoded has the bytes that it was decoded from. -/
theorem encode_of_decode {b : List UInt8} {r : Record} (h : decode b = .ok r) : r.encode = b := by
  have hlength := length_of_decode h
  obtain ⟨hfirst, hsecond⟩ := length_halves hlength
  rw [decode_eq hlength] at h
  obtain rfl := Except.ok.inj h
  rw [encode, Word.signedBytes_ofSignedBytes hfirst, Word.signedBytes_ofSignedBytes hsecond,
    List.take_append_drop]

theorem length_encode (r : Record) : r.encode.length = 16 := by
  rw [encode, List.length_append, Word.signedBytes, Word.signedBytes, Word.length_bytes,
    Word.length_bytes]

/-- Numbers of 64 bits can be shown. -/
theorem isShowable_ofSignedBytes (data : List UInt8) :
    Text.isShowable (Word.ofSignedBytes data) = true := by
  have hcount : (Word.count 64 : Int) = 2 ^ 64 := rfl
  have hlow : -((Word.count 64 : Int) / 2) ≤ Word.ofSignedBytes data := Int.le_bmod (by decide)
  have hhigh : Word.ofSignedBytes data < ((Word.count 64 : Int) + 1) / 2 :=
    Int.bmod_lt (by decide)
  have hlt : (Word.ofSignedBytes data).natAbs < 2 ^ 64 := by omega
  have hlimit {digits : Nat} (h : 20 ≤ digits) : 2 ^ 64 ≤ Nat.pow 10 digits := calc
    2 ^ 64 ≤ 10 ^ 20 := by norm_num
    _ ≤ 10 ^ digits := Nat.pow_le_pow_right (by norm_num) h
  rw [Text.isShowable, decide_eq_true_eq]
  exact hlt.trans_le (hlimit (by decide))

/-- So can those of a record that has been read. -/
theorem areShowable_of_decode {b : List UInt8} {r : Record} (h : decode b = .ok r) :
    Value.areShowable [.int r.order, .int r.window] = true := by
  rw [decode_eq (length_of_decode h)] at h
  obtain rfl := Except.ok.inj h
  simp [Value.areShowable_iff, Value.isShowable, isShowable_ofSignedBytes]

/-- A record whose numbers have 64 bits is found again in its bytes. -/
theorem decode_encode {r : Record} (horder : -2 ^ 63 ≤ r.order ∧ r.order < 2 ^ 63)
    (hwindow : -2 ^ 63 ≤ r.window ∧ r.window < 2 ^ 63) : decode r.encode = .ok r := by
  have hfirst : (Word.signedBytes r.order).length = 8 := Word.length_bytes 8 _
  rw [decode_eq r.length_encode, encode, ← hfirst, List.take_left, List.drop_left,
    Word.ofSignedBytes_signedBytes horder.1 horder.2,
    Word.ofSignedBytes_signedBytes hwindow.1 hwindow.2]

/-- The record of a configuration is valid. -/
theorem valid_of_decode {b : List UInt8} {k : Order} {w : Window}
    (h : decode b = .ok ⟨k.degree, w.side⟩) :
    Valid b ∧ firstField b = k.degree ∧ secondField b = w.side := by
  have hlength := length_of_decode h
  rw [decode_of_length hlength] at h
  obtain ⟨hfirst, hsecond⟩ := Record.mk.inj (Except.ok.inj h)
  have hone := k.one_le
  have hsix := k.le_six
  have hthree := w.three_le_side
  have hside : w.side = 2 * w.margin + 1 := rfl
  refine ⟨⟨hlength, ⟨?_, ?_⟩, ?_, ?_⟩, hfirst, hsecond⟩ <;> omega

/-- A valid record is that of a configuration. -/
theorem Valid.exists_decode {b : List UInt8} (h : Valid b) :
    ∃ (k : Order) (w : Window), decode b = .ok ⟨k.degree, w.side⟩ := by
  obtain ⟨hlength, ⟨hone, hsix⟩, hthree, hodd⟩ := h
  refine ⟨⟨(firstField b).toNat, by omega, by omega⟩, ⟨(secondField b / 2).toNat, by omega⟩, ?_⟩
  have hside : 2 * (secondField b / 2).toNat + 1 = (secondField b).toNat := by omega
  rw [decode_of_length hlength, Window.side, hside, Int.toNat_of_nonneg (by omega),
    Int.toNat_of_nonneg (by omega)]

end Record

end Facet
