import Facet.Files.Folder
import Facet.Picture.Drawing
import Facet.Picture.Portable

/-!
# Picture files

Pictures are kept in files whose format follows from the ending of the path. What is written comes
back as it was, with a single channel dropped as an axis, and elements brought to eight bits where
the format holds no more. Reading as gray gives one channel of eight bits.
-/

namespace Facet

/-- What a format keeps of an element. -/
inductive Depth where
  /-- Whether it is zero or not: black or white. -/
  | bit
  /-- Eight bits. -/
  | byte
  /-- Eight bits or sixteen. -/
  | word
deriving Repr, DecidableEq

/-- The format of a picture file. -/
structure PictureFormat where
  /-- The endings of paths, in lower case. -/
  endings : List String
  /-- What becomes of elements. -/
  depth : Depth
  /-- The numbers of channels that can be kept. -/
  channels : List Nat

namespace PictureFormat

/-- The formats that can be written. -/
def all : List PictureFormat :=
  [⟨["png", "apng", "tif", "tiff", "jp2", "pam"], .word, [1, 3, 4]⟩,
    ⟨["pnm"], .word, [1, 3]⟩, ⟨["ppm"], .word, [3]⟩, ⟨["pgm"], .word, [1]⟩, ⟨["pbm"], .bit, [1]⟩,
    ⟨["bmp", "dib", "webp", "jpg", "jpeg", "jpe", "ras", "sr"], .byte, [1, 3, 4]⟩]

/-- The ending of a path: the letters and digits right behind its last point. -/
def ending? (path : String) : Option String :=
  match (path.splitOn ".").reverse with
  | last :: _ :: _ =>
    some (String.ofList ((last.toList.takeWhile Char.isAlphanum).map Char.toLower))
  | _ => none

/-- The format of a file at the given path. -/
def ofPath? (path : String) : Option PictureFormat :=
  (ending? path).bind fun e => all.find? fun format => format.endings.contains e

end PictureFormat

/-- What a file contains. -/
inductive PictureContent where
  /-- Text. -/
  | text (s : String)
  /-- A picture. -/
  | picture (samples : Samples Float)

/-- The picture that a file contains. Text can spell one. -/
def PictureContent.read : PictureContent → Except Portable.Refusal (Samples Float)
  | .picture s => .ok s
  | .text s => Portable.read s.toUTF8.toList

namespace Samples

/-! ## Writing -/

/-- The number of channels of a picture, if an array with the given axes is one: gray, coloured, or
coloured with transparency, and not empty. -/
def channelCount? (shape : List Nat) : Option Nat :=
  if shape.contains 0 then none
  else
    match shape with
    | [] | [_] | [_, _] => some 1
    | [_, _, channels] => if [1, 3, 4].contains channels then some channels else none
    | _ => none

/-- Whether elements of a type can be written at all. -/
def isWritable : ElementType → Bool
  | .integer signed bits => signed || bits != 32
  | .real _ => true
  | _ => false

/-- An element brought to eight bits without a sign. Of long integers only the lowest 32 bits
count. -/
def toByte : Sample Float → Sample Float
  | .whole n => .whole (clamp false 8 (Int.bmod n (Word.count 32)))
  | .real x => .whole (clamp false 8 (nearestInt x))
  | .loose _ => .whole 0

/-- The elements as a format keeps them. -/
def narrowed (s : Samples Float) (depth : Depth) : Samples Float :=
  if s.element = .integer false 16 && depth = .word then s
  else
    ⟨.integer false 8, s.array.map fun x =>
      let byte := toByte x
      if depth = .bit && byte.toWhole != 0 then .whole 255 else byte⟩

/-- The same picture with two axes, or with a third one for several channels. -/
def withPlaneAxes (s : Samples Float) : Samples Float :=
  match s.array with
  | ⟨[], entries⟩ => ⟨s.element, ⟨[1, 1], entries.cast (by simp [extent])⟩⟩
  | ⟨[m], entries⟩ => ⟨s.element, ⟨[m, 1], entries.cast (by simp [extent])⟩⟩
  | ⟨[m, n, 1], entries⟩ => ⟨s.element, ⟨[m, n], entries.cast (by simp [extent])⟩⟩
  | _ => s

end Samples

/-- The picture in an argument, with the number of its channels. Only arrays can be pictures. -/
def ArrayLike.picture? : ArrayLike Float → Option (Nat × Samples Float)
  | .array s =>
    if Samples.isWritable s.element then (Samples.channelCount? s.shape).map ((·, s)) else none
  | .nested _ => none

namespace Samples

/-! ## Reading as gray -/

/-- The upper eight bits of elements of sixteen. -/
def upperByte (s : Samples Float) : Samples Float :=
  if s.element = .integer false 16 then
    ⟨.integer false 8, s.array.map fun x => .whole (x.toWhole / 256)⟩
  else s

/-- The gray level of a colour: weights in units of `2 ^ -14`, the sum rounded to the nearest
integer. -/
def grayByte (blue green red : Sample Float) : Sample Float :=
  .whole ((1868 * blue.toWhole + 9617 * green.toWhole + 4899 * red.toWhole + 8192).fdiv 16384)

/-- A picture in gray, at eight bits. -/
def inGray (s : Samples Float) : Samples Float :=
  match s.upperByte with
  | ⟨element, ⟨[m, n, channels + 3], entries⟩⟩ =>
    ⟨element, ⟨[m, n], (Table.ofFn fun (r : Fin m) (c : Fin n) =>
      grayByte (Tensor.entry₃ entries r c 0) (Tensor.entry₃ entries r c 1)
        (Tensor.entry₃ entries r c 2)).flatten.cast (by simp [extent])⟩⟩
  | s => s

end Samples

namespace Folder

/-- Writes a picture to a file, in directories that are made if need be. What the format of the file
has no room for is not written, and neither is what would replace a directory. -/
def savePicture (f : Folder PictureContent) (path : String) (image : ArrayLike Float) :
    Except Fault Unit × Folder PictureContent :=
  let steps := Path.steps path
  match f.makeDirectory steps.dropLast with
  | (.error cause, made) => (.error (.file cause), made)
  | (.ok (), made) =>
    match PictureFormat.ofPath? (made.shownSteps steps), image.picture? with
    | some format, some (channels, s) =>
      if !format.channels.contains channels then (.ok (), made)
      else
        match made.writeAt steps (.picture (s.narrowed format.depth).withPlaneAxes) with
        | .ok written => (.ok (), written)
        | .error _ => (.ok (), made)
    | _, _ => (.error .picture, made)

/-- Reads a picture from a file, in gray if that is asked for. -/
def loadPicture (f : Folder PictureContent) (path : String) (inGray : Bool) :
    Except Fault (Samples Float) :=
  let steps := Path.steps path
  let result :=
    match f.find steps with
    | .file content => content.read
    | _ => .error .noPicture
  match result with
  | .ok s => .ok (if inGray then s.inGray else s)
  | .error .noPicture => .error (.file (.noImage (f.shownSteps steps)))
  | .error .tooLarge => .error .picture

end Folder

end Facet
