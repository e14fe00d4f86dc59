import Facet.Value.Text

/-!
# What can go wrong

Every refusal of the library is a `Fault`: a cause, grouped by the part of the work in which it
arises. The wording shown to the user is one function, `Fault.message?`, and the class under which
a caller can catch it is another, `Fault.kind`. Faults of the first four groups are the library's
own; `Fault.Kind.lineage` says what else each of them counts as.
-/

namespace Facet

/-- The three numbers of a configuration. -/
inductive SettingName where
  /-- The degree of the fitted polynomial. -/
  | order
  /-- The side of the window. -/
  | windowSize
  /-- The distance between neighbouring features. -/
  | downsample
deriving Repr, DecidableEq

/-- The name of a setting, as configurations and messages spell it. -/
def SettingName.text : SettingName → String
  | .order => "order"
  | .windowSize => "window_size"
  | .downsample => "downsample"

/-- Why a configuration is refused. -/
inductive SettingFault where
  /-- The value of a setting is no whole number. -/
  | notInteger (name : SettingName) (value : Value)
  /-- The order is not between 1 and 6. -/
  | orderOutOfRange (order : Int)
  /-- The window size is even or below 3. -/
  | badWindow (size : Int)
  /-- The stride is below 1. -/
  | badStride (stride : Int)
  /-- There is no such extraction backend. -/
  | unknownBackend (backend : Value)
  /-- A configuration document is no mapping. -/
  | notMapping (path : String)
  /-- A configuration document has sections that do not exist. -/
  | unknownSections (sections : List Value)
  /-- A section of a configuration document is no mapping. -/
  | badSection (name : Value)

/-- Why an image cannot be reduced to one intensity per pixel. -/
inductive PixelFault where
  /-- Its elements are no real numbers. -/
  | elementType (name : String)
  /-- It has two or four channels, the last of them transparency. -/
  | alphaChannel (channels : Nat)
  /-- Its number of channels is neither one nor three. -/
  | channelCount (channels : Nat)
  /-- It has neither two nor three axes. -/
  | rank (shape : List Nat)

/-- Why a design matrix has no usable fit. -/
inductive FitFault where
  /-- It is empty, or holds what is not finite. -/
  | unusable
  /-- All its singular values are zero. -/
  | rankZero

/-- Why a configuration cannot be set up. -/
inductive SetupFault where
  /-- A setting is refused. -/
  | setting (cause : SettingFault)
  /-- The window cannot be fitted. -/
  | fit (cause : FitFault)

/-- Why a configuration record cannot be read. -/
inductive RecordFault where
  /-- What was given is no sequence of bytes. -/
  | notBytes (kind : String)
  /-- It is not sixteen bytes long. -/
  | wrongLength (length : Nat)
  /-- The stream ends within the record. -/
  | endOfStream (length : Nat)
  /-- The numbers in it are no valid configuration. -/
  | refused (cause : SetupFault)

/-- Why an argument cannot be used. -/
inductive ArgumentFault where
  /-- Nested lists differ in length below the given number of axes. -/
  | ragged (axes : List Nat)
  /-- Lists are nested deeper than arrays have axes. -/
  | tooDeep (axes : Nat)
  /-- An array of one shape does not fit into one of another shape. -/
  | cannotSpread (source target : List Nat)
  /-- There are not as many entries as an array of that shape has. -/
  | entryCount (got : Nat) (axes : List Nat)
  /-- A text is no number. -/
  | notFloatText (text : Value)
  /-- A text that is an element of an array is no number. -/
  | notFloatElement (text : Value)
  /-- Text goes beyond ASCII where only ASCII can be kept. -/
  | notAsciiText (text : String)
  /-- A byte is no ASCII character; how many such characters stand before it. -/
  | notAsciiByte (byte : UInt8) (position : Nat)
  /-- A value cannot be a double. -/
  | notFloat (kind : String)
  /-- A whole number is beyond the range of doubles. -/
  | floatOverflow
  /-- A text is no whole number. -/
  | notIntText (base : Nat) (text : Value)
  /-- A whole number has more digits than are read. -/
  | tooManyDigits (digits : Nat)
  /-- A whole number has more digits than are shown. -/
  | notShowable
  /-- Where a number should begin there is nothing. -/
  | emptyNumber
  /-- A value cannot be a whole number. -/
  | notInt (kind : String)
  /-- Not a number is no whole number. -/
  | nanToInt
  /-- An infinity is no whole number. -/
  | infinityToInt
  /-- A whole number does not fit in 64 bits. -/
  | wordOverflow
  /-- A whole number does not fit in the elements of an array. -/
  | elementRange (n : Int) (element : String)
  /-- Two values have no operation of that name. -/
  | operands (operation left right : String)
  /-- A sequence is repeated more often than it can be. -/
  | repetition (kind : String)
  /-- A sequence and a whole number cannot be put together. -/
  | concatenation (kind : String)
  /-- A sequence cannot be repeated so many times, as that is no whole number. -/
  | brokenRepetition
  /-- Two values have no common order. -/
  | incomparable (operation left right : String)
  /-- A date and a time have no common order. -/
  | dateAndMoment
  /-- Of two times only one is told from universal time. -/
  | unrelatedClocks
  /-- There is no such date or time. -/
  | calendar (cause : CalendarFault)
  /-- A word is not one of those that have a meaning. -/
  | unknownWord (word : String)
  /-- There is no character of such a number, which is still one of so many bits as such numbers
  may have. -/
  | noCharacter
  /-- A number is too large to be that of a character. -/
  | characterOverflow
  /-- A number is divided by zero, by an operation of that name. -/
  | zeroDivisor (operation : String)
  /-- The quotient of two whole numbers is beyond the range of doubles. -/
  | quotientOverflow
  /-- Elements of that type are not known to be finite or not. -/
  | notTestable
  /-- Elements of those types have no operation of that name. -/
  | noElementOperation (operation : String) (elements : List String)
  /-- Elements of those types cannot be put together by the operation of that name. -/
  | badElementOperands (operation left right : String)
  /-- An array with two axes is needed. -/
  | notMatrix
  /-- A shape has too few axes. -/
  | shortShape
  /-- An array without axes cannot be indexed. -/
  | noAxes
  /-- A grid would have less than no components. -/
  | negativeDimensions
  /-- A pair has more than two parts. -/
  | tooManyValues
  /-- A pair has too few parts. -/
  | notEnoughValues (got : Nat)
  /-- A pair is no sequence at all. -/
  | notIterable (kind : String)
  /-- A window has the wrong shape. -/
  | windowShape (size : Nat) (shape : List Nat)
  /-- An operator does not fit the window. -/
  | operatorColumns (got expected : Nat)
  /-- There is no feature at that place. -/
  | outOfGrid (row col : String) (rows cols : Nat)
  /-- A place in a grid is no pair of whole numbers. -/
  | badIndex
  /-- A value of that kind has no axes to be indexed along. -/
  | notIndexable (kind : String)
  /-- Features must have three axes. -/
  | gridRank (shape : List Nat)
  /-- An index lies beyond the end of an axis. -/
  | beyondAxis (index : Int) (axis length : Nat)
  /-- An array without axes has no items. -/
  | noItems
  /-- There is no such component. -/
  | noComponent (component : Value) (count : Nat)
  /-- Less than no bytes. -/
  | negativeCount
  /-- A number that is no byte. -/
  | byteRange
  /-- More bytes than can be counted. -/
  | countOverflow
  /-- More bytes than there can be. -/
  | tooManyBytes
  /-- A place before the start of a stream. -/
  | negativePosition (position : Int)
  /-- There is no log level of that name. -/
  | unknownLevel (level : Value)
  /-- A log level is neither a number nor a name. -/
  | badLevel (level : Value)
  /-- The level of a message is no number. -/
  | notLevel

/-- Why a member of an object cannot be used. -/
inductive MemberFault where
  /-- Features and descriptors cannot be written to. -/
  | readOnly
  /-- The property of an extractor cannot be set. -/
  | noSetter (name : String)
  /-- The field of a configuration cannot be set. -/
  | frozen (name : String)
  /-- The value has no member of that name. -/
  | missing (kind name : String)
  /-- The arguments do not match the parameters. -/
  | arity (text : String)

/-- Why a file cannot be used. -/
inductive FileFault where
  /-- There is no configuration file at that path. -/
  | noDocument (path : String)
  /-- There is nothing at that path. -/
  | missing (path : String)
  /-- There is a directory at that path. -/
  | isDirectory (path : String)
  /-- There is a file where a directory is to be made. -/
  | occupied (path : String)
  /-- A path leads through a file. -/
  | notDirectory (path : String)
  /-- What is at that path is no image. -/
  | noImage (path : String)
  /-- A number in an archive was kept as an object, and objects are not read. -/
  | storedObject

/-- A refusal, with its cause. -/
inductive Fault where
  /-- A configuration is refused. -/
  | setting (cause : SettingFault)
  /-- An image is refused. -/
  | pixels (cause : PixelFault)
  /-- A fit does not exist. -/
  | fit (cause : FitFault)
  /-- A record is refused. -/
  | record (cause : RecordFault)
  /-- An argument is refused. -/
  | argument (cause : ArgumentFault)
  /-- A member is refused. -/
  | member (cause : MemberFault)
  /-- A file is refused. -/
  | file (cause : FileFault)
  /-- A configuration document is not well formed. -/
  | document
  /-- A picture cannot be converted, drawn on, written or read. -/
  | picture
  /-- Nothing has the given name. -/
  | unknownName

/-- Why a configuration cannot be set up, if that is what is refused. -/
def Fault.setup? : Fault → Option SetupFault
  | .setting cause => some (.setting cause)
  | .fit cause => some (.fit cause)
  | _ => none

/-! ## Values in messages

Some messages show the values that are refused. A whole number of too many digits cannot be shown;
where a message should show one, it is the message that is refused.
-/

/-- The refusal of an argument with a message in which some values are shown. -/
def ArgumentFault.showing (values : List Value) (cause : ArgumentFault) : ArgumentFault :=
  if Value.areShowable values then cause else .notShowable

theorem ArgumentFault.showing_of_showable {values : List Value}
    (h : Value.areShowable values = true) (cause : ArgumentFault) :
    ArgumentFault.showing values cause = cause := if_pos h

theorem ArgumentFault.showing_of_not_showable {values : List Value}
    (h : ¬Value.areShowable values = true) (cause : ArgumentFault) :
    ArgumentFault.showing values cause = .notShowable := if_neg h

/-- A text in which some values are shown. -/
def textShowing (values : List Value) (text : String) : Except ArgumentFault String :=
  if Value.areShowable values then .ok text else .error .notShowable

/-- A refusal with a message in which some values are shown. -/
def Fault.showing (values : List Value) (e : Fault) : Fault :=
  if Value.areShowable values then e else .argument .notShowable

theorem Fault.showing_of_showable {values : List Value} (h : Value.areShowable values = true)
    (e : Fault) : Fault.showing values e = e := if_pos h

theorem Fault.showing_of_not_showable {values : List Value} (h : ¬Value.areShowable values = true)
    (e : Fault) : Fault.showing values e = .argument .notShowable := if_neg h

/-! ## Wording -/

/-- The wording of a refused configuration. -/
def SettingFault.message : SettingFault → String
  | .notInteger name value => name.text ++ " must be an integer, got " ++ value.shown
  | .orderOutOfRange order => "order must be in [1, 6], got " ++ toString order
  | .badWindow size => "window_size must be odd and >= 3, got " ++ toString size
  | .badStride stride => "downsample must be >= 1, got " ++ toString stride
  | .unknownBackend backend =>
    "Unknown backend '" ++ backend.plain ++ "', expected one of ('filter', 'windows')"
  | .notMapping path => "Configuration in " ++ path ++ " must be a mapping"
  | .unknownSections sections =>
    "Unknown configuration sections: " ++ (Value.list sections).shown
  | .badSection name => "Section '" ++ name.plain ++ "' must be a mapping"

/-- The wording of a refused image. -/
def PixelFault.message : PixelFault → String
  | .elementType name => "Unsupported pixel dtype: " ++ name
  | .alphaChannel channels =>
    "Images with an alpha channel are not supported (" ++ toString channels ++ " channels)"
  | .channelCount channels => "Unsupported channel count: " ++ toString channels
  | .rank shape => "Expected a 2-D image, got shape " ++ tupleText shape

/-- The wording of a missing fit. -/
def FitFault.message : FitFault → String
  | .unusable => "Design matrix is empty or contains non-finite values"
  | .rankZero => "Design matrix has rank 0"

/-- The wording of a failed setup. -/
def SetupFault.message : SetupFault → String
  | .setting cause => cause.message
  | .fit cause => cause.message

/-- The wording of a refused record. -/
def RecordFault.message : RecordFault → String
  | .notBytes kind => "Expected bytes, got " ++ kind
  | .wrongLength length => "Expected 16 bytes, got " ++ toString length
  | .endOfStream length => "Unexpected end of stream after " ++ toString length ++ " bytes"
  | .refused cause => "Invalid serialized configuration: " ++ cause.message

/-- The lengths of axes in round brackets, without blanks. -/
def shapeText (axes : List Nat) : String :=
  "(" ++ String.intercalate "," (axes.map toString) ++ (if axes.length = 1 then ",)" else ")")

/-- What is said of a whole number that has too many digits. -/
def digitLimitText : String :=
  "Exceeds the limit (" ++ toString Text.digitLimit ++ " digits) for integer string conversion"

/-- What can be done about a whole number that has too many digits. -/
def digitLimitAdvice : String :=
  "; use sys.set_int_max_str_digits() to increase the limit"

/-- Where the characters beyond ASCII begin in a text: what stands before the first of them, and
those that follow each other from there. -/
def beyondAscii (s : String) : Nat × List Char :=
  let isAscii (c : Char) : Bool := c.toNat < 128
  let before := s.toList.takeWhile isAscii
  (before.length, (s.toList.drop before.length).takeWhile fun c => !isAscii c)

/-- What is said of text that goes beyond ASCII. -/
def notAsciiMessage (s : String) : String :=
  let (start, run) := beyondAscii s
  let what :=
    match run with
    | [c] => "character '" ++ String.ofList (Text.numericEscape c.toNat) ++ "' in position "
        ++ toString start
    | run => "characters in position " ++ toString start ++ "-" ++ toString (start + run.length - 1)
  "'ascii' codec can't encode " ++ what ++ ": ordinal not in range(128)"

/-- The wording of a refused argument. -/
def ArgumentFault.message : ArgumentFault → String
  | .ragged axes =>
    "setting an array element with a sequence. The requested array has an inhomogeneous shape "
      ++ "after " ++ toString axes.length ++ " dimensions. The detected shape was "
      ++ tupleText axes ++ " + inhomogeneous part."
  | .tooDeep axes =>
    "setting an array element with a sequence. The requested array would exceed the maximum "
      ++ "number of dimension of " ++ toString axes ++ "."
  | .cannotSpread source target =>
    "could not broadcast input array from shape " ++ shapeText source ++ " into shape "
      ++ shapeText target
  | .entryCount got axes =>
    "cannot reshape array of size " ++ toString got ++ " into shape " ++ shapeText axes
  | .notFloatText text => "could not convert string to float: " ++ text.shown
  | .notFloatElement text =>
    "could not convert string to float: np." ++ text.kind ++ "_(" ++ text.shown ++ ")"
  | .notAsciiText text => notAsciiMessage text
  | .notAsciiByte byte position =>
    "'ascii' codec can't decode byte 0x" ++ Text.hexBytes [byte] ++ " in position "
      ++ toString position ++ ": ordinal not in range(128)"
  | .notFloat kind => "float() argument must be a string or a real number, not '" ++ kind ++ "'"
  | .floatOverflow => "int too large to convert to float"
  | .notIntText base text =>
    "invalid literal for int() with base " ++ toString base ++ ": " ++ text.shownUpTo 200
  | .tooManyDigits digits =>
    digitLimitText ++ ": value has " ++ toString digits ++ " digits" ++ digitLimitAdvice
  | .notShowable => digitLimitText ++ digitLimitAdvice
  | .emptyNumber => "string index out of range"
  | .notInt kind =>
    "int() argument must be a string, a bytes-like object or a real number, not '" ++ kind ++ "'"
  | .nanToInt => "cannot convert float NaN to integer"
  | .infinityToInt => "cannot convert float infinity to integer"
  | .wordOverflow => "Python int too large to convert to C long"
  | .elementRange n element =>
    "Python integer " ++ toString n ++ " out of bounds for " ++ element
  | .operands operation left right =>
    "unsupported operand type(s) for " ++ operation ++ ": '" ++ left ++ "' and '" ++ right ++ "'"
  | .incomparable operation left right =>
    "'" ++ operation ++ "' not supported between instances of '" ++ left ++ "' and '" ++ right
      ++ "'"
  | .repetition "str" => "repeated string is too long"
  | .repetition kind => "repeated " ++ kind ++ " are too long"
  | .concatenation "bytes" => "can't concat int to bytes"
  | .concatenation kind => "can only concatenate " ++ kind ++ " (not \"int\") to " ++ kind
  | .brokenRepetition => "can't multiply sequence by non-int of type 'float'"
  | .dateAndMoment => "can't compare datetime.datetime to datetime.date"
  | .unrelatedClocks => "can't compare offset-naive and offset-aware datetimes"
  | .calendar cause => cause.message
  | .unknownWord word => Text.quoted word
  | .noCharacter => "chr() arg not in range(0x110000)"
  | .characterOverflow => "Python int too large to convert to C int"
  | .zeroDivisor operation => operation ++ " by zero"
  | .quotientOverflow => "integer division result too large for a float"
  | .notTestable =>
    "ufunc 'isfinite' not supported for the input types, and the inputs could not be safely "
      ++ "coerced to any supported types according to the casting rule ''safe''"
  | .noElementOperation operation elements =>
    "ufunc '" ++ operation ++ "' did not contain a loop with signature matching types ("
      ++ String.intercalate ", " elements ++ ") -> None"
  | .badElementOperands operation left right =>
    "ufunc '" ++ operation ++ "' cannot use operands with types " ++ left ++ " and " ++ right
  | .notMatrix => "expected matrix"
  | .shortShape => "tuple index out of range"
  | .noAxes => "too many indices for array: array is 0-dimensional, but 1 were indexed"
  | .negativeDimensions => "negative dimensions are not allowed"
  | .tooManyValues => "too many values to unpack (expected 2)"
  | .notEnoughValues got =>
    "not enough values to unpack (expected 2, got " ++ toString got ++ ")"
  | .notIterable kind => "cannot unpack non-iterable " ++ kind ++ " object"
  | .windowShape size shape =>
    "Expected a " ++ toString size ++ "x" ++ toString size ++ " window, got " ++ tupleText shape
  | .operatorColumns got expected =>
    "Fit operator has " ++ toString got ++ " columns, expected " ++ toString expected
  | .outOfGrid row col rows cols =>
    "Feature (" ++ row ++ ", " ++ col ++ ") out of range for a " ++ toString rows ++ "x"
      ++ toString cols ++ " grid"
  | .badIndex =>
    "only integers, slices (`:`), ellipsis (`...`), numpy.newaxis (`None`) and integer or boolean "
      ++ "arrays are valid indices"
  | .notIndexable "list" => "list indices must be integers or slices, not tuple"
  | .notIndexable "str" => "string indices must be integers, not 'tuple'"
  | .notIndexable "bytes" => "byte indices must be integers or slices, not tuple"
  | .notIndexable "dict" => "unhashable type: 'slice'"
  | .notIndexable kind => "'" ++ kind ++ "' object is not subscriptable"
  | .gridRank shape => "Expected an (nr, nc, dims) grid, got shape " ++ tupleText shape
  | .beyondAxis index axis length =>
    "index " ++ toString index ++ " is out of bounds for axis " ++ toString axis ++ " with size "
      ++ toString length
  | .noItems => "iteration over a 0-d array"
  | .noComponent component count =>
    "Component " ++ component.plain ++ " out of range for " ++ toString count ++ " dims"
  | .negativeCount => "negative count"
  | .byteRange => "bytes must be in range(0, 256)"
  | .countOverflow => "cannot fit 'int' into an index-sized integer"
  | .tooManyBytes => "byte string is too large"
  | .negativePosition position => "negative seek value " ++ toString position
  | .unknownLevel level => "Unknown level: " ++ level.shown
  | .badLevel level => "Level not an integer or a valid string: " ++ level.shown
  | .notLevel => "level must be an integer"

/-- The wording of a refused member. -/
def MemberFault.message : MemberFault → String
  | .readOnly => "assignment destination is read-only"
  | .noSetter name => "property '" ++ name ++ "' of 'PolyImage' object has no setter"
  | .frozen name => "cannot assign to field " ++ Text.quoted name
  | .missing kind name => "'" ++ kind ++ "' object has no attribute '" ++ name ++ "'"
  | .arity text => text

/-- The wording of a refused file. -/
def FileFault.message : FileFault → String
  | .noDocument path => "Configuration file not found: " ++ path
  | .missing path => "[Errno 2] No such file or directory: " ++ Text.quoted path
  | .isDirectory path => "[Errno 21] Is a directory: " ++ Text.quoted path
  | .occupied path => "[Errno 17] File exists: " ++ Text.quoted path
  | .notDirectory path => "[Errno 20] Not a directory: " ++ Text.quoted path
  | .noImage path => "Failed to load image from " ++ path
  | .storedObject => "Object arrays cannot be loaded when allow_pickle=False"

/-- The wording of a fault; documents, pictures and unknown names are refused without one. -/
def Fault.message? : Fault → Option String
  | .setting cause => some cause.message
  | .pixels cause => some cause.message
  | .fit cause => some cause.message
  | .record cause => some cause.message
  | .argument cause => some cause.message
  | .member cause => some cause.message
  | .file cause => some cause.message
  | .document | .picture | .unknownName => none

/-! ## Kinds -/

/-- The classes under which faults can be caught. -/
inductive Fault.Kind where
  /-- Whatever ends a computation early. -/
  | interruption
  /-- Any failure of a computation. -/
  | failure
  /-- Arithmetic without a result. -/
  | arithmetic
  /-- Any fault of the library's own. -/
  | library
  /-- A configuration out of range. -/
  | invalidConfiguration
  /-- Pixels that are no intensities. -/
  | unsupportedPixelFormat
  /-- A design matrix without a fit. -/
  | singularFit
  /-- A malformed record. -/
  | corruptData
  /-- An argument of the right kind with a wrong value. -/
  | value
  /-- An argument of the wrong kind. -/
  | type
  /-- An index out of range. -/
  | index
  /-- A word without a meaning. -/
  | key
  /-- Text that cannot be written as bytes. -/
  | encoding
  /-- Bytes that cannot be read as text. -/
  | decoding
  /-- A member that is not there. -/
  | attribute
  /-- A number too large. -/
  | overflow
  /-- A division by zero. -/
  | zeroDivision
  /-- A missing file. -/
  | fileNotFound
  /-- Elements of types that an operation does not know. -/
  | elements
  /-- A directory in place of a file. -/
  | isADirectory
  /-- A file in place of what is to be made. -/
  | fileExists
  /-- A file in place of a directory. -/
  | notADirectory
  /-- A field that cannot be set. -/
  | frozen
  /-- A document that is not well formed. -/
  | document
  /-- A picture that cannot be handled. -/
  | picture
  /-- A name that stands for nothing. -/
  | unknownName
deriving Repr, DecidableEq

namespace Fault.Kind

/-- The kinds that the library defines itself. -/
def own : List Kind :=
  [.library, .invalidConfiguration, .unsupportedPixelFormat, .singularFit, .corruptData]

/-- What a fault of a kind of the library's own counts as besides, nearest first. -/
def lineage : Kind → List Kind
  | .invalidConfiguration | .unsupportedPixelFormat | .corruptData =>
    [.library, .value, .failure, .interruption]
  | .singularFit => [.library, .arithmetic, .failure, .interruption]
  | _ => [.failure, .interruption]

end Fault.Kind

/-- The kind of a refused argument. -/
def ArgumentFault.kind : ArgumentFault → Fault.Kind
  | .notFloat _ | .notInt _ | .notIterable _ | .notIndexable _ | .badLevel _ | .operands ..
  | .concatenation _ | .brokenRepetition | .incomparable .. | .dateAndMoment | .unrelatedClocks
  | .notTestable | .noItems | .notLevel => .type
  | .floatOverflow | .infinityToInt | .wordOverflow | .countOverflow | .elementRange ..
  | .repetition _ | .characterOverflow | .quotientOverflow | .tooManyBytes => .overflow
  | .emptyNumber | .shortShape | .noAxes | .outOfGrid .. | .badIndex | .beyondAxis ..
  | .noComponent .. => .index
  | .zeroDivisor _ => .zeroDivision
  | .unknownWord _ => .key
  | .notAsciiText _ => .encoding
  | .notAsciiByte .. => .decoding
  | .noElementOperation .. | .badElementOperands .. => .elements
  | _ => .value

/-- The kind of a fault. -/
def Fault.kind : Fault → Fault.Kind
  | .setting _ => .invalidConfiguration
  | .pixels _ => .unsupportedPixelFormat
  | .fit _ => .singularFit
  | .record _ => .corruptData
  | .argument cause => cause.kind
  | .member .readOnly => .value
  | .member (.noSetter _) | .member (.missing ..) => .attribute
  | .member (.frozen _) => .frozen
  | .member (.arity _) => .type
  | .file (.noDocument _) | .file (.missing _) => .fileNotFound
  | .file (.isDirectory _) => .isADirectory
  | .file (.occupied _) => .fileExists
  | .file (.notDirectory _) => .notADirectory
  | .file (.noImage _) | .file .storedObject => .value
  | .document => .document
  | .picture => .picture
  | .unknownName => .unknownName

end Facet
