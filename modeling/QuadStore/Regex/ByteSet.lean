import QuadStore.Text

namespace QuadStore.Regex

inductive ByteClass where
  | alnum | alpha | blank | cntrl | digit | graph | lower | print | punct | space | upper | xdigit
  | word
  deriving DecidableEq

namespace ByteClass

def contains (k : ByteClass) (c : UInt8) : Bool :=
  match k with
  | alnum => Ascii.isAlnum c
  | alpha => Ascii.isAlpha c
  | blank => c = 32 || c = 9
  | cntrl => c < 32 || c = 127
  | digit => Ascii.isDigit c
  | graph => 32 < c && c < 127
  | lower => Ascii.isLower c
  | print => 32 ≤ c && c < 127
  | punct => 32 < c && c < 127 && !Ascii.isAlnum c
  | space => Ascii.isSpace c
  | upper => Ascii.isUpper c
  | xdigit => Ascii.isHexDigit c
  | word => Ascii.isAlnum c || c = Text.byte '_'

def names : List (Text × ByteClass) :=
  [("d", digit), ("w", word), ("s", space), ("alnum", alnum), ("alpha", alpha), ("blank", blank),
   ("cntrl", cntrl), ("digit", digit), ("graph", graph), ("lower", lower), ("print", print),
   ("punct", punct), ("space", space), ("upper", upper), ("xdigit", xdigit)]

def ofName? (name : Text) : Option ByteClass := names.lookup name.lower

end ByteClass

inductive ByteItem where
  | single (c : UInt8)
  | range (first last : UInt8)
  | anyCase (c : UInt8)
  | ofClass (k : ByteClass) (negated : Bool)
  deriving DecidableEq

def signedRank (c : UInt8) : UInt8 := c ^^^ 0x80

def ByteItem.contains (item : ByteItem) (c : UInt8) : Bool :=
  match item with
  | single d => c = d
  | range first last => signedRank first ≤ signedRank c && signedRank c ≤ signedRank last
  | anyCase d => Ascii.toLower c = Ascii.toLower d
  | ofClass k negated => k.contains c != negated

structure ByteSet where
  negated : Bool
  items : List ByteItem
  deriving DecidableEq

namespace ByteSet

def contains (s : ByteSet) (c : UInt8) : Bool := s.items.any (·.contains c) != s.negated

def singleton (c : UInt8) : ByteSet := ⟨false, [.single c]⟩

def dot : ByteSet := ⟨true, [.single 10, .single 13]⟩

end ByteSet

def byteNames : List Text := List.map Text.ofString
  ["NUL", "SOH", "STX", "ETX", "EOT", "ENQ", "ACK", "alert", "backspace", "tab", "newline",
   "vertical-tab", "form-feed", "carriage-return", "SO", "SI", "DLE", "DC1", "DC2", "DC3", "DC4",
   "NAK", "SYN", "ETB", "CAN", "EM", "SUB", "ESC", "IS4", "IS3", "IS2", "IS1", "space",
   "exclamation-mark", "quotation-mark", "number-sign", "dollar-sign", "percent-sign", "ampersand",
   "apostrophe", "left-parenthesis", "right-parenthesis", "asterisk", "plus-sign", "comma",
   "hyphen", "period", "slash", "zero", "one", "two", "three", "four", "five", "six", "seven",
   "eight", "nine", "colon", "semicolon", "less-than-sign", "equals-sign", "greater-than-sign",
   "question-mark", "commercial-at", "A", "B", "C", "D", "E", "F", "G", "H", "I", "J", "K", "L",
   "M", "N", "O", "P", "Q", "R", "S", "T", "U", "V", "W", "X", "Y", "Z", "left-square-bracket",
   "backslash", "right-square-bracket", "circumflex", "underscore", "grave-accent", "a", "b", "c",
   "d", "e", "f", "g", "h", "i", "j", "k", "l", "m", "n", "o", "p", "q", "r", "s", "t", "u", "v",
   "w", "x", "y", "z", "left-curly-bracket", "vertical-line", "right-curly-bracket", "tilde",
   "DEL"]

def byteOfName? (name : Text) : Option UInt8 := (byteNames.idxOf? name).map Nat.toUInt8

end QuadStore.Regex
