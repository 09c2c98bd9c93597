namespace QuadStore

abbrev Text := List UInt8

namespace Text

def ofString (s : String) : Text := s.toList.flatMap String.utf8EncodeChar

instance : Coe String Text := ⟨ofString⟩

def byte (c : Char) : UInt8 := c.toNat.toUInt8

def ofNat (n : Nat) : Text := (Nat.toDigits 10 n).map byte

def ofInt : Int → Text
  | .ofNat n => ofNat n
  | .negSucc n => byte '-' :: ofNat (n + 1)

def padded (width n : Nat) : Text :=
  let digits := ofNat n
  List.replicate (width - digits.length) (byte '0') ++ digits

def joined (separator : Text) (parts : List Text) : Text := separator.intercalate parts

def upToNul (s : Text) : Text := s.takeWhile (· ≠ 0)

/-- The parts between the occurrences of a byte; one part more than there are occurrences. -/
def parts (separator : UInt8) : Text → List Text
  | [] => [[]]
  | c :: rest =>
    if c = separator then [] :: parts separator rest
    else match parts separator rest with
      | [] => [[c]]
      | first :: more => (c :: first) :: more

end Text

namespace Ascii

def isDigit (c : UInt8) : Bool := 48 ≤ c && c ≤ 57
def isUpper (c : UInt8) : Bool := 65 ≤ c && c ≤ 90
def isLower (c : UInt8) : Bool := 97 ≤ c && c ≤ 122
def isAlpha (c : UInt8) : Bool := isUpper c || isLower c
def isAlnum (c : UInt8) : Bool := isAlpha c || isDigit c
def isHexDigit (c : UInt8) : Bool := isDigit c || (65 ≤ c && c ≤ 70) || (97 ≤ c && c ≤ 102)

/-- Blank, tab, line feed, vertical tab, form feed and carriage return. -/
def isSpace (c : UInt8) : Bool := c = 32 || (9 ≤ c && c ≤ 13)

def toLower (c : UInt8) : UInt8 := if isUpper c then c + 32 else c
def toUpper (c : UInt8) : UInt8 := if isLower c then c - 32 else c

def digitValue (c : UInt8) : Nat :=
  if isDigit c then c.toNat - 48
  else if 97 ≤ toLower c && toLower c ≤ 102 then (toLower c).toNat - 87
  else 0

end Ascii

namespace Text

def lower (s : Text) : Text := s.map Ascii.toLower

def toNat (base : Nat) (digits : Text) : Nat :=
  digits.foldl (fun n c => base * n + Ascii.digitValue c) 0

end Text

end QuadStore
