import QuadStore.Binary
import QuadStore.Text

namespace QuadStore.Binary

/-- Beyond this many digits before or after the point every double is infinite or zero. -/
def digitRange : Int := 1200

def ofScaled (negative : Bool) (base digits : Nat) (exponent : Int) : Double :=
  if digits = 0 then ofUnits negative 0 1
  else
    let size := (Nat.toDigits base digits).length + exponent
    if digitRange < size then .infinite negative
    else if size < -digitRange then ofUnits negative 0 1
    else ofRatio negative (digits * Nat.pow base exponent.toNat) (Nat.pow base (-exponent).toNat)

namespace Reading

def afterWord? (word s : Text) : Option Text :=
  if (s.take word.length).map Ascii.toLower = word then some (s.drop word.length) else none

def signed (s : Text) : Bool × Text :=
  match s with
  | c :: rest =>
    if c = Text.byte '-' then (true, rest)
    else if c = Text.byte '+' then (false, rest)
    else (false, s)
  | [] => (false, s)

def exponent (mark : UInt8) (s : Text) : Int × Text :=
  match s with
  | [] => (0, s)
  | c :: rest =>
    if Ascii.toLower c = mark then
      let (negative, body) := signed rest
      let digits := body.takeWhile Ascii.isDigit
      if digits = [] then (0, s)
      else
        let n : Int := Text.toNat 10 digits
        (if negative then -n else n, body.dropWhile Ascii.isDigit)
    else (0, s)

/-- Digits with at most one point among them; without a digit there is no number. -/
def significand? (isDigit : UInt8 → Bool) (s : Text) : Option (Text × Text × Text) :=
  let whole := s.takeWhile isDigit
  let rest := s.dropWhile isDigit
  let pointed := match rest with
    | c :: after => if c = Text.byte '.' then some after else none
    | [] => none
  match pointed with
  | none => if whole = [] then none else some (whole, [], rest)
  | some after =>
    let fraction := after.takeWhile isDigit
    if whole = [] && fraction = [] then none
    else some (whole, fraction, after.dropWhile isDigit)

def decimal? (negative : Bool) (s : Text) : Option (Double × Text) := do
  let (whole, fraction, rest) ← significand? Ascii.isDigit s
  let (e, rest) := exponent (Text.byte 'e') rest
  return (ofScaled negative 10 (Text.toNat 10 (whole ++ fraction)) (e - fraction.length), rest)

def hexadecimal? (negative : Bool) (s : Text) : Option (Double × Text) := do
  let body ← afterWord? "0x" s
  let (whole, fraction, rest) ← significand? Ascii.isHexDigit body
  let (e, rest) := exponent (Text.byte 'p') rest
  return (ofScaled negative 2 (Text.toNat 16 (whole ++ fraction)) (e - 4 * fraction.length), rest)

def infinity? (negative : Bool) (s : Text) : Option (Double × Text) := do
  let rest ← (afterWord? "infinity" s).or (afterWord? "inf" s)
  return (.infinite negative, rest)

def nan? (s : Text) : Option (Double × Text) := do
  let rest ← afterWord? "nan" s
  let payload := match rest with
    | c :: after =>
      if c = Text.byte '(' then
        match after.dropWhile fun c => Ascii.isAlnum c || c = Text.byte '_' with
        | d :: rest => if d = Text.byte ')' then some rest else none
        | [] => none
      else none
    | [] => none
  return (.nan, payload.getD rest)

end Reading

open Reading in
def read? (s : Text) : Option (Double × Text) :=
  let (negative, body) := signed (s.dropWhile Ascii.isSpace)
  (infinity? negative body).or <| (nan? body).or <|
    (hexadecimal? negative body).or (decimal? negative body)

/-- The number at the front of a text up to its first NUL; NaN if there is none. -/
def ofText (s : Text) : Double :=
  match read? s.upToNul with
  | some (x, _) => x
  | none => .nan

end QuadStore.Binary
