import QuadStore.Binary.Reading
import QuadStore.Binary.Shortest
import QuadStore.Term

namespace QuadStore.Payload

def style : NumberStyle := ⟨15, true, "null", "null"⟩

def element (x : Single) : Text :=
  if x.isFinite then style.write (x.convert : Double) else "null"

def write (v : Vector) : Text := "[" ++ Text.joined "," (v.map element) ++ "]"

def isBlank (c : UInt8) : Bool := c = 32 || c = 9 || c = 10 || c = 13

def skip (s : Text) : Text := s.dropWhile isBlank

def digits? (s : Text) : Option (Text × Text) :=
  let digits := s.takeWhile Ascii.isDigit
  if digits = [] then none else some (digits, s.dropWhile Ascii.isDigit)

def whole? (s : Text) : Option (Text × Text) := do
  let (digits, rest) ← digits? s
  if digits.head? = some (Text.byte '0') ∧ digits.length ≠ 1 then none else return (digits, rest)

def fraction? (s : Text) : Option (Text × Text) :=
  match s with
  | c :: rest =>
    if c = Text.byte '.' then (digits? rest).map fun (digits, rest) => (c :: digits, rest)
    else some ([], s)
  | [] => some ([], s)

def exponent? (s : Text) : Option (Text × Text) :=
  match s with
  | c :: rest =>
    if Ascii.toLower c = Text.byte 'e' then
      let (sign, body) : Text × Text := match rest with
        | d :: after => if d = Text.byte '+' ∨ d = Text.byte '-' then ([d], after) else ([], rest)
        | [] => ([], rest)
      (digits? body).map fun (digits, rest) => (c :: sign ++ digits, rest)
    else some ([], s)
  | [] => some ([], s)

def number? (s : Text) : Option (Single × Text) := do
  let (sign, body) : Text × Text := match s with
    | c :: rest => if c = Text.byte '-' then ([c], rest) else ([], s)
    | [] => ([], s)
  let (digits, rest) ← whole? body
  let (fraction, rest) ← fraction? rest
  let (exponent, rest) ← exponent? rest
  let x := Binary.ofText (sign ++ digits ++ fraction ++ exponent)
  if x.isFinite then return (x.convert, rest) else none

def element? (s : Text) : Option (Single × Text) :=
  if ("true" : Text).isPrefixOf s then some (.ofInt 1, s.drop 4)
  else if ("false" : Text).isPrefixOf s then some (.ofInt 0, s.drop 5)
  else number? s

/-- The elements up to the end of the array; the fuel is the length of the text. -/
def elements? : Nat → Text → Option (Vector × Text)
  | 0, _ => none
  | fuel + 1, s => do
    let (x, rest) ← element? (skip s)
    match skip rest with
    | c :: rest =>
      if c = Text.byte ',' then
        let (xs, rest) ← elements? fuel rest
        return (x :: xs, rest)
      else if c = Text.byte ']' then return ([x], rest)
      else none
    | [] => none

def read? (s : Text) : Option Vector := do
  match skip s with
  | c :: rest =>
    if c ≠ Text.byte '[' then none
    let (xs, rest) ← match skip rest with
      | d :: after => if d = Text.byte ']' then some ([], after) else elements? s.length rest
      | [] => none
    if skip rest = [] then return xs else none
  | [] => none

end QuadStore.Payload
