import QuadStore.DateTime
import QuadStore.Term
import QuadStore.Text.Utf8

namespace QuadStore

namespace OrderKey

def places (count : Nat) {f : Format} (x : Binary f) : Text :=
  let n := roundHalfEven ((x.units?.getD 0).natAbs * Nat.pow 10 count) f.one
  Text.ofNat (n / Nat.pow 10 count) ++ "." ++ Text.padded count (n % Nat.pow 10 count)

/-- A class digit, three digits of exponent, and a mantissa with seventeen places. -/
def assemble (sign exponent : Nat) (mantissa : Double) : Text :=
  Text.ofNat sign ++ Text.padded 3 exponent ++ places 17 mantissa

def ten : Double := .ofInt 10

def belowTen (x : Double) : Bool := x.lt ten
def belowOne (x : Double) : Bool := x.lt (.ofInt 1)

def decades : Nat := 330

def shrink : Nat → Double → Nat → Double × Nat
  | 0, x, e => (x, e)
  | fuel + 1, x, e => if belowTen x then (x, e) else shrink fuel (x.divide 10) (e + 1)

/-- Multiplies by ten until the number is one or more, counting the steps. -/
def grow : Nat → Double → Nat → Double × Nat
  | 0, x, e => (x, e)
  | fuel + 1, x, e => if belowOne x then grow fuel (x.scale 10) (e + 1) else (x, e)

/-- A number of one or more is keyed by its exponent, a smaller one by how far its exponent is from
-999; below zero both count the other way and the mantissa is taken from ten. -/
def ofNonzero (negative : Bool) (magnitude : Double) : Text :=
  if belowOne magnitude then
    let (m, e) := grow decades magnitude 0
    if negative then assemble 2 e (ten.sub m) else assemble 4 (999 - e) m
  else
    let (m, e) := shrink decades magnitude 0
    if negative then assemble 1 (999 - e) (ten.sub m) else assemble 5 e m

/-- A text of 23 bytes whose order is the order of the numbers; NaN comes last. -/
def ofDouble (x : Double) : Text :=
  match x with
  | .nan => assemble 7 0 .zero
  | .infinite true => assemble 0 0 .zero
  | .infinite false => assemble 6 0 .zero
  | .finite negative units _ =>
    if units = 0 then assemble 3 0 .zero else ofNonzero negative x.abs

def ofText (s : Text) : Text := ofDouble (Binary.ofText s)

def ofTime (s : Text) : Text :=
  match DateTime.millisOf? s with
  | some millis => ofDouble (.ofInt millis)
  | none => ofDouble .nan

end OrderKey

namespace Term

def separator : UInt8 := 0

def numberMark : Text := [Text.byte 'N', separator]
def timeMark : Text := [Text.byte 'D', separator]

def numberKey (x : Double) : Text := numberMark ++ OrderKey.ofDouble x

/-- The part of an object's stored text that decides its place among numbers or times. -/
def orderKey? : Term → Option Text
  | literal lexical (.datatype d) =>
    if Xsd.isNumeric d then some (numberMark ++ OrderKey.ofText lexical)
    else if d = Xsd.dateTime then some (timeMark ++ OrderKey.ofTime lexical)
    else none
  | _ => none

def encode : Term → Text
  | iri v => v
  | blank label => "_:" ++ label
  | var name => "?" ++ name
  | defaultGraph => []
  | literal lexical a => annotated lexical a

def encodeObject (t : Term) : Text :=
  match t, t.orderKey? with
  | literal lexical (.datatype d), some key =>
    if Xsd.isNumeric d then key ++ separator :: d ++ separator :: lexical
    else key ++ separator :: lexical
  | _, _ => t.encode

def splitLastQuote? (s : Text) : Option (Text × Text) :=
  let tail := s.reverse.takeWhile (· ≠ Text.byte '"')
  if tail.length = s.length then none
  else some (s.take (s.length - tail.length - 1), tail.reverse)

def unbracketed (s : Text) : Text :=
  match s with
  | c :: rest =>
    if c = Text.byte '<' ∧ rest.getLast? = some (Text.byte '>') then rest.dropLast else s
  | [] => s

/-- The literal of a text that starts with a quote, whose rest is given. -/
def decodeLiteral? (rest : Text) : Option Term := do
  let (lexical, suffix) ← splitLastQuote? rest
  match suffix with
  | [] => return plain lexical
  | c :: after =>
    if c = Text.byte '@' then return tagged lexical after
    else if ("^^" : Text).isPrefixOf suffix then return typed lexical (unbracketed (suffix.drop 2))
    else none

def decode (s : Text) : Term :=
  match s with
  | [] => defaultGraph
  | c :: rest =>
    if c = Text.byte '"' then (decodeLiteral? rest).getD (iri s)
    else if c = Text.byte '?' then var rest
    else if ("_:" : Text).isPrefixOf s then blank (rest.drop 1)
    else iri s

def decodeObject (s : Text) : Term :=
  if numberMark.isPrefixOf s then
    match s.parts separator with
    | _ :: _ :: datatype :: lexical :: _ => typed lexical datatype
    | _ => iri s
  else if timeMark.isPrefixOf s then
    match s.parts separator with
    | _ :: _ :: lexical :: _ => typed lexical Xsd.dateTime
    | _ => iri s
  else decode s

def stored (t : Term) : Position → Text
  | .object => t.encodeObject
  | _ => t.encode

def ofStored (s : Text) : Position → Term
  | .object => decodeObject s
  | _ => decode s

end Term

end QuadStore
