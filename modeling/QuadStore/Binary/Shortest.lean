import QuadStore.Binary
import QuadStore.Text

namespace QuadStore

/-- The greatest `p` with `10 ^ p ≤ num / den`, for a positive quotient. -/
def decimalExponent (num den : Nat) : Int :=
  let p : Int := (Nat.toDigits 10 num).length - (Nat.toDigits 10 den).length
  if num * Nat.pow 10 (-p).toNat < den * Nat.pow 10 p.toNat then p - 1 else p

/-- A decimal number `digits * 10 ^ exponent`. -/
structure Decimal where
  digits : Nat
  exponent : Int
  deriving DecidableEq

namespace Decimal

/-- The same value without zeros at the end; the fuel is the number of digits. -/
def trimmed : Nat → Decimal → Decimal
  | 0, d => d
  | fuel + 1, d =>
    if d.digits ≠ 0 ∧ d.digits % 10 = 0 then trimmed fuel ⟨d.digits / 10, d.exponent + 1⟩ else d

def leading (d : Decimal) : Int := (Text.ofNat d.digits).length - 1 + d.exponent

end Decimal

namespace Binary

/-- The two decimals with `places` significant digits around a quotient, the nearer one first. -/
def neighbours (places : Nat) (num den : Nat) : List Decimal :=
  let e := decimalExponent num den - (places - 1)
  let scaled := num * Nat.pow 10 (-e).toNat
  let grid := den * Nat.pow 10 e.toNat
  let below := scaled / grid
  if roundHalfEven scaled grid = below then [⟨below, e⟩, ⟨below + 1, e⟩]
  else [⟨below + 1, e⟩, ⟨below, e⟩]

def readsBack (f : Format) (units : Nat) (d : Decimal) : Bool :=
  f.nearest (d.digits * Nat.pow 10 d.exponent.toNat * f.one) (Nat.pow 10 (-d.exponent).toNat) =
    units

/-- The first count of digits, from `places` on, with a decimal that reads back. -/
def search (f : Format) (units : Nat) : Nat → Nat → Decimal
  | 0, places => (neighbours places units f.one).headD ⟨0, 0⟩
  | fuel + 1, places =>
    match (neighbours places units f.one).find? (readsBack f units) with
    | some d => d
    | none => search f units fuel (places + 1)

def maxDigits : Nat := 17

def shortest (f : Format) (units : Nat) : Decimal :=
  (search f units (maxDigits - 1) 1).trimmed maxDigits

end Binary

/-- How a decimal is written: the exponents below which it is positional, and whether a whole
number gets a point. -/
structure NumberStyle where
  positionalBelow : Int
  pointed : Bool
  nan : Text
  infinity : Text

namespace NumberStyle

def positionalFrom : Int := -4

def positional (pointed : Bool) (d : Decimal) : Text :=
  let digits := Text.ofNat d.digits
  if 0 ≤ d.exponent then
    digits ++ List.replicate d.exponent.toNat (Text.byte '0') ++
      (if pointed then ".0" else "" : Text)
  else
    let places := (-d.exponent).toNat
    if digits.length ≤ places then
      ("0." : Text) ++ List.replicate (places - digits.length) (Text.byte '0') ++ digits
    else digits.take (digits.length - places) ++ "." ++ digits.drop (digits.length - places)

def scientific (d : Decimal) : Text :=
  let digits := Text.ofNat d.digits
  let e := d.leading
  digits.take 1 ++ (if digits.length = 1 then [] else Text.byte '.' :: digits.drop 1) ++
    (if e < 0 then "e-" else "e+" : Text) ++ Text.padded 2 e.natAbs

def magnitude (style : NumberStyle) (d : Decimal) : Text :=
  if positionalFrom ≤ d.leading ∧ d.leading < style.positionalBelow then
    positional style.pointed d
  else scientific d

def write (style : NumberStyle) {f : Format} : Binary f → Text
  | .nan => style.nan
  | .infinite negative => (if negative then "-" else "" : Text) ++ style.infinity
  | .finite negative units _ =>
    (if negative then "-" else "" : Text) ++
      if units = 0 then (if style.pointed then "0.0" else "0" : Text)
      else style.magnitude (Binary.shortest f units)

end NumberStyle

end QuadStore
