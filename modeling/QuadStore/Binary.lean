namespace QuadStore

/-- The quotient rounded to the nearest whole number, a half going to the even neighbour. -/
def roundHalfEven (num den : Nat) : Nat :=
  let q := num / den
  let r := num % den
  if 2 * r < den then q
  else if den < 2 * r then q + 1
  else q + q % 2

/-- A number has `precision` significant bits, its unit is `2 ^ (-unitExponent)`, and its magnitude
is below `2 ^ limit` units. -/
structure Format where
  precision : Nat
  unitExponent : Nat
  limit : Nat
  precision_pos : 0 < precision
  deriving DecidableEq

namespace Format

def double : Format := ⟨53, 1074, 2098, by decide⟩
def single : Format := ⟨24, 149, 277, by decide⟩

def one (f : Format) : Nat := Nat.pow 2 f.unitExponent

def Fits (f : Format) (units : Nat) : Prop :=
  units < Nat.pow 2 f.limit ∧ ∃ m e, m < Nat.pow 2 f.precision ∧ units = m * Nat.pow 2 e

def excess (f : Format) (num den : Nat) : Nat := Nat.log2 (num / den) + 1 - f.precision

def nearest (f : Format) (num den : Nat) : Nat :=
  let e := f.excess num den
  roundHalfEven num (den * Nat.pow 2 e) * Nat.pow 2 e

end Format

theorem roundHalfEven_le (num den : Nat) : roundHalfEven num den ≤ num / den + 1 := by
  unfold roundHalfEven
  dsimp only
  split
  · omega
  · split
    · omega
    · have := Nat.mod_lt (num / den) (show 0 < 2 by decide)
      omega

namespace Format

theorem quotient_lt (f : Format) (num den : Nat) :
    num / (den * Nat.pow 2 (f.excess num den)) < Nat.pow 2 f.precision := by
  rw [← Nat.div_div_eq_div_mul]
  apply Nat.div_lt_of_lt_mul
  simp only [Nat.pow_eq, ← Nat.pow_add]
  have h := Nat.lt_log2_self (n := num / den)
  refine Nat.lt_of_lt_of_le h (Nat.pow_le_pow_right (by decide) ?_)
  unfold excess
  omega

/-- Rounding up to the next power of two still leaves a number of the precision. -/
theorem nearest_significant (f : Format) (num den : Nat) :
    ∃ m e, m < Nat.pow 2 f.precision ∧ f.nearest num den = m * Nat.pow 2 e := by
  unfold nearest
  dsimp only
  generalize he : f.excess num den = e
  have hq := f.quotient_lt num den
  rw [he] at hq
  have hr := roundHalfEven_le num (den * Nat.pow 2 e)
  by_cases hm : roundHalfEven num (den * Nat.pow 2 e) < Nat.pow 2 f.precision
  · exact ⟨_, e, hm, rfl⟩
  · have heq : roundHalfEven num (den * Nat.pow 2 e) = Nat.pow 2 f.precision := by omega
    refine ⟨1, f.precision + e, Nat.one_lt_two_pow (Nat.pos_iff_ne_zero.1 f.precision_pos), ?_⟩
    rw [heq]
    simp only [Nat.one_mul, Nat.pow_eq, Nat.pow_add]

end Format

inductive Binary (f : Format) where
  | nan
  | infinite (negative : Bool)
  | finite (negative : Bool) (units : Nat) (fits : f.Fits units)
  deriving DecidableEq

abbrev Double := Binary .double
abbrev Single := Binary .single

namespace Binary

variable {f : Format}

/-- The number of a format nearest to a quotient of units; beyond the limit it is infinite. -/
def ofUnits (negative : Bool) (num den : Nat) : Binary f :=
  if h : f.nearest num den < Nat.pow 2 f.limit then
    .finite negative (f.nearest num den) ⟨h, f.nearest_significant num den⟩
  else .infinite negative

def ofRatio (negative : Bool) (num den : Nat) : Binary f := ofUnits negative (num * f.one) den

def ofInt (n : Int) : Binary f := ofRatio (n < 0) n.natAbs 1

def zero : Binary f := ofUnits false 0 1

def units? : Binary f → Option Int
  | .finite negative units _ => some (if negative then -units else units)
  | _ => none

def isNaN : Binary f → Bool
  | .nan => true
  | _ => false

def isFinite (x : Binary f) : Bool := x.units?.isSome

def abs : Binary f → Binary f
  | .finite _ units fits => .finite false units fits
  | .infinite _ => .infinite false
  | .nan => .nan

/-- Numeric order; a NaN is in no relation, and the two zeros are equal. -/
def lt : Binary f → Binary f → Bool
  | .nan, _ | _, .nan => false
  | .infinite a, .infinite b => a && !b
  | .infinite a, .finite .. => a
  | .finite .., .infinite b => !b
  | .finite a m _, .finite b n _ => (if a then -(m : Int) else m) < (if b then -(n : Int) else n)

def beq : Binary f → Binary f → Bool
  | .nan, _ | _, .nan => false
  | x, y => !lt x y && !lt y x

def le (x y : Binary f) : Bool := lt x y || beq x y

def scale : Binary f → Nat → Binary f
  | .finite negative units _, k => ofUnits negative (units * k) 1
  | .infinite negative, k => if k = 0 then .nan else .infinite negative
  | .nan, _ => .nan

def divide : Binary f → Nat → Binary f
  | .finite negative units _, k => ofUnits negative units k
  | x, _ => x

def sub (x y : Binary f) : Binary f :=
  match x, y with
  | .nan, _ | _, .nan => .nan
  | .infinite a, .infinite b => if a = b then .nan else .infinite a
  | .infinite a, .finite .. => .infinite a
  | .finite .., .infinite b => .infinite (!b)
  | .finite a m _, .finite b n _ =>
    let d := (if a then -(m : Int) else m) - (if b then -(n : Int) else n)
    if d = 0 then ofUnits (a && !b) 0 1 else ofUnits (d < 0) d.natAbs 1

def floor? (x : Binary f) : Option Int := x.units?.map (Int.fdiv · f.one)

def isWhole : Binary f → Bool
  | .finite _ units _ => units % f.one = 0
  | _ => false

/-- The same value in another format, rounded where that format is narrower. -/
def convert {g : Format} : Binary f → Binary g
  | .nan => .nan
  | .infinite negative => .infinite negative
  | .finite negative units _ => ofUnits negative (units * g.one) f.one

def ofBits (width bits : Nat) : Binary f :=
  let significand := f.precision - 1
  let negative := bits >>> (significand + width) % 2 = 1
  let exponent := bits >>> significand % Nat.pow 2 width
  let fraction := bits % Nat.pow 2 significand
  if exponent = Nat.pow 2 width - 1 then if fraction = 0 then .infinite negative else .nan
  else if exponent = 0 then ofUnits negative fraction 1
  else ofUnits negative ((Nat.pow 2 significand + fraction) * Nat.pow 2 (exponent - 1)) 1

end Binary

end QuadStore
