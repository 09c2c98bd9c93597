import QuadStore.Proofs.KeyOrder

namespace QuadStore

namespace Binary

variable {f : Format}

def neg : Binary f → Binary f
  | .nan => .nan
  | .infinite negative => .infinite !negative
  | .finite negative units fits => .finite (!negative) units fits

def add (x y : Binary f) : Binary f := x.sub y.neg

theorem units?_finite (negative : Bool) {u : Nat} (fits : f.Fits u) :
    (Binary.finite negative u fits).units? = some (if negative then -(u : Int) else u) := rfl

theorem units?_neg {x : Binary f} {n : Int} (h : x.units? = some n) : x.neg.units? = some (-n) := by
  cases x with
  | nan => cases h
  | infinite => cases h
  | finite negative u fits =>
    cases h
    cases negative <;> simp [neg, units?]

end Binary

namespace OrderKey

def IsWhole (x : Double) (n : Int) : Prop := ∃ fits, x = .finite (decide (n < 0)) (n.natAbs * one) fits

variable {x y : Double} {m n : Int}

theorem IsWhole.units? (h : IsWhole x n) : x.units? = some (n * one) := by
  obtain ⟨fits, rfl⟩ := h
  rw [Binary.units?_finite, Int.natCast_mul]
  by_cases below : n < 0
  · have size : (n.natAbs : Int) = -n := by omega
    rw [if_pos (decide_eq_true below), size, Int.neg_mul, Int.neg_neg]
  · have size : (n.natAbs : Int) = n := by omega
    rw [if_neg (by simpa using below), size]

theorem isWhole_ofUnits {negative : Bool} (small : n.natAbs < wholeLimit) (sign : negative = decide (n < 0)) :
    IsWhole (.ofUnits negative (n.natAbs * one) 1) n := by
  subst sign
  exact ⟨fits_whole small, Binary.ofUnits_of_nearest (fits_whole small) (nearest_whole small)⟩

theorem isWhole_ofInt (small : n.natAbs < wholeLimit) : IsWhole (.ofInt n) n := by
  unfold Binary.ofInt Binary.ofRatio
  exact isWhole_ofUnits small rfl

theorem IsWhole.unique (hx : IsWhole x n) (hy : IsWhole y n) : x = y := by
  obtain ⟨_, rfl⟩ := hx
  obtain ⟨_, rfl⟩ := hy
  rfl

theorem IsWhole.scale (h : IsWhole x n) {k : Nat} (pos : 0 < k) (small : (n * k).natAbs < wholeLimit) :
    IsWhole (x.scale k) (n * k) := by
  obtain ⟨fits, rfl⟩ := h
  have units : n.natAbs * one * k = (n * k).natAbs * one := by
    rw [Int.natAbs_mul, Int.natAbs_natCast, Nat.mul_right_comm]
  have sign : decide (n < 0) = decide (n * k < 0) := by
    have factor : (0 : Int) < k := Int.natCast_pos.2 pos
    rw [decide_eq_decide]
    constructor
    · exact fun below => Int.mul_neg_of_neg_of_pos below factor
    · exact fun below => by_contra fun least => by
        have product := Int.mul_nonneg (Int.not_lt.1 least) factor.le
        omega
  have scaled : Binary.scale (.finite (decide (n < 0)) (n.natAbs * one) fits) k =
      .ofUnits (decide (n < 0)) (n.natAbs * one * k) 1 := rfl
  rw [scaled, units]
  exact isWhole_ofUnits small sign

theorem sub_zero_sign {a b : Bool} {u v : Nat} (first : a = decide (m < 0))
    (left : (if a then -(u : Int) else u) = m * one) (right : (if b then -(v : Int) else v) = m * one) :
    (a && !b) = false := by
  cases a with
  | false => rfl
  | true =>
    cases b with
    | true => rfl
    | false =>
      have below : m < 0 := by simpa using first.symm
      have product := Int.mul_neg_of_neg_of_pos below (Int.natCast_pos.2 one_pos)
      rw [if_neg Bool.false_ne_true] at right
      omega

theorem IsWhole.sub (hx : IsWhole x m) (hy : y.units? = some (n * one)) (small : (m - n).natAbs < wholeLimit) :
    IsWhole (x.sub y) (m - n) := by
  have left := hx.units?
  obtain ⟨fits, rfl⟩ := hx
  cases y with
  | nan => cases hy
  | infinite => cases hy
  | finite b v fits' =>
    rw [Binary.units?_finite, Option.some_inj] at left hy
    have difference : m * (one : Int) - n * one = (m - n) * one := (Int.sub_mul ..).symm
    unfold Binary.sub
    dsimp only
    rw [left, hy, difference]
    rcases Int.lt_trichotomy (m - n) 0 with below | zero | above
    · have product := Int.mul_neg_of_neg_of_pos below (Int.natCast_pos.2 one_pos)
      rw [if_neg (Int.ne_of_lt product), Int.natAbs_mul, Int.natAbs_natCast]
      have sign : decide ((m - n) * (one : Int) < 0) = decide (m - n < 0) := by
        rw [decide_eq_true product, decide_eq_true below]
      exact isWhole_ofUnits small sign
    · have same : n = m := by omega
      subst same
      rw [zero, Int.zero_mul, if_pos rfl, sub_zero_sign rfl left hy]
      have none_ := isWhole_ofUnits (n := 0) (by decide) (rfl : false = decide ((0 : Int) < 0))
      rw [Int.natAbs_zero, Nat.zero_mul] at none_
      exact none_
    · have product := Int.mul_pos above (Int.natCast_pos.2 one_pos)
      rw [if_neg (Int.ne_of_gt product), Int.natAbs_mul, Int.natAbs_natCast]
      have sign : decide ((m - n) * (one : Int) < 0) = decide (m - n < 0) := by
        rw [decide_eq_false (Int.not_lt.2 product.le), decide_eq_false (Int.not_lt.2 above.le)]
      exact isWhole_ofUnits small sign

theorem IsWhole.add (hx : IsWhole x m) (hy : IsWhole y n) (small : (m + n).natAbs < wholeLimit) :
    IsWhole (x.add y) (m + n) := by
  have opposite := Binary.units?_neg hy.units?
  rw [← Int.neg_mul] at opposite
  have sum : m + n = m - -n := by omega
  rw [sum] at small ⊢
  exact hx.sub opposite small

end OrderKey

end QuadStore
