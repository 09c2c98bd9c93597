import Mathlib.Data.Rat.Cast.Order
import Mathlib.Tactic.Linarith
import Mathlib.Tactic.Ring
import QuadStore.Binary

namespace QuadStore

theorem roundHalfEven_near (num den q : Nat) (low : 2 * q * den < 2 * num + den)
    (high : 2 * num < (2 * q + 1) * den) : roundHalfEven num den = q := by
  have pos : 0 < den := by
    rcases Nat.eq_zero_or_pos den with rfl | pos
    · omega
    · exact pos
  have split_ := Nat.div_add_mod num den
  have small := Nat.mod_lt num pos
  unfold roundHalfEven
  generalize num / den = k at split_ ⊢
  generalize num % den = r at split_ small ⊢
  have upper : k ≤ q := by
    by_contra above
    have : (q + 1) * den ≤ den * k := by
      rw [Nat.mul_comm den k]
      exact Nat.mul_le_mul_right den (by omega)
    nlinarith
  have lower : q ≤ k + 1 := by
    by_contra below
    have : (k + 2) * den ≤ q * den := Nat.mul_le_mul_right den (by omega)
    nlinarith
  dsimp only
  rcases Nat.lt_or_eq_of_le upper with lt | rfl
  · have next : q = k + 1 := by omega
    subst next
    rw [if_neg (by nlinarith), if_pos (by nlinarith)]
  · rw [if_pos (by nlinarith)]

theorem roundHalfEven_bounds (num den : Nat) (pos : 0 < den) :
    2 * (roundHalfEven num den * den) ≤ 2 * num + den ∧ 2 * num ≤ 2 * (roundHalfEven num den * den) + den := by
  have split_ := Nat.div_add_mod num den
  have small := Nat.mod_lt num pos
  unfold roundHalfEven
  generalize num / den = k at split_ ⊢
  generalize num % den = r at split_ small ⊢
  dsimp only
  split
  · constructor <;> nlinarith
  · split
    · constructor <;> nlinarith
    · have half : 2 * r = den := by omega
      have parity := Nat.mod_lt k (show 0 < 2 by decide)
      rcases (show k % 2 = 0 ∨ k % 2 = 1 by omega) with even | odd
      · rw [even]
        constructor <;> nlinarith
      · rw [odd]
        constructor <;> nlinarith

theorem le_roundHalfEven (num den : Nat) : num / den ≤ roundHalfEven num den := by
  unfold roundHalfEven
  dsimp only
  split
  · exact Nat.le_refl _
  · split
    · omega
    · omega

theorem roundHalfEven_mono {m n : Nat} (h : m ≤ n) (den : Nat) (pos : 0 < den) :
    roundHalfEven m den ≤ roundHalfEven n den := by
  rcases Nat.lt_or_ge (roundHalfEven n den) (roundHalfEven m den) with less | le
  · have step : (roundHalfEven n den + 1) * den ≤ roundHalfEven m den * den :=
      Nat.mul_le_mul_right den less
    have upper := (roundHalfEven_bounds m den pos).1
    have lower := (roundHalfEven_bounds n den pos).2
    rw [Nat.add_mul, Nat.one_mul] at step
    have same : m = n := by omega
    rw [same]
  · exact le

theorem roundHalfEven_scale (num den k : Nat) (pos : 0 < k) :
    roundHalfEven (num * k) (den * k) = roundHalfEven num den := by
  unfold roundHalfEven
  rw [Nat.mul_div_mul_right num den pos, Nat.mul_mod_mul_right]
  have lt : 2 * (num % den * k) < den * k ↔ 2 * (num % den) < den := by
    rw [← Nat.mul_assoc]
    exact Nat.mul_lt_mul_right pos
  have gt : den * k < 2 * (num % den * k) ↔ den < 2 * (num % den) := by
    rw [← Nat.mul_assoc]
    exact Nat.mul_lt_mul_right pos
  simp only [lt, gt]

namespace Format

variable (f : Format)

theorem one_pos : 0 < f.one := Nat.two_pow_pos f.unitExponent

theorem nearest_scale (num den k : Nat) (pos : 0 < k) : f.nearest (num * k) (den * k) = f.nearest num den := by
  have same : f.excess (num * k) (den * k) = f.excess num den := by
    unfold excess
    rw [Nat.mul_div_mul_right num den pos]
  unfold nearest
  dsimp only
  rw [same, Nat.mul_right_comm den k, roundHalfEven_scale _ _ _ pos]

theorem nearest_congr {num den num' den' : Nat} (pos : 0 < den) (pos' : 0 < den')
    (same : num * den' = num' * den) : f.nearest num den = f.nearest num' den' := by
  rw [← f.nearest_scale num den den' pos', ← f.nearest_scale num' den' den pos, same, Nat.mul_comm den den']

theorem lt_of_excess (num : Nat) {den : Nat} (pos : 0 < den) :
    num < den * (2 ^ f.precision * 2 ^ f.excess num den) := by
  have h := f.quotient_lt num den
  have grid : 0 < den * Nat.pow 2 (f.excess num den) := Nat.mul_pos pos (Nat.two_pow_pos _)
  calc num < Nat.pow 2 f.precision * (den * Nat.pow 2 (f.excess num den)) :=
        (Nat.div_lt_iff_lt_mul grid).1 h
    _ = den * (2 ^ f.precision * 2 ^ f.excess num den) := by
      simp only [Nat.pow_eq]
      ring

theorem le_of_excess (num den : Nat) (excess : 0 < f.excess num den) :
    den * (2 ^ (f.precision - 1) * 2 ^ f.excess num den) ≤ num := by
  have bits : f.excess num den + f.precision = Nat.log2 (num / den) + 1 := by
    unfold Format.excess at excess ⊢
    omega
  have large : num / den ≠ 0 := by
    intro zero
    have precision := f.precision_pos
    rw [zero, Nat.log2_zero] at bits
    omega
  have exponent : f.precision - 1 + f.excess num den = Nat.log2 (num / den) := by
    have precision := f.precision_pos
    omega
  calc den * (2 ^ (f.precision - 1) * 2 ^ f.excess num den)
      = den * 2 ^ Nat.log2 (num / den) := by rw [← Nat.pow_add, exponent]
    _ ≤ den * (num / den) := Nat.mul_le_mul_left den (Nat.log2_self_le large)
    _ ≤ num := Nat.mul_div_le num den

theorem multiple_of_near {m k e h top num den : Nat} (significant : m < top) (whole : top = h * 2)
    (pos : 0 < den) (below : 0 < e → den * (h * 2 ^ e) ≤ num)
    (high : top * 2 * num < top * 2 * (m * 2 ^ k * den) + m * 2 ^ k * den) :
    ∃ q, m * 2 ^ k = q * 2 ^ e := by
  rcases Nat.lt_or_ge k e with lt | ge
  · exfalso
    have stored := below (by omega)
    have step : 2 ^ k * 2 ≤ 2 ^ e := by
      rw [← Nat.pow_succ]
      exact Nat.pow_le_pow_right (by decide) lt
    have next : (m + 1) * 2 ^ k ≤ h * 2 ^ e := by
      calc (m + 1) * 2 ^ k ≤ top * 2 ^ k := Nat.mul_le_mul_right _ significant
        _ = h * (2 ^ k * 2) := by rw [whole]; ring
        _ ≤ h * 2 ^ e := Nat.mul_le_mul_left h step
    have far : den * ((m + 1) * 2 ^ k) ≤ num := (Nat.mul_le_mul_left den next).trans stored
    have scaled : top * 2 * (m * 2 ^ k * den + 2 ^ k * den) ≤ top * 2 * num := by
      apply Nat.mul_le_mul_left
      calc m * 2 ^ k * den + 2 ^ k * den = den * ((m + 1) * 2 ^ k) := by ring
        _ ≤ num := far
    have small : m * (2 ^ k * den) < top * (2 ^ k * den) :=
      Nat.mul_lt_mul_of_pos_right significant (Nat.mul_pos (Nat.two_pow_pos k) pos)
    rw [Nat.mul_assoc m] at scaled high
    generalize 2 ^ k * den = unit at scaled small high
    have positive := Nat.zero_le (top * unit)
    linarith
  · refine ⟨m * 2 ^ (k - e), ?_⟩
    rw [Nat.mul_assoc, ← Nat.pow_add, Nat.sub_add_cancel ge]

theorem le_of_near {q e top num den : Nat} (some_ : 0 < top) (pos : 0 < den)
    (above : num < den * (top * 2 ^ e))
    (low : top * 2 * (q * 2 ^ e * den) < top * 2 * num + q * 2 ^ e * den) : q ≤ top := by
  by_contra beyond
  have far : (top + 1) * 2 ^ e * den ≤ q * 2 ^ e * den :=
    Nat.mul_le_mul_right den (Nat.mul_le_mul_right _ (by omega))
  have unit : 0 < 2 ^ e * den := Nat.mul_pos (Nat.two_pow_pos e) pos
  nlinarith

/-- A number of the format is the rounding of everything that is close enough to it. -/
theorem nearest_near {u num den : Nat} (fits : ∃ m k, m < 2 ^ f.precision ∧ u = m * 2 ^ k)
    (low : 2 ^ (f.precision + 1) * (u * den) < 2 ^ (f.precision + 1) * num + u * den)
    (high : 2 ^ (f.precision + 1) * num < 2 ^ (f.precision + 1) * (u * den) + u * den) :
    f.nearest num den = u := by
  obtain ⟨m, k, significant, rfl⟩ := fits
  have pos : 0 < den := by
    rcases Nat.eq_zero_or_pos den with rfl | pos
    · simp at high
    · exact pos
  have above := f.lt_of_excess num pos
  have below := f.le_of_excess num den
  unfold nearest
  dsimp only
  generalize f.excess num den = e at above below
  rw [Nat.pow_succ] at low high
  have whole : 2 ^ f.precision = 2 ^ (f.precision - 1) * 2 := by
    have precision := f.precision_pos
    rw [← Nat.pow_succ]
    congr 1
    omega
  have some_ : 0 < 2 ^ f.precision := Nat.two_pow_pos _
  generalize 2 ^ (f.precision - 1) = h at whole below
  generalize 2 ^ f.precision = top at *
  obtain ⟨q, eq⟩ := multiple_of_near significant whole pos below high
  rw [eq] at low high ⊢
  have bounded := le_of_near some_ pos above low
  have near : roundHalfEven num (den * Nat.pow 2 e) = q := by
    simp only [Nat.pow_eq]
    have error : q * 2 ^ e * den ≤ top * (2 ^ e * den) := by
      calc q * 2 ^ e * den ≤ top * 2 ^ e * den :=
            Nat.mul_le_mul_right den (Nat.mul_le_mul_right _ bounded)
        _ = top * (2 ^ e * den) := by ring
    apply roundHalfEven_near
    · apply Nat.lt_of_mul_lt_mul_left (a := top)
      nlinarith
    · apply Nat.lt_of_mul_lt_mul_left (a := top)
      nlinarith
  rw [near]
  rfl

theorem nearest_zero (den : Nat) : f.nearest 0 den = 0 := by
  unfold nearest roundHalfEven
  simp

theorem nearest_exact {u den : Nat} (fits : ∃ m k, m < 2 ^ f.precision ∧ u = m * 2 ^ k) (pos : 0 < den) :
    f.nearest (u * den) den = u := by
  rcases Nat.eq_zero_or_pos u with rfl | some_
  · rw [Nat.zero_mul, nearest_zero]
  · have more : 0 < u * den := Nat.mul_pos some_ pos
    exact f.nearest_near fits (by omega) (by omega)

theorem nearest_bounds {num den : Nat} (pos : 0 < den) (some_ : 0 < f.nearest num den) :
    num < 2 * (f.nearest num den * den) ∧ f.nearest num den * den ≤ 2 * num := by
  unfold nearest at some_ ⊢
  dsimp only at some_ ⊢
  generalize f.excess num den = e at some_ ⊢
  have grid : 0 < den * Nat.pow 2 e := Nat.mul_pos pos (Nat.two_pow_pos e)
  obtain ⟨upper, lower⟩ := roundHalfEven_bounds num (den * Nat.pow 2 e) grid
  generalize roundHalfEven num (den * Nat.pow 2 e) = r at upper lower some_ ⊢
  have digits : 1 ≤ r := Nat.pos_of_mul_pos_right some_
  have least : den * Nat.pow 2 e ≤ r * (den * Nat.pow 2 e) := Nat.le_mul_of_pos_left _ digits
  have same : r * Nat.pow 2 e * den = r * (den * Nat.pow 2 e) := by ring
  rw [same]
  constructor <;> omega

theorem nearest_le_excess (num den : Nat) :
    f.nearest num den ≤ 2 ^ f.precision * 2 ^ f.excess num den := by
  have quotient := f.quotient_lt num den
  have rounded := roundHalfEven_le num (den * Nat.pow 2 (f.excess num den))
  exact Nat.mul_le_mul_right _ (by simp only [Nat.pow_eq] at quotient rounded ⊢; omega)

theorem excess_le_nearest (num : Nat) {den : Nat} (pos : 0 < den) (excess : 0 < f.excess num den) :
    2 ^ (f.precision - 1) * 2 ^ f.excess num den ≤ f.nearest num den := by
  have whole := f.le_of_excess num den excess
  have grid : 0 < den * Nat.pow 2 (f.excess num den) := Nat.mul_pos pos (Nat.two_pow_pos _)
  have quotient : 2 ^ (f.precision - 1) ≤ num / (den * Nat.pow 2 (f.excess num den)) := by
    rw [Nat.le_div_iff_mul_le grid]
    calc 2 ^ (f.precision - 1) * (den * Nat.pow 2 (f.excess num den))
        = den * (2 ^ (f.precision - 1) * 2 ^ f.excess num den) := Nat.mul_left_comm _ _ _
      _ ≤ num := whole
  exact Nat.mul_le_mul_right _ (quotient.trans (le_roundHalfEven _ _))

theorem excess_mono {m n : Nat} (h : m ≤ n) (den : Nat) : f.excess m den ≤ f.excess n den := by
  have quotients : m / den ≤ n / den := Nat.div_le_div_right h
  unfold excess
  rcases Nat.eq_zero_or_pos (m / den) with zero | some_
  · rw [zero, Nat.log2_zero]
    omega
  · have bits := (Nat.le_log2 (by omega)).2 ((Nat.log2_self_le (by omega)).trans quotients)
    omega

/-- A larger number is not rounded to a smaller one. -/
theorem nearest_mono {m n : Nat} (h : m ≤ n) {den : Nat} (pos : 0 < den) :
    f.nearest m den ≤ f.nearest n den := by
  rcases Nat.eq_or_lt_of_le (f.excess_mono h den) with same | more
  · have grid : 0 < den * Nat.pow 2 (f.excess n den) := Nat.mul_pos pos (Nat.two_pow_pos _)
    unfold nearest
    dsimp only
    rw [same]
    exact Nat.mul_le_mul_right _ (roundHalfEven_mono h _ grid)
  · have precision := f.precision_pos
    calc f.nearest m den ≤ 2 ^ f.precision * 2 ^ f.excess m den := f.nearest_le_excess m den
      _ = 2 ^ (f.precision + f.excess m den) := (Nat.pow_add ..).symm
      _ ≤ 2 ^ (f.precision - 1 + f.excess n den) := Nat.pow_le_pow_right (by decide) (by omega)
      _ = 2 ^ (f.precision - 1) * 2 ^ f.excess n den := Nat.pow_add ..
      _ ≤ f.nearest n den := f.excess_le_nearest n pos (by omega)

theorem nearest_close {num den : Nat} (pos : 0 < den) (large : 2 ^ (f.precision - 1) * den ≤ num) :
    2 ^ f.precision * (f.nearest num den * den) ≤ 2 ^ f.precision * num + num ∧
      2 ^ f.precision * num ≤ 2 ^ f.precision * (f.nearest num den * den) + num := by
  have grid : 0 < den * Nat.pow 2 (f.excess num den) := Nat.mul_pos pos (Nat.two_pow_pos _)
  have fills : 2 ^ (f.precision - 1) * (den * Nat.pow 2 (f.excess num den)) ≤ num := by
    rcases Nat.eq_zero_or_pos (f.excess num den) with zero | some_
    · rw [zero]
      exact (Nat.mul_one den).symm ▸ large
    · rw [Nat.mul_left_comm]
      exact f.le_of_excess num den some_
  have whole : 2 ^ f.precision = 2 * 2 ^ (f.precision - 1) := by
    have precision := f.precision_pos
    rw [← Nat.pow_succ']
    congr 1
    omega
  obtain ⟨upper, lower⟩ := roundHalfEven_bounds num _ grid
  have same : f.nearest num den * den =
      roundHalfEven num (den * Nat.pow 2 (f.excess num den)) * (den * Nat.pow 2 (f.excess num den)) := by
    unfold nearest
    ring
  rw [same, whole]
  generalize roundHalfEven num (den * Nat.pow 2 (f.excess num den)) *
    (den * Nat.pow 2 (f.excess num den)) = product at *
  generalize den * Nat.pow 2 (f.excess num den) = unit at *
  generalize 2 ^ (f.precision - 1) = half at *
  constructor <;> nlinarith

theorem Fits.add_le {f : Format} {u bound j : Nat} (fits : f.Fits u) (less : u < bound)
    (grid : 2 ^ j ∣ bound) (wide : 2 ^ (f.precision - 1) * 2 ^ j + 2 ^ j ≤ bound) : u + 2 ^ j ≤ bound := by
  obtain ⟨-, m, e, small, rfl⟩ := fits
  simp only [Nat.pow_eq] at small less ⊢
  rcases Nat.lt_or_ge e j with below | above
  · have precision := f.precision_pos
    have top : m * 2 ^ e ≤ 2 ^ (f.precision - 1) * 2 ^ j := by
      calc m * 2 ^ e ≤ 2 ^ f.precision * 2 ^ e := Nat.mul_le_mul_right _ (Nat.le_of_lt small)
        _ = 2 ^ (f.precision + e) := (Nat.pow_add ..).symm
        _ ≤ 2 ^ (f.precision - 1 + j) := Nat.pow_le_pow_right (by decide) (by omega)
        _ = 2 ^ (f.precision - 1) * 2 ^ j := Nat.pow_add ..
    omega
  · obtain ⟨a, eq⟩ := grid
    obtain ⟨b, eq'⟩ : 2 ^ j ∣ m * 2 ^ e := Dvd.dvd.mul_left (Nat.pow_dvd_pow 2 above) m
    rw [eq, eq'] at less ⊢
    have step := Nat.lt_of_mul_lt_mul_left less
    rw [← Nat.mul_succ]
    exact Nat.mul_le_mul_left _ step

end Format

structure Format.Embeds (f g : Format) : Prop where
  precision_le : f.precision ≤ g.precision
  unitExponent_le : f.unitExponent ≤ g.unitExponent
  limit_le : f.limit + (g.unitExponent - f.unitExponent) ≤ g.limit

namespace Binary

variable {f g : Format}

theorem ofUnits_of_nearest {negative : Bool} {num den units : Nat} (fits : f.Fits units)
    (h : f.nearest num den = units) : ofUnits negative num den = .finite negative units fits := by
  subst h
  unfold ofUnits
  rw [dif_pos fits.1]

theorem fits_scaled (h : f.Embeds g) {units : Nat} (fits : f.Fits units) :
    g.Fits (units * 2 ^ (g.unitExponent - f.unitExponent)) := by
  obtain ⟨less, m, e, small, scaled⟩ := fits
  constructor
  · calc units * 2 ^ (g.unitExponent - f.unitExponent)
        < 2 ^ f.limit * 2 ^ (g.unitExponent - f.unitExponent) :=
          Nat.mul_lt_mul_of_pos_right less (Nat.two_pow_pos _)
      _ = 2 ^ (f.limit + (g.unitExponent - f.unitExponent)) := (Nat.pow_add ..).symm
      _ ≤ 2 ^ g.limit := Nat.pow_le_pow_right (by decide) h.limit_le
  · refine ⟨m, e + (g.unitExponent - f.unitExponent), ?_, ?_⟩
    · exact Nat.lt_of_lt_of_le small (Nat.pow_le_pow_right (by decide) h.precision_le)
    · rw [scaled]
      simp only [Nat.pow_eq]
      rw [Nat.pow_add, Nat.mul_assoc]

theorem one_scaled (h : f.Embeds g) : f.one * 2 ^ (g.unitExponent - f.unitExponent) = g.one := by
  unfold Format.one
  simp only [Nat.pow_eq]
  rw [← Nat.pow_add, Nat.add_sub_cancel' h.unitExponent_le]

theorem convert_wider (h : f.Embeds g) (negative : Bool) (units : Nat) (fits : f.Fits units) :
    (Binary.finite negative units fits).convert =
      (.finite negative (units * 2 ^ (g.unitExponent - f.unitExponent)) (fits_scaled h fits) : Binary g) := by
  unfold convert
  apply ofUnits_of_nearest
  rw [← one_scaled h, Nat.mul_left_comm, Nat.mul_comm f.one]
  exact g.nearest_exact (fits_scaled h fits).2 (Nat.two_pow_pos _)

theorem convert_convert (h : f.Embeds g) (x : Binary f) : (x.convert : Binary g).convert = x := by
  cases x with
  | nan => rfl
  | infinite negative => rfl
  | finite negative units fits =>
    rw [convert_wider h]
    unfold convert
    apply ofUnits_of_nearest
    rw [Nat.mul_assoc, Nat.mul_comm _ f.one, one_scaled h]
    exact f.nearest_exact fits.2 (Nat.two_pow_pos _)

end Binary

theorem Format.single_embeds : Format.single.Embeds Format.double := ⟨by decide, by decide, by decide⟩

end QuadStore
