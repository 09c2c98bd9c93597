import Mathlib.Algebra.Order.Field.Power
import Mathlib.Data.Nat.Digits.Lemmas
import Mathlib.Tactic.FieldSimp
import Mathlib.Tactic.NormNum
import QuadStore.Binary.Reading
import QuadStore.Binary.Shortest
import QuadStore.Proofs.Digits
import QuadStore.Proofs.Rounding

namespace QuadStore

theorem decimalExponent_le (den : Nat) {num : Nat} (pos : 0 < num) :
    den * 10 ^ (decimalExponent num den).toNat ≤ num * 10 ^ (-decimalExponent num den).toNat := by
  unfold decimalExponent
  dsimp only
  split
  · have low := Text.pow_digits_le pos
    have high := Text.lt_pow_digits den
    have digits := Nat.length_toDigits_pos (b := 10) (n := num)
    generalize (Nat.toDigits 10 num).length = m at low digits ⊢
    generalize (Nat.toDigits 10 den).length = n at high ⊢
    rcases Nat.lt_or_ge n m with lt | ge
    · have up : ((m : Int) - n - 1).toNat = m - 1 - n := by omega
      have down : (-((m : Int) - n - 1)).toNat = 0 := by omega
      rw [up, down, Nat.pow_zero, Nat.mul_one]
      calc den * 10 ^ (m - 1 - n) ≤ 10 ^ n * 10 ^ (m - 1 - n) := Nat.mul_le_mul_right _ high.le
        _ = 10 ^ (m - 1) := by rw [← Nat.pow_add]; congr 1; omega
        _ ≤ num := low
    · have up : ((m : Int) - n - 1).toNat = 0 := by omega
      have down : (-((m : Int) - n - 1)).toNat = n - (m - 1) := by omega
      rw [up, down, Nat.pow_zero, Nat.mul_one]
      calc den ≤ 10 ^ n := high.le
        _ = 10 ^ (m - 1) * 10 ^ (n - (m - 1)) := by rw [← Nat.pow_add]; congr 1; omega
        _ ≤ num * 10 ^ (n - (m - 1)) := Nat.mul_le_mul_right _ low
  · rename_i large
    simp only [Nat.pow_eq] at large
    omega

theorem lt_decimalExponent (num : Nat) {den : Nat} (pos : 0 < den) :
    num * 10 ^ (-(decimalExponent num den + 1)).toNat < den * 10 ^ (decimalExponent num den + 1).toNat := by
  unfold decimalExponent
  dsimp only
  split
  · rename_i small
    rw [Int.sub_add_cancel]
    exact small
  · have high := Text.lt_pow_digits num
    have low := Text.pow_digits_le pos
    have digits := Nat.length_toDigits_pos (b := 10) (n := den)
    generalize (Nat.toDigits 10 num).length = m at high ⊢
    generalize (Nat.toDigits 10 den).length = n at low digits ⊢
    rcases Nat.lt_or_ge m n with lt | ge
    · have up : ((m : Int) - n + 1).toNat = 0 := by omega
      have down : (-((m : Int) - n + 1)).toNat = n - 1 - m := by omega
      rw [up, down, Nat.pow_zero, Nat.mul_one]
      calc num * 10 ^ (n - 1 - m) < 10 ^ m * 10 ^ (n - 1 - m) :=
            Nat.mul_lt_mul_of_pos_right high (Nat.pow_pos (by decide))
        _ = 10 ^ (n - 1) := by rw [← Nat.pow_add]; congr 1; omega
        _ ≤ den := low
    · have up : ((m : Int) - n + 1).toNat = m - (n - 1) := by omega
      have down : (-((m : Int) - n + 1)).toNat = 0 := by omega
      rw [up, down, Nat.pow_zero, Nat.mul_one]
      calc num < 10 ^ m := high
        _ = 10 ^ (n - 1) * 10 ^ (m - (n - 1)) := by rw [← Nat.pow_add]; congr 1; omega
        _ ≤ den * 10 ^ (m - (n - 1)) := Nat.mul_le_mul_right _ low

theorem grid_le (den : Nat) {num : Nat} (pos : 0 < num) :
    den * 10 ^ (decimalExponent num den - 16).toNat * 10 ^ 16 ≤
      num * 10 ^ (-(decimalExponent num den - 16)).toNat := by
  have least := decimalExponent_le den pos
  generalize decimalExponent num den = p at least ⊢
  rcases lt_or_ge p 0 with neg | nonneg
  · have up : (p - 16).toNat = 0 := by omega
    have zero : p.toNat = 0 := by omega
    have down : (-(p - 16)).toNat = (-p).toNat + 16 := by omega
    rw [zero, Nat.pow_zero, Nat.mul_one] at least
    rw [up, down, Nat.pow_zero, Nat.mul_one, Nat.pow_add, ← Nat.mul_assoc]
    exact Nat.mul_le_mul_right _ least
  · have zero : (-p).toNat = 0 := by omega
    rw [zero, Nat.pow_zero, Nat.mul_one] at least
    rcases lt_or_ge p 16 with small | large
    · have up : (p - 16).toNat = 0 := by omega
      have down : (-(p - 16)).toNat = 16 - p.toNat := by omega
      rw [up, down, Nat.pow_zero, Nat.mul_one]
      calc den * 10 ^ 16 = den * 10 ^ p.toNat * 10 ^ (16 - p.toNat) := by
            rw [Nat.mul_assoc, ← Nat.pow_add]
            congr 2
            omega
        _ ≤ num * 10 ^ (16 - p.toNat) := Nat.mul_le_mul_right _ least
    · have up : (p - 16).toNat + 16 = p.toNat := by omega
      have down : (-(p - 16)).toNat = 0 := by omega
      rw [down, Nat.pow_zero, Nat.mul_one, Nat.mul_assoc, ← Nat.pow_add, up]
      exact least

namespace Binary

theorem neighbours_head (places num den : Nat) :
    (neighbours places num den).headD ⟨0, 0⟩ =
      ⟨roundHalfEven (num * 10 ^ (-(decimalExponent num den - (places - 1))).toNat)
        (den * 10 ^ (decimalExponent num den - (places - 1)).toNat),
        decimalExponent num den - (places - 1)⟩ := by
  unfold neighbours
  dsimp only
  simp only [Nat.pow_eq]
  generalize decimalExponent num den - ((places : Int) - 1) = e
  generalize num * 10 ^ (-e).toNat = scaled
  generalize den * 10 ^ e.toNat = grid
  split
  · rename_i below
    rw [below]
    rfl
  · rename_i above
    have least := le_roundHalfEven scaled grid
    have most := roundHalfEven_le scaled grid
    have next : roundHalfEven scaled grid = scaled / grid + 1 := by omega
    rw [next]
    rfl

variable {f : Format}

theorem readsBack_seventeen (precise : f.precision ≤ 53) {units : Nat} (pos : 0 < units)
    (fits : ∃ m k, m < 2 ^ f.precision ∧ units = m * 2 ^ k) :
    readsBack f units ((neighbours 17 units f.one).headD ⟨0, 0⟩) = true := by
  rw [neighbours_head]
  have step := grid_le f.one pos
  have sixteen : ((17 : Nat) : Int) - 1 = 16 := rfl
  rw [sixteen]
  generalize decimalExponent units f.one - 16 = e at step ⊢
  have gridPos : 0 < f.one * 10 ^ e.toNat := Nat.mul_pos f.one_pos (Nat.pow_pos (by decide))
  obtain ⟨upper, lower⟩ := roundHalfEven_bounds (units * 10 ^ (-e).toNat) (f.one * 10 ^ e.toNat) gridPos
  generalize roundHalfEven (units * 10 ^ (-e).toNat) (f.one * 10 ^ e.toNat) = digits at upper lower ⊢
  unfold readsBack
  rw [decide_eq_true_iff]
  simp only [Nat.pow_eq]
  have same : digits * 10 ^ e.toNat * f.one = digits * (f.one * 10 ^ e.toNat) := by ring
  rw [same]
  have bits : 2 ^ f.precision * 2 ^ 3 ≤ 2 ^ 53 * 2 ^ 3 :=
    Nat.mul_le_mul_right _ (Nat.pow_le_pow_right (by decide) precise)
  have near : 2 ^ f.precision * (f.one * 10 ^ e.toNat) < units * 10 ^ (-e).toNat := by
    have wide : 2 ^ f.precision * (f.one * 10 ^ e.toNat) < 10 ^ 16 * (f.one * 10 ^ e.toNat) :=
      Nat.mul_lt_mul_of_pos_right (by omega) gridPos
    omega
  have below := Nat.mul_le_mul_left (2 ^ f.precision) lower
  have above := Nat.mul_le_mul_left (2 ^ f.precision) upper
  apply f.nearest_near fits
  · rw [Nat.pow_succ]
    linarith
  · rw [Nat.pow_succ]
    linarith

/-- The search ends with a decimal that reads back. -/
theorem readsBack_search (precise : f.precision ≤ 53) {units : Nat} (pos : 0 < units)
    (fits : ∃ m k, m < 2 ^ f.precision ∧ units = m * 2 ^ k) (fuel places : Nat)
    (count : places + fuel = 17) : readsBack f units (search f units fuel places) = true := by
  induction fuel generalizing places with
  | zero =>
    have last : places = 17 := by omega
    rw [last]
    exact readsBack_seventeen precise pos fits
  | succ fuel ih =>
    unfold search
    cases found : (neighbours places units f.one).find? (readsBack f units) with
    | some d => exact List.find?_some found
    | none => exact ih (places + 1) (by omega)

end Binary

namespace Decimal

def value (d : Decimal) : ℚ := d.digits * 10 ^ d.exponent

theorem value_eq_div (d : Decimal) :
    d.value = ((d.digits * 10 ^ d.exponent.toNat : Nat) : ℚ) / ((10 ^ (-d.exponent).toNat : Nat) : ℚ) := by
  unfold value
  push_cast
  rw [eq_div_iff (by positivity), mul_assoc, ← zpow_natCast, ← zpow_natCast, ← zpow_add₀ (by norm_num)]
  congr 2
  omega

theorem readsBack_congr {f : Format} (units : Nat) {a b : Decimal} (same : a.value = b.value) :
    Binary.readsBack f units a = Binary.readsBack f units b := by
  have cross : a.digits * 10 ^ a.exponent.toNat * 10 ^ (-b.exponent).toNat =
      b.digits * 10 ^ b.exponent.toNat * 10 ^ (-a.exponent).toNat := by
    rw [value_eq_div, value_eq_div, div_eq_div_iff (by positivity) (by positivity)] at same
    exact_mod_cast same
  have nearest : f.nearest (a.digits * 10 ^ a.exponent.toNat * f.one) (10 ^ (-a.exponent).toNat) =
      f.nearest (b.digits * 10 ^ b.exponent.toNat * f.one) (10 ^ (-b.exponent).toNat) := by
    apply f.nearest_congr (Nat.pow_pos (by decide)) (Nat.pow_pos (by decide))
    rw [Nat.mul_right_comm, cross, Nat.mul_right_comm]
  unfold Binary.readsBack
  simp only [Nat.pow_eq, nearest]

theorem value_trimmed (fuel : Nat) (d : Decimal) : (trimmed fuel d).value = d.value := by
  induction fuel generalizing d with
  | zero => rfl
  | succ fuel ih =>
    unfold trimmed
    split
    · rename_i ends
      rw [ih]
      have tens : d.digits = d.digits / 10 * 10 := by omega
      unfold value
      dsimp only
      conv_rhs => rw [tens]
      push_cast
      rw [zpow_add₀ (by norm_num), zpow_one]
      ring
    · rfl

end Decimal

namespace Binary

theorem readsBack_shortest {f : Format} (precise : f.precision ≤ 53) {units : Nat} (pos : 0 < units)
    (fits : ∃ m k, m < 2 ^ f.precision ∧ units = m * 2 ^ k) :
    readsBack f units (shortest f units) = true := by
  unfold shortest
  rw [Decimal.readsBack_congr units (Decimal.value_trimmed maxDigits _)]
  exact readsBack_search precise pos fits 16 1 rfl

theorem digits_pos_of_readsBack {f : Format} {units : Nat} (pos : 0 < units) {d : Decimal}
    (h : readsBack f units d = true) : 0 < d.digits := by
  rcases Nat.eq_zero_or_pos d.digits with zero | some_
  · unfold readsBack at h
    rw [zero, Nat.zero_mul, Nat.zero_mul, f.nearest_zero, decide_eq_true_iff] at h
    omega
  · exact some_

theorem value_bounds {d : Decimal} (pos : 0 < d.digits) :
    (10 : ℚ) ^ ((Nat.toDigits 10 d.digits).length + d.exponent - 1) ≤ d.value ∧
      d.value < (10 : ℚ) ^ ((Nat.toDigits 10 d.digits).length + d.exponent) := by
  have low := Text.pow_digits_le pos
  have high := Text.lt_pow_digits d.digits
  have some_ := Nat.length_toDigits_pos (b := 10) (n := d.digits)
  have scale : (0 : ℚ) < 10 ^ d.exponent := by positivity
  generalize (Nat.toDigits 10 d.digits).length = n at low high some_ ⊢
  have before : ((n : Int) + d.exponent - 1) = ((n - 1 : Nat) : Int) + d.exponent := by omega
  unfold Decimal.value
  rw [before, zpow_add₀ (by norm_num), zpow_add₀ (by norm_num), zpow_natCast, zpow_natCast]
  constructor
  · apply mul_le_mul_of_nonneg_right _ scale.le
    exact_mod_cast low
  · apply mul_lt_mul_of_pos_right _ scale
    exact_mod_cast high

theorem size_of_range {v : ℚ} {size : Int} (low : (10 : ℚ) ^ (size - 1) ≤ v) (high : v < (10 : ℚ) ^ size)
    (upper : v * 2 ^ (1074 : ℤ) < 2 * 2 ^ (2098 : ℤ)) (lower : 1 ≤ 2 * (v * 2 ^ (1074 : ℤ))) :
    -digitRange ≤ size ∧ size ≤ digitRange := by
  have unit : (0 : ℚ) < 2 ^ (1074 : ℤ) := by positivity
  have powers : ∀ m n : ℤ, (2 : ℚ) ^ m * 2 ^ n = 2 ^ (m + n) := fun m n =>
    (zpow_add₀ (by norm_num) m n).symm
  have smaller : ∀ n : ℤ, 0 ≤ n → (2 : ℚ) ^ n ≤ 10 ^ n := fun n hn =>
    zpow_le_zpow_left₀ hn (by norm_num) (by norm_num)
  constructor
  · by_contra below
    have tiny : v < 2 ^ (-1200 : ℤ) := by
      calc v < (10 : ℚ) ^ size := high
        _ ≤ 10 ^ (-1200 : ℤ) := zpow_le_zpow_right₀ (by norm_num) (by unfold digitRange at below; omega)
        _ ≤ 2 ^ (-1200 : ℤ) := by
          rw [zpow_neg, zpow_neg]
          exact inv_anti₀ (by positivity) (smaller 1200 (by decide))
    have scaled : v * 2 ^ (1074 : ℤ) < 2 ^ (-126 : ℤ) := by
      calc v * 2 ^ (1074 : ℤ) < 2 ^ (-1200 : ℤ) * 2 ^ (1074 : ℤ) := mul_lt_mul_of_pos_right tiny unit
        _ = 2 ^ (-126 : ℤ) := powers _ _
    have half : (2 : ℚ) ^ (-126 : ℤ) ≤ 2 ^ (-1 : ℤ) := zpow_le_zpow_right₀ (by norm_num) (by decide)
    have small : 2 * (v * 2 ^ (1074 : ℤ)) < 1 := by
      calc 2 * (v * 2 ^ (1074 : ℤ)) < 2 * 2 ^ (-1 : ℤ) :=
            mul_lt_mul_of_pos_left (scaled.trans_le half) (by norm_num)
        _ = 1 := by
          rw [zpow_neg_one]
          norm_num
    exact absurd lower (not_le.2 small)
  · by_contra above
    have huge : 2 ^ (1200 : ℤ) ≤ v := by
      calc (2 : ℚ) ^ (1200 : ℤ) ≤ 10 ^ (1200 : ℤ) := smaller 1200 (by decide)
        _ ≤ 10 ^ (size - 1) := zpow_le_zpow_right₀ (by norm_num) (by unfold digitRange at above; omega)
        _ ≤ v := low
    have scaled : (2 : ℚ) ^ (2274 : ℤ) ≤ v * 2 ^ (1074 : ℤ) := by
      calc (2 : ℚ) ^ (2274 : ℤ) = 2 ^ (1200 : ℤ) * 2 ^ (1074 : ℤ) := (powers 1200 1074).symm
        _ ≤ v * 2 ^ (1074 : ℤ) := mul_le_mul_of_nonneg_right huge unit.le
    have limit : (2 : ℚ) * 2 ^ (2098 : ℤ) ≤ 2 ^ (2274 : ℤ) := by
      calc (2 : ℚ) * 2 ^ (2098 : ℤ) = 2 ^ (1 : ℤ) * 2 ^ (2098 : ℤ) := by rw [zpow_one]
        _ = 2 ^ (2099 : ℤ) := powers 1 2098
        _ ≤ 2 ^ (2274 : ℤ) := zpow_le_zpow_right₀ (by norm_num) (by decide)
    exact absurd upper (not_lt.2 (limit.trans scaled))

theorem size_of_readsBack {units : Nat} (pos : 0 < units) (fits : units < Nat.pow 2 Format.double.limit)
    {d : Decimal} (h : readsBack .double units d = true) :
    -digitRange ≤ (Nat.toDigits 10 d.digits).length + d.exponent ∧
      (Nat.toDigits 10 d.digits).length + d.exponent ≤ digitRange := by
  obtain ⟨low, high⟩ := value_bounds (digits_pos_of_readsBack pos h)
  unfold readsBack at h
  rw [decide_eq_true_iff] at h
  have den : 0 < Nat.pow 10 (-d.exponent).toNat := Nat.pow_pos (by decide)
  have bounds := Format.double.nearest_bounds den (by rw [h]; exact pos)
  rw [h] at bounds
  obtain ⟨upper, lower⟩ := bounds
  have quotient : ((d.digits * Nat.pow 10 d.exponent.toNat * Format.double.one : Nat) : ℚ) =
      d.value * 2 ^ (1074 : ℤ) * ((Nat.pow 10 (-d.exponent).toNat : Nat) : ℚ) := by
    have one : ((Format.double.one : Nat) : ℚ) = 2 ^ (1074 : ℤ) := by
      rw [Format.one, Nat.pow_eq, Nat.cast_pow, zpow_ofNat]
      rfl
    have cancel : ((Nat.pow 10 (-d.exponent).toNat : Nat) : ℚ) ≠ 0 := by exact_mod_cast den.ne'
    rw [Nat.cast_mul, one, d.value_eq_div, mul_right_comm]
    simp only [Nat.pow_eq] at cancel ⊢
    rw [div_mul_cancel₀ _ cancel]
  have denPos : (0 : ℚ) < ((Nat.pow 10 (-d.exponent).toNat : Nat) : ℚ) := by exact_mod_cast den
  have upper' : ((d.digits * Nat.pow 10 d.exponent.toNat * Format.double.one : Nat) : ℚ) <
      2 * (units * ((Nat.pow 10 (-d.exponent).toNat : Nat) : ℚ)) := by exact_mod_cast upper
  have lower' : (units : ℚ) * ((Nat.pow 10 (-d.exponent).toNat : Nat) : ℚ) ≤
      2 * ((d.digits * Nat.pow 10 d.exponent.toNat * Format.double.one : Nat) : ℚ) := by
    exact_mod_cast lower
  rw [quotient] at upper' lower'
  generalize ((Nat.pow 10 (-d.exponent).toNat : Nat) : ℚ) = den at denPos upper' lower'
  have below : d.value * 2 ^ (1074 : ℤ) < 2 * units := by
    apply lt_of_mul_lt_mul_right _ denPos.le
    linarith
  have above : (units : ℚ) ≤ 2 * (d.value * 2 ^ (1074 : ℤ)) := by
    apply le_of_mul_le_mul_right _ denPos
    linarith
  have least : (1 : ℚ) ≤ units := by exact_mod_cast pos
  have most : (units : ℚ) < 2 ^ (2098 : ℤ) := by
    have cast := Nat.cast_lt (α := ℚ).2 fits
    rw [Nat.pow_eq, Nat.cast_pow] at cast
    rw [zpow_ofNat]
    exact cast
  exact size_of_range low high (by linarith) (by linarith)

theorem ofScaled_of_readsBack (negative : Bool) {units : Nat} (pos : 0 < units)
    (fits : Format.double.Fits units) {d : Decimal} (h : readsBack .double units d = true) :
    ofScaled negative 10 d.digits d.exponent = .finite negative units fits := by
  have digits := digits_pos_of_readsBack pos h
  obtain ⟨low, high⟩ := size_of_readsBack pos fits.1 h
  unfold ofScaled
  rw [if_neg (by omega)]
  dsimp only
  rw [if_neg (by omega), if_neg (by omega)]
  unfold readsBack at h
  rw [decide_eq_true_iff] at h
  exact ofUnits_of_nearest fits h

end Binary

end QuadStore
