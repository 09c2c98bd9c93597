import QuadStore.Proofs.PrintedNumber

namespace QuadStore

variable {n den places dropped : Nat} {d : Decimal}

theorem decimalExponent_whole (pos : 0 < n) (denPos : 0 < den) :
    decimalExponent (n * den) den = (Nat.toDigits 10 n).length - 1 := by
  have least := decimalExponent_le den (Nat.mul_pos pos denPos)
  have most := lt_decimalExponent (n * den) denPos
  generalize decimalExponent (n * den) den = p at least most ⊢
  have nonneg : 0 ≤ p := by
    by_contra negative
    have none_ : (p + 1).toNat = 0 := by omega
    rw [none_, Nat.pow_zero, Nat.mul_one] at most
    have scaled : n * den ≤ n * den * 10 ^ (-(p + 1)).toNat := Nat.le_mul_of_pos_right _ (Nat.pow_pos (by decide))
    have whole : den ≤ n * den := Nat.le_mul_of_pos_left den pos
    omega
  have up : (-p).toNat = 0 := by omega
  have up' : (-(p + 1)).toNat = 0 := by omega
  rw [up, Nat.pow_zero, Nat.mul_one, Nat.mul_comm n] at least
  rw [up', Nat.pow_zero, Nat.mul_one, Nat.mul_comm n] at most
  have low := Nat.le_of_mul_le_mul_left least denPos
  have high := Nat.lt_of_mul_lt_mul_left most
  have least' := Text.pow_digits_le pos
  have most' := Text.lt_pow_digits n
  have digits := Nat.length_toDigits_pos (b := 10) (n := n)
  have upper := (Nat.pow_lt_pow_iff_right (by decide)).1 (low.trans_lt most')
  have lower := (Nat.pow_lt_pow_iff_right (by decide)).1 (least'.trans_lt high)
  omega

namespace Decimal

def whole (d : Decimal) : Nat := d.digits * 10 ^ d.exponent.toNat

theorem value_eq_whole (nonneg : 0 ≤ d.exponent) : d.value = d.whole := by
  have none_ : (-d.exponent).toNat = 0 := by omega
  rw [value_eq_div, none_, Nat.pow_zero, Nat.cast_one, div_one, whole]

theorem exponent_trimmed (fuel : Nat) (d : Decimal) : d.exponent ≤ (trimmed fuel d).exponent := by
  induction fuel generalizing d with
  | zero => exact Int.le_refl _
  | succ fuel ih =>
    unfold trimmed
    split
    · have rest := ih ⟨d.digits / 10, d.exponent + 1⟩
      dsimp only at rest
      omega
    · exact Int.le_refl _

theorem whole_trimmed (fuel : Nat) (nonneg : 0 ≤ d.exponent) : (trimmed fuel d).whole = d.whole := by
  have same := value_trimmed fuel d
  rw [value_eq_whole (nonneg.trans (exponent_trimmed fuel d)), value_eq_whole nonneg] at same
  exact_mod_cast same

structure Shortened (n dropped : Nat) (d : Decimal) : Prop where
  exponent : d.exponent = dropped
  some_left : dropped < (Nat.toDigits 10 n).length
  low : n / 10 ^ dropped ≤ d.digits
  high : d.digits ≤ n / 10 ^ dropped + 1
  exact_ : dropped = 0 → d.digits = n

theorem shortened_self (n : Nat) : Shortened n 0 ⟨n, 0⟩ where
  exponent := rfl
  some_left := Nat.length_toDigits_pos
  low := by simp
  high := by simp
  exact_ _ := rfl

namespace Shortened

variable (h : Shortened n dropped d)
include h

theorem whole_eq : d.whole = d.digits * 10 ^ dropped := by
  rw [whole, h.exponent, Int.toNat_natCast]

theorem nonneg : 0 ≤ d.exponent := by
  rw [h.exponent]
  exact Int.natCast_nonneg dropped

theorem power_le_digits (pos : 0 < n) : 10 ^ ((Nat.toDigits 10 n).length - 1 - dropped) ≤ d.digits := by
  have left := h.some_left
  calc 10 ^ ((Nat.toDigits 10 n).length - 1 - dropped)
      = 10 ^ ((Nat.toDigits 10 n).length - 1) / 10 ^ dropped := (Nat.pow_div (by omega) (by decide)).symm
    _ ≤ n / 10 ^ dropped := Nat.div_le_div_right (Text.pow_digits_le pos)
    _ ≤ d.digits := h.low

theorem power_le_whole (pos : 0 < n) : 10 ^ ((Nat.toDigits 10 n).length - 1) ≤ d.whole := by
  have left := h.some_left
  calc 10 ^ ((Nat.toDigits 10 n).length - 1)
      = 10 ^ ((Nat.toDigits 10 n).length - 1 - dropped) * 10 ^ dropped := by
        rw [← Nat.pow_add]
        congr 1
        omega
    _ ≤ d.digits * 10 ^ dropped := Nat.mul_le_mul_right _ (h.power_le_digits pos)
    _ = d.whole := h.whole_eq.symm

theorem whole_le {k : Nat} (small : n < 10 ^ k) : d.whole ≤ 10 ^ k := by
  have fewer : dropped ≤ k := by
    have length := (Nat.length_toDigits_le_iff (b := 10) (n := n) (k := k) (by decide))
    have left := h.some_left
    rcases Nat.eq_zero_or_pos k with rfl | some_
    · have zero : n = 0 := by omega
      subst zero
      have one : (Nat.toDigits 10 0).length = 1 := rfl
      omega
    · have most := (length some_).2 small
      omega
  have split_ : 10 ^ k = 10 ^ (k - dropped) * 10 ^ dropped := by
    rw [← Nat.pow_add, Nat.sub_add_cancel fewer]
  have quotient : n / 10 ^ dropped < 10 ^ (k - dropped) := by
    rw [Nat.div_lt_iff_lt_mul (Nat.pow_pos (by decide)), ← split_]
    exact small
  rw [h.whole_eq, split_]
  exact Nat.mul_le_mul_right _ (h.high.trans quotient)

end Shortened

end Decimal

namespace Binary

open Decimal

theorem neighbours_whole (pos : 0 < n) (denPos : 0 < den)
    (rest : places + dropped = (Nat.toDigits 10 n).length) :
    neighbours places (n * den) den =
      if roundHalfEven n (10 ^ dropped) = n / 10 ^ dropped then
        [⟨n / 10 ^ dropped, dropped⟩, ⟨n / 10 ^ dropped + 1, dropped⟩]
      else [⟨n / 10 ^ dropped + 1, dropped⟩, ⟨n / 10 ^ dropped, dropped⟩] := by
  have exponent : decimalExponent (n * den) den - ((places : Int) - 1) = dropped := by
    rw [decimalExponent_whole pos denPos]
    omega
  have up : (-(dropped : Int)).toNat = 0 := by omega
  have quotient : n * den / (den * 10 ^ dropped) = n / 10 ^ dropped := by
    rw [Nat.mul_comm n, Nat.mul_div_mul_left _ _ denPos]
  unfold neighbours
  dsimp only
  rw [exponent, up, Int.toNat_natCast]
  simp only [Nat.pow_eq, Nat.pow_zero, Nat.mul_one]
  rw [quotient, Nat.mul_comm den, roundHalfEven_scale _ _ _ denPos]

theorem neighbours_all (pos : 0 < n) (denPos : 0 < den) :
    neighbours (Nat.toDigits 10 n).length (n * den) den = [⟨n, 0⟩, ⟨n + 1, 0⟩] := by
  have near : roundHalfEven n 1 = n := roundHalfEven_near n 1 n (by omega) (by omega)
  rw [neighbours_whole pos denPos (Nat.add_zero _), Nat.pow_zero, Nat.div_one, if_pos near]
  rfl

theorem shortened_of_mem (pos : 0 < n) (denPos : 0 < den) (some_ : 0 < places)
    (rest : places + dropped = (Nat.toDigits 10 n).length) (cut : 0 < dropped)
    (mem : d ∈ neighbours places (n * den) den) : Shortened n dropped d := by
  have around : d = ⟨n / 10 ^ dropped, dropped⟩ ∨ d = ⟨n / 10 ^ dropped + 1, dropped⟩ := by
    rw [neighbours_whole pos denPos rest] at mem
    split at mem <;> simp at mem <;> tauto
  have left : dropped < (Nat.toDigits 10 n).length := by omega
  rcases around with rfl | rfl
  · exact ⟨rfl, left, Nat.le_refl _, Nat.le_succ _, fun none_ => by omega⟩
  · exact ⟨rfl, left, Nat.le_succ _, Nat.le_refl _, fun none_ => by omega⟩

theorem headD_mem (places num den : Nat) : (neighbours places num den).headD ⟨0, 0⟩ ∈ neighbours places num den := by
  unfold neighbours
  dsimp only
  split <;> exact List.mem_cons_self

variable {f : Format}

theorem readsBack_whole (fits : ∃ m k, m < 2 ^ f.precision ∧ n * f.one = m * 2 ^ k) :
    readsBack f (n * f.one) ⟨n, 0⟩ = true := by
  have back := f.nearest_exact fits Nat.one_pos
  unfold readsBack
  rw [decide_eq_true_iff]
  rw [Nat.mul_one] at back
  exact (congrArg (fun k => f.nearest (k * f.one) 1) (Nat.mul_one n)).trans back

theorem search_all (pos : 0 < n) (fits : ∃ m k, m < 2 ^ f.precision ∧ n * f.one = m * 2 ^ k) (fuel : Nat) :
    search f (n * f.one) fuel (Nat.toDigits 10 n).length = ⟨n, 0⟩ := by
  have all := neighbours_all pos f.one_pos
  cases fuel with
  | zero =>
    unfold search
    rw [all]
    rfl
  | succ fuel =>
    unfold search
    rw [all, List.find?_cons_of_pos (readsBack_whole fits)]

theorem search_shortened (pos : 0 < n) (fits : ∃ m k, m < 2 ^ f.precision ∧ n * f.one = m * 2 ^ k)
    (fuel : Nat) {places : Nat} (some_ : 0 < places) (few : places ≤ (Nat.toDigits 10 n).length) :
    ∃ dropped, Shortened n dropped (search f (n * f.one) fuel places) := by
  induction fuel generalizing places with
  | zero =>
    rcases Nat.lt_or_eq_of_le few with less | all
    · exact ⟨_, shortened_of_mem pos f.one_pos some_ (Nat.add_sub_of_le few) (by omega) (headD_mem places _ _)⟩
    · rw [all, search_all pos fits]
      exact ⟨0, shortened_self n⟩
  | succ fuel ih =>
    rcases Nat.lt_or_eq_of_le few with less | all
    · unfold search
      cases found : (neighbours places (n * f.one) f.one).find? (readsBack f (n * f.one)) with
      | some d =>
        have mem := List.mem_of_find?_eq_some found
        exact ⟨_, shortened_of_mem pos f.one_pos some_ (Nat.add_sub_of_le few) (by omega) mem⟩
      | none => exact ih (Nat.succ_pos places) less
    · rw [all, search_all pos fits]
      exact ⟨0, shortened_self n⟩

theorem shortest_shortened (pos : 0 < n) (fits : ∃ m k, m < 2 ^ f.precision ∧ n * f.one = m * 2 ^ k) :
    ∃ dropped d, Shortened n dropped d ∧ (shortest f (n * f.one)).whole = d.whole ∧
      0 ≤ (shortest f (n * f.one)).exponent := by
  have least : 1 ≤ (Nat.toDigits 10 n).length := Nat.length_toDigits_pos
  obtain ⟨dropped, shortened⟩ := search_shortened pos fits (maxDigits - 1) Nat.one_pos least
  exact ⟨dropped, _, shortened, whole_trimmed maxDigits shortened.nonneg,
    shortened.nonneg.trans (exponent_trimmed maxDigits _)⟩

theorem readsBack_eq (nonneg : 0 ≤ d.exponent) (units : Nat) :
    readsBack f units d = decide (f.nearest (d.whole * f.one) 1 = units) := by
  have none_ : (-d.exponent).toNat = 0 := by omega
  unfold readsBack
  rw [none_]
  rfl

/-- With that many digits there is no rounding: the number itself needs no more than 54 bits, and all that ends in
a zero, up to the next power of ten, needs no more than 53. -/
theorem shortest_whole (pos : 0 < n) (small : n < 10 ^ 16) (fits : Format.double.Fits (n * Format.double.one)) :
    (shortest .double (n * Format.double.one)).whole = n := by
  obtain ⟨dropped, d, shortened, same, nonneg⟩ := shortest_shortened pos fits.2
  rcases Nat.eq_zero_or_pos dropped with rfl | cut
  · rw [same, shortened.whole_eq, shortened.exact_ rfl, Nat.pow_zero, Nat.mul_one]
  · have back := readsBack_shortest (f := .double) (by decide) (Nat.mul_pos pos Format.double.one_pos) fits.2
    have most := shortened.whole_le small
    obtain ⟨half, even⟩ : 2 ∣ d.whole := by
      rw [shortened.whole_eq]
      exact Dvd.dvd.mul_left (dvd_pow (by decide) (by omega)) _
    rw [readsBack_eq nonneg, decide_eq_true_iff, same] at back
    have exact_ : Format.double.nearest (d.whole * Format.double.one * 1) 1 = d.whole * Format.double.one := by
      refine Format.double.nearest_exact ⟨half, Format.double.unitExponent + 1, ?_, ?_⟩ Nat.one_pos
      · show half < 2 ^ 53
        omega
      · rw [even, Format.one, Nat.pow_succ, Nat.pow_eq]
        ring
    rw [Nat.mul_one, back] at exact_
    rw [same]
    exact (Nat.eq_of_mul_eq_mul_right Format.double.one_pos exact_).symm

theorem power_le_shortest {k : Nat} (large : 10 ^ k ≤ n)
    (fits : ∃ m k, m < 2 ^ f.precision ∧ n * f.one = m * 2 ^ k) : 10 ^ k ≤ (shortest f (n * f.one)).whole := by
  have pos : 0 < n := (Nat.pow_pos (by decide)).trans_le large
  obtain ⟨dropped, d, shortened, same, -⟩ := shortest_shortened pos fits
  have digits := (Nat.pow_lt_pow_iff_right (by decide)).1 (large.trans_lt (Text.lt_pow_digits n))
  rw [same]
  exact (Nat.pow_le_pow_right (by decide) (by omega)).trans (shortened.power_le_whole pos)

end Binary

namespace Text

theorem ofNat_zeros (pos : 0 < n) (k : Nat) : ofNat (n * 10 ^ k) = ofNat n ++ List.replicate k (byte '0') := by
  induction k with
  | zero => simp
  | succ k ih =>
    have more : 0 < n * 10 ^ k := Nat.mul_pos pos (Nat.pow_pos (by decide))
    have last := Nat.toDigits_append_toDigits (b := 10) (d := 0) (by decide) more (by decide)
    have next : n * 10 ^ (k + 1) = 10 * (n * 10 ^ k) + 0 := by ring
    rw [next, ofNat, ← last, List.map_append, List.replicate_succ', ← List.append_assoc, ← ih]
    rfl

end Text

namespace Decimal

open Text

variable (pos : 0 < d.digits) (nonneg : 0 ≤ d.exponent)
include pos nonneg

theorem positional_whole : NumberStyle.positional false d = ofNat d.whole := by
  unfold NumberStyle.positional
  dsimp only
  rw [if_pos nonneg, whole, ofNat_zeros pos]
  exact List.append_nil _

theorem leading_whole : d.leading = (ofNat d.whole).length - 1 := by
  rw [whole, ofNat_zeros pos, List.length_append, List.length_replicate, leading]
  omega

theorem magnitude_whole {style : NumberStyle} {k : Nat} (plain : style.pointed = false)
    (below : style.positionalBelow = k) (some_ : 0 < k) :
    style.magnitude d = if d.whole < 10 ^ k then ofNat d.whole else NumberStyle.scientific d := by
  have size : (ofNat d.whole).length ≤ k ↔ d.whole < 10 ^ k := by
    rw [ofNat, List.length_map]
    exact Nat.length_toDigits_le_iff (by decide) some_
  have digits := length_ofNat_pos (n := d.whole)
  have from_ : NumberStyle.positionalFrom = -4 := rfl
  have between : NumberStyle.positionalFrom ≤ d.leading ∧ d.leading < style.positionalBelow ↔ d.whole < 10 ^ k := by
    rw [← size, leading_whole pos nonneg, from_, below]
    omega
  unfold NumberStyle.magnitude
  simp only [between, plain, positional_whole pos nonneg]

end Decimal

end QuadStore
