import QuadStore.Proofs.NumberOrder
import QuadStore.Proofs.WholeDoubles

namespace QuadStore

namespace OrderKey

variable {x y : Double} {u v a b j : Nat}

def parts : Nat := 2 ^ 53

/-- A mantissa after some divisions, next to the number that was divided: every division adds an error of
half a unit, and the errors of the errors stay below a thousandth. -/
structure Drift (j u a : Nat) : Prop where
  low : 1000 * parts * u ≤ 1000 * parts * (10 ^ j * a) + 1001 * (j * u)
  high : 1000 * parts * (10 ^ j * a) ≤ 1000 * parts * u + 1001 * (j * u)

theorem drift_none (u : Nat) : Drift 0 u u := by
  constructor <;> simp

theorem Drift.step (large : 10 * one ≤ u) (few : j ≤ 1000) (rest : Drift j (Format.double.nearest u 10) a) :
    Drift (j + 1) u a := by
  obtain ⟨above, below⟩ := Format.double.nearest_close (show 0 < 10 by decide) (precise large)
  obtain ⟨low, high⟩ := rest
  generalize Format.double.nearest u 10 = w at *
  have bits : 2 ^ Format.double.precision = parts := rfl
  have places : 10 ^ (j + 1) * a = 10 * (10 ^ j * a) := by ring
  have product : (j + 1) * u = j * u + u := by ring
  rw [bits] at above below
  have abovePart := Nat.mul_le_mul_left j above
  have bounded : j * u ≤ 1000 * u := Nat.mul_le_mul_right u few
  have expand : j * (parts * (w * 10)) = parts * 10 * (j * w) := by ring
  have expand' : j * (parts * u + u) = parts * (j * u) + j * u := by ring
  rw [expand, expand'] at abovePart
  have numeral : parts = 9007199254740992 := rfl
  rw [numeral] at low high above below abovePart
  constructor
  · rw [places, product, numeral]
    omega
  · rw [places, product, numeral]
    omega

/-- What comes of the divisions: their number is bounded, and so is the drift. -/
theorem shrink_drift (h : Magnitude x u) (least : one ≤ u) (fuel e : Nat) (few : fuel ≤ 1000) :
    ∃ a j, Magnitude (shrink fuel x e).1 a ∧ (shrink fuel x e).2 = e + j ∧ j ≤ fuel ∧ 9 ^ j * one ≤ u ∧
      Drift j u a := by
  induction fuel generalizing x u e with
  | zero => exact ⟨u, 0, h, rfl, Nat.le_refl 0, by omega, drift_none u⟩
  | succ fuel ih =>
    rw [shrink, h.belowTen_iff]
    by_cases small : u < 10 * one
    · simp only [small, decide_true, if_true]
      exact ⟨u, 0, h, rfl, Nat.zero_le _, by omega, drift_none u⟩
    · have large : 10 * one ≤ u := Nat.le_of_not_lt small
      simp only [small, decide_false, Bool.false_eq_true, if_false]
      have next : one ≤ Format.double.nearest u 10 := by
        calc one = Format.double.nearest (one * 10) 10 :=
              (Format.double.nearest_exact one_fits.2 (by decide)).symm
          _ ≤ Format.double.nearest u 10 := Format.double.nearest_mono (by omega) (by decide)
      obtain ⟨a, j, ha, steps, within, powers, drift⟩ := ih h.divide next (e + 1) (by omega)
      refine ⟨a, j + 1, ha, by omega, by omega, ?_, drift.step large (by omega)⟩
      have ninth := divided_le large
      calc 9 ^ (j + 1) * one = 9 * (9 ^ j * one) := by ring
        _ ≤ 9 * Format.double.nearest u 10 := Nat.mul_le_mul_left 9 powers
        _ ≤ u := ninth

theorem Drift.gap (first : Drift j u a) (second : Drift j v b) (apart : u + one ≤ v) :
    1000 * parts * (10 ^ j * a) + 1000 * parts * one ≤ 1000 * parts * (10 ^ j * b) + 1001 * (j * u) + 1001 * (j * v) := by
  have high := first.high
  have low := second.low
  have scaled := Nat.mul_le_mul_left (1000 * parts) apart
  rw [Nat.mul_add] at scaled
  omega

/-- Mantissas that are more than a unit of the last decimal place apart are written differently. -/
theorem shown_lt_shown (apart : u * 10 ^ 17 + one < v * 10 ^ 17) : shown u < shown v := by
  obtain ⟨high, -⟩ := roundHalfEven_bounds (u * Nat.pow 10 17) one one_pos
  obtain ⟨-, low⟩ := roundHalfEven_bounds (v * Nat.pow 10 17) one one_pos
  by_contra equal
  have products := Nat.mul_le_mul_right one (Nat.le_of_not_lt equal)
  unfold shown at products
  simp only [Nat.pow_eq] at high low products
  omega

theorem code_lt {sign e e' : Nat} (hu : shown u < 10 ^ 18) (h : e < e' ∨ e = e' ∧ shown u < shown v) :
    code sign e u < code sign e' v := by
  unfold code
  rcases h with less | ⟨rfl, less⟩
  · omega
  · omega

theorem fromTen_apart (fitsA : Format.double.Fits a) (fitsB : Format.double.Fits b) (belowA : a < 10 * one)
    (belowB : b < 10 * one) (apart : a * 10 ^ 17 + 9000 * one < b * 10 ^ 17) :
    fromTen b * 10 ^ 17 + one < fromTen a * 10 ^ 17 := by
  obtain ⟨-, -, last, -⟩ := sizes
  have fills : 2 ^ (Format.double.precision - 1) * 1 ≤ 16 * lastPlace := by
    change 4503599627370496 ≤ _
    omega
  have fillsA := fills.trans (Nat.le_sub_of_add_le' (below_ten fitsA belowA))
  have fillsB := fills.trans (Nat.le_sub_of_add_le' (below_ten fitsB belowB))
  obtain ⟨-, low⟩ := Format.double.nearest_close (show 0 < 1 by decide) fillsA
  obtain ⟨high, -⟩ := Format.double.nearest_close (show 0 < 1 by decide) fillsB
  have wholeA := Nat.add_sub_of_le belowA.le
  have wholeB := Nat.add_sub_of_le belowB.le
  have bits : 2 ^ Format.double.precision = 9007199254740992 := rfl
  rw [bits, Nat.mul_one] at low high
  unfold fromTen
  generalize 10 * one - a = restA at *
  generalize 10 * one - b = restB at *
  linarith

theorem steps_le {k n limit : Nat} (powers : 9 ^ j * one ≤ n * one) (most : n ≤ limit) (less : limit < 9 ^ (k + 1)) :
    j ≤ k := by
  by_contra more
  have exponents : 9 ^ (k + 1) ≤ 9 ^ j := Nat.pow_le_pow_right (by decide) (by omega)
  have bounded := Nat.le_of_mul_le_mul_right powers one_pos
  omega

/-- How far apart the mantissas of two whole numbers up to a limit are after as many divisions, when no
more than a number of them are needed. -/
theorem shrink_apart {m n limit k : Nat} (hx : Magnitude x (m * one)) (hy : Magnitude y (n * one)) (pos : 0 < m)
    (less : m < n) (most : n ≤ limit) (reach : limit < 9 ^ (k + 1)) (ha : Magnitude (shrink decades x 0).1 a)
    (hb : Magnitude (shrink decades y 0).1 b) :
    (shrink decades x 0).2 < (shrink decades y 0).2 ∨
      (shrink decades x 0).2 = (shrink decades y 0).2 ∧ (shrink decades y 0).2 ≤ k ∧
        1000 * parts * (10 ^ (shrink decades y 0).2 * a) + 1000 * parts * one ≤
          1000 * parts * (10 ^ (shrink decades y 0).2 * b) + 2002 * k * limit * one := by
  have ordered : m * one ≤ n * one := Nat.mul_le_mul_right one less.le
  obtain ⟨a', b', ha', hb', order, -⟩ := shrink_mono hx hy ordered decades 0
  rcases order with fewer | ⟨same, -⟩
  · exact Or.inl fewer
  · have leastX : one ≤ m * one := Nat.le_mul_of_pos_left one pos
    have leastY : one ≤ n * one := Nat.le_mul_of_pos_left one (by omega)
    obtain ⟨a'', j, ha'', stepsX, -, -, driftX⟩ := shrink_drift hx leastX decades 0 (by decide)
    obtain ⟨b'', j', hb'', stepsY, -, powers, driftY⟩ := shrink_drift hy leastY decades 0 (by decide)
    cases ha.unique ha''
    cases hb.unique hb''
    have counts : j = j' := by omega
    subst counts
    rw [Nat.zero_add] at stepsY
    have few := steps_le powers most reach
    have apart : m * one + one ≤ n * one := by
      calc m * one + one = (m + 1) * one := (Nat.succ_mul m one).symm
        _ ≤ n * one := Nat.mul_le_mul_right one less
    have gap := driftX.gap driftY apart
    have driftedY : j * (n * one) ≤ k * limit * one := by
      calc j * (n * one) = j * n * one := (Nat.mul_assoc ..).symm
        _ ≤ k * limit * one := Nat.mul_le_mul_right one (Nat.mul_le_mul few most)
    have driftedX : j * (m * one) ≤ j * (n * one) := Nat.mul_le_mul_left j ordered
    have total : 2002 * k * limit * one = 2002 * (k * limit * one) := by ring
    rw [stepsY, total]
    refine Or.inr ⟨same.trans stepsY, few, ?_⟩
    omega

theorem places_apart {e k w : Nat} (few : e ≤ k) (small : k ≤ 17)
    (apart : 10 ^ (17 - k) * (10 ^ e * a) + w < 10 ^ (17 - k) * (10 ^ e * b)) : a * 10 ^ 17 + w < b * 10 ^ 17 := by
  have split_ : 10 ^ 17 = 10 ^ (k - e) * (10 ^ (17 - k) * 10 ^ e) := by
    rw [← Nat.pow_add, ← Nat.pow_add]
    congr 1
    omega
  have positive : 0 < 10 ^ (k - e) := Nat.pow_pos (by decide)
  have scaled := Nat.mul_lt_mul_of_pos_left apart positive
  have wider : w ≤ 10 ^ (k - e) * w := Nat.le_mul_of_pos_left w positive
  rw [Nat.mul_add] at scaled
  rw [split_]
  calc a * (10 ^ (k - e) * (10 ^ (17 - k) * 10 ^ e)) + w
      = 10 ^ (k - e) * (10 ^ (17 - k) * (10 ^ e * a)) + w := by ring
    _ ≤ 10 ^ (k - e) * (10 ^ (17 - k) * (10 ^ e * a)) + 10 ^ (k - e) * w := Nat.add_le_add_left wider _
    _ < 10 ^ (k - e) * (10 ^ (17 - k) * (10 ^ e * b)) := scaled
    _ = b * (10 ^ (k - e) * (10 ^ (17 - k) * 10 ^ e)) := by ring

def mostAbove : Nat := 25342 * 10 ^ 10

/-- And so have those from minus one down to minus this one; the complement costs them some accuracy. -/
def mostBelow : Nat := 18 * 10 ^ 12

theorem keys_above {m n : Nat} (hx : Magnitude x (m * one)) (hy : Magnitude y (n * one)) (pos : 0 < m) (less : m < n)
    (most : n ≤ mostAbove) : ofNonzero false x < ofNonzero false y := by
  obtain ⟨e, a, ha, rfl, -, shows, -, keyX, -⟩ := hx.large_keyed (Nat.le_mul_of_pos_left one pos)
  obtain ⟨e', b, hb, rfl, -, -, -, keyY, -⟩ := hy.large_keyed (Nat.le_mul_of_pos_left one (by omega))
  refine (keyX.lt_iff keyY).2 (code_lt shows ?_)
  rcases shrink_apart hx hy pos less most (k := 15) (by decide) ha hb with fewer | ⟨same, few, apart⟩
  · exact Or.inl fewer
  · refine Or.inr ⟨same, shown_lt_shown (places_apart few (by decide) ?_)⟩
    have numeral : parts = 9007199254740992 := rfl
    have limit : mostAbove = 253420000000000 := rfl
    have positive := one_pos
    rw [numeral, limit] at apart
    omega

theorem keys_below {m n : Nat} (hx : Magnitude x (m * one)) (hy : Magnitude y (n * one)) (pos : 0 < m) (less : m < n)
    (most : n ≤ mostBelow) : ofNonzero true y < ofNonzero true x := by
  have leastX : one ≤ m * one := Nat.le_mul_of_pos_left one pos
  have leastY : one ≤ n * one := Nat.le_mul_of_pos_left one (by omega)
  obtain ⟨e, a, ha, rfl, few, -, -, -, keyX⟩ := hx.large_keyed leastX
  obtain ⟨e', b, hb, rfl, few', -, shows, -, keyY⟩ := hy.large_keyed leastY
  refine (keyY.lt_iff keyX).2 (code_lt shows ?_)
  rcases shrink_apart hx hy pos less most (k := 13) (by decide) ha hb with fewer | ⟨same, few, apart⟩
  · exact Or.inl (by omega)
  · obtain ⟨a', _, ha', -, -, belowA, -⟩ := hx.shrunk leastX
    obtain ⟨b', _, hb', -, -, belowB, -⟩ := hy.shrunk leastY
    cases ha.unique ha'
    cases hb.unique hb'
    refine Or.inr ⟨by omega, shown_lt_shown (fromTen_apart ha.fits hb.fits belowA belowB
      (places_apart few (by decide) ?_))⟩
    have numeral : parts = 9007199254740992 := rfl
    have limit : mostBelow = 18000000000000 := rfl
    have positive := one_pos
    rw [numeral, limit] at apart
    omega

variable {m n : Int}

theorem IsWhole.key_negative (h : IsWhole x n) (below : n < 0) :
    ∃ x', Magnitude x' (n.natAbs * one) ∧ ofDouble x = ofNonzero true x' := by
  obtain ⟨fits, rfl⟩ := h
  rw [decide_eq_true below, ofDouble_finite fits (Nat.mul_pos (by omega) one_pos)]
  exact ⟨_, ⟨fits, rfl⟩, rfl⟩

theorem IsWhole.key_positive (h : IsWhole x n) (above : 0 < n) :
    ∃ x', Magnitude x' (n.natAbs * one) ∧ ofDouble x = ofNonzero false x' := by
  obtain ⟨fits, rfl⟩ := h
  rw [decide_eq_false (by omega), ofDouble_finite fits (Nat.mul_pos (by omega) one_pos)]
  exact ⟨_, ⟨fits, rfl⟩, rfl⟩

theorem IsWhole.rank (h : IsWhole x n) : rank x = if n = 0 then 2 else if n < 0 then 1 else 3 := by
  obtain ⟨fits, rfl⟩ := h
  have zero : n.natAbs * one = 0 ↔ n = 0 := by
    rw [Nat.mul_eq_zero, Int.natAbs_eq_zero]
    exact or_iff_left (Nat.pos_iff_ne_zero.1 one_pos)
  rw [OrderKey.rank]
  simp only [zero, decide_eq_true_eq]

theorem IsWhole.key_lt (hx : IsWhole x m) (hy : IsWhole y n) (less : m < n) (low : -(mostBelow : Int) ≤ m)
    (high : n ≤ mostAbove) : ofDouble x < ofDouble y := by
  by_cases negative : n < 0
  · obtain ⟨x', magnitudeX, keyX⟩ := hx.key_negative (less.trans negative)
    obtain ⟨y', magnitudeY, keyY⟩ := hy.key_negative negative
    rw [keyX, keyY]
    exact keys_below magnitudeY magnitudeX (by omega) (by omega) (by omega)
  · by_cases positive : 0 < m
    · obtain ⟨x', magnitudeX, keyX⟩ := hx.key_positive positive
      obtain ⟨y', magnitudeY, keyY⟩ := hy.key_positive (positive.trans less)
      rw [keyX, keyY]
      exact keys_above magnitudeX magnitudeY (by omega) (by omega) (by omega)
    · apply ofDouble_lt_of_rank
      rw [hx.rank, hy.rank, if_neg negative]
      rcases Int.lt_or_eq_of_le (Int.not_lt.1 positive) with below | rfl
      · rw [if_neg below.ne, if_pos below]
        split <;> decide
      · rw [if_pos rfl, if_neg less.ne']
        decide

structure Exact (x : Double) (n : Int) : Prop where
  whole : IsWhole x n
  low : -(mostBelow : Int) ≤ n
  high : n ≤ mostAbove

theorem Exact.small (h : Exact x n) : n.natAbs < wholeLimit := by
  have low := h.low
  have high := h.high
  have limit : wholeLimit = 9007199254740992 := rfl
  have below : mostBelow = 18000000000000 := rfl
  have above : mostAbove = 253420000000000 := rfl
  omega

theorem Exact.key_lt (hx : Exact x m) (hy : Exact y n) (less : m < n) : ofDouble x < ofDouble y :=
  hx.whole.key_lt hy.whole less hx.low hy.high

theorem Exact.key_eq_iff (hx : Exact x m) (hy : Exact y n) : ofDouble x = ofDouble y ↔ m = n := by
  constructor
  · intro same
    rcases Int.lt_trichotomy m n with less | equal | more
    · exact absurd (same ▸ hx.key_lt hy less) (List.lt_irrefl _)
    · exact equal
    · exact absurd (same ▸ hy.key_lt hx more) (List.lt_irrefl _)
  · rintro rfl
    rw [hx.whole.unique hy.whole]

theorem Exact.key_lt_iff (hx : Exact x m) (hy : Exact y n) : ofDouble x < ofDouble y ↔ m < n := by
  constructor
  · intro keys
    rcases Int.lt_trichotomy m n with less | equal | more
    · exact less
    · exact absurd keys ((hx.key_eq_iff hy).2 equal ▸ List.lt_irrefl _)
    · exact absurd (hy.key_lt hx more) (List.lt_asymm keys)
  · exact hx.key_lt hy

end OrderKey

end QuadStore
