import QuadStore.Proofs.KeyOrder

namespace QuadStore

namespace OrderKey

/-- The class of a double, counted upwards: minus infinity, negative, zero, positive, plus infinity, NaN. -/
def rank : Double → Nat
  | .infinite true => 0
  | .finite negative units _ => if units = 0 then 2 else if negative then 1 else 3
  | .infinite false => 4
  | .nan => 5

def Ranked (rank n : Nat) : Prop :=
  (rank = 0 → n = 0) ∧ (rank = 1 → 0 < n ∧ n < 3 * 10 ^ 21) ∧ (rank = 2 → n = 3 * 10 ^ 21) ∧
    (rank = 3 → 3 * 10 ^ 21 < n ∧ n < 6 * 10 ^ 21) ∧ (rank = 4 → n = 6 * 10 ^ 21) ∧
    (rank = 5 → n = 7 * 10 ^ 21)

variable {x y : Double}

theorem rank_le (x : Double) : rank x ≤ 5 := by
  cases x with
  | nan => exact Nat.le_refl 5
  | infinite negative => cases negative <;> decide
  | finite negative u fits =>
    rw [rank]
    split
    · decide
    · cases negative <;> decide

theorem ofDouble_ranked (x : Double) : ∃ n, Keyed (ofDouble x) n ∧ Ranked (rank x) n := by
  unfold Ranked
  cases x with
  | nan => exact ⟨_, special_keyed (show 7 < 10 by decide), by simp [rank]⟩
  | infinite negative =>
    cases negative with
    | false => exact ⟨_, special_keyed (show 6 < 10 by decide), by simp [rank]⟩
    | true => exact ⟨_, special_keyed (show 0 < 10 by decide), by simp [rank]⟩
  | finite negative u fits =>
    obtain ⟨n, keyed, most, zero, plus, minus⟩ := finite_keyed negative fits
    refine ⟨n, keyed, ?_⟩
    rw [rank]
    rcases Nat.eq_zero_or_pos u with none_ | some_
    · have middle := zero none_
      rw [if_pos none_]
      omega
    · rw [if_neg (Nat.pos_iff_ne_zero.1 some_)]
      cases negative with
      | false =>
        have least := plus some_ rfl
        rw [if_neg Bool.false_ne_true]
        omega
      | true =>
        have between := minus some_ rfl
        rw [if_pos rfl]
        omega

theorem Ranked.lt {a b m n : Nat} (hm : Ranked a m) (hn : Ranked b n) (less : a < b) (last : b ≤ 5) : m < n := by
  unfold Ranked at hm hn
  omega

theorem ofDouble_lt_of_rank (less : rank x < rank y) : ofDouble x < ofDouble y := by
  obtain ⟨m, keyX, rankedX⟩ := ofDouble_ranked x
  obtain ⟨n, keyY, rankedY⟩ := ofDouble_ranked y
  exact (keyX.lt_iff keyY).2 (rankedX.lt rankedY less (rank_le y))

theorem ofDouble_le (h : x.le y = true) : ofDouble x ≤ ofDouble y := by
  rcases Bool.or_eq_true_iff.1 h with less | equal
  · exact ofDouble_mono less
  · rw [ofDouble_congr equal]
    exact List.le_refl _

/-- Keys of doubles are as wide as each other and in the order of the doubles, equal or not; those of
different classes are in the order of the classes, and that of a NaN is the last. -/
theorem ofDouble_ordered (x y : Double) :
    (x.le y = true → ofDouble x ≤ ofDouble y) ∧ (rank x < rank y → ofDouble x < ofDouble y) ∧
      (x.isNaN = false → ofDouble x < ofDouble .nan) ∧ (ofDouble x).length = 23 :=
  ⟨ofDouble_le, ofDouble_lt_of_rank, ofDouble_nan, length_ofDouble x⟩

def leastNegative : Double := .ofUnits true 1 1

theorem ofDouble_ordered_least :
    leastNegative.le .zero = true ∧ rank leastNegative < rank .zero ∧ leastNegative.isNaN = false ∧
      ofDouble leastNegative ≤ ofDouble .zero ∧ ofDouble leastNegative < ofDouble .zero ∧
      ofDouble leastNegative < ofDouble .nan := by
  have ordered : leastNegative.le .zero = true := by decide +kernel
  have ranked : rank leastNegative < rank .zero := by decide +kernel
  have number : leastNegative.isNaN = false := by decide +kernel
  obtain ⟨weak, strict, last, -⟩ := ofDouble_ordered leastNegative .zero
  exact ⟨ordered, ranked, number, weak ordered, strict ranked, last number⟩

end OrderKey

end QuadStore
