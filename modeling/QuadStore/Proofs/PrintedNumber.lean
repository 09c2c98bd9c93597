import QuadStore.Proofs.Numeral
import QuadStore.Proofs.ShortestDigits

namespace QuadStore

namespace Text

variable {n : Nat}

theorem length_ofNat_pos : 0 < (ofNat n).length := List.length_pos_iff.2 (ofNat_ne_nil n)

theorem digit_of_mem_zeros {c : UInt8} {count : Nat} (mem : c ∈ List.replicate count (byte '0')) :
    Ascii.isDigit c = true := by
  rw [List.eq_of_mem_replicate mem]
  rfl

theorem digit_of_mem_drop {c : UInt8} {count : Nat} (mem : c ∈ (ofNat n).drop count) :
    Ascii.isDigit c = true := isDigit_of_mem_ofNat (List.mem_of_mem_drop mem)

theorem digit_of_mem_take {c : UInt8} {count : Nat} (mem : c ∈ (ofNat n).take count) :
    Ascii.isDigit c = true := isDigit_of_mem_ofNat (List.mem_of_mem_take mem)

theorem head_take {count : Nat} (pos : 0 < n) (some_ : 0 < count) :
    ((ofNat n).take count).head? ≠ some (byte '0') := by
  rw [List.head?_take, if_neg (by omega)]
  exact head_ofNat pos

end Text

namespace Decimal

open Text

variable (d : Decimal)

theorem exists_whole (pos : 0 < d.digits) (whole : 0 ≤ d.exponent) :
    ∃ n : Numeral, n.text = ofNat d.digits ++ List.replicate d.exponent.toNat (byte '0') ++ ".0" ∧
      n.decimal.value = d.value := by
  let n : Numeral := {
    whole := ofNat d.digits ++ List.replicate d.exponent.toNat (byte '0')
    fraction := [byte '0']
    exponent := none
    whole_ne := List.append_ne_nil_of_left_ne_nil (ofNat_ne_nil d.digits) _
    whole_digits := by
      intro c mem
      rcases List.mem_append.1 mem with mem | mem
      · exact isDigit_of_mem_ofNat mem
      · exact digit_of_mem_zeros mem
    unpadded := by
      intro zero
      rw [List.head?_append_of_ne_nil _ (ofNat_ne_nil d.digits)] at zero
      exact absurd zero (head_ofNat pos)
    fraction_digits := fun _ => isDigit_of_mem_zero
    exponent_digits := by
      intro e mem
      cases mem }
  refine ⟨n, ?_, ?_⟩
  · show n.whole ++ n.fractionText ++ [] = _
    rw [List.append_nil]
    rfl
  -- The zero behind the point is one more digit, and one power of ten less.
  · have digits : n.decimal.digits = d.digits * 10 ^ d.exponent.toNat * 10 := by
      show toNat 10 (ofNat d.digits ++ List.replicate d.exponent.toNat (byte '0') ++ [byte '0']) = _
      rw [toNat_append, toNat_append, toNat_ofNat, toNat_zeros, List.length_replicate]
      rfl
    have exponent : n.decimal.exponent = -1 := rfl
    have power : (10 : ℚ) ^ d.exponent.toNat = 10 ^ d.exponent := by
      rw [← zpow_natCast, Int.toNat_of_nonneg whole]
    unfold value
    rw [digits, exponent]
    push_cast
    rw [power, zpow_neg_one]
    field_simp

theorem exists_small (places : Nat) (exponent : d.exponent = -places)
    (small : (ofNat d.digits).length ≤ places) :
    ∃ n : Numeral,
      n.text = "0." ++ List.replicate (places - (ofNat d.digits).length) (byte '0') ++ ofNat d.digits ∧
      n.decimal = d := by
  let n : Numeral := {
    whole := [byte '0']
    fraction := List.replicate (places - (ofNat d.digits).length) (byte '0') ++ ofNat d.digits
    exponent := none
    whole_ne := List.cons_ne_nil _ _
    whole_digits := fun _ => isDigit_of_mem_zero
    unpadded := fun _ => rfl
    fraction_digits := by
      intro c mem
      rcases List.mem_append.1 mem with mem | mem
      · exact digit_of_mem_zeros mem
      · exact isDigit_of_mem_ofNat mem
    exponent_digits := by
      intro e mem
      cases mem }
  have some_ : n.fraction ≠ [] := List.append_ne_nil_of_right_ne_nil _ (ofNat_ne_nil d.digits)
  refine ⟨n, ?_, ?_⟩
  · show n.whole ++ n.fractionText ++ [] = _
    rw [List.append_nil, Numeral.fractionText, if_neg some_]
    rfl
  · have digits : n.decimal.digits = d.digits := by
      show toNat 10 ([byte '0'] ++ (List.replicate _ (byte '0') ++ ofNat d.digits)) = _
      have zero : toNat 10 [byte '0'] = 0 := rfl
      rw [toNat_append, toNat_append, zero, toNat_zeros, toNat_ofNat, Nat.zero_mul, Nat.zero_mul,
        Nat.zero_add, Nat.zero_add]
    have length : n.fraction.length = places := by
      show (List.replicate _ (byte '0') ++ ofNat d.digits).length = places
      rw [List.length_append, List.length_replicate]
      omega
    have power : n.decimal.exponent = d.exponent := by
      show (0 : Int) - n.fraction.length = d.exponent
      rw [length, exponent]
      omega
    exact congrArg₂ Decimal.mk digits power

theorem exists_pointed (pos : 0 < d.digits) (count : Nat) (some_ : 0 < count)
    (exponent : Option (Bool × Text))
    (exponent_digits : ∀ e ∈ exponent, e.2 ≠ [] ∧ ∀ c ∈ e.2, Ascii.isDigit c = true) :
    ∃ n : Numeral, n.whole = (ofNat d.digits).take count ∧ n.fraction = (ofNat d.digits).drop count ∧
      n.exponent = exponent ∧ n.decimal.digits = d.digits := by
  refine ⟨{
    whole := (ofNat d.digits).take count
    fraction := (ofNat d.digits).drop count
    exponent := exponent
    whole_ne := by
      intro nil
      rcases List.take_eq_nil_iff.1 nil with zero | none
      · omega
      · exact ofNat_ne_nil _ none
    whole_digits := fun c mem => digit_of_mem_take mem
    unpadded := fun zero => absurd zero (head_take pos some_)
    fraction_digits := fun c mem => digit_of_mem_drop mem
    exponent_digits := exponent_digits }, rfl, rfl, rfl, ?_⟩
  show toNat 10 ((ofNat d.digits).take count ++ (ofNat d.digits).drop count) = d.digits
  rw [List.take_append_drop, toNat_ofNat]

theorem exists_positional (pos : 0 < d.digits) :
    ∃ n : Numeral, n.text = NumberStyle.positional true d ∧ n.decimal.value = d.value := by
  unfold NumberStyle.positional
  dsimp only
  split
  · rename_i whole
    exact d.exists_whole pos whole
  · rename_i negative
    have exponent : d.exponent = -((-d.exponent).toNat : Int) := by omega
    split
    · rename_i small
      obtain ⟨n, text, same⟩ := d.exists_small _ exponent small
      exact ⟨n, text, by rw [same]⟩
    · rename_i large
      have count : 0 < (ofNat d.digits).length - (-d.exponent).toNat := by omega
      obtain ⟨n, whole, fraction, none, digits⟩ :=
        d.exists_pointed pos _ count none (fun e mem => by cases mem)
      have length : n.fraction.length = (-d.exponent).toNat := by
        rw [fraction, List.length_drop]
        omega
      have some_ : n.fraction ≠ [] := by
        rw [← List.length_pos_iff, length]
        omega
      refine ⟨n, ?_, ?_⟩
      · rw [Numeral.text, Numeral.fractionText, if_neg some_, Numeral.exponentText, none, whole, fraction,
          List.append_nil, List.append_assoc]
        rfl
      · have power : n.decimal.exponent = d.exponent := by
          have zero : n.power = 0 := by rw [Numeral.power, none]
          show n.power - n.fraction.length = d.exponent
          omega
        have same : n.decimal = d := congrArg₂ Decimal.mk digits power
        rw [same]

theorem exists_scientific (pos : 0 < d.digits) :
    ∃ n : Numeral, n.text = NumberStyle.scientific d ∧ n.decimal.value = d.value := by
  have digit : ∀ e ∈ some (decide (d.leading < 0), padded 2 d.leading.natAbs),
      e.2 ≠ [] ∧ ∀ c ∈ e.2, Ascii.isDigit c = true := by
    rintro e ⟨⟩
    refine ⟨?_, fun c mem => isDigit_of_mem_padded mem⟩
    exact List.append_ne_nil_of_right_ne_nil _ (ofNat_ne_nil _)
  obtain ⟨n, whole, fraction, exponent, digits⟩ := d.exists_pointed pos 1 Nat.one_pos _ digit
  have length : n.fraction.length = (ofNat d.digits).length - 1 := by rw [fraction, List.length_drop]
  have some_ := length_ofNat_pos (n := d.digits)
  refine ⟨n, ?_, ?_⟩
  · have point : n.fractionText = if (ofNat d.digits).length = 1 then []
        else byte '.' :: (ofNat d.digits).drop 1 := by
      have empty : n.fraction = [] ↔ (ofNat d.digits).length = 1 := by
        rw [← List.length_eq_zero_iff, length]
        omega
      rw [Numeral.fractionText, ← fraction]
      simp only [empty]
    have mark : n.exponentText = (if d.leading < 0 then ("e-" : Text) else "e+") ++
        padded 2 d.leading.natAbs := by
      rw [Numeral.exponentText, exponent]
      dsimp only
      by_cases negative : d.leading < 0
      · simp only [negative, decide_true, if_true]
        rfl
      · simp only [negative, decide_false, if_false]
        rfl
    rw [Numeral.text, whole, point, mark, ← List.append_assoc]
    rfl
  · have power : n.power = d.leading := by
      rw [Numeral.power, exponent]
      dsimp only
      rw [toNat_padded]
      by_cases negative : d.leading < 0
      · simp only [negative, decide_true, if_true]
        omega
      · simp only [negative, decide_false]
        simp only [Bool.false_eq_true, if_false]
        omega
    have same : n.decimal = d := by
      apply congrArg₂ Decimal.mk digits
      rw [power, length, leading]
      omega
    rw [same]

theorem exists_magnitude (style : NumberStyle) (pointed : style.pointed = true) (pos : 0 < d.digits) :
    ∃ n : Numeral, n.text = style.magnitude d ∧ n.decimal.value = d.value := by
  unfold NumberStyle.magnitude
  split
  · rw [pointed]
    exact d.exists_positional pos
  · exact d.exists_scientific pos

end Decimal

end QuadStore
