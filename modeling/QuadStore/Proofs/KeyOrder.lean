import Mathlib.Tactic.Ring
import QuadStore.Proofs.Digits
import QuadStore.Proofs.Rounding
import QuadStore.Term.Key

namespace QuadStore

namespace OrderKey

def one : Nat := Format.double.one

def lastPlace : Nat := 2 ^ 1021

def wholeLimit : Nat := Nat.pow 2 Format.double.precision

theorem sizes :
    one = 2 ^ 53 * lastPlace ∧ 2 ^ 1025 = 16 * lastPlace ∧ 2 ^ 52 ≤ lastPlace ∧
      10 * one < Nat.pow 2 Format.double.limit ∧ wholeLimit * one ≤ Nat.pow 2 Format.double.limit ∧
      Format.double.nearest ((one - lastPlace) * 10) 1 < 10 * one := by
  decide +kernel

def Magnitude (x : Double) (u : Nat) : Prop := ∃ fits, x = .finite false u fits

variable {x y : Double} {u v : Nat}

theorem Magnitude.fits (h : Magnitude x u) : Format.double.Fits u := h.choose

theorem lt_limit (h : u ≤ 10 * one) : u < Nat.pow 2 Format.double.limit := by
  obtain ⟨-, -, -, ten, -⟩ := sizes
  exact Nat.lt_of_le_of_lt h ten

theorem one_pos : 0 < one := Format.double.one_pos

theorem fits_whole {k : Nat} (h : k < wholeLimit) : Format.double.Fits (k * one) := by
  obtain ⟨-, -, -, -, whole, -⟩ := sizes
  refine ⟨?_, k, Format.double.unitExponent, h, ?_⟩
  · calc k * one < wholeLimit * one := Nat.mul_lt_mul_of_pos_right h one_pos
      _ ≤ Nat.pow 2 Format.double.limit := whole
  · unfold one Format.one
    rfl

theorem one_fits : Format.double.Fits one := by
  have fits := fits_whole (k := 1) (by decide)
  rw [Nat.one_mul] at fits
  exact fits

theorem nearest_whole {k : Nat} (h : k < wholeLimit) : Format.double.nearest (k * one) 1 = k * one := by
  have whole := Format.double.nearest_exact (fits_whole h).2 (show 0 < 1 by decide)
  rw [Nat.mul_one] at whole
  exact whole

theorem ofUnits_magnitude {num den : Nat}
    (h : Format.double.nearest num den < Nat.pow 2 Format.double.limit) :
    Magnitude (.ofUnits false num den) (Format.double.nearest num den) :=
  ⟨_, Binary.ofUnits_of_nearest ⟨h, Format.double.nearest_significant num den⟩ rfl⟩

theorem ofInt_magnitude {k : Nat} (h : k < wholeLimit) : Magnitude (.ofInt k) (k * one) := by
  have whole := nearest_whole h
  have small : Format.double.nearest (k * one) 1 < Nat.pow 2 Format.double.limit := by
    rw [whole]
    exact (fits_whole h).1
  have rounded := ofUnits_magnitude small
  rw [whole] at rounded
  have sign : decide ((k : Int) < 0) = false := by simp
  unfold Binary.ofInt Binary.ofRatio
  rw [sign]
  exact rounded

theorem Magnitude.lt_iff (hx : Magnitude x u) (hy : Magnitude y v) : x.lt y = decide (u < v) := by
  obtain ⟨_, rfl⟩ := hx
  obtain ⟨_, rfl⟩ := hy
  simp [Binary.lt]

theorem Magnitude.belowTen_iff (h : Magnitude x u) : belowTen x = decide (u < 10 * one) :=
  h.lt_iff (ofInt_magnitude (k := 10) (by decide))

theorem Magnitude.belowOne_iff (h : Magnitude x u) : belowOne x = decide (u < one) := by
  have bound := h.lt_iff (ofInt_magnitude (k := 1) (by decide))
  rw [Nat.one_mul] at bound
  exact bound

theorem Magnitude.divide (h : Magnitude x u) : Magnitude (x.divide 10) (Format.double.nearest u 10) := by
  have fits := h.fits
  obtain ⟨_, rfl⟩ := h
  apply ofUnits_magnitude
  calc Format.double.nearest u 10 ≤ Format.double.nearest (u * 10) 10 :=
        Format.double.nearest_mono (Nat.le_mul_of_pos_right u (by decide)) (by decide)
    _ = u := Format.double.nearest_exact fits.2 (by decide)
    _ < Nat.pow 2 Format.double.limit := fits.1

theorem nearest_scaled (fits : Format.double.Fits u) (small : u < one) :
    Format.double.nearest (u * 10) 1 < 10 * one := by
  obtain ⟨places, -, -, -, -, most⟩ := sizes
  have below : u + lastPlace ≤ one := by
    have power : 2 ^ 1021 = lastPlace := by rw [lastPlace]
    have half : (2 : Nat) ^ (Format.double.precision - 1) = 4503599627370496 := rfl
    rw [← power] at places ⊢
    refine fits.add_le small (Dvd.intro_left _ places.symm) ?_
    rw [half, places, power]
    omega
  calc Format.double.nearest (u * 10) 1 ≤ Format.double.nearest ((one - lastPlace) * 10) 1 :=
        Format.double.nearest_mono (Nat.mul_le_mul_right 10 (by omega)) (by decide)
    _ < 10 * one := most

theorem Magnitude.scale (h : Magnitude x u) (small : u < one) :
    Magnitude (x.scale 10) (Format.double.nearest (u * 10) 1) := by
  have bound := nearest_scaled h.fits small
  obtain ⟨_, rfl⟩ := h
  exact ofUnits_magnitude (lt_limit (Nat.le_of_lt bound))

theorem nearest_complement (least : one ≤ u) : Format.double.nearest (10 * one - u) 1 ≤ 9 * one := by
  calc Format.double.nearest (10 * one - u) 1 ≤ Format.double.nearest (9 * one) 1 :=
        Format.double.nearest_mono (by omega) (by decide)
    _ = 9 * one := nearest_whole (by decide)

theorem Magnitude.complement (h : Magnitude x u) (least : one ≤ u) (most : u < 10 * one) :
    Magnitude (ten.sub x) (Format.double.nearest (10 * one - u) 1) := by
  have bound := nearest_complement least
  obtain ⟨fits, rfl⟩ := h
  obtain ⟨_, whole⟩ := ofInt_magnitude (k := 10) (by decide)
  have difference : ten.sub (.finite false u fits) = .ofUnits false (10 * one - u) 1 := by
    unfold ten
    have units : ((10 * one : Nat) : Int) - u = ((10 * one - u : Nat) : Int) := by omega
    have some_ : ((10 * one - u : Nat) : Int) ≠ 0 := by omega
    have positive : ¬ ((10 * one - u : Nat) : Int) < 0 := by omega
    have cast : ((10 : Nat) : Int) = 10 := rfl
    rw [cast] at whole
    rw [whole]
    unfold Binary.sub
    simp only [Bool.false_eq_true, if_false, units, if_neg some_, Int.natAbs_natCast,
      decide_eq_false positive]
  rw [difference]
  exact ofUnits_magnitude (lt_limit (by omega))

theorem Magnitude.unique (h : Magnitude x u) (h' : Magnitude x v) : u = v := by
  obtain ⟨_, rfl⟩ := h
  obtain ⟨_, eq⟩ := h'
  cases eq
  rfl

theorem shrink_steps (fuel : Nat) (x : Double) (e : Nat) :
    e ≤ (shrink fuel x e).2 ∧ (shrink fuel x e).2 ≤ e + fuel := by
  induction fuel generalizing x e with
  | zero => simp [shrink]
  | succ fuel ih =>
    rw [shrink]
    split
    · simp
    · have next := ih (x.divide 10) (e + 1)
      omega

theorem grow_steps (fuel : Nat) (x : Double) (e : Nat) :
    e ≤ (grow fuel x e).2 ∧ (grow fuel x e).2 ≤ e + fuel := by
  induction fuel generalizing x e with
  | zero => simp [grow]
  | succ fuel ih =>
    rw [grow]
    split
    · have next := ih (x.scale 10) (e + 1)
      omega
    · simp

theorem shrink_mono (hx : Magnitude x u) (hy : Magnitude y v) (h : u ≤ v) (fuel e : Nat) :
    ∃ a b, Magnitude (shrink fuel x e).1 a ∧ Magnitude (shrink fuel y e).1 b ∧
      ((shrink fuel x e).2 < (shrink fuel y e).2 ∨ (shrink fuel x e).2 = (shrink fuel y e).2 ∧ a ≤ b) ∧
      (one ≤ u → one ≤ a) ∧ (b < 10 * one → a < 10 * one) := by
  induction fuel generalizing x y u v e with
  | zero => exact ⟨u, v, hx, hy, Or.inr ⟨rfl, h⟩, id, fun less => by omega⟩
  | succ fuel ih =>
    have steps := (shrink_steps fuel (y.divide 10) (e + 1)).1
    have larger := Format.double.nearest_mono h (show 0 < 10 by decide)
    obtain ⟨a, b, ha, hb, order, least, most⟩ := ih hx.divide hy.divide larger (e + 1)
    rw [shrink, shrink, hx.belowTen_iff, hy.belowTen_iff]
    by_cases big : v < 10 * one
    · have small : u < 10 * one := by omega
      simp only [big, small, decide_true, if_true]
      exact ⟨u, v, hx, hy, Or.inr ⟨trivial, h⟩, id, fun _ => small⟩
    · by_cases small : u < 10 * one
      · simp only [big, small, decide_true, decide_false, if_true, Bool.false_eq_true, if_false]
        exact ⟨u, b, hx, hb, Or.inl (by omega), id, fun _ => small⟩
      · simp only [big, small, decide_false, Bool.false_eq_true, if_false]
        refine ⟨a, b, ha, hb, order, fun _ => least ?_, most⟩
        calc one = Format.double.nearest (one * 10) 10 :=
              (Format.double.nearest_exact one_fits.2 (by decide)).symm
          _ ≤ Format.double.nearest u 10 :=
              Format.double.nearest_mono (by omega) (by decide)

theorem grow_mono (hx : Magnitude x u) (hy : Magnitude y v) (h : u ≤ v) (fuel e : Nat) :
    ∃ a b, Magnitude (grow fuel x e).1 a ∧ Magnitude (grow fuel y e).1 b ∧
      ((grow fuel y e).2 < (grow fuel x e).2 ∨ (grow fuel x e).2 = (grow fuel y e).2 ∧ a ≤ b) ∧
      (one ≤ a → one ≤ b) ∧ (v < 10 * one → a < 10 * one ∧ b < 10 * one) := by
  induction fuel generalizing x y u v e with
  | zero => exact ⟨u, v, hx, hy, Or.inr ⟨rfl, h⟩, fun least => by omega, fun less => by omega⟩
  | succ fuel ih =>
    rw [grow, grow, hx.belowOne_iff, hy.belowOne_iff]
    by_cases big : v < one
    · have small : u < one := by omega
      have larger := Format.double.nearest_mono (Nat.mul_le_mul_right 10 h) (show 0 < 1 by decide)
      obtain ⟨a, b, ha, hb, order, least, most⟩ := ih (hx.scale small) (hy.scale big) larger (e + 1)
      simp only [big, small, decide_true, if_true]
      exact ⟨a, b, ha, hb, order, least, fun _ => most (nearest_scaled hy.fits big)⟩
    · by_cases small : u < one
      · have steps := (grow_steps fuel (x.scale 10) (e + 1)).1
        have scaled := hx.scale small
        obtain ⟨a, _, ha, -, -, -, most⟩ := ih scaled scaled (Nat.le_refl _) (e + 1)
        simp only [big, small, decide_true, decide_false, if_true, Bool.false_eq_true, if_false]
        exact ⟨a, v, ha, hy, Or.inl (by omega), fun _ => by omega,
          fun less => ⟨(most (nearest_scaled hx.fits small)).1, less⟩⟩
      · simp only [big, small, decide_false, Bool.false_eq_true, if_false]
        exact ⟨u, v, hx, hy, Or.inr ⟨trivial, h⟩, fun least => by omega, fun less => by omega⟩

def shown (u : Nat) : Nat := roundHalfEven (u * Nat.pow 10 17) one

theorem shown_mono (h : u ≤ v) : shown u ≤ shown v :=
  roundHalfEven_mono (Nat.mul_le_mul_right _ h) one one_pos

theorem below_ten (fits : Format.double.Fits u) (h : u < 10 * one) : u + 16 * lastPlace ≤ 10 * one := by
  obtain ⟨places, sixteen, -⟩ := sizes
  have half : (2 : Nat) ^ (Format.double.precision - 1) = 4503599627370496 := rfl
  have whole : 10 * one = 2 ^ 1025 * (10 * 2 ^ 49) := by
    rw [sixteen, places]
    omega
  rw [← sixteen]
  refine fits.add_le h (Dvd.intro _ whole.symm) ?_
  rw [half, whole]
  omega

theorem shown_lt (fits : Format.double.Fits u) (h : u < 10 * one) : shown u < 10 ^ 18 := by
  obtain ⟨places, -, last, -⟩ := sizes
  have below := below_ten fits h
  have more : one < 16 * lastPlace * Nat.pow 10 17 := by
    rw [places]
    simp only [Nat.pow_eq]
    omega
  have bounds := (roundHalfEven_bounds (u * Nat.pow 10 17) one one_pos).1
  have scaled := Nat.mul_le_mul_right (Nat.pow 10 17) below
  have power : 10 * Nat.pow 10 17 = 10 ^ 18 := rfl
  have whole : 10 * one * Nat.pow 10 17 = 10 ^ 18 * one := by rw [Nat.mul_right_comm, power]
  rw [Nat.add_mul, whole] at scaled
  have product : 2 * (shown u * one) < 2 * (10 ^ 18 * one) := by
    unfold shown
    omega
  rw [← Nat.mul_assoc, ← Nat.mul_assoc] at product
  have counts := Nat.lt_of_mul_lt_mul_right product
  omega

theorem Magnitude.places (h : Magnitude x u) :
    places 17 x = Text.ofNat (shown u / Nat.pow 10 17) ++ "." ++
      Text.padded 17 (shown u % Nat.pow 10 17) := by
  obtain ⟨_, rfl⟩ := h
  rfl

def Keyed (s : Text) (n : Nat) : Prop :=
  ∃ front back : Text, s = front ++ ("." ++ back) ∧ front.length = 5 ∧ back.length = 17 ∧
    (∀ c ∈ front, Ascii.isDigit c = true) ∧ (∀ c ∈ back, Ascii.isDigit c = true) ∧
    n = Text.toNat 10 front * 10 ^ 17 + Text.toNat 10 back

theorem Keyed.lt_iff {s t : Text} {m n : Nat} (hs : Keyed s m) (ht : Keyed t n) : s < t ↔ m < n := by
  obtain ⟨front, back, rfl, frontLength, backLength, frontDigits, backDigits, rfl⟩ := hs
  obtain ⟨front', back', rfl, frontLength', backLength', frontDigits', backDigits', rfl⟩ := ht
  have fronts := Text.digits_lt frontDigits frontDigits' (frontLength.trans frontLength'.symm)
  have backs := Text.digits_lt backDigits backDigits' (backLength.trans backLength'.symm)
  have same : front = front' ↔ Text.toNat 10 front = Text.toNat 10 front' := by
    constructor
    · exact fun eq => eq ▸ rfl
    · intro eq
      have converse := Text.digits_lt frontDigits' frontDigits (frontLength'.trans frontLength.symm)
      rw [eq] at fronts
      rw [eq] at converse
      exact List.le_antisymm (fun less => Nat.lt_irrefl _ (converse.1 less))
        (fun less => Nat.lt_irrefl _ (fronts.1 less))
  have small := Text.toNat_lt backDigits
  have small' := Text.toNat_lt backDigits'
  rw [backLength] at small
  rw [backLength'] at small'
  rw [Text.append_lt_append (frontLength.trans frontLength'.symm),
    Text.append_lt_append (a := ".") (b := ".") rfl, fronts, backs, same]
  have point : ¬ (("." : Text) < ".") := List.lt_irrefl _
  constructor
  · rintro (less | ⟨eq, less | ⟨-, less⟩⟩)
    · omega
    · exact absurd less point
    · omega
  · intro less
    rcases Nat.lt_trichotomy (Text.toNat 10 front) (Text.toNat 10 front') with lt | eq | gt
    · exact Or.inl lt
    · exact Or.inr ⟨eq, Or.inr ⟨rfl, by omega⟩⟩
    · omega

theorem Keyed.length {s : Text} {n : Nat} (h : Keyed s n) : s.length = 23 := by
  obtain ⟨front, back, rfl, frontLength, backLength, -⟩ := h
  rw [List.length_append, List.length_append, frontLength, backLength]
  rfl

def code (sign exponent u : Nat) : Nat := sign * 10 ^ 21 + exponent * 10 ^ 18 + shown u

theorem length_digit {n : Nat} (small : n < 10) : (Text.ofNat n).length = 1 := by
  have least := Nat.length_toDigits_pos (b := 10) (n := n)
  have most := (Nat.length_toDigits_le_iff (b := 10) (k := 1) (n := n) (by decide) (by decide)).2 small
  unfold Text.ofNat
  rw [List.length_map]
  omega

theorem assemble_keyed {sign exponent : Nat} (h : Magnitude x u) (hs : sign < 10)
    (he : exponent < 1000) (hu : shown u < 10 ^ 18) :
    Keyed (assemble sign exponent x) (code sign exponent u) := by
  have lead : shown u / Nat.pow 10 17 < 10 := by
    simp only [Nat.pow_eq]
    omega
  have three := Text.length_padded (show 0 < 3 by decide) he
  refine ⟨Text.ofNat sign ++ Text.padded 3 exponent ++ Text.ofNat (shown u / Nat.pow 10 17),
    Text.padded 17 (shown u % Nat.pow 10 17), ?_, ?_, ?_, ?_, ?_, ?_⟩
  · rw [assemble, h.places]
    simp only [List.append_assoc]
  · rw [List.length_append, List.length_append, length_digit hs, three, length_digit lead]
  · exact Text.length_padded (by decide) (Nat.mod_lt _ (by decide))
  · intro c mem
    rcases List.mem_append.1 mem with mem | mem
    · rcases List.mem_append.1 mem with mem | mem
      · exact Text.isDigit_of_mem_ofNat mem
      · exact Text.isDigit_of_mem_padded mem
    · exact Text.isDigit_of_mem_ofNat mem
  · exact fun c mem => Text.isDigit_of_mem_padded mem
  · rw [Text.toNat_append, Text.toNat_append, Text.toNat_ofNat, Text.toNat_ofNat, Text.toNat_padded,
      Text.toNat_padded, three, length_digit lead]
    unfold code
    simp only [Nat.pow_eq]
    omega

theorem precise {k : Nat} (least : k * one ≤ u) : 2 ^ (Format.double.precision - 1) * k ≤ u := by
  obtain ⟨places, -, last, -⟩ := sizes
  have half : (2 : Nat) ^ (Format.double.precision - 1) ≤ one := by
    rw [places]
    change 4503599627370496 ≤ _
    omega
  calc 2 ^ (Format.double.precision - 1) * k ≤ one * k := Nat.mul_le_mul_right k half
    _ = k * one := Nat.mul_comm one k
    _ ≤ u := least

theorem divided_le (least : 10 * one ≤ u) : 9 * Format.double.nearest u 10 ≤ u := by
  have close := (Format.double.nearest_close (show 0 < 10 by decide) (precise least)).1
  have bits : (2 : Nat) ^ Format.double.precision = 9007199254740992 := rfl
  rw [bits] at close
  omega

theorem le_scaled (u : Nat) : 39 * u ≤ 4 * Format.double.nearest (u * 10) 1 := by
  have bits : (2 : Nat) ^ Format.double.precision = 9007199254740992 := rfl
  rcases Nat.lt_or_ge (u * 10) (2 ^ Format.double.precision) with small | large
  · have exact_ := Format.double.nearest_exact
      ⟨u * 10, 0, small, (Nat.mul_one _).symm⟩ (show 0 < 1 by decide)
    rw [Nat.mul_one] at exact_
    rw [exact_]
    omega
  · have half : 2 ^ (Format.double.precision - 1) * 1 ≤ u * 10 := Nat.le_trans (by decide) large
    have close := (Format.double.nearest_close (show 0 < 1 by decide) half).2
    rw [bits] at close
    omega

theorem shrink_below (h : Magnitude x u) (fuel e : Nat) (reach : u < 10 * one * 9 ^ fuel) :
    belowTen (shrink fuel x e).1 = true := by
  induction fuel generalizing x u e with
  | zero =>
    rw [shrink, h.belowTen_iff]
    simpa using reach
  | succ fuel ih =>
    rw [shrink]
    split
    · assumption
    · rename_i stays
      rw [h.belowTen_iff, decide_eq_true_eq] at stays
      have step := divided_le (Nat.le_of_not_lt stays)
      rw [Nat.pow_succ, ← Nat.mul_assoc, Nat.mul_comm _ 9] at reach
      exact ih h.divide (e + 1) (Nat.lt_of_mul_lt_mul_left (Nat.lt_of_le_of_lt step reach))

theorem grow_above (h : Magnitude x u) (fuel e : Nat) (reach : one * 4 ^ fuel ≤ u * 39 ^ fuel) :
    belowOne (grow fuel x e).1 = false := by
  induction fuel generalizing x u e with
  | zero =>
    rw [grow, h.belowOne_iff]
    simpa using reach
  | succ fuel ih =>
    rw [grow]
    split
    · rename_i stays
      rw [h.belowOne_iff, decide_eq_true_eq] at stays
      refine ih (h.scale stays) (e + 1) ?_
      have step := Nat.mul_le_mul_right (39 ^ fuel) (le_scaled u)
      rw [Nat.pow_succ, Nat.pow_succ] at reach
      rw [Nat.mul_assoc, Nat.mul_assoc] at step
      have left : one * (4 ^ fuel * 4) = 4 * (one * 4 ^ fuel) := by ring
      have right : u * (39 ^ fuel * 39) = 39 * (u * 39 ^ fuel) := by ring
      rw [left, right] at reach
      exact Nat.le_of_mul_le_mul_left (Nat.le_trans reach step) (by decide)
    · exact eq_false_of_ne_true ‹_›

theorem decades_reach : Nat.pow 2 Format.double.limit ≤ 10 * one * 9 ^ decades ∧ one * 4 ^ decades ≤ 39 ^ decades := by
  decide +kernel

theorem Magnitude.shrunk (h : Magnitude x u) (least : one ≤ u) :
    ∃ a e, Magnitude (shrink decades x 0).1 a ∧ (shrink decades x 0).2 = e ∧
      one ≤ a ∧ a < 10 * one ∧ e ≤ 330 := by
  obtain ⟨a, _, ha, -, -, low, -⟩ := shrink_mono h h (Nat.le_refl u) decades 0
  have below := shrink_below h decades 0 (Nat.lt_of_lt_of_le h.fits.1 decades_reach.1)
  rw [ha.belowTen_iff, decide_eq_true_eq] at below
  exact ⟨a, _, ha, rfl, low least, below, (shrink_steps decades x 0).2.trans (by decide)⟩

theorem Magnitude.grown (h : Magnitude x u) (pos : 0 < u) (small : u < one) :
    ∃ a e, Magnitude (grow decades x 0).1 a ∧ (grow decades x 0).2 = e ∧
      one ≤ a ∧ a < 10 * one ∧ e ≤ 330 := by
  obtain ⟨a, _, ha, -, -, -, high⟩ := grow_mono h h (Nat.le_refl u) decades 0
  have above := grow_above h decades 0 (Nat.le_trans decades_reach.2 (Nat.le_mul_of_pos_left _ pos))
  rw [ha.belowOne_iff, decide_eq_false_iff_not, Nat.not_lt] at above
  exact ⟨a, _, ha, rfl, above, (high (by omega)).1, (grow_steps decades x 0).2.trans (by decide)⟩

theorem code_le {sign sign' e e' : Nat} (he : e < 1000) (hu : shown u < 10 ^ 18)
    (h : sign < sign' ∨ sign = sign' ∧ (e < e' ∨ e = e' ∧ u ≤ v)) :
    code sign e u ≤ code sign' e' v := by
  unfold code
  rcases h with less | ⟨rfl, less | ⟨rfl, le⟩⟩
  · omega
  · omega
  · have shows := shown_mono le
    omega

def fromTen (u : Nat) : Nat := Format.double.nearest (10 * one - u) 1

theorem fromTen_anti (h : u ≤ v) : fromTen v ≤ fromTen u :=
  Format.double.nearest_mono (Nat.sub_le_sub_left h _) (by decide)

theorem Magnitude.shown_lt (h : Magnitude x u) (below : u < 10 * one) : shown u < 10 ^ 18 :=
  OrderKey.shown_lt h.fits below

theorem fromTen_lt (least : one ≤ u) : fromTen u < 10 * one := by
  have most := nearest_complement least
  have positive := one_pos
  unfold fromTen
  omega

theorem Magnitude.large_keyed (h : Magnitude x u) (least : one ≤ u) :
    ∃ e a, Magnitude (shrink decades x 0).1 a ∧ (shrink decades x 0).2 = e ∧ e < 999 ∧
      shown a < 10 ^ 18 ∧ shown (fromTen a) < 10 ^ 18 ∧
      Keyed (ofNonzero false x) (code 5 e a) ∧ Keyed (ofNonzero true x) (code 1 (999 - e) (fromTen a)) := by
  obtain ⟨a, e, ha, he, low, high, steps⟩ := h.shrunk least
  have rest := ha.complement low high
  have shows := ha.shown_lt high
  have shows' := rest.shown_lt (fromTen_lt low)
  have small : e < 999 := Nat.lt_of_le_of_lt steps (by decide)
  have above : 999 - e < 1000 := Nat.lt_of_le_of_lt (Nat.sub_le ..) (by decide)
  refine ⟨e, a, ha, he, small, shows, shows', ?_, ?_⟩
  all_goals
    unfold ofNonzero
    rw [h.belowOne_iff, decide_eq_false (Nat.not_lt.2 least)]
    dsimp only
    rw [he]
  · exact assemble_keyed ha (by decide) (by omega) shows
  · exact assemble_keyed rest (by decide) (by omega) shows'

theorem Magnitude.small_keyed (h : Magnitude x u) (pos : 0 < u) (below : u < one) :
    ∃ e a, Magnitude (grow decades x 0).1 a ∧ (grow decades x 0).2 = e ∧ e < 999 ∧
      shown a < 10 ^ 18 ∧ shown (fromTen a) < 10 ^ 18 ∧
      Keyed (ofNonzero false x) (code 4 (999 - e) a) ∧ Keyed (ofNonzero true x) (code 2 e (fromTen a)) := by
  obtain ⟨a, e, ha, he, low, high, steps⟩ := h.grown pos below
  have rest := ha.complement low high
  have shows := ha.shown_lt high
  have shows' := rest.shown_lt (fromTen_lt low)
  have small : e < 999 := Nat.lt_of_le_of_lt steps (by decide)
  have above : 999 - e < 1000 := Nat.lt_of_le_of_lt (Nat.sub_le ..) (by decide)
  refine ⟨e, a, ha, he, small, shows, shows', ?_, ?_⟩
  all_goals
    unfold ofNonzero
    rw [h.belowOne_iff, decide_eq_true below]
    dsimp only
    rw [he]
  · exact assemble_keyed ha (by decide) (by omega) shows
  · exact assemble_keyed rest (by decide) (by omega) shows'

/-- Away from zero the keys grow on the one side and fall on the other. -/
theorem ofNonzero_mono (hx : Magnitude x u) (hy : Magnitude y v) (pos : 0 < u) (h : u ≤ v) :
    ∃ m n m' n', Keyed (ofNonzero false x) m ∧ Keyed (ofNonzero false y) n ∧ m ≤ n ∧
      Keyed (ofNonzero true x) m' ∧ Keyed (ofNonzero true y) n' ∧ n' ≤ m' := by
  by_cases small : u < one
  · obtain ⟨e, a, ha, rfl, he, shows, shows', plus, minus⟩ := hx.small_keyed pos small
    by_cases small' : v < one
    · obtain ⟨e', b, hb, rfl, he', showsB, showsB', plus', minus'⟩ := hy.small_keyed (by omega) small'
      refine ⟨_, _, _, _, plus, plus', ?_, minus, minus', ?_⟩
      all_goals
        obtain ⟨a', b', ha', hb', order, -⟩ := grow_mono hx hy h decades 0
        cases ha.unique ha'
        cases hb.unique hb'
      · exact code_le (by omega) shows (Or.inr ⟨rfl, by omega⟩)
      · refine code_le (by omega) showsB' (Or.inr ⟨rfl, ?_⟩)
        rcases order with less | ⟨same, le⟩
        · exact Or.inl less
        · exact Or.inr ⟨same.symm, fromTen_anti le⟩
    · obtain ⟨e', b, -, -, he', -, showsB', plus', minus'⟩ := hy.large_keyed (by omega)
      exact ⟨_, _, _, _, plus, plus', code_le (by omega) shows (Or.inl (by decide)),
        minus, minus', code_le (by omega) showsB' (Or.inl (by decide))⟩
  · obtain ⟨e, a, ha, rfl, he, shows, shows', plus, minus⟩ := hx.large_keyed (by omega)
    obtain ⟨e', b, hb, rfl, he', showsB, showsB', plus', minus'⟩ := hy.large_keyed (by omega)
    refine ⟨_, _, _, _, plus, plus', ?_, minus, minus', ?_⟩
    all_goals
      obtain ⟨a', b', ha', hb', order, -⟩ := shrink_mono hx hy h decades 0
      cases ha.unique ha'
      cases hb.unique hb'
    · exact code_le (by omega) shows (Or.inr ⟨rfl, order⟩)
    · refine code_le (by omega) showsB' (Or.inr ⟨rfl, ?_⟩)
      rcases order with less | ⟨same, le⟩
      · exact Or.inl (by omega)
      · exact Or.inr ⟨by omega, fromTen_anti le⟩

theorem zero_magnitude : Magnitude .zero 0 := by
  have rounded := Format.double.nearest_zero 1
  have small : Format.double.nearest 0 1 < Nat.pow 2 Format.double.limit := by
    rw [rounded]
    exact lt_limit (Nat.zero_le _)
  have zero := ofUnits_magnitude small
  rw [rounded] at zero
  exact zero

theorem shown_zero : shown 0 = 0 := by
  unfold shown roundHalfEven
  simp

theorem special_keyed {sign : Nat} (small : sign < 10) : Keyed (assemble sign 0 .zero) (sign * 10 ^ 21) := by
  have keyed := assemble_keyed zero_magnitude small (show 0 < 1000 by decide) (by rw [shown_zero]; decide)
  simpa [code, shown_zero] using keyed

theorem ofNonzero_range (h : Magnitude x u) (pos : 0 < u) :
    ∃ m n, Keyed (ofNonzero false x) m ∧ 3 * 10 ^ 21 < m ∧ m < 6 * 10 ^ 21 ∧
      Keyed (ofNonzero true x) n ∧ 0 < n ∧ n < 3 * 10 ^ 21 := by
  by_cases small : u < one
  · obtain ⟨e, a, -, -, he, shows, shows', plus, minus⟩ := h.small_keyed pos small
    unfold code at plus minus
    exact ⟨_, _, plus, by omega, by omega, minus, by omega, by omega⟩
  · obtain ⟨e, a, -, -, he, shows, shows', plus, minus⟩ := h.large_keyed (by omega)
    unfold code at plus minus
    exact ⟨_, _, plus, by omega, by omega, minus, by omega, by omega⟩

theorem ofDouble_zero {negative : Bool} (fits : Format.double.Fits 0) :
    ofDouble (.finite negative 0 fits) = assemble 3 0 .zero := by
  unfold ofDouble
  exact if_pos rfl

theorem ofDouble_finite {negative : Bool} (fits : Format.double.Fits u) (pos : 0 < u) :
    ofDouble (.finite negative u fits) = ofNonzero negative (.finite false u fits) :=
  if_neg (Nat.pos_iff_ne_zero.1 pos)

/-- The key of a finite number, between those of the infinities and on its side of that of zero. -/
theorem finite_keyed (negative : Bool) (fits : Format.double.Fits u) :
    ∃ n, Keyed (ofDouble (.finite negative u fits)) n ∧ n < 6 * 10 ^ 21 ∧
      (u = 0 → n = 3 * 10 ^ 21) ∧ (0 < u → negative = false → 3 * 10 ^ 21 < n) ∧
      (0 < u → negative = true → 0 < n ∧ n < 3 * 10 ^ 21) := by
  rcases Nat.eq_zero_or_pos u with rfl | pos
  · exact ⟨_, special_keyed (show 3 < 10 by decide), by decide, fun _ => rfl, by omega, by omega⟩
  · obtain ⟨m, n, plus, low, high, minus, below⟩ := ofNonzero_range ⟨fits, rfl⟩ pos
    rw [ofDouble_finite fits pos]
    cases negative with
    | false => exact ⟨m, plus, high, by omega, fun _ _ => low, fun _ => nofun⟩
    | true => exact ⟨n, minus, by omega, by omega, fun _ => nofun, fun _ _ => below⟩

theorem ofDouble_keyed (x : Double) : ∃ n, Keyed (ofDouble x) n := by
  cases x with
  | nan => exact ⟨_, special_keyed (show 7 < 10 by decide)⟩
  | infinite negative =>
    cases negative with
    | false => exact ⟨_, special_keyed (show 6 < 10 by decide)⟩
    | true => exact ⟨_, special_keyed (show 0 < 10 by decide)⟩
  | finite negative u fits =>
    obtain ⟨n, keyed, -⟩ := finite_keyed negative fits
    exact ⟨n, keyed⟩

theorem length_ofDouble (x : Double) : (ofDouble x).length = 23 := by
  obtain ⟨n, keyed⟩ := ofDouble_keyed x
  exact keyed.length

theorem Keyed.not_lt {s t : Text} {m n : Nat} (hs : Keyed s m) (ht : Keyed t n) (h : m ≤ n) : ¬ t < s := by
  rw [ht.lt_iff hs]
  omega

theorem finite_mono {a b : Bool} (fits : Format.double.Fits u) (fits' : Format.double.Fits v)
    (h : Binary.lt (.finite a u fits) (.finite b v fits') = true) :
    ¬ ofDouble (.finite b v fits') < ofDouble (.finite a u fits) := by
  obtain ⟨m, keyX, -, zeroX, plusX, minusX⟩ := finite_keyed a fits
  obtain ⟨n, keyY, -, zeroY, plusY, minusY⟩ := finite_keyed b fits'
  simp only [Binary.lt, decide_eq_true_eq] at h
  cases a with
  | false =>
    cases b with
    | false =>
      simp only [Bool.false_eq_true, if_false, Int.ofNat_lt] at h
      rcases Nat.eq_zero_or_pos u with zero | pos
      · exact keyX.not_lt keyY (by have := plusY (by omega) rfl; omega)
      · obtain ⟨_, _, _, _, hx, hy, order, -⟩ := ofNonzero_mono ⟨fits, rfl⟩ ⟨fits', rfl⟩ pos h.le
        rw [ofDouble_finite fits pos, ofDouble_finite fits' (by omega)]
        exact hx.not_lt hy order
    | true =>
      simp only [Bool.false_eq_true, if_false, if_true] at h
      omega
  | true =>
    cases b with
    | false =>
      apply keyX.not_lt keyY
      simp only [Bool.false_eq_true, if_false, if_true] at h
      rcases Nat.eq_zero_or_pos u with zero | pos
      · have above := plusY (by omega) rfl
        have middle := zeroX zero
        omega
      · have below := minusX pos rfl
        rcases Nat.eq_zero_or_pos v with zero | pos'
        · have middle := zeroY zero
          omega
        · have above := plusY pos' rfl
          omega
    | true =>
      simp only [if_true] at h
      rcases Nat.eq_zero_or_pos v with zero | pos
      · have below := minusX (by omega) rfl
        have middle := zeroY zero
        exact keyX.not_lt keyY (by omega)
      · obtain ⟨_, _, _, _, -, -, -, hy, hx, order⟩ :=
          ofNonzero_mono ⟨fits', rfl⟩ ⟨fits, rfl⟩ pos (show v ≤ u by omega)
        rw [ofDouble_finite fits (by omega), ofDouble_finite fits' pos]
        exact hx.not_lt hy order

theorem ofDouble_mono (h : x.lt y = true) : ¬ ofDouble y < ofDouble x := by
  cases x with
  | nan => cases h
  | infinite a =>
    cases y with
    | nan => cases a <;> cases h
    | infinite b =>
      cases a with
      | false => cases h
      | true =>
        cases b with
        | false =>
          have least := special_keyed (show 0 < 10 by decide)
          exact least.not_lt (special_keyed (show 6 < 10 by decide)) (by omega)
        | true => cases h
    | finite b v fits =>
      obtain ⟨n, keyed, -⟩ := finite_keyed b fits
      cases a with
      | false => cases h
      | true => exact (special_keyed (show 0 < 10 by decide)).not_lt keyed (by omega)
  | finite a u fits =>
    cases y with
    | nan => cases h
    | infinite b =>
      obtain ⟨n, keyed, small, -⟩ := finite_keyed a fits
      cases b with
      | false => exact keyed.not_lt (special_keyed (show 6 < 10 by decide)) small.le
      | true => cases h
    | finite b v fits' => exact finite_mono fits fits' h

theorem ofDouble_congr (h : x.beq y = true) : ofDouble x = ofDouble y := by
  cases x with
  | nan => cases h
  | infinite a =>
    cases y with
    | nan => cases a <;> cases h
    | infinite b => cases a <;> cases b <;> first | rfl | cases h
    | finite b v fits => cases a <;> cases h
  | finite a u fits =>
    cases y with
    | nan => cases h
    | infinite b => cases b <;> cases h
    | finite b v fits' =>
      simp only [Binary.beq, Binary.lt, Bool.and_eq_true, Bool.not_eq_true', decide_eq_false_iff_not] at h
      have sizes : u = v := by
        cases a <;> cases b <;> simp only [Bool.false_eq_true, if_false, if_true] at h <;> omega
      subst sizes
      rcases Nat.eq_zero_or_pos u with rfl | pos
      · rw [ofDouble_zero, ofDouble_zero]
      · have signs : a = b := by
          cases a <;> cases b <;> simp only [Bool.false_eq_true, if_false, if_true] at h <;>
            first | rfl | omega
        rw [signs]

theorem ofDouble_nan (number : x.isNaN = false) : ofDouble x < ofDouble .nan := by
  have last : Keyed (ofDouble .nan) (7 * 10 ^ 21) := special_keyed (show 7 < 10 by decide)
  cases x with
  | nan => cases number
  | infinite negative =>
    cases negative with
    | false => exact ((special_keyed (show 6 < 10 by decide)).lt_iff last).2 (by decide)
    | true => exact ((special_keyed (show 0 < 10 by decide)).lt_iff last).2 (by decide)
  | finite negative u fits =>
    obtain ⟨n, keyed, small, -⟩ := finite_keyed negative fits
    exact (keyed.lt_iff last).2 (by omega)

end OrderKey

end QuadStore
