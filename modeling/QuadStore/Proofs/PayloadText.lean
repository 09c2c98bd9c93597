import QuadStore.Proofs.PrintedNumber

namespace QuadStore.Payload

variable {x : Single} {v : Vector} {rest : Text}

theorem zero_numeral : ∃ n : Numeral, n.text = "0.0" ∧ n.decimal.digits = 0 :=
  ⟨⟨[Text.byte '0'], [Text.byte '0'], none, List.cons_ne_nil _ _, fun _ => Text.isDigit_of_mem_zero,
    fun _ => rfl, fun _ => Text.isDigit_of_mem_zero, fun e mem => by cases mem⟩, rfl, rfl⟩

theorem exists_numeral (finite : x.isFinite = true) :
    ∃ (negative : Bool) (n : Numeral), element x = Text.sign negative ++ n.text ∧
      Binary.ofScaled negative 10 n.decimal.digits n.decimal.exponent = (x.convert : Double) := by
  unfold element
  rw [if_pos finite]
  cases x with
  | nan => cases finite
  | infinite negative => cases finite
  | finite negative units fits =>
    rw [Binary.convert_wider Format.single_embeds]
    refine ⟨negative, ?_⟩
    generalize Binary.fits_scaled Format.single_embeds fits = wider
    generalize units * 2 ^ (Format.double.unitExponent - Format.single.unitExponent) = scaled at wider
    unfold NumberStyle.write
    dsimp only
    have sign : (if negative = true then ("-" : Text) else "") = Text.sign negative := rfl
    rw [sign]
    rcases Nat.eq_zero_or_pos scaled with rfl | pos
    · obtain ⟨n, text, zero⟩ := zero_numeral
      refine ⟨n, ?_, ?_⟩
      · rw [text]
        rfl
      · rw [Binary.ofScaled, if_pos zero]
        exact Binary.ofUnits_of_nearest wider (Format.double.nearest_zero 1)
    · have shortest := Binary.readsBack_shortest (by decide) pos wider.2
      have digits := Binary.digits_pos_of_readsBack pos shortest
      obtain ⟨n, text, value⟩ := (Binary.shortest .double scaled).exists_magnitude style rfl digits
      refine ⟨n, ?_, ?_⟩
      · rw [text, if_neg (by omega)]
      · apply Binary.ofScaled_of_readsBack negative pos wider
        rw [Decimal.readsBack_congr scaled value, shortest]

theorem element_cons (finite : x.isFinite = true) :
    ∃ c rest, element x = c :: rest ∧ (Ascii.isDigit c = true ∨ c = Text.byte '-') := by
  obtain ⟨negative, n, text, -⟩ := exists_numeral finite
  cases negative with
  | true => exact ⟨Text.byte '-', n.text, text, .inr rfl⟩
  | false =>
    obtain ⟨c, after, cons, digit⟩ := n.whole_cons
    refine ⟨c, after ++ n.fractionText ++ n.exponentText, ?_, .inl digit⟩
    rw [text, Numeral.text, cons]
    rfl

theorem element_null (infinite : x.isFinite = false) : element x = "null" := by
  unfold element
  rw [if_neg (by simp [infinite])]

theorem isBlank_digit {c : UInt8} (h : Ascii.isDigit c = true) : isBlank c = false := by
  simp only [Ascii.isDigit, Bool.and_eq_true, decide_eq_true_eq, UInt8.le_iff_toNat_le] at h
  have low : 48 ≤ c.toNat := h.1
  have blank : ∀ d ∈ ([32, 9, 10, 13] : List UInt8), c ≠ d := by
    intro d mem same
    have small : ([32, 9, 10, 13] : List UInt8).all (fun d => d.toNat < 48) = true := by decide
    have less := of_decide_eq_true (List.all_eq_true.1 small d mem)
    rw [← same] at less
    omega
  unfold isBlank
  simp [blank]

theorem element_solid (x : Single) :
    ∃ c rest, element x = c :: rest ∧ isBlank c = false ∧ c ≠ Text.byte ']' := by
  cases finite : x.isFinite with
  | false => exact ⟨Text.byte 'n', "ull", element_null finite, by decide, by decide⟩
  | true =>
    obtain ⟨c, after, cons, first⟩ := element_cons finite
    rcases first with digit | rfl
    · refine ⟨c, after, cons, isBlank_digit digit, ?_⟩
      rintro rfl
      cases digit
    · exact ⟨_, after, cons, by decide, by decide⟩

theorem skip_element (x : Single) : skip (element x ++ rest) = element x ++ rest := by
  obtain ⟨c, after, cons, solid, -⟩ := element_solid x
  rw [cons, skip, List.cons_append, List.dropWhile_cons_of_neg (by simp [solid])]

theorem element?_element (finite : x.isFinite = true) (stop : Numeral.Ends rest) :
    element? (element x ++ rest) = some (x, rest) := by
  have letters : ∀ (c : UInt8) (word : Text), Ascii.isDigit c = false → c ≠ Text.byte '-' →
      (c :: word).isPrefixOf (element x ++ rest) = false := by
    intro c word digit minus
    obtain ⟨d, after, cons, first⟩ := element_cons finite
    rw [cons, List.cons_append, List.isPrefixOf_cons_cons]
    have differ : c ≠ d := by
      rintro rfl
      rcases first with isDigit | rfl
      · rw [digit] at isDigit
        cases isDigit
      · exact minus rfl
    rw [beq_false_of_ne differ, Bool.false_and]
  have yes : ("true" : Text).isPrefixOf (element x ++ rest) = false :=
    letters (Text.byte 't') "rue" (by decide) (by decide)
  have no : ("false" : Text).isPrefixOf (element x ++ rest) = false :=
    letters (Text.byte 'f') "alse" (by decide) (by decide)
  unfold element?
  rw [yes, no]
  simp only [Bool.false_eq_true, if_false]
  obtain ⟨negative, n, text, value⟩ := exists_numeral finite
  have whole : (x.convert : Double).isFinite = true := by
    cases x with
    | nan => cases finite
    | infinite negative => cases finite
    | finite negative units fits =>
      rw [Binary.convert_wider Format.single_embeds]
      rfl
  rw [text, n.number?_text negative stop value whole, Binary.convert_convert Format.single_embeds]

theorem joined_single (x : Single) : Text.joined "," ([x].map element) = element x := by
  simp [Text.joined, List.intercalate]

theorem joined_cons (x y : Single) (v : Vector) : Text.joined "," ((x :: y :: v).map element) =
    element x ++ ("," ++ Text.joined "," ((y :: v).map element)) := by
  simp [Text.joined, List.intercalate]

theorem joined_head (x : Single) (v : Vector) :
    ∃ tail, Text.joined "," ((x :: v).map element) = element x ++ tail := by
  cases v with
  | nil => exact ⟨[], by rw [joined_single, List.append_nil]⟩
  | cons y v => exact ⟨_, joined_cons x y v⟩

theorem ends_comma : Numeral.Ends ("," ++ rest) := by
  rintro c ⟨⟩
  decide

theorem skip_comma (s : Text) : skip ("," ++ s) = Text.byte ',' :: s := rfl

theorem elements?_joined (some_ : v ≠ []) (finite : ∀ x ∈ v, x.isFinite = true) {fuel : Nat}
    (enough : v.length ≤ fuel) :
    elements? fuel (Text.joined "," (v.map element) ++ ("]" ++ rest)) = some (v, rest) := by
  -- What ends a number is the comma or the bracket behind it, so an element is read without the rest.
  induction v generalizing fuel with
  | nil => exact absurd rfl some_
  | cons x v ih =>
    obtain ⟨fuel, rfl⟩ : ∃ n, fuel = n + 1 := by
      rw [List.length_cons] at enough
      exact ⟨fuel - 1, by omega⟩
    have first := finite x List.mem_cons_self
    cases v with
    | nil =>
      have ends : Numeral.Ends ("]" ++ rest) := by
        rintro c ⟨⟩
        decide
      rw [joined_single]
      unfold elements?
      rw [skip_element x, element?_element first ends]
      rfl
    | cons y v =>
      have more := ih (List.cons_ne_nil y v) (fun z mem => finite z (List.mem_cons_of_mem x mem))
        (Nat.le_of_succ_le_succ enough)
      rw [joined_cons, List.append_assoc, List.append_assoc]
      unfold elements?
      rw [skip_element x, element?_element first ends_comma]
      simp only [Option.bind_eq_bind, Option.bind_some, skip_comma, if_true, more]
      rfl

theorem element?_null (rest : Text) : element? ("null" ++ rest) = none := rfl

theorem elements?_null (infinite : ¬ ∀ x ∈ v, x.isFinite = true) (fuel : Nat) :
    elements? fuel (Text.joined "," (v.map element) ++ rest) = none := by
  induction v generalizing fuel with
  | nil => exact absurd (fun x mem => by cases mem) infinite
  | cons x v ih =>
    cases fuel with
    | zero => rfl
    | succ fuel =>
      cases first : x.isFinite with
      | false =>
        obtain ⟨tail, head⟩ := joined_head x v
        unfold elements?
        rw [head, List.append_assoc, skip_element, element_null first, element?_null]
        rfl
      | true =>
        have later : ¬ ∀ y ∈ v, y.isFinite = true := fun all => infinite (List.forall_mem_cons.2 ⟨first, all⟩)
        cases v with
        | nil => exact absurd (fun x mem => by cases mem) later
        | cons y v =>
          unfold elements?
          rw [joined_cons, List.append_assoc, List.append_assoc, skip_element, element?_element first ends_comma]
          simp only [Option.bind_eq_bind, Option.bind_some, skip_comma, if_true, ih later]
          rfl

theorem length_le_joined (finite : ∀ x ∈ v, x.isFinite = true) :
    v.length ≤ (Text.joined "," (v.map element)).length := by
  induction v with
  | nil => exact Nat.zero_le _
  | cons x v ih =>
    obtain ⟨c, after, cons, -⟩ := element_cons (finite x List.mem_cons_self)
    have tail := ih fun y mem => finite y (List.mem_cons_of_mem x mem)
    cases v with
    | nil =>
      rw [joined_single, cons]
      exact Nat.succ_le_succ (Nat.zero_le _)
    | cons y v =>
      rw [joined_cons, cons]
      simp only [List.length_append, List.length_cons] at tail ⊢
      omega

theorem read?_elements (some_ : v ≠ []) : read? (write v) =
    (elements? (write v).length (Text.joined "," (v.map element) ++ "]")).bind fun (xs, rest) =>
      if skip rest = [] then some xs else none := by
  obtain ⟨x, v, rfl⟩ := List.exists_cons_of_ne_nil some_
  have open_ : skip (write (x :: v)) = Text.byte '[' :: (Text.joined "," ((x :: v).map element) ++ "]") := by
    unfold write
    rw [List.append_assoc]
    rfl
  obtain ⟨rest, first⟩ := joined_head x v
  obtain ⟨c, after, cons, solid, close⟩ := element_solid x
  have inner : skip (Text.joined "," ((x :: v).map element) ++ "]") = c :: (after ++ rest ++ "]") := by
    rw [first, cons, List.append_assoc, List.cons_append, skip, List.dropWhile_cons_of_neg (by simp [solid])]
    simp
  unfold read?
  rw [open_]
  simp only [ne_eq, not_true, if_false, inner, if_neg close]
  rfl

theorem read?_write (finite : ∀ x ∈ v, x.isFinite = true) : read? (write v) = some v := by
  cases v with
  | nil => rfl
  | cons x v =>
    have long := length_le_joined finite
    have enough : (x :: v).length ≤ (write (x :: v)).length := by
      simp only [write, List.length_append]
      omega
    have read : elements? (write (x :: v)).length (Text.joined "," ((x :: v).map element) ++ "]") =
        some (x :: v, []) := elements?_joined (List.cons_ne_nil x v) finite enough
    rw [read?_elements (List.cons_ne_nil x v), read]
    rfl

/-- A vector is read back only if every number in it was written as one. -/
theorem read?_write_isSome : (read? (write v)).isSome = true ↔ ∀ x ∈ v, x.isFinite = true := by
  by_cases finite : ∀ x ∈ v, x.isFinite = true
  · rw [read?_write finite]
    exact iff_of_true rfl finite
  · have some_ : v ≠ [] := by
      rintro rfl
      exact finite fun x mem => by cases mem
    rw [read?_elements some_, elements?_null finite]
    exact iff_of_false Bool.false_ne_true finite

end QuadStore.Payload
