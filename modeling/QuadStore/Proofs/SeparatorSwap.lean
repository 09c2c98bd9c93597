import QuadStore.Proofs.ClearTerms
import QuadStore.Proofs.PlainOrder
import QuadStore.Proofs.Utf8Text
import QuadStore.Sparql.Document
import QuadStore.Sql.Fragment

namespace QuadStore

namespace Sql

theorem withNul_withoutNul (s : Text) : withNul (withoutNul s) = withNul s := by
  unfold withNul withoutNul
  rw [List.map_map]
  refine List.map_congr_left fun c _ => ?_
  by_cases nul : c = 0
  · subst nul
    rfl
  · simp [nul]

theorem withNul_eq_iff (s : Text) : withNul s = s ↔ unitSeparator ∉ s := by
  induction s with
  | nil => simp [withNul]
  | cons c s ih =>
    change _ :: withNul s = _ ↔ _
    rw [List.cons_eq_cons, ih, List.mem_cons, not_or]
    refine and_congr_left fun _ => ?_
    by_cases same : c = unitSeparator
    · subst same
      decide
    · simp [same, Ne.symm same]

theorem unitSeparator_not_mem_withNul (s : Text) : unitSeparator ∉ withNul s := by
  intro mem
  obtain ⟨c, -, same⟩ := List.mem_map.1 mem
  split at same
  · exact absurd same (by decide)
  · rename_i other
    exact other same

/-- The first text has NUL where the second one has a control character below the one that stands for NUL, and
up to there they are the same. -/
def Swapped (a b : Text) : Prop :=
  ∃ common c rest rest', a = common ++ 0 :: rest ∧ b = common ++ c :: rest' ∧ 0 < c ∧ c < unitSeparator

theorem not_swapped_nil_left (b : Text) : ¬ Swapped [] b := by
  rintro ⟨common, c, rest, rest', no, -⟩
  exact absurd no.symm (by simp)

theorem not_swapped_nil_right (a : Text) : ¬ Swapped a [] := by
  rintro ⟨common, c, rest, rest', -, no, -⟩
  exact absurd no.symm (by simp)

theorem swapped_cons_cons (c d : UInt8) (a b : Text) :
    Swapped (c :: a) (d :: b) ↔ c = d ∧ Swapped a b ∨ c = 0 ∧ 0 < d ∧ d < unitSeparator := by
  constructor
  · rintro ⟨common, e, rest, rest', same, same', low⟩
    cases common with
    | nil =>
      obtain ⟨rfl, -⟩ := List.cons.inj same
      obtain ⟨rfl, -⟩ := List.cons.inj same'
      exact .inr ⟨rfl, low⟩
    | cons x common =>
      obtain ⟨rfl, left⟩ := List.cons.inj same
      obtain ⟨rfl, right⟩ := List.cons.inj same'
      exact .inl ⟨rfl, common, e, rest, rest', left, right, low⟩
  · rintro (⟨rfl, common, e, rest, rest', rfl, rfl, low⟩ | ⟨rfl, low⟩)
    · exact ⟨c :: common, e, rest, rest', rfl, rfl, low⟩
    · exact ⟨[], d, a, b, rfl, rfl, low⟩

instance decidableSwapped : (a b : Text) → Decidable (Swapped a b)
  | [], b => isFalse (not_swapped_nil_left b)
  | c :: a, [] => isFalse (not_swapped_nil_right (c :: a))
  | c :: a, d :: b =>
    have := decidableSwapped a b
    decidable_of_iff _ (swapped_cons_cons c d a b).symm

theorem Swapped.lt {a b : Text} (h : Swapped a b) : a < b := by
  obtain ⟨common, c, rest, rest', rfl, rfl, above, -⟩ := h
  induction common with
  | nil => exact List.cons_lt_cons_iff.2 (.inl above)
  | cons d common ih => exact List.cons_lt_cons_iff.2 (.inr ⟨rfl, ih⟩)

def standIn (c : UInt8) : UInt8 := if c = 0 then unitSeparator else c

theorem withoutNul_cons (c : UInt8) (s : Text) : withoutNul (c :: s) = standIn c :: withoutNul s := rfl

theorem standIn_inj {c d : UInt8} (hc : c ≠ unitSeparator) (hd : d ≠ unitSeparator) : standIn c = standIn d ↔ c = d := by
  unfold standIn
  split <;> split <;> simp_all [eq_comm]

theorem standIn_lt {c d : UInt8} (hd : d ≠ unitSeparator) :
    standIn c < standIn d ↔ (c < d ∧ ¬ (c = 0 ∧ 0 < d ∧ d < unitSeparator)) ∨ d = 0 ∧ 0 < c ∧ c < unitSeparator := by
  unfold standIn unitSeparator at *
  simp only [UInt8.lt_iff_toNat_lt, ← UInt8.toNat_inj, ne_eq] at *
  split <;> split <;> simp_all <;> omega

theorem withoutNul_lt {a b : Text} (ha : unitSeparator ∉ a) (hb : unitSeparator ∉ b) :
    withoutNul a < withoutNul b ↔ (a < b ∧ ¬ Swapped a b) ∨ Swapped b a := by
  induction a generalizing b with
  | nil =>
    cases b with
    | nil => simp [withoutNul, not_swapped_nil_left]
    | cons d b => simp [withoutNul, not_swapped_nil_left, not_swapped_nil_right]
  | cons c a ih =>
    cases b with
    | nil => simp [withoutNul, not_swapped_nil_left]
    | cons d b =>
      have firstLeft := (List.ne_of_not_mem_cons ha).symm
      have firstRight := (List.ne_of_not_mem_cons hb).symm
      have behind := ih (List.not_mem_of_not_mem_cons ha) (List.not_mem_of_not_mem_cons hb)
      simp only [withoutNul_cons, List.cons_lt_cons_iff, standIn_lt firstRight, standIn_inj firstLeft firstRight, behind,
        swapped_cons_cons]
      rcases eq_or_ne c d with rfl | other
      · have apart : ¬ (c = 0 ∧ 0 < c ∧ c < unitSeparator) := fun ⟨nul, above, _⟩ => (UInt8.ne_of_lt above) nul.symm
        simp [apart]
      · simp [other, other.symm]

/-- The order is kept where neither text is swapped against the other. -/
theorem withoutNul_order {a b : Text} (ha : unitSeparator ∉ a) (hb : unitSeparator ∉ b) :
    (withoutNul a < withoutNul b ↔ a < b) ↔ ¬ Swapped a b ∧ ¬ Swapped b a := by
  have forth : Swapped a b → a < b := Swapped.lt
  have back : Swapped b a → ¬ a < b := fun h => List.lt_asymm h.lt
  rw [withoutNul_lt ha hb]
  tauto

theorem withoutNul_holds {a b : Text} (ha : unitSeparator ∉ a) (hb : unitSeparator ∉ b) :
    (∀ c : Comparison, c.holds (withoutNul a) (withoutNul b) = c.holds a b) ↔ ¬ Swapped a b ∧ ¬ Swapped b a := by
  constructor
  · intro same
    have below := same .lt
    simp only [Comparison.holds, decide_eq_decide] at below
    exact (withoutNul_order ha hb).1 below
  · intro apart c
    exact Comparison.holds_congr ((withoutNul_order ha hb).2 apart) ((withoutNul_order hb ha).2 apart.symm)

theorem Swapped.tail {c : UInt8} {a b : Text} (h : Swapped (c :: a) (c :: b)) : Swapped a b := by
  rcases (swapped_cons_cons ..).1 h with ⟨-, h⟩ | ⟨rfl, above, -⟩
  · exact h
  · exact absurd above (UInt8.lt_irrefl 0)

/-- Behind fields without control characters a text is swapped against another one only by what follows them. -/
theorem Swapped.behind {p q x y : Text} (hp : ∀ c ∈ p, unitSeparator < c) (hq : ∀ c ∈ q, unitSeparator < c)
    (h : Swapped (p ++ 0 :: x) (q ++ 0 :: y)) : Swapped x y := by
  have low : ¬ unitSeparator < 0 := by decide
  induction p generalizing q with
  | nil =>
    cases q with
    | nil =>
      exact h.tail
    | cons d q =>
      have printed := hq d List.mem_cons_self
      rcases (swapped_cons_cons ..).1 h with ⟨rfl, -⟩ | ⟨-, -, below⟩
      · exact absurd printed low
      · exact absurd below (UInt8.lt_asymm printed)
  | cons c p ih =>
    have printed := hp c List.mem_cons_self
    cases q with
    | nil =>
      rcases (swapped_cons_cons ..).1 h with ⟨rfl, -⟩ | ⟨rfl, -⟩ <;> exact absurd printed low
    | cons d q =>
      rcases (swapped_cons_cons ..).1 h with ⟨-, h⟩ | ⟨rfl, -⟩
      · exact ih (fun c mem => hp c (List.mem_cons_of_mem _ mem)) (fun c mem => hq c (List.mem_cons_of_mem _ mem)) h
      · exact absurd printed low

theorem not_swapped_of_nul {a : Text} (h : Term.separator ∉ a) (b : Text) : ¬ Swapped a b := by
  rintro ⟨common, c, rest, rest', rfl, -⟩
  exact h (by simp [Term.separator])

end Sql

namespace Term

open Sql Sparql

variable {t u : Term} {s lexical d : Text}

theorem encodeObject_fields (keyed : t.orderKey?.isSome = true) :
    ∃ lexical d, t = .literal lexical (.datatype d) ∧ Keyed d ∧
      (Xsd.isNumeric d = true ∧
          t.encodeObject = Text.byte 'N' :: 0 :: (OrderKey.ofText lexical ++ 0 :: (d ++ 0 :: lexical)) ∨
        t.encodeObject = Text.byte 'D' :: 0 :: (OrderKey.ofTime lexical ++ 0 :: lexical)) := by
  cases t with
  | literal lexical kind =>
    cases kind with
    | datatype d =>
      refine ⟨lexical, d, rfl, ?_⟩
      by_cases numeric : Xsd.isNumeric d = true
      · exact ⟨.inl numeric, .inl ⟨numeric, by simp [encodeObject, orderKey?, numeric, numberMark, separator]⟩⟩
      by_cases time : d = Xsd.dateTime
      · subst time
        exact ⟨.inr rfl, .inr (by simp [encodeObject, orderKey?, if_neg numeric, timeMark, separator])⟩
      · simp [orderKey?, numeric, time] at keyed
    | _ => cases keyed
  | _ => cases keyed

theorem separator_not_mem_keyed (kept : (Term.literal lexical (.datatype d)).Kept .object) (keyed : Keyed d) :
    separator ∉ lexical := by
  have read : typed lexical.upToNul d = .literal lexical (.datatype d) := (decodeObject_keyed lexical keyed).symm.trans kept
  have whole : lexical.upToNul = lexical := congrArg Term.value read
  rw [← whole]
  exact separator_not_mem_upToNul lexical

theorem unitSeparator_lt_key : ∀ c, OrderKey.isKeyByte c = true → unitSeparator < c :=
  Utf8.forall_byte (by decide +kernel)

theorem unitSeparator_lt_numeric (numeric : Xsd.isNumeric d = true) : ∀ c ∈ d, unitSeparator < c := by
  have all : ∀ d ∈ Xsd.numericNames.map (Xsd.base ++ ·), ∀ c ∈ d, unitSeparator < c := by decide +kernel
  exact all d ((Xsd.isNumeric_iff d).1 numeric)

theorem not_swapped_keyed (kept : t.Kept .object) (ht : t.orderKey?.isSome = true) (hu : u.orderKey?.isSome = true) :
    ¬ Swapped t.encodeObject u.encodeObject := by
  obtain ⟨lexical, d, rfl, keyed, own⟩ := encodeObject_fields ht
  obtain ⟨lexical', d', rfl, -, own'⟩ := encodeObject_fields hu
  have whole := separator_not_mem_keyed kept keyed
  have number : ∀ x : Text, ∀ c ∈ OrderKey.ofText x, unitSeparator < c := fun x c mem =>
    unitSeparator_lt_key c (OrderKey.isKeyByte_of_mem_ofDouble mem)
  have time : ∀ x : Text, ∀ c ∈ OrderKey.ofTime x, unitSeparator < c := fun x c mem =>
    unitSeparator_lt_key c (OrderKey.isKeyByte_of_mem_ofTime mem)
  intro swapped
  rcases own with ⟨numeric, own⟩ | own <;> rcases own' with ⟨numeric', own'⟩ | own' <;> rw [own, own'] at swapped
  · have fields := swapped.tail.tail.behind (number _) (number _)
    have last := fields.behind (unitSeparator_lt_numeric numeric) (unitSeparator_lt_numeric numeric')
    exact not_swapped_of_nul whole _ last
  · exact absurd ((swapped_cons_cons ..).1 swapped) (by simp [Text.byte])
  · exact absurd ((swapped_cons_cons ..).1 swapped) (by simp [Text.byte])
  · exact not_swapped_of_nul whole _ (swapped.tail.tail.behind (time _) (time _))

structure Clean (t : Term) : Prop where
  value : unitSeparator ∉ t.value
  language : unitSeparator ∉ t.language
  datatype : unitSeparator ∉ t.datatype

theorem clean_tagged {lexical tag : Text} (own : unitSeparator ∉ lexical) (language : unitSeparator ∉ tag) :
    (tagged lexical tag).Clean := by
  unfold tagged
  split
  · exact ⟨own, List.not_mem_nil, List.not_mem_nil⟩
  · exact ⟨own, language, List.not_mem_nil⟩

theorem clean_typed (own : unitSeparator ∉ lexical) (datatype : unitSeparator ∉ d) : (typed lexical d).Clean := by
  unfold typed
  split
  · exact ⟨own, List.not_mem_nil, List.not_mem_nil⟩
  · exact ⟨own, List.not_mem_nil, datatype⟩

theorem clean_decode (h : unitSeparator ∉ s) : (decode s).Clean := by
  unfold decode
  split
  · exact ⟨List.not_mem_nil, List.not_mem_nil, List.not_mem_nil⟩
  rename_i c rest
  have behind : unitSeparator ∉ rest := List.not_mem_of_not_mem_cons h
  split
  · cases found : decodeLiteral? rest with
    | none => exact ⟨h, List.not_mem_nil, List.not_mem_nil⟩
    | some t =>
      obtain ⟨lexical, suffix, rfl, -, kinds⟩ := decodeLiteral?_inv found
      simp only [List.mem_append, List.mem_cons, not_or] at behind
      obtain ⟨own, -, after⟩ := behind
      rcases kinds with ⟨-, rfl⟩ | ⟨tag, rfl, rfl⟩ | ⟨d, rfl, rfl⟩
      · exact ⟨own, List.not_mem_nil, List.not_mem_nil⟩
      · exact clean_tagged own fun mem => after (List.mem_append_right _ mem)
      · exact clean_typed own fun mem => after (List.mem_append_right _ (mem_of_mem_unbracketed mem))
  split
  · exact ⟨behind, List.not_mem_nil, List.not_mem_nil⟩
  split
  · exact ⟨fun mem => behind (List.mem_of_mem_drop mem), List.not_mem_nil, List.not_mem_nil⟩
  · exact ⟨h, List.not_mem_nil, List.not_mem_nil⟩

theorem mem_of_mem_parts {separator b : UInt8} {field : Text} (part : field ∈ s.parts separator) (mem : b ∈ field) :
    b ∈ s := by
  induction s generalizing field with
  | nil =>
    cases List.mem_singleton.1 part
    exact mem
  | cons c s ih =>
    rw [Text.parts] at part
    split at part
    · rcases List.mem_cons.1 part with rfl | part
      · cases mem
      · exact List.mem_cons_of_mem c (ih part mem)
    · split at part
      · cases List.mem_singleton.1 part
        cases List.mem_singleton.1 mem
        exact List.mem_cons_self
      · rename_i first more fields
        rw [fields] at ih
        rcases List.mem_cons.1 part with rfl | part
        · rcases List.mem_cons.1 mem with rfl | mem
          · exact List.mem_cons_self
          · exact List.mem_cons_of_mem c (ih List.mem_cons_self mem)
        · exact List.mem_cons_of_mem c (ih (List.mem_cons_of_mem _ part) mem)

theorem clean_decodeObject (h : unitSeparator ∉ s) : (decodeObject s).Clean := by
  have part : ∀ field ∈ s.parts separator, unitSeparator ∉ field := fun field part mem => h (mem_of_mem_parts part mem)
  have whole : (iri s).Clean := ⟨h, List.not_mem_nil, List.not_mem_nil⟩
  unfold decodeObject
  split
  · split
    · rename_i fields
      rw [fields] at part
      simp only [List.forall_mem_cons] at part
      exact clean_typed part.2.2.2.1 part.2.2.1
    · exact whole
  split
  · split
    · rename_i fields
      rw [fields] at part
      simp only [List.forall_mem_cons] at part
      exact clean_typed part.2.2.1 (by decide +kernel)
    · exact whole
  · exact clean_decode h

theorem unitSeparator_not_mem_key {key : Text} (h : ∀ c ∈ key, OrderKey.isKeyByte c = true) : unitSeparator ∉ key :=
  fun mem => absurd (unitSeparator_lt_key _ (h _ mem)) (UInt8.lt_irrefl _)

theorem Clean.encode (h : t.Clean) : unitSeparator ∉ t.encode := by
  obtain ⟨value, language, datatype⟩ := h
  have marks : unitSeparator ∉ ("\"" : Text) ∧ unitSeparator ∉ ("\"@" : Text) ∧ unitSeparator ∉ ("\"^^<" : Text) ∧
      unitSeparator ∉ (">" : Text) ∧ unitSeparator ∉ ("_:" : Text) ∧ unitSeparator ∉ ("?" : Text) := by decide
  obtain ⟨quote, at_, carets, closing, blank, var⟩ := marks
  cases t with
  | literal lexical kind =>
    cases kind with
    | plain =>
      simp only [Term.encode, annotated, List.mem_append, not_or]
      exact ⟨⟨quote, value⟩, quote⟩
    | language tag =>
      simp only [Term.encode, annotated, List.mem_append, not_or]
      exact ⟨⟨⟨quote, value⟩, at_⟩, language⟩
    | datatype d =>
      simp only [Term.encode, annotated, List.mem_append, not_or]
      exact ⟨⟨⟨⟨quote, value⟩, carets⟩, datatype⟩, closing⟩
  | iri v => exact value
  | blank label => exact List.not_mem_append blank value
  | var name => exact List.not_mem_append var value
  | defaultGraph => exact List.not_mem_nil

theorem Clean.encodeObject (h : t.Clean) : unitSeparator ∉ t.encodeObject := by
  by_cases keyed : t.orderKey?.isSome = true
  · obtain ⟨lexical, d, rfl, -, ⟨-, own⟩ | own⟩ := encodeObject_fields keyed
    · have key : unitSeparator ∉ OrderKey.ofText lexical :=
        unitSeparator_not_mem_key fun c => OrderKey.isKeyByte_of_mem_ofDouble
      rw [own]
      simp only [List.mem_cons, List.mem_append, not_or]
      exact ⟨by decide, by decide, key, by decide, h.datatype, by decide, h.value⟩
    · have key : unitSeparator ∉ OrderKey.ofTime lexical :=
        unitSeparator_not_mem_key fun c => OrderKey.isKeyByte_of_mem_ofTime
      rw [own]
      simp only [List.mem_cons, List.mem_append, not_or]
      exact ⟨by decide, by decide, key, by decide, h.value⟩
  · rw [encodeObject_unkeyed t (by simpa using keyed)]
    exact h.encode

/-- The key of an object comes back from where NUL cannot be stored, and the object with it, if and only if
it does not hold the byte that stands for NUL. Two such keys compare there as they do elsewhere if and only if
neither is swapped against the other; numbers and times never are. -/
theorem stored_without_nul (ht : t.Kept .object) (hu : u.Kept .object) :
    (withNul (withoutNul t.encodeObject) = t.encodeObject ↔ unitSeparator ∉ t.encodeObject) ∧
    (decodeObject (withNul (withoutNul t.encodeObject)) = t ↔ unitSeparator ∉ t.encodeObject) ∧
    (unitSeparator ∉ t.encodeObject → unitSeparator ∉ u.encodeObject →
      ((withoutNul t.encodeObject < withoutNul u.encodeObject ↔ t.encodeObject < u.encodeObject) ↔
        ¬ Swapped t.encodeObject u.encodeObject ∧ ¬ Swapped u.encodeObject t.encodeObject) ∧
      ((∀ c : Comparison, c.holds (withoutNul t.encodeObject) (withoutNul u.encodeObject) =
          c.holds t.encodeObject u.encodeObject) ↔
        ¬ Swapped t.encodeObject u.encodeObject ∧ ¬ Swapped u.encodeObject t.encodeObject)) ∧
    (t.orderKey?.isSome = true → u.orderKey?.isSome = true →
      ¬ Swapped t.encodeObject u.encodeObject ∧ ¬ Swapped u.encodeObject t.encodeObject) := by
  have back : withNul (withoutNul t.encodeObject) = t.encodeObject ↔ unitSeparator ∉ t.encodeObject := by
    rw [withNul_withoutNul]
    exact withNul_eq_iff _
  refine ⟨back, ⟨fun read => ?_, fun clean => ?_⟩, fun cleanLeft cleanRight => ?_, fun left right => ?_⟩
  · have clean : (decodeObject (withNul (withoutNul t.encodeObject))).Clean := by
      rw [withNul_withoutNul]
      exact clean_decodeObject (unitSeparator_not_mem_withNul _)
    rw [read] at clean
    exact clean.encodeObject
  · rw [back.2 clean]
    exact ht
  · exact ⟨withoutNul_order cleanLeft cleanRight, withoutNul_holds cleanLeft cleanRight⟩
  · exact ⟨not_swapped_keyed ht left right, not_swapped_keyed hu right left⟩

theorem stored_without_nul_cut : let t := plain [Text.byte 'a', 0, Text.byte 'b']
    let u := typed "7" Xsd.integer
    t.Kept .object ∧ u.Kept .object ∧ withNul (withoutNul t.encodeObject) = t.encodeObject ∧
      decodeObject (withNul (withoutNul t.encodeObject)) = t ∧
      ∀ c : Comparison, c.holds (withoutNul t.encodeObject) (withoutNul u.encodeObject) =
        c.holds t.encodeObject u.encodeObject := by
  intro t u
  have ht : t.Kept .object := by decide +kernel
  have hu : u.Kept .object := by decide +kernel
  have cleanLeft : unitSeparator ∉ t.encodeObject := by decide +kernel
  have cleanRight : unitSeparator ∉ u.encodeObject := by decide +kernel
  have apart : ¬ Swapped t.encodeObject u.encodeObject ∧ ¬ Swapped u.encodeObject t.encodeObject := by decide +kernel
  obtain ⟨back, read, order, -⟩ := stored_without_nul ht hu
  exact ⟨ht, hu, back.2 cleanLeft, read.2 cleanLeft, (order cleanLeft cleanRight).2.2 apart⟩

/-- A literal of the byte that stands for NUL is accepted, and comes back as a literal of NUL. The order turns
where the key of a number, with its own NUL, stands against an IRI with the first control character. -/
theorem unit_separator_lost :
    Document.read "<http://ex/s> <http://ex/p> \"\\u001F\" ." =
      .ok [⟨.iri "http://ex/s", .iri "http://ex/p", plain [unitSeparator], .defaultGraph⟩] ∧
    (plain [unitSeparator]).Kept .object ∧
    withNul (withoutNul (plain [unitSeparator]).encodeObject) = (plain [0]).encodeObject ∧
    decodeObject (withNul (withoutNul (plain [unitSeparator]).encodeObject)) = plain [0] ∧
    (typed "1" Xsd.integer).Kept .object ∧ (iri [Text.byte 'N', 1]).Kept .object ∧
    (typed "1" Xsd.integer).encodeObject < (iri [Text.byte 'N', 1]).encodeObject ∧
    withoutNul (iri [Text.byte 'N', 1]).encodeObject < withoutNul (typed "1" Xsd.integer).encodeObject := by
  decide +kernel

end Term

end QuadStore
