import QuadStore.Proofs.NumberFilter
import QuadStore.Proofs.Sorted
import QuadStore.Proofs.TextTests
import QuadStore.Query.Solutions

namespace QuadStore

open Sql Sparql

namespace Text

variable {a b : Text}

def Dips (a b : Text) : Prop := ∃ c rest, b = a ++ c :: rest ∧ c < Term.quote

theorem not_dips_nil (a : Text) : ¬ Dips a [] := by
  rintro ⟨c, rest, no, -⟩
  exact absurd no.symm (by simp)

theorem dips_nil_cons (d : UInt8) (b : Text) : Dips [] (d :: b) ↔ d < Term.quote := by
  constructor
  · rintro ⟨c, rest, same, low⟩
    rwa [(List.cons.inj same).1]
  · intro low
    exact ⟨d, b, rfl, low⟩

theorem dips_cons_cons (c d : UInt8) (a b : Text) : Dips (c :: a) (d :: b) ↔ c = d ∧ Dips a b := by
  constructor
  · rintro ⟨e, rest, same, low⟩
    obtain ⟨first, tail⟩ := List.cons.inj same
    exact ⟨first.symm, e, rest, tail, low⟩
  · rintro ⟨rfl, e, rest, rfl, low⟩
    exact ⟨e, rest, rfl, low⟩

instance decidableDips : (a b : Text) → Decidable (Dips a b)
  | a, [] => isFalse (not_dips_nil a)
  | [], d :: b => decidable_of_iff _ (dips_nil_cons d b).symm
  | c :: a, d :: b =>
    have := decidableDips a b
    decidable_of_iff _ (dips_cons_cons c d a b).symm

theorem Dips.lt (h : Dips a b) : a < b := by
  obtain ⟨c, rest, rfl, -⟩ := h
  induction a with
  | nil => exact List.nil_lt_cons ..
  | cons d a ih => exact List.cons_lt_cons_iff.2 (.inr ⟨rfl, ih⟩)

theorem closed_lt_closed (a b : Text) :
    a ++ [Term.quote] < b ++ [Term.quote] ↔ (a < b ∧ ¬ Dips a b) ∨ Dips b a := by
  induction a generalizing b with
  | nil =>
    cases b with
    | nil => simp [not_dips_nil]
    | cons d b =>
      have above : ¬ d < Term.quote ↔ Term.quote < d ∨ Term.quote = d := by
        rw [UInt8.not_lt, UInt8.le_iff_lt_or_eq]
      have more : [] < b ++ [Term.quote] := by cases b <;> simp
      simp [List.cons_lt_cons_iff, not_dips_nil, dips_nil_cons, above, more]
  | cons c a ih =>
    cases b with
    | nil => simp [List.cons_lt_cons_iff, not_dips_nil, dips_nil_cons]
    | cons d b =>
      simp only [List.cons_append, List.cons_lt_cons_iff, ih, dips_cons_cons]
      rcases eq_or_ne c d with rfl | other
      · simp
      · simp [other, other.symm]

/-- Where neither text goes on as the other below the quote, the quote changes nothing. -/
theorem closed_order (a b : Text) :
    (a ++ [Term.quote] < b ++ [Term.quote] ↔ a < b) ↔ ¬ Dips a b ∧ ¬ Dips b a := by
  have forth : Dips a b → a < b := Dips.lt
  have back : Dips b a → ¬ a < b := fun h => List.lt_asymm h.lt
  rw [closed_lt_closed]
  tauto

end Text

namespace Comparison

variable {a b : Text}

theorem holds_congr {c : Comparison} {s t : Text} (below : s < t ↔ a < b) (above : t < s ↔ b < a) :
    c.holds s t = c.holds a b := by
  have equal : s = t ↔ a = b := by
    have same (x y : Text) : x = y ↔ ¬ x < y ∧ ¬ y < x := by
      constructor
      · rintro rfl
        exact ⟨List.lt_irrefl x, List.lt_irrefl x⟩
      · rintro ⟨notBelow, notAbove⟩
        exact List.le_antisymm notAbove notBelow
    rw [same s t, same a b, below, above]
  cases c <;> simp only [holds, equal, below, above, ne_eq]

end Comparison

namespace Term

theorem encodeObject_plain (a : Text) : (plain a).encodeObject = quote :: (a ++ [quote]) := rfl

theorem plain_lt_plain (a b : Text) :
    (plain a).encodeObject < (plain b).encodeObject ↔ a ++ [quote] < b ++ [quote] := by
  rw [encodeObject_plain, encodeObject_plain, List.cons_lt_cons_iff]
  simp

end Term

namespace Sql.Table

variable {α : Type}

theorem rowLe_single (p : Position) (a b : Row) : rowLe [p] a b = !decide (b.get p < a.get p) := by
  unfold rowLe
  split
  · rename_i same
    simp [same, rowLe]
  · rename_i different
    rw [Bool.eq_iff_iff]
    simp only [decide_eq_true_eq, Bool.not_eq_true', decide_eq_false_iff_not]
    exact ⟨List.lt_asymm, Text.lt_of_ne different⟩

theorem sorted_single (p : Position) (reverse : Bool) (row : α → Row) (xs : List α) :
    sorted { order := [p], reverse } row xs = xs.mergeSort fun a b =>
      !decide (if reverse then (row a).get p < (row b).get p else (row b).get p < (row a).get p) := by
  unfold sorted
  congr 1
  funext a b
  cases reverse <;> simp [rowLe_single]

end Sql.Table

namespace PlainOrder

open Text (Dips)

variable {q : Quad} {name a b : Text} {op : Operator} {c : Comparison}

theorem lt_iff (apart : ¬ Dips a b) (turned : ¬ Dips b a) :
    (Term.plain a).encodeObject < (Term.plain b).encodeObject ↔ a < b := by
  rw [Term.plain_lt_plain]
  exact (Text.closed_order a b).2 ⟨apart, turned⟩

theorem comparison_takes (at_ : q.get .object = .var name) (ordering : op.comparison? = some c) :
    ∃ ops,
      Pushdown.ofFilter q (.binary op (.term (.var name)) (.term (.plain b))) = { filters := [(name, ops)] } ∧
      ∀ (k : Quint) (a : Text), k.object = .plain a → ¬ Dips a b → ¬ Dips b a →
        Table.satisfies k.toRow (({} : Pattern).set .object (some (.operators ops))).clauses = c.holds a b := by
  obtain ⟨ops, made⟩ : ∃ ops, Condition.comparing? op (.term (.plain b)) = some ops := by
    cases op <;> cases ordering <;> exact ⟨_, rfl⟩
  have pushed : Condition.ofComparison? op (.term (.var name)) (.term (.plain b)) = some (name, ops) := by
    cases op <;> cases ordering <;> cases made <;> rfl
  refine ⟨ops, Pushdown.ofFilter_comparison ordering pushed (Quad.mem_varNames at_), ?_⟩
  intro k a object apart turned
  have stored : (k.get .object).stored .object = (Term.plain a).encodeObject := by
    rw [Quad.get, object]
    rfl
  rw [Pattern.satisfies_single, Match.conditions, Operators.conditions_comparing made ordering, Quint.get_toRow,
    stored, List.all_cons, List.all_nil, Bool.and_true]
  exact Comparison.holds_congr (lt_iff apart turned) (lt_iff turned apart)

/-- The store sorts statements by plain literals that are no numbers as their solutions are sorted. -/
theorem sortRows_sorted {xs : List Quint} {f : Quint → Binding} (reverse : Bool)
    (bound : ∀ k ∈ xs, (f k).get? name = some k.object)
    (plain : ∀ k ∈ xs, ∃ a, k.object = .plain a ∧ SortKey.numeric? k.object = none)
    (apart : ∀ k ∈ xs, ∀ l ∈ xs, ¬ Dips k.object.value l.object.value) :
    Solutions.sortRows name reverse (xs.map f) =
      (Table.sorted { order := [.object], reverse } Quint.toRow xs).map f := by
  rw [Solutions.sortRows, Table.sorted_single]
  refine (List.map_mergeSort fun k hk l hl => ?_).symm
  obtain ⟨a, ka, textA⟩ := plain k hk
  obtain ⟨b, lb, textB⟩ := plain l hl
  have away := apart k hk l hl
  have turned := apart l hl k hk
  rw [ka, lb] at away turned
  have below : (Term.plain a).encodeObject < (Term.plain b).encodeObject ↔ a < b := lt_iff away turned
  have above : (Term.plain b).encodeObject < (Term.plain a).encodeObject ↔ b < a := lt_iff turned away
  have storedA : k.toRow.get .object = (Term.plain a).encodeObject := congrArg Term.encodeObject ka
  have storedB : l.toRow.get .object = (Term.plain b).encodeObject := congrArg Term.encodeObject lb
  rw [ka] at textA
  rw [lb] at textB
  have keyA : SortKey.ofRow name (f k) = .text a := by
    rw [SortKey.ofRow, bound k hk, ka, SortKey.ofTerm?, textA]
    rfl
  have keyB : SortKey.ofRow name (f l) = .text b := by
    rw [SortKey.ofRow, bound l hl, lb, SortKey.ofTerm?, textB]
    rfl
  rw [storedA, storedB, keyA, keyB]
  simp only [below, above]
  cases reverse <;> rfl

/-- The order of two stored plain literals, and what follows from it for pushed comparisons and for ORDER BY. -/
theorem plain_order (a b : Text) (at_ : q.get .object = .var name) (ordering : op.comparison? = some c) :
    ((Term.plain a).encodeObject < (Term.plain b).encodeObject ↔ (a < b ∧ ¬ Dips a b) ∨ Dips b a) ∧
    (((Term.plain a).encodeObject < (Term.plain b).encodeObject ↔ a < b) ↔ ¬ Dips a b ∧ ¬ Dips b a) ∧
    (∃ ops,
      Pushdown.ofFilter q (.binary op (.term (.var name)) (.term (.plain b))) = { filters := [(name, ops)] } ∧
      ∀ k : Quint, k.object = .plain a → ¬ Dips a b → ¬ Dips b a →
        Table.satisfies k.toRow (({} : Pattern).set .object (some (.operators ops))).clauses = c.holds a b) ∧
    (∀ (xs : List Quint) (f : Quint → Binding) (reverse : Bool),
      (∀ k ∈ xs, (f k).get? name = some k.object) →
      (∀ k ∈ xs, ∃ a, k.object = .plain a ∧ SortKey.numeric? k.object = none) →
      (∀ k ∈ xs, ∀ l ∈ xs, ¬ Dips k.object.value l.object.value) →
      Solutions.sortRows name reverse (xs.map f) =
        (Table.sorted { order := [.object], reverse } Quint.toRow xs).map f) := by
  obtain ⟨ops, pushed, takes⟩ := comparison_takes (b := b) at_ ordering
  refine ⟨?_, ?_, ⟨ops, pushed, fun k object apart turned => takes k a object apart turned⟩,
    fun xs f reverse bound plain apart => sortRows_sorted reverse bound plain apart⟩
  · rw [Term.plain_lt_plain]
    exact Text.closed_lt_closed a b
  · rw [Term.plain_lt_plain]
    exact Text.closed_order a b

def words : List Quint := [TextTest.valueStatement (.plain "b"), TextTest.valueStatement (.plain "ab")]

def objectRow (k : Quint) : Binding := [("o", k.object)]

theorem plain_order_words :
    Pushdown.valueTriple.get .object = .var "o" ∧ Operator.lt.comparison? = some .lt ∧
    (∀ k ∈ words, ∀ l ∈ words, ¬ Dips k.object.value l.object.value) ∧
    (Term.plain "ab").encodeObject < (Term.plain "b").encodeObject ∧
    (∃ ops,
      Pushdown.ofFilter Pushdown.valueTriple (.binary .lt (.term (.var "o")) (.term (.plain "b"))) =
        { filters := [("o", ops)] } ∧
      Table.satisfies (TextTest.valueStatement (.plain "ab")).toRow
        (({} : Pattern).set .object (some (.operators ops))).clauses = true) ∧
    Solutions.sortRows "o" false (words.map objectRow) =
      (Table.sorted { order := [.object], reverse := false } Quint.toRow words).map objectRow := by
  have apart : ∀ k ∈ words, ∀ l ∈ words, ¬ Dips k.object.value l.object.value := by decide
  have plain : ∀ k ∈ words, ∃ a, k.object = .plain a ∧ SortKey.numeric? k.object = none := by
    intro k mem
    rcases List.mem_pair.1 mem with rfl | rfl
    · exact ⟨"b", rfl, by decide +kernel⟩
    · exact ⟨"ab", rfl, by decide +kernel⟩
  obtain ⟨order, -, ⟨ops, pushed, takes⟩, sorted⟩ :=
    @plain_order Pushdown.valueTriple "o" .lt .lt "ab" "b" rfl rfl
  refine ⟨rfl, rfl, apart, order.2 (.inl ⟨by decide, by decide⟩), ⟨ops, pushed, ?_⟩, ?_⟩
  · rw [takes _ rfl (by decide) (by decide)]
    decide
  · exact sorted words objectRow false (fun _ _ => rfl) plain apart

theorem plain_order_space : ("a" : Text) < "a b" ∧
    ¬ (Term.plain "a").encodeObject < (Term.plain "a b").encodeObject := by
  decide +kernel

end PlainOrder

end QuadStore
