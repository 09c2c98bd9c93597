import QuadStore.Proofs.EngineLimits
import QuadStore.Proofs.GroupAnswers

namespace QuadStore

open Sql

theorem Binding.get?_foldl_last {α : Type} (key : α → Text) (value : α → Term) (xs : List α) (b : Binding)
    (name : Text) :
    (xs.foldl (fun b x => b.set (key x) (value x)) b).get? name =
      (((xs.filter fun x => key x = name).getLast?).map value).or (b.get? name) := by
  induction xs generalizing b with
  | nil => rfl
  | cons x xs ih =>
    rw [List.foldl_cons, ih, get?_set, List.filter_cons]
    by_cases h : key x = name
    · rw [decide_eq_true h, if_pos rfl, if_pos h.symm, List.getLast?_cons]
      cases (xs.filter fun x => key x = name).getLast? <;> rfl
    · rw [decide_eq_false h, if_neg Bool.false_ne_true, if_neg (Ne.symm h)]

namespace Compound

def Alike (on : Position) (rows : List Row) : Prop :=
  ∀ a ∈ rows, ∀ b ∈ rows, a.get on = b.get on ∧ (on = .graph ∨ a.graph = b.graph)

instance (on : Position) (rows : List Row) : Decidable (Alike on rows) :=
  inferInstanceAs (Decidable (∀ a ∈ rows, ∀ b ∈ rows, _))

def tuples (c : Compound) (t : Table) : List (List Row) :=
  (choices (c.patterns.map fun p => t.rows.filter p.admits)).filter fun rows => Alike c.on rows

def termOf (rows : List Row) (s : Selection) : Option Term :=
  rows[s.pattern]?.map fun r => .ofStored (r.get s.position) s.position

def value? (c : Compound) (rows : List Row) : Option Term :=
  rows.head?.map fun r => .ofStored (r.get c.on) c.on

/-- What rows give to names; of two columns with one name the last counts. -/
def assignment (c : Compound) (rows : List Row) : Assignment := fun name =>
  (c.columns.filter fun s => s.name = name).getLast? >>= termOf rows

theorem agreeing_eq (on : Position) (rows : List Row) : Table.agreeing on rows = decide (Alike on rows) := by
  cases rows with
  | nil => simp [Table.agreeing, Alike]
  | cons first more =>
    rw [Bool.eq_iff_iff, decide_eq_true_iff, Table.agreeing, List.all_eq_true]
    simp only [Table.Joined.agrees, Bool.and_eq_true, Bool.or_eq_true, decide_eq_true_eq]
    constructor
    · intro agree
      have all : ∀ r ∈ first :: more, first.get on = r.get on ∧ (on = .graph ∨ first.graph = r.graph) := by
        intro r mem
        rcases List.mem_cons.1 mem with rfl | mem
        · exact ⟨rfl, .inr rfl⟩
        · exact agree r mem
      intro a ha b hb
      obtain ⟨valueA, graphA⟩ := all a ha
      obtain ⟨valueB, graphB⟩ := all b hb
      refine ⟨valueA.symm.trans valueB, ?_⟩
      rcases graphA with same | graphA
      · exact .inl same
      · exact graphB.imp_right graphA.symm.trans
    · intro alike r mem
      exact alike first List.mem_cons_self r (List.mem_cons_of_mem first mem)

theorem alike_single (on : Position) (r : Row) : Alike on [r] := by
  simp [Alike]

theorem tuples_single {c : Compound} {p : Pattern} (single : c.patterns = [p]) (t : Table) :
    c.tuples t = (t.rows.filter p.admits).map fun r => [r] := by
  have rows : choices [t.rows.filter p.admits] = (t.rows.filter p.admits).map fun r => [r] := by
    simp [choices, List.map_eq_flatMap]
  rw [tuples, single, List.map_singleton, rows, List.filter_eq_self]
  intro row mem
  obtain ⟨r, -, rfl⟩ := List.mem_map.1 mem
  exact decide_eq_true (alike_single c.on r)

theorem columns_inside {c : Compound} (inside : ∀ s ∈ c.select, s.pattern < c.patterns.length) :
    ∀ s ∈ c.columns, s.pattern < c.patterns.length := by
  intro s mem
  unfold columns at mem
  split at mem
  · obtain ⟨i, below, mem⟩ := List.mem_flatMap.1 mem
    have lt := List.mem_range.1 below
    simp only [List.mem_cons, List.not_mem_nil, or_false] at mem
    rcases mem with rfl | rfl <;> exact lt
  · exact inside s mem

theorem length_of_mem_tuples {c : Compound} {t : Table} {rows : List Row} (mem : rows ∈ c.tuples t) :
    rows.length = c.patterns.length :=
  (mem_choices.1 (List.mem_of_mem_filter mem)).length_eq.trans (List.length_map _)

theorem assignment_eq {c : Compound} {rows : List Row} (value : Selection → Term)
    (told : ∀ s ∈ c.columns, termOf rows s = some (value s)) :
    c.assignment rows = Binding.get? (c.columns.foldl (fun (b : Binding) s => b.set s.name (value s)) []) := by
  funext name
  rw [Binding.get?_foldl_last, assignment]
  cases last : (c.columns.filter fun s => s.name = name).getLast? with
  | none => rfl
  | some s =>
    have mem := List.mem_of_mem_filter (List.mem_of_getLast? last)
    simp [told s mem]

end Compound

namespace Store

open Compound

variable {t : Table} {p : Pattern} {c : Compound}

theorem rows_tuples (plain : ∀ p ∈ c.patterns, p.hasRegex = false) (some_ : c.patterns ≠ []) :
    (t.joined c.on (c.patterns.map Pattern.clauses)).map Table.Joined.rows = c.tuples t := by
  have selected : (c.patterns.map Pattern.clauses).map t.selected =
      c.patterns.map fun p => t.rows.filter p.admits := by
    rw [List.map_map]
    exact List.map_congr_left fun p mem => selected_plain (plain p mem)
  obtain ⟨first, rest, shape⟩ := List.exists_cons_of_ne_nil (l := c.patterns.map Pattern.clauses) (by simpa)
  rw [shape, Table.rows_joined, ← shape, selected, tuples]
  exact List.filter_congr fun rows _ => agreeing_eq c.on rows

theorem shown_joined (inside : ∀ s ∈ c.select, s.pattern < c.patterns.length) (clauses : List (List Clause))
    {j : Table.Joined} (count : j.rows.length = c.patterns.length) :
    (ofJoined c.on (projections c) (j.record ⟨c.on, (projections c).map (·.2), clauses⟩)).bindings.get? =
      c.assignment j.rows := by
  rw [bindings_joined]
  refine (assignment_eq _ fun s mem => ?_).symm
  have lt : s.pattern < j.rows.length := count ▸ columns_inside inside s mem
  have row : j.row? s.pattern = some j.rows[s.pattern] := List.getElem?_eq_getElem lt
  rw [termOf, List.getElem?_eq_getElem lt, Table.Joined.text, row]
  rfl

theorem bindings_single (single : c.patterns.length = 1) (q : Quint) :
    (ofSingle c q).bindings = c.columns.foldl (fun (b : Binding) s => b.set s.name (q.get s.position)) [] := by
  unfold ofSingle columns
  dsimp only
  split
  · rw [single]
    rfl
  · rfl

theorem shown_single (single : c.patterns.length = 1)
    (inside : ∀ s ∈ c.select, s.pattern < c.patterns.length) (r : Row) :
    (ofSingle c (.ofRow r)).bindings.get? = c.assignment [r] := by
  rw [bindings_single single]
  refine (assignment_eq _ fun s mem => ?_).symm
  have first : s.pattern = 0 := by
    have lt := columns_inside inside s mem
    omega
  rw [termOf, first, Quint.get_ofRow]
  rfl

theorem combined_answers (t : Table) (c : Compound) (some_ : c.patterns ≠ [])
    (plain : ∀ p ∈ c.patterns, p.hasRegex = false)
    (inside : ∀ s ∈ c.select, s.pattern < c.patterns.length) :
    ∃ found, combined t c {} = .ok found ∧
      (found.map fun r => (some r.value, r.bindings.get?)).Perm
        ((c.tuples t).map fun rows => (c.value? rows, c.assignment rows)) := by
  match shape : c.patterns with
  | [] => exact absurd shape some_
  | [p] =>
    have single : c.patterns.length = 1 := by rw [shape]; rfl
    refine ⟨_, combined_one plain inside shape, .of_eq ?_⟩
    rw [tuples_single shape, List.map_map, List.map_map]
    apply List.map_congr_left
    intro r _
    have value : (ofSingle c (.ofRow r)).value = .ofStored (r.get c.on) c.on := Quint.get_ofRow r c.on
    rw [Function.comp_apply, Function.comp_apply, shown_single single inside, value]
    rfl
  | p :: q :: rest =>
    refine ⟨_, combined_several plain inside (by rw [shape]; simp), .of_eq ?_⟩
    rw [← rows_tuples plain some_, List.map_map, List.map_map]
    apply List.map_congr_left
    intro j mem
    have count : j.rows.length = c.patterns.length :=
      length_of_mem_tuples (rows_tuples plain some_ ▸ List.mem_map_of_mem mem)
    rw [Function.comp_apply, Function.comp_apply, shown_joined inside _ count]
    rfl

/-- A request for several patterns answers, in some order, one result for each choice of rows that the
patterns take and that agree. It is one query, with a table for each pattern; if the engine refuses that, the
request fails with the refusal and nothing has changed. -/
theorem getCompound_answers (limits : Limits) (t : Table) (c : Compound) (some_ : c.patterns ≠ [])
    (plain : ∀ p ∈ c.patterns, p.hasRegex = false)
    (inside : ∀ s ∈ c.select, s.pattern < c.patterns.length) :
    (limits.refusal t (compoundQuery c {}) = none →
      ∃ found, getCompound c {} (within limits ⟨true, t⟩) = (.ok found, within limits ⟨true, t⟩) ∧
        (found.map fun r => (some r.value, r.bindings.get?)).Perm
          ((c.tuples t).map fun rows => (c.value? rows, c.assignment rows))) ∧
    (∀ failure, limits.refusal t (compoundQuery c {}) = some failure →
      getCompound c {} (within limits ⟨true, t⟩) = (.error (.sql failure), within limits ⟨true, t⟩)) ∧
    (limits.tables < c.patterns.length → (limits.refusal t (compoundQuery c {})).isSome = true) := by
  have asks := getCompound_asks t c {}
  rw [combinedQueries_plain some_ plain inside] at asks
  refine ⟨fun taken => ?_, fun failure refused => ?_, fun wide => ?_⟩
  · obtain ⟨found, answered, perm⟩ := combined_answers t c some_ plain inside
    refine ⟨found, ?_, perm⟩
    have run := asks.taken_alone limits taken
    rwa [getCompound_open, answered] at run
  · exact asks.refused_alone refused
  · exact limits.wide_refused t _ (by rwa [tables_compoundQuery some_])

def namesAndAges : Compound where
  patterns :=
    [{ predicate := some (.term (.iri "http://ex/name")) },
     { predicate := some (.term (.iri "http://ex/age"))
       object := some (.operators { ge := some (.term (.typed "18" Xsd.integer)) }) }]
  select := [⟨0, .object, "x"⟩, ⟨1, .object, "x"⟩]

theorem getCompound_answers_ages :
    ∃ r, getCompound namesAndAges {} (limited .usual true MultiPlan.people) =
        (.ok [r], limited .usual true MultiPlan.people) ∧
      r.value = .iri "http://ex/ann" ∧ r.bindings.get? "x" = some (.typed "41" Xsd.integer) := by
  have some_ : namesAndAges.patterns ≠ [] := List.cons_ne_nil _ _
  have plain : ∀ p ∈ namesAndAges.patterns, p.hasRegex = false := by decide
  have inside : ∀ s ∈ namesAndAges.select, s.pattern < namesAndAges.patterns.length := by
    simp [namesAndAges]
  obtain ⟨answers, -⟩ := getCompound_answers .usual (.holding true MultiPlan.people) namesAndAges some_ plain inside
  obtain ⟨found, answer, perm⟩ := answers (by decide +kernel)
  have tuples : namesAndAges.tuples (.holding true MultiPlan.people) = [MultiPlan.people.map Quint.toRow] := by
    decide +kernel
  rw [tuples, List.map_singleton, List.perm_singleton, List.map_eq_singleton_iff] at perm
  obtain ⟨r, rfl, shown⟩ := perm
  obtain ⟨value, bindings⟩ := Prod.mk.inj shown
  refine ⟨r, answer, Option.some.inj value, ?_⟩
  rw [bindings]
  decide +kernel

def widePatterns : Compound where
  patterns := List.replicate 65 {}

theorem wide_patterns_refused :
    (widePatterns.tuples (.holding true [MultiPlan.annsName])).length = 1 ∧
    getCompound widePatterns {} (limited .usual true [MultiPlan.annsName]) =
      (.error (.sql Limits.tooManyTables), limited .usual true [MultiPlan.annsName]) := by
  have plain : ∀ p ∈ widePatterns.patterns, p.hasRegex = false := by
    intro p mem
    rw [List.eq_of_mem_replicate mem]
    rfl
  have asks := getCompound_asks (.holding true [MultiPlan.annsName]) widePatterns {}
  rw [combinedQueries_plain (List.cons_ne_nil _ _) plain (List.forall_mem_nil _)] at asks
  exact ⟨by decide +kernel, asks.refused_alone (by decide +kernel)⟩

end Store

end QuadStore
