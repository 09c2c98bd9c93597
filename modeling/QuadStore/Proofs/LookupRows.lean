import Mathlib.Algebra.Order.BigOperators.Group.List
import QuadStore.Proofs.Meaning
import QuadStore.Proofs.Narrowing
import QuadStore.Proofs.StatementValues
import QuadStore.Proofs.StoredQuints

namespace QuadStore

open Sql

theorem Quint.toQuad_ofRow {k : Quint} (stored : k.toQuad.Kept) : (ofRow k.toRow).toQuad = k.toQuad := by
  rw [Quad.eq_iff]
  intro p _
  rw [get_ofRow, get_toRow]
  exact stored p

namespace Match

variable {t : Term} {p : Position} {s : Text}

theorem admits_term : (Match.term t).admits p s = decide (s = t.stored p) := by
  simp [admits, conditions, Condition.holds, Comparison.holds, regex?]

theorem admits_ne : (Match.operators { ne := some (.term t) }).admits p s = decide (s ≠ t.stored p) := by
  have value : (Value.term t).stored p .ne = t.stored p := Value.stored_term t p .ne rfl
  simp [admits, conditions, Operators.conditions, Condition.holds, Comparison.holds, regex?, value]

end Match

namespace Quad

variable {q : Quad}

theorem get_lookup (q : Quad) (p : Position) :
    (q.inGraph (q.lookup none)).get p =
      if p = .graph ∧ q.graph.isVar = true then some (.operators { ne := some (.term .defaultGraph) })
      else q.fixed? p := by
  have plain : q.lookup none = q.constants := rfl
  unfold inGraph
  rw [plain]
  by_cases var : q.graph.isVar = true
  · have open_ : q.constants.graph = none := by
      change q.fixed? .graph = none
      simp [fixed?, get, var]
    rw [if_pos var, Pattern.outsideDefaultGraph, open_]
    cases p with
    | graph => simp [var, Pattern.get]
    | subject | predicate | object => simp [Pattern.get, constants]
  · rw [if_neg var, if_neg fun h => var h.2]
    exact Part.get_constants q p

theorem searches_lookup (q : Quad) : (q.inGraph (q.lookup none)).searches? = some [] := by
  have regexes : (q.inGraph (q.lookup none)).regexes = [] := by
    rw [Pattern.regexes, List.filterMap_eq_nil_iff]
    intro p _
    rw [q.get_lookup]
    split
    · rfl
    · unfold fixed?
      dsimp only
      split <;> rfl
  rw [Pattern.searches?, regexes]
  rfl

theorem conditions_lookup (q : Quad) {p : Position} {m : Match} (found : (q.inGraph (q.lookup none)).get p = some m) :
    ∃ c s, m.conditions p = [.compare c s] := by
  rw [q.get_lookup] at found
  split at found
  · cases found
    exact ⟨_, _, rfl⟩
  · unfold fixed? at found
    dsimp only at found
    split at found <;> cases found
    exact ⟨_, _, rfl⟩

theorem few_values_lookup (q : Quad) : (Clause.values (q.inGraph (q.lookup none)).clauses).length ≤ 4 := by
  rw [Clause.values, Pattern.clauses, List.flatMap_assoc, List.length_flatMap]
  refine List.sum_le_card_nsmul _ 1 ?_
  intro n mem
  obtain ⟨p, -, rfl⟩ := List.mem_map.1 mem
  cases found : (q.inGraph (q.lookup none)).get p with
  | none => exact Nat.zero_le 1
  | some m =>
    obtain ⟨c, s, single⟩ := q.conditions_lookup found
    dsimp only
    rw [single]
    exact Nat.le_refl 1

theorem hasRegex_lookup (q : Quad) : (q.inGraph (q.lookup none)).hasRegex = false := by
  have nil := Pattern.searches_nil_iff _ _ q.searches_lookup
  simpa using nil

variable {scope : Option Term} {k : Quint}

theorem get_within (q : Quad) (scope : Option Term) {p : Position} (h : p ≠ .graph) :
    (q.within scope).get p = q.get p := by
  cases p with
  | graph => exact absurd rfl h
  | subject | predicate | object => rfl

theorem stored_eq_iff {p : Position} {t : Term} (constant : t.Kept p) (stored : k.toQuad.Kept) :
    k.toRow.get p = t.stored p ↔ k.get p = t := by
  rw [Quint.get_toRow]
  exact (stored p).stored_inj constant

theorem fixed_admits {p : Position} (h : p ≠ .graph) (constant : (q.get p).Kept p) (stored : k.toQuad.Kept) :
    (q.fixed? p).all (·.admits p (k.toRow.get p)) = ((q.get p).isVar || k.get p = q.get p) := by
  unfold fixed?
  dsimp only
  by_cases var : (q.get p).isVar = true
  · simp [var]
  · simp [var, h, Match.admits_term, stored_eq_iff constant stored]

theorem scope_admits (named : ∀ g ∈ scope, g ≠ .defaultGraph ∧ g.Kept .graph) (stored : k.toQuad.Kept) :
    (((q.within scope).inGraph ((q.within scope).lookup none)).get .graph).all
      (·.admits .graph (k.toRow.get .graph)) = k.graph.inScope scope := by
  rw [get_lookup]
  have graph : (q.within scope).get .graph = scope.getD .defaultGraph := rfl
  have graph' : (q.within scope).graph = scope.getD .defaultGraph := rfl
  cases scope with
  | none => simp [fixed?, graph, graph', Term.isVar, Term.inScope]
  | some g =>
    obtain ⟨notDefault, kept⟩ := named g rfl
    have met : k.toRow.get .graph = g.stored .graph ↔ k.graph = g := stored_eq_iff kept stored
    have default_ : k.toRow.get .graph = Term.defaultGraph.stored .graph ↔ k.graph = .defaultGraph :=
      stored_eq_iff rfl stored
    cases g with
    | var name => simp [graph', Term.isVar, Term.inScope, Match.admits_ne, default_]
    | defaultGraph => exact absurd rfl notDefault
    | iri | blank | literal =>
      simp [fixed?, graph, graph', Term.isVar, Term.inScope, Match.admits_term, met]

theorem admits_within (constants : q.Kept) (named : ∀ g ∈ scope, g ≠ .defaultGraph ∧ g.Kept .graph)
    (stored : k.toQuad.Kept) :
    ((q.within scope).inGraph ((q.within scope).lookup none)).admits k.toRow =
      (q.meets k.toQuad && k.graph.inScope scope) := by
  have place : ∀ p : Position, p ≠ .graph →
      (((q.within scope).inGraph ((q.within scope).lookup none)).get p).all (·.admits p (k.toRow.get p)) =
        ((q.get p).isVar || k.get p = q.get p) := by
    intro p h
    have same : (q.within scope).fixed? p = q.fixed? p := by
      unfold fixed?
      rw [q.get_within scope h]
    rw [get_lookup, if_neg fun both => h both.1, same]
    exact fixed_admits h (constants p) stored
  have subject := place .subject (by decide)
  have predicate := place .predicate (by decide)
  have object := place .object (by decide)
  have graph := scope_admits (q := q) named stored
  unfold Pattern.admits Position.keyOrder meets
  simp only [List.all_cons, List.all_nil, Bool.and_true, subject, predicate, object, graph]
  rw [Bool.and_comm]

theorem filter_admits_within (constants : q.Kept) (named : ∀ g ∈ scope, g ≠ .defaultGraph ∧ g.Kept .graph)
    {qs : List Quint} (stored : ∀ k ∈ qs, k.toQuad.Kept) :
    (qs.map Quint.toRow).filter ((q.within scope).inGraph ((q.within scope).lookup none)).admits =
      (qs.filter fun k => q.meets k.toQuad && k.graph.inScope scope).map Quint.toRow := by
  rw [List.filter_map]
  congr 1
  apply List.filter_congr
  intro k mem
  exact admits_within constants named (stored k mem)

end Quad

namespace Store

theorem fetched_within {q : Quad} {scope : Option Term} (constants : q.Kept)
    (named : ∀ g ∈ scope, g ≠ .defaultGraph ∧ g.Kept .graph) (lasting : Bool) {qs : List Quint}
    (stored : ∀ k ∈ qs, k.toQuad.Kept) {options : Options} (limit : options.limit = none)
    (offset : options.offset = none) :
    fetched (.holding lasting qs) ((q.within scope).inGraph ((q.within scope).lookup none)) options =
      .ok (Table.sorted options id
        ((qs.filter fun k => q.meets k.toQuad && k.graph.inScope scope).map Quint.toRow)) := by
  have rows := Quad.filter_admits_within constants named stored
  have whole : ∀ xs : List Row, Table.slice options xs = xs := by
    intro xs
    simp [Table.slice, limit, offset, sqlInteger]
  unfold fetched wanted taken
  rw [Quad.searches_lookup, Quad.hasRegex_lookup]
  simp only [Option.isSome_some, if_true, Bool.false_eq_true, if_false, whole]
  exact congrArg (fun rows => Except.ok (Table.sorted options id rows)) rows

end Store

end QuadStore
