import QuadStore.Proofs.PayloadText
import QuadStore.Proofs.Selection
import QuadStore.Proofs.TermText
import QuadStore.Proofs.Transactions

namespace QuadStore

open Sql Step

namespace Term

variable {a b t : Term} {p : Position}

def Kept (t : Term) (p : Position) : Prop := ofStored (t.stored p) p = t

instance : Decidable (t.Kept p) := inferInstanceAs (Decidable (_ = _))

theorem Storable.kept (h : Storable t) (p : Position) : t.Kept p := by
  cases p with
  | object => exact decodeObject_encodeObject h
  | subject => exact decode_encode h
  | predicate => exact decode_encode h
  | graph => exact decode_encode h

theorem Kept.stored_inj (ha : a.Kept p) (hb : b.Kept p) : a.stored p = b.stored p ↔ a = b := by
  constructor
  · intro same
    rw [← ha, same, hb]
  · intro same
    rw [same]

end Term

def Quad.Kept (q : Quad) : Prop := ∀ p, (q.get p).Kept p

theorem Quad.kept_iff {q : Quad} : q.Kept ↔ ∀ p ∈ Position.all, (q.get p).Kept p :=
  ⟨fun h p _ => h p, fun h p => h p (by cases p <;> decide)⟩

instance {q : Quad} : Decidable q.Kept := decidable_of_iff _ Quad.kept_iff.symm

theorem Quad.kept_of_storable {q : Quad} (h : ∀ p, (q.get p).Storable) : q.Kept :=
  fun p => (h p).kept p

theorem Quad.eq_iff (a b : Quad) : a = b ↔ ∀ p ∈ Position.keyOrder, a.get p = b.get p := by
  constructor
  · intro same p _
    rw [same]
  · intro same
    have subject : a.subject = b.subject := same .subject (by decide)
    have predicate : a.predicate = b.predicate := same .predicate (by decide)
    have object : a.object = b.object := same .object (by decide)
    have graph : a.graph = b.graph := same .graph (by decide)
    cases a
    cases b
    simp_all

theorem Row.satisfies_keyClauses (r key : Row) :
    Table.satisfies r (Row.keyClauses key.get) = r.sameKey key := by
  rw [Table.satisfies, Row.keyClauses, List.all_map]
  rfl

namespace Quint

variable {a b q : Quint}

/-- The row of a statement gives it back. -/
structure Kept (q : Quint) : Prop where
  terms : q.toQuad.Kept
  finite : ∀ v ∈ q.vector, ∀ x ∈ v, x.isFinite = true

theorem get_toRow (q : Quint) (p : Position) : q.toRow.get p = (q.get p).stored p := by
  cases p <;> rfl

theorem ofRow_toRow (h : q.Kept) : ofRow q.toRow = q := by
  have subject : Term.decode q.subject.encode = q.subject := h.terms .subject
  have predicate : Term.decode q.predicate.encode = q.predicate := h.terms .predicate
  have object : Term.decodeObject q.object.encodeObject = q.object := h.terms .object
  have graph : Term.decode q.graph.encode = q.graph := h.terms .graph
  have vector : (q.vector.map Payload.write >>= Payload.read?) = q.vector := by
    cases hv : q.vector with
    | none => rfl
    | some v => exact Payload.read?_write (h.finite v hv)
  simp only [ofRow, toRow, subject, predicate, object, graph, vector]

theorem get_toRow_eq_iff (ha : a.toQuad.Kept) (hb : b.toQuad.Kept) (p : Position) :
    a.toRow.get p = b.toRow.get p ↔ a.get p = b.get p := by
  rw [get_toRow, get_toRow]
  exact (ha p).stored_inj (hb p)

theorem sameKey_toRow (ha : a.toQuad.Kept) (hb : b.toQuad.Kept) :
    a.toRow.sameKey b.toRow = decide (a.toQuad = b.toQuad) := by
  rw [Bool.eq_iff_iff, decide_eq_true_iff, Row.sameKey, List.all_eq_true, Quad.eq_iff]
  simp only [decide_eq_true_eq, get_toRow_eq_iff ha hb]

theorem satisfies_keyClauses (ha : a.toQuad.Kept) (hb : b.toQuad.Kept) :
    Table.satisfies a.toRow (Row.keyClauses b.toRow.get) = decide (a.toQuad = b.toQuad) := by
  rw [← sameKey_toRow ha hb, Row.satisfies_keyClauses]

end Quint

abbrev Selector := Position → Option Term

namespace Selector

variable {s : Selector} {q : Quint}

def pattern (s : Selector) : Pattern where
  subject := (s .subject).map .term
  predicate := (s .predicate).map .term
  object := (s .object).map .term
  graph := (s .graph).map .term

def selects (s : Selector) (q : Quad) : Bool :=
  Position.keyOrder.all fun p => (s p).all fun t => q.get p = t

def Kept (s : Selector) : Prop := ∀ p, ∀ t ∈ s p, t.Kept p

theorem get_pattern (s : Selector) (p : Position) : s.pattern.get p = (s p).map .term := by
  cases p <;> rfl

theorem searches_pattern (s : Selector) : s.pattern.searches? = some [] := by
  have regexes : s.pattern.regexes = [] := by
    rw [Pattern.regexes, List.filterMap_eq_nil_iff]
    intro p _
    rw [get_pattern]
    cases s p <;> rfl
  rw [Pattern.searches?, regexes]
  rfl

theorem satisfies_pattern (hs : s.Kept) (hq : q.toQuad.Kept) :
    Table.satisfies q.toRow s.pattern.clauses = s.selects q.toQuad := by
  rw [Pattern.satisfies_clauses, selects]
  congr 1
  funext p
  rw [get_pattern]
  cases hp : s p with
  | none => rfl
  | some t =>
    have stored : q.toRow.get p = t.stored p ↔ q.get p = t := by
      rw [Quint.get_toRow]
      exact (hq p).stored_inj (hs p t hp)
    simp [Match.conditions, Condition.holds, Comparison.holds, stored]

end Selector

namespace Sql.Table

variable (lasting : Bool) {qs : List Quint} {q : Quint}

/-- The table of the rows of some statements, on which no command fails. -/
def holding (lasting : Bool) (qs : List Quint) : Table := ⟨qs.map Quint.toRow, [], [], lasting⟩

theorem apply_upsert_row (qs : List Quint) (q : Quint) :
    (holding lasting qs).apply (.upsert q.toRow) =
      .ok (holding lasting (qs.filter (fun r => !r.toRow.sameKey q.toRow) ++ [q]), 1) := by
  have others : (qs.map Quint.toRow).filter (fun r => !r.sameKey q.toRow) =
      (qs.filter fun r => !r.toRow.sameKey q.toRow).map Quint.toRow := by
    rw [List.filter_map]
    rfl
  simp only [apply, holding, List.contains_nil, Bool.false_eq_true, if_false, others, List.map_append,
    List.map_singleton]

theorem apply_upsert (kept : ∀ r ∈ qs, r.Kept) (hq : q.Kept) :
    (holding lasting qs).apply (.upsert q.toRow) =
      .ok (holding lasting (qs.filter (fun r => !decide (r.toQuad = q.toQuad)) ++ [q]), 1) := by
  have same : ∀ r ∈ qs, (!r.toRow.sameKey q.toRow) = !decide (r.toQuad = q.toQuad) := fun r mem => by
    rw [Quint.sameKey_toRow (kept r mem).terms hq.terms]
  rw [apply_upsert_row, List.filter_congr same]

theorem apply_delete {clauses : List Clause} {selected : Quad → Bool}
    (agree : ∀ r ∈ qs, satisfies r.toRow clauses = selected r.toQuad) :
    ∃ n, (holding lasting qs).apply (.delete clauses) =
      .ok (holding lasting (qs.filter fun r => !selected r.toQuad), n) := by
  have others : (qs.map Quint.toRow).filter (fun r => !satisfies r clauses) =
      (qs.filter fun r => !selected r.toQuad).map Quint.toRow := by
    rw [List.filter_map]
    congr 1
    apply List.filter_congr
    intro r mem
    rw [Function.comp_apply, agree r mem]
  refine ⟨((holding lasting qs).selected clauses).length, ?_⟩
  unfold apply
  dsimp only
  rw [if_neg (by simp [holding])]
  simp only [holding, others]

theorem apply_setVector {clauses : List Clause} {selected : Quad → Bool}
    (agree : ∀ r ∈ qs, satisfies r.toRow clauses = selected r.toQuad) (v : Vector) :
    ∃ n, (holding lasting qs).apply (.setVector (Payload.write v) clauses) =
      .ok (holding lasting (qs.map fun r =>
        if selected r.toQuad then { r with vector := some v } else r), n) := by
  have changed : (qs.map Quint.toRow).map (fun r =>
        if satisfies r clauses then { r with vector := some (Payload.write v) } else r) =
      (qs.map fun r => if selected r.toQuad then { r with vector := some v } else r).map Quint.toRow := by
    rw [List.map_map, List.map_map]
    apply List.map_congr_left
    intro r mem
    rw [Function.comp_apply, Function.comp_apply, agree r mem]
    by_cases h : selected r.toQuad = true
    · rw [if_pos h, if_pos h]
      rfl
    · rw [if_neg h, if_neg h]
  refine ⟨((holding lasting qs).selected clauses).length, ?_⟩
  simp only [apply, holding, changed]

theorem applyAll_cons {t next : Table} {c : Command} {commands : List Command} {n : Nat}
    (h : t.apply c = .ok (next, n)) : t.applyAll (c :: commands) = next.applyAll commands := by
  unfold applyAll
  rw [List.foldlM_cons, h]
  rfl

end Sql.Table

namespace Store

variable {t after : Table}

theorem execute_eq (c : Command) (t : Table) :
    (call (Backend.execute c) : Action Table Nat) ⟨true, t⟩ = match t.apply c with
      | .ok (after, n) => (.ok n, ⟨true, after⟩)
      | .error e => (.error (.sql e), ⟨true, t⟩) := by
  have run : (Backend.execute c : Call Table Nat) t = _ := Connection.plainly_execute c t
  unfold call
  rw [run]
  cases t.apply c <;> rfl

theorem transact_eq (commands : List Command) (t : Table) :
    (transact commands : Action Table Unit) ⟨true, t⟩ = match t.applyAll commands with
      | .ok after => (.ok (), ⟨true, after⟩)
      | .error e => (.error (.sql e), ⟨true, t⟩) := by
  cases commands with
  | nil => rfl
  | cons c commands =>
    have run : (Backend.transact (c :: commands) : Call Table Unit) t = _ :=
      Connection.plainly_transact (c :: commands) t
    show call (Backend.transact (c :: commands)) _ = _
    unfold call
    rw [run]
    cases t.applyAll (c :: commands) <;> rfl

theorem execute_apply {c : Command} {n : Nat} (h : t.apply c = .ok (after, n)) :
    (call (Backend.execute c) : Action Table Nat) ⟨true, t⟩ = (.ok n, ⟨true, after⟩) := by
  rw [execute_eq, h]

theorem transact_apply {commands : List Command} (h : t.applyAll commands = .ok after) :
    (transact commands : Action Table Unit) ⟨true, t⟩ = (.ok (), ⟨true, after⟩) := by
  rw [transact_eq, h]

theorem writeAll_apply (s : Selector) {command : List Clause → Command} {n : Nat}
    (h : t.apply (command s.pattern.clauses) = .ok (after, n)) :
    (writeAll s.pattern command : Action Table Nat) ⟨true, t⟩ = (.ok n, ⟨true, after⟩) := by
  unfold writeAll
  rw [bind_apply, requireOpen_apply]
  simp only [if_true]
  rw [bind_apply, searches_apply, s.searches_pattern]
  exact execute_apply h

end Store

end QuadStore
