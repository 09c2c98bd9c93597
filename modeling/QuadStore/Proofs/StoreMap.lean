import QuadStore.Proofs.StoredQuints

namespace QuadStore

open Sql Step

/-- What is stored: for each statement, whether it is, and with which vector. -/
abbrev Contents := Quad → Option (Option Vector)

namespace Contents

def empty : Contents := fun _ => none

def put (m : Contents) (q : Quint) : Contents :=
  fun k => if k = q.toQuad then some q.vector else m k

def remove (m : Contents) (selected : Quad → Bool) : Contents :=
  fun k => if selected k then none else m k

def setVector (m : Contents) (selected : Quad → Bool) (v : Vector) : Contents :=
  fun k => if selected k then (m k).map fun _ => some v else m k

end Contents

inductive Write where
  | put (q : Quint)
  | putAll (qs : List Quint)
  | deleteAll (qs : List Quint)
  | clear
  | delete (s : Selector)
  | setVector (s : Selector) (v : Vector)

namespace Write

def run : Write → Action Table Unit
  | put q => Store.put q
  | putAll qs => Store.putAll qs
  | deleteAll qs => Store.deleteAll qs
  | clear => Store.clear
  | delete s => discard (Store.delete s.pattern)
  | setVector s v => discard (Store.setVector s.pattern v)

def effect (m : Contents) : Write → Contents
  | put q => m.put q
  | putAll qs => qs.foldl Contents.put m
  | deleteAll qs => m.remove fun k => qs.any fun q => k = q.toQuad
  | clear => .empty
  | delete s => m.remove s.selects
  | setVector s v => m.setVector s.selects v

/-- The terms and vectors of a write are such as the columns give back. -/
def Kept : Write → Prop
  | put q => q.Kept
  | putAll qs => ∀ q ∈ qs, q.Kept
  | deleteAll qs => ∀ q ∈ qs, q.toQuad.Kept
  | clear => True
  | delete s => s.Kept
  | setVector s v => s.Kept ∧ ∀ x ∈ v, x.isFinite = true

end Write

def contents (writes : List Write) : Contents := writes.foldl Write.effect .empty

structure Lists (qs : List Quint) (m : Contents) : Prop where
  distinct : (qs.map (·.toQuad)).Nodup
  mem_iff : ∀ q, q ∈ qs ↔ m q.toQuad = some q.vector

namespace Lists

variable {qs : List Quint} {m : Contents} {q : Quint}

theorem empty : Lists [] .empty := by
  refine ⟨List.nodup_nil, fun q => ?_⟩
  simp [Contents.empty]

theorem filter (h : Lists qs m) (selected : Quad → Bool) :
    Lists (qs.filter fun r => !selected r.toQuad) (m.remove selected) := by
  refine ⟨h.distinct.sublist (List.Sublist.map _ List.filter_sublist), fun q => ?_⟩
  rw [List.mem_filter, h.mem_iff, Contents.remove]
  by_cases gone : selected q.toQuad = true
  · simp [gone]
  · simp [gone]

theorem put (h : Lists qs m) (q : Quint) :
    Lists (qs.filter (fun r => !decide (r.toQuad = q.toQuad)) ++ [q]) (m.put q) := by
  have others := h.filter fun k => decide (k = q.toQuad)
  constructor
  · rw [List.map_append, List.nodup_append]
    refine ⟨others.distinct, List.nodup_singleton _, ?_⟩
    intro k mem k' last same
    rw [List.map_singleton, List.mem_singleton] at last
    obtain ⟨r, inside, rfl⟩ := List.mem_map.1 mem
    have differ := (List.mem_filter.1 inside).2
    rw [same, last] at differ
    simp at differ
  · intro r
    rw [List.mem_append, others.mem_iff, List.mem_singleton, Contents.remove, Contents.put]
    by_cases key : r.toQuad = q.toQuad
    · rw [if_pos (by simp [key]), if_pos key]
      constructor
      · rintro (absurd_ | rfl)
        · cases absurd_
        · rfl
      · intro vector
        right
        cases r
        cases q
        simp_all
    · rw [if_neg (by simp [key]), if_neg key]
      constructor
      · rintro (stored | rfl)
        · exact stored
        · exact absurd rfl key
      · exact .inl

theorem setVector (h : Lists qs m) (selected : Quad → Bool) (v : Vector) :
    Lists (qs.map fun r => if selected r.toQuad then { r with vector := some v } else r)
      (m.setVector selected v) := by
  have key : ∀ r : Quint,
      (if selected r.toQuad then { r with vector := some v } else r : Quint).toQuad = r.toQuad := by
    intro r
    split <;> rfl
  constructor
  · have same : (qs.map fun r => if selected r.toQuad then { r with vector := some v } else r).map
        (·.toQuad) = qs.map (·.toQuad) := by
      rw [List.map_map]
      exact List.map_congr_left fun r _ => key r
    rw [same]
    exact h.distinct
  · intro r
    rw [List.mem_map, Contents.setVector]
    constructor
    · rintro ⟨old, mem, rfl⟩
      rw [key old, (h.mem_iff old).1 mem]
      split <;> rfl
    · by_cases chosen : selected r.toQuad = true
      · rw [if_pos chosen, Option.map_eq_some_iff]
        rintro ⟨before, stored, vector⟩
        refine ⟨{ r with vector := before }, (h.mem_iff _).2 stored, ?_⟩
        rw [if_pos chosen, vector]
      · rw [if_neg chosen]
        intro stored
        refine ⟨r, (h.mem_iff r).2 stored, ?_⟩
        rw [if_neg chosen]

end Lists

theorem Store.get_everything (t : Table) :
    Store.get {} {} ⟨true, t⟩ = (.ok (t.rows.map Quint.ofRow), ⟨true, t⟩) := by
  have all : t.rows.filter (Pattern.admits {}) = t.rows := List.filter_eq_self.2 fun _ _ => rfl
  have plain : ({} : Pattern).searches? = some [] := rfl
  rw [Store.get_open, Store.fetched_all plain]
  show (Except.ok ((t.rows.filter (Pattern.admits {})).map Quint.ofRow), _) = _
  rw [all]

def Represents (lasting : Bool) (t : Table) (m : Contents) : Prop :=
  ∃ qs, t = .holding lasting qs ∧ Lists qs m ∧ ∀ q ∈ qs, q.Kept

namespace Represents

variable {lasting : Bool} {t : Table} {m : Contents}

theorem empty (lasting : Bool) : Represents lasting (.empty lasting) .empty :=
  ⟨[], rfl, Lists.empty, by simp⟩

theorem upsert (h : Represents lasting t m) {q : Quint} (hq : q.Kept) :
    ∃ after, t.apply (.upsert q.toRow) = .ok (after, 1) ∧ Represents lasting after (m.put q) := by
  obtain ⟨qs, rfl, lists, kept⟩ := h
  refine ⟨_, Table.apply_upsert lasting kept hq, _, rfl, lists.put q, ?_⟩
  intro r mem
  rcases List.mem_append.1 mem with mem | mem
  · exact kept r (List.mem_of_mem_filter mem)
  · rw [List.mem_singleton.1 mem]
    exact hq

theorem delete (h : Represents lasting t m) {clauses : List Clause} (selected : Quad → Bool)
    (agree : ∀ r : Quint, r.Kept → Table.satisfies r.toRow clauses = selected r.toQuad) :
    ∃ after n, t.apply (.delete clauses) = .ok (after, n) ∧
      Represents lasting after (m.remove selected) := by
  obtain ⟨qs, rfl, lists, kept⟩ := h
  obtain ⟨n, apply⟩ := Table.apply_delete lasting fun r mem => agree r (kept r mem)
  refine ⟨_, n, apply, _, rfl, lists.filter selected, ?_⟩
  intro r mem
  exact kept r (List.mem_of_mem_filter mem)

theorem setVector (h : Represents lasting t m) {clauses : List Clause} (selected : Quad → Bool)
    (agree : ∀ r : Quint, r.Kept → Table.satisfies r.toRow clauses = selected r.toQuad) {v : Vector}
    (finite : ∀ x ∈ v, x.isFinite = true) :
    ∃ after n, t.apply (.setVector (Payload.write v) clauses) = .ok (after, n) ∧
      Represents lasting after (m.setVector selected v) := by
  obtain ⟨qs, rfl, lists, kept⟩ := h
  obtain ⟨n, apply⟩ := Table.apply_setVector lasting (fun r mem => agree r (kept r mem)) v
  refine ⟨_, n, apply, _, rfl, lists.setVector selected v, ?_⟩
  intro r mem
  obtain ⟨old, inside, rfl⟩ := List.mem_map.1 mem
  have before := kept old inside
  split
  · refine ⟨before.terms, ?_⟩
    rintro _ ⟨⟩
    exact finite
  · exact before

theorem upserts (h : Represents lasting t m) {qs : List Quint} (kept : ∀ q ∈ qs, q.Kept) :
    ∃ after, t.applyAll (qs.map fun q => .upsert q.toRow) = .ok after ∧
      Represents lasting after (qs.foldl Contents.put m) := by
  induction qs generalizing t m with
  | nil => exact ⟨t, rfl, h⟩
  | cons q qs ih =>
    obtain ⟨next, apply, stored⟩ := h.upsert (kept q List.mem_cons_self)
    obtain ⟨after, rest, left⟩ := ih stored fun r mem => kept r (List.mem_cons_of_mem q mem)
    refine ⟨after, ?_, left⟩
    rw [List.map_cons, Table.applyAll_cons apply, rest]

theorem deletes (h : Represents lasting t m) {qs : List Quint} (kept : ∀ q ∈ qs, q.toQuad.Kept) :
    ∃ after, t.applyAll (qs.map fun q => .delete (Row.keyClauses q.toRow.get)) = .ok after ∧
      Represents lasting after (m.remove fun k => qs.any fun q => k = q.toQuad) := by
  induction qs generalizing t m with
  | nil => exact ⟨t, rfl, h⟩
  | cons q qs ih =>
    have agree : ∀ r : Quint, r.Kept →
        Table.satisfies r.toRow (Row.keyClauses q.toRow.get) = decide (r.toQuad = q.toQuad) :=
      fun r hr => Quint.satisfies_keyClauses hr.terms (kept q List.mem_cons_self)
    obtain ⟨next, n, apply, stored⟩ := h.delete (fun k => decide (k = q.toQuad)) agree
    obtain ⟨after, rest, left⟩ := ih stored fun r mem => kept r (List.mem_cons_of_mem q mem)
    refine ⟨after, ?_, ?_⟩
    · rw [List.map_cons, Table.applyAll_cons apply, rest]
    · have both : (m.remove fun k => decide (k = q.toQuad)).remove (fun k => qs.any fun q => k = q.toQuad) =
          m.remove fun k => (q :: qs).any fun q => k = q.toQuad := by
        funext k
        simp only [Contents.remove, List.any_cons, Bool.or_eq_true]
        by_cases first : decide (k = q.toQuad) = true
        · simp [first]
        · simp [first]
      rw [← both]
      exact left

theorem get_all (h : Represents lasting t m) :
    ∃ quints, Store.get {} {} ⟨true, t⟩ = (.ok quints, ⟨true, t⟩) ∧ Lists quints m := by
  obtain ⟨qs, rfl, lists, kept⟩ := h
  refine ⟨qs, ?_, lists⟩
  have back : (qs.map Quint.toRow).map Quint.ofRow = qs := by
    rw [List.map_map]
    calc qs.map (Quint.ofRow ∘ Quint.toRow) = qs.map id :=
          List.map_congr_left fun q mem => Quint.ofRow_toRow (kept q mem)
      _ = qs := List.map_id qs
  rw [Store.get_everything]
  exact congrArg (fun quints => (Except.ok quints, _)) back

end Represents

namespace Write

variable {lasting : Bool} {t : Table} {m : Contents}

theorem discard_apply {α : Type} {x : Action Table α} {a : α} {s after : Store Table}
    (h : x s = (.ok a, after)) : discard x s = (.ok (), after) := by
  show (Function.const α () <$> x) s = _
  rw [map_apply, h]
  rfl

theorem open_apply {α : Type} (x : Action Table α) (t : Table) :
    (do Store.requireOpen; x : Action Table α) ⟨true, t⟩ = x ⟨true, t⟩ := by
  rw [bind_apply, Store.requireOpen_apply]
  rfl

/-- One write changes the table as it changes the map. -/
theorem run_represents {w : Write} (kept : w.Kept) (h : Represents lasting t m) :
    ∃ after, w.run ⟨true, t⟩ = (.ok (), ⟨true, after⟩) ∧ Represents lasting after (w.effect m) := by
  cases w with
  | put q =>
    obtain ⟨after, apply, stored⟩ := h.upsert kept
    refine ⟨after, ?_, stored⟩
    show (do Store.requireOpen; discard _ : Action Table Unit) _ = _
    rw [open_apply, discard_apply (Store.execute_apply apply)]
  | putAll qs =>
    obtain ⟨after, apply, stored⟩ := h.upserts kept
    refine ⟨after, ?_, stored⟩
    show (do Store.requireOpen; Store.transact _ : Action Table Unit) _ = _
    rw [open_apply, Store.transact_apply apply]
  | deleteAll qs =>
    obtain ⟨after, apply, stored⟩ := h.deletes kept
    refine ⟨after, ?_, stored⟩
    show (do Store.requireOpen; Store.transact _ : Action Table Unit) _ = _
    rw [open_apply, Store.transact_apply apply]
  | clear =>
    have agree : ∀ r : Quint, r.Kept → Table.satisfies r.toRow [] = true := fun _ _ => rfl
    obtain ⟨after, n, apply, stored⟩ := h.delete (fun _ => true) agree
    have none : m.remove (fun _ => true) = .empty := rfl
    rw [none] at stored
    refine ⟨after, ?_, stored⟩
    show (do Store.requireOpen; discard _ : Action Table Unit) _ = _
    rw [open_apply, discard_apply (Store.execute_apply apply)]
  | delete s =>
    obtain ⟨after, n, apply, stored⟩ := h.delete s.selects fun r hr => s.satisfies_pattern kept hr.terms
    exact ⟨after, discard_apply (Store.writeAll_apply s apply), stored⟩
  | setVector s v =>
    obtain ⟨after, n, apply, stored⟩ :=
      h.setVector s.selects (fun r hr => s.satisfies_pattern kept.1 hr.terms) kept.2
    exact ⟨after, discard_apply (Store.writeAll_apply s apply), stored⟩

theorem run_all_represents {writes : List Write} (kept : ∀ w ∈ writes, w.Kept)
    (h : Represents lasting t m) :
    ∃ after, writes.forM run ⟨true, t⟩ = (.ok (), ⟨true, after⟩) ∧
      Represents lasting after (writes.foldl effect m) := by
  induction writes generalizing t m with
  | nil => exact ⟨t, rfl, h⟩
  | cons w writes ih =>
    obtain ⟨next, first, stored⟩ := run_represents (kept w List.mem_cons_self) h
    obtain ⟨after, rest, left⟩ := ih (fun w' mem => kept w' (List.mem_cons_of_mem w mem)) stored
    refine ⟨after, ?_, left⟩
    show (do w.run; writes.forM run : Action Table Unit) _ = _
    rw [bind_apply, first]
    exact rest

end Write

namespace Store

/-- After any writes on an empty store a lookup of everything answers the entries of the map that
the writes make, each once. -/
theorem get_after_writes (lasting : Bool) (writes : List Write) (kept : ∀ w ∈ writes, w.Kept) :
    ∃ (t : Table) (quints : List Quint),
      writes.forM Write.run ⟨true, .empty lasting⟩ = (.ok (), ⟨true, t⟩) ∧
      Store.get {} {} ⟨true, t⟩ = (.ok quints, ⟨true, t⟩) ∧
      (quints.map (·.toQuad)).Nodup ∧
      ∀ q : Quint, q ∈ quints ↔ contents writes q.toQuad = some q.vector := by
  obtain ⟨t, run, represents⟩ := Write.run_all_represents kept (Represents.empty lasting)
  obtain ⟨quints, get, lists⟩ := represents.get_all
  exact ⟨t, quints, run, get, lists.distinct, lists.mem_iff⟩

def countQuad : Quad := ⟨.iri "s", .iri "p", .typed "1" Xsd.integer, .defaultGraph⟩

def nameQuad : Quad := ⟨.blank "b", .iri "p", .tagged "N" "en", .iri "g"⟩

def someWrites : List Write :=
  [.put ⟨countQuad, some [.ofInt 1]⟩, .putAll [⟨nameQuad, none⟩, ⟨countQuad, none⟩],
   .setVector (fun p => if p = .subject then some (.blank "b") else none) [.ofInt 2],
   .deleteAll [⟨⟨.iri "s", .iri "p", .defaultGraph, .defaultGraph⟩, none⟩]]

theorem get_after_some_writes :
    (∀ w ∈ someWrites, w.Kept) ∧
    ∃ (t : Table) (quints : List Quint),
      someWrites.forM Write.run ⟨true, .empty false⟩ = (.ok (), ⟨true, t⟩) ∧
      Store.get {} {} ⟨true, t⟩ = (.ok quints, ⟨true, t⟩) ∧ (quints.map (·.toQuad)).Nodup ∧
      ⟨countQuad, none⟩ ∈ quints ∧ ⟨nameQuad, some [.ofInt 2]⟩ ∈ quints := by
  have iri : ∀ name ∈ (["s", "p", "g"] : List Text), Term.Storable (.iri name) := by
    intro name mem
    have some_ : ∀ name ∈ (["s", "p", "g"] : List Text), name ≠ [] := by decide
    have unmarked : ∀ name ∈ (["s", "p", "g"] : List Text), ∀ mark ∈ Term.marks, ¬ mark <+: name := by
      decide
    exact .iri name (some_ name mem) (unmarked name mem)
  have count : countQuad.Kept := by
    refine Quad.kept_of_storable fun p => ?_
    cases p with
    | subject => exact iri "s" (by decide)
    | predicate => exact iri "p" (by decide)
    | object => exact .typed _ _ (by decide +kernel) (fun _ => by decide)
    | graph => exact .defaultGraph
  have name : nameQuad.Kept := by
    refine Quad.kept_of_storable fun p => ?_
    cases p with
    | subject => exact .blank "b"
    | predicate => exact iri "p" (by decide)
    | object => exact .tagged _ _ (by decide)
    | graph => exact iri "g" (by decide)
  have missing : (⟨.iri "s", .iri "p", .defaultGraph, .defaultGraph⟩ : Quad).Kept := by
    refine Quad.kept_of_storable fun p => ?_
    cases p with
    | subject => exact iri "s" (by decide)
    | predicate => exact iri "p" (by decide)
    | object => exact .defaultGraph
    | graph => exact .defaultGraph
  have none_ : ∀ q : Quad, q.Kept → Quint.Kept ⟨q, none⟩ := fun q hq => ⟨hq, by rintro _ ⟨⟩⟩
  have kept : ∀ w ∈ someWrites, w.Kept := by
    simp only [someWrites, List.forall_mem_cons]
    refine ⟨⟨count, ?_⟩, ?_, ⟨?_, ?_⟩, ?_, by simp⟩
    · rintro _ ⟨⟩
      decide +kernel
    · simp only [Write.Kept, List.forall_mem_cons]
      exact ⟨none_ _ name, none_ _ count, by simp⟩
    · intro p t mem
      dsimp only at mem
      split at mem
      · cases mem
        exact (Term.Storable.blank "b").kept p
      · cases mem
    · decide +kernel
    · simp only [Write.Kept, List.forall_mem_cons]
      exact ⟨missing, by simp⟩
  refine ⟨kept, ?_⟩
  obtain ⟨t, quints, run, get, distinct, mem_iff⟩ := get_after_writes false someWrites kept
  refine ⟨t, quints, run, get, distinct, ?_, ?_⟩
  · rw [mem_iff]
    decide +kernel
  · rw [mem_iff]
    decide +kernel

end Store

end QuadStore
