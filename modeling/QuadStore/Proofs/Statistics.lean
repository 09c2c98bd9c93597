import QuadStore.Proofs.FailedAccess
import QuadStore.Proofs.FirstOfEach
import QuadStore.Proofs.PatternScope
import QuadStore.Proofs.StoreMap

namespace QuadStore

open Sql Step

namespace Access

variable {qs : List Quint}

def added (qs : List Quint) (q : Quint) : List Quint := qs.filter (fun r => !r.toRow.sameKey q.toRow) ++ [q]

def marked (p : Pattern) (v : Vector) (qs : List Quint) : List Quint :=
  qs.map fun q => if p.admits q.toRow then { q with vector := some v } else q

/-- What a use of the store makes of the statements in it. A pattern that cannot be searched for is refused. -/
def effect (qs : List Quint) : Access → List Quint
  | put q => added qs q
  | putAll more => more.foldl added qs
  | setVector p v => if p.searches?.isSome then marked p v qs else qs
  | delete p => if p.searches?.isSome then qs.filter fun q => !p.admits q.toRow else qs
  | deleteAll gone => qs.filter fun q => !q.toRow.keyAmong (gone.map Quint.toRow)
  | clear => []
  | get .. | count _ | getCompound .. | getAttributes .. | stats => qs

def statements (history : List Access) : List Quint := history.foldl effect []

end Access

namespace Sql.Table

variable (lasting : Bool) (qs : List Quint) (chosen : Row → Bool)

theorem guards_holding : (holding lasting qs).guards chosen = false := by
  rw [guards, List.any_eq_false]
  intro r _
  simp [holding]

theorem without_holding : (holding lasting qs).without chosen =
    holding lasting (qs.filter fun q => !chosen q.toRow) := by
  unfold without holding
  dsimp only
  rw [List.filter_map]
  rfl

theorem marked_holding (p : Pattern) (v : Vector) : (holding lasting qs).marked (Payload.write v) p.admits =
    holding lasting (Access.marked p v qs) := by
  unfold marked holding Access.marked
  dsimp only
  rw [List.map_map, List.map_map]
  congr 1
  apply List.map_congr_left
  intro q _
  rw [Function.comp_apply, Function.comp_apply]
  split <;> rfl

theorem applyAll_upsert (more : List Quint) :
    (holding lasting qs).applyAll (more.map fun q => .upsert q.toRow) =
      .ok (holding lasting (more.foldl Access.added qs)) := by
  induction more generalizing qs with
  | nil => rfl
  | cons q more ih =>
    rw [List.map_cons, applyAll_cons (apply_upsert_row lasting qs q), ih]
    rfl

end Sql.Table

namespace Store

variable {lasting : Bool} {qs : List Quint}

theorem map_after {α β : Type} (f : α → β) (x : Action Table α) (s : Store Table) :
    ((f <$> x) s).2 = (x s).2 := by
  rw [map_apply]

theorem Reading.unchanged {α : Type} {x : Action (Connection Table) α} {y : Action Table α} (h : Reading x y)
    (s : Store Table) : (y s).2 = s := by
  obtain ⟨o, comes, same⟩ := h s.isOpen s.backend []
  have run := comes.plain rfl
  rw [same] at run
  exact congrArg Prod.snd run

abbrev stocked (lasting : Bool) (qs : List Quint) : Store Table := ⟨true, Table.holding lasting qs⟩

theorem put_stocked (q : Quint) : (put q (stocked lasting qs)).2 = stocked lasting (Access.added qs q) := by
  unfold put
  rw [Write.open_apply]
  refine (map_after ..).trans ?_
  rw [execute_eq, Table.apply_upsert_row]
  rfl

theorem putAll_stocked (more : List Quint) :
    (putAll more (stocked lasting qs)).2 = stocked lasting (more.foldl Access.added qs) := by
  unfold putAll
  rw [Write.open_apply, transact_eq, Table.applyAll_upsert]

theorem writeAll_refused {p : Pattern} (refused : p.searches? = none) (command : List Clause → Command)
    (t : Table) : (writeAll p command ⟨true, t⟩).2 = ⟨true, t⟩ := by
  unfold writeAll
  rw [Write.open_apply, bind_apply, searches_apply, refused]

theorem setVector_stocked (p : Pattern) (v : Vector) : (setVector p v (stocked lasting qs)).2 =
    stocked lasting (if p.searches?.isSome then Access.marked p v qs else qs) := by
  cases h : p.searches? with
  | none => exact writeAll_refused h _ _
  | some regexes =>
    rw [setVector_open p _ v h, Table.marked_holding]
    rfl

theorem delete_stocked (p : Pattern) : (delete p (stocked lasting qs)).2 =
    stocked lasting (if p.searches?.isSome then qs.filter fun q => !p.admits q.toRow else qs) := by
  cases h : p.searches? with
  | none => exact writeAll_refused h _ _
  | some regexes =>
    rw [delete_open p _ h, Table.guards_holding, if_neg Bool.false_ne_true, Table.without_holding]
    rfl

theorem deleteAll_stocked (gone : List Quint) : (deleteAll gone (stocked lasting qs)).2 =
    stocked lasting (qs.filter fun q => !q.toRow.keyAmong (gone.map Quint.toRow)) := by
  have commands : (gone.map fun q => Command.delete (Row.keyClauses q.toRow.get)) =
      (gone.map Quint.toRow).map fun k => Command.delete (Row.keyClauses k.get) := by
    rw [List.map_map]
    rfl
  unfold deleteAll
  rw [Write.open_apply, transact_eq, commands, Table.applyAll_delete, Table.guards_holding, if_neg Bool.false_ne_true,
    Table.without_holding]

theorem clear_stocked : (clear (stocked lasting qs)).2 = stocked lasting [] := by
  have all : Table.without (Table.holding lasting qs) (Table.satisfies · []) = Table.holding lasting [] := by
    rw [Table.without_holding]
    congr 1
    exact List.filter_eq_nil_iff.2 fun _ _ => by simp [Table.satisfies]
  unfold clear
  rw [Write.open_apply]
  refine (map_after ..).trans ?_
  rw [execute_eq, Table.apply_delete_eq, Table.guards_holding, if_neg Bool.false_ne_true, all]

end Store

namespace Access

open Store

variable {lasting : Bool}

/-- A use of the store leaves the rows of the statements that it is to leave. -/
theorem run_stocked (a : Access) (qs : List Quint) :
    (a.run (stocked lasting qs)).2 = stocked lasting (effect qs a) := by
  cases a with
  | get p options => exact (map_after ..).trans ((get_reading p options).unchanged _)
  | count p => exact (map_after ..).trans ((count_reading p).unchanged _)
  | put q => exact (map_after ..).trans (put_stocked q)
  | putAll more => exact (map_after ..).trans (putAll_stocked more)
  | setVector p v => exact (map_after ..).trans (setVector_stocked p v)
  | delete p => exact (map_after ..).trans (delete_stocked p)
  | deleteAll gone => exact (map_after ..).trans (deleteAll_stocked gone)
  | getCompound c options => exact (map_after ..).trans ((getCompound_reading c options).unchanged _)
  | getAttributes subjects predicates graph =>
    exact (map_after ..).trans ((getAttributes_reading subjects predicates graph).unchanged _)
  | stats => exact (map_after ..).trans (stats_reading.unchanged _)
  | clear => exact (map_after ..).trans clear_stocked

theorem runAll_stocked (history : List Access) (qs : List Quint) :
    (runAll history (stocked lasting qs)).2 = stocked lasting (history.foldl effect qs) := by
  induction history generalizing qs with
  | nil => rfl
  | cons a history ih =>
    show (runAll history (a.run (stocked lasting qs)).2).2 = _
    rw [run_stocked, ih]
    rfl

end Access

namespace Statistics

variable {α β : Type}

theorem length_filter_eq_iff {p q : α → Bool} (narrower : ∀ x, q x = true → p x = true) (xs : List α) :
    (xs.filter p).length = (xs.filter q).length ↔ ∀ x ∈ xs, p x = true → q x = true := by
  constructor
  · intro lengths x mem wide
    have same := (List.monotone_filter_right xs narrower).eq_of_length lengths.symm
    have kept := List.mem_filter.2 ⟨mem, wide⟩
    rw [← same] at kept
    exact (List.mem_filter.1 kept).2
  · intro wider
    congr 1
    exact List.filter_congr fun x mem => Bool.eq_iff_iff.2 ⟨wider x mem, narrower x⟩

theorem card_map_eq_iff [DecidableEq α] [DecidableEq β] (f : α → β) (xs : List α) :
    xs.toFinset.card = (xs.map f).toFinset.card ↔ ∀ a ∈ xs, ∀ b ∈ xs, f a = f b → a = b := by
  have image : (xs.map f).toFinset = xs.toFinset.image f := by
    ext y
    simp
  rw [image, eq_comm, Finset.card_image_iff]
  constructor
  · intro apart a memA b memB same
    exact apart (by simpa using memA) (by simpa using memB) same
  · intro apart a memA b memB same
    exact apart a (by simpa using memA) b (by simpa using memB) same

end Statistics

namespace Quint

variable {q : Quint}

/-- The vector of a statement comes back from its row if all its numbers are finite. -/
theorem carries_toRow : (ofRow q.toRow).vector.isSome = true ↔
    q.vector.isSome = true ∧ ∀ v ∈ q.vector, ∀ x ∈ v, x.isFinite = true := by
  show (q.vector.map Payload.write >>= Payload.read?).isSome = true ↔ _
  cases q.vector with
  | none => simp
  | some v =>
    have reads := Payload.read?_write_isSome (v := v)
    simpa using reads

theorem vectors_agree_iff (qs : List Quint) :
    ((qs.map toRow).filter (·.vector.isSome)).length =
      (((qs.map toRow).map ofRow).filter (·.vector.isSome)).length ↔
        ∀ q ∈ qs, ∀ v ∈ q.vector, ∀ x ∈ v, x.isFinite = true := by
  have written : ((qs.map toRow).filter (·.vector.isSome)).length = (qs.filter (·.vector.isSome)).length := by
    rw [List.filter_map, List.length_map]
    congr 1
    exact List.filter_congr fun q _ => Option.isSome_map
  have read : (((qs.map toRow).map ofRow).filter (·.vector.isSome)).length =
      (qs.filter fun q => (ofRow q.toRow).vector.isSome).length := by
    rw [List.map_map, List.filter_map, List.length_map]
    rfl
  rw [written, read, Statistics.length_filter_eq_iff fun q carries => (carries_toRow.1 carries).1]
  constructor
  · intro carried q mem v vector
    have some_ : q.vector.isSome = true := Option.isSome_of_mem vector
    exact (carries_toRow.1 (carried q mem some_)).2 v vector
  · intro finite q mem some_
    exact carries_toRow.2 ⟨some_, finite q mem⟩

theorem graphs_agree_iff (qs : List Quint) :
    ((qs.map toRow).map (·.graph)).toFinset.card = (((qs.map toRow).map ofRow).map (·.graph)).toFinset.card ↔
      ∀ a ∈ qs, ∀ b ∈ qs, Term.decode a.graph.encode = Term.decode b.graph.encode →
        a.graph.encode = b.graph.encode := by
  have read : ((qs.map toRow).map ofRow).map (·.graph) = ((qs.map toRow).map (·.graph)).map Term.decode := by
    simp only [List.map_map]
    rfl
  rw [read, Statistics.card_map_eq_iff]
  simp only [List.map_map, List.forall_mem_map]
  rfl

end Quint

namespace Store

theorem stats_apply (t : Table) : stats ⟨true, t⟩ =
    (.ok ⟨t.rows.length, (t.rows.filter (·.vector.isSome)).length, (t.rows.map (·.graph)).toFinset.card⟩,
      ⟨true, t⟩) := by
  have total : t.answer (.count []) = Table.counted t.rows.length := by
    have all : t.selected [] = t.rows := List.filter_eq_self.2 fun _ _ => rfl
    rw [Table.answer, all]
  have vectors : t.answer .countVectors = Table.counted (t.rows.filter (·.vector.isSome)).length := rfl
  have graphs : t.answer .countGraphs = Table.counted (t.rows.map (·.graph)).toFinset.card := by
    rw [Table.answer, FirstOfEach.length_eraseDups]
  unfold stats
  rw [Write.open_apply, bind_apply, counted_apply total]
  dsimp only
  rw [bind_apply, counted_apply vectors]
  dsimp only
  rw [bind_apply, counted_apply graphs]
  rfl

end Store

namespace Access

open Store Statistics

/-- Whatever uses of an empty store came before, the total is the number of statements that a lookup of everything
answers. The number of vectors is that of the statements with a vector if and only if the vectors that were left
hold nothing but finite numbers. The number of graphs is that of their graphs if and only if no two graphs that are
stored differently are read as one; graphs that are given back as they were are told apart. -/
theorem stats_agree_iff (lasting : Bool) (history : List Access) :
    ∃ (s : Store Table) (quints : List Quint) (st : Stats), (runAll history ⟨true, .empty lasting⟩).2 = s ∧
    s.backend.rows = (statements history).map Quint.toRow ∧
    Store.get {} {} s = (.ok quints, s) ∧ Store.stats s = (.ok st, s) ∧ st.total = quints.length ∧
    (st.vectors = (quints.filter (·.vector.isSome)).length ↔
      ∀ q ∈ statements history, ∀ v ∈ q.vector, ∀ x ∈ v, x.isFinite = true) ∧
    (st.graphs = (quints.map (·.graph)).toFinset.card ↔
      ∀ a ∈ statements history, ∀ b ∈ statements history,
        Term.decode a.graph.encode = Term.decode b.graph.encode → a.graph.encode = b.graph.encode) ∧
    ((∀ q ∈ statements history, q.graph.Kept .graph) → st.graphs = (quints.map (·.graph)).toFinset.card) := by
  have graphs := Quint.graphs_agree_iff (statements history)
  have reached : (runAll history ⟨true, .empty lasting⟩).2 = stocked lasting (statements history) :=
    runAll_stocked history []
  refine ⟨_, _, _, reached, rfl, get_everything _, stats_apply _, ?_, ?_, ?_, ?_⟩
  · exact congrArg Nat.cast (List.length_map ..).symm
  · exact Int.natCast_inj.trans (Quint.vectors_agree_iff (statements history))
  · exact Int.natCast_inj.trans graphs
  · intro kept
    refine congrArg Nat.cast (graphs.2 fun a memA b memB same => ?_)
    have back : a.graph = b.graph := (kept a memA).symm.trans (same.trans (kept b memB))
    rw [back]

/-- A statement in the default graph, with a vector that is no vector of numbers. -/
def unreadable : Quint where
  toQuad := ⟨.iri "http://ex/s", .iri "http://ex/p", .iri "http://ex/o", .defaultGraph⟩
  vector := some [.nan]

theorem stats_count_unreadable :
    let s : Store Table := (runAll [.put unreadable] ⟨true, Table.empty true⟩).2
    Store.get {} {} s = (.ok [{ unreadable with vector := none }], s) ∧ Store.stats s = (.ok ⟨1, 1, 1⟩, s) := by
  have reached : (runAll [.put unreadable] ⟨true, Table.empty true⟩).2 = stocked true [unreadable] :=
    runAll_stocked [.put unreadable] []
  have read : Quint.ofRow unreadable.toRow = { unreadable with vector := none } := by decide +kernel
  dsimp only
  rw [reached, get_everything, stats_apply]
  exact ⟨congrArg (fun q => (Except.ok [q], stocked true [unreadable])) read, rfl⟩

end Access

end QuadStore
