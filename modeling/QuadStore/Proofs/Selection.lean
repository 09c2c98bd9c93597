import QuadStore.Proofs.Sorted
import QuadStore.Proofs.Step

namespace QuadStore

open Sql Step

theorem Value.stored_term (t : Term) (p : Position) (c : Comparison) (h : c.isOrdering = false) :
    (Value.term t).stored p c = t.stored p := by
  unfold Value.stored
  dsimp only
  cases t.orderKey? with
  | none => rfl
  | some key => simp [h]

namespace Match

/-- Whether a match takes a stored text: its conditions hold, and its expression is found in it. -/
def admits (m : Match) (p : Position) (s : Text) : Bool :=
  (m.conditions p).all (·.holds s) &&
    m.regex?.all fun source => (Regex.read? source).any (·.search s)

end Match

namespace Pattern

def admits (p : Pattern) (r : Row) : Bool :=
  Position.keyOrder.all fun position => (p.get position).all (·.admits position (r.get position))

theorem admits_iff (p : Pattern) (r : Row) :
    p.admits r = true ↔ ∀ position m, p.get position = some m → m.admits position (r.get position) = true := by
  unfold admits
  rw [List.all_eq_true]
  constructor
  · intro h position m hm
    have hp := h position (by cases position <;> decide)
    simpa [hm] using hp
  · intro h position _
    cases hm : p.get position with
    | none => rfl
    | some m => exact h position m hm

theorem satisfies_clauses (p : Pattern) (r : Row) :
    Table.satisfies r p.clauses = Position.keyOrder.all fun position =>
      (p.get position).all fun m => (m.conditions position).all (·.holds (r.get position)) := by
  unfold Table.satisfies clauses
  rw [List.all_flatMap]
  congr 1
  funext position
  cases p.get position with
  | none => rfl
  | some m => simp [List.all_map, Function.comp_def]

theorem all_found (p : Pattern) (search : Position → Regex → Bool) (positions : List Position)
    (regexes : List (Position × Regex))
    (h : (positions.filterMap fun position =>
      (p.get position >>= Match.regex?).map fun source => (position, source)).mapM
        (fun (position, source) => (Regex.read? source).map fun r => (position, r)) = some regexes) :
    (regexes.all fun (position, r) => search position r) = positions.all fun position =>
      (p.get position).all fun m =>
        m.regex?.all fun source => (Regex.read? source).any (search position) := by
  induction positions generalizing regexes with
  | nil =>
    cases h
    rfl
  | cons position rest ih =>
    cases hm : p.get position with
    | none =>
      simp only [List.filterMap_cons, hm, Option.bind_eq_bind, Option.bind_none, Option.map_none] at h
      simp [hm, ih regexes h]
    | some m =>
      cases hs : m.regex? with
      | none =>
        simp only [List.filterMap_cons, hm, Option.bind_eq_bind, Option.bind_some, hs, Option.map_none] at h
        simp [hm, hs, ih regexes h]
      | some source =>
        simp only [List.filterMap_cons, hm, Option.bind_eq_bind, Option.bind_some, hs, Option.map_some,
          List.mapM_cons] at h
        cases hr : Regex.read? source with
        | none => simp [hr] at h
        | some r =>
          simp only [hr, Option.map_some, Option.bind_some] at h
          obtain ⟨more, hmore, heq⟩ := Option.bind_eq_some_iff.1 h
          cases heq
          simp [hm, hs, hr, ih more hmore]

/-- The conditions in SQL and the searches afterwards are the whole of what a pattern asks. -/
theorem satisfies_and_found (p : Pattern) (r : Row) (regexes : List (Position × Regex))
    (h : p.searches? = some regexes) :
    (Table.satisfies r p.clauses && regexes.all fun (position, e) => e.search (r.get position)) =
      p.admits r := by
  have found := all_found p (fun position e => e.search (r.get position)) Position.keyOrder regexes h
  rw [satisfies_clauses, found]
  rw [Bool.eq_iff_iff]
  simp only [Bool.and_eq_true, List.all_eq_true, admits, Match.admits]
  constructor
  · rintro ⟨hc, hf⟩ position mem
    have hc := hc position mem
    have hf := hf position mem
    cases hm : p.get position with
    | none => rfl
    | some m => simp_all
  · intro h
    refine ⟨?_, ?_⟩
    all_goals
      intro position mem
      have both := h position mem
      cases hm : p.get position with
      | none => rfl
      | some m => simp_all

theorem searches_nil_iff (p : Pattern) (regexes : List (Position × Regex))
    (h : p.searches? = some regexes) : regexes.isEmpty = !p.hasRegex := by
  unfold searches? at h
  unfold hasRegex
  cases hr : p.regexes with
  | nil =>
    rw [hr] at h
    cases h
    rfl
  | cons e rest =>
    rw [hr, List.mapM_cons] at h
    obtain ⟨r, _, h⟩ := Option.bind_eq_some_iff.1 h
    obtain ⟨more, _, h⟩ := Option.bind_eq_some_iff.1 h
    cases h
    rfl

theorem plain_of_searches {p : Pattern} (h : p.searches? = some []) : p.hasRegex = false := by
  simpa using p.searches_nil_iff [] h

theorem searches_plain (p : Pattern) (plain : p.hasRegex = false) : p.searches? = some [] := by
  have none : p.regexes = [] := by simpa [hasRegex] using plain
  rw [searches?, none]
  rfl

theorem satisfies_plain (p : Pattern) (plain : p.hasRegex = false) (r : Row) :
    Table.satisfies r p.clauses = p.admits r := by
  rw [← satisfies_and_found p r [] (p.searches_plain plain), List.all_nil, Bool.and_true]

end Pattern

namespace Quint

def ofRow (r : Row) : Quint where
  subject := .decode r.subject
  predicate := .decode r.predicate
  object := .decodeObject r.object
  graph := .decode r.graph
  vector := r.vector >>= Payload.read?

theorem ofRecord_record (r : Row) : ofRecord (Table.record columns r) = ofRow r := rfl

theorem get_ofRow (r : Row) (p : Position) : (ofRow r).get p = Term.ofStored (r.get p) p := by
  cases p <;> rfl

end Quint

namespace Store

theorem text_record (r : Row) (p : Position) :
    (Table.record Quint.columns r).text p.name = r.get p := by
  cases p <;> rfl

theorem text_key (r : Row) (p : Position) : (Table.record keyColumns r).text p.name = r.get p := by
  cases p <;> rfl

def firstWanted (options : Options) (count : Nat) : Nat := min (options.offset.getD 0) count

def lastWanted (options : Options) (count : Nat) : Nat :=
  match options.limit with
  | some n => min count ((firstWanted options count + n) % wordSize)
  | none => count

def cut {α : Type} (options : Options) (xs : List α) : Except StoreError (List α) :=
  let first := firstWanted options xs.length
  let last := lastWanted options xs.length
  if last < first then .error .sliceOverflow else .ok ((xs.drop first).take (last - first))

theorem slice_apply {σ : Type} (options : Options) (rows : List Record) (s : Store σ) :
    slice options rows s = (cut options rows, s) := by
  have h : slice (σ := σ) options rows =
      if lastWanted options rows.length < firstWanted options rows.length then throw .sliceOverflow
      else pure ((rows.drop (firstWanted options rows.length)).take
        (lastWanted options rows.length - firstWanted options rows.length)) := rfl
  rw [h]
  unfold cut
  dsimp only
  split <;> rfl

theorem cut_map {α β : Type} (options : Options) (f : α → β) (xs : List α) :
    cut options (xs.map f) = (cut options xs).map (List.map f) := by
  unfold cut
  rw [List.length_map]
  dsimp only
  split
  · rfl
  · simp [Except.map, List.map_drop, List.map_take]

def wanted {α : Type} (p : Pattern) (options : Options) (xs : List α) : Except StoreError (List α) :=
  if p.hasRegex then cut options xs else .ok (Table.slice options xs)

theorem mem_of_mem_wanted {α : Type} {p : Pattern} {options : Options} {xs ys : List α}
    (h : wanted p options xs = .ok ys) (a : α) (mem : a ∈ ys) : a ∈ xs := by
  unfold wanted at h
  split at h
  · unfold cut at h
    dsimp only at h
    split at h
    · cases h
    · cases h
      exact List.mem_of_mem_drop (List.mem_of_mem_take mem)
  · cases h
    exact Table.mem_of_mem_slice options xs a mem

theorem wanted_all {α : Type} (p : Pattern) (xs : List α) : wanted p {} xs = .ok xs := by
  have first : firstWanted {} xs.length = 0 := Nat.zero_min _
  have last : lastWanted {} xs.length = xs.length := rfl
  unfold wanted
  split
  · unfold cut
    dsimp only
    rw [first, last, if_neg (Nat.not_lt_zero _), List.drop_zero, Nat.sub_zero, List.take_length]
  · rw [Table.slice_all]

def taken (t : Table) (p : Pattern) (options : Options) : List Row :=
  Table.sorted options id (t.rows.filter p.admits)

theorem mem_taken {t : Table} {p : Pattern} {options : Options} {r : Row} :
    r ∈ taken t p options ↔ r ∈ t.rows ∧ p.admits r = true := by
  unfold taken
  rw [Table.mem_sorted, List.mem_filter]

theorem filter_selected (t : Table) (p : Pattern) (options : Options)
    (regexes : List (Position × Regex)) (h : p.searches? = some regexes) :
    (Table.sorted options id (t.selected p.clauses)).filter
      (fun r => regexes.all fun (position, e) => e.search (r.get position)) = taken t p options := by
  unfold taken Table.selected
  rw [Table.sorted_filter, List.filter_filter]
  congr 2
  funext r
  rw [Bool.and_comm, Pattern.satisfies_and_found p r regexes h]

theorem query_apply (q : Query) (t : Table) :
    (call (Backend.query q) : Action Table (List Record)) ⟨true, t⟩ = (.ok (t.answer q), ⟨true, t⟩) := rfl

theorem filter_records {columns : List Column}
    (shown : ∀ r p, (Table.record columns r).text (Position.name p) = r.get p)
    (regexes : List (Position × Regex)) (rows : List Row) :
    (rows.map (Table.record columns)).filter (found regexes) =
      (rows.filter fun r => regexes.all fun (position, e) => e.search (r.get position)).map
        (Table.record columns) := by
  rw [List.filter_map]
  congr 2
  funext r
  simp only [Function.comp_apply, found, shown]

def fetched (t : Table) (p : Pattern) (options : Options) : Except StoreError (List Row) :=
  if p.searches?.isSome then wanted p options (taken t p options) else .error .malformedRegex

theorem fetched_all {t : Table} {p : Pattern} {regexes : List (Position × Regex)}
    (h : p.searches? = some regexes) : fetched t p {} = .ok (t.rows.filter p.admits) := by
  rw [fetched, h, Option.isSome_some, if_pos rfl, wanted_all, taken, Table.sorted_unordered _ _ _ rfl]

theorem selected_plain {t : Table} {p : Pattern} (plain : p.hasRegex = false) :
    t.selected p.clauses = t.rows.filter p.admits :=
  List.filter_congr fun r _ => p.satisfies_plain plain r

/-- A lookup answers the statements of the rows that it takes, and leaves the store as it is. -/
theorem get_open (p : Pattern) (options : Options) (t : Table) :
    Store.get p options ⟨true, t⟩ = ((fetched t p options).map (List.map Quint.ofRow), ⟨true, t⟩) := by
  unfold Store.get
  rw [bind_apply, requireOpen_apply]
  simp only [if_true]
  rw [bind_apply, searches_apply]
  unfold fetched
  cases h : p.searches? with
  | none => rfl
  | some regexes =>
    have nil := Pattern.searches_nil_iff p regexes h
    have rows := filter_selected t p options regexes h
    rw [Option.isSome_some, if_pos rfl]
    dsimp only
    by_cases hr : p.hasRegex
    · have whole : ∀ xs : List Row,
          Table.slice { options with limit := none, offset := none } xs = xs := by
        intro xs
        simp [Table.slice, sqlInteger]
      have order : ∀ xs : List Row,
          Table.sorted { options with limit := none, offset := none } id xs =
            Table.sorted options id xs := fun _ => rfl
      rw [if_neg (by simp [nil, hr]), bind_apply, query_apply]
      simp only [Table.answer, whole, order, bind_apply, slice_apply, filter_records text_record, rows, cut_map]
      rw [wanted, if_pos hr]
      cases cut options (taken t p options) with
      | error e => rfl
      | ok part => simp [Except.map, pure_apply, Function.comp_def, Quint.ofRecord_record]
    · have none : regexes = [] := by simpa [hr] using nil
      have all : Table.sorted options id (t.selected p.clauses) = taken t p options := by
        rw [← rows, none]
        exact (List.filter_eq_self.2 fun _ _ => rfl).symm
      rw [if_pos (by simp [none]), bind_apply, query_apply]
      simp only [Table.answer, all, pure_apply]
      rw [wanted, if_neg hr]
      simp [Except.map, Function.comp_def, Quint.ofRecord_record]

end Store

end QuadStore
