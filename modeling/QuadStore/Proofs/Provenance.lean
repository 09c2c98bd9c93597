import QuadStore.Proofs.FirstOfEach
import QuadStore.Proofs.Narrowing
import QuadStore.Proofs.PlanAnswers

namespace QuadStore

open Sql Step

theorem findSome?_ite {α β : Type} (P : α → Prop) [DecidablePred P] (value : α → β) (xs : List α) :
    (xs.findSome? fun x => if P x then some (value x) else none) = (xs.find? fun x => P x).map value := by
  induction xs with
  | nil => rfl
  | cons x xs ih =>
    rw [List.findSome?_cons, List.find?_cons]
    by_cases h : P x
    · simp [h]
    · simp [h, ih]

theorem findSome?_of_mem {α β : Type} {key : α → Text} (value : α → Option β) {xs : List α}
    (nodup : (xs.map key).Nodup) {x : α} (mem : x ∈ xs) :
    (xs.findSome? fun y => if key y = key x then value y else none) = value x := by
  induction xs with
  | nil => cases mem
  | cons y xs ih =>
    rw [List.map_cons] at nodup
    obtain ⟨fresh, nodup⟩ := List.nodup_cons.1 nodup
    rw [List.findSome?_cons]
    rcases List.mem_cons.1 mem with rfl | mem
    · have other : (xs.findSome? fun y => if key y = key x then value y else none) = none := by
        rw [List.findSome?_eq_none_iff]
        intro y mem
        exact if_neg fun same => fresh (List.mem_map.2 ⟨y, mem, same⟩)
      rw [if_pos rfl, other]
      cases value x <;> rfl
    · have apart : key y ≠ key x := fun same => fresh (List.mem_map.2 ⟨x, mem, same.symm⟩)
      rw [if_neg apart]
      exact ih nodup mem

namespace Binding

def Values (P : Term → Prop) (b : Binding) : Prop := ∀ name t, b.get? name = some t → P t

variable {P : Term → Prop}

theorem values_nil : Values P [] := by
  intro name t h
  cases h

theorem Values.set {b : Binding} (h : b.Values P) (name : Text) {t : Term} (ht : P t) :
    (b.set name t).Values P := by
  intro other u hu
  rw [get?_set] at hu
  split at hu
  · cases hu
    exact ht
  · exact h other u hu

theorem Values.foldl {α : Type} {f : Binding → α → Binding} {xs : List α}
    (step : ∀ b x, x ∈ xs → b.Values P → (f b x).Values P) {b : Binding} (h : b.Values P) :
    (xs.foldl f b).Values P := by
  induction xs generalizing b with
  | nil => exact h
  | cons x xs ih =>
    rw [List.foldl_cons]
    exact ih (fun b y mem => step b y (List.mem_cons_of_mem x mem)) (step b x List.mem_cons_self h)

theorem Values.restrict {b : Binding} (h : b.Values P) (names : List Text) : (b.restrict names).Values P := by
  refine Values.foldl (fun r name _ hr => ?_) values_nil
  cases hb : b.get? name with
  | none => exact hr
  | some t => exact hr.set name (h name t hb)

theorem get?_foldl_set {α : Type} {f : Binding → α → Binding} {xs : List α} (name : Text)
    (step : ∀ b x, x ∈ xs → (f b x).get? name = b.get? name) (b : Binding) :
    (xs.foldl f b).get? name = b.get? name := by
  induction xs generalizing b with
  | nil => rfl
  | cons x xs ih =>
    rw [List.foldl_cons, ih fun b y mem => step b y (List.mem_cons_of_mem x mem)]
    exact step b x List.mem_cons_self

theorem get?_foldl_copy {α : Type} (value : Text → Option Term) (key : α → Text) (xs : List α) (b : Binding)
    (name : Text) :
    (xs.foldl (fun b x => match value (key x) with
      | some t => b.set (key x) t
      | none => b) b).get? name =
    if name ∈ xs.map key then (value name).or (b.get? name) else b.get? name := by
  induction xs generalizing b with
  | nil => simp
  | cons x xs ih =>
    rw [List.foldl_cons, ih]
    simp only [List.map_cons, List.mem_cons]
    by_cases same : name = key x
    · subst same
      cases hv : value (key x) with
      | none => simp
      | some t => simp [get?_set]
    · cases hv : value (key x) with
      | none => simp [same]
      | some t => simp [same, get?_set]

theorem get?_foldl_once {α : Type} {f : Binding → α → Binding} (value : α → Text → Option Term)
    (step : ∀ b x name, (f b x).get? name = (value x name).or (b.get? name)) {xs : List α}
    (once : xs.Pairwise fun x y => ∀ name, value x name = none ∨ value y name = none) (b : Binding)
    (name : Text) :
    (xs.foldl f b).get? name = (xs.findSome? fun x => value x name).or (b.get? name) := by
  induction xs generalizing b with
  | nil => rfl
  | cons x xs ih =>
    obtain ⟨apart, once⟩ := List.pairwise_cons.1 once
    rw [List.foldl_cons, ih once, List.findSome?_cons, step]
    cases hx : value x name with
    | none => rfl
    | some t =>
      have other : (xs.findSome? fun x => value x name) = none := by
        rw [List.findSome?_eq_none_iff]
        intro y mem
        have either := apart y mem name
        rw [hx] at either
        exact either.resolve_left (Option.some_ne_none t)
      rw [other]
      rfl

theorem exists_of_foldl_set {α : Type} {key : α → Text} {value : α → Term} {xs : List α} {name : Text} {v : Term}
    {b : Binding} (h : (xs.foldl (fun b x => b.set (key x) (value x)) b).get? name = some v) :
    (∃ x ∈ xs, key x = name ∧ value x = v) ∨ b.get? name = some v := by
  induction xs generalizing b with
  | nil => exact .inr h
  | cons x xs ih =>
    rw [List.foldl_cons] at h
    rcases ih h with ⟨y, mem, found⟩ | found
    · exact .inl ⟨y, List.mem_cons_of_mem x mem, found⟩
    · rw [get?_set] at found
      split at found
      · rename_i own
        cases found
        exact .inl ⟨x, List.mem_cons_self, own.symm, rfl⟩
      · exact .inr found

theorem get?_restrict (b : Binding) (names : List Text) (name : Text) :
    (b.restrict names).get? name = if name ∈ names then b.get? name else none := by
  have copied := get?_foldl_copy b.get? id names [] name
  rw [List.map_id] at copied
  change (b.restrict names).get? name = _ at copied
  rw [copied]
  simp [get?]

end Binding

namespace Solutions

theorem mem_of_mem_window {m : Modifiers} {key : Binding → Text} {rows : List Binding} {b : Binding}
    (h : b ∈ window m key rows) : b ∈ rows := by
  have distinct : ∀ b ∈ (if m.isDistinct then distinctBy key rows else rows), b ∈ rows := by
    intro b mem
    split at mem
    · exact (FirstOfEach.sublist_eraseDupsBy _ rows).mem mem
    · exact mem
  unfold window at h
  apply distinct
  cases hl : m.limit with
  | none =>
    rw [hl] at h
    exact List.mem_of_mem_drop h
  | some n =>
    rw [hl] at h
    exact List.mem_of_mem_drop (List.mem_of_mem_take h)

end Solutions

theorem MultiPlan.restricted_of_finish {m : Modifiers} {found : Solutions} {b : Binding}
    (h : b ∈ (finish m found).rows) : ∃ c ∈ found.rows, b = c.restrict (finish m found).names := by
  unfold finish at h
  obtain ⟨c, mem, rfl⟩ := List.mem_map.1 (Solutions.mem_of_mem_window h)
  refine ⟨c, ?_, rfl⟩
  cases ho : m.order with
  | none =>
    rw [ho] at mem
    exact mem
  | some name =>
    rw [ho] at mem
    exact List.mem_mergeSort.1 mem

theorem MultiPlan.mem_finish {m : Modifiers} {found : Solutions} {b : Binding}
    (h : b ∈ (finish m found).rows) : ∃ c ∈ found.rows, ∃ names, b = c.restrict names := by
  obtain ⟨c, mem, same⟩ := restricted_of_finish h
  exact ⟨c, mem, _, same⟩

def FromRows (rows : List Row) (t : Term) : Prop :=
  ∃ r ∈ rows, ∃ position, t = Term.ofStored (r.get position) position

theorem fromRows_get {rows : List Row} {r : Row} (mem : r ∈ rows) (position : Position) :
    FromRows rows ((Quint.ofRow r).get position) :=
  ⟨r, mem, position, Quint.get_ofRow r position⟩

theorem Store.mem_fetched {t : Table} {p : Pattern} {options : Options} {rows : List Row} {r : Row}
    (h : fetched t p options = .ok rows) (mem : r ∈ rows) : r ∈ t.rows ∧ p.admits r = true := by
  unfold fetched at h
  split at h
  · exact mem_taken.1 (mem_of_mem_wanted h r mem)
  · cases h

theorem Pattern.joinClauses_plain (p : Pattern) (plain : p.hasRegex = false) :
    p.joinClauses? = some p.clauses := by
  simp [joinClauses?, plain]

theorem Pattern.satisfies_join {p : Pattern} {clauses : List Clause} (h : p.joinClauses? = some clauses)
    (r : Row) : Table.satisfies r clauses = p.admits r := by
  unfold joinClauses? at h
  split at h
  · cases h
  · rename_i plain
    cases h
    exact p.satisfies_plain (by simpa using plain) r

namespace Store

theorem mapM_some_map {α β : Type} {f : α → Option β} {g : α → β} {xs : List α}
    (h : ∀ x ∈ xs, f x = some (g x)) : xs.mapM f = some (xs.map g) := by
  induction xs with
  | nil => rfl
  | cons x xs ih =>
    rw [List.mapM_cons, h x List.mem_cons_self, ih fun y mem => h y (List.mem_cons_of_mem x mem)]
    rfl

section

variable {t : Table} {c : Compound} (plain : ∀ p ∈ c.patterns, p.hasRegex = false)
  (inside : ∀ s ∈ c.select, s.pattern < c.patterns.length)

include inside in
theorem select_inside : (c.select.find? fun s => c.patterns.length ≤ s.pattern) = none := by
  rw [List.find?_eq_none]
  intro s mem
  simpa using inside s mem

include plain inside

theorem combined_one {p : Pattern} (one : c.patterns = [p]) :
    combined t c {} = .ok ((t.rows.filter p.admits).map fun r => ofSingle c (.ofRow r)) := by
  unfold combined
  rw [select_inside inside, one]
  dsimp only
  rw [fetched_all (p.searches_plain (plain p (by simp [one])))]
  rfl

/-- Several patterns without regular expressions answer the joined rows. -/
theorem combined_several (more : 2 ≤ c.patterns.length) :
    combined t c {} = .ok ((t.joined c.on (c.patterns.map Pattern.clauses)).map fun j =>
      ofJoined c.on (projections c)
        (j.record ⟨c.on, (projections c).map (·.2), c.patterns.map Pattern.clauses⟩)) := by
  have compiled : c.patterns.mapM Pattern.joinClauses? = some (c.patterns.map Pattern.clauses) :=
    mapM_some_map fun p mem => p.joinClauses_plain (plain p mem)
  unfold combined
  rw [select_inside inside]
  dsimp only
  split
  · rename_i none_
    rw [none_] at more
    cases more
  · rename_i p one
    rw [one] at more
    exact absurd more (by simp)
  · rw [compiled]
    dsimp only
    rw [Table.slice_all, Table.sorted_unordered _ _ _ rfl]

end

theorem taken_of_selected {t : Table} {patterns : List Pattern} {clauses : List (List Clause)}
    {found : List Row} (h : patterns.mapM Pattern.joinClauses? = some clauses)
    (rows : List.Forall₂ (fun clauses r => r ∈ t.selected clauses) clauses found) :
    List.Forall₂ (fun p r => r ∈ t.rows ∧ Pattern.admits p r = true) patterns found := by
  induction patterns generalizing clauses found with
  | nil =>
    cases h
    cases rows
    exact .nil
  | cons p patterns ih =>
    rw [List.mapM_cons] at h
    obtain ⟨first, hp, h⟩ := Option.bind_eq_some_iff.1 h
    obtain ⟨rest, hr, h⟩ := Option.bind_eq_some_iff.1 h
    cases h
    cases rows with
    | cons selected rows =>
      obtain ⟨stored, satisfied⟩ := List.mem_filter.1 selected
      rw [Pattern.satisfies_join hp] at satisfied
      exact .cons ⟨stored, satisfied⟩ (ih hr rows)

/-- A value that a joined result binds stands in one of its rows, where its selection says. -/
theorem joined_values {c : Compound} (some_ : c.select.isEmpty = false)
    (inside : ∀ s ∈ c.select, s.pattern < c.patterns.length) (clauses : List (List Clause))
    (j : Table.Joined) (count : (j.first :: j.more).length = c.patterns.length) {name : Text} {v : Term}
    (h : (ofJoined c.on (projections c)
      (j.record ⟨c.on, (projections c).map (·.2), clauses⟩)).bindings.get? name = some v) :
    ∃ s ∈ c.select, s.name = name ∧ ∃ r ∈ j.first :: j.more, v = Term.ofStored (r.get s.position) s.position := by
  have columns : c.columns = c.select := if_neg (by simp [some_])
  rw [bindings_joined, columns] at h
  rcases Binding.exists_of_foldl_set h with ⟨s, mem, own, rfl⟩ | none_
  · have lt : s.pattern < (j.first :: j.more).length := by
      rw [count]
      exact inside s mem
    have row : j.text s.pattern s.position = ((j.first :: j.more)[s.pattern]).get s.position := by
      rw [Table.Joined.text, Table.Joined.row?, List.getElem?_eq_getElem lt]
      rfl
    exact ⟨s, mem, own, _, List.getElem_mem lt, by rw [← row]⟩
  · cases none_

end Store

namespace GroupPlan

/-- Rows of one graph that a result of a group stands for: one for each part, and its values are theirs. -/
structure Rows (p : GroupPlan) (security : Option Pattern) (t : Table) (rows : List Row)
    (found : CompoundResult) : Prop where
  parts : List.Forall₂ (fun part r => r ∈ t.rows ∧ (Part.lookup part security).admits r = true) p.parts rows
  value : ∃ first, rows.head? = some first ∧ found.value = .decode first.subject
  bindings : p.selections.isEmpty = false → ∀ name v, found.bindings.get? name = some v →
    ∃ s ∈ p.selections, s.name = name ∧ ∃ r ∈ rows, v = Term.ofStored (r.get s.position) s.position
  graphs : ∀ r ∈ rows, ∀ r' ∈ rows, r.graph = r'.graph

theorem rows_of_single {p : GroupPlan} {security : Option Pattern} {t : Table} {part : Part}
    (parts : p.parts = [part]) {r : Row} (stored : r ∈ t.rows)
    (taken : (Part.lookup part security).admits r = true) :
    p.Rows security t [r] (Store.ofSingle (p.compound security) (Quint.ofRow r)) := by
  refine ⟨?_, ⟨r, rfl, rfl⟩, ?_, ?_⟩
  · rw [parts]
    exact .cons ⟨stored, taken⟩ .nil
  · intro some_ name v hv
    have given : (p.compound security).select.isEmpty = false := some_
    rw [Store.ofSingle, given] at hv
    rcases Binding.exists_of_foldl_set hv with ⟨s, mem, own, rfl⟩ | none_
    · exact ⟨s, mem, own, r, List.mem_cons_self, Quint.get_ofRow r s.position⟩
    · cases none_
  · intro r hr r' hr'
    rw [List.mem_singleton.1 hr, List.mem_singleton.1 hr']

theorem rows_of_joined {p : GroupPlan} {security : Option Pattern} {t : Table}
    (inside : ∀ s ∈ p.selections, s.pattern < p.parts.length) {clauses : List (List Clause)}
    (compiled : (p.compound security).patterns.mapM Pattern.joinClauses? = some clauses)
    {j : Table.Joined} (joined : j ∈ t.joined (p.compound security).on clauses) :
    p.Rows security t (j.first :: j.more)
      (Store.ofJoined (p.compound security).on (Store.projections (p.compound security))
        (j.record ⟨(p.compound security).on, (Store.projections (p.compound security)).map (·.2),
          clauses⟩)) := by
  have whole := Table.mem_joined joined
  have taken := Store.taken_of_selected compiled whole.rows
  have patterns : (p.compound security).patterns = p.parts.map (Part.lookup · security) := rfl
  have count := taken.length_eq
  rw [patterns, List.length_map] at count
  refine ⟨?_, ⟨j.first, rfl, rfl⟩, ?_, ?_⟩
  · rw [patterns, List.forall₂_map_left_iff] at taken
    exact taken
  · intro some_ name v hv
    have bound : ∀ s ∈ (p.compound security).select, s.pattern < (p.compound security).patterns.length := by
      rw [patterns, List.length_map]
      exact inside
    exact Store.joined_values some_ bound clauses j (by rw [patterns, List.length_map, count]) hv
  · have first : ∀ r ∈ j.first :: j.more, j.first.graph = r.graph := by
      intro r mem
      rcases List.mem_cons.1 mem with rfl | mem
      · rfl
      · have agrees := whole.agree r mem
        simp only [Table.Joined.agrees, compound, joinedOn, Bool.and_eq_true, Bool.or_eq_true,
          decide_eq_true_eq] at agrees
        exact agrees.2.resolve_left nofun
    intro r hr r' hr'
    rw [← first r hr, first r' hr']

theorem rows_of_combined (p : GroupPlan) {security : Option Pattern} {t : Table} {options : Options}
    {results : List CompoundResult}
    (h : Store.combined t (p.compound security) options = .ok results) :
    ∀ found ∈ results, ∃ rows, p.Rows security t rows found := by
  intro found mem
  have patterns : (p.compound security).patterns = p.parts.map (Part.lookup · security) := rfl
  unfold Store.combined at h
  cases hf : (p.compound security).select.find? fun s => (p.compound security).patterns.length ≤ s.pattern with
  | some s =>
    rw [hf] at h
    cases h
  | none =>
    rw [hf] at h
    dsimp only at h
    have inside : ∀ s ∈ p.selections, s.pattern < p.parts.length := by
      intro s mem
      have below := List.find?_eq_none.1 hf s mem
      simpa [patterns] using below
    rcases hp : p.parts with _ | ⟨part, _ | ⟨other, parts⟩⟩
    · rw [patterns, hp] at h
      cases h
      cases mem
    · rw [patterns, hp] at h
      obtain ⟨rows, hr, rfl⟩ := map_eq_ok h
      obtain ⟨r, hmem, rfl⟩ := List.mem_map.1 mem
      obtain ⟨stored, taken⟩ := Store.mem_fetched hr hmem
      exact ⟨[r], rows_of_single hp stored taken⟩
    · cases hc : (p.compound security).patterns.mapM Pattern.joinClauses? with
      | none =>
        rw [patterns, hp] at h hc
        dsimp only [List.map] at h hc
        rw [hc] at h
        cases h
      | some clauses =>
        have compiled := hc
        rw [patterns, hp] at h hc
        dsimp only [List.map] at h hc
        rw [hc] at h
        cases h
        obtain ⟨j, hj, rfl⟩ := List.mem_map.1 mem
        have joined := (Table.mem_sorted _ _ _ j).1 (Table.mem_of_mem_slice _ _ j hj)
        exact ⟨j.first :: j.more, rows_of_joined inside compiled joined⟩

/-- Every solution of a group is the binding of a result that some rows stand for. -/
theorem rows_of_answer {p : GroupPlan} {security : Option Pattern} {t : Table} {options : Options}
    {found : Solutions} (h : p.answer t security options = .ok found) {b : Binding} (mem : b ∈ found.rows) :
    ∃ result rows, p.Rows security t rows result ∧ p.bind result = b := by
  unfold answer at h
  obtain ⟨results, combined, rfl⟩ := map_eq_ok h
  obtain ⟨result, inside, rfl⟩ := List.mem_map.1 mem
  obtain ⟨rows, all⟩ := p.rows_of_combined combined result inside
  exact ⟨result, rows, all, rfl⟩

theorem bind_subject (p : GroupPlan) (found : CompoundResult) :
    (p.bind found).get? p.subject = some found.value := by
  have other : ∀ s ∈ p.selections, s.name ≠ p.subject := by
    intro s mem
    have kept := (FirstOfEach.sublist_eraseDupsBy _ _).mem mem
    simpa using (List.mem_filter.1 kept).2
  unfold bind
  rw [Binding.get?_foldl_set p.subject]
  · simp [Binding.get?]
  · intro b s mem
    cases found.bindings.get? s.name with
    | none => rfl
    | some t =>
      dsimp only
      rw [Binding.get?_set, if_neg (other s mem).symm]

theorem Rows.values {p : GroupPlan} {security : Option Pattern} {t : Table} {rows : List Row}
    {found : CompoundResult} (h : p.Rows security t rows found) : (p.bind found).Values (FromRows rows) := by
  refine Binding.Values.foldl (fun b s mem hb => ?_) ?_
  · cases hs : found.bindings.get? s.name with
    | none => exact hb
    | some v =>
      have some_ : p.selections.isEmpty = false := by simpa using List.ne_nil_of_mem mem
      obtain ⟨s', -, -, r, hr, rfl⟩ := h.bindings some_ s.name v hs
      exact hb.set s.name ⟨r, hr, s'.position, rfl⟩
  · obtain ⟨first, head, value⟩ := h.value
    intro name t ht
    have bound : t = found.value := by
      rw [Binding.get?, List.lookup_cons] at ht
      split at ht
      · exact (Option.some.inj ht).symm
      · cases ht
    exact ⟨first, List.mem_of_mem_head? head, .subject, by rw [bound, value]; rfl⟩

end GroupPlan

theorem SinglePlan.values_bind (p : SinglePlan) (r : Row) :
    (p.bind (Quint.ofRow r).toQuad).Values (FromRows [r]) := by
  refine Binding.Values.foldl (fun b position _ h => ?_) Binding.values_nil
  cases p.triple.get position with
  | var name =>
    dsimp only
    split
    · exact h.set name (fromRows_get List.mem_cons_self position)
    · exact h
  | _ => exact h

end QuadStore
