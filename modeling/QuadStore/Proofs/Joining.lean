import Mathlib.Data.List.Forall2
import Mathlib.Data.List.Nodup
import QuadStore.Proofs.Digits
import QuadStore.Proofs.Selection

namespace QuadStore

open Sql Step

namespace Sql

/-- Whether a joined row has one selected row for each pattern, all in agreement with the first. -/
structure Table.Joined.Of (t : Table) (on : Position) (patterns : List (List Clause)) (j : Table.Joined) :
    Prop where
  rows : List.Forall₂ (fun clauses r => r ∈ t.selected clauses) patterns (j.first :: j.more)
  agree : ∀ r ∈ j.more, j.agrees on r = true

namespace Table

def extended (t : Table) (on : Position) (partials : List Joined) (clauses : List Clause) : List Joined :=
  partials.flatMap fun j =>
    ((t.selected clauses).filter (j.agrees on)).map fun r => { j with more := j.more ++ [r] }

theorem joined_cons (t : Table) (on : Position) (first : List Clause) (rest : List (List Clause)) :
    t.joined on (first :: rest) =
      rest.foldl (t.extended on) ((t.selected first).map fun r => ⟨r, []⟩) := rfl

theorem mem_extended {t : Table} {on : Position} {done : List (List Clause)} {partials : List Joined}
    (h : ∀ j ∈ partials, Joined.Of t on done j) (clauses : List Clause) :
    ∀ j ∈ t.extended on partials clauses, Joined.Of t on (done ++ [clauses]) j := by
  intro j mem
  obtain ⟨before, hb, mem⟩ := List.mem_flatMap.1 mem
  obtain ⟨r, hr, rfl⟩ := List.mem_map.1 mem
  obtain ⟨selected, agrees⟩ := List.mem_filter.1 hr
  have old := h before hb
  refine ⟨List.rel_append old.rows (.cons selected .nil), ?_⟩
  intro s mem
  rcases List.mem_append.1 mem with mem | mem
  · exact old.agree s mem
  · rw [List.mem_singleton.1 mem]
    exact agrees

theorem mem_foldl_extended {t : Table} {on : Position} {rest done : List (List Clause)}
    {partials : List Joined} (h : ∀ j ∈ partials, Joined.Of t on done j) :
    ∀ j ∈ rest.foldl (t.extended on) partials, Joined.Of t on (done ++ rest) j := by
  induction rest generalizing done partials with
  | nil => simpa using h
  | cons clauses rest ih =>
    have next := ih (mem_extended h clauses)
    rw [List.append_assoc] at next
    exact next

theorem mem_joined {t : Table} {on : Position} {patterns : List (List Clause)} {j : Joined}
    (h : j ∈ t.joined on patterns) : Joined.Of t on patterns j := by
  cases patterns with
  | nil => cases h
  | cons first rest =>
    have single : ∀ j ∈ (t.selected first).map (fun r => (⟨r, []⟩ : Joined)), Joined.Of t on [first] j := by
      intro j mem
      obtain ⟨r, selected, rfl⟩ := List.mem_map.1 mem
      exact ⟨.cons selected .nil, fun _ mem => absurd mem List.not_mem_nil⟩
    rw [joined_cons] at h
    exact mem_foldl_extended single j h

theorem foldl_extended_congr {t u : Table} (on : Position) {rest : List (List Clause)}
    (agree : ∀ clauses ∈ rest, t.selected clauses = u.selected clauses) (partials : List Joined) :
    rest.foldl (t.extended on) partials = rest.foldl (u.extended on) partials := by
  induction rest generalizing partials with
  | nil => rfl
  | cons clauses rest ih =>
    have same : t.extended on partials clauses = u.extended on partials clauses := by
      unfold extended
      rw [agree clauses List.mem_cons_self]
    rw [List.foldl_cons, List.foldl_cons, same]
    exact ih (fun c mem => agree c (List.mem_cons_of_mem clauses mem)) _

theorem joined_congr {t u : Table} (on : Position) {patterns : List (List Clause)}
    (agree : ∀ clauses ∈ patterns, t.selected clauses = u.selected clauses) :
    t.joined on patterns = u.joined on patterns := by
  cases patterns with
  | nil => rfl
  | cons first rest =>
    rw [joined_cons, joined_cons, agree first List.mem_cons_self]
    exact foldl_extended_congr on (fun c mem => agree c (List.mem_cons_of_mem first mem)) _

def Joined.text (j : Joined) (pattern : Nat) (position : Position) : Text :=
  ((j.row? pattern).map (·.get position)).getD []

end Table

end Sql

namespace Store

theorem lookup_of_nodup {α β : Type} {key : α → Text} (f : α → β) {xs : List α} (nodup : (xs.map key).Nodup)
    {x : α} (mem : x ∈ xs) : (xs.map fun x => (key x, f x)).lookup (key x) = some (f x) := by
  induction xs with
  | nil => cases mem
  | cons y xs ih =>
    rw [List.map_cons] at nodup
    obtain ⟨fresh, nodup⟩ := List.nodup_cons.1 nodup
    rw [List.map_cons, List.lookup_cons]
    rcases List.mem_cons.1 mem with rfl | mem
    · rw [beq_self_eq_true]
    · have other : key x ≠ key y := fun same => fresh (same ▸ List.mem_map_of_mem mem)
      rw [beq_eq_false_iff_ne.2 other]
      exact ih nodup mem

def selectionColumn (k : Nat) : Text := "sel" ++ Text.ofNat k

theorem selectionColumn_inj (m n : Nat) (h : selectionColumn m = selectionColumn n) : m = n :=
  Text.ofNat_inj (List.append_cancel_left h)

theorem objectName_inj (m n : Nat) (h : objectName m = objectName n) : m = n :=
  Text.ofNat_inj (List.append_cancel_left (List.append_cancel_right h))

theorem predicateName_inj (m n : Nat) (h : predicateName m = predicateName n) : m = n :=
  Text.ofNat_inj (List.append_cancel_left (List.append_cancel_right h))

theorem objectName_ne_predicateName (m n : Nat) : objectName m ≠ predicateName n := by
  intro same
  have last := congrArg List.getLast? same
  have object : (objectName m).getLast? = some (Text.byte 't') := List.getLast?_append_of_ne_nil _ (by decide)
  have predicate : (predicateName n).getLast? = some (Text.byte 'e') :=
    List.getLast?_append_of_ne_nil _ (by decide)
  rw [object, predicate] at last
  exact absurd last (by decide)

theorem projections_selected {c : Compound} (some_ : c.select.isEmpty = false) :
    projections c = c.select.zipIdx.map fun x =>
      (x.1.name, ⟨selectionColumn x.2, x.1.pattern, x.1.position⟩) := by
  simp [projections, some_, selectionColumn]

theorem projections_unselected {c : Compound} (none_ : c.select.isEmpty = true) :
    projections c = (List.range c.patterns.length).flatMap fun i =>
      [(objectName i, ⟨objectName i, i, .object⟩), (predicateName i, ⟨predicateName i, i, .predicate⟩)] := by
  simp [projections, none_]

theorem projections_distinct (c : Compound) :
    ((projections c).map (·.2.name)).Nodup ∧ ∀ x ∈ projections c, x.2.name ≠ "join_value" := by
  cases hs : c.select.isEmpty with
  | false =>
    rw [projections_selected hs, List.map_map]
    constructor
    · have names : c.select.zipIdx.map ((·.2.name) ∘ fun x : Selection × Nat =>
          (x.1.name, (⟨selectionColumn x.2, x.1.pattern, x.1.position⟩ : Projection))) =
            (c.select.zipIdx.map (·.2)).map selectionColumn := by
        rw [List.map_map]
        rfl
      rw [names, List.zipIdx_map_snd]
      exact List.Nodup.map selectionColumn_inj List.nodup_range'
    · intro x mem same
      obtain ⟨y, -, rfl⟩ := List.mem_map.1 mem
      exact absurd (List.cons.inj same).1 (by decide)
  | true =>
    rw [projections_unselected hs, List.map_flatMap]
    constructor
    · rw [List.nodup_flatMap]
      constructor
      · intro i _
        simp [objectName_ne_predicateName]
      · refine List.nodup_range.pairwise_of_forall_ne fun i _ k _ other name inI inK => ?_
        simp only [List.map_cons, List.map_nil, List.mem_cons, List.not_mem_nil, or_false] at inI inK
        rcases inI with rfl | rfl <;> rcases inK with same | same
        · exact other (objectName_inj i k same)
        · exact objectName_ne_predicateName i k same
        · exact objectName_ne_predicateName k i same.symm
        · exact other (predicateName_inj i k same)
    · intro x mem same
      obtain ⟨i, -, inside⟩ := List.mem_flatMap.1 mem
      simp only [List.mem_cons, List.not_mem_nil, or_false] at inside
      rcases inside with rfl | rfl
      · exact absurd (List.cons.inj same).1 (by decide)
      · exact absurd (List.cons.inj same).1 (by decide)

theorem record_projection (c : Compound) (patterns : List (List Clause)) (j : Table.Joined)
    {x : Text × Projection} (mem : x ∈ projections c) :
    (j.record ⟨c.on, (projections c).map (·.2), patterns⟩).text x.2.name = j.text x.2.pattern x.2.position := by
  obtain ⟨distinct, apart⟩ := projections_distinct c
  have found := lookup_of_nodup (fun x : Text × Projection => (j.row? x.2.pattern).map (·.get x.2.position))
    distinct mem
  unfold Record.text Table.Joined.record
  rw [List.lookup_cons, beq_eq_false_iff_ne.2 (apart x mem)]
  dsimp only
  rw [List.map_map]
  change ((List.lookup x.2.name ((projections c).map fun x : Text × Projection =>
    (x.2.name, (j.row? x.2.pattern).map (·.get x.2.position)))).getD none).getD [] = _
  rw [found]
  rfl

end Store

/-- What results show: what is selected, and else the object and the predicate of each pattern. -/
def Compound.columns (c : Compound) : List Selection :=
  if c.select.isEmpty then
    (List.range c.patterns.length).flatMap fun i =>
      [⟨i, .object, Store.objectName i⟩, ⟨i, .predicate, Store.predicateName i⟩]
  else c.select

namespace Store

theorem columns_projections (c : Compound) :
    (projections c).map (fun x => (⟨x.2.pattern, x.2.position, x.1⟩ : Selection)) = c.columns := by
  unfold Compound.columns
  cases hs : c.select.isEmpty with
  | false =>
    rw [projections_selected hs, List.map_map, if_neg Bool.false_ne_true]
    exact List.zipIdx_map_fst 0 c.select
  | true => rw [projections_unselected hs, List.map_flatMap, if_pos rfl]; rfl

theorem bindings_joined (c : Compound) (patterns : List (List Clause)) (j : Table.Joined) :
    (ofJoined c.on (projections c) (j.record ⟨c.on, (projections c).map (·.2), patterns⟩)).bindings =
      c.columns.foldl (fun (b : Binding) s => b.set s.name (.ofStored (j.text s.pattern s.position) s.position))
        [] := by
  rw [← columns_projections, List.foldl_map]
  apply List.foldl_ext
  intro b x mem
  have text := record_projection c patterns j mem
  dsimp only
  rw [text]

end Store

end QuadStore
