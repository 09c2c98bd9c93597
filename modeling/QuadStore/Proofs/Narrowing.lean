import QuadStore.Proofs.Selection
import QuadStore.Query.Run

namespace QuadStore

open Sql

namespace Operators

structure Within (a b : Operators) : Prop where
  eq : ∀ v, a.eq = some v → b.eq = some v
  ne : ∀ v, a.ne = some v → b.ne = some v
  gt : ∀ v, a.gt = some v → b.gt = some v
  ge : ∀ v, a.ge = some v → b.ge = some v
  lt : ∀ v, a.lt = some v → b.lt = some v
  le : ∀ v, a.le = some v → b.le = some v
  among : ∀ v, a.among = some v → b.among = some v
  notAmong : ∀ v, a.notAmong = some v → b.notAmong = some v
  startsWith : ∀ v, a.startsWith = some v → b.startsWith = some v
  endsWith : ∀ v, a.endsWith = some v → b.endsWith = some v
  contains : ∀ v, a.contains = some v → b.contains = some v
  regex : ∀ v, a.regex = some v → b.regex = some v
  isNull : ∀ v, a.isNull = some v → b.isNull = some v

theorem append_mono {α : Type} {xs xs' ys ys' : List α} (h : xs ⊆ xs') (h' : ys ⊆ ys') :
    xs ++ ys ⊆ xs' ++ ys' := by
  intro a mem
  rcases List.mem_append.1 mem with mem | mem
  · exact List.mem_append_left _ (h mem)
  · exact List.mem_append_right _ (h' mem)

theorem map_mono {α β : Type} {x y : Option α} (h : ∀ v, x = some v → y = some v) (f : α → β) :
    (x.map f).toList ⊆ (y.map f).toList := by
  cases hx : x with
  | none => exact List.nil_subset _
  | some v =>
    rw [h v hx]
    exact List.Subset.refl _

theorem Within.conditions {a b : Operators} (h : a.Within b) (p : Position) :
    a.conditions p ⊆ b.conditions p := by
  unfold Operators.conditions
  refine append_mono ?_ (map_mono h.isNull _)
  refine append_mono ?_ ?regex
  refine append_mono ?_ (map_mono h.contains _)
  refine append_mono ?_ (map_mono h.endsWith _)
  refine append_mono ?_ (map_mono h.startsWith _)
  refine append_mono ?_ ?notAmong
  refine append_mono ?_ (map_mono h.among _)
  refine append_mono ?_ (map_mono h.le _)
  refine append_mono ?_ (map_mono h.lt _)
  refine append_mono ?_ (map_mono h.ge _)
  refine append_mono ?_ (map_mono h.gt _)
  refine append_mono (map_mono h.eq _) (map_mono h.ne _)
  case regex =>
    cases hr : a.regex with
    | none => exact List.nil_subset _
    | some s =>
      rw [h.regex s hr]
      exact List.Subset.refl _
  case notAmong =>
    cases hn : a.notAmong with
    | none => exact List.nil_subset _
    | some vs =>
      rw [h.notAmong vs hn]
      exact List.Subset.refl _

theorem Within.refl (a : Operators) : a.Within a := by
  constructor <;> exact fun _ => id

def lacking {α β : Type} (x : Option α) (y : Option β) : Option α := if y.isSome then none else x

def without (a b : Operators) : Operators where
  eq := lacking a.eq b.eq
  ne := lacking a.ne b.ne
  gt := lacking a.gt b.gt
  ge := lacking a.ge b.ge
  lt := lacking a.lt b.lt
  le := lacking a.le b.le
  among := lacking a.among b.among
  notAmong := lacking a.notAmong b.notAmong
  startsWith := lacking a.startsWith b.startsWith
  endsWith := lacking a.endsWith b.endsWith
  contains := lacking a.contains b.contains
  regex := lacking a.regex b.regex
  isNull := lacking a.isNull b.isNull

theorem lacking_or {α : Type} (x y : Option α) (v : α) (h : lacking x y = some v) : y.or x = some v := by
  cases y with
  | none => exact h
  | some w => cases h

theorem without_within_merge (a b : Operators) : (a.without b).Within (a.merge b) := by
  constructor <;> exact fun v => lacking_or _ _ v

theorem lacking_some {α β : Type} (x : Option α) (y : Option β) (v : α) (h : lacking x y = some v) :
    x = some v := by
  cases y with
  | none => exact h
  | some w => cases h

theorem without_within (a b : Operators) : (a.without b).Within a := by
  constructor <;> exact fun v => lacking_some _ _ v

end Operators

namespace Match

inductive Within : Match → Match → Prop
  | term (t : Term) : Within (.term t) (.term t)
  | operators {a b : Operators} (h : a.Within b) : Within (.operators a) (.operators b)

theorem Within.refl (m : Match) : m.Within m := by
  cases m with
  | term t => exact .term t
  | operators o => exact .operators (.refl o)

theorem Within.admits {m n : Match} (h : m.Within n) (p : Position) (s : Text)
    (taken : n.admits p s = true) : m.admits p s = true := by
  cases h with
  | term t => exact taken
  | @operators a b h =>
    simp only [Match.admits, Match.conditions, Match.regex?, Bool.and_eq_true, List.all_eq_true] at taken ⊢
    refine ⟨fun c mem => taken.1 c (h.conditions p mem), ?_⟩
    cases hr : a.regex with
    | none => rfl
    | some source =>
      have searched := taken.2
      rw [h.regex source hr] at searched
      exact searched

end Match

namespace Pattern

theorem get_set (p : Pattern) (a b : Position) (m : Option Match) :
    (p.set a m).get b = if b = a then m else p.get b := by
  cases a <;> cases b <;> rfl

theorem set_get (p : Pattern) (a : Position) : p.set a (p.get a) = p := by
  cases a <;> rfl

theorem get_foldl_set (f : Position → Option Match → Option Match) (positions : List Position)
    (nodup : positions.Nodup) (p : Pattern) (b : Position) :
    (positions.foldl (fun p a => p.set a (f a (p.get a))) p).get b =
      if b ∈ positions then f b (p.get b) else p.get b := by
  induction positions generalizing p with
  | nil => simp
  | cons a rest ih =>
    obtain ⟨fresh, nodup⟩ := List.nodup_cons.1 nodup
    rw [List.foldl_cons, ih nodup, get_set]
    by_cases h : b = a
    · subst h
      simp [fresh]
    · simp [h]

theorem get_fill (p : Pattern) (security : Pattern) (b : Position) :
    (p.fill (some security)).get b = (p.get b).or (security.get b) := by
  have each := get_foldl_set (fun a m => m.or (security.get a)) Position.all (by decide) p b
  rw [if_pos (by cases b <;> decide)] at each
  exact each

end Pattern

def Match.adding (m : Option Match) (o : Operators) : Option Match :=
  match m with
  | none => some (.operators o)
  | some (.operators old) => some (.operators (old.merge o))
  | some (.term t) => some (.term t)

theorem Pattern.addFilter_eq (p : Pattern) (a : Position) (o : Operators) :
    p.addFilter a o = p.set a (Match.adding (p.get a) o) := by
  unfold addFilter Match.adding
  cases h : p.get a with
  | none => rfl
  | some m =>
    cases m with
    | operators old => rfl
    | term t =>
      dsimp only
      rw [← h, set_get]

theorem Quad.lookup_none (q : Quad) : q.lookup none = q.lookup (some {}) := by
  change q.constants = q.constants.fill (some {})
  unfold Pattern.fill Position.all
  simp only [List.foldl_cons, List.foldl_nil, Pattern.get, Pattern.set, Option.or_none]

theorem Quad.filteredLookup_none (q : Quad) (filters : Filters) :
    q.filteredLookup none filters = q.filteredLookup (some {}) filters := by
  unfold filteredLookup
  rw [q.lookup_none]

theorem Quad.filteredLookup_nil (q : Quad) (security : Option Pattern) :
    q.filteredLookup security [] = q.lookup security := by
  have fixed : ∀ (f : Pattern → Position → Pattern), (∀ p a, f p a = p) →
      ∀ (positions : List Position) (p : Pattern), positions.foldl f p = p := by
    intro f same positions
    induction positions with
    | nil => exact fun p => rfl
    | cons a positions ih =>
      intro p
      rw [List.foldl_cons, same, ih]
  refine fixed _ (fun p a => ?_) Position.all _
  cases q.get a <;> rfl

namespace Part

def pushed? (part : Part) (a : Position) : Option Operators :=
  match part.triple.get a with
  | .var name => part.filters.lookup name
  | _ => none

def lookup (part : Part) (security : Option Pattern) : Pattern :=
  part.triple.inGraph (part.triple.filteredLookup security part.filters)

def asked (part : Part) (security : Pattern) (a : Position) : Option Match :=
  let filled := (part.triple.fixed? a).or (security.get a)
  match part.pushed? a with
  | some o => Match.adding filled o
  | none => filled

theorem get_constants (q : Quad) (a : Position) : q.constants.get a = q.fixed? a := by
  cases a <;> rfl

theorem get_filteredLookup (part : Part) (security : Pattern) (a : Position) :
    (part.triple.filteredLookup (some security) part.filters).get a = part.asked security a := by
  have step : ∀ (p : Pattern) (a : Position),
      (match part.triple.get a with
        | .var name => match part.filters.lookup name with
          | some o => p.addFilter a o
          | none => p
        | _ => p) =
      p.set a (match part.pushed? a with
        | some o => Match.adding (p.get a) o
        | none => p.get a) := by
    intro p a
    unfold pushed?
    cases part.triple.get a with
    | var name =>
      dsimp only
      cases part.filters.lookup name with
      | none => exact (p.set_get a).symm
      | some o => exact p.addFilter_eq a o
    | _ => exact (p.set_get a).symm
  have each := Pattern.get_foldl_set (fun a m => match part.pushed? a with
      | some o => Match.adding m o
      | none => m) Position.all (by decide) (part.triple.lookup (some security)) a
  rw [if_pos (by cases a <;> decide)] at each
  have same : part.triple.filteredLookup (some security) part.filters =
      Position.all.foldl (fun p a => p.set a (match part.pushed? a with
        | some o => Match.adding (p.get a) o
        | none => p.get a)) (part.triple.lookup (some security)) := by
    unfold Quad.filteredLookup
    congr 1
    funext p a
    exact step p a
  rw [same, each]
  unfold asked Quad.lookup
  rw [Pattern.get_fill, get_constants]

def guard? (part : Part) (security : Pattern) (a : Position) : Option Match :=
  if (part.triple.fixed? a).isSome then none
  else match security.get a with
    | some (.operators o) => some (.operators (o.without ((part.pushed? a).getD {})))
    | m => m

def guard (part : Part) (security : Pattern) : Pattern where
  subject := part.guard? security .subject
  predicate := part.guard? security .predicate
  object := part.guard? security .object
  graph := part.guard? security .graph

theorem get_guard (part : Part) (security : Pattern) (a : Position) :
    (part.guard security).get a = part.guard? security a := by
  cases a <;> rfl

theorem guard?_cases {part : Part} {security : Pattern} {a : Position} {m : Match}
    (h : part.guard? security a = some m) :
    part.triple.fixed? a = none ∧ ∃ n, security.get a = some n ∧ m.Within n := by
  unfold guard? at h
  split at h
  · cases h
  · rename_i fixed
    refine ⟨by simpa using fixed, ?_⟩
    cases hs : security.get a with
    | none =>
      rw [hs] at h
      cases h
    | some s =>
      rw [hs] at h
      cases s with
      | term t =>
        cases h
        exact ⟨_, rfl, .term t⟩
      | operators o =>
        cases h
        exact ⟨_, rfl, .operators (o.without_within _)⟩

theorem guard_within_asked (part : Part) (security : Pattern) (a : Position) (m : Match)
    (h : part.guard? security a = some m) : ∃ n, part.asked security a = some n ∧ m.Within n := by
  unfold guard? at h
  split at h
  · cases h
  · rename_i fixed
    have open_ : part.triple.fixed? a = none := by simpa using fixed
    unfold asked
    rw [open_, Option.none_or]
    cases hs : security.get a with
    | none =>
      rw [hs] at h
      cases h
    | some s =>
      cases s with
      | term t =>
        rw [hs] at h
        cases h
        cases part.pushed? a <;> exact ⟨_, rfl, .term t⟩
      | operators o =>
        rw [hs] at h
        cases h
        cases part.pushed? a with
        | none => exact ⟨_, rfl, .operators (o.without_within _)⟩
        | some pushed => exact ⟨_, rfl, .operators (o.without_within_merge pushed)⟩

theorem outside_within (p : Pattern) (a : Position) (m : Match) (h : p.get a = some m) :
    ∃ n, p.outsideDefaultGraph.get a = some n ∧ m.Within n := by
  unfold Pattern.outsideDefaultGraph
  cases hg : p.graph with
  | none =>
    cases a with
    | graph =>
      rw [Pattern.get, hg] at h
      cases h
    | _ => exact ⟨m, h, .refl m⟩
  | some g =>
    cases g with
    | term t => exact ⟨m, h, .refl m⟩
    | operators o =>
      cases a with
      | graph =>
        rw [Pattern.get, hg] at h
        cases h
        refine ⟨_, rfl, .operators { Operators.Within.refl o with ne := ?_ }⟩
        intro v hv
        simp [hv]
      | _ => exact ⟨m, h, .refl m⟩

theorem inGraph_within (q : Quad) (p : Pattern) (a : Position) (m : Match) (h : p.get a = some m) :
    ∃ n, (q.inGraph p).get a = some n ∧ m.Within n := by
  unfold Quad.inGraph
  split
  · exact outside_within p a m h
  · exact ⟨m, h, .refl m⟩

def sees (part : Part) (security : Pattern) (r : Row) : Bool := (part.guard security).admits r

theorem sees_iff (part : Part) (security : Pattern) (r : Row) :
    part.sees security r = true ↔
      ∀ a m, part.guard? security a = some m → m.admits a (r.get a) = true := by
  rw [sees, Pattern.admits_iff]
  simp only [get_guard]

/-- Every row that a part looks up is one that the security pattern lets it see. -/
theorem sees_of_lookup (part : Part) (security : Pattern) (r : Row)
    (taken : (part.lookup (some security)).admits r = true) : part.sees security r = true := by
  rw [Pattern.admits_iff] at taken
  rw [sees_iff]
  intro a m hm
  obtain ⟨n, hn, guarded⟩ := part.guard_within_asked security a m hm
  rw [← get_filteredLookup] at hn
  obtain ⟨whole, hw, kept⟩ := inGraph_within part.triple _ a n hn
  exact guarded.admits a _ (kept.admits a _ (taken a whole hw))

end Part

end QuadStore
