import QuadStore.Console
import QuadStore.Proofs.PlanShapes
import QuadStore.Proofs.Provenance
import QuadStore.Proofs.TermText

namespace QuadStore

open Sql Step

namespace SinglePlan

def part (p : SinglePlan) : Part := ⟨p.triple, []⟩

theorem lookup_part (p : SinglePlan) (security : Option Pattern) :
    p.part.lookup security = p.triple.inGraph (p.triple.lookup security) := by
  unfold part Part.lookup
  rw [Quad.filteredLookup_nil]

end SinglePlan

namespace OptionalPlan

/-- The part that looks up an optional triple: its subjects are those that the first part has found. -/
def extensionPart (p : OptionalPlan) (head : Part) (e : Extension) : Part where
  triple := ⟨head.triple.subject, e.predicate, .var (e.object.getD []), p.graph.getD .defaultGraph⟩
  filters := head.filters

def extensionParts (p : OptionalPlan) : List Part :=
  p.core.parts.head?.toList.flatMap fun head => p.extensions.map (p.extensionPart head)

end OptionalPlan

namespace Route

def required : Route → List Part
  | .single p => [p.part]
  | .multi ⟨_, .compound p⟩ => p.parts
  | .multi ⟨_, .optional p⟩ => p.core.parts
  | .multi ⟨_, .none⟩ | .delegated => []

def optional : Route → List Part
  | .multi ⟨_, .optional p⟩ => p.extensionParts
  | _ => []

def parts (r : Route) : List Part := r.required ++ r.optional

/-- A solution and stored rows that it comes from: one for each part, and one for each optional value.
Each row is seen by its part, and the values of the solution stand in the rows. -/
structure Explained (r : Route) (security : Pattern) (t : Table) (b : Binding) (uses : List (Part × Row)) :
    Prop where
  required : r.required <+: uses.map (·.1)
  seen : ∀ part row, (part, row) ∈ uses →
    part ∈ r.parts ∧ row ∈ t.rows ∧ part.sees security row = true
  values : b.Values (FromRows (uses.map (·.2)))

def Alike (r : Route) (security : Pattern) (t u : Table) : Prop :=
  ∀ part ∈ r.parts, t.rows.filter (part.sees security) = u.rows.filter (part.sees security)

end Route

theorem filter_narrow {α : Type} {keep wide : α → Bool} {xs ys : List α}
    (within : ∀ z, (z ∈ xs ∨ z ∈ ys) → keep z = true → wide z = true)
    (same : xs.filter wide = ys.filter wide) : xs.filter keep = ys.filter keep := by
  have narrow : ∀ zs : List α, (∀ z ∈ zs, keep z = true → wide z = true) →
      zs.filter keep = (zs.filter wide).filter keep := by
    intro zs h
    rw [List.filter_filter]
    apply List.filter_congr
    intro z mem
    cases hk : keep z with
    | false => rfl
    | true => rw [h z mem hk, Bool.true_and]
  rw [narrow xs fun z mem => within z (Or.inl mem), narrow ys fun z mem => within z (Or.inr mem), same]

theorem Part.lookup_alike {part : Part} {security : Pattern} {t u : Table}
    (same : t.rows.filter (part.sees security) = u.rows.filter (part.sees security)) :
    t.rows.filter (part.lookup (some security)).admits =
      u.rows.filter (part.lookup (some security)).admits :=
  filter_narrow (fun r _ => part.sees_of_lookup security r) same

namespace Store

theorem exists_of_mapM_some {α β : Type} {f : α → Option β} {xs : List α} {ys : List β}
    (h : xs.mapM f = some ys) : ∀ y ∈ ys, ∃ x ∈ xs, f x = some y := by
  induction xs generalizing ys with
  | nil =>
    cases h
    exact fun _ mem => absurd mem List.not_mem_nil
  | cons x xs ih =>
    rw [List.mapM_cons] at h
    obtain ⟨y, hy, h⟩ := Option.bind_eq_some_iff.1 h
    obtain ⟨rest, hr, h⟩ := Option.bind_eq_some_iff.1 h
    cases h
    intro z mem
    rcases List.mem_cons.1 mem with rfl | mem
    · exact ⟨x, List.mem_cons_self, hy⟩
    · obtain ⟨w, hw, hz⟩ := ih hr z mem
      exact ⟨w, List.mem_cons_of_mem x hw, hz⟩

theorem fetched_congr {t u : Table} {p : Pattern} (options : Options)
    (same : t.rows.filter p.admits = u.rows.filter p.admits) : fetched t p options = fetched u p options := by
  unfold fetched taken
  rw [same]

theorem combined_congr {t u : Table} {c : Compound} (options : Options)
    (same : ∀ p ∈ c.patterns, t.rows.filter p.admits = u.rows.filter p.admits) :
    combined t c options = combined u c options := by
  unfold combined
  cases c.select.find? fun s => c.patterns.length ≤ s.pattern with
  | some s => rfl
  | none =>
    dsimp only
    rcases hp : c.patterns with _ | ⟨p, _ | ⟨q, rest⟩⟩
    · rfl
    · dsimp only
      rw [fetched_congr options (same p (by rw [hp]; exact List.mem_cons_self))]
    · dsimp only
      rw [hp] at same
      cases hc : (p :: q :: rest).mapM Pattern.joinClauses? with
      | none => rfl
      | some clauses =>
        have selected : ∀ cs ∈ clauses, t.selected cs = u.selected cs := by
          intro cs mem
          obtain ⟨p, hp, hj⟩ := exists_of_mapM_some hc cs mem
          have both := same p hp
          unfold Table.selected
          have conditions : (fun r => Table.satisfies r cs) = p.admits := by
            funext r
            exact Pattern.satisfies_join hj r
          rw [conditions, both]
        dsimp only
        rw [Table.joined_congr c.on selected]

end Store

theorem GroupPlan.answer_congr {p : GroupPlan} {security : Pattern} {t u : Table} (options : Options)
    (same : ∀ part ∈ p.parts, t.rows.filter (part.sees security) = u.rows.filter (part.sees security)) :
    p.answer t (some security) options = p.answer u (some security) options := by
  unfold answer
  rw [Store.combined_congr options]
  intro pattern mem
  obtain ⟨part, hp, rfl⟩ := List.mem_map.1 mem
  exact Part.lookup_alike (same part hp)

namespace OptionalPlan

theorem subject_seen {p : OptionalPlan} {security : Pattern} {t : Table} {options : Options}
    {core : Solutions} (h : p.core.answer t (some security) options = .ok core) {s : Term}
    (mem : s ∈ p.subjects core.rows) :
    ∃ head, p.core.parts.head? = some head ∧
      ∃ r, head.sees security r = true ∧ s.encode = r.subject := by
  unfold subjects at mem
  rw [List.mem_eraseDups, List.mem_filter, List.mem_filterMap] at mem
  obtain ⟨⟨b, hb, bound⟩, resource⟩ := mem
  obtain ⟨found, rows, ⟨parts, ⟨first, head, value⟩, -⟩, rfl⟩ := GroupPlan.rows_of_answer h hb
  rw [GroupPlan.bind_subject, value] at bound
  cases bound
  generalize p.core.parts = core at parts
  cases parts with
  | nil => cases head
  | @cons part r _ _ taken _ =>
    cases head
    exact ⟨part, rfl, first, part.sees_of_lookup security first taken.2,
      Term.encode_decode first.subject (by simpa using resource)⟩

theorem subjects_seen {p : OptionalPlan} {security : Pattern} {t : Table} {options : Options}
    {core : Solutions} (h : p.core.answer t (some security) options = .ok core) {head : Part}
    (first : p.core.parts.head? = some head) :
    ∀ s ∈ p.subjects core.rows, ∃ r, head.sees security r = true ∧ s.encode = r.subject := by
  intro s mem
  obtain ⟨other, found, seen⟩ := subject_seen h mem
  cases first.symm.trans found
  exact seen

theorem among_taken {p : Position} {vs : List Value} {o : Option Match} {s : Text}
    (open_ : ∀ t, o ≠ some (.term t))
    (h : ∀ m, Match.adding o { among := some vs } = some m → m.admits p s = true) :
    s ∈ vs.map (·.stored p .eq) := by
  have condition : ∀ old : Operators, (Match.operators (old.merge { among := some vs })).admits p s = true →
      s ∈ vs.map (·.stored p .eq) := by
    intro old taken
    unfold Match.admits at taken
    rw [Bool.and_eq_true, List.all_eq_true] at taken
    have among := taken.1 (.among (vs.map (·.stored p .eq)))
      (by simp [Match.conditions, Operators.conditions, Operators.merge])
    simpa [Condition.holds] using among
  cases o with
  | none =>
    apply condition {}
    exact h _ rfl
  | some m =>
    cases m with
    | term t => exact absurd rfl (open_ t)
    | operators old => exact condition old (h _ rfl)

def asker (p : OptionalPlan) (subjects : List Term) : Part where
  triple := ⟨.var "s", .var "p", .var "o", p.graph.getD .defaultGraph⟩
  filters := [("s", { among := some (subjects.map .term) }), ("p", { among := some (p.predicates.map .term) })]

theorem get_guardedLookup (p : OptionalPlan) (guard : Pattern) (subjects : List Term) (a : Position) :
    (p.guardedLookup (some guard) subjects).get a = (p.asker subjects).asked guard a :=
  Part.get_filteredLookup (p.asker subjects) guard a

theorem asked_subject (p : OptionalPlan) (guard : Pattern) (subjects : List Term) :
    (p.asker subjects).asked guard .subject = Match.adding guard.subject { among := some (subjects.map .term) } :=
  rfl

theorem pushed?_asker {p : OptionalPlan} (constant : (p.graph.getD .defaultGraph).isVar = false)
    (subjects : List Term) : (p.asker subjects).pushed? .graph = none := by
  have graph : (p.asker subjects).triple.get .graph = p.graph.getD .defaultGraph := rfl
  rw [Part.pushed?, graph]
  cases hg : p.graph.getD .defaultGraph with
  | var name =>
    rw [hg] at constant
    cases constant
  | _ => rfl

theorem subject_asked {p : OptionalPlan} {guard : Pattern} {subjects : List Term} {s : Text}
    (open_ : ∀ t, guard.subject ≠ some (.term t))
    (taken : ∀ m, (p.asker subjects).asked guard .subject = some m → m.admits .subject s = true) :
    ∃ u ∈ subjects, u.encode = s := by
  have among := among_taken open_ taken
  rw [List.map_map, List.mem_map] at among
  obtain ⟨u, mem, same⟩ := among
  exact ⟨u, mem, (Value.stored_term u .subject .eq rfl).symm.trans same⟩

theorem extension_seen {p : OptionalPlan} (formed : p.Formed) {security : Pattern} {subjects : List Term}
    {head : Part} (seen : ∀ s ∈ subjects, ∃ r, head.sees security r = true ∧ s.encode = r.subject)
    {r : Row} (taken : (p.guardedLookup (some security) subjects).admits r = true) {e : Extension}
    (mem : e ∈ p.extensions) : (p.extensionPart head e).sees security r = true := by
  have asked : ∀ a m, (p.asker subjects).asked security a = some m → m.admits a (r.get a) = true := by
    intro a m hm
    rw [← get_guardedLookup] at hm
    exact (Pattern.admits_iff _ r).1 taken a m hm
  rw [Part.sees_iff]
  intro a m hm
  obtain ⟨fixed, n, hn, within⟩ := Part.guard?_cases hm
  cases a with
  | subject =>
    by_cases term : ∃ t, n = .term t
    · obtain ⟨t, rfl⟩ := term
      refine within.admits _ _ (asked .subject _ ?_)
      change Match.adding (security.get .subject) _ = _
      rw [hn]
      rfl
    · have open_ : ∀ t, security.get .subject ≠ some (.term t) :=
        fun t ht => term ⟨t, Option.some.inj (hn.symm.trans ht)⟩
      obtain ⟨s, hs, same⟩ := subject_asked open_ (asked .subject)
      obtain ⟨found, sees, encoded⟩ := seen s hs
      have subject : r.get .subject = found.get .subject := same.symm.trans encoded
      rw [subject]
      exact (head.sees_iff security found).1 sees .subject m hm
  | predicate =>
    have constant := formed.predicates e mem
    simp [Quad.fixed?, extensionPart, Quad.get, constant] at fixed
  | object => exact within.admits _ _ (asked .object n hn)
  | graph =>
    have same : (p.asker subjects).triple.fixed? .graph = none := fixed
    refine within.admits _ _ (asked .graph n ?_)
    rw [Part.asked, same, pushed?_asker formed.graph]
    exact hn

theorem mem_extensionParts {p : OptionalPlan} {head : Part} (first : p.core.parts.head? = some head)
    {e : Extension} (mem : e ∈ p.extensions) : p.extensionPart head e ∈ p.extensionParts := by
  unfold extensionParts
  rw [first]
  exact List.mem_flatMap.2 ⟨head, List.mem_singleton.2 rfl, List.mem_map.2 ⟨e, mem, rfl⟩⟩

theorem extended_congr {p : OptionalPlan} (formed : p.Formed) {security : Pattern} {t u : Table}
    {options : Options} {core : Solutions} (ht : p.core.answer t (some security) options = .ok core)
    (same : ∀ part ∈ p.extensionParts,
      t.rows.filter (part.sees security) = u.rows.filter (part.sees security)) :
    p.extended t security core = p.extended u security core := by
  have fetched : p.guardedRows t security (p.subjects core.rows) =
      p.guardedRows u security (p.subjects core.rows) := by
    unfold guardedRows
    by_cases none : (p.subjects core.rows).isEmpty
    · rw [if_pos none, if_pos none]
    · rw [if_neg none, if_neg none]
      obtain ⟨s, hs⟩ := List.exists_mem_of_ne_nil _ (by simpa using none)
      obtain ⟨head, first, -⟩ := subject_seen ht hs
      obtain ⟨e, he⟩ := List.exists_mem_of_ne_nil _ formed.extended
      have seen := subjects_seen ht first
      exact Store.fetched_congr {} (filter_narrow (fun r _ taken => extension_seen formed seen taken he)
        (same _ (mem_extensionParts first he)))
  unfold extended
  rw [fetched]

end OptionalPlan

namespace Route

theorem answer?_alike {r : Route} (formed : r.Formed) {security : Pattern} {t u : Table}
    (alike : r.Alike security t u) : r.answer? t security = r.answer? u security := by
  have required : ∀ part ∈ r.required,
      t.rows.filter (part.sees security) = u.rows.filter (part.sees security) :=
    fun part mem => alike part (List.mem_append_left _ mem)
  cases r with
  | delegated => rfl
  | single p =>
    have same := Part.lookup_alike (required p.part (List.mem_singleton.2 rfl))
    rw [p.lookup_part] at same
    unfold answer?
    dsimp only
    rw [Store.fetched_congr p.options same]
  | multi p =>
    obtain ⟨modifiers, shape⟩ := p
    unfold answer? MultiPlan.found
    cases shape with
    | none => rfl
    | compound p =>
      dsimp only
      rw [GroupPlan.answer_congr _ required]
    | optional p =>
      dsimp only
      have core := GroupPlan.answer_congr (p := p.core) (MultiPlan.options modifiers) required
      rw [← core]
      cases ht : p.core.answer t (some security) (MultiPlan.options modifiers) with
      | error e => rfl
      | ok found =>
        dsimp only
        rw [OptionalPlan.extended_congr formed ht fun part mem => alike part (List.mem_append_right _ mem)]

end Route

theorem FromRows.mono {rows more : List Row} (sub : rows ⊆ more) {t : Term} (h : FromRows rows t) :
    FromRows more t := by
  obtain ⟨r, mem, position, eq⟩ := h
  exact ⟨r, sub mem, position, eq⟩

namespace GroupPlan

theorem explained {p : GroupPlan} {security : Pattern} {t : Table} {options : Options} {found : Solutions}
    (h : p.answer t (some security) options = .ok found) {b : Binding} (mem : b ∈ found.rows) :
    ∃ uses : List (Part × Row), uses.map (·.1) = p.parts ∧
      (∀ part row, (part, row) ∈ uses → part ∈ p.parts ∧ row ∈ t.rows ∧ part.sees security row = true) ∧
      b.Values (FromRows (uses.map (·.2))) := by
  obtain ⟨result, rows, all, rfl⟩ := rows_of_answer h mem
  have count := all.parts.length_eq
  refine ⟨p.parts.zip rows, List.map_fst_zip (by omega), ?_, ?_⟩
  · intro part row used
    obtain ⟨stored, taken⟩ := List.forall₂_zip all.parts used
    exact ⟨(List.of_mem_zip used).1, stored, part.sees_of_lookup security row taken⟩
  · have second : (p.parts.zip rows).map (·.2) = rows := List.map_snd_zip (by omega)
    rw [second]
    exact all.values

theorem exists_head {p : GroupPlan} {security : Option Pattern} {t : Table} {options : Options}
    {found : Solutions} (h : p.answer t security options = .ok found) {b : Binding} (mem : b ∈ found.rows) :
    ∃ head, p.parts.head? = some head := by
  obtain ⟨result, rows, ⟨parts, ⟨first, head, -⟩, -⟩, -⟩ := rows_of_answer h mem
  generalize p.parts = list at parts
  cases parts with
  | nil => cases head
  | @cons part r _ _ taken _ => exact ⟨part, rfl⟩

end GroupPlan

namespace OptionalPlan

def optionalUses (p : OptionalPlan) (head : Part) (subject : Term) (rows : List Row) : List (Part × Row) :=
  p.extensions.flatMap fun e =>
    (rows.filter fun r => Term.decode r.subject = subject ∧ Term.decode r.predicate = e.predicate).map
      fun r => (p.extensionPart head e, r)

theorem values_extend (p : OptionalPlan) (head : Part) (rows : List Row) {b : Binding} {subject : Term}
    (bound : b.get? p.core.subject = some subject) {P : Term → Prop} (core : b.Values P)
    (optional : ∀ v, FromRows ((p.optionalUses head subject rows).map (·.2)) v → P v) :
    (p.extend (rows.map attributeOf) b).Values P := by
  unfold extend
  rw [bound]
  refine Binding.Values.foldl (fun c target mem hc => ?_) core
  obtain ⟨predicate, name⟩ := target
  unfold targets at mem
  obtain ⟨e, he, ht⟩ := List.mem_filterMap.1 mem
  obtain ⟨object, -, eq⟩ := Option.map_eq_some_iff.1 ht
  cases eq
  dsimp only
  cases hv : Attribute.values (rows.map attributeOf) subject e.predicate with
  | nil => exact hc
  | cons value more =>
    refine hc.set _ (optional value ?_)
    have found : value ∈ Attribute.values (rows.map attributeOf) subject e.predicate := by
      rw [hv]
      exact List.mem_cons_self
    obtain ⟨a, ha, rfl⟩ := List.mem_map.1 found
    obtain ⟨hm, same⟩ := List.mem_filter.1 ha
    obtain ⟨r, hr, rfl⟩ := List.mem_map.1 hm
    rw [Bool.and_eq_true, decide_eq_true_iff, decide_eq_true_iff] at same
    refine ⟨r, List.mem_map.2 ⟨(p.extensionPart head e, r), ?_, rfl⟩, .object, rfl⟩
    exact List.mem_flatMap.2 ⟨e, he, List.mem_map.2
      ⟨r, List.mem_filter.2 ⟨hr, decide_eq_true same⟩, rfl⟩⟩

theorem optionalUses_seen {p : OptionalPlan} (formed : p.Formed) {security : Pattern} {t : Table}
    {options : Options} {core : Solutions} (ht : p.core.answer t (some security) options = .ok core)
    {rows : List Row} (hr : p.guardedRows t security (p.subjects core.rows) = .ok rows) {head : Part}
    (first : p.core.parts.head? = some head) (subject : Term) {part : Part} {row : Row}
    (mem : (part, row) ∈ p.optionalUses head subject rows) :
    part ∈ p.extensionParts ∧ row ∈ t.rows ∧ part.sees security row = true := by
  obtain ⟨e, he, mem⟩ := List.mem_flatMap.1 mem
  obtain ⟨r, hrow, eq⟩ := List.mem_map.1 mem
  cases eq
  have found := List.mem_of_mem_filter hrow
  unfold guardedRows at hr
  split at hr
  · cases hr
    cases found
  · obtain ⟨stored, taken⟩ := Store.mem_fetched hr found
    exact ⟨mem_extensionParts first he, stored,
      extension_seen formed (subjects_seen ht first) taken he⟩

theorem explained {p : OptionalPlan} (formed : p.Formed) {security : Pattern} {t : Table}
    {options : Options} {core found : Solutions} (ht : p.core.answer t (some security) options = .ok core)
    (h : p.extended t security core = .ok found) {b : Binding} (mem : b ∈ found.rows) :
    ∃ uses : List (Part × Row), p.core.parts <+: uses.map (·.1) ∧
      (∀ part row, (part, row) ∈ uses →
        part ∈ p.core.parts ++ p.extensionParts ∧ row ∈ t.rows ∧ part.sees security row = true) ∧
      b.Values (FromRows (uses.map (·.2))) := by
  unfold extended at h
  split at h
  · cases h
    cases mem
  · obtain ⟨rows, hr, rfl⟩ := map_eq_ok h
    obtain ⟨c, hc, rfl⟩ := List.mem_map.1 mem
    obtain ⟨uses, parts, seen, values⟩ := GroupPlan.explained ht hc
    cases bound : c.get? p.core.subject with
    | none =>
      refine ⟨uses, parts ▸ List.prefix_refl _, fun part row used => ?_, ?_⟩
      · obtain ⟨inside, rest⟩ := seen part row used
        exact ⟨List.mem_append_left _ inside, rest⟩
      · rw [extend, bound]
        exact values
    | some subject =>
      obtain ⟨head, first⟩ := GroupPlan.exists_head ht hc
      refine ⟨uses ++ p.optionalUses head subject rows, ?_, ?_, ?_⟩
      · rw [List.map_append, parts]
        exact List.prefix_append _ _
      · intro part row used
        rcases List.mem_append.1 used with used | used
        · obtain ⟨inside, rest⟩ := seen part row used
          exact ⟨List.mem_append_left _ inside, rest⟩
        · obtain ⟨inside, rest⟩ := optionalUses_seen formed ht hr first subject used
          exact ⟨List.mem_append_right _ inside, rest⟩
      · rw [List.map_append]
        refine values_extend p head rows bound ?_ fun v hv => hv.mono (List.subset_append_right _ _)
        intro name v hv
        exact (values name v hv).mono (List.subset_append_left _ _)

end OptionalPlan

namespace Route

theorem Explained.restrict {r : Route} {security : Pattern} {t : Table} {b : Binding}
    {uses : List (Part × Row)} (h : r.Explained security t b uses) (names : List Text) :
    r.Explained security t (b.restrict names) uses :=
  ⟨h.required, h.seen, h.values.restrict names⟩

theorem single_explained (p : SinglePlan) {security : Pattern} {t : Table} {rows : List Row}
    (h : Store.fetched t (p.triple.inGraph (p.triple.lookup (some security))) p.options = .ok rows)
    {b : Binding} (mem : b ∈ (p.solutions rows).rows) :
    ∃ uses, (single p).Explained security t b uses := by
  obtain ⟨row, inside, rfl⟩ := List.mem_map.1 (Solutions.mem_of_mem_window mem)
  obtain ⟨stored, taken⟩ := Store.mem_fetched h inside
  rw [← p.lookup_part] at taken
  refine ⟨[(p.part, row)], List.prefix_refl _, ?_, p.values_bind row⟩
  intro part row used
  cases List.mem_singleton.1 used
  exact ⟨List.mem_singleton.2 rfl, stored, p.part.sees_of_lookup security _ taken⟩

theorem multi_explained {p : MultiPlan} (formed : (multi p).Formed) {security : Pattern} {t : Table}
    {found : Solutions} {options : Options} (h : MultiPlan.found p.shape t security options = .ok found)
    {b : Binding} (mem : b ∈ found.rows) : ∃ uses, (multi p).Explained security t b uses := by
  obtain ⟨modifiers, shape⟩ := p
  unfold MultiPlan.found at h
  cases shape with
  | none => cases h
  | compound p =>
    obtain ⟨uses, parts, seen, values⟩ := GroupPlan.explained (mapError_eq_ok h) mem
    refine ⟨uses, parts ▸ List.prefix_refl _, fun part row used => ?_, values⟩
    obtain ⟨inside, rest⟩ := seen part row used
    exact ⟨List.mem_append_left _ inside, rest⟩
  | optional p =>
    dsimp only at h
    cases ha : p.core.answer t (some security) options with
    | error e =>
      rw [ha] at h
      cases h
    | ok core =>
      rw [ha] at h
      obtain ⟨uses, parts, seen, values⟩ := OptionalPlan.explained formed ha (mapError_eq_ok h) mem
      exact ⟨uses, parts, seen, values⟩

theorem answer?_explained {r : Route} (formed : r.Formed) {security : Pattern} {t : Table}
    {found : Solutions} (h : r.answer? t security = some (.ok found)) {b : Binding} (mem : b ∈ found.rows) :
    ∃ uses, r.Explained security t b uses := by
  cases r with
  | delegated => cases h
  | single p =>
    obtain ⟨rows, fetched, rfl⟩ := map_eq_ok (mapError_eq_ok (Option.some.inj h))
    exact single_explained p fetched mem
  | multi p =>
    obtain ⟨core, answered, rfl⟩ := map_eq_ok (Option.some.inj h)
    obtain ⟨c, inside, names, rfl⟩ := MultiPlan.mem_finish mem
    obtain ⟨uses, explained⟩ := multi_explained formed answered inside
    exact ⟨uses, explained.restrict names⟩

theorem parts_first (r : Route) : r.first.required = r.required ∧ r.first.parts = r.parts := by
  cases r with
  | multi p =>
    obtain ⟨modifiers, shape⟩ := p
    cases shape <;> exact ⟨rfl, rfl⟩
  | _ => exact ⟨rfl, rfl⟩

end Route

namespace Engine

variable {δ : Type} [Evaluator δ]

/-- Under a security pattern, solutions come from rows that the pattern lets the parts of the query
see, and no other row has a part in any answer. -/
theorem answers_isolated (query : Text) (security : Pattern) (t : Table) (evaluator : Option δ)
    (flag : Bool) (optimized : (Route.ofText query).isOptimized = true) :
    (∀ found, (select query (some security) ⟨⟨true, t⟩, evaluator, flag⟩).1 = .ok found →
      ∀ b ∈ found.rows, ∃ uses, (Route.ofText query).Explained security t b uses) ∧
    ((ask query (some security) ⟨⟨true, t⟩, evaluator, flag⟩).1 = .ok true →
      ∃ b uses, (Route.ofText query).Explained security t b uses) ∧
    ∀ u, (Route.ofText query).Alike security t u →
      (select query (some security) ⟨⟨true, t⟩, evaluator, flag⟩).1 =
        (select query (some security) ⟨⟨true, u⟩, evaluator, flag⟩).1 ∧
      (ask query (some security) ⟨⟨true, t⟩, evaluator, flag⟩).1 =
        (ask query (some security) ⟨⟨true, u⟩, evaluator, flag⟩).1 := by
  have formed := Route.formed_ofText query
  have first := Route.formed_first formed
  obtain ⟨required, parts⟩ := Route.parts_first (Route.ofText query)
  have firstOptimized : (Route.ofText query).first.isOptimized = true := by
    cases hr : Route.ofText query with
    | delegated =>
      rw [hr] at optimized
      cases optimized
    | _ => rfl
  obtain ⟨answer, ha⟩ := answer?_isSome _ t security optimized
  obtain ⟨asked, hq⟩ := answer?_isSome _ t security firstOptimized
  refine ⟨?_, ?_, ?_⟩
  · intro found h b mem
    rw [select_open query t security evaluator flag answer ha] at h
    rw [h] at ha
    exact Route.answer?_explained formed ha mem
  · intro h
    rw [ask_open query t security evaluator flag asked hq] at h
    cases asked with
    | error e => cases h
    | ok found =>
      have some_ : found.rows ≠ [] := by
        intro none
        rw [Except.map, none] at h
        cases h
      obtain ⟨b, mem⟩ := List.exists_mem_of_ne_nil _ some_
      obtain ⟨uses, explained⟩ := Route.answer?_explained first hq mem
      refine ⟨b, uses, ?_, ?_, explained.values⟩
      · rw [← required]
        exact explained.required
      · rw [← parts]
        exact explained.seen
  · intro u alike
    have alikeFirst : (Route.ofText query).first.Alike security t u := by
      unfold Route.Alike
      rw [parts]
      exact alike
    have ha' := (Route.answer?_alike formed alike).symm.trans ha
    have hq' := (Route.answer?_alike first alikeFirst).symm.trans hq
    rw [select_open query t security evaluator flag answer ha,
      select_open query u security evaluator flag answer ha',
      ask_open query t security evaluator flag asked hq, ask_open query u security evaluator flag asked hq']
    exact ⟨rfl, rfl⟩

def bobTable : Table :=
  { Table.empty false with
    rows := [⟨"http://ex/bob/g", "http://ex/s", "http://ex/p", "http://ex/o", none⟩] }

def alice : Pattern := { graph := some (.operators { startsWith := some "http://ex/alice/" }) }

def everything : Text := "SELECT ?s WHERE { ?s ?p ?o }"

set_option maxRecDepth 100000 in
theorem answers_isolated_alice :
    (Route.ofText everything).isOptimized = true ∧
    (ask everything (some alice) ⟨⟨true, bobTable⟩, (none : Option Empty), false⟩).1 =
      (ask everything (some alice) ⟨⟨true, Table.empty false⟩, (none : Option Empty), false⟩).1 := by
  have optimized : (Route.ofText everything).isOptimized = true := by decide +kernel
  have alike : (Route.ofText everything).Alike alice bobTable (Table.empty false) := by
    unfold Route.Alike
    decide +kernel
  have isolated := (answers_isolated everything alice bobTable (none : Option Empty) false optimized).2.2
  exact ⟨optimized, (isolated (Table.empty false) alike).2⟩

def bobsGraph : Text := "SELECT ?s WHERE { GRAPH <http://ex/bob/g> { ?s ?p ?o } }"

set_option maxRecDepth 100000 in
theorem named_graph_not_isolated :
    (Route.ofText bobsGraph).isOptimized = true ∧
    (select bobsGraph (some alice) ⟨⟨true, bobTable⟩, (none : Option Empty), false⟩).1.toOption.map
      Solutions.rows = some [[(("s" : Text), Term.iri ("http://ex/s" : Text))]] ∧
    ∀ r ∈ bobTable.rows, alice.admits r = false := by
  decide +kernel

end Engine

end QuadStore
