import QuadStore.Proofs.GroupAnswers

namespace QuadStore

open Sql Sparql Step

/-- Whether a graph has the stored text of the one that a query names, if it names one. -/
def Term.isStoredIn (scope : Option Term) (t : Term) : Bool :=
  (Store.namedGraph? scope).all fun g => t.encode = g.encode

/-- Where the stored text of the named graph gives it back, no other graph has that text. -/
theorem Term.isStoredIn_eq {scope : Option Term}
    (named : ∀ g ∈ scope, g ≠ .defaultGraph ∧ g.isVar = false ∧ g.Kept .graph) {t : Term} (own : t.Kept .graph) :
    t.isStoredIn scope = t.inScope scope := by
  cases scope with
  | none => rfl
  | some g =>
    obtain ⟨notDefault, fixed, kept⟩ := named g rfl
    have same : t.encode = g.encode ↔ t = g := own.stored_inj kept
    cases g with
    | var name => cases fixed
    | defaultGraph => exact absurd rfl notDefault
    | iri | blank | literal => exact decide_eq_decide.2 same

theorem OptionalPlan.attributeOf_toRow {k : Quint} (kept : k.toQuad.Kept) :
    attributeOf k.toRow = ⟨k.subject, k.predicate, k.object⟩ := by
  unfold attributeOf
  rw [Quint.toQuad_ofRow kept]

namespace Store

def properties (subjects predicates : List Term) (graph : Option Term) (qs : List Quint) : List Attribute :=
  (qs.filter fun k => subjects.contains k.subject && predicates.contains k.predicate &&
    k.graph.inScope graph).map fun k => ⟨k.subject, k.predicate, k.object⟩

variable {subjects predicates : List Term} {graph : Option Term}

theorem contains_encode {p : Position} (plain : ∀ t : Term, t.stored p = t.encode) {ts : List Term}
    (kept : ∀ t ∈ ts, t.Kept p) {t : Term} (own : t.Kept p) :
    (ts.map Term.encode).contains t.encode = ts.contains t := by
  rw [Bool.eq_iff_iff, List.contains_iff_mem, List.contains_iff_mem, List.mem_map]
  constructor
  · rintro ⟨u, mem, same⟩
    rw [← plain, ← plain] at same
    rwa [← ((kept u mem).stored_inj own).1 same]
  · exact fun mem => ⟨t, mem, rfl⟩

theorem satisfies_row (subjects predicates : List Term) (graph : Option Term) (r : Row) :
    Table.satisfies r (attributeClauses subjects predicates graph) =
      ((subjects.map Term.encode).contains r.subject && (predicates.map Term.encode).contains r.predicate &&
        (namedGraph? graph).all fun g => r.graph = g.encode) := by
  have scope : Table.satisfies r ((namedGraph? graph).map fun g => ⟨.graph, .compare .eq g.encode⟩).toList =
      (namedGraph? graph).all fun g => r.graph = g.encode := by
    cases namedGraph? graph with
    | none => rfl
    | some g => exact Bool.and_true _
  unfold attributeClauses
  rw [Table.satisfies, List.all_append, ← scope]
  simp only [List.all_cons, List.all_nil, Bool.and_true]
  rfl

theorem satisfies_stored (subjects predicates : List Term) (graph : Option Term) (k : Quint) :
    Table.satisfies k.toRow (attributeClauses subjects predicates graph) =
      ((subjects.map Term.encode).contains k.subject.encode &&
        (predicates.map Term.encode).contains k.predicate.encode && k.graph.isStoredIn graph) :=
  satisfies_row subjects predicates graph k.toRow

theorem satisfies_property (hs : ∀ t ∈ subjects, t.Kept .subject) (hp : ∀ t ∈ predicates, t.Kept .predicate)
    (named : ∀ g ∈ graph, g ≠ .defaultGraph ∧ g.isVar = false ∧ g.Kept .graph) {k : Quint}
    (stored : k.toQuad.Kept) :
    Table.satisfies k.toRow (attributeClauses subjects predicates graph) =
      (subjects.contains k.subject && predicates.contains k.predicate && k.graph.inScope graph) := by
  have subject : (subjects.map Term.encode).contains k.subject.encode = subjects.contains k.subject :=
    contains_encode (fun _ => rfl) hs (stored .subject)
  have predicate : (predicates.map Term.encode).contains k.predicate.encode = predicates.contains k.predicate :=
    contains_encode (fun _ => rfl) hp (stored .predicate)
  have scope : k.graph.isStoredIn graph = k.graph.inScope graph := Term.isStoredIn_eq named (stored .graph)
  rw [satisfies_stored, subject, predicate, scope]

theorem getAttributes_holding (hs : ∀ t ∈ subjects, t.Kept .subject)
    (hp : ∀ t ∈ predicates, t.Kept .predicate)
    (named : ∀ g ∈ graph, g ≠ .defaultGraph ∧ g.isVar = false ∧ g.Kept .graph) (lasting : Bool)
    {qs : List Quint} (stored : ∀ k ∈ qs, k.toQuad.Kept) :
    getAttributes subjects predicates graph ⟨true, Table.holding lasting qs⟩ =
      (.ok (properties subjects predicates graph qs), ⟨true, Table.holding lasting qs⟩) := by
  unfold getAttributes
  rw [bind_apply, requireOpen_apply]
  simp only [if_true]
  by_cases none_ : (subjects.isEmpty || predicates.isEmpty) = true
  · have nothing : properties subjects predicates graph qs = [] := by
      unfold properties
      rw [List.map_eq_nil_iff, List.filter_eq_nil_iff]
      intro k _
      rw [Bool.or_eq_true, List.isEmpty_iff, List.isEmpty_iff] at none_
      rcases none_ with rfl | rfl <;> simp
    rw [if_pos none_, nothing]
    rfl
  · rw [if_neg none_, bind_apply, query_apply]
    have rows : (Table.holding lasting qs).selected (attributeClauses subjects predicates graph) =
        (qs.filter fun k => subjects.contains k.subject && predicates.contains k.predicate &&
          k.graph.inScope graph).map Quint.toRow := by
      unfold Table.selected Table.holding
      rw [List.filter_map]
      congr 1
      apply List.filter_congr
      intro k mem
      exact satisfies_property hs hp named (stored k mem)
    change (Except.ok ((Table.answer _ (.select _ (attributeClauses subjects predicates graph) {})).map _), _) = _
    rw [Table.answer, Table.slice_all, Table.sorted_unordered _ _ _ rfl, rows, List.map_map, List.map_map,
      properties]
    congr 2
    apply List.map_congr_left
    intro k mem
    exact OptionalPlan.attributeOf_toRow (stored k (List.mem_of_mem_filter mem))

theorem values_properties {s p : Term} (hs : s ∈ subjects) (hp : p ∈ predicates) (qs : List Quint) :
    Attribute.values (properties subjects predicates graph qs) s p =
      (qs.filter fun k => k.toQuad.hasProperty graph s p).map (·.object) := by
  unfold Attribute.values properties
  rw [List.filter_map, List.filter_filter, List.map_map]
  have same : ∀ k : Quint, ((decide (k.subject = s) && decide (k.predicate = p)) &&
      (subjects.contains k.subject && predicates.contains k.predicate && k.graph.inScope graph)) =
        k.toQuad.hasProperty graph s p := by
    intro k
    unfold Quad.hasProperty
    by_cases subject : k.subject = s
    · by_cases predicate : k.predicate = p
      · simp [subject, predicate, hs, hp]
      · simp [predicate]
    · simp [subject]
  simp only [Function.comp_def, same]

end Store

namespace OptionalPlan

variable {p : OptionalPlan}

theorem mem_targets {predicate : Term} {name : Text} :
    (predicate, name) ∈ p.targets ↔ ⟨predicate, some name⟩ ∈ p.extensions := by
  unfold targets
  rw [List.mem_filterMap]
  constructor
  · rintro ⟨⟨predicate', object⟩, mem, h⟩
    obtain ⟨name', rfl, eq⟩ := Option.map_eq_some_iff.1 h
    cases eq
    exact mem
  · exact fun mem => ⟨_, mem, rfl⟩

theorem names_targets (p : OptionalPlan) : p.targets.map (·.2) = p.extensions.filterMap (·.object) := by
  unfold targets
  rw [List.map_filterMap]
  congr 1
  funext e
  cases e.object <;> rfl

theorem get?_extend (nodup : (p.targets.map (·.2)).Nodup) (found : List Attribute) {b : Binding} {s : Term}
    (bound : b.get? p.core.subject = some s) (name : Text) :
    (p.extend found b).get? name =
      (p.targets.findSome? fun target =>
        if target.2 = name then (Attribute.values found s target.1).head? else none).or (b.get? name) := by
  unfold extend
  rw [bound]
  dsimp only
  apply Binding.get?_foldl_once fun (target : Term × Text) name =>
    if target.2 = name then (Attribute.values found s target.1).head? else none
  · rintro b ⟨predicate, x⟩ name
    dsimp only
    cases Attribute.values found s predicate with
    | nil => simp
    | cons value more =>
      dsimp only
      rw [Binding.get?_set]
      by_cases h : x = name
      · simp [h]
      · simp [h, Ne.symm h]
  · refine (List.pairwise_map.1 nodup).imp fun {target target'} apart name => ?_
    by_cases h : target.2 = name
    · exact Or.inr (if_neg fun h' => apart (h.trans h'.symm))
    · exact Or.inl (if_neg h)

theorem get?_extend_other (nodup : (p.targets.map (·.2)).Nodup) (found : List Attribute) {b : Binding}
    {name : Text} (other : name ∉ p.targets.map (·.2)) : (p.extend found b).get? name = b.get? name := by
  cases bound : b.get? p.core.subject with
  | none =>
    unfold extend
    rw [bound]
  | some s =>
    have nothing : (p.targets.findSome? fun target =>
        if target.2 = name then (Attribute.values found s target.1).head? else none) = none := by
      rw [List.findSome?_eq_none_iff]
      intro target mem
      exact if_neg fun same => other (List.mem_map.2 ⟨target, mem, same⟩)
    rw [get?_extend nodup found bound, nothing]
    rfl

theorem get?_extend_target (nodup : (p.targets.map (·.2)).Nodup) (found : List Attribute) {b : Binding}
    {s predicate : Term} {name : Text} (bound : b.get? p.core.subject = some s) (free : b.get? name = none)
    (mem : (predicate, name) ∈ p.targets) :
    (p.extend found b).get? name = (Attribute.values found s predicate).head? := by
  have value := findSome?_of_mem (fun target => (Attribute.values found s target.1).head?) nodup mem
  rw [get?_extend nodup found bound, free, Option.or_none]
  exact value

end OptionalPlan

namespace GroupPlan

variable {p : GroupPlan} {t : Table} {options : Options} {found : Solutions} {b : Binding}

theorem names_of_answer (h : p.answer t none options = .ok found) : found.names = p.names := by
  obtain ⟨results, -, rfl⟩ := map_eq_ok h
  rfl

theorem get?_of_answer (h : p.answer t none options = .ok found) (mem : b ∈ found.rows) {name : Text}
    (other : name ∉ p.names) : b.get? name = none := by
  obtain ⟨result, -, -, rfl⟩ := rows_of_answer h mem
  unfold names at other
  rw [List.mem_cons, not_or] at other
  rw [get?_bind result other.1, if_neg other.2]

theorem subject_of_answer {lasting : Bool} {qs : List Quint} (stored : ∀ k ∈ qs, k.toQuad.Kept)
    (h : p.answer (.holding lasting qs) none options = .ok found) (mem : b ∈ found.rows) :
    ∃ k ∈ qs, b.get? p.subject = some k.subject := by
  obtain ⟨result, rows, all, rfl⟩ := rows_of_answer h mem
  obtain ⟨first, head, value⟩ := all.value
  have inside : ∀ r ∈ rows, r ∈ (Table.holding lasting qs).rows := by
    intro r hr
    obtain ⟨i, lt, rfl⟩ := List.mem_iff_getElem.1 hr
    have bound : i < p.parts.length := all.parts.length_eq ▸ lt
    exact (List.Forall₂.get all.parts bound lt).1
  obtain ⟨k, hk, rfl⟩ := List.mem_map.1 (inside first (List.mem_of_mem_head? head))
  have kept : Term.decode k.subject.encode = k.subject := stored k hk .subject
  exact ⟨k, hk, by rw [bind_subject, value]; exact congrArg some kept⟩

theorem mem_varNames_of_group {filters : List Expression} {graph : Option Term} {least : Nat} {op : Operation}
    (h : ofGroup? filters graph (least + 1) op = some p) {name : Text} (mem : name ∈ p.names) :
    name ∈ p.triples.flatMap Quad.varNames := by
  obtain ⟨-, -, enough, filters', graph', -, -, h⟩ := ofGroup?_cases h
  obtain ⟨subjects, -, pushed⟩ := ofTriples?_cases h
  have triples : p.triples = op.triples.map (·.within graph') := by
    rw [GroupPlan.triples, pushAll?_triples pushed, List.map_map]
    rfl
  rcases List.mem_cons.1 mem with rfl | mem
  · obtain ⟨q, hq⟩ := List.exists_mem_of_length_pos (Nat.zero_lt_of_lt enough)
    have place : (q.within graph').get .subject = .var p.subject := subjects q hq
    rw [triples]
    exact List.mem_flatMap.2 ⟨_, List.mem_map_of_mem hq, Quad.mem_varNames place⟩
  · obtain ⟨s, hs, rfl⟩ := List.mem_map.1 mem
    have place := mem_selections hs
    rw [places_eq, List.mem_flatMap] at place
    obtain ⟨⟨part, i⟩, inside, place⟩ := place
    have part_ : part ∈ p.parts := (List.mem_zipIdx' inside).2 ▸ List.getElem_mem _
    exact List.mem_flatMap.2 ⟨_, List.mem_map_of_mem part_, Quad.mem_varNames (mem_placesOf place).2⟩

end GroupPlan

namespace OptionalPlan

variable {p : OptionalPlan} {op : Operation}

theorem Reads.fresh (h : p.Reads op) :
    (p.targets.map (·.2)).Nodup ∧ ∀ name ∈ p.targets.map (·.2), name ∉ p.core.names := by
  have new := h.new
  unfold areNew at new
  rw [← names_targets, Bool.and_eq_true, decide_eq_true_eq, List.all_eq_true] at new
  obtain ⟨filters, inner, core, -⟩ := h.core
  refine ⟨new.1, fun name mem bound => ?_⟩
  have other := new.2 name mem
  have inside := GroupPlan.mem_varNames_of_group core bound
  rw [List.contains_iff_mem.2 inside] at other
  cases other

theorem Reads.mem_targets (h : p.Reads op) {q : Quad} (mem : q ∈ op.optionals) {name : Text}
    (object : q.object = .var name) : (q.predicate, name) ∈ p.targets := by
  rw [OptionalPlan.mem_targets, h.extensions]
  refine List.mem_map.2 ⟨q, mem, ?_⟩
  rw [Extension.ofTriple, object]
  rfl

theorem extendAll_holding {core : Solutions} (hs : ∀ t ∈ p.subjects core.rows, t.Kept .subject)
    (hp : ∀ t ∈ p.predicates, t.Kept .predicate)
    (named : ∀ g ∈ p.graph, g ≠ .defaultGraph ∧ g.isVar = false ∧ g.Kept .graph) (lasting : Bool)
    {qs : List Quint} (stored : ∀ k ∈ qs, k.toQuad.Kept) :
    p.extendAll none core ⟨true, Table.holding lasting qs⟩ =
      (.ok ⟨p.names core.names, core.rows.map
        (p.extend (Store.properties (p.subjects core.rows) p.predicates p.graph qs))⟩,
        ⟨true, Table.holding lasting qs⟩) := by
  unfold extendAll
  by_cases none_ : core.rows.isEmpty = true
  · rw [if_pos none_, List.isEmpty_iff.1 none_]
    rfl
  · have fetched : p.attributes none (p.subjects core.rows) ⟨true, Table.holding lasting qs⟩ = _ :=
      Store.getAttributes_holding hs hp named lasting stored
    rw [if_neg none_, bind_apply, fetched]
    rfl

end OptionalPlan

namespace MultiPlan

section

variable {σ : Type} [Backend σ] {m : Modifiers} {p : OptionalPlan} {s middle after : Store σ}

theorem run_steps (asked : options m = {}) {core : Solutions} {answer : Except StoreError Solutions}
    (cored : p.core.run none {} s = (.ok core, middle)) (extended : p.extendAll none core middle = (answer, after)) :
    run ⟨m, .optional p⟩ none s = ((answer.mapError .store).map (finish m), after) := by
  unfold run
  rw [bind_apply, rows]
  dsimp only
  rw [adapt_apply, bind_apply, asked, cored]
  dsimp only
  rw [extended]
  cases answer <;> rfl

theorem run_failed (asked : options m = {}) {e : StoreError} (failed : p.core.run none {} s = (.error e, after)) :
    run ⟨m, .optional p⟩ none s = (.error (.store e), after) := by
  unfold run
  rw [bind_apply, rows]
  dsimp only
  rw [adapt_apply, bind_apply, asked, failed]
  rfl

end

theorem run_optional {m : Modifiers} (asked : options m = {}) {p : OptionalPlan} {t : Table}
    {core found : Solutions} (answered : p.core.answer t none {} = .ok core)
    (extended : p.extendAll none core ⟨true, t⟩ = (.ok found, ⟨true, t⟩)) :
    run ⟨m, .optional p⟩ none ⟨true, t⟩ = (.ok (finish m found), ⟨true, t⟩) :=
  run_steps asked (by rw [GroupPlan.run_open, answered]) extended

/-- Whether a query shows a variable; one that projects none shows all. -/
def Shows (names : List Text) (name : Text) : Prop := names = [] ∨ name ∈ names

/-- What becomes of a solution of a core whose variables are given: every optional triple adds one of
the values that its subject has, if there is any. -/
structure Extends (root : Operation) (names coreNames : List Text) (ks : List Quad) (before after : Binding) :
    Prop where
  core : ∀ name ∈ coreNames, Shows names name → after.get? name = before.get? name
  optional : ∀ q ∈ root.optionals, ∃ name s, q.subject = .var name ∧ before.get? name = some s ∧
    (s.isLiteral = false → ∀ x, q.object = .var x → Shows names x →
      ((after.get? x).isSome = true ↔ ∃ k ∈ ks, k.hasProperty root.around s q.predicate = true) ∧
      ∀ v ∈ after.get? x, ∃ k ∈ ks, k.hasProperty root.around s q.predicate = true ∧ k.object = v)

theorem get?_finish {names : List Text} {found : Solutions} (b : Binding) {name : Text}
    (shown : Shows names name) (known : name ∈ found.names) :
    (b.restrict (finish { names } found).names).get? name = b.get? name := by
  rw [Binding.get?_restrict]
  unfold finish
  cases names with
  | nil => exact if_pos known
  | cons n rest =>
    rcases shown with none_ | mem
    · cases none_
    · exact if_pos mem

theorem rows_finish {names : List Text} (found : Solutions) :
    (finish { names } found).rows = found.rows.map (·.restrict (finish { names } found).names) := by
  simp [finish, Solutions.window]

section

variable {root : Operation} {names : List Text} {p : OptionalPlan} {core : Solutions} {qs : List Quint}
  {lasting : Bool}

theorem value_of_reads (reads : p.Reads root) (answered : p.core.answer (.holding lasting qs) none {} = .ok core)
    {b : Binding} (mem : b ∈ core.rows) {q : Quad} (hq : q ∈ root.optionals) {s : Term}
    (bound : b.get? p.core.subject = some s) (resource : s.isLiteral = false) {x : Text} (object : q.object = .var x) :
    x ∈ p.names core.names ∧
      (p.extend (Store.properties (p.subjects core.rows) p.predicates p.graph qs) b).get? x =
        (qs.find? fun k => k.toQuad.hasProperty root.around s q.predicate).map (·.object) := by
  obtain ⟨nodup, fresh⟩ := reads.fresh
  have target := reads.mem_targets hq object
  have inTargets : x ∈ p.targets.map (·.2) := List.mem_map_of_mem target
  have asked : s ∈ p.subjects core.rows := by
    refine List.mem_eraseDups.2 (List.mem_filter.2 ⟨List.mem_filterMap.2 ⟨b, mem, bound⟩, ?_⟩)
    rw [resource]
    rfl
  have predicate : q.predicate ∈ p.predicates := by
    unfold OptionalPlan.predicates
    rw [reads.extensions, List.map_map]
    exact List.mem_map_of_mem hq
  have free : b.get? x = none := GroupPlan.get?_of_answer answered mem (fresh x inTargets)
  have value := OptionalPlan.get?_extend_target nodup (Store.properties (p.subjects core.rows) p.predicates p.graph qs)
    bound free target
  rw [Store.values_properties asked predicate, List.head?_map, List.head?_filter] at value
  rw [← GroupPlan.names_of_answer answered] at fresh
  refine ⟨List.mem_append_right _ (List.mem_eraseDups.2 (List.mem_filter.2 ⟨inTargets, ?_⟩)), ?_⟩
  · simpa using fresh x inTargets
  · rw [value, reads.graph]

theorem extends_of_reads (reads : p.Reads root) (stored : ∀ k ∈ qs, k.toQuad.Kept)
    (answered : p.core.answer (.holding lasting qs) none {} = .ok core) {b : Binding} (mem : b ∈ core.rows) :
    let found := Store.properties (p.subjects core.rows) p.predicates p.graph qs
    let shown := finish { names } ⟨p.names core.names, core.rows.map (p.extend found)⟩
    Extends root names core.names (qs.map (·.toQuad)) b ((p.extend found b).restrict shown.names) := by
  intro found shown
  obtain ⟨nodup, fresh⟩ := reads.fresh
  rw [← GroupPlan.names_of_answer answered] at fresh
  refine ⟨?_, ?_⟩
  · intro name own shows
    have known : name ∈ p.names core.names := List.mem_append_left _ own
    rw [get?_finish _ shows known]
    exact OptionalPlan.get?_extend_other nodup found fun target => fresh name target own
  · intro q hq
    obtain ⟨k, hk, bound⟩ := GroupPlan.subject_of_answer stored answered mem
    obtain ⟨subject, -⟩ := reads.subjects q hq
    refine ⟨_, _, subject, bound, ?_⟩
    intro resource x object shows
    obtain ⟨known, value⟩ := value_of_reads reads answered mem hq bound resource object
    rw [get?_finish _ shows known, value]
    cases hf : qs.find? fun k' => k'.toQuad.hasProperty root.around k.subject q.predicate with
    | none =>
      refine ⟨⟨nofun, ?_⟩, nofun⟩
      rintro ⟨k', inside, has⟩
      obtain ⟨k'', hk'', rfl⟩ := List.mem_map.1 inside
      exact absurd has (List.find?_eq_none.1 hf k'' hk'')
    | some k' =>
      have inside : k'.toQuad ∈ qs.map (·.toQuad) := List.mem_map_of_mem (List.mem_of_find?_eq_some hf)
      have has := List.find?_some hf
      refine ⟨⟨fun _ => ⟨_, inside, has⟩, fun _ => rfl⟩, ?_⟩
      intro v hv
      cases hv
      exact ⟨_, inside, has, rfl⟩

theorem subjects_kept (stored : ∀ k ∈ qs, k.toQuad.Kept)
    (answered : p.core.answer (.holding lasting qs) none {} = .ok core) :
    ∀ t ∈ p.subjects core.rows, t.Kept .subject := by
  intro t mem
  have inside := (List.mem_filter.1 (List.mem_eraseDups.1 mem)).1
  obtain ⟨b, hb, bound⟩ := List.mem_filterMap.1 inside
  obtain ⟨k, hk, own⟩ := GroupPlan.subject_of_answer stored answered hb
  rw [bound] at own
  cases own
  exact stored k hk .subject

theorem predicates_kept (reads : p.Reads root) (constants : ∀ q ∈ root.triples, q.Kept) :
    ∀ t ∈ p.predicates, t.Kept .predicate := by
  intro t mem
  unfold OptionalPlan.predicates at mem
  rw [reads.extensions, List.map_map] at mem
  obtain ⟨q, hq, rfl⟩ := List.mem_map.1 mem
  exact constants q (reads.covered ▸ List.mem_append_right _ hq) .predicate

theorem graph_kept (reads : p.Reads root) (named : ∀ g ∈ root.graphs, g ≠ .defaultGraph ∧ g.Kept .graph) :
    ∀ g ∈ p.graph, g ≠ .defaultGraph ∧ g.isVar = false ∧ g.Kept .graph := by
  intro g mem
  obtain ⟨filters, inner, -, -, graphs, -⟩ := reads.core
  have inside : g ∈ root.graphs := by
    rw [← graphs]
    exact List.mem_append_left _ (Option.mem_toList.2 mem)
  have fixed := reads.fixed
  rw [Option.mem_def.1 mem] at fixed
  exact ⟨(named g inside).1, fixed, (named g inside).2⟩

theorem core_answers (accepted : ofOperation root = ⟨{ names }, .optional p⟩) (free : root.isUnfiltered = true)
    (constants : ∀ q ∈ root.triples, q.Kept) (named : ∀ g ∈ root.graphs, g ≠ .defaultGraph ∧ g.Kept .graph)
    (stored : ∀ k ∈ qs, k.toQuad.Kept) (lasting : Bool) :
    Store.combinedQueries (p.core.compound none) {} = [p.core.query] ∧
    (∀ t, Limits.usual.refusal t p.core.query = none ↔ root.required.length ≤ 64) ∧
    ∃ core, p.core.answer (.holding lasting qs) none {} = .ok core ∧
      (core.rows.map Binding.get?).Perm
        (Group.solutions root.graphs.head? root.required (qs.map (·.toQuad))) := by
  have reads := reads_of_operation accepted
  obtain ⟨filters, inner, group, required, graphs, unfiltered⟩ := reads.core
  obtain ⟨rfl, free⟩ := unfiltered free
  obtain ⟨bare, enough⟩ := GroupPlan.bare_ofGroup free group
  obtain ⟨same, -⟩ := GroupPlan.ofGroup?_cases group
  rw [graphs, ← same, required] at bare
  rw [← same, required] at enough
  have some_ : root.required ≠ [] := List.ne_nil_of_length_pos enough
  have scope : ∀ g ∈ root.graphs.head?, g ≠ .defaultGraph ∧ g.Kept .graph :=
    fun g mem => named g (List.mem_of_head? mem)
  have core : ∀ q ∈ root.required, q.Kept :=
    fun q mem => constants q (reads.covered ▸ List.mem_append_left _ mem)
  obtain ⟨rows, answered, perm⟩ := bare.answers some_ core scope lasting stored
  exact ⟨bare.queries some_, bare.usual_takes some_, _, answered, perm⟩

/-- A query with optional triples answers one solution for each that the other triples have. What these
triples fail with it fails with, and so it does if the engine refuses the request for the optional values;
either way nothing has changed. -/
theorem optional_answers (accepted : ofOperation root = ⟨{ names }, .optional p⟩)
    (constants : ∀ q ∈ root.triples, q.Kept) (named : ∀ g ∈ root.graphs, g ≠ .defaultGraph ∧ g.Kept .graph)
    (stored : ∀ k ∈ qs, k.toQuad.Kept) (lasting : Bool) (limits : Limits) :
    (∀ e after, p.core.run none {} (Store.limited limits lasting qs) = (.error e, after) →
      after = Store.limited limits lasting qs ∧
      (ofOperation root).run none (Store.limited limits lasting qs) =
        (.error (.store e), Store.limited limits lasting qs)) ∧
    (∀ core after, p.core.run none {} (Store.limited limits lasting qs) = (.ok core, after) →
      (limits.refused (.holding lasting qs) (p.batchQueries none (p.subjects core.rows)) = none →
        ∃ found, (ofOperation root).run none (Store.limited limits lasting qs) =
            (.ok found, Store.limited limits lasting qs) ∧
          List.Forall₂ (Extends root names core.names (qs.map (·.toQuad))) core.rows found.rows) ∧
      (∀ failure, limits.refused (.holding lasting qs) (p.batchQueries none (p.subjects core.rows)) = some failure →
        (ofOperation root).run none (Store.limited limits lasting qs) =
          (.error (.store (.sql failure)), Store.limited limits lasting qs)) ∧
      (limits.values < (p.subjects core.rows).length →
        (limits.refused (.holding lasting qs) (p.batchQueries none (p.subjects core.rows))).isSome = true) ∧
      (Limits.usual.refused (.holding lasting qs) (p.batchQueries none (p.subjects core.rows)) = none ↔
        p.subjects core.rows = [] ∨
          (p.subjects core.rows).length + p.predicates.length + (Store.namedGraph? p.graph).toList.length ≤ 32766)) ∧
    (root.isUnfiltered = true →
      (limits.refusal (.holding lasting qs) p.core.query = none →
        ∃ core, p.core.run none {} (Store.limited limits lasting qs) = (.ok core, Store.limited limits lasting qs) ∧
          (core.rows.map Binding.get?).Perm
            (Group.solutions root.graphs.head? root.required (qs.map (·.toQuad)))) ∧
      (∀ failure, limits.refusal (.holding lasting qs) p.core.query = some failure →
        p.core.run none {} (Store.limited limits lasting qs) =
          (.error (.sql failure), Store.limited limits lasting qs)) ∧
      (Limits.usual.refusal (.holding lasting qs) p.core.query = none ↔ root.required.length ≤ 64)) := by
  have reads := reads_of_operation accepted
  have asks := p.core.run_asks none {} (.holding lasting qs)
  rw [accepted]
  refine ⟨?_, ?_, ?_⟩
  · intro e after failed
    obtain rfl := asks.unchanged failed
    exact ⟨rfl, run_failed rfl failed⟩
  · intro core after answered
    obtain ⟨taken, onTable⟩ := asks.of_ok answered
    rw [GroupPlan.run_open] at onTable
    have onTable := (Prod.mk.inj onTable).1
    obtain rfl := asks.unchanged answered
    have batch := p.extendAll_asks none core (.holding lasting qs)
    refine ⟨fun taken => ?_, fun failure refused => run_steps rfl answered (batch.refused refused), fun many => ?_,
      Store.usual_takes_properties _ reads.some_predicates p.graph⟩
    · have extended := OptionalPlan.extendAll_holding (subjects_kept stored onTable) (predicates_kept reads constants)
        (graph_kept reads named) lasting stored
      have run := batch.taken limits taken
      rw [extended] at run
      refine ⟨_, run_steps rfl answered run, ?_⟩
      rw [rows_finish, List.map_map, List.forall₂_map_right_iff, List.forall₂_same]
      exact fun b mem => extends_of_reads reads stored onTable mem
    · exact Store.many_subjects_refused _ reads.some_predicates many p.graph
  · intro free
    obtain ⟨one, taken, core, answered, perm⟩ := core_answers accepted free constants named stored lasting
    rw [one] at asks
    refine ⟨fun taken => ⟨core, ?_, perm⟩, fun failure refused => ?_, taken _⟩
    · have run := asks.taken_alone limits taken
      rwa [GroupPlan.run_open, answered] at run
    · exact asks.refused_alone refused

end

def nameAndMail : Operation :=
  .leftJoin (.bgp [⟨.var "s", .iri "http://ex/name", .var "n", .defaultGraph⟩])
    (.bgp [⟨.var "s", .iri "http://ex/mail", .var "m", .defaultGraph⟩]) none

def addresses : List Quint :=
  [⟨⟨.iri "http://ex/ann", .iri "http://ex/name", .plain "Ann", .defaultGraph⟩, none⟩,
   ⟨⟨.iri "http://ex/ann", .iri "http://ex/name", .plain "Anna", .defaultGraph⟩, none⟩,
   ⟨⟨.iri "http://ex/ann", .iri "http://ex/mail", .iri "mailto:ann", .defaultGraph⟩, none⟩,
   ⟨⟨.iri "http://ex/bob", .iri "http://ex/name", .plain "Bob", .defaultGraph⟩, none⟩]

def addressPlan : OptionalPlan where
  core := ⟨"s", [⟨⟨.var "s", .iri "http://ex/name", .var "n", .defaultGraph⟩, []⟩]⟩
  extensions := [⟨.iri "http://ex/mail", some "m"⟩]
  graph := none

def addressNames : Solutions where
  names := ["s", "n"]
  rows :=
    [[("s", .iri "http://ex/ann"), ("n", .plain "Ann")],
     [("s", .iri "http://ex/ann"), ("n", .plain "Anna")],
     [("s", .iri "http://ex/bob"), ("n", .plain "Bob")]]

theorem stored_addresses : ∀ k ∈ addresses, k.toQuad.Kept := by
  decide +kernel

theorem answer_addresses : addressPlan.core.answer (.holding true addresses) none {} = .ok addressNames := by
  have bare : addressPlan.core.Bare none [⟨.var "s", .iri "http://ex/name", .var "n", .defaultGraph⟩] :=
    ⟨by decide, by decide, rfl⟩
  exact congrArg (Except.map _) (bare.combined_single (by decide +kernel) nofun true stored_addresses)

theorem run_addresses : addressPlan.core.run none {} (Store.limited .usual true addresses) =
    (.ok addressNames, Store.limited .usual true addresses) := by
  have run := (addressPlan.core.run_asks none {} (.holding true addresses)).taken .usual (by decide +kernel)
  rwa [GroupPlan.run_open, answer_addresses] at run

theorem optional_answers_addresses :
    ∃ found, (ofOperation (.project ["n", "m"] nameAndMail)).run none (Store.limited .usual true addresses) =
        (.ok found, Store.limited .usual true addresses) ∧
      List.Forall₂ (Extends (.project ["n", "m"] nameAndMail) ["n", "m"] ["s", "n"]
        (addresses.map (·.toQuad))) addressNames.rows found.rows := by
  have accepted : ofOperation (.project ["n", "m"] nameAndMail) =
      ⟨{ names := ["n", "m"] }, .optional addressPlan⟩ := by rfl
  have constants : ∀ q ∈ Operation.triples (.project ["n", "m"] nameAndMail), q.Kept := by decide +kernel
  have named : ∀ g ∈ Operation.graphs (.project ["n", "m"] nameAndMail), g ≠ .defaultGraph ∧ g.Kept .graph :=
    fun g mem => absurd mem List.not_mem_nil
  obtain ⟨-, answers, -⟩ := optional_answers accepted constants named stored_addresses true .usual
  exact (answers addressNames _ run_addresses).1 (by decide +kernel)

/-- A group with more triples than there may be tables in a join, and an optional triple. -/
def wideOptional : Operation :=
  .leftJoin wideGroup (.bgp [⟨.var "s", .iri "http://ex/mail", .var "m", .defaultGraph⟩]) none

def widePlan : OptionalPlan where
  core := ⟨"s", List.replicate 65 ⟨⟨.var "s", .iri "http://ex/name", .plain "Ann", .defaultGraph⟩, []⟩⟩
  extensions := [⟨.iri "http://ex/mail", some "m"⟩]
  graph := none

/-- A query with REDUCED merges solutions that it does not tell apart, and one whose triples make too wide a
join has no answer. -/
theorem reduced_merges_addresses :
    (ofOperation (.reduced (.project ["m"] nameAndMail)) =
        ⟨{ names := ["m"], isDistinct := true }, .optional addressPlan⟩ ∧
      addressPlan.core.run none {} (Store.limited .usual true addresses) =
        (.ok addressNames, Store.limited .usual true addresses) ∧
      ∃ found, (ofOperation (.reduced (.project ["m"] nameAndMail))).run none (Store.limited .usual true addresses) =
          (.ok found, Store.limited .usual true addresses) ∧
        addressNames.rows.length = 3 ∧ found.rows.length = 2) ∧
    ofOperation (.project ["s", "m"] wideOptional) = ⟨{ names := ["s", "m"] }, .optional widePlan⟩ ∧
    (Group.solutions none wideGroup.triples [annsName.toQuad]).length = 1 ∧
    (ofOperation (.project ["s", "m"] wideOptional)).run none (Store.limited .usual true [annsName]) =
      (.error (.store (.sql Limits.tooManyTables)), Store.limited .usual true [annsName]) := by
  have reduced : ofOperation (.reduced (.project ["m"] nameAndMail)) =
      ⟨{ names := ["m"], isDistinct := true }, .optional addressPlan⟩ := by rfl
  have wide : ofOperation (.project ["s", "m"] wideOptional) =
      ⟨{ names := ["s", "m"] }, .optional widePlan⟩ := by rfl
  have subjects : ∀ t ∈ addressPlan.subjects addressNames.rows, t.Kept .subject := by decide +kernel
  have predicates : ∀ t ∈ addressPlan.predicates, t.Kept .predicate := by decide +kernel
  have onTable := OptionalPlan.extendAll_holding subjects predicates nofun true stored_addresses
  have extended := (addressPlan.extendAll_asks none addressNames (.holding true addresses)).taken
    .usual (by decide +kernel)
  rw [onTable] at extended
  have run := run_steps (m := { names := ["m"], isDistinct := true }) rfl run_addresses extended
  rw [← reduced] at run
  refine ⟨⟨reduced, run_addresses, _, run, by decide +kernel, by decide +kernel⟩, wide, by decide +kernel, ?_⟩
  rw [wide]
  exact run_failed rfl ((widePlan.core.run_asks none {} (.holding true [annsName])).refused (by decide +kernel))

end MultiPlan

end QuadStore
