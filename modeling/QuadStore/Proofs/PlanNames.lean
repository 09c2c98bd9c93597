import QuadStore.Proofs.NestedGraphs
import QuadStore.Proofs.OptionalRows
import QuadStore.Proofs.TreeReading
import QuadStore.Proofs.VisibleNames

namespace QuadStore

open Sparql Step

namespace Sparql.Operation

def isAdditive : Operation → Bool
  | bgp _ => true
  | minus .. => false
  | join left right | leftJoin left right _ | union left right => left.isAdditive && right.isAdditive
  | graph _ input | filter _ input | orderBy _ input | project _ input | distinct input | reduced input
  | slice _ _ input | ask input | construct _ input | describe _ input => input.isAdditive

def placed (op : Operation) : List Term := termsOf op.triples ++ op.graphs

/-- The terms that a plan takes from an operation: those of the triples, and the innermost of graphs in
graphs. -/
def matched (op : Operation) : List Term := termsOf op.triples ++ op.graphs.getLast?.toList

theorem matched_subset_placed (op : Operation) : op.matched ⊆ op.placed := by
  intro t mem
  refine List.mem_append.2 ((List.mem_append.1 mem).imp_right fun mem => ?_)
  exact List.mem_of_getLast? (Option.mem_toList.1 mem)

theorem matched_eq {op : Operation} {graph : Option Term} (graphs : graph.toList = op.graphs) :
    op.matched = termsOf op.triples ++ graph.toList := by
  rw [matched, ← graphs]
  cases graph <;> rfl

theorem mem_placed_of_two (left right : Operation) {op : Operation}
    (triples : op.triples = left.triples ++ right.triples) (graphs : op.graphs = left.graphs ++ right.graphs)
    {t : Term} (mem : t ∈ op.placed) : t ∈ left.placed ∨ t ∈ right.placed := by
  rw [placed, triples, graphs, termsOf_append] at mem
  simp only [placed, List.mem_append] at mem ⊢
  tauto

theorem get_of_mem_terms {q : Quad} {t : Term} (mem : t ∈ [q.subject, q.predicate, q.object, q.graph]) :
    ∃ p ∈ Position.all, q.get p = t := by
  simp only [List.mem_cons, List.not_mem_nil, or_false] at mem
  rcases mem with rfl | rfl | rfl | rfl
  · exact ⟨.subject, by decide, rfl⟩
  · exact ⟨.predicate, by decide, rfl⟩
  · exact ⟨.object, by decide, rfl⟩
  · exact ⟨.graph, by decide, rfl⟩

theorem mem_mentioned {op : Operation} (additive : op.isAdditive = true) {t : Term} (mem : t ∈ op.placed) {x : Text}
    (visible : x ∈ shown t) : x ∈ op.mentioned := by
  fun_induction isAdditive op with
  | case1 found =>
    rcases List.mem_append.1 mem with mem | mem
    · obtain ⟨q, own, mem⟩ := List.mem_flatMap.1 mem
      obtain ⟨p, all, rfl⟩ := get_of_mem_terms mem
      exact List.mem_flatMap.2 ⟨q, own, List.mem_flatMap.2 ⟨p, all, visible⟩⟩
    · cases mem
  | case2 => cases additive
  | case3 left right ihl ihr | case4 left right condition ihl ihr | case5 left right ihl ihr =>
    obtain ⟨hl, hr⟩ := Bool.and_eq_true_iff.1 additive
    rcases mem_placed_of_two left right rfl rfl mem with mem | mem
    · exact List.mem_append_left _ (ihl hl mem)
    · exact List.mem_append_right _ (ihr hr mem)
  | case6 name input ih =>
    rw [placed, graphs, List.mem_append, List.mem_cons] at mem
    rcases mem with mem | rfl | mem
    · exact List.mem_append_right _ (ih additive (List.mem_append_left _ mem))
    · exact List.mem_append_left _ visible
    · exact List.mem_append_right _ (ih additive (List.mem_append_right _ mem))
  | _ =>
    rename_i ih
    exact ih additive mem

theorem placed_subset_terms : ∀ op : Operation, op.placed ⊆ op.terms
  | .bgp found => by
    intro t mem
    rwa [placed, graphs, List.append_nil] at mem
  | .join left right | .union left right | .minus left right => by
    intro t mem
    refine List.mem_append.2 ?_
    exact (mem_placed_of_two left right rfl rfl mem).imp (fun mem => left.placed_subset_terms mem)
      fun mem => right.placed_subset_terms mem
  | .leftJoin left right condition => by
    intro t mem
    refine List.mem_append_left _ (List.mem_append.2 ?_)
    exact (mem_placed_of_two left right rfl rfl mem).imp (fun mem => left.placed_subset_terms mem)
      fun mem => right.placed_subset_terms mem
  | .graph name input => by
    intro t mem
    rw [placed, graphs, List.mem_append, List.mem_cons] at mem
    rcases mem with mem | rfl | mem
    · exact List.mem_cons_of_mem _ (input.placed_subset_terms (List.mem_append_left _ mem))
    · exact List.mem_cons_self
    · exact List.mem_cons_of_mem _ (input.placed_subset_terms (List.mem_append_right _ mem))
  | .filter _ input | .orderBy _ input | .project _ input | .construct _ input | .describe _ input =>
    fun _ mem => List.mem_append_right _ (input.placed_subset_terms mem)
  | .distinct input | .reduced input | .slice _ _ input | .ask input => fun _ mem => input.placed_subset_terms mem

end Sparql.Operation

namespace Modifiers

/-- A reading of queries that notes what shapes their results, up to an order that it cannot note. -/
structure Notes {β : Type} (note : Modifiers → Operation → β) (stop : β → Prop) : Prop where
  project : ∀ m names op, note m (.project names op) = note (m.project names) op
  slice : ∀ m start length op, note m (.slice start length op) = note (m.slice start length) op
  distinct : ∀ m op, note m (.distinct op) = note { m with isDistinct := true } op
  reduced : ∀ m op, note m (.reduced op) = note { m with isDistinct := true } op
  ordered : ∀ {m m' conditions} op, m.orderBy? conditions = some m' → note m (.orderBy conditions op) = note m' op
  unordered : ∀ {m conditions} op, m.orderBy? conditions = none → stop (note m (.orderBy conditions op))

theorem notes_peel : Notes peel (·.2 = none) where
  project _ _ _ := rfl
  slice _ _ _ _ := rfl
  distinct _ _ := rfl
  reduced _ _ := rfl
  ordered _ h := by rw [peel, h]
  unordered _ h := by rw [peel, h]

theorem notes_triple : Notes (SinglePlan.triple? · none) (· = none) where
  project _ _ _ := rfl
  slice _ _ _ _ := rfl
  distinct _ _ := rfl
  reduced _ _ := rfl
  ordered _ h := by rw [SinglePlan.triple?, h]
  unordered _ h := by rw [SinglePlan.triple?, h]

theorem orderBy?_names {m m' : Modifiers} {conditions : List OrderCondition} (h : m.orderBy? conditions = some m') :
    m'.names = m.names := by
  unfold orderBy? at h
  split at h
  · obtain ⟨name, -, rfl⟩ := Option.map_eq_some_iff.1 h
    rfl
  · cases h

theorem Notes.select {β : Type} {note : Modifiers → Operation → β} {stop : β → Prop} (h : Notes note stop)
    (isDistinct isReduced : Bool) (names : List Text) (shape : Tree.Shape) {pattern : Operation}
    (formed : pattern.isOrdered = true) :
    let root := shape.sliced (Tree.wrapped isDistinct isReduced (.project names pattern))
    stop (note {} root) ∨ ∃ m inner, m.names = names ∧ inner.isGroup = true ∧
      (pattern = inner ∨ ∃ conditions, pattern = .orderBy conditions inner) ∧ note {} root = note m inner := by
  intro root
  have sliced : ∃ m : Modifiers, m.names = [] ∧
      note {} root = note m (Tree.wrapped isDistinct isReduced (.project names pattern)) := by
    unfold root Tree.Shape.sliced
    split
    · exact ⟨{}, rfl, rfl⟩
    · exact ⟨_, rfl, h.slice _ _ _ _⟩
  obtain ⟨m, none_, sliced⟩ := sliced
  have projected (m : Modifiers) (none_ : m.names = []) : (m.project names).names = names := by
    rw [Modifiers.project, none_, List.nil_append]
  obtain ⟨m', own, wrapped⟩ : ∃ m' : Modifiers, m'.names = names ∧
      note m (Tree.wrapped isDistinct isReduced (.project names pattern)) = note m' pattern := by
    unfold Tree.wrapped
    split
    · exact ⟨_, projected { m with isDistinct := true } none_, (h.distinct _ _).trans (h.project _ _ _)⟩
    · split
      · exact ⟨_, projected { m with isDistinct := true } none_, (h.reduced _ _).trans (h.project _ _ _)⟩
      · exact ⟨_, projected m none_, h.project _ _ _⟩
  rw [sliced, wrapped]
  cases pattern with
  | orderBy conditions inner =>
    cases ordered : m'.orderBy? conditions with
    | none => exact .inl (h.unordered inner ordered)
    | some m'' =>
      exact .inr ⟨m'', inner, (orderBy?_names ordered).trans own, formed, .inr ⟨_, rfl⟩, h.ordered inner ordered⟩
  | _ => exact .inr ⟨m', _, own, formed, .inl rfl, rfl⟩

theorem peel_group (m : Modifiers) {op : Operation} (formed : op.isGroup = true) : m.peel op = (m, some op) := by
  cases op <;> first | rfl | cases formed

end Modifiers

theorem Sparql.Operation.isOrdered_of_select {isDistinct isReduced : Bool} {names : List Text} {shape : Tree.Shape}
    {pattern : Operation}
    (h : (shape.sliced (Tree.wrapped isDistinct isReduced (.project names pattern))).Query) :
    pattern.isOrdered = true := by
  have projected (h : (Operation.project names pattern).Query) : pattern.isOrdered = true := by
    cases h with
    | ordered h => cases h with | pattern h => cases h
    | project _ h => exact h.isOrdered
  have wrapped (h : (Tree.wrapped isDistinct isReduced (.project names pattern)).Query) :
      pattern.isOrdered = true := by
    unfold Tree.wrapped at h
    split at h
    · cases h with
      | ordered h => cases h with | pattern h => cases h
      | distinct h => exact projected h
    · split at h
      · cases h with
        | ordered h => cases h with | pattern h => cases h
        | reduced h => exact projected h
      · exact projected h
  unfold Tree.Shape.sliced at h
  split at h
  · exact wrapped h
  · cases h with
    | ordered h => cases h with | pattern h => cases h
    | slice _ _ h => exact wrapped h

/-- A pattern with a plan: it has no triple about the object of another one and takes nothing away, and
its variables are the names of the plan. -/
structure Planned (op : Operation) (names : List Text) : Prop where
  flat : Tree.Flat op.triples
  additive : op.isAdditive = true
  names : ∀ x, x ∈ names ↔ .var x ∈ op.matched

theorem Planned.orderBy {conditions : List OrderCondition} {op : Operation} {names : List Text}
    (h : Planned op names) : Planned (.orderBy conditions op) names := ⟨h.flat, h.additive, h.names⟩

theorem Planned.of_ordered {scope : Scope} {shape : Tree.Shape} {op : Operation} {names : List Text}
    (h : Planned (shape.ordered scope op) names) : Planned op names := by
  unfold Tree.Shape.ordered at h
  split at h
  · exact h
  · exact ⟨h.flat, h.additive, h.names⟩

theorem Planned.hidden {op : Operation} {names : List Text} (h : Planned op names) (unseen : op.mentioned = [])
    {x : Text} (mem : x ∈ names) : blankMark.isPrefixOf x = true := by
  by_contra free
  have placed : .var x ∈ op.placed := op.matched_subset_placed ((h.names x).1 mem)
  have mentioned : x ∈ op.mentioned := by
    refine Operation.mem_mentioned h.additive placed ?_
    rw [shown, if_neg free]
    exact List.mem_singleton.2 rfl
  rw [unseen] at mentioned
  cases mentioned

theorem Planned.leaves {scope : Scope} {g : Tree.Group} {names : List Text} (h : Planned (g.pattern scope) names)
    (home : scope.graph = .defaultGraph) {x : Text} (mem : x ∈ names) :
    .var x ∈ g.leaves.map (Tree.Leaf.term scope.data) := by
  -- every term of the pattern but the default graph is the term of one of its leaves
  let known : Term → Prop := fun t => t = .defaultGraph ∨ t ∈ g.leaves.map (Tree.Leaf.term scope.data)
  have all : ∀ t ∈ (g.pattern scope).terms, known t :=
    (Tree.Group.forall_iff (.inl home) g).2 fun l own => .inr (List.mem_map_of_mem own)
  have placed := (g.pattern scope).matched_subset_placed ((h.names x).1 mem)
  exact (all _ (Operation.placed_subset_terms _ placed)).resolve_left nofun

theorem Quad.mem_varNames_within {q : Quad} (unnamed : q.graph = .defaultGraph) {graph : Option Term} {x : Text} :
    x ∈ (q.within graph).varNames ↔ .var x ∈ termsOf [q] ++ graph.toList := by
  constructor
  · intro mem
    obtain ⟨p, -, own⟩ := List.mem_filterMap.1 mem
    split at own
    · rename_i name at_
      cases own
      cases p with
      | graph =>
        cases graph with
        | none => cases at_
        | some g => exact List.mem_append_right _ (List.mem_singleton.2 at_.symm)
      | subject | predicate | object =>
        refine List.mem_append_left _ ?_
        rw [← at_]
        simp [termsOf, Quad.get, Quad.within]
    · cases own
  · intro mem
    rcases List.mem_append.1 mem with mem | mem
    · obtain ⟨p, -, at_⟩ := Operation.get_of_mem_terms (q := q) (by simpa [termsOf] using mem)
      refine mem_varNames (p := p) ?_
      cases p with
      | graph =>
        rw [Quad.get, unnamed] at at_
        cases at_
      | subject | predicate | object => exact at_
    · refine mem_varNames (p := .graph) ?_
      rw [Quad.get, within, Option.mem_toList.1 mem]
      rfl

namespace SinglePlan

theorem triple?_additive {m m' : Modifiers} {graph graph' : Option Term} {op : Operation} {q : Quad}
    (h : triple? m graph op = some (m', graph', q)) : op.isAdditive = true := by
  fun_induction triple? m graph op with
  | case11 => rfl
  | case1 | case2 | case3 | case4 | case5 | case7 | case8 | case9 | case10 =>
    rename_i ih
    exact ih h
  | _ => cases h

theorem planned {m m' : Modifiers} {graph : Option Term} {op : Operation} {q : Quad} (formed : op.isGroup = true)
    (found : triple? m none op = some (m', graph, q))
    (once : ({ q with graph := graph.getD q.graph } : Quad).varNames.Nodup) :
    Planned op ({ q with graph := graph.getD q.graph } : Quad).varNames := by
  obtain ⟨-, triples, unnamed, rfl, -⟩ := triple?_group formed found
  rw [Option.or_none] at once ⊢
  refine ⟨?_, triple?_additive found, fun x => ?_⟩
  · intro q' own r own' same
    rw [triples, List.mem_singleton] at own own'
    rw [own, own'] at same
    rw [own]
    cases subject : q.subject with
    | var x =>
      rw [subject] at same
      simp [Quad.varNames, Position.all, Quad.get, subject, same] at once
    | _ => rfl
  · rw [unnamed, Operation.matched, triples]
    exact Quad.mem_varNames_within unnamed

end SinglePlan

namespace GroupPlan

theorem unwrap_additive {op inner : Operation} {filters filters' : List Expression} {graph graph' : Option Term}
    (h : unwrap filters graph op = some (filters', graph', inner)) : inner.isAdditive = op.isAdditive := by
  fun_induction unwrap filters graph op with
  | case1 filters graph condition input ih => exact ih h
  | case2 => cases h
  | case3 filters graph name input outer ih => exact ih h
  | case4 =>
    cases h
    rfl

theorem joined?_additive {op : Operation} {triples : List Quad} (h : joined? op = some triples) :
    op.isAdditive = true := by
  fun_induction joined? op generalizing triples with
  | case1 => rfl
  | case2 left right ihl ihr =>
    obtain ⟨a, ha, h⟩ := Option.bind_eq_some_iff.1 h
    obtain ⟨b, hb, -⟩ := Option.bind_eq_some_iff.1 h
    exact Bool.and_eq_true_iff.2 ⟨ihl ha, ihr hb⟩
  | case3 => cases h

variable {filters : List Expression} {graph : Option Term} {least : Nat} {op : Operation} {p : GroupPlan}

theorem ofGroup?_additive (h : ofGroup? filters graph least op = some p) : op.isAdditive = true := by
  obtain ⟨⟨filters', graph', inner⟩, unwrapped, h⟩ := Option.bind_eq_some_iff.1 h
  obtain ⟨triples, joined, -⟩ := Option.bind_eq_some_iff.1 h
  exact (unwrap_additive unwrapped).symm.trans (joined?_additive joined)

/-- The subject of a group stands in no other position. -/
theorem ofGroup?_apart (h : ofGroup? filters graph least op = some p) :
    (∀ q ∈ op.triples, q.subject = .var p.subject) ∧ ∀ q ∈ op.triples, q.object ≠ .var p.subject := by
  obtain ⟨-, -, -, filters', graph', -, -, h⟩ := ofGroup?_cases h
  obtain ⟨subjects, distinct, -⟩ := ofTriples?_cases h
  refine ⟨subjects, fun q mem same => (List.nodup_cons.1 distinct).1 ?_⟩
  refine List.mem_append_right _ (List.mem_flatMap.2 ⟨q, mem, List.mem_append_right _ ?_⟩)
  rw [same]
  exact List.mem_singleton.2 rfl

theorem mem_names_of_part {part : Part} (inside : part ∈ p.parts) (subject : part.triple.subject = .var p.subject)
    {x : Text} (mem : x ∈ part.triple.varNames) : x ∈ p.names := by
  by_cases own : x = p.subject
  · exact List.mem_cons.2 (.inl own)
  · obtain ⟨position, -, at_⟩ := List.mem_filterMap.1 mem
    split at at_
    · rename_i name place
      cases at_
      have besides : position ∈ [Position.predicate, .object, .graph] := by
        cases position with
        | subject => exact absurd (Term.var.inj (place.symm.trans subject)) own
        | predicate | object | graph => decide
      obtain ⟨i, lt, rfl⟩ := List.mem_iff_getElem.1 inside
      have placed : (⟨i, position, x⟩ : Selection) ∈ p.places := by
        refine List.mem_flatMap.2 ⟨(p.parts[i], i), List.mem_zipIdx_iff_getElem?.2 (List.getElem?_eq_getElem lt), ?_⟩
        refine List.mem_flatMap.2 ⟨position, besides, ?_⟩
        rw [place]
        exact List.mem_singleton.2 rfl
      have some_ : (p.places.find? fun s => s.name = x).isSome = true :=
        List.find?_isSome.2 ⟨_, placed, decide_eq_true rfl⟩
      rw [← find?_selections own] at some_
      obtain ⟨s, found⟩ := Option.isSome_iff_exists.1 some_
      refine List.mem_cons_of_mem _ (List.mem_map.2 ⟨s, List.mem_of_find?_eq_some found, ?_⟩)
      have named := List.find?_some found
      exact of_decide_eq_true named
    · cases at_

theorem names_of_group (h : ofGroup? filters graph (least + 1) op = some p) (unnamed : Reader.Unnamed op.triples) :
    ∃ graph' : Option Term, graph'.toList = graph.toList ++ op.graphs ∧
      ∀ x, x ∈ p.names ↔ .var x ∈ termsOf op.triples ++ graph'.toList := by
  obtain ⟨-, -, enough, filters', graph', graphs, -, h'⟩ := ofGroup?_cases h
  obtain ⟨subjects, -, pushed⟩ := ofTriples?_cases h'
  have triples : p.triples = op.triples.map (·.within graph') := by
    rw [GroupPlan.triples, pushAll?_triples pushed, List.map_map]
    rfl
  have within (x : Text) : x ∈ p.triples.flatMap Quad.varNames ↔
      ∃ q ∈ op.triples, .var x ∈ termsOf [q] ++ graph'.toList := by
    rw [triples, List.flatMap_map, List.mem_flatMap]
    exact exists_congr fun q => and_congr_right fun own => Quad.mem_varNames_within (unnamed q own)
  refine ⟨graph', graphs, fun x => ⟨fun mem => ?_, fun mem => ?_⟩⟩
  · obtain ⟨q, own, mem⟩ := (within x).1 (mem_varNames_of_group h mem)
    refine List.mem_append.2 ((List.mem_append.1 mem).imp_left fun mem => ?_)
    rw [termsOf, List.flatMap_singleton] at mem
    exact List.mem_flatMap.2 ⟨q, own, mem⟩
  · have inside : ∃ q ∈ op.triples, .var x ∈ termsOf [q] ++ graph'.toList := by
      rcases List.mem_append.1 mem with mem | mem
      · obtain ⟨q, own, mem⟩ := List.mem_flatMap.1 mem
        refine ⟨q, own, List.mem_append_left _ ?_⟩
        rwa [termsOf, List.flatMap_singleton]
      · obtain ⟨q, own⟩ := List.exists_mem_of_length_pos (Nat.zero_lt_of_lt enough)
        exact ⟨q, own, List.mem_append_right _ mem⟩
    obtain ⟨_, triple, named⟩ := List.mem_flatMap.1 ((within x).2 inside)
    obtain ⟨part, own, rfl⟩ := List.mem_map.1 triple
    refine mem_names_of_part own ?_ named
    have standing : part.triple ∈ op.triples.map (·.within graph') := triples ▸ List.mem_map_of_mem own
    obtain ⟨q, mem, same⟩ := List.mem_map.1 standing
    rw [← same]
    exact subjects q mem

theorem planned (h : ofPattern? op = some p) (formed : op.isGroup = true) : Planned op p.names where
  flat := Tree.flat_of_subject (ofGroup?_apart h).1 (ofGroup?_apart h).2
  additive := ofGroup?_additive h
  names := by
    obtain ⟨graph, graphs, names⟩ := names_of_group h (Operation.isGroup_unnamed formed)
    rwa [Operation.matched_eq graphs]

end GroupPlan

namespace OptionalPlan

theorem spine_additive {op core : Operation} {rest : List (Operation × Option Expression)}
    (h : spine op = (core, rest)) (hc : core.isAdditive = true) (hr : ∀ x ∈ rest, x.1.isAdditive = true) :
    op.isAdditive = true := by
  fun_induction spine op generalizing core rest with
  | case1 left right condition inner before split_ ih =>
    cases h
    exact Bool.and_eq_true_iff.2 ⟨ih split_ hc fun x mem => hr x (List.mem_append_left _ mem),
      hr (right, condition) (List.mem_append_right _ (List.mem_singleton.2 rfl))⟩
  | case2 op other =>
    cases h
    exact hc

variable {op : Operation} {p : OptionalPlan}

theorem ofPattern?_additive (h : ofPattern? op = some p) : op.isAdditive = true := by
  obtain ⟨filters, body, unwrapped, -, -, core, extensions, -⟩ := ofPattern?_cases h
  rw [← GroupPlan.unwrap_additive unwrapped]
  refine spine_additive rfl (GroupPlan.ofGroup?_additive core) fun x mem => ?_
  have all := isSome_mapM.1 (Option.isSome_of_eq_some extensions) x mem
  obtain ⟨e, extension⟩ := Option.isSome_iff_exists.1 all
  obtain ⟨q, basic, -⟩ := extension?_cases extension
  rw [basic]
  rfl

theorem mem_targets_iff (reads : p.Reads op) (x : Text) :
    x ∈ p.targets.map (·.2) ↔ ∃ q ∈ op.optionals, q.object = .var x := by
  rw [names_targets, reads.extensions, List.filterMap_map, List.mem_filterMap]
  refine exists_congr fun q => and_congr_right fun _ => ?_
  rw [Function.comp_apply, Extension.ofTriple]
  cases q.object <;> simp [GroupPlan.nameOf]

theorem mem_names_iff (reads : p.Reads op) (x : Text) :
    x ∈ p.names p.core.names ↔ x ∈ p.core.names ∨ ∃ q ∈ op.optionals, q.object = .var x := by
  rw [names, List.mem_append, List.mem_eraseDups, List.mem_filter, mem_targets_iff reads]
  constructor
  · exact Or.imp_right And.left
  · rintro (core | optional)
    · exact .inl core
    · have other := reads.fresh.2 x ((mem_targets_iff reads x).2 optional)
      exact .inr ⟨optional, by simpa using other⟩

theorem planned (h : ofPattern? op = some p) (formed : op.isGroup = true) : Planned op (p.names p.core.names) := by
  have reads := reads_of_pattern h
  obtain ⟨filters, inner, core, required, graphs, -⟩ := reads.core
  have own : inner.triples = op.required := (GroupPlan.ofGroup?_cases core).1.symm.trans required
  obtain ⟨subjects, objects⟩ := GroupPlan.ofGroup?_apart core
  rw [own] at subjects objects
  refine ⟨?_, ofPattern?_additive h, fun x => ?_⟩
  · rw [reads.covered]
    refine Tree.flat_of_subject (List.forall_mem_append.2 ⟨subjects, fun q mem => (reads.subjects q mem).1⟩)
      (List.forall_mem_append.2 ⟨objects, fun q mem same => ?_⟩)
    have target := List.mem_map_of_mem (f := (·.2)) (reads.mem_targets mem same)
    exact reads.fresh.2 _ target List.mem_cons_self
  · have unnamed : Reader.Unnamed (op.required ++ op.optionals) := reads.covered ▸ Operation.isGroup_unnamed formed
    obtain ⟨graph, innermost, named⟩ :=
      GroupPlan.names_of_group core (own ▸ fun q mem => unnamed q (List.mem_append_left _ mem))
    rw [mem_names_iff reads, named, own, Operation.matched_eq (innermost.trans graphs), reads.covered,
      termsOf_append, List.append_assoc]
    constructor
    · rintro (required | ⟨q, mem, object⟩)
      · exact List.mem_append.2 ((List.mem_append.1 required).imp_right (List.mem_append_right _))
      · refine List.mem_append_right _ (List.mem_append_left _ (List.mem_flatMap.2 ⟨q, mem, ?_⟩))
        simp [object]
    · intro mem
      rcases List.mem_append.1 mem with mem | mem
      · exact .inl (List.mem_append_left _ mem)
      rcases List.mem_append.1 mem with mem | mem
      · obtain ⟨q, optional, mem⟩ := List.mem_flatMap.1 mem
        obtain ⟨subject, predicate⟩ := reads.subjects q optional
        obtain ⟨position, -, at_⟩ := Operation.get_of_mem_terms mem
        cases position with
        | subject =>
          left
          rw [← own, ← named, Term.var.inj (at_.symm.trans subject)]
          exact List.mem_cons_self
        | predicate =>
          change q.predicate = .var x at at_
          rw [at_] at predicate
          cases predicate
        | object => exact .inr ⟨q, optional, at_⟩
        | graph => cases at_.symm.trans (unnamed q (List.mem_append_right _ optional))
      · exact .inl (List.mem_append_right _ mem)

end OptionalPlan

end QuadStore
