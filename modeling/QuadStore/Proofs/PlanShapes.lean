import QuadStore.Proofs.Meaning
import QuadStore.Query.Engine

namespace QuadStore

open Sparql

namespace Sparql.Operation

structure Alike (a b : Operation) : Prop where
  triples : a.triples = b.triples
  required : a.required = b.required
  optionals : a.optionals = b.optionals

theorem Alike.refl (a : Operation) : a.Alike a := ⟨rfl, rfl, rfl⟩

end Sparql.Operation

namespace Modifiers

theorem peel_plain (m : Modifiers) {op : Operation} (plain : op.isPlain = true) : m.peel op = (m, some op) := by
  cases op <;> first | rfl | cases plain

/-- Modifiers have no part in what is inside of them. -/
theorem peel_cases {m m' : Modifiers} {op body : Operation} (h : m.peel op = (m', some body)) :
    body.Alike op ∧ body.graphs = op.graphs ∧ body.around = op.around ∧ body.isUnfiltered = op.isUnfiltered := by
  have inside : ∀ input : Operation, (body.Alike input ∧ body.graphs = input.graphs ∧
      body.around = input.around ∧ body.isUnfiltered = input.isUnfiltered) →
      ∀ outer : Operation, outer.Alike input → outer.graphs = input.graphs → outer.around = input.around →
        outer.isUnfiltered = input.isUnfiltered →
        body.Alike outer ∧ body.graphs = outer.graphs ∧ body.around = outer.around ∧
          body.isUnfiltered = outer.isUnfiltered := by
    rintro input ⟨⟨triples, required, optionals⟩, graphs, around, unfiltered⟩ outer same same' same'' same'''
    exact ⟨⟨triples.trans same.triples.symm, required.trans same.required.symm,
      optionals.trans same.optionals.symm⟩, graphs.trans same'.symm, around.trans same''.symm,
      unfiltered.trans same'''.symm⟩
  fun_induction peel m op with
  | case1 m names input ih | case2 m start length input ih | case3 m input ih | case4 m input ih
  | case5 m conditions input m' ordered ih | case7 m input ih => exact inside input (ih h) _ ⟨rfl, rfl, rfl⟩ rfl rfl rfl
  | case6 => cases h
  | case8 =>
    cases h
    exact ⟨.refl _, rfl, rfl, rfl⟩

end Modifiers

namespace GroupPlan

theorem unwrap_cases {op inner : Operation} {filters filters' : List Expression} {graph graph' : Option Term}
    (h : unwrap filters graph op = some (filters', graph', inner)) :
    inner.Alike op ∧ graph'.toList ++ inner.graphs = graph.toList ++ op.graphs ∧
      graph'.or inner.around = graph.or op.around ∧
      (op.isUnfiltered = true → filters' = filters ∧ inner.isUnfiltered = true) := by
  fun_induction unwrap filters graph op with
  | case1 filters graph condition input ih =>
    obtain ⟨⟨triples, required, optionals⟩, graphs, around, -⟩ := ih h
    exact ⟨⟨triples, required, optionals⟩, graphs, around, nofun⟩
  | case2 => cases h
  | case3 filters graph name input outer ih =>
    have none : graph = none := by simpa using outer
    obtain ⟨⟨triples, required, optionals⟩, graphs, around, unfiltered⟩ := ih h
    refine ⟨⟨triples, required, optionals⟩, ?_, ?_, unfiltered⟩
    · rw [graphs, none]
      rfl
    · rw [around, none]
      rfl
  | case4 =>
    cases h
    exact ⟨.refl _, rfl, rfl, fun unfiltered => ⟨rfl, unfiltered⟩⟩

theorem joined?_cases {op : Operation} {triples : List Quad} (h : joined? op = some triples) :
    triples = op.triples ∧ triples = op.required ∧ op.optionals = [] ∧ op.graphs = [] := by
  fun_induction joined? op generalizing triples with
  | case1 found =>
    cases h
    exact ⟨rfl, rfl, rfl, rfl⟩
  | case2 left right ihLeft ihRight =>
    obtain ⟨a, ha, h⟩ := Option.bind_eq_some_iff.1 h
    obtain ⟨b, hb, h⟩ := Option.bind_eq_some_iff.1 h
    cases h
    obtain ⟨triplesLeft, requiredLeft, optionalsLeft, graphsLeft⟩ := ihLeft ha
    obtain ⟨triplesRight, requiredRight, optionalsRight, graphsRight⟩ := ihRight hb
    refine ⟨?_, ?_, ?_, ?_⟩
    · rw [triplesLeft, triplesRight]
      rfl
    · rw [requiredLeft, requiredRight]
      rfl
    · rw [Operation.optionals, optionalsLeft, optionalsRight]
      rfl
    · rw [Operation.graphs, graphsLeft, graphsRight]
      rfl
  | case3 => cases h

theorem ofTriples?_cases {filters : List Expression} {graph : Option Term} {triples : List Quad}
    {p : GroupPlan} (h : ofTriples? filters graph triples = some p) :
    (∀ q ∈ triples, q.subject = .var p.subject) ∧ (p.subject :: others graph triples).Nodup ∧
      pushAll? (filters.flatMap Expression.conjuncts)
        (triples.map fun q => { triple := q.within graph }) = some p.parts := by
  unfold ofTriples? at h
  obtain ⟨name, -, h⟩ := Option.bind_eq_some_iff.1 h
  dsimp only at h
  split at h
  · cases h
  · rename_i shared
    split at h
    · cases h
    · rename_i distinct
      obtain ⟨parts, pushed, h⟩ := Option.bind_eq_some_iff.1 h
      split at h
      · cases h
      · cases h
        exact ⟨by simpa using shared, by simpa using distinct, pushed⟩

theorem push?_triples {e : Expression} {parts parts' : List Part} (h : push? e parts = some parts') :
    parts'.map (·.triple) = parts.map (·.triple) := by
  fun_induction push? e parts generalizing parts' with
  | case1 => cases h
  | case2 => cases h
  | case3 =>
    cases h
    rfl
  | case4 part rest =>
    rename_i ih
    obtain ⟨rest', pushed, rfl⟩ := Option.map_eq_some_iff.1 h
    rw [List.map_cons, List.map_cons, ih pushed]

theorem pushAll?_triples {conditions : List Expression} {parts parts' : List Part}
    (h : pushAll? conditions parts = some parts') : parts'.map (·.triple) = parts.map (·.triple) := by
  unfold pushAll? at h
  induction conditions generalizing parts with
  | nil =>
    cases h
    rfl
  | cons e conditions ih =>
    rw [List.foldlM_cons] at h
    obtain ⟨next, pushed, h⟩ := Option.bind_eq_some_iff.1 h
    exact (ih h).trans (push?_triples pushed)

theorem ofGroup?_cases {filters : List Expression} {graph : Option Term} {least : Nat} {op : Operation}
    {p : GroupPlan} (h : ofGroup? filters graph least op = some p) :
    op.required = op.triples ∧ op.optionals = [] ∧ least ≤ op.triples.length ∧
      ∃ filters' graph', graph'.toList = graph.toList ++ op.graphs ∧
        (op.isUnfiltered = true → filters' = filters) ∧ ofTriples? filters' graph' op.triples = some p := by
  unfold ofGroup? at h
  obtain ⟨⟨filters', graph', inner⟩, unwrapped, h⟩ := Option.bind_eq_some_iff.1 h
  obtain ⟨triples, joined, h⟩ := Option.bind_eq_some_iff.1 h
  obtain ⟨all, required, optionals, graphs⟩ := joined?_cases joined
  obtain ⟨alike, names, -, unfiltered⟩ := unwrap_cases unwrapped
  rw [graphs, List.append_nil] at names
  have same : op.triples = triples := alike.triples.symm.trans all.symm
  dsimp only at h
  split at h
  · cases h
  · rename_i enough
    rw [same]
    exact ⟨alike.required.symm.trans required.symm, alike.optionals.symm.trans optionals,
      Nat.le_of_not_lt enough, filters', graph', names, fun h => (unfiltered h).1, h⟩

structure Bare (p : GroupPlan) (scope : Option Term) (triples : List Quad) : Prop where
  subjects : ∀ q ∈ triples, q.subject = .var p.subject
  distinct : (p.subject :: others scope triples).Nodup
  parts : p.parts = triples.map fun q => { triple := q.within scope }

theorem bare_ofGroup {least : Nat} {graph : Option Term} {op : Operation} {p : GroupPlan}
    (unfiltered : op.isUnfiltered = true) (h : ofGroup? [] graph least op = some p) :
    p.Bare (graph.toList ++ op.graphs).head? op.triples ∧ least ≤ op.triples.length := by
  obtain ⟨-, -, enough, filters, graph', names, free, h⟩ := ofGroup?_cases h
  rw [free unfiltered] at h
  obtain ⟨subjects, distinct, pushed⟩ := ofTriples?_cases h
  have scope : (graph.toList ++ op.graphs).head? = graph' := by
    rw [← names]
    cases graph' <;> rfl
  rw [scope]
  exact ⟨⟨subjects, distinct, (Option.some.inj pushed).symm⟩, enough⟩

end GroupPlan

namespace MultiPlan

theorem ofOperation_project {names : List Text} {body : Operation} (plain : body.isPlain = true) :
    ofOperation (.project names body) = ⟨{ names }, shapeOf body⟩ := by
  unfold ofOperation
  rw [Modifiers.peel, Modifiers.peel_plain _ plain]
  rfl

theorem compound_of_shape {body : Operation} {p : GroupPlan} (h : shapeOf body = .compound p) :
    GroupPlan.ofPattern? body = some p := by
  unfold shapeOf at h
  split at h
  · cases h
  · split at h
    · rename_i found
      cases h
      exact found
    · cases h

theorem optional_of_shape {body : Operation} {p : OptionalPlan} (h : shapeOf body = .optional p) :
    OptionalPlan.ofPattern? body = some p := by
  unfold shapeOf at h
  split at h
  · rename_i found
    cases h
    exact found
  · split at h <;> cases h

end MultiPlan

def Extension.ofTriple (q : Quad) : Extension := ⟨q.predicate, (GroupPlan.nameOf q.object).head?⟩

namespace OptionalPlan

theorem ofPattern?_cases {op : Operation} {p : OptionalPlan} (h : ofPattern? op = some p) :
    ∃ filters body, GroupPlan.unwrap [] none op = some (filters, p.graph, body) ∧
      (p.graph.map Term.isVar).getD false = false ∧ (spine body).2 ≠ [] ∧
      GroupPlan.ofGroup? filters p.graph 1 (spine body).1 = some p.core ∧
      (spine body).2.mapM (extension? p.core.subject) = some p.extensions ∧
      areNew (p.core.triples.flatMap Quad.varNames) p.extensions = true := by
  unfold ofPattern? at h
  obtain ⟨⟨filters, graph, body⟩, unwrapped, h⟩ := Option.bind_eq_some_iff.1 h
  dsimp only at h
  split at h
  · cases h
  · rename_i fixed
    split at h
    · cases h
    · rename_i optional
      obtain ⟨core, hc, h⟩ := Option.bind_eq_some_iff.1 h
      obtain ⟨extensions, he, h⟩ := Option.bind_eq_some_iff.1 h
      split at h
      · rename_i new
        cases h
        exact ⟨filters, body, unwrapped, by simpa using fixed, by simpa using optional, hc, he, new⟩
      · cases h

theorem spine_cases {op core : Operation} {rest : List (Operation × Option Expression)}
    (h : spine op = (core, rest)) :
    op.triples = core.triples ++ rest.flatMap (·.1.triples) ∧ op.required = core.required ∧
      op.optionals = core.optionals ++ rest.flatMap (·.1.triples) ∧
      op.graphs = core.graphs ++ rest.flatMap (·.1.graphs) ∧
      (op.isUnfiltered = true → core.isUnfiltered = true) ∧ (rest ≠ [] → op.around = none) := by
  fun_induction spine op generalizing core rest with
  | case1 left right condition inner before split_ ih =>
    cases h
    obtain ⟨triples, required, optionals, graphs, unfiltered, -⟩ := ih split_
    refine ⟨?_, required, ?_, ?_, fun both => unfiltered (Bool.and_eq_true_iff.1 both).1, fun _ => rfl⟩
    · rw [Operation.triples, triples, List.flatMap_append, List.append_assoc]
      simp
    · rw [Operation.optionals, optionals, List.flatMap_append, List.append_assoc]
      simp
    · rw [Operation.graphs, graphs, List.flatMap_append, List.append_assoc]
      simp
  | case2 op other =>
    cases h
    exact ⟨by simp, rfl, by simp, by simp, id, fun some_ => absurd rfl some_⟩

theorem extension?_cases {subject : Text} {x : Operation × Option Expression} {e : Extension}
    (h : extension? subject x = some e) :
    ∃ q, x.1 = .bgp [q] ∧ q.subject = .var subject ∧ q.predicate.isIri = true ∧ e = .ofTriple q := by
  unfold extension? at h
  split at h
  · rename_i q
    split at h
    · rename_i own
      cases h
      obtain ⟨subject, predicate⟩ := Bool.and_eq_true_iff.1 own
      exact ⟨q, rfl, of_decide_eq_true subject, predicate, rfl⟩
    · cases h
  · cases h

theorem extensions_cases {subject : Text} {rest : List (Operation × Option Expression)}
    {extensions : List Extension} (h : rest.mapM (extension? subject) = some extensions) :
    extensions = (rest.flatMap (·.1.triples)).map .ofTriple ∧ rest.flatMap (·.1.graphs) = [] ∧
      (rest ≠ [] → rest.flatMap (·.1.triples) ≠ []) ∧
      ∀ q ∈ rest.flatMap (·.1.triples), q.subject = .var subject ∧ q.predicate.isIri = true := by
  induction rest generalizing extensions with
  | nil =>
    cases h
    exact ⟨rfl, rfl, fun some_ => absurd rfl some_, fun _ mem => absurd mem List.not_mem_nil⟩
  | cons x rest ih =>
    rw [List.mapM_cons] at h
    obtain ⟨e, he, h⟩ := Option.bind_eq_some_iff.1 h
    obtain ⟨more, hm, h⟩ := Option.bind_eq_some_iff.1 h
    cases h
    obtain ⟨rfl, graphs, -, all⟩ := ih hm
    obtain ⟨q, basic, own, iri, rfl⟩ := extension?_cases he
    have triples : x.1.triples = [q] := by rw [basic, Operation.triples]
    refine ⟨?_, ?_, ?_, ?_⟩
    · rw [List.flatMap_cons, triples, List.singleton_append, List.map_cons]
    · rw [List.flatMap_cons, graphs, basic, Operation.graphs, List.append_nil]
    · rw [List.flatMap_cons, triples]
      exact fun _ => List.cons_ne_nil _ _
    · intro q' mem
      rw [List.flatMap_cons, triples] at mem
      rcases List.mem_cons.1 mem with rfl | mem
      · exact ⟨own, iri⟩
      · exact all q' mem

/-- The graph and the predicates of optional triples are constants, and there are such triples. -/
structure Formed (p : OptionalPlan) : Prop where
  graph : (p.graph.getD .defaultGraph).isVar = false
  predicates : ∀ e ∈ p.extensions, e.predicate.isVar = false
  extended : p.extensions ≠ []

/-- A plan takes the optional triples of a pattern in order, and their graph. -/
structure Reads (p : OptionalPlan) (op : Operation) : Prop where
  graph : p.graph = op.around
  extensions : p.extensions = op.optionals.map .ofTriple
  subjects : ∀ q ∈ op.optionals, q.subject = .var p.core.subject ∧ q.predicate.isIri = true
  extended : op.optionals ≠ []
  fixed : (p.graph.map Term.isVar).getD false = false
  new : areNew (p.core.triples.flatMap Quad.varNames) p.extensions = true
  core : ∃ filters inner, GroupPlan.ofGroup? filters p.graph 1 inner = some p.core ∧
    inner.required = op.required ∧ p.graph.toList ++ inner.graphs = op.graphs ∧
    (op.isUnfiltered = true → filters = [] ∧ inner.isUnfiltered = true)
  covered : op.triples = op.required ++ op.optionals

theorem Reads.some_predicates {op : Operation} {p : OptionalPlan} (reads : p.Reads op) : p.predicates ≠ [] := by
  unfold OptionalPlan.predicates
  rw [reads.extensions, List.map_map]
  simpa using reads.extended

theorem reads_of_pattern {op : Operation} {p : OptionalPlan} (h : ofPattern? op = some p) : p.Reads op := by
  obtain ⟨filters, body, unwrapped, fixed, some_, hc, he, new⟩ := ofPattern?_cases h
  obtain ⟨alike, graphs, around, unfiltered⟩ := GroupPlan.unwrap_cases unwrapped
  have split_ : spine body = ((spine body).1, (spine body).2) := rfl
  obtain ⟨triples, required, optionals, inner, free, outermost⟩ := spine_cases split_
  obtain ⟨coreRequired, coreOptionals, -⟩ := GroupPlan.ofGroup?_cases hc
  obtain ⟨extensions, none_, extended, all⟩ := extensions_cases he
  rw [coreOptionals, List.nil_append, alike.optionals] at optionals
  rw [none_, List.append_nil] at inner
  rw [outermost some_, Option.or_none, Option.none_or] at around
  refine ⟨around, ?_, ?_, ?_, fixed, new, ⟨filters, (spine body).1, hc, ?_, ?_, ?_⟩, ?_⟩
  · rw [optionals]
    exact extensions
  · rw [optionals]
    exact all
  · rw [optionals]
    exact extended some_
  · exact required.symm.trans alike.required
  · rw [← inner, graphs]
    rfl
  · intro h
    obtain ⟨none_, rest⟩ := unfiltered h
    exact ⟨none_, free rest⟩
  · rw [← alike.triples, triples, ← coreRequired, ← required, alike.required, optionals]

theorem Reads.formed {p : OptionalPlan} {op : Operation} (h : p.Reads op) : p.Formed := by
  refine ⟨?_, ?_, ?_⟩
  · have fixed := h.fixed
    cases hg : p.graph with
    | none => rfl
    | some g =>
      rw [hg] at fixed
      exact fixed
  · intro e mem
    rw [h.extensions] at mem
    obtain ⟨q, hq, rfl⟩ := List.mem_map.1 mem
    have iri := (h.subjects q hq).2
    rw [Extension.ofTriple]
    cases hp : q.predicate with
    | var name =>
      rw [hp] at iri
      cases iri
    | _ => rfl
  · rw [h.extensions]
    exact fun none_ => h.extended (List.map_eq_nil_iff.1 none_)

end OptionalPlan

namespace MultiPlan

theorem reads_of_operation {root : Operation} {m : Modifiers} {p : OptionalPlan}
    (h : ofOperation root = ⟨m, .optional p⟩) : p.Reads root := by
  unfold ofOperation at h
  rcases peeled : Modifiers.peel {} root with ⟨m', _ | body⟩
  · rw [peeled] at h
    cases h
  · rw [peeled] at h
    have shape : shapeOf body = .optional p := congrArg MultiPlan.shape h
    obtain ⟨alike, graphs, around, unfiltered⟩ := Modifiers.peel_cases peeled
    obtain ⟨graph, extensions, subjects, extended, fixed, new, core, covered⟩ :=
      OptionalPlan.reads_of_pattern (optional_of_shape shape)
    rw [alike.triples, alike.required, alike.optionals] at covered
    rw [alike.required, graphs, unfiltered] at core
    rw [alike.optionals] at extensions subjects extended
    exact ⟨graph.trans around, extensions, subjects, extended, fixed, new, core, covered⟩

end MultiPlan

namespace Route

def Formed : Route → Prop
  | .multi ⟨_, .optional p⟩ => p.Formed
  | _ => True

theorem formed_ofText (query : Text) : (ofText query).Formed := by
  have plans : ∀ root, (ofPlans root).Formed := by
    intro root
    unfold ofPlans
    cases SinglePlan.ofOperation? root with
    | some p => trivial
    | none =>
      dsimp only
      rcases made : MultiPlan.ofOperation root with ⟨modifiers, _ | p | p⟩
      · trivial
      · exact (MultiPlan.reads_of_operation made).formed
      · trivial
  unfold ofText
  split
  · split
    · exact plans _
    · exact plans _
    · trivial
    · trivial
    · trivial
  · trivial

theorem formed_first {r : Route} (h : r.Formed) : r.first.Formed := by
  cases r with
  | multi p =>
    obtain ⟨modifiers, shape⟩ := p
    cases shape with
    | optional p => exact h
    | _ => trivial
  | _ => trivial

end Route

end QuadStore
