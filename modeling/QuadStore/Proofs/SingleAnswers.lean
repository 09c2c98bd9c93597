import QuadStore.Console
import QuadStore.Proofs.LookupRows
import QuadStore.Proofs.Provenance
import QuadStore.Proofs.QueryShape

namespace QuadStore

open Sql Sparql Step

namespace SinglePlan

theorem triple?_group {m m' : Modifiers} {graph graph' : Option Term} {op : Operation} {q : Quad}
    (formed : op.isGroup = true) (h : triple? m graph op = some (m', graph', q)) :
    m' = m ∧ op.triples = [q] ∧ q.graph = .defaultGraph ∧ graph' = op.graphs.getLast?.or graph ∧
      ∀ g ∈ op.graphs, g ≠ .defaultGraph := by
  fun_induction triple? m graph op with
  | case7 m graph name input ih =>
    obtain ⟨proper, formed⟩ := Bool.and_eq_true_iff.1 formed
    obtain ⟨modifiers, triples, unnamed, innermost, named⟩ := ih formed h
    refine ⟨modifiers, triples, unnamed, ?_, ?_⟩
    · rw [innermost, Operation.graphs, List.getLast?_cons]
      cases input.graphs.getLast? <;> rfl
    · intro g mem
      rcases List.mem_cons.1 mem with rfl | mem
      · exact of_decide_eq_true proper
      · exact named g mem
  | case11 m graph q' =>
    cases h
    have unnamed := List.all_eq_true.1 formed q List.mem_cons_self
    exact ⟨rfl, rfl, of_decide_eq_true unnamed, rfl, fun g mem => absurd mem List.not_mem_nil⟩
  | _ => first | cases formed | cases h

theorem triple?_select {names : List Text} {pattern : Operation} {m : Modifiers} {graph : Option Term} {q : Quad}
    (formed : pattern.isOrdered = true) (h : triple? {} none (.project names pattern) = some (m, graph, q)) :
    (∃ order reverse, m = { names, order, reverse }) ∧ pattern.triples = [q] ∧ q.graph = .defaultGraph ∧
      graph = pattern.graphs.getLast? ∧ ∀ g ∈ pattern.graphs, g ≠ .defaultGraph := by
  rw [triple?] at h
  have inside : ∀ (order : Option Text) (reverse : Bool) (op : Operation), op.isGroup = true →
      triple? { names, order, reverse } none op = some (m, graph, q) →
      (∃ order reverse, m = { names, order, reverse }) ∧ op.triples = [q] ∧ q.graph = .defaultGraph ∧
        graph = op.graphs.getLast? ∧ ∀ g ∈ op.graphs, g ≠ .defaultGraph := by
    intro order reverse op formed h
    obtain ⟨modifiers, triples, unnamed, innermost, named⟩ := triple?_group formed h
    exact ⟨⟨order, reverse, modifiers⟩, triples, unnamed, innermost.trans (Option.or_none), named⟩
  cases pattern with
  | orderBy conditions input =>
    rw [triple?] at h
    unfold Modifiers.orderBy? at h
    split at h
    · rename_i ordered
      split at ordered
      · obtain ⟨name, -, rfl⟩ := Option.map_eq_some_iff.1 ordered
        exact inside _ _ input formed h
      · cases ordered
    · cases h
  | _ => exact inside none false _ formed h

theorem ofOperation?_cases {root : Operation} {p : SinglePlan} (h : ofOperation? root = some p) :
    ∃ m graph q order, triple? {} none root = some (m, graph, q) ∧
      ({ q with graph := graph.getD q.graph } : Quad).varNames.Nodup ∧
      p = ⟨{ q with graph := graph.getD q.graph },
        if m.names.isEmpty then ({ q with graph := graph.getD q.graph } : Quad).varNames else m.names,
        m.limit, m.offset, m.isDistinct, order, m.reverse⟩ := by
  unfold ofOperation? at h
  obtain ⟨⟨m, graph, q⟩, found, h⟩ := Option.bind_eq_some_iff.1 h
  dsimp only at h
  split at h
  · rename_i once
    obtain ⟨order, -, h⟩ := Option.bind_eq_some_iff.1 h
    cases h
    exact ⟨m, graph, q, order, found, once, rfl⟩
  · cases h

structure Selects (p : SinglePlan) (names : List Text) (scope : Option Term) (q : Quad) : Prop where
  triple : p.triple = q.within scope
  names : p.names = names
  once : p.triple.varNames.Nodup
  modifiers : p.modifiers = {}

theorem selects_of_project {names : List Text} {pattern : Operation} {p : SinglePlan}
    (formed : pattern.isOrdered = true) (projected : names ≠ [])
    (h : ofOperation? (.project names pattern) = some p) :
    ∃ q, pattern.triples = [q] ∧ p.Selects names pattern.graphs.getLast? q ∧
      ∀ g ∈ pattern.graphs, g ≠ .defaultGraph := by
  obtain ⟨m, graph, q, order, found, once, rfl⟩ := ofOperation?_cases h
  obtain ⟨⟨_, _, rfl⟩, triples, unnamed, rfl, named⟩ := triple?_select formed found
  have within : ({ q with graph := pattern.graphs.getLast?.getD q.graph } : Quad) =
      q.within pattern.graphs.getLast? := by
    rw [Quad.within, unnamed]
  have given : names.isEmpty = false := by simpa using projected
  refine ⟨q, triples, ⟨within, ?_, once, rfl⟩, named⟩
  dsimp only
  rw [given]
  rfl

theorem get?_bind {p : SinglePlan} (once : p.triple.varNames.Nodup) (k : Quad) :
    (p.bind k).get? = Assignment.restrict (p.triple.value? k) p.names := by
  funext name
  let value : Position → Text → Option Term := fun position name =>
    if p.triple.get position = .var name ∧ name ∈ p.names then some (k.get position) else none
  -- no variable stands in two places, so that no value takes the place of another
  have apart : Position.all.Pairwise fun a b => ∀ name, value a name = none ∨ value b name = none := by
    refine (List.pairwise_filterMap.1 once).imp fun {a b} different name => ?_
    by_cases ha : p.triple.get a = .var name
    · refine Or.inr (if_neg fun hb => different name (by rw [ha]) name ?_ rfl)
      rw [hb.1]
    · exact Or.inl (if_neg fun both => ha both.1)
  have bound : (p.bind k).get? name = (Position.all.findSome? fun position => value position name).or none := by
    refine Binding.get?_foldl_once value ?_ apart [] name
    intro b position name
    cases ht : p.triple.get position with
    | var own =>
      by_cases asked : own ∈ p.names
      · by_cases same : own = name
        · simp [value, ht, Binding.get?_set, ← same, asked]
        · simp [value, ht, Binding.get?_set, same, Ne.symm same, asked]
      · have other : ¬ (own = name ∧ name ∈ p.names) := fun both => asked (both.1 ▸ both.2)
        simp [value, ht, asked, other]
    | _ => simp [value, ht]
  rw [bound, Option.or_none]
  unfold Assignment.restrict Quad.value?
  by_cases asked : name ∈ p.names
  · simp only [value, asked, and_true, if_true]
  · simp [value, asked]

theorem options_plain {p : SinglePlan} (h : p.modifiers = {}) : p.options.limit = none ∧ p.options.offset = none := by
  have distinct : p.isDistinct = false := congrArg Modifiers.isDistinct h
  have limit : p.limit = none := congrArg Modifiers.limit h
  refine ⟨?_, rfl⟩
  unfold options
  rw [distinct, limit]
  rfl

theorem answers_holding {p : SinglePlan} {names : List Text} {scope : Option Term} {q : Quad}
    (selects : p.Selects names scope q) (constants : q.Kept)
    (named : ∀ g ∈ scope, g ≠ .defaultGraph ∧ g.Kept .graph) (lasting : Bool) {qs : List Quint}
    (stored : ∀ k ∈ qs, k.toQuad.Kept) :
    ∃ found, p.run none ⟨true, Table.holding lasting qs⟩ = (.ok found, ⟨true, Table.holding lasting qs⟩) ∧
      found.names = names ∧
      (found.rows.map Binding.get?).Perm
        ((qs.filter fun k => q.meets k.toQuad && k.graph.inScope scope).map fun k =>
          ((q.within scope).value? k.toQuad).restrict names) := by
  obtain ⟨limit, offset⟩ := options_plain selects.modifiers
  have fetched := Store.fetched_within constants named lasting stored limit offset
  rw [← selects.triple] at fetched
  refine ⟨_, by rw [run_open, fetched]; rfl, selects.names, ?_⟩
  have whole : ∀ rows : List Binding, Solutions.window p.modifiers p.key rows = rows := by
    intro rows
    rw [selects.modifiers]
    simp [Solutions.window]
  unfold solutions
  dsimp only
  rw [whole, List.map_map]
  refine ((List.mergeSort_perm _ _).map _).trans (List.Perm.of_eq ?_)
  rw [List.map_map]
  apply List.map_congr_left
  intro k mem
  have kept := stored k (List.mem_of_mem_filter mem)
  rw [Function.comp_apply, Function.comp_apply, Quint.toQuad_ofRow kept, get?_bind selects.once, selects.triple,
    selects.names]

end SinglePlan

namespace Engine

variable {δ : Type} [Evaluator δ]

theorem select_single {query : Text} {p : SinglePlan} (route : Route.ofText query = .single p)
    {security : Option Pattern} {t : Table} {found : Solutions}
    (answered : p.run security ⟨true, t⟩ = (.ok found, ⟨true, t⟩)) (evaluator : Option δ) (flag : Bool) :
    select query security ⟨⟨true, t⟩, evaluator, flag⟩ = (.ok found, ⟨⟨true, t⟩, evaluator, true⟩) := by
  have step : runRoute (.single p) security (⟨⟨true, t⟩, evaluator, flag⟩ : Engine Table δ) =
      (.ok (some found), ⟨⟨true, t⟩, evaluator, flag⟩) := by
    unfold runRoute
    dsimp only
    rw [bind_apply, onStore]
    dsimp only
    rw [adapt_apply, answered]
    rfl
  unfold select
  rw [route]
  dsimp only
  rw [bind_apply, step]
  rfl

theorem ofText_single {query : Text} {request : Request} {root : Operation} {p : SinglePlan}
    (read : Request.read query = .ok request) (selects : request.content = .query root)
    (form : root.form = .select) (accepted : SinglePlan.ofOperation? root = some p) :
    Route.ofText query = .single p := by
  obtain ⟨content, prefixes, base⟩ := request
  dsimp only at selects
  unfold Route.ofText
  rw [read, selects]
  dsimp only
  rw [form]
  dsimp only
  unfold Route.ofPlans
  rw [accepted]

/-- A selection on one triple answers, in some order, one solution for each statement that meets it in a
graph of the query. -/
theorem single_answers {query : Text} {request : Request} {names : List Text} {pattern : Operation}
    {p : SinglePlan} (read : Request.read query = .ok request)
    (selects : request.content = .query (.project names pattern))
    (accepted : SinglePlan.ofOperation? (.project names pattern) = some p) (projected : names ≠ [])
    (single : pattern.graphs.length ≤ 1) (constants : ∀ q ∈ pattern.triples, q.Kept)
    (named : ∀ g ∈ pattern.graphs, g.Kept .graph) {qs : List Quint} (stored : ∀ k ∈ qs, k.toQuad.Kept)
    (lasting : Bool) (evaluator : Option δ) (flag : Bool) :
    ∃ q found, pattern.triples = [q] ∧
      select query none ⟨⟨true, Table.holding lasting qs⟩, evaluator, flag⟩ =
        (.ok found, ⟨⟨true, Table.holding lasting qs⟩, evaluator, true⟩) ∧
      found.names = names ∧
      (found.rows.map Binding.get?).Perm
        ((qs.filter fun k => q.meets k.toQuad && k.graph.inScope pattern.graphs.head?).map fun k =>
          ((q.within pattern.graphs.head?).value? k.toQuad).restrict names) ∧
      (q.within pattern.graphs.head?).varNames.Nodup := by
  have formed := Request.read_select read selects
  obtain ⟨q, triples, plan, proper⟩ := SinglePlan.selects_of_project formed projected accepted
  have innermost : pattern.graphs.getLast? = pattern.graphs.head? := by
    rcases hg : pattern.graphs with _ | ⟨g, _ | ⟨g', rest⟩⟩
    · rfl
    · rfl
    · rw [hg] at single
      exact absurd single (by simp)
  rw [innermost] at plan
  have scope : ∀ g ∈ pattern.graphs.head?, g ≠ .defaultGraph ∧ g.Kept .graph :=
    fun g mem => ⟨proper g (List.mem_of_head? mem), named g (List.mem_of_head? mem)⟩
  have constant : q.Kept := constants q (triples ▸ List.mem_singleton.2 rfl)
  obtain ⟨found, run, shown, perm⟩ := SinglePlan.answers_holding plan constant scope lasting stored
  have route := ofText_single read selects rfl accepted
  refine ⟨q, found, triples, select_single route run evaluator flag, shown, perm, ?_⟩
  rw [← plan.triple]
  exact plan.once

def namesInGraphs : Text := "SELECT ?o ?x WHERE { GRAPH ?g { ?s <http://ex/name> ?o } } ORDER BY ?o"

def nameTriple : Quad := ⟨.var "s", .iri "http://ex/name", .var "o", .defaultGraph⟩

def names : List Quint :=
  [⟨⟨.iri "http://ex/ann", .iri "http://ex/name", .plain "Ann", .iri "http://ex/g"⟩, none⟩,
   ⟨⟨.iri "http://ex/bob", .iri "http://ex/name", .plain "Bob", .defaultGraph⟩, none⟩,
   ⟨⟨.iri "http://ex/ann", .iri "http://ex/age", .typed "41" Xsd.integer, .iri "http://ex/g"⟩, none⟩]

theorem namesInGraphs_shape :
    (match Request.read namesInGraphs with
      | .ok ⟨.query (.project names pattern), _, _⟩ =>
        decide (names = ["o", "x"] ∧ pattern.triples = [nameTriple] ∧ pattern.graphs = [.var "g"]) &&
          (SinglePlan.ofOperation? (.project names pattern)).isSome
      | _ => false) = true := by
  decide +kernel

theorem single_answers_names :
    ∃ found, select namesInGraphs none ⟨⟨true, Table.holding true names⟩, (none : Option Empty), false⟩ =
        (.ok found, ⟨⟨true, Table.holding true names⟩, none, true⟩) ∧
      (found.rows.map Binding.get?).Perm
        ((names.filter fun k => nameTriple.meets k.toQuad && k.graph.inScope (some (.var "g"))).map fun k =>
          ((nameTriple.within (some (.var "g"))).value? k.toQuad).restrict ["o", "x"]) := by
  have reads := namesInGraphs_shape
  have stored : ∀ k ∈ names, k.toQuad.Kept := by decide +kernel
  have constant : nameTriple.Kept := by decide +kernel
  split at reads
  · rename_i projected pattern prefixes base read
    obtain ⟨shape, accepted⟩ := Bool.and_eq_true_iff.1 reads
    obtain ⟨rfl, triples, graphs⟩ := of_decide_eq_true shape
    obtain ⟨p, accepted⟩ := Option.isSome_iff_exists.1 accepted
    have constants : ∀ q ∈ pattern.triples, q.Kept := by
      rw [triples]
      exact fun q mem => List.mem_singleton.1 mem ▸ constant
    have named : ∀ g ∈ pattern.graphs, g.Kept .graph := by
      rw [graphs]
      exact fun g mem => List.mem_singleton.1 mem ▸ rfl
    have single : pattern.graphs.length ≤ 1 := by rw [graphs]; exact Nat.le_refl 1
    obtain ⟨q, found, only, run, -, perm, -⟩ := single_answers read rfl accepted (List.cons_ne_nil _ _) single
      constants named stored true (none : Option Empty) false
    rw [triples] at only
    cases only
    rw [graphs] at perm
    exact ⟨found, run, perm⟩
  · cases reads

end Engine

end QuadStore
