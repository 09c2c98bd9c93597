import QuadStore.Proofs.NamedGraphs

namespace QuadStore

open Sparql

namespace Sparql

theorem Operation.isGroup_unnamed {op : Operation} (h : op.isGroup = true) : Reader.Unnamed op.triples := by
  fun_induction Operation.isGroup op with
  | case1 found => exact fun q mem => of_decide_eq_true (List.all_eq_true.1 h q mem)
  | case2 name input ih => exact ih (Bool.and_eq_true_iff.1 h).2
  | case3 condition input ih => exact ih h
  | case4 left right ihl ihr | case5 left right condition ihl ihr | case6 left right ihl ihr
  | case7 left right ihl ihr =>
    obtain ⟨hl, hr⟩ := Bool.and_eq_true_iff.1 h
    exact (ihl hl).append (ihr hr)
  | _ => cases h

theorem Operation.Query.unnamed {op : Operation} (h : op.Query) : Reader.Unnamed op.triples := by
  have ordered : ∀ {op : Operation}, op.Ordered → Reader.Unnamed op.triples := by
    intro op h
    cases h with
    | pattern h => exact isGroup_unnamed h.isGroup
    | orderBy _ _ h =>
      have inside := isGroup_unnamed h.isGroup
      exact inside
  induction h with
  | ordered h => exact ordered h
  | project _ h =>
    have inside := ordered h
    exact inside
  | distinct _ ih | reduced _ ih | slice _ _ _ ih | ask _ ih | construct _ _ ih | describe _ _ ih => exact ih

def Operation.innermost : Operation → Operation
  | bgp found => bgp found
  | graph name input => if input.graphs.isEmpty then graph name input.innermost else input.innermost
  | join left right => join left.innermost right.innermost
  | leftJoin left right condition => leftJoin left.innermost right.innermost condition
  | union left right => union left.innermost right.innermost
  | minus left right => minus left.innermost right.innermost
  | filter condition input => filter condition input.innermost
  | orderBy conditions input => orderBy conditions input.innermost
  | project names input => project names input.innermost
  | distinct input => distinct input.innermost
  | reduced input => reduced input.innermost
  | slice start length input => slice start length input.innermost
  | ask input => ask input.innermost
  | construct template input => construct template input.innermost
  | describe targets input => describe targets input.innermost

end Sparql

namespace SinglePlan

theorem triple?_outer {m : Modifiers} {op : Operation} (inside : op.graphs ≠ []) (graph graph' : Option Term) :
    triple? m graph op = triple? m graph' op := by
  fun_induction triple? m graph op with
  | case1 m graph names input ih | case2 m graph start length input ih | case3 m graph input ih
  | case4 m graph input ih | case8 m graph input ih | case9 m graph template input ih
  | case10 m graph targets input ih => exact ih inside
  | case5 m graph conditions input m' ordered ih =>
    rw [triple?, ordered]
    exact ih inside
  | case6 m graph conditions input unordered => rw [triple?, unordered]
  | case7 m graph name input => rfl
  | case11 | case12 => exact absurd rfl inside
  | case13 | case14 | case15 | case16 | case17 => rfl

theorem triple?_innermost_eq (m : Modifiers) (graph : Option Term) (op : Operation) :
    triple? m graph op.innermost = triple? m graph op := by
  fun_induction Operation.innermost op generalizing m graph with
  | case1 | case4 | case5 | case6 | case7 | case8 => rfl
  | case2 name input _ ih => exact ih m (some name)
  | case3 name input inside ih =>
    have nested : input.graphs ≠ [] := fun none_ => inside (by rw [none_]; rfl)
    exact (ih m graph).trans (triple?_outer nested graph (some name))
  | case9 conditions input ih =>
    rw [triple?, triple?]
    cases m.orderBy? conditions with
    | none => rfl
    | some m => exact ih m graph
  | case10 | case11 | case12 | case13 | case14 | case15 | case16 =>
    rename_i ih
    exact ih _ graph

/-- The graphs around the innermost one have no part in a plan. -/
theorem ofOperation?_innermost (root : Operation) : ofOperation? root.innermost = ofOperation? root := by
  unfold ofOperation?
  rw [triple?_innermost_eq]

theorem triple?_only {m m' : Modifiers} {graph graph' : Option Term} {op : Operation} {q : Quad}
    (h : triple? m graph op = some (m', graph', q)) : op.triples = [q] := by
  fun_induction triple? m graph op with
  | case11 m graph q' =>
    cases h
    rfl
  | case1 | case2 | case3 | case4 | case5 | case7 | case8 | case9 | case10 =>
    rename_i ih
    exact ih h
  | _ => cases h

theorem triple_of_operation {root : Operation} {p : SinglePlan} (unnamed : Reader.Unnamed root.triples)
    (h : ofOperation? root = some p) : ∃ q, root.triples = [q] ∧ p.triple = q.within root.graphs.getLast? := by
  obtain ⟨m, graph, q, order, found, -, rfl⟩ := ofOperation?_cases h
  have only := triple?_only found
  have named := triple?_innermost found
  rw [Option.or_none] at named
  subst named
  have own : q.graph = .defaultGraph := unnamed q (only ▸ List.mem_singleton.2 rfl)
  refine ⟨q, only, ?_⟩
  rw [Quad.within, ← own]

end SinglePlan

namespace MultiPlan

/-- A group is planned only if there is one graph at most around its triples. -/
theorem graphs_le_one {root : Operation} (h : (optional? root).isSome ∨ (compound? root).isSome) :
    root.graphs.length ≤ 1 := by
  have single : ∀ {filters graph least op} {p : GroupPlan}, GroupPlan.ofGroup? filters graph least op = some p →
      (graph.toList ++ op.graphs).length ≤ 1 := by
    intro filters graph least op p found
    obtain ⟨-, -, -, -, graph', same, -⟩ := GroupPlan.ofGroup?_cases found
    rw [← same]
    exact Option.length_toList_le
  rcases peeled : Modifiers.peel {} root with ⟨m, _ | body⟩
  · unfold optional? compound? at h
    rw [peeled] at h
    rcases h with h | h <;> cases h
  · have optional : optional? root = OptionalPlan.ofPattern? body := by
      rw [optional?, peeled]
      rfl
    have compound : compound? root = GroupPlan.ofPattern? body := by
      rw [compound?, peeled]
      rfl
    obtain ⟨-, graphs, -⟩ := Modifiers.peel_cases peeled
    rw [optional, compound] at h
    rw [← graphs]
    rcases h with h | h
    · obtain ⟨p, found⟩ := Option.isSome_iff_exists.1 h
      obtain ⟨_, _, core, -, names, -⟩ := (OptionalPlan.reads_of_pattern found).core
      rw [← names]
      exact single core
    · obtain ⟨p, found⟩ := Option.isSome_iff_exists.1 h
      exact single found

end MultiPlan

namespace SinglePlan

/-- Each query on one triple is planned for the innermost graph around it. That is the graph of every other
one too if there is no plan or if all are alike, and only then; the graphs further out have no part in
whether there is a plan and what it is. No group is planned in more than one graph. -/
theorem graphs_kept_iff {s : Text} {request : Request} {root : Operation} (read : Request.read s = .ok request)
    (asks : request.content = .query root) :
    (∀ p, ofOperation? root = some p → ∃ q, root.triples = [q] ∧ p.triple = q.within root.graphs.getLast?) ∧
    ((∀ p, ofOperation? root = some p → ∀ g ∈ root.graphs, p.triple.graph = g) ↔
      ofOperation? root = none ∨ ∀ g ∈ root.graphs, ∀ g' ∈ root.graphs, g = g') ∧
    ofOperation? root.innermost = ofOperation? root ∧
    ((MultiPlan.optional? root).isSome ∨ (MultiPlan.compound? root).isSome → root.graphs.length ≤ 1) := by
  have planned : ∀ p, ofOperation? root = some p →
      ∃ q, root.triples = [q] ∧ p.triple = q.within root.graphs.getLast? :=
    fun p accepted => triple_of_operation (Request.read_query read asks).unnamed accepted
  refine ⟨planned, ⟨fun kept => ?_, ?_⟩, ofOperation?_innermost root, MultiPlan.graphs_le_one⟩
  · cases accepted : ofOperation? root with
    | none => exact .inl rfl
    | some p => exact .inr fun g mem g' mem' => (kept p accepted g mem).symm.trans (kept p accepted g' mem')
  · rintro (none_ | alike) p accepted g mem
    · rw [none_] at accepted
      cases accepted
    · obtain ⟨q, -, triple⟩ := planned p accepted
      obtain ⟨last, innermost⟩ := Option.isSome_iff_exists.1 (List.getLast?_isSome.2 (List.ne_nil_of_mem mem))
      rw [triple, innermost]
      exact alike last (List.mem_of_getLast? innermost) g mem

def nestedText : Text := "SELECT * WHERE \x7b GRAPH ?g \x7b GRAPH <http://ex/a> \x7b ?s ?p ?o \x7d \x7d \x7d"

def nestedTriple : Quad := ⟨.var "s", .var "p", .var "o", .iri "http://ex/a"⟩

theorem nested_shape :
    (match Request.read nestedText with
      | .ok ⟨.query root, _, _⟩ =>
        decide (root.graphs = [.var "g", .iri "http://ex/a"]) && match ofOperation? root with
          | some p => decide (p.triple = nestedTriple ∧ p.names.contains "g" = true)
          | none => false
      | _ => false) = true := by
  decide +kernel

theorem nested_read : ∃ request root p, Request.read nestedText = .ok request ∧ request.content = .query root ∧
    root.graphs = [.var "g", .iri "http://ex/a"] ∧ ofOperation? root = some p ∧ p.triple = nestedTriple ∧
    p.names.contains "g" = true := by
  have shape := nested_shape
  split at shape
  · rename_i root prefixes base read
    obtain ⟨graphs, shape⟩ := Bool.and_eq_true_iff.1 shape
    split at shape
    · rename_i p accepted
      obtain ⟨triple, shown⟩ := of_decide_eq_true shape
      exact ⟨_, root, p, read, rfl, of_decide_eq_true graphs, accepted, triple, shown⟩
    · cases shape
  · cases shape

theorem graphs_kept_nested : ∃ root p, ofOperation? root = some p ∧ root.graphs = [.var "g", .iri "http://ex/a"] ∧
    ofOperation? root.innermost = some p ∧ (MultiPlan.optional? root = none ∧ MultiPlan.compound? root = none) := by
  obtain ⟨request, root, p, read, asks, graphs, accepted, -⟩ := nested_read
  obtain ⟨-, -, same, groups⟩ := graphs_kept_iff read asks
  have apart : ¬ ((MultiPlan.optional? root).isSome ∨ (MultiPlan.compound? root).isSome) := fun planned => by
    have one := groups planned
    rw [graphs] at one
    exact absurd one (by decide)
  rw [not_or, Option.not_isSome_iff_eq_none, Option.not_isSome_iff_eq_none] at apart
  exact ⟨root, p, accepted, graphs, same.trans accepted, apart⟩

theorem outer_graph_lost : ∃ request root p, Request.read nestedText = .ok request ∧ request.content = .query root ∧
    ofOperation? root = some p ∧ .var "g" ∈ root.graphs ∧ p.triple.graph ≠ .var "g" ∧
    p.names.contains "g" = true ∧ p.triple.varNames.contains "g" = false := by
  obtain ⟨request, root, p, read, asks, graphs, accepted, triple, shown⟩ := nested_read
  refine ⟨request, root, p, read, asks, accepted, graphs ▸ List.mem_cons_self, ?_, shown, ?_⟩
  · rw [triple]
    exact nofun
  · rw [triple]
    decide +kernel

end SinglePlan

end QuadStore
