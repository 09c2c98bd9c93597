import QuadStore.Proofs.DistinctRows
import QuadStore.Proofs.OptionalRows

namespace QuadStore

open Sql Sparql Step

namespace Match

/-- Whether a match on the graph leaves no room to leave out the default graph. -/
def isOccupied : Match → Bool
  | .term _ => true
  | .operators o => o.ne.isSome

theorem admits_otherThan {o : Operators} (free : o.ne = none) (t : Term) (p : Position) (s : Text) :
    (Match.operators { o with ne := some (.term t) }).admits p s =
      (decide (s ≠ t.stored p) && (Match.operators o).admits p s) := by
  have value : (Value.term t).stored p .ne = t.stored p := Value.stored_term t p .ne rfl
  simp only [Match.admits, Match.conditions, Match.regex?, Operators.conditions, free, List.all_append,
    Option.map_some, Option.map_none, Option.toList_some, Option.toList_none, List.all_cons, List.all_nil,
    Condition.holds, Comparison.holds, value, Bool.and_true]
  ac_rfl

end Match

namespace Pattern

theorem admits_graph (p : Pattern) (m : Option Match) (r : Row) :
    ({ p with graph := m } : Pattern).admits r =
      (m.all (·.admits .graph r.graph) && ({ p with graph := none } : Pattern).admits r) := by
  unfold admits Position.keyOrder
  simp only [List.all_cons, List.all_nil, get, Option.all_none, Bool.true_and, Row.get]

/-- Leaving out the default graph takes away its rows, unless the graph is occupied, and no others. -/
theorem admits_outside (p : Pattern) (r : Row) :
    p.outsideDefaultGraph.admits r = ((decide (r.graph ≠ []) || p.graph.any Match.isOccupied) && p.admits r) := by
  have whole : p.admits r = (p.graph.all (·.admits .graph r.graph) && ({ p with graph := none } : Pattern).admits r) :=
    p.admits_graph p.graph r
  unfold outsideDefaultGraph
  cases hg : p.graph with
  | none =>
    have same : p.admits r = ({ p with graph := none } : Pattern).admits r := by
      rw [whole, hg, Option.all_none, Bool.true_and]
    dsimp only
    rw [admits_graph, Option.all_some, Match.admits_ne, Option.any_none, Bool.or_false, same]
    rfl
  | some m =>
    cases m with
    | term t => simp [Match.isOccupied]
    | operators o =>
      dsimp only
      rw [admits_graph, Option.all_some, whole, hg, Option.all_some, Option.any_some]
      cases free : o.ne with
      | none =>
        rw [Option.none_or, Match.admits_otherThan free]
        simp only [Match.isOccupied, free, Option.isSome_none, Bool.or_false, Bool.and_assoc]
        rfl
      | some v =>
        have same : ({ o with ne := some v } : Operators) = o := by rw [← free]
        rw [Option.some_or, same]
        simp only [Match.isOccupied, free, Option.isSome_some, Bool.or_true, Bool.true_and]

end Pattern

namespace Part

/-- Whether the graph of a part is occupied: by the security pattern, or by a filter that is pushed. -/
def keepsDefault (part : Part) (security : Option Pattern) : Bool :=
  (security.bind (·.graph)).any Match.isOccupied || (part.pushed? .graph).any (·.ne.isSome)

theorem asked_graph (part : Part) (guard : Pattern) {name : Text} (graph : part.triple.graph = .var name) :
    (part.asked guard .graph).any Match.isOccupied = part.keepsDefault (some guard) := by
  have open_ : part.triple.fixed? .graph = none := by
    have place : part.triple.get .graph = .var name := graph
    simp [Quad.fixed?, place, Term.isVar]
  have own : guard.get .graph = guard.graph := rfl
  unfold asked keepsDefault
  rw [open_, Option.none_or, own, Option.bind_some]
  cases part.pushed? .graph with
  | none => simp
  | some pushed =>
    cases guard.graph with
    | none => simp [Match.adding, Match.isOccupied]
    | some m =>
      cases m with
      | term t => simp [Match.adding, Match.isOccupied]
      | operators old => cases hp : pushed.ne <;> simp [Match.adding, Match.isOccupied, Operators.merge, hp]

theorem admits_lookup (part : Part) (security : Option Pattern) {name : Text}
    (graph : part.triple.graph = .var name) (r : Row) :
    (part.lookup security).admits r = ((decide (r.graph ≠ []) || part.keepsDefault security) &&
      (part.triple.filteredLookup security part.filters).admits r) := by
  have occupied : (part.triple.filteredLookup security part.filters).graph.any Match.isOccupied =
      part.keepsDefault security := by
    cases security with
    | none =>
      have empty : part.keepsDefault none = part.keepsDefault (some {}) := rfl
      rw [Quad.filteredLookup_none, empty, ← part.asked_graph {} graph, ← get_filteredLookup]
      rfl
    | some guard =>
      rw [← part.asked_graph guard graph, ← get_filteredLookup]
      rfl
  unfold lookup Quad.inGraph
  rw [graph, Term.isVar, if_pos rfl, Pattern.admits_outside, occupied]

theorem named_of_lookup {part : Part} {security : Option Pattern} {name : Text}
    (graph : part.triple.graph = .var name) (free : part.keepsDefault security = false) {r : Row}
    (taken : (part.lookup security).admits r = true) : r.graph ≠ [] := by
  rw [part.admits_lookup security graph, free, Bool.or_false, Bool.and_eq_true] at taken
  exact of_decide_eq_true taken.1

end Part

theorem Term.decode_ne_default {s : Text} (some_ : s ≠ []) : decode s ≠ .defaultGraph := by
  cases s with
  | nil => exact absurd rfl some_
  | cons c rest =>
    intro h
    unfold decode at h
    dsimp only at h
    split at h
    · cases hl : decodeLiteral? rest with
      | none =>
        rw [hl] at h
        cases h
      | some t =>
        have literal := decodeLiteral?_isLiteral hl
        rw [hl, Option.getD_some] at h
        rw [h] at literal
        cases literal
    · split at h
      · cases h
      · split at h <;> cases h

namespace SinglePlan

theorem graph_of_bind {p : SinglePlan} {g : Text} (graph : p.triple.graph = .var g) {k : Quad} {v : Term}
    (bound : (p.bind k).get? g = some v) : v = k.graph := by
  have place : p.triple.get .graph = .var g := graph
  have own : k.get .graph = k.graph := rfl
  unfold bind Position.all at bound
  by_cases asked : p.names.contains g = true
  · simp only [List.foldl_cons, List.foldl_nil, place, asked, if_true, Binding.get?_set, own] at bound
    exact (Option.some.inj bound).symm
  · have unset : (p.bind k).get? g = Binding.get? [] g := by
      refine Binding.get?_foldl_set g (fun b position _ => ?_) []
      cases p.triple.get position with
      | var name =>
        dsimp only
        split
        · rename_i given
          rw [Binding.get?_set, if_neg]
          rintro rfl
          exact asked given
        · rfl
      | _ => rfl
    change (p.bind k).get? g = some v at bound
    rw [unset] at bound
    cases bound

end SinglePlan

namespace GroupPlan

structure RangesOver (p : GroupPlan) (g : Text) : Prop where
  graphs : ∀ part ∈ p.parts, part.triple.graph = .var g
  subject : g ≠ p.subject
  places : ∀ s ∈ p.places, s.name = g → s.position = .graph

theorem rangesOver_of_group {filters : List Expression} {graph : Option Term} {least : Nat} {op : Operation}
    {p : GroupPlan} (h : ofGroup? filters graph least op = some p) {g : Text}
    (innermost : (graph.toList ++ op.graphs).getLast? = some (.var g)) : p.RangesOver g := by
  obtain ⟨-, -, -, filters', graph', names, -, h⟩ := ofGroup?_cases h
  obtain ⟨-, distinct, pushed⟩ := ofTriples?_cases h
  have scope : graph' = some (.var g) := by
    rw [← names] at innermost
    cases graph' with
    | none => cases innermost
    | some name => exact innermost
  subst scope
  obtain ⟨other, apart⟩ := List.nodup_cons.1 distinct
  obtain ⟨-, -, apart⟩ := List.nodup_append.1 apart
  have own : g ∈ ((some (Term.var g)).map nameOf).getD [] := List.mem_singleton.2 rfl
  have parts : ∀ part ∈ p.parts, ∃ q ∈ op.triples, part.triple = q.within (some (.var g)) := by
    intro part mem
    have triple := List.mem_map_of_mem (f := Part.triple) mem
    rw [pushAll?_triples pushed, List.map_map] at triple
    obtain ⟨q, hq, same⟩ := List.mem_map.1 triple
    exact ⟨q, hq, same.symm⟩
  refine ⟨?_, ?_, ?_⟩
  · intro part mem
    obtain ⟨q, -, triple⟩ := parts part mem
    rw [triple]
    rfl
  · rintro rfl
    exact other (List.mem_append_left _ own)
  · intro s mem named
    rw [places_eq, List.mem_flatMap] at mem
    obtain ⟨⟨part, i⟩, inside, mem⟩ := mem
    obtain ⟨inner, place⟩ := mem_placesOf mem
    obtain ⟨q, hq, triple⟩ := parts part ((List.mem_zipIdx' inside).2 ▸ List.getElem_mem _)
    dsimp only at place
    rw [named, triple] at place
    have elsewhere : ∀ a, a = .predicate ∨ a = .object → q.get a = .var g → False := by
      intro a between at_
      exact apart g own g (List.mem_flatMap.2 ⟨q, hq, mem_otherNames between at_⟩) rfl
    cases position : s.position with
    | graph => rfl
    | subject =>
      rw [position] at inner
      revert inner
      decide
    | predicate =>
      rw [position] at place
      exact (elsewhere .predicate (.inl rfl) place).elim
    | object =>
      rw [position] at place
      exact (elsewhere .object (.inr rfl) place).elim

theorem length_of_group {filters : List Expression} {graph : Option Term} {least : Nat} {op : Operation}
    {p : GroupPlan} (h : ofGroup? filters graph least op = some p) : least ≤ p.parts.length := by
  obtain ⟨-, -, enough, _, _, -, -, made⟩ := ofGroup?_cases h
  obtain ⟨-, -, pushed⟩ := ofTriples?_cases made
  have count := congrArg List.length (pushAll?_triples pushed)
  simp only [List.length_map] at count
  omega

theorem Rows.graph_of_bind {p : GroupPlan} {security : Option Pattern} {t : Table} {rows : List Row}
    {found : CompoundResult} (h : p.Rows security t rows found) {g : Text} (ranges : p.RangesOver g) {v : Term}
    (bound : (p.bind found).get? g = some v) : ∀ r ∈ rows, v = .decode r.graph := by
  rw [get?_bind found ranges.subject] at bound
  split at bound
  · rename_i inside
    obtain ⟨s, hs, -⟩ := List.mem_map.1 inside
    have some_ : p.selections.isEmpty = false := by simpa using List.ne_nil_of_mem hs
    obtain ⟨s', hs', named, r', hr', rfl⟩ := h.bindings some_ g v bound
    rw [ranges.places s' (mem_selections hs') named]
    intro r hr
    rw [h.graphs r hr r' hr']
    rfl
  · cases bound

end GroupPlan

namespace Route

/-- Whether all rows that must be there are looked up in a graph that is a variable, which stands nowhere
else where there is more than one part. -/
def RangesOver : Route → Text → Prop
  | .single p, g => p.triple.graph = .var g
  | .multi ⟨_, .compound p⟩, g => p.RangesOver g
  | .multi ⟨_, .optional p⟩, g =>
    p.Formed ∧ p.core.RangesOver g ∧ (p.targets.map (·.2)).Nodup ∧ g ∉ p.targets.map (·.2)
  | .multi ⟨_, .none⟩, _ | .delegated, _ => True

theorem RangesOver.graph {r : Route} {g : Text} (h : r.RangesOver g) {part : Part} (mem : part ∈ r.required) :
    part.triple.graph = .var g := by
  cases r with
  | delegated => cases mem
  | single p =>
    cases List.mem_singleton.1 mem
    exact h
  | multi p =>
    obtain ⟨m, shape⟩ := p
    cases shape with
    | none => cases mem
    | compound p => exact h.graphs part mem
    | optional p => exact h.2.1.graphs part mem

end Route

theorem SinglePlan.triple?_innermost {m m' : Modifiers} {graph graph' : Option Term} {op : Operation} {q : Quad}
    (h : triple? m graph op = some (m', graph', q)) : graph' = op.graphs.getLast?.or graph := by
  fun_induction triple? m graph op with
  | case7 m graph name input ih =>
    rw [ih h, Operation.graphs, List.getLast?_cons]
    cases input.graphs.getLast? <;> rfl
  | case11 =>
    cases h
    rfl
  | case1 | case2 | case3 | case4 | case5 | case8 | case9 | case10 =>
    rename_i ih
    exact ih h
  | _ => cases h

namespace MultiPlan

theorem rangesOver_of_operation {root : Operation} {g : Text} (innermost : root.graphs.getLast? = some (.var g)) :
    (Route.multi (ofOperation root)).RangesOver g := by
  rcases made : ofOperation root with ⟨m, _ | p | p⟩
  · trivial
  · have reads := reads_of_operation made
    obtain ⟨filters, inner, core, -, graphs, -⟩ := reads.core
    rw [← graphs] at innermost
    have ranges := GroupPlan.rangesOver_of_group core innermost
    refine ⟨reads.formed, ranges, reads.fresh.1, fun mem => ?_⟩
    have new := reads.new
    unfold OptionalPlan.areNew at new
    rw [← OptionalPlan.names_targets, Bool.and_eq_true, List.all_eq_true] at new
    obtain ⟨part, hp⟩ := List.exists_mem_of_length_pos (GroupPlan.length_of_group core)
    have place : part.triple.get .graph = .var g := ranges.graphs part hp
    have inside : g ∈ p.core.triples.flatMap Quad.varNames :=
      List.mem_flatMap.2 ⟨_, List.mem_map_of_mem hp, Quad.mem_varNames place⟩
    have other := new.2 g mem
    rw [List.contains_iff_mem.2 inside] at other
    cases other
  · unfold ofOperation at made
    rcases peeled : Modifiers.peel {} root with ⟨m', _ | body⟩
    · rw [peeled] at made
      cases made
    · rw [peeled] at made
      have shape : shapeOf body = .compound p := congrArg MultiPlan.shape made
      obtain ⟨-, graphs, -⟩ := Modifiers.peel_cases peeled
      rw [← graphs] at innermost
      exact GroupPlan.rangesOver_of_group (compound_of_shape shape) innermost

end MultiPlan

namespace Route

theorem rangesOver_ofText {query : Text} {request : Request} {root : Operation}
    (read : Request.read query = .ok request) (asks : request.content = .query root) {g : Text}
    (innermost : root.graphs.getLast? = some (.var g)) : (ofText query).RangesOver g := by
  have plans : (ofPlans root).RangesOver g := by
    unfold ofPlans
    cases single : SinglePlan.ofOperation? root with
    | some p =>
      obtain ⟨m, graph, q, order, found, -, rfl⟩ := SinglePlan.ofOperation?_cases single
      have graph_ := SinglePlan.triple?_innermost found
      rw [innermost] at graph_
      subst graph_
      exact rfl
    | none =>
      have multi := MultiPlan.rangesOver_of_operation innermost
      dsimp only
      split
      · trivial
      · exact multi
  unfold ofText
  rw [read]
  obtain ⟨content, _, _⟩ := request
  cases asks
  dsimp only
  cases root.form with
  | select => exact plans
  | ask => exact plans
  | _ => trivial

end Route

def Route.Draws (r : Route) (security : Option Pattern) (t : Table) (rows : List Row) : Prop :=
  List.Forall₂ (fun part row => row ∈ t.rows ∧ (Part.lookup part security).admits row = true) r.required rows

variable {security : Option Pattern} {t : Table} {found : Solutions} {b : Binding} {g : Text} {v : Term}

theorem SinglePlan.graph_of_run {p : SinglePlan} (graph : p.triple.graph = .var g)
    (h : (p.run security ⟨true, t⟩).1 = .ok found) (mem : b ∈ found.rows) (bound : b.get? g = some v) :
    ∃ rows, (Route.single p).Draws security t rows ∧ ∀ r ∈ rows, v = .decode r.graph := by
  rw [run_open] at h
  obtain ⟨rows, fetched, rfl⟩ := map_eq_ok h
  obtain ⟨r, hr, rfl⟩ := List.mem_map.1 (Solutions.mem_of_mem_window mem)
  obtain ⟨stored, taken⟩ := Store.mem_fetched fetched hr
  rw [← p.lookup_part security] at taken
  refine ⟨[r], .cons ⟨stored, taken⟩ .nil, fun row hrow => ?_⟩
  rw [List.mem_singleton.1 hrow]
  exact graph_of_bind graph bound

theorem GroupPlan.graph_of_answer {p : GroupPlan} {options : Options} (ranges : p.RangesOver g)
    (h : p.answer t security options = .ok found) (mem : b ∈ found.rows) (bound : b.get? g = some v) :
    ∃ rows result, p.Rows security t rows result ∧ ∀ r ∈ rows, v = .decode r.graph := by
  obtain ⟨result, rows, all, rfl⟩ := rows_of_answer h mem
  exact ⟨rows, result, all, all.graph_of_bind ranges bound⟩

namespace MultiPlan

theorem core_of_rows {m : Modifiers} {shape : GroupShape} (ranges : (Route.multi ⟨m, shape⟩).RangesOver g)
    {options : Options} (h : (rows shape security options ⟨true, t⟩).1 = .ok found) (mem : b ∈ found.rows) :
    ∃ (core : GroupPlan) (before : Solutions) (c : Binding), (Route.multi ⟨m, shape⟩).required = core.parts ∧
      core.RangesOver g ∧ core.answer t security options = .ok before ∧ c ∈ before.rows ∧ b.get? g = c.get? g := by
  unfold rows at h
  cases shape with
  | none => cases h
  | compound p =>
    dsimp only at h
    rw [adapt_apply, GroupPlan.run_open] at h
    exact ⟨p, found, b, rfl, ranges, mapError_eq_ok h, mem, rfl⟩
  | optional p =>
    obtain ⟨formed, ranges, once, other⟩ := ranges
    dsimp only at h
    rw [adapt_apply, bind_apply, GroupPlan.run_open] at h
    cases answered : p.core.answer t security options with
    | error e =>
      rw [answered] at h
      cases h
    | ok before =>
      rw [answered] at h
      dsimp only at h
      rw [OptionalPlan.extendAll_completed formed.graph] at h
      have completed := mapError_eq_ok h
      unfold OptionalPlan.completed at completed
      split at completed
      · cases completed
        obtain ⟨c, hc, rfl⟩ := List.mem_map.1 mem
        exact ⟨p.core, before, c, rfl, ranges, answered, hc, OptionalPlan.get?_extend_other once _ other⟩
      · cases completed

theorem graph_of_run {p : MultiPlan} (ranges : (Route.multi p).RangesOver g)
    (h : (p.run security ⟨true, t⟩).1 = .ok found) (mem : b ∈ found.rows) (bound : b.get? g = some v) :
    ∃ rows, (Route.multi p).Draws security t rows ∧ ∀ r ∈ rows, v = .decode r.graph := by
  obtain ⟨m, shape⟩ := p
  unfold run at h
  obtain ⟨before, after, made, finished⟩ := bind_eq_ok h
  cases finished
  obtain ⟨c, hc, names, rfl⟩ := mem_finish mem
  rw [Binding.get?_restrict] at bound
  split at bound
  · obtain ⟨core, others, c', required, coreRanges, answered, hc', same⟩ :=
      core_of_rows ranges (congrArg Prod.fst made) hc
    rw [same] at bound
    obtain ⟨rows, result, all, graph⟩ := GroupPlan.graph_of_answer coreRanges answered hc' bound
    have drawn : (Route.multi ⟨m, shape⟩).Draws security t rows := by
      unfold Route.Draws
      rw [required]
      exact all.parts
    exact ⟨rows, drawn, graph⟩
  · cases bound

end MultiPlan

namespace Engine

variable {δ : Type}

/-- The graph variable of a route is bound to the graph of rows that it is answered from. -/
theorem graph_of_runRoute {r : Route} (ranges : r.RangesOver g) {evaluator : Option δ} {flag : Bool}
    (h : (runRoute r security (⟨⟨true, t⟩, evaluator, flag⟩ : Engine Table δ)).1 = .ok (some found))
    (mem : b ∈ found.rows) (bound : b.get? g = some v) :
    ∃ rows, r.Draws security t rows ∧ ∀ r ∈ rows, v = .decode r.graph := by
  unfold runRoute at h
  cases r with
  | delegated => cases h
  | single p =>
    obtain ⟨solutions, after, run, same⟩ := bind_eq_ok h
    cases same
    exact SinglePlan.graph_of_run ranges (mapError_eq_ok (congrArg Prod.fst run)) mem bound
  | multi p =>
    obtain ⟨solutions, after, run, same⟩ := bind_eq_ok h
    cases same
    exact MultiPlan.graph_of_run ranges (congrArg Prod.fst run) mem bound

variable [Evaluator δ]

theorem runRoute_of_select {σ : Type} [Backend σ] {query : Text} (optimized : (Route.ofText query).isOptimized = true)
    {e : Engine σ δ} (h : (select query security e).1 = .ok found) :
    (runRoute (Route.ofText query) security e).1 = .ok (some found) := by
  unfold select at h
  obtain ⟨answer, after, answered, h⟩ := bind_eq_ok h
  obtain ⟨solutions, rfl⟩ := some_of_runRoute optimized (congrArg Prod.fst answered)
  cases h
  rw [answered]

/-- A lookup in a variable graph takes rows of the default graph only where the graph is occupied, and where
that is so for one part only of those that must be there, the variable is not bound to the default graph. -/
theorem graph_variable_named {query : Text} {request : Request} {root : Operation}
    (read : Request.read query = .ok request) (asks : request.content = .query root) {g : Text}
    (innermost : root.graphs.getLast? = some (.var g)) (security : Option Pattern) (t : Table)
    (evaluator : Option δ) (flag : Bool) :
    (∀ part ∈ (Route.ofText query).required, part.triple.graph = .var g ∧ ∀ r : Row,
      (part.lookup security).admits r = ((decide (r.graph ≠ []) || part.keepsDefault security) &&
        (part.triple.filteredLookup security part.filters).admits r)) ∧
    ∀ part ∈ (Route.ofText query).required, part.keepsDefault security = false →
      ∀ found, (select query security ⟨⟨true, t⟩, evaluator, flag⟩).1 = .ok found →
        ∀ b ∈ found.rows, b.get? g ≠ some .defaultGraph := by
  have ranges := Route.rangesOver_ofText read asks innermost
  constructor
  · intro part mem
    have graph := ranges.graph mem
    exact ⟨graph, part.admits_lookup security graph⟩
  · intro part mem free found answered b hb bound
    have optimized : (Route.ofText query).isOptimized = true := by
      revert mem
      cases Route.ofText query with
      | delegated => exact fun mem => nomatch mem
      | _ => exact fun _ => rfl
    obtain ⟨rows, parts, graph⟩ := graph_of_runRoute ranges (runRoute_of_select optimized answered) hb bound
    obtain ⟨r, hr, -, taken⟩ : ∃ r ∈ rows, r ∈ t.rows ∧ (part.lookup security).admits r = true := by
      obtain ⟨i, lt, rfl⟩ := List.mem_iff_getElem.1 mem
      have bound : i < rows.length := List.Forall₂.length_eq parts ▸ lt
      exact ⟨rows[i], List.getElem_mem bound, List.Forall₂.get parts lt bound⟩
    exact Term.decode_ne_default (Part.named_of_lookup (ranges.graph mem) free taken) (graph r hr).symm

def subjectsInGraphs : Text := "SELECT ?g ?s WHERE { GRAPH ?g { ?s <http://ex/p> ?o } }"

def subjectsOutside : Text :=
  "SELECT ?g ?s WHERE { GRAPH ?g { ?s <http://ex/p> ?o } OPTIONAL { ?s <http://ex/q> ?x } FILTER(?g != <http://ex/g1>) }"

def subjectTriple : Quad := ⟨.var "s", .iri "http://ex/p", .var "o", .defaultGraph⟩

def inGraphs : Operation := .project ["g", "s"] (.graph (.var "g") (.bgp [subjectTriple]))

def outside : Operation :=
  .project ["g", "s"] (.filter (.binary .ne (.term (.var "g")) (.term (.iri "http://ex/g1")))
    (.leftJoin (.graph (.var "g") (.bgp [subjectTriple]))
      (.bgp [⟨.var "s", .iri "http://ex/q", .var "x", .defaultGraph⟩]) none))

def outsidePlan : OptionalPlan where
  core := ⟨"s", [⟨subjectTriple.within (some (.var "g")), [("g", { ne := some (.term (.iri "http://ex/g1")) })]⟩]⟩
  extensions := [⟨.iri "http://ex/q", some "x"⟩]
  graph := none

def inDefault : List Quint := [⟨⟨.iri "http://ex/s", .iri "http://ex/p", .plain "1", .defaultGraph⟩, none⟩]

def inTwo : List Quint := inDefault ++ [⟨⟨.iri "http://ex/t", .iri "http://ex/p", .plain "1", .iri "http://ex/g"⟩, none⟩]

abbrev holding (qs : List Quint) : Engine Table Empty := ⟨⟨true, .holding true qs⟩, none, false⟩

theorem inGraphs_shape :
    (match Request.read subjectsInGraphs with
      | .ok ⟨.query (.project names (.graph g (.bgp triples))), _, _⟩ =>
        decide (names = ["g", "s"] ∧ g = .var "g" ∧ triples = [subjectTriple])
      | _ => false) = true := by
  decide +kernel

theorem inGraphs_read :
    ∃ request, Request.read subjectsInGraphs = .ok request ∧ request.content = .query inGraphs := by
  have shape := inGraphs_shape
  split at shape
  · rename_i read
    obtain ⟨rfl, rfl, rfl⟩ := of_decide_eq_true shape
    exact ⟨_, read, rfl⟩
  · cases shape

theorem outside_shape :
    (match Request.read subjectsOutside with
      | .ok ⟨.query (.project names (.filter (.binary .ne (.term left) (.term right))
          (.leftJoin (.graph g (.bgp triples)) (.bgp more) none))), _, _⟩ =>
        decide (names = ["g", "s"] ∧ left = .var "g" ∧ right = .iri "http://ex/g1" ∧ g = .var "g" ∧
          triples = [subjectTriple] ∧ more = [⟨.var "s", .iri "http://ex/q", .var "x", .defaultGraph⟩])
      | _ => false) = true := by
  decide +kernel

theorem outside_read :
    ∃ request, Request.read subjectsOutside = .ok request ∧ request.content = .query outside := by
  have shape := outside_shape
  split at shape
  · rename_i read
    obtain ⟨rfl, rfl, rfl, rfl, rfl, rfl⟩ := of_decide_eq_true shape
    exact ⟨_, read, rfl⟩
  · cases shape

def inGraphsPlan : SinglePlan where
  triple := subjectTriple.within (some (.var "g"))
  names := ["g", "s"]
  limit := none
  offset := none
  isDistinct := false
  order := []
  reverse := false

theorem inGraphs_route : Route.ofText subjectsInGraphs = .single inGraphsPlan := by
  obtain ⟨request, read, selects⟩ := inGraphs_read
  exact ofText_single read selects rfl rfl

def namedSubject : List Binding := [[("s", .iri "http://ex/t"), ("g", .iri "http://ex/g")]]

theorem inGraphs_answered :
    (select subjectsInGraphs none (holding inTwo)).1 =
      .ok ⟨["g", "s"], namedSubject⟩ := by
  have plain : (inGraphsPlan.triple.inGraph (inGraphsPlan.triple.lookup none)).hasRegex = false := by decide +kernel
  have run := inGraphsPlan.run_open none (.holding true inTwo)
  have asked : inGraphsPlan.options = {} := rfl
  rw [asked, Store.fetched_all (Pattern.searches_plain _ plain)] at run
  have rows : (inGraphsPlan.solutions ((Table.holding true inTwo).rows.filter
      (inGraphsPlan.triple.inGraph (inGraphsPlan.triple.lookup none)).admits)).rows = namedSubject := by decide +kernel
  rw [select_single inGraphs_route run]
  exact congrArg (fun rows => Except.ok (⟨["g", "s"], rows⟩ : Solutions)) rows

theorem graph_variable_named_subjects :
    ∃ found, (select subjectsInGraphs none (holding inTwo)).1 = .ok found ∧ found.rows.length = 1 ∧
      ∀ b ∈ found.rows, b.get? "g" ≠ some .defaultGraph := by
  obtain ⟨request, read, selects⟩ := inGraphs_read
  obtain ⟨-, named⟩ := graph_variable_named read selects rfl none (.holding true inTwo) (none : Option Empty) false
  rw [inGraphs_route] at named
  exact ⟨_, inGraphs_answered, rfl, named _ List.mem_cons_self (by decide +kernel) _ inGraphs_answered⟩

def defaultSubject : List Binding := [[("g", .defaultGraph), ("s", .iri "http://ex/s")]]

/-- A filter on the graph that is pushed to the store takes the place of what leaves out the default graph. -/
theorem graph_variable_default :
    (∃ request, Request.read subjectsOutside = .ok request ∧ request.content = .query outside) ∧
    outside.graphs = [.var "g"] ∧
    (select subjectsOutside none (holding inDefault)).1 =
      .ok ⟨["g", "s"], defaultSubject⟩ := by
  have route : Route.ofText subjectsOutside = .multi ⟨{ names := ["g", "s"] }, .optional outsidePlan⟩ := by
    obtain ⟨request, read, selects⟩ := outside_read
    rw [Route.ofText_read read selects rfl]
    rfl
  have plain : ∀ q ∈ (outsidePlan.core.compound none).patterns, q.hasRegex = false := by decide +kernel
  have inside : ∀ s ∈ (outsidePlan.core.compound none).select,
      s.pattern < (outsidePlan.core.compound none).patterns.length := by decide +kernel
  let core : List Binding := [[("s", .iri "http://ex/s"), ("o", .plain "1"), ("g", .defaultGraph)]]
  obtain ⟨results, combined, rows⟩ : ∃ results,
      Store.combined (.holding true inDefault) (outsidePlan.core.compound none) {} = .ok results ∧
        results.map outsidePlan.core.bind = core :=
    ⟨_, Store.combined_one plain inside rfl, by decide +kernel⟩
  have answered : outsidePlan.core.answer (.holding true inDefault) none {} = .ok ⟨outsidePlan.core.names, core⟩ := by
    rw [GroupPlan.answer, combined, ← rows]
    rfl
  have alone : core.map (outsidePlan.extend
      (outsidePlan.batch (.holding true inDefault) none (outsidePlan.subjects core))) = core := by decide +kernel
  have completed : outsidePlan.completed (.holding true inDefault) none ⟨outsidePlan.core.names, core⟩ =
      .ok ⟨outsidePlan.names outsidePlan.core.names, core⟩ :=
    congrArg (fun rows => Except.ok (⟨outsidePlan.names outsidePlan.core.names, rows⟩ : Solutions)) alone
  have extended := OptionalPlan.extendAll_completed (p := outsidePlan) rfl none ⟨outsidePlan.core.names, core⟩
    (.holding true inDefault)
  have shown : core.map (·.restrict ["g", "s"]) = defaultSubject := by decide +kernel
  rw [completed] at extended
  refine ⟨outside_read, rfl, ?_⟩
  rw [select_multi route (MultiPlan.run_optional rfl answered extended)]
  exact congrArg (fun rows => Except.ok (⟨["g", "s"], rows⟩ : Solutions)) shown

end Engine

end QuadStore
