import QuadStore.Proofs.RawFilters
import QuadStore.Proofs.SingleAnswers

namespace QuadStore

open Sparql Analysis

def RawPushdown.isWhole (p : RawPushdown) : Bool :=
  p.remainder.isNone && p.branches.isEmpty && !p.filters.isEmpty

namespace Sparql.RawExpression

def pushInto (f : RawExpression) : List Part → Analysis (List Part)
  | [] => given none
  | part :: rest => do
    let pushed ← OptionT.lift (f.push part.triple)
    if pushed.isWhole then
      if part.filters.overlaps pushed.filters then given none
      else given (some ({ part with filters := part.filters.addAll pushed.filters } :: rest))
    else
      let rest ← pushInto f rest
      given (some (part :: rest))

end Sparql.RawExpression

namespace Sparql.RawCondition

def sorted (m : Modifiers) : List RawCondition → Analysis Modifiers
  | [] => absent .condition
  | .by _ .missing :: _ => absent .expression
  | [.by ascending key] => given (key.varName?.map fun name => { m with order := some name, reverse := !ascending })
  | _ => given none

end Sparql.RawCondition

namespace Sparql.RawOperation

def planned (m : Modifiers) (graph : Option Term) : RawOperation → Analysis (Modifiers × Option Term × Quad)
  | .record .project (input :: _) _ _ details => input.planned (m.project (details.terms.map Term.value)) graph
  | .record .slice (input :: _) _ _ details => input.planned (m.slice details.start details.length) graph
  | .record .distinct (input :: _) _ _ _ | .record .reduced (input :: _) _ _ _ =>
    input.planned { m with isDistinct := true } graph
  | .record .orderBy (input :: _) order _ _ => do
    let m ← RawCondition.sorted m order
    input.planned m graph
  | .record .graph (input :: _) _ _ details => input.planned m (some details.graph)
  | .record .ask (input :: _) _ _ _ | .record .construct (input :: _) _ _ _
  | .record .describe (input :: _) _ _ _ => input.planned m graph
  | .record .bgp _ _ _ details => match details.triples with
    | [q] => given (some (m, graph, q))
    | _ => given none
  | .record .filter _ _ _ _ | .record .join _ _ _ _ | .record .leftJoin _ _ _ _ | .record .union _ _ _ _
  | .record .minus _ _ _ _ => given none
  | .record _ [] _ _ _ | .missing => absent .input

def single (root : RawOperation) : Analysis SinglePlan := do
  let (m, graph, q) ← root.planned {} none
  let q := { q with graph := graph.getD q.graph }
  if q.varNames.Nodup then
    let order ← given (SinglePlan.order? q m.order)
    given (some {
      triple := q
      names := if m.names.isEmpty then q.varNames else m.names
      limit := m.limit
      offset := m.offset
      isDistinct := m.isDistinct
      order := order
      reverse := m.reverse })
  else given none

def peeled (m : Modifiers) : RawOperation → Except Missing (Modifiers × Option RawOperation)
  | .record .project (input :: _) _ _ details => input.peeled (m.project (details.terms.map Term.value))
  | .record .slice (input :: _) _ _ details => input.peeled (m.slice details.start details.length)
  | .record .distinct (input :: _) _ _ _ | .record .reduced (input :: _) _ _ _ =>
    input.peeled { m with isDistinct := true }
  | .record .orderBy (input :: _) order _ _ => do
    match ← (RawCondition.sorted m order).run with
    | some m => input.peeled m
    | none => return (m, none)
  | .record .ask (input :: _) _ _ _ => input.peeled m
  | .record .project [] _ _ _ | .record .slice [] _ _ _ | .record .distinct [] _ _ _ | .record .reduced [] _ _ _
  | .record .orderBy [] _ _ _ | .record .ask [] _ _ _ | .missing => .error .input
  | op => .ok (m, some op)

/-- The filters and the graph around a pattern; none if there is a graph in a graph. -/
def unwrapped (filters : List RawExpression) (graph : Option Term) :
    RawOperation → Analysis (List RawExpression × Option Term × RawOperation)
  | .record .filter _ _ .missing _ => absent .expression
  | .record .filter (input :: _) _ condition _ => input.unwrapped (filters ++ [condition]) graph
  | .record .graph (input :: _) _ _ details =>
    if graph.isSome then given none else input.unwrapped filters (some details.graph)
  | .record .filter [] _ _ _ | .record .graph [] _ _ _ | .missing => absent .input
  | op => given (some (filters, graph, op))

mutual

def joined : RawOperation → Analysis (List Quad)
  | .missing => absent .input
  | .record .bgp _ _ _ details => given (some details.triples)
  | .record .join inputs _ _ _ => joinedAll inputs
  | _ => given none

def joinedAll : List RawOperation → Analysis (List Quad)
  | [] => given (some [])
  | op :: ops => do
    let found ← op.joined
    let more ← joinedAll ops
    given (some (found ++ more))

end

def firstOf : List Quad → Analysis Quad
  | [] => absent .triple
  | q :: _ => given (some q)

/-- The plan for triples of one subject; no rows can be searched after a join. -/
def ofTriples (filters : List RawExpression) (graph : Option Term) (triples : List Quad) : Analysis GroupPlan := do
  let q ← firstOf triples
  let name ← given (GroupPlan.nameOf q.subject).head?
  if !triples.all fun q => q.subject = .var name then given none
  else if ¬(name :: GroupPlan.others graph triples).Nodup then given none
  else
    let parts := triples.map fun q => { triple := { q with graph := graph.getD .defaultGraph } }
    let conjuncts ← OptionT.lift (filters.mapM (RawExpression.parts "&&"))
    let parts ← conjuncts.flatten.foldlM (fun parts f => f.pushInto parts) parts
    if 1 < parts.length && parts.any GroupPlan.hasRegex then given none
    else given (some ⟨name, parts⟩)

/-- The plan for a group of at least some number of triples, with filters and a graph around it. -/
def group (filters : List RawExpression) (graph : Option Term) (least : Nat) (op : RawOperation) :
    Analysis GroupPlan := do
  let (filters, graph, body) ← op.unwrapped filters graph
  let triples ← body.joined
  if triples.length < least then given none else ofTriples filters graph triples

def compound (op : RawOperation) : Analysis GroupPlan := group [] none 2 op

def spine : RawOperation → Except Missing (RawOperation × List (RawOperation × RawExpression))
  | .missing => .error .input
  | .record .leftJoin (left :: right :: _) _ condition _ => do
    let (core, rest) ← left.spine
    return (core, rest ++ [(right, condition)])
  | .record .leftJoin _ _ _ _ => .error .input
  | op => .ok (op, [])

def extension (subject : Text) : RawOperation × RawExpression → Analysis Extension
  | (.missing, _) => absent .input
  | (.record .bgp _ _ _ details, .missing) => given (OptionalPlan.extension? subject (.bgp details.triples, none))
  | _ => given none

def optional (op : RawOperation) : Analysis OptionalPlan := do
  let (filters, graph, body) ← op.unwrapped [] none
  if (graph.map Term.isVar).getD false then given none
  else
    let (inner, optionals) ← OptionT.lift body.spine
    if optionals.isEmpty then given none
    else
      let core ← group filters graph 1 inner
      let extensions ← optionals.mapM (extension core.subject)
      if OptionalPlan.areNew (core.triples.flatMap Quad.varNames) extensions then
        given (some ⟨core, extensions, graph⟩)
      else given none

def shape (body : RawOperation) : Except Missing GroupShape := do
  match ← body.optional.run with
  | some p => return .optional p
  | none => match ← body.compound.run with
    | some p => return .compound p
    | none => return .none

def multi (root : RawOperation) : Except Missing MultiPlan := do
  match ← root.peeled {} with
  | (modifiers, some body) => return ⟨modifiers, ← body.shape⟩
  | (modifiers, none) => return ⟨modifiers, .none⟩

def multiOptional (root : RawOperation) : Analysis OptionalPlan := do
  let (_, body) ← OptionT.lift (root.peeled {})
  let body ← given body
  body.optional

def multiCompound (root : RawOperation) : Analysis GroupPlan := do
  let (_, body) ← OptionT.lift (root.peeled {})
  let body ← given body
  body.compound

end Sparql.RawOperation

theorem RawPushdown.isWhole_raw (p : Pushdown) : p.raw.isWhole = p.isWhole := by
  unfold RawPushdown.isWhole Pushdown.isWhole Pushdown.raw
  rw [Option.isNone_map]

namespace Sparql

theorem RawExpression.pushInto_raw (e : Expression) (parts : List Part) :
    e.raw.pushInto parts = given (GroupPlan.push? e parts) := by
  have lifted : ∀ q, OptionT.lift (e.raw.push q) = given (some (Pushdown.ofFilter q e).raw) := by
    intro q
    rw [push_raw]
    rfl
  fun_induction GroupPlan.push? e parts with
  | case1 => rfl
  | case2 part rest pushed whole overlaps =>
    rw [pushInto, lifted, some_bind, RawPushdown.isWhole_raw, if_pos whole]
    exact if_pos overlaps
  | case3 part rest pushed whole overlaps =>
    rw [pushInto, lifted, some_bind, RawPushdown.isWhole_raw, if_pos whole]
    exact if_neg overlaps
  | case4 part rest pushed other ih =>
    rw [pushInto, lifted, some_bind, RawPushdown.isWhole_raw, if_neg other, ih]
    cases GroupPlan.push? e rest <;> rfl

namespace RawOperation

theorem WellFormed.first {kind : Kind} {op : RawOperation} {ops : List RawOperation} {order : List RawCondition}
    {expression : RawExpression} {details : Details}
    (h : (RawOperation.record kind (op :: ops) order expression details).WellFormed) : op.WellFormed := by
  cases h with
  | record _ present => exact present _ List.mem_cons_self

theorem sorted_raw {m : Modifiers} {conditions : List OrderCondition} {input : Operation}
    (h : (Operation.orderBy conditions input).raw.WellFormed) :
    RawCondition.sorted m (OrderCondition.raws conditions) = given (m.orderBy? conditions) := by
  cases h with
  | record _ _ ordered =>
    rcases conditions with _ | ⟨⟨ascending, key⟩, _ | ⟨c, rest⟩⟩
    · exact absurd rfl (ordered rfl)
    · have single : RawCondition.sorted m [.by ascending key.raw] =
          given (key.raw.varName?.map fun name => { m with order := some name, reverse := !ascending }) := by
        cases key <;> rfl
      rw [RawExpression.varName?_raw] at single
      exact single
    · cases key <;> rfl

theorem values_of_names (names : List Text) : (names.map Term.var).map Term.value = names := by
  rw [List.map_map]
  exact List.map_id names

theorem planned_raw (m : Modifiers) (graph : Option Term) {op : Operation} (h : op.raw.WellFormed) :
    op.raw.planned m graph = given (SinglePlan.triple? m graph op) := by
  fun_induction SinglePlan.triple? m graph op with
  | case1 m graph names input ih =>
    rw [Operation.raw, planned, values_of_names]
    exact ih h.first
  | case2 m graph start length input ih | case3 m graph input ih
  | case4 m graph input ih | case7 m graph name input ih | case8 m graph input ih | case9 m graph template input ih
  | case10 m graph targets input ih => exact ih h.first
  | case5 m graph conditions input m' ordered ih =>
    rw [Operation.raw, planned, sorted_raw h, ordered, some_bind]
    exact ih h.first
  | case6 m graph conditions input unordered =>
    rw [Operation.raw, planned, sorted_raw h, unordered]
    rfl
  | case11 m graph q => rfl
  | case12 m graph found other =>
    rw [Operation.raw, planned]
    split
    · rename_i q same
      exact absurd same (other q)
    · rfl
  | case13 | case14 | case15 | case16 | case17 => rfl

theorem single_raw {root : Operation} (h : root.raw.WellFormed) :
    root.raw.single = given (SinglePlan.ofOperation? root) := by
  unfold single SinglePlan.ofOperation?
  rw [planned_raw _ _ h]
  refine given_bind fun ⟨m, graph, q⟩ _ => ?_
  dsimp only
  split
  · exact given_bind fun order _ => rfl
  · rfl

theorem peeled_raw (m : Modifiers) {op : Operation} (h : op.raw.WellFormed) :
    op.raw.peeled m = .ok ((m.peel op).1, (m.peel op).2.map Operation.raw) := by
  fun_induction Modifiers.peel m op with
  | case1 m names input ih =>
    rw [Operation.raw, peeled, values_of_names]
    exact ih h.first
  | case2 m start length input ih | case3 m input ih | case4 m input ih | case7 m input ih => exact ih h.first
  | case5 m conditions input m' ordered ih =>
    rw [Operation.raw, peeled, sorted_raw h, ordered]
    exact ih h.first
  | case6 m conditions input unordered =>
    rw [Operation.raw, peeled, sorted_raw h, unordered]
    rfl
  | case8 m op =>
    cases op <;> first | rfl | (exfalso; solve_by_elim)

theorem unwrapped_raw (filters : List Expression) (graph : Option Term) (op : Operation) :
    op.raw.unwrapped (filters.map Expression.raw) graph =
      given ((GroupPlan.unwrap filters graph op).map fun (filters, graph, body) =>
        (filters.map Expression.raw, graph, body.raw)) := by
  fun_induction GroupPlan.unwrap filters graph op with
  | case1 filters graph condition input ih =>
    have step : (Operation.filter condition input).raw.unwrapped (filters.map Expression.raw) graph =
        input.raw.unwrapped (filters.map Expression.raw ++ [condition.raw]) graph := by
      cases condition <;> rfl
    rw [step, ← ih, List.map_append, List.map_singleton]
  | case2 filters graph name input inside =>
    rw [Operation.raw, unwrapped, if_pos inside]
    rfl
  | case3 filters graph name input outer ih =>
    rw [Operation.raw, unwrapped, if_neg outer]
    exact ih
  | case4 filters graph op =>
    cases op <;> first | rfl | (exfalso; solve_by_elim)

theorem joined_raw (op : Operation) : op.raw.joined = given (GroupPlan.joined? op) := by
  fun_induction GroupPlan.joined? op with
  | case1 found => rfl
  | case2 left right ihl ihr =>
    rw [Operation.raw, joined, joinedAll, joinedAll, joinedAll, ihl, ihr]
    refine given_bind fun a _ => ?_
    cases GroupPlan.joined? right with
    | none => rfl
    | some b => exact congrArg (fun more => given (some (a ++ more))) (List.append_nil b)
  | case3 op => cases op <;> first | rfl | (exfalso; solve_by_elim)

theorem pushAll_raw (conditions : List Expression) (parts : List Part) :
    (conditions.map Expression.raw).foldlM (fun parts f => f.pushInto parts) parts =
      given (GroupPlan.pushAll? conditions parts) := by
  unfold GroupPlan.pushAll?
  induction conditions generalizing parts with
  | nil => rfl
  | cons e conditions ih =>
    rw [List.map_cons, List.foldlM_cons, List.foldlM_cons, RawExpression.pushInto_raw]
    exact given_bind fun parts _ => ih parts

theorem ofTriples_raw (filters : List Expression) (graph : Option Term) {triples : List Quad} (some_ : triples ≠ []) :
    ofTriples (filters.map Expression.raw) graph triples = given (GroupPlan.ofTriples? filters graph triples) := by
  have conjuncts : OptionT.lift ((filters.map Expression.raw).mapM (RawExpression.parts "&&")) =
      given (some (filters.map fun e => e.conjuncts.map Expression.raw)) := by
    rw [mapM_ok RawExpression.parts_conjuncts]
    rfl
  have flat : (filters.map fun e => e.conjuncts.map Expression.raw).flatten =
      (filters.flatMap Expression.conjuncts).map Expression.raw := by
    rw [List.map_flatMap, List.flatMap_def]
  cases triples with
  | nil => exact absurd rfl some_
  | cons q rest =>
    unfold ofTriples GroupPlan.ofTriples?
    rw [firstOf, some_bind, conjuncts]
    refine given_bind fun name _ => ?_
    dsimp only
    split
    · rfl
    · split
      · rfl
      · rw [some_bind, flat, pushAll_raw]
        refine given_bind fun parts _ => ?_
        split <;> rfl

theorem group_raw (filters : List Expression) (graph : Option Term) {least : Nat} (some_ : 0 < least) (op : Operation) :
    group (filters.map Expression.raw) graph least op.raw = given (GroupPlan.ofGroup? filters graph least op) := by
  unfold group GroupPlan.ofGroup?
  rw [unwrapped_raw]
  refine given_map_bind _ fun ⟨filters, graph, body⟩ _ => ?_
  dsimp only
  rw [joined_raw]
  refine given_bind fun triples _ => ?_
  split
  · rfl
  · rename_i enough
    refine ofTriples_raw filters graph ?_
    rintro rfl
    exact enough some_

theorem compound_raw (op : Operation) : op.raw.compound = given (GroupPlan.ofPattern? op) :=
  group_raw [] none (Nat.succ_pos 1) op

theorem spine_raw (op : Operation) : op.raw.spine = .ok ((OptionalPlan.spine op).1.raw,
    (OptionalPlan.spine op).2.map fun (right, condition) => (right.raw, Expression.rawOf condition)) := by
  fun_induction OptionalPlan.spine op with
  | case1 left right condition core rest split_ ih =>
    rw [Operation.raw, spine, ih, split_, List.map_append]
    rfl
  | case2 op => cases op <;> first | rfl | (exfalso; solve_by_elim)

theorem extension_raw (subject : Text) (right : Operation) (condition : Option Expression) :
    extension subject (right.raw, Expression.rawOf condition) =
      given (OptionalPlan.extension? subject (right, condition)) := by
  cases right with
  | bgp found =>
    cases condition with
    | none => rfl
    | some e =>
      have typed : OptionalPlan.extension? subject (.bgp found, some e) = none := by
        rcases found with _ | ⟨q, _ | ⟨q', rest⟩⟩ <;> rfl
      rw [typed]
      cases e <;> rfl
  | _ => rfl

theorem optional_raw (op : Operation) : op.raw.optional = given (OptionalPlan.ofPattern? op) := by
  unfold optional OptionalPlan.ofPattern?
  rw [show ([] : List RawExpression) = [].map Expression.raw from rfl, unwrapped_raw]
  refine given_map_bind _ fun ⟨filters, graph, body⟩ _ => ?_
  dsimp only
  split
  · rfl
  · have lifted : OptionT.lift body.raw.spine = given (some ((OptionalPlan.spine body).1.raw,
        (OptionalPlan.spine body).2.map fun (right, condition) => (right.raw, Expression.rawOf condition))) := by
      rw [spine_raw]
      rfl
    rw [lifted, some_bind]
    dsimp only
    rw [List.isEmpty_map]
    split
    · rfl
    · rw [group_raw filters graph Nat.one_pos]
      refine given_bind fun core _ => ?_
      rw [mapM_given fun (right, condition) => extension_raw core.subject right condition]
      refine given_bind fun extensions _ => ?_
      split <;> rfl

theorem shape_raw (body : Operation) : body.raw.shape = .ok (MultiPlan.shapeOf body) := by
  have optional : body.raw.optional.run = .ok (OptionalPlan.ofPattern? body) := by
    rw [optional_raw]
    rfl
  have compound : body.raw.compound.run = .ok (GroupPlan.ofPattern? body) := by
    rw [compound_raw]
    rfl
  unfold shape MultiPlan.shapeOf
  rw [optional, compound]
  cases OptionalPlan.ofPattern? body with
  | some p => rfl
  | none => cases GroupPlan.ofPattern? body <;> rfl

theorem multi_raw {root : Operation} (h : root.raw.WellFormed) :
    root.raw.multi = .ok (MultiPlan.ofOperation root) := by
  unfold multi MultiPlan.ofOperation
  rw [peeled_raw {} h, ok_bind]
  rcases Modifiers.peel {} root with ⟨m, _ | body⟩
  · rfl
  · dsimp only [Option.map_some]
    rw [shape_raw]
    rfl

theorem multiOptional_raw {root : Operation} (h : root.raw.WellFormed) :
    root.raw.multiOptional = given (MultiPlan.optional? root) := by
  unfold multiOptional MultiPlan.optional?
  rw [peeled_raw {} h]
  exact given_map_bind _ fun body _ => optional_raw body

theorem multiCompound_raw {root : Operation} (h : root.raw.WellFormed) :
    root.raw.multiCompound = given (MultiPlan.compound? root) := by
  unfold multiCompound MultiPlan.compound?
  rw [peeled_raw {} h]
  exact given_map_bind _ fun body _ => compound_raw body

end RawOperation

namespace Request

/-- Every record of a query that can be read has what it needs, so that no analysis of the query and of its
filters comes to something that is missing, and each gives what it gives for the query. -/
theorem read_complete {s : Text} {request : Request} {root : Operation} (h : read s = .ok request)
    (asks : request.content = .query root) :
    root.raw.WellFormed ∧
    root.raw.single = given (SinglePlan.ofOperation? root) ∧
    root.raw.multi = .ok (MultiPlan.ofOperation root) ∧
    root.raw.multiOptional = given (MultiPlan.optional? root) ∧
    root.raw.multiCompound = given (MultiPlan.compound? root) ∧
    (∀ f : RawExpression, f.WellFormed → ∀ q, ∃ p, f.push q = .ok p) ∧
    ∀ (e : Expression) (q : Quad), e.raw.push q = .ok (Pushdown.ofFilter q e).raw := by
  have formed := (read_query h asks).wellFormed
  exact ⟨formed, RawOperation.single_raw formed, RawOperation.multi_raw formed,
    RawOperation.multiOptional_raw formed, RawOperation.multiCompound_raw formed,
    fun f wellFormed q => f.push_complete q wellFormed, fun e q => RawExpression.push_raw q e⟩

def groupText : Text :=
  "SELECT ?s ?o WHERE \x7b ?s <http://ex/p> ?o . ?s <http://ex/q> ?x FILTER(?x > 5 && ?o != 3) \x7d ORDER BY DESC(?s)"

theorem groupText_shape :
    (match read groupText with
      | .ok ⟨.query root, _, _⟩ =>
        (SinglePlan.ofOperation? root).isNone && (MultiPlan.compound? root).isSome
      | _ => false) = true := by
  decide +kernel

theorem read_complete_group : ∃ request root, read groupText = .ok request ∧ request.content = .query root ∧
    root.raw.WellFormed ∧ root.raw.single = given none ∧ ∃ p, root.raw.multiCompound = given (some p) := by
  have shape := groupText_shape
  split at shape
  · rename_i root prefixes base h
    obtain ⟨single, compound⟩ := Bool.and_eq_true_iff.1 shape
    obtain ⟨p, planned⟩ := Option.isSome_iff_exists.1 compound
    obtain ⟨formed, own, -, -, group, -⟩ := read_complete h rfl
    rw [Option.isNone_iff_eq_none.1 single] at own
    rw [planned] at group
    exact ⟨_, root, h, rfl, formed, own, p, group⟩
  · cases shape

end Request

end Sparql

end QuadStore
