import QuadStore.Proofs.DistinctRows
import QuadStore.Proofs.PlanNames
import QuadStore.Proofs.StarTree

namespace QuadStore

open Sql Sparql Step

def GroupShape.names : GroupShape → List Text
  | none => []
  | compound p => p.names
  | optional p => p.names p.core.names

theorem MultiPlan.planned {op : Operation} (shaped : shapeOf op ≠ .none) (formed : op.isGroup = true) :
    Planned op (shapeOf op).names := by
  cases made : shapeOf op with
  | none => exact absurd made shaped
  | compound p => exact GroupPlan.planned (compound_of_shape made) formed
  | optional p => exact OptionalPlan.planned (optional_of_shape made) formed

namespace Route

def names : Route → List Text
  | .single p => p.names
  | .multi p => if p.modifiers.names.isEmpty then p.shape.names else p.modifiers.names
  | .delegated => []

theorem names_of_select (isDistinct isReduced : Bool) (names : List Text) (shape : Tree.Shape)
    {pattern : Operation} (formed : pattern.isOrdered = true) :
    let root := shape.sliced (Tree.wrapped isDistinct isReduced (.project names pattern))
    (ofPlans root).isOptimized = true →
      ∃ own, Planned pattern own ∧ (ofPlans root).names = if names.isEmpty then own else names := by
  intro root optimized
  have around {inner : Operation} {own : List Text}
      (place : pattern = inner ∨ ∃ conditions, pattern = .orderBy conditions inner)
      (h : Planned inner own) : Planned pattern own := by
    rcases place with rfl | ⟨conditions, rfl⟩
    · exact h
    · exact h.orderBy
  unfold ofPlans at optimized ⊢
  cases single : SinglePlan.ofOperation? root with
  | some p =>
    obtain ⟨m, graph, q, order, found, once, rfl⟩ := SinglePlan.ofOperation?_cases single
    rcases Modifiers.notes_triple.select isDistinct isReduced names shape formed with
      none_ | ⟨m', inner, own, group, place, same⟩
    · cases found.symm.trans none_
    · have innermost := same.symm.trans found
      obtain ⟨rfl, -⟩ := SinglePlan.triple?_group group innermost
      exact ⟨_, around place (SinglePlan.planned group innermost once), by rw [← own]; rfl⟩
  | none =>
    rw [single] at optimized
    dsimp only at optimized ⊢
    have made : MultiPlan.ofOperation root = ⟨(Modifiers.peel {} root).1, ((Modifiers.peel {} root).2.map
        MultiPlan.shapeOf).getD .none⟩ := by
      unfold MultiPlan.ofOperation
      rcases Modifiers.peel {} root with ⟨m, _ | body⟩ <;> rfl
    rw [made] at optimized ⊢
    rcases Modifiers.notes_peel.select isDistinct isReduced names shape formed with
      none_ | ⟨m, inner, own, group, place, same⟩
    · rw [none_] at optimized
      cases optimized
    · rw [same, Modifiers.peel_group m group] at optimized ⊢
      have shaped : MultiPlan.shapeOf inner ≠ .none := by
        intro none_
        rw [Option.map_some, Option.getD_some, none_] at optimized
        cases optimized
      refine ⟨_, around place (MultiPlan.planned shaped group), ?_⟩
      rw [Option.map_some, Option.getD_some]
      cases made : MultiPlan.shapeOf inner with
      | none => exact absurd made shaped
      | _ => rw [← own]; rfl

end Route

def Solutions.Named (found : Solutions) : Prop := ∀ b ∈ found.rows, ∀ x t, b.get? x = some t → x ∈ found.names

section

variable {σ : Type} [Backend σ] {security : Option Pattern} {s : Store σ} {found : Solutions}

namespace SinglePlan

variable {p : SinglePlan}

theorem mem_names_of_bind {q : Quad} {x : Text} {t : Term} (bound : (p.bind q).get? x = some t) : x ∈ p.names := by
  revert x t
  unfold bind
  refine List.foldlRecOn (motive := fun b : Binding => ∀ {x t}, b.get? x = some t → x ∈ p.names) _ _
    (fun empty => by cases empty) ?_
  intro b named position _ x t bound
  split at bound
  · rename_i name _
    split at bound
    · rename_i asked
      rw [Binding.get?_set] at bound
      split at bound
      · rename_i own
        rw [own]
        exact List.contains_iff_mem.1 asked
      · exact named bound
    · exact named bound
  · exact named bound

theorem names_of_run (h : (p.run security s).1 = .ok found) : found.names = p.names ∧ found.Named := by
  obtain ⟨quints, after, -, h⟩ := bind_eq_ok h
  cases h
  refine ⟨rfl, fun b mem x t bound => ?_⟩
  obtain ⟨q, -, rfl⟩ := List.mem_map.1 (Solutions.mem_of_mem_window mem)
  exact mem_names_of_bind bound

end SinglePlan

theorem GroupPlan.names_of_run {p : GroupPlan} {options : Options} (h : (p.run security options s).1 = .ok found) :
    found.names = p.names := by
  obtain ⟨results, after, -, h⟩ := bind_eq_ok h
  cases h
  rfl

theorem OptionalPlan.names_of_extendAll {p : OptionalPlan} {core : Solutions}
    (h : (p.extendAll security core s).1 = .ok found) : found.names = p.names core.names := by
  unfold extendAll at h
  split at h
  · cases h
    rfl
  · obtain ⟨attributes, after, -, h⟩ := bind_eq_ok h
    cases h
    rfl

namespace MultiPlan

theorem names_of_rows {shape : GroupShape} {options : Options} (h : (rows shape security options s).1 = .ok found) :
    found.names = shape.names := by
  unfold rows at h
  cases shape with
  | none => cases h
  | compound p => exact GroupPlan.names_of_run (mapError_eq_ok h)
  | optional p =>
    obtain ⟨core, after, made, h⟩ := bind_eq_ok (mapError_eq_ok h)
    rw [OptionalPlan.names_of_extendAll h, GroupPlan.names_of_run (congrArg Prod.fst made)]
    rfl

theorem names_of_run {p : MultiPlan} (h : (p.run security s).1 = .ok found) :
    found.names = (Route.multi p).names ∧ found.Named := by
  unfold run at h
  obtain ⟨before, after, made, h⟩ := bind_eq_ok h
  cases h
  have own := names_of_rows (congrArg Prod.fst made)
  refine ⟨?_, fun b mem x t bound => ?_⟩
  · rw [finish, own]
    rfl
  · obtain ⟨c, -, rfl⟩ := restricted_of_finish mem
    rw [Binding.get?_restrict] at bound
    split at bound
    · rename_i named
      exact named
    · cases bound

end MultiPlan

end

theorem Engine.names_of_runRoute {σ δ : Type} [Backend σ] {r : Route} {security : Option Pattern} {e : Engine σ δ}
    {found : Solutions} (h : (runRoute r security e).1 = .ok (some found)) :
    found.names = r.names ∧ found.Named := by
  unfold runRoute at h
  cases r with
  | delegated => cases h
  | single p =>
    obtain ⟨solutions, after, run, same⟩ := bind_eq_ok h
    cases same
    exact SinglePlan.names_of_run (mapError_eq_ok (congrArg Prod.fst run))
  | multi p =>
    obtain ⟨solutions, after, run, same⟩ := bind_eq_ok h
    cases same
    exact MultiPlan.names_of_run (congrArg Prod.fst run)

open Sparql.Tree in
theorem Sparql.Tree.form_of_select (scope : Scope) (isDistinct isReduced : Bool) (chosen : Option (List Text))
    (g : Tree.Group) (shape : Shape) :
    ((Query.select isDistinct isReduced chosen g shape).root scope).form = .select := by
  unfold Query.root Shape.sliced Tree.wrapped
  cases isDistinct <;> cases isReduced <;> dsimp only <;> split <;> rfl

open Sparql.Tree Reader in
/-- An answer to a selection of everything names the variables that are written in the pattern, each where it
stands for the first time, if there is one with a name that no node becomes. If there is none, it names what
the plan has variables for: nodes of the pattern, or variables that are written as these become. Nothing else
has a value in its rows. -/
theorem everything_selected {σ δ : Type} [Backend σ] [Evaluator δ] {query : Text} {request : Sparql.Request}
    (read : Sparql.Request.read query = .ok request) (star : SelectsAll query)
    (optimized : (Route.ofText query).isOptimized = true) (security : Option Pattern) {e : Engine σ δ}
    {found : Solutions} (answered : (Engine.select query security e).1 = .ok found) :
    (∃ isDistinct isReduced g shape, Request.HasTree query (.query (.select isDistinct isReduced none g shape))) ∧
    ∀ isDistinct isReduced g shape, Request.HasTree query (.query (.select isDistinct isReduced none g shape)) →
      (visible g.placed ≠ [] → found.names = (visible g.placed).eraseDups) ∧
      (visible g.placed = [] → ∀ x,
        (x ∈ found.names ↔ .var x ∈ (g.pattern (.whole false .defaultGraph query.length)).matched) ∧
        (x ∈ found.names → blankMark.isPrefixOf x = true ∧ .var x ∈ g.leaves.map (Leaf.term false))) ∧
      found.Named := by
  refine ⟨Request.hasTree_of_star read star, fun isDistinct isReduced g shape tree => ?_⟩
  let scope : Scope := .whole false .defaultGraph query.length
  let pattern := shape.ordered scope (g.pattern scope)
  obtain ⟨request', read', same⟩ := tree.content
  cases read.symm.trans read'
  have route := Route.ofText_read read same (form_of_select scope _ _ _ _ _)
  have formed : pattern.isOrdered = true := Operation.isOrdered_of_select (Request.read_query read same)
  obtain ⟨own, planned, names⟩ :=
    Route.names_of_select isDistinct isReduced pattern.inScope shape formed (route ▸ optimized)
  obtain ⟨named, rows⟩ := Engine.names_of_runRoute (Engine.runRoute_of_select optimized answered)
  have inside : Planned (g.pattern scope) own := planned.of_ordered
  have inScope : pattern.inScope = (visible g.placed).eraseDups := inScope_eq rfl rfl g shape inside.flat
  have chosen : found.names = if (visible g.placed).eraseDups.isEmpty then own else (visible g.placed).eraseDups := by
    rw [← inScope]
    rw [route] at named
    exact named.trans names
  refine ⟨fun some_ => ?_, fun none_ x => ?_, rows⟩
  · obtain ⟨x, mem⟩ := List.exists_mem_of_ne_nil _ some_
    have given : (visible g.placed).eraseDups.isEmpty = false :=
      List.isEmpty_eq_false_iff_exists_mem.2 ⟨x, List.mem_eraseDups.2 mem⟩
    rwa [given] at chosen
  · rw [none_] at chosen inScope
    have unseen : (g.pattern scope).mentioned = [] := by
      rw [← shape.mentioned_ordered (g.pattern scope)]
      exact List.eq_nil_iff_forall_not_mem.2 fun y mem => by
        rw [← List.mem_eraseDups, ← Operation.inScope, inScope] at mem
        cases mem
    rw [chosen]
    exact ⟨inside.names x, fun mem => ⟨inside.hidden unseen mem, inside.leaves rfl mem⟩⟩

namespace Engine

open Sparql.Tree

def oneTriple (subject : Name) : Tree.Group :=
  .triples .empty [.described (.leaf (.name subject))
    (.one (.iri "http://ex/p") (.one (.leaf (.name (.label "o"))) none))]

def tripleOf (subject : Name) : Quad := ⟨subject.term false, .iri "http://ex/p", .var "__bo", .defaultGraph⟩

def tripleTree (subject : Name) : Tree.Request := .query (.select false false none (oneTriple subject) ⟨[], none, none⟩)

theorem hasTree_triple {query : Text} {subject : Name} {names : List Text}
    (shape : (match Sparql.Request.read query with
      | .ok ⟨.query (.project names' (.bgp found)), _, _⟩ => decide (names' = names ∧ found = [tripleOf subject])
      | _ => false) = true)
    (inScope : (Operation.bgp [tripleOf subject]).inScope = names)
    (items : (Token.scan query).map (fun tokens => Item.ofLexemes 0 (tokens.map (·.lexeme))) =
      .ok [.name subject, .name (.label "o")]) :
    ∃ request, Sparql.Request.read query = .ok request ∧
      request.content = .query (.project names (.bgp [tripleOf subject])) ∧
      Request.HasTree query (tripleTree subject) := by
  split at shape
  · rename_i read
    obtain ⟨rfl, rfl⟩ := of_decide_eq_true shape
    refine ⟨_, read, rfl, ?_, _, read, ?_⟩
    · cases scanned : Token.scan query with
      | error e =>
        rw [scanned] at items
        cases items
      | ok tokens =>
        rw [scanned] at items
        exact ⟨tokens, rfl, (Except.ok.inj items).symm⟩
    · rw [← inScope]
      rfl
  · cases shape

def triplePlan (subject : Name) (names : List Text) : SinglePlan where
  triple := tripleOf subject
  names := names
  limit := none
  offset := none
  isDistinct := false
  order := []
  reverse := false

theorem answers_triple {query : Text} {request : Sparql.Request} {subject : Name} {projected names : List Text}
    {rows : List Binding} (read : Sparql.Request.read query = .ok request)
    (same : request.content = .query (.project projected (.bgp [tripleOf subject])))
    (plan : SinglePlan.ofOperation? (.project projected (.bgp [tripleOf subject])) = some (triplePlan subject names))
    (plain : ((tripleOf subject).inGraph ((tripleOf subject).lookup none)).hasRegex = false)
    (shown : ((triplePlan subject names).solutions ((Table.holding true inDefault).rows.filter
      ((tripleOf subject).inGraph ((tripleOf subject).lookup none)).admits)).rows = rows) :
    (Route.ofText query).isOptimized = true ∧
      (select query none (holding inDefault)).1 = .ok ⟨names, rows⟩ := by
  have route := ofText_single read same rfl plan
  have run := (triplePlan subject names).run_open none (.holding true inDefault)
  have asked : (triplePlan subject names).options = {} := rfl
  have triple : (triplePlan subject names).triple = tripleOf subject := rfl
  rw [asked, triple, Store.fetched_all (Pattern.searches_plain _ plain)] at run
  refine ⟨by rw [route]; rfl, ?_⟩
  rw [select_single route run]
  exact congrArg (fun rows => Except.ok (⟨names, rows⟩ : Solutions)) shown

def everySubject : Text := "SELECT * WHERE \x7b ?s <http://ex/p> _:o \x7d"

theorem everything_selected_subjects :
    ∃ found, (select everySubject none (holding inDefault)).1 = .ok found ∧ found.rows.length = 1 ∧
      found.names = ["s"] ∧ found.Named := by
  obtain ⟨request, read, same, tree⟩ : ∃ request, Sparql.Request.read everySubject = .ok request ∧
      request.content = .query (.project ["s"] (.bgp [tripleOf (.var "s")])) ∧
      Request.HasTree everySubject (tripleTree (.var "s")) :=
    hasTree_triple (by decide +kernel) (by decide +kernel) (by decide +kernel)
  have begins : Starred [.word "SELECT", .symbol .star] := .all (by decide +kernel)
  have star : Reader.SelectsAll everySubject := Reader.selectsAll_of_begins begins (by decide +kernel)
  obtain ⟨optimized, answered⟩ :
      (Route.ofText everySubject).isOptimized = true ∧ (select everySubject none (holding inDefault)).1 =
        .ok ⟨["s"], [[("s", .iri "http://ex/s")]]⟩ :=
    answers_triple read same rfl (by decide +kernel) (by decide +kernel)
  obtain ⟨-, all⟩ := everything_selected read star optimized none answered
  obtain ⟨names, -, named⟩ := all _ _ _ _ tree
  exact ⟨_, answered, rfl, names (by decide +kernel), named⟩

def everyNode : Text := "SELECT * WHERE \x7b _:s <http://ex/p> _:o \x7d"

theorem everything_not_selected :
    Request.HasTree everyNode (tripleTree (.label "s")) ∧
    (oneTriple (.label "s")).leaves.filterMap Leaf.var? = [] ∧
    (select everyNode none (holding inDefault)).1 =
      .ok ⟨["__bs", "__bo"], [[("__bs", .iri "http://ex/s"), ("__bo", .plain "1")]]⟩ := by
  obtain ⟨request, read, same, tree⟩ : ∃ request, Sparql.Request.read everyNode = .ok request ∧
      request.content = .query (.project [] (.bgp [tripleOf (.label "s")])) ∧
      Request.HasTree everyNode (tripleTree (.label "s")) :=
    hasTree_triple (by decide +kernel) (by decide +kernel) (by decide +kernel)
  exact ⟨tree, rfl, (answers_triple read same rfl (by decide +kernel) (by decide +kernel)).2⟩

end Engine

end QuadStore
