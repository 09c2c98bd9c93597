import QuadStore.Proofs.GroupShape
import QuadStore.Proofs.Meaning
import QuadStore.Proofs.Step
import QuadStore.Sparql.Request

namespace QuadStore.Sparql

inductive OrderCondition.Keyed (P : Expression → Prop) : OrderCondition → Prop
  | on (ascending : Bool) {key : Expression} (h : P key) : (OrderCondition.on ascending key).Keyed P

namespace Operation

def isGroup : Operation → Bool
  | bgp found => found.all fun q => q.graph = .defaultGraph
  | graph name input => name ≠ .defaultGraph && input.isGroup
  | filter _ input => input.isGroup
  | join left right | leftJoin left right _ | union left right | minus left right =>
    left.isGroup && right.isGroup
  | orderBy .. | project .. | distinct _ | reduced _ | slice .. | ask _ | construct .. | describe .. => false

def isOrdered : Operation → Bool
  | orderBy _ input => input.isGroup
  | op => op.isGroup

theorem isOrdered_of_group {op : Operation} (h : op.isGroup = true) : op.isOrdered = true := by
  cases op <;> first | exact h | cases h

theorem Readable.isGroup {op : Operation} (h : op.Readable) : op.isGroup = true := by
  fun_induction Operation.isGroup op with
  | case1 found =>
    cases h with
    | bgp unnamed => exact List.all_eq_true.2 fun q mem => decide_eq_true (unnamed q mem)
  | case2 name input ih =>
    cases h with
    | graph proper inner => exact Bool.and_eq_true_iff.2 ⟨decide_eq_true proper, ih inner⟩
  | case3 condition input ih =>
    cases h with
    | filter _ inner => exact ih inner
  | case4 left right ihl ihr =>
    cases h with
    | join hl hr => exact Bool.and_eq_true_iff.2 ⟨ihl hl, ihr hr⟩
  | case5 left right condition ihl ihr =>
    cases h with
    | leftJoin hl hr _ => exact Bool.and_eq_true_iff.2 ⟨ihl hl, ihr hr⟩
  | case6 left right ihl ihr =>
    cases h with
    | union hl hr => exact Bool.and_eq_true_iff.2 ⟨ihl hl, ihr hr⟩
  | case7 left right ihl ihr =>
    cases h with
    | minus hl hr => exact Bool.and_eq_true_iff.2 ⟨ihl hl, ihr hr⟩
  | _ => cases h

inductive Ordered : Operation → Prop
  | pattern {op : Operation} (h : op.Readable) : op.Ordered
  | orderBy {conditions : List OrderCondition} {input : Operation} (some_ : conditions ≠ [])
    (keys : ∀ c ∈ conditions, c.Keyed Expression.Readable) (h : input.Readable) : (orderBy conditions input).Ordered

inductive Query : Operation → Prop
  | ordered {op : Operation} (h : op.Ordered) : op.Query
  | project (names : List Text) {input : Operation} (h : input.Ordered) : (project names input).Query
  | distinct {input : Operation} (h : input.Query) : (distinct input).Query
  | reduced {input : Operation} (h : input.Query) : (reduced input).Query
  | slice (start length : Option Nat) {input : Operation} (h : input.Query) : (slice start length input).Query
  | ask {input : Operation} (h : input.Query) : (ask input).Query
  | construct (template : List Quad) {input : Operation} (h : input.Query) : (construct template input).Query
  | describe (targets : List Term) {input : Operation} (h : input.Query) : (describe targets input).Query

theorem Ordered.isOrdered {op : Operation} (h : op.Ordered) : op.isOrdered = true := by
  cases h with
  | pattern h => exact isOrdered_of_group h.isGroup
  | orderBy _ _ h => exact h.isGroup

end Operation

namespace Reader

theorem gives_whereClause : Gives whereClause Operation.Readable :=
  gives_bind fun _ => gives_bind fun _ => gives_group

theorem gives_directed (ascending : Bool) : Gives (directed ascending) (OrderCondition.Keyed Expression.Readable) :=
  gives_bind fun _ => gives_expression.bind fun _ read => gives_bind fun _ => holds_pure (.on ascending read)

theorem gives_orderCondition : Gives orderCondition (OrderCondition.Keyed Expression.Readable) := by
  refine gives_bind fun _ => holds_ite (gives_directed true) (gives_bind fun _ => holds_ite (gives_directed false) ?_)
  refine gives_bind fun next => ?_
  split
  · exact gives_bind fun t => holds_pure (.on true (.term t))
  · exact gives_nested.bind fun _ h => (gives_constraint h).bind fun _ read => holds_pure (.on true read)

theorem gives_orderConditions :
    Gives orderConditions fun conditions => ∀ c ∈ conditions, c.Keyed Expression.Readable := by
  refine holds_loop (fun found before => gives_bind fun next => holds_ite ?_ (holds_pure before)) nofun
  refine gives_orderCondition.bind fun c added => holds_pure ?_
  exact List.forall_mem_append.2 ⟨before, List.forall_mem_singleton.2 added⟩

theorem gives_ordered {op : Operation} (h : op.Readable) : Gives (ordered op) Operation.Ordered := by
  refine gives_bind fun _ => gives_bind fun _ => holds_ite (holds_fail _) (gives_bind fun _ => holds_ite ?_ ?_)
  · refine gives_bind fun _ => gives_orderConditions.bind fun conditions keys => ?_
    split
    · exact holds_fail _
    · rename_i some_
      exact holds_pure (.orderBy (fun none_ => some_ (by rw [none_]; rfl)) keys h)
  · exact holds_pure (.pattern h)

theorem gives_sliced {op : Operation} (h : op.Query) : Gives (sliced op) Operation.Query := by
  refine gives_bind fun _ => gives_bind fun bounds => gives_bind fun _ => holds_ite (holds_fail _) ?_
  split
  · exact holds_pure h
  · exact holds_pure (.slice _ _ h)

theorem gives_selectQuery : Gives selectQuery Operation.Query := by
  refine gives_bind fun isDistinct => ?_
  have rest : ∀ isReduced : Bool, Gives (do
      let chosen ← projected?
      let pattern ← ordered (← whereClause)
      let root : Operation := .project (chosen.getD pattern.inScope) pattern
      sliced (if isDistinct then .distinct root else if isReduced then .reduced root else root)) Operation.Query := by
    intro isReduced
    refine gives_bind fun chosen => gives_whereClause.bind fun op read => ?_
    refine (gives_ordered read).bind fun pattern ordered => gives_sliced ?_
    have root : (Operation.project (chosen.getD pattern.inScope) pattern).Query := .project _ ordered
    split
    · exact .distinct root
    · split
      · exact .reduced root
      · exact root
  exact holds_ite (gives_bind rest) (gives_bind rest)

theorem gives_shaped {op : Operation} {around : Operation → Operation} (h : op.Readable)
    (wrapped : ∀ {inner : Operation}, inner.Query → (around inner).Query) :
    Gives (do return around (← sliced (← ordered op))) Operation.Query :=
  (gives_ordered h).bind fun _ ordered => (gives_sliced (.ordered ordered)).bind fun _ inner =>
    holds_pure (wrapped inner)

theorem gives_askQuery : Gives askQuery Operation.Query :=
  gives_whereClause.bind fun _ read => gives_shaped read .ask

theorem gives_template : Gives template Unnamed :=
  gives_bind fun _ => gives_triples.bind fun _ unnamed => gives_bind fun _ => holds_pure unnamed

theorem gives_constructQuery : Gives constructQuery Operation.Query := by
  refine gives_bind fun _ => holds_ite ?_ ?_
  · exact gives_bind fun found => gives_whereClause.bind fun _ read => gives_shaped read (.construct found)
  · refine gives_bind fun _ => gives_bind fun _ => gives_template.bind fun found unnamed => ?_
    exact gives_shaped (.bgp unnamed) (.construct found)

theorem gives_describeQuery : Gives describeQuery Operation.Query := by
  refine gives_bind fun chosen => gives_bind fun _ => gives_bind fun _ => gives_bind fun _ => ?_
  have rest : ∀ pattern : Operation, pattern.Readable → Gives (do
      let shown := if chosen.isEmpty then pattern.inScope.map Term.var else chosen
      return .describe shown (← sliced (← ordered pattern))) Operation.Query := fun _ read =>
    gives_shaped read (.describe _)
  exact holds_ite (gives_whereClause.bind rest) (Holds.bind (holds_pure readable_empty) rest)

theorem gives_content : Gives content fun c => ∀ root, c = .query root → root.Query := by
  have query : ∀ {r : Reader Operation}, Gives r Operation.Query →
      Gives (do return Content.query (← r)) fun c => ∀ root, c = .query root → root.Query := by
    refine fun h => h.bind fun root read => holds_pure ?_
    rintro root' same
    cases same
    exact read
  refine gives_bind fun _ => gives_bind fun _ => holds_ite (query gives_selectQuery) (gives_bind fun _ => holds_ite
    (query gives_askQuery) (gives_bind fun _ => holds_ite (query gives_constructQuery) (gives_bind fun _ => holds_ite
    (query gives_describeQuery) (gives_bind fun _ => holds_ite ?_ ?_))))
  · exact gives_bind fun found => holds_pure nofun
  · exact holds_fail _

end Reader

namespace Request

variable {s : Text} {request : Request}

theorem read_query {root : Operation} (h : read s = .ok request) (asks : request.content = .query root) :
    root.Query := by
  unfold read at h
  cases scanned : Token.scan s with
  | error e =>
    rw [scanned] at h
    cases h
  | ok tokens =>
    rw [scanned] at h
    have finished : Reader.Gives (do Reader.finished (← Reader.content)) fun r =>
        ∀ root, r.content = .query root → root.Query := by
      refine Reader.gives_content.bind fun c reading => Reader.gives_bind fun _ => Reader.holds_ite ?_ ?_
      · exact Reader.gives_bind fun cursor => Reader.holds_pure reading
      · exact Reader.holds_fail _
    obtain ⟨after, made⟩ := Reader.run_eq_ok h
    exact (finished _ _ request after ⟨rfl, rfl⟩ trivial made).1 root asks

theorem read_select {names : List Text} {pattern : Operation} (h : read s = .ok request)
    (selects : request.content = .query (.project names pattern)) : pattern.isOrdered = true := by
  cases read_query h selects with
  | project _ ordered => exact ordered.isOrdered
  | ordered ordered =>
    cases ordered with
    | pattern none_ => cases none_

end Request

end QuadStore.Sparql
