import QuadStore.Proofs.QueryShape

namespace QuadStore.Sparql

/-- The kinds of operations. -/
inductive Kind where
  | bgp | join | leftJoin | union | minus | graph | filter | orderBy | project | distinct | reduced | slice
  | ask | construct | describe
  deriving DecidableEq

namespace Kind

def arity : Kind → Nat
  | bgp => 0
  | join | leftJoin | union | minus => 2
  | graph | filter | orderBy | project | distinct | reduced | slice | ask | construct | describe => 1

end Kind

/-- What an operation has besides inputs and expressions. -/
structure Details where
  /-- The variables of a projection, the targets of a description. -/
  terms : List Term := []
  start : Option Nat := none
  length : Option Nat := none
  triples : List Quad := []
  graph : Term := .defaultGraph

mutual

/-- An expression, or that there is none. -/
inductive RawExpression where
  | missing
  | term (t : Term)
  | operator (name : Text) (args : List RawExpression)
  | call (function : Term) (args : List RawExpression)
  | existence (negated : Bool) (pattern : RawOperation)

inductive RawCondition where
  | by (ascending : Bool) (key : RawExpression)

/-- An operation, or that there is none. -/
inductive RawOperation where
  | missing
  | record (kind : Kind) (inputs : List RawOperation) (order : List RawCondition) (expression : RawExpression)
    (details : Details)

end

def pairNames : List Text := ["||", "&&", "=", "!=", "<", ">", "<=", ">=", "+", "-", "*", "/"]

def loneNames : List Text := ["!", "UMINUS"]

def arity? (name : Text) : Option Nat :=
  if pairNames.contains name then some 2 else if loneNames.contains name then some 1 else none

mutual

/-- Whether an expression and all that is in it has what it needs. -/
inductive RawExpression.WellFormed : RawExpression → Prop
  | term (t : Term) : (RawExpression.term t).WellFormed
  | operator {name : Text} {args : List RawExpression} (counted : ∀ n, arity? name = some n → args.length = n)
    (present : ∀ a ∈ args, a.WellFormed) : (RawExpression.operator name args).WellFormed
  | call (function : Term) {args : List RawExpression} (present : ∀ a ∈ args, a.WellFormed) :
    (RawExpression.call function args).WellFormed
  | existence (negated : Bool) {pattern : RawOperation} (present : pattern.WellFormed) :
    (RawExpression.existence negated pattern).WellFormed

inductive RawCondition.WellFormed : RawCondition → Prop
  | by (ascending : Bool) {key : RawExpression} (present : key.WellFormed) : (RawCondition.by ascending key).WellFormed

/-- Whether an operation and all that is in it has what it needs; only a filter needs an expression. -/
inductive RawOperation.WellFormed : RawOperation → Prop
  | record {kind : Kind} {inputs : List RawOperation} {order : List RawCondition} {expression : RawExpression}
    {details : Details} (counted : inputs.length = kind.arity) (present : ∀ n ∈ inputs, n.WellFormed)
    (ordered : kind = .orderBy → order ≠ []) (sorted : ∀ c ∈ order, c.WellFormed)
    (filtered : kind = .filter → expression ≠ .missing) (formed : expression ≠ .missing → expression.WellFormed) :
    (RawOperation.record kind inputs order expression details).WellFormed

end

mutual

def Expression.raw : Expression → RawExpression
  | .term t => .term t
  | .binary op left right => .operator op.symbol.text [left.raw, right.raw]
  | .negation e => .operator "!" [e.raw]
  | .opposite e => .operator "UMINUS" [e.raw]
  | .member negated e values => .operator (if negated then "notin" else "in") (e.raw :: Expression.raws values)
  | .builtin f arguments => .operator f.name (Expression.raws arguments)
  | .call function arguments => .call function (Expression.raws arguments)
  | .existence negated pattern => .existence negated pattern.raw

def Expression.raws : List Expression → List RawExpression
  | [] => []
  | e :: es => e.raw :: Expression.raws es

def Expression.rawOf : Option Expression → RawExpression
  | none => .missing
  | some e => e.raw

def OrderCondition.raw : OrderCondition → RawCondition
  | .on ascending key => .by ascending key.raw

def OrderCondition.raws : List OrderCondition → List RawCondition
  | [] => []
  | c :: cs => c.raw :: OrderCondition.raws cs

def Operation.raw : Operation → RawOperation
  | .bgp found => .record .bgp [] [] .missing { triples := found }
  | .join left right => .record .join [left.raw, right.raw] [] .missing {}
  | .leftJoin left right condition =>
    .record .leftJoin [left.raw, right.raw] [] (Expression.rawOf condition) {}
  | .union left right => .record .union [left.raw, right.raw] [] .missing {}
  | .minus left right => .record .minus [left.raw, right.raw] [] .missing {}
  | .graph name input => .record .graph [input.raw] [] .missing { graph := name }
  | .filter condition input => .record .filter [input.raw] [] condition.raw {}
  | .orderBy conditions input => .record .orderBy [input.raw] (OrderCondition.raws conditions) .missing {}
  | .project names input => .record .project [input.raw] [] .missing { terms := names.map .var }
  | .distinct input => .record .distinct [input.raw] [] .missing {}
  | .reduced input => .record .reduced [input.raw] [] .missing {}
  | .slice start length input => .record .slice [input.raw] [] .missing { start, length }
  | .ask input => .record .ask [input.raw] [] .missing {}
  | .construct template input => .record .construct [input.raw] [] .missing { triples := template }
  | .describe targets input => .record .describe [input.raw] [] .missing { terms := targets }

end

theorem Expression.raws_eq (es : List Expression) : raws es = es.map raw := by
  induction es with
  | nil => rfl
  | cons e es ih => rw [raws, ih, List.map_cons]

theorem OrderCondition.raws_eq (cs : List OrderCondition) : raws cs = cs.map raw := by
  induction cs with
  | nil => rfl
  | cons c cs ih => rw [raws, ih, List.map_cons]

theorem arity?_symbol (op : Operator) : arity? op.symbol.text = some 2 := by
  cases op <;> decide

theorem arity?_builtin (f : Builtin) : arity? f.name = none := by
  cases f <;> decide

theorem arity?_member (negated : Bool) : arity? (if negated then "notin" else "in") = none := by
  cases negated <;> decide

theorem RawExpression.WellFormed.present {f : RawExpression} (h : f.WellFormed) : f ≠ .missing := by
  rintro rfl
  cases h

namespace RawOperation

theorem wellFormed_bgp (found : List Quad) :
    (RawOperation.record .bgp [] [] .missing { triples := found }).WellFormed :=
  .record rfl (List.forall_mem_nil _) nofun (List.forall_mem_nil _) nofun (absurd rfl)

theorem wellFormed_unary (kind : Kind) (one : kind.arity = 1) (unordered : kind ≠ .orderBy)
    (unfiltered : kind ≠ .filter) (details : Details) {input : RawOperation} (h : input.WellFormed) :
    (RawOperation.record kind [input] [] .missing details).WellFormed :=
  .record one.symm (List.forall_mem_singleton.2 h) (fun same => absurd same unordered) (List.forall_mem_nil _)
    (fun same => absurd same unfiltered) (absurd rfl)

theorem wellFormed_binary (kind : Kind) (two : kind.arity = 2) {left right : RawOperation} (hl : left.WellFormed)
    (hr : right.WellFormed) {expression : RawExpression} (formed : expression ≠ .missing → expression.WellFormed) :
    (RawOperation.record kind [left, right] [] expression {}).WellFormed := by
  refine .record two.symm ?_ ?_ (List.forall_mem_nil _) ?_ formed
  · exact List.forall_mem_cons.2 ⟨hl, List.forall_mem_singleton.2 hr⟩
  · rintro rfl
    cases two
  · rintro rfl
    cases two

theorem formed_rawOf {condition : Option Expression} (h : ∀ e, condition = some e → e.raw.WellFormed) :
    Expression.rawOf condition ≠ .missing → (Expression.rawOf condition).WellFormed := by
  cases condition with
  | none => exact absurd rfl
  | some e => exact fun _ => h e rfl

end RawOperation

mutual

theorem Expression.Readable.wellFormed : ∀ {e : Expression}, e.Readable → e.raw.WellFormed
  | _, .term t => .term t
  | _, .binary op hl hr => by
    refine .operator (fun n known => ?_) ?_
    · rw [arity?_symbol] at known
      exact Option.some.inj known
    · exact List.forall_mem_cons.2 ⟨hl.wellFormed, List.forall_mem_singleton.2 hr.wellFormed⟩
  | _, .negation h => by
    refine .operator (fun n known => ?_) (List.forall_mem_singleton.2 h.wellFormed)
    exact Option.some.inj known
  | _, .opposite h => by
    refine .operator (fun n known => ?_) (List.forall_mem_singleton.2 h.wellFormed)
    exact Option.some.inj known
  | _, .member negated h all => by
    refine .operator (fun n known => ?_) ?_
    · rw [arity?_member] at known
      cases known
    · rw [Expression.raws_eq]
      exact List.forall_mem_cons.2 ⟨h.wellFormed, List.forall_mem_map.2 fun v mem => (all v mem).wellFormed⟩
  | _, .builtin f all => by
    refine .operator (fun n known => ?_) ?_
    · rw [arity?_builtin] at known
      cases known
    · rw [Expression.raws_eq]
      exact List.forall_mem_map.2 fun a mem => (all a mem).wellFormed
  | _, .call function all => by
    refine .call function ?_
    rw [Expression.raws_eq]
    exact List.forall_mem_map.2 fun a mem => (all a mem).wellFormed
  | _, .existence negated h => .existence negated h.wellFormed

theorem Operation.Readable.wellFormed : ∀ {op : Operation}, op.Readable → op.raw.WellFormed
  | _, .bgp _ => RawOperation.wellFormed_bgp _
  | _, .join hl hr => RawOperation.wellFormed_binary .join rfl hl.wellFormed hr.wellFormed (absurd rfl)
  | _, .leftJoin hl hr he =>
    RawOperation.wellFormed_binary .leftJoin rfl hl.wellFormed hr.wellFormed
      (RawOperation.formed_rawOf fun e same => (he e same).wellFormed)
  | _, .union hl hr => RawOperation.wellFormed_binary .union rfl hl.wellFormed hr.wellFormed (absurd rfl)
  | _, .minus hl hr => RawOperation.wellFormed_binary .minus rfl hl.wellFormed hr.wellFormed (absurd rfl)
  | _, .graph _ h => RawOperation.wellFormed_unary .graph rfl nofun nofun _ h.wellFormed
  | _, .filter he h =>
    .record rfl (List.forall_mem_singleton.2 h.wellFormed) nofun (List.forall_mem_nil _)
      (fun _ => he.wellFormed.present)
      fun _ => he.wellFormed

end

namespace Operation

theorem Ordered.wellFormed {op : Operation} (h : op.Ordered) : op.raw.WellFormed := by
  cases h with
  | pattern h => exact h.wellFormed
  | orderBy some_ keys h =>
    refine .record rfl (List.forall_mem_singleton.2 h.wellFormed) (fun _ => ?_) ?_ nofun (absurd rfl)
    · rw [OrderCondition.raws_eq]
      exact fun none_ => some_ (List.map_eq_nil_iff.1 none_)
    · rw [OrderCondition.raws_eq]
      refine List.forall_mem_map.2 fun c mem => ?_
      cases keys c mem with
      | on ascending key => exact .by ascending key.wellFormed

theorem Query.wellFormed {op : Operation} (h : op.Query) : op.raw.WellFormed := by
  induction h with
  | ordered h => exact h.wellFormed
  | project _ h => exact RawOperation.wellFormed_unary .project rfl nofun nofun _ h.wellFormed
  | distinct _ ih => exact RawOperation.wellFormed_unary .distinct rfl nofun nofun _ ih
  | reduced _ ih => exact RawOperation.wellFormed_unary .reduced rfl nofun nofun _ ih
  | slice _ _ _ ih => exact RawOperation.wellFormed_unary .slice rfl nofun nofun _ ih
  | ask _ ih => exact RawOperation.wellFormed_unary .ask rfl nofun nofun _ ih
  | construct _ _ ih => exact RawOperation.wellFormed_unary .construct rfl nofun nofun _ ih
  | describe _ _ ih => exact RawOperation.wellFormed_unary .describe rfl nofun nofun _ ih

end Operation

end QuadStore.Sparql
