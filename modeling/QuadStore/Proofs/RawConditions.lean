import QuadStore.Proofs.RawAlgebra
import QuadStore.Query.Pushdown

namespace QuadStore

open Sparql

/-- What an analysis looks for where there is nothing. -/
inductive Missing where
  | input | expression | argument | triple | condition

/-- An analysis that gives a result or none, or stops where something is missing. -/
abbrev Analysis := OptionT (Except Missing)

namespace Analysis

def given {α : Type} (o : Option α) : Analysis α := OptionT.mk (.ok o)

def absent {α : Type} (m : Missing) : Analysis α := OptionT.mk (.error m)

end Analysis

open Analysis

def Sparql.Operator.ofName? (name : Text) : Option Operator :=
  [or, and, eq, ne, lt, gt, le, ge, add, sub, mul, div].find? fun op => op.symbol.text = name

namespace Sparql.RawExpression

def argument : RawExpression → Analysis RawExpression
  | .missing => absent .argument
  | f => given (some f)

def varName? : RawExpression → Option Text
  | .term (.var name) => some name
  | _ => none

def literal? : RawExpression → Option Term
  | .term t => if t.isLiteral then some t else none
  | _ => none

def constant? : RawExpression → Option Term
  | .term t => if t.isVar then none else some t
  | _ => none

def someText? (f : RawExpression) : Option Text :=
  match f.literal? with
  | some t => if t.value = [] then none else some t.value
  | none => none

def comparand? (op : Operator) : RawExpression → Option Term :=
  if op = .eq || op = .ne then constant? else literal?

def comparison? (op : Operator) (left right : RawExpression) : Option (Text × Operators) :=
  match left.varName?, comparand? op right with
  | some name, some t => (Condition.comparing? op (.term t)).map (name, ·)
  | _, _ =>
    match right.varName?, comparand? op left with
    | some name, some t => (Condition.comparing? (Condition.exchanged op) (.term t)).map (name, ·)
    | _, _ => none

def only (wanted : Text) : RawExpression → Analysis RawExpression
  | .operator name [arg] => if name = wanted then arg.argument else given none
  | _ => given none

def textVariable (f : RawExpression) : Analysis Text :=
  match f.varName? with
  | some name => given (some name)
  | none => do given (← only "str" f).varName?

def membership (negated : Bool) : List RawExpression → Analysis (Text × Operators)
  | [] => given none
  | arg :: values => do
    let name ← given (← arg.argument).varName?
    if values.isEmpty then given none
    else
      let values ← values.mapM fun v => do given (← v.argument).constant?
      let values := values.map Value.term
      given (some (name, if negated then { notAmong := some values } else { among := some values }))

def test (f : Builtin) : List RawExpression → Analysis (Text × Operators)
  | [arg] => do given ((← arg.argument).varName? >>= Condition.ofTest? f)
  | [arg, text] => do
    let arg ← arg.argument
    let text ← text.argument
    if f = .langMatches then
      let name ← given (← only "lang" arg).varName?
      given (text.literal?.map fun t => (name, { regex := some (Condition.languageRegex t.value) }))
    else
      let name ← textVariable arg
      given (text.someText? >>= Condition.ofTextTest? f name)
  | _ => given none

def compared (op : Operator) : List RawExpression → Analysis (Text × Operators)
  | [left, right] => do given (comparison? op (← left.argument) (← right.argument))
  | _ => given none

def denied : List RawExpression → Analysis (Text × Operators)
  | [arg] => do
    let name ← given (← only "bound" (← arg.argument)).varName?
    given (some (name, { isNull := some true }))
  | _ => given none

def named (name : Text) (args : List RawExpression) : Analysis (Text × Operators) :=
  match Operator.ofName? name with
  | some op => compared op args
  | none =>
    if name = "!" then denied args
    else if name = "in" then membership false args
    else if name = "notin" then membership true args
    else match Builtin.ofName? name with
      | some f => test f args
      | none => given none

/-- The variable that a condition is about, and the operators that stand for it. -/
def condition : RawExpression → Analysis (Text × Operators)
  | .missing => absent .expression
  | .operator name args => named name args
  | .term _ | .call .. | .existence .. => given none

def conditionOn (q : Quad) (f : RawExpression) : Analysis (Text × Operators) := do
  let (name, ops) ← f.condition
  given (if q.varNames.contains name then some (name, ops) else none)

end Sparql.RawExpression

namespace Analysis

variable {α β : Type}

theorem ok_bind (a : α) (f : α → Except Missing β) : (Except.ok a >>= f) = f a := rfl

theorem some_bind (a : α) (f : α → Analysis β) : given (some a) >>= f = f a := rfl

theorem given_bind {o : Option α} {f : α → Option β} {g : α → Analysis β} (h : ∀ a, o = some a → g a = given (f a)) :
    given o >>= g = given (o >>= f) := by
  cases o with
  | none => rfl
  | some a => exact h a rfl

theorem given_map_bind {γ : Type} {o : Option α} (r : α → γ) {f : α → Option β} {g : γ → Analysis β}
    (h : ∀ a, o = some a → g (r a) = given (f a)) : given (o.map r) >>= g = given (o >>= f) := by
  cases o with
  | none => rfl
  | some a => exact h a rfl

theorem mapM_ok {γ : Type} {r : γ → α} {f : α → Except Missing β} {g : γ → β} (h : ∀ c, f (r c) = .ok (g c))
    (cs : List γ) : (cs.map r).mapM f = .ok (cs.map g) := by
  induction cs with
  | nil => rfl
  | cons c cs ih =>
    rw [List.map_cons, List.mapM_cons, h, ih]
    rfl

theorem mapM_given {γ : Type} {r : γ → α} {f : α → Analysis β} {g : γ → Option β} (h : ∀ c, f (r c) = given (g c))
    (cs : List γ) : (cs.map r).mapM f = given (cs.mapM g) := by
  induction cs with
  | nil => rfl
  | cons c cs ih =>
    rw [List.map_cons, List.mapM_cons, List.mapM_cons, h, ih]
    exact given_bind fun b _ => given_bind fun bs _ => rfl

def Complete (x : Analysis α) : Prop := ∃ o, x = given o

variable {x y : Analysis α}

theorem complete_given (o : Option α) : Complete (given o) := ⟨o, rfl⟩

theorem Complete.bind {f : α → Analysis β} (h : Complete x) (hf : ∀ a, Complete (f a)) : Complete (x >>= f) := by
  obtain ⟨_ | a, rfl⟩ := h
  · exact complete_given none
  · exact hf a

theorem complete_ite {condition : Prop} [Decidable condition] (h : Complete x) (h' : Complete y) :
    Complete (if condition then x else y) := by
  split
  · exact h
  · exact h'

end Analysis

namespace Sparql

theorem Operator.ofName?_text (op : Operator) : ofName? op.symbol.text = some op := by
  cases op <;> decide

theorem Operator.ofName?_builtin (f : Builtin) : ofName? f.name = none := by
  cases f <;> decide

theorem Operator.text_inj {op op' : Operator} (h : op.symbol.text = op'.symbol.text) : op = op' := by
  have same := congrArg ofName? h
  rw [ofName?_text, ofName?_text] at same
  exact Option.some.inj same

theorem Builtin.ofName?_name (f : Builtin) : ofName? f.name = some f := by
  cases f <;> decide

theorem Builtin.name_ne (f : Builtin) (name : Text) (other : ofName? name = none) : f.name ≠ name := by
  rintro rfl
  rw [ofName?_name] at other
  cases other

theorem Builtin.name_inj {f g : Builtin} (h : f.name = g.name) : f = g := by
  have same := congrArg ofName? h
  rw [ofName?_name, ofName?_name] at same
  exact Option.some.inj same

namespace RawExpression

theorem argument_raw (e : Expression) : e.raw.argument = given (some e.raw) := by
  cases e <;> rfl

theorem varName?_raw (e : Expression) : e.raw.varName? = e.varName? := by
  cases e with
  | term t => cases t <;> rfl
  | _ => rfl

theorem literal?_raw (e : Expression) : e.raw.literal? = Condition.literal? e := by
  cases e <;> rfl

theorem constant?_raw (e : Expression) : e.raw.constant? = Condition.constant? e := by
  cases e <;> rfl

theorem someText?_raw (e : Expression) : e.raw.someText? = Condition.someText? e := by
  unfold someText? Condition.someText?
  exact literal?_raw e ▸ rfl

theorem comparand?_raw (op : Operator) (e : Expression) : comparand? op e.raw = Condition.comparand? op e := by
  unfold comparand? Condition.comparand?
  split
  · exact constant?_raw e
  · exact literal?_raw e

theorem comparison?_raw (op : Operator) (left right : Expression) :
    comparison? op left.raw right.raw = Condition.ofComparison? op left right := by
  unfold comparison? Condition.ofComparison?
  rw [varName?_raw left, varName?_raw right, comparand?_raw op right]
  exact comparand?_raw op left ▸ rfl

theorem only_builtin (f wanted : Builtin) (e : Expression) :
    only wanted.name (.operator f.name [e.raw]) = given (if f = wanted then some e.raw else none) := by
  have chosen : only wanted.name (.operator f.name [e.raw]) =
      if f.name = wanted.name then e.raw.argument else given none := rfl
  rw [chosen, argument_raw]
  by_cases same : f = wanted
  · rw [if_pos same, if_pos (congrArg Builtin.name same)]
  · rw [if_neg same, if_neg fun names => same (Builtin.name_inj names)]

theorem only_other {name : Text} {wanted : Builtin} (other : Builtin.ofName? name = none) (args : List RawExpression) :
    only wanted.name (.operator name args) = given none := by
  unfold only
  split
  · rename_i same
    cases same
    refine if_neg fun names => ?_
    rw [names, Builtin.ofName?_name] at other
    cases other
  · rfl

theorem only_many (wanted : Text) (name : Text) {args : List RawExpression} (many : args.length ≠ 1) :
    only wanted (.operator name args) = given none := by
  unfold only
  split
  · rename_i name' arg same
    cases same
    exact absurd rfl many
  · rfl

def calls? (wanted : Builtin) : Expression → Option Expression
  | .builtin f [e] => if f = wanted then some e else none
  | _ => none

theorem calls?_self (f : Builtin) (e : Expression) : calls? f (.builtin f [e]) = some e := if_pos rfl

theorem calls?_other {f : Builtin} {e : Expression} (other : ∀ e', e ≠ .builtin f [e']) : calls? f e = none := by
  unfold calls?
  split
  · rename_i f' e'
    exact if_neg fun same => other e' (by rw [same])
  · rfl

theorem only_raw (wanted : Builtin) (e : Expression) :
    only wanted.name e.raw = given ((calls? wanted e).map Expression.raw) := by
  cases e with
  | builtin f arguments =>
    rcases arguments with _ | ⟨e, _ | ⟨e', rest⟩⟩
    · exact only_many _ _ Nat.zero_ne_one
    · have called : calls? wanted (.builtin f [e]) = if f = wanted then some e else none := rfl
      rw [called, Expression.raw, Expression.raws_eq, List.map_singleton, only_builtin]
      split <;> rfl
    · exact only_many _ _ (by simp [Expression.raws])
  | binary op left right => exact only_many _ _ (by simp)
  | negation e => exact only_other rfl _
  | opposite e => exact only_other rfl _
  | member negated e values => exact only_other (by cases negated <;> rfl) _
  | _ => rfl

theorem textVariable?_eq (e : Expression) :
    Condition.textVariable? e = e.varName?.or ((calls? .str e).bind Expression.varName?) := by
  unfold Condition.textVariable?
  split
  · rfl
  · rename_i other
    rw [calls?_other other, Option.bind_none, Option.or_none]

theorem textVariable_raw (e : Expression) : textVariable e.raw = given (Condition.textVariable? e) := by
  unfold textVariable
  rw [varName?_raw, textVariable?_eq]
  have inner : (do given (← only Builtin.str.name e.raw).varName?) =
      given ((calls? .str e).bind Expression.varName?) := by
    rw [only_raw]
    cases calls? .str e with
    | none => rfl
    | some e' => exact congrArg given (varName?_raw e')
  cases e.varName? with
  | some name => rfl
  | none => exact inner

theorem membership_raw (negated : Bool) (e : Expression) (values : List Expression) :
    membership negated (e.raw :: values.map Expression.raw) = given (Condition.ofMembership? negated e values) := by
  have constant : ∀ e : Expression, (do given (← e.raw.argument).constant?) = given (Condition.constant? e) := by
    intro e
    rw [argument_raw, some_bind, constant?_raw]
  unfold membership Condition.ofMembership?
  dsimp only
  rw [argument_raw, some_bind, varName?_raw]
  refine given_bind fun name _ => ?_
  cases values with
  | nil => rfl
  | cons v values =>
    rw [mapM_given constant]
    exact given_bind fun ts _ => rfl

theorem ofCall?_one (f : Builtin) (e : Expression) :
    Condition.ofCall? f [e] = e.varName? >>= Condition.ofTest? f := by
  unfold Condition.ofCall?
  split
  · rename_i same
    cases same
  · rename_i same
    cases same
    rfl
  · rename_i same
    cases same
  · rename_i many _ _
    exact absurd rfl (many e)

theorem ofCall?_two (f : Builtin) (e s : Expression) :
    Condition.ofCall? f [e, s] =
      if f = .langMatches then ((calls? .lang e).bind Expression.varName?).bind fun name =>
        (Condition.literal? s).map fun t => (name, { regex := some (Condition.languageRegex t.value) })
      else (Condition.textVariable? e).bind fun name =>
        (Condition.someText? s).bind (Condition.ofTextTest? f name) := by
  unfold Condition.ofCall?
  split
  · rename_i same
    cases same
    rename_i e'
    rw [if_pos rfl, calls?_self, Option.bind_some]
    cases e'.varName? <;> cases Condition.literal? s <;> rfl
  · rename_i same
    cases same
  · rename_i other same
    cases same
    split
    · rename_i language
      subst language
      -- a language is matched with nothing but the language of a variable
      rw [calls?_other fun e' called => other e' rfl called]
      cases Condition.textVariable? e <;> cases Condition.someText? s <;> rfl
    · rfl
  · rename_i many _
    exact absurd rfl (many e s)

theorem test_raw (f : Builtin) (arguments : List Expression) :
    test f (arguments.map Expression.raw) = given (Condition.ofCall? f arguments) := by
  rcases arguments with _ | ⟨e, _ | ⟨s, _ | ⟨more, rest⟩⟩⟩
  · cases f <;> rfl
  · rw [ofCall?_one, List.map_singleton, test, argument_raw, some_bind, varName?_raw]
  · rw [ofCall?_two, List.map_cons, List.map_singleton, test, argument_raw, some_bind, argument_raw, some_bind]
    split
    · rw [show ("lang" : Text) = Builtin.lang.name from rfl, only_raw]
      cases calls? .lang e with
      | none => rfl
      | some e' =>
        change given e'.raw.varName? >>= _ = _
        rw [varName?_raw, literal?_raw]
        exact given_bind fun name _ => rfl
    · rw [textVariable_raw, someText?_raw]
      exact given_bind fun name _ => rfl
  · have many : Condition.ofCall? f (e :: s :: more :: rest) = none := by
      unfold Condition.ofCall?
      split
      · rename_i same
        cases same
      · rename_i same
        cases same
      · rename_i same
        cases same
      · rfl
    rw [many]
    rfl

theorem ofExpression?_negation (e : Expression) : Condition.ofExpression? (.negation e) =
    ((calls? .bound e).bind Expression.varName?).map fun name => (name, { isNull := some true }) := by
  unfold Condition.ofExpression?
  split
  · rename_i same
    cases same
  · rename_i same
    cases same
  · rename_i same
    cases same
  · rename_i same
    cases same
    rw [calls?_self]
    rfl
  · rename_i other same
    cases same
    rw [calls?_other fun e' called => other e' called]
    rfl
  all_goals
    rename_i same
    cases same

theorem condition_raw (e : Expression) : e.raw.condition = given (Condition.ofExpression? e) := by
  cases e with
  | term t => rfl
  | call function arguments => rfl
  | existence negated pattern => rfl
  | binary op left right =>
    rw [Expression.raw, condition, named, Operator.ofName?_text]
    dsimp only
    rw [compared, argument_raw, some_bind, argument_raw, some_bind, comparison?_raw]
    rfl
  | opposite e => rfl
  | negation e =>
    rw [Expression.raw]
    change denied [e.raw] = _
    rw [ofExpression?_negation, denied, argument_raw, some_bind, show ("bound" : Text) = Builtin.bound.name from rfl,
      only_raw]
    cases calls? .bound e with
    | none => rfl
    | some e' =>
      change given e'.raw.varName? >>= _ = _
      rw [varName?_raw, Option.bind_some]
      cases e'.varName? <;> rfl
  | member negated e values =>
    rw [Expression.raw, Expression.raws_eq]
    cases negated with
    | false => exact membership_raw false e values
    | true => exact membership_raw true e values
  | builtin f arguments =>
    rw [Expression.raw, Expression.raws_eq, condition, named, Operator.ofName?_builtin]
    dsimp only
    rw [if_neg (f.name_ne "!" rfl), if_neg (f.name_ne "in" rfl), if_neg (f.name_ne "notin" rfl),
      Builtin.ofName?_name]
    exact test_raw f arguments

theorem conditionOn_raw (q : Quad) (e : Expression) : conditionOn q e.raw = given (Condition.on? q e) := by
  unfold conditionOn Condition.on?
  rw [condition_raw]
  cases Condition.ofExpression? e <;> rfl

theorem argument_present {f : RawExpression} (h : f.WellFormed) : f.argument = given (some f) := by
  cases h <;> rfl

theorem only_complete (wanted : Text) {f : RawExpression} (h : f.WellFormed) : Complete (only wanted f) := by
  unfold only
  split
  · rename_i name arg
    cases h with
    | operator _ present =>
      split
      · rw [argument_present (present arg List.mem_cons_self)]
        exact complete_given _
      · exact complete_given _
  · exact complete_given _

theorem textVariable_complete {f : RawExpression} (h : f.WellFormed) : Complete (textVariable f) := by
  unfold textVariable
  split
  · exact complete_given _
  · exact (only_complete _ h).bind fun g => complete_given _

theorem membership_complete (negated : Bool) {args : List RawExpression} (h : ∀ a ∈ args, a.WellFormed) :
    Complete (membership negated args) := by
  have constants : ∀ fs : List RawExpression, (∀ f ∈ fs, f.WellFormed) →
      Complete (fs.mapM fun v => do given (← v.argument).constant?) := by
    intro fs
    induction fs with
    | nil => exact fun _ => complete_given (some [])
    | cons f fs ih =>
      intro all
      have ⟨first, rest⟩ := List.forall_mem_cons.1 all
      rw [List.mapM_cons, argument_present first, some_bind]
      exact (complete_given _).bind fun t => (ih rest).bind fun ts => complete_given (some (t :: ts))
  cases args with
  | nil => exact complete_given _
  | cons arg values =>
    have ⟨first, rest⟩ := List.forall_mem_cons.1 h
    unfold membership
    dsimp only
    rw [argument_present first, some_bind]
    refine (complete_given _).bind fun name => ?_
    split
    · exact complete_given _
    · exact (constants values rest).bind fun ts => complete_given _

theorem test_complete (f : Builtin) {args : List RawExpression} (h : ∀ a ∈ args, a.WellFormed) :
    Complete (test f args) := by
  rcases args with _ | ⟨arg, _ | ⟨text, _ | ⟨more, rest⟩⟩⟩
  · exact complete_given _
  · rw [test, argument_present (h arg List.mem_cons_self), some_bind]
    exact complete_given _
  · have ⟨first, rest⟩ := List.forall_mem_cons.1 h
    rw [test, argument_present first, some_bind, argument_present (rest text List.mem_cons_self), some_bind]
    split
    · exact (only_complete _ first).bind fun g => (complete_given _).bind fun name => complete_given _
    · exact (textVariable_complete first).bind fun name => complete_given _
  · exact complete_given _

theorem compared_complete (op : Operator) {args : List RawExpression} (h : ∀ a ∈ args, a.WellFormed) :
    Complete (compared op args) := by
  unfold compared
  split
  · rename_i left right
    have ⟨first, rest⟩ := List.forall_mem_cons.1 h
    rw [argument_present first, some_bind, argument_present (rest right List.mem_cons_self), some_bind]
    exact complete_given _
  · exact complete_given _

theorem denied_complete {args : List RawExpression} (h : ∀ a ∈ args, a.WellFormed) : Complete (denied args) := by
  unfold denied
  split
  · rename_i arg
    have first := h arg List.mem_cons_self
    rw [argument_present first, some_bind]
    exact (only_complete _ first).bind fun g => (complete_given _).bind fun name => complete_given _
  · exact complete_given _

theorem condition_complete {f : RawExpression} (h : f.WellFormed) : Complete f.condition := by
  cases h with
  | operator _ present =>
    unfold condition named
    dsimp only
    split
    · exact compared_complete _ present
    · refine complete_ite (denied_complete present) (complete_ite (membership_complete false present)
        (complete_ite (membership_complete true present) ?_))
      split
      · exact test_complete _ present
      · exact complete_given _
  | _ => exact complete_given _

theorem conditionOn_complete (q : Quad) {f : RawExpression} (h : f.WellFormed) : Complete (conditionOn q f) :=
  (condition_complete h).bind fun (_, _) => complete_given _

end RawExpression

end Sparql

end QuadStore
