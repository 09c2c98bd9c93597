import QuadStore.Pattern
import QuadStore.Sparql.Algebra
import QuadStore.Term.Key

namespace QuadStore

open Sparql

abbrev Filters := List (Text × Operators)

namespace Filters

/-- Adds operators to those that a variable has; of two for the same test the added one stays. -/
def add : Filters → Text → Operators → Filters
  | [], name, ops => [(name, ops)]
  | (n, old) :: rest, name, ops =>
    if n = name then (n, old.merge ops) :: rest else (n, old) :: add rest name ops

def addAll (fs more : Filters) : Filters := more.foldl (fun fs (name, ops) => fs.add name ops) fs

def overlaps (fs more : Filters) : Bool :=
  more.any fun (name, ops) => match fs.lookup name with
    | some old => old.overlaps ops
    | none => false

end Filters

namespace Quad

def varNames (q : Quad) : List Text :=
  Position.all.filterMap fun p => match q.get p with
    | .var name => some name
    | _ => none

theorem mem_varNames {q : Quad} {p : Position} {name : Text} (at_ : q.get p = .var name) : name ∈ q.varNames :=
  List.mem_filterMap.2 ⟨p, by cases p <;> decide, by rw [at_]⟩

end Quad

namespace Condition

open Sparql.Expression

def textVariable? : Expression → Option Text
  | .builtin .str [e] => e.varName?
  | e => e.varName?

def literal? : Expression → Option Term
  | .term t => if t.isLiteral then some t else none
  | _ => none

def constant? : Expression → Option Term
  | .term t => if t.isVar then none else some t
  | _ => none

def someText? (e : Expression) : Option Text :=
  match literal? e with
  | some t => if t.value = [] then none else some t.value
  | none => none

def exchanged : Operator → Operator
  | .lt => .gt
  | .gt => .lt
  | .le => .ge
  | .ge => .le
  | op => op

def comparing? (op : Operator) (value : Value) : Option Operators :=
  match op with
  | .eq => some { eq := some value }
  | .ne => some { ne := some value }
  | .lt => some { lt := some value }
  | .gt => some { gt := some value }
  | .le => some { le := some value }
  | .ge => some { ge := some value }
  | .or | .and | .add | .sub | .mul | .div => none

def comparand? (op : Operator) : Expression → Option Term :=
  if op = .eq || op = .ne then constant? else literal?

def ofComparison? (op : Operator) (left right : Expression) : Option (Text × Operators) :=
  match left.varName?, comparand? op right with
  | some name, some t => (comparing? op (.term t)).map (name, ·)
  | _, _ =>
    match right.varName?, comparand? op left with
    | some name, some t => (comparing? (exchanged op) (.term t)).map (name, ·)
    | _, _ => none

/-- What a stored object starts with that is neither an IRI nor a blank node. -/
def literalStart : Text := "^[\"ND]"

def anySubtag : Text := "(-[A-Za-z0-9]+)*$"

/-- A letter of a language range in either case; bytes that cannot be in a range are left out. -/
def languageByte (c : UInt8) : Text :=
  if Ascii.isAlpha c then
    [Text.byte '[', Ascii.toLower c, Ascii.toUpper c, Text.byte ']']
  else if Ascii.isDigit c || c = Text.byte '-' then [c]
  else []

def languageRegex (range : Text) : Text :=
  if range = "*" then "\"@[A-Za-z]+" ++ anySubtag
  else "\"@" ++ range.lower.flatMap languageByte ++ anySubtag

def ofTest? (f : Builtin) (name : Text) : Option (Text × Operators) :=
  match f with
  | .bound => some (name, { isNull := some false })
  | .isIri | .isUri => some (name, { startsWith := some "http" })
  | .isBlank => some (name, { startsWith := some "_:" })
  | .isLiteral => some (name, { regex := some literalStart })
  | .isNumeric => some (name, { startsWith := some Term.numberMark })
  | _ => none

/-- A text that a stored literal has at its start, at its end or anywhere; its quotes are stored. -/
def ofTextTest? (f : Builtin) (name s : Text) : Option (Text × Operators) :=
  match f with
  | .strStarts => some (name, { startsWith := some ("\"" ++ s) })
  | .strEnds => some (name, { endsWith := some (s ++ "\"") })
  | .contains => some (name, { contains := some s })
  | .regex => some (name, { regex := some s })
  | _ => none

def ofCall? (f : Builtin) (arguments : List Expression) : Option (Text × Operators) :=
  match f, arguments with
  | .langMatches, [.builtin .lang [e], range] => do
    let name ← e.varName?
    let t ← literal? range
    return (name, { regex := some (languageRegex t.value) })
  | f, [e] => e.varName? >>= ofTest? f
  | f, [e, s] => do ofTextTest? f (← textVariable? e) (← someText? s)
  | _, _ => none

def ofMembership? (negated : Bool) (e : Expression) (values : List Expression) :
    Option (Text × Operators) := do
  let name ← e.varName?
  if values.isEmpty then none
  let values ← values.mapM constant?
  let values := values.map Value.term
  return (name, if negated then { notAmong := some values } else { among := some values })

/-- The variable that a condition is about, and the operators that stand for it. -/
def ofExpression? : Expression → Option (Text × Operators)
  | .binary op left right => ofComparison? op left right
  | .member negated e values => ofMembership? negated e values
  | .builtin f arguments => ofCall? f arguments
  | .negation (.builtin .bound [e]) => e.varName?.map fun name => (name, { isNull := some true })
  | .negation _ | .opposite _ | .term _ | .call .. | .existence .. => none

def on? (q : Quad) (e : Expression) : Option (Text × Operators) :=
  match ofExpression? e with
  | some (name, ops) => if q.varNames.contains name then some (name, ops) else none
  | none => none

end Condition

structure Pushdown where
  filters : Filters := []
  /-- What is still to be evaluated. -/
  remainder : Option Expression := none
  /-- Alternatives of a disjunction, each to be asked on its own. -/
  branches : List (Text × Operators) := []
  /-- The alternatives of that disjunction that are no operators. -/
  branchRemainder : List Expression := []

namespace Pushdown

def equality? (branch : Text × Operators) : Option (Text × Value) :=
  match branch.2.eq with
  | some v => if { branch.2 with eq := none } = ({} : Operators) then some (branch.1, v) else none
  | none => none

/-- The name that follows itself in a list; the empty name may be followed by any. -/
def agreed? (name : Text) : List Text → Option Text
  | [] => some name
  | n :: rest => if name ≠ [] ∧ name ≠ n then none else agreed? n rest

def choice? (branches : List (Text × Operators)) : Option Filters := do
  let equalities ← branches.mapM equality?
  let name ← agreed? [] (equalities.map (·.1))
  return [(name, { among := some (equalities.map (·.2)) })]

def ofDisjunction (q : Quad) (e : Expression) : Pushdown :=
  let alternatives := e.disjuncts
  let branches := alternatives.filterMap (Condition.on? q)
  let rest := alternatives.filter fun a => (Condition.on? q a).isNone
  if branches.isEmpty then { remainder := some e }
  else if rest.isEmpty then
    match choice? branches with
    | some filters => { filters }
    | none => { branches }
  else { branches, branchRemainder := rest }

/-- What is left of one side of a conjunction; a disjunction inside stays as it is. -/
def leftOf (e : Expression) (p : Pushdown) : Option Expression :=
  if p.branches.isEmpty then p.remainder else some e

def both : Option Expression → Option Expression → Option Expression
  | some a, some b => some (.binary .and a b)
  | a, b => a.or b

def ofFilter (q : Quad) : Expression → Pushdown
  | .binary .and left right =>
    let l := ofFilter q left
    let r := ofFilter q right
    { filters := (Filters.addAll [] l.filters).addAll r.filters
      remainder := both (leftOf left l) (leftOf right r) }
  | .binary .or left right => ofDisjunction q (.binary .or left right)
  | e =>
    match Condition.on? q e with
    | some (name, ops) => { filters := [(name, ops)] }
    | none => { remainder := some e }

def isWhole (p : Pushdown) : Bool :=
  p.remainder.isNone && p.branches.isEmpty && !p.filters.isEmpty

end Pushdown

end QuadStore
