import QuadStore.Binary.Shortest
import QuadStore.Like
import QuadStore.Pattern
import QuadStore.Regex.Lead
import QuadStore.Regex.Reader
import QuadStore.Term.Key

namespace QuadStore

inductive Comparison where
  | eq | ne | gt | ge | lt | le
  deriving DecidableEq

namespace Comparison

def isOrdering : Comparison → Bool
  | eq | ne => false
  | gt | ge | lt | le => true

/-- Whether the bound has to lie above every stored text that shares its order key. -/
def isAboveEqual : Comparison → Bool
  | gt | le => true
  | eq | ne | ge | lt => false

def holds (c : Comparison) (stored value : Text) : Bool :=
  match c with
  | eq => stored = value
  | ne => stored ≠ value
  | gt => value < stored
  | ge => !(stored < value)
  | lt => stored < value
  | le => !(value < stored)

end Comparison

namespace Value

def numberStyle : NumberStyle := ⟨16, false, "nan", "inf"⟩

/-- Whole numbers below this are written as integers, minus zero included. -/
def integerLimit : Nat := 1000000000000000

def numberText (x : Double) : Text :=
  match x.floor? with
  | some n => if x.isWhole ∧ n.natAbs < integerLimit then Text.ofInt n else numberStyle.write x
  | none => numberStyle.write x

/-- A number as a literal: an integer where it is whole or infinite, else a decimal. -/
def numberLiteral (x : Double) : Term :=
  match x with
  | .infinite _ => .typed (numberText x) Xsd.integer
  | _ => .typed (numberText x) (if x.isWhole then Xsd.integer else Xsd.decimal)

/-- The bound for an order key: the key itself, or a text above all that continue it. -/
def bound (c : Comparison) (key : Text) : Text :=
  if c.isAboveEqual then key ++ Term.separator :: Utf8.maxChar else key

def isStoredObject (s : Text) : Bool :=
  Term.numberMark.isPrefixOf s || Term.timeMark.isPrefixOf s || ("\"" : Text).isPrefixOf s

def stored (v : Value) (p : Position) (c : Comparison) : Text :=
  match v with
  | term t =>
    match t.orderKey? with
    | some key => if p = .object ∧ c.isOrdering then bound c key else t.stored p
    | none => t.stored p
  | number x =>
    if p ≠ .object then numberText x
    else if c.isOrdering then bound c (Term.numberKey x)
    else (numberLiteral x).encodeObject
  | raw s => if p = .object ∧ !isStoredObject s then "\"" ++ s ++ "\"" else s

end Value

inductive Condition where
  | compare (c : Comparison) (value : Text)
  | among (values : List Text)
  | notAmong (values : List Text)
  /-- From the first text on and below the second. -/
  | between (first last : Text)
  | like (pattern : Text)
  | isNull (expected : Bool)
  deriving DecidableEq

namespace Condition

/-- The texts that start with a given one, as far as no byte above U+FFFF follows. -/
def startingWith (s : Text) : Condition := between s (s ++ Utf8.maxChar)

/-- Whether a stored text satisfies a condition; no column of a key is ever null. -/
def holds (c : Condition) (stored : Text) : Bool :=
  match c with
  | compare op value => op.holds stored value
  | among values => values.contains stored
  | notAmong values => !values.contains stored
  | between first last => !(stored < first) && stored < last
  | like pattern => Like.holds pattern stored
  | isNull expected => !expected

end Condition

/-- A condition on the column of a position. -/
structure Clause where
  position : Position
  condition : Condition
  deriving DecidableEq

namespace Operators

/-- The conditions of a set of operators on a column. An empty list of allowed values admits
nothing, and an empty list of excluded ones is no condition. -/
def conditions (o : Operators) (p : Position) : List Condition :=
  let compare (c : Comparison) (v : Option Value) : List Condition :=
    (v.map fun v => Condition.compare c (v.stored p c)).toList
  compare .eq o.eq ++ compare .ne o.ne ++ compare .gt o.gt ++ compare .ge o.ge ++
    compare .lt o.lt ++ compare .le o.le ++
    (o.among.map fun vs => Condition.among (vs.map (·.stored p .eq))).toList ++
    (match o.notAmong with
      | none | some [] => []
      | some vs => [.notAmong (vs.map (·.stored p .ne))]) ++
    (o.startsWith.map .startingWith).toList ++
    (o.endsWith.map fun s => .like (Like.ending s)).toList ++
    (o.contains.map fun s => .like (Like.containing s)).toList ++
    (match o.regex.map Regex.lead with
      | none | some [] => []
      | some s => [.startingWith s]) ++
    (o.isNull.map .isNull).toList

end Operators

namespace Match

def conditions (m : Match) (p : Position) : List Condition :=
  match m with
  | term t => [.compare .eq (t.stored p)]
  | operators o => o.conditions p

end Match

namespace Pattern

/-- The conditions of a pattern, position by position in the order of the key. -/
def clauses (p : Pattern) : List Clause :=
  Position.keyOrder.flatMap fun position =>
    match p.get position with
    | some m => (m.conditions position).map fun condition => ⟨position, condition⟩
    | none => []

/-- The conditions of a pattern among others, where no row can be searched afterwards. -/
def joinClauses? (p : Pattern) : Option (List Clause) :=
  if p.hasRegex then none else some p.clauses

/-- The regular expressions of a pattern, read; none if one of them is malformed. -/
def searches? (p : Pattern) : Option (List (Position × Regex)) :=
  p.regexes.mapM fun (position, source) => (Regex.read? source).map fun r => (position, r)

end Pattern

end QuadStore
