import QuadStore.Binary
import QuadStore.Term

namespace QuadStore

/-- The right side of an operator: a term, a number, or a text in stored form. -/
inductive Value where
  | term (t : Term)
  | number (x : Double)
  | raw (s : Text)
  deriving DecidableEq

/-- A set of operators that must all hold. -/
structure Operators where
  eq : Option Value := none
  ne : Option Value := none
  gt : Option Value := none
  ge : Option Value := none
  lt : Option Value := none
  le : Option Value := none
  among : Option (List Value) := none
  notAmong : Option (List Value) := none
  startsWith : Option Text := none
  endsWith : Option Text := none
  contains : Option Text := none
  regex : Option Text := none
  isNull : Option Bool := none
  deriving DecidableEq

namespace Operators

def isEmpty (o : Operators) : Bool := o = {}

/-- The operators of both sets; where both have one, the second set's is taken. -/
def merge (a b : Operators) : Operators where
  eq := b.eq.or a.eq
  ne := b.ne.or a.ne
  gt := b.gt.or a.gt
  ge := b.ge.or a.ge
  lt := b.lt.or a.lt
  le := b.le.or a.le
  among := b.among.or a.among
  notAmong := b.notAmong.or a.notAmong
  startsWith := b.startsWith.or a.startsWith
  endsWith := b.endsWith.or a.endsWith
  contains := b.contains.or a.contains
  regex := b.regex.or a.regex
  isNull := b.isNull.or a.isNull

def overlaps (a b : Operators) : Bool :=
  (a.eq.isSome && b.eq.isSome) || (a.ne.isSome && b.ne.isSome) ||
  (a.gt.isSome && b.gt.isSome) || (a.ge.isSome && b.ge.isSome) ||
  (a.lt.isSome && b.lt.isSome) || (a.le.isSome && b.le.isSome) ||
  (a.among.isSome && b.among.isSome) || (a.notAmong.isSome && b.notAmong.isSome) ||
  (a.startsWith.isSome && b.startsWith.isSome) || (a.endsWith.isSome && b.endsWith.isSome) ||
  (a.contains.isSome && b.contains.isSome) || (a.regex.isSome && b.regex.isSome) ||
  (a.isNull.isSome && b.isNull.isSome)

end Operators

inductive Match where
  | term (t : Term)
  | operators (o : Operators)
  deriving DecidableEq

namespace Match

def regex? : Match → Option Text
  | operators o => o.regex
  | term _ => none

end Match

structure Pattern where
  subject : Option Match := none
  predicate : Option Match := none
  object : Option Match := none
  graph : Option Match := none
  deriving DecidableEq

namespace Pattern

def get (p : Pattern) : Position → Option Match
  | .subject => p.subject
  | .predicate => p.predicate
  | .object => p.object
  | .graph => p.graph

def set (p : Pattern) (position : Position) (m : Option Match) : Pattern :=
  match position with
  | .subject => { p with subject := m }
  | .predicate => { p with predicate := m }
  | .object => { p with object := m }
  | .graph => { p with graph := m }

def regexes (p : Pattern) : List (Position × Text) :=
  Position.keyOrder.filterMap fun position =>
    (p.get position >>= Match.regex?).map fun source => (position, source)

def hasRegex (p : Pattern) : Bool := !p.regexes.isEmpty

end Pattern

/-- Which rows of a result are wanted, and in which order. -/
structure Options where
  limit : Option Nat := none
  offset : Option Nat := none
  order : List Position := []
  reverse : Bool := false

end QuadStore
