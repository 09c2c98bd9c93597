import QuadStore.Sparql.Algebra

namespace QuadStore

open Sparql

structure Modifiers where
  /-- The projected variables; none for all that are bound. -/
  names : List Text := []
  limit : Option Nat := none
  offset : Option Nat := none
  isDistinct : Bool := false
  order : Option Text := none
  reverse : Bool := false

namespace Modifiers

def project (m : Modifiers) (more : List Text) : Modifiers :=
  { m with names := m.names ++ more }

def slice (m : Modifiers) (start length : Option Nat) : Modifiers :=
  { m with
    limit := length.or m.limit
    offset := match start with
      | none | some 0 => m.offset
      | some n => some n }

def orderBy? (m : Modifiers) : List OrderCondition → Option Modifiers
  | [.on ascending key] =>
    key.varName?.map fun name => { m with order := some name, reverse := !ascending }
  | _ => none

def rowLimit : Nat := Nat.pow 2 64

/-- The number of rows to ask for so that limit and offset can be applied to them. -/
def rowsToFetch (limit offset : Option Nat) : Option Nat :=
  match limit with
  | some n =>
    let all := n + offset.getD 0
    if all < rowLimit then some all else none
  | none => none

/-- The modifiers around an operation, and the pattern inside them; no pattern if the order is not
by one variable. -/
def peel (m : Modifiers) : Operation → Modifiers × Option Operation
  | .project names input => peel (m.project names) input
  | .slice start length input => peel (m.slice start length) input
  | .distinct input | .reduced input => peel { m with isDistinct := true } input
  | .orderBy conditions input =>
    match m.orderBy? conditions with
    | some m => peel m input
    | none => (m, none)
  | .ask input => peel m input
  | op => (m, some op)

end Modifiers

end QuadStore
