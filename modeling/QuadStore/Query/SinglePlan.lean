import QuadStore.Query.Modifiers
import QuadStore.Query.Pushdown

namespace QuadStore

open Sparql

namespace Position

/-- The position that a variable's name tells, in full or by its first letter. -/
def ofName? (name : Text) : Option Position :=
  all.find? fun p => p.name = name.lower || p.name.take 1 = name.lower

end Position

structure SinglePlan where
  triple : Quad
  names : List Text
  limit : Option Nat
  offset : Option Nat
  isDistinct : Bool
  order : List Position
  reverse : Bool

namespace SinglePlan

def triple? (m : Modifiers) (graph : Option Term) :
    Operation → Option (Modifiers × Option Term × Quad)
  | .project names input => triple? (m.project names) graph input
  | .slice start length input => triple? (m.slice start length) graph input
  | .distinct input | .reduced input => triple? { m with isDistinct := true } graph input
  | .orderBy conditions input =>
    match m.orderBy? conditions with
    | some m => triple? m graph input
    | none => none
  | .graph name input => triple? m (some name) input
  | .ask input | .construct _ input | .describe _ input => triple? m graph input
  | .bgp [q] => some (m, graph, q)
  | .bgp _ | .filter .. | .join .. | .leftJoin .. | .union .. | .minus .. => none

/-- The position that a variable stands for: where it is in the triple, else what its name tells. -/
def position? (q : Quad) (name : Text) : Option Position :=
  (Position.all.find? fun p => q.get p = .var name).or (Position.ofName? name)

/-- The positions to order by; none if the order is by a variable that stands for no position. -/
def order? (q : Quad) : Option Text → Option (List Position)
  | none => some []
  | some name => (position? q name).map ([·])

def ofOperation? (root : Operation) : Option SinglePlan := do
  let (m, graph, q) ← triple? {} none root
  let q := { q with graph := graph.getD q.graph }
  if q.varNames.Nodup then
    return {
      triple := q
      names := if m.names.isEmpty then q.varNames else m.names
      limit := m.limit
      offset := m.offset
      isDistinct := m.isDistinct
      order := ← order? q m.order
      reverse := m.reverse }
  else none

end SinglePlan

end QuadStore
