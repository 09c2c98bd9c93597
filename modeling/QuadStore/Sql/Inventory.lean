import QuadStore.Sql.Connection

namespace QuadStore.Sql

structure Inventory where
  items : List Text
  parts : List (Option Text)
  isOpen : Bool
  deriving DecidableEq

namespace Inventory

def empty : Inventory := ⟨[], [], true⟩

def close (d : Inventory) : Inventory := { d with isOpen := false }

def requireOpen (d : Inventory) : Except Failure Unit :=
  if d.isOpen then .ok () else .error .closedConnection

def addItem (d : Inventory) (name : Text) : Except Failure Inventory :=
  if d.items.contains name then .error .duplicateItem
  else .ok { d with items := d.items ++ [name] }

def addPart (d : Inventory) (item : Option Text) : Inventory :=
  { d with parts := d.parts ++ [item] }

def isResolved (d : Inventory) (part : Option Text) : Bool :=
  match part with
  | some name => d.items.contains name
  | none => true

def check (d : Inventory) : Except Failure Unit :=
  if d.parts.all d.isResolved then .ok () else .error .missingItem

def insertions (items parts : List Text) : Call (Connection Inventory) Unit := do
  items.forM fun name => Connection.statement fun d => (d.addItem name).map fun after => ((), after)
  parts.forM fun name => Connection.statement fun d => .ok ((), d.addPart (some name))

def batch (items parts : List Text) (d : Inventory) : Except Failure Inventory := do
  d.requireOpen
  match Connection.plainly (Connection.inTransaction check (insertions items parts)) d with
  | (.ok (), after) => return after
  | (.error e, _) => throw e

def insert (name : Text) (d : Inventory) : Except Failure Inventory := do
  d.requireOpen
  d.addItem name

def deleteFrom (name : Text) (d : Inventory) : Except Failure (Inventory × Nat) := do
  d.requireOpen
  let kept := d.items.filter (· < name)
  let after := { d with items := kept }
  after.check
  return (after, d.items.length - kept.length)

def insertPart (d : Inventory) : Except Failure Inventory := do
  d.requireOpen
  return d.addPart none

def list (limit : Int) (d : Inventory) : Except Failure (List Text) := do
  d.requireOpen
  let sorted := d.items.mergeSort (· ≤ ·)
  return if limit < 0 then sorted else sorted.take limit.toNat

def listParts (d : Inventory) : Except Failure (List (Option Text)) := do
  d.requireOpen
  return (d.parts.filter Option.isNone) ++ ((d.parts.filterMap id).mergeSort (· ≤ ·)).map some

end Inventory

end QuadStore.Sql
