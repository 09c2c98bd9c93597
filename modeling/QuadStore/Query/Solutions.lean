import QuadStore.Binary.Reading
import QuadStore.Binding
import QuadStore.Query.Modifiers

namespace QuadStore

structure Solutions where
  names : List Text
  rows : List Binding

namespace Binding

def restrict (b : Binding) (names : List Text) : Binding :=
  names.foldl (fun r name => match b.get? name with
    | some t => r.set name t
    | none => r) []

def signature (names : List Text) (b : Binding) : List Text :=
  names.map fun name => name ++ "=" ++ ((b.get? name).map Term.display).getD []

end Binding

/-- What a row is sorted by. -/
inductive SortKey where
  | number (x : Double)
  | text (s : Text)
  | unbound

namespace SortKey

def numeric? : Term → Option Double
  | .literal lexical _ =>
    match Binary.read? lexical with
    | some (.nan, _) => none
    | some (x, []) => some x
    | _ => none
  | _ => none

def ofTerm? : Option Term → SortKey
  | none => unbound
  | some t =>
    match numeric? t with
    | some x => number x
    | none => text t.value

def ofRow (name : Text) (b : Binding) : SortKey := ofTerm? (b.get? name)

/-- Whether a row goes before another in ascending order; no row without a value does. -/
def precedes : SortKey → SortKey → Bool
  | number x, number y => x.lt y
  | text s, text t => s < t
  | number _, text _ => true
  | _, _ => false

def lt (reverse : Bool) (a b : SortKey) : Bool :=
  match a, b with
  | unbound, _ => false
  | _, unbound => true
  | a, b => if reverse then precedes b a else precedes a b

end SortKey

namespace Solutions

def sortRows (name : Text) (reverse : Bool) (rows : List Binding) : List Binding :=
  rows.mergeSort fun a b => !SortKey.lt reverse (.ofRow name b) (.ofRow name a)

def distinctBy (key : Binding → Text) (rows : List Binding) : List Binding :=
  rows.eraseDupsBy fun a b => key a = key b

def window (m : Modifiers) (key : Binding → Text) (rows : List Binding) : List Binding :=
  let rows := if m.isDistinct then distinctBy key rows else rows
  let rest := rows.drop (m.offset.getD 0)
  match m.limit with
  | some n => rest.take n
  | none => rest

end Solutions

end QuadStore
