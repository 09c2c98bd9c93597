import QuadStore.Query.GroupPlan
import QuadStore.Query.Lookup
import QuadStore.Query.SinglePlan
import QuadStore.Query.Solutions
import QuadStore.Store.Attributes

namespace QuadStore

open Sparql

inductive QueryError where
  | store (e : StoreError)
  | unsupported (form : Text)
  | noPlan
  deriving DecidableEq

namespace QueryError

def message : QueryError → Text
  | store e => e.message
  | unsupported form => form ++ " query needs a general SPARQL evaluator, none is configured"
  | noPlan => "query has no multi pattern plan"

end QueryError

/-- Looks in a graph only, where the graph is a variable: not in the default graph. -/
def Quad.inGraph (q : Quad) (p : Pattern) : Pattern :=
  if q.graph.isVar then p.outsideDefaultGraph else p

variable {σ : Type} [Sql.Backend σ]

namespace SinglePlan

def modifiers (p : SinglePlan) : Modifiers where
  limit := p.limit
  offset := p.offset
  isDistinct := p.isDistinct

def options (p : SinglePlan) : Options where
  limit := if p.isDistinct then none else Modifiers.rowsToFetch p.limit p.offset
  order := p.order
  reverse := p.reverse

/-- The values that a statement gives to the variables that are asked for. -/
def bind (p : SinglePlan) (q : Quad) : Binding :=
  Position.all.foldl (fun b position =>
    match p.triple.get position with
    | .var name => if p.names.contains name then b.set name (q.get position) else b
    | _ => b) []

/-- Rows count as one if their values are the same, in whatever order they are named. -/
def key (p : SinglePlan) (b : Binding) : Text :=
  Text.joined "|" ((b.signature p.names).mergeSort (· ≤ ·))

def run (p : SinglePlan) (security : Option Pattern) : Action σ Solutions := do
  let found ← Store.get (p.triple.inGraph (p.triple.lookup security)) p.options
  let rows := found.map fun q => p.bind q.toQuad
  return ⟨p.names, Solutions.window p.modifiers p.key rows⟩

end SinglePlan

namespace GroupPlan

def places (p : GroupPlan) : List Selection :=
  p.parts.zipIdx.flatMap fun (part, i) =>
    [Position.predicate, .object, .graph].flatMap fun position =>
      (nameOf (part.triple.get position)).map fun name => ⟨i, position, name⟩

def selections (p : GroupPlan) : List Selection :=
  (p.places.filter (·.name ≠ p.subject)).eraseDupsBy fun a b => a.name = b.name

def names (p : GroupPlan) : List Text := p.subject :: p.selections.map (·.name)

def compound (p : GroupPlan) (security : Option Pattern) : Compound where
  patterns := p.parts.map fun part =>
    part.triple.inGraph (part.triple.filteredLookup security part.filters)
  on := joinedOn
  select := p.selections

def bind (p : GroupPlan) (r : CompoundResult) : Binding :=
  p.selections.foldl (fun b s => match r.bindings.get? s.name with
    | some t => b.set s.name t
    | none => b) [(p.subject, r.value)]

def run (p : GroupPlan) (security : Option Pattern) (options : Options := {}) :
    Action σ Solutions := do
  let found ← Store.getCompound (p.compound security) options
  return ⟨p.names, found.map p.bind⟩

end GroupPlan

namespace OptionalPlan

def subjects (p : OptionalPlan) (rows : List Binding) : List Term :=
  ((rows.filterMap fun b => b.get? p.core.subject).filter (!·.isLiteral)).eraseDups

/-- What is asked for under a security pattern: some predicates of some subjects. -/
def guardedLookup (p : OptionalPlan) (security : Option Pattern) (subjects : List Term) : Pattern :=
  let triple : Quad := ⟨.var "s", .var "p", .var "o", p.graph.getD .defaultGraph⟩
  triple.filteredLookup security
    [("s", { among := some (subjects.map .term) }),
     ("p", { among := some (p.predicates.map .term) })]

def attributes (p : OptionalPlan) (security : Option Pattern) (subjects : List Term) :
    Action σ (List Attribute) :=
  match security with
  | none => Store.getAttributes subjects p.predicates p.graph
  | some _ =>
    if subjects.isEmpty then return []
    else do
      let found ← Store.get (p.guardedLookup security subjects)
      return found.map fun q => ⟨q.subject, q.predicate, q.object⟩

/-- A row with the first value of each optional predicate of its subject. -/
def extend (p : OptionalPlan) (found : List Attribute) (b : Binding) : Binding :=
  match b.get? p.core.subject with
  | none => b
  | some subject =>
    p.targets.foldl (fun b (predicate, name) =>
      match Attribute.values found subject predicate with
      | value :: _ => b.set name value
      | [] => b) b

def names (p : OptionalPlan) (core : List Text) : List Text :=
  core ++ ((p.targets.map (·.2)).filter (!core.contains ·)).eraseDups

def extendAll (p : OptionalPlan) (security : Option Pattern) (core : Solutions) :
    Action σ Solutions := do
  let names := p.names core.names
  if core.rows.isEmpty then return ⟨names, []⟩
  let found ← attributes p security (p.subjects core.rows)
  return ⟨names, core.rows.map (p.extend found)⟩

end OptionalPlan

namespace MultiPlan

def options (m : Modifiers) : Options where
  limit :=
    if m.order.isSome || m.isDistinct then none else Modifiers.rowsToFetch m.limit m.offset

def rows (shape : GroupShape) (security : Option Pattern) (options : Options) :
    ExceptT QueryError (StateM (Store σ)) Solutions :=
  match shape with
  | .none => throw .noPlan
  | .compound p => (p.run security options).adapt .store
  | .optional p =>
    (do p.extendAll security (← p.core.run security options) : Action σ Solutions).adapt .store

def key (names : List Text) (b : Binding) : Text := Text.joined "|" (b.signature names)

def finish (m : Modifiers) (found : Solutions) : Solutions :=
  let sorted := match m.order with
    | some name => Solutions.sortRows name m.reverse found.rows
    | none => found.rows
  let names := if m.names.isEmpty then found.names else m.names
  ⟨names, Solutions.window m (key names) (sorted.map (·.restrict names))⟩

def run (p : MultiPlan) (security : Option Pattern) :
    ExceptT QueryError (StateM (Store σ)) Solutions := do
  return finish p.modifiers (← rows p.shape security (options p.modifiers))

end MultiPlan

end QuadStore
