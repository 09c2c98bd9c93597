import QuadStore.Binding
import QuadStore.Query.Pushdown

namespace QuadStore

namespace Pattern

/-- Takes the matches of another pattern for the positions that are open. -/
def fill (p : Pattern) (more : Option Pattern) : Pattern :=
  match more with
  | none => p
  | some m =>
    Position.all.foldl (fun p position =>
      p.set position ((p.get position).or (m.get position))) p

/-- Leaves out the default graph, unless the graph is fixed or another one is left out already. -/
def outsideDefaultGraph (p : Pattern) : Pattern :=
  match p.graph with
  | none => { p with graph := some (.operators { ne := some (.term .defaultGraph) }) }
  | some (.operators o) =>
    { p with graph := some (.operators { o with ne := o.ne.or (some (.term .defaultGraph)) }) }
  | some (.term _) => p

/-- Adds operators to a position; one that must be a certain term stays as it is. -/
def addFilter (p : Pattern) (position : Position) (o : Operators) : Pattern :=
  match p.get position with
  | none => p.set position (some (.operators o))
  | some (.operators old) => p.set position (some (.operators (old.merge o)))
  | some (.term _) => p

end Pattern

namespace Quad

/-- The term that a position must have. The default graph stands for any graph. -/
def fixed? (q : Quad) (position : Position) : Option Match :=
  let t := q.get position
  if t.isVar || (position = .graph && t = .defaultGraph) then none else some (.term t)

def constants (q : Quad) : Pattern where
  subject := q.fixed? .subject
  predicate := q.fixed? .predicate
  object := q.fixed? .object
  graph := q.fixed? .graph

def lookup (q : Quad) (security : Option Pattern) : Pattern := q.constants.fill security

def filteredLookup (q : Quad) (security : Option Pattern) (filters : Filters) : Pattern :=
  Position.all.foldl (fun p position =>
    match q.get position with
    | .var name =>
      match filters.lookup name with
      | some o => p.addFilter position o
      | none => p
    | _ => p) (q.lookup security)

def substituted (b : Binding) : Term → Term
  | .var name => (b.get? name).getD (.var name)
  | t => t

def substitute (q : Quad) (b : Binding) : Quad where
  subject := substituted b q.subject
  predicate := substituted b q.predicate
  object := substituted b q.object
  graph := substituted b q.graph

def boundLookup (q : Quad) (security : Option Pattern) (b : Binding) : Pattern :=
  (q.substitute b).lookup security

end Quad

end QuadStore
