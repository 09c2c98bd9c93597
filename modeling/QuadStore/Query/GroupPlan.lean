import QuadStore.Query.Modifiers
import QuadStore.Query.Pushdown

namespace QuadStore

open Sparql

/-- A triple and the operators on its variables. -/
structure Part where
  triple : Quad
  filters : Filters := []

structure GroupPlan where
  /-- The variable that all triples have as their subject. -/
  subject : Text
  parts : List Part

/-- An optional triple of the subject: its predicate, and the variable of its object if there is
one. -/
structure Extension where
  predicate : Term
  object : Option Text

structure OptionalPlan where
  core : GroupPlan
  extensions : List Extension
  graph : Option Term

/-- The plan for a query that one lookup cannot answer. -/
inductive GroupShape where
  | none
  | optional (p : OptionalPlan)
  | compound (p : GroupPlan)

namespace GroupPlan

def triples (p : GroupPlan) : List Quad := p.parts.map (·.triple)

def joinedOn : Position := .subject

/-- The filters and the graph around a pattern; none if there is a graph in a graph. -/
def unwrap (filters : List Expression) (graph : Option Term) :
    Operation → Option (List Expression × Option Term × Operation)
  | .filter condition input => unwrap (filters ++ [condition]) graph input
  | .graph name input => if graph.isSome then none else unwrap filters (some name) input
  | op => some (filters, graph, op)

def joined? : Operation → Option (List Quad)
  | .bgp found => some found
  | .join left right => do return (← joined? left) ++ (← joined? right)
  | _ => none

def nameOf : Term → List Text
  | .var name => [name]
  | _ => []

/-- The variables besides the subject: the graph's, then those of predicates and objects. -/
def others (graph : Option Term) (triples : List Quad) : List Text :=
  (graph.map nameOf).getD [] ++ triples.flatMap fun q => nameOf q.predicate ++ nameOf q.object

/-- Moves a condition into the first part that takes all of it; none if no part does, or if that
part has the same test already. -/
def push? (e : Expression) : List Part → Option (List Part)
  | [] => none
  | part :: rest =>
    let pushed := Pushdown.ofFilter part.triple e
    if pushed.isWhole then
      if part.filters.overlaps pushed.filters then none
      else some ({ part with filters := part.filters.addAll pushed.filters } :: rest)
    else (push? e rest).map (part :: ·)

def pushAll? (conditions : List Expression) (parts : List Part) : Option (List Part) :=
  conditions.foldlM (fun parts e => push? e parts) parts

def hasRegex (part : Part) : Bool := part.filters.any fun (_, o) => o.regex.isSome

/-- The plan for triples of one subject; no rows can be searched after a join. -/
def ofTriples? (filters : List Expression) (graph : Option Term) (triples : List Quad) :
    Option GroupPlan := do
  let name ← triples.head? >>= fun q => (nameOf q.subject).head?
  if !triples.all fun q => q.subject = .var name then none
  if ¬(name :: others graph triples).Nodup then none
  let parts := triples.map fun q => { triple := { q with graph := graph.getD .defaultGraph } }
  let parts ← pushAll? (filters.flatMap Expression.conjuncts) parts
  if 1 < parts.length && parts.any hasRegex then none
  return ⟨name, parts⟩

/-- The plan for a group of at least some number of triples, with filters and a graph around it. -/
def ofGroup? (filters : List Expression) (graph : Option Term) (least : Nat) (op : Operation) :
    Option GroupPlan := do
  let (filters, graph, body) ← unwrap filters graph op
  let triples ← joined? body
  if triples.length < least then none
  ofTriples? filters graph triples

def ofPattern? (op : Operation) : Option GroupPlan := ofGroup? [] none 2 op

end GroupPlan

namespace OptionalPlan

def spine : Operation → Operation × List (Operation × Option Expression)
  | .leftJoin left right condition =>
    let (core, rest) := spine left
    (core, rest ++ [(right, condition)])
  | op => (op, [])

def extension? (subject : Text) : Operation × Option Expression → Option Extension
  | (.bgp [q], none) =>
    if q.subject = .var subject && q.predicate.isIri then
      some ⟨q.predicate, (GroupPlan.nameOf q.object).head?⟩
    else none
  | _ => none

/-- Whether optional objects are new variables, each in one place only. -/
def areNew (bound : List Text) (extensions : List Extension) : Bool :=
  let found := extensions.filterMap (·.object)
  found.Nodup && found.all (!bound.contains ·)

def ofPattern? (op : Operation) : Option OptionalPlan := do
  let (filters, graph, body) ← GroupPlan.unwrap [] none op
  if (graph.map Term.isVar).getD false then none
  let (inner, optionals) := spine body
  if optionals.isEmpty then none
  let core ← GroupPlan.ofGroup? filters graph 1 inner
  let extensions ← optionals.mapM (extension? core.subject)
  if areNew (core.triples.flatMap Quad.varNames) extensions then return ⟨core, extensions, graph⟩
  else none

/-- The predicates of optional triples with the variables that their objects are bound to. -/
def targets (p : OptionalPlan) : List (Term × Text) :=
  p.extensions.filterMap fun e => e.object.map fun name => (e.predicate, name)

def predicates (p : OptionalPlan) : List Term := p.extensions.map (·.predicate)

end OptionalPlan

structure MultiPlan where
  modifiers : Modifiers := {}
  shape : GroupShape := .none

namespace MultiPlan

def shapeOf (body : Operation) : GroupShape :=
  match OptionalPlan.ofPattern? body with
  | some p => .optional p
  | none =>
    match GroupPlan.ofPattern? body with
    | some p => .compound p
    | none => .none

def ofOperation (root : Operation) : MultiPlan :=
  match Modifiers.peel {} root with
  | (modifiers, some body) => ⟨modifiers, shapeOf body⟩
  | (modifiers, none) => ⟨modifiers, .none⟩

def optional? (root : Operation) : Option OptionalPlan :=
  (Modifiers.peel {} root).2 >>= OptionalPlan.ofPattern?

def compound? (root : Operation) : Option GroupPlan :=
  (Modifiers.peel {} root).2 >>= GroupPlan.ofPattern?

end MultiPlan

end QuadStore
