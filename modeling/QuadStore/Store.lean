import QuadStore.Binding
import QuadStore.Sql.Backend
import QuadStore.Store.Payload

namespace QuadStore

open Sql

inductive StoreError where
  | notOpen
  | sql (failure : Failure)
  | malformedRegex
  | regexInJoin
  | missingPattern (name : Text) (index count : Nat)
  | malformedCount
  | sliceOverflow
  deriving DecidableEq

namespace StoreError

def message : StoreError → Text
  | notOpen => "Store not open. Call open() first."
  | sql failure => failure.message
  | malformedRegex => "malformed regular expression"
  | regexInJoin => "$regex is not supported in compound patterns"
  | missingPattern name index count =>
    "compound select '" ++ name ++ "' refers to pattern " ++ Text.ofNat index ++ " of " ++
      Text.ofNat count
  | malformedCount => "stoll"
  | sliceOverflow => "cannot create std::vector larger than max_size()"

end StoreError

structure Store (σ : Type) where
  isOpen : Bool
  backend : σ

abbrev Action (σ : Type) := ExceptT StoreError (StateM (Store σ))

/-- A position of one of several patterns, under a name. -/
structure Selection where
  pattern : Nat
  position : Position
  name : Text

/-- Patterns whose rows agree in one position and in the graph. -/
structure Compound where
  patterns : List Pattern
  on : Position := .subject
  select : List Selection := []

structure CompoundResult where
  value : Term
  bindings : Binding
  /-- The statement itself, where there is one pattern only. -/
  quints : List Quint := []

structure Attribute where
  subject : Term
  predicate : Term
  object : Term
  deriving DecidableEq

structure Stats where
  total : Int
  vectors : Int
  graphs : Int

namespace Quint

def columns : List Column := Position.keyOrder.map .position ++ [.vector]

def ofRecord (r : Record) : Quint where
  subject := .decode (r.text Position.subject.name)
  predicate := .decode (r.text Position.predicate.name)
  object := .decodeObject (r.text Position.object.name)
  graph := .decode (r.text Position.graph.name)
  vector := (r.lookup Column.vector.name).join >>= Payload.read?

def toRow (q : Quint) : Row where
  graph := q.graph.encode
  subject := q.subject.encode
  predicate := q.predicate.encode
  object := q.object.encodeObject
  vector := q.vector.map Payload.write

end Quint

namespace Row

def keyClauses (key : Position → Text) : List Clause :=
  Position.keyOrder.map fun p => ⟨p, .compare .eq (key p)⟩

end Row

namespace Store

variable {σ : Type} [Backend σ]

def closed (backend : σ) : Store σ := ⟨false, backend⟩

def call {α : Type} (c : Call σ α) : Action σ α := fun s =>
  match c s.backend with
  | (.ok a, backend) => (.ok a, { s with backend })
  | (.error e, backend) => (.error (.sql e), { s with backend })

def requireOpen : Action σ Unit := do
  unless (← get).isOpen do throw .notOpen

/-- Connects and makes sure of the schema; the store is open only if all of that succeeds. -/
def «open» : Action σ Unit := do
  unless (← get).isOpen do
    modify fun s => { s with backend := Backend.connect s.backend }
    schema.forM fun d => call (Backend.define d)
    modify fun s => { s with isOpen := true }

def close : Action σ Unit :=
  modify fun s => if s.isOpen then ⟨false, Backend.disconnect s.backend⟩ else s

def searches (p : Pattern) : Action σ (List (Position × Regex)) :=
  match p.searches? with
  | some found => return found
  | none => throw .malformedRegex

def found (searches : List (Position × Regex)) (r : Record) : Bool :=
  searches.all fun (p, regex) => regex.search (r.text p.name)

def wordSize : Nat := Nat.pow 2 64

def slice (options : Options) (rows : List Record) : Action σ (List Record) :=
  let first := min (options.offset.getD 0) rows.length
  let last := match options.limit with
    | some n => min rows.length ((first + n) % wordSize)
    | none => rows.length
  if last < first then throw .sliceOverflow else return (rows.drop first).take (last - first)

def get (p : Pattern) (options : Options := {}) : Action σ (List Quint) := do
  requireOpen
  let regexes ← searches p
  if regexes.isEmpty then
    let rows ← call (Backend.query (.select Quint.columns p.clauses options))
    return rows.map Quint.ofRecord
  else
    let all := { options with limit := none, offset := none }
    let rows ← call (Backend.query (.select Quint.columns p.clauses all))
    let rows ← slice options (rows.filter (found regexes))
    return rows.map Quint.ofRecord

def keyColumns : List Column := Position.keyOrder.map .position

/-- The keys of the rows that a pattern with regular expressions selects. -/
def matchingKeys (p : Pattern) (regexes : List (Position × Regex)) : Action σ (List Record) := do
  let rows ← call (Backend.query (.select keyColumns p.clauses {}))
  return rows.filter (found regexes)

def readCount? (s : Text) : Option Int :=
  if s = [] then some 0
  else
    let (negative, body) := Binary.Reading.signed (s.dropWhile Ascii.isSpace)
    let digits := body.takeWhile Ascii.isDigit
    if digits = [] then none
    else
      let n : Int := Text.toNat 10 digits
      some (if negative then -n else n)

def counted (q : Query) : Action σ Int := do
  match ← call (Backend.query q) with
  | [] => return 0
  | r :: _ =>
    match readCount? (r.text "count") with
    | some n => return n
    | none => throw .malformedCount

def count (p : Pattern) : Action σ Nat := do
  requireOpen
  let regexes ← searches p
  if regexes.isEmpty then return ((← counted (.count p.clauses)) % wordSize).toNat
  else return (← matchingKeys p regexes).length

def put (q : Quint) : Action σ Unit := do
  requireOpen
  discard <| call (Backend.execute (.upsert q.toRow))

/-- All commands in one transaction; nothing is asked of the database if there are none. -/
def transact (commands : List Command) : Action σ Unit := do
  unless commands.isEmpty do call (Backend.transact commands)

def putAll (qs : List Quint) : Action σ Unit := do
  requireOpen
  transact (qs.map fun q => .upsert q.toRow)

/-- A command on all rows of a pattern; with regular expressions, one command for each row found. -/
def writeAll (p : Pattern) (command : List Clause → Command) : Action σ Nat := do
  requireOpen
  let regexes ← searches p
  if regexes.isEmpty then call (Backend.execute (command p.clauses))
  else
    let keys ← matchingKeys p regexes
    transact (keys.map fun r => command (Row.keyClauses fun p => r.text p.name))
    return keys.length

def setVector (p : Pattern) (v : Vector) : Action σ Nat := writeAll p (.setVector (Payload.write v))

def delete (p : Pattern) : Action σ Nat := writeAll p .delete

def deleteAll (qs : List Quint) : Action σ Unit := do
  requireOpen
  transact (qs.map fun q => .delete (Row.keyClauses q.toRow.get))

def clear : Action σ Unit := do
  requireOpen
  discard <| call (Backend.execute (.delete []))

def stats : Action σ Stats := do
  requireOpen
  let total ← counted (.count [])
  let vectors ← counted .countVectors
  let graphs ← counted .countGraphs
  return { total, vectors, graphs }

def objectName (i : Nat) : Text := "p" ++ Text.ofNat i ++ "_object"
def predicateName (i : Nat) : Text := "p" ++ Text.ofNat i ++ "_predicate"

/-- The columns of a join, each with the name that its values get. Without a selection every pattern
gives its object and predicate. -/
def projections (c : Compound) : List (Text × Projection) :=
  if c.select.isEmpty then
    (List.range c.patterns.length).flatMap fun i =>
      [(objectName i, ⟨objectName i, i, .object⟩),
       (predicateName i, ⟨predicateName i, i, .predicate⟩)]
  else
    c.select.zipIdx.map fun (s, k) => (s.name, ⟨"sel" ++ Text.ofNat k, s.pattern, s.position⟩)

def ofJoined (on : Position) (projections : List (Text × Projection)) (r : Record) :
    CompoundResult where
  value := .ofStored (r.text "join_value") on
  bindings := projections.foldl
    (fun b (name, p) => b.set name (.ofStored (r.text p.name) p.position)) []

def ofSingle (c : Compound) (q : Quint) : CompoundResult where
  value := q.get c.on
  bindings :=
    if c.select.isEmpty then [(objectName 0, q.object), (predicateName 0, q.predicate)]
    else c.select.foldl (fun b s => b.set s.name (q.get s.position)) []
  quints := [q]

def getCompound (c : Compound) (options : Options := {}) : Action σ (List CompoundResult) := do
  requireOpen
  match c.select.find? fun s => c.patterns.length ≤ s.pattern with
  | some s => throw (.missingPattern s.name s.pattern c.patterns.length)
  | none =>
  match c.patterns with
  | [] => return []
  | [p] => return (← get p options).map (ofSingle c)
  | patterns =>
    match patterns.mapM Pattern.joinClauses? with
    | none => throw .regexInJoin
    | some clauses =>
      let projections := projections c
      let join := ⟨c.on, projections.map (·.2), clauses⟩
      let rows ← call (Backend.query (.join join options))
      return rows.map (ofJoined c.on projections)

/-- The graph that a request names; the default graph and a variable name none. -/
def namedGraph? : Option Term → Option Term
  | some .defaultGraph | some (.var _) | none => none
  | some t => some t

def getAttributes (subjects predicates : List Term) (graph : Option Term := none) :
    Action σ (List Attribute) := do
  requireOpen
  if subjects.isEmpty || predicates.isEmpty then return []
  let clauses : List Clause :=
    [⟨.subject, .among (subjects.map Term.encode)⟩,
     ⟨.predicate, .among (predicates.map Term.encode)⟩] ++
    ((namedGraph? graph).map fun g => ⟨.graph, .compare .eq g.encode⟩).toList
  let columns : List Column := [.position .subject, .position .predicate, .position .object]
  let rows ← call (Backend.query (.select columns clauses {}))
  return rows.map fun r =>
    ⟨.decode (r.text Position.subject.name), .decode (r.text Position.predicate.name),
      .decodeObject (r.text Position.object.name)⟩

def getByGraphStart (start : Text) (options : Options := {}) : Action σ (List Quint) :=
  get { graph := some (.operators { startsWith := some start }) } options

end Store

end QuadStore
