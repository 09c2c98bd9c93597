import QuadStore.Sparql.Document

namespace QuadStore.Sparql

/-- What readers work on. -/
structure Members where
  scope : Scope := .whole false .defaultGraph 0
  cursor : Cursor := { tokens := [] }

/-- Sets the members for the tokens of a text, whose triples belong to a graph. -/
def Members.reset (m : Members) (tokens : List Token) (finish : Nat) (graph : Term) : Members :=
  { m with
    scope := { m.scope with data := false, graph, finish, home := graph }
    cursor := { m.cursor with tokens, fresh := 0, prefixes := [], base := [] } }

structure Session where
  names : List Text := []
  triples : List Quad := []
  inserted : List Quad := []
  isDistinct : Bool := false
  members : Members := {}

namespace Session

def remember (s : Session) (content : Content) : Session :=
  { s with
    names := content.names
    triples := content.triples
    inserted := content.inserted }

abbrev Action (α : Type) := ExceptT ParseError (StateM Session) α

/-- Makes a text ready to be read. If it has no tokens, the members stay what they were. -/
def start (text : Text) (graph : Term) : Action Unit := fun s =>
  match Token.scan text with
  | .ok tokens => (.ok (), { s with members := s.members.reset tokens text.length graph })
  | .error e => (.error e, s)

/-- Runs a reader on the members. What was set for a part of the text is only set back if that part
was read to its end. -/
def run {α : Type} (r : Reader α) : Action α := fun s =>
  match r s.members.scope s.members.cursor with
  | .ok (a, cursor) => (.ok a, { s with members := { s.members with cursor } })
  | .error stop => (.error stop.error, { s with members := ⟨stop.scope, stop.cursor⟩ })

def read (text : Text) : Action Request := do
  start text .defaultGraph
  let content ← run Reader.content
  modify fun s => { s with isDistinct := content.isDistinct }
  let request ← run (Reader.finished content)
  modify fun s => s.remember content
  return request

def enterData : Action Unit :=
  modify fun s => { s with members.scope.data := true }

def readData (text : Text) (graph : Term := .defaultGraph) : Action (List Quad) := do
  start text graph
  enterData
  return (← run Reader.document).quads

end Session

end QuadStore.Sparql
