import QuadStore.Sparql.Request

namespace QuadStore.Sparql

structure Document where
  inserted : List Quad := []
  stated : List Quad := []

namespace Document

def quads (d : Document) : List Quad := d.inserted ++ d.stated

def addStated (d : Document) (found : List Quad) : Document :=
  { d with stated := d.stated ++ found }

end Document

namespace Reader

/-- Takes a tag if it is next; tags of declarations are written in small letters. -/
def acceptTag (tag : Text) : Reader Bool := do
  if (← peek?) = some (.tag tag) then
    skip
    return true
  else return false

def insertion : Reader (List Quad) := do
  expectWord "DATA"
  let found ← quadData
  discard (acceptSymbol .semicolon)
  return found

def statement : Reader (List Quad) := do
  let found ← sameSubject
  unless ← atEnd do expectSymbol .dot
  return found

def documentPart (d : Document) : Reader Document := do
  if ← acceptTag "prefix" then
    prefixDeclaration
    expectSymbol .dot
    return d
  else if ← acceptTag "base" then
    baseDeclaration
    expectSymbol .dot
    return d
  else if (← onWord "PREFIX") || (← onWord "BASE") then
    prologue
    return d
  else if ← acceptWord "INSERT" then
    return { d with inserted := d.inserted ++ (← insertion) }
  else if ← acceptWord "GRAPH" then return d.addStated (← graphBlock (← graphName))
  else if ← onSymbol .openBrace then return d.addStated (← graphBlock (← scope).home)
  else if isGraphName (← peek?) && isSymbol .openBrace (← ahead? 1) then
    return d.addStated (← graphBlock (← graphName))
  else return d.addStated (← statement)

def document : Reader Document :=
  loop (fun d => do
    if ← atEnd then return .done d else return .yield (← documentPart d)) {}

end Reader

namespace Document

def read (s : Text) (graph : Term := .defaultGraph) : Except ParseError (List Quad) := do
  let tokens ← Token.scan s
  return (← Reader.run Reader.document (.whole true graph s.length) tokens).quads

end Document

end QuadStore.Sparql
