import QuadStore.Console

open QuadStore

namespace QuadStore.Console

def bytes (s : Text) : ByteArray := ⟨s.toArray⟩

def readText (path : String) : IO Text := do
  return (← IO.FS.readBinFile path).toList

def printText (s : Text) : IO Unit := do
  (← IO.getStdout).write (bytes s)
  (← IO.getStdout).flush

def complain (s : Text) : IO Unit := do
  (← IO.getStderr).write (bytes (s ++ [10]))

/-- Answers the query of a file, and tells whether it could be answered. -/
def runFile (path : String) (s : State) : IO (Bool × State) := do
  let (result, s) := answer (← readText path) s
  match result with
  | .ok text =>
    printText text
    return (true, s)
  | .error e =>
    complain e.message
    return (false, s)

partial def prompt (s : State) : IO Unit := do
  printText "\nquery >  "
  let line ← (← IO.getStdin).getLine
  let path := line.trimAscii.toString
  if line.isEmpty || ["exit", "quit", "q"].contains path then return
  if path.isEmpty then prompt s
  else
    let (_, s) ← runFile path s
    prompt s

def loadFile (path graph : Option String) (s : State) : IO (Except Failure State) := do
  match path with
  | none => return .ok s
  | some path =>
    let graph := match graph with
      | some iri => Term.iri (Text.ofString iri)
      | none => .defaultGraph
    return (load (← readText path) graph s).map (·.2)

def run (arguments : Arguments) : IO UInt32 := do
  match ← loadFile arguments.data arguments.graph start with
  | .error e =>
    complain e.message
    return 1
  | .ok s =>
    match arguments.query with
    | none =>
      prompt s
      return 0
    | some path =>
      let (answered, _) ← runFile path s
      return if answered then 0 else 1

end QuadStore.Console

def main (args : List String) : IO UInt32 := do
  match Console.Arguments.read {} args with
  | .error e =>
    IO.eprintln e.message
    IO.eprintln Console.usage
    return 1
  | .ok arguments =>
    if arguments.help then
      IO.println Console.usage
      return 1
    else
      try Console.run arguments
      catch e =>
        IO.eprintln (toString e)
        return 1
