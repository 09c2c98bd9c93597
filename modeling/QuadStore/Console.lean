import QuadStore.Query.Engine
import QuadStore.Sparql.Document
import QuadStore.Sql.Table

namespace QuadStore

open Sparql Sql

namespace Console

structure Arguments where
  data : Option String := none
  /-- The graph of statements that name none. -/
  graph : Option String := none
  query : Option String := none
  help : Bool := false

inductive ArgumentError where
  | unknown (option : String)
  | missing (option : String)

def ArgumentError.message : ArgumentError → String
  | unknown option => "unrecognised option '" ++ option ++ "'"
  | missing option => "the required argument for option '" ++ option ++ "' is missing"

def usage : String :=
  "options:\n" ++
  "  -d [ --data ] arg    statements to load\n" ++
  "  -g [ --graph ] arg   graph IRI of statements without a graph\n" ++
  "  -q [ --query ] arg   SPARQL query file; without one, files are read from input\n" ++
  "  -h [ --help ]        this text\n"

def Arguments.read (found : Arguments) : List String → Except ArgumentError Arguments
  | [] => .ok found
  | [option] =>
    if option = "--help" || option = "-h" then .ok { found with help := true }
    else if ["--data", "-d", "--graph", "-g", "--query", "-q"].contains option then
      .error (.missing option)
    else .error (.unknown option)
  | option :: value :: rest =>
    if option = "--help" || option = "-h" then read { found with help := true } (value :: rest)
    else if option = "--data" || option = "-d" then read { found with data := some value } rest
    else if option = "--graph" || option = "-g" then read { found with graph := some value } rest
    else if option = "--query" || option = "-q" then read { found with query := some value } rest
    else .error (.unknown option)

abbrev State := Engine Table Empty

instance : Evaluator Empty where
  select _ _ := fun d => nomatch d
  ask _ _ := fun d => nomatch d
  quads _ _ := fun d => nomatch d
  perform _ _ := fun d => nomatch d

inductive Failure where
  | parse (e : ParseError)
  | query (e : QueryError)
  | form

def Failure.message : Failure → Text
  | parse e => e.message
  | query (.unsupported name) => "unsupported query: " ++ (QueryError.unsupported name).message
  | query e => e.message
  | form => "unsupported query: only SELECT and ASK queries can be run here"

def start : State where
  store := (Store.open (Store.closed (Table.empty false))).2
  evaluator := none

def load (text : Text) (graph : Term) (s : State) : Except Failure (Nat × State) :=
  match Document.read text graph with
  | .error e => .error (.parse e)
  | .ok quads =>
    match Store.putAll (quads.map fun q => { q with }) s.store with
    | (.ok (), store) => .ok (quads.length, { s with store })
    | (.error e, _) => .error (.query (.store e))

def row (names : List Text) (b : Binding) : Text :=
  names.flatMap fun name => ((b.get? name).map Term.display).getD [] ++ [9]

def table (s : Solutions) : Text :=
  if s.rows.isEmpty then "[Empty Result]\n"
  else
    (s.names.flatMap fun name => (Term.var name).display ++ [9]) ++ [10] ++
      s.rows.flatMap fun b => row s.names b ++ [10]

def answer (query : Text) (s : State) : Except Failure Text × State :=
  let shown {α : Type} (render : α → Text) (act : EngineAction Table Empty α) :=
    let (result, s) := act s
    (match result with
      | .ok a => Except.ok (render a)
      | .error e => .error (.query e), s)
  match Form.ofText query with
  | .error e => (.error (.parse e), s)
  | .ok .ask => shown (fun b => if b then "true\n" else "false\n") (Engine.ask query)
  | .ok .select => shown table (Engine.select query)
  | .ok _ => (.error .form, s)

end Console

end QuadStore
