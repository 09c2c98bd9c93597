import QuadStore.Condition
import QuadStore.Sql.Fragment

namespace QuadStore.Sql

inductive Column where
  | position (p : Position)
  | vector
  deriving DecidableEq

def Column.name : Column → Text
  | position p => p.name
  | vector => "vector"

/-- A row of the table. -/
structure Row where
  graph : Text
  subject : Text
  predicate : Text
  object : Text
  vector : Option Text
  deriving DecidableEq

namespace Row

def get (r : Row) : Position → Text
  | .subject => r.subject
  | .predicate => r.predicate
  | .object => r.object
  | .graph => r.graph

def sameKey (a b : Row) : Bool := Position.keyOrder.all fun p => a.get p = b.get p

end Row

/-- A column of one of the joined patterns, under a name of its own. -/
structure Projection where
  name : Text
  pattern : Nat
  position : Position

/-- Rows of several patterns that agree in one position and in the graph. -/
structure Join where
  on : Position
  projections : List Projection
  patterns : List (List Clause)

inductive Query where
  | select (columns : List Column) (clauses : List Clause) (options : Options)
  | count (clauses : List Clause)
  | countVectors
  | countGraphs
  | join (j : Join) (options : Options)

inductive Command where
  /-- Adds a row, in place of one with the same key. -/
  | upsert (row : Row)
  | setVector (payload : Text) (clauses : List Clause)
  | delete (clauses : List Clause)

inductive Definition where
  | table
  | index (name : Text) (columns : List Position)

def schema : List Definition :=
  [.table,
   .index "idx_spog" [.subject, .predicate, .object, .graph],
   .index "idx_ogsp" [.object, .graph, .subject, .predicate],
   .index "idx_gspo" [.graph, .subject, .predicate, .object],
   .index "idx_sopg" [.subject, .object, .predicate, .graph],
   .index "idx_pogs" [.predicate, .object, .graph, .subject],
   .index "idx_gpos" [.graph, .predicate, .object, .subject]]

def names (ps : List Position) : Text := Text.joined ", " (ps.map Position.name)

namespace Definition

def render (d : Dialect) : Definition → Text
  | table =>
    let type : Text := match d with
      | .sqlite => "TEXT"
      | .postgres => "TEXT COLLATE \"C\""
    let column (p : Position) : Text := p.name ++ " " ++ type ++ " NOT NULL, "
    "CREATE TABLE IF NOT EXISTS quints (" ++ Position.keyOrder.flatMap column ++
      "vector TEXT, PRIMARY KEY (" ++ names Position.keyOrder ++ "))"
  | index name columns =>
    "CREATE INDEX IF NOT EXISTS " ++ name ++ " ON quints (" ++ names columns ++ ")"

end Definition

def Comparison.symbol : Comparison → Text
  | .eq => " = "
  | .ne => " != "
  | .gt => " > "
  | .ge => " >= "
  | .lt => " < "
  | .le => " <= "

def conditionFragment (column : Text) : Condition → Fragment
  | .compare c value => .raw (column ++ Comparison.symbol c) ++ .param (.text value)
  | .among [] => "1 = 0"
  | .among values => .raw (column ++ " IN (") ++ .params? (values.map .text) ++ ")"
  | .notAmong values => .raw (column ++ " NOT IN (") ++ .params? (values.map .text) ++ ")"
  | .between first last =>
    .raw (column ++ " >= ") ++ .param (.text first) ++ .raw (" AND " ++ column ++ " < ") ++
      .param (.text last)
  | .like pattern => .raw (column ++ " LIKE ") ++ .param (.text pattern) ++ " ESCAPE '\\'"
  | .isNull true => .raw (column ++ " IS NULL")
  | .isNull false => .raw (column ++ " IS NOT NULL")

def conditionsFragment (qualifier : Text) (clauses : List Clause) : Fragment :=
  .joined " AND " (clauses.map fun c =>
    conditionFragment (qualifier ++ c.position.name) c.condition)

def filtered (conditions : Fragment) : Fragment :=
  if conditions.text = [] then .empty else " WHERE " ++ conditions

def whereFragment (clauses : List Clause) : Fragment := filtered (conditionsFragment [] clauses)

def maxInteger : Nat := 9223372036854775807

def sqlInteger (n : Nat) : Nat := min n maxInteger

def orderFragment (qualifier : Text) (options : Options) : Fragment :=
  if options.order = [] then .empty
  else .raw (" ORDER BY " ++ Text.joined ", " (options.order.map fun p =>
    qualifier ++ p.name ++ if options.reverse then " DESC" else ""))

def sliceFragment (options : Options) : Fragment :=
  let limit := match options.limit, options.offset with
    | some n, _ => some (sqlInteger n)
    | none, some _ => some maxInteger
    | none, none => none
  (match limit with
    | some n => (" LIMIT " : Fragment) ++ .param (.int n)
    | none => .empty) ++
  match options.offset with
    | some n => (" OFFSET " : Fragment) ++ .param (.int (sqlInteger n))
    | none => .empty

def patternName (i : Nat) : Text := Text.byte 'q' :: Text.ofNat i

namespace Join

def projectionFragment (p : Projection) : Text :=
  ", " ++ patternName p.pattern ++ "." ++ p.position.name ++ " AS " ++ p.name

def sameGraph (i : Nat) : Text := " AND q0.graph = " ++ patternName i ++ ".graph"

def partFragment (on : Position) (i : Nat) : Text :=
  " JOIN quints " ++ patternName i ++ " ON q0." ++ on.name ++ " = " ++ patternName i ++ "." ++
    on.name ++ if on = .graph then [] else sameGraph i

def conditions (j : Join) : Fragment :=
  .joined " AND " ((j.patterns.zipIdx.map fun (clauses, i) =>
    conditionsFragment (patternName i ++ ".") clauses).filter (·.text ≠ []))

def render (j : Join) (options : Options) : Fragment :=
  .raw ("SELECT q0." ++ j.on.name ++ " AS join_value" ++
      j.projections.flatMap projectionFragment ++ " FROM quints q0" ++
      (List.range' 1 (j.patterns.length - 1)).flatMap (partFragment j.on)) ++
    filtered j.conditions ++ orderFragment "q0." options ++ sliceFragment options

end Join

namespace Query

def render : Query → Fragment
  | select columns clauses options =>
    .raw ("SELECT " ++ Text.joined ", " (columns.map Column.name) ++ " FROM quints") ++
      whereFragment clauses ++ orderFragment [] options ++ sliceFragment options
  | count clauses => "SELECT COUNT(*) AS count FROM quints" ++ whereFragment clauses
  | countVectors => "SELECT COUNT(*) AS count FROM quints WHERE vector IS NOT NULL"
  | countGraphs => "SELECT COUNT(DISTINCT graph) AS count FROM quints"
  | join j options => j.render options

end Query

namespace Command

def columns : Text := "(graph, subject, predicate, object, vector)"

def vectorParam : Option Text → Param
  | some s => .text s
  | none => .null

def render (d : Dialect) : Command → Fragment
  | upsert r =>
    let values := Fragment.params?
      (Position.keyOrder.map (fun p => .text (r.get p)) ++ [vectorParam r.vector])
    match d with
    | .sqlite =>
      .raw ("INSERT OR REPLACE INTO quints " ++ columns ++ " VALUES (") ++ values ++ ")"
    | .postgres =>
      .raw ("INSERT INTO quints " ++ columns ++ " VALUES (") ++ values ++
        ") ON CONFLICT (graph, subject, predicate, object) DO UPDATE SET vector = EXCLUDED.vector"
  | setVector payload clauses =>
    "UPDATE quints SET vector = " ++ Fragment.param (.text payload) ++ whereFragment clauses
  | delete clauses => "DELETE FROM quints" ++ whereFragment clauses

end Command

end QuadStore.Sql
