import QuadStore.Sql.Backend

namespace QuadStore.Sql

inductive CallKind where
  | define
  | query
  | execute
  | transaction
  deriving DecidableEq

inductive LogEntry where
  | statement (kind : CallKind) (sql : Fragment)
  | close

structure Script where
  dialect : Dialect
  answers : List (List Record)
  affected : List Nat
  failAt : Option Nat
  calls : Nat
  log : List LogEntry

namespace Script

def note (kind : CallKind) (sql : Fragment) : Call Script Unit := do
  let s ← get
  set { s with calls := s.calls + 1, log := s.log ++ [LogEntry.statement kind sql] }
  if s.failAt = some s.calls then throw .scripted

def query (q : Query) : Call Script (List Record) := do
  note .query q.render
  let s ← get
  match s.answers with
  | [] => return []
  | rows :: rest =>
    set { s with answers := rest }
    return rows

def execute (c : Command) : Call Script Nat := do
  note .execute (c.render (← get).dialect)
  let s ← get
  match s.affected with
  | [] => return 0
  | n :: rest =>
    set { s with affected := rest }
    return n

def transact (commands : List Command) : Call Script Unit := do
  let dialect := (← get).dialect
  commands.forM fun c => note .transaction (c.render dialect)

instance : Backend Script where
  dialect s := s.dialect
  connect s := s
  disconnect s := { s with log := s.log ++ [LogEntry.close] }
  define d := do note .define (.raw (d.render (← get).dialect))
  query := query
  execute := execute
  transact := transact

end Script

end QuadStore.Sql
