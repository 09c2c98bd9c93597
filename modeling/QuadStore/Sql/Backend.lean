import QuadStore.Sql.Statement

namespace QuadStore.Sql

inductive Failure where
  | rejectedSubject
  | protectedSubject
  | scripted
  | closedConnection
  | duplicateItem
  | missingItem
  /-- A failure that the engine reports by itself. -/
  | engine (code : Nat) (message : Text)
  deriving DecidableEq

namespace Failure

def message : Failure → Text
  | rejectedSubject => "rejected subject"
  | protectedSubject => "protected subject"
  | scripted => "scripted failure"
  | closedConnection => "sqlite connection is closed"
  | duplicateItem => "UNIQUE constraint failed: items.name"
  | missingItem => "FOREIGN KEY constraint failed"
  | engine _ message => message

def code : Failure → Nat
  | rejectedSubject | protectedSubject | duplicateItem | missingItem => 19
  | scripted => 7
  | closedConnection => 21
  | engine code _ => code

end Failure

abbrev Record := List (Text × Option Text)

namespace Record

/-- The text in a column; a missing column and null read as the empty text. -/
def text (r : Record) (column : Text) : Text := ((r.lookup column).getD none).getD []

end Record

abbrev Call (σ : Type) := ExceptT Failure (StateM σ)

class Backend (σ : Type) where
  dialect : σ → Dialect
  connect : σ → σ
  disconnect : σ → σ
  define : Definition → Call σ Unit
  query : Query → Call σ (List Record)
  /-- The number of rows that a command has touched. -/
  execute : Command → Call σ Nat
  /-- All commands or none; the first failure is the answer. -/
  transact : List Command → Call σ Unit

end QuadStore.Sql
