import QuadStore.Sql.Table

namespace QuadStore.Sql

def Query.tables : Query → Nat
  | .join j _ => j.patterns.length
  | .select .. | .count _ | .countVectors | .countGraphs => 1

/-- What an engine refuses to run: joins of too many tables and statements with too many values at
least, and whatever else it refuses on its own account. -/
structure Limits where
  tables : Nat
  values : Nat
  refusal : Table → Query → Option Failure
  commandRefusal : Table → Command → Option Failure
  wide_refused : ∀ t q, tables < q.tables → (refusal t q).isSome = true
  long_refused : ∀ t q, values < q.render.params.length → (refusal t q).isSome = true
  long_command_refused : ∀ t (c : Command), values < (c.render .sqlite).params.length →
    (commandRefusal t c).isSome = true

namespace Limits

def tooManyValues : Failure := .engine 1 "too many SQL variables"

def tooManyTables : Failure := .engine 1 "at most 64 tables in a join"

def tooManyTerms : Failure := .engine 1 "too many FROM clause terms, max: 200"

/-- The limits on tables and values that an engine is built with unless others are asked for. The terms of
a FROM clause and the values are counted while a statement is read, and tables when it is planned. -/
def usual : Limits where
  tables := 64
  values := 32766
  refusal _ q :=
    if 200 < q.tables then some tooManyTerms
    else if 32766 < q.render.params.length then some tooManyValues
    else if 64 < q.tables then some tooManyTables
    else none
  commandRefusal _ c := if 32766 < (c.render .sqlite).params.length then some tooManyValues else none
  wide_refused t q wide := by
    split
    · rfl
    · split <;> rfl
  long_refused t q long := by
    split <;> rfl
  long_command_refused t c long := by
    rw [if_pos long]
    rfl

end Limits

/-- A table under the limits of its engine. -/
structure Limited where
  limits : Limits
  table : Table

namespace Limited

def answer (d : Limited) (q : Query) : Except Failure (List Record × Limited) :=
  match d.limits.refusal d.table q with
  | some failure => .error failure
  | none => .ok (d.table.answer q, d)

def apply (d : Limited) (c : Command) : Except Failure (Nat × Limited) :=
  match d.limits.commandRefusal d.table c with
  | some failure => .error failure
  | none => (d.table.apply c).map fun (table, n) => (n, { d with table })

def transact (commands : List Command) : Call (Connection Limited) Unit :=
  Connection.inTransaction (fun _ => .ok ())
    (commands.forM fun c => discard (Connection.statement fun d => d.apply c))

instance : Backend Limited where
  dialect _ := .sqlite
  connect d := { d with table := d.table.connect }
  disconnect d := d
  define _ := Connection.plainly (Connection.statement fun d => .ok ((), d))
  query q := Connection.plainly (Connection.statement fun d => d.answer q)
  execute c := Connection.plainly (Connection.statement fun d => d.apply c)
  transact commands := Connection.plainly (transact commands)

end Limited

end QuadStore.Sql
