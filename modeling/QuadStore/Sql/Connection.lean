import QuadStore.Sql.Backend

namespace QuadStore.Sql

/-- A failure of the engine itself, such as a lock that is not released or a disk that is full. -/
structure Fault where
  failure : Failure
  /-- Whether the open transaction is undone as well. -/
  undoes : Bool

inductive Phase where
  | begin
  | statement
  | commit
  | rollback
  deriving DecidableEq

/-- A step that the engine has taken, or failed in. -/
structure Event where
  phase : Phase
  failure : Option Failure
  deriving DecidableEq

/-- The data as they are and, while a transaction is open, as they were before it. -/
structure Versions (δ : Type) where
  data : δ
  saved : Option δ

def Versions.undone {δ : Type} (v : Versions δ) : Versions δ := ⟨v.saved.getD v.data, none⟩

structure Connection (δ : Type) extends Versions δ where
  /-- What the next steps meet with, one after the other. -/
  faults : List (Option Fault)
  events : List Event

namespace Connection

variable {δ α : Type}

def «on» (data : δ) (faults : List (Option Fault) := []) : Connection δ := ⟨⟨data, none⟩, faults, []⟩

/-- A step of the engine. It meets with a fault, or fails by itself and changes nothing, or works. -/
def step (phase : Phase) (f : Versions δ → Except Failure (α × Versions δ)) :
    Call (Connection δ) α := fun c =>
  let ending (v : Versions δ) (failure : Option Failure) : Connection δ :=
    ⟨v, c.faults.tail, c.events ++ [⟨phase, failure⟩]⟩
  match c.faults.head?.join with
  | some fault =>
    (.error fault.failure,
      ending (if fault.undoes then c.toVersions.undone else c.toVersions) fault.failure)
  | none =>
    match f c.toVersions with
    | .ok (a, after) => (.ok a, ending after none)
    | .error e => (.error e, ending c.toVersions e)

def start : Call (Connection δ) Unit :=
  step .begin fun v =>
    if v.saved.isSome then .error (.engine 1 "cannot start a transaction within a transaction")
    else .ok ((), { v with saved := some v.data })

def statement (f : δ → Except Failure (α × δ)) : Call (Connection δ) α :=
  step .statement fun v => (f v.data).map fun (a, data) => (a, { v with data })

/-- The end of a transaction, on data that pass a check; otherwise the transaction stays open. -/
def commit (check : δ → Except Failure Unit) : Call (Connection δ) Unit :=
  step .commit fun v =>
    if v.saved.isNone then .error (.engine 1 "cannot commit - no transaction is active")
    else (check v.data).map fun _ => ((), { v with saved := none })

/-- Undoes the open transaction, which the engine never fails to do. There is none any more if the
engine has undone it on its own. -/
def rollback : Call (Connection δ) Unit := fun c =>
  (.ok (), if c.saved.isSome then ⟨c.undone, c.faults, c.events ++ [⟨.rollback, none⟩]⟩ else c)

/-- Statements between BEGIN and COMMIT. If one of them fails, or the COMMIT, what they have done is
undone, and the failure is the answer. -/
def inTransaction (check : δ → Except Failure Unit) (statements : Call (Connection δ) Unit) :
    Call (Connection δ) Unit := do
  start
  tryCatch (do statements; commit check) fun e => do
    rollback
    throw e

/-- A call on a connection on which the engine does not fail by itself. -/
def plainly (x : Call (Connection δ) α) : Call δ α := fun data =>
  let (answer, c) := x (.on data)
  (answer, c.data)

end Connection

end QuadStore.Sql
