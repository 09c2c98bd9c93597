import QuadStore.Store

namespace QuadStore

structure Stream where
  pattern : Pattern
  started : Bool := false
  buffer : List Quint := []

namespace Stream

abbrev Pull (σ : Type) := ExceptT StoreError (StateM (Stream × Store σ))

/-- A term that a position must have; a variable or no term leaves it open. -/
def fixed? : Option Term → Option Match
  | some (.var _) | none => none
  | some t => some (.term t)

def patternOf (subject predicate object graph : Option Term) : Pattern where
  subject := fixed? subject
  predicate := fixed? predicate
  object := fixed? object
  graph := (Store.namedGraph? graph).map .term

variable {σ : Type} [Sql.Backend σ]

/-- A stream of the statements with the given terms; nothing is asked of the store yet. -/
def «match» (subject predicate object graph : Option Term) : Action σ Stream := do
  Store.requireOpen
  return { pattern := patternOf subject predicate object graph }

/-- Asks the store at the first pull. The stream counts as started before the answer is there. -/
def start : Pull σ Unit := do
  let (stream, store) ← get
  unless stream.started do
    let (answer, store) := Store.get stream.pattern {} store
    match answer with
    | .ok quints => set ({ stream with started := true, buffer := quints }, store)
    | .error e =>
      set ({ stream with started := true }, store)
      throw e

def next : Pull σ (Option Quint) := do
  start
  let (stream, store) ← get
  match stream.buffer with
  | [] => return none
  | q :: rest =>
    set ({ stream with buffer := rest }, store)
    return some q

def rest : Pull σ (List Quint) := do
  start
  let (stream, store) ← get
  set ({ stream with buffer := [] }, store)
  return stream.buffer

end Stream

end QuadStore
