import QuadStore.Query.Run
import QuadStore.Sparql.Request

namespace QuadStore

open Sparql

/-- An evaluator for whatever has no plan. -/
class Evaluator (δ : Type) where
  select : Text → Option Pattern → StateM δ Solutions
  ask : Text → Option Pattern → StateM δ Bool
  quads : Text → Option Pattern → StateM δ (List Quint)
  perform : Text → Option Pattern → StateM δ Unit

structure Engine (σ δ : Type) where
  store : Store σ
  evaluator : Option δ
  /-- Whether the last query was answered on the store. -/
  isOptimized : Bool := false

/-- How a query is answered. -/
inductive Route where
  | single (p : SinglePlan)
  | multi (p : MultiPlan)
  | delegated

namespace Route

def ofPlans (root : Operation) : Route :=
  match SinglePlan.ofOperation? root with
  | some p => .single p
  | none =>
    let p := MultiPlan.ofOperation root
    match p.shape with
    | .none => .delegated
    | _ => .multi p

/-- The route of a text; only selections and questions that can be read have a plan. -/
def ofText (query : Text) : Route :=
  match Request.read query with
  | .ok { content := .query root, .. } =>
    match root.form with
    | .select | .ask => ofPlans root
    | .construct | .describe | .update => .delegated
  | _ => .delegated

def first : Route → Route
  | .single p => .single { p with limit := some 1 }
  | .multi p => .multi { p with modifiers := { p.modifiers with limit := some 1 } }
  | .delegated => .delegated

def isOptimized : Route → Bool
  | .delegated => false
  | .single _ | .multi _ => true

end Route

abbrev EngineAction (σ δ : Type) := ExceptT QueryError (StateM (Engine σ δ))

namespace Engine

variable {σ δ : Type} [Sql.Backend σ] [Evaluator δ]

def onStore {α : Type} (act : ExceptT QueryError (StateM (Store σ)) α) : EngineAction σ δ α :=
  fun e =>
    let (answer, store) := act e.store
    (answer, { e with store })

/-- A step of the other evaluator; a query that needs it is unsupported if there is none. -/
def delegate {α : Type} (form : Text) (act : StateM δ α) : EngineAction σ δ α := fun e =>
  match e.evaluator with
  | none => (.error (.unsupported form), e)
  | some d =>
    let (answer, d) := act d
    (.ok answer, { e with evaluator := some d })

def note (optimized : Bool) : EngineAction σ δ Unit :=
  modify fun e => { e with isOptimized := optimized }

def runRoute (r : Route) (security : Option Pattern) : EngineAction σ δ (Option Solutions) :=
  match r with
  | .single p => do return some (← onStore ((p.run security).adapt .store))
  | .multi p => do return some (← onStore (p.run security))
  | .delegated => return none

def select (query : Text) (security : Option Pattern := none) : EngineAction σ δ Solutions := do
  let route := Route.ofText query
  let answer ← match ← runRoute route security with
    | some found => pure found
    | none => delegate "SELECT" (Evaluator.select query security)
  note route.isOptimized
  return answer

def ask (query : Text) (security : Option Pattern := none) : EngineAction σ δ Bool := do
  let route := (Route.ofText query).first
  let answer ← match ← runRoute route security with
    | some found => pure (!found.rows.isEmpty)
    | none => delegate "ASK" (Evaluator.ask query security)
  note route.isOptimized
  return answer

def quads (query : Text) (security : Option Pattern := none) : EngineAction σ δ (List Quint) := do
  note false
  delegate "CONSTRUCT / DESCRIBE" (Evaluator.quads query security)

def perform (query : Text) (security : Option Pattern := none) : EngineAction σ δ Unit := do
  note false
  delegate "update" (Evaluator.perform query security)

end Engine

end QuadStore
