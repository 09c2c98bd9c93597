import QuadStore.Proofs.Step
import QuadStore.Sparql.Session

namespace QuadStore.Sparql

open Step

namespace Session

theorem start_apply (text : Text) (graph : Term) (s : Session) :
    start text graph s = match Token.scan text with
      | .ok tokens => (.ok (), { s with members := ⟨.whole false graph text.length, { tokens }⟩ })
      | .error e => (.error e, s) := by
  unfold start
  cases Token.scan text <;> rfl

theorem modify_apply (f : Session → Session) (s : Session) : (modify f : Action Unit) s = (.ok (), f s) := rfl

theorem run_ok {α : Type} {r : Reader α} {s : Session} {a : α} {cursor : Cursor}
    (h : r s.members.scope s.members.cursor = .ok (a, cursor)) :
    run r s = (.ok a, { s with members := { s.members with cursor } }) := by
  unfold run
  rw [h]

theorem run_error {α : Type} {r : Reader α} {s : Session} {stop : Stop}
    (h : r s.members.scope s.members.cursor = .error stop) :
    run r s = (.error stop.error, { s with members := ⟨stop.scope, stop.cursor⟩ }) := by
  unfold run
  rw [h]

theorem read_answer (text : Text) (s : Session) : (read text s).1 = Request.read text := by
  unfold read Request.read
  rw [bind_apply, start_apply]
  cases Token.scan text with
  | error e => rfl
  | ok tokens =>
    show _ = Reader.run _ _ tokens
    unfold Reader.run
    dsimp only
    rw [bind_apply, Reader.bind_apply]
    cases read : Reader.content (.whole false .defaultGraph text.length) { tokens } with
    | error stop => rw [run_error read]
    | ok read_ =>
      obtain ⟨content, cursor⟩ := read_
      rw [run_ok read]
      dsimp only
      rw [bind_apply, modify_apply]
      dsimp only
      rw [bind_apply]
      cases finished : Reader.finished content (.whole false .defaultGraph text.length) cursor with
      | error stop => rw [run_error finished]
      | ok finished_ =>
        rw [run_ok finished]
        rfl

theorem readData_answer (text : Text) (graph : Term) (s : Session) :
    (readData text graph s).1 = Document.read text graph := by
  unfold readData Document.read
  rw [bind_apply, start_apply]
  cases Token.scan text with
  | error e => rfl
  | ok tokens =>
    dsimp only
    rw [bind_apply, enterData, modify_apply]
    dsimp only
    rw [bind_apply]
    cases h : Reader.document (.whole true graph text.length) { tokens } with
    | error stop =>
      rw [run_error h]
      simp [Bind.bind, Except.bind, Reader.run, h]
    | ok read =>
      rw [run_ok h]
      simp [Bind.bind, Except.bind, Reader.run, h]
      rfl

/-- A text that a session is given. -/
inductive Call where
  | request (text : Text)
  | document (text : Text) (graph : Term)

inductive Answer where
  | request (answer : Except ParseError Request)
  | document (answer : Except ParseError (List Quad))

def Call.run (call : Call) (s : Session) : Answer × Session :=
  match call with
  | .request text =>
    let (answer, after) := read text s
    (.request answer, after)
  | .document text graph =>
    let (answer, after) := readData text graph s
    (.document answer, after)

def answers : List Call → Session → List Answer
  | [], _ => []
  | call :: calls, s => (call.run s).1 :: answers calls (call.run s).2

/-- The answer to a text does not depend on what the session was given before. -/
theorem Call.run_fresh (call : Call) (s : Session) : (call.run s).1 = (call.run {}).1 := by
  cases call with
  | request text => exact congrArg Answer.request ((read_answer text s).trans (read_answer text {}).symm)
  | document text graph =>
    exact congrArg Answer.document ((readData_answer text graph s).trans (readData_answer text graph {}).symm)

/-- Whatever a session was given before, and whether that could be read or not, it answers to each
text as a fresh one does. -/
theorem answers_fresh (calls : List Call) (s : Session) :
    answers calls s = calls.map fun call => (call.run {}).1 := by
  induction calls generalizing s with
  | nil => rfl
  | cons call calls ih => rw [answers, call.run_fresh, ih, List.map_cons]

/-- A block that is not closed leaves its graph behind, and a counter that is not zero. -/
example :
    let s := (readData "GRAPH <g> \x7b [] <p> <o> ." .defaultGraph {}).2
    s.members.scope.data = true ∧ s.members.scope.graph = .iri "g" ∧ s.members.cursor.fresh = 1 := by
  decide +kernel

end Session

end QuadStore.Sparql
