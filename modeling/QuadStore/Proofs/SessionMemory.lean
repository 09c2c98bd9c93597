import QuadStore.Proofs.SessionReset

namespace QuadStore.Sparql

open Step

def Content.ofText? (text : Text) : Option Content :=
  match Token.scan text with
  | .ok tokens =>
    match Reader.content (.whole false .defaultGraph text.length) { tokens } with
    | .ok (content, _) => some content
    | .error _ => none
  | .error _ => none

theorem Reader.finished_apply (content : Content) (scope : Scope) (c : Cursor) :
    finished content scope c = match c.tokens with
      | [] => .ok (⟨content, c.prefixes, c.base⟩, c)
      | t :: _ => .error ⟨⟨.trailingInput, .token t.lexeme.text, t.offset⟩, scope, c⟩ := by
  obtain ⟨tokens, fresh, prefixes, base⟩ := c
  cases tokens <;> rfl

namespace Session

inductive Ending (text : Text) (s : Session) : Except ParseError Request × Session → Prop
  | unread (e : ParseError) (members : Members) (front : Content.ofText? text = none) :
    Ending text s (.error e, { s with members })
  | trailing (e : ParseError) (members : Members) (content : Content) (front : Content.ofText? text = some content)
    (fault : e.fault = .trailingInput) : Ending text s (.error e, { s with isDistinct := content.isDistinct, members })
  | whole (request : Request) (members : Members) (front : Content.ofText? text = some request.content) :
    Ending text s (.ok request, { s with isDistinct := request.content.isDistinct, members }.remember request.content)

theorem read_ending (text : Text) (s : Session) : Ending text s (read text s) := by
  unfold read
  rw [bind_apply, start_apply]
  cases scanned : Token.scan text with
  | error e => exact .unread e _ (by rw [Content.ofText?, scanned])
  | ok tokens =>
    dsimp only
    rw [bind_apply]
    cases content : Reader.content (.whole false .defaultGraph text.length) { tokens } with
    | error stop =>
      rw [run_error content]
      exact .unread _ _ (by simp only [Content.ofText?, scanned, content])
    | ok front =>
      obtain ⟨front, cursor⟩ := front
      have found : Content.ofText? text = some front := by simp only [Content.ofText?, scanned, content]
      rw [run_ok content]
      dsimp only
      rw [bind_apply, modify_apply]
      dsimp only
      rw [bind_apply]
      have finished := Reader.finished_apply front (.whole false .defaultGraph text.length) cursor
      cases left : cursor.tokens with
      | nil =>
        rw [left] at finished
        rw [run_ok finished]
        exact .whole _ _ found
      | cons t rest =>
        rw [left] at finished
        rw [run_error finished]
        exact .trailing _ _ front found rfl

/-- A text that cannot be read changes whether solutions are distinct, if it is a request with something behind its
end, and nothing else that is remembered. -/
theorem read_error {text : Text} {s : Session} {e : ParseError} (failed : (read text s).1 = .error e) :
    (∃ members, (read text s).2 =
      { s with isDistinct := ((Content.ofText? text).map Content.isDistinct).getD s.isDistinct, members }) ∧
    ∀ content ∈ Content.ofText? text, e.fault = .trailingInput := by
  have ending := read_ending text s
  generalize read text s = ended at ending failed
  cases ending with
  | unread e' members found =>
    rw [found]
    exact ⟨⟨members, rfl⟩, nofun⟩
  | trailing e' members content found fault =>
    cases failed
    rw [found]
    exact ⟨⟨members, rfl⟩, fun _ _ => fault⟩
  | whole request members found => cases failed

def Call.read? : Call → Option Content
  | .request text => (Request.read text).toOption.map (·.content)
  | .document .. => none

/-- The request that a call has read up to its end, whether the text ended there or not. -/
def Call.front? : Call → Option Content
  | .request text => Content.ofText? text
  | .document .. => none

/-- What a session remembers is of two requests. -/
structure Remembers (s : Session) (whole front : Content) : Prop where
  names : s.names = whole.names
  triples : s.triples = whole.triples
  inserted : s.inserted = whole.inserted
  isDistinct : s.isDistinct = front.isDistinct

theorem remembers_nothing : Remembers {} (.update [] []) (.update [] []) := ⟨rfl, rfl, rfl, rfl⟩

theorem readData_members (text : Text) (graph : Term) (s : Session) :
    ∃ members, (readData text graph s).2 = { s with members } := by
  unfold readData
  rw [bind_apply, start_apply]
  cases Token.scan text with
  | error e => exact ⟨s.members, rfl⟩
  | ok tokens =>
    dsimp only
    rw [bind_apply, enterData, modify_apply]
    dsimp only
    rw [bind_apply]
    unfold run
    dsimp only
    cases Reader.document _ _ with
    | error stop => exact ⟨_, rfl⟩
    | ok read => exact ⟨_, rfl⟩

theorem Call.run_remembers {s : Session} {whole front : Content} (h : Remembers s whole front) (call : Call) :
    Remembers (call.run s).2 (call.read?.getD whole) (call.front?.getD front) := by
  cases call with
  | document text graph =>
    obtain ⟨members, same⟩ := readData_members text graph s
    show Remembers (readData text graph s).2 whole front
    rw [same]
    exact ⟨h.names, h.triples, h.inserted, h.isDistinct⟩
  | request text =>
    have ending := read_ending text s
    show Remembers (read text s).2 (((Request.read text).toOption.map (·.content)).getD whole)
      ((Content.ofText? text).getD front)
    rw [← read_answer text s]
    generalize read text s = ended at ending
    cases ending with
    | unread e members found =>
      rw [found]
      exact ⟨h.names, h.triples, h.inserted, h.isDistinct⟩
    | trailing e members content found fault =>
      rw [found]
      exact ⟨h.names, h.triples, h.inserted, rfl⟩
    | whole request members found =>
      rw [found]
      exact ⟨rfl, rfl, rfl, rfl⟩

def after (calls : List Call) (s : Session) : Session := calls.foldl (fun s call => (call.run s).2) s

theorem getLastD_filterMap_cons {α β : Type} (f : α → Option β) (a : α) (rest : List α) (b : β) :
    ((a :: rest).filterMap f).getLastD b = (rest.filterMap f).getLastD ((f a).getD b) := by
  rw [List.filterMap_cons]
  cases f a with
  | none => rfl
  | some c => exact List.getLastD_cons ..

theorem after_remembers (calls : List Call) {s : Session} {whole front : Content} (h : Remembers s whole front) :
    Remembers (after calls s) ((calls.filterMap Call.read?).getLastD whole)
      ((calls.filterMap Call.front?).getLastD front) := by
  induction calls generalizing s whole front with
  | nil => exact h
  | cons call calls ih =>
    rw [getLastD_filterMap_cons, getLastD_filterMap_cons]
    exact ih (call.run_remembers h)

/-- A text that cannot be read leaves the names, the triples and the inserted statements as they were, which are
those of the last request that was read. Whether solutions are distinct changes if the text is a request that is told
otherwise and goes on behind its end; it is always that of the last request that was read up to its end. -/
theorem failed_read_remembers (calls : List Call) (text : Text) {e : ParseError}
    (failed : (read text (after calls {})).1 = .error e) :
    let s := after calls {}
    let t := (read text s).2
    let last := (calls.filterMap Call.read?).getLastD (.update [] [])
    let front := ((calls ++ [Call.request text]).filterMap Call.front?).getLastD (.update [] [])
    (t.names = s.names ∧ t.triples = s.triples ∧ t.inserted = s.inserted) ∧
    (t.isDistinct = s.isDistinct ↔ ∀ content ∈ Content.ofText? text, content.isDistinct = s.isDistinct) ∧
    (∀ content ∈ Content.ofText? text, e.fault = .trailingInput) ∧
    Remembers t last front ∧ (Remembers t last last ↔ front.isDistinct = last.isDistinct) := by
  intro s t last front
  obtain ⟨⟨members, changed⟩, fault⟩ := read_error failed
  have unread : (Call.request text).read? = none := by
    show (Request.read text).toOption.map _ = none
    rw [← read_answer text s, failed]
    rfl
  have remembered : Remembers t last front := by
    have whole : last = ((calls ++ [Call.request text]).filterMap Call.read?).getLastD (.update [] []) := by
      rw [List.filterMap_append, List.filterMap_cons, unread, List.filterMap_nil, List.append_nil]
    have reached : after (calls ++ [Call.request text]) {} = t := List.foldl_append
    rw [whole, ← reached]
    exact after_remembers (calls ++ [Call.request text]) remembers_nothing
  have noted : t.isDistinct = ((Content.ofText? text).map Content.isDistinct).getD s.isDistinct :=
    congrArg Session.isDistinct changed
  have names : (read text s).2.names = s.names := by rw [changed]
  have triples : (read text s).2.triples = s.triples := by rw [changed]
  have inserted : (read text s).2.inserted = s.inserted := by rw [changed]
  refine ⟨⟨names, triples, inserted⟩, ?_, fault, remembered, ?_⟩
  · rw [noted]
    cases Content.ofText? text <;> simp
  · exact ⟨fun h => remembered.isDistinct.symm.trans h.isDistinct, fun same =>
      ⟨remembered.names, remembered.triples, remembered.inserted, remembered.isDistinct.trans same⟩⟩

theorem error_of_not_ok {ε α : Type} {answer : Except ε α} (h : answer.isOk = false) : ∃ e, answer = .error e := by
  cases answer with
  | ok a => cases h
  | error e => exact ⟨e, rfl⟩

def selected : Text := "SELECT ?s WHERE \x7b ?s ?p ?o \x7d"
def distinctAndMore : Text := "SELECT DISTINCT ?s WHERE \x7b ?s ?p ?o \x7d \x7d"

theorem failed_read_remembers_selected :
    ∃ e, (read distinctAndMore (after [.request selected] {})).1 = .error e ∧ e.fault = .trailingInput ∧
      (read distinctAndMore (after [.request selected] {})).2.names = (after [.request selected] {}).names ∧
      (read distinctAndMore (after [.request selected] {})).2.isDistinct ≠
        (after [.request selected] {}).isDistinct := by
  have front : (Content.ofText? distinctAndMore).map Content.isDistinct = some true := by decide +kernel
  have plain : (after [.request selected] {}).isDistinct = false := by decide +kernel
  have refused : (read distinctAndMore (after [.request selected] {})).1.isOk = false := by decide +kernel
  obtain ⟨content, found, distinct⟩ := Option.map_eq_some_iff.1 front
  obtain ⟨e, failed⟩ := error_of_not_ok refused
  obtain ⟨⟨names, -, -⟩, kept, fault, -⟩ := failed_read_remembers [.request selected] distinctAndMore failed
  refine ⟨e, failed, fault content found, names, fun same => ?_⟩
  have told := kept.1 same content found
  rw [distinct, plain] at told
  cases told

theorem failed_read_is_distinct :
    let s := after [.request selected] {}
    (read distinctAndMore s).1.isOk = false ∧ s.isDistinct = false ∧ (read distinctAndMore s).2.isDistinct = true := by
  decide +kernel

end Session

end QuadStore.Sparql
