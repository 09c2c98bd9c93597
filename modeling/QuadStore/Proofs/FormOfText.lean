import QuadStore.Console
import QuadStore.Proofs.ReaderPace
import QuadStore.Proofs.ReaderRules
import QuadStore.Proofs.TreeReading

namespace QuadStore.Sparql

namespace Reader

variable {α β : Type} {n m : Nat} {r : Reader α} {f : α → Reader β} {scope : Scope} {c after : Cursor} {finish : Nat}

def Drops (n : Nat) (r : Reader α) : Prop :=
  ∀ scope c a after, r scope c = .ok (a, after) → after.tokens = c.tokens.drop n

theorem drops_pure (a : α) : Drops 0 (pure a) := by
  rintro scope c b after made
  cases made
  rfl

theorem drops_given {a : α} (h : Drops n (f a)) : Drops n (pure a >>= f) := h

theorem drops_fail (fault : Fault) : Drops n (fail fault : Reader α) := by
  rintro scope c a after made
  unfold fail at made
  split at made <;> cases made

theorem drops_update {g : Cursor → Cursor} (same : ∀ c, (g c).tokens = c.tokens) : Drops 0 (update g) := by
  rintro scope c a after made
  cases made
  exact same c

theorem drops_skip : Drops 1 skip := by
  rintro scope c a after made
  cases made
  exact List.drop_one.symm

theorem Drops.bind (hr : Drops n r) (hf : ∀ a, Drops m (f a)) : Drops (n + m) (r >>= f) := by
  intro scope c b last made
  rw [bind_apply] at made
  cases first : r scope c with
  | error stop =>
    rw [first] at made
    cases made
  | ok read =>
    obtain ⟨a, mid⟩ := read
    rw [first] at made
    rw [hf a scope mid b last made, hr scope c a mid first, List.drop_drop]

theorem drops_peek {f : Option Lexeme → Reader β} (h : ∀ l, Drops n (f l)) : Drops n (peek? >>= f) :=
  fun scope c => h _ scope c

theorem drops_cursor {f : Cursor → Reader β} (h : ∀ c, Drops n (f c)) : Drops n (cursor >>= f) :=
  fun scope c => h c scope c

theorem iriRef_drops : Drops 1 iriRef := by
  refine drops_peek fun l => ?_
  split
  · exact drops_skip.bind fun _ => drops_cursor fun _ => drops_pure _
  · exact drops_fail _

theorem baseDeclaration_drops : Drops 1 baseDeclaration := by
  refine iriRef_drops.bind fun _ => drops_update ?_
  exact fun _ => rfl

theorem prefixDeclaration_drops : Drops 2 prefixDeclaration := by
  refine drops_peek fun l => ?_
  split
  · refine drops_given ?_
    dsimp only
    split
    · exact drops_fail _
    · refine drops_skip.bind fun _ => iriRef_drops.bind fun _ => drops_update ?_
      exact fun _ => rfl
  · exact drops_fail _

theorem isWord_other {w : Text} {l : Option Lexeme} (h : isWord w l = true) (v : Text) (other : w.lower ≠ v.lower) :
    isWord v l = false := by
  obtain ⟨own, rfl⟩ := isWord_eq h
  have same : own.lower = w.lower := of_decide_eq_true h
  exact decide_eq_false (same ▸ other)

theorem tokens_of_word {w : Text} (h : isWord w (upcoming c) = true) :
    ∃ t rest, c.tokens = t :: rest ∧ isWord w (some t.lexeme) = true := by
  unfold upcoming at h
  cases tokens : c.tokens with
  | nil =>
    rw [tokens] at h
    cases h
  | cons t rest =>
    rw [tokens] at h
    exact ⟨t, rest, rfl, h⟩

theorem ofTokens_prefix (h : isWord "PREFIX" (upcoming c) = true) :
    Form.ofTokens finish c.tokens = Form.ofTokens finish (c.tokens.tail.drop 2) := by
  obtain ⟨t, rest, tokens, word⟩ := tokens_of_word h
  rw [tokens, Form.ofTokens, if_pos word, List.tail_cons]

theorem ofTokens_base (h : isWord "BASE" (upcoming c) = true) :
    Form.ofTokens finish c.tokens = Form.ofTokens finish (c.tokens.tail.drop 1) := by
  obtain ⟨t, rest, tokens, word⟩ := tokens_of_word h
  have other := isWord_other word "PREFIX" (by decide)
  rw [tokens, Form.ofTokens, if_neg (by simp [other]), if_pos word, List.tail_cons]

def queryWords : List (Text × Form) :=
  [("SELECT", .select), ("ASK", .ask), ("CONSTRUCT", .construct), ("DESCRIBE", .describe)]

theorem ofTokens_word {w : Text} {form : Form} (h : isWord w (upcoming c) = true) (among : (w, form) ∈ queryWords) :
    Form.ofTokens finish c.tokens = .ok form := by
  obtain ⟨t, rest, tokens, word⟩ := tokens_of_word h
  have apart := isWord_other word
  rw [tokens, Form.ofTokens]
  simp only [queryWords, List.mem_cons, Prod.mk.injEq, List.not_mem_nil, or_false] at among
  obtain ⟨rfl, rfl⟩ | ⟨rfl, rfl⟩ | ⟨rfl, rfl⟩ | ⟨rfl, rfl⟩ := among
  · simp [apart "PREFIX" (by decide), apart "BASE" (by decide), word]
  · simp [apart "PREFIX" (by decide), apart "BASE" (by decide), apart "SELECT" (by decide), word]
  · simp [apart "PREFIX" (by decide), apart "BASE" (by decide), apart "SELECT" (by decide), apart "ASK" (by decide), word]
  · simp [apart "PREFIX" (by decide), apart "BASE" (by decide), apart "SELECT" (by decide), apart "ASK" (by decide),
      apart "CONSTRUCT" (by decide), word]

theorem ofTokens_update (h : startsUpdate (upcoming c) = true) : Form.ofTokens finish c.tokens = .ok .update := by
  obtain ⟨w, mem, word⟩ := List.any_eq_true.1 h
  obtain ⟨t, rest, tokens, word⟩ := tokens_of_word word
  have updates : startsUpdate (some t.lexeme) = true := List.any_eq_true.2 ⟨w, mem, word⟩
  have others : ∀ w ∈ updateWords, ∀ v ∈ (["PREFIX", "BASE", "SELECT", "ASK", "CONSTRUCT", "DESCRIBE"] : List Text),
      w.lower ≠ v.lower := by decide
  have apart : ∀ v ∈ (["PREFIX", "BASE", "SELECT", "ASK", "CONSTRUCT", "DESCRIBE"] : List Text),
      isWord v (some t.lexeme) = false := fun v own => isWord_other word v (others w mem v own)
  rw [tokens, Form.ofTokens]
  simp only [List.forall_mem_cons] at apart
  simp [apart, updates]

def Tells (finish : Nat) (form : Except ParseError Form) : Setting where
  scope _ := True
  cursor c := Form.ofTokens finish c.tokens = form

theorem prologueRound_tells (form : Except ParseError Form) (u : Unit) :
    Holds (Tells finish form) (prologueRound u) fun _ => True := by
  intro scope c next after _ tells made
  refine ⟨trivial, ?_⟩
  change Form.ofTokens finish c.tokens = form at tells
  change Form.ofTokens finish after.tokens = form
  change (accept (isWord "BASE") >>= _) scope c = _ at made
  rw [accept_bind] at made
  split at made
  · rename_i base
    have taken := (baseDeclaration_drops.bind fun _ => drops_pure (ForInStep.yield ())) _ _ _ _ made
    rw [taken, ← tells, ofTokens_base base]
  change (accept (isWord "PREFIX") >>= _) scope c = _ at made
  rw [accept_bind] at made
  split at made
  · rename_i declares
    have taken := (prefixDeclaration_drops.bind fun _ => drops_pure (ForInStep.yield ())) _ _ _ _ made
    rw [taken, ← tells, ofTokens_prefix declares]
  · cases made
    exact tells

theorem prologue_tells (form : Except ParseError Form) : Holds (Tells finish form) prologue fun _ => True := by
  refine holds_loop (fun u _ => (prologueRound_tells form u).weaken fun next _ => ?_) trivial
  cases next <;> exact trivial

def Free : Setting := ⟨fun _ => True, fun _ => True⟩

theorem holds_after {P : β → Prop} (h : ∀ a, Holds Free (f a) P) : Holds Free (r >>= f) P :=
  Holds.bind (Q := fun _ => True) (fun _ _ _ _ _ _ _ => ⟨trivial, trivial⟩) fun a _ => h a

theorem sliced_form {op : Operation} (h : op.form = .select) : Holds Free (sliced op) (·.form = .select) := by
  refine holds_after fun _ => holds_after fun bounds => holds_after fun _ => holds_ite (holds_fail _) ?_
  split
  · exact holds_pure h
  · exact holds_pure rfl

theorem selectQuery_form : Holds Free selectQuery (·.form = .select) := by
  have wrapped : ∀ (isDistinct isReduced : Bool) (names : List Text) (op : Operation),
      (if isDistinct then Operation.distinct (.project names op)
        else if isReduced then .reduced (.project names op) else .project names op).form = .select := by
    intro isDistinct isReduced names op
    cases isDistinct <;> cases isReduced <;> rfl
  refine holds_after fun isDistinct => holds_ite ?_ (holds_after fun isReduced => ?_)
  · refine holds_after fun isReduced => holds_after fun _ => holds_after fun _ => holds_after fun _ => ?_
    exact sliced_form (wrapped isDistinct isReduced _ _)
  · exact holds_after fun _ => holds_after fun _ => holds_after fun _ => sliced_form (wrapped isDistinct isReduced _ _)

theorem askQuery_form : Holds Free askQuery (·.form = .ask) :=
  holds_after fun _ => holds_after fun _ => holds_after fun _ => holds_pure rfl

theorem constructQuery_form : Holds Free constructQuery (·.form = .construct) := by
  refine holds_after fun _ => holds_ite ?_ ?_
  · exact holds_after fun _ => holds_after fun _ => holds_after fun _ => holds_after fun _ => holds_pure rfl
  · refine holds_after fun _ => holds_after fun _ => holds_after fun _ => ?_
    exact holds_after fun _ => holds_after fun _ => holds_pure rfl

theorem describeQuery_form : Holds Free describeQuery (·.form = .describe) := by
  refine holds_after fun _ => holds_after fun _ => holds_after fun _ => holds_after fun _ => holds_ite ?_ ?_
  · exact holds_after fun _ => holds_after fun _ => holds_after fun _ => holds_pure rfl
  · exact holds_after fun _ => holds_after fun _ => holds_after fun _ => holds_pure rfl

theorem query_form {r : Reader Operation} {form : Form} (h : Holds Free r (·.form = form)) :
    Holds Free (do return Content.query (← r)) (·.form = form) :=
  h.bind fun _ own => holds_pure own

theorem content_form {x : Content} (made : content scope c = .ok (x, after)) :
    Form.ofTokens finish c.tokens = .ok x.form := by
  rw [content, bind_apply] at made
  cases declared : prologue scope c with
  | error stop =>
    rw [declared] at made
    cases made
  | ok read =>
    obtain ⟨u, mid⟩ := read
    rw [declared] at made
    have tells : Form.ofTokens finish mid.tokens = Form.ofTokens finish c.tokens :=
      (prologue_tells _ scope c u mid trivial rfl declared).2
    rw [← tells]
    change (accept (isWord "SELECT") >>= _) scope mid = _ at made
    rw [accept_bind] at made
    split at made
    · rename_i word
      rw [ofTokens_word word (.head _), (query_form selectQuery_form scope _ x after trivial trivial made).1]
    change (accept (isWord "ASK") >>= _) scope mid = _ at made
    rw [accept_bind] at made
    split at made
    · rename_i word
      rw [ofTokens_word word (.tail _ (.head _)), (query_form askQuery_form scope _ x after trivial trivial made).1]
    change (accept (isWord "CONSTRUCT") >>= _) scope mid = _ at made
    rw [accept_bind] at made
    split at made
    · rename_i word
      rw [ofTokens_word word (.tail _ (.tail _ (.head _))),
        (query_form constructQuery_form scope _ x after trivial trivial made).1]
    change (accept (isWord "DESCRIBE") >>= _) scope mid = _ at made
    rw [accept_bind] at made
    split at made
    · rename_i word
      rw [ofTokens_word word (.tail _ (.tail _ (.tail _ (.head _)))),
        (query_form describeQuery_form scope _ x after trivial trivial made).1]
    change (if startsUpdate (upcoming mid) = true then _ else _ : Reader Content) scope mid = _ at made
    split at made
    · rename_i updates
      have own : x.form = .update := by
        refine (holds_after (P := fun x : Content => x.form = .update) ?_ scope mid x after trivial trivial made).1
        exact fun _ => holds_pure rfl
      rw [ofTokens_update updates, own]
    · exact (holds_fail (I := Free) (P := fun _ => False) _ scope mid x after trivial trivial made).1.elim

end Reader

namespace Form

theorem ofText_read {text : Text} {request : Request} (read : Request.read text = .ok request) :
    ofText text = .ok request.content.form := by
  unfold Request.read at read
  unfold ofText
  cases scanned : Token.scan text with
  | error e =>
    rw [scanned] at read
    cases read
  | ok tokens =>
    rw [scanned] at read
    obtain ⟨last, made⟩ := Reader.run_eq_ok read
    rw [Reader.bind_apply] at made
    cases first : Reader.content (.whole false .defaultGraph text.length) { tokens } with
    | error stop =>
      rw [first] at made
      cases made
    | ok read' =>
      rw [first] at made
      obtain ⟨content, after⟩ := read'
      obtain ⟨-, rfl⟩ := Reader.finished_ends made
      exact Reader.content_form first

end Form

end QuadStore.Sparql

namespace QuadStore.Console

open Sparql

/-- What is answered to a text that tells its form: the answer of the engine for a selection or a question,
and no answer for the other forms. -/
theorem answer_of_form {text : Text} {form : Form} (told : Form.ofText text = .ok form) (state : State) :
    (∀ e, (answer text state).1 ≠ .error (.parse e)) ∧
      ((answer text state).1 = .error .form ↔ form ≠ .select ∧ form ≠ .ask) := by
  unfold answer
  rw [told]
  cases form with
  | select =>
    dsimp only
    rcases Engine.select text none state with ⟨_ | _, _⟩ <;> simp
  | ask =>
    dsimp only
    rcases Engine.ask text none state with ⟨_ | _, _⟩ <;> simp
  | construct => simp
  | describe => simp
  | update => simp

/-- What is read as a request tells the form that it has. The command line never refuses it as a text that
cannot be read, and refuses it for its form only if it neither selects nor asks. -/
theorem form_of_read {text : Text} {request : Request} (read : Request.read text = .ok request) :
    Form.ofText text = .ok request.content.form ∧ ∀ state : State,
      (∀ e, (answer text state).1 ≠ .error (.parse e)) ∧
        ((answer text state).1 = .error .form ↔ request.content.form ≠ .select ∧ request.content.form ≠ .ask) :=
  have told := Form.ofText_read read
  ⟨told, answer_of_form told⟩

def declaredQuestion : Text :=
  "# SELECT\npReFiX : <http://ex/> base <http://b/> # ASK\nBASE <c> PREFIX ask: <d#>\naSk \x7b ?s :p ask:select \x7d"

theorem form_of_declaredQuestion : ∃ request, Request.read declaredQuestion = .ok request ∧
    Form.ofText declaredQuestion = .ok request.content.form ∧ request.content.form = .ask ∧
    ∀ state : State, (answer declaredQuestion state).1 ≠ .error .form := by
  have form : (Request.read declaredQuestion).toOption.map (·.content.form) = some .ask := by decide +kernel
  cases read : Request.read declaredQuestion with
  | error e =>
    rw [read] at form
    cases form
  | ok request =>
    rw [read] at form
    have ask : request.content.form = .ask := Option.some.inj form
    obtain ⟨told, routed⟩ := form_of_read read
    exact ⟨request, rfl, told, ask, fun state refused => (((routed state).2.1 refused).2 ask).elim⟩

end QuadStore.Console
