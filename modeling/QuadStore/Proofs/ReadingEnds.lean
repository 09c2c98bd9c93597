import QuadStore.Proofs.PacedReaders
import QuadStore.Proofs.SessionReset
import QuadStore.Proofs.StackUse
import QuadStore.Proofs.TokenScan

namespace QuadStore.Sparql

/-- How the reading of a text ends: with an answer, or with a fault that stands inside of the text and is
not that of a limit. -/
def Concludes {α : Type} (text : Text) : Except ParseError α → Prop
  | .ok _ => True
  | .error e => e.offset ≤ text.length ∧ e.fault ≠ .tooDeep

namespace Reader

/-- A round that another one follows takes tokens from the front, one at least. -/
def TakesToken {α : Type} (step : α → Reader (ForInStep α)) : Prop :=
  ∀ a scope c b after, step a scope c = .ok (.yield b, after) →
    after.tokens <:+ c.tokens ∧ after.tokens.length < c.tokens.length

theorem exists_inside (scope : Scope) (c : Cursor) : ∃ bound, Inside bound scope c := by
  have longest : ∀ tokens : List Token, ∃ bound, ∀ t ∈ tokens, t.offset ≤ bound := by
    intro tokens
    induction tokens with
    | nil => exact ⟨0, List.forall_mem_nil _⟩
    | cons t rest ih =>
      obtain ⟨bound, all⟩ := ih
      refine ⟨max t.offset bound, List.forall_mem_cons.2 ⟨Nat.le_max_left _ _, fun u mem => ?_⟩⟩
      exact Nat.le_trans (all u mem) (Nat.le_max_right _ _)
  obtain ⟨bound, all⟩ := longest c.tokens
  exact ⟨max scope.finish bound, Nat.le_max_left _ _, fun t mem => Nat.le_trans (all t mem) (Nat.le_max_right _ _)⟩

theorem takesToken_of_paced {α : Type} {step : α → Reader (ForInStep α)} (depth : Nat)
    (h : ∀ bound a, Paced bound depth Anywhere (step a) Continues) : TakesToken step := by
  intro a scope c b after made
  obtain ⟨bound, inside⟩ := exists_inside scope c
  exact ((h bound a).takes scope c _ after trivial inside made).imp_right fun took => took trivial

theorem Round.takesToken {α : Type} {step : α → Reader (ForInStep α)} (h : Round step) : TakesToken step := by
  cases h with
  | prologue => exact takesToken_of_paced 0 fun _ => prologueRound_paced
  | objects depth => exact takesToken_of_paced (depth + 1) fun _ _ => objectsRound_paced (propertiesTo_paced depth)
  | semicolons => exact takesToken_of_paced 0 fun _ => semicolonsRound_paced
  | properties depth => exact takesToken_of_paced (depth + 1) fun _ _ => propertiesRound_paced (propertiesTo_paced depth)
  | triples => exact takesToken_of_paced 0 fun _ => triplesRound_paced
  | product depth => exact takesToken_of_paced (depth + 1) fun _ => chainRound_paced (unary_paced (nestedTo_paced depth))
  | sum depth => exact takesToken_of_paced (depth + 1) fun _ => chainRound_paced (product_paced (nestedTo_paced depth))
  | conjunction depth =>
    exact takesToken_of_paced (depth + 1) fun _ => chainRound_paced (comparison_paced (nestedTo_paced depth))
  | disjunction depth =>
    exact takesToken_of_paced (depth + 1) fun _ => chainRound_paced (conjunction_paced (nestedTo_paced depth))
  | expressions depth => exact takesToken_of_paced depth fun _ => expressionsRound_paced (nestedTo_paced depth).expression
  | alternatives depth => exact takesToken_of_paced depth fun _ => alternativesRound_paced (nestedTo_paced depth)
  | group depth => exact takesToken_of_paced depth fun _ => groupRound_paced (nestedTo_paced depth)
  | order => exact takesToken_of_paced 0 fun _ => orderRound_paced
  | projected => exact takesToken_of_paced 0 fun _ => projectedRound_paced
  | targets => exact takesToken_of_paced 0 fun _ => targetsRound_paced
  | graph => exact takesToken_of_paced 0 fun _ => graphRound_paced
  | data => exact takesToken_of_paced 0 fun _ => dataRound_paced
  | update => exact takesToken_of_paced 0 fun _ => updateRound_paced
  | document => exact takesToken_of_paced 0 fun _ => documentRound_paced

/-- A reader that keeps the pace ends well on the tokens of a text. -/
theorem run_ends {α : Type} {text : Text} {r : Reader α} {must : α → Prop} {scope : Scope} {tokens : List Token}
    (h : Paced text.length (tokens.length + 1) Anywhere r must) (finish : scope.finish ≤ text.length)
    (inside : ∀ t ∈ tokens, t.offset ≤ text.length) : Concludes text (run r scope tokens) := by
  unfold run
  split
  · trivial
  · rename_i stop failed
    obtain ⟨offset, other⟩ := h.stops scope { tokens } stop trivial ⟨finish, inside⟩ failed
    exact ⟨offset, other (Nat.lt_succ_self _)⟩

end Reader

theorem Concludes.map {α β : Type} {text : Text} {read : Except ParseError α} {f : α → β}
    (h : Concludes text read) :
    Concludes text (do return f (← read)) := by
  cases read with
  | error e => exact h
  | ok a => trivial

namespace Token

theorem scan_inside {text : Text} {tokens : List Token} (scanned : scan text = .ok tokens) :
    ∀ t ∈ tokens, t.offset ≤ text.length := by
  intro t mem
  have increasing := ((scan_scans text).increasing (Nat.le_refl _) scanned).2
  obtain ⟨-, -, before⟩ := List.pairwise_append.1 increasing
  exact Nat.le_of_lt (before t.offset (List.mem_map_of_mem mem) text.length (List.mem_singleton_self _))

theorem ends_of_scan {α : Type} {text : Text} {f : List Token → Except ParseError α}
    (h : ∀ tokens, (∀ t ∈ tokens, t.offset ≤ text.length) → Concludes text (f tokens)) :
    Concludes text (do f (← scan text)) := by
  cases scanned : scan text with
  | error e => exact (scan_scans text).stops scanned
  | ok tokens => exact h tokens (scan_inside scanned)

end Token

theorem Form.ofTokens_ends {text : Text} (tokens : List Token) (inside : ∀ t ∈ tokens, t.offset ≤ text.length) :
    Concludes text (ofTokens text.length tokens) := by
  fun_induction ofTokens text.length tokens with
  | case1 => exact ⟨Nat.le_refl _, nofun⟩
  | case2 t rest _ _ ih =>
    exact ih fun u mem => inside u (List.mem_cons_of_mem t (List.mem_of_mem_drop mem))
  | case3 t rest _ _ _ ih =>
    exact ih fun u mem => inside u (List.mem_cons_of_mem t (List.mem_of_mem_drop mem))
  | case9 t rest => exact ⟨inside t List.mem_cons_self, nofun⟩
  | _ => trivial

theorem Request.read_ends (text : Text) : Concludes text (Request.read text) :=
  Token.ends_of_scan fun _ inside =>
    Reader.run_ends (Reader.content_paced.then fun _ => Reader.finished_paced _) (Nat.le_refl _) inside

theorem Document.read_ends (text : Text) (graph : Term) : Concludes text (Document.read text graph) :=
  Token.ends_of_scan fun _ inside => (Reader.run_ends Reader.document_paced (Nat.le_refl _) inside).map

/-- Whether a request, a document and the form of a text are read to their ends on a stack, in whatever session.
If the stack lasts each ends with an answer or with a fault inside of the text; otherwise the program is ended.
It lasts for every text that is short enough. The text is cut into tokens to its end, strings and tags in it
with any fuel that is long enough; every token begins before the next one and before the end. Every loop takes
a token on the way. -/
theorem reading_ends (k : Stack) (text : Text) (graph : Term) (s : Session) :
    (if k.lasts text (k.buries false) then
      k.read text s = .finished (s.read text) ∧ Concludes text (s.read text).1 else k.read text s = .exhausted) ∧
    (if k.lasts text (k.buries true) then
      k.readData text graph s = .finished (s.readData text graph) ∧ Concludes text (s.readData text graph).1
      else k.readData text graph s = .exhausted) ∧
    (if k.fits text then k.form text = .finished (Form.ofText text) ∧ Concludes text (Form.ofText text)
      else k.form text = .exhausted) ∧
    ((k.frame + k.choice) * text.length ≤ k.size → text.length ≤ k.depth →
      k.fits text ∧ ∀ data, k.lasts text (k.buries data)) ∧
    Token.Scans text.length text (Token.scan text) ∧
    (∀ tokens, Token.scan text = .ok tokens → (tokens.map (·.offset) ++ [text.length]).Pairwise (· < ·)) ∧
    (∀ closing start rest fuel, rest.length ≤ fuel →
      Token.string? closing start fuel rest = Token.string? closing start rest.length rest) ∧
    (∀ rest fuel, rest.length ≤ fuel → Token.tagParts fuel rest = Token.tagParts rest.length rest) ∧
    ∀ (α : Type) (step : α → Reader (ForInStep α)), Reader.Round step → Reader.TakesToken step := by
  have string_ : ∀ closing start rest fuel, rest.length ≤ fuel →
      Token.string? closing start fuel rest = Token.string? closing start rest.length rest := by
    intro closing start rest fuel fits
    obtain ⟨more, rfl⟩ := Nat.exists_eq_add_of_le fits
    exact Token.string?_fuel (Nat.le_refl _)
  have tag : ∀ rest fuel, rest.length ≤ fuel → Token.tagParts fuel rest = Token.tagParts rest.length rest := by
    intro rest fuel fits
    obtain ⟨more, rfl⟩ := Nat.exists_eq_add_of_le fits
    exact Token.tagParts_fuel (Nat.le_refl _)
  have increasing : ∀ tokens, Token.scan text = .ok tokens →
      (tokens.map (·.offset) ++ [text.length]).Pairwise (· < ·) :=
    fun _ scanned => ((Token.scan_scans text).increasing (Nat.le_refl _) scanned).2
  have request : Concludes text (s.read text).1 := by
    rw [Session.read_answer]
    exact Request.read_ends text
  have document : Concludes text (s.readData text graph).1 := by
    rw [Session.readData_answer]
    exact Document.read_ends text graph
  have form : Concludes text (Form.ofText text) :=
    Token.ends_of_scan fun tokens inside => Form.ofTokens_ends tokens inside
  refine ⟨k.onTokens_settled text _ _ request, k.onTokens_settled text _ _ document, ?_, fun short few => ?_,
    Token.scan_scans text, increasing, string_, tag, fun _ _ round => round.takesToken⟩
  · have loop : k.lasts text (fun _ => false) = k.fits text := by
      rw [Stack.lasts, Option.any_false, Bool.not_false, Bool.and_true]
    rw [← loop]
    exact k.onTokens_settled text _ _ form
  · exact ⟨k.fits_of_short short, fun data => k.lasts_of_short (k.shallow data) short few⟩

def digitsStatement (subject predicate : IriText) (n : Nat) : Text :=
  bracketedText subject ++ Text.byte ' ' :: (bracketedText predicate ++ Text.byte ' ' ::
    (List.replicate (n + 1) (Text.byte '1') ++ " ."))

theorem bracketedText_append (i : IriText) (rest : Text) :
    bracketedText i ++ rest = Text.byte '<' :: (i.value ++ Text.byte '>' :: rest) := by
  simp [bracketedText]

theorem starts_digits (subject predicate : IriText) (n : Nat) :
    (Text.byte '1', List.replicate n (Text.byte '1') ++ " .") ∈
      Token.starts (digitsStatement subject predicate n).length (digitsStatement subject predicate n) := by
  obtain ⟨more, long⟩ : ∃ more, (digitsStatement subject predicate n).length = more + 3 := by
    refine Nat.exists_eq_add_of_le' ?_
    simp [digitsStatement, bracketedText]
    omega
  rw [long, digitsStatement, bracketedText_append, bracketedText_append]
  refine Token.mem_starts_later rfl (Token.lexeme?_bracketed subject _) ?_
  refine Token.mem_starts_later rfl (Token.lexeme?_bracketed predicate _) ?_
  exact Token.mem_starts_first rfl more

def subjectIri : IriText := ⟨"http://ex/s", by decide +kernel⟩

def propertyIri : IriText := ⟨"http://ex/p", by decide +kernel⟩

theorem long_number_exhausts :
    Stack.usual.read (digitsStatement subjectIri propertyIri 99999) {} = .exhausted ∧
    Stack.usual.readData (digitsStatement subjectIri propertyIri 99999) .defaultGraph {} = .exhausted ∧
    Stack.usual.form (digitsStatement subjectIri propertyIri 99999) = .exhausted := by
  have large : Stack.usual.size < Stack.usual.taken (Text.byte '1') (List.replicate 99999 (Text.byte '1') ++ " .") := by
    rw [Stack.taken, Token.matched_digits]
    decide
  have full := Stack.usual.exhausted_at (starts_digits subjectIri propertyIri 99999) large
  exact ⟨Stack.usual.onTokens_exhausted full _ _, Stack.usual.onTokens_exhausted full _ _,
    Stack.usual.onTokens_exhausted full _ _⟩

end QuadStore.Sparql
