import QuadStore.Proofs.Rounds
import QuadStore.Proofs.TreeRules

namespace QuadStore.Sparql.Reader

variable {α β : Type} {bound depth : Nat} {pre pre' : Cursor → Prop} {r : Reader α} {f : α → Reader β}
  {must : α → Prop} {must' : β → Prop}

structure Inside (bound : Nat) (scope : Scope) (c : Cursor) : Prop where
  finish : scope.finish ≤ bound
  tokens : ∀ t ∈ c.tokens, t.offset ≤ bound

/-- How a reader ends that is started where `pre` holds. It has taken a token if its answer says that it
must have, and fewer tokens than `depth` do not open too many brackets. -/
structure Paced (bound depth : Nat) (pre : Cursor → Prop) (r : Reader α) (must : α → Prop) : Prop where
  takes : ∀ scope c a after, pre c → Inside bound scope c → r scope c = .ok (a, after) →
    after.tokens <:+ c.tokens ∧ (must a → after.tokens.length < c.tokens.length)
  stops : ∀ scope c stop, pre c → Inside bound scope c → r scope c = .error stop →
    stop.error.offset ≤ bound ∧ (c.tokens.length < depth → stop.error.fault ≠ .tooDeep)

def Always (_ : α) : Prop := True

def Perhaps (_ : α) : Prop := False

def Continues : ForInStep α → Prop
  | .yield _ => True
  | .done _ => False

def upcoming (c : Cursor) : Option Lexeme := (c.tokens[0]?).map (·.lexeme)

def AtTriple (c : Cursor) : Prop := startsTriple (upcoming c) ((c.tokens[1]?).map (·.lexeme)) = true

theorem Paced.weaken (h : Paced bound depth pre r must) {less : α → Prop} (weaker : ∀ a, less a → must a) :
    Paced bound depth pre r less :=
  ⟨fun scope c a after start inside made =>
    (h.takes scope c a after start inside made).imp_right fun took own => took (weaker a own), h.stops⟩

theorem Paced.perhaps (h : Paced bound depth pre r must) : Paced bound depth pre r Perhaps :=
  h.weaken fun _ => False.elim

theorem Paced.started (h : Paced bound depth pre' r must) (stronger : ∀ c, pre c → pre' c) :
    Paced bound depth pre r must :=
  ⟨fun scope c a after start => h.takes scope c a after (stronger c start),
    fun scope c stop start => h.stops scope c stop (stronger c start)⟩

theorem Paced.anywhere (h : Paced bound depth Anywhere r must) : Paced bound depth pre r must :=
  h.started fun _ _ => trivial

theorem Paced.shallower (h : Paced bound depth pre r must) {less : Nat} (le : less ≤ depth) :
    Paced bound less pre r must :=
  ⟨h.takes, fun scope c stop start inside made =>
    (h.stops scope c stop start inside made).imp_right fun deep few => deep (Nat.lt_of_lt_of_le few le)⟩

theorem pure_paced {a : α} (h : ¬ must a) : Paced bound depth pre (pure a) must := by
  refine ⟨?_, fun _ _ _ _ _ made => by cases made⟩
  rintro scope c b after - - made
  cases made
  exact ⟨List.suffix_rfl, fun own => absurd own h⟩

theorem given_paced {a : α} (h : Paced bound depth pre (f a) must') : Paced bound depth pre (pure a >>= f) must' := h

theorem fail_inside {scope : Scope} {c : Cursor} {fault : Fault} {stop : Stop} (inside : Inside bound scope c)
    (made : (fail fault : Reader α) scope c = .error stop) : stop.error.offset ≤ bound ∧ stop.error.fault = fault := by
  unfold fail at made
  split at made
  · cases made
    exact ⟨inside.finish, rfl⟩
  · rename_i t rest tokens
    cases made
    exact ⟨inside.tokens t (by rw [tokens]; exact List.mem_cons_self), rfl⟩

theorem fail_paced {fault : Fault} (other : fault = .tooDeep → depth = 0) :
    Paced bound depth pre (fail fault) must := by
  constructor
  · rintro scope c a after - - made
    unfold fail at made
    split at made <;> cases made
  · rintro scope c stop - inside made
    obtain ⟨offset, same⟩ := fail_inside inside made
    refine ⟨offset, fun few deep => ?_⟩
    rw [other (same.symm.trans deep)] at few
    exact Nat.not_lt_zero _ few

theorem failWith_paced {e : ParseError} (offset : e.offset ≤ bound) (other : e.fault ≠ .tooDeep) :
    Paced bound depth pre (failWith e) must := by
  constructor
  · rintro scope c a after - - made
    cases made
  · rintro scope c stop - - made
    cases made
    exact ⟨offset, fun _ => other⟩

/-- A reader after another one is started where that one ends. Where the first one has taken a token, the
second one may open one bracket less. -/
theorem Paced.bind (deeper : α → Nat) (more : α → β → Prop) (hr : Paced bound depth pre r must)
    (hf : ∀ a, Paced bound (deeper a)
      (fun mid => ∃ c, pre c ∧ (must a → mid.tokens.length < c.tokens.length)) (f a) (more a))
    (deep : ∀ a, depth ≤ deeper a ∨ must a ∧ depth ≤ deeper a + 1) (whole : ∀ a b, must' b → must a ∨ more a b) :
    Paced bound depth pre (r >>= f) must' := by
  have inner : ∀ {scope : Scope} {c mid : Cursor}, Inside bound scope c → mid.tokens <:+ c.tokens →
      Inside bound scope mid := fun inside part => ⟨inside.finish, fun t mem => inside.tokens t (part.subset mem)⟩
  constructor
  · intro scope c b last start inside made
    rw [bind_apply] at made
    cases first : r scope c with
    | error stop =>
      rw [first] at made
      cases made
    | ok read =>
      obtain ⟨a, mid⟩ := read
      rw [first] at made
      obtain ⟨part, took⟩ := hr.takes scope c a mid start inside first
      obtain ⟨part', took'⟩ := (hf a).takes scope mid b last ⟨c, start, took⟩ (inner inside part) made
      refine ⟨part'.trans part, fun own => ?_⟩
      rcases whole a b own with own | own
      · exact Nat.lt_of_le_of_lt part'.length_le (took own)
      · exact Nat.lt_of_lt_of_le (took' own) part.length_le
  · intro scope c stop start inside made
    rw [bind_apply] at made
    cases first : r scope c with
    | error before =>
      rw [first] at made
      cases made
      exact hr.stops scope c _ start inside first
    | ok read =>
      obtain ⟨a, mid⟩ := read
      rw [first] at made
      obtain ⟨part, took⟩ := hr.takes scope c a mid start inside first
      refine ((hf a).stops scope mid stop ⟨c, start, took⟩ (inner inside part) made).imp_right fun inner few => inner ?_
      have left := part.length_le
      rcases deep a with all | ⟨own, all⟩
      · omega
      · have less := took own
        omega

theorem Paced.then (hr : Paced bound depth pre r must) (hf : ∀ a, Paced bound depth Anywhere (f a) must') :
    Paced bound depth pre (r >>= f) must' :=
  hr.bind (fun _ => depth) (fun _ => must') (fun a => (hf a).anywhere) (fun _ => .inl (Nat.le_refl _)) fun _ _ own => .inr own

theorem Paced.first (hr : Paced bound depth pre r Always) (hf : ∀ a, Paced bound (depth - 1) Anywhere (f a) Perhaps) :
    Paced bound depth pre (r >>= f) must' :=
  hr.bind (fun _ => depth - 1) (fun _ => Perhaps) (fun a => (hf a).anywhere) (fun _ => .inr ⟨trivial, by omega⟩)
    fun _ _ _ => .inl trivial

theorem Paced.begins (hr : Paced bound depth pre r Always) (hf : ∀ a, Paced bound depth Anywhere (f a) Perhaps) :
    Paced bound depth pre (r >>= f) must' :=
  hr.first fun a => (hf a).shallower (Nat.sub_le _ _)

theorem Paced.or (hr : Paced bound depth pre r must)
    (hf : ∀ a, Paced bound depth Anywhere (f a) fun b => must' b ∧ ¬ must a) : Paced bound depth pre (r >>= f) must' :=
  hr.bind (fun _ => depth) _ (fun a => (hf a).anywhere) (fun _ => .inl (Nat.le_refl _)) fun a _ own =>
    (Classical.em (must a)).imp_right fun other => ⟨own, other⟩

theorem Paced.never (h : ∀ c, ¬ pre c) : Paced bound depth pre r must :=
  ⟨fun _ c _ _ start => absurd start (h c), fun _ c _ start => absurd start (h c)⟩

theorem Paced.inData (h : Paced bound depth pre r must) : Paced bound depth pre (inData r) must :=
  ⟨fun _ c a after start inside => h.takes _ c a after start ⟨inside.finish, inside.tokens⟩,
    fun _ c stop start inside => h.stops _ c stop start ⟨inside.finish, inside.tokens⟩⟩

theorem Paced.inGraph (h : Paced bound depth pre r must) {graph : Term} :
    Paced bound depth pre (inGraph graph r) must :=
  ⟨fun _ c a after start inside => h.takes _ c a after start ⟨inside.finish, inside.tokens⟩,
    fun _ c stop start inside => h.stops _ c stop start ⟨inside.finish, inside.tokens⟩⟩

theorem paced_ite {condition : Prop} [Decidable condition] {r' : Reader α}
    (h : condition → Paced bound depth pre r must) (h' : ¬ condition → Paced bound depth pre r' must) :
    Paced bound depth pre (if condition then r else r') must := by
  split
  · exact h ‹_›
  · exact h' ‹_›

theorem ahead_paced (n : Nat) {f : Option Lexeme → Reader β}
    (h : ∀ l, Paced bound depth (fun c => pre c ∧ Ahead n l c) (f l) must') :
    Paced bound depth pre (ahead? n >>= f) must' :=
  ⟨fun scope c b after start inside made => (h _).takes scope c b after ⟨start, rfl⟩ inside made,
    fun scope c stop start inside made => (h _).stops scope c stop ⟨start, rfl⟩ inside made⟩

theorem peek_paced {f : Option Lexeme → Reader β} (h : ∀ l, Paced bound depth (fun c => pre c ∧ upcoming c = l) (f l) must') :
    Paced bound depth pre (peek? >>= f) must' := ahead_paced 0 h

theorem look_paced {test : Option Lexeme → Bool} {f : Bool → Reader β}
    (h : ∀ l, Paced bound depth (fun c => pre c ∧ upcoming c = l) (f (test l)) must') :
    Paced bound depth pre ((do return test (← peek?)) >>= f) must' :=
  ⟨fun scope c b after start inside made => (h _).takes scope c b after ⟨start, rfl⟩ inside made,
    fun scope c stop start inside made => (h _).stops scope c stop ⟨start, rfl⟩ inside made⟩

theorem onTriple_paced {f : Bool → Reader β} (yes : Paced bound depth AtTriple (f true) must')
    (no : Paced bound depth (fun c => pre c ∧ ¬ AtTriple c) (f false) must') :
    Paced bound depth pre (onTriple >>= f) must' := by
  have looked : ∀ scope c, (onTriple >>= f) scope c =
      f (startsTriple (upcoming c) ((c.tokens[1]?).map (·.lexeme))) scope c := fun _ _ => rfl
  constructor
  · intro scope c b after start inside made
    rw [looked] at made
    by_cases at_ : AtTriple c
    · rw [at_] at made
      exact yes.takes scope c b after at_ inside made
    · rw [Bool.eq_false_iff.2 at_] at made
      exact no.takes scope c b after ⟨start, at_⟩ inside made
  · intro scope c stop start inside made
    rw [looked] at made
    by_cases at_ : AtTriple c
    · rw [at_] at made
      exact yes.stops scope c stop at_ inside made
    · rw [Bool.eq_false_iff.2 at_] at made
      exact no.stops scope c stop ⟨start, at_⟩ inside made

theorem cursor_paced {f : Cursor → Reader β}
    (h : ∀ c, (∀ t ∈ c.tokens, t.offset ≤ bound) → Paced bound depth (fun d => pre d ∧ d = c) (f c) must') :
    Paced bound depth pre (cursor >>= f) must' :=
  ⟨fun scope c b after start inside made => (h c inside.tokens).takes scope c b after ⟨start, rfl⟩ inside made,
    fun scope c stop start inside made => (h c inside.tokens).stops scope c stop ⟨start, rfl⟩ inside made⟩

theorem scope_paced {f : Scope → Reader β} (h : ∀ s, Paced bound depth pre (f s) must') :
    Paced bound depth pre (scope >>= f) must' :=
  ⟨fun scope c b after start inside made => (h scope).takes scope c b after start inside made,
    fun scope c stop start inside made => (h scope).stops scope c stop start inside made⟩

theorem Paced.at {c : Cursor} (h : Paced bound (c.tokens.length + 1) Anywhere r must) :
    Paced bound depth (fun d => pre d ∧ d = c) r must := by
  constructor
  · exact fun scope d a after _ inside made => h.takes scope d a after trivial inside made
  · rintro scope d stop ⟨-, rfl⟩ inside made
    exact (h.stops scope d stop trivial inside made).imp_right fun deep _ => deep (Nat.lt_succ_self _)

theorem update_paced {g : Cursor → Cursor} (same : ∀ c, (g c).tokens = c.tokens) :
    Paced bound depth pre (update g) Perhaps := by
  refine ⟨?_, fun _ _ _ _ _ made => by cases made⟩
  rintro scope c a after - - made
  cases made
  exact ⟨same c ▸ List.suffix_rfl, False.elim⟩

theorem skip_paced : Paced bound depth pre skip Perhaps := by
  refine ⟨?_, fun _ _ _ _ _ made => by cases made⟩
  rintro scope c a after - - made
  cases made
  exact ⟨List.tail_suffix _, False.elim⟩

theorem skip_next {l : Lexeme} : Paced bound depth (fun c => pre c ∧ upcoming c = some l) skip Always := by
  refine ⟨?_, fun _ _ _ _ _ made => by cases made⟩
  rintro scope c a after ⟨-, next⟩ - made
  cases made
  refine ⟨List.tail_suffix _, fun _ => ?_⟩
  unfold upcoming at next
  change c.tokens.tail.length < c.tokens.length
  cases tokens : c.tokens with
  | nil =>
    rw [tokens] at next
    cases next
  | cons t rest => exact Nat.lt_succ_self _

def accept (test : Option Lexeme → Bool) : Reader Bool := do
  if ← (do return test (← peek?)) then
    skip
    return true
  else return false

theorem accept_bind (test : Option Lexeme → Bool) (f : Bool → Reader β) (scope : Scope) (c : Cursor) :
    (accept test >>= f) scope c =
      if test (upcoming c) = true then f true scope { c with tokens := c.tokens.tail } else f false scope c := by
  change ((if test (upcoming c) = true then do skip; return true else return false : Reader Bool) >>= f) scope c = _
  split <;> rfl

theorem accept_paced {test : Option Lexeme → Bool} (none_ : test none = false) {f : Bool → Reader β}
    (yes : Paced bound depth Anywhere (f true) Perhaps)
    (no : Paced bound depth (fun c => pre c ∧ test (upcoming c) = false) (f false) must') :
    Paced bound depth pre (accept test >>= f) must' := by
  have taken : Paced bound depth (fun c => pre c ∧ test (upcoming c) = true) (skip >>= fun _ => f true) must' := by
    have takes : Paced bound depth (fun c => pre c ∧ test (upcoming c) = true) skip Always := by
      refine ⟨fun scope c a after start inside made => ?_, skip_paced.stops⟩
      cases next : upcoming c with
      | none =>
        rw [next, none_] at start
        cases start.2
      | some l =>
        have taken : Paced bound depth (fun c => pre c ∧ upcoming c = some l) skip Always := skip_next
        exact taken.takes scope c a after ⟨start.1, next⟩ inside made
    exact takes.begins fun _ => yes
  constructor
  · intro scope c b after start inside made
    rw [accept_bind] at made
    split at made
    · rename_i passes
      exact taken.takes scope c b after ⟨start, passes⟩ inside made
    · rename_i passes
      exact no.takes scope c b after ⟨start, Bool.eq_false_iff.2 passes⟩ inside made
  · intro scope c stop start inside made
    rw [accept_bind] at made
    split at made
    · rename_i passes
      exact taken.stops scope c stop ⟨start, passes⟩ inside made
    · rename_i passes
      exact no.stops scope c stop ⟨start, Bool.eq_false_iff.2 passes⟩ inside made

theorem acceptSymbol_paced {s : Symbol} {f : Bool → Reader β} (yes : Paced bound depth Anywhere (f true) Perhaps)
    (no : Paced bound depth (fun c => pre c ∧ isSymbol s (upcoming c) = false) (f false) must') :
    Paced bound depth pre (acceptSymbol s >>= f) must' := accept_paced rfl yes no

theorem acceptWord_paced {w : Text} {f : Bool → Reader β} (yes : Paced bound depth Anywhere (f true) Perhaps)
    (no : Paced bound depth (fun c => pre c ∧ isWord w (upcoming c) = false) (f false) must') :
    Paced bound depth pre (acceptWord w >>= f) must' := accept_paced rfl yes no

theorem acceptTag_eq (tag : Text) : acceptTag tag = accept fun l => decide (l = some (.tag tag)) := by
  funext scope c
  change (if upcoming c = some (.tag tag) then _ else _ : Reader Bool) scope c =
    (if decide (upcoming c = some (.tag tag)) = true then _ else _ : Reader Bool) scope c
  simp only [decide_eq_true_eq]

theorem acceptTag_paced {tag : Text} {f : Bool → Reader β} (yes : Paced bound depth Anywhere (f true) Perhaps)
    (no : Paced bound depth pre (f false) must') : Paced bound depth pre (acceptTag tag >>= f) must' := by
  rw [acceptTag_eq]
  exact accept_paced rfl yes (no.started fun _ => And.left)

theorem discard_paced (h : Paced bound depth pre r must) : Paced bound depth pre (discard r) Perhaps :=
  h.then fun _ => pure_paced id

theorem accept_perhaps {test : Option Lexeme → Bool} : Paced bound depth pre (accept test) Perhaps := by
  refine look_paced fun _ => paced_ite (fun _ => ?_) fun _ => pure_paced id
  exact skip_paced.then fun _ => pure_paced id

theorem acceptSymbol_perhaps {s : Symbol} : Paced bound depth pre (acceptSymbol s) Perhaps := accept_perhaps

theorem acceptWord_perhaps {w : Text} : Paced bound depth pre (acceptWord w) Perhaps := accept_perhaps

theorem expectSymbol_paced {s : Symbol} : Paced bound depth pre (expectSymbol s) Always :=
  acceptSymbol_paced (pure_paced id) (fail_paced nofun)

theorem expectWord_paced {w : Text} : Paced bound depth pre (expectWord w) Always :=
  acceptWord_paced (pure_paced id) (fail_paced nofun)

/-- What every round of a loop keeps. The fuel is more than there are tokens, and each round but the last
takes one. -/
theorem iterate_paced {step : α → Reader (ForInStep α)} (round : ∀ a, Paced bound depth Anywhere (step a) Continues)
    (fuel : Nat) (a : α) :
    Paced bound depth (fun c => c.tokens.length < fuel) (iterate step fuel a) Perhaps := by
  induction fuel generalizing a with
  | zero => exact ⟨fun _ _ _ _ few => absurd few (Nat.not_lt_zero _), fun _ _ _ few => absurd few (Nat.not_lt_zero _)⟩
  | succ fuel ih =>
    refine (round a).anywhere.bind (fun _ => depth) (fun _ => Perhaps) (fun next => ?_) (fun _ => .inl (Nat.le_refl _))
      fun _ _ => False.elim
    cases next with
    | yield b =>
      refine (ih b).started ?_
      rintro mid ⟨c, few, took⟩
      have less := took trivial
      omega
    | done b => exact pure_paced id

theorem loop_paced {step : α → Reader (ForInStep α)} (round : ∀ a, Paced bound depth Anywhere (step a) Continues)
    {a : α} : Paced bound depth pre (loop step a) Perhaps :=
  cursor_paced fun c _ => (iterate_paced round (c.tokens.length + 1) a).started fun d own => by
    rw [own.2]
    exact Nat.lt_succ_self _

theorem loop_paced_first {step : α → Reader (ForInStep α)} {a : α} (first : Paced bound depth pre (step a) Always)
    (round : ∀ a, Paced bound depth Anywhere (step a) Continues) : Paced bound depth pre (loop step a) must := by
  refine cursor_paced fun c _ => ?_
  refine (first.started fun _ => And.left).bind (fun _ => depth) (fun _ => Perhaps) (fun next => ?_)
    (fun _ => .inl (Nat.le_refl _)) fun _ _ _ => .inl trivial
  cases next with
  | yield b =>
    refine (iterate_paced round _ b).started ?_
    rintro mid ⟨d, ⟨-, rfl⟩, took⟩
    exact took trivial
  | done b => exact pure_paced id

end QuadStore.Sparql.Reader
