import QuadStore.Proofs.NamesApart

namespace QuadStore.Sparql

open Sparql.Tree

/-- A tree that a text is written as: its leaves are the names and strings of the text, in order, and what
is read from it is what the text is read as. -/
structure Request.HasTree (query : Text) (tree : Tree.Request) : Prop where
  items : ∃ tokens, Token.scan query = .ok tokens ∧
    tree.leaves.filterMap Leaf.item? = Item.ofLexemes 0 (tokens.map (·.lexeme))
  content : ∃ request, Request.read query = .ok request ∧
    request.content = tree.content (.whole false .defaultGraph query.length)

/-- How a selection of everything begins. -/
inductive Starred : List Lexeme → Prop
  | all {select : Lexeme} (selects : Reader.isWord "SELECT" (some select) = true) : Starred [select, .symbol .star]
  | marked {select mark : Lexeme} (selects : Reader.isWord "SELECT" (some select) = true)
    (marks : Reader.isWord "DISTINCT" (some mark) = true ∨ Reader.isWord "REDUCED" (some mark) = true) :
    Starred [select, mark, .symbol .star]

namespace Reader

def Upcoming (ls : List Lexeme) (c : Cursor) : Prop := ls <+: c.tokens.map (·.lexeme)

instance (ls : List Lexeme) (c : Cursor) : Decidable (Upcoming ls c) :=
  inferInstanceAs (Decidable (ls <+: c.tokens.map (·.lexeme)))

def SelectsAll (query : Text) : Prop :=
  ∃ tokens c ls, Token.scan query = .ok tokens ∧
    prologue (.whole false .defaultGraph query.length) { tokens } = .ok ((), c) ∧ Starred ls ∧ Upcoming ls c

theorem selectsAll_of_begins {query : Text} {ls : List Lexeme} (starred : Starred ls)
    (begins : (match Token.scan query with
      | .ok tokens => match prologue (.whole false .defaultGraph query.length) { tokens } with
        | .ok (_, c) => decide (Upcoming ls c)
        | .error _ => false
      | .error _ => false) = true) : SelectsAll query := by
  split at begins
  · rename_i tokens scanned
    split at begins
    · rename_i c declared
      exact ⟨tokens, c, ls, scanned, declared, starred, of_decide_eq_true begins⟩
    · cases begins
  · cases begins

variable {β : Type} {K : Knowledge} {scope : Scope} {Q : List Leaf → β → Prop} {f : Bool → Reader β} {l : Lexeme}
  {ls : List Lexeme} {w : Text}

theorem Upcoming.head {c : Cursor} (h : Upcoming (l :: ls) c) : (c.tokens[0]?).map (·.lexeme) = some l := by
  obtain ⟨rest, same⟩ := h
  rw [← List.getElem?_map, ← same]
  rfl

theorem Upcoming.tail {c : Cursor} (h : Upcoming (l :: ls) c) : Upcoming ls { c with tokens := c.tokens.tail } := by
  obtain ⟨rest, same⟩ := h
  refine ⟨rest, ?_⟩
  rw [List.map_tail, ← same]
  rfl

theorem acceptWord_taken (word : isWord w (some l) = true) (h : Builds K scope (Upcoming ls) (f true) Q) :
    Builds K scope (Upcoming (l :: ls)) (acceptWord w >>= f) Q := by
  refine (acceptWord_quiet w).bind_after fun taken leaves quiet => ?_
  cases quiet
  rintro c b last known ⟨before, next, took⟩ made
  have accepted : acceptWord w scope before = .ok (true, { before with tokens := before.tokens.tail }) := by
    change (if isWord w ((before.tokens[0]?).map (·.lexeme)) then _ else _ : Reader Bool) scope before = _
    rw [next.head, if_pos word]
    rfl
  cases accepted.symm.trans took
  exact h _ b last known next.tail made

theorem acceptWord_left (other : isWord w (some l) = false) (h : Builds K scope (Upcoming (l :: ls)) (f false) Q) :
    Builds K scope (Upcoming (l :: ls)) (acceptWord w >>= f) Q := by
  refine (acceptWord_quiet w).bind_after fun taken leaves quiet => ?_
  cases quiet
  rintro c b last known ⟨before, next, took⟩ made
  have rejected : acceptWord w scope before = .ok (false, before) := by
    change (if isWord w ((before.tokens[0]?).map (·.lexeme)) then _ else _ : Reader Bool) scope before = _
    rw [next.head, if_neg (by rw [other]; exact Bool.false_ne_true)]
    rfl
  cases rejected.symm.trans took
  exact h _ b last known next made

theorem projected_star : Builds K scope (Upcoming [.symbol .star]) projected? fun leaves chosen =>
    leaves = [] ∧ chosen = none := by
  refine (acceptSymbol_quiet (by decide)).bind_after fun taken leaves quiet => ?_
  cases quiet
  rintro c b last known ⟨before, next, took⟩ made
  have accepted : acceptSymbol .star scope before = .ok (true, { before with tokens := before.tokens.tail }) := by
    change (if isSymbol .star ((before.tokens[0]?).map (·.lexeme)) then _ else _ : Reader Bool) scope before = _
    rw [next.head]
    rfl
  cases accepted.symm.trans took
  have everything : Builds K scope Anywhere (pure (none : Option (List Text))) fun leaves chosen =>
      leaves = [] ∧ chosen = none := builds_pure ⟨rfl, rfl⟩
  exact everything _ b last known trivial made

structure StarQuery where
  isDistinct : Bool
  isReduced : Bool
  pattern : Tree.Group
  shape : Shape

def StarQuery.query (t : StarQuery) : Query := .select t.isDistinct t.isReduced none t.pattern t.shape

theorem selectQuery_star (begins : ls = [.symbol .star] ∨ ∃ mark, ls = [mark, .symbol .star] ∧
      (isWord "DISTINCT" (some mark) = true ∨ isWord "REDUCED" (some mark) = true)) :
    Builds K scope (Upcoming ls) selectQuery
      (Written (fun t : StarQuery => t.query.leaves) fun t => t.query.root scope) := by
  have rest : ∀ isDistinct isReduced, Builds K scope (Upcoming [.symbol .star]) (do
      let chosen ← projected?
      let pattern ← ordered (← whereClause)
      sliced (wrapped isDistinct isReduced (.project (chosen.getD pattern.inScope) pattern)))
      (Written (fun t : StarQuery => t.query.leaves) fun t => t.query.root scope) := by
    intro isDistinct isReduced
    refine projected_star.bind fun chosen leaves ⟨own, none_⟩ => ?_
    subst own none_
    refine whereClause_builds.reads fun g => ?_
    refine (ordered_builds _).reads fun order => (sliced_builds _).weaken fun _ _ ⟨bounds, own, same⟩ => ?_
    exact ⟨⟨isDistinct, isReduced, g, order, bounds.1, bounds.2⟩, by
      rw [own, List.append_nil]
      rfl, same⟩
  rcases begins with rfl | ⟨mark, rfl, marks⟩
  · exact acceptWord_left rfl (acceptWord_left rfl (rest false false))
  · cases distinct : isWord "DISTINCT" (some mark) with
    | true => exact acceptWord_taken distinct (rest true false)
    | false =>
      rw [distinct] at marks
      exact acceptWord_left distinct (acceptWord_taken (marks.resolve_left Bool.false_ne_true) (rest false true))

theorem content_star {c : Cursor} (starred : Starred ls) (next : Upcoming ls c) :
    Builds K scope (fun start => prologue scope start = .ok ((), c)) content
      (Written (fun t : StarQuery => t.query.leaves) fun t => .query (t.query.root scope)) := by
  refine prologue_quiet.bind_after fun _ leaves quiet => ?_
  cases quiet
  have reached : ∀ after, (∃ start, prologue scope start = .ok ((), c) ∧ prologue scope start = .ok ((), after)) →
      Upcoming ls after := by
    rintro after ⟨start, first, again⟩
    cases first.symm.trans again
    exact next
  refine Builds.started ?_ reached
  cases starred with
  | all selects =>
    refine acceptWord_taken selects ?_
    exact (selectQuery_star (.inl rfl)).gives id (fun _ => rfl) fun _ => rfl
  | marked selects marks =>
    refine acceptWord_taken selects ?_
    exact (selectQuery_star (.inr ⟨_, rfl, marks⟩)).gives id (fun _ => rfl) fun _ => rfl

end Reader

open Reader

theorem Request.hasTree_of_star {query : Text} {request : Request} (read : Request.read query = .ok request)
    (star : SelectsAll query) :
    ∃ isDistinct isReduced pattern shape, HasTree query (.query (.select isDistinct isReduced none pattern shape)) := by
  obtain ⟨tokens, c, ls, scanned, declared, starred, next⟩ := star
  obtain ⟨leaves, items, -, t, rfl, same⟩ :=
    read_builds (K := anyKnowledge) (content_star starred next) read scanned (fun _ _ => trivial) declared
  exact ⟨t.isDistinct, t.isReduced, t.pattern, t.shape, ⟨tokens, scanned, items⟩, request, read, same⟩

end QuadStore.Sparql
