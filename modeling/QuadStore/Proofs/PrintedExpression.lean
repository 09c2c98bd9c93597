import QuadStore.Proofs.ExpressionText
import QuadStore.Proofs.RawConditions
import QuadStore.Sparql.Request

namespace QuadStore.Sparql

open Token

theorem Operator.level_le (op : Operator) : op.level ≤ 4 := by
  cases op <;> decide

namespace Expression

variable {e : Expression} {k : Nat}

theorem level_le (e : Expression) : e.level ≤ 6 := by
  cases e with
  | binary op => exact Nat.le_trans op.level_le (by decide)
  | _ => simp [level]

theorem pieces_eq (e : Expression) (bound : k ≤ 6) : e.pieces k = Piece.enclosed (e.level < k) (e.pieces 0) := by
  have never : ¬ 6 < k := Nat.not_lt.2 bound
  cases e with
  | binary | negation | opposite | member => rw [pieces, pieces]; rfl
  | _ => simp [pieces, level, Piece.enclosed, never]

theorem lexemes_of_le (tight : k ≤ e.level) (bound : k ≤ 6) : e.lexemes k = e.lexemes 0 := by
  rw [lexemes, pieces_eq e bound]
  simp [Piece.enclosed, Nat.not_lt.2 tight, lexemes]

theorem lexemes_of_lt (loose : e.level < k) (bound : k ≤ 6) :
    e.lexemes k = .symbol .openParen :: (e.lexemes 0 ++ [.symbol .closeParen]) := by
  rw [lexemes, pieces_eq e bound]
  simp [Piece.enclosed, loose, lexemes, Piece.lexemes]

theorem lexemes_binary (op : Operator) (left right : Expression) :
    (binary op left right).lexemes 0 =
      left.lexemes op.leftLevel ++ .symbol op.symbol :: right.lexemes (op.level + 1) := by
  simp [lexemes, pieces, Piece.enclosed, Piece.lexemes]

def listedLexemes (es : List Expression) : List Lexeme := (listed es).flatMap Piece.lexemes

def followingLexemes (es : List Expression) : List Lexeme := (following es).flatMap Piece.lexemes

theorem listedLexemes_cons (e : Expression) (es : List Expression) :
    listedLexemes (e :: es) = e.lexemes 0 ++ followingLexemes es := by
  simp [listedLexemes, listed, lexemes, followingLexemes]

theorem followingLexemes_cons (e : Expression) (es : List Expression) :
    followingLexemes (e :: es) = .symbol .comma :: (e.lexemes 0 ++ followingLexemes es) := by
  simp [followingLexemes, following, lexemes, Piece.lexemes]

def argumentLexemes (es : List Expression) : List Lexeme :=
  .symbol .openParen :: (listedLexemes es ++ [.symbol .closeParen])

theorem length_listed_le_following (es : List Expression) :
    (listedLexemes es).length ≤ (followingLexemes es).length := by
  cases es with
  | nil => exact Nat.le_refl _
  | cons e es =>
    rw [listedLexemes_cons, followingLexemes_cons]
    exact Nat.le_succ _

theorem length_le_listed {es : List Expression} (mem : e ∈ es) :
    (e.lexemes 0).length ≤ (listedLexemes es).length := by
  induction es with
  | nil => cases mem
  | cons e' es ih =>
    rw [listedLexemes_cons, List.length_append]
    rcases List.mem_cons.1 mem with rfl | mem
    · exact Nat.le_add_right _ _
    · exact Nat.le_trans (ih mem) (Nat.le_trans (length_listed_le_following es) (Nat.le_add_left _ _))

def memberWords (negated : Bool) : List Lexeme := if negated then [.word "NOT", .word "IN"] else [.word "IN"]

theorem lexemes_member (negated : Bool) (e : Expression) (values : List Expression) :
    (member negated e values).lexemes 0 = e.lexemes 3 ++ (memberWords negated ++ argumentLexemes values) := by
  cases negated <;>
    simp [lexemes, pieces, Piece.enclosed, Piece.lexemes, memberWords, argumentLexemes, listedLexemes]

theorem lexemes_builtin (f : Builtin) (arguments : List Expression) :
    (builtin f arguments).lexemes 0 = .word f.name :: argumentLexemes arguments := by
  simp [lexemes, pieces, Piece.lexemes, argumentLexemes, listedLexemes]

theorem lexemes_call (value : Text) (arguments : List Expression) :
    (call (.iri value) arguments).lexemes 0 = .iri value :: argumentLexemes arguments := by
  simp [lexemes, pieces, Piece.lexemes, argumentLexemes, listedLexemes, Term.lexemes]

def BeginsPrimary (ls : List Lexeme) : Prop :=
  ∃ l rest, ls = l :: rest ∧ Reader.isNumber (some l) = false ∧
    ∀ s ∈ ([.bang, .plus, .minus, .closeParen] : List Symbol), l ≠ .symbol s

theorem begins_term {t : Term} (h : t.Printable) : BeginsPrimary t.lexemes := by
  have literal : ∀ lexical kind, BeginsPrimary (Term.lexemes (.literal lexical kind)) := by
    intro lexical kind
    cases kind <;> exact ⟨_, _, rfl, rfl, fun _ _ => nofun⟩
  cases h with
  | var | iri => exact ⟨_, _, rfl, rfl, fun _ _ => nofun⟩
  | plain | tagged | typed => exact literal _ _

theorem begins_primary (h : e.Printable) : BeginsPrimary (e.lexemes 6) := by
  rcases Nat.lt_or_ge e.level 6 with loose | tight
  · rw [lexemes_of_lt loose (Nat.le_refl 6)]
    exact ⟨_, _, rfl, rfl, by decide⟩
  · rw [lexemes_of_le tight (Nat.le_refl 6)]
    cases h with
    | term h => simpa [lexemes, pieces, Piece.lexemes] using begins_term h
    | builtin f all =>
      rw [lexemes_builtin]
      exact ⟨_, _, rfl, rfl, fun _ _ => nofun⟩
    | call i all =>
      rw [lexemes_call]
      exact ⟨_, _, rfl, rfl, fun _ _ => nofun⟩
    | binary op => cases op <;> exact absurd tight (by simp [level, Operator.level])
    | _ => exact absurd tight (by simp [level])

def Opens (ls : List Lexeme) : Prop := ∃ l rest, ls = l :: rest ∧ l ≠ .symbol .closeParen

theorem Opens.append {ls : List Lexeme} (h : Opens ls) (ls' : List Lexeme) : Opens (ls ++ ls') := by
  obtain ⟨l, rest, rfl, other⟩ := h
  exact ⟨l, rest ++ ls', rfl, other⟩

theorem opens (h : e.Printable) : ∀ k ≤ 6, Opens (e.lexemes k) := by
  have enough : ∀ {e : Expression}, Opens (e.lexemes 0) → ∀ k ≤ 6, Opens (e.lexemes k) := by
    intro e bare k bound
    rcases Nat.lt_or_ge e.level k with loose | tight
    · rw [lexemes_of_lt loose bound]
      exact ⟨_, _, rfl, by decide⟩
    · rw [lexemes_of_le tight bound]
      exact bare
  have primary : ∀ {e : Expression}, e.Printable → e.level = 6 → Opens (e.lexemes 0) := by
    intro e h tight
    obtain ⟨l, rest, split, -, other⟩ := begins_primary h
    rw [← lexemes_of_le (Nat.le_of_eq tight.symm) (Nat.le_refl 6)]
    exact ⟨l, rest, split, other _ (by decide)⟩
  induction h with
  | term h => exact enough (primary (.term h) rfl)
  | binary op hl hr ihl ihr =>
    refine enough ?_
    rw [lexemes_binary]
    exact (ihl op.leftLevel (by cases op <;> decide)).append _
  | negation h ih => exact enough ⟨_, _, rfl, by decide⟩
  | opposite h ih => exact enough ⟨_, _, rfl, by decide⟩
  | member negated h all ih =>
    refine enough ?_
    rw [lexemes_member]
    exact (ih 3 (by decide)).append _
  | builtin f all => exact enough (primary (.builtin f all) rfl)
  | call i all => exact enough (primary (.call i all) rfl)

end Expression

namespace Reader

def ofLevel (nested : Nested) : Nat → Reader Expression
  | 0 => disjunction nested
  | 1 => chain [.and] (comparison nested)
  | 2 => comparison nested
  | 3 => sum nested
  | 4 => product nested
  | 5 => unary nested
  | _ => primary nested

inductive Links : Nat → List Operator → Prop
  | or : Links 0 [.or]
  | and : Links 1 [.and]
  | sum : Links 3 [.add, .sub]
  | product : Links 4 [.mul, .div]

inductive Follows (k : Nat) : Option Lexeme → Prop
  | close : Follows k (some (.symbol .closeParen))
  | comma : Follows k (some (.symbol .comma))
  | operator (op : Operator) (looser : op.level < k) : Follows k (some (.symbol op.symbol))
  | word (w : Text) (negation : w = "IN" ∨ w = "NOT") (looser : 2 < k) : Follows k (some (.word w))

variable {scope : Scope} {nested : Nested} {k : Nat} {choices : List Operator} {operand : Reader Expression}
  {ls ls' : List Lexeme} {e : Expression} {next next' : Option Lexeme → Prop}

theorem Links.ofLevel (links : Links k choices) : ofLevel nested k = chain choices (ofLevel nested (k + 1)) := by
  cases links <;> rfl

theorem links_of_level (op : Operator) (chained : op.level ≠ 2) : ∃ choices, Links op.level choices := by
  cases op with
  | or => exact ⟨_, .or⟩
  | and => exact ⟨_, .and⟩
  | add | sub => exact ⟨_, .sum⟩
  | mul | div => exact ⟨_, .product⟩
  | _ => exact absurd rfl chained

def finds (choices : List Operator) (l : Option Lexeme) : Option Operator :=
  choices.find? fun op => isSymbol op.symbol l

theorem Links.finds_level {op : Operator} (links : Links op.level choices) :
    finds choices (some (.symbol op.symbol)) = some op := by
  cases op <;> cases links <;> rfl

theorem Links.unique {choices' : List Operator} (links : Links k choices) (links' : Links k choices') :
    choices = choices' := by
  cases links <;> cases links' <;> rfl

theorem Follows.mono {l : Option Lexeme} (h : Follows k l) {m : Nat} (le : k ≤ m) : Follows m l := by
  cases h with
  | close => exact .close
  | comma => exact .comma
  | operator op looser => exact .operator op (Nat.lt_of_lt_of_le looser le)
  | word w negation looser => exact .word w negation (Nat.lt_of_lt_of_le looser le)

theorem Links.ends (links : Links k choices) {l : Option Lexeme} (h : Follows k l) : Reader.finds choices l = none := by
  cases h with
  | close | comma | word => cases links <;> rfl
  | operator op looser =>
    cases links <;> cases op <;> first | rfl | exact absurd looser (by decide)

theorem Takes.before {α β : Type} {r : Reader α} {f : α → Reader β} {a : α} {b : β} {l : Lexeme}
    (h : Takes scope r [l] a Any) (h' : Takes scope (f a) ls' b next') : Takes scope (r >>= f) (l :: ls') b next' :=
  h.bind h' fun _ _ => trivial

theorem takes_operator {op : Operator} (found : finds choices (some (.symbol op.symbol)) = some op) :
    Takes scope (operator? choices) [.symbol op.symbol] (some op) next := by
  refine (sees_first _ _).bind ?_
  unfold finds at found
  rw [found]
  exact (takes_pure _).skipping _

theorem sees_operator (none_ : ∀ l, next l → finds choices (ls.head?.or l) = none) :
    Sees scope (operator? choices) ls none next := by
  intro tokens rest fresh prefixes made may
  have found := none_ _ may
  unfold finds at found
  unfold operator?
  rw [bind_apply, sees_next tokens rest fresh prefixes made rfl]
  dsimp only
  rw [found]
  rfl

def link (choices : List Operator) (operand : Reader Expression) (left : Expression) :
    Reader (ForInStep Expression) := do
  match ← operator? choices with
  | some op => return .yield (.binary op left (← operand))
  | none => return .done left

/-- An expression is read by taking its leftmost operand, and then operators with their right operands:
whatever is read from there on can be read from the leftmost operand on. -/
def Chained (scope : Scope) (choices : List Operator) (operand : Reader Expression) (ls : List Lexeme)
    (e : Expression) (next : Option Lexeme → Prop) : Prop :=
  ∃ first ls₀ ls₁, ls = ls₀ ++ ls₁ ∧ Takes scope operand ls₀ first next ∧
    ∀ ls' e' next', (∀ l, next' l → next (ls'.head?.or l)) → Rounds scope (link choices operand) e ls' e' next' →
      (∀ l, next' l → next ((ls₁ ++ ls').head?.or l)) ∧
        Rounds scope (link choices operand) first (ls₁ ++ ls') e' next'

theorem Chained.single (h : Takes scope operand ls e next) : Chained scope choices operand ls e next :=
  ⟨e, ls, [], (List.append_nil ls).symm, h, fun _ _ _ joins rounds => ⟨joins, rounds⟩⟩

theorem Chained.extend {op : Operator} {right : Expression} (h : Chained scope choices operand ls e next)
    (found : finds choices (some (.symbol op.symbol)) = some op) (may : next (some (.symbol op.symbol)))
    (hr : Takes scope operand ls' right next) :
    Chained scope choices operand (ls ++ .symbol op.symbol :: ls') (.binary op e right) next := by
  obtain ⟨first, ls₀, ls₁, rfl, taken, extends_⟩ := h
  refine ⟨first, ls₀, ls₁ ++ .symbol op.symbol :: ls', List.append_assoc .., taken, ?_⟩
  intro more e' next' joins rounds
  have step : Takes scope (link choices operand e) (.symbol op.symbol :: ls') (.yield (.binary op e right)) next :=
    (takes_operator found).before (hr.gives (by rfl))
  have round := Rounds.more next step nofun rounds joins
  have whole := extends_ (.symbol op.symbol :: ls' ++ more) e' next' (fun _ _ => may) round
  rwa [← List.append_assoc] at whole

theorem Chained.takes (h : Chained scope choices operand ls e next) (ends : ∀ l, next' l → finds choices l = none)
    (weaker : ∀ l, next' l → next l) : Takes scope (chain choices operand) ls e next' := by
  obtain ⟨first, ls₀, ls₁, rfl, taken, extends_⟩ := h
  have last : Rounds scope (link choices operand) e [] e next' :=
    .last ((sees_operator ends).bind (takes_pure _))
  obtain ⟨joins, rounds⟩ := extends_ [] e next' weaker last
  rw [List.append_nil] at joins rounds
  exact taken.bind rounds.takes joins

theorem sees_membership (other : ∀ l, next l → ∀ w ∈ (["IN", "NOT"] : List Text), isWord w (ls.head?.or l) = false) :
    Sees scope membership? ls none next := by
  have reject : Sees scope (acceptWord "IN") ls false next :=
    sees_rejected (sees_onWord fun l may => other l may "IN" (by simp))
  intro tokens rest fresh prefixes made may
  unfold membership?
  rw [bind_apply, reject tokens rest fresh prefixes made may]
  change (peek? >>= _) scope _ = _
  rw [bind_apply, sees_next tokens rest fresh prefixes made rfl]
  dsimp only
  rw [other _ may "NOT" (by simp)]
  rfl

theorem Follows.isWord {l : Option Lexeme} (h : Follows 2 l) (w : Text) : isWord w l = false := by
  cases h with
  | word _ _ looser => exact absurd looser (by decide)
  | _ => rfl

theorem Follows.compares {l : Option Lexeme} (h : Follows 2 l) :
    finds [.eq, .ne, .lt, .gt, .le, .ge] l = none := by
  cases h with
  | close | comma | word => rfl
  | operator op looser => cases op <;> first | rfl | exact absurd looser (by decide)

theorem isSymbol_of_ne {s : Symbol} {l : Lexeme} (other : l ≠ .symbol s) : isSymbol s (some l) = false :=
  decide_eq_false fun same => other (Option.some.inj same)

theorem takes_looser (bound : k < 6) (primary : k = 5 → Expression.BeginsPrimary ls)
    (h : Takes scope (ofLevel nested (k + 1)) ls e (Follows (k + 1))) :
    Takes scope (ofLevel nested k) ls e (Follows k) := by
  have linked : ∀ choices, Links k choices → Takes scope (ofLevel nested k) ls e (Follows k) := by
    intro choices links
    rw [links.ofLevel]
    exact (Chained.single h).takes (fun _ => links.ends) fun _ follows => follows.mono (Nat.le_succ k)
  match k with
  | 0 => exact linked _ .or
  | 1 => exact linked _ .and
  | 3 => exact linked _ .sum
  | 4 => exact linked _ .product
  | 2 =>
    rw [← List.append_nil ls]
    refine Takes.bind h ?_ fun _ follows => follows.mono (by decide)
    refine (sees_operator fun _ => Follows.compares).bind ?_
    exact (sees_membership fun _ follows w _ => follows.isWord w).bind (takes_pure e)
  | 5 =>
    obtain ⟨l, rest, rfl, -, other⟩ := primary rfl
    have unsigned : ∀ s ∈ ([.bang, .plus, .minus, .closeParen] : List Symbol),
        Sees scope (acceptSymbol s) (l :: rest) false (Follows 5) := fun s mem =>
      sees_rejected (sees_onSymbol fun _ _ => isSymbol_of_ne (other s mem))
    refine (unsigned .bang (by decide)).bind ((unsigned .plus (by decide)).bind ((unsigned .minus (by decide)).bind ?_))
    exact h.weaken fun _ follows => follows.mono (by decide)

theorem takes_looser_of_le {m : Nat} (bound : m ≤ 6) (le : k ≤ m) (primary : m = 6 → Expression.BeginsPrimary ls)
    (h : Takes scope (ofLevel nested m) ls e (Follows m)) : Takes scope (ofLevel nested k) ls e (Follows k) := by
  induction le with
  | refl => exact h
  | @step m le ih =>
    refine ih (by omega) (by omega) (takes_looser bound (fun five => primary (congrArg _ five)) h)

theorem takes_parenthesized (h : Takes scope nested.expression ls e (Follows 0)) :
    Takes scope (parenthesized nested) (.symbol .openParen :: (ls ++ [.symbol .closeParen])) e Any := by
  refine Takes.skipping _ (h.bind ?_ fun _ _ => .close)
  exact (takes_expectSymbol .closeParen).gives (by rfl)

theorem takes_primary_parenthesized (h : Takes scope nested.expression ls e (Follows 0)) :
    Takes scope (primary nested) (.symbol .openParen :: (ls ++ [.symbol .closeParen])) e Any :=
  (sees_first _ _).bind (takes_parenthesized h)

def argument (nested : Nested) (found : List Expression) : Reader (ForInStep (List Expression)) := do
  let found := found ++ [← nested.expression]
  return if ← acceptSymbol .comma then .yield found else .done found

def Closes (l : Option Lexeme) : Prop := l = some (.symbol .closeParen)

theorem rounds_arguments (es : List Expression) (e : Expression) (found : List Expression)
    (each : ∀ a ∈ e :: es, Takes scope nested.expression (a.lexemes 0) a (Follows 0)) :
    Rounds scope (argument nested) found (e.lexemes 0 ++ Expression.followingLexemes es) (found ++ e :: es) Closes := by
  induction es generalizing e found with
  | nil =>
    refine .last ((each e List.mem_cons_self).bind ?_ ?_)
    · refine Sees.bind (sees_rejected (sees_onSymbol fun l closes => ?_)) (takes_pure _)
      rw [closes]
      rfl
    · rintro _ rfl
      exact .close
  | cons e' es ih =>
    obtain ⟨first, others⟩ := List.forall_mem_cons.1 each
    have rounds := ih e' (found ++ [e]) others
    have step : Takes scope (argument nested found) (e.lexemes 0 ++ [.symbol .comma]) (.yield (found ++ [e])) Any :=
      first.bind ((takes_acceptSymbol .comma).gives (by rfl)) fun _ _ => .comma
    rw [Expression.followingLexemes_cons]
    have whole := Rounds.more Any step (by simp) rounds fun _ _ => trivial
    simpa using whole

theorem takes_arguments (es : List Expression) (printable : ∀ a ∈ es, a.Printable)
    (each : ∀ a ∈ es, Takes scope nested.expression (a.lexemes 0) a (Follows 0)) :
    Takes scope (expressionList nested) (Expression.argumentLexemes es) es Any := by
  refine (takes_expectSymbol .openParen).bind ?_ fun _ _ => trivial
  cases es with
  | nil => exact (takes_acceptSymbol .closeParen).bind (takes_pure _) fun _ _ => trivial
  | cons e es =>
    obtain ⟨l, rest, begins_, other⟩ := Expression.opens (printable e List.mem_cons_self) 0 (by decide)
    rw [Expression.listedLexemes_cons]
    refine (sees_rejected (sees_onSymbol fun n _ => ?_)).bind ?_
    · rw [begins_]
      exact isSymbol_of_ne other
    · refine (rounds_arguments es e [] each).takes.bind ?_ fun _ _ => rfl
      exact (takes_expectSymbol .closeParen).gives (by rfl)

theorem Follows.literal {l : Option Lexeme} (h : Follows k l) (lexical : Text) :
    Takes scope (literal lexical) [] (.plain lexical) (· = l) := by
  refine takes_of_next fun _ same => ?_
  subst same
  refine sees_next.bind ?_
  cases h with
  | operator op _ => cases op <;> exact takes_pure _
  | _ => exact takes_pure _

theorem takes_string {lexical : Text} {t : Term} (h : Takes scope (literal lexical) ls t next) :
    Takes scope (primary nested) (.string lexical :: ls) (.term t) next := by
  have taken : Takes scope term (.string lexical :: ls) t next := (sees_first _ _).bind (h.skipping _)
  exact (sees_first _ _).bind (taken.gives (by rfl))

theorem takes_primary_term (query : scope.data = false) {t : Term} (h : t.Printable) :
    Takes scope (primary nested) t.lexemes (.term t) (Follows k) := by
  have plain : ∀ lexical, Takes scope (literal lexical) [] (.plain lexical) (Follows k) := fun lexical =>
    takes_of_next fun _ follows => follows.literal lexical
  cases h with
  | @var name legal ne_nil =>
    have taken : Takes scope term [.var name] (.var name) (Follows k) := by
      refine (sees_first _ _).bind (sees_scope.bind ?_)
      rw [query]
      exact (takes_pure _).skipping _
    exact (sees_first _ _).bind (taken.gives (by rfl))
  | iri i =>
    refine (sees_first _ _).bind ((takes_iri i).before ?_)
    have call : Sees scope (onSymbol .openParen) [] false (Follows k) := sees_onSymbol fun l follows => by
      cases follows with
      | operator op _ => cases op <;> rfl
      | _ => rfl
    exact call.bind (takes_pure _)
  | plain lexical => exact takes_string (plain lexical)
  | tagged lexical t =>
    have taken : Takes scope (literal lexical) [.tag t.value] (.tagged lexical t.value) (Follows k) :=
      takes_literal_tagged lexical _
    rw [Term.tagged, if_neg t.value_ne_nil] at taken ⊢
    exact takes_string taken
  | typed lexical i =>
    have taken : Takes scope (literal lexical) [.symbol .carets, .iri i.value] (.typed lexical i.value) Any :=
      takes_literal_typed lexical i
    unfold Term.typed at taken ⊢
    split
    · exact takes_string (plain lexical)
    · rename_i other
      rw [if_neg other] at taken
      exact (takes_string taken).weaken fun _ _ => trivial

theorem takes_call {es : List Expression} (i : IriText)
    (h : Takes scope (expressionList nested) (Expression.argumentLexemes es) es Any) :
    Takes scope (primary nested) (.iri i.value :: Expression.argumentLexemes es) (.call (.iri i.value) es) next := by
  refine (sees_first _ _).bind ((takes_iri i).bind ?_ fun _ _ => trivial)
  refine (sees_onSymbol fun _ _ => by rfl).bind ?_
  exact (h.gives (by rfl)).weaken fun _ _ => trivial

theorem builtin_name (f : Builtin) : f.name.lower = f.name ∧
    (∀ w ∈ (["true", "false", "exists", "not"] : List Text), f.name ≠ w) ∧ aggregates.contains f.name = false := by
  cases f <;> decide

theorem takes_builtin {es : List Expression} (f : Builtin)
    (h : Takes scope (expressionList nested) (Expression.argumentLexemes es) es Any) :
    Takes scope (primary nested) (.word f.name :: Expression.argumentLexemes es) (.builtin f es) next := by
  obtain ⟨lower, reserved, aggregate⟩ := builtin_name f
  refine (sees_first _ _).bind ((sees_second _ _ _).bind ?_)
  have word : wordExpression nested f.name.lower (some (.symbol .openParen)) =
      (do skip; return .builtin f (← expressionList nested)) := by
    rw [lower]
    unfold wordExpression
    rw [if_neg (by simp [reserved "true", reserved "false"]), if_neg (reserved "exists" (by simp)),
      if_neg (by simp [reserved "not"]), aggregate, if_neg Bool.false_ne_true, Builtin.ofName?_name]
  rw [word]
  exact ((h.gives (by rfl)).skipping _).weaken fun _ _ => trivial

theorem takes_membership (negated : Bool) :
    Takes scope membership? (Expression.memberWords negated) (some negated) Any := by
  cases negated with
  | false => exact (takes_acceptWord "IN").bind (takes_pure _) fun _ _ => trivial
  | true =>
    have other : Sees scope (acceptWord "IN") [.word "NOT", .word "IN"] false Any :=
      sees_rejected (sees_onWord fun _ _ => by rfl)
    refine other.bind ((sees_first _ _).bind ((sees_second _ _ _).bind ?_))
    exact (takes_pure _).skipping _ |>.skipping _

/-- An expression is read at every level, and at the levels that group to the left it can be read as a
left operand. The depth bounds how far brackets can be nested. -/
def Reads (scope : Scope) (e : Expression) : Prop :=
  ∀ depth k, k ≤ 6 → (e.lexemes k).length ≤ depth →
    Takes scope (ofLevel (nestedTo depth) k) (e.lexemes k) e (Follows k) ∧
    ∀ choices, Links k choices →
      Chained scope choices (ofLevel (nestedTo depth) (k + 1)) (e.lexemes k) e (Follows (k + 1))

theorem Links.bound (links : Links k choices) : k < 6 := by
  cases links <;> decide

/-- An expression is read at every level if it is read at its own. -/
theorem reads_of_level (printable : e.Printable)
    (own : ∀ depth, (e.lexemes 0).length ≤ depth →
      Takes scope (ofLevel (nestedTo depth) e.level) (e.lexemes 0) e (Follows e.level) ∧
      ∀ choices, Links e.level choices →
        Chained scope choices (ofLevel (nestedTo depth) (e.level + 1)) (e.lexemes 0) e (Follows (e.level + 1))) :
    Reads scope e := by
  have bare : ∀ depth, (e.lexemes 0).length ≤ depth → ∀ k, k ≤ e.level →
      Takes scope (ofLevel (nestedTo depth) k) (e.lexemes 0) e (Follows k) := by
    intro depth enough k tight
    refine takes_looser_of_le e.level_le tight (fun six => ?_) (own depth enough).1
    rw [← Expression.lexemes_of_le (Nat.le_of_eq six.symm) (Nat.le_refl 6)]
    exact Expression.begins_primary printable
  have takes : ∀ depth k, k ≤ 6 → (e.lexemes k).length ≤ depth →
      Takes scope (ofLevel (nestedTo depth) k) (e.lexemes k) e (Follows k) := by
    intro depth k bound enough
    rcases Nat.lt_or_ge e.level k with loose | tight
    · rw [Expression.lexemes_of_lt loose bound] at enough ⊢
      cases depth with
      | zero => cases enough
      | succ depth =>
        -- inside the parentheses there are fewer brackets
        have inside : Takes scope (nestedTo (depth + 1)).expression (e.lexemes 0) e (Follows 0) :=
          bare depth (by simp at enough; omega) 0 (Nat.zero_le _)
        refine takes_looser_of_le (Nat.le_refl 6) bound (fun _ => ⟨_, _, rfl, rfl, by decide⟩) ?_
        exact (takes_primary_parenthesized inside).weaken fun _ _ => trivial
    · rw [Expression.lexemes_of_le tight bound] at enough ⊢
      exact bare depth enough k tight
  intro depth k bound enough
  refine ⟨takes depth k bound enough, fun choices links => ?_⟩
  rcases Nat.lt_trichotomy k e.level with tighter | same | looser
  · rw [Expression.lexemes_of_le (Nat.le_of_lt tighter) bound] at enough ⊢
    exact .single (bare depth enough (k + 1) tighter)
  · subst same
    rw [Expression.lexemes_of_le (Nat.le_refl _) bound] at enough ⊢
    exact (own depth enough).2 choices links
  · have same : e.lexemes (k + 1) = e.lexemes k := by
      rw [Expression.lexemes_of_lt looser bound, Expression.lexemes_of_lt (Nat.lt_succ_of_lt looser) links.bound]
    have tight := takes depth (k + 1) links.bound (by rw [same]; exact enough)
    rw [same] at tight
    exact .single tight

theorem reads_binary (op : Operator) {left right : Expression} (hl : Reads scope left) (hr : Reads scope right)
    (printable : (Expression.binary op left right).Printable) : Reads scope (.binary op left right) := by
  refine reads_of_level printable fun depth enough => ?_
  rw [Expression.lexemes_binary] at enough ⊢
  rw [List.length_append, List.length_cons] at enough
  have low := Operator.level_le op
  have rightward := (hr depth (op.level + 1) (by omega) (by omega)).1
  by_cases compares : op.level = 2
  · -- comparisons do not chain: both operands are sums
    have level : (Expression.binary op left right).level = 2 := compares
    rw [Operator.leftLevel, if_pos compares, compares] at enough ⊢
    rw [compares] at rightward
    rw [level]
    refine ⟨?_, fun choices links => by cases links⟩
    have leftward := (hl depth 3 (by decide) (by omega)).1
    have found : finds [.eq, .ne, .lt, .gt, .le, .ge] (some (.symbol op.symbol)) = some op := by
      cases op <;> first | rfl | exact absurd compares (by decide)
    refine leftward.bind ?_ fun _ _ => .operator op (by omega)
    refine (takes_operator found).before ?_
    exact (rightward.gives (by rfl)).weaken fun _ (follows : Follows 2 _) => follows.mono (by decide)
  · obtain ⟨choices, links⟩ := links_of_level op compares
    rw [Operator.leftLevel, if_neg compares] at enough ⊢
    have chained := ((hl depth op.level (by omega) (by omega)).2 choices links).extend links.finds_level
      (.operator op (Nat.lt_succ_self _)) rightward
    refine ⟨?_, fun others links' => ?_⟩
    · rw [Expression.level, links.ofLevel]
      exact chained.takes (fun _ => links.ends) fun _ follows => follows.mono (Nat.le_succ _)
    · cases links.unique links'
      exact chained

theorem reads_signed (operand : Reads scope e) {signed : Expression} {s : Symbol} (printable : signed.Printable)
    (level : signed.level = 5) (split : signed.lexemes 0 = .symbol s :: e.lexemes 6)
    (h : ∀ nested, Takes scope (primary nested) (e.lexemes 6) e (Follows 6) →
      Takes scope (unary nested) (.symbol s :: e.lexemes 6) signed (Follows 6)) : Reads scope signed := by
  refine reads_of_level printable fun depth enough => ?_
  rw [level]
  rw [split] at enough ⊢
  have inner := (operand depth 6 (Nat.le_refl 6) (by simp at enough; omega)).1
  refine ⟨(h _ inner).weaken fun _ follows => follows.mono (by decide), fun choices links => ?_⟩
  cases links

theorem reads_negation (printable : e.Printable) (operand : Reads scope e) : Reads scope (.negation e) := by
  refine reads_signed operand (s := .bang) (.negation printable) rfl ?_ fun nested inner => ?_
  · simp [Expression.lexemes, Expression.pieces, Piece.enclosed, Piece.lexemes]
  · exact (takes_acceptSymbol .bang).before (inner.gives (by rfl))

theorem reads_opposite (printable : e.Printable) (operand : Reads scope e) : Reads scope (.opposite e) := by
  refine reads_signed operand (s := .minus) (.opposite printable) rfl ?_ fun nested inner => ?_
  · simp [Expression.lexemes, Expression.pieces, Piece.enclosed, Piece.lexemes]
  · obtain ⟨l, rest, split, number, -⟩ := Expression.begins_primary printable
    rw [split] at inner ⊢
    refine (sees_rejected (sees_onSymbol fun _ _ => by rfl)).bind ?_
    refine (sees_rejected (sees_onSymbol fun _ _ => by rfl)).bind ?_
    refine (takes_acceptSymbol .minus).before ?_
    refine (sees_first _ _).bind ?_
    rw [number]
    exact inner.gives (by rfl)

theorem reads_primary (printable : e.Printable) (level : e.level = 6)
    (h : ∀ depth, (e.lexemes 0).length ≤ depth → Takes scope (primary (nestedTo depth)) (e.lexemes 0) e (Follows 6)) :
    Reads scope e := by
  refine reads_of_level printable fun depth enough => ?_
  rw [level]
  refine ⟨h depth enough, fun choices links => ?_⟩
  cases links

theorem reads_arguments {es : List Expression} (printable : ∀ a ∈ es, a.Printable) (each : ∀ a ∈ es, Reads scope a)
    {depth : Nat} (enough : (Expression.argumentLexemes es).length ≤ depth) :
    Takes scope (expressionList (nestedTo depth)) (Expression.argumentLexemes es) es Any := by
  cases depth with
  | zero => cases enough
  | succ depth =>
    refine takes_arguments es printable fun a mem => ?_
    have short := Expression.length_le_listed mem
    rw [Expression.argumentLexemes, List.length_cons, List.length_append] at enough
    exact (each a mem depth 0 (Nat.zero_le _) (by omega)).1

theorem memberWords_head (negated : Bool) (ls : List Lexeme) (l : Option Lexeme) :
    ∃ w : Text, (w = "IN" ∨ w = "NOT") ∧ (Expression.memberWords negated ++ ls).head?.or l = some (.word w) := by
  cases negated with
  | false => exact ⟨_, .inl rfl, rfl⟩
  | true => exact ⟨_, .inr rfl, rfl⟩

theorem reads_member (negated : Bool) {values : List Expression} (operand : Reads scope e)
    (each : ∀ a ∈ values, Reads scope a) (printable : (Expression.member negated e values).Printable)
    (all : ∀ a ∈ values, a.Printable) : Reads scope (.member negated e values) := by
  refine reads_of_level printable fun depth enough => ?_
  rw [Expression.lexemes_member] at enough ⊢
  simp only [List.length_append] at enough
  have left := (operand depth 3 (by decide) (by omega)).1
  have list := reads_arguments all each (Nat.le_trans (Nat.le_add_left _ _) (Nat.le_trans (Nat.le_add_left _ _) enough))
  refine ⟨?_, fun choices links => by cases links⟩
  refine Takes.weaken (left.bind ?_ fun l (_ : Any l) => ?_) fun _ _ => trivial
  · have other : Sees scope (operator? [.eq, .ne, .lt, .gt, .le, .ge])
        (Expression.memberWords negated ++ Expression.argumentLexemes values) none Any :=
      sees_operator fun l _ => by
        obtain ⟨w, -, head⟩ := memberWords_head negated (Expression.argumentLexemes values) l
        rw [head]
        rfl
    exact other.bind ((takes_membership negated).bind (list.gives (by rfl)) fun _ _ => trivial)
  · obtain ⟨w, negation, head⟩ := memberWords_head negated (Expression.argumentLexemes values) l
    rw [head]
    exact .word w negation (by decide)

theorem reads_printable (query : scope.data = false) (h : e.Printable) : Reads scope e := by
  induction h with
  | @term t h =>
    have same : (Expression.term t).lexemes 0 = t.lexemes := by
      simp [Expression.lexemes, Expression.pieces, Piece.lexemes]
    refine reads_primary (.term h) rfl fun depth _ => ?_
    rw [same]
    exact takes_primary_term query h
  | binary op hl hr ihl ihr => exact reads_binary op ihl ihr (.binary op hl hr)
  | negation h ih => exact reads_negation h ih
  | opposite h ih => exact reads_opposite h ih
  | member negated h all ih ihs => exact reads_member negated ih ihs (.member negated h all) all
  | builtin f all ihs =>
    refine reads_primary (.builtin f all) rfl fun depth enough => ?_
    rw [Expression.lexemes_builtin] at enough ⊢
    exact takes_builtin f (reads_arguments all ihs (by simp at enough; omega))
  | call i all ihs =>
    refine reads_primary (.call i all) rfl fun depth enough => ?_
    rw [Expression.lexemes_call] at enough ⊢
    exact takes_call i (reads_arguments all ihs (by simp at enough; omega))

def filterLexemes (e : Expression) : List Lexeme :=
  .word "FILTER" :: .symbol .openParen :: (e.lexemes 0 ++ [.symbol .closeParen])

theorem takes_filter (query : scope.data = false) (h : e.Printable) {depth : Nat}
    (enough : (e.lexemes 0).length < depth) (g : Group) :
    Takes scope (groupPart (nestedTo depth) g) (filterLexemes e) { g with filters := g.filters ++ [e] } Any := by
  cases depth with
  | zero => cases enough
  | succ depth =>
    have inside : Takes scope (nestedTo (depth + 1)).expression (e.lexemes 0) e (Follows 0) :=
      (reads_printable query h depth 0 (Nat.zero_le _) (by omega)).1
    have condition : Takes scope (constraint (nestedTo (depth + 1)))
        (.symbol .openParen :: (e.lexemes 0 ++ [.symbol .closeParen])) e Any :=
      (sees_first _ _).bind (takes_parenthesized inside)
    have other : ∀ w : Text, isWord w (some (.word "FILTER")) = false →
        Sees scope (acceptWord w) (filterLexemes e) false Any := fun w no =>
      sees_rejected (sees_onWord fun _ _ => no)
    refine (other "OPTIONAL" rfl).bind ((other "MINUS" rfl).bind ((other "GRAPH" rfl).bind ?_))
    refine Sees.bind (sees_onSymbol fun _ _ => by rfl) ?_
    refine (takes_acceptWord "FILTER").before ?_
    exact condition.gives (by rfl)

theorem Sees.discard {α : Type} {r : Reader α} {a : α} (h : Sees scope r ls a next) :
    Sees scope (discard r) ls () next := by
  intro tokens rest fresh prefixes made may
  change (r >>= fun _ => pure ()) scope _ = _
  rw [bind_apply, h tokens rest fresh prefixes made may]
  rfl

theorem Takes.discard {α : Type} {r : Reader α} {a : α} (h : Takes scope r ls a next) :
    Takes scope (discard r) ls () next :=
  h.gives (f := fun _ => pure ()) (by rfl)

def groupStep (nested : Nested) (g : Group) : Reader (ForInStep Group) := do
  if ← acceptSymbol .closeBrace then return .done g
  else if ← atEnd then fail .unterminatedGroup
  else if ← onTriple then return .yield (g.addTriples (← triples))
  else
    let g ← groupPart nested g
    discard (acceptSymbol .dot)
    return .yield g

theorem takes_group (query : scope.data = false) (h : e.Printable) :
    Takes scope group (.symbol .openBrace :: (filterLexemes e ++ [.symbol .closeBrace])) (.filter e (.bgp [])) Any := by
  intro tokens rest fresh prefixes made may
  have length : (e.lexemes 0).length < (tokens ++ rest).length := by
    have same := congrArg List.length made
    simp [filterLexemes] at same
    simp
    omega
  have last : Rounds scope (groupStep (nestedTo (tokens ++ rest).length)) ⟨none, [e]⟩ [.symbol .closeBrace]
      ⟨none, [e]⟩ Any := .last ((takes_acceptSymbol .closeBrace).gives (by rfl))
  have first : Takes scope (groupStep (nestedTo (tokens ++ rest).length) {}) (filterLexemes e)
      (.yield ⟨none, [e]⟩) (· = some (.symbol .closeBrace)) := by
    refine (sees_rejected (sees_onSymbol fun _ _ => by rfl)).bind ?_
    refine (sees_atEnd (b := false) fun _ _ => by rfl).bind ?_
    refine Sees.bind (sees_onTriple false fun _ _ _ => by rfl) ?_
    rw [← List.append_nil (filterLexemes e)]
    refine (takes_filter query h length {}).bind ?_ fun _ _ => trivial
    refine (sees_rejected (sees_onSymbol fun _ brace => ?_)).discard.bind (takes_pure _)
    rw [brace]
    rfl
  have parts : Takes scope (groupParts (nestedTo (tokens ++ rest).length))
      (filterLexemes e ++ [.symbol .closeBrace]) ⟨none, [e]⟩ Any :=
    (Rounds.more _ first (by simp [filterLexemes]) last fun _ _ => rfl).takes
  have whole : Takes scope (groupPattern (nestedTo (tokens ++ rest).length))
      (.symbol .openBrace :: (filterLexemes e ++ [.symbol .closeBrace])) (.filter e (.bgp [])) Any := by
    refine (takes_expectSymbol .openBrace).before ?_
    refine Sees.bind (a := false) (sees_onWord fun _ _ => by rfl) ?_
    exact parts.gives (by rfl)
  exact whole tokens rest fresh prefixes made may

def queryLexemes (e : Expression) : List Lexeme :=
  [.word "SELECT", .symbol .star, .word "WHERE", .symbol .openBrace] ++ (filterLexemes e ++ [.symbol .closeBrace])

theorem sees_nothing_accepted (w : Text) : Sees scope (acceptWord w) [] false (· = none) :=
  sees_rejected (sees_onWord fun _ none_ => by rw [none_]; rfl)

theorem sees_nothing (w : Text) : Sees scope (onWord w) [] false (· = none) :=
  sees_onWord fun _ none_ => by rw [none_]; rfl

theorem takes_unordered (op : Operation) : Takes scope (ordered op) [] op (· = none) :=
  (sees_nothing "GROUP").bind ((sees_nothing "HAVING").bind ((sees_nothing_accepted "ORDER").bind (takes_pure op)))

theorem takes_unsliced (op : Operation) : Takes scope (sliced op) [] op (· = none) := by
  have bound : Takes scope (sliceBound (none, none)) [] (none, none) (· = none) :=
    (sees_nothing "LIMIT").bind ((sees_nothing "OFFSET").bind (takes_pure _))
  refine bound.bind (bound.bind ?_ fun _ => id) fun _ => id
  exact (sees_nothing "VALUES").bind (takes_pure op)

theorem takes_where (query : scope.data = false) (h : e.Printable) :
    Takes scope whereClause (.word "WHERE" :: .symbol .openBrace :: (filterLexemes e ++ [.symbol .closeBrace]))
      (.filter e (.bgp [])) Any := by
  have dataset : Sees scope noDataset
      (.word "WHERE" :: .symbol .openBrace :: (filterLexemes e ++ [.symbol .closeBrace])) () Any := by
    have other : Sees scope (onWord "FROM")
        (.word "WHERE" :: .symbol .openBrace :: (filterLexemes e ++ [.symbol .closeBrace])) false Any :=
      sees_onWord fun _ _ => by rfl
    intro tokens rest fresh prefixes made may
    unfold noDataset
    rw [bind_apply, other tokens rest fresh prefixes made may]
    rfl
  refine dataset.bind ?_
  exact (takes_acceptWord "WHERE").discard.before (takes_group query h)

theorem takes_content (query : scope.data = false) (h : e.Printable) :
    Takes scope content (queryLexemes e) (.query (.project [] (.filter e (.bgp [])))) (· = none) := by
  have start : Takes scope prologue [] () (· = some (.word "SELECT")) := by
    have other : ∀ w : Text, isWord w (some (.word "SELECT")) = false →
        Sees scope (acceptWord w) [] false (· = some (.word "SELECT")) := fun w no =>
      sees_rejected (sees_onWord fun _ same => by rw [same]; exact no)
    refine (Rounds.last ?_).takes
    refine Sees.bind (other "BASE" rfl) ?_
    exact Sees.bind (other "PREFIX" rfl) (takes_pure _)
  have chosen : Takes scope projected? [.symbol .star] none Any :=
    (takes_acceptSymbol .star).bind (takes_pure _) fun _ _ => trivial
  have select : Takes scope selectQuery
      (.symbol .star :: .word "WHERE" :: .symbol .openBrace :: (filterLexemes e ++ [.symbol .closeBrace]))
      (.project [] (.filter e (.bgp []))) (· = none) := by
    refine Sees.bind (a := false) (sees_rejected (sees_onWord fun _ _ => by rfl)) ?_
    refine Sees.bind (a := false) (sees_rejected (sees_onWord fun _ _ => by rfl)) ?_
    refine chosen.before ?_
    rw [← List.append_nil (_ :: _)]
    refine (takes_where query h).bind ?_ fun _ _ => trivial
    exact (takes_unordered _).bind (takes_unsliced _) fun _ => id
  exact start.bind ((takes_acceptWord "SELECT").before (select.gives (by rfl))) fun _ _ => rfl

end Reader

namespace Expression

def filterText (e : Expression) : Text := "FILTER( " ++ (e.text ++ " )")

/-- The query for everything that fulfils an expression, as it is printed. -/
def queryText (e : Expression) : Text := "SELECT * WHERE \x7b " ++ (e.filterText ++ " \x7d")

variable {e : Expression}

theorem spells_filterText (h : e.Printable) : Spells e.filterText (Reader.filterLexemes e) Anything := by
  have parenNext : Spells "FILTER" [.word "FILTER"] fun rest => rest.head? = some (Text.byte '(') := by
    refine spells_one (by decide) fun rest paren => ?_
    cases rest with
    | nil => cases paren
    | cons c rest =>
      cases paren
      rfl
  have opening : Spells "(" [.symbol .openParen] Anything := spells_one (by decide) fun _ _ => rfl
  have closing : Spells ")" [.symbol .closeParen] Anything := spells_one (by decide) fun _ _ => rfl
  have front := (parenNext.append opening fun _ _ => rfl).append spells_gap fun _ _ => trivial
  have body := (spells_text h).append (spells_gap.append closing fun _ _ => trivial) fun _ _ => apart_gap _
  exact front.append body fun _ _ => trivial

theorem spells_queryText (h : e.Printable) : Spells e.queryText (Reader.queryLexemes e) Anything := by
  have word : ∀ {w : Text}, IsWord w → Spells (w ++ " ") [.word w] Anything := fun isWord =>
    (spells_word isWord).append spells_gap fun _ _ => apart_gap _
  have symbol : ∀ s : Symbol, Spells (s.text ++ " ") [.symbol s] Anything := fun s =>
    (spells_symbol s).append spells_gap fun _ _ => apart_gap _
  have select : IsWord "SELECT" := by decide +kernel
  have where_ : IsWord "WHERE" := by decide +kernel
  have front := (word select).append ((symbol .star).append ((word where_).append (symbol .openBrace)
    fun _ _ => trivial) fun _ _ => trivial) fun _ _ => trivial
  have closing : Spells "\x7d" [.symbol .closeBrace] Anything := spells_one (by decide) fun _ _ => rfl
  have body := (spells_filterText h).append (spells_gap.append closing fun _ _ => trivial) fun _ _ => trivial
  exact front.append body fun _ _ => trivial

/-- A printed expression is read as itself: in parentheses behind `FILTER`, its text has the tokens of a
filter, whatever text follows. In every query without a base, whatever was declared and read before,
these tokens add the expression to the filters of their group, and the query of this filter alone asks
for just that. -/
theorem printed_reads_back (h : e.Printable) :
    Spells e.filterText (Reader.filterLexemes e) Anything ∧
    (∀ scope depth g, scope.data = false → (e.lexemes 0).length < depth →
      Reader.Takes scope (Reader.groupPart (Reader.nestedTo depth) g) (Reader.filterLexemes e)
        { g with filters := g.filters ++ [e] } Reader.Any) ∧
    Request.read e.queryText = .ok ⟨.query (.project [] (.filter e (.bgp []))), [], []⟩ := by
  refine ⟨spells_filterText h, fun scope depth g query enough => Reader.takes_filter query h enough g, ?_⟩
  obtain ⟨tokens, made, scanned⟩ := (spells_queryText h).scan trivial
  have whole := Reader.takes_content (by rfl : (Scope.whole false .defaultGraph e.queryText.length).data = false) h
    tokens [] 0 [] made rfl
  rw [List.append_nil] at whole
  unfold Request.read Reader.run
  rw [scanned]
  simp only [bind, Except.bind]
  rw [whole]
  rfl

theorem printed_reads_back_levels :
    let x : Expression := .term (.var "x")
    let one : Expression := .term (.literal "1" (.datatype Xsd.integer))
    let e : Expression := .binary .or
      (.binary .lt (.binary .sub x (.binary .sub x one)) (.opposite x))
      (.binary .and (.negation (.binary .eq x one))
        (.member true (.call (.iri "f") [x, .term (.tagged "a" "en")]) [.builtin .now []]))
    e.text = "?x - ( ?x - \"1\"^^<http://www.w3.org/2001/XMLSchema#integer> ) < - ?x || " ++
        ("! ( ?x = \"1\"^^<http://www.w3.org/2001/XMLSchema#integer> ) && " ++
        "<f> ( ?x , \"a\"@en ) NOT IN ( now ( ) )") ∧
      Request.read e.queryText = .ok ⟨.query (.project [] (.filter e (.bgp []))), [], []⟩ := by
  intro x one e
  have hx : x.Printable := .term (.var (by decide +kernel) (by decide +kernel))
  have hone : one.Printable := .term (.typed "1" ⟨Xsd.integer, by decide +kernel⟩)
  have greeting : (Expression.term (.tagged "a" "en")).Printable :=
    .term (.tagged "a" ⟨"en", [], by decide +kernel, by decide +kernel, by decide +kernel⟩)
  have call : (Expression.call (.iri "f") [x, .term (.tagged "a" "en")]).Printable :=
    .call ⟨"f", by decide +kernel⟩ (List.forall_mem_cons.2 ⟨hx, List.forall_mem_singleton.2 greeting⟩)
  have now : (Expression.builtin .now []).Printable := .builtin .now (List.forall_mem_nil _)
  have h : e.Printable := .binary .or
    (.binary .lt (.binary .sub hx (.binary .sub hx hone)) (.opposite hx))
    (.binary .and (.negation (.binary .eq hx hone)) (.member true call (List.forall_mem_singleton.2 now)))
  exact ⟨by decide +kernel, (printed_reads_back h).2.2⟩

end Expression

end QuadStore.Sparql
