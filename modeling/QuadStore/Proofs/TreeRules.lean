import QuadStore.Proofs.WrittenTree

namespace QuadStore.Sparql

open Sparql.Tree

namespace Item

theorem brackets_cons (l : Lexeme) (ls : List Lexeme) : brackets (l :: ls) = brackets [l] + brackets ls := by
  rw [brackets, ← List.singleton_append, List.count_append]
  rfl

theorem brackets_append (a b : List Lexeme) : brackets (a ++ b) = brackets a + brackets b := List.count_append

theorem ofLexemes_append (n : Nat) (a b : List Lexeme) :
    ofLexemes n (a ++ b) = ofLexemes n a ++ ofLexemes (n + brackets a) b := by
  induction a generalizing n with
  | nil => rfl
  | cons l a ih =>
    rw [List.cons_append, ofLexemes, ih, ofLexemes, brackets_cons l a, List.append_assoc, Nat.add_assoc]

end Item

/-- What is known of lexemes, of the IRIs that they stand for, and of leaves. -/
structure Knowledge where
  lexeme : Lexeme → Prop
  iri : Text → Prop
  leaf : Leaf → Prop
  resolved : ∀ {base value}, (base ≠ [] → iri base) → lexeme (.iri value) → iri (Reader.resolve base value)
  expanded : ∀ {start name}, iri start → lexeme (.prefixed name) →
    iri (start ++ Reader.unescaped (name.drop ((name.takeWhile (!Reader.isColon ·)).length + 1)))
  type : iri Rdf.type
  var : ∀ {x}, lexeme (.var x) → leaf (.name (.var x))
  label : ∀ {l}, lexeme (.blank l) → leaf (.name (.label l))
  anonymous : ∀ n, leaf (.name (.anonymous n))
  named : ∀ {value}, iri value → leaf (.iri value)
  plain : ∀ {s}, lexeme (.string s) → leaf (.quoted s .plain)
  tagged : ∀ {s tag}, lexeme (.string s) → lexeme (.tag tag) → leaf (.quoted s (.language tag))
  typed : ∀ {s d}, lexeme (.string s) → iri d → leaf (.quoted s (.datatype d))
  number : ∀ {l datatype}, Reader.isNumber (some l) = true → datatype ∈ [Xsd.integer, Xsd.decimal, Xsd.double] →
    lexeme l → leaf (.bare l.text datatype) ∧ leaf (.bare ("-" ++ l.text) datatype)
  boolean : ∀ {w}, lexeme (.word w) → leaf (.bare w.lower Xsd.boolean)

namespace Reader

variable {α β : Type} {K : Knowledge} {scope : Scope} {pre pre' : Cursor → Prop} {r : Reader α} {f : α → Reader β}
  {P : List Leaf → α → Prop} {Q : List Leaf → β → Prop}

structure Known (K : Knowledge) (c : Cursor) : Prop where
  tokens : ∀ t ∈ c.tokens, K.lexeme t.lexeme
  prefixes : ∀ p ∈ c.prefixes, K.iri p.2
  base : c.base ≠ [] → K.iri c.base

def Builds (K : Knowledge) (scope : Scope) (pre : Cursor → Prop) (r : Reader α) (P : List Leaf → α → Prop) : Prop :=
  ∀ c a after, Known K c → pre c → r scope c = .ok (a, after) →
    Known K after ∧ ∃ taken leaves, c.tokens = taken ++ after.tokens ∧
      after.fresh = c.fresh + Item.brackets (taken.map (·.lexeme)) ∧
      Item.ofLexemes c.fresh (taken.map (·.lexeme)) = leaves.filterMap Leaf.item? ∧
      (∀ l ∈ leaves, K.leaf l) ∧ P leaves a

def Quiet (leaves : List Leaf) (_ : α) : Prop := leaves = []

def Anywhere (_ : Cursor) : Prop := True

def Ahead (n : Nat) (l : Option Lexeme) (c : Cursor) : Prop := (c.tokens[n]?).map (·.lexeme) = l

theorem Builds.weaken (h : Builds K scope pre r P) {P' : List Leaf → α → Prop}
    (weaker : ∀ leaves a, P leaves a → P' leaves a) : Builds K scope pre r P' := by
  intro c a after known start made
  obtain ⟨known, taken, leaves, split, fresh, items, good, p⟩ := h c a after known start made
  exact ⟨known, taken, leaves, split, fresh, items, good, weaker _ _ p⟩

theorem Builds.started (h : Builds K scope pre' r P) (stronger : ∀ c, pre c → pre' c) : Builds K scope pre r P :=
  fun c a after known start => h c a after known (stronger c start)

theorem Builds.anywhere (h : Builds K scope Anywhere r P) : Builds K scope pre r P := h.started fun _ _ => trivial

theorem builds_pure {a : α} (h : P [] a) : Builds K scope pre (pure a) P := by
  rintro c b after known - made
  cases made
  exact ⟨known, [], [], rfl, rfl, rfl, List.forall_mem_nil _, h⟩

theorem given_builds {a : α} (h : Builds K scope pre (f a) Q) : Builds K scope pre (pure a >>= f) Q := h

theorem builds_fail (fault : Fault) : Builds K scope pre (fail fault) P := by
  rintro c a after - - made
  unfold fail at made
  split at made <;> cases made

theorem builds_failWith (e : ParseError) : Builds K scope pre (failWith e) P := by
  rintro c a after - - made
  cases made

theorem Builds.bind_after (hr : Builds K scope pre r P)
    (hf : ∀ a leaves, P leaves a → Builds K scope (fun after => ∃ c, pre c ∧ r scope c = .ok (a, after)) (f a)
      fun more b => Q (leaves ++ more) b) : Builds K scope pre (r >>= f) Q := by
  intro c b last known start made
  rw [bind_apply] at made
  cases first : r scope c with
  | error stop =>
    rw [first] at made
    cases made
  | ok read =>
    obtain ⟨a, after⟩ := read
    rw [first] at made
    obtain ⟨known, taken, leaves, split, fresh, items, good, p⟩ := hr c a after known start first
    obtain ⟨known, taken', leaves', split', fresh', items', good', q⟩ :=
      hf a leaves p after b last known ⟨c, start, first⟩ made
    refine ⟨known, taken ++ taken', leaves ++ leaves', ?_, ?_, ?_, List.forall_mem_append.2 ⟨good, good'⟩, q⟩
    · rw [split, split', List.append_assoc]
    · rw [fresh', fresh, List.map_append, Item.brackets_append, Nat.add_assoc]
    · rw [List.map_append, Item.ofLexemes_append, items, ← fresh, items', List.filterMap_append]

theorem Builds.bind (hr : Builds K scope pre r P)
    (hf : ∀ a leaves, P leaves a → Builds K scope Anywhere (f a) fun more b => Q (leaves ++ more) b) :
    Builds K scope pre (r >>= f) Q := hr.bind_after fun a leaves p => (hf a leaves p).anywhere

theorem Builds.then (hr : Builds K scope pre r Quiet) (hf : ∀ a, Builds K scope Anywhere (f a) Q) :
    Builds K scope pre (r >>= f) Q :=
  hr.bind fun a leaves quiet => by
    cases quiet
    exact hf a

theorem builds_ite {condition : Prop} [Decidable condition] {r' : Reader α} (h : Builds K scope pre r P)
    (h' : Builds K scope pre r' P) : Builds K scope pre (if condition then r else r') P := by
  split
  · exact h
  · exact h'

theorem ahead_builds (n : Nat) {f : Option Lexeme → Reader β}
    (h : ∀ l, Builds K scope (fun c => pre c ∧ Ahead n l c) (f l) Q) : Builds K scope pre (ahead? n >>= f) Q :=
  fun c b after known start made => h _ c b after known ⟨start, rfl⟩ made

theorem peek_builds {f : Option Lexeme → Reader β} (h : ∀ l, Builds K scope (Ahead 0 l) (f l) Q) :
    Builds K scope pre (peek? >>= f) Q :=
  ahead_builds 0 fun l c b after known start => h l c b after known start.2

theorem peek_known {l : Option Lexeme} {f : Option Lexeme → Reader β} (h : Builds K scope (Ahead 0 l) (f l) Q) :
    Builds K scope (Ahead 0 l) (peek? >>= f) Q := by
  intro c b after known start made
  have looked : (peek? >>= f) scope c = f l scope c := by rw [← start]; rfl
  exact h c b after known start (looked ▸ made)

theorem look_builds {test : Option Lexeme → Bool} {f : Bool → Reader β} (h : ∀ b, Builds K scope pre (f b) Q) :
    Builds K scope pre ((do return test (← peek?)) >>= f) Q :=
  fun c b after known start made => h _ c b after known start made

theorem onSymbol_builds {s : Symbol} {f : Bool → Reader β} (h : ∀ b, Builds K scope pre (f b) Q) :
    Builds K scope pre (onSymbol s >>= f) Q := look_builds h

theorem onWord_builds {w : Text} {f : Bool → Reader β} (h : ∀ b, Builds K scope pre (f b) Q) :
    Builds K scope pre (onWord w >>= f) Q := look_builds h

theorem onWord_known {w : Text} {f : Bool → Reader β} (h : ∀ l, Builds K scope (Ahead 0 l) (f (isWord w l)) Q) :
    Builds K scope pre (onWord w >>= f) Q :=
  fun c b after known _ made => h _ c b after known rfl made

theorem atEnd_builds {f : Bool → Reader β} (h : ∀ b, Builds K scope pre (f b) Q) :
    Builds K scope pre (atEnd >>= f) Q := look_builds h

theorem onTriple_builds {f : Bool → Reader β} (h : ∀ b, Builds K scope pre (f b) Q) :
    Builds K scope pre (onTriple >>= f) Q :=
  fun c b after known start made => h _ c b after known start made

theorem cursor_builds {f : Cursor → Reader β} (h : ∀ c, Known K c → Builds K scope (· = c) (f c) Q) :
    Builds K scope pre (cursor >>= f) Q :=
  fun c b after known _ made => h c known c b after known rfl made

theorem scope_builds {f : Scope → Reader β} (h : Builds K scope pre (f scope) Q) :
    Builds K scope pre (Reader.scope >>= f) Q := h

theorem skip_known (scope : Scope) {c : Cursor} {l : Lexeme} (known : Known K c) (next : Ahead 0 (some l) c) :
    ∃ t rest, c.tokens = t :: rest ∧ t.lexeme = l ∧ K.lexeme l ∧ Known K { c with tokens := rest } ∧
      skip scope c = .ok ((), { c with tokens := rest }) := by
  unfold Ahead at next
  cases tokens : c.tokens with
  | nil =>
    rw [tokens] at next
    cases next
  | cons t rest =>
    have all := known.tokens
    have skipped : skip scope c = .ok ((), { c with tokens := c.tokens.tail }) := rfl
    rw [tokens] at next all skipped
    cases next
    exact ⟨t, rest, rfl, rfl, all t List.mem_cons_self,
      ⟨fun u mem => all u (List.mem_cons_of_mem t mem), known.prefixes, known.base⟩, skipped⟩

theorem skip_builds {l : Lexeme} (leaf? : Option Leaf) (other : l ≠ .symbol .openBracket)
    (item : ∀ n, (Item.ofLexeme? n l).toList = leaf?.toList.filterMap Leaf.item?)
    (good : K.lexeme l → ∀ x ∈ leaf?.toList, K.leaf x) :
    Builds K scope (Ahead 0 (some l)) skip fun leaves _ => leaves = leaf?.toList ∧ K.lexeme l := by
  intro c a after known next made
  obtain ⟨t, rest, tokens, rfl, lexeme, known, skipped⟩ := skip_known scope known next
  rw [skipped] at made
  cases made
  have none_ : Item.brackets [t.lexeme] = 0 := List.count_eq_zero.2 (by simpa using other.symm)
  rw [tokens]
  refine ⟨known, [t], leaf?.toList, rfl, ?_, ?_, good lexeme, rfl, lexeme⟩
  · exact (congrArg (c.fresh + ·) none_).symm
  · exact (List.append_nil _).trans (item c.fresh)

theorem skip_quiet {l : Lexeme} (item : ∀ n, Item.ofLexeme? n l = none) {f : Unit → Reader β}
    (h : K.lexeme l → Builds K scope Anywhere (f ()) Q) : Builds K scope (Ahead 0 (some l)) (skip >>= f) Q := by
  have other : l ≠ .symbol .openBracket := by
    rintro rfl
    cases item 0
  refine (skip_builds none other (fun n => by rw [item n]; rfl) fun _ => List.forall_mem_nil _).bind
    fun _ leaves took => ?_
  obtain ⟨rfl, lexeme⟩ := took
  exact h lexeme

theorem skip_on {l : Lexeme} {second : Option Lexeme} (item : ∀ n, Item.ofLexeme? n l = none) {f : Unit → Reader β}
    (h : Builds K scope (Ahead 0 second) (f ()) Q) :
    Builds K scope (fun c => Ahead 0 (some l) c ∧ Ahead 1 second c) (skip >>= f) Q := by
  rintro c b after known ⟨next, follows⟩ made
  obtain ⟨t, rest, tokens, same, -, known, skipped⟩ := skip_known scope known next
  have other : Item.brackets [l] = 0 := by
    refine List.count_eq_zero.2 fun mem => ?_
    cases List.mem_singleton.1 mem
    cases item 0
  have start : Ahead 0 second { c with tokens := rest } := by
    unfold Ahead at follows ⊢
    rwa [tokens] at follows
  rw [bind_apply, skipped] at made
  obtain ⟨known, taken, leaves, split, fresh, items, good, q⟩ := h _ b after known start made
  refine ⟨known, t :: taken, leaves, ?_, ?_, ?_, good, q⟩
  · rw [tokens]
    exact congrArg _ split
  · rw [fresh, List.map_cons, Item.brackets_cons, same, other, Nat.zero_add]
  · rw [List.map_cons, Item.ofLexemes, same, item, other, ← items]
    rfl

theorem skip_leaf {l : Lexeme} (leaf : Leaf) (other : l ≠ .symbol .openBracket)
    (item : ∀ n, Item.ofLexeme? n l = leaf.item?) (good : K.lexeme l → K.leaf leaf) {f : Unit → Reader β}
    (h : Builds K scope Anywhere (f ()) fun more b => Q (leaf :: more) b) :
    Builds K scope (Ahead 0 (some l)) (skip >>= f) Q := by
  refine (skip_builds (some leaf) other (fun n => ?_) fun lexeme => ?_).bind fun _ leaves took => ?_
  · rw [item n]
    cases h : leaf.item? <;> simp [h]
  · exact List.forall_mem_singleton.2 (good lexeme)
  · obtain ⟨rfl, -⟩ := took
    exact h

theorem skip_string {value : Text} {r : Reader α} {R : Leaf → α → Prop}
    (h : K.lexeme (.string value) → Builds K scope Anywhere r fun leaves a => leaves = [] ∧
      ∃ leaf : Leaf, leaf.item? = some (.string value) ∧ K.leaf leaf ∧ R leaf a) :
    Builds K scope (Ahead 0 (some (.string value))) (do skip; r) fun leaves a =>
      ∃ leaf, leaves = [leaf] ∧ R leaf a := by
  intro c a after known next made
  obtain ⟨t, rest, tokens, same, lexeme, known, skipped⟩ := skip_known scope known next
  rw [bind_apply, skipped] at made
  obtain ⟨known, taken, leaves, split, fresh, items, -, rfl, leaf, item, own, told⟩ :=
    h lexeme _ a after known trivial made
  refine ⟨known, t :: taken, [leaf], ?_, ?_, ?_, List.forall_mem_singleton.2 own, leaf, rfl, told⟩
  · rw [tokens]
    exact congrArg _ split
  · rw [fresh, List.map_cons, Item.brackets_cons, same]
    simp [Item.brackets]
  · have none_ : Item.brackets [.string value] = 0 := rfl
    rw [List.map_cons, Item.ofLexemes, same, none_, Nat.add_zero, items]
    simp [Item.ofLexeme?, item]

theorem isSymbol_eq {s : Symbol} {l : Option Lexeme} (h : isSymbol s l = true) : l = some (.symbol s) :=
  of_decide_eq_true h

theorem isWord_eq {w : Text} {l : Option Lexeme} (h : isWord w l = true) : ∃ v, l = some (.word v) := by
  cases l with
  | none => cases h
  | some l =>
    cases l with
    | word v => exact ⟨v, rfl⟩
    | _ => cases h

theorem accept_quiet {test : Option Lexeme → Bool}
    (item : ∀ l, test (some l) = true → ∀ n, Item.ofLexeme? n l = none) (none_ : test none = false) :
    Builds K scope pre (do
      if ← (do return test (← peek?)) then
        skip
        return true
      else return false) Quiet := by
  change Builds K scope pre (peek? >>= fun l => if test l = true then do skip; return true else return false) Quiet
  refine peek_builds fun l => ?_
  cases passes : test l with
  | false => exact builds_pure rfl
  | true =>
    cases l with
    | none =>
      rw [none_] at passes
      cases passes
    | some l => exact skip_quiet (item l passes) fun _ => builds_pure rfl

theorem acceptSymbol_quiet {s : Symbol} (other : s ≠ .openBracket) : Builds K scope pre (acceptSymbol s) Quiet := by
  refine accept_quiet (fun l passes n => ?_) rfl
  cases Option.some.inj (isSymbol_eq passes)
  cases s <;> first | rfl | exact absurd rfl other

theorem acceptWord_quiet (w : Text) : Builds K scope pre (acceptWord w) Quiet := by
  refine accept_quiet (fun l passes n => ?_) rfl
  obtain ⟨v, same⟩ := isWord_eq passes
  cases same
  rfl

theorem acceptTag_quiet (tag : Text) : Builds K scope pre (acceptTag tag) Quiet := by
  refine Builds.anywhere (peek_builds fun l => ?_)
  split
  · rename_i same
    cases same
    exact skip_quiet (fun _ => rfl) fun _ => builds_pure rfl
  · exact builds_pure rfl

theorem expectSymbol_quiet {s : Symbol} (other : s ≠ .openBracket) : Builds K scope pre (expectSymbol s) Quiet :=
  (acceptSymbol_quiet other).then fun _ => builds_ite (builds_pure rfl) (builds_fail _)

theorem expectWord_quiet (w : Text) : Builds K scope pre (expectWord w) Quiet :=
  (acceptWord_quiet w).then fun _ => builds_ite (builds_pure rfl) (builds_fail _)

theorem Builds.discard (h : Builds K scope pre r Quiet) : Builds K scope pre (discard r) Quiet :=
  Builds.then (f := fun _ => pure ()) h fun _ => builds_pure rfl

def Stepped (I : List Leaf → α → Prop) (leaves : List Leaf) : ForInStep α → Prop
  | .yield a | .done a => I leaves a

theorem builds_loop_first {I : List Leaf → α → Prop} {step : α → Reader (ForInStep α)} {a : α}
    (first : Builds K scope Anywhere (step a) (Stepped I))
    (keeps : ∀ leaves a, I leaves a → Builds K scope Anywhere (step a) fun more => Stepped I (leaves ++ more)) :
    Builds K scope pre (loop step a) I := by
  have repeats : ∀ fuel leaves a, I leaves a →
      Builds K scope Anywhere (iterate step fuel a) fun more => I (leaves ++ more) := by
    intro fuel
    induction fuel with
    | zero => exact fun _ _ _ => builds_fail _
    | succ fuel ih =>
      intro leaves a inv
      refine (keeps leaves a inv).bind fun next more kept => ?_
      cases next with
      | yield b =>
        refine (ih (leaves ++ more) b kept).weaken fun last c inv => ?_
        rwa [List.append_assoc] at inv
      | done b =>
        refine builds_pure ?_
        rw [List.append_nil]
        exact kept
  intro c
  refine Builds.anywhere (r := iterate step _ a) (first.bind fun next leaves kept => ?_) c
  cases next with
  | yield b => exact repeats _ leaves b kept
  | done b =>
    refine builds_pure ?_
    rw [List.append_nil]
    exact kept

theorem builds_loop {I : List Leaf → α → Prop} {step : α → Reader (ForInStep α)} {a : α}
    (keeps : ∀ leaves a, I leaves a → Builds K scope Anywhere (step a) fun more => Stepped I (leaves ++ more))
    (start : I [] a) : Builds K scope pre (loop step a) I :=
  builds_loop_first (keeps [] a start) keeps

variable {T T' : Type} {leavesOf : T → List Leaf} {readOf : T → α} {leavesOf' : T' → List Leaf} {readOf' : T' → β}
  {before : List Leaf} {g : α → β}

def Written (leavesOf : T → List Leaf) (readOf : T → α) (leaves : List Leaf) (a : α) : Prop :=
  ∃ t, leaves = leavesOf t ∧ a = readOf t

theorem Builds.reads (h : Builds K scope pre r (Written leavesOf readOf))
    (hf : ∀ t, Builds K scope Anywhere (f (readOf t)) fun more b => Q (leavesOf t ++ more) b) :
    Builds K scope pre (r >>= f) Q :=
  h.bind fun a leaves ⟨t, own, same⟩ => by
    subst own same
    exact hf t

theorem Builds.adds (h : Builds K scope pre r (Written leavesOf readOf)) (part : T → T')
    (hl : ∀ t, before ++ leavesOf t = leavesOf' (part t)) (hr : ∀ t, g (readOf t) = readOf' (part t)) :
    Builds K scope pre (do return g (← r)) fun more => Written leavesOf' readOf' (before ++ more) :=
  h.reads fun t => builds_pure ⟨part t, by rw [List.append_nil, hl], hr t⟩

theorem Builds.gives (h : Builds K scope pre r (Written leavesOf readOf)) (whole : T → T')
    (hl : ∀ t, leavesOf t = leavesOf' (whole t)) (hr : ∀ t, g (readOf t) = readOf' (whole t)) :
    Builds K scope pre (do return g (← r)) (Written leavesOf' readOf') :=
  h.reads fun t => builds_pure ⟨whole t, by rw [List.append_nil, hl], hr t⟩

theorem builds_tree (t : T) :
    Builds K scope pre (pure (readOf t)) fun more => Written leavesOf readOf (leavesOf t ++ more) :=
  builds_pure ⟨t, List.append_nil _, rfl⟩

theorem builds_tree_loop {step : α → Reader (ForInStep α)} {a : α} (start : T) (hl : [] = leavesOf start)
    (hr : a = readOf start) (keeps : ∀ t, Builds K scope Anywhere (step (readOf t)) fun more =>
      Stepped (Written leavesOf readOf) (leavesOf t ++ more)) :
    Builds K scope pre (loop step a) (Written leavesOf readOf) :=
  builds_loop (fun _ _ ⟨t, own, same⟩ => by subst own same; exact keeps t) ⟨start, hl, hr⟩

theorem builds_nonempty_loop {step : α → Reader (ForInStep α)} {a : α}
    (first : Builds K scope Anywhere (step a) (Stepped (Written leavesOf readOf)))
    (keeps : ∀ t, Builds K scope Anywhere (step (readOf t)) fun more =>
      Stepped (Written leavesOf readOf) (leavesOf t ++ more)) :
    Builds K scope pre (loop step a) (Written leavesOf readOf) :=
  builds_loop_first first fun _ _ ⟨t, own, same⟩ => by subst own same; exact keeps t

theorem stepped {I : List Leaf → α → Prop} {leaves : List Leaf} {a : α} (more : Bool) (h : I leaves a) :
    Stepped I leaves (if more then .yield a else .done a) := by
  cases more <;> exact h

end Reader

end QuadStore.Sparql
