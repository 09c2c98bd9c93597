import QuadStore.Proofs.Rounds
import QuadStore.Proofs.TreeRules

namespace QuadStore.Sparql

open Sparql.Tree

namespace Reader

variable {α β : Type} {K : Knowledge} {scope : Scope} {pre : Cursor → Prop}

theorem ahead_of_tokens {c : Cursor} {t : Token} {rest : List Token} (tokens : c.tokens = t :: rest) :
    ∀ d, d = c → Ahead 0 (some t.lexeme) d := by
  rintro _ rfl
  rw [Ahead, tokens]
  rfl

theorem resolved_builds {value : Text} (lexeme : K.lexeme (.iri value)) :
    Builds K scope pre (do return resolve (← cursor).base value) fun leaves v => leaves = [] ∧ K.iri v :=
  cursor_builds fun _ known => builds_pure ⟨rfl, K.resolved known.base lexeme⟩

theorem expand_builds {name : Text} (offset : Nat) (lexeme : K.lexeme (.prefixed name)) :
    Builds K scope pre (expand name offset) fun leaves v => leaves = [] ∧ K.iri v := by
  refine cursor_builds fun c known => ?_
  cases found : c.prefixes.lookup (name.takeWhile (!isColon ·)) with
  | none => exact builds_failWith _
  | some start =>
    obtain ⟨before, after, split, -⟩ := List.lookup_eq_some_iff.1 found
    have mem : (name.takeWhile (!isColon ·), start) ∈ c.prefixes := by
      rw [split]
      simp
    exact builds_pure ⟨rfl, K.expanded (known.prefixes _ mem) lexeme⟩

def IsIri (K : Knowledge) (leaves : List Leaf) (t : Term) : Prop := leaves = [] ∧ ∃ v, t = .iri v ∧ K.iri v

theorem iri_builds : Builds K scope pre iri (IsIri K) := by
  refine cursor_builds fun c known => ?_
  split
  · rename_i value offset rest tokens
    refine Builds.started (skip_quiet (fun _ => rfl) fun lexeme => ?_) (ahead_of_tokens tokens)
    refine (resolved_builds lexeme).bind (f := fun v => pure (Term.iri v)) fun v leaves ⟨quiet, known⟩ => ?_
    exact builds_pure ⟨by rw [quiet]; rfl, v, rfl, known⟩
  · rename_i name offset rest tokens
    refine Builds.started (skip_quiet (fun _ => rfl) fun lexeme => ?_) (ahead_of_tokens tokens)
    refine (expand_builds offset lexeme).bind fun v leaves ⟨quiet, known⟩ => ?_
    exact builds_pure ⟨by rw [quiet]; rfl, v, rfl, known⟩
  · exact builds_fail _

theorem iriRef_builds : Builds K scope pre iriRef fun leaves v => leaves = [] ∧ K.iri v := by
  refine peek_builds fun l => ?_
  split
  · exact skip_quiet (fun _ => rfl) resolved_builds
  · exact builds_fail _

theorem update_builds {g : Cursor → Cursor} (known : ∀ c, Known K c → Known K (g c))
    (same : ∀ c, (g c).tokens = c.tokens ∧ (g c).fresh = c.fresh) : Builds K scope pre (update g) Quiet := by
  intro c a after before _ made
  cases made
  exact ⟨known c before, [], [], (same c).1.symm, (same c).2, rfl, List.forall_mem_nil _, rfl⟩

theorem prefixDeclaration_quiet : Builds K scope pre prefixDeclaration Quiet := by
  refine peek_builds fun l => ?_
  split
  · rename_i name
    refine given_builds ?_
    dsimp only
    split
    · exact builds_fail _
    · rename_i front declared
      refine skip_quiet (fun _ => rfl) fun _ => ?_
      refine iriRef_builds.bind fun value leaves ⟨quiet, known⟩ => ?_
      rw [quiet]
      refine update_builds (fun c before => ?_) fun _ => ⟨rfl, rfl⟩
      refine ⟨before.tokens, List.forall_mem_cons.2 ⟨known, fun p mem => ?_⟩, before.base⟩
      exact before.prefixes p (List.mem_filter.1 mem).1
  · exact builds_fail _

theorem baseDeclaration_quiet : Builds K scope pre baseDeclaration Quiet := by
  refine iriRef_builds.bind fun value leaves ⟨quiet, known⟩ => ?_
  rw [quiet]
  exact update_builds (fun c before => ⟨before.tokens, before.prefixes, fun _ => known⟩) fun _ => ⟨rfl, rfl⟩

theorem prologue_quiet : Builds K scope pre prologue Quiet := by
  refine builds_loop (fun leaves _ quiet => ?_) rfl
  rw [quiet]
  refine (acceptWord_quiet _).then fun _ => builds_ite (baseDeclaration_quiet.then fun _ => builds_pure rfl) ?_
  exact (acceptWord_quiet _).then fun _ => builds_ite (prefixDeclaration_quiet.then fun _ => builds_pure rfl)
    (builds_pure rfl)

abbrev IsLeaf (scope : Scope) : List Leaf → Term → Prop := Written (fun l : Leaf => [l]) (Leaf.term scope.data)

theorem freshNode_eq (scope : Scope) (c : Cursor) :
    freshNode scope c = .ok ((Name.anonymous c.fresh).term scope.data, { c with fresh := c.fresh + 1 }) := rfl

theorem bracket_builds {f : Term → Reader β} {Q : List Leaf → β → Prop}
    (h : ∀ n, Builds K scope Anywhere (f ((Name.anonymous n).term scope.data)) fun more b =>
      Q (.name (.anonymous n) :: more) b) :
    Builds K scope (Ahead 0 (some (.symbol .openBracket))) (do skip; let node ← freshNode; f node) Q := by
  intro c b after known next made
  obtain ⟨t, rest, tokens, same, -, known, skipped⟩ := skip_known scope known next
  rw [bind_apply, skipped] at made
  change (freshNode >>= f) scope { c with tokens := rest } = _ at made
  rw [bind_apply, freshNode_eq] at made
  obtain ⟨known, taken, leaves, split, fresh, items, good, q⟩ :=
    h c.fresh { c with tokens := rest, fresh := c.fresh + 1 } b after ⟨known.tokens, known.prefixes, known.base⟩
      trivial made
  refine ⟨known, t :: taken, .name (.anonymous c.fresh) :: leaves, ?_, ?_, ?_,
    List.forall_mem_cons.2 ⟨K.anonymous c.fresh, good⟩, q⟩
  · rw [tokens]
    exact congrArg _ split
  · rw [fresh, List.map_cons, Item.brackets_cons, same]
    exact Nat.add_assoc ..
  · rw [List.map_cons, Item.ofLexemes, same]
    exact congrArg (Item.name (.anonymous c.fresh) :: ·) items

theorem brackets_builds :
    Builds K scope (fun c => Ahead 0 (some (.symbol .openBracket)) c ∧ Ahead 1 (some (.symbol .closeBracket)) c)
      (do skip; skip; freshNode) (IsLeaf scope) := by
  rintro c a after known ⟨next, second⟩ made
  obtain ⟨t, rest, tokens, same, -, known, skipped⟩ := skip_known scope known next
  have close : Ahead 0 (some (.symbol .closeBracket)) { c with tokens := rest } := by
    unfold Ahead at second ⊢
    rwa [tokens] at second
  obtain ⟨u, rest', tokens', same', -, known, skipped'⟩ := skip_known scope known close
  rw [bind_apply, skipped] at made
  change (skip >>= fun _ => freshNode) scope { c with tokens := rest } = _ at made
  rw [bind_apply, skipped'] at made
  cases made
  refine ⟨⟨known.tokens, known.prefixes, known.base⟩, [t, u], [.name (.anonymous c.fresh)], ?_, ?_, ?_,
    List.forall_mem_singleton.2 (K.anonymous c.fresh), _, rfl, rfl⟩
  · rw [tokens]
    exact congrArg _ tokens'
  · simp [same, same', Item.brackets]
  · simp [same, same', Item.ofLexemes, Item.ofLexeme?, Leaf.item?]

theorem leaf_builds {l : Lexeme} {t : Term} (leaf : Leaf) (other : l ≠ .symbol .openBracket)
    (item : ∀ n, Item.ofLexeme? n l = leaf.item?) (good : K.lexeme l → K.leaf leaf) (same : t = leaf.term scope.data) :
    Builds K scope (Ahead 0 (some l)) (do skip; return t) (IsLeaf scope) :=
  skip_leaf leaf other item good (builds_pure ⟨leaf, rfl, same⟩)

theorem number_builds (negative : Bool) : Builds K scope pre (number negative) (IsLeaf scope) := by
  have signed : ∀ (l : Lexeme) (datatype : Text), isNumber (some l) = true →
      datatype ∈ [Xsd.integer, Xsd.decimal, Xsd.double] → Builds K scope (Ahead 0 (some l))
        (do skip; return .typed (if negative then "-" ++ l.text else l.text) datatype) (IsLeaf scope) := by
    intro l datatype isNumber numeric
    have other : l ≠ .symbol .openBracket := by
      rintro rfl
      cases isNumber
    have item : ∀ n, Item.ofLexeme? n l = none := fun n => by
      cases l <;> first | rfl | cases isNumber
    refine leaf_builds (.bare (if negative then "-" ++ l.text else l.text) datatype) other item (fun lexeme => ?_) rfl
    have both := K.number isNumber numeric lexeme
    cases negative
    · exact both.1
    · exact both.2
  refine peek_builds fun l => ?_
  split
  · exact signed _ Xsd.integer rfl (by decide)
  · exact signed _ Xsd.decimal rfl (by decide)
  · exact signed _ Xsd.double rfl (by decide)
  · exact builds_fail _

theorem literal_builds {lexical : Text} (lexeme : K.lexeme (.string lexical)) :
    Builds K scope pre (literal lexical) fun leaves t => leaves = [] ∧
      ∃ leaf : Leaf, leaf.item? = some (.string lexical) ∧ K.leaf leaf ∧ t = leaf.term scope.data := by
  refine peek_builds fun l => ?_
  split
  · rename_i language
    refine skip_quiet (fun _ => rfl) fun tag => builds_pure ⟨rfl, .quoted lexical _, rfl, ?_, rfl⟩
    split
    · exact K.plain lexeme
    · exact K.tagged lexeme tag
  · refine skip_quiet (fun _ => rfl) fun _ => ?_
    refine iri_builds.bind fun t leaves ⟨quiet, v, same, known⟩ => ?_
    subst same
    refine builds_pure ⟨by rw [quiet]; rfl, .quoted lexical _, rfl, ?_, rfl⟩
    split
    · exact K.plain lexeme
    · exact K.typed lexeme known
  · exact builds_pure ⟨rfl, .quoted lexical .plain, rfl, K.plain lexeme, rfl⟩

theorem iri_written : Builds K scope pre iri (Written (fun v => [Leaf.iri v]) Term.iri) := by
  intro c t after known start made
  obtain ⟨known, taken, leaves, split, fresh, items, -, rfl, v, rfl, good⟩ := iri_builds c t after known start made
  exact ⟨known, taken, [.iri v], split, fresh, items, List.forall_mem_singleton.2 (K.named good), v, rfl, rfl⟩

theorem iri_leaf : Builds K scope pre iri (IsLeaf scope) :=
  iri_written.weaken fun _ _ ⟨v, own, same⟩ => ⟨.iri v, own, same⟩

theorem term_builds : Builds K scope pre term (IsLeaf scope) := by
  refine peek_builds fun l => ?_
  cases l with
  | none => exact builds_fail _
  | some l =>
    cases l with
    | var x =>
      refine scope_builds (builds_ite (builds_fail _) ?_)
      refine leaf_builds (.name (.var x)) ?_ (fun _ => rfl) K.var rfl
      exact nofun
    | iri | prefixed => exact iri_leaf
    | blank label =>
      exact leaf_builds (t := if scope.data then .blank label else _) (.name (.label label)) nofun (fun _ => rfl)
        K.label rfl
    | string value => exact skip_string fun lexeme => literal_builds lexeme
    | integer | decimal | double => exact number_builds false
    | tag => exact builds_fail _
    | word w =>
      refine builds_ite ?_ (builds_fail _)
      refine leaf_builds (.bare w.lower Xsd.boolean) ?_ (fun _ => rfl) K.boolean rfl
      exact nofun
    | symbol s =>
      cases s with
      | openBracket =>
        refine ahead_builds 1 fun second => ?_
        cases closed : isSymbol .closeBracket second with
        | false => exact builds_fail _
        | true =>
          cases isSymbol_eq closed
          exact brackets_builds
      | plus =>
        refine ahead_builds 1 fun second => builds_ite ?_ (builds_fail _)
        exact skip_on (fun _ => rfl) (number_builds false)
      | minus =>
        refine ahead_builds 1 fun second => builds_ite ?_ (builds_fail _)
        exact skip_on (fun _ => rfl) (number_builds true)
      | _ => exact builds_fail _

theorem namedGraph_builds {l : Option Lexeme} (graph : isGraphName l = true) : Builds K scope (Ahead 0 l) term
    (Written (fun name : GraphName => [name.leaf]) (GraphName.term scope.data)) := by
  cases l with
  | none => cases graph
  | some l =>
    cases l with
    | iri | prefixed => exact peek_known (iri_written.weaken fun _ _ ⟨v, own, same⟩ => ⟨.iri v, own, same⟩)
    | blank label =>
      refine peek_known (skip_leaf (.name (.label label)) ?_ (fun _ => rfl) K.label ?_)
      · exact nofun
      · exact builds_pure ⟨.name (.label label), rfl, rfl⟩
    | _ => cases graph

theorem graphName_builds : Builds K scope pre graphName
    (Written (fun name : GraphName => [name.leaf]) (GraphName.term scope.data)) := by
  refine peek_builds fun l => scope_builds ?_
  split
  · rename_i name query
    refine skip_leaf (.name (.var name)) ?_ (fun _ => rfl) K.var (builds_pure ⟨.name (.var name), rfl, rfl⟩)
    exact nofun
  · split
    · rename_i graph
      exact namedGraph_builds graph
    · exact builds_fail _

theorem verbTerm_builds : Builds K scope pre verbTerm (IsLeaf scope) := by
  refine peek_builds fun l => ?_
  split
  · refine builds_ite ?_ iri_leaf
    refine leaf_builds (.iri Rdf.type) ?_ (fun _ => rfl) (fun _ => K.named K.type) rfl
    exact nofun
  · exact term_builds
  · exact iri_leaf

theorem verb_builds : Builds K scope pre verb (IsLeaf scope) := by
  refine peek_builds fun l => builds_ite (builds_fail _) ?_
  exact verbTerm_builds.reads fun leaf => peek_builds fun l => builds_ite (builds_fail _)
    (builds_pure ⟨leaf, rfl, rfl⟩)

theorem tripleGraph_builds : Builds K scope pre tripleGraph
    (Written Option.toList (graphOf scope)) := by
  refine scope_builds (peek_builds fun l => builds_ite ?_ (builds_pure ⟨none, rfl, rfl⟩))
  exact term_builds.weaken fun _ _ ⟨leaf, own, same⟩ => ⟨some leaf, own, same⟩

abbrev IsNode (scope : Scope) : List Leaf → Term × List Quad → Prop :=
  Written Node.leaves fun node => (node.term scope.data, node.quads scope)

abbrev AreProperties (scope : Scope) (subject : Term) : List Leaf → List Quad → Prop :=
  Written Tree.Properties.leaves (Tree.Properties.quads scope subject)

def ReadsProperties (K : Knowledge) (inner : Properties) : Prop :=
  ∀ scope subject, Builds K scope Anywhere (inner subject) (AreProperties scope subject)

variable {inner : Properties}

theorem bracketed_builds (h : ReadsProperties K inner) :
    Builds K scope pre (bracketed? inner) fun leaves found =>
      found = none ∧ leaves = [] ∨ ∃ n ps, leaves = (Node.bracketed n ps).leaves ∧
        found = some ((Node.bracketed n ps).term scope.data, (Node.bracketed n ps).quads scope) := by
  refine peek_builds fun l => ahead_builds 1 fun second => ?_
  split
  · rename_i opens
    cases isSymbol_eq (Bool.and_eq_true_iff.1 opens).1
    refine Builds.started (bracket_builds fun n => ?_) fun _ => And.left
    refine (h scope _).reads fun ps => (expectSymbol_quiet (by decide)).then fun _ => ?_
    exact builds_pure (.inr ⟨n, ps, by rw [List.append_nil]; rfl, rfl⟩)
  · exact builds_pure (.inl ⟨rfl, rfl⟩)

theorem object_builds (h : ReadsProperties K inner) : Builds K scope pre (object inner) (IsNode scope) := by
  refine onSymbol_builds fun _ => builds_ite (builds_fail _) ?_
  refine (bracketed_builds h).bind fun found leaves read => ?_
  rcases read with ⟨rfl, rfl⟩ | ⟨n, ps, own, rfl⟩
  · exact term_builds.gives Node.leaf (fun _ => rfl) fun _ => rfl
  · exact builds_pure ⟨.bracketed n ps, by rw [List.append_nil, own], rfl⟩

theorem objects_builds (h : ReadsProperties K inner) (subject predicate : Term) :
    Builds K scope pre (objects inner subject predicate)
      (Written Objects.leaves (Objects.quads scope subject predicate)) := by
  refine builds_nonempty_loop ?_ fun os => ?_
  · refine (object_builds h).reads fun node => tripleGraph_builds.reads fun graph? => ?_
    exact (acceptSymbol_quiet (by decide)).then fun more =>
      builds_pure (stepped more ⟨.one node graph?, by simp [Objects.leaves], rfl⟩)
  · refine (object_builds h).reads fun node => tripleGraph_builds.reads fun graph? => ?_
    exact (acceptSymbol_quiet (by decide)).then fun more =>
      builds_pure (stepped more ⟨.also os node graph?, by simp [Objects.leaves], rfl⟩)

theorem skipSemicolons_quiet : Builds K scope pre skipSemicolons Quiet := by
  refine builds_loop (fun leaves _ quiet => ?_) rfl
  rw [quiet]
  refine (acceptSymbol_quiet (by decide)).then fun more => ?_
  cases more <;> exact builds_pure rfl

theorem propertiesWith_builds (h : ReadsProperties K inner) : ReadsProperties K (propertiesWith inner) := by
  intro scope subject
  have more : ∀ (leaves : List Leaf) {found : List Quad}, AreProperties scope subject leaves found →
      Builds K scope Anywhere (do
        if ← acceptSymbol .semicolon then
          skipSemicolons
          return if startsVerb (← peek?) then .yield found else .done found
        else return .done found) fun last => Stepped (AreProperties scope subject) (leaves ++ last) := by
    intro leaves found whole
    rw [← List.append_nil leaves] at whole
    refine (acceptSymbol_quiet (by decide)).then fun _ => builds_ite ?_ (builds_pure whole)
    exact skipSemicolons_quiet.then fun _ => peek_builds fun l => builds_pure (stepped (startsVerb l) whole)
  refine builds_nonempty_loop ?_ fun ps => ?_
  · refine verb_builds.reads fun verb => (objects_builds h subject _).reads fun os => ?_
    exact more (Tree.Properties.one verb os).leaves ⟨.one verb os, rfl, rfl⟩
  · refine verb_builds.reads fun verb => (objects_builds h subject _).reads fun os => ?_
    have whole := more (Tree.Properties.also ps verb os).leaves ⟨.also ps verb os, rfl, rfl⟩
    refine whole.weaken fun _ _ kept => ?_
    simpa [Tree.Properties.leaves] using kept

theorem propertiesTo_builds (depth : Nat) : ReadsProperties K (propertiesTo depth) := by
  induction depth with
  | zero => exact fun _ _ => builds_fail _
  | succ depth ih => exact propertiesWith_builds ih

theorem properties_builds : ReadsProperties K properties := fun scope subject =>
  cursor_builds fun _ _ => (propertiesTo_builds _ scope subject).anywhere

abbrev IsStatement (scope : Scope) : List Leaf → List Quad → Prop :=
  Written Statement.leaves (Statement.quads scope)

theorem sameSubject_builds : Builds K scope pre sameSubject (IsStatement scope) := by
  refine onSymbol_builds fun _ => builds_ite (builds_fail _) ?_
  refine (bracketed_builds properties_builds).bind fun found leaves read => ?_
  rcases read with ⟨rfl, rfl⟩ | ⟨n, ps, rfl, rfl⟩
  · refine term_builds.reads fun leaf => (properties_builds scope _).weaken fun _ _ ⟨ps, own, same⟩ => ?_
    exact ⟨.described (.leaf leaf) ps, by rw [own]; rfl, by rw [same]; rfl⟩
  · refine peek_builds fun l => builds_ite ?_ (builds_pure ⟨.bracketed n ps, List.append_nil _, rfl⟩)
    exact (properties_builds scope _).anywhere.adds (.described (.bracketed n ps)) (fun _ => rfl) fun _ => rfl

abbrev AreStatements (scope : Scope) : List Leaf → List Quad → Prop :=
  Written (fun ss : List Statement => ss.flatMap Statement.leaves) (quadsOf scope)

theorem triples_builds : Builds K scope pre triples (AreStatements scope) := by
  refine builds_tree_loop [] rfl rfl fun ss => onTriple_builds fun _ => builds_ite ?_ ?_
  · refine sameSubject_builds.reads fun s => (acceptSymbol_quiet (by decide)).then fun more => ?_
    exact builds_pure (stepped more ⟨ss ++ [s], by simp, by simp [quadsOf]⟩)
  · exact builds_pure ⟨ss, List.append_nil _, rfl⟩

abbrev IsExpression (scope : Scope) : List Leaf → Expression → Prop :=
  Written Condition.leaves (Condition.expression scope)

abbrev AreExpressions (scope : Scope) : List Leaf → List Expression → Prop :=
  Written Conditions.leaves (Conditions.expressions scope)

abbrev IsGroup (scope : Scope) : List Leaf → Operation → Prop := Written Tree.Group.leaves (Tree.Group.pattern scope)

/-- Readers for what stands inside of brackets, whose answers are those of trees. -/
structure NestedBuilds (K : Knowledge) (scope : Scope) (nested : Nested) : Prop where
  expression : Builds K scope Anywhere nested.expression (IsExpression scope)
  group : Builds K scope Anywhere nested.group (IsGroup scope)

variable {nested : Nested}

theorem operator_quiet (choices : List Operator) : Builds K scope pre (operator? choices) Quiet := by
  refine peek_builds fun l => ?_
  split
  · rename_i op found
    have symbol : isSymbol op.symbol l = true := by simpa using List.find?_some found
    cases isSymbol_eq symbol
    refine skip_quiet (fun n => ?_) fun _ => builds_pure (P := Quiet) rfl
    cases op <;> rfl
  · exact builds_pure (P := Quiet) rfl

theorem termExpression_builds : Builds K scope pre (do return .term (← term)) (IsExpression scope) :=
  term_builds.gives Condition.leaf (fun _ => rfl) fun _ => rfl

theorem chain_builds {choices : List Operator} {operand : Reader Expression}
    (h : Builds K scope Anywhere operand (IsExpression scope)) :
    Builds K scope pre (chain choices operand) (IsExpression scope) := by
  refine h.anywhere.reads fun first => ?_
  refine builds_loop (I := fun more e => IsExpression scope (first.leaves ++ more) e) ?_ ⟨first, List.append_nil _, rfl⟩
  rintro more _ ⟨left, own, rfl⟩
  refine (operator_quiet choices).then fun op? => ?_
  cases op? with
  | none => exact builds_pure ⟨left, by rw [List.append_nil, own], rfl⟩
  | some op =>
    refine h.reads fun right => builds_pure ⟨.binary op left right, ?_, rfl⟩
    rw [List.append_nil, ← List.append_assoc, own]
    rfl

theorem expressionList_builds (h : NestedBuilds K scope nested) :
    Builds K scope pre (expressionList nested) (AreExpressions scope) := by
  refine (expectSymbol_quiet (by decide)).then fun _ => (acceptSymbol_quiet (by decide)).then fun _ => ?_
  refine builds_ite (builds_pure ⟨.none, rfl, rfl⟩) ?_
  have listed : Builds K scope Anywhere (loop (expressionsRound nested) []) (AreExpressions scope) := by
    refine builds_tree_loop .none rfl rfl fun cs => h.expression.reads fun c => ?_
    exact (acceptSymbol_quiet (by decide)).then fun more =>
      builds_pure (stepped more ⟨.also cs c, by simp [Conditions.leaves], rfl⟩)
  exact listed.reads fun cs => (expectSymbol_quiet (by decide)).then fun _ => builds_tree cs

theorem parenthesized_builds (h : NestedBuilds K scope nested) :
    Builds K scope (Ahead 0 (some (.symbol .openParen))) (parenthesized nested) (IsExpression scope) :=
  skip_quiet (fun _ => rfl) fun _ => h.expression.reads fun c =>
    (expectSymbol_quiet (by decide)).then fun _ => builds_tree c

theorem existence_builds (h : NestedBuilds K scope nested) (negated : Bool) :
    Builds K scope pre (do return .existence negated (← nested.group)) (IsExpression scope) :=
  h.group.anywhere.gives (Condition.existence negated) (fun _ => rfl) fun _ => rfl

theorem wordExpression_builds (h : NestedBuilds K scope nested) (w lower : Text) (after : Option Lexeme) :
    Builds K scope (fun c => Ahead 0 (some (.word w)) c ∧ Ahead 1 after c) (wordExpression nested lower after)
      (IsExpression scope) := by
  refine builds_ite termExpression_builds (builds_ite (skip_on (fun _ => rfl) (existence_builds h false)) ?_)
  split
  · rename_i negated
    obtain ⟨v, same⟩ := isWord_eq (Bool.and_eq_true_iff.1 negated).2
    subst same
    exact skip_on (fun _ => rfl) (skip_quiet (fun _ => rfl) fun _ => existence_builds h true)
  · refine builds_ite (builds_fail _) ?_
    cases Builtin.ofName? lower with
    | none => exact builds_fail _
    | some f =>
      exact skip_on (fun _ => rfl) ((expressionList_builds h).gives (Condition.builtin f) (fun _ => rfl) fun _ => rfl)

theorem primary_builds (h : NestedBuilds K scope nested) :
    Builds K scope pre (primary nested) (IsExpression scope) := by
  have called : ∀ {pre}, Builds K scope pre (do
      let function ← iri
      if ← onSymbol .openParen then return .call function (← expressionList nested)
      else return .term function) (IsExpression scope) := by
    intro pre
    refine iri_written.reads fun v => onSymbol_builds fun _ => builds_ite ?_ ?_
    · exact (expressionList_builds h).adds (Condition.call v) (fun _ => rfl) fun _ => rfl
    · exact builds_pure ⟨.leaf (.iri v), rfl, rfl⟩
  refine peek_builds fun l => ?_
  split
  · exact parenthesized_builds h
  · exact ahead_builds 1 fun after => wordExpression_builds h _ _ after
  · exact called
  · exact called
  all_goals first | exact termExpression_builds | exact builds_fail _

theorem unary_builds (h : NestedBuilds K scope nested) : Builds K scope pre (unary nested) (IsExpression scope) := by
  refine (acceptSymbol_quiet (by decide)).then fun _ =>
    builds_ite ((primary_builds h).gives .negation (fun _ => rfl) fun _ => rfl) ?_
  refine (acceptSymbol_quiet (by decide)).then fun _ => builds_ite (primary_builds h) ?_
  refine (acceptSymbol_quiet (by decide)).then fun _ => builds_ite (peek_builds fun l => builds_ite ?_ ?_)
    (primary_builds h)
  · exact (number_builds true).gives Condition.leaf (fun _ => rfl) fun _ => rfl
  · exact (primary_builds h).gives .opposite (fun _ => rfl) fun _ => rfl

theorem membership_quiet : Builds K scope pre membership? Quiet := by
  refine (acceptWord_quiet _).then fun _ => builds_ite (builds_pure rfl) ?_
  refine peek_builds fun l => ahead_builds 1 fun second => ?_
  split
  · rename_i both
    obtain ⟨v, same⟩ := isWord_eq (Bool.and_eq_true_iff.1 both).1
    obtain ⟨v', same'⟩ := isWord_eq (Bool.and_eq_true_iff.1 both).2
    subst same same'
    exact skip_on (fun _ => rfl) (skip_quiet (fun _ => rfl) fun _ => builds_pure rfl)
  · exact builds_pure rfl

theorem sum_builds (h : NestedBuilds K scope nested) : Builds K scope pre (sum nested) (IsExpression scope) :=
  chain_builds (chain_builds (unary_builds h))

theorem comparison_builds (h : NestedBuilds K scope nested) :
    Builds K scope pre (comparison nested) (IsExpression scope) := by
  refine (sum_builds h).reads fun left => (operator_quiet _).then fun op? => ?_
  cases op? with
  | some op => exact (sum_builds h).adds (Condition.binary op left) (fun _ => rfl) fun _ => rfl
  | none =>
    refine membership_quiet.then fun negated? => ?_
    cases negated? with
    | some negated => exact (expressionList_builds h).adds (Condition.member negated left) (fun _ => rfl) fun _ => rfl
    | none => exact builds_tree left

theorem disjunction_builds (h : NestedBuilds K scope nested) :
    Builds K scope pre (disjunction nested) (IsExpression scope) :=
  chain_builds (chain_builds (comparison_builds h))

theorem constraint_builds (h : NestedBuilds K scope nested) :
    Builds K scope pre (constraint nested) (IsExpression scope) := by
  refine peek_builds fun l => ?_
  split
  · exact parenthesized_builds h
  all_goals first | exact primary_builds h | exact builds_fail _

abbrev AreParts (scope : Scope) : List Leaf → Reader.Group → Prop := Written Tree.Group.leaves (Tree.Group.read scope)

theorem alternatives_builds (h : NestedBuilds K scope nested) :
    Builds K scope pre (alternatives nested) (Written Choice.leaves (Choice.pattern scope)) := by
  refine h.group.anywhere.reads fun first => ?_
  refine builds_loop (I := fun more => Written Choice.leaves (Choice.pattern scope) (first.leaves ++ more)) ?_
    ⟨.single first, List.append_nil _, rfl⟩
  rintro more _ ⟨left, own, rfl⟩
  refine (acceptWord_quiet _).then fun _ => builds_ite ?_ (builds_pure ⟨left, by rw [List.append_nil, own], rfl⟩)
  refine h.group.reads fun right => builds_pure ⟨.either left right, ?_, rfl⟩
  rw [List.append_nil, ← List.append_assoc, own]
  rfl

theorem groupPart_builds (h : NestedBuilds K scope nested) (t : Tree.Group) :
    Builds K scope pre (groupPart nested (t.read scope)) fun more => AreParts scope (t.leaves ++ more) := by
  refine (acceptWord_quiet _).then fun _ => builds_ite ?_ ((acceptWord_quiet _).then fun _ => builds_ite ?_
    ((acceptWord_quiet _).then fun _ => builds_ite ?_ (onSymbol_builds fun _ => builds_ite ?_
      ((acceptWord_quiet _).then fun _ => builds_ite ?_ (peek_builds fun next => ?_)))))
  · exact h.group.adds (Tree.Group.optional t) (fun _ => rfl) fun _ => rfl
  · exact h.group.adds (Tree.Group.minus t) (fun _ => rfl) fun _ => rfl
  · refine graphName_builds.reads fun name => h.group.reads fun g => builds_pure ⟨.graph t name g, ?_, rfl⟩
    rw [List.append_nil]
    rfl
  · exact (alternatives_builds h).adds (Tree.Group.choice t) (fun _ => rfl) fun _ => rfl
  · exact (constraint_builds h).adds (Tree.Group.filter t) (fun _ => rfl) fun _ => rfl
  · cases unsupportedParts.find? fun w => isWord w next <;> exact builds_fail _

theorem groupParts_builds (h : NestedBuilds K scope nested) :
    Builds K scope pre (groupParts nested) (AreParts scope) := by
  refine builds_tree_loop .empty rfl rfl fun t => ?_
  refine (acceptSymbol_quiet (by decide)).then fun _ => builds_ite (builds_pure ⟨t, List.append_nil _, rfl⟩) ?_
  refine atEnd_builds fun _ => builds_ite (builds_fail _) (onTriple_builds fun _ => builds_ite ?_ ?_)
  · exact triples_builds.reads fun ss => builds_pure ⟨.triples t ss, by simp [Tree.Group.leaves], rfl⟩
  · refine (groupPart_builds h t).bind fun _ more read => ?_
    refine (acceptSymbol_quiet (by decide)).discard.then fun _ => builds_pure ?_
    rwa [List.append_nil]

theorem groupPattern_builds (h : NestedBuilds K scope nested) :
    Builds K scope pre (groupPattern nested) (IsGroup scope) := by
  refine (expectSymbol_quiet (by decide)).then fun _ => onWord_builds fun _ => builds_ite (builds_fail _) ?_
  exact (groupParts_builds h).gives id (fun _ => rfl) fun _ => rfl

theorem nestedTo_builds (depth : Nat) : NestedBuilds K scope (nestedTo depth) := by
  induction depth with
  | zero => exact ⟨builds_fail _, builds_fail _⟩
  | succ depth ih => exact ⟨disjunction_builds ih, groupPattern_builds ih⟩

theorem group_builds : Builds K scope pre group (IsGroup scope) :=
  cursor_builds fun _ _ => (nestedTo_builds _).group.anywhere

theorem expression_builds : Builds K scope pre expression (IsExpression scope) :=
  cursor_builds fun _ _ => (nestedTo_builds _).expression.anywhere

abbrev IsOrderCondition (scope : Scope) : List Leaf → OrderCondition → Prop :=
  Written (fun o : Bool × Condition => o.2.leaves) fun o => .on o.1 (o.2.expression scope)

theorem directed_builds (ascending : Bool) : Builds K scope pre (directed ascending) (IsOrderCondition scope) := by
  refine (expectSymbol_quiet (by decide)).then fun _ => expression_builds.reads fun c => ?_
  refine (expectSymbol_quiet (by decide)).then fun _ => ?_
  exact builds_pure ⟨(ascending, c), List.append_nil _, rfl⟩

theorem orderCondition_builds : Builds K scope pre orderCondition (IsOrderCondition scope) := by
  refine (acceptWord_quiet _).then fun _ => builds_ite (directed_builds true) ?_
  refine (acceptWord_quiet _).then fun _ => builds_ite (directed_builds false) (peek_builds fun l => ?_)
  split
  · exact term_builds.gives (fun leaf => (true, .leaf leaf)) (fun _ => rfl) fun _ => rfl
  · refine cursor_builds fun c _ => ?_
    exact (constraint_builds (nestedTo_builds _)).gives (Prod.mk true) (fun _ => rfl) fun _ => rfl

abbrev IsOrder (scope : Scope) : List Leaf → List OrderCondition → Prop :=
  Written (fun order : List (Bool × Condition) => order.flatMap (·.2.leaves))
    (·.map fun (ascending, key) => .on ascending (key.expression scope))

theorem orderConditions_builds : Builds K scope pre orderConditions (IsOrder scope) := by
  refine builds_tree_loop [] rfl rfl fun order => peek_builds fun l => builds_ite ?_ ?_
  · exact orderCondition_builds.reads fun o => builds_pure ⟨order ++ [o], by simp, by simp⟩
  · exact builds_pure ⟨order, List.append_nil _, rfl⟩

theorem ordered_builds (op : Operation) : Builds K scope pre (ordered op)
    (Written (fun order : List (Bool × Condition) => order.flatMap (·.2.leaves))
      fun order => Shape.ordered scope ⟨order, none, none⟩ op) := by
  refine onWord_builds fun _ => onWord_builds fun _ => builds_ite (builds_fail _) ?_
  refine (acceptWord_quiet _).then fun _ => builds_ite ?_ (builds_pure ⟨[], rfl, rfl⟩)
  refine (expectWord_quiet _).then fun _ => orderConditions_builds.reads fun order => ?_
  cases order with
  | nil => exact builds_fail _
  | cons o order => exact builds_pure ⟨o :: order, List.append_nil _, rfl⟩

theorem rowCount_quiet : Builds K scope pre rowCount Quiet := by
  refine peek_builds fun l => ?_
  split
  · exact builds_ite (skip_quiet (fun _ => rfl) fun _ => builds_pure rfl) (builds_fail _)
  · exact builds_fail _

theorem sliceBound_quiet (bounds : Option Nat × Option Nat) : Builds K scope pre (sliceBound bounds) Quiet := by
  have counted : ∀ {l : Option Lexeme} {w : Text} {f : Nat → Option Nat × Option Nat}, isWord w l = true →
      Builds K scope (Ahead 0 l) (do skip; return f (← rowCount)) Quiet := by
    intro l w f word
    obtain ⟨v, same⟩ := isWord_eq word
    subst same
    exact skip_quiet (fun _ => rfl) fun _ => rowCount_quiet.then fun _ => builds_pure rfl
  refine onWord_known fun l => ?_
  split
  · rename_i limit
    exact counted (f := fun n => (bounds.1, some n)) (Bool.and_eq_true_iff.1 limit).2
  · refine onWord_known fun l => ?_
    split
    · rename_i offset
      exact counted (f := fun n => (some n, bounds.2)) (Bool.and_eq_true_iff.1 offset).2
    · exact builds_pure rfl

theorem sliced_builds (op : Operation) : Builds K scope pre (sliced op)
    (Written (fun _ => []) fun bounds : Option Nat × Option Nat => Shape.sliced ⟨[], bounds.1, bounds.2⟩ op) := by
  refine (sliceBound_quiet _).then fun first => (sliceBound_quiet _).then fun bounds => ?_
  refine onWord_builds fun _ => builds_ite (builds_fail _) ?_
  match bounds with
  | (none, none) => exact builds_pure ⟨(none, none), rfl, rfl⟩
  | (none, some length) => exact builds_pure ⟨(none, some length), rfl, rfl⟩
  | (some start, none) => exact builds_pure ⟨(some start, none), rfl, rfl⟩
  | (some start, some length) => exact builds_pure ⟨(some start, some length), rfl, rfl⟩

theorem shaped_builds (op : Operation) {f : Operation → Reader β} {Q : List Leaf → β → Prop}
    (h : ∀ shape : Shape, Builds K scope Anywhere (f (shape.sliced (shape.ordered scope op))) fun more b =>
      Q (shape.leaves ++ more) b) :
    Builds K scope pre (do f (← sliced (← ordered op))) Q :=
  (ordered_builds op).reads fun order => (sliced_builds _).reads fun bounds => h ⟨order, bounds.1, bounds.2⟩

abbrev IsQuery (scope : Scope) : List Leaf → Operation → Prop := Written Query.leaves (Query.root scope)

theorem noDataset_quiet : Builds K scope pre noDataset Quiet :=
  onWord_builds fun _ => builds_ite (builds_fail _) (builds_pure rfl)

theorem whereClause_builds : Builds K scope pre whereClause (IsGroup scope) :=
  noDataset_quiet.then fun _ => (acceptWord_quiet _).discard.then fun _ => group_builds

theorem projected_builds : Builds K scope pre projected?
    (Written (fun chosen : Option (List Text) => (chosen.getD []).map (.name <| .var ·)) id) := by
  refine (acceptSymbol_quiet (by decide)).then fun _ => builds_ite (builds_pure ⟨none, rfl, rfl⟩) ?_
  have listed : Builds K scope Anywhere (loop projectedRound [])
      (Written (fun found : List Text => found.map (.name <| .var ·)) id) := by
    refine builds_tree_loop [] rfl rfl fun (found : List Text) => peek_builds fun l => ?_
    split
    · rename_i name
      refine skip_leaf (.name (.var name)) ?_ (fun _ => rfl) K.var (builds_pure ⟨found ++ [name], ?_, rfl⟩)
      · exact nofun
      · simp
    · exact builds_fail _
    · exact builds_pure ⟨found, List.append_nil _, rfl⟩
  exact listed.reads fun found => builds_ite (builds_fail _) (builds_pure ⟨some found, List.append_nil _, rfl⟩)

theorem selectQuery_builds : Builds K scope pre selectQuery (IsQuery scope) := by
  refine (acceptWord_quiet _).then fun isDistinct => ?_
  have rest : ∀ isReduced, Builds K scope Anywhere (do
      let chosen ← projected?
      let pattern ← ordered (← whereClause)
      sliced (wrapped isDistinct isReduced (.project (chosen.getD pattern.inScope) pattern))) (IsQuery scope) := by
    intro isReduced
    refine projected_builds.reads fun chosen => whereClause_builds.reads fun g => ?_
    refine (ordered_builds _).reads fun order => (sliced_builds _).weaken fun _ _ ⟨bounds, own, same⟩ => ?_
    exact ⟨.select isDistinct isReduced chosen g ⟨order, bounds.1, bounds.2⟩, by
      rw [own, List.append_nil]
      rfl, same⟩
  cases isDistinct with
  | true => exact rest false
  | false => exact (acceptWord_quiet _).then rest

theorem pattern_builds (leaves : List Leaf) {f : Operation → Operation} {q : Tree.Group → Shape → Query}
    (hl : ∀ g shape, (q g shape).leaves = leaves ++ (g.leaves ++ shape.leaves))
    (hq : ∀ g shape, (q g shape).root scope = f (shape.sliced (shape.ordered scope (g.pattern scope)))) :
    Builds K scope pre (do return f (← sliced (← ordered (← whereClause)))) fun more =>
      IsQuery scope (leaves ++ more) := by
  refine whereClause_builds.reads fun g => shaped_builds _ fun shape => ?_
  exact builds_pure ⟨q g shape, by rw [hl, List.append_nil], (hq g shape).symm⟩

theorem askQuery_builds : Builds K scope pre askQuery (IsQuery scope) :=
  pattern_builds [] (q := .ask) (fun _ _ => rfl) fun _ _ => rfl

theorem template_builds : Builds K scope pre template (AreStatements scope) :=
  (expectSymbol_quiet (by decide)).then fun _ => triples_builds.reads fun ss =>
    (expectSymbol_quiet (by decide)).then fun _ =>
      builds_pure ⟨ss, List.append_nil _, rfl⟩

theorem constructQuery_builds : Builds K scope pre constructQuery (IsQuery scope) := by
  refine onSymbol_builds fun _ => builds_ite ?_ ?_
  · exact template_builds.reads fun ss => pattern_builds _ (q := .construct ss) (fun _ _ => rfl) fun _ _ => rfl
  · refine noDataset_quiet.then fun _ => (expectWord_quiet _).then fun _ => template_builds.reads fun ss => ?_
    refine shaped_builds _ fun shape => builds_pure ⟨.constructWhere ss shape, ?_, rfl⟩
    rw [List.append_nil]
    rfl

theorem targets_builds : Builds K scope pre targets
    (Written id fun targets : List Leaf => targets.map (·.term scope.data)) := by
  refine (acceptSymbol_quiet (by decide)).then fun _ => builds_ite (builds_pure ⟨[], rfl, rfl⟩) ?_
  have listed : Builds K scope Anywhere (loop targetsRound [])
      (Written id fun targets : List Leaf => targets.map (·.term scope.data)) := by
    refine builds_tree_loop [] rfl rfl fun (found : List Leaf) => peek_builds fun l => ?_
    have more : ∀ {pre}, Builds K scope pre (do return .yield (found.map (·.term scope.data) ++ [← term]))
        fun more => Stepped (Written id fun targets : List Leaf => targets.map (·.term scope.data)) (found ++ more) :=
      term_builds.reads fun leaf => builds_pure ⟨found ++ [leaf], rfl, by simp⟩
    split
    · exact more
    · exact more
    · exact more
    · exact builds_pure ⟨found, List.append_nil _, rfl⟩
  refine listed.reads fun found => builds_ite (builds_fail _) ?_
  exact builds_pure ⟨found, List.append_nil _, rfl⟩

theorem describeQuery_builds : Builds K scope pre describeQuery (IsQuery scope) := by
  refine targets_builds.reads fun chosen => noDataset_quiet.then fun _ => ?_
  have rest : ∀ g : Tree.Group, Builds K scope Anywhere (do
      let op := g.pattern scope
      let shown := if (chosen.map (·.term scope.data)).isEmpty then op.inScope.map Term.var
        else chosen.map (·.term scope.data)
      return .describe shown (← sliced (← ordered op)))
      fun more => IsQuery scope (chosen ++ (g.leaves ++ more)) := by
    intro g
    refine shaped_builds _ fun shape => builds_pure ⟨.describe chosen g shape, ?_, ?_⟩
    · rw [List.append_nil]
      rfl
    · simp [Query.root]
  refine onWord_builds fun _ => onSymbol_builds fun _ => builds_ite ?_ (rest .empty)
  exact whereClause_builds.reads rest

theorem graphBlock_builds (graph : Term) :
    Builds K scope pre (graphBlock graph) (AreStatements { scope with graph }) := by
  refine (expectSymbol_quiet (by decide)).then fun _ => ?_
  change Builds K { scope with graph } Anywhere (loop _ []) _
  refine builds_tree_loop [] rfl rfl fun ss => ?_
  refine (acceptSymbol_quiet (by decide)).then fun _ => builds_ite (builds_pure ⟨ss, List.append_nil _, rfl⟩) ?_
  refine onTriple_builds fun _ => builds_ite (triples_builds.reads fun ss' => ?_) (builds_fail _)
  exact builds_pure ⟨ss ++ ss', by simp, by simp [quadsOf]⟩

abbrev AreBlocks (scope : Scope) : List Leaf → List Quad → Prop :=
  Written (fun bs : List Block => bs.flatMap Block.leaves) fun bs => bs.flatMap (·.quads scope)

theorem quadData_builds : Builds K scope pre quadData (AreBlocks { scope with data := true }) := by
  change Builds K { scope with data := true } pre (expectSymbol .openBrace >>= fun _ => loop _ []) _
  refine (expectSymbol_quiet (by decide)).then fun _ => builds_tree_loop [] rfl rfl fun bs => ?_
  have rest : ∀ b : Block, Builds K { scope with data := true } Anywhere (do
        discard (acceptSymbol .dot)
        return .yield (bs.flatMap (·.quads { scope with data := true }) ++ b.quads { scope with data := true }))
      fun more => Stepped (AreBlocks { scope with data := true }) (bs.flatMap Block.leaves ++ (b.leaves ++ more)) := by
    intro b
    refine (acceptSymbol_quiet (by decide)).discard.then fun _ => builds_pure ⟨bs ++ [b], ?_, ?_⟩ <;> simp
  refine (acceptSymbol_quiet (by decide)).then fun _ => builds_ite (builds_pure ⟨bs, List.append_nil _, rfl⟩) ?_
  refine (acceptWord_quiet _).then fun _ => onTriple_builds fun _ => builds_ite ?_ (builds_ite ?_ ?_)
  · refine graphName_builds.reads fun name => (graphBlock_builds _).reads fun ss => ?_
    exact (rest (.graph name ss)).weaken fun more next => id
  · exact triples_builds.reads fun ss => rest (.triples ss)
  · exact Builds.bind (P := fun _ _ => False) (builds_fail _) fun _ _ => False.elim

abbrev AreUpdates (scope : Scope) : List Leaf → List Quad × List Quad → Prop :=
  Written (fun parts : List Update => parts.flatMap Update.leaves) fun parts =>
    (parts.flatMap (·.inserted { scope with data := true }), parts.flatMap (·.deleted { scope with data := true }))

theorem dataOf_builds (form : Text) : Builds K scope pre (dataOf form) (AreBlocks { scope with data := true }) :=
  (acceptWord_quiet _).then fun _ => builds_ite quadData_builds (builds_fail _)

theorem updateOperation_builds (parts : List Update) :
    Builds K scope pre (updateOperation (parts.flatMap (·.inserted { scope with data := true }),
      parts.flatMap (·.deleted { scope with data := true }))) fun more =>
        AreUpdates scope (parts.flatMap Update.leaves ++ more) := by
  refine (acceptWord_quiet _).then fun _ => builds_ite ?_ ((acceptWord_quiet _).then fun _ => builds_ite ?_
    (peek_builds fun next => ?_))
  · exact (dataOf_builds _).adds (fun bs => parts ++ [.insertion bs]) (by simp [Update.leaves])
      (by simp [Update.inserted, Update.deleted])
  · exact (dataOf_builds _).adds (fun bs => parts ++ [.deletion bs]) (by simp [Update.leaves])
      (by simp [Update.inserted, Update.deleted])
  · cases updateWords.find? fun w => isWord w next <;> exact builds_fail _

theorem updateRequest_builds : Builds K scope pre updateRequest (AreUpdates scope) := by
  refine builds_tree_loop [] rfl rfl fun parts => ?_
  refine prologue_quiet.then fun _ => atEnd_builds fun _ => builds_ite (builds_pure ⟨parts, List.append_nil _, rfl⟩) ?_
  refine (updateOperation_builds parts).bind fun _ leaves read => (acceptSymbol_quiet (by decide)).then fun more => ?_
  refine builds_pure (stepped more ?_)
  rwa [List.append_nil]

theorem content_builds : Builds K scope pre content (Written Tree.Request.leaves (Tree.Request.content scope)) := by
  have query : ∀ {r : Reader Operation}, Builds K scope Anywhere r (IsQuery scope) →
      Builds K scope Anywhere (do return .query (← r)) (Written Tree.Request.leaves (Tree.Request.content scope)) :=
    fun h => h.gives Tree.Request.query (fun _ => rfl) fun _ => rfl
  refine prologue_quiet.then fun _ => (acceptWord_quiet _).then fun _ => builds_ite (query selectQuery_builds) ?_
  refine (acceptWord_quiet _).then fun _ => builds_ite (query askQuery_builds) ?_
  refine (acceptWord_quiet _).then fun _ => builds_ite (query constructQuery_builds) ?_
  refine (acceptWord_quiet _).then fun _ => builds_ite (query describeQuery_builds) ?_
  refine peek_builds fun l => builds_ite ?_ (builds_fail _)
  exact updateRequest_builds.anywhere.gives Tree.Request.update (fun _ => rfl) fun _ => rfl

theorem statement_builds : Builds K scope pre statement (IsStatement scope) :=
  sameSubject_builds.reads fun s => atEnd_builds fun _ => builds_ite (builds_tree s)
    ((expectSymbol_quiet (by decide)).then fun _ => builds_tree s)

theorem insertion_builds : Builds K scope pre insertion (AreBlocks { scope with data := true }) :=
  (expectWord_quiet _).then fun _ => quadData_builds.reads fun bs =>
    (acceptSymbol_quiet (by decide)).discard.then fun _ => builds_pure ⟨bs, List.append_nil _, rfl⟩

abbrev IsDocument (scope : Scope) : List Leaf → Document → Prop :=
  Written (fun parts : List Part => parts.flatMap Part.leaves) (Tree.document scope)

theorem documentPart_builds (data : scope.data = true) (parts : List Part) :
    Builds K scope pre (documentPart (Tree.document scope parts)) fun more =>
      IsDocument scope (parts.flatMap Part.leaves ++ more) := by
  have none_ : IsDocument scope (parts.flatMap Part.leaves ++ []) (Tree.document scope parts) :=
    ⟨parts, List.append_nil _, rfl⟩
  have same : ({ scope with data := true } : Scope) = scope := by rw [← data]
  have one : ∀ {T : Type} {leavesOf : T → List Leaf} {readOf : T → List Quad} {add : List Quad → Document}
      {r : Reader (List Quad)} {pre} (part : T → Part), Builds K scope pre r (Written leavesOf readOf) →
      (∀ t, leavesOf t = (part t).leaves) → (∀ t, add (readOf t) = (part t).add scope (Tree.document scope parts)) →
      Builds K scope pre (do return add (← r)) fun more => IsDocument scope (parts.flatMap Part.leaves ++ more) :=
    fun part h hl hr => h.adds (fun t => parts ++ [part t]) (by simp [hl]) (by simp [hr, Tree.document])
  have named : ∀ {pre}, Builds K scope pre
      (do return (Tree.document scope parts).addStated (← graphBlock (← graphName)))
      fun more => IsDocument scope (parts.flatMap Part.leaves ++ more) := by
    intro pre
    refine graphName_builds.reads fun name => (graphBlock_builds _).reads fun ss => ?_
    exact builds_pure ⟨parts ++ [.graph name ss], by simp [Part.leaves], by simp [Tree.document, Part.add]⟩
  refine (acceptTag_quiet _).then fun _ => builds_ite ?_ ((acceptTag_quiet _).then fun _ => builds_ite ?_ ?_)
  · exact prefixDeclaration_quiet.then fun _ => (expectSymbol_quiet (by decide)).then fun _ => builds_pure none_
  · exact baseDeclaration_quiet.then fun _ => (expectSymbol_quiet (by decide)).then fun _ => builds_pure none_
  refine onWord_builds fun _ => onWord_builds fun _ => builds_ite (prologue_quiet.then fun _ => builds_pure none_) ?_
  refine (acceptWord_quiet _).then fun _ => builds_ite ?_ ((acceptWord_quiet _).then fun _ => builds_ite named ?_)
  · refine one .insertion insertion_builds (fun _ => rfl) fun _ => ?_
    rw [same]
    rfl
  refine onSymbol_builds fun _ => builds_ite (scope_builds ?_) (peek_builds fun l => ahead_builds 1 fun second =>
    builds_ite named ?_)
  · exact one .home (graphBlock_builds _) (fun _ => rfl) fun _ => rfl
  · exact one .statement statement_builds (fun _ => rfl) fun _ => rfl

theorem document_builds (data : scope.data = true) : Builds K scope pre document (IsDocument scope) := by
  refine builds_tree_loop [] rfl rfl fun parts => atEnd_builds fun _ => builds_ite ?_ ?_
  · exact builds_pure ⟨parts, List.append_nil _, rfl⟩
  · refine (documentPart_builds data parts).bind fun _ more read => builds_pure ?_
    rwa [List.append_nil]

theorem ends_of_peek {c : Cursor} (h : (c.tokens[0]?).map (·.lexeme) = none) : c.tokens = [] := by
  cases tokens : c.tokens with
  | nil => rfl
  | cons t rest =>
    rw [tokens] at h
    cases h

/-- A loop ends at the end of its input if its steps are done only there. -/
theorem loop_ends {step : α → Reader (ForInStep α)}
    (h : ∀ a c b after, step a scope c = .ok (.done b, after) → after.tokens = []) {a b : α} {c after : Cursor}
    (made : loop step a scope c = .ok (b, after)) : after.tokens = [] := by
  have repeats : ∀ fuel a c, iterate step fuel a scope c = .ok (b, after) → after.tokens = [] := by
    intro fuel
    induction fuel with
    | zero =>
      intro a c made
      unfold iterate fail at made
      split at made <;> cases made
    | succ fuel ih =>
      intro a c made
      rw [iterate, bind_apply] at made
      cases next : step a scope c with
      | error stop =>
        rw [next] at made
        cases made
      | ok read =>
        obtain ⟨read, c'⟩ := read
        rw [next] at made
        cases read with
        | yield a' => exact ih a' c' made
        | done b' =>
          cases made
          exact h a c b after next
  exact repeats _ a c made

theorem document_ends {c after : Cursor} {d : Document} (made : document scope c = .ok (d, after)) :
    after.tokens = [] := by
  refine loop_ends (fun d c d' after made => ?_) made
  change (if ((c.tokens[0]?).map (·.lexeme)).isNone = true then _ else _ : Reader _) scope c = _ at made
  split at made
  · rename_i ended
    cases made
    exact ends_of_peek (Option.isNone_iff_eq_none.1 ended)
  · rw [bind_apply] at made
    cases read : documentPart d scope c with
    | error stop =>
      rw [read] at made
      cases made
    | ok read' =>
      rw [read] at made
      cases made

theorem finished_ends {content : Content} {c after : Cursor} {request : Request}
    (made : finished content scope c = .ok (request, after)) : c.tokens = [] ∧ request.content = content := by
  change (if ((c.tokens[0]?).map (·.lexeme)).isNone = true then _ else _ : Reader _) scope c = _ at made
  split at made
  · rename_i ended
    cases made
    exact ⟨ends_of_peek (Option.isNone_iff_eq_none.1 ended), rfl⟩
  · unfold fail at made
    split at made <;> cases made

end Reader

open Reader

theorem Request.read_builds {K : Knowledge} {s : Text} {pre : Cursor → Prop} {P : List Leaf → Content → Prop}
    (builds : Builds K (.whole false .defaultGraph s.length) pre Reader.content P) {request : Request}
    (read : Request.read s = .ok request) {tokens : List Token} (scanned : Token.scan s = .ok tokens)
    (known : ∀ t ∈ tokens, K.lexeme t.lexeme) (start : pre { tokens }) :
    ∃ leaves : List Leaf, leaves.filterMap Leaf.item? = Item.ofLexemes 0 (tokens.map (·.lexeme)) ∧
      (∀ l ∈ leaves, K.leaf l) ∧ P leaves request.content := by
  unfold Request.read at read
  rw [scanned] at read
  obtain ⟨last, made⟩ := run_eq_ok read
  rw [bind_apply] at made
  cases first : Reader.content (.whole false .defaultGraph s.length) { tokens } with
  | error stop =>
    rw [first] at made
    cases made
  | ok read' =>
    rw [first] at made
    obtain ⟨content, after⟩ := read'
    obtain ⟨-, taken, leaves, split, -, items, good, p⟩ :=
      builds _ content after ⟨known, List.forall_mem_nil _, fun none_ => absurd rfl none_⟩ start first
    obtain ⟨ended, rfl⟩ := finished_ends made
    have all : tokens = taken := by
      rw [ended, List.append_nil] at split
      exact split
    exact ⟨leaves, by rw [all, ← items], good, p⟩

theorem Request.scanned_of_read {s : Text} {request : Request} (read : Request.read s = .ok request) :
    ∃ tokens, Token.scan s = .ok tokens := by
  unfold Request.read at read
  cases scanned : Token.scan s with
  | error e =>
    rw [scanned] at read
    cases read
  | ok tokens => exact ⟨tokens, rfl⟩

/-- A text that is read is written as a tree: its leaves are what stands in the text, in order, and
what is read from the tree is what the text is read as. -/
theorem Request.read_tree (K : Knowledge) {s : Text} {request : Request} (read : Request.read s = .ok request)
    (known : ∀ tokens, Token.scan s = .ok tokens → ∀ t ∈ tokens, K.lexeme t.lexeme) :
    ∃ tokens, Token.scan s = .ok tokens ∧ ∃ tree : Tree.Request,
      tree.leaves.filterMap Leaf.item? = Item.ofLexemes 0 (tokens.map (·.lexeme)) ∧ (∀ l ∈ tree.leaves, K.leaf l) ∧
      request.content = tree.content (.whole false .defaultGraph s.length) := by
  obtain ⟨tokens, scanned⟩ := scanned_of_read read
  obtain ⟨_, items, good, tree, rfl, same⟩ :=
    read_builds (content_builds : Builds K _ Anywhere _ _) read scanned (known tokens scanned) trivial
  exact ⟨tokens, scanned, tree, items, good, same⟩

theorem Document.read_tree (K : Knowledge) {s : Text} {graph : Term} {quads : List Quad}
    (read : Document.read s graph = .ok quads)
    (known : ∀ tokens, Token.scan s = .ok tokens → ∀ t ∈ tokens, K.lexeme t.lexeme) :
    ∃ tokens, Token.scan s = .ok tokens ∧ ∃ parts : List Part,
      (parts.flatMap Part.leaves).filterMap Leaf.item? = Item.ofLexemes 0 (tokens.map (·.lexeme)) ∧
      (∀ l ∈ parts.flatMap Part.leaves, K.leaf l) ∧
      quads = (Tree.document (.whole true graph s.length) parts).quads := by
  unfold Document.read at read
  cases scanned : Token.scan s with
  | error e =>
    rw [scanned] at read
    cases read
  | ok tokens =>
    rw [scanned] at read
    simp only [bind, Except.bind] at read
    cases ran : run document (.whole true graph s.length) tokens with
    | error e =>
      rw [ran] at read
      cases read
    | ok d =>
      rw [ran] at read
      cases read
      obtain ⟨after, made⟩ := run_eq_ok ran
      obtain ⟨-, taken, leaves, split, -, items, good, parts, rfl, same⟩ :=
        (document_builds rfl : Builds K _ Anywhere _ _) _ d after
          ⟨known tokens scanned, List.forall_mem_nil _, fun none_ => absurd rfl none_⟩ trivial made
      have all : tokens = taken := by
        rw [document_ends made, List.append_nil] at split
        exact split
      exact ⟨tokens, rfl, parts, by rw [all, ← items], good, by rw [same]⟩

end QuadStore.Sparql
