import QuadStore.Proofs.ReaderPace

namespace QuadStore.Sparql.Reader

variable {bound depth : Nat} {pre : Cursor → Prop}

theorem skip_upcoming {l : Lexeme} (next : ∀ c, pre c → upcoming c = some l) : Paced bound depth pre skip Always :=
  skip_next.started fun c start => ⟨(trivial : Anywhere c), next c start⟩

theorem expand_paced {name : Text} {offset : Nat} (inside : offset ≤ bound) :
    Paced bound depth pre (expand name offset) Perhaps := by
  refine cursor_paced fun c _ => ?_
  split
  · exact pure_paced id
  · exact failWith_paced inside nofun

theorem iriRef_paced : Paced bound depth pre iriRef Always := by
  refine peek_paced fun l => ?_
  split
  · exact skip_next.begins fun _ => cursor_paced fun _ _ => pure_paced id
  · exact fail_paced nofun

theorem iri_paced : Paced bound depth pre iri Always := by
  refine cursor_paced fun c inside => ?_
  have next : ∀ {t rest}, c.tokens = t :: rest → ∀ d, pre d ∧ d = c → upcoming d = some t.lexeme := by
    rintro t rest tokens d ⟨-, rfl⟩
    rw [upcoming, tokens]
    rfl
  split
  · rename_i value offset rest tokens
    refine (skip_upcoming (next tokens)).begins fun _ => ?_
    exact cursor_paced fun _ _ => pure_paced id
  · rename_i name offset rest tokens
    have own : offset ≤ bound := inside ⟨.prefixed name, offset⟩ (tokens ▸ List.mem_cons_self)
    exact (skip_upcoming (next tokens)).begins fun _ => (expand_paced own).then fun _ => pure_paced id
  · exact fail_paced nofun

theorem prefixDeclaration_paced : Paced bound depth pre prefixDeclaration Always := by
  refine peek_paced fun l => ?_
  split
  · rename_i name
    refine given_paced ?_
    dsimp only
    split
    · exact fail_paced nofun
    · refine skip_next.begins fun _ => iriRef_paced.then fun _ => update_paced ?_
      exact fun _ => rfl
  · exact fail_paced nofun

theorem baseDeclaration_paced : Paced bound depth pre baseDeclaration Always := by
  refine iriRef_paced.begins fun _ => update_paced ?_
  exact fun _ => rfl

theorem prologueRound_paced (u : Unit) : Paced bound depth pre (prologueRound u) Continues :=
  acceptWord_paced (baseDeclaration_paced.then fun _ => pure_paced id)
    (acceptWord_paced (prefixDeclaration_paced.then fun _ => pure_paced id) (pure_paced id))

theorem prologue_paced : Paced bound depth pre prologue Perhaps := loop_paced fun u => prologueRound_paced u

theorem prologue_declares (next : ∀ c, pre c → isWord "PREFIX" (upcoming c) = true ∨ isWord "BASE" (upcoming c) = true) :
    Paced bound depth pre prologue Always := by
  refine loop_paced_first ?_ fun u => prologueRound_paced u
  refine acceptWord_paced (baseDeclaration_paced.then fun _ => pure_paced id)
    (acceptWord_paced (prefixDeclaration_paced.then fun _ => pure_paced id) (Paced.never ?_))
  rintro c ⟨⟨start, base⟩, prefix_⟩
  rcases next c start with own | own
  · rw [own] at prefix_
    cases prefix_
  · rw [own] at base
    cases base

theorem freshNode_paced : Paced bound depth pre freshNode Perhaps := by
  refine cursor_paced fun _ _ => (update_paced ?_).then fun _ => scope_paced fun _ => pure_paced id
  exact fun _ => rfl

theorem number_paced (negative : Bool) : Paced bound depth pre (number negative) Always := by
  refine peek_paced fun l => ?_
  split
  · exact skip_next.begins fun _ => pure_paced id
  · exact skip_next.begins fun _ => pure_paced id
  · exact skip_next.begins fun _ => pure_paced id
  · exact fail_paced nofun

theorem literal_paced (lexical : Text) : Paced bound depth pre (literal lexical) Perhaps := by
  refine peek_paced fun l => ?_
  split
  · exact skip_paced.then fun _ => pure_paced id
  · exact skip_paced.then fun _ => iri_paced.then fun _ => pure_paced id
  · exact pure_paced id

theorem term_paced : Paced bound depth pre term Always := by
  refine peek_paced fun l => ?_
  split
  · exact scope_paced fun _ => paced_ite (fun _ => fail_paced nofun) fun _ => skip_next.begins fun _ => pure_paced id
  · exact iri_paced
  · exact iri_paced
  · exact skip_next.begins fun _ => scope_paced fun _ => pure_paced id
  · exact skip_next.begins fun _ => literal_paced _
  · exact number_paced false
  · exact number_paced false
  · exact number_paced false
  · refine ahead_paced 1 fun _ => paced_ite (fun _ => ?_) fun _ => fail_paced nofun
    exact (skip_next.started fun _ => And.left).begins fun _ => skip_paced.then fun _ => freshNode_paced
  · refine ahead_paced 1 fun _ => paced_ite (fun _ => ?_) fun _ => fail_paced nofun
    exact (skip_next.started fun _ => And.left).begins fun _ => (number_paced false).perhaps
  · refine ahead_paced 1 fun _ => paced_ite (fun _ => ?_) fun _ => fail_paced nofun
    exact (skip_next.started fun _ => And.left).begins fun _ => (number_paced true).perhaps
  · exact paced_ite (fun _ => skip_next.begins fun _ => pure_paced id) fun _ => fail_paced nofun
  · exact fail_paced nofun

theorem graphName_paced : Paced bound depth pre graphName Always := by
  refine peek_paced fun l => scope_paced fun s => ?_
  split
  · exact skip_next.begins fun _ => pure_paced id
  · exact paced_ite (fun _ => term_paced) fun _ => fail_paced nofun

theorem verbTerm_paced : Paced bound depth pre verbTerm Always := by
  refine peek_paced fun l => ?_
  split
  · exact paced_ite (fun _ => skip_next.begins fun _ => pure_paced id) fun _ => iri_paced
  · exact term_paced
  · exact iri_paced

theorem verb_paced : Paced bound depth pre verb Always := by
  refine peek_paced fun _ => paced_ite (fun _ => fail_paced nofun) fun _ => verbTerm_paced.begins fun _ => ?_
  exact peek_paced fun _ => paced_ite (fun _ => fail_paced nofun) fun _ => pure_paced id

theorem tripleGraph_paced : Paced bound depth pre tripleGraph Perhaps :=
  scope_paced fun _ => peek_paced fun _ => paced_ite (fun _ => term_paced.perhaps) fun _ => pure_paced id

def PropertiesPaced (bound depth : Nat) (inner : Properties) : Prop :=
  ∀ subject, Paced bound depth Anywhere (inner subject) Always

variable {inner : Properties}

theorem bracketed_paced (h : PropertiesPaced bound (depth - 1) inner) :
    Paced bound depth pre (bracketed? inner) fun found => found.isSome = true := by
  refine peek_paced fun l => ahead_paced 1 fun second => ?_
  refine paced_ite (fun opens => ?_) fun _ => pure_paced nofun
  cases isSymbol_eq (Bool.and_eq_true_iff.1 opens).1
  refine (skip_next.started fun _ => And.left).first fun _ => freshNode_paced.then fun node => ?_
  exact (h node).then fun _ => expectSymbol_paced.then fun _ => pure_paced id

theorem object_paced (h : PropertiesPaced bound (depth - 1) inner) : Paced bound depth pre (object inner) Always := by
  refine look_paced fun _ => paced_ite (fun _ => fail_paced nofun) fun _ => (bracketed_paced h).or fun found => ?_
  cases found with
  | some found => exact pure_paced fun own => own.2 rfl
  | none => exact term_paced.begins fun _ => pure_paced id

theorem objectsRound_paced (h : PropertiesPaced bound (depth - 1) inner) {subject predicate : Term}
    {found : List Quad} {must : ForInStep (List Quad) → Prop} :
    Paced bound depth pre (objectsRound inner subject predicate found) must :=
  (object_paced h).begins fun _ => tripleGraph_paced.then fun _ => acceptSymbol_perhaps.then fun _ => pure_paced id

theorem objects_paced (h : PropertiesPaced bound (depth - 1) inner) {subject predicate : Term} :
    Paced bound depth pre (objects inner subject predicate) Always :=
  loop_paced_first (objectsRound_paced h) fun _ => objectsRound_paced h

theorem semicolonsRound_paced (u : Unit) : Paced bound depth pre (semicolonsRound u) Continues :=
  acceptSymbol_paced (pure_paced id) (pure_paced id)

theorem skipSemicolons_paced : Paced bound depth pre skipSemicolons Perhaps := loop_paced fun u => semicolonsRound_paced u

theorem propertiesRound_paced (h : PropertiesPaced bound (depth - 1) inner) {subject : Term} {found : List Quad}
    {must : ForInStep (List Quad) → Prop} : Paced bound depth pre (propertiesRound inner subject found) must := by
  refine verb_paced.begins fun _ => (objects_paced h).then fun _ => acceptSymbol_perhaps.then fun _ => ?_
  exact paced_ite (fun _ => skipSemicolons_paced.then fun _ => peek_paced fun _ => pure_paced id) fun _ => pure_paced id

theorem propertiesWith_paced (h : PropertiesPaced bound (depth - 1) inner) :
    PropertiesPaced bound depth (propertiesWith inner) :=
  fun _ => loop_paced_first (propertiesRound_paced h) fun _ => propertiesRound_paced h

theorem propertiesTo_paced (depth : Nat) : PropertiesPaced bound depth (propertiesTo depth) := by
  induction depth with
  | zero => exact fun _ => fail_paced fun _ => rfl
  | succ depth ih => exact propertiesWith_paced ih

theorem properties_paced : PropertiesPaced bound depth properties :=
  fun subject => cursor_paced fun c _ => (propertiesTo_paced (c.tokens.length + 1) subject).at

theorem sameSubject_paced : Paced bound depth pre sameSubject Always := by
  refine look_paced fun _ => paced_ite (fun _ => fail_paced nofun) fun _ =>
    (bracketed_paced properties_paced).or fun found => ?_
  cases found with
  | some found =>
    refine peek_paced fun _ => paced_ite (fun _ => ?_) fun _ => pure_paced fun own => own.2 rfl
    exact (properties_paced _).anywhere.begins fun _ => pure_paced id
  | none => exact term_paced.begins fun t => (properties_paced t).perhaps

theorem triplesRound_paced (found : List Quad) : Paced bound depth pre (triplesRound found) Continues :=
  onTriple_paced (sameSubject_paced.begins fun _ => acceptSymbol_perhaps.then fun _ => pure_paced id) (pure_paced id)

theorem triples_perhaps : Paced bound depth pre triples Perhaps := loop_paced fun found => triplesRound_paced found

theorem triples_paced : Paced bound depth AtTriple triples Always := by
  refine loop_paced_first (onTriple_paced ?_ (Paced.never fun _ other => other.2 other.1)) fun found =>
    triplesRound_paced found
  exact sameSubject_paced.begins fun _ => acceptSymbol_perhaps.then fun _ => pure_paced id

structure NestedPaced (bound depth : Nat) (nested : Nested) : Prop where
  expression : Paced bound depth Anywhere nested.expression Always
  group : Paced bound depth Anywhere nested.group Always

variable {nested : Nested}

theorem NestedPaced.shallower (h : NestedPaced bound depth nested) : NestedPaced bound (depth - 1) nested :=
  ⟨h.expression.shallower (Nat.sub_le _ _), h.group.shallower (Nat.sub_le _ _)⟩

theorem operator_paced (choices : List Operator) :
    Paced bound depth pre (operator? choices) fun op? => op?.isSome = true := by
  refine peek_paced fun l => ?_
  split
  · rename_i op found
    have symbol : isSymbol op.symbol l = true := by simpa using List.find?_some found
    cases isSymbol_eq symbol
    exact skip_next.begins fun _ => pure_paced id
  · exact pure_paced nofun

theorem chainRound_paced {choices : List Operator} {operand : Reader Expression}
    (h : Paced bound depth Anywhere operand Always) (left : Expression) :
    Paced bound depth pre (chainRound choices operand left) Continues := by
  refine (operator_paced choices).or fun op? => ?_
  cases op? with
  | some op => exact h.begins fun _ => pure_paced id
  | none => exact pure_paced And.left

theorem chain_paced {choices : List Operator} {operand : Reader Expression}
    (h : Paced bound depth Anywhere operand Always) : Paced bound depth pre (chain choices operand) Always :=
  h.anywhere.begins fun _ => loop_paced fun left => chainRound_paced h left

theorem expressionsRound_paced (h : Paced bound depth Anywhere nested.expression Always) (found : List Expression) :
    Paced bound depth pre (expressionsRound nested found) Continues :=
  h.anywhere.begins fun _ => acceptSymbol_perhaps.then fun _ => pure_paced id

theorem expressionList_paced (h : NestedPaced bound (depth - 1) nested) :
    Paced bound depth pre (expressionList nested) Always := by
  refine expectSymbol_paced.first fun _ => acceptSymbol_paced (pure_paced id) ?_
  refine Paced.then (loop_paced fun found => expressionsRound_paced h.expression found) fun _ => ?_
  exact expectSymbol_paced.then fun _ => pure_paced id

theorem parenthesized_paced (h : NestedPaced bound (depth - 1) nested) :
    Paced bound depth (fun c => pre c ∧ upcoming c = some (.symbol .openParen)) (parenthesized nested) Always :=
  skip_next.first fun _ => h.expression.then fun _ => expectSymbol_paced.then fun _ => pure_paced id

theorem wordExpression_paced (h : NestedPaced bound (depth - 1) nested) {w lower : Text} {after : Option Lexeme}
    (next : ∀ c, pre c → upcoming c = some (.word w)) :
    Paced bound depth pre (wordExpression nested lower after) Always := by
  have word : Paced bound depth pre skip Always := skip_upcoming next
  refine paced_ite (fun _ => term_paced.begins fun _ => pure_paced id) fun _ => paced_ite (fun _ => ?_) fun _ =>
    paced_ite (fun _ => ?_) fun _ => paced_ite (fun _ => fail_paced nofun) fun _ => ?_
  · exact word.first fun _ => h.group.then fun _ => pure_paced id
  · exact word.first fun _ => skip_paced.then fun _ => h.group.then fun _ => pure_paced id
  · split
    · exact word.begins fun _ => (expressionList_paced h).then fun _ => pure_paced id
    · exact fail_paced nofun

theorem primary_paced (h : NestedPaced bound (depth - 1) nested) : Paced bound depth pre (primary nested) Always := by
  have called : ∀ {pre : Cursor → Prop}, Paced bound depth pre (do
      let function ← iri
      if ← onSymbol .openParen then return Expression.call function (← expressionList nested)
      else return Expression.term function) Always :=
    iri_paced.begins fun _ => look_paced fun _ =>
      paced_ite (fun _ => (expressionList_paced h).then fun _ => pure_paced id) fun _ => pure_paced id
  refine peek_paced fun l => ?_
  split
  · exact parenthesized_paced h
  · exact ahead_paced 1 fun _ => wordExpression_paced h fun _ start => start.1.2
  · exact called
  · exact called
  all_goals first | exact term_paced.begins fun _ => pure_paced id | exact fail_paced nofun

theorem unary_paced (h : NestedPaced bound (depth - 1) nested) : Paced bound depth pre (unary nested) Always := by
  refine acceptSymbol_paced ((primary_paced h).then fun _ => pure_paced id) ?_
  refine acceptSymbol_paced (primary_paced h).perhaps (acceptSymbol_paced ?_ (primary_paced h))
  refine peek_paced fun _ => paced_ite (fun _ => ?_) fun _ => ?_
  · exact (number_paced true).then fun _ => pure_paced id
  · exact (primary_paced h).then fun _ => pure_paced id

theorem product_paced (h : NestedPaced bound (depth - 1) nested) : Paced bound depth pre (product nested) Always :=
  chain_paced (unary_paced h)

theorem sum_paced (h : NestedPaced bound (depth - 1) nested) : Paced bound depth pre (sum nested) Always :=
  chain_paced (product_paced h)

theorem membership_paced : Paced bound depth pre membership? Perhaps := by
  refine acceptWord_paced (pure_paced id) (peek_paced fun _ => ahead_paced 1 fun _ => paced_ite (fun _ => ?_) fun _ => ?_)
  · exact skip_paced.then fun _ => skip_paced.then fun _ => pure_paced id
  · exact pure_paced id

theorem comparison_paced (h : NestedPaced bound (depth - 1) nested) :
    Paced bound depth pre (comparison nested) Always := by
  refine (sum_paced h).begins fun _ => (operator_paced _).then fun op? => ?_
  cases op? with
  | some op => exact (sum_paced h).then fun _ => pure_paced id
  | none =>
    refine membership_paced.then fun negated? => ?_
    cases negated? with
    | some negated => exact (expressionList_paced h).then fun _ => pure_paced id
    | none => exact pure_paced id

theorem conjunction_paced (h : NestedPaced bound (depth - 1) nested) :
    Paced bound depth pre (chain [.and] (comparison nested)) Always := chain_paced (comparison_paced h)

theorem disjunction_paced (h : NestedPaced bound (depth - 1) nested) :
    Paced bound depth pre (disjunction nested) Always := chain_paced (conjunction_paced h)

theorem constraint_paced (h : NestedPaced bound (depth - 1) nested) :
    Paced bound depth pre (constraint nested) Always := by
  refine peek_paced fun l => ?_
  split
  · exact parenthesized_paced h
  all_goals first | exact primary_paced h | exact fail_paced nofun

theorem alternativesRound_paced (h : NestedPaced bound depth nested) (left : Operation) :
    Paced bound depth pre (alternativesRound nested left) Continues :=
  acceptWord_paced (h.group.then fun _ => pure_paced id) (pure_paced id)

theorem alternatives_paced (h : NestedPaced bound depth nested) :
    Paced bound depth pre (alternatives nested) Always :=
  h.group.anywhere.begins fun _ => loop_paced fun left => alternativesRound_paced h left

theorem groupPart_paced (h : NestedPaced bound depth nested) (g : Group) :
    Paced bound depth pre (groupPart nested g) Always := by
  refine acceptWord_paced ?_ (acceptWord_paced ?_ (acceptWord_paced ?_ (look_paced fun _ => paced_ite (fun _ => ?_)
    fun _ => acceptWord_paced ?_ (peek_paced fun next => ?_))))
  · exact h.group.then fun _ => pure_paced id
  · exact h.group.then fun _ => pure_paced id
  · exact graphName_paced.then fun _ => h.group.then fun _ => pure_paced id
  · exact (alternatives_paced h).begins fun _ => pure_paced id
  · exact (constraint_paced h.shallower).then fun _ => pure_paced id
  · cases unsupportedParts.find? fun w => isWord w next <;> exact fail_paced nofun

theorem groupRound_paced (h : NestedPaced bound depth nested) (g : Group) :
    Paced bound depth pre (groupRound nested g) Continues := by
  refine acceptSymbol_paced (pure_paced id) (look_paced fun _ => paced_ite (fun _ => fail_paced nofun) fun _ => ?_)
  refine onTriple_paced (triples_paced.begins fun _ => pure_paced id) ?_
  exact (groupPart_paced h g).begins fun _ => (discard_paced acceptSymbol_perhaps).then fun _ => pure_paced id

theorem groupPattern_paced (h : NestedPaced bound (depth - 1) nested) :
    Paced bound depth pre (groupPattern nested) Always := by
  refine expectSymbol_paced.first fun _ => look_paced fun _ => paced_ite (fun _ => fail_paced nofun) fun _ => ?_
  exact Paced.then (loop_paced fun g => groupRound_paced h g) fun _ => pure_paced id

theorem nestedTo_paced (depth : Nat) : NestedPaced bound depth (nestedTo depth) := by
  induction depth with
  | zero => exact ⟨fail_paced fun _ => rfl, fail_paced fun _ => rfl⟩
  | succ depth ih => exact ⟨disjunction_paced ih, groupPattern_paced ih⟩

theorem group_paced : Paced bound depth pre group Always :=
  cursor_paced fun c _ => (nestedTo_paced (c.tokens.length + 1)).group.at

theorem expression_paced : Paced bound depth pre expression Always :=
  cursor_paced fun c _ => (nestedTo_paced (c.tokens.length + 1)).expression.at

theorem directed_paced (ascending : Bool) : Paced bound depth pre (directed ascending) Always :=
  expectSymbol_paced.begins fun _ => expression_paced.then fun _ => expectSymbol_paced.then fun _ => pure_paced id

theorem orderCondition_paced : Paced bound depth pre orderCondition Always := by
  refine acceptWord_paced (directed_paced true).perhaps (acceptWord_paced (directed_paced false).perhaps
    (peek_paced fun l => ?_))
  split
  · exact term_paced.begins fun _ => pure_paced id
  · refine cursor_paced fun c _ => Paced.at ?_
    exact (constraint_paced (nestedTo_paced (c.tokens.length + 1)).shallower).begins fun _ => pure_paced id

theorem orderRound_paced (found : List OrderCondition) : Paced bound depth pre (orderRound found) Continues :=
  peek_paced fun _ => paced_ite (fun _ => orderCondition_paced.begins fun _ => pure_paced id) fun _ => pure_paced id

theorem ordered_paced (op : Operation) : Paced bound depth pre (ordered op) Perhaps := by
  refine look_paced fun _ => look_paced fun _ => paced_ite (fun _ => fail_paced nofun) fun _ =>
    acceptWord_paced (expectWord_paced.then fun _ => ?_) (pure_paced id)
  refine Paced.then (loop_paced fun found => orderRound_paced found) fun _ => ?_
  exact paced_ite (fun _ => fail_paced nofun) fun _ => pure_paced id

theorem rowCount_paced : Paced bound depth pre rowCount Always := by
  refine peek_paced fun l => ?_
  split
  · exact paced_ite (fun _ => skip_next.begins fun _ => pure_paced id) fun _ => fail_paced nofun
  · exact fail_paced nofun

theorem sliceBound_paced (bounds : Option Nat × Option Nat) : Paced bound depth pre (sliceBound bounds) Perhaps := by
  refine look_paced fun _ => paced_ite (fun _ => ?_) fun _ => look_paced fun _ => paced_ite (fun _ => ?_) fun _ => ?_
  · exact skip_paced.then fun _ => rowCount_paced.then fun _ => pure_paced id
  · exact skip_paced.then fun _ => rowCount_paced.then fun _ => pure_paced id
  · exact pure_paced id

theorem sliced_paced (op : Operation) : Paced bound depth pre (sliced op) Perhaps := by
  refine (sliceBound_paced _).then fun _ => (sliceBound_paced _).then fun bounds => ?_
  refine look_paced fun _ => paced_ite (fun _ => fail_paced nofun) fun _ => ?_
  split <;> exact pure_paced id

theorem shaped_paced (op : Operation) (f : Operation → Operation) :
    Paced bound depth pre (do return f (← sliced (← ordered op))) Perhaps :=
  (ordered_paced op).then fun _ => (sliced_paced _).then fun _ => pure_paced id

theorem noDataset_paced : Paced bound depth pre noDataset Perhaps :=
  look_paced fun _ => paced_ite (fun _ => fail_paced nofun) fun _ => pure_paced id

theorem whereClause_paced : Paced bound depth pre whereClause Perhaps :=
  noDataset_paced.then fun _ => (discard_paced acceptWord_perhaps).then fun _ => group_paced.perhaps

theorem projectedRound_paced (found : List Text) : Paced bound depth pre (projectedRound found) Continues := by
  refine peek_paced fun l => ?_
  split
  · exact skip_next.begins fun _ => pure_paced id
  · exact fail_paced nofun
  · exact pure_paced id

theorem projected_paced : Paced bound depth pre projected? Perhaps := by
  refine acceptSymbol_paced (pure_paced id) (Paced.then (loop_paced fun found => projectedRound_paced found) fun _ => ?_)
  exact paced_ite (fun _ => fail_paced nofun) fun _ => pure_paced id

theorem selectQuery_paced : Paced bound depth pre selectQuery Perhaps := by
  refine acceptWord_perhaps.then fun isDistinct => ?_
  have rest : ∀ isReduced : Bool, Paced bound depth Anywhere (do
      let chosen ← projected?
      let pattern ← ordered (← whereClause)
      let root : Operation := .project (chosen.getD pattern.inScope) pattern
      sliced (if isDistinct then .distinct root else if isReduced then .reduced root else root)) Perhaps :=
    fun _ => projected_paced.then fun _ => whereClause_paced.then fun _ => (ordered_paced _).then fun _ => sliced_paced _
  exact paced_ite (fun _ => rest false) fun _ => acceptWord_perhaps.then rest

theorem askQuery_paced : Paced bound depth pre askQuery Perhaps :=
  whereClause_paced.then fun pattern => shaped_paced pattern .ask

theorem template_paced : Paced bound depth pre template Always :=
  expectSymbol_paced.begins fun _ => triples_perhaps.then fun _ => expectSymbol_paced.then fun _ => pure_paced id

theorem constructQuery_paced : Paced bound depth pre constructQuery Perhaps := by
  refine look_paced fun _ => paced_ite (fun _ => ?_) fun _ => ?_
  · exact template_paced.then fun found => whereClause_paced.then fun pattern => shaped_paced pattern (.construct found)
  · refine noDataset_paced.then fun _ => expectWord_paced.then fun _ => template_paced.then fun found => ?_
    exact shaped_paced (.bgp found) (.construct found)

theorem targetsRound_paced (found : List Term) : Paced bound depth pre (targetsRound found) Continues := by
  refine peek_paced fun l => ?_
  split
  all_goals first | exact term_paced.begins fun _ => pure_paced id | exact pure_paced id

theorem targets_paced : Paced bound depth pre targets Perhaps := by
  refine acceptSymbol_paced (pure_paced id) (Paced.then (loop_paced fun found => targetsRound_paced found) fun _ => ?_)
  exact paced_ite (fun _ => fail_paced nofun) fun _ => pure_paced id

theorem describeQuery_paced : Paced bound depth pre describeQuery Perhaps := by
  refine targets_paced.then fun chosen => noDataset_paced.then fun _ => ?_
  have rest : ∀ pattern : Operation, Paced bound depth Anywhere (do
      let shown := if chosen.isEmpty then pattern.inScope.map Term.var else chosen
      return Operation.describe shown (← sliced (← ordered pattern))) Perhaps :=
    fun pattern => shaped_paced pattern (.describe (if chosen.isEmpty then pattern.inScope.map Term.var else chosen))
  refine look_paced fun _ => look_paced fun _ => paced_ite (fun _ => whereClause_paced.then rest) fun _ => ?_
  exact (rest (.bgp [])).anywhere

theorem graphRound_paced (found : List Quad) : Paced bound depth pre (graphRound found) Continues :=
  acceptSymbol_paced (pure_paced id) (onTriple_paced (triples_paced.begins fun _ => pure_paced id) (fail_paced nofun))

theorem graphBlock_paced (graph : Term) : Paced bound depth pre (graphBlock graph) Always :=
  expectSymbol_paced.begins fun _ => (loop_paced fun found => graphRound_paced found).inGraph

theorem dataRound_paced (found : List Quad) : Paced bound depth pre (dataRound found) Continues := by
  have rest : ∀ more, Paced bound depth Anywhere (do
      discard (acceptSymbol .dot)
      return ForInStep.yield (found ++ more)) Perhaps :=
    fun _ => (discard_paced acceptSymbol_perhaps).then fun _ => pure_paced id
  have block : ∀ {pre : Cursor → Prop}, Paced bound depth pre (do
      let more ← graphBlock (← graphName)
      discard (acceptSymbol .dot)
      return ForInStep.yield (found ++ more)) Perhaps :=
    graphName_paced.then fun name => (graphBlock_paced name).then rest
  refine acceptSymbol_paced (pure_paced id) (acceptWord_paced (onTriple_paced block block) (onTriple_paced ?_ ?_))
  · exact triples_paced.begins rest
  · refine paced_ite nofun fun _ => paced_ite nofun fun _ => Paced.begins (fail_paced ?_) rest
    exact nofun

theorem quadData_paced : Paced bound depth pre quadData Always :=
  Paced.inData (expectSymbol_paced.begins fun _ => loop_paced fun found => dataRound_paced found)

theorem dataOf_paced (form : Text) : Paced bound depth pre (dataOf form) Always :=
  acceptWord_paced quadData_paced.perhaps (fail_paced nofun)

theorem updateOperation_paced (done : List Quad × List Quad) :
    Paced bound depth pre (updateOperation done) Always := by
  refine acceptWord_paced ((dataOf_paced _).then fun _ => pure_paced id)
    (acceptWord_paced ((dataOf_paced _).then fun _ => pure_paced id) (peek_paced fun next => ?_))
  cases updateWords.find? fun w => isWord w next <;> exact fail_paced nofun

theorem updateRound_paced (done : List Quad × List Quad) : Paced bound depth pre (updateRound done) Continues := by
  refine prologue_paced.then fun _ => look_paced fun _ => paced_ite (fun _ => pure_paced id) fun _ => ?_
  exact (updateOperation_paced done).begins fun _ => acceptSymbol_perhaps.then fun _ => pure_paced id

theorem updateRequest_paced : Paced bound depth pre updateRequest Perhaps := loop_paced fun done => updateRound_paced done

theorem content_paced : Paced bound depth pre content Perhaps := by
  refine prologue_paced.then fun _ => acceptWord_paced (selectQuery_paced.then fun _ => pure_paced id) ?_
  refine acceptWord_paced (askQuery_paced.then fun _ => pure_paced id) ?_
  refine acceptWord_paced (constructQuery_paced.then fun _ => pure_paced id) ?_
  refine acceptWord_paced (describeQuery_paced.then fun _ => pure_paced id) (peek_paced fun _ => ?_)
  exact paced_ite (fun _ => updateRequest_paced.then fun _ => pure_paced id) fun _ => fail_paced nofun

theorem finished_paced (content : Content) : Paced bound depth pre (finished content) Perhaps :=
  look_paced fun _ => paced_ite (fun _ => cursor_paced fun _ _ => pure_paced id) fun _ => fail_paced nofun

theorem insertion_paced : Paced bound depth pre insertion Always :=
  expectWord_paced.begins fun _ => quadData_paced.then fun _ =>
    (discard_paced acceptSymbol_perhaps).then fun _ => pure_paced id

theorem statement_paced : Paced bound depth pre statement Always :=
  sameSubject_paced.begins fun _ => look_paced fun _ => paced_ite (fun _ => pure_paced id) fun _ =>
    expectSymbol_paced.then fun _ => pure_paced id

theorem documentPart_paced (d : Document) : Paced bound depth pre (documentPart d) Always := by
  have named : ∀ {pre : Cursor → Prop}, Paced bound depth pre
      (do return d.addStated (← graphBlock (← graphName))) Always :=
    graphName_paced.begins fun name => (graphBlock_paced name).then fun _ => pure_paced id
  refine acceptTag_paced ?_ (acceptTag_paced ?_ (look_paced fun l => look_paced fun l' => paced_ite (fun declares => ?_)
    fun _ => acceptWord_paced ?_ (acceptWord_paced named.perhaps (look_paced fun _ => paced_ite (fun _ => ?_) fun _ => ?_))))
  · exact prefixDeclaration_paced.then fun _ => expectSymbol_paced.then fun _ => pure_paced id
  · exact baseDeclaration_paced.then fun _ => expectSymbol_paced.then fun _ => pure_paced id
  · refine Paced.begins (prologue_declares ?_) fun _ => pure_paced id
    rintro c ⟨⟨-, rfl⟩, rfl⟩
    exact Bool.or_eq_true_iff.1 declares
  · exact insertion_paced.then fun _ => pure_paced id
  · exact scope_paced fun s => (graphBlock_paced s.home).begins fun _ => pure_paced id
  · refine peek_paced fun _ => ahead_paced 1 fun _ => paced_ite (fun _ => named) fun _ => ?_
    exact statement_paced.begins fun _ => pure_paced id

theorem documentRound_paced (d : Document) : Paced bound depth pre (documentRound d) Continues :=
  look_paced fun _ => paced_ite (fun _ => pure_paced id) fun _ => (documentPart_paced d).begins fun _ => pure_paced id

theorem document_paced : Paced bound depth pre document Perhaps := loop_paced fun d => documentRound_paced d

end QuadStore.Sparql.Reader
