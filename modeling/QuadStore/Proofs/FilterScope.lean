import QuadStore.Sparql.Request

namespace QuadStore.Sparql

open Reader

mutual

/-- What is written in a pair of braces, up to its last part. -/
inductive Braces where
  | empty
  | triples (before : Braces) (found : List Quad)
  | optional (before operand : Braces)
  | minus (before operand : Braces)
  | graph (before : Braces) (name : Term) (operand : Braces)
  | choice (before : Braces) (operands : Alternatives)
  | filter (before : Braces) (condition : Expression)

/-- Pairs of braces with `UNION` between them. -/
inductive Alternatives where
  | single (operand : Braces)
  | either (left : Alternatives) (right : Braces)

end

mutual

def Braces.group : Braces → Group
  | .empty => {}
  | .triples before found => before.group.addTriples found
  | .optional before operand => before.group.addOptional operand.group.finish
  | .minus before operand =>
    { before.group with pattern := some (.minus before.group.content operand.group.finish) }
  | .graph before name operand => before.group.join (.graph name operand.group.finish)
  | .choice before operands => before.group.join operands.pattern
  | .filter before condition =>
    { before.group with filters := before.group.filters ++ [condition] }

def Alternatives.pattern : Alternatives → Operation
  | .single operand => operand.group.finish
  | .either left right => .union left.pattern right.group.finish

end

def Braces.pattern (b : Braces) : Operation := b.group.finish

namespace Braces

def filters : Braces → List Expression
  | .empty => []
  | .triples before _ | .optional before _ | .minus before _ | .graph before _ _
  | .choice before _ => before.filters
  | .filter before condition => before.filters ++ [condition]

def condition? (b : Braces) : Option Expression := Expression.conjunction? b.filters

end Braces

namespace Operation

def filtered : Option Expression → Operation → Operation
  | some condition, op => .filter condition op
  | none, op => op

def withTriples (op : Operation) (found : List Quad) : Operation :=
  match op with
  | .bgp before => .bgp (before ++ found)
  | _ => joined (some op) (.bgp found)

def isFilter : Operation → Bool
  | .filter .. => true
  | _ => false

end Operation

mutual

def Braces.body : Braces → Operation
  | .empty => .bgp []
  | .triples before found => before.body.withTriples found
  | .optional before operand => .leftJoin before.body operand.body operand.condition?
  | .minus before operand => .minus before.body (.filtered operand.condition? operand.body)
  | .graph before name operand =>
    .joined (some before.body) (.graph name (.filtered operand.condition? operand.body))
  | .choice before operands => .joined (some before.body) operands.translation
  | .filter before _ => before.body

def Alternatives.translation : Alternatives → Operation
  | .single operand => .filtered operand.condition? operand.body
  | .either left right => .union left.translation (.filtered right.condition? right.body)

end

def Braces.translation (b : Braces) : Operation := .filtered b.condition? b.body

mutual

/-- No optional braces without filters of their own hold nothing but a group with filters. -/
def Braces.Scoped : Braces → Prop
  | .empty => True
  | .triples before _ | .filter before _ => before.Scoped
  | .optional before operand =>
    before.Scoped ∧ operand.Scoped ∧ (operand.condition? = none → operand.body.isFilter = false)
  | .minus before operand | .graph before _ operand => before.Scoped ∧ operand.Scoped
  | .choice before operands => before.Scoped ∧ operands.Scoped

def Alternatives.Scoped : Alternatives → Prop
  | .single operand => operand.Scoped
  | .either left right => left.Scoped ∧ right.Scoped

end

/-- What a condition of a group is in a pattern. -/
inductive Role where
  | leftJoin
  | filter
  deriving DecidableEq

def Role.of (role : Role) (condition? : Option Expression) : List (Role × Expression) :=
  condition?.toList.map (role, ·)

def Operation.assigned : Operation → List (Role × Expression)
  | .bgp _ => []
  | .join left right | .union left right | .minus left right => left.assigned ++ right.assigned
  | .leftJoin left right condition? =>
    left.assigned ++ right.assigned ++ Role.leftJoin.of condition?
  | .filter condition input => input.assigned ++ Role.filter.of (some condition)
  | .graph _ input | .orderBy _ input | .project _ input | .distinct input | .reduced input
  | .slice _ _ input | .ask input | .construct _ input | .describe _ input => input.assigned

mutual

/-- The conditions of the pairs of braces inside of braces, each in its role. -/
def Braces.inner : Braces → List (Role × Expression)
  | .empty => []
  | .triples before _ | .filter before _ => before.inner
  | .optional before operand => before.inner ++ (operand.inner ++ Role.leftJoin.of operand.condition?)
  | .minus before operand | .graph before _ operand =>
    before.inner ++ (operand.inner ++ Role.filter.of operand.condition?)
  | .choice before operands => before.inner ++ operands.assigned

def Alternatives.assigned : Alternatives → List (Role × Expression)
  | .single operand => operand.inner ++ Role.filter.of operand.condition?
  | .either left right => left.assigned ++ (right.inner ++ Role.filter.of right.condition?)

end

/-- The conditions of braces that are not optional and of all pairs inside. -/
def Braces.assigned (b : Braces) : List (Role × Expression) :=
  b.inner ++ Role.filter.of b.condition?

namespace Operation

variable {x x' y y' : Operation}

theorem joined_empty (x : Operation) : joined (some x) (bgp []) = x := by
  unfold joined
  split <;> simp_all

theorem joined_of_ne (left : x ≠ bgp []) (right : y ≠ bgp []) : joined (some x) y = join x y := by
  unfold joined
  split <;> simp_all

def SameBasic (x y : Operation) : Prop := ∀ found, x = bgp found ↔ y = bgp found

theorem SameBasic.refl (x : Operation) : SameBasic x x := fun _ => Iff.rfl

theorem same_basic_graph (name : Term) (x y : Operation) : SameBasic (graph name x) (graph name y) :=
  fun _ => ⟨nofun, nofun⟩

theorem SameBasic.joined (h : SameBasic x y) (h' : SameBasic x' y') :
    SameBasic (joined (some x) x') (joined (some y) y') := by
  by_cases left : x = bgp []
  · rw [left, (h []).1 left]
    exact h'
  · by_cases right : x' = bgp []
    · rw [right, (h' []).1 right, joined_empty, joined_empty]
      exact h
    · rw [joined_of_ne left right, joined_of_ne (mt (h []).2 left) (mt (h' []).2 right)]
      exact fun found => ⟨nofun, nofun⟩

theorem joined_inj (h : SameBasic x y) (h' : SameBasic x' y') :
    Operation.joined (some x) x' = Operation.joined (some y) y' ↔ x = y ∧ x' = y' := by
  by_cases left : x = bgp []
  · rw [left, (h []).1 left]
    exact (and_iff_right rfl).symm
  · by_cases right : x' = bgp []
    · rw [right, (h' []).1 right, joined_empty, joined_empty]
      exact (and_iff_left rfl).symm
    · rw [joined_of_ne left right, joined_of_ne (mt (h []).2 left) (mt (h' []).2 right)]
      simp

theorem withTriples_of_ne (found : List Quad) (h : ∀ before, x ≠ bgp before) :
    x.withTriples found = Operation.joined (some x) (bgp found) := by
  cases x <;> first | rfl | exact absurd rfl (h _)

theorem SameBasic.withTriples (h : SameBasic x y) (found : List Quad) :
    SameBasic (x.withTriples found) (y.withTriples found) := by
  by_cases basic : ∃ before, x = bgp before
  · obtain ⟨before, rfl⟩ := basic
    rw [(h before).1 rfl]
    exact SameBasic.refl _
  · have other : ∀ before, x ≠ bgp before := fun before same => basic ⟨before, same⟩
    rw [withTriples_of_ne found other, withTriples_of_ne found fun before => mt (h before).2 (other before)]
    exact h.joined (SameBasic.refl _)

theorem withTriples_inj (h : SameBasic x y) (found : List Quad) :
    x.withTriples found = y.withTriples found ↔ x = y := by
  by_cases basic : ∃ before, x = bgp before
  · obtain ⟨before, rfl⟩ := basic
    simp [(h before).1 rfl]
  · have other : ∀ before, x ≠ bgp before := fun before same => basic ⟨before, same⟩
    rw [withTriples_of_ne found other, withTriples_of_ne found fun before => mt (h before).2 (other before),
      joined_inj h (SameBasic.refl _)]
    exact and_iff_left rfl

theorem SameBasic.filtered (h : SameBasic x y) (condition? : Option Expression) :
    SameBasic (filtered condition? x) (filtered condition? y) := by
  cases condition? with
  | none => exact h
  | some condition => exact fun found => ⟨nofun, nofun⟩

theorem filtered_inj (condition? : Option Expression) :
    filtered condition? x = filtered condition? y ↔ x = y := by
  cases condition? <;> simp [filtered]

theorem joined_assigned (x y : Operation) :
    (Operation.joined (some x) y).assigned = x.assigned ++ y.assigned := by
  by_cases left : x = bgp []
  · rw [left]
    rfl
  · by_cases right : y = bgp []
    · rw [right, joined_empty]
      exact (List.append_nil _).symm
    · rw [joined_of_ne left right, assigned]

theorem withTriples_assigned (x : Operation) (found : List Quad) :
    (x.withTriples found).assigned = x.assigned := by
  by_cases basic : ∃ before, x = bgp before
  · obtain ⟨before, rfl⟩ := basic
    rfl
  · rw [withTriples_of_ne found fun before same => basic ⟨before, same⟩, joined_assigned]
    exact List.append_nil _

theorem filtered_assigned (condition? : Option Expression) (x : Operation) :
    (filtered condition? x).assigned = x.assigned ++ Role.filter.of condition? := by
  cases condition? with
  | none => exact (List.append_nil _).symm
  | some condition => rw [filtered, assigned]

end Operation

namespace Reader.Group

variable (g : Group) (op : Operation)

theorem content_join : (g.join op).content = .joined (some g.content) op := by
  obtain ⟨_ | pattern, filters⟩ := g <;> rfl

theorem content_addTriples (found : List Quad) : (g.addTriples found).content = g.content.withTriples found := by
  obtain ⟨_ | pattern, filters⟩ := g
  · rfl
  · cases pattern <;> rfl

theorem filters_addTriples (found : List Quad) : (g.addTriples found).filters = g.filters := by
  unfold addTriples
  split <;> rfl

theorem filters_addOptional : (g.addOptional op).filters = g.filters := by
  unfold addOptional
  split <;> rfl

theorem finish_eq : g.finish = .filtered (Expression.conjunction? g.filters) g.content := by
  unfold finish
  cases Expression.conjunction? g.filters <;> rfl

theorem content_addOptional_filter (condition : Expression) (inner : Operation) :
    (g.addOptional (.filter condition inner)).content = .leftJoin g.content inner (some condition) := rfl

variable {op}

theorem content_addOptional (plain : op.isFilter = false) :
    (g.addOptional op).content = .leftJoin g.content op none := by
  cases op <;> first | rfl | cases plain

theorem expressions_addOptional (op : Operation) :
    (g.addOptional op).content.assigned.map (·.2) =
      g.content.assigned.map (·.2) ++ op.assigned.map (·.2) := by
  cases plain : op.isFilter with
  | false => simp [content_addOptional g plain, Operation.assigned, Role.of]
  | true =>
    cases op with
    | filter condition inner =>
      simp [content_addOptional_filter, Operation.assigned, Role.of]
    | _ => cases plain

end Reader.Group

theorem Braces.filters_group : ∀ b : Braces, b.group.filters = b.filters
  | .empty => rfl
  | .triples before found => (Group.filters_addTriples _ found).trans before.filters_group
  | .optional before _ => (Group.filters_addOptional _ _).trans before.filters_group
  | .minus before _ | .graph before _ _ | .choice before _ => before.filters_group
  | .filter before condition => congrArg (· ++ [condition]) before.filters_group

theorem Braces.pattern_eq (b : Braces) : b.group.finish = .filtered b.condition? b.group.content := by
  rw [Group.finish_eq, filters_group]
  rfl

theorem Braces.finish_eq_iff (b : Braces) :
    b.group.finish = .filtered b.condition? b.body ↔ b.group.content = b.body := by
  rw [pattern_eq, Operation.filtered_inj]

mutual

theorem Braces.same_basic : ∀ b : Braces, Operation.SameBasic b.group.content b.body
  | .empty => Operation.SameBasic.refl _
  | .triples before found => by
    rw [Braces.group, Group.content_addTriples]
    exact before.same_basic.withTriples found
  | .optional before operand => by
    rw [Braces.group]
    exact fun found => ⟨by unfold Group.addOptional; split <;> exact nofun, nofun⟩
  | .minus before operand => fun found => ⟨nofun, nofun⟩
  | .graph before name operand => by
    rw [Braces.group, Group.content_join]
    exact before.same_basic.joined (Operation.same_basic_graph name _ _)
  | .choice before operands => by
    rw [Braces.group, Group.content_join]
    exact before.same_basic.joined operands.same_basic
  | .filter before condition => before.same_basic

theorem Alternatives.same_basic : ∀ a : Alternatives, Operation.SameBasic a.pattern a.translation
  | .single operand => by
    rw [Alternatives.pattern, operand.pattern_eq]
    exact operand.same_basic.filtered _
  | .either left right => fun found => ⟨nofun, nofun⟩

end

/-- An optional part is what is meant if its braces have filters, or hold something else than one
group with filters. -/
theorem Braces.optional_eq_iff {before operand : Braces}
    (ih : operand.group.content = operand.body ↔ operand.Scoped) :
    (before.group.addOptional operand.group.finish).content =
        .leftJoin before.body operand.body operand.condition? ↔
      before.group.content = before.body ∧ operand.Scoped ∧
        (operand.condition? = none → operand.body.isFilter = false) := by
  rw [operand.pattern_eq, ← ih]
  cases own : operand.condition? with
  | some condition =>
    rw [Operation.filtered, Group.content_addOptional_filter]
    simp
  | none =>
    rw [Operation.filtered]
    -- braces without a filter are optional as their content, and a filter there is taken for theirs
    cases plain : operand.group.content.isFilter with
    | false =>
      rw [Group.content_addOptional _ plain]
      constructor
      · intro same
        simp only [Operation.leftJoin.injEq] at same
        exact ⟨same.1, same.2.1, fun _ => same.2.1 ▸ plain⟩
      · rintro ⟨left, right, -⟩
        rw [left, right]
    | true =>
      constructor
      · intro same
        cases content : operand.group.content with
        | filter condition inner =>
          rw [content, Group.content_addOptional_filter] at same
          simp at same
        | _ =>
          rw [content] at plain
          cases plain
      · rintro ⟨-, right, other⟩
        rw [right, other rfl] at plain
        cases plain

mutual

theorem Braces.content_eq_iff : ∀ b : Braces, b.group.content = b.body ↔ b.Scoped
  | .empty => by simp [Braces.group, Braces.body, Braces.Scoped, Group.content]
  | .triples before found => by
    rw [Braces.group, Group.content_addTriples, Braces.body, Operation.withTriples_inj before.same_basic,
      before.content_eq_iff, Braces.Scoped]
  | .optional before operand => by
    rw [Braces.group, Braces.body, Braces.optional_eq_iff operand.content_eq_iff, before.content_eq_iff, Braces.Scoped]
  | .minus before operand => by
    rw [Braces.Scoped, ← before.content_eq_iff, ← operand.content_eq_iff, ← operand.finish_eq_iff]
    simp [Braces.group, Braces.body, Group.content]
  | .graph before name operand => by
    rw [Braces.group, Group.content_join, Braces.body,
      Operation.joined_inj before.same_basic (Operation.same_basic_graph name _ _),
      Braces.Scoped, ← before.content_eq_iff, ← operand.content_eq_iff, ← operand.finish_eq_iff]
    simp
  | .choice before operands => by
    rw [Braces.group, Group.content_join, Braces.body,
      Operation.joined_inj before.same_basic operands.same_basic, before.content_eq_iff,
      operands.pattern_eq_iff, Braces.Scoped]
  | .filter before condition => by
    rw [Braces.Scoped, ← before.content_eq_iff]
    rfl

theorem Alternatives.pattern_eq_iff : ∀ a : Alternatives, a.pattern = a.translation ↔ a.Scoped
  | .single operand => by
    rw [Alternatives.pattern, Alternatives.translation, operand.pattern_eq, Operation.filtered_inj,
      operand.content_eq_iff, Alternatives.Scoped]
  | .either left right => by
    rw [Alternatives.Scoped, ← left.pattern_eq_iff, ← right.content_eq_iff, ← right.finish_eq_iff]
    simp [Alternatives.pattern, Alternatives.translation]

end

theorem Braces.pattern_eq_iff (b : Braces) : b.pattern = b.translation ↔ b.Scoped := by
  rw [pattern, translation, pattern_eq, Operation.filtered_inj, content_eq_iff]

mutual

theorem Braces.body_assigned : ∀ b : Braces, b.body.assigned = b.inner
  | .empty => rfl
  | .triples before found => by
    rw [Braces.body, Operation.withTriples_assigned, before.body_assigned, Braces.inner]
  | .optional before operand => by
    rw [Braces.body, Operation.assigned, before.body_assigned, operand.body_assigned, Braces.inner, List.append_assoc]
  | .minus before operand => by
    rw [Braces.body, Operation.assigned, Operation.filtered_assigned, before.body_assigned, operand.body_assigned,
      Braces.inner]
  | .graph before name operand => by
    rw [Braces.body, Operation.joined_assigned, Operation.assigned, Operation.filtered_assigned,
      before.body_assigned, operand.body_assigned, Braces.inner]
  | .choice before operands => by
    rw [Braces.body, Operation.joined_assigned, before.body_assigned, operands.translation_assigned, Braces.inner]
  | .filter before condition => before.body_assigned

theorem Alternatives.translation_assigned : ∀ a : Alternatives, a.translation.assigned = a.assigned
  | .single operand => by
    rw [Alternatives.translation, Operation.filtered_assigned, operand.body_assigned, Alternatives.assigned]
  | .either left right => by
    rw [Alternatives.translation, Operation.assigned, Operation.filtered_assigned, left.translation_assigned,
      right.body_assigned, Alternatives.assigned]

end

theorem Braces.translation_assigned (b : Braces) : b.translation.assigned = b.assigned := by
  rw [translation, Operation.filtered_assigned, body_assigned, assigned]

mutual

theorem Braces.content_expressions : ∀ b : Braces,
    b.group.content.assigned.map (·.2) = b.inner.map (·.2)
  | .empty => rfl
  | .triples before found => by
    rw [Braces.group, Group.content_addTriples, Operation.withTriples_assigned, before.content_expressions,
      Braces.inner]
  | .optional before operand => by
    rw [Braces.group, Group.expressions_addOptional, operand.pattern_eq, Operation.filtered_assigned, Braces.inner]
    simp [before.content_expressions, operand.content_expressions, Role.of]
  | .minus before operand => by
    rw [Braces.group, Group.content, Option.getD_some, Operation.assigned, operand.pattern_eq,
      Operation.filtered_assigned, Braces.inner]
    simp [before.content_expressions, operand.content_expressions]
  | .graph before name operand => by
    rw [Braces.group, Group.content_join, Operation.joined_assigned, Operation.assigned, operand.pattern_eq,
      Operation.filtered_assigned, Braces.inner]
    simp [before.content_expressions, operand.content_expressions]
  | .choice before operands => by
    rw [Braces.group, Group.content_join, Operation.joined_assigned, Braces.inner]
    simp [before.content_expressions, operands.pattern_expressions]
  | .filter before condition => before.content_expressions

theorem Alternatives.pattern_expressions : ∀ a : Alternatives,
    a.pattern.assigned.map (·.2) = a.assigned.map (·.2)
  | .single operand => by
    rw [Alternatives.pattern, operand.pattern_eq, Operation.filtered_assigned, Alternatives.assigned]
    simp [operand.content_expressions]
  | .either left right => by
    rw [Alternatives.pattern, Operation.assigned, right.pattern_eq, Operation.filtered_assigned, Alternatives.assigned]
    simp [left.pattern_expressions, right.content_expressions]

end

theorem Braces.pattern_expressions (b : Braces) :
    b.pattern.assigned.map (·.2) = b.assigned.map (·.2) := by
  rw [pattern, pattern_eq, Operation.filtered_assigned, assigned]
  simp [content_expressions]

namespace Reader

variable {α α' β β' : Type} {f : α → β} {g : α' → β'}

def Shows (f : α → β) (r : Reader α) (r' : Reader β) : Prop :=
  ∀ scope c, r' scope c = (r scope c).map fun (a, after) => (f a, after)

theorem shows_pure {a : α} {b : β} (h : f a = b) : Shows f (pure a) (pure b) := by
  subst h
  exact fun _ _ => rfl

theorem shows_fail (fault : Fault) : Shows f (fail fault) (fail fault) := by
  intro scope c
  unfold fail
  split <;> rfl

theorem Shows.bind {r : Reader α} {r' : Reader β} {k : α → Reader α'} {k' : β → Reader β'}
    (first : Shows f r r') (next : ∀ a, Shows g (k a) (k' (f a))) : Shows g (r >>= k) (r' >>= k') := by
  intro scope c
  rw [bind_apply, bind_apply, first scope c]
  cases r scope c with
  | error stop => rfl
  | ok read => exact next read.1 scope read.2

theorem shows_bind {γ : Type} (r : Reader γ) {k : γ → Reader α} {k' : γ → Reader β}
    (next : ∀ a, Shows f (k a) (k' a)) : Shows f (r >>= k) (r >>= k') := by
  intro scope c
  rw [bind_apply, bind_apply]
  cases r scope c with
  | error stop => rfl
  | ok read => exact next read.1 scope read.2

theorem shows_ite {condition : Prop} [Decidable condition] {r s : Reader α} {r' s' : Reader β}
    (h : Shows f r r') (h' : Shows f s s') :
    Shows f (if condition then r else s) (if condition then r' else s') := by
  split
  · exact h
  · exact h'

def nextStep (f : α → β) : ForInStep α → ForInStep β
  | .yield a => .yield (f a)
  | .done a => .done (f a)

theorem shows_loop {step : α → Reader (ForInStep α)} {step' : β → Reader (ForInStep β)}
    (steps : ∀ a, Shows (nextStep f) (step a) (step' (f a))) (a : α) :
    Shows f (loop step a) (loop step' (f a)) := by
  have repeats : ∀ fuel a, Shows f (iterate step fuel a) (iterate step' fuel (f a)) := by
    intro fuel
    induction fuel with
    | zero => exact fun _ => shows_fail _
    | succ fuel ih =>
      refine fun a => (steps a).bind fun next => ?_
      cases next with
      | yield b => exact ih b
      | done b => exact shows_pure rfl
  exact shows_bind _ fun c => repeats _ a

def bracesChoice (braces : Reader Braces) : Reader Alternatives := do
  loop (fun left => do
    if ← acceptWord "UNION" then return .yield (.either left (← braces))
    else return .done left) (.single (← braces))

def bracesPart (nested : Nested) (braces : Reader Braces) (b : Braces) : Reader Braces := do
  if ← acceptWord "OPTIONAL" then return .optional b (← braces)
  else if ← acceptWord "MINUS" then return .minus b (← braces)
  else if ← acceptWord "GRAPH" then
    let name ← graphName
    return .graph b name (← braces)
  else if ← onSymbol .openBrace then return .choice b (← bracesChoice braces)
  else if ← acceptWord "FILTER" then return .filter b (← constraint nested)
  else
    let next ← peek?
    match unsupportedParts.find? fun w => isWord w next with
    | some w => fail (.unsupported w)
    | none => fail .unexpectedInGroup

def bracesParts (nested : Nested) (braces : Reader Braces) : Reader Braces :=
  loop (fun b => do
    if ← acceptSymbol .closeBrace then return .done b
    else if ← atEnd then fail .unterminatedGroup
    else if ← onTriple then return .yield (.triples b (← triples))
    else
      let b ← bracesPart nested braces b
      discard (acceptSymbol .dot)
      return .yield b) .empty

def bracesTo : Nat → Reader Braces
  | 0 => fail .tooDeep
  | depth + 1 => do
    expectSymbol .openBrace
    if ← onWord "SELECT" then fail .subQueries
    else bracesParts (nestedTo depth) (bracesTo depth)

variable {nested : Nested} {braces : Reader Braces}

theorem shows_alternatives (h : Shows Braces.pattern braces nested.group) :
    Shows Alternatives.pattern (bracesChoice braces) (alternatives nested) := by
  refine Shows.bind h fun b => shows_loop (f := Alternatives.pattern) (fun left => ?_) (Alternatives.single b)
  refine shows_bind _ fun more => shows_ite ?_ (shows_pure rfl)
  exact Shows.bind h fun right => shows_pure rfl

theorem shows_groupPart (h : Shows Braces.pattern braces nested.group) (b : Braces) :
    Shows Braces.group (bracesPart nested braces b) (groupPart nested b.group) := by
  refine shows_bind _ fun _ => shows_ite ?_ (shows_bind _ fun _ => shows_ite ?_ (shows_bind _ fun _ => shows_ite ?_
    (shows_bind _ fun _ => shows_ite ?_ (shows_bind _ fun _ => shows_ite ?_ (shows_bind _ fun next => ?_)))))
  · exact Shows.bind h fun operand => shows_pure rfl
  · exact Shows.bind h fun operand => shows_pure rfl
  · exact shows_bind _ fun name => Shows.bind h fun operand => shows_pure rfl
  · exact (shows_alternatives h).bind fun operands => shows_pure rfl
  · exact shows_bind _ fun condition => shows_pure rfl
  · cases unsupportedParts.find? fun w => isWord w next <;> exact shows_fail _

theorem shows_groupParts (h : Shows Braces.pattern braces nested.group) :
    Shows Braces.group (bracesParts nested braces) (groupParts nested) := by
  refine shows_loop (fun b => ?_) Braces.empty
  refine shows_bind _ fun _ => shows_ite (shows_pure rfl) ?_
  refine shows_bind _ fun _ => shows_ite (shows_fail _) (shows_bind _ fun _ => shows_ite ?_ ?_)
  · exact shows_bind _ fun found => shows_pure rfl
  · exact (shows_groupPart h b).bind fun after => shows_bind _ fun _ => shows_pure rfl

theorem Shows.finish {r : Reader Braces} {r' : Reader Group} (h : Shows Braces.group r r') :
    Shows Braces.pattern r (do return (← r').finish) := by
  intro scope c
  rw [bind_apply, h scope c]
  cases r scope c <;> rfl

theorem shows_group (depth : Nat) : Shows Braces.pattern (bracesTo depth) (nestedTo depth).group := by
  induction depth with
  | zero => exact shows_fail _
  | succ depth ih =>
    refine shows_bind _ fun _ => shows_bind _ fun _ => shows_ite (shows_fail _) ?_
    exact (shows_groupParts ih).finish

/-- Whatever group can be read, the filters of each pair of braces are one condition of its pattern,
in the order of the braces; and the pattern is what the braces stand for, with every condition in its
role, as long as no optional braces without filters hold nothing but a group with filters. -/
theorem filters_scoped {depth : Nat} {scope : Scope} {c after : Cursor} {op : Operation}
    (read : (nestedTo depth).group scope c = .ok (op, after)) :
    ∃ b, bracesTo depth scope c = .ok (b, after) ∧
      op.assigned.map (·.2) = b.assigned.map (·.2) ∧
      (op = b.translation ↔ b.Scoped) ∧
      (b.Scoped → op.assigned = b.assigned) := by
  rw [shows_group depth scope c] at read
  cases written : bracesTo depth scope c with
  | error stop =>
    rw [written] at read
    cases read
  | ok found =>
    obtain ⟨b, cursor⟩ := found
    rw [written] at read
    cases read
    refine ⟨b, rfl, b.pattern_expressions, b.pattern_eq_iff, fun h => ?_⟩
    rw [b.pattern_eq_iff.2 h, b.translation_assigned]

def optionalNumber : Text := "\x7b ?s ?p ?o OPTIONAL \x7b ?s ?q ?x FILTER(?x > 5) \x7d \x7d"

theorem filters_scoped_number :
    ∃ tokens op after, Token.scan optionalNumber = .ok tokens ∧
      (nestedTo 5).group (.whole false .defaultGraph optionalNumber.length) { tokens } = .ok (op, after) ∧
      ∃ b, bracesTo 5 (.whole false .defaultGraph optionalNumber.length) { tokens } = .ok (b, after) ∧
        op.assigned.map (·.2) = b.assigned.map (·.2) ∧
        (op = b.translation ↔ b.Scoped) ∧
        (b.Scoped → op.assigned = b.assigned) := by
  have accepted : (match Token.scan optionalNumber with
      | .ok tokens =>
        match (nestedTo 5).group (.whole false .defaultGraph optionalNumber.length) { tokens } with
        | .ok _ => true
        | .error _ => false
      | .error _ => false) = true := by decide +kernel
  split at accepted
  · rename_i tokens scanned
    split at accepted
    · rename_i read made
      exact ⟨tokens, read.1, read.2, scanned, made, filters_scoped made⟩
    · cases accepted
  · cases accepted

/-- The roles of the conditions in the pattern of a text that is a group, and their roles in what is
written. -/
def rolesOf (text : Text) : Option (List Role × List Role) :=
  match Token.scan text with
  | .ok tokens =>
    let scope := .whole false .defaultGraph text.length
    let depth := tokens.length + 1
    match (nestedTo depth).group scope { tokens }, bracesTo depth scope { tokens } with
    | .ok (op, _), .ok (b, _) => some (op.assigned.map (·.1), b.assigned.map (·.1))
    | _, _ => none
  | .error _ => none

/-- The filter of a group that is all there is in optional braces becomes the condition of the left
join, though it is not written directly in these braces. -/
theorem nested_filter_moves :
    rolesOf "\x7b ?s ?p ?o OPTIONAL \x7b \x7b ?s ?q ?x FILTER(?x > 5) \x7d \x7d \x7d" =
      some ([.leftJoin], [.filter]) := by
  decide +kernel

end Reader

end QuadStore.Sparql
