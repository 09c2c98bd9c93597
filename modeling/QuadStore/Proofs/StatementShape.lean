import QuadStore.Proofs.Placeholders
import QuadStore.Proofs.Selection

namespace QuadStore

open Sql

/-- Operators of the same kinds, on as many values. -/
structure Operators.SameShape (a b : Operators) : Prop where
  eq : a.eq.isSome = b.eq.isSome
  ne : a.ne.isSome = b.ne.isSome
  gt : a.gt.isSome = b.gt.isSome
  ge : a.ge.isSome = b.ge.isSome
  lt : a.lt.isSome = b.lt.isSome
  le : a.le.isSome = b.le.isSome
  among : a.among.map List.length = b.among.map List.length
  notAmong : a.notAmong.map List.length = b.notAmong.map List.length
  startsWith : a.startsWith.isSome = b.startsWith.isSome
  endsWith : a.endsWith.isSome = b.endsWith.isSome
  contains : a.contains.isSome = b.contains.isSome
  regex : a.regex.map (fun source => (Regex.lead source).isEmpty) =
    b.regex.map fun source => (Regex.lead source).isEmpty
  isNull : a.isNull = b.isNull

inductive Match.SameShape : Match → Match → Prop
  | term (t t' : Term) : SameShape (.term t) (.term t')
  | operators {a b : Operators} (h : a.SameShape b) : SameShape (.operators a) (.operators b)

def Pattern.SameShape (p q : Pattern) : Prop := ∀ a, Option.Rel Match.SameShape (p.get a) (q.get a)

/-- The same order and direction, and a limit and an offset in both or in neither. -/
structure Options.SameShape (a b : Options) : Prop where
  limit : a.limit.isSome = b.limit.isSome
  offset : a.offset.isSome = b.offset.isSome
  order : a.order = b.order
  reverse : a.reverse = b.reverse

def Selection.SameShape (a b : Selection) : Prop := a.pattern = b.pattern ∧ a.position = b.position

/-- Selections may have other names. -/
structure Compound.SameShape (a b : Compound) : Prop where
  patterns : List.Forall₂ Pattern.SameShape a.patterns b.patterns
  on : a.on = b.on
  select : List.Forall₂ Selection.SameShape a.select b.select

inductive Condition.SameShape : Condition → Condition → Prop
  | compare (c : Comparison) (v w : Text) : SameShape (.compare c v) (.compare c w)
  | among {vs ws : List Text} (h : vs.length = ws.length) : SameShape (.among vs) (.among ws)
  | notAmong {vs ws : List Text} (h : vs.length = ws.length) : SameShape (.notAmong vs) (.notAmong ws)
  | between (a b a' b' : Text) : SameShape (.between a b) (.between a' b')
  | like (s t : Text) : SameShape (.like s) (.like t)
  | isNull (expected : Bool) : SameShape (.isNull expected) (.isNull expected)

structure Clause.SameShape (a b : Clause) : Prop where
  position : a.position = b.position
  condition : a.condition.SameShape b.condition

namespace Sql

structure Join.SameShape (a b : Join) : Prop where
  on : a.on = b.on
  projections : a.projections = b.projections
  patterns : List.Forall₂ (List.Forall₂ Clause.SameShape) a.patterns b.patterns

namespace Statement

inductive SameShape : Statement → Statement → Prop
  | definition (d : Definition) : SameShape (.definition d) (.definition d)
  | select (columns : List Column) {a b : List Clause} {o o' : Options} (clauses : List.Forall₂ Clause.SameShape a b)
    (options : o.SameShape o') : SameShape (.query (.select columns a o)) (.query (.select columns b o'))
  | count {a b : List Clause} (clauses : List.Forall₂ Clause.SameShape a b) :
    SameShape (.query (.count a)) (.query (.count b))
  | countVectors : SameShape (.query .countVectors) (.query .countVectors)
  | countGraphs : SameShape (.query .countGraphs) (.query .countGraphs)
  | join {j j' : Join} {o o' : Options} (joins : j.SameShape j') (options : o.SameShape o') :
    SameShape (.query (.join j o)) (.query (.join j' o'))
  | upsert (r r' : Row) : SameShape (.command (.upsert r)) (.command (.upsert r'))
  | setVector (payload payload' : Text) {a b : List Clause} (clauses : List.Forall₂ Clause.SameShape a b) :
    SameShape (.command (.setVector payload a)) (.command (.setVector payload' b))
  | delete {a b : List Clause} (clauses : List.Forall₂ Clause.SameShape a b) :
    SameShape (.command (.delete a)) (.command (.delete b))

end Statement

end Sql

theorem map_eq_of_forall₂ {α β γ : Type} {R : α → β → Prop} {f : α → γ} {g : β → γ} {xs : List α} {ys : List β}
    (h : List.Forall₂ R xs ys) (same : ∀ x y, R x y → f x = g y) : xs.map f = ys.map g := by
  induction h with
  | nil => rfl
  | cons head _ ih => rw [List.map_cons, List.map_cons, same _ _ head, ih]

namespace Sql

theorem Fragment.text_append (f g : Fragment) : (f ++ g).text = f.text ++ g.text := rfl

theorem Fragment.text_joined (separator : Text) (fs : List Fragment) :
    (joined separator fs).text = Text.joined separator (fs.map (·.text)) := by
  induction fs with
  | nil => rfl
  | cons f rest ih =>
    cases rest with
    | nil => simp [joined, Text.joined, List.intercalate]
    | cons g rest =>
      rw [joined, text_append, text_append, ih]
      · simp [raw, Text.joined, List.intercalate]
      · exact List.cons_ne_nil g rest

theorem Fragment.text_params (ps qs : List Param) (h : ps.length = qs.length) :
    (params? ps).text = (params? qs).text := by
  have marks : ∀ ps : List Param, (ps.map param).map (·.text) = List.replicate ps.length ("?" : Text) := by
    intro ps
    rw [List.map_map]
    exact List.map_const'
  rw [params?, params?, text_joined, text_joined, marks, marks, h]

end Sql

theorem Condition.SameShape.text {c c' : Condition} (h : c.SameShape c') (column : Text) :
    (conditionFragment column c).text = (conditionFragment column c').text := by
  cases h with
  | compare | between | like | isNull => rfl
  | @among vs ws h =>
    cases vs with
    | nil =>
      rw [List.length_nil, eq_comm, List.length_eq_zero_iff] at h
      rw [h]
    | cons v vs =>
      cases ws with
      | nil => cases h
      | cons w ws =>
        have marks : (Fragment.params? ((v :: vs).map .text)).text = (Fragment.params? ((w :: ws).map .text)).text :=
          Fragment.text_params _ _ (by simpa using h)
        unfold conditionFragment
        rw [Fragment.text_append, Fragment.text_append, Fragment.text_append, Fragment.text_append, marks]
  | @notAmong vs ws h =>
    have marks : (Fragment.params? (vs.map .text)).text = (Fragment.params? (ws.map .text)).text :=
      Fragment.text_params _ _ (by simpa using h)
    unfold conditionFragment
    rw [Fragment.text_append, Fragment.text_append, Fragment.text_append, Fragment.text_append, marks]

theorem Clause.text_all {a b : List Clause} (h : List.Forall₂ Clause.SameShape a b) (qualifier : Text) :
    (conditionsFragment qualifier a).text = (conditionsFragment qualifier b).text := by
  rw [conditionsFragment, conditionsFragment, Fragment.text_joined, Fragment.text_joined, List.map_map, List.map_map]
  congr 1
  apply map_eq_of_forall₂ h
  intro c c' alike
  rw [Function.comp_apply, Function.comp_apply, alike.position]
  exact alike.condition.text _

namespace Sql

theorem text_filtered {f g : Fragment} (h : f.text = g.text) : (filtered f).text = (filtered g).text := by
  unfold filtered
  rw [h]
  split
  · rfl
  · rw [Fragment.text_append, Fragment.text_append, h]

theorem text_where {a b : List Clause} (h : List.Forall₂ Clause.SameShape a b) :
    (whereFragment a).text = (whereFragment b).text := text_filtered (Clause.text_all h [])

theorem text_order {a b : Options} (h : a.SameShape b) (qualifier : Text) :
    orderFragment qualifier a = orderFragment qualifier b := by
  unfold orderFragment
  rw [h.order, h.reverse]

theorem text_slice {a b : Options} (h : a.SameShape b) : (sliceFragment a).text = (sliceFragment b).text := by
  obtain ⟨limit, offset, -, -⟩ := h
  unfold sliceFragment
  cases ha : a.limit <;> cases hb : b.limit <;> cases ha' : a.offset <;> cases hb' : b.offset <;>
    simp only [ha, hb, ha', hb', Option.isSome_some, Option.isSome_none, reduceCtorEq] at limit offset <;> rfl

theorem forall₂_zipIdx {α β : Type} {R : α → β → Prop} {xs : List α} {ys : List β} (h : List.Forall₂ R xs ys)
    (i : Nat) : List.Forall₂ (fun x y => R x.1 y.1 ∧ x.2 = y.2) (xs.zipIdx i) (ys.zipIdx i) := by
  induction h generalizing i with
  | nil => exact .nil
  | cons head _ ih => exact .cons ⟨head, rfl⟩ (ih (i + 1))

theorem Join.SameShape.conditions {a b : Join} (h : a.SameShape b) : a.conditions.text = b.conditions.text := by
  have some_ : ∀ fs : List Fragment, (fs.filter (·.text ≠ [])).map (·.text) = (fs.map (·.text)).filter (· ≠ []) := by
    intro fs
    rw [List.filter_map]
    rfl
  unfold Join.conditions
  rw [Fragment.text_joined, Fragment.text_joined, some_, some_, List.map_map, List.map_map]
  congr 2
  apply map_eq_of_forall₂ (forall₂_zipIdx h.patterns 0)
  rintro ⟨clauses, i⟩ ⟨clauses', j⟩ ⟨alike, same⟩
  dsimp only at alike same
  rw [same]
  exact Clause.text_all alike _

theorem Join.SameShape.text {a b : Join} {o o' : Options} (h : a.SameShape b) (options : o.SameShape o') :
    (a.render o).text = (b.render o').text := by
  have conditions := text_filtered h.conditions
  have slice := text_slice options
  unfold Join.render
  rw [h.on, h.projections, h.patterns.length_eq, text_order options]
  simp only [Fragment.text_append, conditions, slice]

theorem Statement.SameShape.text {s s' : Statement} (h : s.SameShape s') (d : Dialect) :
    (s.render d).text = (s'.render d).text := by
  cases h with
  | definition | countVectors | countGraphs => rfl
  | @select columns a b o o' clauses options =>
    have slice := text_slice options
    have order := text_order options []
    change (Fragment.raw _ ++ whereFragment a ++ orderFragment [] o ++ sliceFragment o).text =
      (Fragment.raw _ ++ whereFragment b ++ orderFragment [] o' ++ sliceFragment o').text
    simp only [Fragment.text_append, text_where clauses, order, slice]
  | count clauses => exact congrArg (_ ++ ·) (text_where clauses)
  | join joins options => exact joins.text options
  | upsert r r' =>
    have marks := Fragment.text_params
      (Position.keyOrder.map (fun p => .text (r.get p)) ++ [Command.vectorParam r.vector])
      (Position.keyOrder.map (fun p => .text (r'.get p)) ++ [Command.vectorParam r'.vector]) rfl
    cases d with
    | sqlite => exact congrArg (fun values => (_ ++ values) ++ _) marks
    | postgres => exact congrArg (fun values => (_ ++ values) ++ _) marks
  | setVector payload payload' clauses => exact congrArg (_ ++ ·) (text_where clauses)
  | delete clauses => exact congrArg (_ ++ ·) (text_where clauses)

end Sql

theorem forall₂_optional {α β : Type} {R : β → β → Prop} {x y : Option α} (same : x.isSome = y.isSome) {f g : α → β}
    (alike : ∀ v w, R (f v) (g w)) : List.Forall₂ R (x.map f).toList (y.map g).toList := by
  cases x with
  | none =>
    cases y with
    | none => exact .nil
    | some w => cases same
  | some v =>
    cases y with
    | none => cases same
    | some w => exact .cons (alike v w) .nil

theorem Operators.SameShape.notAmongConditions {a b : Operators} (h : a.SameShape b) (p : Position) :
    List.Forall₂ Condition.SameShape
      (match a.notAmong with
        | none | some [] => []
        | some vs => [.notAmong (vs.map (·.stored p .ne))])
      (match b.notAmong with
        | none | some [] => []
        | some vs => [.notAmong (vs.map (·.stored p .ne))]) := by
  have lengths := h.notAmong
  rcases ha : a.notAmong with _ | _ | ⟨v, vs⟩ <;> rcases hb : b.notAmong with _ | _ | ⟨w, ws⟩ <;>
    simp [ha, hb] at lengths
  · exact .nil
  · exact .nil
  · exact .cons (.notAmong (by simp [lengths])) .nil

theorem Operators.SameShape.leadConditions {a b : Operators} (h : a.SameShape b) :
    List.Forall₂ Condition.SameShape
      (match a.regex.map Regex.lead with
        | none | some [] => []
        | some s => [.startingWith s])
      (match b.regex.map Regex.lead with
        | none | some [] => []
        | some s => [.startingWith s]) := by
  have leads := h.regex
  rcases ha : a.regex with _ | source <;> rcases hb : b.regex with _ | source' <;> simp [ha, hb] at leads
  · exact .nil
  · rcases hs : Regex.lead source with _ | ⟨c, s⟩ <;> rcases hs' : Regex.lead source' with _ | ⟨c', s'⟩ <;>
      simp [hs, hs'] at leads
    · simp [hs, hs']
    · simp only [Option.map_some, hs, hs']
      exact .cons (.between _ _ _ _) .nil

theorem Operators.SameShape.conditions {a b : Operators} (h : a.SameShape b) (p : Position) :
    List.Forall₂ Condition.SameShape (a.conditions p) (b.conditions p) := by
  have compared : ∀ (c : Comparison) {x y : Option Value}, x.isSome = y.isSome →
      List.Forall₂ Condition.SameShape (x.map fun v => Condition.compare c (v.stored p c)).toList
        (y.map fun v => Condition.compare c (v.stored p c)).toList :=
    fun c x y same => forall₂_optional same fun v w => .compare c _ _
  have among : List.Forall₂ Condition.SameShape (a.among.map fun vs => Condition.among (vs.map (·.stored p .eq))).toList
      (b.among.map fun vs => Condition.among (vs.map (·.stored p .eq))).toList := by
    have lengths := h.among
    cases ha : a.among with
    | none =>
      cases hb : b.among with
      | none => exact .nil
      | some ws => simp [ha, hb] at lengths
    | some vs =>
      cases hb : b.among with
      | none => simp [ha, hb] at lengths
      | some ws =>
        have lengths : vs.length = ws.length := by simpa [ha, hb] using lengths
        exact .cons (.among (by simp [lengths])) .nil
  have null : List.Forall₂ Condition.SameShape (a.isNull.map .isNull).toList (b.isNull.map .isNull).toList := by
    rw [h.isNull]
    cases b.isNull with
    | none => exact .nil
    | some expected => exact .cons (.isNull expected) .nil
  have append : ∀ {as bs cs ds : List Condition}, List.Forall₂ Condition.SameShape as bs →
      List.Forall₂ Condition.SameShape cs ds → List.Forall₂ Condition.SameShape (as ++ cs) (bs ++ ds) :=
    fun first second => List.rel_append first second
  unfold Operators.conditions
  refine append (append (append (append (append (append (append (append (append (append (append (append ?_ ?_) ?_) ?_)
    ?_) ?_) ?_) ?_) ?_) ?_) ?_) ?_) null
  · exact compared .eq h.eq
  · exact compared .ne h.ne
  · exact compared .gt h.gt
  · exact compared .ge h.ge
  · exact compared .lt h.lt
  · exact compared .le h.le
  · exact among
  · exact h.notAmongConditions p
  · exact forall₂_optional h.startsWith fun _ _ => .between _ _ _ _
  · exact forall₂_optional h.endsWith fun _ _ => .like _ _
  · exact forall₂_optional h.contains fun _ _ => .like _ _
  · exact h.leadConditions

theorem Match.SameShape.conditions {m n : Match} (h : m.SameShape n) (p : Position) :
    List.Forall₂ Condition.SameShape (m.conditions p) (n.conditions p) := by
  cases h with
  | term t t' => exact .cons (.compare .eq _ _) .nil
  | operators alike => exact alike.conditions p

theorem Match.SameShape.regex {m n : Match} (h : m.SameShape n) : m.regex?.isSome = n.regex?.isSome := by
  cases h with
  | term t t' => rfl
  | @operators a b alike =>
    have leads := congrArg Option.isSome alike.regex
    rwa [Option.isSome_map, Option.isSome_map] at leads

namespace Pattern.SameShape

variable {p q : Pattern}

theorem clauses (h : p.SameShape q) : List.Forall₂ Clause.SameShape p.clauses q.clauses := by
  unfold Pattern.clauses
  apply List.rel_flatMap (R := Eq) (List.forall₂_same.2 fun _ _ => rfl)
  rintro a _ rfl
  have at_ := h a
  dsimp only
  generalize p.get a = m at at_
  generalize q.get a = n at at_
  cases at_ with
  | none => exact .nil
  | some alike =>
    dsimp only
    rw [List.forall₂_map_left_iff, List.forall₂_map_right_iff]
    exact (alike.conditions a).imp fun _ _ same => ⟨rfl, same⟩

theorem hasRegex (h : p.SameShape q) : p.hasRegex = q.hasRegex := by
  have any : ∀ p : Pattern, p.hasRegex = Position.keyOrder.any fun a => ((p.get a).bind Match.regex?).isSome := by
    intro p
    rw [Bool.eq_iff_iff]
    simp [Pattern.hasRegex, Pattern.regexes, Option.isSome_iff_ne_none]
  rw [any, any]
  congr 1
  funext a
  have at_ := h a
  generalize p.get a = m at at_
  generalize q.get a = n at at_
  cases at_ with
  | none => rfl
  | some alike => exact alike.regex

theorem joinClauses (h : p.SameShape q) :
    Option.Rel (List.Forall₂ Clause.SameShape) p.joinClauses? q.joinClauses? := by
  unfold Pattern.joinClauses?
  rw [h.hasRegex]
  split
  · exact .none
  · exact .some h.clauses

end Pattern.SameShape

end QuadStore
