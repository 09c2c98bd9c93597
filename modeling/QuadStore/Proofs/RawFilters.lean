import QuadStore.Proofs.KeptFilters
import QuadStore.Proofs.RawConditions

namespace QuadStore

open Sparql Analysis

/-- The operators that a filter asks of the variables of a triple, and what is left of it. -/
structure RawPushdown where
  filters : Filters := []
  remainder : Option RawExpression := none
  branches : List (Text × Operators) := []
  branchRemainder : List RawExpression := []

def Pushdown.raw (p : Pushdown) : RawPushdown where
  filters := p.filters
  remainder := p.remainder.map Expression.raw
  branches := p.branches
  branchRemainder := p.branchRemainder.map Expression.raw

namespace Sparql.RawExpression

mutual

def parts (joiner : Text) : RawExpression → Except Missing (List RawExpression)
  | .missing => .error .expression
  | .operator name args => if name = joiner then partsOfAll joiner args else .ok [.operator name args]
  | f => .ok [f]

def partsOfAll (joiner : Text) : List RawExpression → Except Missing (List RawExpression)
  | [] => .ok []
  | f :: fs => do return (← f.parts joiner) ++ (← partsOfAll joiner fs)

end

def pushDisjunction (q : Quad) (f : RawExpression) : Except Missing RawPushdown := do
  let tests ← (← f.parts "||").mapM fun a => do return (a, ← (conditionOn q a).run)
  let branches := tests.filterMap (·.2)
  let rest := tests.filterMap fun (a, test) => if test.isNone then some a else none
  if branches.isEmpty then return { remainder := some f }
  else if rest.isEmpty then match Pushdown.choice? branches with
    | some filters => return { filters }
    | none => return { branches }
  else return { branches, branchRemainder := rest }

def leftOf (sides : List (RawExpression × RawPushdown)) : List RawExpression :=
  sides.flatMap fun (f, p) => p.remainder.toList ++ if p.branches.isEmpty then [] else [f]

def conjunction? : List RawExpression → Option RawExpression
  | [] => none
  | [f] => some f
  | fs => some (.operator "&&" fs)

mutual

def push (q : Quad) : RawExpression → Except Missing RawPushdown
  | .missing => .error .expression
  | .operator name args =>
    if name = "&&" then do
      let sides ← pushSides q args
      return {
        filters := sides.foldl (fun fs (_, p) => fs.addAll p.filters) []
        remainder := conjunction? (leftOf sides) }
    else if name = "||" then pushDisjunction q (.operator name args)
    else do match ← (conditionOn q (.operator name args)).run with
      | some found => return { filters := [found] }
      | none => return { remainder := some (.operator name args) }
  | f => .ok { remainder := some f }

def pushSides (q : Quad) : List RawExpression → Except Missing (List (RawExpression × RawPushdown))
  | [] => .ok []
  | f :: fs => do return (f, ← push q f) :: (← pushSides q fs)

end

/-- The name of an operator with two operands stands nowhere else. -/
theorem binary_of_raw {e : Expression} {name : Text} {args : List RawExpression} (h : e.raw = .operator name args)
    {op : Operator} (same : name = op.symbol.text) : ∃ left right, e = .binary op left right := by
  have other : Operator.ofName? name ≠ none := by
    rw [same, Operator.ofName?_text]
    exact nofun
  cases e with
  | binary op' left right =>
    cases h
    exact ⟨left, right, by rw [Operator.text_inj same]⟩
  | negation e =>
    cases h
    exact absurd rfl other
  | opposite e =>
    cases h
    exact absurd rfl other
  | member negated e values =>
    cases h
    exact absurd (by cases negated <;> rfl) other
  | builtin f arguments =>
    cases h
    exact absurd (Operator.ofName?_builtin f) other
  | _ => cases h

theorem parts_self (joiner : Operator) {left right : Expression} {ls rs : List RawExpression}
    (hl : left.raw.parts joiner.symbol.text = .ok ls) (hr : right.raw.parts joiner.symbol.text = .ok rs) :
    (Expression.binary joiner left right).raw.parts joiner.symbol.text = .ok (ls ++ rs) := by
  rw [Expression.raw, parts, if_pos rfl, partsOfAll, partsOfAll, partsOfAll, hl, hr]
  exact congrArg (fun rs => Except.ok (ls ++ rs)) (List.append_nil rs)

theorem parts_other (joiner : Operator) {e : Expression} (other : ∀ left right, e ≠ .binary joiner left right) :
    e.raw.parts joiner.symbol.text = .ok [e.raw] := by
  cases same : e.raw with
  | missing => cases e <;> cases same
  | operator name args =>
    rw [parts, if_neg]
    intro joined
    obtain ⟨left, right, binary⟩ := binary_of_raw same joined
    exact other left right binary
  | _ => rfl

theorem parts_conjuncts (e : Expression) : e.raw.parts "&&" = .ok (e.conjuncts.map Expression.raw) := by
  fun_induction Expression.conjuncts e with
  | case1 left right ihl ihr =>
    rw [List.map_append]
    exact parts_self .and ihl ihr
  | case2 e other => exact parts_other .and other

theorem parts_disjuncts (e : Expression) : e.raw.parts "||" = .ok (e.disjuncts.map Expression.raw) := by
  fun_induction Expression.disjuncts e with
  | case1 left right ihl ihr =>
    rw [List.map_append]
    exact parts_self .or ihl ihr
  | case2 e other => exact parts_other .or other

theorem run_conditionOn (q : Quad) (e : Expression) : (conditionOn q e.raw).run = .ok (Condition.on? q e) := by
  rw [conditionOn_raw]
  rfl

theorem untested_raw (q : Quad) (es : List Expression) :
    ((es.map fun a => (a.raw, Condition.on? q a)).filterMap fun (a, test) => if test.isNone then some a else none) =
      (es.filter fun a => (Condition.on? q a).isNone).map Expression.raw := by
  induction es with
  | nil => rfl
  | cons e es ih =>
    rw [List.map_cons, List.filterMap_cons, ih, List.filter_cons]
    cases Condition.on? q e <;> rfl

theorem pushDisjunction_raw (q : Quad) (e : Expression) :
    pushDisjunction q e.raw = .ok (Pushdown.ofDisjunction q e).raw := by
  have branches : ∀ es : List Expression,
      (es.map fun a => (a.raw, Condition.on? q a)).filterMap (·.2) = es.filterMap (Condition.on? q) := by
    intro es
    rw [List.filterMap_map]
    rfl
  have tested : ∀ a : Expression, (do return (a.raw, ← (conditionOn q a.raw).run) : Except Missing _) =
      .ok (a.raw, Condition.on? q a) := by
    intro a
    rw [run_conditionOn]
    rfl
  unfold pushDisjunction Pushdown.ofDisjunction
  rw [parts_disjuncts, ok_bind, mapM_ok tested, ok_bind, branches, untested_raw]
  dsimp only
  rw [List.isEmpty_map]
  split
  · rfl
  · split
    · cases Pushdown.choice? (e.disjuncts.filterMap (Condition.on? q)) <;> rfl
    · rfl

end Sparql.RawExpression

namespace Sparql.RawExpression

theorem push_operator {q : Quad} {e : Expression} {name : Text} {args : List RawExpression}
    (same : e.raw = .operator name args) (conj : ∀ left right, e ≠ .binary .and left right)
    (disj : ∀ left right, e ≠ .binary .or left right) :
    push q e.raw = .ok (match Condition.on? q e with
      | some found => { filters := [found] }
      | none => { remainder := some e.raw }) := by
  have apart : ∀ op : Operator, (∀ left right, e ≠ .binary op left right) → name ≠ op.symbol.text := by
    intro op other joined
    obtain ⟨left, right, binary⟩ := binary_of_raw same joined
    exact other left right binary
  have noConjunction : name ≠ "&&" := apart .and conj
  have noDisjunction : name ≠ "||" := apart .or disj
  have tested := run_conditionOn q e
  rw [same] at tested ⊢
  rw [push, if_neg noConjunction, if_neg noDisjunction, tested, ok_bind]
  cases Condition.on? q e <;> rfl

theorem push_single {q : Quad} {e : Expression} (conj : ∀ left right, e ≠ .binary .and left right)
    (disj : ∀ left right, e ≠ .binary .or left right) :
    push q e.raw = .ok (match Condition.on? q e with
      | some found => { filters := [found] }
      | none => { remainder := some e.raw }) := by
  cases e with
  | term t => rfl
  | call function arguments => rfl
  | existence negated pattern => rfl
  | _ => exact push_operator rfl conj disj

theorem leftOf_raw {q : Quad} (left right : Expression) :
    conjunction? (leftOf [(left.raw, (Pushdown.ofFilter q left).raw), (right.raw, (Pushdown.ofFilter q right).raw)]) =
      (Pushdown.both (Pushdown.leftOf left (Pushdown.ofFilter q left))
        (Pushdown.leftOf right (Pushdown.ofFilter q right))).map Expression.raw := by
  have side : ∀ e : Expression, ((Pushdown.ofFilter q e).raw.remainder.toList ++
      if (Pushdown.ofFilter q e).raw.branches.isEmpty then [] else [e.raw]) =
        ((Pushdown.leftOf e (Pushdown.ofFilter q e)).map Expression.raw).toList := by
    intro e
    unfold Pushdown.leftOf Pushdown.raw
    dsimp only
    split
    · exact List.append_nil _
    · rename_i some_
      rw [Pushdown.remainder_of_branches (by simpa using some_)]
      rfl
  unfold leftOf
  rw [List.flatMap_cons, List.flatMap_cons, List.flatMap_nil, List.append_nil]
  dsimp only
  rw [side, side]
  cases Pushdown.leftOf left (Pushdown.ofFilter q left) <;>
    cases Pushdown.leftOf right (Pushdown.ofFilter q right) <;> rfl

theorem push_raw (q : Quad) (e : Expression) : push q e.raw = .ok (Pushdown.ofFilter q e).raw := by
  fun_induction Pushdown.ofFilter q e with
  | case1 left right l r ihl ihr =>
    have unfolded : push q (Expression.binary .and left right).raw = (do
        let sides ← pushSides q [left.raw, right.raw]
        return {
          filters := sides.foldl (fun fs (_, p) => fs.addAll p.filters) []
          remainder := conjunction? (leftOf sides) }) := rfl
    have sides : pushSides q [left.raw, right.raw] = .ok [(left.raw, l.raw), (right.raw, r.raw)] := by
      rw [pushSides, pushSides, pushSides, ihl, ihr]
      rfl
    rw [unfolded, sides, ok_bind, leftOf_raw]
    rfl
  | case2 left right => exact pushDisjunction_raw q (.binary .or left right)
  | case3 e conj disj name ops found =>
    rw [push_single conj disj, found]
    rfl
  | case4 e conj disj none_ =>
    rw [push_single conj disj, none_]
    rfl

mutual

theorem parts_complete (joiner : Text) : ∀ f : RawExpression, f.WellFormed →
    ∃ fs, f.parts joiner = .ok fs ∧ ∀ g ∈ fs, g.WellFormed
  | .operator name args, h => by
    rw [parts]
    split
    · cases h with
      | operator _ present => exact partsOfAll_complete joiner args present
    · exact ⟨_, rfl, List.forall_mem_singleton.2 h⟩
  | .term t, h => ⟨_, rfl, List.forall_mem_singleton.2 h⟩
  | .call function args, h => ⟨_, rfl, List.forall_mem_singleton.2 h⟩
  | .existence negated pattern, h => ⟨_, rfl, List.forall_mem_singleton.2 h⟩

theorem partsOfAll_complete (joiner : Text) : ∀ fs : List RawExpression, (∀ f ∈ fs, f.WellFormed) →
    ∃ gs, partsOfAll joiner fs = .ok gs ∧ ∀ g ∈ gs, g.WellFormed
  | [], _ => ⟨[], rfl, List.forall_mem_nil _⟩
  | f :: fs, all => by
    have ⟨first, rest⟩ := List.forall_mem_cons.1 all
    obtain ⟨gs, own, formed⟩ := parts_complete joiner f first
    obtain ⟨more, others, formed'⟩ := partsOfAll_complete joiner fs rest
    refine ⟨gs ++ more, ?_, List.forall_mem_append.2 ⟨formed, formed'⟩⟩
    rw [partsOfAll, own, others]
    rfl

end

theorem run_complete (q : Quad) {f : RawExpression} (h : f.WellFormed) : ∃ found, (conditionOn q f).run = .ok found := by
  obtain ⟨found, same⟩ := conditionOn_complete q h
  exact ⟨found, by rw [same]; rfl⟩

theorem pushDisjunction_complete (q : Quad) {f : RawExpression} (h : f.WellFormed) :
    ∃ p, pushDisjunction q f = .ok p := by
  have tests : ∀ fs : List RawExpression, (∀ f ∈ fs, f.WellFormed) →
      ∃ tests, fs.mapM (fun a => do return (a, ← (conditionOn q a).run)) = (.ok tests : Except Missing _) := by
    intro fs
    induction fs with
    | nil => exact fun _ => ⟨[], rfl⟩
    | cons f fs ih =>
      intro all
      have ⟨first, rest⟩ := List.forall_mem_cons.1 all
      obtain ⟨found, own⟩ := run_complete q first
      obtain ⟨more, others⟩ := ih rest
      refine ⟨(f, found) :: more, ?_⟩
      rw [List.mapM_cons, own, others]
      rfl
  obtain ⟨alternatives, parted, formed⟩ := parts_complete "||" f h
  obtain ⟨found, tested⟩ := tests alternatives formed
  unfold pushDisjunction
  rw [parted, ok_bind, tested, ok_bind]
  dsimp only
  split
  · exact ⟨_, rfl⟩
  · split
    · split <;> exact ⟨_, rfl⟩
    · exact ⟨_, rfl⟩

mutual

theorem push_complete (q : Quad) : ∀ f : RawExpression, f.WellFormed → ∃ p, push q f = .ok p
  | .operator name args, h => by
    rw [push]
    split
    · cases h with
      | operator _ present =>
        obtain ⟨sides, pushed⟩ := pushSides_complete q args present
        rw [pushed, ok_bind]
        exact ⟨_, rfl⟩
    · split
      · exact pushDisjunction_complete q h
      · obtain ⟨found, tested⟩ := run_complete q h
        rw [tested, ok_bind]
        cases found <;> exact ⟨_, rfl⟩
  | .term t, _ => ⟨_, rfl⟩
  | .call function args, _ => ⟨_, rfl⟩
  | .existence negated pattern, _ => ⟨_, rfl⟩

theorem pushSides_complete (q : Quad) : ∀ fs : List RawExpression, (∀ f ∈ fs, f.WellFormed) →
    ∃ sides, pushSides q fs = .ok sides
  | [], _ => ⟨[], rfl⟩
  | f :: fs, all => by
    have ⟨first, rest⟩ := List.forall_mem_cons.1 all
    obtain ⟨p, own⟩ := push_complete q f first
    obtain ⟨sides, others⟩ := pushSides_complete q fs rest
    rw [pushSides, own, others]
    exact ⟨_, rfl⟩

end

end Sparql.RawExpression

end QuadStore
