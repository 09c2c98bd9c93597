import QuadStore.Proofs.KeptFilters
import QuadStore.Proofs.Selection

namespace QuadStore

namespace Operators

def only : Test → Operand → Operators
  | .eq, .value v => { eq := some v }
  | .ne, .value v => { ne := some v }
  | .gt, .value v => { gt := some v }
  | .ge, .value v => { ge := some v }
  | .lt, .value v => { lt := some v }
  | .le, .value v => { le := some v }
  | .among, .values vs => { among := some vs }
  | .notAmong, .values vs => { notAmong := some vs }
  | .startsWith, .text s => { startsWith := some s }
  | .endsWith, .text s => { endsWith := some s }
  | .contains, .text s => { contains := some s }
  | .regex, .text s => { regex := some s }
  | .isNull, .flag b => { isNull := some b }
  | _, _ => {}

end Operators

def Test.passes (t : Test) (v : Operand) (p : Position) (s : Text) : Bool :=
  (Match.operators (.only t v)).admits p s

namespace Test

def all : List Test :=
  [.eq, .ne, .gt, .ge, .lt, .le, .among, .notAmong, .startsWith, .endsWith, .contains, .regex, .isNull]

theorem mem_all (t : Test) : t ∈ all := by
  cases t <;> decide

variable {p : Position} {s : Text}

theorem passes_among (vs : List Value) :
    Test.among.passes (.values vs) p s = true ↔ ∃ v ∈ vs, Test.eq.passes (.value v) p s = true := by
  simp [passes, Operators.only, Match.admits, Match.conditions, Match.regex?, Operators.conditions,
    Condition.holds, Comparison.holds, eq_comm]

end Test

namespace Match

variable {o a b : Operators} {p : Position} {s : Text}

theorem all_toList {α : Type} (x : Option α) (f : α → Bool) : x.toList.all f = x.all f := by
  cases x <;> simp

theorem admits_all (o : Operators) (p : Position) (s : Text) :
    (operators o).admits p s = Test.all.all fun t => (o.operand? t).all fun v => t.passes v p s := by
  obtain ⟨eq, ne, gt, ge, lt, le, among, notAmong, startsWith, endsWith, contains, regex, isNull⟩ := o
  simp only [Test.all, List.all_cons, List.all_nil, Operators.operand?, Option.all_map,
    Test.passes, Operators.only, admits, conditions, regex?, Operators.conditions, List.all_append,
    all_toList, Option.map_some, Option.map_none, Option.all_some, Option.all_none, Bool.and_true, Bool.true_and]
  -- An empty list of excluded values is no condition, and a regular expression is two.
  cases notAmong <;> cases regex <;>
    · simp only [Option.map_none, Option.map_some, Option.all_none, Option.all_some, List.all_nil, Bool.and_true,
        Bool.true_and]
      ac_rfl

theorem admits_operators : (operators o).admits p s = true ↔
    ∀ t v, o.operand? t = some v → t.passes v p s = true := by
  rw [admits_all, List.all_eq_true]
  constructor
  · intro all t v there
    have passed := all t (Test.mem_all t)
    rw [there, Option.all_some] at passed
    exact passed
  · intro all t _
    cases there : o.operand? t with
    | none => rfl
    | some v =>
      rw [Option.all_some]
      exact all t v there

theorem admits_merge : (operators (a.merge b)).admits p s = true ↔
    (operators b).admits p s = true ∧
      ∀ t v, a.operand? t = some v → b.operand? t = none → t.passes v p s = true := by
  simp only [admits_operators, Operators.operand?_merge, Option.or_eq_some_iff]
  constructor
  · intro all
    exact ⟨fun t v there => all t v (.inl there), fun t v there free => all t v (.inr ⟨free, there⟩)⟩
  · rintro ⟨added, kept⟩ t v (there | ⟨free, there⟩)
    · exact added t v there
    · exact kept t v there free

/-- Of what merged sets take, the first set takes what passes the tests that were replaced. -/
theorem admits_of_merge (taken : (operators (a.merge b)).admits p s = true) :
    (operators a).admits p s = true ↔
      ∀ t v w, a.operand? t = some v → b.operand? t = some w → w ≠ v → t.passes v p s = true := by
  obtain ⟨added, kept⟩ := admits_merge.1 taken
  rw [admits_operators] at added ⊢
  constructor
  · intro all t v w there _ _
    exact all t v there
  · intro replaced t v there
    cases instead : b.operand? t with
    | none => exact kept t v there instead
    | some w =>
      by_cases same : w = v
      · rw [← same]
        exact added t w instead
      · exact replaced t v w there instead same

end Match

end QuadStore
