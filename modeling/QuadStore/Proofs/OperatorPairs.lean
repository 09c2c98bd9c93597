import QuadStore.Proofs.NumberFilter
import QuadStore.Proofs.OperatorTests

namespace QuadStore

open Sql

namespace Value

variable {v : Value} {p : Position} {c d : Comparison}

theorem stored_congr (ordering : c.isOrdering = d.isOrdering) (above : c.isAboveEqual = d.isAboveEqual) :
    v.stored p c = v.stored p d := by
  have bounds : ∀ key, bound c key = bound d key := fun key => by rw [bound, bound, above]
  unfold stored
  rw [ordering]
  simp only [bounds]

theorem stored_gt_eq_le : v.stored p .gt = v.stored p .le := stored_congr rfl rfl

theorem stored_lt_eq_ge : v.stored p .lt = v.stored p .ge := stored_congr rfl rfl

theorem stored_eq_eq_ne : v.stored p .eq = v.stored p .ne := stored_congr rfl rfl

/-- The open bound of a value continues the closed one. -/
theorem stored_ge_prefix_gt : v.stored p .ge <+: v.stored p .gt := by
  have keyed : ∀ key, bound .ge key <+: bound .gt key := fun key => List.prefix_append key _
  have same : ∀ s : Text, s <+: s := fun s => List.prefix_rfl
  cases v with
  | term t =>
    unfold stored
    dsimp only
    cases t.orderKey? with
    | none => exact same _
    | some key =>
      dsimp only
      by_cases object : p = .object
      · rw [if_pos ⟨object, rfl⟩, if_pos ⟨object, rfl⟩]
        exact keyed key
      · rw [if_neg fun h => object h.1, if_neg fun h => object h.1]
  | number x =>
    by_cases object : p = .object
    · rw [object]
      exact keyed _
    · unfold stored
      dsimp only
      rw [if_pos object, if_pos object]
  | raw s => exact same _

theorem stored_ge_le_gt : v.stored p .ge ≤ v.stored p .gt := by
  obtain ⟨rest, open_⟩ := v.stored_ge_prefix_gt (p := p)
  rw [← open_]
  exact List.le_append_left

end Value

def Test.takes (t : Test) (v : Operand) (p : Position) (r : Row) : Bool :=
  Table.satisfies r (({} : Pattern).set p (some (.operators (.only t v)))).clauses

namespace Test

variable {p : Position} {v : Value} {vs : List Value} {r : Row}

theorem takes_eq (t : Test) (v : Operand) (p : Position) (r : Row) :
    t.takes v p r = ((Operators.only t v).conditions p).all (·.holds (r.get p)) :=
  Pattern.satisfies_single r p _

def comparison? : Test → Option Comparison
  | eq => some .eq
  | ne => some .ne
  | gt => some .gt
  | ge => some .ge
  | lt => some .lt
  | le => some .le
  | _ => none

theorem takes_comparison {t : Test} {c : Comparison} (compares : t.comparison? = some c) :
    t.takes (.value v) p r = c.holds (r.get p) (v.stored p c) := by
  rw [takes_eq]
  cases t <;> cases compares <;> simp [Operators.only, Operators.conditions, Condition.holds]

theorem takes_among : among.takes (.values vs) p r = (vs.map (·.stored p .eq)).contains (r.get p) := by
  rw [takes_eq]
  simp [Operators.only, Operators.conditions, Condition.holds]

theorem takes_notAmong : notAmong.takes (.values vs) p r = !(vs.map (·.stored p .eq)).contains (r.get p) := by
  rw [takes_eq]
  have same : (fun v : Value => v.stored p .eq) = fun v => v.stored p .ne := funext fun _ => Value.stored_eq_eq_ne
  rw [same]
  cases vs <;> simp [Operators.only, Operators.conditions, Condition.holds]

/-- Whatever is stored in a position satisfies one operator of each pair and not the other, and what is above
or below a value is also at least or at most it. -/
theorem operators_paired (p : Position) (v : Value) (vs : List Value) (r : Row) :
    (gt.takes (.value v) p r = !le.takes (.value v) p r) ∧
    (lt.takes (.value v) p r = !ge.takes (.value v) p r) ∧
    (eq.takes (.value v) p r = !ne.takes (.value v) p r) ∧
    (among.takes (.values vs) p r = !notAmong.takes (.values vs) p r) ∧
    (gt.takes (.value v) p r = true → ge.takes (.value v) p r = true) ∧
    (lt.takes (.value v) p r = true → le.takes (.value v) p r = true) := by
  have compared : ∀ {t : Test} {c : Comparison}, t.comparison? = some c →
      t.takes (.value v) p r = c.holds (r.get p) (v.stored p c) := takes_comparison
  rw [compared (t := gt) rfl, compared (t := ge) rfl, compared (t := lt) rfl, compared (t := le) rfl,
    compared (t := eq) rfl, compared (t := ne) rfl, takes_among, takes_notAmong, Bool.not_not, Value.stored_gt_eq_le,
    Value.stored_lt_eq_ge, Value.stored_eq_eq_ne]
  have ordered : v.stored p .ge ≤ v.stored p .le := by
    rw [← Value.stored_gt_eq_le]
    exact Value.stored_ge_le_gt
  simp only [Comparison.holds, Bool.not_not, Bool.not_eq_true', decide_eq_true_eq, decide_eq_false_iff_not, true_and]
  refine ⟨?_, ?_, ?_⟩
  · simp
  · intro above below
    exact List.lt_irrefl _ (List.lt_trans below (List.lt_of_le_of_lt ordered above))
  · intro below above
    exact List.lt_irrefl _ (List.lt_trans below (List.lt_of_le_of_lt ordered above))

end Test

end QuadStore
