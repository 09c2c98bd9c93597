import Mathlib.Data.List.Infix
import QuadStore.Proofs.LikeText
import QuadStore.Proofs.Selection
import QuadStore.Proofs.TermText

namespace QuadStore

namespace Like

/-- What a pattern finds, byte by byte. -/
inductive Finds : Text → Text → Prop
  | nil : Finds [] []
  | any {rest tail v : Text} (skipped : tail <:+ v) (found : Finds rest tail) : Finds (percent :: rest) v
  | one {rest v : Text} (d : UInt8) (found : Finds rest (v.dropWhile Utf8.isContinuation)) :
      Finds (underscore :: rest) (d :: v)
  | escaped {rest v : Text} (c : UInt8) (found : Finds rest v) : Finds (backslash :: c :: rest) (c :: v)
  | plain {rest v : Text} {c : UInt8} (own : ¬ (c = backslash ∨ c = percent ∨ c = underscore))
      (found : Finds rest v) : Finds (c :: rest) (c :: v)

def taken (items : Option (List Item)) (v : Text) : Bool := items.any (itemsMatch · v)

variable {c : UInt8} {items : Option (List Item)} {pattern rest v x : Text}

theorem taken_nil : taken (some []) v = true ↔ v = [] := by
  simp [taken, itemsMatch]

theorem taken_byte : taken (items.map (.byte c :: ·)) v = true ↔ ∃ w, v = c :: w ∧ taken items w = true := by
  cases v with
  | nil => cases items <;> simp [taken, itemsMatch]
  | cons d v =>
    by_cases same : c = d
    · cases items <;> simp [taken, itemsMatch, same]
    · cases items <;> simp [taken, itemsMatch, same, Ne.symm same]

theorem taken_any : taken (items.map (.any :: ·)) v = true ↔ ∃ tail, tail <:+ v ∧ taken items tail = true := by
  cases items <;> simp [taken, itemsMatch, someTail_iff]

theorem taken_one : taken (items.map (.one :: ·)) v = true ↔
    ∃ d w, v = d :: w ∧ taken items (w.dropWhile Utf8.isContinuation) = true := by
  cases v with
  | nil => cases items <;> simp [taken, itemsMatch]
  | cons d v => cases items <;> simp [taken, itemsMatch]

theorem Finds.cases_cons (found : Finds (c :: rest) v) :
    (c = percent ∧ ∃ tail, tail <:+ v ∧ Finds rest tail) ∨
    (c = underscore ∧ ∃ d w, v = d :: w ∧ Finds rest (w.dropWhile Utf8.isContinuation)) ∨
    (c = backslash ∧ ∃ d after w, rest = d :: after ∧ v = d :: w ∧ Finds after w) ∨
    (¬ (c = backslash ∨ c = percent ∨ c = underscore) ∧ ∃ w, v = c :: w ∧ Finds rest w) := by
  cases found with
  | any skipped found => exact .inl ⟨rfl, _, skipped, found⟩
  | one d found => exact .inr (.inl ⟨rfl, d, _, rfl, found⟩)
  | escaped d found => exact .inr (.inr (.inl ⟨rfl, d, _, _, rfl, rfl, found⟩))
  | plain own found => exact .inr (.inr (.inr ⟨own, _, rfl, found⟩))

theorem finds_nil : Finds [] v ↔ v = [] := by
  constructor
  · rintro ⟨⟩
    rfl
  · rintro rfl
    exact .nil

theorem finds_any : Finds (percent :: rest) v ↔ ∃ tail, tail <:+ v ∧ Finds rest tail := by
  constructor
  · intro found
    rcases found.cases_cons with ⟨-, tail⟩ | ⟨same, -⟩ | ⟨same, -⟩ | ⟨own, -⟩
    · exact tail
    · exact absurd same (by decide)
    · exact absurd same (by decide)
    · exact absurd (.inr (.inl rfl)) own
  · rintro ⟨tail, skipped, found⟩
    exact .any skipped found

theorem finds_one : Finds (underscore :: rest) v ↔
    ∃ d w, v = d :: w ∧ Finds rest (w.dropWhile Utf8.isContinuation) := by
  constructor
  · intro found
    rcases found.cases_cons with ⟨same, -⟩ | ⟨-, after⟩ | ⟨same, -⟩ | ⟨own, -⟩
    · exact absurd same (by decide)
    · exact after
    · exact absurd same (by decide)
    · exact absurd (.inr (.inr rfl)) own
  · rintro ⟨d, w, rfl, found⟩
    exact .one d found

theorem finds_escape : Finds (backslash :: rest) v ↔
    ∃ c after w, rest = c :: after ∧ v = c :: w ∧ Finds after w := by
  constructor
  · intro found
    rcases found.cases_cons with ⟨same, -⟩ | ⟨same, -⟩ | ⟨-, after⟩ | ⟨own, -⟩
    · exact absurd same (by decide)
    · exact absurd same (by decide)
    · exact after
    · exact absurd (.inl rfl) own
  · rintro ⟨c, after, w, rfl, rfl, found⟩
    exact .escaped c found

theorem finds_plain (own : ¬ (c = backslash ∨ c = percent ∨ c = underscore)) :
    Finds (c :: rest) v ↔ ∃ w, v = c :: w ∧ Finds rest w := by
  constructor
  · intro found
    rcases found.cases_cons with ⟨same, -⟩ | ⟨same, -⟩ | ⟨same, -⟩ | ⟨-, after⟩
    · exact absurd (.inr (.inl same)) own
    · exact absurd (.inr (.inr same)) own
    · exact absurd (.inl same) own
    · exact after
  · rintro ⟨w, rfl, found⟩
    exact .plain own found

/-- The matcher follows the rules of LIKE. -/
theorem taken_iff : taken (items? pattern) v = true ↔ Finds pattern v := by
  fun_induction items? pattern generalizing v with
  | case1 => rw [taken_nil, finds_nil]
  | case2 =>
    -- a backslash at the end is no pattern
    rw [finds_escape]
    simp [taken]
  | case3 c after ih =>
    rw [taken_byte, finds_escape]
    simp [ih]
  | case4 rest _ ih =>
    rw [taken_any, finds_any]
    simp only [ih]
  | case5 rest _ _ ih =>
    rw [taken_one, finds_one]
    simp only [ih]
  | case6 c rest escape wildcard single ih =>
    rw [taken_byte, finds_plain (by simp [escape, wildcard, single])]
    simp only [ih]

theorem holds_iff (pattern_whole : 0 ∉ pattern) (whole : 0 ∉ v) : holds pattern v = true ↔ Finds pattern v := by
  rw [← taken_iff, holds, Term.upToNul_whole pattern_whole, Term.upToNul_whole whole]
  cases items? pattern <;> rfl

theorem nul_not_mem_ending (whole : 0 ∉ x) : 0 ∉ ending x := by
  have other : (0 : UInt8) ≠ percent := by decide
  simp [ending, nul_mem_escape, whole, other]

theorem nul_not_mem_containing (whole : 0 ∉ x) : 0 ∉ containing x := by
  have other : (0 : UInt8) ≠ percent := by decide
  simp [containing, nul_mem_escape, whole, other]

end Like

namespace Operators

variable {p : Position} {v x : Text}

theorem admits_contains : (Match.operators { contains := some x }).admits p v = Like.holds (Like.containing x) v := by
  simp [Match.admits, Match.conditions, conditions, Match.regex?, Condition.holds]

theorem admits_endsWith : (Match.operators { endsWith := some x }).admits p v = Like.holds (Like.ending x) v := by
  simp [Match.admits, Match.conditions, conditions, Match.regex?, Condition.holds]

/-- By the rules of LIKE and in the store, an operand stands for itself, whatever bytes it has: a text that
contains it or ends with it is found, and no other. -/
theorem operand_literal (operand : 0 ∉ x) (stored : 0 ∉ v) (p : Position) :
    ((Match.operators { contains := some x }).admits p v = true ↔ x <:+: v) ∧
    ((Match.operators { endsWith := some x }).admits p v = true ↔ x <:+ v) ∧
    (Like.Finds (Like.containing x) v ↔ x <:+: v) ∧ (Like.Finds (Like.ending x) v ↔ x <:+ v) := by
  have inside : Like.holds (Like.containing x) v = true ↔ x <:+: v := by
    rw [Like.holds_containing operand, Term.upToNul_whole stored]
  have atEnd : Like.holds (Like.ending x) v = true ↔ x <:+ v := by
    rw [Like.holds_ending, Term.upToNul_whole operand, Term.upToNul_whole stored]
  rw [admits_contains, admits_endsWith, ← Like.holds_iff (Like.nul_not_mem_containing operand) stored,
    ← Like.holds_iff (Like.nul_not_mem_ending operand) stored]
  exact ⟨inside, atEnd, inside, atEnd⟩

theorem operand_literal_specials :
    0 ∉ ("%_\\" : Text) ∧ 0 ∉ ("a%_\\" : Text) ∧
    (Match.operators { contains := some "%_\\" }).admits .subject "a%_\\" = true ∧
    (Match.operators { endsWith := some "%_\\" }).admits .subject "a%_\\" = true ∧
    (Match.operators { contains := some "%_\\" }).admits .subject "a%_" = false := by
  have operand : 0 ∉ ("%_\\" : Text) := by decide
  have stored : 0 ∉ ("a%_\\" : Text) := by decide
  have cut : 0 ∉ ("a%_" : Text) := by decide
  obtain ⟨inside, atEnd, -, -⟩ := operand_literal operand stored .subject
  obtain ⟨outside, -, -, -⟩ := operand_literal operand cut .subject
  refine ⟨operand, stored, inside.2 (by decide), atEnd.2 (by decide), ?_⟩
  rw [Bool.eq_false_iff, ne_eq, outside]
  decide

end Operators

end QuadStore
