import QuadStore.Proofs.Selection

namespace QuadStore

open Sql Step

namespace Options

def whole (o : Options) : Options := { o with limit := none, offset := none }

def part {α : Type} (o : Options) (xs : List α) : List α :=
  let rest := xs.drop (o.offset.getD 0)
  match o.limit with
  | some n => rest.take n
  | none => rest

/-- Whether the place behind the last wanted element is no word, where so many elements are at hand. -/
def overflows (o : Options) (count : Nat) : Bool :=
  o.limit.any fun n => Store.wordSize ≤ Store.firstWanted o count + n

variable {α β : Type} {o : Options}

theorem part_map (f : α → β) (xs : List α) : o.part (xs.map f) = (o.part xs).map f := by
  unfold part
  cases o.limit <;> simp [List.map_drop, List.map_take]

end Options

namespace Sql.Table

theorem slice_part {α : Type} (options : Options) {xs : List α} (few : xs.length ≤ maxInteger) :
    slice options xs = options.part xs := by
  have dropped : ∀ n, xs.drop (sqlInteger n) = xs.drop n := by
    intro n
    rw [List.drop_eq_drop_iff]
    unfold sqlInteger
    omega
  have kept : ∀ m n, (xs.drop m).take (sqlInteger n) = (xs.drop m).take n := by
    intro m n
    rw [List.take_eq_take_iff, List.length_drop]
    unfold sqlInteger
    omega
  unfold slice Options.part
  cases options.limit with
  | none => exact dropped _
  | some n =>
    dsimp only
    rw [dropped, kept]

end Sql.Table

namespace Store

variable {α : Type} {options : Options}

/-- A sum that wraps is below its summands, so that the last wanted place is before the first. -/
theorem lastWanted_wrapped {n count : Nat} (limit : options.limit = some n) (word : n < wordSize)
    (small : count < wordSize) (wraps : wordSize ≤ firstWanted options count + n) :
    lastWanted options count < firstWanted options count := by
  have first : firstWanted options count ≤ count := Nat.min_le_right _ _
  have wrapped : (firstWanted options count + n) % wordSize = firstWanted options count + n - wordSize := by
    rw [Nat.mod_eq_sub_mod wraps, Nat.mod_eq_of_lt (by omega)]
  unfold lastWanted
  rw [limit]
  dsimp only
  rw [wrapped]
  omega

theorem lastWanted_limited {n count : Nat} (limit : options.limit = some n)
    (fits : firstWanted options count + n < wordSize) :
    lastWanted options count = min count (firstWanted options count + n) := by
  unfold lastWanted
  rw [limit]
  dsimp only
  rw [Nat.mod_eq_of_lt fits]

theorem drop_firstWanted (xs : List α) :
    xs.drop (firstWanted options xs.length) = xs.drop (options.offset.getD 0) := by
  rw [List.drop_eq_drop_iff]
  unfold firstWanted
  omega

theorem cut_part (words : ∀ n ∈ options.limit, n < wordSize) {xs : List α} (small : xs.length < wordSize) :
    cut options xs =
      if options.overflows xs.length then .error .sliceOverflow else .ok (options.part xs) := by
  have first : firstWanted options xs.length ≤ xs.length := Nat.min_le_right _ _
  unfold cut Options.overflows Options.part
  dsimp only
  rw [drop_firstWanted]
  cases limit : options.limit with
  | none =>
    have last : lastWanted options xs.length = xs.length := by
      rw [lastWanted, limit]
    rw [last, if_neg (Nat.not_lt_of_le first), Option.any_none, if_neg Bool.false_ne_true]
    refine congrArg Except.ok (List.take_of_length_le ?_)
    rw [List.length_drop]
    unfold firstWanted
    omega
  | some n =>
    by_cases wraps : wordSize ≤ firstWanted options xs.length + n
    · have before := lastWanted_wrapped limit (words n limit) small wraps
      simp [before, wraps]
    · have last := lastWanted_limited limit (Nat.lt_of_not_le wraps)
      have ordered : ¬ lastWanted options xs.length < firstWanted options xs.length := by
        rw [last]
        omega
      rw [if_neg ordered, last]
      simp only [Option.any_some, decide_eq_true_eq, wraps, if_false]
      refine congrArg Except.ok (List.take_eq_take_iff.2 ?_)
      rw [List.length_drop]
      unfold firstWanted
      omega

theorem wanted_part (p : Pattern) (words : ∀ n ∈ options.limit, n < wordSize) {xs : List α}
    (few : xs.length ≤ maxInteger) :
    wanted p options xs =
      if p.hasRegex && options.overflows xs.length then .error .sliceOverflow else .ok (options.part xs) := by
  have small : xs.length < wordSize := Nat.lt_of_le_of_lt few (by decide)
  unfold wanted
  by_cases regex : p.hasRegex = true
  · simp only [regex, if_true, Bool.true_and]
    exact cut_part words small
  · simp only [regex, Bool.false_and, Bool.false_eq_true, if_false]
    exact congrArg Except.ok (Table.slice_part options few)

theorem fetched_whole (t : Table) (p : Pattern) (options : Options) :
    fetched t p options.whole =
      if p.searches?.isSome then .ok (taken t p options) else .error .malformedRegex := by
  have all : ∀ xs : List Row, wanted p options.whole xs = .ok xs := fun xs => wanted_all p xs
  unfold fetched
  rw [all]
  rfl

/-- What is wanted of an answer is the part of the whole answer that the options name, in SQL and where
rows are searched; on searched rows a sum of limit and offset that is no word is an error. -/
theorem get_part (p : Pattern) (options : Options) (s : Store Table)
    (words : ∀ n ∈ options.limit, n < wordSize)
    (few : ∀ quints, (get p options.whole s).1 = .ok quints → quints.length ≤ maxInteger) :
    get p options s =
      ((get p options.whole s).1.bind fun quints =>
        if p.hasRegex && options.overflows quints.length then .error .sliceOverflow
        else .ok (options.part quints), s) := by
  obtain ⟨isOpen, t⟩ := s
  cases isOpen with
  | false => rfl
  | true =>
    rw [get_open, fetched_whole] at few
    rw [get_open, get_open, fetched_whole]
    unfold fetched
    by_cases readable : p.searches?.isSome = true
    · simp only [if_pos readable] at few ⊢
      have counted : (taken t p options).length ≤ maxInteger := by
        have answered := few _ rfl
        rwa [List.length_map] at answered
      rw [wanted_part p words counted]
      simp only [Except.map, Except.bind, List.length_map, Options.part_map]
      by_cases wraps : (p.hasRegex && options.overflows (taken t p options).length) = true
      · rw [if_pos wraps, if_pos wraps]
      · rw [if_neg wraps, if_neg wraps]
    · simp only [if_neg readable]
      rfl

def threeNames : Table :=
  { Table.empty true with
    rows := [⟨"", "http://ex/ann", "http://ex/name", "\"Ann\"", none⟩,
      ⟨"", "http://ex/bob", "http://ex/name", "\"Bob\"", none⟩,
      ⟨"", "http://ex/eve", "http://ex/name", "\"Eve\"", none⟩] }

def named : Pattern where
  subject := some (.operators { regex := some "ex" })

def butFirst : Options := { limit := some (wordSize - 2), offset := some 1 }

theorem taken_names {options : Options} (unordered : options.order = []) :
    taken threeNames named options = threeNames.rows := by
  have each : threeNames.rows.filter named.admits = threeNames.rows := by decide +kernel
  rw [taken, each, Table.sorted_unordered _ _ _ unordered]

theorem readable_named : named.searches?.isSome = true := by decide +kernel

theorem get_part_names :
    (∀ n ∈ butFirst.limit, n < wordSize) ∧
    (get named butFirst.whole ⟨true, threeNames⟩).1 = .ok (threeNames.rows.map Quint.ofRow) ∧
    (threeNames.rows.map Quint.ofRow).length ≤ maxInteger ∧
    get named butFirst ⟨true, threeNames⟩ =
      (.ok ((threeNames.rows.map Quint.ofRow).drop 1), ⟨true, threeNames⟩) := by
  have words : ∀ n ∈ butFirst.limit, n < wordSize := by
    intro n limit
    cases limit
    decide
  have all : (get named butFirst.whole ⟨true, threeNames⟩).1 = .ok (threeNames.rows.map Quint.ofRow) := by
    rw [get_open, fetched_whole, if_pos readable_named, taken_names rfl]
    rfl
  have few : (threeNames.rows.map Quint.ofRow).length ≤ maxInteger := by
    rw [List.length_map]
    decide
  have part := get_part named butFirst ⟨true, threeNames⟩ words (by
    intro quints answered
    rw [all] at answered
    cases answered
    exact few)
  refine ⟨words, all, few, ?_⟩
  rw [part, all]
  have fits : (named.hasRegex && butFirst.overflows (threeNames.rows.map Quint.ofRow).length) = false := by
    decide +kernel
  simp only [Except.bind, fits]
  rfl

theorem get_part_wraps :
    (get named { butFirst with limit := some (wordSize - 1) } ⟨true, threeNames⟩).1 = .error .sliceOverflow ∧
    (get named butFirst.whole ⟨true, threeNames⟩).1 = .ok (threeNames.rows.map Quint.ofRow) ∧
    ({ butFirst with limit := some (wordSize - 1) }.part (threeNames.rows.map Quint.ofRow)).length = 2 := by
  refine ⟨?_, ?_, by decide +kernel⟩
  · have regex : named.hasRegex = true := by decide +kernel
    rw [get_open, fetched, if_pos readable_named, taken_names rfl, wanted, if_pos regex]
    rfl
  · rw [get_open, fetched_whole, if_pos readable_named, taken_names rfl]
    rfl

end Store

end QuadStore
