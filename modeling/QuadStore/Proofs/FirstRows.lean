import QuadStore.Proofs.PlanAnswers

namespace QuadStore

open Sql Step

def maxWord : UInt64 := 18446744073709551615

theorem toNat_maxWord : maxWord.toNat = 18446744073709551615 := rfl

namespace Modifiers

/-- The sum of limit and offset is asked for if it is a word, which is found out without the sum. -/
theorem rowsToFetch_word (limit offset : UInt64) :
    rowsToFetch (some limit.toNat) (some offset.toNat) =
      if limit > maxWord - offset then none else some (limit + offset).toNat := by
  have below := offset.toNat_lt
  have le : offset ≤ maxWord := by
    rw [UInt64.le_iff_toNat_le, toNat_maxWord]
    omega
  have left : (maxWord - offset).toNat = 18446744073709551615 - offset.toNat := by
    rw [UInt64.toNat_sub_of_le _ _ le, toNat_maxWord]
  unfold rowsToFetch rowLimit
  simp only [Option.getD_some, gt_iff_lt, UInt64.lt_iff_toNat_lt, left, Nat.pow_eq]
  by_cases fits : limit.toNat + offset.toNat < 2 ^ 64
  · have sum : (limit + offset).toNat = limit.toNat + offset.toNat := by
      rw [UInt64.toNat_add, Nat.mod_eq_of_lt fits]
    rw [if_pos fits, if_neg (by omega), sum]
  · rw [if_neg fits, if_pos (by omega)]

theorem rowsToFetch_eq_some {limit offset : Option Nat} {n : Nat} (h : rowsToFetch limit offset = some n) :
    ∃ l, limit = some l ∧ n = l + offset.getD 0 ∧ n < rowLimit := by
  cases limit with
  | none => cases h
  | some l =>
    unfold rowsToFetch at h
    dsimp only at h
    split at h
    · rename_i below
      cases h
      exact ⟨l, rfl, rfl, below⟩
    · cases h

end Modifiers

namespace Sql

theorem toInt_signed {n : UInt64} (below : n.toNat < 2 ^ 63) : n.toInt64.toInt = n.toNat := by
  rw [← Int64.toInt_toBitVec]
  exact BitVec.toInt_eq_toNat_of_lt (by change 2 * n.toNat < _; omega)

theorem sqlInteger_word (n : UInt64) :
    (min n 9223372036854775807).toInt64.toInt = sqlInteger n.toNat := by
  have largest : (9223372036854775807 : UInt64).toNat = maxInteger := rfl
  have value : (min n 9223372036854775807).toNat = sqlInteger n.toNat := by
    have either : min n 9223372036854775807 = if n ≤ 9223372036854775807 then n else 9223372036854775807 := rfl
    rw [either]
    unfold sqlInteger
    split
    · rename_i le
      rw [UInt64.le_iff_toNat_le, largest] at le
      exact (Nat.min_eq_left le).symm
    · rename_i gt
      rw [UInt64.le_iff_toNat_le, largest] at gt
      rw [largest, Nat.min_eq_right (by omega)]
  have below : (min n 9223372036854775807).toNat < 2 ^ 63 := by
    rw [value]
    unfold sqlInteger maxInteger
    omega
  rw [← value]
  exact toInt_signed below

end Sql

namespace Sql.Table

theorem slice_limited {α : Type} (options : Options) {xs : List α}
    (few : (slice { options with limit := none } xs).length ≤ maxInteger) (n : Nat) :
    slice { options with limit := some n } xs = (slice { options with limit := none } xs).take n := by
  have cut : (slice { options with limit := none } xs).take (sqlInteger n) =
      (slice { options with limit := none } xs).take n := by
    rw [List.take_eq_take_iff]
    unfold sqlInteger
    omega
  exact cut

theorem length_slice_le {α : Type} (options : Options) (xs : List α) : (slice options xs).length ≤ xs.length := by
  unfold slice
  dsimp only
  split <;> simp only [List.length_take, List.length_drop] <;> omega

end Sql.Table

namespace Store

/-- Asked for some number of rows, a store answers the first of all rows, and is then what it is after
it was asked for all. -/
def GivesFirst {σ α : Type} (read : Options → Action σ (List α)) (options : Options) (s : Store σ) : Prop :=
  ∀ n < wordSize, read { options with limit := some n } s =
    ((read { options with limit := none } s).1.map (List.take n), (read { options with limit := none } s).2)

def Countable {σ α : Type} (read : Options → Action σ (List α)) (options : Options) (s : Store σ) : Prop :=
  ∀ found, (read { options with limit := none } s).1 = .ok found → found.length ≤ maxInteger

variable {t : Table} {options : Options} {n : Nat}

theorem cut_limited {α : Type} (offset : options.offset = none) (word : n < wordSize) (xs : List α) :
    cut { options with limit := some n } xs = (cut { options with limit := none } xs).map (List.take n) := by
  have first : min (options.offset.getD 0) xs.length = 0 := by
    rw [offset]
    exact Nat.zero_min _
  unfold cut lastWanted firstWanted
  simp only [first, Nat.zero_add, Nat.mod_eq_of_lt word, Nat.not_lt_zero, if_false, Nat.sub_zero, List.drop_zero,
    List.take_length, Except.map]
  rw [List.take_eq_take_iff.2]
  omega

theorem fetched_limited {p : Pattern} (offset : options.offset = none) (word : n < wordSize)
    (few : ∀ rows, fetched t p { options with limit := none } = .ok rows → rows.length ≤ maxInteger) :
    fetched t p { options with limit := some n } =
      (fetched t p { options with limit := none }).map (List.take n) := by
  have same : taken t p { options with limit := some n } = taken t p { options with limit := none } := rfl
  unfold fetched at few ⊢
  rw [same]
  generalize taken t p { options with limit := none } = rows at few ⊢
  by_cases readable : p.searches?.isSome = true
  · simp only [if_pos readable] at few ⊢
    unfold wanted at few ⊢
    by_cases regex : p.hasRegex = true
    · simp only [if_pos regex]
      exact cut_limited offset word rows
    · simp only [if_neg regex] at few ⊢
      exact congrArg Except.ok (Table.slice_limited options (few _ rfl) n)
  · simp only [if_neg readable]
    rfl

theorem get_givesFirst {p : Pattern} (offset : options.offset = none)
    (few : Countable (get p ·) options ⟨true, t⟩) : GivesFirst (get p ·) options ⟨true, t⟩ := by
  have rows : ∀ rows, fetched t p { options with limit := none } = .ok rows → rows.length ≤ maxInteger := by
    intro rows h
    have found := few (rows.map Quint.ofRow)
    dsimp only at found
    rw [get_open, h, List.length_map] at found
    exact found rfl
  intro n word
  dsimp only
  rw [get_open, get_open, fetched_limited offset word rows]
  cases fetched t p { options with limit := none } with
  | error e => rfl
  | ok rows => simp [Except.map, List.map_take]

theorem combined_limited {c : Compound} (offset : options.offset = none) (word : n < wordSize)
    (few : ∀ rs, combined t c { options with limit := none } = .ok rs → rs.length ≤ maxInteger) :
    combined t c { options with limit := some n } =
      (combined t c { options with limit := none }).map (List.take n) := by
  unfold combined at few ⊢
  cases hs : c.select.find? fun s => c.patterns.length ≤ s.pattern with
  | some s => rfl
  | none =>
    rw [hs] at few
    dsimp only at few ⊢
    rcases hp : c.patterns with _ | ⟨p, _ | ⟨q, rest⟩⟩
    · simp [Except.map]
    · rw [hp] at few
      dsimp only at few ⊢
      have rows : ∀ rows, fetched t p { options with limit := none } = .ok rows → rows.length ≤ maxInteger := by
        intro rows h
        rw [h] at few
        have found := few _ rfl
        rwa [List.length_map] at found
      rw [fetched_limited offset word rows]
      cases fetched t p { options with limit := none } with
      | error e => rfl
      | ok rows => simp [Except.map, List.map_take]
    · rw [hp] at few
      dsimp only at few ⊢
      cases hc : (p :: q :: rest).mapM Pattern.joinClauses? with
      | none => rfl
      | some clauses =>
        rw [hc] at few
        dsimp only at few ⊢
        have found := few _ rfl
        rw [List.length_map] at found
        have sorted : Table.sorted { options with limit := some n } Table.Joined.first (t.joined c.on clauses) =
            Table.sorted { options with limit := none } Table.Joined.first (t.joined c.on clauses) := rfl
        rw [sorted, Table.slice_limited options found]
        simp [Except.map, List.map_take]

theorem getCompound_givesFirst {c : Compound} (offset : options.offset = none)
    (few : Countable (getCompound c ·) options ⟨true, t⟩) : GivesFirst (getCompound c ·) options ⟨true, t⟩ := by
  have results : ∀ rs, combined t c { options with limit := none } = .ok rs → rs.length ≤ maxInteger := by
    intro rs h
    have found := few rs
    dsimp only at found
    rw [getCompound_open, h] at found
    exact found rfl
  intro n word
  dsimp only
  rw [getCompound_open, getCompound_open, combined_limited offset word results]

theorem length_fetched {p : Pattern} {rows : List Row} (h : fetched t p options = .ok rows) :
    rows.length ≤ t.rows.length := by
  have few : (taken t p options).length ≤ t.rows.length := by
    unfold taken Table.sorted
    rw [List.length_mergeSort]
    exact List.length_filter_le p.admits t.rows
  unfold fetched at h
  split at h
  · unfold wanted cut at h
    dsimp only at h
    split at h
    · split at h
      · cases h
      · cases h
        rw [List.length_take, List.length_drop]
        omega
    · cases h
      exact Nat.le_trans (Table.length_slice_le options _) few
  · cases h

theorem length_flatMap_le {α β : Type} {f : α → List β} {xs : List α} {n : Nat}
    (each : ∀ x ∈ xs, (f x).length ≤ n) : (xs.flatMap f).length ≤ xs.length * n := by
  induction xs with
  | nil => exact Nat.zero_le _
  | cons x xs ih =>
    have first := each x List.mem_cons_self
    have rest := ih fun y mem => each y (List.mem_cons_of_mem x mem)
    rw [List.flatMap_cons, List.length_append, List.length_cons, Nat.succ_mul]
    omega

theorem length_of_mapM {α β : Type} {f : α → Option β} {xs : List α} {ys : List β}
    (h : xs.mapM f = some ys) : ys.length = xs.length := by
  induction xs generalizing ys with
  | nil =>
    cases h
    rfl
  | cons x xs ih =>
    rw [List.mapM_cons] at h
    obtain ⟨y, -, h⟩ := Option.bind_eq_some_iff.1 h
    obtain ⟨rest, hr, h⟩ := Option.bind_eq_some_iff.1 h
    cases h
    rw [List.length_cons, List.length_cons, ih hr]

theorem length_joined (on : Position) (clauses : List (List Clause)) :
    (t.joined on clauses).length ≤ t.rows.length ^ clauses.length := by
  have step : ∀ (rest : List (List Clause)) (partials : List Table.Joined) (n : Nat),
      partials.length ≤ n →
      (rest.foldl (fun partials clauses => partials.flatMap fun j =>
        ((t.selected clauses).filter (j.agrees on)).map fun r => { j with more := j.more ++ [r] })
        partials).length ≤ n * t.rows.length ^ rest.length := by
    intro rest
    induction rest with
    | nil =>
      intro partials n h
      simpa using h
    | cons clauses rest ih =>
      intro partials n h
      have extended : (partials.flatMap fun j =>
          ((t.selected clauses).filter (j.agrees on)).map fun r => { j with more := j.more ++ [r] }).length ≤
            n * t.rows.length := by
        have each : ∀ j ∈ partials, (((t.selected clauses).filter (j.agrees on)).map fun r =>
            ({ j with more := j.more ++ [r] } : Table.Joined)).length ≤ t.rows.length := by
          intro j _
          rw [List.length_map]
          exact Nat.le_trans (List.length_filter_le _ _) (List.length_filter_le _ _)
        exact Nat.le_trans (length_flatMap_le each) (Nat.mul_le_mul_right _ h)
      rw [List.foldl_cons, List.length_cons, Nat.pow_succ', ← Nat.mul_assoc]
      exact ih _ _ extended
  cases clauses with
  | nil => exact Nat.zero_le _
  | cons first rest =>
    have start : ((t.selected first).map fun r => (⟨r, []⟩ : Table.Joined)).length ≤ t.rows.length := by
      rw [List.length_map]
      exact List.length_filter_le _ _
    rw [List.length_cons, Nat.pow_succ']
    exact step rest _ _ start

theorem length_combined {c : Compound} {rs : List CompoundResult} (h : combined t c options = .ok rs) :
    rs.length ≤ t.rows.length ^ c.patterns.length := by
  unfold combined at h
  cases hs : c.select.find? fun s => c.patterns.length ≤ s.pattern with
  | some s =>
    rw [hs] at h
    cases h
  | none =>
    rw [hs] at h
    rcases hp : c.patterns with _ | ⟨p, _ | ⟨q, rest⟩⟩
    · rw [hp] at h
      cases h
      exact Nat.zero_le _
    · rw [hp] at h
      obtain ⟨rows, found, rfl⟩ := map_eq_ok h
      rw [List.length_map, List.length_singleton, Nat.pow_one]
      exact length_fetched found
    · rw [hp] at h
      dsimp only at h
      cases hc : (p :: q :: rest).mapM Pattern.joinClauses? with
      | none =>
        rw [hc] at h
        cases h
      | some clauses =>
        rw [hc] at h
        cases h
        rw [List.length_map, ← length_of_mapM hc]
        apply Nat.le_trans (Table.length_slice_le options _)
        unfold Table.sorted
        rw [List.length_mergeSort]
        exact length_joined c.on clauses

end Store

end QuadStore
