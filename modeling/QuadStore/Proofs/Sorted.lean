import QuadStore.Sql.Table

namespace QuadStore

namespace Stable

variable {α : Type}

theorem append_unique (below : α → Bool) {xs ys xs' ys' : List α}
    (hx : ∀ b ∈ xs, below b = true) (hy : ∀ b ∈ ys, below b = false)
    (hx' : ∀ b ∈ xs', below b = true) (hy' : ∀ b ∈ ys', below b = false)
    (h : xs ++ ys = xs' ++ ys') : xs = xs' ∧ ys = ys' := by
  have hp := congrArg (List.filter below) h
  rw [List.filter_append, List.filter_append, List.filter_eq_self.2 hx, List.filter_eq_self.2 hx',
    List.filter_eq_nil_iff.2 (by simpa using hy), List.filter_eq_nil_iff.2 (by simpa using hy'),
    List.append_nil, List.append_nil] at hp
  rw [hp] at h
  exact ⟨hp, List.append_cancel_left h⟩

theorem filter_append_filter {first : α → Bool} {xs : List α}
    (h : xs.Pairwise fun a b => first b = true → first a = true) :
    xs.filter first ++ xs.filter (fun a => !first a) = xs := by
  induction h with
  | nil => rfl
  | @cons a xs before _ ih =>
    by_cases ha : first a = true
    · simpa [ha] using ih
    · have others : ∀ b ∈ xs, first b = false := fun b mem => by simpa [ha] using before b mem
      have kept : xs.filter first = [] := List.filter_eq_nil_iff.2 (by simpa using others)
      have left : xs.filter (fun a => !first a) = xs := List.filter_eq_self.2 (by simpa using others)
      simp [ha, kept, left]

variable {le : α → α → Bool} (trans : ∀ a b c, le a b → le b c → le a c)
  (total : ∀ a b, le a b || le b a)

include trans total

theorem mergeSort_split (a : α) (rest : List α) :
    ∃ before after, (a :: rest).mergeSort le = before ++ a :: after ∧
      rest.mergeSort le = before ++ after ∧
      (∀ b ∈ before, (!le a b) = true) ∧ ∀ b ∈ after, (!le a b) = false := by
  obtain ⟨before, after, sorted, without, smaller⟩ := List.mergeSort_cons trans total a rest
  refine ⟨before, after, sorted, without, smaller, ?_⟩
  intro b mem
  have ordered := List.pairwise_mergeSort trans total (a :: rest)
  rw [sorted] at ordered
  have larger := (List.pairwise_cons.1 (List.pairwise_append.1 ordered).2.1).1 b mem
  simp [larger]

theorem filter_mergeSort (keep : α → Bool) (xs : List α) :
    (xs.mergeSort le).filter keep = (xs.filter keep).mergeSort le := by
  induction xs with
  | nil => simp
  | cons a rest ih =>
    obtain ⟨before, after, sorted, without, smaller, larger⟩ := mergeSort_split trans total a rest
    rw [sorted, List.filter_append, List.filter_cons]
    rw [without, List.filter_append] at ih
    by_cases h : keep a
    · obtain ⟨before', after', sorted', without', smaller', larger'⟩ :=
        mergeSort_split trans total a (rest.filter keep)
      have parts := append_unique (fun b => !le a b) smaller' larger'
        (fun b mem => smaller b (List.mem_filter.1 mem).1)
        (fun b mem => larger b (List.mem_filter.1 mem).1) (without'.symm.trans ih.symm)
      rw [if_pos h, List.filter_cons, if_pos h, sorted', parts.1, parts.2]
    · rw [if_neg h, List.filter_cons, if_neg h, ih]

end Stable

namespace Sql.Table

theorem rowLe_total (ps : List Position) (a b : Row) : rowLe ps a b || rowLe ps b a := by
  induction ps with
  | nil => rfl
  | cons p rest ih =>
    simp only [rowLe]
    by_cases h : a.get p = b.get p
    · simpa [h] using ih
    · by_cases lt : a.get p < b.get p
      · simp [h, lt]
      · have gt : b.get p < a.get p :=
          (List.le_iff_lt_or_eq.1 lt).resolve_right (fun e => h e.symm)
        simp [Ne.symm h, gt]

theorem rowLe_trans (ps : List Position) (a b c : Row) (hab : rowLe ps a b) (hbc : rowLe ps b c) :
    rowLe ps a c := by
  induction ps with
  | nil => rfl
  | cons p rest ih =>
    simp only [rowLe] at hab hbc ⊢
    by_cases h : a.get p = b.get p
    · rw [h]
      by_cases h' : b.get p = c.get p
      · simp_all
      · simp_all
    · by_cases h' : b.get p = c.get p
      · simp_all
      · simp only [h, h', if_false, decide_eq_true_eq] at hab hbc
        have lt := List.lt_trans hab hbc
        have ne : a.get p ≠ c.get p := by
          intro e
          rw [e] at lt
          exact List.lt_irrefl _ lt
        simpa [ne] using lt

variable {α : Type}

theorem sorted_filter (options : Options) (row : α → Row) (keep : α → Bool) (xs : List α) :
    (sorted options row xs).filter keep = sorted options row (xs.filter keep) := by
  unfold sorted
  apply Stable.filter_mergeSort
  · intro a b c hab hbc
    by_cases h : options.reverse
    · simp only [h, if_true] at hab hbc ⊢
      exact rowLe_trans _ _ _ _ hbc hab
    · simp only [h] at hab hbc ⊢
      exact rowLe_trans _ _ _ _ hab hbc
  · intro a b
    by_cases h : options.reverse
    · simpa [h] using rowLe_total options.order (row b) (row a)
    · simpa [h] using rowLe_total options.order (row a) (row b)

theorem mem_sorted (options : Options) (row : α → Row) (xs : List α) (a : α) :
    a ∈ sorted options row xs ↔ a ∈ xs := List.mem_mergeSort

theorem sorted_unordered (options : Options) (row : α → Row) (xs : List α) (h : options.order = []) :
    sorted options row xs = xs := by
  unfold sorted
  apply List.mergeSort_of_pairwise
  apply List.pairwise_of_forall
  intro a b
  simp [h, rowLe]

theorem slice_all (xs : List α) : slice {} xs = xs := by
  simp [slice, sqlInteger]

theorem mem_of_mem_slice (options : Options) (xs : List α) (a : α) (h : a ∈ slice options xs) :
    a ∈ xs := by
  unfold slice at h
  cases hl : options.limit with
  | none => exact List.mem_of_mem_drop (by simpa [hl] using h)
  | some n => exact List.mem_of_mem_drop (List.mem_of_mem_take (by simpa [hl] using h))

end Sql.Table

end QuadStore
