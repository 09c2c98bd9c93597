import Mathlib.Data.Finset.Card

namespace QuadStore

namespace FirstOfEach

variable {α β : Type}

theorem sublist_eraseDupsBy (same : α → α → Bool) (xs : List α) : (xs.eraseDupsBy same).Sublist xs := by
  match xs with
  | [] => exact .slnil
  | x :: xs =>
    rw [List.eraseDupsBy_cons]
    apply List.Sublist.cons_cons
    exact (sublist_eraseDupsBy same _).trans List.filter_sublist
  termination_by xs.length
  decreasing_by
    have := List.length_filter_le (fun b => decide (same b x = false)) xs
    simp only [List.length_cons]
    omega

theorem find?_eraseDupsBy [DecidableEq β] (key : α → β) (xs : List α) (k : β) :
    (xs.eraseDupsBy fun a b => key a = key b).find? (fun a => key a = k) = xs.find? fun a => key a = k := by
  match xs with
  | [] => rfl
  | x :: xs =>
    rw [List.eraseDupsBy_cons, List.find?_cons, List.find?_cons]
    by_cases h : key x = k
    · simp [h]
    · have inner := find?_eraseDupsBy key (xs.filter fun b => decide (key b = key x) = false) k
      simp only [h, decide_false]
      rw [inner, List.find?_filter]
      congr 1
      funext b
      by_cases hb : key b = k
      · simp [hb, Ne.symm h]
      · simp [hb]
  termination_by xs.length
  decreasing_by
    have := List.length_filter_le (fun b => decide (decide (key b = key x) = false)) xs
    simp only [List.length_cons]
    omega

theorem pairwise_eraseDupsBy [DecidableEq β] (key : α → β) (xs : List α) :
    (xs.eraseDupsBy fun a b => key a = key b).Pairwise fun a b => key a ≠ key b := by
  match xs with
  | [] => exact .nil
  | x :: xs =>
    rw [List.eraseDupsBy_cons]
    refine .cons ?_ (pairwise_eraseDupsBy key _)
    intro b mem
    have kept := (sublist_eraseDupsBy _ _).mem mem
    have other : ¬ key b = key x := by simpa using (List.mem_filter.1 kept).2
    exact fun same => other same.symm
  termination_by xs.length
  decreasing_by
    have := List.length_filter_le (fun b => decide (decide (key b = key x) = false)) xs
    simp only [List.length_cons]
    omega

variable [BEq α] [LawfulBEq α]

theorem eraseDups_filter (p : α → Bool) (xs : List α) : (xs.filter p).eraseDups = xs.eraseDups.filter p := by
  match xs with
  | [] => rfl
  | x :: xs =>
    have inner := eraseDups_filter p (xs.filter fun y => !y == x)
    rw [List.eraseDups_cons]
    by_cases kept : p x = true
    · rw [List.filter_cons_of_pos kept, List.filter_cons_of_pos kept, List.eraseDups_cons, ← inner, List.filter_comm]
    · rw [List.filter_cons_of_neg kept, List.filter_cons_of_neg kept, ← inner, List.filter_filter]
      congr 1
      refine List.filter_congr fun y _ => ?_
      by_cases same : y = x
      · simp [same, kept]
      · simp [same]
  termination_by xs.length
  decreasing_by
    have := List.length_filter_le (fun y => !y == x) xs
    simp only [List.length_cons]
    omega

theorem eraseDups_append_congr {a a' b b' : List α} (ha : a.eraseDups = a'.eraseDups)
    (hb : b.eraseDups = b'.eraseDups) : (a ++ b).eraseDups = (a' ++ b').eraseDups := by
  have same : (fun x => !List.elem x a) = fun x => !List.elem x a' := by
    funext x
    have seen : x ∈ a ↔ x ∈ a' := by rw [← List.mem_eraseDups, ha, List.mem_eraseDups]
    simp [seen]
  rw [List.eraseDups_append, List.eraseDups_append, ha, List.removeAll, List.removeAll, eraseDups_filter,
    eraseDups_filter, same, hb]

theorem eraseDups_again {a b : List α} (seen : b ⊆ a) (c : List α) :
    (a ++ (b ++ c)).eraseDups = (a ++ c).eraseDups := by
  have none_ : b.filter (fun x => !List.elem x a) = [] := List.filter_eq_nil_iff.2 fun x mem => by simp [seen mem]
  rw [List.eraseDups_append, List.eraseDups_append, List.removeAll, List.filter_append, none_, List.nil_append,
    List.removeAll]

variable [DecidableEq α]

theorem nodup_eraseDups (xs : List α) : xs.eraseDups.Nodup := by
  have decided : (fun a b : α => a == b) = fun a b => decide (id a = id b) := by
    funext a b
    rw [Bool.eq_iff_iff, beq_iff_eq, decide_eq_true_iff, id, id]
  unfold List.eraseDups
  rw [decided]
  exact pairwise_eraseDupsBy id xs

theorem length_eraseDups (xs : List α) : xs.eraseDups.length = xs.toFinset.card := by
  rw [← List.toFinset_card_of_nodup (nodup_eraseDups xs)]
  congr 1
  ext x
  rw [List.mem_toFinset, List.mem_toFinset, List.mem_eraseDups]

end FirstOfEach

end QuadStore
