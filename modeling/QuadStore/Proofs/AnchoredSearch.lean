import QuadStore.Regex

namespace QuadStore.Regex

section

variable {c : UInt8} {r : Regex} {k : Cursor → Option Cursor} {at_ : Cursor}

def literal (c : UInt8) : Regex := .one (.singleton c)

def sequence (rs : List Regex) : Regex := rs.foldr .seq .empty

theorem singleton_contains (c d : UInt8) : (ByteSet.singleton c).contains d = decide (d = c) := by
  simp [ByteSet.singleton, ByteSet.contains, ByteItem.contains]

def Begins (c : UInt8) (r : Regex) : Prop :=
  ∀ at_ k, (r.run at_ k).isSome = true → at_.rest.head? = some c

theorem run_literal (found : ((literal c).run at_ k).isSome = true) :
    ∃ rest, at_.rest = c :: rest ∧ (k (at_.advance [c])).isSome = true := by
  unfold literal run at found
  split at found
  · rename_i d rest split_
    split at found
    · rename_i same
      rw [singleton_contains, decide_eq_true_eq] at same
      subst same
      exact ⟨rest, split_, found⟩
    · cases found
  · cases found

theorem begins_literal (c : UInt8) : Begins c (literal c) := by
  intro at_ k found
  obtain ⟨rest, split, -⟩ := run_literal found
  rw [split, List.head?_cons]

theorem Begins.loop {least : Nat} (begins : Begins c r) (some_ : least ≠ 0) (most : Option Nat) (lazy : Bool) :
    Begins c (.loop r least most lazy) := by
  intro at_ k found
  cases least with
  | zero => exact absurd rfl some_
  | succ n => exact begins at_ _ found

theorem run_seq (a b : Regex) (at_ : Cursor) (k : Cursor → Option Cursor) :
    (Regex.seq a b).run at_ k = a.run at_ fun after => b.run after k := rfl

theorem run_literals {cs : Text} {rs : List Regex}
    (found : ((sequence (cs.map literal ++ rs)).run at_ k).isSome = true) :
    ∃ after, at_.rest = cs ++ after.rest ∧ ((sequence rs).run after k).isSome = true := by
  induction cs generalizing at_ with
  | nil => exact ⟨at_, rfl, found⟩
  | cons c cs ih =>
    have front : sequence ((c :: cs).map literal ++ rs) = .seq (literal c) (sequence (cs.map literal ++ rs)) := rfl
    rw [front, run_seq] at found
    obtain ⟨rest, split, found⟩ := run_literal found
    obtain ⟨after, more, found⟩ := ih found
    refine ⟨after, ?_, found⟩
    rw [split, List.cons_append, ← more]
    simp [Cursor.advance, split]

theorem searchFrom_behind (r : Regex) (b : UInt8) (t : Text) : (Regex.seq .start r).searchFrom (some b) t = false := by
  induction t generalizing b with
  | nil => rfl
  | cons c t ih =>
    rw [searchFrom, ih]
    rfl

theorem search_start (r : Regex) (t : Text) :
    (Regex.seq .start r).search t = (r.run ⟨none, t, []⟩ some).isSome := by
  have here : (Regex.seq .start r).matchesAt none t = (r.run ⟨none, t, []⟩ some).isSome := rfl
  cases t with
  | nil => exact here
  | cons c t =>
    rw [search, searchFrom, searchFrom_behind, Bool.or_false]
    exact here

end

end QuadStore.Regex
