import QuadStore.Condition

namespace QuadStore

theorem Condition.startingWith_holds (start s : Text) :
    (Condition.startingWith start).holds s = true ↔ ∃ rest, s = start ++ rest ∧ rest < Utf8.maxChar := by
  simp only [startingWith, holds, Bool.and_eq_true, Bool.not_eq_true', decide_eq_false_iff_not,
    decide_eq_true_eq]
  induction start generalizing s with
  | nil => simp
  | cons c start ih =>
    cases s with
    | nil => simp
    | cons d s =>
      simp only [List.cons_append, List.cons_lt_cons_iff, List.cons.injEq]
      constructor
      · rintro ⟨notBelow, below⟩
        have same : d = c := by
          rcases below with lt | ⟨rfl, -⟩
          · exact absurd (Or.inl lt) notBelow
          · rfl
        subst same
        have inner := (ih s).1 ⟨fun h => notBelow (Or.inr ⟨rfl, h⟩),
          (below.resolve_left (UInt8.lt_irrefl d)).2⟩
        obtain ⟨rest, eq, lt⟩ := inner
        exact ⟨rest, ⟨rfl, eq⟩, lt⟩
      · rintro ⟨rest, ⟨rfl, eq⟩, lt⟩
        have inner := (ih s).2 ⟨rest, eq, lt⟩
        refine ⟨?_, Or.inr ⟨rfl, inner.2⟩⟩
        rintro (lt | ⟨-, lt⟩)
        · exact UInt8.lt_irrefl d lt
        · exact inner.1 lt

namespace Utf8

theorem char_cases (c : Char) :
    (c.toNat < 0x80 ∧ String.utf8EncodeChar c = [.ofNat c.toNat]) ∨
    (0x80 ≤ c.toNat ∧ c.toNat < 0x800 ∧ String.utf8EncodeChar c =
      [.ofNat (c.toNat / 64 % 32 + 0xC0), .ofNat (c.toNat % 64 + 0x80)]) ∨
    (0x800 ≤ c.toNat ∧ c.toNat < 0x10000 ∧ String.utf8EncodeChar c =
      [.ofNat (c.toNat / 4096 % 16 + 0xE0), .ofNat (c.toNat / 64 % 64 + 0x80),
        .ofNat (c.toNat % 64 + 0x80)]) ∨
    (0x10000 ≤ c.toNat ∧ String.utf8EncodeChar c =
      [.ofNat (c.toNat / 262144 % 8 + 0xF0), .ofNat (c.toNat / 4096 % 64 + 0x80),
        .ofNat (c.toNat / 64 % 64 + 0x80), .ofNat (c.toNat % 64 + 0x80)]) := by
  unfold String.utf8EncodeChar
  change (c.val.toNat < _ ∧ _) ∨ _
  by_cases one : c.val.toNat ≤ 0x7F
  · left
    exact ⟨by omega, if_pos one⟩
  · by_cases two : c.val.toNat ≤ 0x7FF
    · right; left
      exact ⟨Nat.lt_of_not_le one, Nat.lt_succ_of_le two, by rw [if_neg one, if_pos two]; rfl⟩
    · by_cases three : c.val.toNat ≤ 0xFFFF
      · right; right; left
        exact ⟨Nat.lt_of_not_le two, Nat.lt_succ_of_le three,
          by rw [if_neg one, if_neg two, if_pos three]; rfl⟩
      · right; right; right
        exact ⟨Nat.lt_of_not_le three, by rw [if_neg one, if_neg two, if_neg three]; rfl⟩

theorem tail_lt (c : Char) (b : UInt8) (h : b ∈ (String.utf8EncodeChar c).tail) : b < 0xC0 := by
  have low : ∀ n : Nat, UInt8.ofNat (n % 64 + 0x80) < 0xC0 := by
    intro n
    rw [UInt8.lt_iff_toNat_lt, UInt8.toNat_ofNat']
    simp
    omega
  rcases char_cases c with ⟨-, e⟩ | ⟨-, -, e⟩ | ⟨-, -, e⟩ | ⟨-, e⟩
  all_goals
    rw [e] at h
    simp only [List.tail_cons, List.mem_cons, List.not_mem_nil, or_false] at h
  · subst h
    exact low _
  · rcases h with rfl | rfl <;> exact low _
  · rcases h with rfl | rfl | rfl <;> exact low _

/-- A character comes before U+FFFF byte by byte exactly if its number is below. -/
theorem encoded_lt_maxChar (c : Char) (rest : Text) :
    String.utf8EncodeChar c ++ rest < maxChar ↔ c.toNat < 0xFFFF := by
  have top : c.toNat < 0x110000 := by
    have := c.valid
    simp only [UInt32.isValidChar, Nat.isValidChar] at this
    change c.val.toNat < _
    omega
  rcases char_cases c with ⟨h, e⟩ | ⟨h, h', e⟩ | ⟨h, h', e⟩ | ⟨h, e⟩
  all_goals
    rw [e]
    simp only [maxChar, List.cons_append, List.nil_append, List.cons_lt_cons_iff,
      UInt8.lt_iff_toNat_lt, UInt8.toNat_ofNat', ← UInt8.toNat_inj, UInt8.reduceToNat,
      List.not_lt_nil, and_false, or_false]
  · exact ⟨fun _ => by omega, fun _ => Or.inl (by omega)⟩
  · exact ⟨fun _ => by omega, fun _ => Or.inl (by omega)⟩
  · omega
  · omega

theorem suffix_cases (cs : List Char) (start rest : Text)
    (h : cs.flatMap String.utf8EncodeChar = start ++ rest) :
    rest = [] ∨ (∃ c more, rest = String.utf8EncodeChar c ++ more) ∨
      ∃ b more, rest = b :: more ∧ b < 0xC0 := by
  induction cs generalizing start with
  | nil =>
    left
    exact (List.append_eq_nil_iff.1 h.symm).2
  | cons c cs ih =>
    rw [List.flatMap_cons] at h
    rcases List.append_eq_append_iff.1 h with ⟨more, rfl, tail⟩ | ⟨middle, front, rfl⟩
    · exact ih more tail
    · cases start with
      | nil =>
        right; left
        exact ⟨c, _, by rw [front]; rfl⟩
      | cons b start =>
        cases middle with
        | nil => exact ih [] rfl
        | cons d middle =>
          right; right
          refine ⟨d, _, rfl, tail_lt c d ?_⟩
          rw [front]
          simp

def BeginsHigh (s : Text) : Prop :=
  ∃ c more, s = String.utf8EncodeChar c ++ more ∧ 0xFFFF ≤ c.toNat

theorem lt_maxChar_iff (s : String) (start rest : Text) (h : Text.ofString s = start ++ rest) :
    rest < maxChar ↔ ¬ BeginsHigh rest := by
  constructor
  · rintro lt ⟨c, more, rfl, high⟩
    rw [encoded_lt_maxChar] at lt
    omega
  · intro low
    rcases suffix_cases s.toList start rest h with rfl | ⟨c, more, rfl⟩ | ⟨b, more, rfl, lt⟩
    · decide
    · rw [encoded_lt_maxChar]
      exact Nat.lt_of_not_le fun high => low ⟨c, more, rfl, high⟩
    · exact List.cons_lt_cons_iff.2 (Or.inl (UInt8.lt_trans lt (by decide)))

end Utf8

end QuadStore
