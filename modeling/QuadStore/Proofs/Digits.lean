import Mathlib.Algebra.Group.Nat.Defs
import Mathlib.Data.List.TakeWhile
import QuadStore.Text

namespace QuadStore

namespace Text

variable {test : UInt8 → Bool} {run rest : Text}

theorem takeWhile_run (all : ∀ c ∈ run, test c = true) (stop : ∀ c ∈ rest.head?, test c = false) :
    (run ++ rest).takeWhile test = run := by
  rw [List.takeWhile_append_of_pos all]
  have nil : rest.takeWhile test = [] := by
    cases rest with
    | nil => rfl
    | cons c rest => rw [List.takeWhile_cons_of_neg (by simp [stop c rfl])]
  rw [nil, List.append_nil]

theorem dropWhile_run (all : ∀ c ∈ run, test c = true) (stop : ∀ c ∈ rest.head?, test c = false) :
    (run ++ rest).dropWhile test = rest := by
  rw [List.dropWhile_append_of_pos all]
  cases rest with
  | nil => rfl
  | cons c rest => rw [List.dropWhile_cons_of_neg (by simp [stop c rfl])]

theorem isDigit_byte (c : Char) (h : c.isDigit = true) : Ascii.isDigit (byte c) = true := by
  simp only [Char.isDigit, Bool.and_eq_true, decide_eq_true_eq, UInt32.le_iff_toNat_le] at h
  have low : 48 ≤ c.toNat := h.1
  have high : c.toNat ≤ 57 := h.2
  simp only [Ascii.isDigit, byte, Bool.and_eq_true, decide_eq_true_eq, UInt8.le_iff_toNat_le]
  constructor
  · change 48 ≤ c.toNat % 256
    omega
  · change c.toNat % 256 ≤ 57
    omega

theorem isDigit_of_mem_ofNat {n : Nat} {c : UInt8} (h : c ∈ ofNat n) : Ascii.isDigit c = true := by
  obtain ⟨d, mem, rfl⟩ := List.mem_map.1 h
  exact isDigit_byte d (Nat.isDigit_of_mem_toDigits (by decide) (by decide) mem)

theorem isDigit_of_mem_padded {width n : Nat} {c : UInt8} (h : c ∈ padded width n) :
    Ascii.isDigit c = true := by
  rcases List.mem_append.1 h with mem | mem
  · rw [List.eq_of_mem_replicate mem]
    rfl
  · exact isDigit_of_mem_ofNat mem

theorem lt_pow_digits (n : Nat) : n < 10 ^ (Nat.toDigits 10 n).length :=
  (Nat.length_toDigits_le_iff (by decide) Nat.length_toDigits_pos).1 (Nat.le_refl _)

theorem pow_digits_le {n : Nat} (pos : 0 < n) : 10 ^ ((Nat.toDigits 10 n).length - 1) ≤ n := by
  apply Nat.le_of_not_lt
  intro less
  rcases Nat.eq_zero_or_pos ((Nat.toDigits 10 n).length - 1) with one | more
  · rw [one] at less
    omega
  · have shorter := (Nat.length_toDigits_le_iff (by decide) more).2 less
    omega

theorem digitValue_byte (c : Char) (h : c.isDigit = true) : Ascii.digitValue (byte c) = c.toNat - 48 := by
  have digit := isDigit_byte c h
  simp only [Char.isDigit, Bool.and_eq_true, decide_eq_true_eq, UInt32.le_iff_toNat_le] at h
  have high : c.toNat ≤ 57 := h.2
  rw [Ascii.digitValue, if_pos digit]
  change c.toNat % 256 - 48 = _
  omega

theorem foldl_map_byte (cs : List Char) (h : ∀ c ∈ cs, c.isDigit = true) (n : Nat) :
    (cs.map byte).foldl (fun n c => 10 * n + Ascii.digitValue c) n = Nat.ofDigitChars 10 cs n := by
  induction cs generalizing n with
  | nil => rfl
  | cons c cs ih =>
    rw [List.map_cons, List.foldl_cons, digitValue_byte c (h c List.mem_cons_self), Nat.ofDigitChars_cons]
    exact ih (fun d mem => h d (List.mem_cons_of_mem c mem)) _

theorem toNat_ofNat (n : Nat) : toNat 10 (ofNat n) = n := by
  unfold toNat ofNat
  rw [foldl_map_byte _ fun c => Nat.isDigit_of_mem_toDigits (by decide) (by decide)]
  exact Nat.ofDigitChars_toDigits (by decide) (by decide)

theorem ofNat_inj {m n : Nat} (h : ofNat m = ofNat n) : m = n := by
  rw [← toNat_ofNat m, h, toNat_ofNat]

theorem toNat_append (a b : Text) : toNat 10 (a ++ b) = toNat 10 a * 10 ^ b.length + toNat 10 b := by
  have from_ : ∀ (s : Text) (n : Nat), s.foldl (fun n c => 10 * n + Ascii.digitValue c) n =
      n * 10 ^ s.length + toNat 10 s := by
    intro s
    induction s with
    | nil => simp [toNat]
    | cons c s ih =>
      intro n
      rw [toNat, List.foldl_cons, List.foldl_cons, ih, ih, List.length_cons, Nat.pow_succ']
      rw [Nat.mul_zero, Nat.zero_add, Nat.add_mul, Nat.add_assoc, Nat.mul_comm 10 n, Nat.mul_assoc]
  rw [toNat, List.foldl_append, from_]
  rfl

theorem isDigit_of_mem_zero {c : UInt8} (mem : c ∈ [byte '0']) : Ascii.isDigit c = true := by
  rw [List.mem_singleton.1 mem]
  rfl

theorem toNat_zeros (n : Nat) : toNat 10 (List.replicate n (byte '0')) = 0 := by
  induction n with
  | zero => rfl
  | succ n ih =>
    have cons : List.replicate (n + 1) (byte '0') = [byte '0'] ++ List.replicate n (byte '0') := rfl
    have zero : toNat 10 [byte '0'] = 0 := rfl
    rw [cons, toNat_append, zero, Nat.zero_mul, ih]

theorem toNat_padded (width n : Nat) : toNat 10 (padded width n) = n := by
  unfold padded
  dsimp only
  rw [toNat_append, toNat_zeros, Nat.zero_mul, Nat.zero_add, toNat_ofNat]

theorem digitValue_lt {c : UInt8} (h : Ascii.isDigit c = true) : Ascii.digitValue c < 10 := by
  rw [Ascii.digitValue, if_pos h]
  simp only [Ascii.isDigit, Bool.and_eq_true, decide_eq_true_eq, UInt8.le_iff_toNat_le] at h
  have high : c.toNat ≤ 57 := h.2
  omega

theorem toNat_lt {digits : Text} (all : ∀ c ∈ digits, Ascii.isDigit c = true) :
    toNat 10 digits < 10 ^ digits.length := by
  induction digits with
  | nil => decide
  | cons c rest ih =>
    have cons : c :: rest = [c] ++ rest := rfl
    have tail := ih fun d mem => all d (List.mem_cons_of_mem c mem)
    have value : toNat 10 [c] = Ascii.digitValue c := by simp [toNat]
    have digit := digitValue_lt (all c List.mem_cons_self)
    have head : Ascii.digitValue c * 10 ^ rest.length ≤ 9 * 10 ^ rest.length :=
      Nat.mul_le_mul_right _ (by omega)
    rw [cons, toNat_append, value, List.length_append, List.length_singleton, Nat.add_comm 1, Nat.pow_succ]
    omega

theorem ofNat_ne_nil (n : Nat) : ofNat n ≠ [] := by
  intro nil
  have length := Nat.length_toDigits_pos (b := 10) (n := n)
  rw [List.map_eq_nil_iff.1 nil] at length
  exact absurd length (by decide)

theorem head_ofNat {n : Nat} (pos : 0 < n) : (ofNat n).head? ≠ some (byte '0') := by
  intro zero
  obtain ⟨rest, digits⟩ := List.head?_eq_some_iff.1 zero
  have value := toNat_ofNat n
  have cons : byte '0' :: rest = [byte '0'] ++ rest := rfl
  have none : toNat 10 [byte '0'] = 0 := rfl
  rw [digits, cons, toNat_append, none, Nat.zero_mul, Nat.zero_add] at value
  have less : toNat 10 rest < 10 ^ rest.length := by
    apply toNat_lt
    intro c mem
    apply isDigit_of_mem_ofNat (n := n)
    rw [digits]
    exact List.mem_cons_of_mem _ mem
  have length : (Nat.toDigits 10 n).length = rest.length + 1 := by
    rw [← List.length_map (f := byte), ← List.length_cons (a := byte '0'), ← digits]
    rfl
  have least := pow_digits_le pos
  rw [length, Nat.add_sub_cancel] at least
  omega

theorem append_lt_append {a b : Text} (length : a.length = b.length) (c d : Text) :
    a ++ c < b ++ d ↔ a < b ∨ a = b ∧ c < d := by
  induction a generalizing b with
  | nil =>
    cases b with
    | nil => simp
    | cons y b => cases length
  | cons x a ih =>
    cases b with
    | nil => cases length
    | cons y b =>
      have rest := ih (b := b) (by simpa using length)
      simp only [List.cons_append, List.cons_lt_cons_iff, rest, List.cons.injEq]
      grind

theorem toNat_cons {c : UInt8} (h : Ascii.isDigit c = true) (rest : Text) :
    48 ≤ c.toNat ∧ toNat 10 (c :: rest) = (c.toNat - 48) * 10 ^ rest.length + toNat 10 rest := by
  have value : toNat 10 [c] = c.toNat - 48 := by simp [toNat, Ascii.digitValue, h]
  have cons : c :: rest = [c] ++ rest := rfl
  rw [cons, toNat_append, value]
  simp only [Ascii.isDigit, Bool.and_eq_true, decide_eq_true_eq, UInt8.le_iff_toNat_le] at h
  exact ⟨h.1, rfl⟩

theorem digits_lt {a b : Text} (ha : ∀ c ∈ a, Ascii.isDigit c = true) (hb : ∀ c ∈ b, Ascii.isDigit c = true)
    (length : a.length = b.length) : a < b ↔ toNat 10 a < toNat 10 b := by
  induction a generalizing b with
  | nil =>
    cases b with
    | nil => simp
    | cons y b => cases length
  | cons x a ih =>
    cases b with
    | nil => cases length
    | cons y b =>
      have tails : a.length = b.length := by simpa using length
      have ha' : ∀ c ∈ a, Ascii.isDigit c = true := fun c mem => ha c (List.mem_cons_of_mem x mem)
      have hb' : ∀ c ∈ b, Ascii.isDigit c = true := fun c mem => hb c (List.mem_cons_of_mem y mem)
      have rest := ih ha' hb' tails
      obtain ⟨leastX, valueX⟩ := toNat_cons (ha x List.mem_cons_self) a
      obtain ⟨leastY, valueY⟩ := toNat_cons (hb y List.mem_cons_self) b
      have smallA := toNat_lt ha'
      have smallB := toNat_lt hb'
      rw [← tails] at smallB valueY
      rw [List.cons_lt_cons_iff, rest, valueX, valueY, UInt8.lt_iff_toNat_lt, ← UInt8.toNat_inj]
      generalize x.toNat = m at *
      generalize y.toNat = n at *
      generalize 10 ^ a.length = base at *
      rcases Nat.lt_trichotomy m n with less | rfl | more
      · have step : (m - 48 + 1) * base ≤ (n - 48) * base := Nat.mul_le_mul_right base (by omega)
        rw [Nat.add_mul, Nat.one_mul] at step
        constructor
        · intro _
          omega
        · exact fun _ => Or.inl less
      · simp
      · have step : (n - 48 + 1) * base ≤ (m - 48) * base := Nat.mul_le_mul_right base (by omega)
        rw [Nat.add_mul, Nat.one_mul] at step
        constructor
        · rintro (_ | ⟨_, _⟩) <;> omega
        · intro _
          omega

theorem length_padded {width n : Nat} (positive : 0 < width) (small : n < 10 ^ width) :
    (padded width n).length = width := by
  have short : (ofNat n).length ≤ width := by
    unfold ofNat
    rw [List.length_map]
    exact (Nat.length_toDigits_le_iff (by decide) positive).2 small
  unfold padded
  dsimp only
  rw [List.length_append, List.length_replicate]
  omega

end Text

end QuadStore
