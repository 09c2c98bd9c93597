import QuadStore.Text.Utf8
import Mathlib.Tactic.Common

namespace QuadStore.Utf8

def Valid (s : Text) : Prop := ∃ cs : List Char, s = cs.flatMap String.utf8EncodeChar

def Starts (s : Text) : Prop := ∀ c ∈ s.head?, isContinuation c = false

def Encodes (n : Nat) : Prop :=
  if n < 0x10000 then n.isValidChar else 0x10000 ≤ n % 0x400000 ∧ n % 0x400000 < 0x110000

instance (n : Nat) : Decidable (Encodes n) :=
  inferInstanceAs (Decidable (if n < 0x10000 then n.isValidChar else 0x10000 ≤ n % 0x400000 ∧ n % 0x400000 < 0x110000))

theorem isContinuation_ofNat : ∀ x < 64, isContinuation (UInt8.ofNat (x + 128)) = true := by decide

theorem continuation_eq (n shift : Nat) : continuation n shift = UInt8.ofNat ((n >>> shift) % 64 + 128) := by
  have low : ∀ x < 64, 0x80 ||| x = x + 128 := by decide
  have masked : (n >>> shift) &&& 0x3F = (n >>> shift) % 64 := Nat.and_two_pow_sub_one_eq_mod _ 6
  rw [continuation, masked, low _ (Nat.mod_lt _ (by decide))]

theorem encode_eq (n : Nat) : encode n =
    if n < 0x80 then [UInt8.ofNat n]
    else if n < 0x800 then [UInt8.ofNat (n / 64 + 192), UInt8.ofNat (n % 64 + 128)]
    else if n < 0x10000 then
      [UInt8.ofNat (n / 4096 + 224), UInt8.ofNat (n / 64 % 64 + 128), UInt8.ofNat (n % 64 + 128)]
    else
      [UInt8.ofNat (n / 262144 % 16 + 240), UInt8.ofNat (n / 4096 % 64 + 128), UInt8.ofNat (n / 64 % 64 + 128),
        UInt8.ofNat (n % 64 + 128)] := by
  have two : ∀ x < 32, 0xC0 ||| x = x + 192 := by decide
  have three : ∀ x < 16, 0xE0 ||| x = x + 224 := by decide
  have four : ∀ x < 256, 0xF0 ||| x = x % 16 + 240 := by decide +kernel
  have lead : (0xF0 ||| (n / 262144)).toUInt8 = UInt8.ofNat (n / 262144 % 16 + 240) := by
    apply UInt8.toNat_inj.1
    have cut : (0xF0 ||| (n / 262144)) % 256 = 0xF0 ||| (n / 262144 % 256) := Nat.or_mod_two_pow (n := 8)
    simp only [Nat.toUInt8_eq, UInt8.toNat_ofNat', Nat.reducePow, cut, four _ (Nat.mod_lt _ (by decide : 0 < 256))]
    omega
  simp only [encode, continuation_eq, Nat.shiftRight_eq_div_pow, Nat.reducePow, Nat.div_one]
  split
  · rfl
  · split
    · rw [two _ (by omega)]
    · split
      · rw [three _ (by omega)]
      · rw [lead]

theorem toNat_lt (c : Char) : c.toNat < 0x110000 := by
  rcases c.valid with low | high
  · exact Nat.lt_trans low (by decide)
  · exact high.2

theorem encode_char (c : Char) : encode c.toNat = String.utf8EncodeChar c := by
  have bound := toNat_lt c
  simp only [encode_eq, String.utf8EncodeChar, Char.toNat] at bound ⊢
  generalize c.val.toNat = v at bound
  by_cases one : v < 0x80
  · rw [if_pos one, if_pos (by omega)]
  by_cases two : v < 0x800
  · rw [if_neg one, if_pos two, if_neg (by omega), if_pos (by omega), Nat.mod_eq_of_lt (by omega : v / 64 < 32)]
  by_cases three : v < 0x10000
  · rw [if_neg one, if_neg two, if_pos three, if_neg (by omega), if_neg (by omega), if_pos (by omega),
      Nat.mod_eq_of_lt (by omega : v / 4096 < 16)]
  · rw [if_neg one, if_neg two, if_neg three, if_neg (by omega), if_neg (by omega), if_neg (by omega),
      Nat.mod_eq_of_lt (by omega : v / 262144 < 16), Nat.mod_eq_of_lt (by omega : v / 262144 < 8)]

theorem forall_byte {P : UInt8 → Prop} (all : ∀ x < 256, P (UInt8.ofNat x)) (c : UInt8) : P c := by
  have own := all c.toNat c.toNat_lt
  rwa [UInt8.ofNat_toNat] at own

theorem lead_ofNat : ∀ x < 256, x < 128 ∨ 192 ≤ x → isContinuation (UInt8.ofNat x) = false ∧
    (UInt8.ofNat x < 0x80 → x < 128) := by decide +kernel

theorem encode_shape (n : Nat) : ∃ lead more, encode n = lead :: more ∧ isContinuation lead = false ∧
    (∀ b ∈ more, isContinuation b = true) ∧ (lead < 0x80 → more = []) := by
  have goes (m : Nat) : isContinuation (UInt8.ofNat (m % 64 + 128)) = true :=
    isContinuation_ofNat _ (Nat.mod_lt _ (by decide))
  have begins (x : Nat) (more : Text) (bound : x < 256) (high : 192 ≤ x) :
      isContinuation (UInt8.ofNat x) = false ∧ (UInt8.ofNat x < 0x80 → more = []) := by
    obtain ⟨lead, ascii⟩ := lead_ofNat x bound (.inr high)
    exact ⟨lead, fun low => absurd (ascii low) (by omega)⟩
  rw [encode_eq]
  split
  · rename_i one
    exact ⟨_, [], rfl, (lead_ofNat n (by omega) (.inl one)).1, List.forall_mem_nil _, fun _ => rfl⟩
  split
  · refine ⟨_, _, rfl, (begins _ [] (by omega) (by omega)).1, ?_, (begins _ _ (by omega) (by omega)).2⟩
    exact List.forall_mem_singleton.2 (goes n)
  split
  · refine ⟨_, _, rfl, (begins _ [] (by omega) (by omega)).1, ?_, (begins _ _ (by omega) (by omega)).2⟩
    exact List.forall_mem_cons.2 ⟨goes _, List.forall_mem_singleton.2 (goes n)⟩
  · refine ⟨_, _, rfl, (begins _ [] (by omega) (by omega)).1, ?_, (begins _ _ (by omega) (by omega)).2⟩
    exact List.forall_mem_cons.2 ⟨goes _, List.forall_mem_cons.2 ⟨goes _, List.forall_mem_singleton.2 (goes n)⟩⟩

theorem char_shape (c : Char) : ∃ lead more, String.utf8EncodeChar c = lead :: more ∧ isContinuation lead = false ∧
    (∀ b ∈ more, isContinuation b = true) ∧ (lead < 0x80 → more = []) := encode_char c ▸ encode_shape c.toNat

theorem valid_nil : Valid [] := ⟨[], rfl⟩

theorem valid_char (c : Char) : Valid (String.utf8EncodeChar c) := ⟨[c], by simp⟩

theorem valid_encode {n : Nat} (h : n.isValidChar) : Valid (encode n) := by
  have same : (Char.ofNatAux n h).toNat = n := rfl
  rw [← same, encode_char]
  exact valid_char _

theorem valid_ofString (s : String) : Valid s := ⟨s.toList, rfl⟩

theorem Valid.append {a b : Text} (ha : Valid a) (hb : Valid b) : Valid (a ++ b) := by
  obtain ⟨cs, rfl⟩ := ha
  obtain ⟨ds, rfl⟩ := hb
  exact ⟨cs ++ ds, List.flatMap_append.symm⟩

theorem Valid.starts {s : Text} (h : Valid s) : Starts s := by
  obtain ⟨cs, rfl⟩ := h
  cases cs with
  | nil => exact fun _ mem => absurd mem (by simp)
  | cons c cs =>
    obtain ⟨lead, more, same, begins, -⟩ := char_shape c
    simpa [Starts, same] using begins

/-- A valid text can be cut where no character goes on. -/
theorem Valid.split {a b : Text} (h : Valid (a ++ b)) (starts : Starts b) : Valid a ∧ Valid b := by
  obtain ⟨cs, same⟩ := h
  induction cs generalizing a with
  | nil =>
    obtain ⟨rfl, rfl⟩ := List.append_eq_nil_iff.1 same
    exact ⟨valid_nil, valid_nil⟩
  | cons c cs ih =>
    rw [List.flatMap_cons] at same
    rcases List.append_eq_append_iff.1 same with ⟨more, char, rest⟩ | ⟨more, rfl, rest⟩
    · cases more with
      | nil =>
        rw [List.append_nil] at char
        rw [List.nil_append] at rest
        exact ⟨char ▸ valid_char c, cs, rest⟩
      | cons x more =>
        cases a with
        | nil => exact ⟨valid_nil, c :: cs, same⟩
        | cons y a =>
          -- the cut is inside of the character, whose bytes all go on behind the first
          obtain ⟨lead, tail, shape, -, goes, -⟩ := char_shape c
          rw [shape, List.cons_append] at char
          obtain ⟨-, rfl⟩ := List.cons.inj char
          have on : isContinuation x = true := goes x (by simp)
          rw [starts x (by rw [rest]; rfl)] at on
          cases on
    · obtain ⟨ha, hb⟩ := ih rest.symm
      exact ⟨(valid_char c).append ha, hb⟩

theorem valid_append_iff {a b : Text} (starts : Starts b) : Valid (a ++ b) ↔ Valid a ∧ Valid b :=
  ⟨fun h => h.split starts, fun h => h.1.append h.2⟩

theorem not_continuation_of_ascii : ∀ c, c < 0x80 → isContinuation c = false := forall_byte (by decide +kernel)

theorem starts_cons {c : UInt8} (h : c < 0x80) (s : Text) : Starts (c :: s) := by
  rintro _ ⟨⟩
  exact not_continuation_of_ascii c h

theorem starts_of_ascii {s : Text} (h : ∀ c ∈ s, c < 0x80) : Starts s :=
  fun c mem => not_continuation_of_ascii c (h c (List.mem_of_mem_head? mem))

theorem valid_singleton {c : UInt8} (h : c < 0x80) : Valid [c] := by
  have small : c.toNat < 0x80 := h
  have valid := valid_encode (n := c.toNat) (.inl (by omega))
  rwa [encode_eq, if_pos small, UInt8.ofNat_toNat] at valid

theorem valid_cons_iff {c : UInt8} (h : c < 0x80) {s : Text} : Valid (c :: s) ↔ Valid s := by
  constructor
  · rintro ⟨cs, same⟩
    cases cs with
    | nil => cases same
    | cons d cs =>
      obtain ⟨lead, more, shape, -, -, alone⟩ := char_shape d
      rw [List.flatMap_cons, shape, List.cons_append] at same
      obtain ⟨rfl, rest⟩ := List.cons.inj same
      rw [alone h, List.nil_append] at rest
      exact ⟨cs, rest⟩
  · exact (valid_singleton h).append

theorem valid_ascii_append_iff {a b : Text} (h : ∀ c ∈ a, c < 0x80) : Valid (a ++ b) ↔ Valid b := by
  induction a with
  | nil => rfl
  | cons c a ih =>
    obtain ⟨first, rest⟩ := List.forall_mem_cons.1 h
    rw [List.cons_append, valid_cons_iff first, ih rest]

theorem valid_of_ascii {s : Text} (h : ∀ c ∈ s, c < 0x80) : Valid s := by
  have whole := (valid_ascii_append_iff (b := []) h).2 valid_nil
  rwa [List.append_nil] at whole

theorem encode_starts (n : Nat) (s : Text) : Starts (encode n ++ s) := by
  obtain ⟨lead, more, shape, begins, -⟩ := encode_shape n
  rw [shape]
  rintro _ ⟨⟩
  exact begins

def weight (s : Text) : Nat := s.foldl (fun n c => n * 64 + c.toNat) 0

/-- The weight of what is written tells the number, but of four bytes only the low 22 bits. -/
theorem weight_encode (n : Nat) : weight (encode n) =
    if n < 0x80 then n else if n < 0x800 then n + 12416 else if n < 0x10000 then n + 925824
    else n % 0x400000 + 63447168 := by
  rw [encode_eq]
  split
  · simp only [weight, List.foldl_cons, List.foldl_nil, UInt8.toNat_ofNat']
    omega
  split
  · simp only [weight, List.foldl_cons, List.foldl_nil, UInt8.toNat_ofNat']
    omega
  split <;> simp only [weight, List.foldl_cons, List.foldl_nil, UInt8.toNat_ofNat'] <;> omega

theorem of_encode_eq {m n : Nat} (bound : m < 0x110000) (same : encode n = encode m) :
    (n < 0x10000 → n = m) ∧ (0x10000 ≤ n → 0x10000 ≤ m ∧ n % 0x400000 = m) := by
  have weights := congrArg weight same
  have cut := Nat.mod_eq_of_lt (by omega : m < 0x400000)
  rw [weight_encode, weight_encode, cut] at weights
  have fits := Nat.mod_lt n (by decide : 0 < 0x400000)
  generalize n % 0x400000 = k at weights fits
  -- the weights of one, two, three and four bytes are apart
  repeat' split at weights
  all_goals omega

theorem encode_mod {n : Nat} (high : 0x10000 ≤ n % 0x400000) : encode n = encode (n % 0x400000) := by
  have less := Nat.mod_le n 0x400000
  have first : n % 0x400000 / 262144 % 16 = n / 262144 % 16 := by omega
  have second : n % 0x400000 / 4096 % 64 = n / 4096 % 64 := by omega
  have third : n % 0x400000 / 64 % 64 = n / 64 % 64 := by omega
  have last : n % 0x400000 % 64 = n % 64 := by omega
  rw [encode_eq, if_neg (by omega), if_neg (by omega), if_neg (by omega), encode_eq, if_neg (by omega),
    if_neg (by omega), if_neg (by omega), first, second, third, last]

theorem char_of_valid_encode {n : Nat} (h : Valid (encode n)) : ∃ c : Char, encode n = encode c.toNat := by
  obtain ⟨cs, same⟩ := h
  obtain ⟨lead, more, shape, begins, goes, -⟩ := encode_shape n
  cases cs with
  | nil =>
    rw [shape] at same
    cases same
  | cons c cs =>
    cases cs with
    | nil => exact ⟨c, by rw [encode_char, same]; simp⟩
    | cons d cs =>
      obtain ⟨lead', more', shape', -⟩ := char_shape c
      obtain ⟨x, more'', shape'', begins', -⟩ := char_shape d
      rw [shape, List.flatMap_cons, List.flatMap_cons, shape', shape'', List.cons_append, List.cons_append] at same
      obtain ⟨-, rfl⟩ := List.cons.inj same
      have on : isContinuation x = true := goes x (by simp)
      rw [begins'] at on
      cases on

/-- The bytes of a number are those of a character, or valid in no text. -/
theorem valid_encode_iff (n : Nat) : Valid (encode n) ↔ Encodes n := by
  constructor
  · intro h
    obtain ⟨c, same⟩ := char_of_valid_encode h
    obtain ⟨low, high⟩ := of_encode_eq (toNat_lt c) same
    unfold Encodes
    split
    · rename_i short
      rw [low short]
      exact c.valid
    · rename_i long
      obtain ⟨least, value⟩ := high (Nat.le_of_not_lt long)
      rw [value]
      exact ⟨least, toNat_lt c⟩
  · unfold Encodes
    split
    · exact valid_encode
    · rintro ⟨low, high⟩
      rw [encode_mod low]
      exact valid_encode (.inr ⟨by omega, high⟩)

end QuadStore.Utf8
