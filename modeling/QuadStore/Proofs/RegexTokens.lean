import Mathlib.Data.List.TakeWhile
import QuadStore.Regex.Lead
import QuadStore.Regex.Reader

namespace QuadStore.Regex

def Leaves {α : Type} (s : Text) (read : Option (α × Text)) : Prop := ∀ x ∈ read, x.2 <:+ s

section

variable {α β : Type} {s rest after : Text} {read : Option (α × Text)}

theorem leaves_none : Leaves s (none : Option (α × Text)) := nofun

theorem leaves_some {x : α} (h : after <:+ s) : Leaves s (some (x, after)) := by
  rintro _ ⟨⟩
  exact h

theorem Leaves.bind (h : Leaves s read) {next : α × Text → Option (β × Text)}
    (then_ : ∀ x after, after <:+ s → Leaves s (next (x, after))) : Leaves s (read >>= next) := by
  intro y found
  obtain ⟨⟨x, after⟩, first, second⟩ := Option.bind_eq_some_iff.1 found
  exact then_ x after (h _ first) y second

theorem Leaves.map (h : Leaves s read) (f : α → β) : Leaves s (read.map fun (x, after) => (f x, after)) := by
  intro y found
  obtain ⟨⟨x, after⟩, first, rfl⟩ := Option.map_eq_some_iff.1 found
  exact h _ first

theorem leaves_given {γ : Type} {given : Option γ} {f : γ → β} (h : after <:+ s) :
    Leaves s (given.bind fun x => some (f x, after)) := by
  intro y found
  obtain ⟨x, -, same⟩ := Option.bind_eq_some_iff.1 found
  cases same
  exact h

theorem Leaves.weaken (h : Leaves rest read) (end_ : rest <:+ s) : Leaves s read :=
  fun x found => (h x found).trans end_

end

namespace Token

theorem leaves_hexByte? (width : Nat) (s : Text) : Leaves s (hexByte? width s) := by
  unfold hexByte?
  dsimp only
  split
  · exact leaves_some (List.drop_suffix width s)
  · exact leaves_none

theorem leaves_escape? (bracketed : Bool) (s : Text) : Leaves s (escape? bracketed s) := by
  fun_cases escape? bracketed s with
  | case1 | case7 => exact leaves_none
  | case2 | case3 | case4 | case5 | case11 => exact leaves_some (List.suffix_cons ..)
  | case6 d after => exact leaves_some ((List.suffix_cons d after).trans (List.suffix_cons ..))
  | case8 rest => exact ((leaves_hexByte? 2 rest).map _).weaken (List.suffix_cons ..)
  | case9 rest => exact ((leaves_hexByte? 4 rest).map _).weaken (List.suffix_cons ..)
  | case10 => exact leaves_some ((List.dropWhile_suffix _).trans (List.suffix_cons ..))

theorem leaves_bracketName? (mark : UInt8) (s : Text) : Leaves s (bracketName? mark s) := by
  have tail : s.dropWhile (· ≠ mark) <:+ s := List.dropWhile_suffix _
  unfold bracketName?
  split
  · rename_i a c rest found
    rw [found] at tail
    split
    · exact leaves_some (((List.suffix_cons c rest).trans (List.suffix_cons a _)).trans tail)
    · exact leaves_none
  · exact leaves_none

theorem leaves_bracketToken? (s : Text) : Leaves s (bracketToken? s) := by
  fun_cases bracketToken? s with
  | case1 | case6 | case7 => exact leaves_none
  | case2 | case3 | case11 | case12 => exact leaves_some (List.suffix_cons ..)
  | case4 rest b after found | case5 rest k negated after found =>
    exact leaves_some ((leaves_escape? true rest _ found).trans (List.suffix_cons ..))
  | case8 after | case9 after | case10 after =>
    refine ((leaves_bracketName? _ after).bind fun name after end_ => ?_).weaken
      ((List.suffix_cons ..).trans (List.suffix_cons ..))
    exact leaves_given end_

theorem leaves_bracketItems? (fuel : Nat) (pending : Pending) (s : Text) : Leaves s (bracketItems? fuel pending s) := by
  induction fuel generalizing pending s with
  | zero => exact leaves_none
  | succ fuel ih =>
    have onward (pending : Pending) (f : List ByteItem → List ByteItem) (rest : Text) : Leaves rest
        (bracketItems? fuel pending rest >>= fun r => some (f r.1, r.2)) :=
      (ih pending rest).bind fun _ _ end_ => leaves_some end_
    unfold bracketItems?
    refine (leaves_bracketToken? s).bind fun token rest tail => ?_
    cases token with
    | closing => exact leaves_some tail
    | byte c => exact (onward (.byte c) (pending.items ++ ·) rest).weaken tail
    | item i => exact (onward .ofClass (pending.items ++ i :: ·) rest).weaken tail
    | dash =>
      refine ((leaves_bracketToken? rest).bind fun next after end_ => ?_).weaken tail
      have ranged (first last : UInt8) : Leaves rest (range? first last >>= fun i =>
          bracketItems? fuel .nothing after >>= fun r => some (i :: r.1, r.2)) := by
        intro x found
        obtain ⟨i, -, found⟩ := Option.bind_eq_some_iff.1 found
        exact ((onward .nothing (i :: ·) after).weaken end_) x found
      cases next <;> cases pending
      case closing.nothing | closing.byte | closing.ofClass => exact leaves_some end_
      case byte.byte d c => exact ranged c d
      case dash.byte c => exact ranged c (Text.byte '-')
      case byte.nothing | dash.nothing | item.nothing => exact ih _ rest
      case byte.ofClass | dash.ofClass | item.ofClass | item.byte => exact leaves_none

theorem leaves_bracket? (s : Text) : Leaves s (bracket? s) := by
  unfold bracket?
  split
  · exact leaves_none
  · rename_i c rest
    split
    · exact ((leaves_bracketItems? _ .nothing rest).map _).weaken (List.suffix_cons c rest)
    · exact (leaves_bracketItems? _ .nothing (c :: rest)).map _

theorem quantified_suffix (least : Nat) (most : Option Nat) (s : Text) : (quantified least most s).2 <:+ s := by
  unfold quantified
  split
  · split
    · exact List.suffix_cons ..
    · exact List.suffix_rfl
  · exact List.suffix_rfl

theorem leaves_opening? (s : Text) : Leaves s (opening? s) := by
  fun_cases opening? s with
  | case1 | case5 => exact leaves_none
  | case2 | case3 | case4 => exact leaves_some ((List.suffix_cons ..).trans (List.suffix_cons ..))
  | case6 | case7 => exact leaves_some List.suffix_rfl

theorem suffix_of_dropWhile {p : UInt8 → Bool} {s rest : Text} {c : UInt8} (behind : s.dropWhile p = c :: rest) :
    rest <:+ s := by
  have tail : c :: rest <:+ s := behind ▸ List.dropWhile_suffix p
  exact (List.suffix_cons c rest).trans tail

theorem braces?_suffix {s after : Text} {least : Nat} {most : Option Nat}
    (found : braces? s = some (least, most, after)) : after <:+ s := by
  unfold braces? at found
  dsimp only at found
  split at found
  · cases found
  obtain ⟨n, -, found⟩ := Option.bind_eq_some_iff.1 found
  split at found
  · cases found
  rename_i c rest behind
  have inner : rest <:+ s := suffix_of_dropWhile behind
  split at found
  · cases found
    exact inner
  split at found
  case isFalse => cases found
  split at found
  · cases found
  rename_i d end_ behind
  have outer : end_ <:+ s := (suffix_of_dropWhile behind).trans inner
  split at found
  · cases found
  split at found
  · cases found
    exact outer
  · obtain ⟨m, -, found⟩ := Option.bind_eq_some_iff.1 found
    split at found
    · cases found
    · cases found
      exact outer

theorem leaves_token? (c : UInt8) (rest : Text) : Leaves rest (token? c rest) := by
  fun_cases token? c rest with
  | case1 => exact (leaves_escape? false rest).bind fun e after end_ => leaves_given end_
  | case2 | case3 | case4 | case10 | case11 | case13 => exact leaves_some List.suffix_rfl
  | case5 | case6 | case7 =>
    rintro _ ⟨⟩
    exact quantified_suffix _ _ rest
  | case8 =>
    intro x found
    obtain ⟨⟨least, most, after⟩, read, same⟩ := Option.bind_eq_some_iff.1 found
    cases same
    exact (quantified_suffix least most after).trans (braces?_suffix read)
  | case9 => exact leaves_opening? rest
  | case12 => exact (leaves_bracket? rest).map fun set => atom (.one set)

def all? (s : Text) : Option (List Token) := scan? s.length s

theorem scan?_enough {n m : Nat} {s : Text} (hn : s.length ≤ n) (hm : s.length ≤ m) : scan? n s = scan? m s := by
  induction n generalizing m s with
  | zero =>
    cases s with
    | nil => cases m <;> rfl
    | cons c rest => cases hn
  | succ n ih =>
    cases s with
    | nil => cases m <;> rfl
    | cons c rest =>
      cases m with
      | zero => cases hm
      | succ m =>
        unfold scan?
        cases read : token? c rest with
        | none => rfl
        | some found =>
          obtain ⟨t, after⟩ := found
          have short : after.length ≤ rest.length := (leaves_token? c rest _ read).length_le
          have same : scan? n after = scan? m after :=
            ih (Nat.le_trans short (Nat.le_of_succ_le_succ hn)) (Nat.le_trans short (Nat.le_of_succ_le_succ hm))
          simp only [Option.bind_eq_bind, Option.bind_some, same]

theorem all?_cons {c : UInt8} {rest after : Text} {t : Token} (read : token? c rest = some (t, after)) :
    all? (c :: rest) = (all? after).map (t :: ·) := by
  have short : after.length ≤ rest.length := (leaves_token? c rest _ read).length_le
  unfold all?
  rw [List.length_cons, scan?, read, scan?_enough (Nat.le_refl _) short]
  simp only [Option.bind_eq_bind, Option.bind_some]
  cases scan? rest.length after <;> rfl

def isQuantifier : Token → Bool
  | quantifier .. => true
  | _ => false

theorem quantified_fst (least : Nat) (most : Option Nat) (s : Text) :
    ∃ lazy, (quantified least most s).1 = quantifier least most lazy := by
  unfold quantified
  split
  · split
    · exact ⟨true, rfl⟩
    · exact ⟨false, rfl⟩
  · exact ⟨false, rfl⟩

def quantifierBytes : Text := "*+?\x7b"

theorem plain_opening? {s : Text} : ∀ x ∈ opening? s, ∃ kind, x.1 = opening kind := by
  fun_cases opening? s with
  | case1 | case5 => nofun
  | _ =>
    rintro _ ⟨⟩
    exact ⟨_, rfl⟩

theorem token?_first {c : UInt8} {rest : Text} : ∀ x ∈ token? c rest,
    (x.1 = .bar → c = Text.byte '|') ∧ (x.1.isQuantifier = true → c ∈ quantifierBytes) := by
  fun_cases token? c rest with
  | case1 =>
    intro x found
    obtain ⟨⟨e, after⟩, -, found⟩ := Option.bind_eq_some_iff.1 found
    obtain ⟨t, escaped, same⟩ := Option.bind_eq_some_iff.1 found
    cases same
    cases e with
    | back digits =>
      obtain ⟨n, -, rfl⟩ := Option.map_eq_some_iff.1 escaped
      exact ⟨nofun, nofun⟩
    | byte | ofClass | boundary =>
      cases escaped
      exact ⟨nofun, nofun⟩
  | case2 | case3 | case4 | case10 | case13 =>
    rintro _ ⟨⟩
    exact ⟨nofun, nofun⟩
  | case5 | case6 | case7 =>
    rename_i same
    rintro _ ⟨⟩
    refine ⟨fun bar => ?_, fun _ => by rw [same]; decide⟩
    obtain ⟨lazy, token⟩ := quantified_fst _ _ rest
    rw [token] at bar
    cases bar
  | case8 =>
    rename_i same
    intro x found
    obtain ⟨⟨least, most, after⟩, -, made⟩ := Option.bind_eq_some_iff.1 found
    cases made
    refine ⟨fun bar => ?_, fun _ => by rw [same]; decide⟩
    obtain ⟨lazy, token⟩ := quantified_fst least most after
    rw [token] at bar
    cases bar
  | case9 =>
    intro x found
    obtain ⟨kind, same⟩ := plain_opening? x found
    rw [same]
    exact ⟨nofun, nofun⟩
  | case11 =>
    rintro _ ⟨⟩
    exact ⟨fun _ => by assumption, nofun⟩
  | case12 =>
    intro x found
    obtain ⟨_, -, rfl⟩ := Option.map_eq_some_iff.1 found
    exact ⟨nofun, nofun⟩

theorem bar_not_mem {fuel : Nat} {s : Text} {tokens : List Token} (unbarred : Text.byte '|' ∉ s)
    (read : scan? fuel s = some tokens) : Token.bar ∉ tokens := by
  induction fuel generalizing s tokens with
  | zero =>
    cases s with
    | nil =>
      cases read
      exact List.not_mem_nil
    | cons c rest => cases read
  | succ fuel ih =>
    cases s with
    | nil =>
      cases read
      exact List.not_mem_nil
    | cons c rest =>
      unfold scan? at read
      obtain ⟨⟨t, after⟩, first, read⟩ := Option.bind_eq_some_iff.1 read
      obtain ⟨more, others, same⟩ := Option.bind_eq_some_iff.1 read
      cases same
      have end_ : after <:+ rest := leaves_token? c rest _ first
      rw [List.mem_cons, not_or]
      constructor
      · intro bar
        have same : c = Text.byte '|' := (token?_first _ first).1 bar.symm
        exact unbarred (same ▸ List.mem_cons_self)
      · exact ih (fun mem => unbarred (List.mem_cons_of_mem c (end_.subset mem))) others

theorem token?_plain {c : UInt8} (rest : Text) (other : c ≠ Text.byte '\\') (plain : ¬ special.contains c = true) :
    token? c rest = some (literal c, rest) := by
  have apart : ∀ d ∈ special, c ≠ d := by
    rintro d mem rfl
    exact plain (List.contains_iff_mem.2 mem)
  unfold token?
  rw [if_neg other]
  simp [apart (Text.byte '^') (by decide), apart (Text.byte '$') (by decide), apart (Text.byte '.') (by decide),
    apart (Text.byte '*') (by decide), apart (Text.byte '+') (by decide), apart (Text.byte '?') (by decide),
    apart (Text.byte '\x7b') (by decide), apart (Text.byte '(') (by decide), apart (Text.byte ')') (by decide),
    apart (Text.byte '|') (by decide), apart (Text.byte '[') (by decide)]

theorem token?_escaped {d : UInt8} (after : Text) (plain : ¬ Ascii.isAlnum d = true) :
    token? (Text.byte '\\') (d :: after) = some (literal d, after) := by
  have apart : ∀ e : UInt8, Ascii.isAlnum e = true → d ≠ e := by
    rintro e letter rfl
    exact plain letter
  have letters : namedBytes.all (fun entry => Ascii.isAlnum entry.1) = true := rfl
  have classes : escapeClasses.all (fun entry => Ascii.isAlnum entry.1) = true := rfl
  rw [List.all_eq_true] at letters classes
  have unnamed : namedBytes.lookup d = none :=
    List.lookup_eq_none_iff.2 fun entry mem => by simp [apart _ (letters entry mem)]
  have noClass : escapeClasses.lookup d = none :=
    List.lookup_eq_none_iff.2 fun entry mem => by simp [apart _ (classes entry mem)]
  have digit : ¬ Ascii.isDigit d = true := fun digit => plain (by simp [Ascii.isAlnum, digit])
  have read : escape? false (d :: after) = some (.byte d, after) := by
    unfold escape?
    simp [unnamed, noClass, digit, apart (Text.byte 'b') (by decide), apart (Text.byte 'B') (by decide),
      apart (Text.byte 'c') (by decide), apart (Text.byte 'x') (by decide), apart (Text.byte 'u') (by decide)]
  unfold token?
  rw [if_pos rfl, read]
  rfl

theorem all?_plainLead (s : Text) :
    all? s = (all? (plainLead s).2).map ((plainLead s).1.map literal ++ ·) := by
  have self (o : Option (List Token)) : o = o.map ([] ++ ·) := by simp
  fun_induction plainLead s with
  | case1 | case2 | case4 | case5 => exact self _
  | case3 d after plain lead tail split ih =>
    rw [all?_cons (token?_escaped after plain), ih, split, Option.map_map]
    rfl
  | case6 c rest other plain lead tail split ih =>
    rw [all?_cons (token?_plain rest other plain), ih, split, Option.map_map]
    rfl

end Token

end QuadStore.Regex
