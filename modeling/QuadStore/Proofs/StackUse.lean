import QuadStore.Proofs.Spelling
import QuadStore.Proofs.ValidTokens
import QuadStore.Sparql.Stack

namespace QuadStore.Sparql

namespace Token

def starts : Nat → Text → List (UInt8 × Text)
  | 0, _ => []
  | fuel + 1, s =>
    match skipBlanks false s with
    | [] => []
    | c :: rest =>
      (c, rest) :: match lexeme? c rest with
        | .error _ => []
        | .ok (_, after) => starts fuel after

theorem starts_cons {s rest : Text} {c : UInt8} (next : skipBlanks false s = c :: rest) (fuel : Nat) :
    starts (fuel + 1) s = (c, rest) :: match lexeme? c rest with
      | .error _ => []
      | .ok (_, after) => starts fuel after := by
  rw [starts, next]

theorem mem_starts_first {s rest : Text} {c : UInt8} (next : skipBlanks false s = c :: rest) (fuel : Nat) :
    (c, rest) ∈ starts (fuel + 1) s := by
  rw [starts_cons next]
  exact List.mem_cons_self

theorem mem_starts_later {s rest after : Text} {c : UInt8} {l : Lexeme} {start : UInt8 × Text} {fuel : Nat}
    (next : skipBlanks false s = c :: rest) (read : lexeme? c rest = .ok (l, after)) (mem : start ∈ starts fuel after) :
    start ∈ starts (fuel + 1) s := by
  rw [starts_cons next, read]
  exact List.mem_cons_of_mem _ mem

theorem length_starts_le {fuel : Nat} {s rest : Text} {c : UInt8} (mem : (c, rest) ∈ starts fuel s) :
    rest.length + 1 ≤ s.length := by
  induction fuel generalizing s with
  | zero => cases mem
  | succ fuel ih =>
    cases next : skipBlanks false s with
    | nil =>
      rw [starts, next] at mem
      cases mem
    | cons d behind =>
      have whole := (skipBlanks_suffix false s).length_le
      rw [next, List.length_cons] at whole
      rw [starts_cons next] at mem
      rcases List.mem_cons.1 mem with same | mem
      · cases same
        exact whole
      · cases read : lexeme? d behind with
        | error stop =>
          rw [read] at mem
          cases mem
        | ok found =>
          rw [read] at mem
          have shorter := (lexeme?_taken read).2.suffix.length_le
          exact Nat.le_trans (ih mem) (Nat.le_trans shorter (Nat.le_of_succ_le whole))

theorem length_scanFrom_le {total fuel : Nat} {s : Text} {tokens : List Token}
    (scanned : scanFrom total fuel s = .ok tokens) : tokens.length ≤ fuel := by
  induction fuel generalizing s tokens with
  | zero =>
    cases scanned
    exact Nat.le_refl _
  | succ fuel ih =>
    rw [scanFrom] at scanned
    split at scanned
    · cases scanned
      exact Nat.zero_le _
    · split at scanned
      · cases scanned
      · obtain ⟨others, read, rfl⟩ := Step.map_eq_ok scanned
        exact Nat.succ_le_succ (ih read)

theorem matched_le (c : UInt8) (rest : Text) :
    (matched c rest).1 ≤ rest.length + 1 ∧ (matched c rest).2 ≤ rest.length + 1 := by
  have split : ((c :: rest).takeWhile isPrefixPart).length + ((c :: rest).dropWhile isPrefixPart).length =
      rest.length + 1 := by
    rw [← List.length_append, List.takeWhile_append_dropWhile, List.length_cons]
  unfold matched
  dsimp only
  split_ifs
  · have own := (tag_begins rest).length_le
    exact ⟨Nat.succ_le_succ own, Nat.le_trans (List.count_le_length) (Nat.le_succ_of_le own)⟩
  · refine ⟨?_, Nat.zero_le _⟩
    cases number : number? (c :: rest) with
    | none => exact Nat.zero_le _
    | some n => exact (number?_begins number).1.1.length_le
  · cases behind : (c :: rest).dropWhile isPrefixPart with
    | nil => exact ⟨(List.takeWhile_prefix _).length_le, Nat.zero_le _⟩
    | cons d after =>
      have part := (localPart_begins after).length_le
      rw [behind, List.length_cons] at split
      dsimp only
      split_ifs
      · exact ⟨by dsimp only; omega, by dsimp only; omega⟩
      · exact ⟨(List.takeWhile_prefix _).length_le, Nat.zero_le _⟩
  · exact ⟨Nat.zero_le _, Nat.zero_le _⟩

theorem matched_digits (n : Nat) :
    matched (Text.byte '1') (List.replicate n (Text.byte '1') ++ " .") = (n + 1, 0) := by
  have digits : ∀ c ∈ List.replicate (n + 1) (Text.byte '1'), Ascii.isDigit c = true := by
    intro c mem
    rw [List.eq_of_mem_replicate mem]
    rfl
  have stop : ∀ c ∈ (" ." : Text).head?, Ascii.isDigit c = false := by decide +kernel
  have front : Text.byte '1' :: (List.replicate n (Text.byte '1') ++ " .") =
      List.replicate (n + 1) (Text.byte '1') ++ " ." := rfl
  have number : number? (List.replicate (n + 1) (Text.byte '1') ++ " .") =
      some (.integer (List.replicate (n + 1) (Text.byte '1'))) := by
    unfold number?
    rw [Text.takeWhile_run digits stop, Text.dropWhile_run digits stop]
    rfl
  have digit : Ascii.isDigit (Text.byte '1') = true := rfl
  unfold matched
  dsimp only
  rw [if_neg (by decide), digit, Bool.true_or, if_pos rfl, front, number]
  exact congrArg (·, 0) List.length_replicate

end Token

theorem Outcome.map_ite {α β : Type} (f : α → β) (fits : Bool) (a : α) :
    Outcome.map f (if fits then .finished a else .exhausted) = if fits then .finished (f a) else .exhausted := by
  cases fits <;> rfl

namespace Stack

variable (k : Stack)

def fits (s : Text) : Bool := (Token.starts s.length s).all fun (c, rest) => k.taken c rest ≤ k.size

/-- On a stack with room for every match a text is cut as it is without one. -/
theorem scanFrom_eq (total fuel : Nat) (s : Text) :
    k.scanFrom total fuel s =
      if (Token.starts fuel s).all fun (c, rest) => k.taken c rest ≤ k.size then
        .finished (Token.scanFrom total fuel s)
      else .exhausted := by
  induction fuel generalizing s with
  | zero => rfl
  | succ fuel ih =>
    unfold scanFrom Token.starts Token.scanFrom
    cases Token.skipBlanks false s with
    | nil => rfl
    | cons c rest =>
      dsimp only
      rw [List.all_cons]
      by_cases room : k.taken c rest ≤ k.size
      · rw [if_neg (Nat.not_lt.2 room), decide_eq_true room, Bool.true_and]
        cases Token.lexeme? c rest with
        | error stop => rfl
        | ok found =>
          dsimp only
          rw [ih, Outcome.map_ite]
      · rw [if_pos (Nat.lt_of_not_le room), decide_eq_false room, Bool.false_and, if_neg Bool.false_ne_true]

theorem scan_eq (s : Text) : k.scan s = if k.fits s then .finished (Token.scan s) else .exhausted :=
  k.scanFrom_eq s.length s.length s

/-- Whether the stack lasts for a text: for the matches and for the readers of its tokens. -/
def lasts (text : Text) (buried : List Token → Bool) : Bool :=
  k.fits text && !(Token.scan text).toOption.any buried

theorem onTokens_eq {α : Type} (text : Text) (buried : List Token → Bool) (answer : α) :
    k.onTokens text buried answer = if k.lasts text buried then .finished answer else .exhausted := by
  unfold onTokens lasts
  rw [scan_eq]
  cases k.fits text with
  | false => rfl
  | true =>
    cases Token.scan text with
    | error e => rfl
    | ok tokens =>
      change (if buried tokens then Outcome.exhausted else .finished answer) =
        if !buried tokens then .finished answer else .exhausted
      cases buried tokens <;> rfl

theorem onTokens_settled {α : Type} {P : Prop} (text : Text) (buried : List Token → Bool) (answer : α) (h : P) :
    if k.lasts text buried then k.onTokens text buried answer = .finished answer ∧ P
    else k.onTokens text buried answer = .exhausted := by
  rw [onTokens_eq]
  cases k.lasts text buried with
  | false => exact if_neg Bool.false_ne_true
  | true => exact ⟨if_pos rfl, h⟩

theorem onTokens_exhausted {α : Type} {text : Text} (full : k.fits text = false) (buried : List Token → Bool)
    (answer : α) : k.onTokens text buried answer = .exhausted := by
  rw [onTokens_eq, lasts, full, Bool.false_and, if_neg Bool.false_ne_true]

theorem taken_le (c : UInt8) (rest : Text) : k.taken c rest ≤ (k.frame + k.choice) * (rest.length + 1) := by
  obtain ⟨bytes, choices⟩ := Token.matched_le c rest
  rw [Nat.add_mul]
  exact Nat.add_le_add (Nat.mul_le_mul_left _ bytes) (Nat.mul_le_mul_left _ choices)

theorem fits_of_short {text : Text} (short : (k.frame + k.choice) * text.length ≤ k.size) : k.fits text = true := by
  refine List.all_eq_true.2 fun (c, rest) mem => decide_eq_true ?_
  have length := Token.length_starts_le mem
  exact (k.taken_le c rest).trans ((Nat.mul_le_mul_left _ length).trans short)

theorem lasts_of_short {text : Text} {buried : List Token → Bool}
    (shallow : ∀ tokens, tokens.length ≤ k.depth → buried tokens = false)
    (short : (k.frame + k.choice) * text.length ≤ k.size) (few : text.length ≤ k.depth) :
    k.lasts text buried = true := by
  unfold lasts
  rw [k.fits_of_short short, Bool.true_and]
  cases scanned : Token.scan text with
  | error e => rfl
  | ok tokens =>
    have deep : buried tokens = false := shallow tokens ((Token.length_scanFrom_le scanned).trans few)
    change (!buried tokens) = true
    rw [deep]
    rfl

theorem exhausted_at {s rest : Text} {c : UInt8} (start : (c, rest) ∈ Token.starts s.length s)
    (large : k.size < k.taken c rest) : k.fits s = false :=
  List.all_eq_false.2 ⟨(c, rest), start, by simpa using large⟩

end Stack

end QuadStore.Sparql
