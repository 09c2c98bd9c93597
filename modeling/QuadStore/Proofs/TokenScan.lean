import QuadStore.Proofs.ValidTokens

namespace QuadStore.Sparql.Token

theorem tagParts_fuel {fuel more : Nat} {s : Text} (fits : s.length ≤ fuel) :
    tagParts (fuel + more) s = tagParts fuel s := by
  induction fuel generalizing s with
  | zero =>
    cases List.length_eq_zero_iff.1 (Nat.le_zero.1 fits)
    cases more <;> simp [tagParts]
  | succ fuel ih =>
    rw [Nat.succ_add]
    cases s with
    | nil => rfl
    | cons c rest =>
      have shorter : (rest.dropWhile Ascii.isAlnum).length ≤ fuel :=
        Nat.le_trans (List.dropWhile_suffix _).length_le (Nat.le_of_succ_le_succ fits)
      rw [tagParts, tagParts, ih shorter]

theorem escape?_suffix {rest bytes after : Text} (h : escape? rest = .ok (bytes, after)) : after <:+ rest := by
  obtain ⟨taken, split, -⟩ := (escape?_ok h).taken
  exact split ▸ List.suffix_append taken after

theorem string?_fuel {closing start : Text} {fuel more : Nat} {s : Text} (fits : s.length ≤ fuel) :
    string? closing start (fuel + more) s = string? closing start fuel s := by
  induction fuel generalizing s with
  | zero =>
    cases List.length_eq_zero_iff.1 (Nat.le_zero.1 fits)
    cases more <;> simp [string?]
  | succ fuel ih =>
    rw [Nat.succ_add]
    cases s with
    | nil => simp [string?]
    | cons c rest =>
      have shorter : rest.length ≤ fuel := Nat.le_of_succ_le_succ fits
      rw [string?, string?, ih shorter]
      cases escape : escape? rest with
      | error fault => rfl
      | ok read =>
        dsimp only
        rw [ih (Nat.le_trans (escape?_suffix escape).length_le shorter)]

/-- A fault of a token is found in the rest of the text, and not for want of fuel. -/
def Found (s : Text) (stop : Fault × Text) : Prop := stop.2 <:+ s ∧ stop.1 ≠ .tooDeep

theorem codePoint?_fault {width : Nat} {s : Text} {fault : Fault} (h : codePoint? width s = .error fault) :
    fault ≠ .tooDeep := by
  unfold codePoint? at h
  split at h
  · cases h
    exact nofun
  · dsimp only at h
    split at h <;> cases h
    exact nofun

theorem escape?_fault {s : Text} {fault : Fault} (h : escape? s = .error fault) : fault ≠ .tooDeep := by
  unfold escape? at h
  split at h
  · cases h
    exact nofun
  · split at h
    · cases h
    split at h
    · exact codePoint?_fault h
    split at h
    · exact codePoint?_fault h
    · cases h
      exact nofun

theorem string?_found {closing start : Text} (fuel : Nat) {s : Text} {stop : Fault × Text} (inside : s <:+ start)
    (h : string? closing start fuel s = .error stop) : Found start stop := by
  have unterminated : Found start (.unterminatedString, start) := ⟨List.suffix_rfl, by simp⟩
  induction fuel generalizing s with
  | zero => cases s <;> cases h <;> exact unterminated
  | succ fuel ih =>
    cases s with
    | nil =>
      cases h
      exact unterminated
    | cons c rest =>
      have inner : rest <:+ start := (List.suffix_cons c rest).trans inside
      rw [string?] at h
      split at h
      · split at h
        · rename_i fault escape
          cases h
          exact ⟨inside, escape?_fault escape⟩
        · rename_i bytes after escape
          exact ih ((escape?_suffix escape).trans inner) (Step.map_eq_error h)
      split at h
      · cases h
      split at h
      · cases h
        exact ⟨inside, by simp⟩
      · exact ih inner (Step.map_eq_error h)

theorem lexeme?_found {c : UInt8} {rest : Text} {stop : Fault × Text} (h : lexeme? c rest = .error stop) :
    Found (c :: rest) stop := by
  unfold lexeme? at h
  dsimp only at h
  split at h
  · cases h
  split at h
  · cases h
  split at h
  · exact string?_found _ (List.drop_suffix _ _) (Step.map_eq_error h)
  split at h
  · split at h <;> cases h
    exact ⟨List.suffix_rfl, nofun⟩
  split at h
  · split at h <;> cases h
    exact ⟨List.suffix_rfl, nofun⟩
  split at h
  · split at h <;> cases h
    exact ⟨List.suffix_rfl, nofun⟩
  split at h
  · split at h <;> cases h
  split at h <;> cases h
  exact ⟨List.suffix_rfl, nofun⟩

/-- How the rest of a text of a given length is cut: blanks are skipped, and the next token is all that its
lexeme takes, a byte at least. A fault ends the cutting. -/
inductive Scans (total : Nat) : Text → Except ParseError (List Token) → Prop where
  | finish {s : Text} (blank : skipBlanks false s = []) : Scans total s (.ok [])
  | fault {s rest : Text} {c : UInt8} {stop : Fault × Text} (next : skipBlanks false s = c :: rest)
    (read : lexeme? c rest = .error stop) (found : Found (c :: rest) stop) :
    Scans total s (.error ⟨stop.1, .unnamed, total - stop.2.length⟩)
  | token {s rest after : Text} {c : UInt8} {l : Lexeme} {scanned : Except ParseError (List Token)}
    (next : skipBlanks false s = c :: rest) (read : lexeme? c rest = .ok (l, after)) (part : after <:+ rest)
    (more : Scans total after scanned) : Scans total s (scanned.map (⟨l, total - (rest.length + 1)⟩ :: ·))

theorem scanFrom_scans (total : Nat) {fuel : Nat} {s : Text} (fits : s.length ≤ fuel) :
    Scans total s (scanFrom total fuel s) := by
  induction fuel generalizing s with
  | zero =>
    cases List.length_eq_zero_iff.1 (Nat.le_zero.1 fits)
    exact .finish rfl
  | succ fuel ih =>
    rw [scanFrom]
    split
    · exact .finish ‹_›
    rename_i c rest next
    split
    · exact .fault next ‹_› (lexeme?_found ‹_›)
    · rename_i l after read
      have part := (lexeme?_taken read).2.suffix
      have shorter : after.length ≤ fuel := by
        have own := part.length_le
        have whole := (skipBlanks_suffix false s).length_le
        rw [next, List.length_cons] at whole
        omega
      exact .token next read part (ih shorter)

theorem scan_scans (s : Text) : Scans s.length s (scan s) := scanFrom_scans s.length (Nat.le_refl _)

variable {total : Nat} {s : Text} {scanned : Except ParseError (List Token)}

theorem Scans.stops (h : Scans total s scanned) {e : ParseError} (failed : scanned = .error e) :
    e.offset ≤ total ∧ e.fault ≠ .tooDeep := by
  induction h with
  | finish => cases failed
  | fault _ _ found =>
    cases failed
    exact ⟨Nat.sub_le _ _, found.2⟩
  | token _ _ _ _ ih => exact ih (Step.map_eq_error failed)

/-- The tokens stand in the rest of the text, in order, and end before it does. -/
theorem Scans.increasing (h : Scans total s scanned) (fits : s.length ≤ total) {tokens : List Token}
    (done : scanned = .ok tokens) : (∀ t ∈ tokens, total - s.length ≤ t.offset) ∧
      (tokens.map (·.offset) ++ [total]).Pairwise (· < ·) := by
  induction h generalizing tokens with
  | finish =>
    cases done
    exact ⟨List.forall_mem_nil _, List.pairwise_singleton _ _⟩
  | fault => cases done
  | @token s rest after c l scanned next read part more ih =>
    obtain ⟨others, same, rfl⟩ := Step.map_eq_ok done
    have whole := (skipBlanks_suffix false s).length_le
    have own := part.length_le
    rw [next, List.length_cons] at whole
    obtain ⟨behind, increasing⟩ := ih (by omega) same
    refine ⟨List.forall_mem_cons.2 ⟨Nat.sub_le_sub_left whole total, fun t mem => ?_⟩, ?_⟩
    · exact Nat.le_trans (by omega) (behind t mem)
    · refine List.pairwise_cons.2 ⟨fun offset mem => ?_, increasing⟩
      rcases List.mem_append.1 mem with mem | mem
      · obtain ⟨t, own, rfl⟩ := List.mem_map.1 mem
        have first := behind t own
        change total - (rest.length + 1) < t.offset
        omega
      · cases List.mem_singleton.1 mem
        change total - (rest.length + 1) < total
        omega

end QuadStore.Sparql.Token
