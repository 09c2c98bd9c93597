import Mathlib.Data.List.TakeWhile
import QuadStore.Condition
import QuadStore.Proofs.AnchoredSearch
import QuadStore.Proofs.Prefix
import QuadStore.Proofs.RegexTokens

namespace QuadStore.Regex

namespace Frame

variable {front : List Regex} {f : Frame} {r : Regex}

structure Shows (front : List Regex) (f : Frame) : Prop where
  single : f.done = none
  begins : front <+: f.settled.reverse

structure Fixes (front : List Regex) (f : Frame) : Prop where
  single : f.done = none
  begins : front <+: f.line.reverse

theorem Fixes.shows (h : f.Fixes front) : f.Shows front := by
  refine ⟨h.single, h.begins.trans ?_⟩
  unfold settled
  split
  · rw [List.reverse_cons]
    exact List.prefix_append _ _
  · exact List.prefix_rfl

theorem Shows.atom (h : f.Shows front) : (f.atom r).Fixes front := ⟨h.single, h.begins⟩

theorem Shows.assertion (h : f.Shows front) : (f.assertion r).Fixes front := by
  refine ⟨h.single, h.begins.trans ?_⟩
  change f.settled.reverse <+: (r :: f.settled).reverse
  rw [List.reverse_cons]
  exact List.prefix_append _ _

theorem Shows.close {inner : Frame} (h : f.Shows front) : (f.close inner).Fixes front := by
  unfold Frame.close
  split
  · exact h.atom
  · exact h.atom
  · exact h.assertion

theorem Shows.body (h : f.Shows front) : ∃ more, f.body = sequence (front ++ more) := by
  obtain ⟨more, same⟩ := h.begins
  refine ⟨more, ?_⟩
  unfold Frame.body
  dsimp only
  rw [h.single, ← same]
  rfl

end Frame

namespace Reader

variable {front : List Regex} {s s' : Reader} {t : Token} {top top' : Frame} {outer : List Frame}
  {groups groups' : Nat}

def Shows (front : List Regex) (s : Reader) : Prop :=
  match s.outer.getLast? with
  | none => s.top.Shows front
  | some f => f.Shows front

def Fixes (front : List Regex) (s : Reader) : Prop :=
  match s.outer.getLast? with
  | none => s.top.Fixes front
  | some f => f.Shows front

theorem Fixes.shows (h : s.Fixes front) : s.Shows front := by
  unfold Fixes at h
  unfold Shows
  cases last : s.outer.getLast? with
  | none =>
    rw [last] at h
    exact Frame.Fixes.shows h
  | some f =>
    rw [last] at h
    exact h

theorem Shows.onTop (h : Shows front ⟨top, outer, groups⟩) (fixed : top.Shows front → top'.Fixes front) :
    Fixes front ⟨top', outer, groups'⟩ := by
  unfold Shows at h
  unfold Fixes
  dsimp only at h ⊢
  cases last : outer.getLast? with
  | none =>
    rw [last] at h
    exact fixed h
  | some f =>
    rw [last] at h
    exact h

theorem Shows.open (h : Shows front ⟨top, outer, groups⟩) (inner : Frame) :
    Fixes front ⟨inner, top :: outer, groups'⟩ := by
  unfold Shows at h
  unfold Fixes
  dsimp only at h ⊢
  rw [List.getLast?_cons]
  cases last : outer.getLast? with
  | none | some f =>
    rw [last] at h
    exact h

theorem Shows.close {f inner : Frame} (h : Shows front ⟨inner, f :: outer, groups⟩) :
    Fixes front ⟨f.close inner, outer, groups⟩ := by
  unfold Shows at h
  unfold Fixes
  dsimp only at h ⊢
  rw [List.getLast?_cons] at h
  cases last : outer.getLast? with
  | none =>
    rw [last] at h
    exact Frame.Shows.close h
  | some g =>
    rw [last] at h
    exact h

theorem Shows.step (h : s.Shows front) (other : t ≠ .bar) (unquantified : t.isQuantifier = false)
    (step : s.step? t = some s') : s'.Fixes front := by
  obtain ⟨top, outer, groups⟩ := s
  cases t with
  | atom r =>
    cases step
    exact h.onTop fun shown => shown.atom
  | assertion r =>
    cases step
    exact h.onTop fun shown => shown.assertion
  | back n =>
    replace step : (if n ≤ groups ∧ !isOpen ⟨top, outer, groups⟩ n then
      some (Reader.mk (top.atom (.back n)) outer groups) else none) = some s' := step
    split at step
    · cases step
      exact h.onTop fun shown => shown.atom
    · cases step
  | opening kind =>
    cases step
    exact h.open _
  | closing =>
    cases outer with
    | nil => cases step
    | cons f outer =>
      cases step
      exact h.close
  | bar => exact absurd rfl other
  | quantifier least most lazy => cases unquantified

theorem Fixes.step (h : s.Fixes front) (other : t ≠ .bar) (step : s.step? t = some s') : s'.Fixes front := by
  cases quantified : t.isQuantifier with
  | false => exact h.shows.step other quantified step
  | true =>
    cases t with
    | quantifier least most lazy =>
      obtain ⟨r, -, rfl⟩ := Option.map_eq_some_iff.1 step
      unfold Fixes at h ⊢
      dsimp only
      cases last : s.outer.getLast? with
      | none =>
        rw [last] at h
        exact ⟨h.single, h.begins⟩
      | some f =>
        rw [last] at h
        exact h
    | _ => cases quantified

theorem Fixes.steps {tokens : List Token} (h : s.Fixes front) (unbarred : Token.bar ∉ tokens)
    (steps : tokens.foldlM step? s = some s') : s'.Fixes front := by
  induction tokens generalizing s with
  | nil =>
    cases steps
    exact h
  | cons t tokens ih =>
    rw [List.foldlM_cons] at steps
    obtain ⟨next, first, steps⟩ := Option.bind_eq_some_iff.1 steps
    rw [List.mem_cons, not_or] at unbarred
    exact ih (h.step (Ne.symm unbarred.1) first) unbarred.2 steps

theorem Shows.steps {tokens : List Token} (h : s.Shows front) (unbarred : Token.bar ∉ tokens)
    (unquantified : ∀ t ∈ tokens.head?, t.isQuantifier = false) (steps : tokens.foldlM step? s = some s') :
    s'.Shows front := by
  cases tokens with
  | nil =>
    cases steps
    exact h
  | cons t tokens =>
    rw [List.foldlM_cons] at steps
    obtain ⟨next, first, steps⟩ := Option.bind_eq_some_iff.1 steps
    rw [List.mem_cons, not_or] at unbarred
    exact ((h.step (Ne.symm unbarred.1) (unquantified t rfl) first).steps unbarred.2 steps).shows

end Reader

namespace Token

def allowsNone : Token → Bool
  | quantifier least _ _ => least = 0
  | _ => false

/-- Whether one of the quantifiers that a text begins with allows for no times. -/
def makesOptional (s : Text) : Bool :=
  (((all? s).getD []).takeWhile isQuantifier).any allowsNone

theorem not_makesOptional {d : UInt8} {rest : Text} (other : d ∉ quantifierBytes) :
    makesOptional (d :: rest) = false := by
  unfold makesOptional
  cases read : all? (d :: rest) with
  | none => rfl
  | some tokens =>
    unfold all? at read
    rw [List.length_cons, scan?] at read
    obtain ⟨⟨t, after⟩, first, read⟩ := Option.bind_eq_some_iff.1 read
    obtain ⟨more, -, same⟩ := Option.bind_eq_some_iff.1 read
    cases same
    have plain : ¬ t.isQuantifier = true := fun quantified => other ((token?_first _ first).2 quantified)
    simp [plain]

end Token

section

variable {r : Regex} {source t : Text}

theorem read?_inv (read : read? source = some r) : ∃ tokens reader, Token.all? source = some tokens ∧
    tokens.foldlM Reader.step? .initial = some reader ∧ reader.outer = [] ∧ r = reader.top.body := by
  unfold read? at read
  obtain ⟨tokens, scanned, read⟩ := Option.bind_eq_some_iff.1 read
  obtain ⟨reader, steps, read⟩ := Option.bind_eq_some_iff.1 read
  refine ⟨tokens, reader, scanned, steps, ?_⟩
  dsimp only at read
  split at read
  · cases read
  · rename_i closed
    split at read
    · cases read
      exact ⟨Classical.not_not.1 closed, rfl⟩
    · cases read

def Frame.bytes (f : Frame) (cs : Text) : Frame := cs.foldl (fun f c => f.atom (literal c)) f

theorem Frame.bytes_done (f : Frame) (cs : Text) : (f.bytes cs).done = f.done := by
  induction cs generalizing f with
  | nil => rfl
  | cons c cs ih => exact ih (f.atom (literal c))

theorem Frame.bytes_settled (f : Frame) (cs : Text) :
    (f.bytes cs).settled.reverse = f.settled.reverse ++ cs.map literal := by
  induction cs generalizing f with
  | nil => simp [Frame.bytes]
  | cons c cs ih =>
    have next : (f.atom (literal c)).settled = literal c :: f.settled := rfl
    have first := ih (f.atom (literal c))
    rw [next, List.reverse_cons, List.append_assoc] at first
    exact first

theorem steps_bytes (f : Frame) (outer : List Frame) (groups : Nat) (cs : Text) :
    (cs.map Token.literal).foldlM Reader.step? ⟨f, outer, groups⟩ = some ⟨f.bytes cs, outer, groups⟩ := by
  induction cs generalizing f with
  | nil => rfl
  | cons c cs ih => exact ih (f.atom (literal c))

/-- Quantifiers take what stands before them, which keeps its first byte if none of them allows for no
times. -/
theorem steps_quantifiers {qs : List Token} (quantifiers : ∀ q ∈ qs, q.isQuantifier = true) (f : Frame)
    (outer : List Frame) (groups : Nat) (x : Regex) :
    ∃ y, qs.foldlM Reader.step? ⟨{ f with last := some x }, outer, groups⟩ =
        some ⟨{ f with last := some y }, outer, groups⟩ ∧
      ∀ c, Begins c x → qs.any Token.allowsNone = false → Begins c y := by
  induction qs generalizing x with
  | nil => exact ⟨x, rfl, fun _ begins _ => begins⟩
  | cons q qs ih =>
    rw [List.forall_mem_cons] at quantifiers
    cases q with
    | quantifier least most lazy =>
      obtain ⟨y, steps, begins⟩ := ih quantifiers.2 (.loop x least most lazy)
      refine ⟨y, steps, fun c first once => ?_⟩
      simp only [List.any_cons, Bool.or_eq_false_iff, Token.allowsNone, decide_eq_false_iff_not] at once
      exact begins c (first.loop once.1 most lazy) once.2
    | _ => cases quantifiers.1

theorem steps_front {cs : Text} {c : UInt8} {behind : List Token} {reader : Reader} (unbarred : Token.bar ∉ behind)
    (steps : ((cs ++ [c]).map Token.literal ++ behind).foldlM Reader.step?
      ⟨(Frame.opened .plain 0).assertion .start, [], 0⟩ = some reader) :
    ∃ x, reader.Shows (.start :: cs.map literal ++ [x]) ∧
      ((behind.takeWhile Token.isQuantifier).any Token.allowsNone = false → Begins c x) := by
  have parts : behind.takeWhile Token.isQuantifier ++ behind.dropWhile Token.isQuantifier = behind :=
    List.takeWhile_append_dropWhile
  have quantifiers : ∀ q ∈ behind.takeWhile Token.isQuantifier, q.isQuantifier = true :=
    fun q mem => List.mem_takeWhile_imp mem
  have unquantified : ∀ t ∈ (behind.dropWhile Token.isQuantifier).head?, t.isQuantifier = false := by
    intro t first
    have none_ := List.head?_dropWhile_not Token.isQuantifier behind
    rw [first] at none_
    simpa using none_
  let f : Frame := ((Frame.opened .plain 0).assertion .start).bytes cs
  obtain ⟨x, taken, begins⟩ := steps_quantifiers quantifiers (f.atom (literal c)) [] 0 (literal c)
  have bytes : (cs.map Token.literal).foldlM Reader.step? ⟨(Frame.opened .plain 0).assertion .start, [], 0⟩ =
      some ⟨f, [], 0⟩ := steps_bytes _ _ _ _
  have last : Reader.step? ⟨f, [], 0⟩ (Token.literal c) =
      some ⟨{ f.atom (literal c) with last := some (literal c) }, [], 0⟩ := rfl
  rw [← parts, List.map_append, List.append_assoc, List.foldlM_append, bytes] at steps
  simp only [Option.bind_eq_bind, Option.bind_some, List.map_singleton, List.singleton_append, List.foldlM_cons,
    last, List.foldlM_append, taken] at steps
  have shown : Reader.Shows (.start :: cs.map literal ++ [x])
      ⟨{ f.atom (literal c) with last := some x }, [], 0⟩ := by
    have settled : f.settled.reverse = .start :: cs.map literal := Frame.bytes_settled _ cs
    have line : (x :: f.settled).reverse = .start :: cs.map literal ++ [x] := by
      rw [List.reverse_cons, settled]
    exact ⟨Frame.bytes_done _ cs, [], (List.append_nil _).trans line.symm⟩
  have clear : Token.bar ∉ behind.dropWhile Token.isQuantifier :=
    fun mem => unbarred ((List.dropWhile_suffix _).subset mem)
  exact ⟨x, shown.steps clear unquantified steps, begins c (begins_literal c)⟩

/-- An anchored expression without alternatives begins with the bytes behind the anchor, the last of them
under the quantifiers that follow it. -/
theorem read?_anchored {rest : Text} (unbarred : Text.byte '|' ∉ rest) {cs : Text} {c : UInt8}
    (front : (plainLead rest).1 = cs ++ [c]) (read : read? (Text.byte '^' :: rest) = some r) :
    ∃ x more, r = .seq .start (sequence (cs.map literal ++ x :: more)) ∧
      (Token.makesOptional (plainLead rest).2 = false → Begins c x) := by
  obtain ⟨tokens, reader, scanned, steps, closed, rfl⟩ := read?_inv read
  have anchor : Token.token? (Text.byte '^') rest = some (.assertion .start, rest) := rfl
  have clear : Token.bar ∉ tokens :=
    Token.bar_not_mem (List.not_mem_cons_of_ne_of_not_mem (by decide) unbarred) scanned
  rw [Token.all?_cons anchor, Token.all?_plainLead, front, Option.map_map] at scanned
  obtain ⟨behind, tail, rfl⟩ := Option.map_eq_some_iff.1 scanned
  obtain ⟨x, shown, begins⟩ := steps_front (fun mem => clear (by simp [mem])) steps
  unfold Reader.Shows at shown
  rw [closed] at shown
  obtain ⟨more, body⟩ := shown.body
  refine ⟨x, more, ?_, fun once => begins ?_⟩
  · rw [body]
    simp [sequence]
  · rw [Token.makesOptional, tail] at once
    exact once

/-- Whether the last byte of the lead stands before a `+` that a quantifier behind it allows to be left out. -/
def loosened : Text → Bool
  | [] => false
  | _ :: rest =>
    (plainLead rest).2.head? = some (Text.byte '+') && Token.makesOptional (plainLead rest).2

theorem dropLast_shorter (s : Text) : Utf8.dropLast s <+: s.dropLast := by
  have shorter : ∀ l : Text, (l.dropWhile Utf8.isContinuation).drop 1 <:+ l.tail := by
    intro l
    cases l with
    | nil => exact List.suffix_rfl
    | cons c l =>
      rw [List.dropWhile_cons]
      split
      · exact (List.drop_suffix 1 _).trans (List.dropWhile_suffix _)
      · exact List.suffix_rfl
  unfold Utf8.dropLast
  rw [← List.reverse_suffix, List.reverse_reverse, ← List.tail_reverse]
  exact shorter s.reverse

theorem front_of_search {rest : Text} (unbarred : Text.byte '|' ∉ rest)
    (read : read? (Text.byte '^' :: rest) = some r) (found : r.search t = true) :
    (plainLead rest).1.dropLast <+: t ∧
      (Token.makesOptional (plainLead rest).2 = false → (plainLead rest).1 <+: t) := by
  rcases List.eq_nil_or_concat (plainLead rest).1 with none_ | ⟨cs, c, front⟩
  · rw [none_]
    exact ⟨List.nil_prefix, fun _ => List.nil_prefix⟩
  · rw [List.concat_eq_append] at front
    obtain ⟨x, more, rfl, begins⟩ := read?_anchored unbarred front read
    rw [search_start] at found
    obtain ⟨after, split, found⟩ := run_literals found
    rw [front, List.dropLast_concat]
    refine ⟨⟨after.rest, split.symm⟩, fun once => ?_⟩
    have first : after.rest.head? = some c := begins once after _ found
    obtain ⟨tail, same⟩ := List.head?_eq_some_iff.1 first
    refine ⟨tail, ?_⟩
    rw [List.append_assoc, List.singleton_append, ← same]
    exact split.symm

theorem lead_anchored {rest : Text} (unbarred : Text.byte '|' ∉ rest) : lead (Text.byte '^' :: rest) =
    if (plainLead rest).2.head?.any optional.contains then Utf8.dropLast (plainLead rest).1
    else (plainLead rest).1 := by
  have none_ : ¬ (Text.byte '^' ≠ Text.byte '^' ∨ (Text.byte '^' :: rest).contains (Text.byte '|') = true) := by
    rw [List.contains_iff_mem]
    exact not_or.2 ⟨fun other => other rfl, List.not_mem_cons_of_ne_of_not_mem (by decide) unbarred⟩
  unfold lead
  dsimp only
  rw [if_neg none_]
  cases (plainLead rest).2 <;> rfl

theorem lead_unanchored {c : UInt8} {rest : Text} (h : c ≠ Text.byte '^' ∨ Text.byte '|' ∈ rest) :
    lead (c :: rest) = [] := by
  refine if_pos (h.imp_right fun mem => ?_)
  rw [List.contains_iff_mem]
  exact List.mem_cons_of_mem c mem

/-- The lead is the whole front, unless its last character may be left out. -/
theorem lead_of_search (read : read? source = some r) (found : r.search t = true) :
    (lead source).dropLast <+: t ∧ (loosened source = false → lead source <+: t) := by
  cases source with
  | nil => exact ⟨List.nil_prefix, fun _ => List.nil_prefix⟩
  | cons c rest =>
    by_cases plain : c ≠ Text.byte '^' ∨ Text.byte '|' ∈ rest
    · rw [lead_unanchored plain]
      exact ⟨List.nil_prefix, fun _ => List.nil_prefix⟩
    · obtain ⟨anchor, unbarred⟩ := not_or.1 plain
      obtain rfl : c = Text.byte '^' := Classical.not_not.1 anchor
      obtain ⟨shorter, whole⟩ := front_of_search unbarred read found
      rw [lead_anchored unbarred]
      split
      · have front : Utf8.dropLast (plainLead rest).1 <+: t := (dropLast_shorter _).trans shorter
        have less : (Utf8.dropLast (plainLead rest).1).dropLast <+: Utf8.dropLast (plainLead rest).1 :=
          List.dropLast_prefix _
        exact ⟨less.trans front, fun _ => front⟩
      · rename_i needed
        refine ⟨shorter, fun tight => whole ?_⟩
        cases behind : (plainLead rest).2 with
        | nil => rfl
        | cons d tail =>
          rw [behind] at needed
          by_cases plus : d = Text.byte '+'
          · rw [loosened, behind, plus] at tight
            rw [plus]
            simpa using tight
          · apply Token.not_makesOptional
            have taken : Token.quantifierBytes.all (fun d => d = Text.byte '+' ∨ optional.contains d) = true := rfl
            simp only [List.all_eq_true, decide_eq_true_eq] at taken
            exact fun mem => needed ((taken d mem).resolve_left plus)

/-- Every text in which an expression is found starts with the lead of its notation, but for a last byte that
is loosened; and the condition that the lead becomes takes it unless U+FFFF or more follows the lead. -/
theorem lead_starts_match (read : read? source = some r) (found : r.search t = true) :
    (lead source).dropLast <+: t ∧
    (loosened source = false → lead source <+: t ∧
      ∀ p, (({ regex := some source } : Operators).conditions p).all (·.holds t) = true ↔
        (lead source = [] ∨ t.drop (lead source).length < Utf8.maxChar)) := by
  obtain ⟨shorter, whole⟩ := lead_of_search read found
  refine ⟨shorter, fun tight => ⟨whole tight, fun p => ?_⟩⟩
  obtain ⟨rest, same⟩ := whole tight
  cases front : lead source with
  | nil => simp [Operators.conditions, front]
  | cons c cs =>
    have asked : ({ regex := some source } : Operators).conditions p = [.startingWith (c :: cs)] := by
      simp [Operators.conditions, front]
    rw [asked, List.all_cons, List.all_nil, Bool.and_true, Condition.startingWith_holds, ← same, front,
      List.drop_left]
    simp

theorem lead_starts_match_plus :
    read? "^ab+c" = some (sequence [.start, literal 97, .loop (literal 98) 1 none false, literal 99]) ∧
    (sequence [.start, literal 97, .loop (literal 98) 1 none false, literal 99]).search "abbc" = true ∧
    loosened "^ab+c" = false ∧ lead "^ab+c" = "ab" ∧ ("ab" : Text) <+: "abbc" := by
  have read : read? "^ab+c" = some (sequence [.start, literal 97, .loop (literal 98) 1 none false, literal 99]) := by
    decide +kernel
  have found : (sequence [.start, literal 97, .loop (literal 98) 1 none false, literal 99]).search "abbc" = true := by
    decide +kernel
  have tight : loosened "^ab+c" = false := by decide +kernel
  exact ⟨read, found, tight, by decide +kernel, ((lead_starts_match read found).2 tight).1⟩

theorem lead_misses_match :
    ((read? "^ab+*").any fun r => r.search "a") = true ∧ lead "^ab+*" = "ab" ∧ ¬ ("ab" : Text) <+: "a" := by
  decide +kernel

end

end QuadStore.Regex
