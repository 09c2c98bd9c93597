import QuadStore.Sparql.Token
import QuadStore.Proofs.Step
import QuadStore.Proofs.Utf8Text
import Mathlib.Data.List.DropRight

namespace QuadStore.Sparql.Token

open Utf8

theorem dropDots_begins (s : Text) : dropDots s <+: s := List.rdropWhile_prefix _ s

theorem label_begins (s : Text) : label s <+: s := (dropDots_begins _).trans (List.takeWhile_prefix _)

theorem takeWhile_append_begins (p : UInt8 → Bool) {s part : Text} (h : part <+: s.dropWhile p) :
    s.takeWhile p ++ part <+: s := by
  have both := (List.prefix_append_right_inj (s.takeWhile p)).2 h
  rwa [List.takeWhile_append_dropWhile] at both

theorem tagParts_begins (fuel : Nat) (s : Text) : tagParts fuel s <+: s := by
  induction fuel generalizing s with
  | zero => exact List.nil_prefix
  | succ fuel ih =>
    cases s with
    | nil => exact List.nil_prefix
    | cons c rest =>
      rw [tagParts]
      split
      · exact (List.prefix_cons_inj c).2 (takeWhile_append_begins _ (ih _))
      · exact List.nil_prefix

theorem tag_begins (s : Text) : tag s <+: s := by
  change (if s.takeWhile Ascii.isAlpha = [] then [] else _) <+: s
  split
  · exact List.nil_prefix
  · exact takeWhile_append_begins _ (tagParts_begins _ _)

theorem localPart_begins (s : Text) : localPart s <+: s := by
  fun_induction localPart s with
  | case2 c rest isPart ih => exact (List.prefix_cons_inj c).2 ih
  | case4 d after _ _ ih => exact (List.prefix_cons_inj _).2 ((List.prefix_cons_inj d).2 ih)
  | _ => exact List.nil_prefix

theorem dropStops_suffix (s : Text) : dropStops s <:+ s := by
  fun_induction dropStops s with
  | case1 => exact List.suffix_refl _
  | case2 c rest _ ih => exact ih.trans (List.suffix_cons c rest)
  | case3 c rest => exact List.suffix_refl _

theorem dropStops_ne_nil {s : Text} {c : UInt8} (mem : c ∈ s) (other : c ≠ Text.byte '.') : dropStops s ≠ [] := by
  fun_induction dropStops s with
  | case1 => cases mem
  | case2 d rest stop ih =>
    rcases List.mem_cons.1 mem with rfl | mem
    · simp [other] at stop
    · exact ih mem
  | case3 => exact List.cons_ne_nil _ _

theorem prefixedName?_begins {s name : Text} (h : prefixedName? s = some name) : name <+: s ∧ name ≠ [] := by
  obtain ⟨front, rest, found, behind, same⟩ : ∃ front rest, front <+: s ∧ s.drop front.length = Text.byte ':' :: rest ∧
      (dropStops (front ++ Text.byte ':' :: localPart rest).reverse).reverse = name := by
    unfold prefixedName? at h
    dsimp only at h
    split at h
    · rename_i c rest behind
      split at h
      · rename_i colon
        cases colon
        cases h
        refine ⟨_, rest, ?_, behind, rfl⟩
        split
        · split
          · exact List.takeWhile_prefix _
          · exact List.nil_prefix
        · exact List.nil_prefix
      · cases h
    · cases h
  have whole : front ++ Text.byte ':' :: localPart rest <+: s := by
    obtain ⟨t, rfl⟩ := found
    rw [List.drop_left] at behind
    rw [behind]
    exact (List.prefix_append_right_inj front).2 ((List.prefix_cons_inj _).2 (localPart_begins rest))
  have cut := dropStops_suffix (front ++ Text.byte ':' :: localPart rest).reverse
  rw [← List.reverse_prefix, List.reverse_reverse] at cut
  rw [← same]
  refine ⟨cut.trans whole, List.reverse_ne_nil_iff.2 (dropStops_ne_nil (c := Text.byte ':') (by simp) ?_)⟩
  decide

theorem exponent_begins (s : Text) : exponent s <+: s := by
  cases s with
  | nil => exact List.nil_prefix
  | cons c rest =>
    obtain ⟨sign, body, found, split⟩ : ∃ sign body : Text, sign ++ body = rest ∧ exponent (c :: rest) =
        if Ascii.toLower c = Text.byte 'e' then
          if body.takeWhile Ascii.isDigit = [] then [] else c :: sign ++ body.takeWhile Ascii.isDigit
        else [] := by
      cases rest with
      | nil => exact ⟨[], [], rfl, rfl⟩
      | cons d after =>
        by_cases signed : d = Text.byte '+' ∨ d = Text.byte '-'
        · exact ⟨[d], after, rfl, by simp [exponent, signed]⟩
        · exact ⟨[], d :: after, rfl, by simp [exponent, signed]⟩
    rw [split]
    split
    · split
      · exact List.nil_prefix
      · rw [← found]
        exact (List.prefix_append_right_inj (c :: sign)).2 (List.takeWhile_prefix _)
    · exact List.nil_prefix

theorem number?_begins {s : Text} {n : Lexeme} (h : number? s = some n) :
    (n.text <+: s ∧ n.text ≠ []) ∧ ∀ value, n ≠ .string value := by
  obtain ⟨dotted, found, start⟩ : ∃ dotted, dotted <+: s.dropWhile Ascii.isDigit ∧
      (let whole := s.takeWhile Ascii.isDigit
      let mark := exponent ((s.dropWhile Ascii.isDigit).drop dotted.length)
      if (whole ≠ [] || 2 ≤ dotted.length) && mark ≠ [] then some (Lexeme.double (whole ++ dotted ++ mark))
      else if 2 ≤ dotted.length then some (.decimal (whole ++ dotted))
      else if whole ≠ [] then some (.integer whole)
      else none) = some n := by
    refine ⟨_, ?_, h⟩
    generalize s.dropWhile Ascii.isDigit = rest
    split
    · split
      · exact (List.prefix_cons_inj _).2 (List.takeWhile_prefix _)
      · exact List.nil_prefix
    · exact List.nil_prefix
  have fraction := takeWhile_append_begins Ascii.isDigit found
  simp only at start
  split at start
  · rename_i exact_
    cases start
    obtain ⟨behind, same⟩ := found
    rw [← same, List.drop_left] at exact_ ⊢
    refine ⟨⟨?_, by simp_all [Lexeme.text]⟩, nofun⟩
    rw [Lexeme.text, List.append_assoc]
    refine takeWhile_append_begins _ ?_
    rw [← same]
    exact (List.prefix_append_right_inj dotted).2 (exponent_begins behind)
  split at start
  · rename_i long
    cases start
    refine ⟨⟨fraction, List.append_ne_nil_of_right_ne_nil _ ?_⟩, nofun⟩
    rintro rfl
    cases long
  split at start
  · rename_i some_
    cases start
    exact ⟨⟨List.takeWhile_prefix _, some_⟩, nofun⟩
  · cases start

theorem Symbol.scan?_begins {s : Text} {x : Symbol} (h : Symbol.scan? s = some x) : x.text <+: s := by
  have passes : x.text.isPrefixOf s = true := List.find?_some (p := fun x : Symbol => x.text.isPrefixOf s) h
  exact List.isPrefixOf_iff_prefix.1 passes

def escapedNumber? : Text → Option Nat
  | [] => none
  | c :: rest =>
    if c = Text.byte 'u' then some (Text.toNat 16 (rest.take 4))
    else if c = Text.byte 'U' then some (Text.toNat 16 (rest.take 8))
    else none

/-- The numbers that the rest of a string escapes, up to its closing quotes; the fuel is the length of
the text. -/
def escapedIn (closing : Text) : Nat → Text → List Nat
  | _, [] => []
  | 0, _ => []
  | fuel + 1, c :: rest =>
    if c = Text.byte '\\' then
      (escapedNumber? rest).toList ++
        match escape? rest with
        | .ok (_, after) => escapedIn closing fuel after
        | .error _ => []
    else if closing.isPrefixOf (c :: rest) then []
    else escapedIn closing fuel rest

def closingOf (quote : UInt8) (s : Text) : Text :=
  if [quote, quote, quote].isPrefixOf s then [quote, quote, quote] else [quote]

def escapedAt (s : Text) : List Nat :=
  match s with
  | [] => []
  | quote :: _ => escapedIn (closingOf quote s) s.length (s.drop (closingOf quote s).length)

def escaped (text : Text) (t : Token) : List Nat :=
  match t.lexeme with
  | .string _ => escapedAt (text.drop t.offset)
  | _ => []

theorem hexDigit_ascii : ∀ c, Ascii.isHexDigit c = true → c < 0x80 := forall_byte (by decide +kernel)

theorem alpha_ascii : ∀ c, Ascii.isAlpha c = true → c < 0x80 := forall_byte (by decide +kernel)

theorem space_ascii : ∀ c, Ascii.isSpace c = true → c < 0x80 := forall_byte (by decide +kernel)

theorem digit_ascii : ∀ c, Ascii.isDigit c = true → c < 0x80 := forall_byte (by decide +kernel)

/-- An escape takes bytes of their own, and stands for bytes with which a character begins. -/
structure Escaped (rest bytes after : Text) (number? : Option Nat) : Prop where
  taken : ∃ taken, rest = taken ++ after ∧ ∀ c ∈ taken, c < 0x80
  starts : ∀ s, Starts (bytes ++ s)
  valid : Valid bytes ↔ ∀ n ∈ number?.toList, Encodes n

theorem codePoint?_ok {c : UInt8} (ascii : c < 0x80) {width : Nat} {rest bytes after : Text}
    (h : codePoint? width rest = .ok (bytes, after)) :
    Escaped (c :: rest) bytes after (some (Text.toNat 16 (rest.take width))) := by
  unfold codePoint? at h
  split at h
  · cases h
  simp only at h
  split at h
  · rename_i digits
    cases h
    refine ⟨⟨c :: rest.take width, by simp, List.forall_mem_cons.2 ⟨ascii, fun d mem => ?_⟩⟩, encode_starts _, ?_⟩
    · exact hexDigit_ascii d (List.all_eq_true.1 digits d mem)
    · rw [Option.toList_some, List.forall_mem_singleton, valid_encode_iff]
  · cases h

theorem escape?_ok {rest bytes after : Text} (h : escape? rest = .ok (bytes, after)) :
    Escaped rest bytes after (escapedNumber? rest) := by
  cases rest with
  | nil => cases h
  | cons c rest =>
    have all : (escapes.all fun p => decide (p.1 < 0x80 ∧ p.2 < 0x80 ∧ p.1 ≠ Text.byte 'u' ∧ p.1 ≠ Text.byte 'U')) =
        true := by decide +kernel
    have letters : ∀ p ∈ escapes, p.1 < 0x80 ∧ p.2 < 0x80 ∧ p.1 ≠ Text.byte 'u' ∧ p.1 ≠ Text.byte 'U' :=
      fun p mem => of_decide_eq_true (List.all_eq_true.1 all p mem)
    rw [escape?] at h
    rw [escapedNumber?]
    split at h
    · rename_i b found
      obtain ⟨before, behind, split, -⟩ := List.lookup_eq_some_iff.1 found
      obtain ⟨ascii, plain, notShort, notLong⟩ := letters (c, b) (by rw [split]; simp)
      cases h
      rw [if_neg notShort, if_neg notLong]
      refine ⟨⟨[c], rfl, List.forall_mem_singleton.2 ascii⟩, starts_cons plain, ?_⟩
      exact iff_of_true (valid_singleton plain) (List.forall_mem_nil _)
    split at h
    · rename_i short
      rw [if_pos short]
      exact codePoint?_ok (by rw [short]; decide) h
    split at h
    · rename_i notShort long
      rw [if_neg notShort, if_pos long]
      exact codePoint?_ok (by rw [long]; decide) h
    · cases h

variable {closing start : Text}

theorem valid_closed (some_ : closing ≠ []) (ascii : ∀ c ∈ closing, c < 0x80) {before more : Text}
    (valid : Valid (before ++ (closing ++ more))) : Valid before ∧ Valid more := by
  have begins : Starts (closing ++ more) := by
    cases closing with
    | nil => exact absurd rfl some_
    | cons d closing => exact starts_cons (List.forall_mem_cons.1 ascii).1 _
  rwa [valid_append_iff begins, valid_ascii_append_iff ascii] at valid

/-- A string is read from valid text up to a place where it can be cut. A character of which a part has
been read stands before the rest of the text. -/
theorem string?_valid (some_ : closing ≠ []) (ascii : ∀ c ∈ closing, c < 0x80) (fuel : Nat) (before : Text)
    {s value last : Text}
    (valid : Valid (before ++ s)) (read : string? closing start fuel s = .ok (value, last)) :
    Valid last ∧ (Valid (before ++ value) ↔ ∀ n ∈ escapedIn closing fuel s, Encodes n) ∧
      (before = [] → Starts value) := by
  induction fuel generalizing before s value with
  | zero => cases s <;> cases read
  | succ fuel ih =>
    cases s with
    | nil => cases read
    | cons c rest =>
      rw [string?] at read
      rw [escapedIn]
      split at read
      · rename_i backslash
        have own : c < 0x80 := by rw [backslash]; decide
        obtain ⟨front, behind⟩ := valid.split (starts_cons own rest)
        split at read
        · cases read
        · rename_i bytes after escape
          obtain ⟨⟨taken, same, small⟩, starts, number⟩ := escape?_ok escape
          rw [valid_cons_iff own, same, valid_ascii_append_iff small] at behind
          cases more : string? closing start fuel after with
          | error e =>
            rw [more] at read
            cases read
          | ok next =>
            obtain ⟨value', last'⟩ := next
            rw [more] at read
            cases read
            obtain ⟨cut, iff, begins⟩ := ih [] behind more
            rw [if_pos backslash, escape]
            refine ⟨cut, ?_, fun none_ => starts value'⟩
            rw [valid_append_iff (starts value'), valid_append_iff (begins rfl), number, List.forall_mem_append]
            exact ⟨fun all => ⟨all.2.1, iff.1 all.2.2⟩, fun all => ⟨front, all.1, iff.2 all.2⟩⟩
      · rename_i other
        rw [if_neg other]
        split at read
        · rename_i closed
          cases read
          obtain ⟨more, same⟩ := List.isPrefixOf_iff_prefix.1 closed
          rw [← same] at valid
          obtain ⟨front, behind⟩ := valid_closed some_ ascii valid
          rw [if_pos closed, ← same, List.drop_left, List.append_nil]
          exact ⟨behind, iff_of_true front (List.forall_mem_nil _), fun _ => valid_nil.starts⟩
        · rename_i open_
          rw [if_neg open_]
          split at read
          · cases read
          · cases more : string? closing start fuel rest with
            | error e =>
              rw [more] at read
              cases read
            | ok next =>
              obtain ⟨value', last'⟩ := next
              rw [more] at read
              cases read
              rw [List.append_cons] at valid ⊢
              obtain ⟨cut, iff, -⟩ := ih _ valid more
              refine ⟨cut, iff, ?_⟩
              rintro rfl _ ⟨⟩
              exact valid.starts c rfl

theorem closingOf_ascii {quote : UInt8} (h : quote < 0x80) (s : Text) : ∀ c ∈ closingOf quote s, c < 0x80 := by
  unfold closingOf
  split <;> simp [h]

theorem closingOf_ne_nil (quote : UInt8) (s : Text) : closingOf quote s ≠ [] := by
  unfold closingOf
  split <;> exact List.cons_ne_nil _ _

theorem closingOf_begins (quote : UInt8) (rest : Text) : closingOf quote (quote :: rest) <+: quote :: rest := by
  unfold closingOf
  split
  · rename_i long
    exact List.isPrefixOf_iff_prefix.1 long
  · exact (List.prefix_cons_inj quote).2 List.nil_prefix

theorem quoted?_valid {quote : UInt8} (ascii : quote < 0x80) {rest value after : Text} (valid : Valid (quote :: rest))
    (read : quoted? quote (quote :: rest) = .ok (value, after)) :
    Valid after ∧ (Valid value ↔ ∀ n ∈ escapedAt (quote :: rest), Encodes n) := by
  obtain ⟨behind, same⟩ := closingOf_begins quote rest
  have drop : (closingOf quote (quote :: rest) ++ behind).drop (closingOf quote (quote :: rest)).length = behind :=
    List.drop_left
  rw [same] at drop
  have inner : Valid behind := by
    rwa [← same, valid_ascii_append_iff (closingOf_ascii ascii _)] at valid
  rw [← drop] at inner
  obtain ⟨cut, iff, -⟩ := string?_valid (closingOf_ne_nil quote (quote :: rest)) (closingOf_ascii ascii _)
    (quote :: rest).length [] inner read
  exact ⟨cut, iff⟩

theorem Symbol.text_ascii (x : Symbol) : ∃ d more, x.text = d :: more ∧ ∀ c ∈ d :: more, c < 0x80 := by
  cases x <;> exact ⟨_, _, rfl, by decide +kernel⟩

inductive Taken (c : UInt8) (rest : Text) : Lexeme → Text → Prop where
  | string {value after : Text} (read : quoted? c (c :: rest) = .ok (value, after)) : Taken c rest (.string value) after
  | between {l : Lexeme} {after : Text} (other : ∀ value, l ≠ .string value) (front back : Text)
    (ascii : ∀ x ∈ front ++ back, x < 0x80) (some_ : front ++ l.text ≠ [])
    (same : c :: rest = front ++ (l.text ++ (back ++ after))) : Taken c rest l after

theorem taken_drop {c : UInt8} {rest : Text} {l : Lexeme} (h : l.text <+: c :: rest ∧ l.text ≠ [])
    (other : ∀ value, l ≠ .string value) : Taken c rest l ((c :: rest).drop l.text.length) :=
  .between other [] [] (List.forall_mem_nil _) h.2 (List.prefix_iff_eq_append.1 h.1).symm

theorem iri?_taken {s value after : Text} (h : iri? s = some (value, after)) : s = value ++ Text.byte '>' :: after := by
  induction s generalizing value with
  | nil => cases h
  | cons c rest ih =>
    rw [iri?] at h
    split at h
    · rename_i closed
      cases h
      rw [closed]
      rfl
    split at h
    · cases h
    · obtain ⟨⟨value', left⟩, read, same⟩ := Option.map_eq_some_iff.1 h
      cases same
      rw [ih read]
      rfl

theorem taken_behind {c : UInt8} {rest after : Text} {l : Lexeme} (ascii : c < 0x80) (same : l.text ++ after = rest)
    (other : ∀ value, l ≠ .string value) : Taken c rest l after :=
  .between other [c] [] (by simpa using ascii) (by simp) (by simp [same])

theorem iri_taken {c : UInt8} {rest value after : Text} (ascii : c < 0x80)
    (read : iri? rest = some (value, after)) : Taken c rest (.iri value) after := by
  refine .between nofun [c] [Text.byte '>'] (by simp [ascii]; decide) (by simp) ?_
  rw [iri?_taken read]
  rfl

theorem blank_taken {c : UInt8} {rest : Text} (ascii : c < 0x80) (colon : isPart (· = Text.byte ':') rest = true) :
    Taken c rest (.blank (label (rest.drop 1))) (rest.drop (1 + (label (rest.drop 1)).length)) := by
  cases rest with
  | nil => cases colon
  | cons d rest =>
    have mark : d = Text.byte ':' := of_decide_eq_true colon
    have cut := List.prefix_iff_eq_append.1 (label_begins rest)
    refine .between nofun [c, d] [] (by simp [ascii, mark]; decide) (by simp) ?_
    simp [Lexeme.text, Nat.add_comm 1, cut]

theorem word_taken {c : UInt8} {rest : Text} (begins : Ascii.isAlpha c = true ∨ c = Text.byte ':')
    (unprefixed : prefixedName? (c :: rest) = none) :
    Taken c rest (.word ((c :: rest).takeWhile fun c => Ascii.isAlnum c || c = Text.byte '_'))
      ((c :: rest).dropWhile fun c => Ascii.isAlnum c || c = Text.byte '_') := by
  refine .between nofun [] [] (List.forall_mem_nil _) ?_ ?_
  · rcases begins with alpha | rfl
    · simp [Lexeme.text, Ascii.isAlnum, alpha]
    · simp [prefixedName?, Ascii.isAlpha, Ascii.isUpper, Ascii.isLower, Text.byte] at unprefixed
  · simp only [Lexeme.text, List.nil_append, List.takeWhile_append_dropWhile]

theorem symbol_taken {c : UInt8} {rest : Text} {x : Symbol} (found : Symbol.scan? (c :: rest) = some x) :
    c < 0x80 ∧ Taken c rest (.symbol x) ((c :: rest).drop x.text.length) := by
  have begins := Symbol.scan?_begins found
  obtain ⟨d, more, text, ascii⟩ := Symbol.text_ascii x
  refine ⟨?_, taken_drop ⟨begins, by rw [Lexeme.text, text]; exact List.cons_ne_nil _ _⟩ nofun⟩
  rw [text] at begins
  obtain ⟨rfl, -⟩ := List.cons_prefix_cons.1 begins
  exact ascii d List.mem_cons_self

/-- A lexeme begins with a byte of its own. -/
theorem lexeme?_taken {c : UInt8} {rest after : Text} {l : Lexeme} (h : lexeme? c rest = .ok (l, after)) :
    c < 0x80 ∧ Taken c rest l after := by
  have among : ∀ {d : UInt8}, d < 0x80 → c = d → c < 0x80 := fun ascii same => same ▸ ascii
  unfold lexeme? at h
  dsimp only at h
  split at h
  · rename_i value behind opened
    cases h
    split at opened
    · rename_i bracket
      have ascii : c < 0x80 := among (by decide) bracket
      exact ⟨ascii, iri_taken ascii opened⟩
    · cases opened
  split at h
  · rename_i mark
    cases h
    simp only [Bool.and_eq_true, Bool.or_eq_true, decide_eq_true_eq] at mark
    have ascii : c < 0x80 := mark.1.elim (among (by decide)) (among (by decide))
    exact ⟨ascii, taken_behind ascii List.takeWhile_append_dropWhile nofun⟩
  split at h
  · rename_i quote
    obtain ⟨⟨value, left⟩, read, same⟩ := Step.map_eq_ok h
    cases same
    simp only [Bool.or_eq_true, decide_eq_true_eq] at quote
    exact ⟨quote.elim (among (by decide)) (among (by decide)), .string read⟩
  split at h
  · rename_i blank
    simp only [Bool.and_eq_true, decide_eq_true_eq] at blank
    have ascii : c < 0x80 := among (by decide) blank.1
    split at h
    · cases h
    · cases h
      exact ⟨ascii, blank_taken ascii blank.2⟩
  split at h
  · rename_i at_
    have ascii : c < 0x80 := among (by decide) at_
    split at h
    · cases h
    · cases h
      exact ⟨ascii, taken_behind ascii (List.prefix_iff_eq_append.1 (tag_begins rest)) nofun⟩
  split at h
  · rename_i digit
    split at h
    · rename_i number
      cases h
      refine ⟨?_, taken_drop (number?_begins number).1 (number?_begins number).2⟩
      simp only [Bool.or_eq_true, Bool.and_eq_true, decide_eq_true_eq] at digit
      exact digit.elim (digit_ascii c) fun dot => among (by decide) dot.1
    · cases h
  split at h
  · rename_i alpha
    simp only [Bool.or_eq_true, decide_eq_true_eq] at alpha
    have ascii : c < 0x80 := alpha.elim (alpha_ascii c) (among (by decide))
    split at h
    · rename_i found
      cases h
      exact ⟨ascii, taken_drop (prefixedName?_begins found) nofun⟩
    · rename_i unprefixed
      cases h
      exact ⟨ascii, word_taken alpha unprefixed⟩
  · split at h
    · rename_i symbol found
      cases h
      exact symbol_taken found
    · cases h

theorem skipBlanks_suffix (comment : Bool) (s : Text) : skipBlanks comment s <:+ s := by
  fun_induction skipBlanks comment s with
  | case1 => exact List.suffix_refl _
  | case2 c rest ih => exact ih.trans (List.suffix_cons c rest)
  | case3 c rest _ ih => exact ih.trans (List.suffix_cons c rest)
  | case4 rest _ ih => exact ih.trans (List.suffix_cons _ rest)
  | case5 => exact List.suffix_refl _

theorem scanFrom_starts {total fuel : Nat} {s : Text} {tokens : List Token} (fits : s.length ≤ fuel)
    (h : scanFrom total fuel s = .ok tokens) : Starts s := by
  cases s with
  | nil => exact valid_nil.starts
  | cons c rest =>
    by_cases space : Ascii.isSpace c = true
    · exact starts_cons (space_ascii c space) rest
    by_cases mark : c = Text.byte '#'
    · exact starts_cons (by rw [mark]; decide) rest
    cases fuel with
    | zero => cases fits
    | succ fuel =>
      rw [scanFrom, skipBlanks, if_neg space, if_neg mark] at h
      simp only at h
      split at h
      · cases h
      · rename_i read
        exact starts_cons (lexeme?_taken read).1 rest

theorem string?_suffix {closing start : Text} (fuel : Nat) {s value last : Text}
    (h : string? closing start fuel s = .ok (value, last)) : last <:+ s := by
  induction fuel generalizing s value with
  | zero => cases s <;> cases h
  | succ fuel ih =>
    cases s with
    | nil => cases h
    | cons c rest =>
      rw [string?] at h
      split at h
      · split at h
        · cases h
        · rename_i bytes after escape
          obtain ⟨⟨value', last'⟩, read, same⟩ := Step.map_eq_ok h
          cases same
          obtain ⟨taken, split, -⟩ := (escape?_ok escape).taken
          exact (ih read).trans (((split ▸ List.suffix_append taken after)).trans (List.suffix_cons c rest))
      split at h
      · cases h
        exact List.drop_suffix _ _
      split at h
      · cases h
      · obtain ⟨⟨value', last'⟩, read, same⟩ := Step.map_eq_ok h
        cases same
        exact (ih read).trans (List.suffix_cons c rest)

theorem Taken.suffix {c : UInt8} {rest after : Text} {l : Lexeme} (h : Taken c rest l after) : after <:+ rest := by
  cases h with
  | string read =>
    refine (string?_suffix _ read).trans ?_
    split
    · exact List.drop_suffix 2 rest
    · exact List.suffix_rfl
  | between _ front back _ some_ same =>
    have longer : after.length ≤ rest.length := by
      have lengths := congrArg List.length same
      have least := List.length_pos_iff.2 some_
      simp only [List.length_cons, List.length_append] at lengths least
      omega
    have whole : after <:+ c :: rest := ⟨front ++ (l.text ++ back), by rw [same]; simp⟩
    rcases List.suffix_cons_iff.1 whole with rfl | inner
    · exact absurd longer (by simp)
    · exact inner

def Sound (text : Text) (t : Token) : Prop :=
  (∀ value, t.lexeme = .string value → (Valid value ↔ ∀ n ∈ t.escaped text, Encodes n)) ∧
    ((∀ value, t.lexeme ≠ .string value) → Valid t.lexeme.text)

theorem Sound.valid_iff {text : Text} {t : Token} (h : t.Sound text) :
    (∀ value, t.lexeme = .string value → Valid value) ↔ ∀ n ∈ t.escaped text, Encodes n := by
  by_cases string : ∃ value, t.lexeme = .string value
  · obtain ⟨value, same⟩ := string
    rw [← h.1 value same]
    exact ⟨fun all => all value same, fun valid _ same' => Lexeme.string.inj (same.symm.trans same') ▸ valid⟩
  · have none_ : t.escaped text = [] := by
      unfold escaped
      split
      · rename_i value same
        exact absurd ⟨value, same⟩ string
      · rfl
    rw [none_]
    exact iff_of_true (fun value same => absurd ⟨value, same⟩ string) (List.forall_mem_nil _)

theorem scanFrom_sound {text : Text} (fuel : Nat) {s : Text} {tokens : List Token} (part : s <:+ text)
    (fits : s.length ≤ fuel) (valid : Valid s) (h : scanFrom text.length fuel s = .ok tokens) :
    ∀ t ∈ tokens, Sound text t := by
  induction fuel generalizing s tokens with
  | zero =>
    cases h
    exact List.forall_mem_nil _
  | succ fuel ih =>
    rw [scanFrom] at h
    split at h
    · cases h
      exact List.forall_mem_nil _
    rename_i c rest found
    split at h
    · cases h
    rename_i l after read
    obtain ⟨others, scanned, rfl⟩ := Step.map_eq_ok h
    obtain ⟨ascii, taken⟩ := lexeme?_taken read
    have behind : c :: rest <:+ s := found ▸ skipBlanks_suffix false s
    have shorter : after.length ≤ fuel := by
      have length := taken.suffix.length_le
      have bound := behind.length_le
      simp only [List.length_cons] at bound
      omega
    have whole : Valid (c :: rest) := by
      obtain ⟨skipped, rfl⟩ := behind
      exact (valid.split (starts_cons ascii rest)).2
    have starts := scanFrom_starts shorter scanned
    have offset : text.drop (text.length - (rest.length + 1)) = c :: rest :=
      (List.suffix_iff_eq_drop.1 (behind.trans part)).symm
    have inside : after <:+ text := taken.suffix.trans ((List.suffix_cons c rest).trans (behind.trans part))
    cases taken with
    | @string value after read =>
      obtain ⟨cut, iff⟩ := quoted?_valid ascii whole read
      refine List.forall_mem_cons.2 ⟨⟨?_, fun other => absurd rfl (other value)⟩, ih inside shorter cut scanned⟩
      rintro _ ⟨⟩
      rw [escaped, offset]
      exact iff
    | between other front back small some_ same =>
      obtain ⟨smallFront, smallBack⟩ := List.forall_mem_append.1 small
      rw [same, valid_ascii_append_iff smallFront, ← List.append_assoc, valid_append_iff starts] at whole
      obtain ⟨own, cut⟩ := whole
      refine List.forall_mem_cons.2 ⟨⟨?_, fun _ => ?_⟩, ih inside shorter cut scanned⟩
      · exact fun value same => absurd same (other value)
      · exact (own.split (starts_of_ascii smallBack)).1

theorem scan_sound {text : Text} {tokens : List Token} (valid : Valid text) (h : scan text = .ok tokens) :
    ∀ t ∈ tokens, Sound text t :=
  scanFrom_sound text.length List.suffix_rfl (Nat.le_refl _) valid h

end QuadStore.Sparql.Token
