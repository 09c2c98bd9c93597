import QuadStore.Proofs.Digits
import QuadStore.Sparql.Token

namespace QuadStore.Sparql

/-- An IRI that can stand in brackets. -/
structure IriText where
  value : Text
  legal : ∀ c ∈ value, 0x20 < c ∧ c ≠ Text.byte '>' ∧ c ∉ Token.iriStops

/-- The label of a blank node: dots are not at its end. -/
structure LabelText where
  value : Text
  legal : ∀ c ∈ value, Token.isNamePart c = true ∨ c = Text.byte '.' ∨ c = Text.byte '-'
  ne_nil : value ≠ []
  last_ne : ∀ c ∈ value.getLast?, c ≠ Text.byte '.'

/-- A language tag: letters, and then any number of parts behind hyphens. -/
structure TagText where
  first : Text
  parts : List Text
  first_letters : ∀ c ∈ first, Ascii.isAlpha c = true
  first_ne_nil : first ≠ []
  parts_legal : ∀ part ∈ parts, part ≠ [] ∧ ∀ c ∈ part, Ascii.isAlnum c = true

namespace TagText

def tail (parts : List Text) : Text := parts.flatMap (Text.byte '-' :: ·)

def value (t : TagText) : Text := t.first ++ tail t.parts

end TagText

def escapeLetters : List (UInt8 × UInt8) :=
  [(Text.byte '"', Text.byte '"'), (Text.byte '\\', Text.byte '\\'), (9, Text.byte 't'),
   (10, Text.byte 'n'), (13, Text.byte 'r'), (8, Text.byte 'b'), (12, Text.byte 'f')]

def escaped (c : UInt8) : Text :=
  match escapeLetters.lookup c with
  | some letter => [Text.byte '\\', letter]
  | none => [c]

def quotedText (s : Text) : Text := Text.byte '"' :: (s.flatMap escaped ++ [Text.byte '"'])

def bracketedText (i : IriText) : Text := Text.byte '<' :: (i.value ++ [Text.byte '>'])

def labelledText (l : LabelText) : Text := "_:" ++ l.value

namespace Token

def Apart (rest : Text) : Prop := ∀ c ∈ rest.head?, c = Text.byte ' ' ∨ c = 10

theorem iri?_bracketed (i : IriText) (rest : Text) :
    iri? (i.value ++ Text.byte '>' :: rest) = some (i.value, rest) := by
  obtain ⟨value, legal⟩ := i
  induction value with
  | nil => rfl
  | cons c value ih =>
    obtain ⟨printable, close, stop⟩ := legal c List.mem_cons_self
    have free : (c ≤ 0x20 || iriStops.contains c) = false := by
      simpa [stop] using printable
    rw [List.cons_append, iri?, if_neg close, free, if_neg Bool.false_ne_true,
      ih fun d mem => legal d (List.mem_cons_of_mem _ mem)]
    rfl

theorem lexeme?_bracketed (i : IriText) (rest : Text) :
    lexeme? (Text.byte '<') (i.value ++ Text.byte '>' :: rest) = .ok (.iri i.value, rest) := by
  unfold lexeme?
  rw [if_pos rfl, iri?_bracketed]

theorem Apart.stops {test : UInt8 → Bool} {rest : Text} (apart : Apart rest) (space : test (Text.byte ' ') = false)
    (line : test 10 = false) : ∀ c ∈ rest.head?, test c = false := by
  intro c mem
  rcases apart c mem with rfl | rfl
  · exact space
  · exact line

theorem dropDots_of_last {s : Text} (last : ∀ c ∈ s.getLast?, c ≠ Text.byte '.') : dropDots s = s := by
  unfold dropDots
  cases h : s.reverse with
  | nil => simpa using h.symm
  | cons c more =>
    have same : s = (c :: more).reverse := by rw [← h, List.reverse_reverse]
    rw [List.dropWhile_cons_of_neg, ← same]
    have end_ : s.getLast? = some c := by simp [same]
    simpa using last c end_

theorem label_append (l : LabelText) {rest : Text} (apart : Apart rest) : label (l.value ++ rest) = l.value := by
  unfold label
  rw [Text.takeWhile_run _ (apart.stops rfl rfl)]
  · exact dropDots_of_last l.last_ne
  · intro c mem
    rcases l.legal c mem with part | rfl | rfl
    · simp [part]
    · rfl
    · rfl

theorem lexeme?_labelled (l : LabelText) {rest : Text} (apart : Apart rest) :
    lexeme? (Text.byte '_') (Text.byte ':' :: (l.value ++ rest)) = .ok (.blank l.value, rest) := by
  have name := label_append l apart
  simp [lexeme?, isPart, name, l.ne_nil, Text.byte, Nat.add_comm 1]

theorem escape?_letter {c letter : UInt8} (h : escapeLetters.lookup c = some letter) (rest : Text) :
    escape? (letter :: rest) = .ok ([c], rest) := by
  have all : (escapeLetters.all fun p => escapes.lookup p.2 = some p.1) = true := by decide
  obtain ⟨before, after, split, -⟩ := List.lookup_eq_some_iff.1 h
  have back : escapes.lookup letter = some c := by
    have mem : (c, letter) ∈ escapeLetters := by
      rw [split]
      simp
    simpa using List.all_eq_true.1 all (c, letter) mem
  simp only [escape?, back]

theorem plain_of_lookup {c : UInt8} (h : escapeLetters.lookup c = none) :
    c ≠ Text.byte '"' ∧ c ≠ Text.byte '\\' ∧ c ≠ 10 ∧ c ≠ 13 := by
  refine ⟨?_, ?_, ?_, ?_⟩ <;>
  · rintro rfl
    exact absurd h (by decide)

theorem isPrefixOf_quote (c : UInt8) (rest : Text) :
    ("\"" : Text).isPrefixOf (c :: rest) = true ↔ c = Text.byte '"' := by
  change (Text.byte '"' == c && true) = true ↔ _
  rw [Bool.and_true, beq_iff_eq, eq_comm]

theorem string?_escaped (start value rest : Text) (fuel : Nat)
    (enough : (value.flatMap escaped ++ Text.byte '"' :: rest).length ≤ fuel) :
    string? "\"" start fuel (value.flatMap escaped ++ Text.byte '"' :: rest) = .ok (value, rest) := by
  induction value generalizing fuel with
  | nil =>
    cases fuel with
    | zero => simp at enough
    | succ fuel => rfl
  | cons c value ih =>
    rw [List.flatMap_cons, List.append_assoc] at enough ⊢
    cases fuel with
    | zero => simp at enough
    | succ fuel =>
      cases letter : escapeLetters.lookup c with
      | some d =>
        simp only [escaped, letter, List.cons_append, List.nil_append] at enough ⊢
        rw [string?, if_pos rfl, escape?_letter letter]
        dsimp only
        rw [ih fuel (by simp at enough ⊢; omega)]
        rfl
      | none =>
        obtain ⟨quote, backslash, line, carriage⟩ := plain_of_lookup letter
        simp only [escaped, letter, List.cons_append, List.nil_append] at enough ⊢
        have unclosed : ¬ ("\"" : Text).isPrefixOf (c :: (value.flatMap escaped ++ Text.byte '"' :: rest)) = true := by
          rw [isPrefixOf_quote]
          exact quote
        rw [string?, if_neg backslash, if_neg unclosed, if_neg (by simp [line, carriage]),
          ih fuel (by simp at enough ⊢; omega)]
        rfl

theorem quoted?_escaped (value : Text) {rest : Text} (next : ∀ c ∈ rest.head?, c ≠ Text.byte '"') :
    quoted? (Text.byte '"') (Text.byte '"' :: (value.flatMap escaped ++ Text.byte '"' :: rest)) =
      .ok (value, rest) := by
  have short : ¬ [Text.byte '"', Text.byte '"', Text.byte '"'].isPrefixOf
      (Text.byte '"' :: (value.flatMap escaped ++ Text.byte '"' :: rest)) = true := by
    cases value with
    | nil =>
      cases rest with
      | nil => decide
      | cons c rest => simpa using (next c rfl).symm
    | cons c value =>
      cases letter : escapeLetters.lookup c with
      | some d => simp [escaped, letter, Text.byte]
      | none => simpa [escaped, letter] using fun same => absurd same.symm (plain_of_lookup letter).1
  unfold quoted?
  dsimp only
  rw [if_neg short]
  refine string?_escaped _ value rest _ ?_
  simp

theorem lexeme?_quoted (value : Text) {rest : Text} (next : ∀ c ∈ rest.head?, c ≠ Text.byte '"') :
    lexeme? (Text.byte '"') (value.flatMap escaped ++ Text.byte '"' :: rest) = .ok (.string value, rest) := by
  unfold lexeme?
  rw [if_neg (by decide)]
  dsimp only
  rw [if_neg (by simp [Text.byte]), if_pos (by decide), quoted?_escaped value next]
  rfl

theorem tagParts_tail (parts : List Text)
    (legal : ∀ part ∈ parts, part ≠ [] ∧ ∀ c ∈ part, Ascii.isAlnum c = true)
    {rest : Text} (apart : Apart rest) (fuel : Nat) (enough : parts.length < fuel) :
    tagParts fuel (TagText.tail parts ++ rest) = TagText.tail parts := by
  induction parts generalizing fuel with
  | nil =>
    cases fuel with
    | zero => rfl
    | succ fuel =>
      cases rest with
      | nil => rfl
      | cons c rest =>
        rcases apart c rfl with rfl | rfl <;> rfl
  | cons part parts ih =>
    cases fuel with
    | zero => cases enough
    | succ fuel =>
      obtain ⟨some_, letters⟩ := legal part List.mem_cons_self
      have stop : ∀ c ∈ (TagText.tail parts ++ rest).head?, Ascii.isAlnum c = false := by
        cases parts with
        | nil => exact apart.stops rfl rfl
        | cons next parts =>
          rintro c ⟨⟩
          rfl
      have split : TagText.tail (part :: parts) ++ rest = Text.byte '-' :: (part ++ (TagText.tail parts ++ rest)) := by
        simp [TagText.tail]
      rw [split, tagParts, Text.takeWhile_run letters stop, Text.dropWhile_run letters stop,
        ih (fun p mem => legal p (List.mem_cons_of_mem _ mem)) fuel (by simp at enough; omega)]
      simp [some_, TagText.tail]

theorem tag_value (t : TagText) {rest : Text} (apart : Apart rest) : tag (t.value ++ rest) = t.value := by
  have stop : ∀ c ∈ (TagText.tail t.parts ++ rest).head?, Ascii.isAlpha c = false := by
    cases t.parts with
    | nil => exact apart.stops rfl rfl
    | cons next parts =>
      rintro c ⟨⟩
      rfl
  have length : t.parts.length ≤ (TagText.tail t.parts).length := by
    induction t.parts with
    | nil => simp
    | cons part parts ih => simp [TagText.tail] at ih ⊢; omega
  have pos := List.length_pos_iff.2 t.first_ne_nil
  unfold tag TagText.value
  dsimp only
  rw [List.append_assoc, Text.takeWhile_run t.first_letters stop, Text.dropWhile_run t.first_letters stop,
    if_neg t.first_ne_nil, tagParts_tail _ t.parts_legal apart]
  simp
  omega

theorem lexeme?_tag (t : TagText) {rest : Text} (apart : Apart rest) :
    lexeme? (Text.byte '@') (t.value ++ rest) = .ok (.tag t.value, rest) := by
  have ne : t.value ≠ [] := by simp [TagText.value, t.first_ne_nil]
  simp [lexeme?, Text.byte, tag_value t apart, ne]

/-- Whatever text follows that may follow, a text is read as some lexemes, and reading goes on with
what follows. -/
def Spells (s : Text) (lexemes : List Lexeme) (next : Text → Prop) : Prop :=
  ∀ rest, next rest → ∀ total fuel, (s ++ rest).length ≤ fuel →
    ∃ tokens left, tokens.map (·.lexeme) = lexemes ∧ rest.length ≤ left ∧
      scanFrom total fuel (s ++ rest) = (scanFrom total left rest).map (tokens ++ ·)

variable {s s' : Text} {lexemes lexemes' : List Lexeme} {next next' : Text → Prop}

theorem Spells.weaken (h : Spells s lexemes next) (stronger : ∀ rest, next' rest → next rest) :
    Spells s lexemes next' := fun rest may => h rest (stronger rest may)

theorem spells_nil : Spells [] [] next := by
  intro rest _ total fuel enough
  refine ⟨[], fuel, rfl, enough, ?_⟩
  rw [List.nil_append]
  cases scanFrom total fuel rest <;> rfl

theorem Spells.append (h : Spells s lexemes next) (h' : Spells s' lexemes' next')
    (joins : ∀ rest, next' rest → next (s' ++ rest)) : Spells (s ++ s') (lexemes ++ lexemes') next' := by
  intro rest may total fuel enough
  rw [List.append_assoc] at enough ⊢
  obtain ⟨tokens, left, made, enough, first⟩ := h (s' ++ rest) (joins rest may) total fuel enough
  obtain ⟨tokens', left', made', enough, second⟩ := h' rest may total left enough
  refine ⟨tokens ++ tokens', left', by rw [List.map_append, made, made'], enough, ?_⟩
  rw [first, second]
  cases scanFrom total left' rest with
  | error e => rfl
  | ok more => exact congrArg Except.ok (List.append_assoc ..).symm

theorem spells_one {c : UInt8} {lexeme : Lexeme} (shown : Ascii.isSpace c = false ∧ c ≠ Text.byte '#')
    (read : ∀ rest, next rest → lexeme? c (s ++ rest) = .ok (lexeme, rest)) : Spells (c :: s) [lexeme] next := by
  intro rest may total fuel enough
  cases fuel with
  | zero => simp at enough
  | succ fuel =>
    refine ⟨[⟨lexeme, total - ((s ++ rest).length + 1)⟩], fuel, rfl, by simp at enough; omega, ?_⟩
    have start : skipBlanks false (c :: (s ++ rest)) = c :: (s ++ rest) := by
      rw [skipBlanks, shown.1, if_neg Bool.false_ne_true, if_neg shown.2]
    rw [List.cons_append, scanFrom, start]
    dsimp only
    rw [read rest may]
    rfl

theorem spells_blank {c : UInt8} (space : Ascii.isSpace c = true) : Spells [c] [] next := by
  intro rest _ total fuel enough
  cases fuel with
  | zero => simp at enough
  | succ fuel =>
    have skipped : scanFrom total (fuel + 1) ([c] ++ rest) = scanFrom total (fuel + 1) rest := by
      rw [scanFrom, scanFrom, List.singleton_append, skipBlanks, space, if_pos rfl]
    refine ⟨[], fuel + 1, rfl, by simp at enough; omega, ?_⟩
    rw [skipped]
    cases scanFrom total (fuel + 1) rest <;> rfl

theorem Spells.scan (h : Spells s lexemes next) (may : next []) :
    ∃ tokens, tokens.map (·.lexeme) = lexemes ∧ Token.scan s = .ok tokens := by
  obtain ⟨tokens, left, made, -, read⟩ := h [] may s.length s.length (by simp)
  rw [List.append_nil] at read
  have none_ : scanFrom s.length left [] = .ok [] := by
    cases left <;> rfl
  refine ⟨tokens, made, ?_⟩
  rw [Token.scan, read, none_]
  exact congrArg Except.ok (List.append_nil tokens)

theorem spells_bracketed (i : IriText) : Spells (bracketedText i) [.iri i.value] fun _ => True := by
  refine spells_one (by decide) fun rest _ => ?_
  rw [List.append_assoc, List.singleton_append]
  exact lexeme?_bracketed i rest

theorem spells_labelled (l : LabelText) : Spells (labelledText l) [.blank l.value] Apart :=
  spells_one (by decide) fun _ apart => lexeme?_labelled l apart

theorem spells_quoted (value : Text) :
    Spells (quotedText value) [.string value] fun rest => ∀ c ∈ rest.head?, c ≠ Text.byte '"' := by
  refine spells_one (by decide) fun rest next => ?_
  rw [List.append_assoc, List.singleton_append]
  exact lexeme?_quoted value next

theorem spells_tag (t : TagText) : Spells (Text.byte '@' :: t.value) [.tag t.value] Apart :=
  spells_one (by decide) fun _ apart => lexeme?_tag t apart

theorem spells_carets : Spells "^^" [.symbol .carets] fun _ => True :=
  spells_one (by decide) fun _ _ => rfl

end Token

end QuadStore.Sparql
