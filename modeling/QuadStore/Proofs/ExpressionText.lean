import QuadStore.Proofs.WrittenDocument

namespace QuadStore

open Sparql

namespace Term

def spelled : Term → Text
  | iri value => Text.byte '<' :: (value ++ ">")
  | var name => Text.byte '?' :: name
  | literal lexical .plain => quotedText lexical
  | literal lexical (.language tag) => quotedText lexical ++ Text.byte '@' :: tag
  | literal lexical (.datatype d) => quotedText lexical ++ ("^^" ++ Text.byte '<' :: (d ++ ">"))
  | blank label => "_:" ++ label
  | defaultGraph => []

def lexemes : Term → List Lexeme
  | iri value => [.iri value]
  | var name => [.var name]
  | literal lexical .plain => [.string lexical]
  | literal lexical (.language tag) => [.string lexical, .tag tag]
  | literal lexical (.datatype d) => [.string lexical, .symbol .carets, .iri d]
  | blank label => [.blank label]
  | defaultGraph => []

/-- A variable, an IRI or a literal that can be written. -/
inductive Printable : Term → Prop
  | var {name : Text} (legal : ∀ c ∈ name, Token.isNamePart c = true) (ne_nil : name ≠ []) : (var name).Printable
  | iri (i : IriText) : (iri i.value).Printable
  | plain (lexical : Text) : (plain lexical).Printable
  | tagged (lexical : Text) (t : TagText) : (tagged lexical t.value).Printable
  | typed (lexical : Text) (i : IriText) : (typed lexical i.value).Printable

end Term

namespace Sparql

/-- A part of a printed expression, with spaces around it. -/
inductive Piece where
  | symbol (s : Symbol)
  | word (w : Text)
  | term (t : Term)

namespace Piece

def text : Piece → Text
  | symbol s => s.text
  | word w => w
  | term t => t.spelled

def lexemes : Piece → List Lexeme
  | symbol s => [.symbol s]
  | word w => [.word w]
  | term t => t.lexemes

def enclosed (needed : Bool) (parts : List Piece) : List Piece :=
  if needed then symbol .openParen :: (parts ++ [symbol .closeParen]) else parts

end Piece

def Operator.level : Operator → Nat
  | or => 0
  | and => 1
  | eq | ne | lt | gt | le | ge => 2
  | add | sub => 3
  | mul | div => 4

def Operator.leftLevel (op : Operator) : Nat := if op.level = 2 then 3 else op.level

namespace Expression

def level : Expression → Nat
  | binary op _ _ => op.level
  | member .. => 2
  | negation _ | opposite _ => 5
  | term _ | builtin .. | call .. | existence .. => 6

mutual

def pieces (least : Nat) : Expression → List Piece
  | term t => [.term t]
  | binary op left right =>
    Piece.enclosed (op.level < least)
      (left.pieces op.leftLevel ++ .symbol op.symbol :: right.pieces (op.level + 1))
  | negation e => Piece.enclosed (5 < least) (.symbol .bang :: e.pieces 6)
  | opposite e => Piece.enclosed (5 < least) (.symbol .minus :: e.pieces 6)
  | member negated e values =>
    Piece.enclosed (2 < least)
      (e.pieces 3 ++ (if negated then [.word "NOT", .word "IN"] else [.word "IN"]) ++
        .symbol .openParen :: (listed values ++ [.symbol .closeParen]))
  | builtin f arguments => .word f.name :: .symbol .openParen :: (listed arguments ++ [.symbol .closeParen])
  | call function arguments => .term function :: .symbol .openParen :: (listed arguments ++ [.symbol .closeParen])
  | existence .. => []

def listed : List Expression → List Piece
  | [] => []
  | e :: rest => e.pieces 0 ++ following rest

def following : List Expression → List Piece
  | [] => []
  | e :: rest => .symbol .comma :: (e.pieces 0 ++ following rest)

end

def text (e : Expression) : Text := Text.joined " " ((e.pieces 0).map Piece.text)

def lexemes (least : Nat) (e : Expression) : List Lexeme := (e.pieces least).flatMap Piece.lexemes

/-- An expression that can be printed: one that asks for no pattern, of terms that can be written. -/
inductive Printable : Expression → Prop
  | term {t : Term} (h : t.Printable) : (term t).Printable
  | binary (op : Operator) {left right : Expression} (hl : left.Printable) (hr : right.Printable) :
    (binary op left right).Printable
  | negation {e : Expression} (h : e.Printable) : (negation e).Printable
  | opposite {e : Expression} (h : e.Printable) : (opposite e).Printable
  | member (negated : Bool) {e : Expression} {values : List Expression} (h : e.Printable)
    (all : ∀ v ∈ values, v.Printable) : (member negated e values).Printable
  | builtin (f : Builtin) {arguments : List Expression} (all : ∀ a ∈ arguments, a.Printable) :
    (builtin f arguments).Printable
  | call (i : IriText) {arguments : List Expression} (all : ∀ a ∈ arguments, a.Printable) :
    (call (.iri i.value) arguments).Printable

end Expression

open Token

theorem spells_symbol (s : Symbol) : Spells s.text [.symbol s] Apart := by
  -- a space tells every symbol from a longer one, and `<` from the start of an IRI
  cases s <;>
  · refine spells_one (by decide) fun rest apart => ?_
    cases rest with
    | nil => rfl
    | cons c rest => rcases apart c rfl with rfl | rfl <;> rfl

def IsWord (w : Text) : Prop :=
  Token.isPart Ascii.isAlpha w = true ∧ ∀ c ∈ w, (Ascii.isAlnum c || c = Text.byte '_') = true

instance (w : Text) : Decidable (IsWord w) := inferInstanceAs (Decidable (_ ∧ _))

theorem Builtin.isWord_name (f : Builtin) : IsWord f.name := by
  cases f <;> decide +kernel

theorem ne_of_test {test : UInt8 → Bool} {c d : UInt8} (yes : test c = true) (no : test d = false) : c ≠ d := by
  rintro rfl
  rw [no] at yes
  cases yes

theorem le_of_isAlpha {c : UInt8} (letter : Ascii.isAlpha c = true) : 65 ≤ c.toNat := by
  simp only [Ascii.isAlpha, Ascii.isUpper, Ascii.isLower, Bool.or_eq_true, Bool.and_eq_true,
    decide_eq_true_eq, UInt8.le_iff_toNat_le] at letter
  change (65 ≤ c.toNat ∧ _) ∨ 97 ≤ c.toNat ∧ _ at letter
  omega

theorem isDigit_of_isAlpha {c : UInt8} (letter : Ascii.isAlpha c = true) : Ascii.isDigit c = false := by
  have low := le_of_isAlpha letter
  simp only [Ascii.isDigit, Bool.and_eq_false_iff, decide_eq_false_iff_not, UInt8.le_iff_toNat_le]
  right
  change ¬ c.toNat ≤ 57
  omega

theorem isSpace_of_isAlpha {c : UInt8} (letter : Ascii.isAlpha c = true) : Ascii.isSpace c = false := by
  have low := le_of_isAlpha letter
  have high : ¬ c ≤ 13 := by
    rw [UInt8.le_iff_toNat_le]
    change ¬ c.toNat ≤ 13
    omega
  simp [Ascii.isSpace, high, ne_of_test (d := 32) letter rfl]

theorem prefixedName?_word {w rest : Text} (isWord : IsWord w) (apart : Apart rest) :
    prefixedName? (w ++ rest) = none := by
  cases w with
  | nil => cases isWord.1
  | cons c w =>
    have letter : Ascii.isAlpha c = true := isWord.1
    have run : (c :: w ++ rest).takeWhile isPrefixPart = c :: w := by
      refine Text.takeWhile_run (fun d mem => ?_) (apart.stops rfl rfl)
      have part := isWord.2 d mem
      rw [isPrefixPart, part]
      rfl
    unfold prefixedName?
    rw [List.cons_append] at run ⊢
    dsimp only
    rw [if_pos letter, run, ← List.cons_append, List.drop_left]
    cases rest with
    | nil => rfl
    | cons d rest => rcases apart d rfl with rfl | rfl <;> rfl

theorem lexeme?_word {c : UInt8} {w rest : Text} (isWord : IsWord (c :: w)) (apart : Apart rest) :
    lexeme? c (w ++ rest) = .ok (.word (c :: w), rest) := by
  have letter : Ascii.isAlpha c = true := isWord.1
  have other : ∀ d, Ascii.isAlpha d = false → c ≠ d := fun d => ne_of_test letter
  have stop : ∀ c ∈ rest.head?, (Ascii.isAlnum c || c = Text.byte '_') = false := apart.stops rfl rfl
  have digit := isDigit_of_isAlpha letter
  have named := prefixedName?_word isWord apart
  have run := Text.takeWhile_run isWord.2 stop
  have left := Text.dropWhile_run isWord.2 stop
  rw [List.cons_append] at named run left
  unfold lexeme?
  rw [if_neg (other (Text.byte '<') rfl)]
  simp [other (Text.byte '?') rfl, other (Text.byte '$') rfl, other (Text.byte '"') rfl,
    other (Text.byte '\'') rfl, other (Text.byte '_') rfl, other (Text.byte '@') rfl,
    other (Text.byte '.') rfl, digit, letter, named] at run left ⊢
  exact ⟨run, left⟩

theorem spells_word {w : Text} (isWord : IsWord w) : Spells w [.word w] Apart := by
  cases w with
  | nil => cases isWord.1
  | cons c w =>
    have letter : Ascii.isAlpha c = true := isWord.1
    exact spells_one ⟨isSpace_of_isAlpha letter, ne_of_test letter rfl⟩ fun rest => lexeme?_word isWord

theorem spells_var {name : Text} (legal : ∀ c ∈ name, isNamePart c = true) (ne_nil : name ≠ []) :
    Spells (Text.byte '?' :: name) [.var name] Apart := by
  refine spells_one (by decide) fun rest apart => ?_
  have stop : ∀ c ∈ rest.head?, isNamePart c = false := apart.stops rfl rfl
  have begins : isPart isNamePart (name ++ rest) = true := by
    cases name with
    | nil => exact absurd rfl ne_nil
    | cons c name => exact legal c List.mem_cons_self
  unfold lexeme?
  rw [if_neg (by decide)]
  dsimp only
  rw [if_pos (by simpa using begins), Text.takeWhile_run legal stop, Text.dropWhile_run legal stop]

theorem TagText.value_ne_nil (t : TagText) : t.value ≠ [] := by
  simp [TagText.value, t.first_ne_nil]

theorem spells_term {t : Term} (h : t.Printable) : Spells t.spelled t.lexemes Apart := by
  cases h with
  | var legal ne_nil => exact spells_var legal ne_nil
  | iri i => exact (spells_bracketed i).weaken fun _ _ => trivial
  | plain lexical => exact (WrittenObject.plain lexical).spells
  | tagged lexical t =>
    rw [Term.tagged, if_neg t.value_ne_nil]
    exact (WrittenObject.tagged lexical t).spells
  | typed lexical i =>
    unfold Term.typed
    split
    · exact (WrittenObject.plain lexical).spells
    · exact (WrittenObject.typed lexical i).spells

namespace Piece

def Legal : Piece → Prop
  | symbol _ => True
  | word w => IsWord w
  | term t => t.Printable

theorem Legal.spells {p : Piece} (h : p.Legal) : Spells p.text p.lexemes Apart := by
  cases p with
  | symbol s => exact spells_symbol s
  | word w => exact spells_word h
  | term t => exact spells_term h

theorem spells_joined {ps : List Piece} (legal : ∀ p ∈ ps, p.Legal) :
    Spells (Text.joined " " (ps.map Piece.text)) (ps.flatMap Piece.lexemes) Apart := by
  induction ps with
  | nil => exact spells_nil
  | cons p ps ih =>
    have first := (legal p List.mem_cons_self).spells
    have others := ih fun q mem => legal q (List.mem_cons_of_mem _ mem)
    cases ps with
    | nil => simpa [Text.joined] using first
    | cons q ps =>
      have gap := spells_gap.append others fun _ _ => trivial
      exact first.append gap fun _ _ => apart_gap _

theorem legal_enclosed {needed : Bool} {ps : List Piece} (legal : ∀ p ∈ ps, p.Legal) :
    ∀ p ∈ enclosed needed ps, p.Legal := by
  cases needed with
  | false => exact legal
  | true =>
    have last : ∀ p ∈ ps ++ [symbol .closeParen], p.Legal :=
      List.forall_mem_append.2 ⟨legal, List.forall_mem_singleton.2 trivial⟩
    exact List.forall_mem_cons.2 ⟨trivial, last⟩

end Piece

namespace Expression

theorem legal_pieces {e : Expression} (h : e.Printable) : ∀ least, ∀ p ∈ e.pieces least, p.Legal := by
  have arguments : ∀ es : List Expression, (∀ e ∈ es, ∀ least, ∀ p ∈ e.pieces least, p.Legal) →
      (∀ p ∈ listed es, p.Legal) ∧ ∀ p ∈ following es, p.Legal := by
    intro es legal
    induction es with
    | nil => exact ⟨List.forall_mem_nil _, List.forall_mem_nil _⟩
    | cons e es ih =>
      obtain ⟨first, others⟩ := List.forall_mem_cons.1 legal
      have whole : ∀ p ∈ e.pieces 0 ++ following es, p.Legal :=
        List.forall_mem_append.2 ⟨first 0, (ih others).2⟩
      exact ⟨whole, List.forall_mem_cons.2 ⟨trivial, whole⟩⟩
  have enclosed : ∀ es : List Expression, (∀ e ∈ es, ∀ least, ∀ p ∈ e.pieces least, p.Legal) →
      ∀ p ∈ Piece.symbol .openParen :: (listed es ++ [.symbol .closeParen]), p.Legal := fun es legal =>
    List.forall_mem_cons.2 ⟨trivial, List.forall_mem_append.2
      ⟨(arguments es legal).1, List.forall_mem_singleton.2 trivial⟩⟩
  induction h with
  | term h => exact fun _ => List.forall_mem_singleton.2 h
  | binary op hl hr ihl ihr =>
    exact fun _ => Piece.legal_enclosed (List.forall_mem_append.2
      ⟨ihl _, List.forall_mem_cons.2 ⟨trivial, ihr _⟩⟩)
  | negation h ih => exact fun _ => Piece.legal_enclosed (List.forall_mem_cons.2 ⟨trivial, ih 6⟩)
  | opposite h ih => exact fun _ => Piece.legal_enclosed (List.forall_mem_cons.2 ⟨trivial, ih 6⟩)
  | member negated h all ih ihs =>
    intro least
    have words : ∀ p ∈ (if negated then [.word "NOT", .word "IN"] else [.word "IN"] : List Piece), p.Legal := by
      have in_ : IsWord "IN" := by decide +kernel
      have not_ : IsWord "NOT" := by decide +kernel
      cases negated with
      | false => exact List.forall_mem_singleton.2 in_
      | true => exact List.forall_mem_cons.2 ⟨not_, List.forall_mem_singleton.2 in_⟩
    exact Piece.legal_enclosed (List.forall_mem_append.2
      ⟨List.forall_mem_append.2 ⟨ih 3, words⟩, enclosed _ ihs⟩)
  | builtin f all ihs => exact fun _ => List.forall_mem_cons.2 ⟨f.isWord_name, enclosed _ ihs⟩
  | call i all ihs => exact fun _ => List.forall_mem_cons.2 ⟨.iri i, enclosed _ ihs⟩

/-- A printed expression is read as its lexemes. -/
theorem spells_text {e : Expression} (h : e.Printable) : Spells e.text (e.lexemes 0) Apart :=
  Piece.spells_joined (legal_pieces h 0)

end Expression

end Sparql

end QuadStore
