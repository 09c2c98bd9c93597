import QuadStore.Proofs.Digits
import QuadStore.Store.Payload

namespace QuadStore

namespace Text

def sign (negative : Bool) : Text := if negative then "-" else ""

end Text

structure Numeral where
  whole : Text
  fraction : Text
  exponent : Option (Bool × Text)
  whole_ne : whole ≠ []
  whole_digits : ∀ c ∈ whole, Ascii.isDigit c = true
  unpadded : whole.head? = some (Text.byte '0') → whole.length = 1
  fraction_digits : ∀ c ∈ fraction, Ascii.isDigit c = true
  exponent_digits : ∀ e ∈ exponent, e.2 ≠ [] ∧ ∀ c ∈ e.2, Ascii.isDigit c = true

def Numeral.Ends (rest : Text) : Prop :=
  ∀ c ∈ rest.head?, Ascii.isDigit c = false ∧ c ≠ Text.byte '.' ∧ Ascii.toLower c ≠ Text.byte 'e'

namespace Numeral

variable (n : Numeral)

def fractionText : Text := if n.fraction = [] then [] else Text.byte '.' :: n.fraction

def exponentText : Text :=
  match n.exponent with
  | none => []
  | some (negative, digits) => Text.byte 'e' :: Text.byte (if negative then '-' else '+') :: digits

def text : Text := n.whole ++ n.fractionText ++ n.exponentText

def power : Int :=
  match n.exponent with
  | none => 0
  | some (negative, digits) => if negative then -(Text.toNat 10 digits : Int) else Text.toNat 10 digits

def decimal : Decimal := ⟨Text.toNat 10 (n.whole ++ n.fraction), n.power - n.fraction.length⟩

theorem ends_nil : Ends [] := by
  intro c mem
  cases mem

theorem whole_cons : ∃ c rest, n.whole = c :: rest ∧ Ascii.isDigit c = true := by
  obtain ⟨c, rest, cons⟩ := List.exists_cons_of_ne_nil n.whole_ne
  exact ⟨c, rest, cons, n.whole_digits c (cons ▸ List.mem_cons_self)⟩

theorem digits?_append {digits rest : Text} (ne : digits ≠ [])
    (all : ∀ c ∈ digits, Ascii.isDigit c = true) (stop : ∀ c ∈ rest.head?, Ascii.isDigit c = false) :
    Payload.digits? (digits ++ rest) = some (digits, rest) := by
  unfold Payload.digits?
  dsimp only
  rw [Text.takeWhile_run all stop, Text.dropWhile_run all stop, if_neg ne]

theorem whole?_append {rest : Text} (stop : ∀ c ∈ rest.head?, Ascii.isDigit c = false) :
    Payload.whole? (n.whole ++ rest) = some (n.whole, rest) := by
  unfold Payload.whole?
  rw [digits?_append n.whole_ne n.whole_digits stop]
  simp only [Option.bind_eq_bind, Option.bind_some]
  rw [if_neg]
  · rfl
  · rintro ⟨zero, length⟩
    exact length (n.unpadded zero)

theorem fraction?_append {rest : Text}
    (stop : ∀ c ∈ rest.head?, Ascii.isDigit c = false ∧ c ≠ Text.byte '.') :
    Payload.fraction? (n.fractionText ++ rest) = some (n.fractionText, rest) := by
  unfold fractionText
  split
  · rw [List.nil_append]
    unfold Payload.fraction?
    cases rest with
    | nil => rfl
    | cons c rest => exact if_neg (stop c rfl).2
  · rename_i some_
    have read := digits?_append some_ n.fraction_digits fun c mem => (stop c mem).1
    simp only [List.cons_append, Payload.fraction?, if_true, read, Option.map_some]

theorem exponent?_append {rest : Text} (stop : Ends rest) :
    Payload.exponent? (n.exponentText ++ rest) = some (n.exponentText, rest) := by
  unfold exponentText
  cases he : n.exponent with
  | none =>
    unfold Payload.exponent?
    cases rest with
    | nil => rfl
    | cons c rest => exact if_neg (stop c rfl).2.2
  | some e =>
    obtain ⟨negative, digits⟩ := e
    obtain ⟨some_, all⟩ := n.exponent_digits _ he
    have read := digits?_append some_ all fun c mem => (stop c mem).1
    have mark : Ascii.toLower (Text.byte 'e') = Text.byte 'e' := rfl
    have signed : Text.byte (if negative then '-' else '+') = Text.byte '+' ∨
        Text.byte (if negative then '-' else '+') = Text.byte '-' := by
      cases negative
      · exact .inl rfl
      · exact .inr rfl
    simp only [List.cons_append, Payload.exponent?, mark, if_true, if_pos signed, read, Option.map_some]
    rfl

theorem exponentText_head (c : UInt8) (mem : c ∈ n.exponentText.head?) : c = Text.byte 'e' := by
  unfold exponentText at mem
  cases he : n.exponent with
  | none =>
    rw [he] at mem
    cases mem
  | some e =>
    rw [he] at mem
    cases mem
    rfl

theorem fractionText_head (c : UInt8) (mem : c ∈ n.fractionText.head?) : c = Text.byte '.' := by
  unfold fractionText at mem
  split at mem
  · cases mem
  · cases mem
    rfl

theorem exponent_stops {rest : Text} (stop : Ends rest) :
    ∀ c ∈ (n.exponentText ++ rest).head?, Ascii.isDigit c = false ∧ c ≠ Text.byte '.' := by
  intro c mem
  cases he : n.exponentText with
  | nil =>
    rw [he] at mem
    exact ⟨(stop c mem).1, (stop c mem).2.1⟩
  | cons d more =>
    have head := n.exponentText_head d (by rw [he]; rfl)
    rw [he] at mem
    cases mem
    subst head
    decide

theorem fraction_stops {rest : Text} (stop : Ends rest) :
    ∀ c ∈ (n.fractionText ++ (n.exponentText ++ rest)).head?, Ascii.isDigit c = false := by
  intro c mem
  cases hf : n.fractionText with
  | nil =>
    rw [hf] at mem
    exact (n.exponent_stops stop c mem).1
  | cons d more =>
    have head := n.fractionText_head d (by rw [hf]; rfl)
    rw [hf] at mem
    cases mem
    subst head
    decide

def Part (c : UInt8) : Prop := Ascii.isDigit c = true ∨ c ∈ (".e+-" : Text)

theorem part_of_mem_text {c : UInt8} (mem : c ∈ n.text) : Part c := by
  rcases List.mem_append.1 mem with mem | mem
  · rcases List.mem_append.1 mem with mem | mem
    · exact .inl (n.whole_digits c mem)
    · unfold fractionText at mem
      split at mem
      · cases mem
      · rcases List.mem_cons.1 mem with rfl | mem
        · exact .inr (by decide)
        · exact .inl (n.fraction_digits c mem)
  · unfold exponentText at mem
    cases he : n.exponent with
    | none =>
      rw [he] at mem
      cases mem
    | some e =>
      rw [he] at mem
      rcases List.mem_cons.1 mem with rfl | mem
      · exact .inr (by decide)
      · rcases List.mem_cons.1 mem with rfl | mem
        · exact .inr (by cases e.1 <;> decide)
        · exact .inl ((n.exponent_digits e he).2 c mem)

theorem toLower_digit {c : UInt8} (h : Ascii.isDigit c = true) : Ascii.toLower c = c := by
  unfold Ascii.toLower
  rw [if_neg]
  simp only [Ascii.isDigit, Ascii.isUpper, Bool.and_eq_true, decide_eq_true_eq, UInt8.le_iff_toNat_le] at h ⊢
  have high : c.toNat ≤ 57 := h.2
  rintro ⟨low, -⟩
  have low : 65 ≤ c.toNat := low
  omega

theorem toLower_part {c : UInt8} (h : Part c) :
    Ascii.isDigit (Ascii.toLower c) = true ∨ Ascii.toLower c ∈ (".e+-" : Text) := by
  rcases h with digit | mark
  · rw [toLower_digit digit]
    exact .inl digit
  · have all : (".e+-" : Text).all (fun c => (".e+-" : Text).contains (Ascii.toLower c)) = true := by decide
    exact .inr (List.contains_iff_mem.1 (List.all_eq_true.1 all c mark))

theorem afterWord?_text {word : Text} (letter : UInt8) (mem : letter ∈ word)
    (digit : Ascii.isDigit letter = false) (mark : letter ∉ (".e+-" : Text)) :
    Binary.Reading.afterWord? word n.text = none := by
  unfold Binary.Reading.afterWord?
  rw [if_neg]
  intro same
  rw [← same] at mem
  obtain ⟨c, inside, rfl⟩ := List.mem_map.1 mem
  rcases toLower_part (n.part_of_mem_text (List.mem_of_mem_take inside)) with isDigit | isMark
  · rw [digit] at isDigit
    cases isDigit
  · exact mark isMark

theorem significand?_append {rest : Text}
    (stop : ∀ c ∈ rest.head?, Ascii.isDigit c = false ∧ c ≠ Text.byte '.') :
    Binary.Reading.significand? Ascii.isDigit (n.whole ++ (n.fractionText ++ rest)) =
      some (n.whole, n.fraction, rest) := by
  unfold Binary.Reading.significand? fractionText
  split
  · rename_i none
    rw [List.nil_append]
    have take := Text.takeWhile_run n.whole_digits fun c mem => (stop c mem).1
    have drop := Text.dropWhile_run n.whole_digits fun c mem => (stop c mem).1
    rw [none]
    simp only [take, drop]
    cases rest with
    | nil => simp [n.whole_ne]
    | cons c rest => simp [n.whole_ne, (stop c rfl).2]
  · have pointStops : ∀ c ∈ (Text.byte '.' :: n.fraction ++ rest).head?, Ascii.isDigit c = false := by
      intro c mem
      cases mem
      rfl
    have take := Text.takeWhile_run n.whole_digits pointStops
    have drop := Text.dropWhile_run n.whole_digits pointStops
    have after := Text.takeWhile_run n.fraction_digits fun c mem => (stop c mem).1
    have left := Text.dropWhile_run n.fraction_digits fun c mem => (stop c mem).1
    simp only [take, drop]
    simp only [List.cons_append, if_true, after, left]
    simp [n.whole_ne]

theorem exponent_text : Binary.Reading.exponent (Text.byte 'e') n.exponentText = (n.power, []) := by
  unfold exponentText power
  cases he : n.exponent with
  | none => rfl
  | some e =>
    obtain ⟨negative, digits⟩ := e
    obtain ⟨some_, all⟩ := n.exponent_digits _ he
    have stop : ∀ c ∈ ([] : Text).head?, Ascii.isDigit c = false := fun c mem => (ends_nil c mem).1
    have take := Text.takeWhile_run all stop
    have drop := Text.dropWhile_run all stop
    rw [List.append_nil] at take drop
    have signed : Binary.Reading.signed (Text.byte (if negative then '-' else '+') :: digits) =
        (negative, digits) := by
      cases negative <;> rfl
    have mark : Ascii.toLower (Text.byte 'e') = Text.byte 'e' := rfl
    simp only [Binary.Reading.exponent, mark, if_true, signed, take, drop, if_neg some_]

theorem decimal?_text (negative : Bool) : Binary.Reading.decimal? negative n.text =
    some (Binary.ofScaled negative 10 n.decimal.digits n.decimal.exponent, []) := by
  have stops := n.exponent_stops ends_nil
  rw [List.append_nil] at stops
  have significand := n.significand?_append stops
  unfold Binary.Reading.decimal?
  rw [text, List.append_assoc, significand]
  simp only [Option.bind_eq_bind, Option.bind_some, n.exponent_text]
  rfl

theorem signed_text (negative : Bool) :
    Binary.Reading.signed ((Text.sign negative ++ n.text).dropWhile Ascii.isSpace) = (negative, n.text) := by
  cases negative with
  | true => rfl
  | false =>
    obtain ⟨c, rest, cons, digit⟩ := n.whole_cons
    have head : n.text = c :: (rest ++ n.fractionText ++ n.exponentText) := by
      rw [text, cons]
      rfl
    have space : Ascii.isSpace c = false := by
      simp only [Ascii.isDigit, Bool.and_eq_true, decide_eq_true_eq, UInt8.le_iff_toNat_le] at digit
      have low : 48 ≤ c.toNat := digit.1
      simp only [Ascii.isSpace, Bool.or_eq_false_iff, Bool.and_eq_false_iff, decide_eq_false_iff_not,
        UInt8.le_iff_toNat_le, ← UInt8.toNat_inj]
      have blank : (32 : UInt8).toNat = 32 := rfl
      have high : (13 : UInt8).toNat = 13 := rfl
      omega
    have minus : c ≠ Text.byte '-' := by
      rintro rfl
      cases digit
    have plus : c ≠ Text.byte '+' := by
      rintro rfl
      cases digit
    have none : Text.sign false = [] := rfl
    rw [none, List.nil_append, head, List.dropWhile_cons_of_neg (by simp [space])]
    simp only [Binary.Reading.signed, if_neg minus, if_neg plus]

theorem ofText_text (negative : Bool) : Binary.ofText (Text.sign negative ++ n.text) =
    Binary.ofScaled negative 10 n.decimal.digits n.decimal.exponent := by
  have whole : (Text.sign negative ++ n.text).upToNul = Text.sign negative ++ n.text := by
    rw [Text.upToNul, List.takeWhile_eq_self_iff]
    intro c mem
    rcases List.mem_append.1 mem with mem | mem
    · cases negative with
      | false => cases mem
      | true =>
        rw [List.mem_singleton.1 mem]
        decide
    · rcases n.part_of_mem_text mem with digit | mark
      · apply decide_eq_true
        rintro rfl
        cases digit
      · have all : (".e+-" : Text).all (fun c => decide (c ≠ 0)) = true := by decide
        exact List.all_eq_true.1 all c mark
  have infinity : Binary.Reading.infinity? negative n.text = none := by
    unfold Binary.Reading.infinity?
    rw [n.afterWord?_text (Text.byte 'i') (by decide) (by decide) (by decide),
      n.afterWord?_text (Text.byte 'i') (by decide) (by decide) (by decide)]
    rfl
  have nan : Binary.Reading.nan? n.text = none := by
    unfold Binary.Reading.nan?
    rw [n.afterWord?_text (Text.byte 'n') (by decide) (by decide) (by decide)]
    rfl
  have hexadecimal : Binary.Reading.hexadecimal? negative n.text = none := by
    unfold Binary.Reading.hexadecimal?
    rw [n.afterWord?_text (Text.byte 'x') (by decide) (by decide) (by decide)]
    rfl
  -- None of the words is at the front of a number, so the decimal notation is the one that is read.
  unfold Binary.ofText Binary.read?
  rw [whole, n.signed_text]
  dsimp only
  rw [infinity, nan, hexadecimal, n.decimal?_text]
  rfl

theorem number?_text (negative : Bool) {rest : Text} (stop : Ends rest)
    {x : Double} (value : Binary.ofScaled negative 10 n.decimal.digits n.decimal.exponent = x)
    (finite : x.isFinite = true) :
    Payload.number? (Text.sign negative ++ n.text ++ rest) = some (x.convert, rest) := by
  have whole := n.whole?_append (n.fraction_stops stop)
  have fraction := n.fraction?_append (n.exponent_stops stop)
  have exponent := n.exponent?_append stop
  have read := n.ofText_text negative
  have parts : n.text ++ rest = n.whole ++ (n.fractionText ++ (n.exponentText ++ rest)) := by
    rw [text, List.append_assoc, List.append_assoc]
  rw [value, text, ← List.append_assoc, ← List.append_assoc] at read
  rw [List.append_assoc, parts]
  unfold Payload.number?
  cases negative with
  | true =>
    have minus : Text.sign true = [Text.byte '-'] := rfl
    rw [minus] at read ⊢
    simp only [List.cons_append, List.nil_append] at read ⊢
    simp only [if_true, Option.bind_eq_bind, whole, Option.bind_some, fraction, exponent,
      List.cons_append, List.nil_append, read, finite]
    rfl
  | false =>
    obtain ⟨c, after, cons, digit⟩ := n.whole_cons
    have minus : c ≠ Text.byte '-' := by
      rintro rfl
      cases digit
    have none : Text.sign false = [] := rfl
    rw [none, List.nil_append] at read
    rw [none, List.nil_append]
    rw [cons] at whole read ⊢
    rw [List.cons_append] at whole ⊢
    simp only [if_neg minus, Option.bind_eq_bind, whole, Option.bind_some, fraction, exponent,
      List.nil_append, read, finite, if_true]
    rfl

end Numeral

end QuadStore
