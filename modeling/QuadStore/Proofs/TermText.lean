import QuadStore.Proofs.Digits
import QuadStore.Term.Key

namespace QuadStore

namespace Text

theorem parts_append (separator : UInt8) (field rest : Text) (h : separator ∉ field) :
    parts separator (field ++ separator :: rest) = field :: parts separator rest := by
  induction field with
  | nil => simp [parts]
  | cons c field ih =>
    rw [List.cons_append, parts, if_neg (List.ne_of_not_mem_cons h).symm,
      ih (List.not_mem_of_not_mem_cons h)]

theorem parts_eq_cons (separator : UInt8) (s : Text) :
    ∃ more, parts separator s = s.takeWhile (· ≠ separator) :: more ∧ more.length = s.count separator := by
  induction s with
  | nil => exact ⟨[], rfl, rfl⟩
  | cons c s ih =>
    obtain ⟨more, eq, count⟩ := ih
    by_cases same : c = separator
    · refine ⟨parts separator s, by simp [parts, same], ?_⟩
      rw [eq, same, List.count_cons_self, List.length_cons, count]
    · refine ⟨more, by simp [parts, same, eq], ?_⟩
      rw [List.count_cons_of_ne same]
      exact count

theorem parts_single (separator : UInt8) (field : Text) (h : separator ∉ field) :
    parts separator field = [field] := by
  induction field with
  | nil => rfl
  | cons c field ih =>
    rw [parts, if_neg (List.ne_of_not_mem_cons h).symm, ih (List.not_mem_of_not_mem_cons h)]

end Text

namespace OrderKey

def isKeyByte (c : UInt8) : Bool := Ascii.isDigit c || c = Text.byte '.'

theorem isKeyByte_of_mem_assemble {sign exponent : Nat} {mantissa : Double} {c : UInt8}
    (mem : c ∈ assemble sign exponent mantissa) : isKeyByte c = true := by
  have digit : Ascii.isDigit c = true → isKeyByte c = true := fun h => by rw [isKeyByte, h, Bool.true_or]
  rcases List.mem_append.1 mem with mem | mem
  · rcases List.mem_append.1 mem with mem | mem
    · exact digit (Text.isDigit_of_mem_ofNat mem)
    · exact digit (Text.isDigit_of_mem_padded mem)
  · rcases List.mem_append.1 mem with mem | mem
    · rcases List.mem_append.1 mem with mem | mem
      · exact digit (Text.isDigit_of_mem_ofNat mem)
      · cases List.mem_singleton.1 mem
        rfl
    · exact digit (Text.isDigit_of_mem_padded mem)

theorem isKeyByte_of_mem_ofNonzero {negative : Bool} {magnitude : Double} {c : UInt8}
    (mem : c ∈ ofNonzero negative magnitude) : isKeyByte c = true := by
  unfold ofNonzero at mem
  split at mem
  · dsimp only at mem
    split at mem <;> exact isKeyByte_of_mem_assemble mem
  · dsimp only at mem
    split at mem <;> exact isKeyByte_of_mem_assemble mem

theorem isKeyByte_of_mem_ofDouble {x : Double} {c : UInt8} (mem : c ∈ ofDouble x) : isKeyByte c = true := by
  unfold ofDouble at mem
  split at mem
  · exact isKeyByte_of_mem_assemble mem
  · exact isKeyByte_of_mem_assemble mem
  · exact isKeyByte_of_mem_assemble mem
  · split at mem
    · exact isKeyByte_of_mem_assemble mem
    · exact isKeyByte_of_mem_ofNonzero mem

theorem isKeyByte_of_mem_ofTime {s : Text} {c : UInt8} (mem : c ∈ ofTime s) : isKeyByte c = true := by
  unfold ofTime at mem
  split at mem <;> exact isKeyByte_of_mem_ofDouble mem

theorem separator_not_mem_ofDouble (x : Double) : Term.separator ∉ ofDouble x := fun mem =>
  absurd (isKeyByte_of_mem_ofDouble mem) (by decide)

theorem separator_not_mem_ofTime (s : Text) : Term.separator ∉ ofTime s := fun mem =>
  absurd (isKeyByte_of_mem_ofTime mem) (by decide)

end OrderKey

namespace Xsd

theorem isNumeric_iff (d : Text) : isNumeric d = true ↔ d ∈ numericNames.map (base ++ ·) := by
  rw [isNumeric, List.contains_iff_mem]

theorem numeric_plain (d : Text) (h : isNumeric d = true) :
    Term.separator ∉ d ∧ d ≠ [] ∧ d ≠ string ∧ d ≠ dateTime ∧ d ≠ Rdf.langString := by
  have all : ∀ d ∈ numericNames.map (base ++ ·),
      Term.separator ∉ d ∧ d ≠ [] ∧ d ≠ string ∧ d ≠ dateTime ∧ d ≠ Rdf.langString := by
    decide +kernel
  exact all d ((isNumeric_iff d).1 h)

end Xsd

namespace Term

def quote : UInt8 := Text.byte '"'

def marks : List Text := ["?", "_:", "\"", numberMark, timeMark]

def Keyed (datatype : Text) : Prop := Xsd.isNumeric datatype = true ∨ datatype = Xsd.dateTime

inductive Storable : Term → Prop
  | defaultGraph : Storable .defaultGraph
  | blank (label : Text) : Storable (.blank label)
  | iri (value : Text) (nonempty : value ≠ []) (unmarked : ∀ mark ∈ marks, ¬ mark <+: value) :
      Storable (.iri value)
  | plain (lexical : Text) : Storable (plain lexical)
  | tagged (lexical tag : Text) (unquoted : quote ∉ tag) : Storable (tagged lexical tag)
  | typed (lexical datatype : Text) (unquoted : quote ∉ datatype)
      (whole : Keyed datatype → separator ∉ lexical) : Storable (typed lexical datatype)

theorem splitLastQuote_append (lexical suffix : Text) (h : quote ∉ suffix) :
    splitLastQuote? (lexical ++ quote :: suffix) = some (lexical, suffix) := by
  have tail : (lexical ++ quote :: suffix).reverse.takeWhile (· ≠ quote) = suffix.reverse := by
    rw [List.reverse_append, List.reverse_cons, List.append_assoc, List.singleton_append,
      List.takeWhile_append_of_pos]
    · simp
    · intro c mem
      rw [List.mem_reverse] at mem
      simp only [ne_eq, decide_not, Bool.not_eq_true', decide_eq_false_iff_not]
      rintro rfl
      exact h mem
  have short : suffix.length ≠ (lexical ++ quote :: suffix).length := by
    rw [List.length_append, List.length_cons]
    omega
  have before : (lexical ++ quote :: suffix).length - suffix.length - 1 = lexical.length := by
    rw [List.length_append, List.length_cons]
    omega
  unfold splitLastQuote?
  simp only [show Text.byte '"' = quote from rfl, tail, List.length_reverse, if_neg short,
    List.reverse_reverse, before, List.take_left]

theorem unbracketed_bracketed (s : Text) : unbracketed ("<" ++ s ++ ">") = s := by
  change unbracketed (Text.byte '<' :: (s ++ [Text.byte '>'])) = s
  simp [unbracketed]

theorem mem_of_mem_unbracketed {s : Text} {b : UInt8} (mem : b ∈ unbracketed s) : b ∈ s := by
  cases s with
  | nil => exact mem
  | cons c rest =>
    rw [unbracketed] at mem
    split at mem
    · exact List.mem_cons_of_mem c ((List.dropLast_sublist rest).subset mem)
    · exact mem

theorem decode_quoted (lexical suffix : Text) (t : Term)
    (h : decodeLiteral? (lexical ++ quote :: suffix) = some t) :
    decode (quote :: (lexical ++ quote :: suffix)) = t := by
  unfold decode
  simp only [show quote = Text.byte '"' from rfl] at h ⊢
  rw [if_pos trivial, h]
  rfl

def suffix : LiteralKind → Text
  | .plain => []
  | .language tag => Text.byte '@' :: tag
  | .datatype d => Text.byte '^' :: ("^<" ++ d ++ ">")

theorem display_literal (lexical : Text) (kind : LiteralKind) :
    (literal lexical kind).display = quote :: (lexical ++ quote :: suffix kind) := by
  cases kind with
  | plain => exact List.cons_append
  | language tag =>
    change quote :: lexical ++ [quote, Text.byte '@'] ++ tag = _
    simp [suffix]
  | datatype d =>
    have front : ("\"^^<" : Text) = quote :: Text.byte '^' :: ("^<" : Text) := by decide
    change quote :: lexical ++ ("\"^^<" : Text) ++ d ++ (">" : Text) = _
    rw [front]
    simp [suffix]

theorem decode_plain (lexical : Text) : decode (annotated lexical .plain) = plain lexical := by
  apply decode_quoted lexical []
  rw [decodeLiteral?, splitLastQuote_append lexical [] List.not_mem_nil]
  rfl

theorem decode_language (lexical tag : Text) (h : quote ∉ tag) :
    decode (annotated lexical (.language tag)) = tagged lexical tag := by
  have shape : annotated lexical (.language tag) = _ := display_literal lexical (.language tag)
  rw [shape]
  apply decode_quoted
  rw [decodeLiteral?, splitLastQuote_append]
  · rfl
  · exact List.not_mem_cons_of_ne_of_not_mem (by decide) h

theorem decode_datatype (lexical d : Text) (h : quote ∉ d) :
    decode (annotated lexical (.datatype d)) = typed lexical d := by
  have shape : annotated lexical (.datatype d) = quote :: (lexical ++ quote :: ("^^" ++ ("<" ++ d ++ ">"))) :=
    display_literal lexical (.datatype d)
  have unquoted : quote ∉ (("^^" : Text) ++ ("<" ++ d ++ ">")) := by
    simp only [List.mem_append, not_or]
    exact ⟨by decide, ⟨by decide, h⟩, by decide⟩
  rw [shape]
  apply decode_quoted
  rw [decodeLiteral?, splitLastQuote_append lexical _ unquoted]
  change some (typed lexical (unbracketed ("<" ++ d ++ ">"))) = _
  rw [unbracketed_bracketed]

theorem splitLastQuote_inv {s lexical suffix : Text} (h : splitLastQuote? s = some (lexical, suffix)) :
    s = lexical ++ quote :: suffix ∧ quote ∉ suffix := by
  have whole : s.reverse.takeWhile (· ≠ quote) ++ s.reverse.dropWhile (· ≠ quote) = s.reverse :=
    List.takeWhile_append_dropWhile
  have unquoted : quote ∉ (s.reverse.takeWhile (· ≠ quote)).reverse := by
    intro mem
    simpa using List.mem_takeWhile_imp (List.mem_reverse.1 mem)
  unfold splitLastQuote? at h
  simp only [show Text.byte '"' = quote from rfl] at h
  generalize hd : s.reverse.dropWhile (· ≠ quote) = before at whole
  generalize s.reverse.takeWhile (· ≠ quote) = tail at h whole unquoted
  cases before with
  | nil =>
    have long : tail.length = s.length := by simpa using congrArg List.length whole
    rw [if_pos long] at h
    cases h
  | cons c before =>
    have first : c = quote := by
      have head := List.head?_dropWhile_not (fun c => decide (c ≠ quote)) s.reverse
      rw [hd] at head
      simpa using head
    have split : s = before.reverse ++ quote :: tail.reverse := by
      rw [← s.reverse_reverse, ← whole, first]
      simp
    have length : s.length = before.length + 1 + tail.length := by
      rw [split, List.length_append, List.length_cons, List.length_reverse, List.length_reverse]
      omega
    rw [if_neg (by omega)] at h
    have taken : s.length - tail.length - 1 = before.reverse.length := by
      rw [List.length_reverse]
      omega
    rw [taken, split, List.take_left] at h
    cases h
    exact ⟨split, unquoted⟩

theorem decodeLiteral?_inv {rest : Text} {t : Term} (h : decodeLiteral? rest = some t) :
    ∃ lexical suffix, rest = lexical ++ quote :: suffix ∧ quote ∉ suffix ∧
      (suffix = [] ∧ t = plain lexical ∨
        (∃ tag, suffix = "@" ++ tag ∧ t = tagged lexical tag) ∨
        ∃ d, suffix = "^^" ++ d ∧ t = typed lexical (unbracketed d)) := by
  unfold decodeLiteral? at h
  obtain ⟨⟨lexical, suffix⟩, found, h⟩ := Option.bind_eq_some_iff.1 h
  obtain ⟨rest_eq, unquoted⟩ := splitLastQuote_inv found
  refine ⟨lexical, suffix, rest_eq, unquoted, ?_⟩
  dsimp only at h
  split at h
  · cases h
    exact .inl ⟨rfl, rfl⟩
  · rename_i c after
    split at h
    · rename_i at_
      cases h
      exact .inr (.inl ⟨after, by rw [at_]; rfl, rfl⟩)
    · split at h
      · rename_i carets
        cases h
        obtain ⟨d, eq⟩ := List.isPrefixOf_iff_prefix.1 carets
        refine .inr (.inr ⟨d, eq.symm, ?_⟩)
        rw [← eq]
        rfl
      · cases h

/-- The texts that are read as literals: a quote, and behind the last quote nothing, a language or a datatype. -/
def Quoted (s : Text) : Prop :=
  ∃ lexical suffix, s = quote :: (lexical ++ quote :: suffix) ∧ quote ∉ suffix ∧
    (suffix = [] ∨ ("@" : Text) <+: suffix ∨ ("^^" : Text) <+: suffix)

theorem decodeLiteral?_none {rest : Text} : decodeLiteral? rest = none ↔ ¬ Quoted (quote :: rest) := by
  constructor
  · rintro none ⟨lexical, suffix, eq, unquoted, kinds⟩
    rw [(List.cons.inj eq).2, decodeLiteral?, splitLastQuote_append lexical suffix unquoted] at none
    rcases kinds with rfl | ⟨tag, rfl⟩ | ⟨d, rfl⟩ <;> cases none
  · intro bare
    cases h : decodeLiteral? rest with
    | none => rfl
    | some t =>
      obtain ⟨lexical, suffix, eq, unquoted, kinds⟩ := decodeLiteral?_inv h
      refine absurd ⟨lexical, suffix, by rw [eq], unquoted, ?_⟩ bare
      rcases kinds with ⟨none, -⟩ | ⟨tag, at_, -⟩ | ⟨d, carets, -⟩
      · exact .inl none
      · exact .inr (.inl ⟨tag, at_.symm⟩)
      · exact .inr (.inr ⟨d, carets.symm⟩)

def Bare (v : Text) : Prop := v ≠ [] ∧ ¬ ("?" : Text) <+: v ∧ ¬ ("_:" : Text) <+: v ∧ ¬ Quoted v

theorem decode_bare {v : Text} (bare : Bare v) : decode v = .iri v := by
  obtain ⟨nonempty, notVar, notBlank, notQuoted⟩ := bare
  cases v with
  | nil => exact absurd rfl nonempty
  | cons c rest =>
    have other : c ≠ Text.byte '?' := by
      rintro rfl
      exact notVar ⟨rest, rfl⟩
    unfold decode
    dsimp only
    rw [if_neg other, if_neg fun front => notBlank (List.isPrefixOf_iff_prefix.1 front)]
    split
    · rename_i quoted
      rw [quoted] at notQuoted ⊢
      rw [decodeLiteral?_none.2 notQuoted]
      rfl
    · rfl

theorem decode_unmarked (v : Text) (nonempty : v ≠ []) (unmarked : ∀ mark ∈ marks, ¬ mark <+: v) :
    decode v = .iri v := by
  refine decode_bare ⟨nonempty, unmarked "?" (by decide), unmarked "_:" (by decide), ?_⟩
  rintro ⟨lexical, suffix, eq, -⟩
  exact unmarked "\"" (by decide) ⟨_, eq.symm⟩

theorem decodeLiteral?_isLiteral {rest : Text} {t : Term} (h : decodeLiteral? rest = some t) :
    t.isLiteral = true := by
  obtain ⟨lexical, suffix, -, -, kinds⟩ := decodeLiteral?_inv h
  rcases kinds with ⟨-, rfl⟩ | ⟨tag, -, rfl⟩ | ⟨d, -, rfl⟩ <;> rfl

/-- A text that is read as something other than a literal is the text of what it is read as. -/
theorem encode_decode (s : Text) (h : (decode s).isLiteral = false) : (decode s).encode = s := by
  unfold decode at h ⊢
  cases s with
  | nil => rfl
  | cons c rest =>
    dsimp only at h ⊢
    split
    · rename_i quoted
      rw [if_pos quoted] at h
      cases hl : decodeLiteral? rest with
      | none => rfl
      | some t =>
        rw [hl, Option.getD_some, decodeLiteral?_isLiteral hl] at h
        cases h
    · split
      · rename_i var
        rw [var]
        rfl
      · split
        · rename_i blank
          obtain ⟨more, eq⟩ := List.isPrefixOf_iff_prefix.1 blank
          have split_ : c = Text.byte '_' ∧ rest = Text.byte ':' :: more := by
            obtain ⟨first, rest_⟩ := List.cons.inj eq
            exact ⟨first.symm, rest_.symm⟩
          rw [split_.1, split_.2]
          rfl
        · rfl

theorem decode_eq_iri {s v : Text} : decode s = .iri v ↔ s = v ∧ Bare v := by
  constructor
  · intro read
    have same : s = v := by
      rw [← encode_decode s (by rw [read]; rfl), read, encode]
    subst same
    refine ⟨rfl, ?_, ?_, ?_, ?_⟩
    · rintro rfl
      cases read
    · rintro ⟨name, rfl⟩
      cases read
    · rintro ⟨label, rfl⟩
      cases read
    · rintro ⟨lexical, suffix, rfl, quoted⟩
      cases found : decodeLiteral? (lexical ++ quote :: suffix) with
      | none => exact decodeLiteral?_none.1 found ⟨lexical, suffix, rfl, quoted⟩
      | some t =>
        have literal := decodeLiteral?_isLiteral found
        rw [decode_quoted lexical suffix t found] at read
        rw [read] at literal
        cases literal
  · rintro ⟨rfl, bare⟩
    exact decode_bare bare

theorem decode_encode {t : Term} (h : Storable t) : decode t.encode = t := by
  cases h with
  | defaultGraph => rfl
  | blank label => rfl
  | iri v nonempty unmarked => exact decode_unmarked v nonempty unmarked
  | plain lexical => exact decode_plain lexical
  | tagged lexical tag unquoted =>
    unfold tagged
    split
    · exact decode_plain lexical
    · rename_i given
      rw [encode, decode_language lexical tag unquoted, tagged, if_neg given]
  | typed lexical d unquoted =>
    unfold typed
    split
    · exact decode_plain lexical
    · rename_i given
      rw [encode, decode_datatype lexical d unquoted, typed, if_neg given]

/-- The texts that are read as numbers or times: a mark, and enough fields behind it. -/
def Fielded (s : Text) : Prop :=
  numberMark <+: s ∧ 3 ≤ s.count separator ∨ timeMark <+: s ∧ 2 ≤ s.count separator

theorem decodeObject_numberMark {s : Text} (number : numberMark <+: s) :
    decodeObject s = match s.parts separator with
      | _ :: _ :: d :: lexical :: _ => typed lexical d
      | _ => iri s := by
  unfold decodeObject
  exact if_pos (List.isPrefixOf_iff_prefix.2 number)

theorem decodeObject_timeMark {s : Text} (time : timeMark <+: s) :
    decodeObject s = match s.parts separator with
      | _ :: _ :: lexical :: _ => typed lexical Xsd.dateTime
      | _ => iri s := by
  have notNumber : ¬ numberMark.isPrefixOf s = true := by
    obtain ⟨rest, rfl⟩ := time
    simp [numberMark, timeMark, List.isPrefixOf, Text.byte]
  unfold decodeObject
  exact (if_neg notNumber).trans (if_pos (List.isPrefixOf_iff_prefix.2 time))

theorem decodeObject_fielded {s : Text} (h : Fielded s) : ∃ lexical d, decodeObject s = typed lexical d := by
  obtain ⟨more, fields, count⟩ := Text.parts_eq_cons separator s
  rcases h with ⟨number, enough⟩ | ⟨time, enough⟩
  · rw [decodeObject_numberMark number, fields]
    match more with
    | _ :: d :: lexical :: _ => exact ⟨lexical, d, rfl⟩
    | [] | [_] | [_, _] =>
      simp only [List.length_nil, List.length_cons] at count
      omega
  · rw [decodeObject_timeMark time, fields]
    match more with
    | _ :: lexical :: _ => exact ⟨lexical, _, rfl⟩
    | [] | [_] =>
      simp only [List.length_nil, List.length_cons] at count
      omega

theorem decodeObject_unfielded {s : Text} (h : ¬ Fielded s) : decodeObject s = decode s := by
  obtain ⟨more, fields, count⟩ := Text.parts_eq_cons separator s
  by_cases number : numberMark <+: s
  · have few : more.length < 3 := by
      by_contra enough
      exact h (.inl ⟨number, by omega⟩)
    have kept : decode s = iri s := by
      obtain ⟨rest, rfl⟩ := number
      rfl
    rw [decodeObject_numberMark number, fields, kept]
    match more, few with
    | [], _ | [_], _ | [_, _], _ => rfl
  · by_cases time : timeMark <+: s
    · have few : more.length < 2 := by
        by_contra enough
        exact h (.inr ⟨time, by omega⟩)
      have kept : decode s = iri s := by
        obtain ⟨rest, rfl⟩ := time
        rfl
      rw [decodeObject_timeMark time, fields, kept]
      match more, few with
      | [], _ | [_], _ => rfl
    · rw [← List.isPrefixOf_iff_prefix] at number time
      rw [decodeObject, if_neg number, if_neg time]

theorem decodeObject_eq_iri {s v : Text} : decodeObject s = .iri v ↔ s = v ∧ Bare v ∧ ¬ Fielded v := by
  by_cases fields : Fielded s
  · obtain ⟨lexical, d, read⟩ := decodeObject_fielded fields
    rw [read]
    constructor
    · exact nofun
    · rintro ⟨rfl, -, none⟩
      exact absurd fields none
  · rw [decodeObject_unfielded fields, decode_eq_iri]
    constructor
    · rintro ⟨rfl, bare⟩
      exact ⟨rfl, bare, fields⟩
    · rintro ⟨rfl, bare, -⟩
      exact ⟨rfl, bare⟩

/-- A number is read back up to the first NUL of its lexical form. -/
theorem decodeObject_number (x d lexical : Text) (hx : separator ∉ x) (hd : separator ∉ d) :
    decodeObject (numberMark ++ x ++ separator :: d ++ separator :: lexical) = typed lexical.upToNul d := by
  obtain ⟨more, last, -⟩ := Text.parts_eq_cons separator lexical
  have fields : (numberMark ++ x ++ separator :: d ++ separator :: lexical).parts separator =
      [Text.byte 'N'] :: x :: d :: lexical.upToNul :: more := by
    have shape : numberMark ++ x ++ separator :: d ++ separator :: lexical =
        [Text.byte 'N'] ++ separator :: (x ++ separator :: (d ++ separator :: lexical)) := by
      simp [numberMark]
    rw [shape, Text.parts_append _ _ _ (by decide), Text.parts_append _ _ _ hx,
      Text.parts_append _ _ _ hd, last]
    rfl
  have marked : numberMark <+: numberMark ++ x ++ separator :: d ++ separator :: lexical := by
    rw [List.append_assoc, List.append_assoc]
    exact List.prefix_append _ _
  rw [decodeObject_numberMark marked, fields]

theorem decodeObject_time (x lexical : Text) (hx : separator ∉ x) :
    decodeObject (timeMark ++ x ++ separator :: lexical) = typed lexical.upToNul Xsd.dateTime := by
  obtain ⟨more, last, -⟩ := Text.parts_eq_cons separator lexical
  have fields : (timeMark ++ x ++ separator :: lexical).parts separator =
      [Text.byte 'D'] :: x :: lexical.upToNul :: more := by
    have shape : timeMark ++ x ++ separator :: lexical =
        [Text.byte 'D'] ++ separator :: (x ++ separator :: lexical) := by
      simp [timeMark]
    rw [shape, Text.parts_append _ _ _ (by decide), Text.parts_append _ _ _ hx, last]
    rfl
  have marked : timeMark <+: timeMark ++ x ++ separator :: lexical := by
    rw [List.append_assoc]
    exact List.prefix_append _ _
  rw [decodeObject_timeMark marked, fields]

theorem decodeObject_cons (c : UInt8) (rest : Text) (hn : c ≠ Text.byte 'N') (hd : c ≠ Text.byte 'D') :
    decodeObject (c :: rest) = decode (c :: rest) := by
  apply decodeObject_unfielded
  rintro (⟨⟨more, eq⟩, -⟩ | ⟨⟨more, eq⟩, -⟩)
  · exact hn (List.cons.inj eq).1.symm
  · exact hd (List.cons.inj eq).1.symm

theorem encodeObject_unkeyed (t : Term) (h : t.orderKey? = none) : t.encodeObject = t.encode := by
  unfold encodeObject
  rw [h]
  cases t with
  | literal lexical kind => cases kind <;> rfl
  | _ => rfl

theorem decodeObject_annotated (lexical : Text) (kind : LiteralKind) :
    decodeObject (annotated lexical kind) = decode (annotated lexical kind) := by
  cases kind <;> exact decodeObject_cons quote _ (by decide) (by decide)

theorem decodeObject_keyed (lexical : Text) {d : Text} (keyed : Keyed d) :
    decodeObject (encodeObject (.literal lexical (.datatype d))) = typed lexical.upToNul d := by
  by_cases numeric : Xsd.isNumeric d = true
  · have key : encodeObject (.literal lexical (.datatype d)) =
        numberMark ++ OrderKey.ofText lexical ++ separator :: d ++ separator :: lexical := by
      simp [encodeObject, orderKey?, numeric]
    rw [key]
    exact decodeObject_number _ _ _ (OrderKey.separator_not_mem_ofDouble _) (Xsd.numeric_plain d numeric).1
  · obtain rfl : d = Xsd.dateTime := keyed.resolve_left numeric
    have key : encodeObject (.literal lexical (.datatype Xsd.dateTime)) =
        timeMark ++ OrderKey.ofTime lexical ++ separator :: lexical := by
      simp [encodeObject, orderKey?, if_neg numeric]
    rw [key]
    exact decodeObject_time _ _ (OrderKey.separator_not_mem_ofTime _)

theorem decodeObject_unkeyed (lexical : Text) {d : Text} (plain : ¬ Keyed d) :
    decodeObject (encodeObject (.literal lexical (.datatype d))) = decode (annotated lexical (.datatype d)) := by
  obtain ⟨numeric, time⟩ := not_or.1 plain
  rw [encodeObject_unkeyed _ (by simp [orderKey?, numeric, time]), encode, decodeObject_annotated]

theorem upToNul_whole {s : Text} (h : separator ∉ s) : s.upToNul = s := by
  rw [Text.upToNul, List.takeWhile_eq_self_iff]
  intro c mem
  simp only [decide_eq_true_eq]
  rintro rfl
  exact h mem

theorem decodeObject_datatype (lexical d : Text) (unquoted : quote ∉ d)
    (whole : Keyed d → separator ∉ lexical) :
    decodeObject (encodeObject (.literal lexical (.datatype d))) = typed lexical d := by
  by_cases keyed : Keyed d
  · rw [decodeObject_keyed lexical keyed, upToNul_whole (whole keyed)]
  · rw [decodeObject_unkeyed lexical keyed, decode_datatype lexical d unquoted]

theorem decodeObject_encodeObject {t : Term} (h : Storable t) : decodeObject t.encodeObject = t := by
  cases h with
  | defaultGraph => rfl
  | blank label => rfl
  | iri v nonempty unmarked =>
    have unfielded : ¬ Fielded v := by
      rintro (⟨number, -⟩ | ⟨time, -⟩)
      · exact unmarked numberMark (by decide) number
      · exact unmarked timeMark (by decide) time
    change decodeObject v = _
    rw [decodeObject_unfielded unfielded, decode_unmarked v nonempty unmarked]
  | plain lexical =>
    change decodeObject (annotated lexical .plain) = _
    rw [decodeObject_annotated, decode_plain]
  | tagged lexical tag unquoted =>
    have plainOrTag : (tagged lexical tag).encodeObject = (tagged lexical tag).encode := by
      unfold tagged
      split <;> rfl
    have quoted : decodeObject (tagged lexical tag).encode = decode (tagged lexical tag).encode :=
      decodeObject_annotated lexical _
    rw [plainOrTag, quoted, decode_encode (.tagged lexical tag unquoted)]
  | typed lexical d unquoted whole =>
    by_cases given : d = [] ∨ d = Xsd.string ∨ d = Rdf.langString
    · have strings : typed lexical d = plain lexical := by rw [typed, if_pos given, plain]
      rw [strings]
      change decodeObject (annotated lexical .plain) = _
      rw [decodeObject_annotated, decode_plain]
    · have same : typed lexical d = .literal lexical (.datatype d) := by rw [typed, if_neg given]
      calc decodeObject (typed lexical d).encodeObject
          = decodeObject (encodeObject (.literal lexical (.datatype d))) := by rw [same]
        _ = typed lexical d := decodeObject_datatype lexical d unquoted whole

/-- Terms that are stored without loss are told apart by their stored texts. -/
theorem storable_round_trip {a b : Term} (ha : Storable a) (hb : Storable b) :
    decode a.encode = a ∧ decodeObject a.encodeObject = a ∧
    (a ≠ b → a.encode ≠ b.encode ∧ a.encodeObject ≠ b.encodeObject) := by
  refine ⟨decode_encode ha, decodeObject_encodeObject ha, fun different => ⟨?_, ?_⟩⟩
  · intro same
    apply different
    rw [← decode_encode ha, same, decode_encode hb]
  · intro same
    apply different
    rw [← decodeObject_encodeObject ha, same, decodeObject_encodeObject hb]

theorem storable_round_trip_quotes :
    Storable (plain "\"@en") ∧ Storable (tagged [] "en") ∧
    decode (encode (plain "\"@en")) = plain "\"@en" ∧
    encode (plain "\"@en") ≠ encode (tagged [] "en") := by
  have first : Storable (plain "\"@en") := .plain _
  have second : Storable (tagged [] "en") := .tagged _ _ (by decide)
  have both := storable_round_trip first second
  exact ⟨first, second, both.1, (both.2.2 (by decide)).1⟩

end Term

end QuadStore
