import Mathlib.Data.List.Infix
import QuadStore.Proofs.Chronology
import QuadStore.Proofs.LikeText
import QuadStore.Proofs.NumberFilter
import QuadStore.Proofs.Prefix

namespace QuadStore

open Sql Sparql

namespace Text

variable {c : UInt8} {x : Text}

theorem prefix_before (absent : c ∉ x) (a b : Text) : x <+: a ++ c :: b ↔ x <+: a := by
  induction x generalizing a with
  | nil => simp
  | cons d x ih =>
    obtain ⟨other, absent⟩ := not_or.1 (List.mem_cons.not.1 absent)
    cases a with
    | nil => simp [List.cons_prefix_cons, Ne.symm other]
    | cons e a => simp [List.cons_prefix_cons, ih absent a]

theorem suffix_behind (absent : c ∉ x) (a b : Text) : x <:+ a ++ c :: b ↔ x <:+ b := by
  have reversed : c ∉ x.reverse := fun mem => absurd (List.mem_reverse.1 mem) absent
  have turned := prefix_before reversed b.reverse a.reverse
  rw [← List.reverse_prefix, ← List.reverse_prefix, ← turned]
  simp

theorem infix_apart (absent : c ∉ x) (a b : Text) : x <:+: a ++ c :: b ↔ x <:+: a ∨ x <:+: b := by
  induction a with
  | nil =>
    have front := prefix_before absent [] b
    rw [List.nil_append] at front
    rw [List.nil_append, List.infix_cons_iff, front, List.prefix_nil, List.infix_nil]
  | cons d a ih =>
    have front := prefix_before absent (d :: a) b
    rw [List.cons_append] at front
    rw [List.cons_append, List.infix_cons_iff, front, ih, List.infix_cons_iff, or_assoc]

theorem append_below {s : Text} (below : ∀ d ∈ s, c < d) (a b : Text) : a ++ c :: b < s ↔ a < s := by
  induction a generalizing s with
  | nil =>
    cases s with
    | nil => simp
    | cons d s => simp [List.cons_lt_cons_iff, below d List.mem_cons_self]
  | cons e a ih =>
    cases s with
    | nil => simp
    | cons d s =>
      have tail := ih fun d mem => below d (List.mem_cons_of_mem _ mem)
      simp [List.cons_lt_cons_iff, tail]

/-- Whether a text has neither of the bytes by which the parts of a stored text are told apart. -/
structure Tidy (s : Text) : Prop where
  unquoted : Term.quote ∉ s
  whole : 0 ∉ s

theorem Tidy.upToNul {s : Text} (tidy : s.Tidy) : s.upToNul = s := Term.upToNul_whole tidy.whole

end Text

namespace Term

variable {t : Term} {p : Position}

def storedKey? (t : Term) (p : Position) : Option Text := if p = .object then t.orderKey? else none

def Tidy : Term → Prop
  | literal lexical kind => 0 ∉ lexical ∧ (suffix kind).Tidy
  | t => t.encode.Tidy

theorem stored_unkeyed (unkeyed : t.storedKey? p = none) : t.stored p = t.encode := by
  cases p with
  | object => exact encodeObject_unkeyed t unkeyed
  | subject | predicate | graph => rfl

theorem stored_keyed {key : Text} (keyed : t.storedKey? p = some key) :
    ∃ c more, (c = Text.byte 'N' ∨ c = Text.byte 'D') ∧ key.take 1 = [c] ∧ t.stored p = c :: 0 :: more := by
  unfold storedKey? at keyed
  split at keyed
  case isFalse => cases keyed
  rename_i object
  subst object
  unfold orderKey? at keyed
  split at keyed
  case h_2 => cases keyed
  rename_i lexical d
  by_cases numeric : Xsd.isNumeric d = true
  · rw [if_pos numeric] at keyed
    cases keyed
    exact ⟨Text.byte 'N', _, .inl rfl, rfl, encodeObject_number numeric⟩
  · rw [if_neg numeric] at keyed
    split at keyed
    case isFalse => cases keyed
    rename_i time
    subst time
    cases keyed
    exact ⟨Text.byte 'D', _, .inr rfl, rfl, DateTime.encodeObject_time lexical⟩

end Term

namespace Operators

theorem conditions_startsWith (s : Text) (p : Position) :
    ({ startsWith := some s } : Operators).conditions p = [.startingWith s] := by
  simp [conditions]

theorem conditions_endsWith (s : Text) (p : Position) :
    ({ endsWith := some s } : Operators).conditions p = [.like (Like.ending s)] := by
  simp [conditions]

theorem conditions_contains (s : Text) (p : Position) :
    ({ contains := some s } : Operators).conditions p = [.like (Like.containing s)] := by
  simp [conditions]

end Operators

/-- The tests for a part of a text. -/
inductive TextTest where
  | start
  | finish
  | part
  deriving DecidableEq

namespace TextTest

variable {f : TextTest} {x : Text}

def builtin : TextTest → Builtin
  | start => .strStarts
  | finish => .strEnds
  | part => .contains

def operators (f : TextTest) (x : Text) : Operators :=
  match f with
  | start => { startsWith := some ("\"" ++ x) }
  | finish => { endsWith := some (x ++ "\"") }
  | part => { contains := some x }

def Finds (f : TextTest) (x s : Text) : Prop :=
  match f with
  | start => x <+: s
  | finish => x <:+ s
  | part => x <:+: s

/-- The stored texts that a test takes. A text is put behind a quote or before one, and LIKE sees it up to its
first NUL, where the pattern loses its last wildcard. -/
def Matches (f : TextTest) (x s : Text) : Prop :=
  match f with
  | start => ∃ rest, s = Term.quote :: (x ++ rest) ∧ rest < Utf8.maxChar
  | finish => (x ++ [Term.quote]).upToNul <:+ s.upToNul
  | part => if 0 ∈ x then x.upToNul <:+ s.upToNul else x <:+: s.upToNul

/-- The terms that a test takes in a position. Of a keyed term only the mark is seen; a literal is judged by its
lexical form, but a start is lost where U+FFFF or more follows, an end where a language or a datatype does,
and a part may also be found in those; of other terms only a part is ever found. -/
def Takes (f : TextTest) (x : Text) (p : Position) (t : Term) : Prop :=
  match t with
  | .literal lexical kind =>
    match t.storedKey? p with
    | some key => f = part ∧ x = key.take 1
    | none =>
      match f with
      | start => f.Finds x lexical ∧ lexical.drop x.length < Utf8.maxChar
      | finish => f.Finds x lexical ∧ kind = .plain
      | part => f.Finds x lexical ∨ f.Finds x (Term.suffix kind)
  | t => f = part ∧ f.Finds x t.encode

theorem holds_operators (f : TextTest) (x s : Text) (p : Position) :
    ((f.operators x).conditions p).all (·.holds s) = true ↔ f.Matches x s := by
  cases f with
  | start =>
    rw [operators, Operators.conditions_startsWith, List.all_cons, List.all_nil, Bool.and_true,
      Condition.startingWith_holds]
    rfl
  | finish =>
    rw [operators, Operators.conditions_endsWith, List.all_cons, List.all_nil, Bool.and_true]
    exact Like.holds_ending
  | part =>
    rw [operators, Operators.conditions_contains, List.all_cons, List.all_nil, Bool.and_true, Condition.holds, Matches]
    split
    · rename_i cut
      rw [Like.holds_containing_cut cut]
      exact Like.holds_ending
    · rename_i whole
      exact Like.holds_containing whole

theorem upToNul_closed (tidy : x.Tidy) : (x ++ [Term.quote]).upToNul = x ++ [Term.quote] :=
  Text.upToNul_append_whole tidy.whole [Term.quote]

theorem matches_unquoted {s : Text} (tidy : x.Tidy) (unquoted : Term.quote ∉ s.upToNul)
    (first : s.head? ≠ some Term.quote) : f.Matches x s ↔ f = part ∧ f.Finds x s.upToNul := by
  cases f with
  | start =>
    simp only [Matches, reduceCtorEq, false_and, iff_false]
    rintro ⟨rest, rfl, -⟩
    exact first rfl
  | finish =>
    simp only [Matches, reduceCtorEq, false_and, iff_false, upToNul_closed tidy]
    intro end_
    exact unquoted (end_.subset (by simp))
  | part => simp [Matches, Finds, tidy.whole]

theorem matches_keyed {c : UInt8} {more : Text} (tidy : x.Tidy) (some_ : x ≠ [])
    (mark : c = Text.byte 'N' ∨ c = Text.byte 'D') : f.Matches x (c :: 0 :: more) ↔ f = part ∧ x = [c] := by
  have other : Term.quote ≠ c ∧ c ≠ 0 := by
    rcases mark with rfl | rfl <;> decide
  have seen : Text.upToNul (c :: 0 :: more) = [c] := by
    rw [Text.upToNul_cons other.2, Text.upToNul_nul]
  have first : (c :: 0 :: more).head? ≠ some Term.quote := by
    simpa using other.1.symm
  rw [matches_unquoted tidy (by simp [seen, other.1]) first, seen]
  refine and_congr_right ?_
  rintro rfl
  rw [Finds, List.infix_cons_iff, List.infix_nil, List.prefix_cons_iff]
  simp [some_]

def literalText (lexical suffix : Text) : Text := Term.quote :: (lexical ++ Term.quote :: suffix)

section

variable {lexical suffix : Text}

theorem upToNul_literalText (whole : 0 ∉ lexical) (tail : suffix.Tidy) :
    (literalText lexical suffix).upToNul = literalText lexical suffix := by
  unfold literalText
  rw [Text.upToNul_cons (by decide), Text.upToNul_append_whole whole, Text.upToNul_cons (by decide), tail.upToNul]

theorem start_literalText (unquoted : Term.quote ∉ x) :
    (∃ rest, literalText lexical suffix = Term.quote :: (x ++ rest) ∧ rest < Utf8.maxChar) ↔
      x <+: lexical ∧ lexical.drop x.length < Utf8.maxChar := by
  have low : ∀ d ∈ Utf8.maxChar, Term.quote < d := by
    have all_ : Utf8.maxChar.all (fun d => Term.quote < d) = true := rfl
    simpa only [List.all_eq_true, decide_eq_true_eq] using all_
  constructor
  · rintro ⟨rest, split, below⟩
    have split : lexical ++ Term.quote :: suffix = x ++ rest := (List.cons.inj split).2
    obtain ⟨after, rfl⟩ : x <+: lexical := (Text.prefix_before unquoted _ _).1 ⟨rest, split.symm⟩
    rw [List.append_assoc] at split
    rw [← List.append_cancel_left split, Text.append_below low] at below
    rw [List.drop_left]
    exact ⟨List.prefix_append x after, below⟩
  · rintro ⟨⟨after, rfl⟩, below⟩
    rw [List.drop_left] at below
    refine ⟨after ++ Term.quote :: suffix, by rw [literalText, List.append_assoc], ?_⟩
    rwa [Text.append_below low]

theorem finish_literalText (unquoted : Term.quote ∉ x) (tail : Term.quote ∉ suffix) :
    x ++ [Term.quote] <:+ literalText lexical suffix ↔ x <:+ lexical ∧ suffix = [] := by
  rcases List.eq_nil_or_concat' suffix with rfl | ⟨front, d, rfl⟩
  · have lead := Text.suffix_behind unquoted [] lexical
    rw [List.nil_append] at lead
    rw [literalText, ← List.cons_append, List.suffix_append_inj_of_length_eq rfl, lead]
    simp
  · have last : Term.quote ≠ d := by
      rintro rfl
      exact tail (by simp)
    have split : literalText lexical (front ++ [d]) = literalText lexical front ++ [d] := by simp [literalText]
    refine iff_of_false ?_ (by simp)
    rintro ⟨before, same⟩
    rw [split, ← List.append_assoc] at same
    exact last (List.cons.inj (List.append_inj_right' same rfl)).1

theorem part_literalText (unquoted : Term.quote ∉ x) (some_ : x ≠ []) :
    x <:+: literalText lexical suffix ↔ x <:+: lexical ∨ x <:+: suffix := by
  have front := Text.infix_apart unquoted [] (lexical ++ Term.quote :: suffix)
  rw [List.nil_append] at front
  rw [literalText, front, List.infix_nil, Text.infix_apart unquoted]
  simp [some_]

end

/-- On tidy texts the test of the store is a test of the term. -/
theorem matches_stored {t : Term} {p : Position} (some_ : x ≠ []) (tidy : x.Tidy) (tidyTerm : t.Tidy) :
    f.Matches x (t.stored p) ↔ f.Takes x p t := by
  have bare (t : Term) (tidyText : t.encode.Tidy) : f.Matches x t.encode ↔ f = part ∧ f.Finds x t.encode := by
    have unquoted := tidyText.unquoted
    rw [← tidyText.upToNul] at unquoted
    rw [matches_unquoted tidy unquoted fun first => tidyText.unquoted (List.mem_of_mem_head? first),
      tidyText.upToNul]
  cases t with
  | literal lexical kind =>
    unfold Takes
    dsimp only
    split
    · rename_i key keyed
      obtain ⟨c, more, mark, first, stored⟩ := Term.stored_keyed keyed
      rw [stored, first]
      exact matches_keyed tidy some_ mark
    · rename_i unkeyed
      have shape : (Term.literal lexical kind).encode = literalText lexical (Term.suffix kind) :=
        Term.display_literal lexical kind
      have ends : Term.suffix kind = [] ↔ kind = .plain := by cases kind <;> simp [Term.suffix]
      have seen := upToNul_literalText tidyTerm.1 tidyTerm.2
      rw [Term.stored_unkeyed unkeyed, shape]
      cases f with
      | start => exact start_literalText tidy.unquoted
      | finish =>
        simp only [Matches, upToNul_closed tidy, seen, finish_literalText tidy.unquoted tidyTerm.2.unquoted, ends]
        rfl
      | part =>
        simp only [Matches, if_neg tidy.whole, seen, part_literalText tidy.unquoted some_]
        rfl
  | iri | blank | var | defaultGraph =>
    rw [Term.stored_unkeyed (by cases p <;> rfl)]
    exact bare _ tidyTerm

theorem takes_plain {lexical : Text} {p : Position} (some_ : x ≠ []) : f.Takes x p (.plain lexical) ↔
    f.Finds x lexical ∧ (f = start → lexical.drop x.length < Utf8.maxChar) := by
  have unkeyed : (Term.literal lexical .plain).storedKey? p = none := by cases p <;> rfl
  change f.Takes x p (.literal lexical .plain) ↔ _
  unfold Takes
  dsimp only
  rw [unkeyed]
  cases f with
  | start => simp
  | finish => simp
  | part => simp [Finds, Term.suffix, some_]

/-- What a test of a variable's text takes of the stored statements: of any term what its stored text says,
which on tidy texts is a test of the term, and on plain literals the one that was asked for unless U+FFFF or
more follows a start. -/
theorem text_filter_takes {q : Quad} {p : Position} {name : Text} {e : Expression} {kind : LiteralKind}
    (at_ : q.get p = .var name) (variable_ : Condition.textVariable? e = some name) (some_ : x ≠ []) :
    ∃ ops, Condition.on? q (.builtin f.builtin [e, .term (.literal x kind)]) = some (name, ops) ∧
      ∀ k : Quint,
        (Table.satisfies k.toRow (({} : Pattern).set p (some (.operators ops))).clauses = true ↔
          f.Matches x ((k.get p).stored p)) ∧
        (x.Tidy → (k.get p).Tidy →
          (Table.satisfies k.toRow (({} : Pattern).set p (some (.operators ops))).clauses = true ↔
            f.Takes x p (k.get p))) ∧
        (x.Tidy → ∀ lexical, 0 ∉ lexical → k.get p = .plain lexical →
          (Table.satisfies k.toRow (({} : Pattern).set p (some (.operators ops))).clauses = true ↔
            f.Finds x lexical ∧ (f = start → lexical.drop x.length < Utf8.maxChar))) := by
  have known := Quad.mem_varNames at_
  have pushed : Condition.ofExpression? (.builtin f.builtin [e, .term (.literal x kind)]) =
      some (name, f.operators x) := by
    have text : Condition.someText? (.term (.literal x kind)) = some x := if_neg some_
    cases f <;> simp [Condition.ofExpression?, Condition.ofCall?, builtin, variable_, text] <;> rfl
  have on : Condition.on? q (.builtin f.builtin [e, .term (.literal x kind)]) = some (name, f.operators x) := by
    simp [Condition.on?, pushed, known]
  have stored (k : Quint) :
      Table.satisfies k.toRow (({} : Pattern).set p (some (.operators (f.operators x)))).clauses = true ↔
        f.Matches x ((k.get p).stored p) := by
    rw [Pattern.satisfies_single, Match.conditions, Quint.get_toRow]
    exact holds_operators f x _ p
  refine ⟨f.operators x, on, fun k => ⟨stored k, fun tidy tidyTerm => ?_, fun tidy lexical whole plain => ?_⟩⟩
  · rw [stored]
    exact matches_stored some_ tidy tidyTerm
  · have tidyTerm : (Term.plain lexical).Tidy := ⟨whole, List.not_mem_nil, List.not_mem_nil⟩
    rw [stored, plain, matches_stored some_ tidy tidyTerm]
    exact takes_plain some_

def valueStatement (object : Term) : Quint :=
  ⟨{ subject := .iri "http://ex/s", predicate := .iri "http://ex/p", object }, none⟩

theorem text_filter_takes_start :
    Pushdown.valueTriple.get .object = .var "o" ∧
    Condition.textVariable? (.builtin .str [.term (.var "o")]) = some ("o" : Text) ∧ ("he" : Text) ≠ [] ∧
    ∃ ops, Condition.on? Pushdown.valueTriple (.builtin .strStarts
        [.builtin .str [.term (.var "o")], .term (.plain "he")]) = some (("o" : Text), ops) ∧
      Table.satisfies (valueStatement (.plain "hello")).toRow
        (({} : Pattern).set .object (some (.operators ops))).clauses = true := by
  have some_ : ("he" : Text) ≠ [] := by decide
  obtain ⟨ops, pushed, takes⟩ := @text_filter_takes .start "he" Pushdown.valueTriple .object "o"
    (.builtin .str [.term (.var "o")]) .plain rfl rfl some_
  refine ⟨rfl, rfl, some_, ops, pushed, ?_⟩
  have tidy : ("he" : Text).Tidy := ⟨by decide, by decide⟩
  have tidyTerm : (Term.plain "hello").Tidy := ⟨by decide, by decide, by decide⟩
  exact ((takes (valueStatement (.plain "hello"))).2.1 tidy tidyTerm).2 ⟨⟨"llo", by decide⟩, by decide⟩

theorem text_filter_misses_iri :
    Condition.on? Pushdown.valueTriple (.builtin .strStarts
        [.builtin .str [.term (.var "o")], .term (.plain "http://ex/")]) =
      some (("o" : Text), { startsWith := some "\"http://ex/" }) ∧
    Table.satisfies (valueStatement (.iri "http://ex/o")).toRow
      (({} : Pattern).set .object (some (.operators { startsWith := some "\"http://ex/" }))).clauses = false ∧
    start.Finds "http://ex/" (Term.iri "http://ex/o").value := by
  refine ⟨by decide +kernel, by decide +kernel, "o", by decide⟩

end TextTest

end QuadStore
