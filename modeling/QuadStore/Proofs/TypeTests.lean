import QuadStore.Proofs.AnchoredSearch
import QuadStore.Proofs.TextTests

namespace QuadStore

open Sql Sparql

namespace Pattern

theorem admits_single (r : Row) (p : Position) (m : Match) :
    (({} : Pattern).set p (some m)).admits r = m.admits p (r.get p) := by
  unfold admits
  cases p <;> simp [Position.keyOrder, set, get]

end Pattern

/-- The tests of the kind of a term. -/
inductive TypeTest where
  | iri
  | uri
  | blank
  | literal
  deriving DecidableEq

namespace TypeTest

variable {f : TypeTest} {t : Term} {p : Position} {s rest : Text}

def builtin : TypeTest → Builtin
  | iri => .isIri
  | uri => .isUri
  | blank => .isBlank
  | literal => .isLiteral

def operators : TypeTest → Operators
  | iri | uri => { startsWith := some "http" }
  | blank => { startsWith := some "_:" }
  | literal => { regex := some Condition.literalStart }

def literalBytes : Text := [Term.quote, Text.byte 'N', Text.byte 'D']

/-- The terms that a test takes: the IRIs that begin with `http`, the blank nodes, and beside the literals the
IRIs that begin with a byte of theirs; but none that goes on with U+FFFF or more behind a start. -/
def Takes (f : TypeTest) (t : Term) : Prop :=
  match f with
  | iri | uri => ∃ rest, t = .iri ("http" ++ rest) ∧ rest < Utf8.maxChar
  | blank => ∃ label, t = .blank label ∧ label < Utf8.maxChar
  | literal => t.isLiteral = true ∨ ∃ c rest, t = .iri (c :: rest) ∧ c ∈ literalBytes

theorem head_literal {lexical : Text} {kind : LiteralKind} :
    ∃ c ∈ literalBytes, ((Term.literal lexical kind).stored p).head? = some c := by
  cases keyed : (Term.literal lexical kind).storedKey? p with
  | none =>
    have shape : (Term.literal lexical kind).encode = _ := Term.display_literal lexical kind
    rw [Term.stored_unkeyed keyed, shape]
    exact ⟨Term.quote, by decide, rfl⟩
  | some key =>
    obtain ⟨c, more, mark, -, stored⟩ := Term.stored_keyed keyed
    rw [stored]
    refine ⟨c, ?_, rfl⟩
    rcases mark with rfl | rfl <;> decide

theorem stored_of_not_literal (other : t.isLiteral = false) : t.stored p = t.encode := by
  refine Term.stored_unkeyed ?_
  cases t with
  | literal => cases other
  | iri | blank | var | defaultGraph => cases p <;> rfl

theorem not_literal_of_head {c : UInt8} (first : (t.stored p).head? = some c) (other : c ∉ literalBytes) :
    t.isLiteral = false := by
  cases t with
  | literal lexical kind =>
    obtain ⟨d, mem, head⟩ := @head_literal p lexical kind
    rw [head] at first
    cases first
    exact absurd mem other
  | iri | blank | var | defaultGraph => rfl

theorem stored_http : t.stored p = "http" ++ rest ↔ t = .iri ("http" ++ rest) := by
  constructor
  · intro same
    have first : (t.stored p).head? = some (Text.byte 'h') := by rw [same]; rfl
    have text := stored_of_not_literal (p := p) (not_literal_of_head first (by decide))
    rw [same] at text
    cases t with
    | iri v => rw [text]; rfl
    | literal => cases not_literal_of_head first (by decide)
    | blank label => cases (List.cons.inj text).1
    | var name => cases (List.cons.inj text).1
    | defaultGraph => cases text
  · rintro rfl
    exact stored_of_not_literal rfl

theorem stored_blank (kept : t.Kept p) : t.stored p = "_:" ++ rest ↔ t = .blank rest := by
  constructor
  · intro same
    rw [← kept, same]
    cases p <;> rfl
  · rintro rfl
    exact stored_of_not_literal rfl

theorem head_stored : (∃ c ∈ literalBytes, (t.stored p).head? = some c) ↔
    t.isLiteral = true ∨ ∃ c rest, t = .iri (c :: rest) ∧ c ∈ literalBytes := by
  cases t with
  | literal lexical kind => exact iff_of_true head_literal (.inl rfl)
  | iri v =>
    have text : (Term.iri v).stored p = v := stored_of_not_literal rfl
    rw [text]
    constructor
    · rintro ⟨c, mem, first⟩
      obtain ⟨rest, rfl⟩ := List.head?_eq_some_iff.1 first
      exact .inr ⟨c, rest, rfl, mem⟩
    · rintro (no | ⟨c, rest, same, mem⟩)
      · cases no
      · cases same
        exact ⟨c, mem, rfl⟩
  | blank | var | defaultGraph =>
    refine iff_of_false ?_ (by simp [Term.isLiteral])
    rintro ⟨c, mem, first⟩
    rw [stored_of_not_literal rfl] at first
    cases first <;> revert mem <;> decide

theorem search_literalStart (s : Text) :
    ((Regex.read? Condition.literalStart).any (·.search s)) = true ↔ ∃ c ∈ literalBytes, s.head? = some c := by
  let bytes : Regex.ByteSet := ⟨false, [.single (Text.byte '"'), .single (Text.byte 'N'), .single (Text.byte 'D')]⟩
  have read : Regex.read? Condition.literalStart = some (.seq .start (.seq (.one bytes) .empty)) := rfl
  have same (c : UInt8) : bytes.contains c = true ↔ c ∈ literalBytes := by
    simp [bytes, Regex.ByteSet.contains, Regex.ByteItem.contains, literalBytes, Term.quote]
  rw [read, Option.any_some, Regex.search_start]
  cases s with
  | nil => simp [Regex.run]
  | cons c s =>
    have one : ((Regex.seq (.one bytes) .empty).run ⟨none, c :: s, []⟩ some).isSome = bytes.contains c := by
      simp only [Regex.run]
      cases bytes.contains c <;> rfl
    rw [one, same]
    simp

theorem admits_operators (kept : t.Kept p) :
    (Match.operators f.operators).admits p (t.stored p) = true ↔ f.Takes t := by
  have starts (mark : Text) : (Match.operators { startsWith := some mark }).admits p (t.stored p) = true ↔
      ∃ rest, t.stored p = mark ++ rest ∧ rest < Utf8.maxChar := by
    rw [Match.admits, Match.conditions, Operators.conditions_startsWith, Match.regex?, List.all_cons, List.all_nil,
      Bool.and_true, Option.all_none, Bool.and_true]
    exact Condition.startingWith_holds mark _
  cases f with
  | iri | uri =>
    rw [operators, starts]
    simp only [stored_http, Takes]
  | blank =>
    rw [operators, starts]
    simp only [stored_blank kept, Takes]
  | literal =>
    have unled : Regex.lead Condition.literalStart = [] := by decide +kernel
    have asked : ({ regex := some Condition.literalStart } : Operators).conditions p = [] := by
      simp [Operators.conditions, unled]
    rw [operators, Match.admits, Match.conditions, asked, Match.regex?, List.all_nil, Bool.true_and, Option.all_some,
      search_literalStart]
    exact head_stored

/-- What a test of a variable's kind takes of the stored statements, its expression searched too. -/
theorem type_filter_takes {q : Quad} {name : Text} (at_ : q.get p = .var name) :
    ∃ ops, Condition.on? q (.builtin f.builtin [.term (.var name)]) = some (name, ops) ∧
      ∀ k : Quint, (k.get p).Kept p →
        ((({} : Pattern).set p (some (.operators ops))).admits k.toRow = true ↔ f.Takes (k.get p)) := by
  have known := Quad.mem_varNames at_
  have pushed : Condition.ofExpression? (.builtin f.builtin [.term (.var name)]) = some (name, f.operators) := by
    cases f <;> rfl
  refine ⟨f.operators, by simp [Condition.on?, pushed, known], fun k kept => ?_⟩
  rw [Pattern.admits_single, Quint.get_toRow]
  exact admits_operators kept

theorem type_filter_takes_http :
    Pushdown.valueTriple.get .object = .var "o" ∧ (Term.iri "http://ex/o").Kept .object ∧
    ∃ ops, Condition.on? Pushdown.valueTriple (.builtin .isIri [.term (.var "o")]) = some (("o" : Text), ops) ∧
      (({} : Pattern).set .object (some (.operators ops))).admits
        (TextTest.valueStatement (.iri "http://ex/o")).toRow = true := by
  have kept : (Term.iri "http://ex/o").Kept .object := by decide +kernel
  obtain ⟨ops, pushed, takes⟩ := @type_filter_takes .iri .object Pushdown.valueTriple "o" rfl
  refine ⟨rfl, kept, ops, pushed, ?_⟩
  exact (takes (TextTest.valueStatement (.iri "http://ex/o")) kept).2 ⟨"://ex/o", by decide, by decide⟩

theorem type_filter_misses_urn :
    Condition.on? Pushdown.valueTriple (.builtin .isIri [.term (.var "o")]) =
      some (("o" : Text), { startsWith := some "http" }) ∧
    (Term.iri "urn:x:1").Kept .object ∧ (Term.iri "urn:x:1").isIri = true ∧
    (({} : Pattern).set .object (some (.operators { startsWith := some "http" }))).admits
      (TextTest.valueStatement (.iri "urn:x:1")).toRow = false := by
  decide +kernel

end TypeTest

end QuadStore
