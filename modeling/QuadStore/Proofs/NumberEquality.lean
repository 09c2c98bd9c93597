import QuadStore.Proofs.OperatorPairs
import QuadStore.Proofs.WholeDigits
import QuadStore.Proofs.WholeDoubles

namespace QuadStore

open Sql

namespace Binary

theorem finite_of_whole {x : Double} {n : Int} (whole : x.units? = some (n * Format.double.one)) :
    ∃ negative fits, x = .finite negative (n.natAbs * Format.double.one) fits ∧
      (n ≠ 0 → negative = decide (n < 0)) := by
  cases x with
  | nan => cases whole
  | infinite => cases whole
  | finite negative u fits =>
    rw [units?_finite, Option.some_inj] at whole
    have size : u = n.natAbs * Format.double.one := by
      have sizes := congrArg Int.natAbs whole
      rw [Int.natAbs_mul, Int.natAbs_natCast] at sizes
      rw [← sizes]
      cases negative <;> simp
    generalize n.natAbs * Format.double.one = v at size ⊢
    subst size
    refine ⟨negative, fits, rfl, fun nonzero => ?_⟩
    have unit : (0 : Int) < Format.double.one := Int.natCast_pos.2 Format.double.one_pos
    rcases Int.lt_or_gt_of_ne nonzero with below | above
    · have product := Int.mul_neg_of_neg_of_pos below unit
      rw [decide_eq_true below]
      cases negative with
      | true => rfl
      | false =>
        rw [if_neg Bool.false_ne_true] at whole
        omega
    · have product := Int.mul_pos above unit
      rw [decide_eq_false (by omega)]
      cases negative with
      | false => rfl
      | true =>
        rw [if_pos rfl] at whole
        omega

theorem isWhole_finite {f : Format} (negative : Bool) {k : Nat} (fits : f.Fits (k * f.one)) :
    (Binary.finite negative (k * f.one) fits).isWhole = true := by
  unfold isWhole
  rw [decide_eq_true_iff]
  exact Nat.mul_mod_left k f.one

end Binary

namespace Text

theorem ofInt_eq (n : Int) : ofInt n = (if n < 0 then "-" else "" : Text) ++ ofNat n.natAbs := by
  cases n with
  | ofNat n =>
    rw [Int.ofNat_eq_natCast, if_neg (Int.not_lt.2 (Int.natCast_nonneg n))]
    rfl
  | negSucc n =>
    rw [if_pos (Int.negSucc_lt_zero n)]
    rfl

theorem not_mem_ofInt (n : Int) : byte 'e' ∉ ofInt n := by
  intro mem
  rw [ofInt_eq] at mem
  rcases List.mem_append.1 mem with sign | digit
  · split at sign <;> revert sign <;> decide
  · exact absurd (isDigit_of_mem_ofNat digit) (by decide)

theorem mem_scientific (d : Decimal) : byte 'e' ∈ NumberStyle.scientific d := by
  have mark : byte 'e' ∈ (if d.leading < 0 then "e-" else "e+" : Text) := by
    split <;> decide
  unfold NumberStyle.scientific
  exact List.mem_append_left _ (List.mem_append_right _ mark)

end Text

namespace Value

variable {x : Double} {n : Int}

theorem numberText_whole (whole : x.units? = some (n * Format.double.one)) :
    numberText x = if n.natAbs < 10 ^ 16 then Text.ofInt n
      else (if n < 0 then "-" else "" : Text) ++
        NumberStyle.scientific (Binary.shortest .double (n.natAbs * Format.double.one)) := by
  have floor : x.floor? = some n := by
    unfold Binary.floor?
    rw [whole]
    exact congrArg some (Int.mul_fdiv_cancel n (Int.natCast_pos.2 Format.double.one_pos).ne')
  obtain ⟨negative, fits, rfl, sign⟩ := Binary.finite_of_whole whole
  have isWhole := Binary.isWhole_finite negative fits
  have limit : integerLimit = 10 ^ 15 := rfl
  unfold numberText
  rw [floor]
  dsimp only
  by_cases short : n.natAbs < integerLimit
  · rw [if_pos ⟨isWhole, short⟩, if_pos (by omega)]
  · have pos : 0 < n.natAbs := by omega
    have units : 0 < n.natAbs * Format.double.one := Nat.mul_pos pos Format.double.one_pos
    have back := Binary.readsBack_shortest (f := .double) (by decide) units fits.2
    obtain ⟨-, -, -, -, nonneg⟩ := Binary.shortest_shortened (f := .double) pos fits.2
    have plain : numberStyle.pointed = false := rfl
    have below : numberStyle.positionalBelow = (16 : Nat) := rfl
    have digits := Binary.digits_pos_of_readsBack units back
    have magnitude := Decimal.magnitude_whole digits nonneg plain below (by decide)
    rw [if_neg fun h => short h.2, NumberStyle.write, if_neg units.ne', sign (by omega)]
    simp only [decide_eq_true_eq]
    rw [magnitude]
    by_cases small : n.natAbs < 10 ^ 16
    · have same := Binary.shortest_whole pos small fits
      rw [if_pos small, if_pos (same.trans_lt small), same, Text.ofInt_eq]
    · have least := Binary.power_le_shortest (f := .double) (Nat.le_of_not_lt small) fits.2
      rw [if_neg small, if_neg (Nat.not_lt.2 least)]

theorem numberText_eq_iff (whole : x.units? = some (n * Format.double.one)) :
    numberText x = Text.ofInt n ↔ n.natAbs < 10 ^ 16 := by
  rw [numberText_whole whole]
  by_cases small : n.natAbs < 10 ^ 16
  · simp only [small, if_true]
  · simp only [small, if_false, iff_false]
    intro same
    have mark := List.mem_append_right (if n < 0 then "-" else "" : Text)
      (Text.mem_scientific (Binary.shortest .double (n.natAbs * Format.double.one)))
    rw [same] at mark
    exact Text.not_mem_ofInt n mark

theorem numberLiteral_whole (whole : x.units? = some (n * Format.double.one)) :
    numberLiteral x = .typed (numberText x) Xsd.integer := by
  obtain ⟨negative, fits, rfl, -⟩ := Binary.finite_of_whole whole
  unfold numberLiteral
  dsimp only
  rw [if_pos (Binary.isWhole_finite negative fits)]

theorem stored_equal : (Value.number x).stored .object .eq = (numberLiteral x).encodeObject := rfl

theorem stored_unequal : (Value.number x).stored .object .ne = (numberLiteral x).encodeObject := rfl

end Value

namespace Term

theorem typed_integer (lexical : Text) : typed lexical Xsd.integer = .literal lexical (.datatype Xsd.integer) :=
  congrArg (literal lexical) (if_neg (by decide))

theorem encodeObject_integer_inj {a b : Text} :
    (typed a Xsd.integer).encodeObject = (typed b Xsd.integer).encodeObject ↔ a = b := by
  constructor
  · intro same
    have numeric : Xsd.isNumeric Xsd.integer = true := by decide
    have width : ∀ s : Text, (OrderKey.ofText s).length = 23 := fun s => OrderKey.length_ofDouble _
    rw [typed_integer, typed_integer, encodeObject_number numeric, encodeObject_number numeric] at same
    have length : (numberMark ++ OrderKey.ofText a ++ separator :: Xsd.integer).length =
        (numberMark ++ OrderKey.ofText b ++ separator :: Xsd.integer).length := by
      simp only [List.length_append, width]
    exact List.tail_eq_of_cons_eq (List.append_inj_right same length)
  · exact fun same => by rw [same]

end Term

namespace Store

variable {x : Double} {n : Int} {t : Table} {r : Row}

def byObject (o : Operators) : Pattern := { object := some (.operators o) }

def equalities (x : Double) : List Operators := [{ eq := some (.number x) }, { among := some [.number x] }]

def exclusions (x : Double) : List Operators := [{ ne := some (.number x) }, { notAmong := some [.number x] }]

theorem byObject_admits {o : Operators} (plain : o.regex = none) :
    (byObject o).admits r = (o.conditions .object).all (·.holds r.object) := by
  simp [Pattern.admits, Position.keyOrder, byObject, Pattern.get, Match.admits, Match.conditions, Match.regex?, plain,
    Row.get]

theorem admits_equality {o : Operators} (mem : o ∈ equalities x) :
    (byObject o).admits r = true ↔ r.object = (Value.numberLiteral x).encodeObject := by
  rcases List.mem_pair.1 mem with rfl | rfl <;>
    simp [byObject_admits, Operators.conditions, Condition.holds, Comparison.holds, Value.stored_equal]

theorem admits_exclusion {o : Operators} (mem : o ∈ exclusions x) :
    (byObject o).admits r = true ↔ r.object ≠ (Value.numberLiteral x).encodeObject := by
  rcases List.mem_pair.1 mem with rfl | rfl <;>
    simp [byObject_admits, Operators.conditions, Condition.holds, Comparison.holds, Value.stored_unequal]

theorem get_byObject {o : Operators} (plain : o.regex = none) : get (byObject o) {} ⟨true, t⟩ =
    (.ok ((t.rows.filter (byObject o).admits).map Quint.ofRow), ⟨true, t⟩) := by
  have searches : (byObject o).searches? = some [] := by
    apply Pattern.searches_plain
    simp [Pattern.hasRegex, Pattern.regexes, Position.keyOrder, byObject, Pattern.get, Match.regex?, plain]
  rw [get_open, fetched_all searches]
  rfl

/-- A lookup by a whole number takes the row of the number's digits exactly where the number is printed in full,
and a lookup that excludes the number takes it exactly where it is not. -/
theorem whole_number_lookup (whole : x.units? = some (n * Format.double.one)) (held : r ∈ t.rows)
    (literal : r.object = (Term.typed (Text.ofInt n) Xsd.integer).encodeObject) :
    (∀ o ∈ equalities x ++ exclusions x, get (byObject o) {} ⟨true, t⟩ =
      (.ok ((t.rows.filter (byObject o).admits).map Quint.ofRow), ⟨true, t⟩)) ∧
    (∀ o ∈ equalities x, r ∈ t.rows.filter (byObject o).admits ↔ n.natAbs < 10 ^ 16) ∧
    (∀ o ∈ exclusions x, r ∈ t.rows.filter (byObject o).admits ↔ 10 ^ 16 ≤ n.natAbs) := by
  have found : r.object = (Value.numberLiteral x).encodeObject ↔ n.natAbs < 10 ^ 16 := by
    rw [literal, Value.numberLiteral_whole whole, Term.encodeObject_integer_inj, eq_comm,
      Value.numberText_eq_iff whole]
  refine ⟨?_, ?_, ?_⟩
  · intro o mem
    apply get_byObject
    rcases List.mem_append.1 mem with mem | mem <;> rcases List.mem_pair.1 mem with rfl | rfl <;> rfl
  · intro o mem
    rw [List.mem_filter, admits_equality mem, found]
    exact and_iff_right held
  · intro o mem
    rw [List.mem_filter, admits_exclusion mem, Ne, found, Nat.not_lt]
    exact and_iff_right held

def numbered (digits : Text) : Row :=
  ⟨"", "http://ex/s", "http://ex/p", (Term.typed digits Xsd.integer).encodeObject, none⟩

def holding (digits : Text) : Table := { Table.empty true with rows := [numbered digits] }

theorem whole_number_lookup_seven :
    (Binary.ofInt 7 : Double).units? = some ((7 : Int) * Format.double.one) ∧
    numbered "7" ∈ (holding "7").rows ∧
    (∀ o ∈ equalities (.ofInt 7), numbered "7" ∈ (holding "7").rows.filter (byObject o).admits) ∧
    (∀ o ∈ exclusions (.ofInt 7), numbered "7" ∉ (holding "7").rows.filter (byObject o).admits) := by
  have whole : (Binary.ofInt 7 : Double).units? = some ((7 : Int) * Format.double.one) := by decide +kernel
  have held : numbered "7" ∈ (holding "7").rows := List.mem_singleton.2 rfl
  have literal : (numbered "7").object = (Term.typed (Text.ofInt 7) Xsd.integer).encodeObject := rfl
  obtain ⟨-, takes, excludes⟩ := whole_number_lookup whole held literal
  refine ⟨whole, held, fun o mem => (takes o mem).2 (by decide), fun o mem taken => ?_⟩
  exact absurd ((excludes o mem).1 taken) (by decide)

theorem whole_number_lookup_misses :
    (Binary.ofInt (10 ^ 16) : Double).units? = some ((10 : Int) ^ 16 * Format.double.one) ∧
    get (byObject { eq := some (.number (.ofInt (10 ^ 16))) }) {} ⟨true, holding "10000000000000000"⟩ =
      (.ok [], ⟨true, holding "10000000000000000"⟩) := by
  refine ⟨by decide +kernel, ?_⟩
  have none_ : (holding "10000000000000000").rows.filter
      (byObject { eq := some (.number (.ofInt (10 ^ 16))) }).admits = [] := by decide +kernel
  rw [get_byObject rfl, none_]
  rfl

end Store

end QuadStore
