import QuadStore.Proofs.KeyOrder
import QuadStore.Proofs.StoredQuints
import QuadStore.Query.Pushdown

namespace QuadStore

open Sql Sparql

namespace Term

def number? : Term → Option Double
  | literal lexical (.datatype d) => if Xsd.isNumeric d then some (Binary.ofText lexical) else none
  | _ => none

end Term

def Sparql.Operator.comparison? : Operator → Option Comparison
  | .lt => some .lt
  | .gt => some .gt
  | .le => some .le
  | .ge => some .ge
  | _ => none

namespace Text

variable {mark s : Text}

theorem lt_append_iff (unmarked : ¬ mark <+: s) (rest : Text) : s < mark ++ rest ↔ s < mark := by
  induction mark generalizing s with
  | nil => exact absurd (List.nil_prefix) unmarked
  | cons c mark ih =>
    cases s with
    | nil => simp
    | cons d s =>
      by_cases same : d = c
      · subst same
        have inner := ih fun h => unmarked (List.cons_prefix_cons.2 ⟨rfl, h⟩)
        simp [inner]
      · simp [List.cons_lt_cons_iff, same]

theorem append_lt_iff (unmarked : ¬ mark <+: s) (rest : Text) : mark ++ rest < s ↔ mark < s := by
  induction mark generalizing s with
  | nil => exact absurd (List.nil_prefix) unmarked
  | cons c mark ih =>
    cases s with
    | nil => simp
    | cons d s =>
      by_cases same : d = c
      · subst same
        have inner := ih fun h => unmarked (List.cons_prefix_cons.2 ⟨rfl, h⟩)
        simp [inner]
      · simp [List.cons_lt_cons_iff, Ne.symm same]

theorem lt_of_ne {a b : Text} (different : a ≠ b) (notAbove : ¬ b < a) : a < b := by
  by_contra notBelow
  exact different (List.le_antisymm notAbove notBelow)

end Text

namespace Binary

variable {f : Format} {x y : Binary f}

theorem lt_asymm (h : x.lt y = true) : y.lt x = false := by
  cases x with
  | nan => cases h
  | infinite a => cases y <;> cases a <;> simp_all [lt]
  | finite a m _ =>
    cases y with
    | nan => cases h
    | infinite b => cases b <;> simp_all [lt]
    | finite b n _ =>
      simp only [lt, decide_eq_true_eq, decide_eq_false_iff_not] at h ⊢
      omega

theorem lt_or_beq_or_lt (hx : x.isNaN = false) (hy : y.isNaN = false) :
    x.lt y = true ∨ x.beq y = true ∨ y.lt x = true := by
  have equal : x.beq y = (!x.lt y && !y.lt x) := by
    cases x with
    | nan => cases hx
    | infinite a => cases y <;> first | rfl | cases hy
    | finite a m _ => cases y <;> first | rfl | cases hy
  rw [equal]
  cases x.lt y <;> cases y.lt x <;> simp

end Binary

namespace Comparison

variable {c : Comparison}

def numbers (c : Comparison) (x y : Double) : Bool :=
  match c with
  | eq => x.beq y
  | ne => !x.beq y
  | gt => y.lt x
  | ge => y.le x
  | lt => x.lt y
  | le => x.le y

def takesEqual : Comparison → Bool
  | eq | ge | le => true
  | ne | gt | lt => false

def takesAbove : Comparison → Bool
  | ne | gt | ge => true
  | eq | lt | le => false

/-- The relation between order keys: numbers of one key count as equal, and NaN as the largest. -/
def keys (c : Comparison) (x y : Double) : Bool :=
  if OrderKey.ofDouble x = OrderKey.ofDouble y then c.takesEqual
  else if x.isNaN then c.takesAbove
  else if y.isNaN then !c.takesAbove
  else c.numbers x y

theorem holds_equal (ordering : c.isOrdering = true) (s : Text) : c.holds s s = c.takesEqual := by
  cases c with
  | eq | ne => cases ordering
  | gt | ge | lt | le => simp [holds, takesEqual]

theorem holds_below (ordering : c.isOrdering = true) {a b : Text} (h : a < b) :
    c.holds a b = !c.takesAbove := by
  have notAbove : ¬ b < a := List.lt_asymm h
  cases c with
  | eq | ne => cases ordering
  | gt | ge | lt | le => simp [holds, takesAbove, h, notAbove]

theorem holds_above (ordering : c.isOrdering = true) {a b : Text} (h : b < a) :
    c.holds a b = c.takesAbove := by
  have notBelow : ¬ a < b := List.lt_asymm h
  cases c with
  | eq | ne => cases ordering
  | gt | ge | lt | le => simp [holds, takesAbove, h, notBelow]

theorem numbers_below {x y : Double} (ordering : c.isOrdering = true) (h : x.lt y = true) :
    c.numbers x y = !c.takesAbove := by
  have back := Binary.lt_asymm h
  cases c with
  | eq | ne => cases ordering
  | gt | ge | lt | le => cases x <;> cases y <;> simp_all [numbers, takesAbove, Binary.le, Binary.beq]

theorem numbers_above {x y : Double} (ordering : c.isOrdering = true) (h : y.lt x = true) :
    c.numbers x y = c.takesAbove := by
  have back := Binary.lt_asymm h
  cases c with
  | eq | ne => cases ordering
  | gt | ge | lt | le => cases x <;> cases y <;> simp_all [numbers, takesAbove, Binary.le, Binary.beq]

theorem holds_ofDouble (ordering : c.isOrdering = true) (x y : Double) :
    c.holds (OrderKey.ofDouble x) (OrderKey.ofDouble y) = c.keys x y := by
  unfold keys
  by_cases same : OrderKey.ofDouble x = OrderKey.ofDouble y
  · rw [if_pos same, same, holds_equal ordering]
  · rw [if_neg same]
    cases nanX : x.isNaN with
    | true =>
      have last : x = .nan := by cases x <;> first | rfl | cases nanX
      have nanY : y.isNaN = false := by
        rw [last] at same
        cases y <;> first | rfl | exact absurd rfl same
      rw [if_pos rfl, last]
      exact holds_above ordering (OrderKey.ofDouble_nan nanY)
    | false =>
      rw [if_neg Bool.false_ne_true]
      cases nanY : y.isNaN with
      | true =>
        have last : y = .nan := by cases y <;> first | rfl | cases nanY
        rw [if_pos rfl, last]
        exact holds_below ordering (OrderKey.ofDouble_nan nanX)
      | false =>
        rw [if_neg Bool.false_ne_true]
        rcases Binary.lt_or_beq_or_lt nanX nanY with less | equal | more
        · have keys := Text.lt_of_ne same (OrderKey.ofDouble_mono less)
          rw [holds_below ordering keys, numbers_below ordering less]
        · exact absurd (OrderKey.ofDouble_congr equal) same
        · have keys := Text.lt_of_ne (Ne.symm same) (OrderKey.ofDouble_mono more)
          rw [holds_above ordering keys, numbers_above ordering more]

/-- Neighbours in the last place may share a key: the larger one is not above the smaller one. -/
example : (Binary.ofText "0.9000000000000001").lt (Binary.ofText "0.9000000000000002" : Double) = true ∧
    Comparison.gt.keys (Binary.ofText "0.9000000000000002") (Binary.ofText "0.9000000000000001") = false := by
  decide +kernel

theorem holds_append (ordering : c.isOrdering = true) (mark a b : Text) :
    c.holds (mark ++ a) (mark ++ b) = c.holds a b := by
  have order : ∀ a b : Text, mark ++ a < mark ++ b ↔ a < b := by
    intro a b
    rw [Text.append_lt_append rfl]
    simp [List.lt_irrefl]
  cases c with
  | eq | ne => cases ordering
  | gt | ge | lt | le => simp only [holds, order]

theorem holds_bound (ordering : c.isOrdering = true) {a b : Text} (length : a.length = b.length)
    {e : UInt8} (low : e < 0xEF) (rest : Text) :
    c.holds (a ++ Term.separator :: e :: rest) (Value.bound c b) = c.holds a b := by
  have behind : ¬ Term.separator :: Utf8.maxChar < Term.separator :: e :: rest := by
    have notLess : ¬ (0xEF : UInt8) < e := UInt8.lt_asymm low
    have notSame : (0xEF : UInt8) ≠ e := (UInt8.ne_of_lt low).symm
    simp [Utf8.maxChar, List.cons_lt_cons_iff, notLess, notSame]
  have below : a ++ Term.separator :: e :: rest < b ↔ a < b := by
    have whole := Text.append_lt_append length (Term.separator :: e :: rest) []
    rw [List.append_nil] at whole
    simp [whole]
  have above : b ++ Term.separator :: Utf8.maxChar < a ++ Term.separator :: e :: rest ↔ b < a := by
    rw [Text.append_lt_append length.symm]
    simp [behind]
  cases c with
  | eq | ne => cases ordering
  | gt | le => simp [holds, Value.bound, isAboveEqual, above]
  | ge | lt => simp [holds, Value.bound, isAboveEqual, below]

/-- Behind one mark, a bound compares the keys and nothing that follows them. -/
theorem holds_keyed (ordering : c.isOrdering = true) (mark : Text) {a b : Text} (length : a.length = b.length)
    {e : UInt8} (low : e < 0xEF) (rest : Text) :
    c.holds (mark ++ a ++ Term.separator :: e :: rest) (Value.bound c (mark ++ b)) = c.holds a b := by
  have marked : (mark ++ a).length = (mark ++ b).length := by simp [length]
  rw [holds_bound ordering marked low, holds_append ordering]

theorem holds_beside (ordering : c.isOrdering = true) {s : Text} (unmarked : ¬ Term.numberMark <+: s)
    (rest : Text) : c.holds s (Term.numberMark ++ rest) = c.holds s Term.numberMark := by
  have below := Text.lt_append_iff unmarked rest
  have above := Text.append_lt_iff unmarked rest
  cases c with
  | eq | ne => cases ordering
  | gt | ge | lt | le => simp only [holds, below, above]

/-- The stored terms that a comparison with a number takes on the column of a position. On objects
numbers are compared by their keys, and other terms with the mark of all numbers; elsewhere the texts
of the terms are compared. -/
def takes (c : Comparison) (bound : Term) (p : Position) (t : Term) : Bool :=
  if p = .object then
    match t.number? with
    | some x => c.keys x (Binary.ofText bound.value)
    | none => c.holds t.encodeObject Term.numberMark
  else c.holds t.encode bound.encode

theorem ordering_of_operator {op : Operator} (h : op.comparison? = some c) : c.isOrdering = true := by
  cases op <;> cases h <;> rfl

end Comparison

namespace Term

theorem number?_eq_some {t : Term} {x : Double} : t.number? = some x ↔
    ∃ lexical d, t = .literal lexical (.datatype d) ∧ Xsd.isNumeric d = true ∧ Binary.ofText lexical = x := by
  constructor
  · intro h
    unfold number? at h
    split at h
    · rename_i lexical d
      by_cases numeric : Xsd.isNumeric d = true
      · exact ⟨lexical, d, rfl, numeric, by simpa [numeric] using h⟩
      · simp [numeric] at h
    · cases h
  · rintro ⟨lexical, d, rfl, numeric, rfl⟩
    simp [number?, numeric]

theorem encodeObject_number {lexical d : Text} (numeric : Xsd.isNumeric d = true) :
    encodeObject (.literal lexical (.datatype d)) =
      numberMark ++ OrderKey.ofText lexical ++ separator :: d ++ separator :: lexical := by
  simp [encodeObject, orderKey?, numeric]

theorem numeric_cons {d : Text} (numeric : Xsd.isNumeric d = true) : ∃ rest, d = 0x68 :: rest := by
  obtain ⟨name, -, rfl⟩ := List.mem_map.1 ((Xsd.isNumeric_iff d).1 numeric)
  exact ⟨_, rfl⟩

theorem encodeObject_unmarked {t : Term} (other : t.number? = none) (unmarked : ¬ numberMark <+: t.encode) :
    ¬ numberMark <+: t.encodeObject := by
  cases hk : t.orderKey? with
  | none =>
    rw [encodeObject_unkeyed t hk]
    exact unmarked
  | some key =>
    obtain ⟨lexical, d, rfl⟩ : ∃ lexical d, t = .literal lexical (.datatype d) := by
      unfold orderKey? at hk
      split at hk
      · exact ⟨_, _, rfl⟩
      · cases hk
    have notNumeric : ¬ Xsd.isNumeric d = true := by
      intro numeric
      simp [number?, numeric] at other
    have time : d = Xsd.dateTime := by
      by_contra no
      simp [orderKey?, notNumeric, no] at hk
    subst time
    simp [encodeObject, orderKey?, notNumeric, numberMark, timeMark, Text.byte]

end Term

theorem Comparison.holds_number {c : Comparison} (ordering : c.isOrdering = true) {lexical d key : Text}
    (numeric : Xsd.isNumeric d = true) (width : key.length = 23) :
    c.holds (Term.encodeObject (.literal lexical (.datatype d))) (Value.bound c (Term.numberMark ++ key)) =
      c.holds (OrderKey.ofText lexical) key := by
  obtain ⟨rest, rfl⟩ := Term.numeric_cons numeric
  have length : (OrderKey.ofText lexical).length = key.length := by
    rw [width]
    exact OrderKey.length_ofDouble _
  rw [Term.encodeObject_number numeric, List.append_assoc _ (_ :: _)]
  exact holds_keyed ordering Term.numberMark length (by decide) (rest ++ Term.separator :: lexical)

namespace Value

variable {c : Comparison} {lexical d : Text}

theorem stored_number (ordering : c.isOrdering = true) (numeric : Xsd.isNumeric d = true) :
    (Value.term (.literal lexical (.datatype d))).stored .object c =
      bound c (Term.numberMark ++ OrderKey.ofText lexical) := by
  simp [stored, Term.orderKey?, numeric, ordering]

theorem stored_elsewhere (numeric : Xsd.isNumeric d = true) {p : Position} (h : p ≠ .object) :
    (Value.term (.literal lexical (.datatype d))).stored p c =
      Term.encode (.literal lexical (.datatype d)) := by
  cases p <;> simp_all [stored, Term.orderKey?, Term.stored]

theorem holds_stored_number (ordering : c.isOrdering = true) (numeric : Xsd.isNumeric d = true)
    (p : Position) {t : Term} (unmarked : ¬ Term.numberMark <+: t.encode) :
    c.holds (t.stored p) ((Value.term (.literal lexical (.datatype d))).stored p c) =
      c.takes (.literal lexical (.datatype d)) p t := by
  unfold Comparison.takes
  by_cases object : p = .object
  · subst object
    rw [stored_number ordering numeric, if_pos rfl]
    change c.holds t.encodeObject _ = _
    cases number : t.number? with
    | some x =>
      obtain ⟨l, e, rfl, numeric', rfl⟩ := Term.number?_eq_some.1 number
      have width : (OrderKey.ofText lexical).length = 23 := OrderKey.length_ofDouble _
      rw [Comparison.holds_number ordering numeric' width]
      exact Comparison.holds_ofDouble ordering _ _
    | none =>
      have other := Term.encodeObject_unmarked number unmarked
      unfold bound
      split
      · rw [List.append_assoc]
        exact Comparison.holds_beside ordering other _
      · exact Comparison.holds_beside ordering other _
  · rw [stored_elsewhere numeric object, if_neg object]
    cases p with
    | object => exact absurd rfl object
    | subject | predicate | graph => rfl

end Value

namespace Pattern

theorem satisfies_single (r : Row) (p : Position) (m : Match) :
    Table.satisfies r (({} : Pattern).set p (some m)).clauses =
      (m.conditions p).all (·.holds (r.get p)) := by
  rw [satisfies_clauses]
  cases p <;> simp [Position.keyOrder, set, get]

end Pattern

namespace Operators

variable {op : Operator} {c : Comparison} {v : Value} {ops : Operators}

theorem conditions_comparing (h : Condition.comparing? op v = some ops) (ordering : op.comparison? = some c)
    (p : Position) : ops.conditions p = [.compare c (v.stored p c)] := by
  cases op <;> cases ordering <;> cases h <;> simp [conditions]

end Operators

namespace Pushdown

variable {q : Quad} {p : Position} {name lexical d : Text} {op : Operator} {c : Comparison}

theorem ofFilter_comparison {left right : Expression} {ops : Operators} (ordering : op.comparison? = some c)
    (pushed : Condition.ofComparison? op left right = some (name, ops)) (known : name ∈ q.varNames) :
    ofFilter q (.binary op left right) = { filters := [(name, ops)] } := by
  have on : Condition.on? q (.binary op left right) = some (name, ops) := by
    simp [Condition.on?, Condition.ofExpression?, pushed, known]
  cases op <;> cases ordering <;> simp [ofFilter, on]

/-- What a condition between a variable and a number takes of the stored statements, whichever of
the two is on the left. -/
theorem number_filter_takes (at_ : q.get p = .var name) (numeric : Xsd.isNumeric d = true)
    (ordering : op.comparison? = some c) :
    ∃ ops,
      ofFilter q (.binary op (.term (.var name)) (.term (.literal lexical (.datatype d)))) =
        { filters := [(name, ops)] } ∧
      ofFilter q (.binary (Condition.exchanged op) (.term (.literal lexical (.datatype d)))
        (.term (.var name))) = { filters := [(name, ops)] } ∧
      ∀ k : Quint, ¬ Term.numberMark <+: (k.get p).encode →
        Table.satisfies k.toRow (({} : Pattern).set p (some (.operators ops))).clauses =
          c.takes (.literal lexical (.datatype d)) p (k.get p) := by
  have known := Quad.mem_varNames at_
  obtain ⟨ops, made⟩ : ∃ ops, Condition.comparing? op (.term (.literal lexical (.datatype d))) = some ops := by
    cases op <;> cases ordering <;> exact ⟨_, rfl⟩
  have exchanged : ∃ c', (Condition.exchanged op).comparison? = some c' := by
    cases op <;> cases ordering <;> exact ⟨_, rfl⟩
  obtain ⟨c', ordering'⟩ := exchanged
  refine ⟨ops, ofFilter_comparison ordering ?_ known, ofFilter_comparison ordering' ?_ known, ?_⟩
  · cases op <;> cases ordering <;> cases made <;> rfl
  · cases op <;> cases ordering <;> cases made <;> rfl
  · intro k unmarked
    rw [Pattern.satisfies_single, Match.conditions, Operators.conditions_comparing made ordering,
      Quint.get_toRow]
    simp only [List.all_cons, List.all_nil, Bool.and_true, Condition.holds]
    exact Value.holds_stored_number (Comparison.ordering_of_operator ordering) numeric p unmarked

/-- The triple of a subject, a fixed predicate and the value to be compared. -/
def valueTriple : Quad := { subject := .var "s", predicate := .iri "http://ex/p", object := .var "o" }

def five : Term := .typed "5" Xsd.integer

theorem number_filter_takes_six :
    valueTriple.get .object = .var "o" ∧ Xsd.isNumeric Xsd.integer = true ∧
    Operator.gt.comparison? = some .gt ∧
    ∃ ops, ofFilter valueTriple (.binary .gt (.term (.var "o")) (.term five)) = { filters := [("o", ops)] } ∧
      Table.satisfies
        (Quint.toRow ⟨⟨.iri "http://ex/s", .iri "http://ex/p", .typed "6" Xsd.integer, .defaultGraph⟩, none⟩)
        (({} : Pattern).set .object (some (.operators ops))).clauses = true := by
  have numeric : Xsd.isNumeric Xsd.integer = true := by decide +kernel
  obtain ⟨ops, pushed, -, takes⟩ :=
    @number_filter_takes valueTriple .object "o" "5" Xsd.integer .gt .gt rfl numeric rfl
  refine ⟨rfl, numeric, rfl, ops, pushed, ?_⟩
  rw [takes _ (by decide)]
  decide +kernel

theorem number_filter_takes_iri :
    ofFilter valueTriple (.binary .gt (.term (.var "o")) (.term five)) =
      { filters := [("o", { gt := some (.term five) })] } ∧
    Table.satisfies
      (Quint.toRow ⟨⟨.iri "http://ex/s", .iri "http://ex/p", .iri "http://ex/o", .defaultGraph⟩, none⟩)
      (({} : Pattern).set .object (some (.operators { gt := some (.term five) }))).clauses = true ∧
    (Term.iri "http://ex/o").number? = none := by
  refine ⟨rfl, ?_, rfl⟩
  decide +kernel

end Pushdown

end QuadStore
