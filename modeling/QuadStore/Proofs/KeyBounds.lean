import QuadStore.Proofs.Chronology
import QuadStore.Proofs.NumberFilter

namespace QuadStore

/-- What is stored in the order of its values. -/
inductive Scale where
  | number
  | time
  deriving DecidableEq

/-- The literals of a scale with their keys. A number may have any lexical form; a time is one that can
be read. -/
inductive Term.Measures : Scale → Text → Term → Prop
  | number {d : Text} (numeric : Xsd.isNumeric d = true) (lexical : Text) :
      Measures .number (OrderKey.ofText lexical) (.literal lexical (.datatype d))
  | time {lexical : Text} (valid : (DateTime.millisOf? lexical).isSome = true) :
      Measures .time (OrderKey.ofTime lexical) (.literal lexical (.datatype Xsd.dateTime))

/-- The bounds on a scale with their keys. -/
inductive Value.Bounds : Scale → Text → Value → Prop
  | number (x : Double) : Bounds .number (OrderKey.ofDouble x) (.number x)
  | numeric {d : Text} (numeric : Xsd.isNumeric d = true) (lexical : Text) :
      Bounds .number (OrderKey.ofText lexical) (.term (.literal lexical (.datatype d)))
  | time (lexical : Text) :
      Bounds .time (OrderKey.ofTime lexical) (.term (.literal lexical (.datatype Xsd.dateTime)))

namespace Scale

def mark : Scale → Text
  | number => Term.numberMark
  | time => Term.timeMark

end Scale

namespace DateTime

theorem millisOf?_head {s : Text} (valid : (millisOf? s).isSome = true) : ∃ c rest, s = c :: rest ∧ c < 0xEF := by
  cases s with
  | nil =>
    have unread : read? [] = none := rfl
    rw [millisOf?, unread] at valid
    cases valid
  | cons c rest =>
    refine ⟨c, rest, rfl, ?_⟩
    by_cases space : Ascii.isSpace c = true
    · simp only [Ascii.isSpace, Bool.or_eq_true, Bool.and_eq_true, decide_eq_true_eq] at space
      rcases space with blank | ⟨-, last⟩
      · rw [blank]
        decide
      · exact UInt8.lt_of_le_of_lt last (by decide)
    · have whole : (c :: rest).dropWhile Ascii.isSpace = c :: rest := List.dropWhile_cons_of_neg space
      by_cases minus : c = Text.byte '-'
      · rw [minus]
        decide
      · by_cases digit : Ascii.isDigit c = true
        · simp only [Ascii.isDigit, Bool.and_eq_true, decide_eq_true_eq] at digit
          exact UInt8.lt_of_le_of_lt digit.2 (by decide)
        · have noYear : year? (c :: rest) = none := by
            simp [year?, byte?, minus, List.takeWhile_cons_of_neg digit]
          have unread : read? (c :: rest) = none := by
            rw [read?, whole, noYear]
            rfl
          rw [millisOf?, unread] at valid
          cases valid

end DateTime

namespace Value

variable {c : Comparison}

theorem stored_bound {scale : Scale} {key : Text} {b : Value} (ordering : c.isOrdering = true)
    (bounds : b.Bounds scale key) : b.stored .object c = bound c (scale.mark ++ key) := by
  cases bounds with
  | number x => simp [stored, ordering, Term.numberKey, Scale.mark]
  | numeric numeric lexical => exact stored_number ordering numeric
  | time lexical =>
    have other : Xsd.isNumeric Xsd.dateTime = false := by decide
    simp [stored, Term.orderKey?, other, ordering, Scale.mark]

theorem Bounds.width {scale : Scale} {key : Text} {b : Value} (bounds : b.Bounds scale key) : key.length = 23 := by
  cases bounds with
  | number x => exact OrderKey.length_ofDouble x
  | numeric numeric lexical => exact OrderKey.length_ofDouble _
  | time lexical => exact DateTime.length_ofTime lexical

end Value

namespace Term

/-- A comparison with a bound on the scale of a literal is the comparison of their keys. -/
theorem Measures.holds {c : Comparison} (ordering : c.isOrdering = true) {scale : Scale} {key key' : Text}
    {t : Term} {b : Value} (measures : t.Measures scale key) (bounds : b.Bounds scale key') :
    c.holds t.encodeObject (b.stored .object c) = c.holds key key' := by
  rw [Value.stored_bound ordering bounds]
  have width := bounds.width
  cases measures with
  | number numeric lexical => exact Comparison.holds_number ordering numeric width
  | @time lexical valid =>
    obtain ⟨first, rest, rfl, low⟩ := DateTime.millisOf?_head valid
    have same : (OrderKey.ofTime (first :: rest)).length = key'.length :=
      (DateTime.length_ofTime _).trans width.symm
    have text : encodeObject (.literal (first :: rest) (.datatype Xsd.dateTime)) =
        timeMark ++ OrderKey.ofTime (first :: rest) ++ separator :: first :: rest :=
      DateTime.encodeObject_time _
    rw [text]
    exact Comparison.holds_keyed ordering timeMark same low rest

end Term

namespace Scale

variable {scale : Scale} {key key' : Text} {t : Term} {b : Value}

/-- Open and closed bounds on objects, in bytes of stored texts, are open and closed bounds on keys. -/
theorem bounds_exact (measures : t.Measures scale key) (bounds : b.Bounds scale key') :
    (Comparison.gt.holds t.encodeObject (b.stored .object .gt) = true ↔ key' < key) ∧
    (Comparison.ge.holds t.encodeObject (b.stored .object .ge) = true ↔ key' ≤ key) ∧
    (Comparison.lt.holds t.encodeObject (b.stored .object .lt) = true ↔ key < key') ∧
    (Comparison.le.holds t.encodeObject (b.stored .object .le) = true ↔ key ≤ key') := by
  have compared : ∀ c : Comparison, c.isOrdering = true →
      c.holds t.encodeObject (b.stored .object c) = c.holds key key' :=
    fun c ordering => measures.holds ordering bounds
  refine ⟨?_, ?_, ?_, ?_⟩
  · rw [compared .gt rfl]
    simp [Comparison.holds]
  · rw [compared .ge rfl]
    simp [Comparison.holds]
  · rw [compared .lt rfl]
    simp [Comparison.holds]
  · rw [compared .le rfl]
    simp [Comparison.holds]

def fiveDecimal : Term := .literal "05.00" (.datatype Xsd.decimal)

theorem bounds_exact_five :
    fiveDecimal.Measures .number (OrderKey.ofText "05.00") ∧
    (Value.number (.ofInt 5)).Bounds .number (OrderKey.ofText "05.00") ∧
    Comparison.gt.holds fiveDecimal.encodeObject ((Value.number (.ofInt 5)).stored .object .gt) = false ∧
    Comparison.ge.holds fiveDecimal.encodeObject ((Value.number (.ofInt 5)).stored .object .ge) = true ∧
    Comparison.lt.holds fiveDecimal.encodeObject ((Value.number (.ofInt 5)).stored .object .lt) = false ∧
    Comparison.le.holds fiveDecimal.encodeObject ((Value.number (.ofInt 5)).stored .object .le) = true := by
  have numeric : Xsd.isNumeric Xsd.decimal = true := by decide +kernel
  have same : OrderKey.ofDouble (.ofInt 5) = OrderKey.ofText "05.00" := by decide +kernel
  have measures : fiveDecimal.Measures .number (OrderKey.ofText "05.00") := .number numeric _
  have bounds : (Value.number (.ofInt 5)).Bounds .number (OrderKey.ofText "05.00") := by
    rw [← same]
    exact .number _
  obtain ⟨above, atLeast, below, atMost⟩ := bounds_exact measures bounds
  refine ⟨measures, bounds, ?_, atLeast.2 (List.le_refl _), ?_, atMost.2 (List.le_refl _)⟩
  · rw [Bool.eq_false_iff]
    exact fun holds => List.lt_irrefl _ (above.1 holds)
  · rw [Bool.eq_false_iff]
    exact fun holds => List.lt_irrefl _ (below.1 holds)

end Scale

end QuadStore
