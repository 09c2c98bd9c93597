import QuadStore.Proofs.WholeKeys

namespace QuadStore

open OrderKey

namespace DateTime

def inDoubles (d : DateTime) : Double :=
  let days := (Binary.ofInt d.daysSinceEpoch).scale 86400000
  let minutes := ((Binary.ofInt d.hour).scale 3600).add ((Binary.ofInt d.minute).scale 60)
  let seconds := (minutes.add (.ofInt d.second)).scale 1000
  ((days.add seconds).add (.ofInt (fractionMillis d.fraction))).sub ((Binary.ofInt d.offset).scale 60000)

/-- The milliseconds of a text since the start of 1970 as a double; NaN if it is no date of the calendar. -/
def epochMillis (s : Text) : Double :=
  match read? s with
  | some d => if d.isValid then d.inDoubles else .nan
  | none => .nan

theorem twoDigits?_lt {s rest : Text} {n : Nat} (h : twoDigits? s = some (n, rest)) : n < 100 := by
  unfold twoDigits? at h
  split at h
  · rename_i a b more
    split at h
    · rename_i digits
      cases h
      obtain ⟨first, second⟩ := Bool.and_eq_true_iff.1 digits
      have all : ∀ c ∈ [a, b], Ascii.isDigit c = true := by simp [first, second]
      exact Text.toNat_lt all
    · cases h
  · cases h

theorem fraction?_digits {s digits rest : Text} (h : fraction? s = some (digits, rest)) :
    ∀ c ∈ digits, Ascii.isDigit c = true := by
  unfold fraction? at h
  split at h
  · cases h
    exact fun c mem => absurd mem List.not_mem_nil
  · dsimp only at h
    split at h
    · cases h
    · cases h
      exact fun c mem => List.mem_takeWhile_imp mem

def furthest : Nat := 99 * 60 + 99

theorem zone?_le {s rest : Text} {n : Int} (h : zone? s = some (n, rest)) : n.natAbs ≤ furthest := by
  unfold zone? at h
  split at h
  · cases h
    exact Nat.zero_le _
  · split at h
    · cases h
      exact Nat.zero_le _
    · split at h
      · obtain ⟨⟨hours, s'⟩, hours_, h⟩ := Option.bind_eq_some_iff.1 h
        obtain ⟨s'', -, h⟩ := Option.bind_eq_some_iff.1 h
        obtain ⟨⟨minutes, s'''⟩, minutes_, h⟩ := Option.bind_eq_some_iff.1 h
        have hoursLess := twoDigits?_lt hours_
        have minutesLess := twoDigits?_lt minutes_
        cases h
        unfold furthest
        split <;> omega
      · cases h
        exact Nat.zero_le _

theorem read?_parts {s : Text} {d : DateTime} (h : read? s = some d) :
    (∀ c ∈ d.fraction, Ascii.isDigit c = true) ∧ d.offset.natAbs ≤ furthest := by
  unfold read? at h
  obtain ⟨⟨year, s⟩, -, h⟩ := Option.bind_eq_some_iff.1 h
  obtain ⟨⟨month, s⟩, -, h⟩ := Option.bind_eq_some_iff.1 h
  obtain ⟨⟨day, s⟩, -, h⟩ := Option.bind_eq_some_iff.1 h
  obtain ⟨⟨hour, s⟩, -, h⟩ := Option.bind_eq_some_iff.1 h
  obtain ⟨⟨minute, s⟩, -, h⟩ := Option.bind_eq_some_iff.1 h
  obtain ⟨⟨second, s⟩, -, h⟩ := Option.bind_eq_some_iff.1 h
  obtain ⟨⟨fraction, s⟩, fraction_, h⟩ := Option.bind_eq_some_iff.1 h
  obtain ⟨⟨offset, s⟩, offset_, h⟩ := Option.bind_eq_some_iff.1 h
  dsimp only at h
  split at h
  · cases h
    exact ⟨fraction?_digits fraction_, zone?_le offset_⟩
  · cases h

theorem significand?_point {digits : Text} (some_ : digits ≠ []) (all : ∀ c ∈ digits, Ascii.isDigit c = true) :
    Binary.Reading.significand? Ascii.isDigit (Text.byte '.' :: digits) = some ([], digits, []) := by
  have stop : ∀ c ∈ ([] : Text).head?, Ascii.isDigit c = false := fun c mem => absurd mem (by simp)
  have take := Text.takeWhile_run all stop
  have drop := Text.dropWhile_run all stop
  rw [List.append_nil] at take drop
  have none_ : (Text.byte '.' :: digits).takeWhile Ascii.isDigit = [] := rfl
  have point : (Text.byte '.' :: digits).dropWhile Ascii.isDigit = Text.byte '.' :: digits := rfl
  unfold Binary.Reading.significand?
  simp only [none_, point, if_true, take, drop]
  simp [some_]

theorem ofText_fraction {digits : Text} (some_ : digits ≠ []) (all : ∀ c ∈ digits, Ascii.isDigit c = true) :
    Binary.ofText (Text.byte '.' :: digits) =
      Binary.ofScaled false 10 (Text.toNat 10 digits) (-(digits.length : Int)) := by
  have whole : Text.upToNul (Text.byte '.' :: digits) = Text.byte '.' :: digits := by
    rw [Text.upToNul, List.takeWhile_eq_self_iff]
    intro c mem
    rcases List.mem_cons.1 mem with rfl | mem
    · decide
    · apply decide_eq_true
      rintro rfl
      exact absurd (all 0 mem) (by decide)
  have decimal : Binary.Reading.decimal? false (Text.byte '.' :: digits) =
      some (Binary.ofScaled false 10 (Text.toNat 10 digits) (-(digits.length : Int)), []) := by
    unfold Binary.Reading.decimal?
    rw [significand?_point some_ all]
    simp [Binary.Reading.exponent]
  have infinity : Binary.Reading.infinity? false (Text.byte '.' :: digits) = none := rfl
  have nan : Binary.Reading.nan? (Text.byte '.' :: digits) = none := rfl
  have hexadecimal : Binary.Reading.hexadecimal? false (Text.byte '.' :: digits) = none := rfl
  have unsigned : Binary.Reading.signed ((Text.byte '.' :: digits).dropWhile Ascii.isSpace) =
      (false, Text.byte '.' :: digits) := rfl
  unfold Binary.ofText Binary.read?
  rw [whole, unsigned]
  dsimp only
  rw [infinity, nan, hexadecimal, decimal]
  rfl

theorem ofScaled_below {n k : Nat} (small : n < 10 ^ k) :
    ∃ u, Magnitude (Binary.ofScaled false 10 n (-(k : Int))) u ∧ u ≤ one := by
  have zero : Magnitude (.ofUnits false 0 1) 0 := zero_magnitude
  unfold Binary.ofScaled
  split
  · exact ⟨0, zero, Nat.zero_le _⟩
  · rename_i some_
    have length : (Nat.toDigits 10 n).length ≤ k := by
      rcases Nat.eq_zero_or_pos k with rfl | pos
      · omega
      · exact (Nat.length_toDigits_le_iff (by decide) pos).2 small
    dsimp only
    have range : ¬ Binary.digitRange < ((Nat.toDigits 10 n).length : Int) + -(k : Int) := by
      unfold Binary.digitRange
      omega
    rw [if_neg range]
    split
    · exact ⟨0, zero, Nat.zero_le _⟩
    · have powers : (-(k : Int)).toNat = 0 ∧ (- -(k : Int)).toNat = k := by omega
      rw [powers.1, powers.2]
      have below : Format.double.nearest (n * Nat.pow 10 0 * one) (Nat.pow 10 k) ≤ one := by
        calc Format.double.nearest (n * Nat.pow 10 0 * one) (Nat.pow 10 k)
            ≤ Format.double.nearest (one * Nat.pow 10 k) (Nat.pow 10 k) := by
              apply Format.double.nearest_mono _ (Nat.pow_pos (by decide))
              rw [Nat.mul_comm one]
              exact Nat.mul_le_mul_right one (by simpa using small.le)
          _ = one := Format.double.nearest_exact one_fits.2 (Nat.pow_pos (by decide))
      exact ⟨_, ofUnits_magnitude (lt_limit (below.trans (by omega))), below⟩

theorem floor?_magnitude {x : Double} {u : Nat} (h : Magnitude x u) : x.floor? = some ((u / one : Nat) : Int) := by
  obtain ⟨fits, rfl⟩ := h
  unfold Binary.floor?
  rw [Binary.units?_finite, Option.map_some, if_neg Bool.false_ne_true, Int.natCast_ediv,
    Int.fdiv_eq_ediv_of_nonneg _ (Int.natCast_nonneg _)]
  rfl

theorem scale_below {x : Double} {u : Nat} (h : Magnitude x u) (below : u ≤ one) :
    ∃ v, Magnitude (x.scale 1000) v ∧ v ≤ one * 1000 := by
  have scaled : Format.double.nearest (u * 1000) 1 ≤ one * 1000 := by
    calc Format.double.nearest (u * 1000) 1 ≤ Format.double.nearest (1000 * one) 1 :=
          Format.double.nearest_mono (by omega) (by decide)
      _ = 1000 * one := nearest_whole (by decide)
      _ = one * 1000 := Nat.mul_comm 1000 one
  obtain ⟨fits, rfl⟩ := h
  refine ⟨_, ofUnits_magnitude (Nat.lt_of_le_of_lt scaled ?_), scaled⟩
  rw [Nat.mul_comm]
  exact (fits_whole (by decide)).1

theorem fractionMillis_range {digits : Text} (all : ∀ c ∈ digits, Ascii.isDigit c = true) :
    0 ≤ fractionMillis digits ∧ fractionMillis digits ≤ 1000 := by
  unfold fractionMillis
  split
  · decide
  · rename_i some_
    rw [ofText_fraction some_ all]
    obtain ⟨u, part, below⟩ := ofScaled_below (Text.toNat_lt all)
    obtain ⟨v, millis, most⟩ := scale_below part below
    rw [floor?_magnitude millis, Option.getD_some]
    have whole := Nat.div_le_of_le_mul most
    generalize v / one = n at whole
    omega

theorem monthLengths_le (year : Nat) {k : Nat} (small : k < 12) :
    ((monthLengths year).take k).foldl (· + ·) 0 ≤ 366 ∧ (monthLengths year).getD k 0 ≤ 31 := by
  have all : ∀ leap : Bool, ∀ k < 12,
      ([31, if leap then 29 else 28, 31, 30, 31, 30, 31, 31, 30, 31, 30, 31].take k).foldl (· + ·) 0 ≤ 366 ∧
        [31, if leap then 29 else 28, 31, 30, 31, 30, 31, 31, 30, 31, 30, 31].getD k 0 ≤ 31 := by
    decide
  exact all (isLeap year) k small

theorem daysSinceEpoch_range {d : DateTime} (valid : d.isValid = true) :
    -208200 ≤ d.daysSinceEpoch ∧ d.daysSinceEpoch ≤ 2933000 := by
  simp only [isValid, Bool.and_eq_true, decide_eq_true_eq] at valid
  obtain ⟨⟨⟨⟨⟨⟨⟨⟨first, last⟩, _⟩, month⟩, _⟩, day⟩, -⟩, -⟩, -⟩ := valid
  obtain ⟨before, length⟩ := monthLengths_le d.year (k := d.month - 1) (by omega)
  have epoch : dayNumber 1970 1 1 = 719162 := by decide
  unfold daysSinceEpoch
  rw [epoch]
  unfold dayNumber daysBeforeYear
  dsimp only
  generalize ((monthLengths d.year).take (d.month - 1)).foldl (· + ·) 0 = months at *
  omega

theorem time_le {d : DateTime} (valid : d.isValid = true) : d.hour ≤ 24 ∧ d.minute ≤ 59 ∧ d.second ≤ 60 := by
  simp only [isValid, Bool.and_eq_true, decide_eq_true_eq] at valid
  exact ⟨valid.1.1.2, valid.1.2, valid.2⟩

theorem millis?_valid {d : DateTime} (valid : d.isValid = true) :
    d.millis? = some (d.daysSinceEpoch * 86400000 + (d.hour * 3600 + d.minute * 60 + d.second : Nat) * 1000 +
      fractionMillis d.fraction - d.offset * 60000) := by
  unfold millis?
  rw [if_pos valid]

theorem isWhole_ofNat {n : Nat} (small : n < wholeLimit) : IsWhole (.ofInt n) n :=
  isWhole_ofInt (by rwa [Int.natAbs_natCast])

/-- No step of the sum is rounded, and the sum is in the range of strict keys. -/
theorem inDoubles_exact {d : DateTime} (valid : d.isValid = true)
    (fraction : ∀ c ∈ d.fraction, Ascii.isDigit c = true) (zone : d.offset.natAbs ≤ furthest) :
    ∃ m, d.millis? = some m ∧ Exact d.inDoubles m := by
  obtain ⟨early, late⟩ := daysSinceEpoch_range valid
  obtain ⟨hour, minute, second⟩ := time_le valid
  obtain ⟨least, most⟩ := fractionMillis_range fraction
  have limit : wholeLimit = 9007199254740992 := by decide
  have below : mostBelow = 18000000000000 := by decide
  have above : mostAbove = 253420000000000 := by decide
  have away : furthest = 6039 := by decide
  rw [away] at zone
  refine ⟨_, millis?_valid valid, ?_, ?_, ?_⟩
  · have days := (isWhole_ofInt (n := d.daysSinceEpoch) (by omega)).scale (k := 86400000) (by decide) (by omega)
    have hours := (isWhole_ofNat (n := d.hour) (by omega)).scale (k := 3600) (by decide) (by omega)
    have minutes := (isWhole_ofNat (n := d.minute) (by omega)).scale (k := 60) (by decide) (by omega)
    have seconds := ((hours.add minutes (by omega)).add (isWhole_ofNat (n := d.second) (by omega)) (by omega)).scale
      (k := 1000) (by decide) (by omega)
    have fractions := isWhole_ofInt (n := fractionMillis d.fraction) (by omega)
    have zones := (isWhole_ofInt (n := d.offset) (by omega)).scale (k := 60000) (by decide) (by omega)
    have total := ((days.add seconds (by omega)).add fractions (by omega)).sub zones.units? (by omega)
    push_cast at total ⊢
    exact total
  · omega
  · omega

theorem epochMillis_exact {s : Text} (date : (epochMillis s).isNaN = false) :
    ∃ m, millisOf? s = some m ∧ Exact (epochMillis s) m := by
  unfold epochMillis millisOf? at *
  cases read : read? s with
  | none =>
    rw [read] at date
    cases date
  | some d =>
    rw [read] at date
    dsimp only at date ⊢
    by_cases valid : d.isValid = true
    · obtain ⟨fraction, zone⟩ := read?_parts read
      rw [if_pos valid]
      exact inDoubles_exact valid fraction zone
    · rw [if_neg valid] at date
      cases date

def timeKey (s : Text) : Text := ((Term.typed s Xsd.dateTime).encodeObject.drop Term.timeMark.length).take 23

theorem encodeObject_time (s : Text) :
    (Term.typed s Xsd.dateTime).encodeObject = Term.timeMark ++ OrderKey.ofTime s ++ Term.separator :: s := by
  have typed : Term.typed s Xsd.dateTime = .literal s (.datatype Xsd.dateTime) := rfl
  have other : Xsd.isNumeric Xsd.dateTime = false := by decide
  rw [typed]
  simp [Term.encodeObject, Term.orderKey?, other]

theorem length_ofTime (s : Text) : (OrderKey.ofTime s).length = 23 := by
  unfold OrderKey.ofTime
  split <;> exact length_ofDouble _

theorem timeKey_eq (s : Text) : timeKey s = OrderKey.ofTime s := by
  unfold timeKey
  rw [encodeObject_time, List.append_assoc, List.drop_left, List.take_left' (length_ofTime s)]

theorem timeKey_exact {s : Text} {m : Int} (time : millisOf? s = some m) (whole : Exact (epochMillis s) m) :
    timeKey s = ofDouble (epochMillis s) := by
  rw [timeKey_eq, OrderKey.ofTime, time]
  dsimp only
  rw [(isWhole_ofInt whole.small).unique whole.whole]

/-- Times are keyed in the order of their milliseconds, which are whole numbers; no two of them share a
key. -/
theorem times_chronological {a b : Text} (ha : (epochMillis a).isNaN = false) (hb : (epochMillis b).isNaN = false) :
    ∃ m n : Int, millisOf? a = some m ∧ (epochMillis a).units? = some (m * one) ∧
      millisOf? b = some n ∧ (epochMillis b).units? = some (n * one) ∧ (timeKey a).length = 23 ∧
      (timeKey a < timeKey b ↔ m < n) ∧ (timeKey a = timeKey b ↔ m = n) ∧ (timeKey b < timeKey a ↔ n < m) := by
  obtain ⟨m, timeA, exactA⟩ := epochMillis_exact ha
  obtain ⟨n, timeB, exactB⟩ := epochMillis_exact hb
  rw [timeKey_exact timeA exactA, timeKey_exact timeB exactB]
  exact ⟨m, n, timeA, exactA.whole.units?, timeB, exactB.whole.units?, length_ofDouble _,
    exactA.key_lt_iff exactB, exactA.key_eq_iff exactB, exactB.key_lt_iff exactA⟩

def lastMillisecond : Text := "9999-12-31T24:59:60.9999-99:99"

def secondToLast : Text := "9999-12-31T24:59:60.9989-99:99"

theorem times_chronological_last :
    (epochMillis secondToLast).isNaN = false ∧ (epochMillis lastMillisecond).isNaN = false ∧
      timeKey secondToLast < timeKey lastMillisecond := by
  have before : (epochMillis secondToLast).isNaN = false := by decide +kernel
  have last : (epochMillis lastMillisecond).isNaN = false := by decide +kernel
  have next : (millisOf? secondToLast).map (· + 1) = millisOf? lastMillisecond := by decide +kernel
  obtain ⟨m, n, timeM, -, timeN, -, -, order, -⟩ := times_chronological before last
  rw [timeM, timeN, Option.map_some, Option.some_inj] at next
  exact ⟨before, last, order.2 (by omega)⟩

end DateTime

end QuadStore
