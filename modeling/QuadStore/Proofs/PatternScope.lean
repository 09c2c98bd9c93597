import QuadStore.Proofs.Digits
import QuadStore.Proofs.StoredQuints

namespace QuadStore

open Sql Step

theorem Ascii.not_space_of_digit {c : UInt8} (digit : Ascii.isDigit c = true) :
    Ascii.isSpace c = false := by
  simp only [Ascii.isDigit, Ascii.isSpace, Bool.and_eq_true, Bool.or_eq_false_iff,
    decide_eq_true_eq, decide_eq_false_iff_not, Bool.and_eq_false_imp, UInt8.le_iff_toNat_le] at *
  have low : 48 ≤ c.toNat := digit.1
  constructor
  · rintro rfl
    exact absurd low (by decide)
  · intro _
    change ¬ c.toNat ≤ 13
    omega

namespace Store

theorem readCount?_ofNat (n : Nat) : readCount? (Text.ofNat n) = some (n : Int) := by
  have digits : ∀ c ∈ Text.ofNat n, Ascii.isDigit c = true := fun c => Text.isDigit_of_mem_ofNat
  have whole : (Text.ofNat n).takeWhile Ascii.isDigit = Text.ofNat n :=
    List.takeWhile_eq_self_iff.2 digits
  have number := Text.toNat_ofNat n
  have ne := Text.ofNat_ne_nil n
  cases text : Text.ofNat n with
  | nil => exact absurd text ne
  | cons c rest =>
    rw [text] at digits whole number
    have digit := digits c List.mem_cons_self
    have minus : c ≠ Text.byte '-' := by
      rintro rfl
      exact absurd digit (by decide)
    have plus : c ≠ Text.byte '+' := by
      rintro rfl
      exact absurd digit (by decide)
    have unspaced : (c :: rest).dropWhile Ascii.isSpace = c :: rest :=
      List.dropWhile_cons_of_neg (by simp [Ascii.not_space_of_digit digit])
    have unsigned : Binary.Reading.signed (c :: rest) = (false, c :: rest) := by
      rw [Binary.Reading.signed, if_neg minus, if_neg plus]
    simp [readCount?, unspaced, unsigned, whole, number]

theorem counted_apply {q : Query} {t : Table} {n : Nat} (answer : t.answer q = Table.counted n) :
    counted q ⟨true, t⟩ = (.ok (n : Int), ⟨true, t⟩) := by
  have text : Record.text [("count", some (Text.ofNat n))] "count" = Text.ofNat n := rfl
  unfold counted
  rw [bind_apply, query_apply, answer]
  simp only [Table.counted, text, readCount?_ofNat]
  rfl

end Store

namespace Sql.Row

variable {a b : Row}

theorem sameKey_iff : a.sameKey b = true ↔ ∀ p, a.get p = b.get p := by
  rw [sameKey, List.all_eq_true]
  constructor
  · intro same p
    exact of_decide_eq_true (same p (by cases p <;> decide))
  · intro same p _
    exact decide_eq_true (same p)

theorem sameKey_self (r : Row) : r.sameKey r = true := sameKey_iff.2 fun _ => rfl

def keyAmong (keys : List Row) (r : Row) : Bool := keys.any r.sameKey

end Sql.Row

namespace Pattern

variable {p : Pattern} {a b : Row}

theorem admits_of_sameKey (same : a.sameKey b = true) : p.admits a = p.admits b := by
  unfold admits
  congr 1
  funext position
  rw [Row.sameKey_iff.1 same position]

/-- The keys of the rows that a pattern takes name these rows and no others. -/
theorem keyAmong_admitted {rows : List Row} (mem : a ∈ rows) :
    a.keyAmong (rows.filter p.admits) = p.admits a := by
  rw [Bool.eq_iff_iff, Row.keyAmong, List.any_eq_true]
  constructor
  · rintro ⟨k, chosen, same⟩
    rw [admits_of_sameKey same]
    exact (List.mem_filter.1 chosen).2
  · intro admitted
    exact ⟨a, List.mem_filter.2 ⟨mem, admitted⟩, a.sameKey_self⟩

end Pattern

namespace Sql.Table

variable (t : Table) (payload : Text) {chosen chosen' : Row → Bool}

def marked (chosen : Row → Bool) : Table :=
  { t with rows := t.rows.map fun r => if chosen r then { r with vector := some payload } else r }

def without (chosen : Row → Bool) : Table := { t with rows := t.rows.filter fun r => !chosen r }

def guards (chosen : Row → Bool) : Bool :=
  t.rows.any fun r => chosen r && t.guarded.contains r.subject

theorem marked_congr (same : ∀ r ∈ t.rows, chosen r = chosen' r) :
    t.marked payload chosen = t.marked payload chosen' := by
  unfold marked
  congr 1
  exact List.map_congr_left fun r mem => by rw [same r mem]

theorem without_congr (same : ∀ r ∈ t.rows, chosen r = chosen' r) :
    t.without chosen = t.without chosen' := by
  unfold without
  congr 1
  exact List.filter_congr fun r mem => by rw [same r mem]

theorem guards_congr (same : ∀ r ∈ t.rows, chosen r = chosen' r) :
    t.guards chosen = t.guards chosen' := by
  unfold guards
  rw [Bool.eq_iff_iff, List.any_eq_true, List.any_eq_true]
  constructor
  · rintro ⟨r, mem, h⟩
    exact ⟨r, mem, by rwa [← same r mem]⟩
  · rintro ⟨r, mem, h⟩
    exact ⟨r, mem, by rwa [same r mem]⟩

theorem apply_delete_eq (clauses : List Clause) :
    t.apply (.delete clauses) =
      if t.guards (satisfies · clauses) then .error .protectedSubject
      else .ok (t.without (satisfies · clauses), (t.selected clauses).length) := by
  unfold apply guards selected
  dsimp only
  rw [List.any_filter]
  rfl

theorem satisfies_key (r k : Row) : satisfies r (Row.keyClauses k.get) = r.keyAmong [k] := by
  rw [QuadStore.Row.satisfies_keyClauses, Row.keyAmong, List.any_cons, List.any_nil, Bool.or_false]

theorem keyAmong_cons (k : Row) (keys : List Row) :
    Row.keyAmong (k :: keys) = fun r => r.keyAmong [k] || r.keyAmong keys := by
  funext r
  simp only [Row.keyAmong, List.any_cons, List.any_nil, Bool.or_false]

theorem marked_marked :
    (t.marked payload chosen).marked payload chosen' =
      t.marked payload fun r => chosen r || chosen' r := by
  unfold marked
  dsimp only
  rw [List.map_map]
  congr 1
  apply List.map_congr_left
  intro r _
  rw [Function.comp_apply]
  by_cases first : chosen r = true
  · simp [first]
  · simp [first]

theorem without_without :
    (t.without chosen).without chosen' = t.without fun r => chosen r || chosen' r := by
  unfold without
  dsimp only
  rw [List.filter_filter]
  congr 1
  apply List.filter_congr
  intro r _
  rw [Bool.not_or, Bool.and_comm]

theorem guards_or :
    (t.guards fun r => chosen r || chosen' r) =
      (t.guards chosen || (t.without chosen).guards chosen') := by
  rw [Bool.eq_iff_iff, Bool.or_eq_true]
  simp only [guards, without, List.any_filter, List.any_eq_true, Bool.and_eq_true, Bool.or_eq_true,
    Bool.not_eq_true']
  constructor
  · rintro ⟨r, mem, either, guarded⟩
    cases first : chosen r with
    | true => exact .inl ⟨r, mem, first, guarded⟩
    | false => exact .inr ⟨r, mem, first, either.resolve_left (by simp [first]), guarded⟩
  · rintro (⟨r, mem, first, guarded⟩ | ⟨r, mem, _, second, guarded⟩)
    · exact ⟨r, mem, .inl first, guarded⟩
    · exact ⟨r, mem, .inr second, guarded⟩

theorem applyAll_setVector (keys : List Row) :
    t.applyAll (keys.map fun k => .setVector payload (Row.keyClauses k.get)) =
      .ok (t.marked payload (Row.keyAmong keys)) := by
  induction keys generalizing t with
  | nil =>
    have same : t.rows.map id = t.rows := List.map_id _
    show Except.ok t = Except.ok { t with rows := t.rows.map id }
    rw [same]
  | cons k keys ih =>
    have first : t.apply (.setVector payload (Row.keyClauses k.get)) =
        .ok (t.marked payload (Row.keyAmong [k]), (t.selected (Row.keyClauses k.get)).length) := by
      simp only [apply, marked, satisfies_key]
    rw [List.map_cons, applyAll_cons first, ih, marked_marked, keyAmong_cons k keys]

theorem applyAll_delete (keys : List Row) :
    t.applyAll (keys.map fun k => .delete (Row.keyClauses k.get)) =
      if t.guards (Row.keyAmong keys) then .error .protectedSubject
      else .ok (t.without (Row.keyAmong keys)) := by
  induction keys generalizing t with
  | nil =>
    have free : t.guards (Row.keyAmong []) = false := by
      rw [guards, List.any_eq_false]
      intro r _
      exact Bool.false_ne_true
    have same : t.rows.filter (fun _ => true) = t.rows := List.filter_eq_self.2 fun _ _ => rfl
    rw [free]
    show Except.ok t = Except.ok { t with rows := t.rows.filter fun _ => true }
    rw [same]
  | cons k keys ih =>
    have first := t.apply_delete_eq (Row.keyClauses k.get)
    simp only [satisfies_key] at first
    rw [keyAmong_cons k keys, guards_or]
    cases guarded : t.guards (Row.keyAmong [k]) with
    | true =>
      rw [guarded, if_pos rfl] at first
      rw [if_pos (Bool.true_or _), List.map_cons, applyAll, List.foldlM_cons, first]
      rfl
    | false =>
      rw [guarded, if_neg Bool.false_ne_true] at first
      rw [List.map_cons, applyAll_cons first, ih, without_without, Bool.false_or]

end Sql.Table

namespace Store

variable (p : Pattern) (t : Table) {regexes : List (Position × Regex)}

theorem matchingKeys_apply (h : p.searches? = some regexes) :
    matchingKeys p regexes ⟨true, t⟩ =
      (.ok ((t.rows.filter p.admits).map (Table.record keyColumns)), ⟨true, t⟩) := by
  have unsorted : ∀ xs : List Row, Table.sorted {} id xs = xs :=
    fun xs => Table.sorted_unordered {} id xs rfl
  have rows := filter_selected t p {} regexes h
  rw [unsorted, taken, unsorted] at rows
  unfold matchingKeys
  rw [bind_apply, query_apply]
  simp only [Table.answer, unsorted, Table.slice_all, pure_apply, filter_records text_key, rows]

/-- A count is of the rows that are taken, as long as a word can hold it. -/
theorem count_open (h : p.searches? = some regexes)
    (fits : (t.rows.filter p.admits).length < wordSize) :
    count p ⟨true, t⟩ = (.ok (t.rows.filter p.admits).length, ⟨true, t⟩) := by
  unfold count
  rw [bind_apply, requireOpen_apply]
  simp only [if_true]
  rw [bind_apply, searches_apply, h]
  dsimp only
  cases regexes with
  | nil =>
    have found : counted (.count p.clauses) ⟨true, t⟩ =
        (.ok ((t.rows.filter p.admits).length : Int), ⟨true, t⟩) := by
      apply counted_apply
      rw [Table.answer, selected_plain (Pattern.plain_of_searches h)]
    rw [List.isEmpty_nil, if_pos rfl, bind_apply, found]
    dsimp only
    rw [pure_apply]
    rw [Int.emod_eq_of_lt (by omega) (by omega), Int.toNat_natCast]
  | cons search more =>
    rw [List.isEmpty_cons, if_neg Bool.false_ne_true, bind_apply, matchingKeys_apply p t h]
    simp only [pure_apply, List.length_map]

theorem writeAll_open (command : List Clause → Command) (h : p.searches? = some regexes) :
    writeAll p command ⟨true, t⟩ =
      if regexes.isEmpty then
        match t.apply (command p.clauses) with
        | .ok (after, n) => (.ok n, ⟨true, after⟩)
        | .error e => (.error (.sql e), ⟨true, t⟩)
      else
        match t.applyAll ((t.rows.filter p.admits).map fun r => command (Row.keyClauses r.get)) with
        | .ok after => (.ok (t.rows.filter p.admits).length, ⟨true, after⟩)
        | .error e => (.error (.sql e), ⟨true, t⟩) := by
  have keys : ((t.rows.filter p.admits).map (Table.record keyColumns)).map
      (fun r => command (Row.keyClauses fun position => r.text position.name)) =
        (t.rows.filter p.admits).map fun r => command (Row.keyClauses r.get) := by
    rw [List.map_map]
    apply List.map_congr_left
    intro r _
    rw [Function.comp_apply]
    congr 2
    funext position
    exact text_key r position
  unfold writeAll
  rw [bind_apply, requireOpen_apply]
  simp only [if_true]
  rw [bind_apply, searches_apply, h]
  dsimp only
  split
  · exact execute_eq _ t
  · rw [bind_apply, matchingKeys_apply p t h]
    dsimp only
    rw [keys, bind_apply, transact_eq]
    cases t.applyAll ((t.rows.filter p.admits).map fun r => command (Row.keyClauses r.get)) with
    | error e => rfl
    | ok after => simp only [pure_apply, List.length_map]

theorem setVector_open (v : Vector) (h : p.searches? = some regexes) :
    setVector p v ⟨true, t⟩ =
      (.ok (t.rows.filter p.admits).length, ⟨true, t.marked (Payload.write v) p.admits⟩) := by
  have same := t.marked_congr (Payload.write v) fun r => p.keyAmong_admitted (a := r)
  unfold setVector
  rw [writeAll_open p t _ h, Table.applyAll_setVector, same]
  cases regexes with
  | nil =>
    rw [List.isEmpty_nil, if_pos rfl]
    simp only [Table.apply, selected_plain (Pattern.plain_of_searches h),
      p.satisfies_plain (Pattern.plain_of_searches h)]
    rfl
  | cons search more => rfl

theorem delete_open (h : p.searches? = some regexes) :
    delete p ⟨true, t⟩ =
      if t.guards p.admits then (.error (.sql .protectedSubject), ⟨true, t⟩)
      else (.ok (t.rows.filter p.admits).length, ⟨true, t.without p.admits⟩) := by
  have guarded := t.guards_congr fun r => p.keyAmong_admitted (a := r)
  have left := t.without_congr fun r => p.keyAmong_admitted (a := r)
  unfold delete
  rw [writeAll_open p t _ h, Table.applyAll_delete, guarded, left]
  cases regexes with
  | nil =>
    have plain : (fun r => Table.satisfies r p.clauses) = p.admits :=
      funext (p.satisfies_plain (Pattern.plain_of_searches h))
    rw [List.isEmpty_nil, if_pos rfl, Table.apply_delete_eq, plain, selected_plain (Pattern.plain_of_searches h)]
    cases t.guards p.admits <;> rfl
  | cons search more =>
    rw [List.isEmpty_cons, if_neg Bool.false_ne_true]
    cases t.guards p.admits <;> rfl

theorem delete_again (h : p.searches? = some regexes) :
    delete p ⟨true, t.without p.admits⟩ = (.ok 0, ⟨true, t.without p.admits⟩) := by
  have taken : (t.without p.admits).rows.filter p.admits = [] := by
    rw [Table.without, List.filter_filter, List.filter_eq_nil_iff]
    simp
  have same : (t.without p.admits).without p.admits = t.without p.admits := by
    rw [Table.without_without]
    simp only [Bool.or_self]
  have free : (t.without p.admits).guards p.admits = false := by
    rw [Table.guards, ← List.any_filter, taken, List.any_nil]
  rw [delete_open p _ h, free, taken, same]
  rfl

/-- Once a lookup has found statements, a count and the two writes are on the rows of these
statements: the count is their number, where a word can hold it, a new vector is set in them and in no
other row, and they alone are deleted, unless one of them is guarded and nothing is. -/
theorem scoped_operations_agree (p : Pattern) {s after : Store Table} {quints : List Quint}
    (found : get p {} s = (.ok quints, after)) :
    after = s ∧ quints = (s.backend.rows.filter p.admits).map Quint.ofRow ∧
    (quints.length < wordSize → count p s = (.ok quints.length, s)) ∧
    (∀ v, setVector p v s = (.ok quints.length,
      { s with backend := s.backend.marked (Payload.write v) p.admits })) ∧
    (s.backend.guards p.admits = true ∧ delete p s = (.error (.sql .protectedSubject), s) ∨
      delete p s = (.ok quints.length, { s with backend := s.backend.without p.admits }) ∧
      delete p { s with backend := s.backend.without p.admits } =
        (.ok 0, { s with backend := s.backend.without p.admits })) := by
  obtain ⟨isOpen, t⟩ := s
  cases isOpen with
  | false =>
    unfold get at found
    rw [bind_apply, requireOpen_apply] at found
    cases found
  | true =>
    rw [get_open] at found
    cases h : p.searches? with
    | none =>
      rw [fetched, h] at found
      cases found
    | some regexes =>
      rw [fetched_all h] at found
      cases found
      refine ⟨rfl, rfl, ?_, ?_, ?_⟩
      · rw [List.length_map]
        exact count_open p t h
      · intro v
        rw [List.length_map]
        exact setVector_open p t v h
      · rw [List.length_map, delete_open p t h]
        cases guarded : t.guards p.admits with
        | true => exact .inl ⟨rfl, rfl⟩
        | false => exact .inr ⟨rfl, delete_again p t h⟩

def register : Table :=
  { Table.empty true with
    rows := [⟨"", "http://ex/ann", "http://ex/name", "\"Ann\"", none⟩,
      ⟨"", "http://ex/bob", "http://ex/name", "\"Bob\"", some "[2]"⟩,
      ⟨"", "http://ex/ann", "http://ex/mail", "\"ann@ex\"", some "[1]"⟩] }

def endingInN : Pattern where
  subject := some (.operators { regex := some "n$" })

theorem scoped_operations_agree_register :
    count endingInN ⟨true, register⟩ = (.ok 2, ⟨true, register⟩) ∧
    delete endingInN ⟨true, register⟩ = (.ok 2,
      ⟨true, { register with rows := [⟨"", "http://ex/bob", "http://ex/name", "\"Bob\"", some "[2]"⟩] }⟩) := by
  have regexes : ∃ regexes, endingInN.searches? = some regexes :=
    Option.isSome_iff_exists.1 (by decide +kernel)
  obtain ⟨regexes, h⟩ := regexes
  have found := get_open endingInN {} register
  rw [fetched_all h] at found
  have chosen : (register.rows.filter endingInN.admits).length = 2 := by decide +kernel
  have left : register.rows.filter (fun r => !endingInN.admits r) =
      [⟨"", "http://ex/bob", "http://ex/name", "\"Bob\"", some "[2]"⟩] := by decide +kernel
  obtain ⟨_, _, counted, _, deleted⟩ := scoped_operations_agree endingInN found
  rw [List.length_map, chosen] at counted deleted
  refine ⟨counted (by decide), ?_⟩
  rcases deleted with ⟨guarded, _⟩ | ⟨deleted, _⟩
  · exact absurd guarded (by decide +kernel)
  · rw [deleted, Table.without, left]

end Store

end QuadStore
