import QuadStore.Proofs.Joining
import QuadStore.Proofs.OperatorTests

namespace QuadStore

open Sql Sparql

namespace Condition

theorem on?_binary (q : Quad) {op : Operator} (joins : op = .and ∨ op = .or) (left right : Expression) :
    on? q (.binary op left right) = none := by
  have nothing : ofExpression? (.binary op left right) = none := by
    unfold ofExpression? ofComparison?
    rcases joins with rfl | rfl <;>
      · simp only [exchanged, comparing?, Option.map_none]
        split
        · rfl
        · split <;> rfl
  rw [on?, nothing]

theorem on?_mem {q : Quad} {e : Expression} {name : Text} {o : Operators} (found : on? q e = some (name, o)) :
    name ∈ q.varNames := by
  unfold on? at found
  split at found
  · split at found
    · rename_i mem
      cases found
      exact List.contains_iff_mem.1 mem
    · cases found
  · cases found

end Condition

theorem Filters.lookup_of_mem {fs : Filters} (nodup : (fs.map (·.1)).Nodup) {entry : Text × Operators}
    (mem : entry ∈ fs) : fs.lookup entry.1 = some entry.2 := by
  have found := Store.lookup_of_nodup (·.2) nodup mem
  rw [List.map_id'' fun _ => rfl] at found
  exact found

/-- A row, the position that the text of a variable is read from, and what conditions say that become no
operators. -/
structure Reading where
  row : Row
  place : Text → Position
  other : Expression → Prop

namespace Reading

variable (reading : Reading) {q : Quad} {e : Expression}

def Takes (name : Text) (o : Operators) : Prop :=
  (Match.operators o).admits (reading.place name) (reading.row.get (reading.place name)) = true

instance (name : Text) (o : Operators) : Decidable (reading.Takes name o) :=
  inferInstanceAs (Decidable (_ = true))

/-- What a condition says, where a single one says what its operators say. -/
def Meets (q : Quad) : Expression → Prop
  | .binary .and left right => Meets q left ∧ Meets q right
  | .binary .or left right => Meets q left ∨ Meets q right
  | e => match Condition.on? q e with
    | some (name, o) => reading.Takes name o
    | none => reading.other e

/-- What a filter has become says of a row. -/
structure Satisfies (q : Quad) (p : Pushdown) : Prop where
  filters : ∀ entry ∈ p.filters, reading.Takes entry.1 entry.2
  remainder : ∀ e ∈ p.remainder, reading.Meets q e
  branches : p.branches ≠ [] →
    (∃ b ∈ p.branches, reading.Takes b.1 b.2) ∨ ∃ e ∈ p.branchRemainder, reading.Meets q e

theorem satisfies_filters (q : Quad) (fs : Filters) :
    reading.Satisfies q { filters := fs } ↔ ∀ entry ∈ fs, reading.Takes entry.1 entry.2 := by
  constructor
  · intro satisfied
    exact satisfied.filters
  · intro taken
    exact ⟨taken, by simp, by simp⟩

theorem satisfies_remainder (q : Quad) (e : Expression) :
    reading.Satisfies q { remainder := some e } ↔ reading.Meets q e := by
  constructor
  · intro satisfied
    exact satisfied.remainder e rfl
  · intro met
    exact ⟨by simp, by simpa using met, by simp⟩

theorem satisfies_branches {bs : List (Text × Operators)} (some_ : bs ≠ []) (q : Quad) (rest : List Expression) :
    reading.Satisfies q { branches := bs, branchRemainder := rest } ↔
      (∃ b ∈ bs, reading.Takes b.1 b.2) ∨ ∃ e ∈ rest, reading.Meets q e := by
  constructor
  · intro satisfied
    exact satisfied.branches some_
  · intro met
    exact ⟨by simp, by simp, fun _ => met⟩

theorem meets_on {name : Text} {o : Operators} (found : Condition.on? q e = some (name, o)) :
    reading.Meets q e ↔ reading.Takes name o := by
  fun_cases Meets reading q e with
  | case1 left right =>
    rw [Condition.on?_binary q (.inl rfl)] at found
    cases found
  | case2 left right =>
    rw [Condition.on?_binary q (.inr rfl)] at found
    cases found
  | case3 =>
    rename_i there
    rw [there] at found
    cases found
    rfl
  | case4 =>
    rename_i nothing
    rw [nothing] at found
    cases found

theorem meets_conjuncts (q : Quad) (e : Expression) :
    reading.Meets q e ↔ ∀ a ∈ e.conjuncts, reading.Meets q a :=
  e.forall_conjuncts fun left right => by rw [Meets]

theorem meets_disjuncts (q : Quad) (e : Expression) :
    reading.Meets q e ↔ ∃ a ∈ e.disjuncts, reading.Meets q a :=
  e.exists_disjuncts fun left right => by rw [Meets]

theorem meets_alternatives (q : Quad) (es : List Expression) : (∃ a ∈ es, reading.Meets q a) ↔
    (∃ b ∈ es.filterMap (Condition.on? q), reading.Takes b.1 b.2) ∨
      ∃ a ∈ es.filter fun a => (Condition.on? q a).isNone, reading.Meets q a := by
  constructor
  · rintro ⟨a, mem, met⟩
    cases found : Condition.on? q a with
    | some b => exact .inl ⟨b, List.mem_filterMap.2 ⟨a, mem, found⟩, (reading.meets_on found).1 met⟩
    | none => exact .inr ⟨a, List.mem_filter.2 ⟨mem, by rw [found]; rfl⟩, met⟩
  · rintro (⟨b, mem, taken⟩ | ⟨a, mem, met⟩)
    · obtain ⟨a, mem, found⟩ := List.mem_filterMap.1 mem
      exact ⟨a, mem, (reading.meets_on found).2 taken⟩
    · exact ⟨a, (List.mem_filter.1 mem).1, met⟩

theorem takes_operands (name : Text) (o : Operators) :
    reading.Takes name o ↔ ∀ t v, o.operand? t = some v → reading.Takes name (.only t v) :=
  Match.admits_operators

theorem takes_filters {fs : Filters} (nodup : (fs.map (·.1)).Nodup) :
    (∀ entry ∈ fs, reading.Takes entry.1 entry.2) ↔
      ∀ name t v, fs.operand? name t = some v → reading.Takes name (.only t v) := by
  constructor
  · intro all name t v there
    obtain ⟨o, found, asked⟩ := Option.bind_eq_some_iff.1 there
    have taken : reading.Takes name o := all (name, o) (Filters.mem_of_lookup found)
    exact (reading.takes_operands name o).1 taken t v asked
  · intro all entry mem
    rw [takes_operands]
    intro t v asked
    refine all entry.1 t v ?_
    rw [Filters.operand?, Filters.lookup_of_mem nodup mem]
    exact asked

theorem takes_among (name : Text) (vs : List Value) :
    reading.Takes name { among := some vs } ↔ ∃ v ∈ vs, reading.Takes name { eq := some v } :=
  Test.passes_among vs

end Reading

namespace Pushdown

variable {q : Quad} {e : Expression} {name : Text} {t : Test} {v : Operand}

theorem equality?_eq {branch : Text × Operators} {value : Value} (h : equality? branch = some (name, value)) :
    branch = (name, { eq := some value }) := by
  obtain ⟨n, o⟩ := branch
  unfold equality? at h
  dsimp only at h
  split at h
  · split at h
    · rename_i there alone
      cases h
      have rebuilt : o = { ({ o with eq := none } : Operators) with eq := o.eq } := rfl
      rw [rebuilt, alone, there]
    · cases h
  · cases h

theorem agreed?_eq {names : List Text} {result : Text} (named : name ≠ []) (h : agreed? name names = some result) :
    result = name ∧ ∀ n ∈ names, n = name := by
  induction names with
  | nil =>
    cases h
    simp
  | cons n rest ih =>
    rw [agreed?] at h
    split at h
    · cases h
    · rename_i same
      have same : name = n := by simpa [named] using same
      subst same
      simpa using ih h

theorem equalities_eq {branches : List (Text × Operators)} {equalities : List (Text × Value)}
    (h : branches.mapM equality? = some equalities) :
    branches = equalities.map fun equality => (equality.1, { eq := some equality.2 }) := by
  induction branches generalizing equalities with
  | nil =>
    cases h
    rfl
  | cons branch rest ih =>
    rw [List.mapM_cons] at h
    obtain ⟨equality, first, h⟩ := Option.bind_eq_some_iff.1 h
    obtain ⟨others, later, h⟩ := Option.bind_eq_some_iff.1 h
    cases h
    rw [List.map_cons, ← ih later, equality?_eq first]

/-- A choice stands for equalities of one variable, unless one of them has the empty name. -/
theorem choice?_eq {branches : List (Text × Operators)} {fs : Filters} (some_ : branches ≠ [])
    (named : ∀ b ∈ branches, b.1 ≠ []) (h : choice? branches = some fs) :
    ∃ name values, fs = [(name, { among := some values })] ∧
      branches = values.map fun v => (name, { eq := some v }) := by
  unfold choice? at h
  obtain ⟨equalities, all, h⟩ := Option.bind_eq_some_iff.1 h
  obtain ⟨name, one, h⟩ := Option.bind_eq_some_iff.1 h
  cases h
  refine ⟨name, equalities.map (·.2), rfl, ?_⟩
  have branches_eq := equalities_eq all
  subst branches_eq
  cases equalities with
  | nil => exact absurd rfl some_
  | cons first rest =>
    have nonempty : first.1 ≠ [] := named (first.1, _) List.mem_cons_self
    rw [List.map_cons, agreed?, if_neg (by simp)] at one
    obtain ⟨rfl, same⟩ := agreed?_eq nonempty one
    rw [List.map_cons, List.map_cons, List.map_cons, List.map_map]
    congr 1
    refine List.map_congr_left fun equality mem => ?_
    rw [Function.comp_apply, same _ (List.mem_map_of_mem mem)]

theorem takes_choice {branches : List (Text × Operators)} {fs : Filters} (reading : Reading) (some_ : branches ≠ [])
    (named : ∀ b ∈ branches, b.1 ≠ []) (h : choice? branches = some fs) :
    (∀ entry ∈ fs, reading.Takes entry.1 entry.2) ↔ ∃ b ∈ branches, reading.Takes b.1 b.2 := by
  obtain ⟨name, values, rfl, rfl⟩ := choice?_eq some_ named h
  simp [reading.takes_among]

variable {reading : Reading}

theorem satisfies_disjunction (named : [] ∉ q.varNames) (e : Expression) :
    reading.Satisfies q (ofDisjunction q e) ↔ reading.Meets q e := by
  have alternatives := (reading.meets_disjuncts q e).trans (reading.meets_alternatives q e.disjuncts)
  rcases ofDisjunction_cases q e with nothing | ⟨some_, whole, fs, chosen, choice⟩ | ⟨some_, several⟩
  · rw [nothing, reading.satisfies_remainder]
  · -- Empty names are the one case where a choice mixes variables.
    have names : ∀ b ∈ e.disjuncts.filterMap (Condition.on? q), b.1 ≠ [] := by
      intro b mem empty
      obtain ⟨a, -, found⟩ := List.mem_filterMap.1 mem
      exact named (empty ▸ Condition.on?_mem found)
    rw [choice, reading.satisfies_filters, takes_choice reading some_ names chosen, alternatives, whole]
    simp
  · rw [several, reading.satisfies_branches some_, alternatives]

theorem satisfies_single (named : [] ∉ q.varNames) (single : ∀ left right, e ≠ .binary .and left right) :
    reading.Satisfies q (ofFilter q e) ↔ reading.Meets q e := by
  fun_cases ofFilter q e with
  | case1 left right => exact absurd rfl (single left right)
  | case2 left right => exact satisfies_disjunction named _
  | case3 =>
    rename_i found
    rw [reading.satisfies_filters, reading.meets_on found, List.forall_mem_singleton]
  | case4 => rw [reading.satisfies_remainder]

theorem satisfies_left (named : [] ∉ q.varNames) : reading.Satisfies q (ofFilter q e) ↔
    (∀ entry ∈ (ofFilter q e).filters, reading.Takes entry.1 entry.2) ∧
      ∀ r ∈ leftOf e (ofFilter q e), reading.Meets q r := by
  unfold leftOf
  by_cases none_ : (ofFilter q e).branches = []
  · rw [if_pos (List.isEmpty_iff.2 none_)]
    constructor
    · intro satisfied
      exact ⟨satisfied.filters, satisfied.remainder⟩
    · rintro ⟨filters, remainder⟩
      exact ⟨filters, remainder, fun some_ => absurd none_ some_⟩
  · -- Alternatives are left of a disjunction alone, which inside a conjunction stays as a whole.
    have single : ∀ left right, e ≠ .binary .and left right := by
      rintro left right rfl
      exact none_ rfl
    rw [if_neg (mt List.isEmpty_iff.1 none_)]
    constructor
    · intro satisfied
      exact ⟨satisfied.filters, by simpa using (satisfies_single named single).1 satisfied⟩
    · rintro ⟨-, met⟩
      exact (satisfies_single named single).2 (met e rfl)

theorem meets_both (reading : Reading) (q : Quad) (x y : Option Expression) :
    (∀ r ∈ both x y, reading.Meets q r) ↔ (∀ r ∈ x, reading.Meets q r) ∧ ∀ r ∈ y, reading.Meets q r := by
  cases x <;> cases y <;> simp [both, Reading.Meets]

theorem left_conjuncts (reading : Reading) (q : Quad) (e : Expression) :
    (∀ r ∈ leftOf e (ofFilter q e), reading.Meets q r) ↔
      ∀ a ∈ e.conjuncts, ∀ r ∈ leftOf a (ofFilter q a), reading.Meets q r := by
  refine e.forall_conjuncts (P := fun e => ∀ r ∈ leftOf e (ofFilter q e), reading.Meets q r) fun left right => ?_
  have sides : leftOf (.binary .and left right) (ofFilter q (.binary .and left right)) =
      both (leftOf left (ofFilter q left)) (leftOf right (ofFilter q right)) := rfl
  rw [sides, meets_both]

theorem operand?_and (q : Quad) (left right : Expression) (name : Text) (t : Test) :
    (ofFilter q (.binary .and left right)).filters.operand? name t =
      ((ofFilter q right).filters.operand? name t).or ((ofFilter q left).filters.operand? name t) := by
  rw [ofFilter, Filters.operand?_addAll _ (nodup_ofFilter q right),
    Filters.operand?_addAll _ (nodup_ofFilter q left)]
  exact congrArg _ (Option.or_none)

/-- A test of a variable compares with what the last side with that test compares with. -/
theorem operand?_last (q : Quad) (e : Expression) (name : Text) (t : Test) :
    (ofFilter q e).filters.operand? name t =
      e.conjuncts.reverse.findSome? fun a => (ofFilter q a).filters.operand? name t := by
  fun_induction Expression.conjuncts e with
  | case1 left right ihl ihr =>
    rw [operand?_and, ihl, ihr, List.reverse_append, List.findSome?_append]
  | case2 => simp

/-- A test of one side of a conjunction, in the place of which there is that of another side. -/
def Replaced (q : Quad) (e : Expression) (name : Text) (t : Test) (v : Operand) : Prop :=
  ∃ a ∈ e.conjuncts, ∃ w, (ofFilter q a).filters.operand? name t = some v ∧
    (ofFilter q e).filters.operand? name t = some w ∧ w ≠ v

theorem takes_conjuncts (reading : Reading) (q : Quad) (e : Expression) :
    (∀ a ∈ e.conjuncts, ∀ entry ∈ (ofFilter q a).filters, reading.Takes entry.1 entry.2) ↔
      (∀ entry ∈ (ofFilter q e).filters, reading.Takes entry.1 entry.2) ∧
        ∀ name t v, Replaced q e name t v → reading.Takes name (.only t v) := by
  simp only [reading.takes_filters (nodup_ofFilter q _)]
  constructor
  · intro all
    constructor
    · intro name t v there
      rw [operand?_last] at there
      obtain ⟨a, mem, source⟩ := List.exists_of_findSome?_eq_some there
      exact all a (List.mem_reverse.1 mem) name t v source
    · rintro name t v ⟨a, mem, w, source, -⟩
      exact all a mem name t v source
  · rintro ⟨filters, replaced⟩ a mem name t v source
    have tested : ((ofFilter q e).filters.operand? name t).isSome = true := by
      rw [operand?_last, List.findSome?_isSome_iff]
      exact ⟨a, List.mem_reverse.2 mem, by rw [source]; rfl⟩
    obtain ⟨w, there⟩ := Option.isSome_iff_exists.1 tested
    -- The test of this side is there as it is, or with what a later side compares with.
    by_cases same : w = v
    · exact filters name t v (same ▸ there)
    · exact replaced name t v ⟨a, mem, w, source, there, same⟩

/-- A row meets a filter if and only if it satisfies what the filter becomes and passes the tests that were
replaced. -/
theorem ofFilter_meaning (reading : Reading) (q : Quad) (named : [] ∉ q.varNames) (e : Expression) :
    reading.Meets q e ↔ reading.Satisfies q (ofFilter q e) ∧
      ∀ name t v, Replaced q e name t v → reading.Takes name (.only t v) := by
  have sides : reading.Meets q e ↔ ∀ a ∈ e.conjuncts, reading.Satisfies q (ofFilter q a) := by
    rw [reading.meets_conjuncts]
    exact forall₂_congr fun a mem => (satisfies_single named (Expression.ne_and_of_mem_conjuncts mem)).symm
  rw [sides]
  simp only [satisfies_left named, forall_and]
  rw [takes_conjuncts, ← left_conjuncts]
  exact and_right_comm

def ages : Quad := { subject := .var "s", predicate := .iri "http://ex/age", object := .var "o" }

def above (n : Text) : Expression := .binary .gt (.term (.var "o")) (.term (.typed n Xsd.integer))

def aboveBoth : Expression := .binary .and (above "5") (above "3")

def aged (n : Text) : Reading where
  row := Quint.toRow ⟨⟨.iri "http://ex/s", .iri "http://ex/age", .typed n Xsd.integer, .defaultGraph⟩, none⟩
  place name := if name = "s" then .subject else .object
  other _ := False

theorem meets_above (n m : Text) : (aged n).Meets ages (above m) ↔
    (aged n).Takes "o" { gt := some (.term (.typed m Xsd.integer)) } :=
  (aged n).meets_on rfl

theorem ofFilter_meaning_six :
    [] ∉ ages.varNames ∧ (aged "6").Meets ages aboveBoth ∧ (aged "6").Satisfies ages (ofFilter ages aboveBoth) := by
  have named : [] ∉ ages.varNames := by decide
  have met : (aged "6").Meets ages aboveBoth := by
    refine ⟨(meets_above "6" "5").2 ?_, (meets_above "6" "3").2 ?_⟩ <;> decide +kernel
  exact ⟨named, met, ((ofFilter_meaning (aged "6") ages named aboveBoth).1 met).1⟩

theorem ofFilter_forgets :
    ofFilter ages aboveBoth = { filters := [("o", { gt := some (.term (.typed "3" Xsd.integer)) })] } ∧
    (aged "4").Satisfies ages (ofFilter ages aboveBoth) ∧ ¬ (aged "4").Meets ages aboveBoth := by
  have later : ofFilter ages aboveBoth =
      { filters := [("o", { gt := some (.term (.typed "3" Xsd.integer)) })] } := rfl
  refine ⟨later, ?_, ?_⟩
  · rw [later, Reading.satisfies_filters, List.forall_mem_singleton]
    decide +kernel
  · rintro ⟨first, -⟩
    have taken := (meets_above "4" "5").1 first
    revert taken
    decide +kernel

end Pushdown

end QuadStore
