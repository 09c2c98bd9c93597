import QuadStore.Proofs.FirstRows
import QuadStore.Proofs.OptionalRows

namespace QuadStore

open Sql Step

namespace Solutions

def first (n : Nat) (found : Solutions) : Solutions := ⟨found.names, found.rows.take n⟩

/-- Without distinctness, limit and offset look at no row behind their sum. -/
theorem window_take {m : Modifiers} (plain : m.isDistinct = false) {n : Nat}
    (asked : Modifiers.rowsToFetch m.limit m.offset = some n) (key : Binding → Text) (rows : List Binding) :
    window m key (rows.take n) = window m key rows := by
  obtain ⟨l, limit, sum, -⟩ := Modifiers.rowsToFetch_eq_some asked
  have within : min l (n - m.offset.getD 0) = l := by omega
  simp only [window, plain, limit, Bool.false_eq_true, if_false, List.drop_take, List.take_take, within]

end Solutions

variable {σ : Type} [Backend σ]

namespace SinglePlan

def runOnAll (p : SinglePlan) (security : Option Pattern) : Action σ Solutions := do
  let found ← Store.get (p.triple.inGraph (p.triple.lookup security)) { p.options with limit := none }
  let rows := found.map fun q => p.bind q.toQuad
  return ⟨p.names, Solutions.window p.modifiers p.key rows⟩

theorem options_limited {p : SinglePlan} {n : Nat} (asked : p.options.limit = some n) :
    p.modifiers.isDistinct = false ∧ Modifiers.rowsToFetch p.modifiers.limit p.modifiers.offset = some n := by
  unfold options at asked
  dsimp only at asked
  split at asked
  · cases asked
  · rename_i plain
    exact ⟨Bool.eq_false_iff.2 plain, asked⟩

theorem run_onAll {p : SinglePlan} {security : Option Pattern} {s : Store σ}
    (first : Store.GivesFirst (Store.get (p.triple.inGraph (p.triple.lookup security)) ·) p.options s) :
    p.run security s = p.runOnAll security s := by
  unfold run runOnAll
  cases asked : p.options.limit with
  | none =>
    have same : p.options = { p.options with limit := none } := by rw [← asked]
    rw [same]
  | some n =>
    obtain ⟨plain, fetched⟩ := options_limited asked
    obtain ⟨l, -, -, word⟩ := Modifiers.rowsToFetch_eq_some fetched
    have same : p.options = { p.options with limit := some n } := by rw [← asked]
    have cut := first n word
    dsimp only at cut
    rw [bind_apply, bind_apply, same, cut]
    rcases Store.get (p.triple.inGraph (p.triple.lookup security)) { p.options with limit := none } s with
      ⟨e | found, after⟩
    · rfl
    · simp only [Except.map, pure_apply, List.map_take, Solutions.window_take plain fetched]

end SinglePlan

namespace GroupPlan

theorem run_first {p : GroupPlan} {security : Option Pattern} {s : Store σ}
    (first : Store.GivesFirst (Store.getCompound (p.compound security) ·) {} s) {n : Nat}
    (word : n < Store.wordSize) :
    p.run security { limit := some n } s =
      ((p.run security {} s).1.map (Solutions.first n), (p.run security {} s).2) := by
  have cut := first n word
  dsimp only at cut
  unfold run
  rw [bind_apply, bind_apply, cut]
  rcases Store.getCompound (p.compound security) {} s with ⟨e | found, after⟩
  · rfl
  · simp only [Except.map, pure_apply, List.map_take, Solutions.first]

end GroupPlan

namespace MultiPlan

def runOnAll (p : MultiPlan) (security : Option Pattern) :
    ExceptT QueryError (StateM (Store σ)) Solutions := do
  return finish p.modifiers (← rows p.shape security {})

theorem options_cases (m : Modifiers) :
    options m = {} ∨ ∃ n, options m = { limit := some n } ∧ n < Store.wordSize ∧
      m.order = none ∧ m.isDistinct = false ∧ Modifiers.rowsToFetch m.limit m.offset = some n := by
  unfold options
  split
  · exact .inl rfl
  · rename_i plain
    rw [Bool.or_eq_true, not_or, Bool.not_eq_true, Bool.not_eq_true, Option.isSome_eq_false_iff,
      Option.isNone_iff_eq_none] at plain
    cases asked : Modifiers.rowsToFetch m.limit m.offset with
    | none => exact .inl rfl
    | some n =>
      obtain ⟨l, -, -, word⟩ := Modifiers.rowsToFetch_eq_some asked
      exact .inr ⟨n, rfl, word, plain.1, plain.2, rfl⟩

theorem finish_first {m : Modifiers} (unordered : m.order = none) (plain : m.isDistinct = false) {n : Nat}
    (asked : Modifiers.rowsToFetch m.limit m.offset = some n) (found : Solutions) :
    finish m (found.first n) = finish m found := by
  simp only [finish, unordered, Solutions.first, List.map_take, Solutions.window_take plain asked]

end MultiPlan

namespace OptionalPlan

variable {p : OptionalPlan} {security : Option Pattern} {t : Table} {options : Options} {core : Solutions}

theorem isEmpty_subjects {guard : Pattern} {u : Term} (h : p.core.answer t (some guard) options = .ok core)
    (fixed : guard.subject = some (.term u)) {rows : List Binding} (within : rows ⊆ core.rows) {b : Binding}
    {s : Term} (mem : b ∈ rows) (bound : b.get? p.core.subject = some s) :
    (p.subjects rows).isEmpty = s.isLiteral := by
  have own := contains_subjects mem bound
  cases literal : s.isLiteral with
  | false =>
    rw [literal, Bool.not_false, List.contains_iff_mem] at own
    rw [Bool.eq_false_iff, Ne, List.isEmpty_iff]
    exact List.ne_nil_of_mem own
  | true =>
    rw [List.isEmpty_iff, List.eq_nil_iff_forall_not_mem]
    intro other inside
    have resource := resource_of_subjects h within other inside
    unfold subjects at inside
    rw [List.mem_eraseDups, List.mem_filter, List.mem_filterMap] at inside
    obtain ⟨⟨c, hc, found⟩, -⟩ := inside
    rw [one_subject h fixed (within hc) (within mem), bound] at found
    cases found
    rw [resource.unquoted] at literal
    cases literal

/-- A row of the core has the same optional values whether it is looked up with the rows before it or
with all rows. -/
theorem extend_take (constant : (p.graph.getD .defaultGraph).isVar = false)
    (h : p.core.answer t security options = .ok core) (n : Nat) {b : Binding} (mem : b ∈ core.rows.take n) :
    p.extend (p.batch t security (p.subjects (core.rows.take n))) b =
      p.extend (p.batch t security (p.subjects core.rows)) b := by
  have inside := List.mem_of_mem_take mem
  obtain ⟨-, row, -, -, bound⟩ := subject_of_row h inside
  apply extend_batch bound
  intro r _ own
  apply asks_congr constant
  · exact resource_of_subjects h (List.take_subset n core.rows)
  · exact resource_of_subjects h (List.Subset.refl _)
  · rw [own, contains_subjects mem bound, contains_subjects inside bound]
  · intro guard u hs fixed
    subst hs
    rw [isEmpty_subjects h fixed (List.take_subset n core.rows) mem bound,
      isEmpty_subjects h fixed (List.Subset.refl _) inside bound]

theorem completed_first (constant : (p.graph.getD .defaultGraph).isVar = false)
    (h : p.core.answer t security options = .ok core) (n : Nat) :
    p.completed t security (core.first n) = (p.completed t security core).map (Solutions.first n) ∨
      p.isReadable security = false ∧ p.completed t security core = .error .malformedRegex ∧
        ∃ found, p.completed t security (core.first n) = .ok found := by
  have names : (core.first n).names = core.names := rfl
  have rows : (core.first n).rows = core.rows.take n := rfl
  have extended : (core.rows.take n).map (p.extend (p.batch t security (p.subjects (core.rows.take n)))) =
      (core.rows.map (p.extend (p.batch t security (p.subjects core.rows)))).take n := by
    rw [← List.map_take]
    exact List.map_congr_left fun b mem => extend_take constant h n mem
  have fewer : (p.subjects core.rows).isEmpty = true → (p.subjects (core.rows.take n)).isEmpty = true := by
    intro none_
    rw [List.isEmpty_iff, List.eq_nil_iff_forall_not_mem] at none_ ⊢
    intro s mem
    apply none_ s
    unfold subjects at mem ⊢
    rw [List.mem_eraseDups, List.mem_filter, List.mem_filterMap] at mem ⊢
    obtain ⟨⟨b, hb, bound⟩, resource⟩ := mem
    exact ⟨⟨b, List.mem_of_mem_take hb, bound⟩, resource⟩
  unfold completed
  rw [names, rows, extended]
  cases readable : p.isReadable security with
  | true =>
    simp only [Bool.or_true, if_true]
    exact .inl rfl
  | false =>
    simp only [Bool.or_false]
    cases whole : (p.subjects core.rows).isEmpty with
    | true =>
      rw [if_pos (fewer whole), if_pos rfl]
      exact .inl rfl
    | false =>
      rw [if_neg Bool.false_ne_true]
      by_cases part : (p.subjects (core.rows.take n)).isEmpty = true
      · rw [if_pos part]
        exact .inr ⟨trivial, rfl, _, rfl⟩
      · rw [if_neg part]
        exact .inl rfl

end OptionalPlan

namespace Route

/-- Whether the store answers the first of all rows to the lookups that a route limits. -/
structure GivesFirst (r : Route) (security : Option Pattern) (s : Store σ) : Prop where
  single : ∀ p, r = .single p →
    Store.GivesFirst (Store.get (p.triple.inGraph (p.triple.lookup security)) ·) p.options s
  compound : ∀ m p, r = .multi ⟨m, .compound p⟩ →
    Store.GivesFirst (Store.getCompound (p.compound security) ·) {} s
  optional : ∀ m p, r = .multi ⟨m, .optional p⟩ →
    Store.GivesFirst (Store.getCompound (p.core.compound security) ·) {} s

theorem GivesFirst.first {r : Route} {security : Option Pattern} {s : Store σ} (h : r.GivesFirst security s) :
    r.first.GivesFirst security s := by
  constructor
  · intro q eq
    cases r with
    | single p =>
      cases eq
      exact h.single p rfl
    | _ => cases eq
  · intro m q eq
    cases r with
    | multi p =>
      obtain ⟨modifiers, shape⟩ := p
      cases eq
      exact h.compound modifiers q rfl
    | _ => cases eq
  · intro m q eq
    cases r with
    | multi p =>
      obtain ⟨modifiers, shape⟩ := p
      cases eq
      exact h.optional modifiers q rfl
    | _ => cases eq

theorem givesFirst_of_rows {r : Route} {t : Table} (few : t.rows.length ^ r.required.length ≤ maxInteger)
    (security : Option Pattern) : r.GivesFirst security ⟨true, t⟩ := by
  have group : ∀ p : GroupPlan, t.rows.length ^ p.parts.length ≤ maxInteger →
      Store.GivesFirst (Store.getCompound (p.compound security) ·) {} ⟨true, t⟩ := by
    intro p few
    apply Store.getCompound_givesFirst rfl
    intro found h
    dsimp only at h
    rw [Store.getCompound_open] at h
    have bound := Store.length_combined h
    have parts : (p.compound security).patterns.length = p.parts.length := List.length_map _
    rw [parts] at bound
    exact Nat.le_trans bound few
  constructor
  · rintro p rfl
    apply Store.get_givesFirst rfl
    intro found h
    dsimp only at h
    rw [Store.get_open] at h
    obtain ⟨rows, fetched, rfl⟩ := map_eq_ok h
    rw [List.length_map]
    change t.rows.length ^ 1 ≤ maxInteger at few
    rw [Nat.pow_one] at few
    exact Nat.le_trans (Store.length_fetched fetched) few
  · rintro m p rfl
    exact group p few
  · rintro m p rfl
    exact group p.core few

/-- A query with optional triples may be spared a malformed expression of the security pattern: where
the limit leaves no subject to look up, the expression is never read. -/
structure Spared {α : Type} (r : Route) (security : Option Pattern) (limited whole : Except QueryError α) : Prop where
  optional : ∃ modifiers p, r = .multi ⟨modifiers, .optional p⟩
  malformed : ∃ guard, security = some guard ∧ guard.searches? = none
  whole : whole = .error (.store .malformedRegex)
  limited : ∃ a, limited = .ok a

end Route

namespace MultiPlan

theorem run_onAll {p : MultiPlan} (formed : (Route.multi p).Formed) {security : Option Pattern} {t : Table}
    (first : (Route.multi p).GivesFirst security ⟨true, t⟩) :
    p.run security ⟨true, t⟩ = p.runOnAll security ⟨true, t⟩ ∨
      (p.run security ⟨true, t⟩).2 = (p.runOnAll security ⟨true, t⟩).2 ∧
        (Route.multi p).Spared security (p.run security ⟨true, t⟩).1 (p.runOnAll security ⟨true, t⟩).1 := by
  obtain ⟨m, shape⟩ := p
  unfold run runOnAll
  rcases options_cases m with unlimited | ⟨n, limited, word, unordered, plain, asked⟩
  · left
    dsimp only
    rw [unlimited]
  · have finished := finish_first unordered plain asked
    dsimp only
    rw [limited, bind_apply, bind_apply]
    cases shape with
    | none => exact .inl rfl
    | compound p =>
      left
      unfold rows
      dsimp only
      rw [adapt_apply, adapt_apply, GroupPlan.run_first (first.compound m p rfl) word]
      rcases p.run security {} ⟨true, t⟩ with ⟨e | found, after⟩
      · rfl
      · simp only [Except.map, Except.mapError, pure_apply, finished]
    | optional p =>
      unfold rows
      dsimp only
      rw [adapt_apply, adapt_apply, bind_apply, bind_apply, GroupPlan.run_first (first.optional m p rfl) word,
        GroupPlan.run_open]
      cases answered : p.core.answer t security {} with
      | error e => exact .inl rfl
      | ok core =>
        simp only [Except.map, OptionalPlan.extendAll_completed formed.graph]
        rcases OptionalPlan.completed_first formed.graph answered n with same | ⟨unreadable, whole, found, some_⟩
        · left
          rw [same]
          cases p.completed t security core with
          | error e => rfl
          | ok found => simp only [Except.map, Except.mapError, pure_apply, finished]
        · right
          rw [whole, some_]
          refine ⟨rfl, ⟨_, _, rfl⟩, ?_, rfl, _, rfl⟩
          cases security with
          | none => cases unreadable
          | some guard =>
            refine ⟨guard, rfl, ?_⟩
            by_contra readable
            rw [OptionalPlan.readable_of_guard (Option.isSome_iff_ne_none.2 readable)] at unreadable
            cases unreadable

end MultiPlan

namespace Engine

variable {δ : Type}

def runRouteOnAll (r : Route) (security : Option Pattern) : EngineAction σ δ (Option Solutions) :=
  match r with
  | .single p => do return some (← onStore ((p.runOnAll security).adapt .store))
  | .multi p => do return some (← onStore (p.runOnAll security))
  | .delegated => return none

theorem runRoute_onAll {r : Route} (formed : r.Formed) {security : Option Pattern} {t : Table}
    (first : r.GivesFirst security ⟨true, t⟩) (evaluator : Option δ) (flag : Bool) :
    runRoute r security ⟨⟨true, t⟩, evaluator, flag⟩ = runRouteOnAll r security ⟨⟨true, t⟩, evaluator, flag⟩ ∨
      (runRoute r security ⟨⟨true, t⟩, evaluator, flag⟩).2 =
          (runRouteOnAll r security ⟨⟨true, t⟩, evaluator, flag⟩).2 ∧
        r.Spared security (runRoute r security ⟨⟨true, t⟩, evaluator, flag⟩).1
          (runRouteOnAll r security ⟨⟨true, t⟩, evaluator, flag⟩).1 := by
  unfold runRoute runRouteOnAll
  cases r with
  | delegated => exact .inl rfl
  | single p =>
    left
    dsimp only
    rw [bind_apply, bind_apply, onStore, onStore]
    dsimp only
    rw [adapt_apply, adapt_apply, SinglePlan.run_onAll (first.single p rfl)]
  | multi p =>
    dsimp only
    rw [bind_apply, bind_apply, onStore, onStore]
    dsimp only
    rcases MultiPlan.run_onAll formed first with same | ⟨state, optional, malformed, whole, found, limited⟩
    · left
      rw [same]
    · right
      rcases hl : p.run security ⟨true, t⟩ with ⟨answer, after⟩
      rcases hw : p.runOnAll security ⟨true, t⟩ with ⟨answer', after'⟩
      rw [hl] at state limited
      rw [hw] at state whole
      dsimp only at state limited whole
      subst state limited whole
      exact ⟨rfl, optional, malformed, rfl, _, rfl⟩

theorem bind_onAll {α : Type} {r : Route} (formed : r.Formed) {security : Option Pattern} {t : Table}
    (first : r.GivesFirst security ⟨true, t⟩) (evaluator : Option δ) (flag : Bool)
    (next : Option Solutions → EngineAction Table δ α)
    (answers : ∀ found e, ∃ a, (next (some found) e).1 = .ok a) :
    (runRoute r security >>= next) ⟨⟨true, t⟩, evaluator, flag⟩ =
        (runRouteOnAll r security >>= next) ⟨⟨true, t⟩, evaluator, flag⟩ ∨
      r.Spared security ((runRoute r security >>= next) ⟨⟨true, t⟩, evaluator, flag⟩).1
        ((runRouteOnAll r security >>= next) ⟨⟨true, t⟩, evaluator, flag⟩).1 := by
  rw [bind_apply, bind_apply]
  rcases runRoute_onAll formed first evaluator flag with same | ⟨-, ⟨m, p, rfl⟩, malformed, whole, found, limited⟩
  · left
    rw [same]
  · right
    obtain ⟨solutions, rfl⟩ := some_of_runRoute rfl limited
    rcases hl : runRoute (.multi ⟨m, .optional p⟩) security ⟨⟨true, t⟩, evaluator, flag⟩ with ⟨answer, after⟩
    rcases hw : runRouteOnAll (.multi ⟨m, .optional p⟩) security ⟨⟨true, t⟩, evaluator, flag⟩ with ⟨answer', after'⟩
    rw [hl] at limited
    rw [hw] at whole
    dsimp only at limited whole
    subst limited whole
    exact ⟨⟨m, p, rfl⟩, malformed, rfl, answers solutions after⟩

variable [Evaluator δ]

def selectOnAll (query : Text) (security : Option Pattern := none) : EngineAction σ δ Solutions := do
  let route := Route.ofText query
  let answer ← match ← runRouteOnAll route security with
    | some found => pure found
    | none => delegate "SELECT" (Evaluator.select query security)
  note route.isOptimized
  return answer

def askOnAll (query : Text) (security : Option Pattern := none) : EngineAction σ δ Bool := do
  let route := (Route.ofText query).first
  let answer ← match ← runRouteOnAll route security with
    | some found => pure (!found.rows.isEmpty)
    | none => delegate "ASK" (Evaluator.ask query security)
  note route.isOptimized
  return answer

/-- Limits in the store show in no answer, if the store answers the first of all rows: the rows come out
as they do where all are fetched first. What the store is asked for is limit and offset together, in words
that do not wrap, and SQL is given this number or its own largest one. -/
theorem limits_unseen (query : Text) (security : Option Pattern) (t : Table) (evaluator : Option δ) (flag : Bool)
    (first : (Route.ofText query).GivesFirst security ⟨true, t⟩) :
    (select query security ⟨⟨true, t⟩, evaluator, flag⟩ =
        selectOnAll query security ⟨⟨true, t⟩, evaluator, flag⟩ ∨
      (Route.ofText query).Spared security (select query security ⟨⟨true, t⟩, evaluator, flag⟩).1
        (selectOnAll query security ⟨⟨true, t⟩, evaluator, flag⟩).1) ∧
    (ask query security ⟨⟨true, t⟩, evaluator, flag⟩ = askOnAll query security ⟨⟨true, t⟩, evaluator, flag⟩ ∨
      (Route.ofText query).first.Spared security (ask query security ⟨⟨true, t⟩, evaluator, flag⟩).1
        (askOnAll query security ⟨⟨true, t⟩, evaluator, flag⟩).1) ∧
    (∀ limit offset : UInt64, Modifiers.rowsToFetch (some limit.toNat) (some offset.toNat) =
      if limit > maxWord - offset then none else some (limit + offset).toNat) ∧
    ∀ n : UInt64, (min n 9223372036854775807).toInt64.toInt = sqlInteger n.toNat := by
  have formed := Route.formed_ofText query
  refine ⟨?_, ?_, Modifiers.rowsToFetch_word, sqlInteger_word⟩
  · exact bind_onAll formed first evaluator flag _ fun found e => ⟨_, rfl⟩
  · exact bind_onAll (Route.formed_first formed) first.first evaluator flag _
      fun found e => ⟨_, rfl⟩

def secondAddress : Text :=
  "SELECT ?n ?m WHERE { ?s <http://ex/name> ?n OPTIONAL { ?s <http://ex/mail> ?m } } LIMIT 1 OFFSET 1"

set_option maxRecDepth 100000 in
theorem limits_unseen_address :
    (Route.ofText secondAddress).GivesFirst none ⟨true, Table.holding true MultiPlan.addresses⟩ ∧
    select secondAddress none ⟨⟨true, Table.holding true MultiPlan.addresses⟩, (none : Option Empty), false⟩ =
      selectOnAll secondAddress none
        ⟨⟨true, Table.holding true MultiPlan.addresses⟩, (none : Option Empty), false⟩ := by
  have parts : (Route.ofText secondAddress).required.length = 1 := by decide +kernel
  have rows : (Table.holding true MultiPlan.addresses).rows.length = 4 := rfl
  have few : (Table.holding true MultiPlan.addresses).rows.length ^ (Route.ofText secondAddress).required.length ≤
      maxInteger := by
    rw [parts, rows]
    unfold maxInteger
    omega
  have first := Route.givesFirst_of_rows few none
  obtain ⟨same | spared, -⟩ := limits_unseen secondAddress none _ (none : Option Empty) false first
  · exact ⟨first, same⟩
  · obtain ⟨guard, given, -⟩ := spared.malformed
    cases given

end Engine

end QuadStore
