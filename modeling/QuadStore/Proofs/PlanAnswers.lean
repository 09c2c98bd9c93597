import QuadStore.Proofs.Joining
import QuadStore.Query.Engine

namespace QuadStore

open Sql Step

namespace Store

def combined (t : Table) (c : Compound) (options : Options) : Except StoreError (List CompoundResult) :=
  match c.select.find? fun s => c.patterns.length ≤ s.pattern with
  | some s => .error (.missingPattern s.name s.pattern c.patterns.length)
  | none =>
  match c.patterns with
  | [] => .ok []
  | [p] => (fetched t p options).map (List.map fun r => ofSingle c (.ofRow r))
  | patterns =>
    match patterns.mapM Pattern.joinClauses? with
    | none => .error .regexInJoin
    | some clauses =>
      .ok ((Table.slice options (Table.sorted options Table.Joined.first (t.joined c.on clauses))).map
        fun j => ofJoined c.on (projections c) (j.record ⟨c.on, (projections c).map (·.2), clauses⟩))

theorem getCompound_open (c : Compound) (options : Options) (t : Table) :
    getCompound c options ⟨true, t⟩ = (combined t c options, ⟨true, t⟩) := by
  unfold getCompound combined
  rw [bind_apply, requireOpen_apply]
  simp only [if_true]
  cases c.select.find? fun s => c.patterns.length ≤ s.pattern with
  | some s => rfl
  | none =>
    dsimp only
    rcases c.patterns with _ | ⟨p, _ | ⟨q, rest⟩⟩
    · rfl
    · dsimp only
      rw [bind_apply, get_open]
      cases fetched t p options with
      | error e => rfl
      | ok rows => simp [Except.map, pure_apply, Function.comp_def]
    · dsimp only
      cases (p :: q :: rest).mapM Pattern.joinClauses? with
      | none => rfl
      | some clauses =>
        dsimp only
        rw [bind_apply, query_apply]
        simp [Table.answer, pure_apply, Function.comp_def]

end Store

namespace SinglePlan

def solutions (p : SinglePlan) (rows : List Row) : Solutions :=
  ⟨p.names, Solutions.window p.modifiers p.key (rows.map fun r => p.bind (Quint.ofRow r).toQuad)⟩

theorem run_open (p : SinglePlan) (security : Option Pattern) (t : Table) :
    p.run security ⟨true, t⟩ =
      ((Store.fetched t (p.triple.inGraph (p.triple.lookup security)) p.options).map p.solutions,
        ⟨true, t⟩) := by
  unfold run
  rw [bind_apply, Store.get_open]
  cases Store.fetched t (p.triple.inGraph (p.triple.lookup security)) p.options with
  | error e => rfl
  | ok rows => simp [Except.map, pure_apply, solutions, Function.comp_def]

end SinglePlan

namespace GroupPlan

def answer (p : GroupPlan) (t : Table) (security : Option Pattern) (options : Options) :
    Except StoreError Solutions :=
  (Store.combined t (p.compound security) options).map fun found => ⟨p.names, found.map p.bind⟩

theorem run_open (p : GroupPlan) (security : Option Pattern) (options : Options) (t : Table) :
    p.run security options ⟨true, t⟩ = (p.answer t security options, ⟨true, t⟩) := by
  unfold run answer
  rw [bind_apply, Store.getCompound_open]
  cases Store.combined t (p.compound security) options <;> rfl

end GroupPlan

namespace OptionalPlan

def attributeOf (r : Row) : Attribute :=
  ⟨(Quint.ofRow r).subject, (Quint.ofRow r).predicate, (Quint.ofRow r).object⟩

def guardedRows (p : OptionalPlan) (t : Table) (security : Pattern) (subjects : List Term) :
    Except StoreError (List Row) :=
  if subjects.isEmpty then .ok []
  else Store.fetched t (p.guardedLookup (some security) subjects) {}

theorem attributes_open (p : OptionalPlan) (security : Pattern) (subjects : List Term) (t : Table) :
    p.attributes (some security) subjects ⟨true, t⟩ =
      ((p.guardedRows t security subjects).map (List.map attributeOf), ⟨true, t⟩) := by
  unfold attributes guardedRows
  dsimp only
  by_cases h : subjects.isEmpty
  · rw [if_pos h, if_pos h]
    rfl
  · rw [if_neg h, if_neg h, bind_apply, Store.get_open]
    cases Store.fetched t (p.guardedLookup (some security) subjects) {} with
    | error e => rfl
    | ok rows =>
      simp only [Except.map, pure_apply, List.map_map]
      rfl

def extended (p : OptionalPlan) (t : Table) (security : Pattern) (core : Solutions) :
    Except StoreError Solutions :=
  if core.rows.isEmpty then .ok ⟨p.names core.names, []⟩
  else (p.guardedRows t security (p.subjects core.rows)).map fun rows =>
    ⟨p.names core.names, core.rows.map (p.extend (rows.map attributeOf))⟩

theorem extendAll_open (p : OptionalPlan) (security : Pattern) (core : Solutions) (t : Table) :
    p.extendAll (some security) core ⟨true, t⟩ = (p.extended t security core, ⟨true, t⟩) := by
  unfold extendAll extended
  by_cases h : core.rows.isEmpty
  · rw [if_pos h, if_pos h]
    rfl
  · rw [if_neg h, if_neg h, bind_apply, attributes_open]
    cases p.guardedRows t security (p.subjects core.rows) <;> rfl

end OptionalPlan

namespace MultiPlan

def found (shape : GroupShape) (t : Table) (security : Pattern) (options : Options) :
    Except QueryError Solutions :=
  match shape with
  | .none => .error .noPlan
  | .compound p => (p.answer t (some security) options).mapError .store
  | .optional p =>
    match p.core.answer t (some security) options with
    | .error e => .error (.store e)
    | .ok core => (p.extended t security core).mapError .store

theorem rows_open (shape : GroupShape) (security : Pattern) (options : Options) (t : Table) :
    rows shape (some security) options ⟨true, t⟩ = (found shape t security options, ⟨true, t⟩) := by
  cases shape with
  | none => rfl
  | compound p =>
    unfold rows found
    dsimp only
    rw [adapt_apply, GroupPlan.run_open]
  | optional p =>
    unfold rows found
    dsimp only
    rw [adapt_apply, bind_apply, GroupPlan.run_open]
    cases p.core.answer t (some security) options with
    | error e => rfl
    | ok core =>
      dsimp only
      rw [OptionalPlan.extendAll_open]

theorem run_open (p : MultiPlan) (security : Pattern) (t : Table) :
    p.run (some security) ⟨true, t⟩ =
      ((found p.shape t security (options p.modifiers)).map (finish p.modifiers), ⟨true, t⟩) := by
  unfold run
  rw [bind_apply, rows_open]
  cases found p.shape t security (options p.modifiers) <;> rfl

end MultiPlan

namespace Route

def answer? (r : Route) (t : Table) (security : Pattern) : Option (Except QueryError Solutions) :=
  match r with
  | .single p =>
    some (((Store.fetched t (p.triple.inGraph (p.triple.lookup (some security))) p.options).map
      p.solutions).mapError .store)
  | .multi p =>
    some ((MultiPlan.found p.shape t security (MultiPlan.options p.modifiers)).map
      (MultiPlan.finish p.modifiers))
  | .delegated => none

end Route

namespace Engine

variable {δ : Type}

theorem runRoute_open (r : Route) (t : Table) (security : Pattern) (evaluator : Option δ) (flag : Bool)
    (answer : Except QueryError Solutions) (h : r.answer? t security = some answer) :
    runRoute r (some security) ⟨⟨true, t⟩, evaluator, flag⟩ =
      (answer.map some, ⟨⟨true, t⟩, evaluator, flag⟩) := by
  cases r with
  | delegated => cases h
  | single p =>
    cases h
    unfold runRoute
    dsimp only
    rw [bind_apply, onStore]
    dsimp only
    rw [adapt_apply, SinglePlan.run_open]
    cases Store.fetched t (p.triple.inGraph (p.triple.lookup (some security))) p.options <;> rfl
  | multi p =>
    cases h
    unfold runRoute
    dsimp only
    rw [bind_apply, onStore]
    dsimp only
    rw [MultiPlan.run_open]
    cases MultiPlan.found p.shape t security (MultiPlan.options p.modifiers) <;> rfl

theorem some_of_runRoute {σ : Type} [Backend σ] {r : Route} (optimized : r.isOptimized = true) {security : Option Pattern}
    {e : Engine σ δ} {found : Option Solutions} (h : (runRoute r security e).1 = .ok found) :
    ∃ solutions, found = some solutions := by
  cases r with
  | delegated => cases optimized
  | single p =>
    unfold runRoute at h
    dsimp only at h
    rw [bind_apply] at h
    split at h
    · cases h
      exact ⟨_, rfl⟩
    · cases h
  | multi p =>
    unfold runRoute at h
    dsimp only at h
    rw [bind_apply] at h
    split at h
    · cases h
      exact ⟨_, rfl⟩
    · cases h

theorem answer?_isSome (r : Route) (t : Table) (security : Pattern) (h : r.isOptimized = true) :
    ∃ answer, r.answer? t security = some answer := by
  cases r with
  | delegated => cases h
  | single p => exact ⟨_, rfl⟩
  | multi p => exact ⟨_, rfl⟩

variable [Evaluator δ]

theorem select_open (query : Text) (t : Table) (security : Pattern) (evaluator : Option δ) (flag : Bool)
    (answer : Except QueryError Solutions)
    (h : (Route.ofText query).answer? t security = some answer) :
    (select query (some security) ⟨⟨true, t⟩, evaluator, flag⟩).1 = answer := by
  unfold select
  dsimp only
  rw [bind_apply, runRoute_open _ t security evaluator flag answer h]
  cases answer <;> rfl

theorem ask_open (query : Text) (t : Table) (security : Pattern) (evaluator : Option δ) (flag : Bool)
    (answer : Except QueryError Solutions)
    (h : (Route.ofText query).first.answer? t security = some answer) :
    (ask query (some security) ⟨⟨true, t⟩, evaluator, flag⟩).1 =
      answer.map fun found => !found.rows.isEmpty := by
  unfold ask
  dsimp only
  rw [bind_apply, runRoute_open _ t security evaluator flag answer h]
  cases answer <;> rfl

end Engine

end QuadStore
