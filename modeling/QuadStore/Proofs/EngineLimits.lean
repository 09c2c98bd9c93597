import QuadStore.Proofs.IssuedStatements
import QuadStore.Proofs.Provenance
import QuadStore.Proofs.StatementValues
import QuadStore.Sql.Limits

namespace QuadStore

open Sql Step

def Sql.Limits.refused (limits : Limits) (t : Table) (qs : List Query) : Option Failure :=
  qs.findSome? (limits.refusal t)

namespace Sql.Limits

variable {limits : Limits} {t : Table}

theorem refused_append (before after : List Query) :
    limits.refused t (before ++ after) = (limits.refused t before).or (limits.refused t after) :=
  List.findSome?_append

theorem refused_singleton (q : Query) : limits.refused t [q] = limits.refusal t q := by
  unfold refused
  rw [List.findSome?_cons]
  cases limits.refusal t q <;> rfl

theorem usual_takes {q : Query} :
    usual.refusal t q = none ↔ q.render.params.length ≤ 32766 ∧ q.tables ≤ 64 := by
  unfold usual
  dsimp only
  constructor
  · intro taken
    split at taken
    · cases taken
    · split at taken
      · cases taken
      · split at taken
        · cases taken
        · omega
  · intro both
    rw [if_neg (by omega), if_neg (by omega), if_neg (by omega)]

end Sql.Limits

namespace Store

variable {ε ε' α β : Type}

def within (limits : Limits) (s : Store Table) : Store Limited := ⟨s.isOpen, ⟨limits, s.backend⟩⟩

/-- An action that reads asks some queries. If the engine takes them all it answers as it does on the table
alone, otherwise with the first refusal, and the store stays as it is. -/
structure Asks (refuse : Failure → ε) (x : ExceptT ε (StateM (Store Limited)) α)
    (y : ExceptT ε (StateM (Store Table)) α) (s : Store Table) (qs : List Query) : Prop where
  kept : (y s).2 = s
  answers : ∀ limits, x (s.within limits) =
    (((limits.refused s.backend qs).map fun f => Except.error (refuse f)).getD (y s).1, s.within limits)

def afterwards (answer : Except ε α) (more : α → List Query) : List Query :=
  match answer with
  | .ok a => more a
  | .error _ => []

namespace Asks

variable {refuse : Failure → ε} {x : ExceptT ε (StateM (Store Limited)) α} {y : ExceptT ε (StateM (Store Table)) α}
  {f : α → ExceptT ε (StateM (Store Limited)) β} {g : α → ExceptT ε (StateM (Store Table)) β} {s : Store Table}
  {qs : List Query} {limits : Limits}

theorem refused (h : Asks refuse x y s qs) {failure : Failure}
    (first : limits.refused s.backend qs = some failure) :
    x (s.within limits) = (.error (refuse failure), s.within limits) := by
  rw [h.answers, first]
  rfl

theorem unchanged (h : Asks refuse x y s qs) {answer : Except ε α} {after : Store Limited}
    (run : x (s.within limits) = (answer, after)) : after = s.within limits := by
  rw [h.answers] at run
  exact (Prod.mk.inj run).2.symm

theorem taken (h : Asks refuse x y s qs) (limits : Limits) (all : limits.refused s.backend qs = none) :
    x (s.within limits) = ((y s).1, s.within limits) := by
  rw [h.answers, all]
  rfl

theorem refused_alone {q : Query} (h : Asks refuse x y s [q]) {failure : Failure}
    (first : limits.refusal s.backend q = some failure) :
    x (s.within limits) = (.error (refuse failure), s.within limits) :=
  h.refused ((Limits.refused_singleton q).trans first)

theorem taken_alone {q : Query} (h : Asks refuse x y s [q]) (limits : Limits)
    (all : limits.refusal s.backend q = none) : x (s.within limits) = ((y s).1, s.within limits) :=
  h.taken limits ((Limits.refused_singleton q).trans all)

theorem of_ok (h : Asks refuse x y s qs) {a : α} {after : Store Limited} (ok : x (s.within limits) = (.ok a, after)) :
    limits.refused s.backend qs = none ∧ y s = (.ok a, s) := by
  cases first : limits.refused s.backend qs with
  | some failure =>
    rw [h.refused first] at ok
    cases ok
  | none =>
    rw [h.taken limits first] at ok
    exact ⟨rfl, Prod.ext (Prod.mk.inj ok).1 h.kept⟩

theorem silent {answer : Except ε α} (hx : ∀ limits, x (s.within limits) = (answer, s.within limits))
    (hy : y s = (answer, s)) : Asks refuse x y s [] := by
  refine ⟨by rw [hy], fun limits => ?_⟩
  rw [hx, hy]
  rfl

theorem pure (a : α) : Asks refuse (Pure.pure a) (Pure.pure a) s [] := silent (fun _ => rfl) rfl

theorem throw (e : ε) :
    Asks refuse (MonadExcept.throw e : ExceptT ε (StateM (Store Limited)) α) (MonadExcept.throw e) s [] :=
  silent (fun _ => rfl) rfl

theorem bind (more : α → List Query) (hx : Asks refuse x y s qs)
    (hf : ∀ a, (y s).1 = .ok a → Asks refuse (f a) (g a) s (more a)) :
    Asks refuse (x >>= f) (y >>= g) s (qs ++ afterwards (y s).1 more) := by
  rcases hy : y s with ⟨e | a, after⟩
  · obtain rfl : s = after := by rw [← hx.kept, hy]
    refine ⟨by rw [bind_apply, hy], fun limits => ?_⟩
    rw [bind_apply, bind_apply, hy, afterwards, List.append_nil]
    cases first : limits.refused s.backend qs with
    | some failure => rw [hx.refused first]; rfl
    | none => rw [hx.taken limits first, hy]; rfl
  · obtain rfl : s = after := by rw [← hx.kept, hy]
    have second := hf a (by rw [hy])
    refine ⟨by rw [bind_apply, hy]; exact second.kept, fun limits => ?_⟩
    rw [bind_apply, bind_apply, hy, afterwards, Limits.refused_append]
    cases first : limits.refused s.backend qs with
    | some failure => rw [hx.refused first]; rfl
    | none =>
      rw [hx.taken limits first, hy, Option.none_or]
      exact second.answers limits

theorem after {a : α} (hx : Asks refuse x y s []) (answered : (y s).1 = .ok a)
    (hf : Asks refuse (f a) (g a) s qs) : Asks refuse (x >>= f) (y >>= g) s qs := by
  have both := hx.bind (fun _ => qs) (f := f) (g := g) fun a' same => by
    rw [answered] at same
    cases same
    exact hf
  rwa [answered, List.nil_append] at both

theorem fails {e : ε} (hx : Asks refuse x y s []) (failed : (y s).1 = .error e) :
    Asks refuse (x >>= f) (y >>= g) s [] := by
  have both := hx.bind (fun _ => []) (f := f) (g := g) fun a same => by
    rw [failed] at same
    cases same
  rwa [failed, List.nil_append] at both

theorem andThen (hx : Asks refuse x y s qs) (hf : ∀ a, Asks refuse (f a) (g a) s []) :
    Asks refuse (x >>= f) (y >>= g) s qs := by
  have both := hx.bind (fun _ => []) (f := f) (g := g) fun a _ => hf a
  cases answered : (y s).1 <;> rwa [answered, afterwards, List.append_nil] at both

theorem adapt (h : Asks refuse x y s qs) (inner : ε → ε') :
    Asks (fun failure => inner (refuse failure)) (x.adapt inner) (y.adapt inner) s qs := by
  refine ⟨h.kept, fun limits => ?_⟩
  rw [adapt_apply, adapt_apply, h.answers]
  cases limits.refused s.backend qs <;> rfl

end Asks

theorem query_asks (q : Query) (t : Table) :
    Asks .sql (call (Backend.query q) : Action Limited _) (call (Backend.query q)) ⟨true, t⟩ [q] := by
  refine ⟨rfl, fun limits => ?_⟩
  unfold call
  rw [Limits.refused_singleton]
  simp only [Backend.query, Connection.plainly, Connection.on, Connection.statement, Connection.step,
    Limited.answer, within]
  cases limits.refusal t q <;> rfl

variable (t : Table)

theorem requireOpen_asks : Asks .sql (requireOpen : Action Limited Unit) requireOpen ⟨true, t⟩ [] :=
  .silent (fun _ => rfl) rfl

theorem searches_asks (p : Pattern) : Asks .sql (searches p : Action Limited _) (searches p) ⟨true, t⟩ [] := by
  unfold searches
  cases p.searches? with
  | none => exact .throw _
  | some found => exact .pure found

theorem slice_asks (options : Options) (rows : List Record) :
    Asks .sql (slice options rows : Action Limited _) (slice options rows) ⟨true, t⟩ [] :=
  .silent (fun _ => slice_apply options rows _) (slice_apply options rows _)

/-- What a lookup asks; nothing if one of its regular expressions cannot be read. -/
def lookupQueries (p : Pattern) (options : Options) : List Query :=
  if p.searches?.isSome then [lookupQuery p options] else []

theorem get_asks (p : Pattern) (options : Options) :
    Asks .sql (get p options : Action Limited _) (get p options) ⟨true, t⟩ (lookupQueries p options) := by
  refine (requireOpen_asks t).after rfl ?_
  unfold lookupQueries
  cases found : p.searches? with
  | none => exact (searches_asks t p).fails (by rw [searches_apply, found])
  | some regexes =>
    have searched := p.searches_nil_iff regexes found
    refine (searches_asks t p).after (a := regexes) (by rw [searches_apply, found]) ?_
    rw [Option.isSome_some, if_pos rfl, lookupQuery, fetching]
    cases regex : p.hasRegex with
    | false =>
      rw [regex, Bool.not_false] at searched
      rw [if_pos searched, if_pos searched, if_neg Bool.false_ne_true]
      exact (query_asks _ t).andThen fun _ => .pure _
    | true =>
      rw [regex, Bool.not_true] at searched
      rw [searched, if_neg Bool.false_ne_true, if_pos rfl]
      exact (query_asks _ t).andThen fun _ => (slice_asks t options _).andThen fun _ => .pure _

def combinedQueries (c : Compound) (options : Options) : List Query :=
  match c.select.find? fun s => c.patterns.length ≤ s.pattern with
  | some _ => []
  | none =>
  match c.patterns with
  | [] => []
  | [p] => lookupQueries p options
  | patterns =>
    (patterns.mapM Pattern.joinClauses?).toList.map fun clauses =>
      .join ⟨c.on, (projections c).map (·.2), clauses⟩ options

theorem getCompound_asks (c : Compound) (options : Options) :
    Asks .sql (getCompound c options : Action Limited _) (getCompound c options) ⟨true, t⟩
      (combinedQueries c options) := by
  refine (requireOpen_asks t).after rfl ?_
  unfold combinedQueries
  cases c.select.find? fun s => c.patterns.length ≤ s.pattern with
  | some missing => exact .throw _
  | none =>
    rcases c.patterns with _ | ⟨p, _ | ⟨q, rest⟩⟩
    · exact .pure []
    · exact (get_asks t p options).andThen fun _ => .pure _
    · dsimp only
      cases (p :: q :: rest).mapM Pattern.joinClauses? with
      | none => exact .throw _
      | some clauses => exact (query_asks _ t).andThen fun _ => .pure _

def compoundQuery (c : Compound) (options : Options) : Query :=
  match c.patterns with
  | [p] => lookupQuery p options
  | patterns => .join ⟨c.on, (projections c).map (·.2), patterns.map Pattern.clauses⟩ options

theorem tables_compoundQuery {c : Compound} (some_ : c.patterns ≠ []) (options : Options) :
    (compoundQuery c options).tables = c.patterns.length := by
  unfold compoundQuery
  rcases shape : c.patterns with _ | ⟨p, _ | ⟨q, rest⟩⟩
  · exact absurd shape some_
  · rfl
  · exact List.length_map _

theorem params_compoundQuery {c : Compound} (some_ : c.patterns ≠ []) :
    (compoundQuery c {}).render.params = c.patterns.flatMap fun p => Clause.values p.clauses := by
  have unsliced : (sliceFragment {}).params = [] := rfl
  unfold compoundQuery
  rcases shape : c.patterns with _ | ⟨p, _ | ⟨q, rest⟩⟩
  · exact absurd shape some_
  · have all : fetching p {} = {} := by
      unfold fetching
      split <;> rfl
    dsimp only
    rw [lookupQuery, all, Query.params_select, unsliced]
    rfl
  · dsimp only
    rw [Query.params_join, unsliced, List.append_nil, List.flatMap_map]

theorem usual_takes_compound {c : Compound} (some_ : c.patterns ≠ []) :
    Limits.usual.refusal t (compoundQuery c {}) = none ↔
      c.patterns.length ≤ 64 ∧ (c.patterns.flatMap fun p => Clause.values p.clauses).length ≤ 32766 := by
  rw [Limits.usual_takes, params_compoundQuery some_, tables_compoundQuery some_, and_comm]

theorem combinedQueries_plain {c : Compound} (some_ : c.patterns ≠ []) (plain : ∀ p ∈ c.patterns, p.hasRegex = false)
    (inside : ∀ s ∈ c.select, s.pattern < c.patterns.length) (options : Options) :
    combinedQueries c options = [compoundQuery c options] := by
  have compiled : c.patterns.mapM Pattern.joinClauses? = some (c.patterns.map Pattern.clauses) :=
    mapM_some_map fun p mem => p.joinClauses_plain (plain p mem)
  unfold combinedQueries compoundQuery
  rw [select_inside inside]
  rcases shape : c.patterns with _ | ⟨p, _ | ⟨q, rest⟩⟩
  · exact absurd shape some_
  · have readable : p.searches? = some [] := p.searches_plain (plain p (by simp [shape]))
    dsimp only
    rw [lookupQueries, readable, Option.isSome_some, if_pos rfl]
  · rw [shape] at compiled
    dsimp only
    rw [compiled]
    rfl

/-- What a request for attributes asks; nothing if there are no subjects or no predicates. -/
def propertyQueries (subjects predicates : List Term) (graph : Option Term) : List Query :=
  if subjects.isEmpty || predicates.isEmpty then []
  else [.select [.position .subject, .position .predicate, .position .object]
    (attributeClauses subjects predicates graph) {}]

theorem propertyQueries_some {subjects predicates : List Term} (asked : subjects ≠ []) (some_ : predicates ≠ [])
    (graph : Option Term) :
    propertyQueries subjects predicates graph =
      [.select [.position .subject, .position .predicate, .position .object]
        (attributeClauses subjects predicates graph) {}] := by
  have both : (subjects.isEmpty || predicates.isEmpty) = false := by
    rw [Bool.or_eq_false_iff, List.isEmpty_eq_false_iff, List.isEmpty_eq_false_iff]
    exact ⟨asked, some_⟩
  rw [propertyQueries, both, if_neg Bool.false_ne_true]

theorem many_subjects_refused {limits : Limits} {subjects predicates : List Term} (some_ : predicates ≠ [])
    (many : limits.values < subjects.length) (graph : Option Term) :
    (limits.refused t (propertyQueries subjects predicates graph)).isSome = true := by
  have asked : subjects ≠ [] := List.ne_nil_of_length_pos (Nat.zero_lt_of_lt many)
  rw [propertyQueries_some asked some_, Limits.refused_singleton]
  refine limits.long_refused t _ (Nat.lt_of_lt_of_le many ?_)
  have values := length_among_le [.position .subject, .position .predicate, .position .object] {}
    (List.mem_append_left _ List.mem_cons_self : _ ∈ attributeClauses subjects predicates graph)
  rwa [List.length_map] at values

theorem usual_takes_properties {subjects predicates : List Term} (some_ : predicates ≠ []) (graph : Option Term) :
    Limits.usual.refused t (propertyQueries subjects predicates graph) = none ↔
      subjects = [] ∨ subjects.length + predicates.length + (namedGraph? graph).toList.length ≤ 32766 := by
  by_cases none_ : subjects = []
  · subst none_
    exact ⟨fun _ => .inl rfl, fun _ => rfl⟩
  · have count : (Clause.values (attributeClauses subjects predicates graph)).length =
        subjects.length + predicates.length + (namedGraph? graph).toList.length := by
      simp only [Clause.values, attributeClauses, List.flatMap_append, List.flatMap_cons, Condition.values,
        List.length_append, List.length_map, List.flatMap_nil]
      cases namedGraph? graph <;> simp [Nat.add_assoc]
    have unsliced : (sliceFragment {}).params = [] := rfl
    have narrow : 1 ≤ 64 := by decide
    rw [propertyQueries_some none_ some_, Limits.refused_singleton, Limits.usual_takes, Query.params_select, unsliced,
      List.append_nil, count, or_iff_right none_]
    exact and_iff_left narrow

theorem getAttributes_asks (subjects predicates : List Term) (graph : Option Term) :
    Asks .sql (getAttributes subjects predicates graph : Action Limited _) (getAttributes subjects predicates graph)
      ⟨true, t⟩ (propertyQueries subjects predicates graph) := by
  refine (requireOpen_asks t).after rfl ?_
  unfold propertyQueries
  split
  · exact .pure []
  · exact (query_asks _ t).andThen fun _ => .pure _

end Store

theorem GroupPlan.run_asks (p : GroupPlan) (security : Option Pattern) (options : Options) (t : Table) :
    Store.Asks .sql (p.run security options : Action Limited _) (p.run security options) ⟨true, t⟩
      (Store.combinedQueries (p.compound security) options) :=
  (Store.getCompound_asks t _ options).andThen fun _ => .pure _

namespace OptionalPlan

variable (p : OptionalPlan) (security : Option Pattern)

def batchQueries (subjects : List Term) : List Query :=
  match security with
  | none => Store.propertyQueries subjects p.predicates p.graph
  | some _ => if subjects.isEmpty then [] else Store.lookupQueries (p.guardedLookup security subjects) {}

theorem attributes_asks (subjects : List Term) (t : Table) :
    Store.Asks .sql (p.attributes security subjects : Action Limited _) (p.attributes security subjects) ⟨true, t⟩
      (p.batchQueries security subjects) := by
  unfold attributes batchQueries
  cases security with
  | none => exact Store.getAttributes_asks t subjects p.predicates p.graph
  | some guard =>
    dsimp only
    split
    · exact .pure []
    · exact (Store.get_asks t _ {}).andThen fun _ => .pure _

theorem batchQueries_nil : p.batchQueries security [] = [] := by
  cases security <;> rfl

theorem extendAll_asks (core : Solutions) (t : Table) :
    Store.Asks .sql (p.extendAll security core : Action Limited _) (p.extendAll security core) ⟨true, t⟩
      (p.batchQueries security (p.subjects core.rows)) := by
  unfold extendAll
  dsimp only
  cases rows : core.rows with
  | nil =>
    have nothing : p.batchQueries security (p.subjects []) = [] := batchQueries_nil p security
    rw [nothing]
    exact .pure _
  | cons b more => exact (p.attributes_asks security (p.subjects (b :: more)) t).andThen fun _ => .pure _

end OptionalPlan

namespace MultiPlan

/-- What a plan asks of a table: its join, and then what is asked for the optional values of the subjects that
were found. -/
def queries (shape : GroupShape) (t : Table) (security : Option Pattern) (options : Options) : List Query :=
  match shape with
  | .none => []
  | .compound p => Store.combinedQueries (p.compound security) options
  | .optional p =>
    Store.combinedQueries (p.core.compound security) options ++
      Store.afterwards (p.core.run security options ⟨true, t⟩).1 fun core =>
        p.batchQueries security (p.subjects core.rows)

theorem rows_asks (shape : GroupShape) (security : Option Pattern) (options : Options) (t : Table) :
    Store.Asks (fun f => .store (.sql f)) (rows (σ := Limited) shape security options) (rows shape security options)
      ⟨true, t⟩ (queries shape t security options) := by
  cases shape with
  | none => exact .throw _
  | compound p => exact (p.run_asks security options t).adapt QueryError.store
  | optional p =>
    exact ((p.core.run_asks security options t).bind _ fun core _ => p.extendAll_asks security core t).adapt QueryError.store

theorem run_asks (p : MultiPlan) (security : Option Pattern) (t : Table) :
    Store.Asks (fun f => .store (.sql f)) (run (σ := Limited) p security) (run p security) ⟨true, t⟩
      (queries p.shape t security (options p.modifiers)) :=
  (rows_asks p.shape security (options p.modifiers) t).andThen fun _ => .pure _

end MultiPlan

inductive Sql.Limits.Refuses (limits : Limits) : Failure → Prop
  | query {t : Table} {q : Query} {f : Failure} (refused : limits.refusal t q = some f) : Refuses limits f
  | command {t : Table} {c : Command} {f : Failure} (refused : limits.commandRefusal t c = some f) : Refuses limits f

namespace Store

variable {α β : Type}

/-- On an engine with limits an action does what it does on the table alone, or it is refused and the store
stays as it is. -/
def Follows (x : Action Limited α) (y : Action Table α) (s : Store Table) : Prop :=
  ∀ limits, x (s.within limits) = ((y s).1, (y s).2.within limits) ∨
    ∃ f, limits.Refuses f ∧ x (s.within limits) = (.error (.sql f), s.within limits)

namespace Follows

variable {x : Action Limited α} {y : Action Table α} {f : α → Action Limited β} {g : α → Action Table β}
  {s : Store Table} {qs : List Query}

theorem of_asks (h : Asks .sql x y s qs) : Follows x y s := by
  intro limits
  cases first : limits.refused s.backend qs with
  | none => exact .inl (by rw [h.taken _ first, h.kept])
  | some failure =>
    obtain ⟨q, -, refused⟩ := List.exists_of_findSome?_eq_some first
    exact .inr ⟨failure, .query refused, h.refused first⟩

theorem after (hx : Asks .sql x y s qs) (hf : ∀ a, Follows (f a) (g a) s) : Follows (x >>= f) (y >>= g) s := by
  intro limits
  cases first : limits.refused s.backend qs with
  | some failure =>
    obtain ⟨q, -, refused⟩ := List.exists_of_findSome?_eq_some first
    exact .inr ⟨failure, .query refused, by rw [bind_apply, hx.refused first]⟩
  | none =>
    rw [bind_apply, bind_apply, hx.taken _ first]
    rcases hy : y s with ⟨e | a, after⟩
    · obtain rfl : s = after := by rw [← hx.kept, hy]
      exact .inl rfl
    · obtain rfl : s = after := by rw [← hx.kept, hy]
      exact hf a limits

theorem map (h : Follows x y s) (k : α → β) : Follows (k <$> x) (k <$> y) s := by
  intro limits
  rw [map_apply, map_apply]
  rcases h limits with same | ⟨f, refuses, run⟩
  · exact .inl (by rw [same])
  · exact .inr ⟨f, refuses, by rw [run]; rfl⟩

theorem bind_pure (h : Follows x y s) (k : α → β) :
    Follows (x >>= fun a => Pure.pure (k a)) (y >>= fun a => Pure.pure (k a)) s := by
  have mapped := h.map k
  rwa [map_eq_pure_bind, map_eq_pure_bind] at mapped

end Follows

theorem execute_follows (c : Command) (t : Table) :
    Follows (call (Backend.execute c)) (call (Backend.execute c)) ⟨true, t⟩ := by
  intro limits
  have plain : (Backend.execute c : Call Table Nat) t = _ := Connection.plainly_execute c t
  have run : (Backend.execute c : Call Limited Nat) ⟨limits, t⟩ = _ :=
    Connection.plainly_statement (fun d : Limited => d.apply c) ⟨limits, t⟩
  unfold call within
  dsimp only
  rw [run, plain, Limited.apply]
  cases refused : limits.commandRefusal t c with
  | some f => exact .inr ⟨f, .command refused, rfl⟩
  | none =>
    left
    dsimp only
    cases t.apply c <;> rfl

theorem applyAll_within (limits : Limits) (commands : List Command) (t : Table) :
    commands.foldlM (fun d c => (d.apply c).map (·.2)) (⟨limits, t⟩ : Limited) =
        (t.applyAll commands).map (⟨limits, ·⟩) ∨
      ∃ f, limits.Refuses f ∧
        commands.foldlM (fun d c => (d.apply c).map (·.2)) (⟨limits, t⟩ : Limited) = .error f := by
  induction commands generalizing t with
  | nil => exact .inl rfl
  | cons c rest ih =>
    unfold Table.applyAll
    rw [List.foldlM_cons, List.foldlM_cons]
    unfold Limited.apply
    dsimp only
    cases refused : limits.commandRefusal t c with
    | some f => exact .inr ⟨f, .command refused, rfl⟩
    | none =>
      dsimp only
      cases t.apply c with
      | error e => exact .inl rfl
      | ok r => exact ih r.1

theorem transact_follows (commands : List Command) (t : Table) :
    Follows (transact commands) (transact commands) ⟨true, t⟩ := by
  cases commands with
  | nil => exact .of_asks (.pure ())
  | cons c rest =>
    intro limits
    have plain : (Backend.transact (c :: rest) : Call Table Unit) t = _ := Connection.plainly_transact (c :: rest) t
    have run : (Backend.transact (c :: rest) : Call Limited Unit) ⟨limits, t⟩ = _ :=
      Connection.plainly_inTransaction
        (.forM (fun c => .statement fun d : Limited => d.apply c) (c :: rest)) (fun _ => .ok ()) ⟨limits, t⟩
    have issued : ∀ {σ : Type} [Backend σ], (transact (c :: rest) : Action σ Unit) = call (Backend.transact (c :: rest)) :=
      rfl
    rw [issued, issued]
    unfold call within
    dsimp only
    rw [run, plain]
    rcases applyAll_within limits (c :: rest) t with same | ⟨f, refuses, failed⟩
    · rw [same]
      left
      cases t.applyAll (c :: rest) <;> rfl
    · rw [failed]
      exact .inr ⟨f, refuses, rfl⟩

variable (t : Table)

theorem counted_asks (q : Query) : Asks .sql (counted q : Action Limited _) (counted q) ⟨true, t⟩ [q] := by
  refine (query_asks q t).andThen fun rows => ?_
  cases rows with
  | nil => exact .pure 0
  | cons r rest =>
    dsimp only
    cases readCount? (r.text "count") with
    | none => exact .throw _
    | some n => exact .pure n

theorem count_follows (p : Pattern) : Follows (count p) (count p) ⟨true, t⟩ := by
  refine .after (requireOpen_asks t) fun _ => .after (searches_asks t p) fun regexes => ?_
  split
  · exact .after (counted_asks t _) fun _ => .of_asks (.pure _)
  · exact .after ((query_asks _ t).andThen fun _ => .pure _) fun _ => .of_asks (.pure _)

theorem stats_follows : Follows stats stats ⟨true, t⟩ :=
  .after (requireOpen_asks t) fun _ => .after (counted_asks t _) fun _ => .after (counted_asks t _) fun _ =>
    .after (counted_asks t _) fun _ => .of_asks (.pure _)

theorem writeAll_follows (p : Pattern) (command : List Clause → Command) :
    Follows (writeAll p command) (writeAll p command) ⟨true, t⟩ := by
  refine .after (requireOpen_asks t) fun _ => .after (searches_asks t p) fun regexes => ?_
  split
  · exact execute_follows _ t
  · exact .after ((query_asks _ t).andThen fun _ => .pure _) fun keys => (transact_follows _ t).bind_pure _

end Store

/-- The limits of an engine come between a store and its table by refusing a statement, and in no other way:
an access does what it does without them, or fails by a refusal and leaves the store as it is. -/
theorem Access.run_follows (a : Access) (s : Store Table) : Store.Follows a.run a.run s := by
  obtain ⟨isOpen, t⟩ := s
  cases isOpen with
  | false => cases a <;> exact fun limits => .inl rfl
  | true =>
    have opened : ∀ {x : Action Limited Unit} {y : Action Table Unit}, Store.Follows x y ⟨true, t⟩ →
        Store.Follows (do Store.requireOpen; x) (do Store.requireOpen; y) ⟨true, t⟩ :=
      fun h => .after (Store.requireOpen_asks t) fun _ => h
    cases a with
    | get p options => exact (Store.Follows.of_asks (Store.get_asks t p options)).map _
    | count p => exact (Store.count_follows t p).map _
    | put q => exact (opened ((Store.execute_follows _ t).map _)).map _
    | putAll qs => exact (opened (Store.transact_follows _ t)).map _
    | setVector p v => exact (Store.writeAll_follows t p _).map _
    | delete p => exact (Store.writeAll_follows t p _).map _
    | deleteAll qs => exact (opened (Store.transact_follows _ t)).map _
    | getCompound c options => exact (Store.Follows.of_asks (Store.getCompound_asks t c options)).map _
    | getAttributes subjects predicates graph =>
      exact (Store.Follows.of_asks (Store.getAttributes_asks t subjects predicates graph)).map _
    | stats => exact (Store.stats_follows t).map _
    | clear => exact (opened ((Store.execute_follows _ t).map _)).map _

end QuadStore
