import QuadStore.Proofs.OptionalRows

namespace QuadStore

open Sql Sparql

theorem Operators.with_among {o : Operators} {vs : Option (List Value)} (given : o.among = vs) :
    { o with among := vs } = o := by
  subst given
  rfl

theorem Operators.merge_among (o : Operators) (vs : List Value) :
    o.merge { among := some vs } = { o with among := some vs } := by
  simp [merge]

namespace Match

theorem admits_without_among {o : Operators} {p : Position} {s : Text} (h : (operators o).admits p s = true) :
    (operators { o with among := none }).admits p s = true := by
  cases given : o.among with
  | none =>
    rw [Operators.with_among given]
    exact h
  | some allowed =>
    have both := admits_among o allowed p s
    rw [Operators.merge_among, Operators.with_among given, h] at both
    exact (Bool.and_eq_true_iff.1 both.symm).2

theorem not_free_term {u : Term} {p : Position} : ¬ ∀ s, (some (term u)).all (·.admits p s) = true := by
  intro free
  -- one of two texts is not that of the term
  have only : ∀ s, s = u.stored p := by
    intro s
    have taken := free s
    rwa [Option.all_some, admits_term, decide_eq_true_eq] at taken
  exact absurd ((only []).trans (only [0]).symm) (by decide)

theorem admits_adding_among {m : Option Match} {p : Position} (free : ∀ s, m.all (·.admits p s) = true)
    (vs : List Value) (s : Text) :
    (Match.adding m { among := some vs }).all (·.admits p s) = (vs.map (·.stored p .eq)).contains s := by
  cases m with
  | none =>
    have alone : Match.adding none { among := some vs } =
        some (operators (Operators.merge {} { among := some vs })) := rfl
    have rest : (operators { ({} : Operators) with among := none }).admits p s = true := by
      simp [admits, conditions, Operators.conditions, regex?]
    rw [alone, Option.all_some, admits_among, rest, Bool.and_true]
  | some m =>
    cases m with
    | term u => exact (not_free_term free).elim
    | operators old =>
      have own : (operators old).admits p s = true := by
        have taken := free s
        rwa [Option.all_some] at taken
      rw [Match.adding, Option.all_some, admits_among, admits_without_among own, Bool.and_true]

theorem among_conditions {m : Option Match} {p : Position} (free : ∀ s, m.all (·.admits p s) = true)
    (vs : List Value) :
    ∃ o, Match.adding m { among := some vs } = some (operators o) ∧
      Condition.among (vs.map (·.stored p .eq)) ∈ o.conditions p := by
  have listed : ∀ o : Operators, Condition.among (vs.map (·.stored p .eq)) ∈
      (o.merge { among := some vs }).conditions p := by
    intro o
    rw [Operators.merge_among]
    simp [Operators.conditions]
  cases m with
  | none => exact ⟨_, rfl, listed {}⟩
  | some m =>
    cases m with
    | term u => exact (not_free_term free).elim
    | operators old => exact ⟨_, rfl, listed old⟩

theorem admits_adding_terms {m : Option Match} {p : Position} (free : ∀ s, m.all (·.admits p s) = true)
    (ts : List Term) (s : Text) :
    (Match.adding m { among := some (ts.map .term) }).all (·.admits p s) =
      (ts.map (Term.stored · p)).contains s := by
  rw [admits_adding_among free, Value.stored_terms]

end Match

namespace Pattern

variable {guard : Pattern}

theorem all_of_free (free : ∀ r, guard.admits r = true) (a : Position) (s : Text) :
    (guard.get a).all (·.admits a s) = true := by
  have row := free ⟨s, s, s, s, none⟩
  have text : Row.get ⟨s, s, s, s, none⟩ a = s := by cases a <;> rfl
  cases h : guard.get a with
  | none => rfl
  | some m =>
    have taken := (guard.admits_iff _).1 row a m h
    rwa [text] at taken

theorem searches_of_free (free : ∀ r, guard.admits r = true) : guard.searches?.isSome = true := by
  rw [isSome_searches]
  intro a source given
  obtain ⟨m, at_, regex⟩ := Option.bind_eq_some_iff.1 given
  have taken := all_of_free free a []
  rw [at_, Option.all_some, Match.admits, regex, Option.all_some, Bool.and_eq_true] at taken
  obtain ⟨r, read, -⟩ := (Option.any_eq_true _ _).1 taken.2
  rw [read]
  rfl

end Pattern

namespace OptionalPlan

variable {p : OptionalPlan} {guard : Pattern}

section

variable (free : ∀ r, guard.admits r = true) (subjects : List Term)

include free

theorem takes_subject (s : Text) :
    ((p.guardedLookup (some guard) subjects).get .subject).all (·.admits .subject s) =
      (subjects.map Term.encode).contains s := by
  rw [get_guardedLookup_subject]
  exact Match.admits_adding_terms (Pattern.all_of_free free .subject) subjects s

theorem takes_predicate (s : Text) :
    ((p.guardedLookup (some guard) subjects).get .predicate).all (·.admits .predicate s) =
      (p.predicates.map Term.encode).contains s := by
  rw [get_guardedLookup]
  exact Match.admits_adding_terms (Pattern.all_of_free free .predicate) p.predicates s

theorem takes_object (s : Text) :
    ((p.guardedLookup (some guard) subjects).get .object).all (·.admits .object s) = true := by
  rw [get_guardedLookup]
  exact Pattern.all_of_free free .object s

theorem takes_graph (constant : (p.graph.getD .defaultGraph).isVar = false) (s : Text) :
    ((p.guardedLookup (some guard) subjects).get .graph).all (·.admits .graph s) =
      (Store.namedGraph? p.graph).all fun g => s = g.encode := by
  have open_ : (guard.get .graph).all (·.admits .graph s) = true := Pattern.all_of_free free .graph s
  rw [get_guardedLookup]
  unfold Part.asked Part.pushed? asker
  cases named : p.graph with
  | none => exact open_
  | some g =>
    rw [named] at constant
    cases g with
    | var name => cases constant
    | defaultGraph => exact open_
    | iri | blank | literal => exact Match.admits_term

theorem asks_free (constant : (p.graph.getD .defaultGraph).isVar = false) (r : Row) :
    p.asks (some guard) subjects r = p.asks none subjects r := by
  have guarded : p.asks (some guard) subjects r = (!subjects.isEmpty &&
      (((Store.namedGraph? p.graph).all fun g => r.graph = g.encode) &&
        ((subjects.map Term.encode).contains r.subject &&
          (p.predicates.map Term.encode).contains r.predicate))) := by
    rw [← takes_graph free subjects constant, ← takes_subject free subjects, ← takes_predicate free subjects,
      ← Bool.and_true (Option.all _ ((p.guardedLookup (some guard) subjects).get .predicate)),
      ← takes_object free subjects r.object]
    simp only [asks, Pattern.admits, Position.keyOrder, List.all_cons, List.all_nil, Bool.and_true]
    rfl
  rw [guarded, asks, Store.satisfies_row]
  cases subjects with
  | nil => rfl
  | cons s more =>
    simp only [List.isEmpty_cons, Bool.not_false, Bool.true_and]
    ac_rfl

end

theorem attributes_free (constant : (p.graph.getD .defaultGraph).isVar = false)
    (free : ∀ r, guard.admits r = true) (subjects : List Term) (t : Table) :
    p.attributes (some guard) subjects ⟨true, t⟩ = (.ok (p.batch t none subjects), ⟨true, t⟩) := by
  have readable : p.isReadable (some guard) = true := readable_of_guard (Pattern.searches_of_free free)
  have asked : p.asks (some guard) subjects = p.asks none subjects := funext (asks_free free subjects constant)
  rw [attributes_batch constant, readable, Bool.or_true, if_pos rfl]
  unfold batch
  rw [asked]

theorem values_holding (lasting : Bool) {qs : List Quint} (stored : ∀ k ∈ qs, k.toQuad.Kept)
    (subjects : List Term) (s predicate : Term) :
    Attribute.values (p.batch (.holding lasting qs) none subjects) s predicate =
      if s.encode ∈ subjects.map Term.encode ∧ predicate.encode ∈ p.predicates.map Term.encode then
        (qs.filter fun k => k.subject = s && k.predicate = predicate && k.graph.isStoredIn p.graph).map (·.object)
      else [] := by
  have found : p.batch (.holding lasting qs) none subjects =
      (qs.filter fun k => p.asks none subjects k.toRow).map fun k => ⟨k.subject, k.predicate, k.object⟩ := by
    unfold batch Table.holding
    rw [List.filter_map, List.map_map]
    exact List.map_congr_left fun k mem => attributeOf_toRow (stored k (List.mem_of_mem_filter mem))
  have texts : ∀ k : Quint, ((decide (k.subject = s) && decide (k.predicate = predicate)) &&
      p.asks none subjects k.toRow) =
      (decide (s.encode ∈ subjects.map Term.encode ∧ predicate.encode ∈ p.predicates.map Term.encode) &&
        (k.subject = s && k.predicate = predicate && k.graph.isStoredIn p.graph)) := by
    intro k
    rw [asks, Store.satisfies_stored]
    by_cases subject : k.subject = s
    · by_cases predicate_ : k.predicate = predicate
      · simp [subject, predicate_]
      · simp [predicate_]
    · simp [subject]
  unfold Attribute.values
  rw [found, List.filter_map, List.filter_filter, List.map_map]
  simp only [Function.comp_def, texts]
  split
  · rename_i asked
    simp only [decide_eq_true asked, Bool.true_and]
  · rename_i other
    simp only [decide_eq_false other, Bool.false_and, List.filter_false, List.map_nil]

theorem many_subjects_refused_guarded (free : ∀ r, guard.admits r = true) {subjects : List Term} {limits : Limits}
    (t : Table) (many : limits.values < subjects.length) :
    (limits.refused t (p.batchQueries (some guard) subjects)).isSome = true := by
  have some_ : subjects.isEmpty = false := List.isEmpty_eq_false_iff.2 (List.ne_nil_of_length_pos (Nat.zero_lt_of_lt many))
  have readable : (p.guardedLookup (some guard) subjects).searches?.isSome = true :=
    searches_guardedLookup (Pattern.searches_of_free free)
  have clause : ⟨.subject, .among (subjects.map (Term.stored · .subject))⟩ ∈
      (p.guardedLookup (some guard) subjects).clauses := by
    obtain ⟨o, added, listed⟩ := Match.among_conditions (Pattern.all_of_free free .subject) (subjects.map .term)
    rw [Value.stored_terms] at listed
    refine List.mem_flatMap.2 ⟨.subject, by decide, ?_⟩
    rw [(get_guardedLookup_subject p guard subjects).trans added]
    exact List.mem_map_of_mem listed
  rw [batchQueries, some_]
  simp only [Bool.false_eq_true, if_false]
  rw [Store.lookupQueries, readable, if_pos rfl, Limits.refused_singleton]
  refine limits.long_refused t _ (Nat.lt_of_lt_of_le many ?_)
  have values := length_among_le Quint.columns (Store.fetching (p.guardedLookup (some guard) subjects) {}) clause
  rwa [List.length_map] at values

/-- Both ways to fetch the optional values of subjects find the same: the objects of the stored statements,
by their subjects and predicates, in the graph of the plan. A graph is told by its stored text, which for a
graph whose text gives it back is that of no other graph. If the engine refuses a lookup, which it does if
there are more subjects than there may be values in a statement, that one fails and nothing has changed. -/
theorem lookups_agree {root : Operation} (analysed : MultiPlan.optional? root = some p)
    (free : ∀ r, guard.admits r = true) (subjects : List Term) (lasting : Bool) {qs : List Quint}
    (stored : ∀ k ∈ qs, k.toQuad.Kept) (limits : Limits) :
    ∃ found,
      (∀ security, security = none ∨ security = some guard →
        (limits.refused (.holding lasting qs) (p.batchQueries security subjects) = none →
          p.attributes security subjects (Store.limited limits lasting qs) =
            (.ok found, Store.limited limits lasting qs)) ∧
        (∀ failure, limits.refused (.holding lasting qs) (p.batchQueries security subjects) = some failure →
          p.attributes security subjects (Store.limited limits lasting qs) =
            (.error (.sql failure), Store.limited limits lasting qs)) ∧
        (limits.values < subjects.length →
          (limits.refused (.holding lasting qs) (p.batchQueries security subjects)).isSome = true)) ∧
      (Limits.usual.refused (.holding lasting qs) (p.batchQueries none subjects) = none ↔
        subjects = [] ∨
          subjects.length + p.predicates.length + (Store.namedGraph? p.graph).toList.length ≤ 32766) ∧
      (∀ s predicate, Attribute.values found s predicate =
        if s.encode ∈ subjects.map Term.encode ∧ predicate.encode ∈ p.predicates.map Term.encode then
          (qs.filter fun k => k.subject = s && k.predicate = predicate && k.graph.isStoredIn p.graph).map (·.object)
        else []) ∧
      ((∀ g ∈ p.graph, g ≠ .defaultGraph ∧ g.Kept .graph) →
        ∀ k ∈ qs, k.graph.isStoredIn p.graph = k.graph.inScope p.graph) := by
  obtain ⟨op, -, made⟩ := Option.bind_eq_some_iff.1 analysed
  have reads := reads_of_pattern made
  have constant := reads.formed.graph
  have onTable : ∀ security, security = none ∨ security = some guard →
      p.attributes security subjects ⟨true, Table.holding lasting qs⟩ =
        (.ok (p.batch (.holding lasting qs) none subjects), ⟨true, Table.holding lasting qs⟩) := by
    rintro _ (rfl | rfl)
    · rw [attributes_batch constant]
      exact congrArg (·, _) (if_pos (Bool.or_true _))
    · exact attributes_free constant free subjects _
  refine ⟨p.batch (.holding lasting qs) none subjects, fun security either => ⟨fun taken => ?_, ?_, ?_⟩,
    Store.usual_takes_properties _ reads.some_predicates p.graph, ?_, ?_⟩
  · have run := (p.attributes_asks security subjects (Table.holding lasting qs)).taken limits taken
    rwa [onTable security either] at run
  · exact fun failure refused => (p.attributes_asks security subjects (Table.holding lasting qs)).refused refused
  · rcases either with rfl | rfl
    · exact fun many => Store.many_subjects_refused _ reads.some_predicates many p.graph
    · exact many_subjects_refused_guarded free _
  · exact values_holding lasting stored subjects
  · intro named k mem
    refine Term.isStoredIn_eq (fun g given => ?_) (stored k mem .graph)
    have fixed := constant
    rw [Option.mem_def.1 given] at fixed
    exact ⟨(named g given).1, fixed, (named g given).2⟩

def openGuard : Pattern := { subject := some (.operators { isNull := some false }), graph := some (.operators {}) }

theorem lookups_agree_addresses :
    ∃ found,
      MultiPlan.addressPlan.attributes none [.iri "http://ex/ann", .iri "http://ex/bob"]
          (Store.limited .usual true MultiPlan.addresses) = (.ok found, Store.limited .usual true MultiPlan.addresses) ∧
      MultiPlan.addressPlan.attributes (some openGuard) [.iri "http://ex/ann", .iri "http://ex/bob"]
          (Store.limited .usual true MultiPlan.addresses) = (.ok found, Store.limited .usual true MultiPlan.addresses) ∧
      Attribute.values found (.iri "http://ex/ann") (.iri "http://ex/mail") = [.iri "mailto:ann"] ∧
      Attribute.values found (.iri "http://ex/bob") (.iri "http://ex/mail") = [] := by
  have analysed : MultiPlan.optional? (.project ["n", "m"] MultiPlan.nameAndMail) = some MultiPlan.addressPlan := by
    rfl
  have free : ∀ r, openGuard.admits r = true := fun _ => rfl
  obtain ⟨found, answers, -, values, -⟩ := lookups_agree analysed free [.iri "http://ex/ann", .iri "http://ex/bob"] true
    MultiPlan.stored_addresses .usual
  refine ⟨found, (answers none (.inl rfl)).1 (by decide +kernel), (answers _ (.inr rfl)).1 (by decide +kernel), ?_, ?_⟩
  · rw [values]
    decide +kernel
  · rw [values]
    decide +kernel

def blankLikeQuery : Text :=
  "SELECT ?s ?x WHERE \x7b GRAPH <_:g> \x7b ?s <http://ex/p> ?o OPTIONAL \x7b ?s <http://ex/q> ?x \x7d \x7d \x7d"

def inBlankGraph : Quint := ⟨⟨.iri "http://ex/s", .iri "http://ex/q", .plain "2", .blank "g"⟩, none⟩

def ofText? (text : Text) : Option OptionalPlan := do
  let request ← (Request.read text).toOption
  MultiPlan.optional? (← request.content.root?)

def manySubjects : List Term := (List.range 40000).map fun i => .iri (Text.ofNat i)

theorem manySubjects_nodup : manySubjects.Nodup := by
  refine List.Nodup.map (fun i j same => ?_) List.nodup_range
  exact Text.ofNat_inj (Term.iri.inj same)

/-- Both lookups find what stands in a graph whose stored text is that of the graph of a query, where
nothing stands in the graph of the query itself; and both are refused for too many subjects. -/
theorem graph_text_shared :
    inBlankGraph.toQuad.Kept ∧ manySubjects.Nodup ∧
    ∃ p, ofText? blankLikeQuery = some p ∧ p.graph = some (.iri "_:g") ∧
      (∀ security, security = none ∨ security = some {} →
        p.attributes security [.iri "http://ex/s"] (Store.limited .usual true [inBlankGraph]) =
          (.ok [⟨.iri "http://ex/s", .iri "http://ex/q", .plain "2"⟩], Store.limited .usual true [inBlankGraph]) ∧
        ∃ failure, p.attributes security manySubjects (Store.limited .usual true [inBlankGraph]) =
          (.error (.sql failure), Store.limited .usual true [inBlankGraph])) ∧
      inBlankGraph.toQuad.hasProperty p.graph (.iri "http://ex/s") (.iri "http://ex/q") = false := by
  have planned : (ofText? blankLikeQuery).any (fun p =>
      p.graph = some (.iri "_:g") && p.predicates = [.iri "http://ex/q"]) = true := by decide +kernel
  obtain ⟨p, made, parts⟩ := (Option.any_eq_true _ _).1 planned
  rw [Bool.and_eq_true, decide_eq_true_eq, decide_eq_true_eq] at parts
  obtain ⟨graph, predicates⟩ := parts
  have constant : (p.graph.getD .defaultGraph).isVar = false := by
    rw [graph]
    rfl
  have open_ : ∀ r, ({} : Pattern).admits r = true := fun _ => rfl
  have found : p.batch (Table.holding true [inBlankGraph]) none [.iri "http://ex/s"] =
      [⟨.iri "http://ex/s", .iri "http://ex/q", .plain "2"⟩] := by
    unfold batch asks
    dsimp only
    rw [graph, predicates]
    decide +kernel
  have many : Limits.usual.values < manySubjects.length := by
    rw [manySubjects, List.length_map, List.length_range]
    decide
  refine ⟨by decide +kernel, manySubjects_nodup, p, made, graph, fun security either => ?_, ?_⟩
  · rcases either with rfl | rfl
    · refine ⟨?_, ?_⟩
      · have run := (p.attributes_asks none [.iri "http://ex/s"] (Table.holding true [inBlankGraph])).taken
          .usual (by
            unfold batchQueries
            dsimp only
            rw [graph, predicates]
            decide +kernel)
        rwa [attributes_batch constant, found] at run
      · have few : p.predicates ≠ [] := by
          rw [predicates]
          exact List.cons_ne_nil _ _
        obtain ⟨failure, refused⟩ := Option.isSome_iff_exists.1 (Store.many_subjects_refused _ few many p.graph)
        exact ⟨failure, (p.attributes_asks none manySubjects (Table.holding true [inBlankGraph])).refused refused⟩
    · refine ⟨?_, ?_⟩
      · have run := (p.attributes_asks (some {}) [.iri "http://ex/s"] (Table.holding true [inBlankGraph])).taken
          .usual (by
            unfold batchQueries guardedLookup
            rw [graph, predicates]
            decide +kernel)
        rwa [attributes_free constant open_, found] at run
      · obtain ⟨failure, refused⟩ := Option.isSome_iff_exists.1
          (many_subjects_refused_guarded (p := p) open_ (Table.holding true [inBlankGraph]) many)
        exact ⟨failure, (p.attributes_asks (some {}) manySubjects (Table.holding true [inBlankGraph])).refused refused⟩
  · rw [graph]
    decide +kernel

end OptionalPlan

end QuadStore
