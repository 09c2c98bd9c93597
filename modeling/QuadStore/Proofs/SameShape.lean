import QuadStore.Proofs.IssuedStatements
import QuadStore.Proofs.StreamPulls

namespace QuadStore

open Sql Step

namespace Stream

variable {σ : Type} [Backend σ]

def drained (subject predicate object graph : Option Term) : Action σ (List Quint) := do
  let stream ← Stream.match subject predicate object graph
  fun s =>
    let (answer, _, s) := rest (stream, s)
    (answer, s)

theorem drained_apply (subject predicate object graph : Option Term) (s : Store σ) :
    drained subject predicate object graph s =
      (do Store.requireOpen; Store.get (patternOf subject predicate object graph) {} : Action σ (List Quint)) s := by
  unfold drained Stream.match
  rw [bind_apply, bind_apply, bind_apply]
  rcases Store.requireOpen s with ⟨e | _, s'⟩
  · rfl
  · dsimp only [pure_apply]
    rw [rest_apply]
    rfl

end Stream

/-- What a store can be asked to do. -/
inductive Operation where
  | access (a : Access)
  | graphStart (start : Text) (options : Options)
  | matching (subject predicate object graph : Option Term)
  | connect
  | disconnect

namespace Operation

def run {σ : Type} [Backend σ] : Operation → Action σ Unit
  | access a => discard a.run
  | graphStart start options => discard (Store.getByGraphStart start options)
  | matching subject predicate object graph => discard (Stream.drained subject predicate object graph)
  | connect => Store.open
  | disconnect => Store.close

/-- What a run of an operation adds to the statements that were issued before. -/
def issued (t : Operation) (s : Store Script) : List Fragment :=
  (t.run s).2.backend.issued.drop s.backend.issued.length

def isKeyed : Operation → Bool
  | access (.setVector p _) | access (.delete p) => p.hasRegex
  | _ => false

def first (isOpen : Bool) : Operation → List Statement
  | access (.get p options) => [.query (Store.lookupQuery p options)]
  | access (.count p) => [.query (Store.countQuery p)]
  | access (.put q) => [.command (.upsert q.toRow)]
  | access (.putAll qs) => qs.map fun q => .command (.upsert q.toRow)
  | access (.setVector p v) => [Store.firstWrite p (.setVector (Payload.write v))]
  | access (.delete p) => [Store.firstWrite p .delete]
  | access (.deleteAll qs) => qs.map fun q => .command (.delete (Row.keyClauses q.toRow.get))
  | access (.getCompound c options) => Store.compoundQueries c options
  | access (.getAttributes subjects predicates graph) => Store.attributeQueries subjects predicates graph
  | access .stats => [.query (.count []), .query .countVectors, .query .countGraphs]
  | access .clear => [.command (.delete [])]
  | graphStart start options =>
    [.query (Store.lookupQuery { graph := some (.operators { startsWith := some start }) } options)]
  | matching subject predicate object graph =>
    [.query (Store.lookupQuery (Stream.patternOf subject predicate object graph) {})]
  | connect => if isOpen then [] else schema.map .definition
  | disconnect => []

def keyed (keys : List Record) : Operation → List Statement
  | access (.setVector p v) => Store.keyedWrites p (.setVector (Payload.write v)) keys
  | access (.delete p) => Store.keyedWrites p .delete keys
  | _ => []

def statements (isOpen : Bool) (keys : List Record) (t : Operation) : List Statement := t.first isOpen ++ t.keyed keys

theorem issues_first {t : Operation} {s : Store Script} (h : Store.Issues t.run s (t.first s.isOpen))
    (unkeyed : t.keyed [] = []) : ∃ keys, Store.Issues t.run s (t.statements s.isOpen keys) := by
  refine ⟨[], ?_⟩
  rw [statements, unkeyed, List.append_nil]
  exact h

theorem run_issues (t : Operation) (s : Store Script) :
    ∃ keys, Store.Issues t.run s (t.statements s.isOpen keys) := by
  cases t with
  | access a =>
    cases a with
    | get p options => exact issues_first (((Store.get_issues s p options).map _).map _) rfl
    | count p => exact issues_first (((Store.count_issues s p).map _).map _) rfl
    | put q => exact issues_first (((Store.put_issues s q).map _).map _) rfl
    | putAll qs => exact issues_first (((Store.putAll_issues s qs).map _).map _) rfl
    | setVector p v =>
      obtain ⟨keys, issues⟩ := Store.writeAll_issues s p (.setVector (Payload.write v))
      exact ⟨keys, (issues.map _).map _⟩
    | delete p =>
      obtain ⟨keys, issues⟩ := Store.writeAll_issues s p .delete
      exact ⟨keys, (issues.map _).map _⟩
    | deleteAll qs => exact issues_first (((Store.deleteAll_issues s qs).map _).map _) rfl
    | getCompound c options => exact issues_first (((Store.getCompound_issues s c options).map _).map _) rfl
    | getAttributes subjects predicates graph =>
      exact issues_first (((Store.getAttributes_issues s subjects predicates graph).map _).map _) rfl
    | stats => exact issues_first (((Store.stats_issues s).map _).map _) rfl
    | clear => exact issues_first (((Store.clear_issues s).map _).map _) rfl
  | graphStart start options => exact issues_first ((Store.get_issues s _ options).map _) rfl
  | matching subject predicate object graph =>
    have pulled : Store.Issues (do
        Store.requireOpen
        Store.get (Stream.patternOf subject predicate object graph) {} : Action Script (List Quint)) s
        [.query (Store.lookupQuery (Stream.patternOf subject predicate object graph) {})] :=
      (Store.requireOpen_issues s).after fun _ s _ => Store.get_issues s _ {}
    exact issues_first ((pulled.of_eq (Stream.drained_apply subject predicate object graph s)).map _) rfl
  | connect => exact issues_first (Store.open_issues s) rfl
  | disconnect => exact issues_first (Store.close_issues s) rfl

/-- Operations of one shape: they differ in terms, numbers, texts, vectors and the names of selections. -/
inductive SameShape : Operation → Operation → Prop
  | get {p q : Pattern} {o o' : Options} (patterns : p.SameShape q) (options : o.SameShape o') :
    SameShape (.access (.get p o)) (.access (.get q o'))
  | count {p q : Pattern} (patterns : p.SameShape q) : SameShape (.access (.count p)) (.access (.count q))
  | put (x y : Quint) : SameShape (.access (.put x)) (.access (.put y))
  | putAll {xs ys : List Quint} (lengths : xs.length = ys.length) :
    SameShape (.access (.putAll xs)) (.access (.putAll ys))
  | setVector {p q : Pattern} (v w : Vector) (patterns : p.SameShape q) :
    SameShape (.access (.setVector p v)) (.access (.setVector q w))
  | delete {p q : Pattern} (patterns : p.SameShape q) : SameShape (.access (.delete p)) (.access (.delete q))
  | deleteAll {xs ys : List Quint} (lengths : xs.length = ys.length) :
    SameShape (.access (.deleteAll xs)) (.access (.deleteAll ys))
  | getCompound {c d : Compound} {o o' : Options} (compounds : c.SameShape d) (options : o.SameShape o') :
    SameShape (.access (.getCompound c o)) (.access (.getCompound d o'))
  | getAttributes {subjects subjects' predicates predicates' : List Term} {graph graph' : Option Term}
    (numbers : subjects.length = subjects'.length) (numbers' : predicates.length = predicates'.length)
    (graphs : (Store.namedGraph? graph).isSome = (Store.namedGraph? graph').isSome) :
    SameShape (.access (.getAttributes subjects predicates graph))
      (.access (.getAttributes subjects' predicates' graph'))
  | stats : SameShape (.access .stats) (.access .stats)
  | clear : SameShape (.access .clear) (.access .clear)
  | graphStart (start start' : Text) {o o' : Options} (options : o.SameShape o') :
    SameShape (.graphStart start o) (.graphStart start' o')
  | matching {subject predicate object graph subject' predicate' object' graph' : Option Term}
    (subjects : (Stream.fixed? subject).isSome = (Stream.fixed? subject').isSome)
    (predicates : (Stream.fixed? predicate).isSome = (Stream.fixed? predicate').isSome)
    (objects : (Stream.fixed? object).isSome = (Stream.fixed? object').isSome)
    (graphs : (Store.namedGraph? graph).isSome = (Store.namedGraph? graph').isSome) :
    SameShape (.matching subject predicate object graph) (.matching subject' predicate' object' graph')
  | connect : SameShape .connect .connect
  | disconnect : SameShape .disconnect .disconnect

end Operation

theorem Row.keyClauses_sameShape (key key' : Position → Text) :
    List.Forall₂ Clause.SameShape (keyClauses key) (keyClauses key') := by
  rw [keyClauses, keyClauses, List.forall₂_map_left_iff, List.forall₂_map_right_iff, List.forall₂_same]
  exact fun p _ => ⟨rfl, .compare .eq _ _⟩

theorem forall₂_map {α β : Type} {R : β → β → Prop} {f : α → β} (alike : ∀ x y, R (f x) (f y)) {xs ys : List α}
    (lengths : xs.length = ys.length) : List.Forall₂ R (xs.map f) (ys.map f) := by
  rw [List.forall₂_map_left_iff, List.forall₂_map_right_iff, List.forall₂_iff_zip]
  exact ⟨lengths, fun _ => alike _ _⟩

namespace Store

theorem fetching_sameShape {p q : Pattern} {o o' : Options} (patterns : p.SameShape q) (options : o.SameShape o') :
    (fetching p o).SameShape (fetching q o') := by
  unfold fetching
  rw [patterns.hasRegex]
  split
  · exact ⟨rfl, rfl, options.order, options.reverse⟩
  · exact options

theorem lookupQuery_sameShape {p q : Pattern} {o o' : Options} (patterns : p.SameShape q) (options : o.SameShape o') :
    Statement.SameShape (.query (lookupQuery p o)) (.query (lookupQuery q o')) :=
  .select Quint.columns patterns.clauses (fetching_sameShape patterns options)

theorem countQuery_sameShape {p q : Pattern} (patterns : p.SameShape q) :
    Statement.SameShape (.query (countQuery p)) (.query (countQuery q)) := by
  unfold countQuery
  rw [patterns.hasRegex]
  split
  · exact .select keyColumns patterns.clauses ⟨rfl, rfl, rfl, rfl⟩
  · exact .count patterns.clauses

theorem firstWrite_sameShape {p q : Pattern} (patterns : p.SameShape q) {command command' : List Clause → Command}
    (commands : ∀ {a b : List Clause}, List.Forall₂ Clause.SameShape a b →
      Statement.SameShape (.command (command a)) (.command (command' b))) :
    (firstWrite p command).SameShape (firstWrite q command') := by
  unfold firstWrite
  rw [patterns.hasRegex]
  split
  · exact .select keyColumns patterns.clauses ⟨rfl, rfl, rfl, rfl⟩
  · exact commands patterns.clauses

theorem projections_sameShape {c d : Compound} (h : c.SameShape d) :
    (projections c).map (·.2) = (projections d).map (·.2) := by
  have empty : c.select.isEmpty = d.select.isEmpty := by
    rw [← List.isEmpty_map (f := Selection.pattern), ← List.isEmpty_map (f := Selection.pattern),
      map_eq_of_forall₂ h.select fun _ _ same => same.1]
  unfold projections
  rw [empty, h.patterns.length_eq]
  split
  · rfl
  · rw [List.map_map, List.map_map]
    apply map_eq_of_forall₂ (forall₂_zipIdx h.select 0)
    rintro ⟨s, i⟩ ⟨s', j⟩ ⟨alike, same⟩
    dsimp only at alike same
    simp only [Function.comp_apply, alike.1, alike.2, same]

theorem joinClauses_sameShape {ps qs : List Pattern} (h : List.Forall₂ Pattern.SameShape ps qs) :
    Option.Rel (List.Forall₂ (List.Forall₂ Clause.SameShape)) (ps.mapM Pattern.joinClauses?)
      (qs.mapM Pattern.joinClauses?) := by
  induction h with
  | nil => exact .some .nil
  | @cons p q ps qs head _ ih =>
    rw [List.mapM_cons, List.mapM_cons]
    have head := head.joinClauses
    generalize p.joinClauses? = x at head
    generalize q.joinClauses? = y at head
    generalize ps.mapM Pattern.joinClauses? = xs at ih
    generalize qs.mapM Pattern.joinClauses? = ys at ih
    cases head with
    | none => exact .none
    | some head =>
      cases ih with
      | none => exact .none
      | some tail => exact .some (.cons head tail)

theorem compoundQueries_sameShape {c d : Compound} {o o' : Options} (h : c.SameShape d) (options : o.SameShape o') :
    List.Forall₂ Statement.SameShape (compoundQueries c o) (compoundQueries d o') := by
  have projected := projections_sameShape h
  obtain ⟨patterns, on, select⟩ := c
  obtain ⟨patterns', on', select'⟩ := d
  obtain ⟨alike, on_, selections⟩ := h
  dsimp only at alike on_
  subst on_
  cases alike with
  | nil => exact .nil
  | cons head tail =>
    cases tail with
    | nil => exact .cons (lookupQuery_sameShape head options) .nil
    | cons head' tail' =>
      have clauses := joinClauses_sameShape (.cons head (.cons head' tail'))
      unfold compoundQueries
      dsimp only
      generalize List.mapM Pattern.joinClauses? _ = x at clauses ⊢
      generalize List.mapM Pattern.joinClauses? _ = y at clauses ⊢
      cases clauses with
      | none => exact .nil
      | some clauses => exact .cons (.join ⟨rfl, projected, clauses⟩ options) .nil

theorem attributeQueries_sameShape {subjects subjects' predicates predicates' : List Term} {graph graph' : Option Term}
    (numbers : subjects.length = subjects'.length) (numbers' : predicates.length = predicates'.length)
    (graphs : (namedGraph? graph).isSome = (namedGraph? graph').isSome) :
    List.Forall₂ Statement.SameShape (attributeQueries subjects predicates graph)
      (attributeQueries subjects' predicates' graph') := by
  have empty : ∀ {ts us : List Term}, ts.length = us.length → ts.isEmpty = us.isEmpty := by
    intro ts us same
    rw [Bool.eq_iff_iff, List.isEmpty_iff_length_eq_zero, List.isEmpty_iff_length_eq_zero, same]
  have among : ∀ (p : Position) {ts us : List Term}, ts.length = us.length →
      Clause.SameShape ⟨p, .among (ts.map Term.encode)⟩ ⟨p, .among (us.map Term.encode)⟩ := by
    intro p ts us same
    exact ⟨rfl, .among (by simpa using same)⟩
  have inGraph := forall₂_optional (R := Clause.SameShape) graphs
    (f := fun g : Term => ⟨.graph, .compare .eq g.encode⟩) (g := fun g => ⟨.graph, .compare .eq g.encode⟩)
    fun _ _ => ⟨rfl, .compare .eq _ _⟩
  unfold attributeQueries
  rw [empty numbers, empty numbers']
  split
  · exact .nil
  · refine .cons (.select _ ?_ ⟨rfl, rfl, rfl, rfl⟩) .nil
    exact .cons (among .subject numbers) (.cons (among .predicate numbers') inGraph)

end Store

theorem Stream.patternOf_sameShape {subject predicate object graph subject' predicate' object' graph' : Option Term}
    (subjects : (fixed? subject).isSome = (fixed? subject').isSome)
    (predicates : (fixed? predicate).isSome = (fixed? predicate').isSome)
    (objects : (fixed? object).isSome = (fixed? object').isSome)
    (graphs : (Store.namedGraph? graph).isSome = (Store.namedGraph? graph').isSome) :
    (patternOf subject predicate object graph).SameShape (patternOf subject' predicate' object' graph') := by
  have terms : ∀ {x y : Option Match}, x.isSome = y.isSome → (∀ m ∈ x, ∃ t, m = .term t) →
      (∀ m ∈ y, ∃ t, m = .term t) → Option.Rel Match.SameShape x y := by
    intro x y same hx hy
    cases x with
    | none =>
      cases y with
      | none => exact .none
      | some n => cases same
    | some m =>
      cases y with
      | none => cases same
      | some n =>
        obtain ⟨t, rfl⟩ := hx m rfl
        obtain ⟨u, rfl⟩ := hy n rfl
        exact .some (.term t u)
  have fixed : ∀ t : Option Term, ∀ m ∈ fixed? t, ∃ u, m = .term u := by
    intro t m mem
    unfold fixed? at mem
    split at mem
    · cases mem
    · cases mem
    · exact ⟨_, (Option.some.inj mem).symm⟩
  have named : ∀ t : Option Term, ∀ m ∈ (Store.namedGraph? t).map Match.term, ∃ u, m = .term u := by
    intro t m mem
    obtain ⟨u, -, rfl⟩ := Option.map_eq_some_iff.1 mem
    exact ⟨u, rfl⟩
  intro a
  cases a with
  | subject => exact terms subjects (fixed _) (fixed _)
  | predicate => exact terms predicates (fixed _) (fixed _)
  | object => exact terms objects (fixed _) (fixed _)
  | graph =>
    have graphs : ((Store.namedGraph? graph).map Match.term).isSome =
        ((Store.namedGraph? graph').map Match.term).isSome := by
      rwa [Option.isSome_map, Option.isSome_map]
    exact terms graphs (named _) (named _)

namespace Operation

theorem SameShape.first {t t' : Operation} (h : t.SameShape t') (isOpen : Bool) :
    List.Forall₂ Statement.SameShape (t.first isOpen) (t'.first isOpen) := by
  cases h with
  | get patterns options => exact .cons (Store.lookupQuery_sameShape patterns options) .nil
  | count patterns => exact .cons (Store.countQuery_sameShape patterns) .nil
  | put x y => exact .cons (.upsert _ _) .nil
  | putAll lengths => exact forall₂_map (fun _ _ => .upsert _ _) lengths
  | setVector v w patterns => exact .cons (Store.firstWrite_sameShape patterns (.setVector _ _)) .nil
  | delete patterns => exact .cons (Store.firstWrite_sameShape patterns .delete) .nil
  | deleteAll lengths => exact forall₂_map (fun _ _ => .delete (Row.keyClauses_sameShape _ _)) lengths
  | getCompound compounds options => exact Store.compoundQueries_sameShape compounds options
  | getAttributes numbers numbers' graphs => exact Store.attributeQueries_sameShape numbers numbers' graphs
  | stats => exact .cons (.count .nil) (.cons .countVectors (.cons .countGraphs .nil))
  | clear => exact .cons (.delete .nil) .nil
  | graphStart start start' options =>
    refine .cons (Store.lookupQuery_sameShape ?_ options) .nil
    intro a
    cases a with
    | graph => exact .some (.operators ⟨rfl, rfl, rfl, rfl, rfl, rfl, rfl, rfl, rfl, rfl, rfl, rfl, rfl⟩)
    | _ => exact .none
  | matching subjects predicates objects graphs =>
    have patterns := Stream.patternOf_sameShape subjects predicates objects graphs
    exact .cons (Store.lookupQuery_sameShape patterns ⟨rfl, rfl, rfl, rfl⟩) .nil
  | connect =>
    cases isOpen with
    | true => exact .nil
    | false =>
      change List.Forall₂ _ (schema.map Statement.definition) (schema.map Statement.definition)
      rw [List.forall₂_map_left_iff, List.forall₂_map_right_iff, List.forall₂_same]
      exact fun d _ => .definition d
  | disconnect => exact .nil

theorem SameShape.keyed {t t' : Operation} (h : t.SameShape t') (d : Dialect) :
    ∃ again, (∀ keys, ∀ st ∈ t.keyed keys, (st.render d).text = again) ∧
      ∀ keys, ∀ st ∈ t'.keyed keys, (st.render d).text = again := by
  have written : ∀ {command command' : List Clause → Command},
      (∀ {a b : List Clause}, List.Forall₂ Clause.SameShape a b →
        Statement.SameShape (.command (command a)) (.command (command' b))) → ∀ (p : Pattern) (keys : List Record),
      ∀ st ∈ Store.keyedWrites p command keys,
        (st.render d).text = ((command' (Row.keyClauses fun _ => [])).render d).text := by
    intro command command' commands p keys st mem
    unfold Store.keyedWrites at mem
    split at mem
    · obtain ⟨r, -, rfl⟩ := List.mem_map.1 mem
      exact (commands (Row.keyClauses_sameShape _ _)).text d
    · cases mem
  cases h with
  | setVector v w patterns => exact ⟨_, written (.setVector _ (Payload.write v)) _, written (.setVector _ _) _⟩
  | delete patterns => exact ⟨_, written .delete _, written .delete _⟩
  | _ => exact ⟨[], fun _ _ mem => absurd mem List.not_mem_nil, fun _ _ mem => absurd mem List.not_mem_nil⟩

theorem keyed_eq_nil {t : Operation} (unkeyed : t.isKeyed = false) (keys : List Record) : t.keyed keys = [] := by
  have none_ : ∀ {p : Pattern} {command : List Clause → Command}, p.hasRegex = false →
      Store.keyedWrites p command keys = [] := by
    intro p command h
    rw [Store.keyedWrites, h, if_neg Bool.false_ne_true]
  cases t with
  | access a =>
    cases a with
    | setVector p v => exact none_ unkeyed
    | delete p => exact none_ unkeyed
    | _ => rfl
  | _ => rfl

theorem SameShape.isKeyed {t t' : Operation} (h : t.SameShape t') : t.isKeyed = t'.isKeyed := by
  cases h with
  | setVector v w patterns => exact patterns.hasRegex
  | delete patterns => exact patterns.hasRegex
  | _ => rfl

theorem statements_prefix (t : Operation) (isOpen : Bool) (keys : List Record) :
    t.statements isOpen keys <+: t.statements false keys := by
  cases t with
  | connect =>
    cases isOpen with
    | true => exact List.nil_prefix
    | false => exact List.prefix_rfl
  | access a => cases a <;> exact List.prefix_rfl
  | _ => exact List.prefix_rfl

theorem schema_named : ∀ d ∈ schema, (Statement.definition d).IsNamed := by
  have index : ∀ {name : Text} {columns : List Position}, IsPlain name →
      (Statement.definition (.index name columns)).IsNamed := id
  intro d mem
  simp only [schema, List.mem_cons, List.not_mem_nil, or_false] at mem
  rcases mem with rfl | rfl | rfl | rfl | rfl | rfl | rfl
  · trivial
  all_goals exact index (by decide)

theorem projections_named (c : Compound) : ∀ p ∈ (Store.projections c).map (·.2), IsPlain p.name := by
  intro p mem
  obtain ⟨⟨name, p⟩, held, rfl⟩ := List.mem_map.1 mem
  unfold Store.projections at held
  split at held
  · obtain ⟨i, -, held⟩ := List.mem_flatMap.1 held
    simp only [List.mem_cons, Prod.mk.injEq, List.not_mem_nil, or_false] at held
    rcases held with ⟨-, rfl⟩ | ⟨-, rfl⟩
    · exact (IsPlain.append (by decide) (ofNat_plain i)).append (by decide)
    · exact (IsPlain.append (by decide) (ofNat_plain i)).append (by decide)
  · obtain ⟨⟨s, k⟩, -, same⟩ := List.mem_map.1 held
    obtain ⟨-, rfl⟩ := Prod.mk.inj same
    exact IsPlain.append (by decide) (ofNat_plain k)

theorem compoundQueries_named (c : Compound) (options : Options) :
    ∀ st ∈ Store.compoundQueries c options, st.IsNamed := by
  intro st mem
  unfold Store.compoundQueries at mem
  split at mem
  · cases mem
  · rw [List.mem_singleton.1 mem]
    trivial
  · rw [Option.mem_toList, Option.map_eq_some_iff] at mem
    obtain ⟨clauses, -, rfl⟩ := mem
    exact projections_named c

theorem commands_named {α : Type} {f : α → Command} {xs : List α} :
    ∀ st ∈ xs.map fun x => Statement.command (f x), st.IsNamed := by
  intro st mem
  obtain ⟨x, -, rfl⟩ := List.mem_map.1 mem
  trivial

theorem first_named (t : Operation) (isOpen : Bool) : ∀ st ∈ t.first isOpen, st.IsNamed := by
  have one : ∀ {st st' : Statement}, st' ∈ [st] → st.IsNamed → st'.IsNamed := by
    intro st st' mem named
    rwa [List.mem_singleton.1 mem]
  have written : ∀ (p : Pattern) (command : List Clause → Command), (Store.firstWrite p command).IsNamed := by
    intro p command
    unfold Store.firstWrite
    split <;> trivial
  intro st mem
  cases t with
  | access a =>
    cases a with
    | get p options => exact one mem trivial
    | count p =>
      refine one mem ?_
      unfold Store.countQuery
      split <;> trivial
    | put q => exact one mem trivial
    | putAll qs => exact commands_named st mem
    | setVector p v => exact one mem (written p _)
    | delete p => exact one mem (written p _)
    | deleteAll qs => exact commands_named st mem
    | getCompound c options => exact compoundQueries_named c options st mem
    | getAttributes subjects predicates graph =>
      change st ∈ Store.attributeQueries subjects predicates graph at mem
      unfold Store.attributeQueries at mem
      split at mem
      · cases mem
      · exact one mem trivial
    | stats =>
      change st ∈ [_, _, _] at mem
      simp only [List.mem_cons, List.not_mem_nil, or_false] at mem
      rcases mem with rfl | rfl | rfl <;> trivial
    | clear => exact one mem trivial
  | graphStart start options => exact one mem trivial
  | matching subject predicate object graph => exact one mem trivial
  | connect =>
    cases isOpen with
    | true => cases mem
    | false =>
      obtain ⟨d, held, rfl⟩ := List.mem_map.1 mem
      exact schema_named d held
  | disconnect => cases mem

theorem statements_named (t : Operation) (isOpen : Bool) (keys : List Record) :
    ∀ st ∈ t.statements isOpen keys, st.IsNamed := by
  have written : ∀ (p : Pattern) (command : List Clause → Command), ∀ st ∈ Store.keyedWrites p command keys,
      st.IsNamed := by
    intro p command st mem
    unfold Store.keyedWrites at mem
    split at mem
    · exact commands_named st mem
    · cases mem
  intro st mem
  rcases List.mem_append.1 mem with mem | mem
  · exact t.first_named isOpen st mem
  · cases t with
    | access a =>
      cases a with
      | setVector p v => exact written p _ st mem
      | delete p => exact written p _ st mem
      | _ => cases mem
    | _ => cases mem

/-- What a run issues are the first of the statements of its operation, and all of them if it succeeds. -/
theorem issued_statements (t : Operation) (s : Store Script) :
    ∃ done keys, t.issued s = done.map (·.render s.backend.dialect) ∧ done <+: t.statements s.isOpen keys ∧
      ((t.run s).1 = .ok () → done = t.statements s.isOpen keys) := by
  obtain ⟨keys, ⟨done, log, first, whole⟩, -⟩ := t.run_issues s
  refine ⟨done, keys, ?_, first, whole ()⟩
  rw [issued, log, List.drop_left]

/-- The texts that a run issues are the first of some texts. A write that names rows by their keys repeats another
one. -/
def Issuing (t : Operation) (s : Store Script) (texts : List Text) (again : Text) : Prop :=
  ∃ n, (t.issued s).map (·.text) <+: texts ++ List.replicate n again ∧ (t.isKeyed = false → n = 0)

theorem issuing {t : Operation} {s : Store Script} {again : Text}
    (keyed : ∀ keys, ∀ st ∈ t.keyed keys, (st.render s.backend.dialect).text = again) :
    t.Issuing s ((t.first false).map fun st => (st.render s.backend.dialect).text) again := by
  obtain ⟨done, keys, log, first, -⟩ := t.issued_statements s
  have texts : (t.keyed keys).map (fun st => (st.render s.backend.dialect).text) =
      List.replicate (t.keyed keys).length again := by
    rw [List.eq_replicate_iff, List.length_map]
    refine ⟨rfl, fun text mem => ?_⟩
    obtain ⟨st, held, rfl⟩ := List.mem_map.1 mem
    exact keyed keys st held
  refine ⟨(t.keyed keys).length, ?_, fun unkeyed => ?_⟩
  · rw [← texts, ← List.map_append, log, List.map_map]
    exact (first.trans (t.statements_prefix s.isOpen keys)).map _
  · rw [keyed_eq_nil unkeyed, List.length_nil]

/-- Runs of operations of one shape issue statements with the same texts, whatever the values are and whatever the
databases answer; a write that names rows by their keys has one text for all of them. In every statement that is issued,
the placeholders are those of its values, each in its place and numbered from left to right. -/
theorem statements_shaped {t t' : Operation} (h : t.SameShape t') {s s' : Store Script}
    (dialect : s.backend.dialect = s'.backend.dialect) :
    (∃ texts again, t.Issuing s texts again ∧ t'.Issuing s' texts again) ∧
    (s.isOpen = s'.isOpen → t.isKeyed = false → (t.run s).1 = .ok () → (t'.run s').1 = .ok () →
      (t.issued s).map (·.text) = (t'.issued s').map (·.text)) ∧
    ∃ done keys, t.issued s = done.map (·.render s.backend.dialect) ∧ done <+: t.statements s.isOpen keys ∧
      ((t.run s).1 = .ok () → done = t.statements s.isOpen keys) ∧
      ∀ st ∈ done, (st.render s.backend.dialect).Carries (st.inlined s.backend.dialect) := by
  -- the statements are determined by the operations up to a prefix, and by their shapes up to the values
  obtain ⟨again, keyed, keyed'⟩ := h.keyed s.backend.dialect
  have texts : ∀ isOpen, (t.first isOpen).map (fun st => (st.render s.backend.dialect).text) =
      (t'.first isOpen).map fun st => (st.render s.backend.dialect).text :=
    fun isOpen => map_eq_of_forall₂ (h.first isOpen) fun _ _ alike => alike.text s.backend.dialect
  obtain ⟨done, keys, log, first, whole⟩ := t.issued_statements s
  obtain ⟨done', keys', log', -, whole'⟩ := t'.issued_statements s'
  refine ⟨⟨_, again, issuing keyed, ?_⟩, ?_, done, keys, log, first, whole, ?_⟩
  · rw [texts, dialect]
    exact issuing (by rwa [dialect] at keyed')
  · intro isOpen unkeyed ok ok'
    have unkeyed' : t'.isKeyed = false := h.isKeyed ▸ unkeyed
    rw [log, log', whole ok, whole' ok', statements, statements, keyed_eq_nil unkeyed, keyed_eq_nil unkeyed',
      List.append_nil, List.append_nil, List.map_map, List.map_map, ← isOpen, ← dialect]
    exact texts s.isOpen
  · intro st mem
    exact (st.reads (t.statements_named s.isOpen keys st (first.subset mem)) s.backend.dialect).carries

def scripted (answers : List (List Record)) : Store Script := ⟨true, ⟨.postgres, answers, [], none, 0, []⟩⟩

def keyRecord (object : Text) : Record :=
  [("graph", some []), ("subject", some "http://ex/s"), ("predicate", some "http://ex/p"), ("object", some object)]

def removing (predicate source : Text) : Operation :=
  .access (.delete { predicate := some (.term (.iri predicate)), object := some (.operators { regex := some source }) })

def keyRemoval : Text := "DELETE FROM quints WHERE graph = ? AND subject = ? AND predicate = ? AND object = ?"

theorem removing_sameShape (predicate predicate' : Text) {source source' : Text}
    (leads : (Regex.lead source).isEmpty = (Regex.lead source').isEmpty) :
    (removing predicate source).SameShape (removing predicate' source') := by
  refine .delete fun a => ?_
  cases a with
  | predicate => exact .some (.term _ _)
  | object => exact .some (.operators ⟨rfl, rfl, rfl, rfl, rfl, rfl, rfl, rfl, rfl, rfl, rfl, congrArg some leads, rfl⟩)
  | _ => exact .none

theorem statements_shaped_removals :
    let found := scripted [[keyRecord "ab", keyRecord "ba", keyRecord "a?"]]
    let removal := removing "http://ex/p" "^a"
    let other := removing "http://ex/it's?" "^b"
    (∃ texts again, removal.Issuing found texts again ∧ other.Issuing (scripted []) texts again) ∧
    (∃ done : List Statement, removal.issued found = done.map (·.render .postgres) ∧
      ∀ st ∈ done, (st.render .postgres).Carries (st.inlined .postgres)) ∧
    (removal.issued found).tail =
      [⟨keyRemoval, [.text [], .text "http://ex/s", .text "http://ex/p", .text "ab"]⟩,
       ⟨keyRemoval, [.text [], .text "http://ex/s", .text "http://ex/p", .text "a?"]⟩] ∧
    (other.issued (scripted [])).map (·.text) = ((removal.issued found).take 1).map (·.text) := by
  have shape : (removing "http://ex/p" "^a").SameShape (removing "http://ex/it's?" "^b") :=
    removing_sameShape _ _ (by decide)
  have dialect : (scripted [[keyRecord "ab", keyRecord "ba", keyRecord "a?"]]).backend.dialect =
      (scripted []).backend.dialect := rfl
  obtain ⟨texts, -, done, _, issued, -, -, carried⟩ := statements_shaped shape dialect
  exact ⟨texts, ⟨done, issued, carried⟩, by decide +kernel, by decide +kernel⟩

end Operation

end QuadStore
