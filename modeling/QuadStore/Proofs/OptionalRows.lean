import QuadStore.Proofs.Isolation
import QuadStore.Proofs.OptionalAnswers

namespace QuadStore

open Sql Step

namespace Store

theorem getAttributes_open (subjects predicates : List Term) (graph : Option Term) (t : Table) :
    getAttributes subjects predicates graph ⟨true, t⟩ =
      (.ok ((t.selected (attributeClauses subjects predicates graph)).map OptionalPlan.attributeOf),
        ⟨true, t⟩) := by
  unfold getAttributes
  rw [bind_apply, requireOpen_apply]
  simp only [if_true]
  by_cases none_ : (subjects.isEmpty || predicates.isEmpty) = true
  · have nothing : t.selected (attributeClauses subjects predicates graph) = [] := by
      unfold Table.selected
      rw [List.filter_eq_nil_iff]
      intro r _
      rw [Bool.or_eq_true, List.isEmpty_iff, List.isEmpty_iff] at none_
      rcases none_ with rfl | rfl <;> simp [attributeClauses, Table.satisfies, Condition.holds]
    rw [if_pos none_, nothing]
    rfl
  · rw [if_neg none_, bind_apply, query_apply]
    change (Except.ok ((Table.answer _ (.select _ (attributeClauses subjects predicates graph) {})).map _), _) = _
    rw [Table.answer, Table.slice_all, Table.sorted_unordered _ _ _ rfl, List.map_map]
    rfl

end Store

theorem Value.stored_terms (ts : List Term) (p : Position) :
    (ts.map Value.term).map (·.stored p .eq) = ts.map (Term.stored · p) := by
  rw [List.map_map]
  exact List.map_congr_left fun t _ => Value.stored_term t p .eq rfl

theorem Match.admits_among (old : Operators) (vs : List Value) (p : Position) (s : Text) :
    (Match.operators (old.merge { among := some vs })).admits p s =
      ((vs.map (·.stored p .eq)).contains s && (Match.operators { old with among := none }).admits p s) := by
  simp only [Match.admits, Match.conditions, Match.regex?, Operators.conditions, Operators.merge,
    Option.none_or, Option.some_or, List.all_append, Option.map_some, Option.map_none, Option.toList_some,
    Option.toList_none, List.all_cons, List.all_nil, Condition.holds, Bool.and_true]
  ac_rfl

theorem isSome_mapM {α β : Type} {f : α → Option β} {xs : List α} :
    (xs.mapM f).isSome = true ↔ ∀ x ∈ xs, (f x).isSome = true := by
  induction xs with
  | nil => simp
  | cons x xs ih =>
    rw [List.mapM_cons, List.forall_mem_cons, ← ih]
    cases f x with
    | none => simp
    | some y => cases xs.mapM f <;> simp

theorem Pattern.isSome_searches (p : Pattern) :
    p.searches?.isSome = true ↔
      ∀ a source, (p.get a).bind Match.regex? = some source → (Regex.read? source).isSome = true := by
  unfold searches? regexes
  simp only [isSome_mapM, List.mem_filterMap, Option.isSome_map, Option.bind_eq_bind]
  constructor
  · intro h a source hs
    exact h (a, source) ⟨a, by cases a <;> decide, by rw [hs]; rfl⟩
  · rintro h ⟨a, source⟩ ⟨a', -, found⟩
    obtain ⟨source', hs, eq⟩ := Option.map_eq_some_iff.1 found
    cases eq
    exact h a source hs

theorem Part.lookup_fixed {part : Part} {guard : Pattern} {a : Position} {u : Term}
    (fixed : guard.get a = some (.term u)) : ∃ w, (part.lookup (some guard)).get a = some (.term w) := by
  have asked : ∃ w, part.asked guard a = some (.term w) := by
    have filled : ∃ w, (part.triple.fixed? a).or (guard.get a) = some (.term w) := by
      unfold Quad.fixed?
      dsimp only
      split
      · exact ⟨u, fixed⟩
      · exact ⟨_, rfl⟩
    obtain ⟨w, filled⟩ := filled
    refine ⟨w, ?_⟩
    unfold Part.asked
    rw [filled]
    cases part.pushed? a <;> rfl
  obtain ⟨w, asked⟩ := asked
  rw [← Part.get_filteredLookup] at asked
  obtain ⟨n, hn, within⟩ := Part.inGraph_within part.triple _ a _ asked
  cases within with
  | term => exact ⟨w, hn⟩

namespace Term

structure IsResource (t : Term) : Prop where
  unquoted : t.isLiteral = false
  kept : decode t.encode = t

theorem isResource_decode {s : Text} (h : (decode s).isLiteral = false) : (decode s).IsResource :=
  ⟨h, by rw [encode_decode s h]⟩

theorem contains_encode_resources {ts : List Term} (resources : ∀ t ∈ ts, t.IsResource) (s : Text) :
    (ts.map encode).contains s = ts.contains (decode s) := by
  rw [Bool.eq_iff_iff, List.contains_iff_mem, List.contains_iff_mem, List.mem_map]
  constructor
  · rintro ⟨t, mem, rfl⟩
    rwa [(resources t mem).kept]
  · intro mem
    exact ⟨_, mem, encode_decode s (resources _ mem).unquoted⟩

end Term

namespace OptionalPlan

variable {p : OptionalPlan} {security : Option Pattern} {t : Table}

def asks (p : OptionalPlan) (security : Option Pattern) (subjects : List Term) (r : Row) : Bool :=
  match security with
  | none => Table.satisfies r (Store.attributeClauses subjects p.predicates p.graph)
  | some guard => !subjects.isEmpty && (p.guardedLookup (some guard) subjects).admits r

theorem get_guardedLookup_subject (p : OptionalPlan) (guard : Pattern) (subjects : List Term) :
    (p.guardedLookup (some guard) subjects).get .subject =
      Match.adding guard.subject { among := some (subjects.map .term) } := by
  rw [get_guardedLookup, asked_subject]

theorem get_guardedLookup_other (constant : (p.graph.getD .defaultGraph).isVar = false) (guard : Pattern)
    (subjects others : List Term) {a : Position} (other : a ≠ .subject) :
    (p.guardedLookup (some guard) subjects).get a = (p.guardedLookup (some guard) others).get a := by
  rw [get_guardedLookup, get_guardedLookup]
  cases a with
  | subject => exact absurd rfl other
  | predicate => rfl
  | object => rfl
  | graph =>
    rw [Part.asked, Part.asked, pushed?_asker constant, pushed?_asker constant]
    rfl

def asksSubject (guard : Pattern) (subjects : List Term) (s : Text) : Bool :=
  !subjects.isEmpty && (Match.adding guard.subject { among := some (subjects.map .term) }).all (·.admits .subject s)

theorem asks_guarded (constant : (p.graph.getD .defaultGraph).isVar = false) (guard : Pattern)
    (subjects others : List Term) {r : Row}
    (same : asksSubject guard subjects r.subject = asksSubject guard others r.subject) :
    p.asks (some guard) subjects r = p.asks (some guard) others r := by
  have split : ∀ ts, p.asks (some guard) ts r =
      (asksSubject guard ts r.subject && [Position.graph, .predicate, .object].all fun a =>
        ((p.guardedLookup (some guard) ts).get a).all (·.admits a (r.get a))) := by
    intro ts
    have subject := get_guardedLookup_subject p guard ts
    unfold asks asksSubject Pattern.admits Position.keyOrder
    simp only [List.all_cons, List.all_nil, Bool.and_true, subject]
    change (_ && (_ && (Option.all (fun m : Match => m.admits .subject r.subject) _ && _))) = _
    ac_rfl
  have rest : ∀ a ∈ [Position.graph, .predicate, .object],
      (p.guardedLookup (some guard) subjects).get a = (p.guardedLookup (some guard) others).get a :=
    fun a mem => get_guardedLookup_other constant guard subjects others (by rintro rfl; revert mem; decide)
  rw [split, split, same]
  congr 1
  rw [Bool.eq_iff_iff, List.all_eq_true, List.all_eq_true]
  constructor
  · intro h a mem
    rw [← rest a mem]
    exact h a mem
  · intro h a mem
    rw [rest a mem]
    exact h a mem

theorem asksSubject_operators (guard : Pattern) (old : Operators) (s : Text)
    (free : ∀ ts : List Term, Match.adding guard.subject { among := some (ts.map .term) } =
      some (.operators (old.merge { among := some (ts.map .term) }))) (subjects : List Term) :
    asksSubject guard subjects s =
      ((subjects.map Term.encode).contains s && (Match.operators { old with among := none }).admits .subject s) := by
  have texts : (subjects.map Value.term).map (·.stored .subject .eq) = subjects.map Term.encode :=
    Value.stored_terms subjects .subject
  unfold asksSubject
  rw [free, Option.all_some, Match.admits_among, texts]
  cases subjects with
  | nil => exact (Bool.false_and _).symm
  | cons u subjects => exact Bool.true_and _

/-- The rows of a subject are asked for whenever the subject is. Where the security pattern fixes the
subject, the subjects that are asked for only matter by whether there are any. -/
theorem asks_congr (constant : (p.graph.getD .defaultGraph).isVar = false) {subjects others : List Term}
    (hs : ∀ s ∈ subjects, s.IsResource) (ho : ∀ s ∈ others, s.IsResource) {r : Row}
    (same : subjects.contains (.decode r.subject) = others.contains (.decode r.subject))
    (fixed : ∀ guard u, security = some guard → guard.subject = some (.term u) →
      subjects.isEmpty = others.isEmpty) :
    p.asks security subjects r = p.asks security others r := by
  have texts : (subjects.map Term.encode).contains r.subject = (others.map Term.encode).contains r.subject := by
    rw [Term.contains_encode_resources hs, Term.contains_encode_resources ho, same]
  cases security with
  | none =>
    have split : ∀ ts, p.asks none ts r = ((ts.map Term.encode).contains r.subject &&
        Table.satisfies r (Store.attributeClauses ts p.predicates p.graph).tail) := fun _ => rfl
    rw [split, split, texts]
    rfl
  | some guard =>
    apply asks_guarded constant
    cases hg : guard.subject with
    | none =>
      have free : ∀ ts : List Term, Match.adding guard.subject { among := some (ts.map .term) } =
          some (.operators (Operators.merge {} { among := some (ts.map .term) })) := by
        intro ts
        rw [hg]
        rfl
      rw [asksSubject_operators guard _ _ free, asksSubject_operators guard _ _ free, texts]
    | some m =>
      cases m with
      | operators old =>
        have free : ∀ ts : List Term, Match.adding guard.subject { among := some (ts.map .term) } =
            some (.operators (old.merge { among := some (ts.map .term) })) := by
          intro ts
          rw [hg]
          rfl
        rw [asksSubject_operators guard _ _ free, asksSubject_operators guard _ _ free, texts]
      | term u =>
        unfold asksSubject
        rw [fixed guard u rfl hg, hg]
        rfl

def isReadable (p : OptionalPlan) (security : Option Pattern) : Bool :=
  security.all fun guard => (p.guardedLookup (some guard) []).searches?.isSome

def batch (p : OptionalPlan) (t : Table) (security : Option Pattern) (subjects : List Term) : List Attribute :=
  (t.rows.filter (p.asks security subjects)).map attributeOf

theorem regex_adding (m : Option Match) (o : Operators) (plain : o.regex = none) :
    (Match.adding m o).bind Match.regex? = m.bind Match.regex? := by
  cases m with
  | none => exact plain
  | some m =>
    cases m with
    | term t => rfl
    | operators old =>
      change o.regex.or old.regex = old.regex
      rw [plain, Option.none_or]

theorem regex_guardedLookup (constant : (p.graph.getD .defaultGraph).isVar = false) (guard : Pattern)
    (subjects others : List Term) (a : Position) :
    ((p.guardedLookup (some guard) subjects).get a).bind Match.regex? =
      ((p.guardedLookup (some guard) others).get a).bind Match.regex? := by
  by_cases own : a = .subject
  · subst own
    rw [get_guardedLookup_subject, get_guardedLookup_subject, regex_adding _ _ rfl, regex_adding _ _ rfl]
  · rw [get_guardedLookup_other constant guard subjects others own]

theorem attributes_batch (constant : (p.graph.getD .defaultGraph).isVar = false) (security : Option Pattern)
    (subjects : List Term) (t : Table) :
    p.attributes security subjects ⟨true, t⟩ =
      (if subjects.isEmpty || p.isReadable security then .ok (p.batch t security subjects)
        else .error .malformedRegex, ⟨true, t⟩) := by
  cases security with
  | none =>
    have readable : (subjects.isEmpty || p.isReadable none) = true := Bool.or_true _
    rw [if_pos readable]
    exact Store.getAttributes_open subjects p.predicates p.graph t
  | some guard =>
    rw [attributes_open]
    unfold guardedRows
    cases none_ : subjects.isEmpty with
    | true =>
      have nothing : p.batch t (some guard) subjects = [] := by
        unfold batch asks
        simp [none_]
      simp only [if_true, Bool.true_or, nothing]
      rfl
    | false =>
      have asked : p.asks (some guard) subjects = (p.guardedLookup (some guard) subjects).admits := by
        funext r
        simp [asks, none_]
      have searches : (p.guardedLookup (some guard) subjects).searches? =
          (p.guardedLookup (some guard) []).searches? := by
        unfold Pattern.searches? Pattern.regexes
        simp only [Option.bind_eq_bind, regex_guardedLookup constant guard subjects []]
      simp only [Bool.false_eq_true, if_false, Bool.false_or]
      unfold isReadable batch
      rw [Option.all_some, ← searches, asked]
      cases found : (p.guardedLookup (some guard) subjects).searches? with
      | none =>
        unfold Store.fetched
        rw [found]
        rfl
      | some regexes =>
        rw [Store.fetched_all found]
        rfl

theorem regex_of_guardedLookup {guard : Pattern} {subjects : List Term} {a : Position} {source : Text}
    (h : ((p.guardedLookup (some guard) subjects).get a).bind Match.regex? = some source) :
    (guard.get a).bind Match.regex? = some source := by
  have open_ : ∀ (t : Option Match), t.bind Match.regex? = none →
      (t.or (guard.get a)).bind Match.regex? = some source → (guard.get a).bind Match.regex? = some source := by
    intro t plain h
    cases t with
    | none => exact h
    | some m => exact absurd (plain.symm.trans h) nofun
  rw [get_guardedLookup] at h
  unfold Part.asked at h
  have fixed : ((p.asker subjects).triple.fixed? a).bind Match.regex? = none := by
    unfold Quad.fixed?
    dsimp only
    split <;> rfl
  have plain : ∀ o, (p.asker subjects).pushed? a = some o → o.regex = none := by
    intro o ho
    unfold Part.pushed? at ho
    split at ho
    · simp only [asker, List.lookup_cons, List.lookup_nil] at ho
      split at ho
      · cases ho
        rfl
      · split at ho
        · cases ho
          rfl
        · cases ho
    · cases ho
  apply open_ _ fixed
  cases hp : (p.asker subjects).pushed? a with
  | none =>
    rw [hp] at h
    exact h
  | some o =>
    rw [hp] at h
    dsimp only at h
    rwa [regex_adding _ _ (plain o hp)] at h

theorem searches_guardedLookup {guard : Pattern} (h : guard.searches?.isSome = true) {subjects : List Term} :
    (p.guardedLookup (some guard) subjects).searches?.isSome = true := by
  rw [Pattern.isSome_searches]
  intro a source hs
  exact (Pattern.isSome_searches guard).1 h a source (regex_of_guardedLookup hs)

theorem readable_of_guard {guard : Pattern} (h : guard.searches?.isSome = true) :
    p.isReadable (some guard) = true :=
  searches_guardedLookup h

def completed (p : OptionalPlan) (t : Table) (security : Option Pattern) (core : Solutions) :
    Except StoreError Solutions :=
  if (p.subjects core.rows).isEmpty || p.isReadable security then
    .ok ⟨p.names core.names, core.rows.map (p.extend (p.batch t security (p.subjects core.rows)))⟩
  else .error .malformedRegex

theorem extendAll_completed (constant : (p.graph.getD .defaultGraph).isVar = false) (security : Option Pattern)
    (core : Solutions) (t : Table) :
    p.extendAll security core ⟨true, t⟩ = (p.completed t security core, ⟨true, t⟩) := by
  unfold extendAll completed
  cases none_ : core.rows with
  | nil => rfl
  | cons b more =>
    have some_ : ¬ (b :: more).isEmpty = true := Bool.false_ne_true
    rw [if_neg some_, bind_apply, attributes_batch constant]
    cases (p.subjects (b :: more)).isEmpty || p.isReadable security <;> rfl

theorem values_batch {subjects others : List Term} {s : Term}
    (same : ∀ r ∈ t.rows, Term.decode r.subject = s → p.asks security subjects r = p.asks security others r)
    (predicate : Term) :
    Attribute.values (p.batch t security subjects) s predicate =
      Attribute.values (p.batch t security others) s predicate := by
  unfold Attribute.values batch
  rw [List.filter_map, List.filter_map, List.filter_filter, List.filter_filter]
  congr 2
  apply List.filter_congr
  intro r mem
  by_cases own : Term.decode r.subject = s
  · rw [same r mem own]
  · have other : ¬ (attributeOf r).subject = s := own
    simp [Function.comp_apply, other]

theorem extend_batch {subjects others : List Term} {b : Binding} {s : Term}
    (bound : b.get? p.core.subject = some s)
    (same : ∀ r ∈ t.rows, Term.decode r.subject = s → p.asks security subjects r = p.asks security others r) :
    p.extend (p.batch t security subjects) b = p.extend (p.batch t security others) b := by
  unfold extend
  rw [bound]
  simp only [values_batch same]

theorem subject_of_row {options : Options} {core : Solutions} (h : p.core.answer t security options = .ok core)
    {b : Binding} (mem : b ∈ core.rows) :
    ∃ head row, p.core.parts.head? = some head ∧ (head.lookup security).admits row = true ∧
      b.get? p.core.subject = some (.decode row.subject) := by
  obtain ⟨found, rows, ⟨parts, ⟨first, head, value⟩, -⟩, rfl⟩ := GroupPlan.rows_of_answer h mem
  rw [GroupPlan.bind_subject, value]
  generalize p.core.parts = core at parts
  cases parts with
  | nil => cases head
  | @cons part r _ _ taken _ =>
    cases head
    exact ⟨part, first, rfl, taken.2, rfl⟩

theorem resource_of_subjects {options : Options} {core : Solutions}
    (h : p.core.answer t security options = .ok core) {rows : List Binding} (within : rows ⊆ core.rows) :
    ∀ s ∈ p.subjects rows, s.IsResource := by
  intro s mem
  unfold subjects at mem
  rw [List.mem_eraseDups, List.mem_filter, List.mem_filterMap] at mem
  obtain ⟨⟨b, hb, bound⟩, resource⟩ := mem
  obtain ⟨head, row, -, -, own⟩ := subject_of_row h (within hb)
  rw [own] at bound
  cases bound
  exact Term.isResource_decode (by simpa using resource)

/-- Whether the subject of a row is looked up is decided by the row. -/
theorem contains_subjects {rows : List Binding} {b : Binding} {s : Term} (mem : b ∈ rows)
    (bound : b.get? p.core.subject = some s) : (p.subjects rows).contains s = !s.isLiteral := by
  rw [Bool.eq_iff_iff, List.contains_iff_mem]
  unfold subjects
  rw [List.mem_eraseDups, List.mem_filter]
  exact ⟨fun h => h.2, fun h => ⟨List.mem_filterMap.2 ⟨b, mem, bound⟩, h⟩⟩

theorem one_subject {options : Options} {core : Solutions} {guard : Pattern} {u : Term}
    (h : p.core.answer t (some guard) options = .ok core) (fixed : guard.subject = some (.term u))
    {b c : Binding} (hb : b ∈ core.rows) (hc : c ∈ core.rows) :
    b.get? p.core.subject = c.get? p.core.subject := by
  obtain ⟨head, row, first, taken, own⟩ := subject_of_row h hb
  obtain ⟨head', row', first', taken', own'⟩ := subject_of_row h hc
  cases first.symm.trans first'
  obtain ⟨w, slot⟩ := head.lookup_fixed (a := .subject) fixed
  have text : ∀ r, (head.lookup (some guard)).admits r = true → r.subject = w.stored .subject := by
    intro r taken
    have met := (Pattern.admits_iff _ r).1 taken .subject _ slot
    simp only [Match.admits, Match.conditions, Match.regex?, Condition.holds, Comparison.holds, List.all_cons,
      List.all_nil, Option.all_none, Bool.and_true, decide_eq_true_eq] at met
    exact met
  rw [own, own', text row taken, text row' taken']

end OptionalPlan

end QuadStore
