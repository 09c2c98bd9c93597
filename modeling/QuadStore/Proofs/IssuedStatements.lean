import QuadStore.Proofs.FailedAccess
import QuadStore.Proofs.StatementShape
import QuadStore.Sql.Script
import QuadStore.Store.Stream

namespace QuadStore

open Sql Step

namespace Sql

def LogEntry.statement? : LogEntry → Option Fragment
  | statement _ sql => some sql
  | close => none

def Script.issued (s : Script) : List Fragment := s.log.filterMap LogEntry.statement?

/-- An action on a state with a script issues some statements: all of them if it succeeds, the first of
them if it fails. -/
structure Issues {S ε α : Type} (script : S → Script) (x : ExceptT ε (StateM S) α) (s : S) (sts : List Statement) :
    Prop where
  log : ∃ done, (script (x s).2).issued = (script s).issued ++ done.map (·.render (script s).dialect) ∧
    done <+: sts ∧ ∀ a, (x s).1 = .ok a → done = sts
  dialect : (script (x s).2).dialect = (script s).dialect

namespace Issues

variable {S ε α β : Type} {script : S → Script} {x : ExceptT ε (StateM S) α} {f : α → ExceptT ε (StateM S) β} {s : S}
  {sts more : List Statement}

theorem silent (log : (script (x s).2).issued = (script s).issued)
    (dialect : (script (x s).2).dialect = (script s).dialect) :
    Issues script x s [] := by
  refine ⟨⟨[], ?_, List.prefix_rfl, fun _ _ => rfl⟩, dialect⟩
  rw [log, List.map_nil, List.append_nil]

theorem pure (a : α) : Issues script (Pure.pure a : ExceptT ε (StateM S) α) s [] := silent rfl rfl

theorem throw (e : ε) : Issues script (MonadExcept.throw e : ExceptT ε (StateM S) α) s sts :=
  ⟨⟨[], (List.append_nil _).symm, List.nil_prefix, nofun⟩, rfl⟩

theorem of_eq {y : ExceptT ε (StateM S) α} (h : Issues script y s sts) (same : x s = y s) : Issues script x s sts := by
  obtain ⟨log, dialect⟩ := h
  rw [← same] at log dialect
  exact ⟨log, dialect⟩

theorem bind (hx : Issues script x s sts) (hf : ∀ a s', x s = (.ok a, s') → Issues script (f a) s' more) :
    Issues script (x >>= f) s (sts ++ more) := by
  obtain ⟨⟨done, log, first, whole⟩, dialect⟩ := hx
  -- after a failure nothing more is issued; after a success all of the first statements are
  rcases hr : x s with ⟨e | a, s'⟩
  · rw [hr] at log dialect
    have run : (x >>= f) s = (.error e, s') := by rw [bind_apply, hr]
    refine ⟨⟨done, ?_, first.trans (List.prefix_append sts more), ?_⟩, ?_⟩
    · rw [run]
      exact log
    · rw [run]
      exact nofun
    · rw [run]
      exact dialect
  · rw [hr] at log dialect whole
    obtain ⟨⟨done', log', first', whole'⟩, dialect'⟩ := hf a s' hr
    have run : (x >>= f) s = f a s' := by rw [bind_apply, hr]
    have all := whole a rfl
    subst all
    dsimp only at log dialect
    refine ⟨⟨done ++ done', ?_, (List.prefix_append_right_inj done).2 first', ?_⟩, ?_⟩
    · rw [run, log', log, dialect, List.map_append, List.append_assoc]
    · intro b hb
      rw [run] at hb
      rw [whole' b hb]
    · rw [run, dialect', dialect]

theorem after (hx : Issues script x s []) (hf : ∀ a s', x s = (.ok a, s') → Issues script (f a) s' more) :
    Issues script (x >>= f) s more := hx.bind hf

theorem andThen (hx : Issues script x s sts) (hf : ∀ a s', x s = (.ok a, s') → Issues script (f a) s' []) :
    Issues script (x >>= f) s sts := by
  have both := hx.bind hf
  rwa [List.append_nil] at both

theorem bind_some {γ : Type} {more : γ → List Statement} (c : γ) (hx : Issues script x s sts)
    (hf : ∀ a s', x s = (.ok a, s') → ∃ c, Issues script (f a) s' (more c)) :
    ∃ c, Issues script (x >>= f) s (sts ++ more c) := by
  rcases hr : x s with ⟨e | a, s'⟩
  · refine ⟨c, hx.bind fun a s' ok => ?_⟩
    rw [hr] at ok
    cases ok
  · obtain ⟨c, second⟩ := hf a s' hr
    refine ⟨c, hx.bind fun a' s'' ok => ?_⟩
    rw [hr] at ok
    cases ok
    exact second

theorem after_some {γ : Type} {more : γ → List Statement} (c : γ) (hx : Issues script x s [])
    (hf : ∀ a s', x s = (.ok a, s') → ∃ c, Issues script (f a) s' (more c)) :
    ∃ c, Issues script (x >>= f) s (more c) :=
  hx.bind_some c hf

theorem map (g : α → β) (hx : Issues script x s sts) : Issues script (g <$> x) s sts := by
  rw [map_eq_pure_bind]
  exact hx.andThen fun a s' _ => pure (g a)

theorem forM {γ : Type} {step : γ → ExceptT ε (StateM S) Unit} {statement : γ → Statement} (xs : List γ)
    (each : ∀ c ∈ xs, ∀ s, Issues script (step c) s [statement c]) (s : S) :
    Issues script (xs.forM step) s (xs.map statement) := by
  induction xs generalizing s with
  | nil => exact pure ()
  | cons c rest ih =>
    exact (each c List.mem_cons_self s).bind fun _ s' _ => ih (fun d mem => each d (List.mem_cons_of_mem c mem)) s'

end Issues

namespace Script

variable (s : Script)

theorem note_issues (kind : CallKind) (st : Statement) : Issues id (note kind (st.render s.dialect)) s [st] := by
  obtain ⟨dialect, answers, affected, failAt, calls, log⟩ := s
  have run : note kind (st.render dialect) ⟨dialect, answers, affected, failAt, calls, log⟩ =
      (if failAt = some calls then .error .scripted else .ok (),
        ⟨dialect, answers, affected, failAt, calls + 1, log ++ [.statement kind (st.render dialect)]⟩) := by
    have noted : note kind (st.render dialect) ⟨dialect, answers, affected, failAt, calls, log⟩ =
        (if failAt = some calls then throw .scripted else pure () : Call Script Unit)
          ⟨dialect, answers, affected, failAt, calls + 1, log ++ [.statement kind (st.render dialect)]⟩ := rfl
    rw [noted]
    split <;> rfl
  refine ⟨⟨[st], ?_, List.prefix_rfl, fun _ _ => rfl⟩, ?_⟩
  · rw [id_eq, id_eq, run, issued, issued, List.filterMap_append]
    rfl
  · rw [run]
    rfl

theorem define_issues (d : Definition) : Issues id (Backend.define d) s [.definition d] :=
  (s.note_issues .define (.definition d)).of_eq rfl

theorem query_issues (q : Query) : Issues id (Backend.query q) s [.query q] := by
  apply (s.note_issues .query (.query q)).andThen
  rintro - ⟨dialect, answers, affected, failAt, calls, log⟩ -
  cases answers with
  | nil => exact .silent rfl rfl
  | cons rows rest => exact .silent rfl rfl

def nextNumber : Call Script Nat := do
  let s ← get
  match s.affected with
  | [] => return 0
  | n :: rest =>
    set { s with affected := rest }
    return n

theorem execute_issues (c : Command) : Issues id (Backend.execute c) s [.command c] := by
  have run : Issues id (note .execute (c.render s.dialect) >>= fun _ => nextNumber) s [.command c] := by
    apply (s.note_issues .execute (.command c)).andThen
    rintro - ⟨dialect, answers, affected, failAt, calls, log⟩ -
    cases affected with
    | nil => exact .silent rfl rfl
    | cons n rest => exact .silent rfl rfl
  exact run.of_eq rfl

theorem transact_issues (commands : List Command) :
    Issues id (Backend.transact commands) s (commands.map .command) := by
  have each : ∀ (d : Dialect) (s : Script), s.dialect = d →
      Issues id (commands.forM fun c => note .transaction (c.render d)) s (commands.map .command) := by
    intro d s same
    induction commands generalizing s with
    | nil => exact .pure ()
    | cons c rest ih =>
      have first := s.note_issues .transaction (.command c)
      rw [same] at first
      apply first.bind
      intro _ s' ok
      have kept := first.dialect
      rw [ok] at kept
      exact ih s' (kept.trans same)
  exact (each s.dialect s rfl).of_eq rfl

end Script

end Sql

namespace Store

variable {α : Type} (s : Store Script)

abbrev Issues (x : Action Script α) (s : Store Script) (sts : List Statement) : Prop := Sql.Issues (·.backend) x s sts

theorem call_issues {c : Call Script α} {sts : List Statement} (h : Sql.Issues id c s.backend sts) :
    Issues (call c) s sts := by
  obtain ⟨⟨done, log, first, whole⟩, dialect⟩ := h
  have after : (call c s).2.backend = (c s.backend).2 := by
    unfold call
    rcases c s.backend with ⟨_ | _, backend⟩ <;> rfl
  have answer : ∀ a, (call c s).1 = .ok a → (c s.backend).1 = .ok a := by
    unfold call
    rcases c s.backend with ⟨_ | _, backend⟩
    · exact fun a => nofun
    · exact fun a h => congrArg Except.ok (Except.ok.inj h)
  refine ⟨⟨done, ?_, first, fun a ok => whole a (answer a ok)⟩, ?_⟩
  · rw [after]
    exact log
  · rw [after]
    exact dialect

theorem query_issues (q : Query) : Issues (call (Backend.query q)) s [.query q] :=
  call_issues s (s.backend.query_issues q)

theorem execute_issues (c : Command) : Issues (call (Backend.execute c)) s [.command c] :=
  call_issues s (s.backend.execute_issues c)

theorem transact_issues (commands : List Command) : Issues (transact commands) s (commands.map .command) := by
  cases commands with
  | nil => exact .pure ()
  | cons c rest => exact call_issues s (s.backend.transact_issues (c :: rest))

theorem requireOpen_issues : Issues requireOpen s [] := by
  apply Issues.silent <;> rw [requireOpen_apply]

theorem searches_issues (p : Pattern) : Issues (searches p) s [] := by
  unfold searches
  cases p.searches? with
  | none => exact .throw _
  | some found => exact .pure found

theorem regexes_of_searches {p : Pattern} {regexes : List (Position × Regex)} {s s' : Store Script}
    (h : searches p s = (.ok regexes, s')) : regexes.isEmpty = !p.hasRegex := by
  rw [searches_apply] at h
  cases found : p.searches? with
  | none =>
    rw [found] at h
    cases h
  | some regexes' =>
    rw [found] at h
    cases h
    exact p.searches_nil_iff regexes found

theorem slice_issues (options : Options) (rows : List Record) : Issues (slice options rows) s [] := by
  apply Issues.silent <;> rw [slice_apply]

/-- What is asked of the database for a lookup: rows that are searched afterwards are not cut before. -/
def fetching (p : Pattern) (options : Options) : Options :=
  if p.hasRegex then { options with limit := none, offset := none } else options

def lookupQuery (p : Pattern) (options : Options) : Query := .select Quint.columns p.clauses (fetching p options)

theorem get_issues (p : Pattern) (options : Options) : Issues (get p options) s [.query (lookupQuery p options)] := by
  unfold get
  apply (requireOpen_issues s).after
  intro _ s _
  apply (searches_issues s p).after
  intro regexes s ok
  unfold lookupQuery fetching
  have searched := regexes_of_searches ok
  cases hr : p.hasRegex with
  | false =>
    rw [hr, Bool.not_false] at searched
    rw [if_pos searched]
    exact (query_issues s _).andThen fun _ _ _ => .pure _
  | true =>
    rw [hr, Bool.not_true] at searched
    rw [searched, if_neg Bool.false_ne_true]
    apply (query_issues s _).andThen
    intro rows s _
    exact (slice_issues s options _).andThen fun _ _ _ => .pure _

theorem counted_issues (q : Query) : Issues (counted q) s [.query q] := by
  apply (query_issues s q).andThen
  intro rows s _
  cases rows with
  | nil => exact .pure 0
  | cons r rest =>
    dsimp only
    cases readCount? (r.text "count") with
    | none => exact .throw _
    | some n => exact .pure n

theorem matchingKeys_issues (p : Pattern) (regexes : List (Position × Regex)) :
    Issues (matchingKeys p regexes) s [.query (.select keyColumns p.clauses {})] :=
  (query_issues s _).andThen fun _ _ _ => .pure _

/-- What is asked of the database to count: rows to search, or their number. -/
def countQuery (p : Pattern) : Query := if p.hasRegex then .select keyColumns p.clauses {} else .count p.clauses

theorem count_issues (p : Pattern) : Issues (count p) s [.query (countQuery p)] := by
  unfold count
  apply (requireOpen_issues s).after
  intro _ s _
  apply (searches_issues s p).after
  intro regexes s ok
  unfold countQuery
  have searched := regexes_of_searches ok
  cases hr : p.hasRegex with
  | false =>
    rw [hr, Bool.not_false] at searched
    rw [if_pos searched]
    exact (counted_issues s _).andThen fun _ _ _ => .pure _
  | true =>
    rw [hr, Bool.not_true] at searched
    rw [searched, if_neg Bool.false_ne_true]
    exact (matchingKeys_issues s p regexes).andThen fun _ _ _ => .pure _

/-- What a write on a pattern starts with: with regular expressions, a query for keys. -/
def firstWrite (p : Pattern) (command : List Clause → Command) : Statement :=
  if p.hasRegex then .query (.select keyColumns p.clauses {}) else .command (command p.clauses)

/-- The commands of a write with regular expressions, one for each key. -/
def keyedWrites (p : Pattern) (command : List Clause → Command) (keys : List Record) : List Statement :=
  if p.hasRegex then keys.map fun r => .command (command (Row.keyClauses fun p => r.text p.name)) else []

theorem writeAll_issues (p : Pattern) (command : List Clause → Command) :
    ∃ keys, Issues (writeAll p command) s (firstWrite p command :: keyedWrites p command keys) := by
  unfold writeAll
  apply (requireOpen_issues s).after_some []
  intro _ s _
  apply (searches_issues s p).after_some []
  intro regexes s ok
  have searched := regexes_of_searches ok
  -- the keys are known only after the first query, and then there is one command for each
  unfold firstWrite keyedWrites
  cases hr : p.hasRegex with
  | false =>
    rw [hr, Bool.not_false] at searched
    rw [if_pos searched]
    exact ⟨[], execute_issues s _⟩
  | true =>
    rw [hr, Bool.not_true] at searched
    rw [searched, if_neg Bool.false_ne_true]
    apply (matchingKeys_issues s p regexes).bind_some []
    intro keys s _
    have all := transact_issues s (keys.map fun r => command (Row.keyClauses fun p => r.text p.name))
    rw [List.map_map] at all
    exact ⟨keys, all.andThen fun _ _ _ => .pure _⟩

theorem put_issues (q : Quint) : Issues (put q) s [.command (.upsert q.toRow)] := by
  apply (requireOpen_issues s).after
  intro _ s _
  exact (execute_issues s _).map _

theorem putAll_issues (qs : List Quint) : Issues (putAll qs) s (qs.map fun q => .command (.upsert q.toRow)) := by
  apply (requireOpen_issues s).after
  intro _ s _
  have all := transact_issues s (qs.map fun q => .upsert q.toRow)
  rwa [List.map_map] at all

theorem deleteAll_issues (qs : List Quint) :
    Issues (deleteAll qs) s (qs.map fun q => .command (.delete (Row.keyClauses q.toRow.get))) := by
  apply (requireOpen_issues s).after
  intro _ s _
  have all := transact_issues s (qs.map fun q => .delete (Row.keyClauses q.toRow.get))
  rwa [List.map_map] at all

theorem clear_issues : Issues clear s [.command (.delete [])] := by
  apply (requireOpen_issues s).after
  intro _ s _
  exact (execute_issues s _).map _

theorem stats_issues : Issues stats s [.query (.count []), .query .countVectors, .query .countGraphs] := by
  apply (requireOpen_issues s).after
  intro _ s _
  apply (counted_issues s _).bind
  intro _ s _
  apply (counted_issues s _).bind
  intro _ s _
  exact (counted_issues s _).andThen fun _ _ _ => .pure _

def compoundQueries (c : Compound) (options : Options) : List Statement :=
  match c.patterns with
  | [] => []
  | [p] => [.query (lookupQuery p options)]
  | patterns =>
    ((patterns.mapM Pattern.joinClauses?).map fun clauses =>
      .query (.join ⟨c.on, (projections c).map (·.2), clauses⟩ options)).toList

theorem getCompound_issues (c : Compound) (options : Options) :
    Issues (getCompound c options) s (compoundQueries c options) := by
  obtain ⟨patterns, on, select⟩ := c
  apply (requireOpen_issues s).after
  intro _ s _
  cases select.find? fun s => patterns.length ≤ s.pattern with
  | some missing => exact .throw _
  | none =>
    rcases patterns with _ | ⟨p, _ | ⟨q, rest⟩⟩
    · exact .pure []
    · exact (get_issues s p options).andThen fun _ _ _ => .pure _
    · unfold compoundQueries
      dsimp only
      cases (p :: q :: rest).mapM Pattern.joinClauses? with
      | none => exact .throw _
      | some clauses => exact (query_issues s _).andThen fun _ _ _ => .pure _

def attributeClauses (subjects predicates : List Term) (graph : Option Term) : List Clause :=
  [⟨.subject, .among (subjects.map Term.encode)⟩, ⟨.predicate, .among (predicates.map Term.encode)⟩] ++
    ((namedGraph? graph).map fun g => ⟨.graph, .compare .eq g.encode⟩).toList

def attributeQueries (subjects predicates : List Term) (graph : Option Term) : List Statement :=
  if subjects.isEmpty || predicates.isEmpty then []
  else [.query (.select [.position .subject, .position .predicate, .position .object]
    (attributeClauses subjects predicates graph) {})]

theorem getAttributes_issues (subjects predicates : List Term) (graph : Option Term) :
    Issues (getAttributes subjects predicates graph) s (attributeQueries subjects predicates graph) := by
  apply (requireOpen_issues s).after
  intro _ s _
  unfold attributeQueries
  split
  · exact .pure []
  · exact (query_issues s _).andThen fun _ _ _ => .pure _

theorem open_issues : Issues «open» s (if s.isOpen then [] else schema.map .definition) := by
  have define : ∀ (d : Definition) (s : Store Script), Issues (call (Backend.define d)) s [.definition d] :=
    fun d s => call_issues s (s.backend.define_issues d)
  have run : ∀ s : Store Script, Issues (do
      modify fun s => { s with backend := Backend.connect s.backend }
      schema.forM fun d => call (Backend.define d)
      modify fun s => { s with isOpen := true } : Action Script Unit) s (schema.map .definition) := by
    intro s
    apply (Issues.silent rfl rfl).after
    intro _ s _
    apply (Issues.forM schema (fun d _ => define d) s).andThen
    intro _ s _
    exact .silent rfl rfl
  obtain ⟨isOpen, backend⟩ := s
  cases isOpen with
  | true => exact .silent rfl rfl
  | false => exact (run ⟨false, backend⟩).of_eq rfl

theorem close_issues : Issues close s [] := by
  obtain ⟨isOpen, backend⟩ := s
  cases isOpen with
  | false => exact .silent rfl rfl
  | true =>
    apply Issues.silent
    · change (backend.log ++ [LogEntry.close]).filterMap _ = backend.log.filterMap _
      rw [List.filterMap_append]
      exact List.append_nil _
    · rfl

end Store

end QuadStore
