import QuadStore.Proofs.Selection
import QuadStore.Proofs.Transactions

namespace QuadStore

open Sql Step

namespace Store

variable {α β : Type}

abbrev idle (isOpen : Bool) (t : Table) (faults : List (Option Fault)) (log : List Event) :
    Store (Connection Table) := ⟨isOpen, ⟨⟨t, none⟩, faults, log⟩⟩

/-- A failure of the database is that of the first step that failed, and only a rollback is after
it. With any other answer no step has failed. -/
def Reports : Except StoreError α → List Event → Prop
  | .error (.sql f), events => ∃ done phase undo, events = done ++ ⟨phase, some f⟩ :: undo ∧
      Connection.AllWork done ∧ ∀ u ∈ undo, u = ⟨.rollback, none⟩
  | _, events => Connection.AllWork events

structure Outcome (α : Type) where
  answer : Except StoreError α
  table : Table
  faults : List (Option Fault)
  events : List Event

/-- An action on a connection has an outcome, whatever steps were taken before. Where nothing is to
go wrong by itself, it is that of the same action on the table. -/
structure Comes (x : Action (Connection Table) α) (y : Action Table α) (isOpen : Bool) (t : Table)
    (faults : List (Option Fault)) (o : Outcome α) : Prop where
  run : ∀ log, x (idle isOpen t faults log) =
    (o.answer, idle isOpen o.table o.faults (log ++ o.events))
  left : o.faults <:+ faults
  plain : faults = [] → y ⟨isOpen, t⟩ = (o.answer, ⟨isOpen, o.table⟩)
  reports : Reports o.answer o.events

theorem Reports.prepend {answer : Except StoreError α} {done events : List Event}
    (h : Reports answer events) (all : Connection.AllWork done) : Reports answer (done ++ events) := by
  cases answer with
  | ok a => exact all.append h
  | error e =>
    cases e with
    | sql f =>
      obtain ⟨more, phase, undo, rfl, work, after⟩ := h
      exact ⟨done ++ more, phase, undo, (List.append_assoc _ _ _).symm, all.append work, after⟩
    | _ => exact all.append h

namespace Comes

variable {x : Action (Connection Table) α} {y : Action Table α} {f : α → Action (Connection Table) β}
  {g : α → Action Table β} {isOpen : Bool} {t after : Table} {faults rest : List (Option Fault)}
  {events : List Event}

theorem bind_ok {a : α} {o : Outcome β} (first : Comes x y isOpen t faults ⟨.ok a, after, rest, events⟩)
    (second : Comes (f a) (g a) isOpen after rest o) :
    Comes (x >>= f) (y >>= g) isOpen t faults ⟨o.answer, o.table, o.faults, events ++ o.events⟩ := by
  refine ⟨fun log => ?_, second.left.trans first.left, fun none => ?_, second.reports.prepend first.reports⟩
  · rw [bind_apply, first.run, ← List.append_assoc]
    exact second.run _
  · rw [bind_apply, first.plain none]
    have left := first.left
    rw [none] at left
    exact second.plain (List.suffix_nil.1 left)

theorem bind_error {e : StoreError} (first : Comes x y isOpen t faults ⟨.error e, after, rest, events⟩) :
    Comes (x >>= f) (y >>= g) isOpen t faults ⟨.error e, after, rest, events⟩ := by
  refine ⟨fun log => ?_, first.left, fun none => ?_, ?_⟩
  · rw [bind_apply, first.run]
  · rw [bind_apply, first.plain none]
  · have reports := first.reports
    cases e <;> exact reports

theorem pure (a : α) : Comes (Pure.pure a) (Pure.pure a) isOpen t faults ⟨.ok a, t, faults, []⟩ := by
  refine ⟨fun log => ?_, List.suffix_rfl, fun _ => rfl, Connection.AllWork.nil⟩
  rw [pure_apply, List.append_nil]

end Comes

def Reading (x : Action (Connection Table) α) (y : Action Table α) : Prop :=
  ∀ isOpen t faults, ∃ o, Comes x y isOpen t faults o ∧ o.table = t

def Atomic (x : Action (Connection Table) α) (y : Action Table α) : Prop :=
  ∀ isOpen t faults, ∃ o, Comes x y isOpen t faults o ∧ ∀ e, o.answer = .error e → o.table = t

theorem Reading.atomic {x : Action (Connection Table) α} {y : Action Table α} (h : Reading x y) :
    Atomic x y := by
  intro isOpen t faults
  obtain ⟨o, comes, same⟩ := h isOpen t faults
  exact ⟨o, comes, fun _ _ => same⟩

section Steps

variable {x : Action (Connection Table) α} {y : Action Table α} {f : α → Action (Connection Table) β}
  {g : α → Action Table β}

theorem Reading.of_answer (answer : Bool → Except StoreError α)
    (own : ∀ isOpen f, answer isOpen ≠ .error (.sql f)) (hx : ∀ s, x s = (answer s.isOpen, s))
    (hy : ∀ s, y s = (answer s.isOpen, s)) : Reading x y := by
  intro isOpen t faults
  refine ⟨⟨answer isOpen, t, faults, []⟩, ⟨fun log => ?_, List.suffix_rfl, fun _ => hy _, ?_⟩, rfl⟩
  · rw [hx, List.append_nil]
  · cases h : answer isOpen with
    | ok a => exact Connection.AllWork.nil
    | error e =>
      cases e with
      | sql f => exact absurd h (own isOpen f)
      | _ => exact Connection.AllWork.nil

theorem Reading.pure (a : α) : Reading (Pure.pure a) (Pure.pure a) :=
  .of_answer (fun _ => .ok a) (fun _ _ => nofun) (fun _ => rfl) fun _ => rfl

theorem Reading.throw {e : StoreError} (own : ∀ f, e ≠ .sql f) :
    Reading (MonadExcept.throw e : Action (Connection Table) α) (MonadExcept.throw e) :=
  .of_answer (fun _ => .error e) (fun _ f same => own f (Except.error.inj same)) (fun _ => rfl)
    fun _ => rfl

theorem Reading.bind (hx : Reading x y) (hf : ∀ a, Reading (f a) (g a)) :
    Reading (x >>= f) (y >>= g) := by
  intro isOpen t faults
  obtain ⟨⟨answer, after, rest, events⟩, first, rfl⟩ := hx isOpen t faults
  cases answer with
  | error e => exact ⟨_, first.bind_error, rfl⟩
  | ok a =>
    obtain ⟨o, second, same⟩ := hf a isOpen after rest
    exact ⟨_, first.bind_ok second, same⟩

theorem Reading.then (hx : Reading x y) (hf : ∀ a, Atomic (f a) (g a)) :
    Atomic (x >>= f) (y >>= g) := by
  intro isOpen t faults
  obtain ⟨⟨answer, after, rest, events⟩, first, rfl⟩ := hx isOpen t faults
  cases answer with
  | error e => exact ⟨_, first.bind_error, fun _ _ => rfl⟩
  | ok a =>
    obtain ⟨o, second, kept⟩ := hf a isOpen after rest
    exact ⟨_, first.bind_ok second, kept⟩

theorem Atomic.bind_pure (hx : Atomic x y) (k : α → β) :
    Atomic (x >>= fun a => Pure.pure (k a)) (y >>= fun a => Pure.pure (k a)) := by
  intro isOpen t faults
  obtain ⟨⟨answer, after, rest, events⟩, first, kept⟩ := hx isOpen t faults
  cases answer with
  | error e => exact ⟨_, first.bind_error, fun _ _ => kept e rfl⟩
  | ok a =>
    -- the table may have changed, but nothing that could still fail comes after the change
    refine ⟨_, first.bind_ok (.pure (k a)), fun e failed => ?_⟩
    cases failed

theorem Atomic.map (hx : Atomic x y) (k : α → β) : Atomic (k <$> x) (k <$> y) := by
  rw [map_eq_pure_bind, map_eq_pure_bind]
  exact hx.bind_pure k

end Steps

theorem requireOpen_reading : Reading requireOpen requireOpen := by
  refine .of_answer (fun isOpen => if isOpen then .ok () else .error .notOpen) ?_
    requireOpen_apply requireOpen_apply
  intro isOpen f
  cases isOpen <;> exact nofun

theorem searches_reading (p : Pattern) : Reading (searches p) (searches p) := by
  unfold searches
  cases p.searches? with
  | none => exact .throw (by simp)
  | some found => exact .pure found

theorem slice_reading (options : Options) (rows : List Record) :
    Reading (slice options rows) (slice options rows) := by
  refine .of_answer (fun _ => cut options rows) ?_ (slice_apply options rows) (slice_apply options rows)
  intro _ f
  unfold cut
  dsimp only
  split <;> simp

theorem comes_call {x : Call (Connection Table) α} {isOpen : Bool} {t : Table}
    {faults : List (Option Fault)} {o : Connection.Outcome Table α}
    (run : Connection.Yields x ⟨t, none⟩ faults o) (settled : Connection.Settled t o) :
    Comes (call x) (call (Connection.plainly x)) isOpen t faults
      ⟨o.answer.mapError .sql, o.versions.data, o.faults, o.events⟩ := by
  have idle : o.versions = ⟨o.versions.data, none⟩ := by
    cases settled <;> rfl
  refine ⟨fun log => ?_, run.left, fun none => ?_, ?_⟩
  · unfold call
    dsimp only
    rw [run.run, idle]
    cases o.answer <;> rfl
  · have plain : Connection.plainly x t = (o.answer, o.versions.data) := by
      unfold Connection.plainly Connection.on
      rw [← none, run.run]
    unfold call
    dsimp only
    rw [plain]
    cases o.answer <;> rfl
  · cases settled with
    | works all => exact all
    | fails all after => exact ⟨_, _, _, rfl, all, after⟩

theorem call_atomic {x : Call (Connection Table) α} (h : Connection.Settles x) :
    Atomic (call x) (call (Connection.plainly x)) := by
  intro isOpen t faults
  obtain ⟨o, run, settled⟩ := h t faults
  refine ⟨_, comes_call run settled, fun e failed => ?_⟩
  cases settled with
  | works all => cases failed
  | fails all after => rfl

theorem query_reading (q : Query) :
    Reading (call (Backend.query q)) (call (Backend.query q)) := by
  intro isOpen t faults
  obtain ⟨o, run, settled, works⟩ := Connection.statement_settled (fun t => .ok (t.answer q, t)) t faults
  refine ⟨_, comes_call run settled, ?_⟩
  cases settled with
  | works all => exact (congrArg Prod.snd (Except.ok.inj (works _ rfl))).symm
  | fails all after => rfl

theorem execute_atomic (c : Command) :
    Atomic (call (Backend.execute c)) (call (Backend.execute c)) := by
  have h : Connection.Settles (Connection.execute c) := Connection.statement_settles _
  exact call_atomic h

theorem transact_atomic (commands : List Command) :
    Atomic (transact commands) (transact commands) := by
  cases commands with
  | nil => exact (Reading.pure PUnit.unit).atomic
  | cons c commands => exact call_atomic (Connection.transact_settles (c :: commands))

theorem get_reading (p : Pattern) (options : Options) : Reading (get p options) (get p options) := by
  refine requireOpen_reading.bind fun _ => (searches_reading p).bind fun regexes => ?_
  split
  · exact (query_reading _).bind fun rows => .pure _
  · exact (query_reading _).bind fun rows => (slice_reading options _).bind fun _ => .pure _

theorem counted_reading (q : Query) : Reading (counted q) (counted q) := by
  refine (query_reading q).bind fun rows => ?_
  cases rows with
  | nil => exact .pure 0
  | cons r rest =>
    dsimp only
    cases readCount? (r.text "count") with
    | none => exact .throw (by simp)
    | some n => exact .pure n

theorem matchingKeys_reading (p : Pattern) (regexes : List (Position × Regex)) :
    Reading (matchingKeys p regexes) (matchingKeys p regexes) :=
  (query_reading _).bind fun _ => .pure _

theorem count_reading (p : Pattern) : Reading (count p) (count p) := by
  refine requireOpen_reading.bind fun _ => (searches_reading p).bind fun regexes => ?_
  split
  · exact (counted_reading _).bind fun _ => .pure _
  · exact (matchingKeys_reading p regexes).bind fun _ => .pure _

theorem put_atomic (q : Quint) : Atomic (put q) (put q) :=
  requireOpen_reading.then fun _ => (execute_atomic _).map _

theorem putAll_atomic (qs : List Quint) : Atomic (putAll qs) (putAll qs) :=
  requireOpen_reading.then fun _ => transact_atomic _

theorem writeAll_atomic (p : Pattern) (command : List Clause → Command) :
    Atomic (writeAll p command) (writeAll p command) := by
  refine requireOpen_reading.then fun _ => (searches_reading p).then fun regexes => ?_
  split
  · exact execute_atomic _
  -- all keys are read before anything is written
  · exact (matchingKeys_reading p regexes).then fun keys => (transact_atomic _).bind_pure _

theorem deleteAll_atomic (qs : List Quint) : Atomic (deleteAll qs) (deleteAll qs) :=
  requireOpen_reading.then fun _ => transact_atomic _

theorem clear_atomic : Atomic clear clear :=
  requireOpen_reading.then fun _ => (execute_atomic _).map _

theorem stats_reading : Reading stats stats :=
  requireOpen_reading.bind fun _ => (counted_reading _).bind fun _ =>
    (counted_reading _).bind fun _ => (counted_reading _).bind fun _ => .pure _

theorem getCompound_reading (c : Compound) (options : Options) :
    Reading (getCompound c options) (getCompound c options) := by
  refine requireOpen_reading.bind fun _ => ?_
  cases c.select.find? fun s => c.patterns.length ≤ s.pattern with
  | some s => exact .throw (by simp)
  | none =>
    dsimp only
    split
    · exact .pure []
    · exact (get_reading _ options).bind fun _ => .pure _
    · cases c.patterns.mapM Pattern.joinClauses? with
      | none => exact .throw (by simp)
      | some clauses => exact (query_reading _).bind fun _ => .pure _

theorem getAttributes_reading (subjects predicates : List Term) (graph : Option Term) :
    Reading (getAttributes subjects predicates graph) (getAttributes subjects predicates graph) := by
  refine requireOpen_reading.bind fun _ => ?_
  split
  · exact .pure []
  · exact (query_reading _).bind fun _ => .pure _

end Store

inductive Access where
  | get (p : Pattern) (options : Options)
  | count (p : Pattern)
  | put (q : Quint)
  | putAll (qs : List Quint)
  | setVector (p : Pattern) (v : Vector)
  | delete (p : Pattern)
  | deleteAll (qs : List Quint)
  | getCompound (c : Compound) (options : Options)
  | getAttributes (subjects predicates : List Term) (graph : Option Term)
  | stats
  | clear

inductive Answer where
  | done
  | number (n : Nat)
  | quints (qs : List Quint)
  | results (rs : List CompoundResult)
  | attributes (rs : List Attribute)
  | stats (s : Stats)

namespace Access

variable {σ : Type} [Backend σ]

def run : Access → Action σ Answer
  | get p options => .quints <$> Store.get p options
  | count p => .number <$> Store.count p
  | put q => (fun _ => .done) <$> Store.put q
  | putAll qs => (fun _ => .done) <$> Store.putAll qs
  | setVector p v => .number <$> Store.setVector p v
  | delete p => .number <$> Store.delete p
  | deleteAll qs => (fun _ => .done) <$> Store.deleteAll qs
  | getCompound c options => .results <$> Store.getCompound c options
  | getAttributes subjects predicates graph =>
    .attributes <$> Store.getAttributes subjects predicates graph
  | stats => .stats <$> Store.stats
  | clear => (fun _ => .done) <$> Store.clear

/-- The answers of one use of the store after the other, and the store after the last. A failure is
an answer too. -/
def runAll : List Access → Store σ → List (Except StoreError Answer) × Store σ
  | [], s => ([], s)
  | a :: rest, s =>
    let (answer, next) := a.run s
    let (answers, last) := runAll rest next
    (answer :: answers, last)

theorem run_atomic (a : Access) : Store.Atomic a.run a.run := by
  cases a with
  | get p options => exact (Store.get_reading p options).atomic.map _
  | count p => exact (Store.count_reading p).atomic.map _
  | put q => exact (Store.put_atomic q).map _
  | putAll qs => exact (Store.putAll_atomic qs).map _
  | setVector p v => exact (Store.writeAll_atomic p _).map _
  | delete p => exact (Store.writeAll_atomic p _).map _
  | deleteAll qs => exact (Store.deleteAll_atomic qs).map _
  | getCompound c options => exact (Store.getCompound_reading c options).atomic.map _
  | getAttributes subjects predicates graph =>
    exact (Store.getAttributes_reading subjects predicates graph).atomic.map _
  | stats => exact Store.stats_reading.atomic.map _
  | clear => exact Store.clear_atomic.map _

/-- What was done before has no part in the answers, and no transaction is left open. Where nothing
is to go wrong by itself, the answers are those on the table. -/
theorem runAll_idle (accesses : List Access) (isOpen : Bool) (t : Table)
    (faults : List (Option Fault)) :
    ∃ answers after rest events, (∀ log, runAll accesses (Store.idle isOpen t faults log) =
        (answers, Store.idle isOpen after rest (log ++ events))) ∧
      (faults = [] → runAll accesses ⟨isOpen, t⟩ = (answers, ⟨isOpen, after⟩)) := by
  induction accesses generalizing t faults with
  | nil =>
    refine ⟨[], t, faults, [], fun log => ?_, fun _ => rfl⟩
    rw [List.append_nil]
    rfl
  | cons a accesses ih =>
    obtain ⟨o, comes, _⟩ := a.run_atomic isOpen t faults
    obtain ⟨answers, after, rest, events, more, plain⟩ := ih o.table o.faults
    refine ⟨o.answer :: answers, after, rest, o.events ++ events, fun log => ?_, fun none => ?_⟩
    · rw [runAll, comes.run, ← List.append_assoc]
      dsimp only
      rw [more]
    · have left := comes.left
      rw [none] at left
      rw [runAll, comes.plain none]
      dsimp only
      rw [plain (List.suffix_nil.1 left)]

/-- A use of the store that fails leaves it as it was, at whatever step of the database it fails: the
table is the same and no transaction is open, the error is that of the step, and all uses that come
next answer and leave the table as if that one had not been. -/
theorem failed_access_undone (history : List Access) (isOpen : Bool) (t : Table)
    (faults : List (Option Fault)) (a : Access) {s after : Store (Connection Table)} {e : StoreError}
    (reached : (runAll history ⟨isOpen, .on t faults⟩).2 = s) (failed : a.run s = (.error e, after)) :
    after.isOpen = s.isOpen ∧ after.backend.data = s.backend.data ∧
    s.backend.saved = none ∧ after.backend.saved = none ∧
    (∃ events, after.backend.events = s.backend.events ++ events ∧
      Store.Reports (.error e : Except StoreError Answer) events) ∧
    ∀ next, let here := runAll next after
      let there := runAll next { s with backend := { s.backend with faults := after.backend.faults } }
      here.1 = there.1 ∧ here.2.backend.toVersions = there.2.backend.toVersions := by
  obtain ⟨_, stored, rest, log, before, _⟩ := runAll_idle history isOpen t faults
  have start : runAll history ⟨isOpen, Connection.on t faults⟩ = _ := before []
  rw [start] at reached
  subst reached
  obtain ⟨o, comes, kept⟩ := a.run_atomic isOpen stored rest
  rw [comes.run] at failed
  obtain ⟨answer, rfl⟩ := Prod.mk.inj failed
  have same := kept e answer
  have reports := comes.reports
  rw [answer] at reports
  refine ⟨rfl, same, rfl, rfl, ⟨o.events, rfl, reports⟩, fun next => ?_⟩
  obtain ⟨answers, last, left, events, run, _⟩ := runAll_idle next isOpen stored o.faults
  dsimp only
  rw [same, run, run]
  exact ⟨rfl, rfl⟩

def person (name : String) : Quint :=
  ⟨⟨.iri (Text.ofString name), .iri "http://ex/type", .iri "http://ex/Person", .defaultGraph⟩, none⟩

def locked : Store (Connection Table) :=
  (runAll [.put (person "http://ex/ann")]
    ⟨true, Connection.on (.empty true)
      (List.replicate 4 none ++ [some ⟨.engine 5 "database is locked", false⟩])⟩).2

theorem failed_access_undone_locked :
    ∃ after, (putAll [person "http://ex/bob", person "http://ex/eve"]).run locked =
        (.error (.sql (.engine 5 "database is locked")), after) ∧
      after.backend.data = locked.backend.data ∧ after.backend.saved = none ∧
      after.backend.events = locked.backend.events ++ [⟨.begin, none⟩, ⟨.statement, none⟩,
        ⟨.statement, none⟩, ⟨.commit, some (.engine 5 "database is locked")⟩, ⟨.rollback, none⟩] := by
  refine ⟨_, rfl, ?_⟩
  have undone := failed_access_undone [.put (person "http://ex/ann")] true (.empty true) _
    (putAll [person "http://ex/bob", person "http://ex/eve"]) (s := locked) rfl rfl
  exact ⟨undone.2.1, undone.2.2.2.1, rfl⟩

end Access

end QuadStore
