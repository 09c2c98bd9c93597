import QuadStore.Proofs.Step
import QuadStore.Sql.Table

namespace QuadStore.Sql

def Table.applyAll (t : Table) (commands : List Command) : Except Failure Table :=
  commands.foldlM (fun t c => (t.apply c).map (·.1)) t

namespace Connection

open QuadStore.Step

variable {δ α β : Type}

def AllWork (events : List Event) : Prop := ∀ e ∈ events, e.failure = none

theorem AllWork.nil : AllWork [] := by
  simp [AllWork]

theorem AllWork.single (phase : Phase) : AllWork [⟨phase, none⟩] := by
  simp [AllWork]

theorem AllWork.append {events more : List Event} (h : AllWork events) (h' : AllWork more) :
    AllWork (events ++ more) := by
  intro e mem
  rcases List.mem_append.1 mem with mem | mem
  · exact h e mem
  · exact h' e mem

structure Outcome (δ α : Type) where
  answer : Except Failure α
  versions : Versions δ
  faults : List (Option Fault)
  events : List Event

structure Yields (x : Call (Connection δ) α) (v : Versions δ) (faults : List (Option Fault))
    (o : Outcome δ α) : Prop where
  run : ∀ log, x ⟨v, faults, log⟩ = (o.answer, ⟨o.versions, o.faults, log ++ o.events⟩)
  left : o.faults <:+ faults

namespace Yields

variable {x : Call (Connection δ) α} {f : α → Call (Connection δ) β} {v after : Versions δ}
  {faults rest : List (Option Fault)} {events : List Event}

theorem pure (a : α) : Yields (Pure.pure a) v faults ⟨.ok a, v, faults, []⟩ := by
  refine ⟨fun log => ?_, List.suffix_rfl⟩
  rw [pure_apply, List.append_nil]

theorem bind_ok {a : α} {o : Outcome δ β} (first : Yields x v faults ⟨.ok a, after, rest, events⟩)
    (second : Yields (f a) after rest o) :
    Yields (x >>= f) v faults ⟨o.answer, o.versions, o.faults, events ++ o.events⟩ := by
  refine ⟨fun log => ?_, second.left.trans first.left⟩
  rw [bind_apply, first.run, ← List.append_assoc]
  exact second.run _

theorem bind_error {e : Failure} (first : Yields x v faults ⟨.error e, after, rest, events⟩) :
    Yields (x >>= f) v faults ⟨.error e, after, rest, events⟩ := by
  refine ⟨fun log => ?_, first.left⟩
  rw [bind_apply, first.run]

theorem tryCatch_ok {a : α} {handler : Failure → Call (Connection δ) α}
    (first : Yields x v faults ⟨.ok a, after, rest, events⟩) :
    Yields (tryCatch x handler) v faults ⟨.ok a, after, rest, events⟩ := by
  refine ⟨fun log => ?_, first.left⟩
  rw [tryCatch_apply, first.run]

theorem tryCatch_error {e : Failure} {handler : Failure → Call (Connection δ) α} {o : Outcome δ α}
    (first : Yields x v faults ⟨.error e, after, rest, events⟩)
    (second : Yields (handler e) after rest o) :
    Yields (tryCatch x handler) v faults ⟨o.answer, o.versions, o.faults, events ++ o.events⟩ := by
  refine ⟨fun log => ?_, second.left.trans first.left⟩
  rw [tryCatch_apply, first.run, ← List.append_assoc]
  exact second.run _

end Yields

/-- A step meets with a fault, after which the transaction is still open or is undone, or it does
what it is for, which may be to fail. -/
theorem step_yields (phase : Phase) (f : Versions δ → Except Failure (α × Versions δ))
    (v : Versions δ) (faults : List (Option Fault)) :
    (∃ a after, f v = .ok (a, after) ∧
      Yields (step phase f) v faults ⟨.ok a, after, faults.tail, [⟨phase, none⟩]⟩) ∨
    ∃ e after, (after = v ∨ after = v.undone) ∧
      Yields (step phase f) v faults ⟨.error e, after, faults.tail, [⟨phase, some e⟩]⟩ := by
  have left := List.tail_suffix faults
  cases met : faults.head?.join with
  | some fault =>
    refine .inr ⟨fault.failure, if fault.undoes then v.undone else v, ?_, fun log => ?_, left⟩
    · split
      · exact .inr rfl
      · exact .inl rfl
    · simp only [step, met]
  | none =>
    cases result : f v with
    | ok r => exact .inl ⟨r.1, r.2, rfl, fun log => by simp only [step, met, result], left⟩
    | error e => exact .inr ⟨e, v, .inl rfl, fun log => by simp only [step, met, result], left⟩

theorem statement_yields (f : δ → Except Failure (α × δ)) (v : Versions δ)
    (faults : List (Option Fault)) :
    (∃ a data, f v.data = .ok (a, data) ∧ Yields (statement f) v faults
      ⟨.ok a, ⟨data, v.saved⟩, faults.tail, [⟨.statement, none⟩]⟩) ∨
    ∃ e after, (after = v ∨ after = v.undone) ∧
      Yields (statement f) v faults ⟨.error e, after, faults.tail, [⟨.statement, some e⟩]⟩ := by
  rcases step_yields .statement (fun v => (f v.data).map fun r => (r.1, { v with data := r.2 })) v faults
    with ⟨a, after, works, run⟩ | failed
  · obtain ⟨⟨a, data⟩, result, same⟩ := map_eq_ok works
    cases same
    exact .inl ⟨_, _, result, run⟩
  · exact .inr failed

/-- A failure inside a transaction, which goes on unless the engine has undone it. -/
inductive Fails (before : δ) (e : Failure) : Outcome δ α → Prop
  | stays {data faults phase} {done : List Event} (all : AllWork done) :
      Fails before e ⟨.error e, ⟨data, some before⟩, faults, done ++ [⟨phase, some e⟩]⟩
  | undone {faults phase} {done : List Event} (all : AllWork done) :
      Fails before e ⟨.error e, ⟨before, none⟩, faults, done ++ [⟨phase, some e⟩]⟩

theorem Fails.prepend {before : δ} {e : Failure} {o : Outcome δ α} {done : List Event}
    (h : Fails before e o) (all : AllWork done) :
    Fails before e (⟨o.answer, o.versions, o.faults, done ++ o.events⟩ : Outcome δ α) := by
  cases h with
  | stays more =>
    dsimp only
    rw [← List.append_assoc]
    exact .stays (all.append more)
  | undone more =>
    dsimp only
    rw [← List.append_assoc]
    exact .undone (all.append more)

inductive Inside (before : δ) : Outcome δ α → Prop
  | works {a data faults events} (all : AllWork events) :
      Inside before ⟨.ok a, ⟨data, some before⟩, faults, events⟩
  | fails {e o} (failed : Fails before e o) : Inside before o

def Proceeds (x : Call (Connection δ) α) : Prop :=
  ∀ before data faults, ∃ o, Yields x ⟨data, some before⟩ faults o ∧ Inside before o

namespace Proceeds

variable {x : Call (Connection δ) α} {f : α → Call (Connection δ) β}

theorem pure (a : α) : Proceeds (Pure.pure a : Call (Connection δ) α) := by
  intro before data faults
  exact ⟨_, .pure a, .works .nil⟩

theorem bind (hx : Proceeds x) (hf : ∀ a, Proceeds (f a)) : Proceeds (x >>= f) := by
  intro before data faults
  obtain ⟨o, first, inside⟩ := hx before data faults
  cases inside with
  | works all =>
    rename_i a next rest events
    obtain ⟨o, second, inside⟩ := hf a before next rest
    refine ⟨_, first.bind_ok second, ?_⟩
    cases inside with
    | works more => exact .works (all.append more)
    | fails failed => exact .fails (failed.prepend all)
  | fails failed =>
    cases failed with
    | stays all => exact ⟨_, first.bind_error, .fails (.stays all)⟩
    | undone all => exact ⟨_, first.bind_error, .fails (.undone all)⟩

theorem discard (hx : Proceeds x) : Proceeds (discard x) := by
  have bound : (Functor.discard x : Call (Connection δ) PUnit) = x >>= fun _ => Pure.pure ⟨⟩ := by
    show Function.const α PUnit.unit <$> x = _
    rw [map_eq_pure_bind]
  rw [bound]
  exact hx.bind fun _ => .pure _

theorem forM {xs : List β} {g : β → Call (Connection δ) PUnit} (h : ∀ b, Proceeds (g b)) :
    Proceeds (xs.forM g) := by
  induction xs with
  | nil => exact .pure _
  | cons b xs ih => exact (h b).bind fun _ => ih

end Proceeds

theorem statement_proceeds (f : δ → Except Failure (α × δ)) : Proceeds (statement f) := by
  intro before data faults
  rcases statement_yields f ⟨data, some before⟩ faults with
    ⟨a, after, _, run⟩ | ⟨e, after, rfl | rfl, run⟩
  · exact ⟨_, run, .works (.single _)⟩
  · exact ⟨_, run, .fails (.stays .nil)⟩
  · exact ⟨_, run, .fails (.undone .nil)⟩

/-- What a call without an open transaction may come to. It has worked, or nothing has changed; what
comes after the failure is at most a rollback. -/
inductive Settled (before : δ) : Outcome δ α → Prop
  | works {a data faults events} (all : AllWork events) :
      Settled before ⟨.ok a, ⟨data, none⟩, faults, events⟩
  | fails {e faults phase} {done undo : List Event} (all : AllWork done)
      (after : ∀ u ∈ undo, u = ⟨.rollback, none⟩) :
      Settled before ⟨.error e, ⟨before, none⟩, faults, done ++ ⟨phase, some e⟩ :: undo⟩

theorem Settled.of_events {before : δ} {e : Failure} {faults : List (Option Fault)}
    {done events : List Event} (phase : Phase) (undo : List Event) (all : AllWork done)
    (after : ∀ u ∈ undo, u = ⟨.rollback, none⟩) (h : events = done ++ ⟨phase, some e⟩ :: undo) :
    Settled before (⟨.error e, ⟨before, none⟩, faults, events⟩ : Outcome δ α) := by
  rw [h]
  exact .fails all after

def Settles (x : Call (Connection δ) α) : Prop :=
  ∀ data faults, ∃ o, Yields x ⟨data, none⟩ faults o ∧ Settled data o

theorem statement_settled (f : δ → Except Failure (α × δ)) (data : δ) (faults : List (Option Fault)) :
    ∃ o, Yields (statement f) ⟨data, none⟩ faults o ∧ Settled data o ∧
      ∀ a, o.answer = .ok a → f data = .ok (a, o.versions.data) := by
  rcases statement_yields f ⟨data, none⟩ faults with
    ⟨a, after, works, run⟩ | ⟨e, after, rfl | rfl, run⟩
  · refine ⟨_, run, .works (.single _), ?_⟩
    rintro _ ⟨⟩
    exact works
  · exact ⟨_, run, .fails .nil (by simp), fun _ => nofun⟩
  · exact ⟨_, run, .fails .nil (by simp), fun _ => nofun⟩

theorem statement_settles (f : δ → Except Failure (α × δ)) : Settles (statement f) := by
  intro data faults
  obtain ⟨o, run, settled, _⟩ := statement_settled f data faults
  exact ⟨o, run, settled⟩

theorem commit_yields (check : δ → Except Failure Unit) (before data : δ)
    (faults : List (Option Fault)) :
    Yields (commit check) ⟨data, some before⟩ faults
      ⟨.ok (), ⟨data, none⟩, faults.tail, [⟨.commit, none⟩]⟩ ∨
    ∃ e o, Yields (commit check) ⟨data, some before⟩ faults o ∧ Fails before e o := by
  rcases step_yields .commit (fun v =>
      if v.saved.isNone then .error (.engine 1 "cannot commit - no transaction is active")
      else (check v.data).map fun _ => ((), { v with saved := none }))
    ⟨data, some before⟩ faults with ⟨a, after, works, run⟩ | ⟨e, after, rfl | rfl, run⟩
  · rw [Option.isNone_some, if_neg Bool.false_ne_true] at works
    obtain ⟨_, _, same⟩ := map_eq_ok works
    cases same
    exact .inl run
  · exact .inr ⟨e, _, run, .stays .nil⟩
  · exact .inr ⟨e, _, run, .undone .nil⟩

theorem closing_yields (check : δ → Except Failure Unit) {x : Call (Connection δ) Unit}
    (h : Proceeds x) (before data : δ) (faults : List (Option Fault)) :
    (∃ after rest events, AllWork events ∧ Yields (do x; commit check) ⟨data, some before⟩ faults
      ⟨.ok (), ⟨after, none⟩, rest, events⟩) ∨
    ∃ e o, Yields (do x; commit check) ⟨data, some before⟩ faults o ∧ Fails before e o := by
  obtain ⟨o, first, inside⟩ := h before data faults
  cases inside with
  | works all =>
    rename_i a after rest events
    -- COMMIT may still fail, and is then no different from a statement that fails
    rcases commit_yields check before after rest with second | ⟨e, o, second, failed⟩
    · have whole := first.bind_ok (f := fun _ => commit check) second
      exact .inl ⟨_, _, _, all.append (.single .commit), whole⟩
    · exact .inr ⟨e, _, first.bind_ok second, failed.prepend all⟩
  | fails failed =>
    cases failed with
    | stays all => exact .inr ⟨_, _, first.bind_error, .stays all⟩
    | undone all => exact .inr ⟨_, _, first.bind_error, .undone all⟩

theorem rollback_yields (e : Failure) (before data : δ) (faults : List (Option Fault)) :
    Yields (do rollback; throw e : Call (Connection δ) α) ⟨data, some before⟩ faults
      ⟨.error e, ⟨before, none⟩, faults, [⟨.rollback, none⟩]⟩ :=
  ⟨fun _ => rfl, List.suffix_rfl⟩

theorem rollback_idle (e : Failure) (before : δ) (faults : List (Option Fault)) :
    Yields (do rollback; throw e : Call (Connection δ) α) ⟨before, none⟩ faults
      ⟨.error e, ⟨before, none⟩, faults, []⟩ := by
  refine ⟨fun log => ?_, List.suffix_rfl⟩
  rw [List.append_nil]
  rfl

/-- Statements as one transaction have all worked, or none of them has. -/
theorem inTransaction_settles (check : δ → Except Failure Unit) {x : Call (Connection δ) Unit}
    (h : Proceeds x) : Settles (inTransaction check x) := by
  intro before faults
  rcases step_yields .begin (fun v : Versions δ =>
      if v.saved.isSome then .error (.engine 1 "cannot start a transaction within a transaction")
      else .ok ((), { v with saved := some v.data }))
    ⟨before, none⟩ faults with ⟨a, opened, works, first⟩ | ⟨e, after, rfl | rfl, first⟩
  · cases works
    rcases closing_yields check h before before faults.tail with
      ⟨after, rest, events, all, body⟩ | ⟨e, o, body, failed⟩
    · exact ⟨_, first.bind_ok body.tryCatch_ok, .works ((AllWork.single .begin).append all)⟩
    · cases failed with
      | stays all =>
        rename_i phase done
        refine ⟨_, first.bind_ok (body.tryCatch_error (rollback_yields e before _ _)), ?_⟩
        exact .of_events phase [⟨.rollback, none⟩] ((AllWork.single .begin).append all) (by simp) (by simp)
      | undone all =>
        rename_i phase done
        refine ⟨_, first.bind_ok (body.tryCatch_error (rollback_idle e before _)), ?_⟩
        exact .of_events phase [] ((AllWork.single .begin).append all) (by simp) (by simp)
  · exact ⟨_, first.bind_error, .fails .nil (by simp)⟩
  · exact ⟨_, first.bind_error, .fails .nil (by simp)⟩

theorem transact_settles (commands : List Command) : Settles (transact commands) :=
  inTransaction_settles _ (.forM fun _ => .discard (statement_proceeds _))

theorem statement_undisturbed (f : δ → Except Failure (α × δ)) (data : δ) (saved : Option δ) (log : List Event) :
    statement f ⟨⟨data, saved⟩, [], log⟩ = match f data with
      | .ok (a, after) => (.ok a, ⟨⟨after, saved⟩, [], log ++ [⟨.statement, none⟩]⟩)
      | .error e => (.error e, ⟨⟨data, saved⟩, [], log ++ [⟨.statement, some e⟩]⟩) := by
  unfold statement step
  cases h : f data <;> simp [h, Except.map]

theorem plainly_statement (f : δ → Except Failure (α × δ)) (data : δ) :
    plainly (statement f) data = match f data with
      | .ok (a, after) => (.ok a, after)
      | .error e => (.error e, data) := by
  unfold plainly «on»
  rw [statement_undisturbed]
  cases f data <;> rfl

/-- In a transaction that nothing disturbs, a call works on the data as a function does, and fails as it
fails. -/
def Performs (x : Call (Connection δ) Unit) (g : δ → Except Failure δ) : Prop :=
  ∀ data before log, ∃ last events,
    x ⟨⟨data, some before⟩, [], log⟩ = ((g data).map fun _ => (), ⟨⟨last, some before⟩, [], events⟩) ∧
    ∀ after, g data = .ok after → last = after

namespace Performs

theorem statement (f : δ → Except Failure (α × δ)) :
    Performs (discard (Connection.statement f)) fun d => (f d).map (·.2) := by
  intro data before log
  have run : discard (Connection.statement f) = (Function.const α PUnit.unit <$> Connection.statement f) := rfl
  rw [run, map_apply, statement_undisturbed]
  dsimp only
  cases f data with
  | error e => exact ⟨data, _, rfl, fun after same => by cases same⟩
  | ok r => exact ⟨r.2, _, rfl, fun after same => Except.ok.inj same⟩

theorem effect (f : δ → Except Failure (Unit × δ)) : Performs (Connection.statement f) fun d => (f d).map (·.2) := by
  intro data before log
  rw [statement_undisturbed]
  dsimp only
  cases f data with
  | error e => exact ⟨data, _, rfl, fun after same => by cases same⟩
  | ok r => exact ⟨r.2, _, rfl, fun after same => Except.ok.inj same⟩

theorem bind {x y : Call (Connection δ) Unit} {g h : δ → Except Failure δ} (hx : Performs x g) (hy : Performs y h) :
    Performs (do x; y) fun d => g d >>= h := by
  intro data before log
  obtain ⟨middle, events, first, worked⟩ := hx data before log
  rw [bind_apply, first]
  dsimp only
  cases done : g data with
  | error e => exact ⟨middle, events, rfl, fun after same => by cases same⟩
  | ok d =>
    obtain rfl := worked d done
    exact hy middle before events

theorem forM {step : β → Call (Connection δ) Unit} {g : β → δ → Except Failure δ}
    (each : ∀ b, Performs (step b) (g b)) (xs : List β) : Performs (xs.forM step) (xs.foldlM fun d b => g b d) := by
  induction xs with
  | nil => exact fun data before log => ⟨data, log, rfl, fun after same => Except.ok.inj same⟩
  | cons b xs ih =>
    simp only [List.foldlM_cons]
    exact (each b).bind ih

end Performs

/-- A transaction that nothing disturbs works as its statements in turn do, on data that pass the check at the
end; or it fails as they do or as the check does, and the data are what they were. -/
theorem plainly_inTransaction {x : Call (Connection δ) Unit} {g : δ → Except Failure δ} (h : Performs x g)
    (check : δ → Except Failure Unit) (data : δ) :
    plainly (inTransaction check x) data =
      match g data >>= fun after => (check after).map fun _ => after with
      | .ok after => (.ok (), after)
      | .error e => (.error e, data) := by
  obtain ⟨last, events, run, worked⟩ := h data data [⟨.begin, none⟩]
  have opened : start (Connection.on data) = (.ok (), ⟨⟨data, some data⟩, [], [⟨.begin, none⟩]⟩) := rfl
  unfold plainly inTransaction
  rw [bind_apply, opened]
  dsimp only
  rw [tryCatch_apply, bind_apply, run]
  cases done : g data with
  | error e => rfl
  | ok after =>
    obtain rfl := worked after done
    have closing : commit check ⟨⟨last, some data⟩, [], events⟩ = match check last with
        | .ok _ => (.ok (), ⟨⟨last, none⟩, [], events ++ [⟨.commit, none⟩]⟩)
        | .error e => (.error e, ⟨⟨last, some data⟩, [], events ++ [⟨.commit, some e⟩]⟩) := by
      unfold commit step
      cases h : check last <;> simp [h, Except.map]
    have whole : (Except.ok last >>= fun after => (check after).map fun _ => after) = (check last).map fun _ => last := rfl
    rw [whole]
    dsimp only [Except.map]
    rw [closing]
    cases check last <;> rfl

theorem plainly_execute (c : Command) (t : Table) :
    plainly (execute c) t = match t.apply c with
      | .ok (after, n) => (.ok n, after)
      | .error e => (.error e, t) := by
  unfold execute
  rw [plainly_statement]
  cases t.apply c <;> rfl

theorem plainly_transact (commands : List Command) (t : Table) :
    plainly (transact commands) t = match t.applyAll commands with
      | .ok after => (.ok (), after)
      | .error e => (.error e, t) := by
  have each : ∀ c : Command, Performs (discard (execute c)) fun t => (t.apply c).map (·.1) := by
    intro c
    have effect : (fun t : Table => (t.apply c).map (·.1)) =
        fun t => ((t.apply c).map Prod.swap).map (·.2) := by
      funext t
      cases t.apply c <;> rfl
    rw [effect]
    exact .statement _
  have run := plainly_inTransaction (.forM each commands) (fun _ => .ok ()) t
  have inTurn : commands.foldlM (fun t c => (t.apply c).map (·.1)) t = t.applyAll commands := rfl
  rw [inTurn] at run
  rw [transact, run]
  cases t.applyAll commands <;> rfl

end Connection

end QuadStore.Sql
