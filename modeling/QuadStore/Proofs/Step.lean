import QuadStore.Store

namespace QuadStore.Step

variable {ε s α β : Type}

theorem bind_apply (x : ExceptT ε (StateM s) α) (f : α → ExceptT ε (StateM s) β) (state : s) :
    (x >>= f) state = match x state with
      | (.ok a, after) => f a after
      | (.error e, after) => (.error e, after) := by
  simp only [bind, ExceptT.bind, ExceptT.mk, StateT.bind, ExceptT.bindCont, Id]
  rcases x state with ⟨_ | a, after⟩ <;> rfl

theorem bind_eq_ok {x : ExceptT ε (StateM s) α} {f : α → ExceptT ε (StateM s) β} {state : s} {b : β}
    (h : ((x >>= f) state).1 = .ok b) : ∃ a after, x state = (.ok a, after) ∧ (f a after).1 = .ok b := by
  rw [bind_apply] at h
  rcases hx : x state with ⟨e | a, after⟩
  · rw [hx] at h
    cases h
  · rw [hx] at h
    exact ⟨a, after, rfl, h⟩

theorem pure_apply (a : α) (state : s) :
    (pure a : ExceptT ε (StateM s) α) state = (.ok a, state) := rfl

theorem get_apply (state : s) : (get : ExceptT ε (StateM s) s) state = (.ok state, state) := rfl

theorem map_apply (f : α → β) (x : ExceptT ε (StateM s) α) (state : s) :
    (f <$> x) state = ((x state).1.map f, (x state).2) := by
  simp only [Functor.map, ExceptT.map, ExceptT.mk, StateT.bind, Id, bind]
  rcases x state with ⟨_ | a, after⟩ <;> rfl

theorem adapt_apply {ε' : Type} (f : ε → ε') (x : ExceptT ε (StateM s) α) (state : s) :
    (x.adapt f) state = ((x state).1.mapError f, (x state).2) := by
  rfl

theorem tryCatch_apply (x : ExceptT ε (StateM s) α) (handler : ε → ExceptT ε (StateM s) α) (state : s) :
    tryCatch x handler state = match x state with
      | (.ok a, after) => (.ok a, after)
      | (.error e, after) => handler e after := by
  simp only [tryCatch, tryCatchThe, MonadExceptOf.tryCatch, ExceptT.tryCatch, ExceptT.mk, bind, StateT.bind, Id]
  rcases x state with ⟨_ | a, after⟩ <;> rfl

theorem map_eq_ok {e : Except ε α} {f : α → β} {b : β} (h : e.map f = .ok b) :
    ∃ a, e = .ok a ∧ f a = b := by
  cases e with
  | error e => cases h
  | ok a => exact ⟨a, rfl, Except.ok.inj h⟩

theorem map_eq_error {e : Except ε α} {f : α → β} {stop : ε} (h : e.map f = .error stop) : e = .error stop := by
  cases e with
  | error e => cases h; rfl
  | ok a => cases h

theorem mapError_eq_ok {ε' : Type} {e : Except ε α} {f : ε → ε'} {a : α} (h : e.mapError f = .ok a) :
    e = .ok a := by
  cases e with
  | error e => cases h
  | ok a' => exact congrArg Except.ok (Except.ok.inj h)

end QuadStore.Step

namespace QuadStore.Store

variable {σ : Type}

theorem requireOpen_apply (s : Store σ) :
    requireOpen s = (if s.isOpen then .ok () else .error .notOpen, s) := by
  obtain ⟨isOpen, backend⟩ := s
  cases isOpen <;> rfl

theorem searches_apply (p : Pattern) (s : Store σ) :
    searches p s = match p.searches? with
      | some found => (.ok found, s)
      | none => (.error .malformedRegex, s) := by
  unfold searches
  cases p.searches? <;> rfl

end QuadStore.Store
