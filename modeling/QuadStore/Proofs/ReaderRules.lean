import QuadStore.Sparql.Reader

namespace QuadStore.Sparql.Reader

structure Setting where
  scope : Scope → Prop
  cursor : Cursor → Prop

variable {α β : Type} {I : Setting} {P : α → Prop} {Q : β → Prop}

def Holds (I : Setting) (r : Reader α) (P : α → Prop) : Prop :=
  ∀ scope c a c', I.scope scope → I.cursor c → r scope c = .ok (a, c') → P a ∧ I.cursor c'

theorem holds_pure {a : α} (h : P a) : Holds I (pure a) P := by
  rintro scope c b c' - kept made
  cases made
  exact ⟨h, kept⟩

theorem holds_fail (fault : Fault) : Holds I (fail fault) P := by
  rintro scope c a c' - - made
  unfold fail at made
  split at made <;> cases made

theorem holds_failWith (e : ParseError) : Holds I (failWith e) P := by
  rintro scope c a c' - - made
  cases made

theorem Holds.weaken {P' : α → Prop} {r : Reader α} (h : Holds I r P) (weaker : ∀ a, P a → P' a) :
    Holds I r P' := fun scope c a c' inside kept made =>
  (h scope c a c' inside kept made).imp_left (weaker a)

theorem Holds.bind {r : Reader β} {f : β → Reader α} (hr : Holds I r Q) (hf : ∀ b, Q b → Holds I (f b) P) :
    Holds I (r >>= f) P := by
  intro scope c a c' inside kept made
  rw [bind_apply] at made
  cases hb : r scope c with
  | error e =>
    rw [hb] at made
    cases made
  | ok read =>
    rw [hb] at made
    obtain ⟨found, kept⟩ := hr scope c read.1 read.2 inside kept hb
    exact hf read.1 found scope read.2 a c' inside kept made

theorem holds_ite {condition : Prop} [Decidable condition] {r r' : Reader α} (h : Holds I r P) (h' : Holds I r' P) :
    Holds I (if condition then r else r') P := by
  split
  · exact h
  · exact h'

theorem holds_scope : Holds I scope I.scope := by
  rintro scope c s c' inside kept made
  cases made
  exact ⟨inside, kept⟩

theorem holds_cursor : Holds I cursor I.cursor := by
  rintro scope c s c' - kept made
  cases made
  exact ⟨kept, kept⟩

theorem holds_update {f : Cursor → Cursor} (h : ∀ c, I.cursor c → I.cursor (f c)) :
    Holds I (update f) fun _ => True := by
  rintro scope c s c' - kept made
  cases made
  exact ⟨trivial, h c kept⟩

def Keeps (I : α → Prop) : ForInStep α → Prop
  | .yield a | .done a => I a

theorem holds_loop {step : α → Reader (ForInStep α)} (keeps : ∀ a, P a → Holds I (step a) (Keeps P))
    {a : α} (start : P a) : Holds I (loop step a) P := by
  have repeats : ∀ fuel a, P a → Holds I (iterate step fuel a) P := by
    intro fuel
    induction fuel with
    -- a loop that runs out of fuel gives nothing
    | zero => exact fun a _ => holds_fail _
    | succ fuel ih =>
      intro a start
      refine (keeps a start).bind fun next kept => ?_
      cases next with
      | yield b => exact ih b kept
      | done b => exact holds_pure kept
  exact holds_cursor.bind fun c _ => repeats _ a start

end QuadStore.Sparql.Reader
