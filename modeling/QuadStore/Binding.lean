import QuadStore.Term

namespace QuadStore

abbrev Binding := List (Text × Term)

namespace Binding

def get? (b : Binding) (name : Text) : Option Term := b.lookup name

def set : Binding → Text → Term → Binding
  | [], name, t => [(name, t)]
  | (n, u) :: rest, name, t => if n = name then (n, t) :: rest else (n, u) :: set rest name t

theorem get?_set (b : Binding) (name other : Text) (t : Term) :
    (b.set name t).get? other = if other = name then some t else b.get? other := by
  unfold get?
  induction b with
  | nil =>
    by_cases h : other = name
    · simp [set, h]
    · simp [set, List.lookup_cons, h, beq_eq_false_iff_ne.2 h]
  | cons e rest ih =>
    obtain ⟨n, u⟩ := e
    by_cases h : n = name
    · subst h
      by_cases ho : other = n
      · simp [set, ho]
      · simp [set, List.lookup_cons, ho, beq_eq_false_iff_ne.2 ho]
    · by_cases ho : other = n
      · subst ho
        simp [set, h]
      · simp [set, List.lookup_cons, h, beq_eq_false_iff_ne.2 ho, ih]

end Binding

end QuadStore
