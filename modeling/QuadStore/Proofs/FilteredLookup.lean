import QuadStore.Proofs.Narrowing
import QuadStore.Proofs.OperatorTests

namespace QuadStore

open Sql Sparql

namespace Quad

/-- A test of the security pattern on a position of a triple, in the place of which a filter has put
another. -/
def Replaced (q : Quad) (security : Option Pattern) (filters : Filters) (a : Position) (t : Test) (v : Operand) :
    Prop :=
  ∃ o name pushed w, security.bind (·.get a) = some (.operators o) ∧
    q.get a = .var name ∧ filters.lookup name = some pushed ∧
    o.operand? t = some v ∧ pushed.operand? t = some w ∧ w ≠ v

theorem fixed?_var {q : Quad} {a : Position} {name : Text} (var : q.get a = .var name) : q.fixed? a = none := by
  simp [fixed?, var, Term.isVar]

variable {q : Quad} {guard : Pattern} {filters : Filters}

theorem get_guarded (q : Quad) (guard : Pattern) (a : Position) :
    (q.lookup (some guard)).get a = (q.fixed? a).or (guard.get a) := by
  rw [lookup, Pattern.get_fill, Part.get_constants]

/-- What a filter leaves of a position: it stays as it is, takes the operators of the filter, or adds
them to those of the security pattern. -/
theorem get_filtered_cases (q : Quad) (guard : Pattern) (filters : Filters) (a : Position) {m : Match}
    (asked : (q.lookup (some guard)).get a = some m) :
    (q.filteredLookup (some guard) filters).get a = some m ∨
    ∃ o name pushed, m = .operators o ∧ guard.get a = some (.operators o) ∧ q.get a = .var name ∧
      filters.lookup name = some pushed ∧
      (q.filteredLookup (some guard) filters).get a = some (.operators (o.merge pushed)) := by
  have filtered := Part.get_filteredLookup { triple := q, filters } guard a
  dsimp only at filtered
  rw [filtered]
  rw [get_guarded] at asked
  unfold Part.asked Part.pushed?
  dsimp only
  cases at_ : q.get a with
  | var name =>
    dsimp only
    cases pushed : filters.lookup name with
    | none => exact .inl asked
    | some added =>
      dsimp only
      rw [asked]
      cases m with
      | term t => exact .inl rfl
      | operators o =>
        rw [fixed?_var at_, Option.none_or] at asked
        exact .inr ⟨o, name, added, rfl, asked, rfl, pushed, rfl⟩
  | _ => exact .inl asked

theorem filteredLookup_guarded {r : Row} (taken : (q.filteredLookup (some guard) filters).admits r = true) :
    (q.lookup (some guard)).admits r = true ↔
      ∀ a t v, q.Replaced (some guard) filters a t v → t.passes v a (r.get a) = true := by
  rw [Pattern.admits_iff] at taken ⊢
  constructor
  · rintro all a t v ⟨o, name, pushed, w, guarded, at_, -, asked, -⟩
    have position : (q.lookup (some guard)).get a = some (.operators o) := by
      rw [get_guarded, fixed?_var at_, Option.none_or]
      exact guarded
    exact Match.admits_operators.1 (all a _ position) t v asked
  · intro passed a m asked
    rcases q.get_filtered_cases guard filters a asked with same | ⟨o, name, pushed, rfl, guarded, at_, added, merged⟩
    · exact taken a m same
    · rw [Match.admits_of_merge (taken a _ merged)]
      intro t v w there instead other
      exact passed a t v ⟨o, name, pushed, w, guarded, at_, added, there, instead, other⟩

/-- Of the rows that a filtered lookup takes, the lookup without filters takes those that pass the tests
that were replaced. -/
theorem filteredLookup_narrows (q : Quad) (security : Option Pattern) (filters : Filters) (r : Row)
    (taken : (q.filteredLookup security filters).admits r = true) :
    (q.lookup security).admits r = true ↔
      ∀ a t v, q.Replaced security filters a t v → t.passes v a (r.get a) = true := by
  cases security with
  | some guard => exact filteredLookup_guarded taken
  | none =>
    rw [filteredLookup_none] at taken
    rw [lookup_none, filteredLookup_guarded taken]
    constructor
    · rintro - a t v ⟨_, _, _, _, guarded, -⟩
      cases guarded
    · rintro - a t v ⟨_, _, _, _, guarded, -⟩
      cases a <;> cases guarded

def inNamed : Quad :=
  { subject := .var "s", predicate := .iri "http://ex/p", object := .var "o", graph := .var "g" }

def tenant : Pattern := { graph := some (.operators { startsWith := some "http://ex/alice/" }) }

def ownRow : Row := ⟨"http://ex/alice/g", "http://ex/s", "http://ex/p", "http://ex/o", none⟩

def otherRow : Row := ⟨"http://ex/bob/g", "http://ex/s", "http://ex/p", "http://ex/o", none⟩

def graphIsIri : Filters := (Pushdown.ofFilter inNamed (.builtin .isIri [.term (.var "g")])).filters

theorem filteredLookup_narrows_own :
    (inNamed.filteredLookup (some tenant) graphIsIri).admits ownRow = true ∧
    (inNamed.lookup (some tenant)).admits ownRow = true := by
  have taken : (inNamed.filteredLookup (some tenant) graphIsIri).admits ownRow = true := by decide +kernel
  refine ⟨taken, (filteredLookup_narrows inNamed (some tenant) graphIsIri ownRow taken).2 ?_⟩
  rintro a t v ⟨o, name, pushed, w, guarded, -, -, asked, -⟩
  cases a with
  | subject | predicate | object => cases guarded
  | graph =>
    cases guarded
    cases t <;> cases asked
    decide +kernel

theorem filteredLookup_widens :
    graphIsIri = [(("g" : Text), { startsWith := some "http" })] ∧
    (inNamed.filteredLookup (some tenant) graphIsIri).admits otherRow = true ∧
    (inNamed.lookup (some tenant)).admits otherRow = false := by
  decide +kernel

end Quad

end QuadStore
