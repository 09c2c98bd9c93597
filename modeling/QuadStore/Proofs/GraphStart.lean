import QuadStore.Proofs.Prefix
import QuadStore.Proofs.Selection

namespace QuadStore

open Sql

namespace Pattern

def graphStart (start : Text) : Pattern := { graph := some (.operators { startsWith := some start }) }

theorem graphStart_admits (start : Text) (r : Row) :
    (graphStart start).admits r = (Condition.startingWith start).holds r.graph := by
  simp [graphStart, admits, Position.keyOrder, get, Match.admits, Match.conditions, Operators.conditions,
    Match.regex?, Row.get]

theorem graphStart_searches (start : Text) : (graphStart start).searches? = some [] := rfl

end Pattern

namespace Store

theorem getByGraphStart_open (start : Text) (t : Table) :
    getByGraphStart start {} ⟨true, t⟩ =
      (.ok ((t.rows.filter fun r => (Condition.startingWith start).holds r.graph).map Quint.ofRow),
        ⟨true, t⟩) := by
  have rows : t.rows.filter (Pattern.graphStart start).admits =
      t.rows.filter fun r => (Condition.startingWith start).holds r.graph :=
    List.filter_congr fun r _ => Pattern.graphStart_admits start r
  change Store.get (Pattern.graphStart start) {} ⟨true, t⟩ = _
  rw [get_open, fetched_all (Pattern.graphStart_searches start), rows]
  rfl

/-- Whether a graph text starts with a text that a character from U+FFFF on follows. -/
def Hidden (start graph : Text) : Prop := start <+: graph ∧ Utf8.BeginsHigh (graph.drop start.length)

theorem startingWith_holds_iff (g : String) (start : Text) :
    (Condition.startingWith start).holds (Text.ofString g) = true ↔
      start <+: Text.ofString g ∧ ¬ Hidden start (Text.ofString g) := by
  rw [Condition.startingWith_holds]
  constructor
  · rintro ⟨rest, eq, lt⟩
    refine ⟨⟨rest, eq.symm⟩, ?_⟩
    rintro ⟨-, high⟩
    rw [eq, List.drop_left] at high
    exact (Utf8.lt_maxChar_iff g start rest eq).1 lt high
  · rintro ⟨⟨rest, eq⟩, visible⟩
    refine ⟨rest, eq.symm, (Utf8.lt_maxChar_iff g start rest eq.symm).2 fun high => ?_⟩
    refine visible ⟨⟨rest, eq⟩, ?_⟩
    rw [← eq, List.drop_left]
    exact high

theorem agree_of_filter_length {α : Type} {p q : α → Bool} {xs : List α}
    (sub : ∀ x ∈ xs, p x = true → q x = true) (same : (xs.filter p).length = (xs.filter q).length) :
    ∀ x ∈ xs, q x = true → p x = true := by
  have inner : (xs.filter q).filter p = xs.filter p := by
    rw [List.filter_filter]
    apply List.filter_congr
    intro x mem
    cases hp : p x with
    | false => rfl
    | true => simp [sub x mem hp]
  have whole : (xs.filter q).filter p = xs.filter q :=
    List.Sublist.eq_of_length (List.filter_sublist) (by rw [inner, same])
  intro x mem hq
  exact List.filter_eq_self.1 whole x (List.mem_filter.2 ⟨mem, hq⟩)

open Classical in
theorem getByGraphStart_complete_iff (t : Table) (start : Text)
    (valid : ∀ r ∈ t.rows, ∃ g : String, r.graph = Text.ofString g) :
    getByGraphStart start {} ⟨true, t⟩ =
      (.ok ((t.rows.filter fun r => start <+: r.graph ∧ ¬ Hidden start r.graph).map Quint.ofRow),
        ⟨true, t⟩) ∧
    (getByGraphStart start {} ⟨true, t⟩ =
        (.ok ((t.rows.filter fun r => start <+: r.graph).map Quint.ofRow), ⟨true, t⟩) ↔
      ∀ r ∈ t.rows, ¬ Hidden start r.graph) := by
  have taken : (t.rows.filter fun r => (Condition.startingWith start).holds r.graph) =
      t.rows.filter fun r => start <+: r.graph ∧ ¬ Hidden start r.graph := by
    apply List.filter_congr
    intro r mem
    obtain ⟨g, hg⟩ := valid r mem
    rw [Bool.eq_iff_iff, decide_eq_true_iff, hg]
    exact startingWith_holds_iff g start
  have answer := getByGraphStart_open start t
  rw [taken] at answer
  refine ⟨answer, ?_⟩
  rw [answer]
  constructor
  · intro same
    have lists := Except.ok.inj (congrArg Prod.fst same)
    have lengths := congrArg List.length lists
    rw [List.length_map, List.length_map] at lengths
    have agree := agree_of_filter_length (fun r _ h => decide_eq_true (of_decide_eq_true h).1) lengths
    intro r mem hidden
    exact (of_decide_eq_true (agree r mem (decide_eq_true hidden.1))).2 hidden
  · intro visible
    have same : (t.rows.filter fun r => start <+: r.graph ∧ ¬ Hidden start r.graph) =
        t.rows.filter fun r => start <+: r.graph := by
      apply List.filter_congr
      intro r mem
      simp [visible r mem]
    rw [same]

/-- A statement whose graph goes on with an accent, and one whose graph goes on above U+FFFF. -/
def startTable : Table :=
  { Table.empty true with
    rows := [⟨"ns:a/é", "http://ex/s", "http://ex/p", "http://ex/o", none⟩,
      ⟨"ns:a/😀", "http://ex/s", "http://ex/p", "http://ex/o", none⟩] }

theorem startTable_valid : ∀ r ∈ startTable.rows, ∃ g : String, r.graph = Text.ofString g := by
  intro r mem
  rcases List.mem_cons.1 mem with rfl | mem
  · exact ⟨"ns:a/é", rfl⟩
  · cases List.mem_singleton.1 mem
    exact ⟨"ns:a/😀", rfl⟩

theorem startTable_incomplete :
    (∀ r ∈ startTable.rows, ∃ g : String, r.graph = Text.ofString g) ∧
    getByGraphStart "ns:a/" {} ⟨true, startTable⟩ ≠
      (.ok ((startTable.rows.filter fun r => ("ns:a/" : Text) <+: r.graph).map Quint.ofRow),
        ⟨true, startTable⟩) := by
  refine ⟨startTable_valid, fun whole => ?_⟩
  have visible := (getByGraphStart_complete_iff startTable "ns:a/" startTable_valid).2.1 whole
  have hidden : Hidden "ns:a/" ("ns:a/😀" : Text) := ⟨by decide, '😀', [], by decide, by decide⟩
  exact visible _ (List.mem_cons_of_mem _ (List.mem_singleton.2 rfl)) hidden

theorem getByGraphStart_misses_astral :
    getByGraphStart "ns:a/" {} ⟨true, startTable⟩ =
      (.ok [⟨⟨.iri "http://ex/s", .iri "http://ex/p", .iri "http://ex/o", .iri "ns:a/é"⟩, none⟩],
        ⟨true, startTable⟩) ∧
    ∃ r ∈ startTable.rows, ("ns:a/" : Text) <+: r.graph ∧ r.graph = Text.ofString "ns:a/😀" := by
  refine ⟨?_, _, List.mem_cons_of_mem _ (List.mem_singleton.2 rfl), by decide, rfl⟩
  rw [getByGraphStart_open]
  rfl

end Store

end QuadStore
