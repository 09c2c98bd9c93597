import QuadStore.Proofs.EngineLimits
import QuadStore.Proofs.LookupRows
import QuadStore.Proofs.PlanShapes
import QuadStore.Proofs.Provenance

namespace QuadStore

open Sql Sparql

namespace Sql.Table

def Joined.rows (j : Joined) : List Row := j.first :: j.more

def agreeing (on : Position) : List Row → Bool
  | [] => true
  | first :: more => more.all (Joined.agrees on ⟨first, []⟩)

theorem agreeing_append (on : Position) {rows : List Row} (some_ : rows ≠ []) (r : Row) :
    agreeing on (rows ++ [r]) = (agreeing on rows && agreeing on (rows.take 1 ++ [r])) := by
  cases rows with
  | nil => exact absurd rfl some_
  | cons first more => simp [agreeing]

variable {t : Table} {on : Position}

theorem rows_extended (partials : List Joined) (clauses : List Clause) :
    (t.extended on partials clauses).map Joined.rows =
      (partials.map Joined.rows).flatMap fun rows =>
        ((t.selected clauses).filter fun r => agreeing on (rows.take 1 ++ [r])).map fun r => rows ++ [r] := by
  unfold extended
  rw [List.map_flatMap, List.flatMap_map]
  apply List.flatMap_congr
  intro j _
  have same : j.agrees on = fun r => agreeing on (j.rows.take 1 ++ [r]) := by
    funext r
    simp [agreeing, Joined.rows, Joined.agrees]
  rw [List.map_map, same]
  rfl

theorem filter_extended {rows : List (List Row)} (some_ : ∀ row ∈ rows, row ≠ []) (selected : List Row) :
    ((rows.filter (agreeing on)).flatMap fun row =>
        (selected.filter fun r => agreeing on (row.take 1 ++ [r])).map fun r => row ++ [r]) =
      rows.flatMap fun row => (selected.map fun r => row ++ [r]).filter (agreeing on) := by
  induction rows with
  | nil => rfl
  | cons row rows ih =>
    have rest := ih fun row mem => some_ row (List.mem_cons_of_mem _ mem)
    have added : ∀ r, agreeing on (row ++ [r]) = (agreeing on row && agreeing on (row.take 1 ++ [r])) :=
      agreeing_append on (some_ row List.mem_cons_self)
    rw [List.flatMap_cons, ← rest, List.filter_cons, List.filter_map]
    cases h : agreeing on row with
    | true => simp [Function.comp_def, added, h]
    | false => simp [Function.comp_def, added, h]

theorem ne_nil_of_mem_choices {α : Type} {xss : List (List α)} (some_ : xss ≠ []) {row : List α}
    (mem : row ∈ choices xss) : row ≠ [] := by
  rintro rfl
  have length := (mem_choices.1 mem).length_eq
  exact some_ (List.length_eq_zero_iff.1 length.symm)

theorem rows_foldl_extended {rest : List (List Clause)} {partials : List Joined} {done : List (List Row)}
    (some_ : done ≠ []) (h : partials.map Joined.rows = (choices done).filter (agreeing on)) :
    (rest.foldl (t.extended on) partials).map Joined.rows =
      (choices (done ++ rest.map t.selected)).filter (agreeing on) := by
  -- on the patterns that are left, with the choices for those before them
  induction rest generalizing partials done with
  | nil =>
    rw [List.map_nil, List.append_nil]
    exact h
  | cons clauses rest ih =>
    have next : (t.extended on partials clauses).map Joined.rows =
        (choices (done ++ [t.selected clauses])).filter (agreeing on) := by
      rw [rows_extended, h, choices_append, List.filter_flatMap]
      exact filter_extended (fun row => ne_nil_of_mem_choices some_) _
    have whole := ih (by simp) next
    rw [List.append_assoc] at whole
    exact whole

/-- A join has a row for each choice of selected rows that agree. -/
theorem rows_joined (first : List Clause) (rest : List (List Clause)) :
    (t.joined on (first :: rest)).map Joined.rows =
      (choices ((first :: rest).map t.selected)).filter (agreeing on) := by
  rw [joined_cons]
  have start : ((t.selected first).map fun r => (⟨r, []⟩ : Joined)).map Joined.rows =
      (choices [t.selected first]).filter (agreeing on) := by
    rw [List.map_map, choices, choices, List.filter_flatMap, List.map_eq_flatMap]
    apply List.flatMap_congr
    intro r _
    rfl
  exact rows_foldl_extended (List.cons_ne_nil _ _) start

end Sql.Table

namespace GroupPlan

theorem find?_named (q : Quad) (i : Nat) (name : Text) (positions : List Position) :
    (positions.flatMap fun p => (nameOf (q.get p)).map fun n => (⟨i, p, n⟩ : Selection)).find?
        (fun s => s.name = name) =
      (positions.find? fun p => q.get p = .var name).map fun p => ⟨i, p, name⟩ := by
  induction positions with
  | nil => rfl
  | cons p positions ih =>
    rw [List.flatMap_cons, List.find?_append, ih, List.find?_cons]
    cases ht : q.get p with
    | var n =>
      by_cases same : n = name
      · simp [nameOf, same]
      · simp [nameOf, same]
    | _ => simp [nameOf]

theorem value?_eq_find? (q k : Quad) (name : Text) :
    q.value? k name = (Position.all.find? fun p => q.get p = .var name).map k.get :=
  findSome?_ite _ _ _

def placesOf (part : Part) (i : Nat) : List Selection :=
  [Position.predicate, .object, .graph].flatMap fun p =>
    (nameOf (part.triple.get p)).map fun name => ⟨i, p, name⟩

theorem find?_placesOf (part : Part) (i : Nat) (name : Text) :
    (placesOf part i).find? (fun s => s.name = name) =
      ([Position.predicate, .object, .graph].find? fun p => part.triple.get p = .var name).map
        fun p => ⟨i, p, name⟩ := find?_named _ _ _ _

theorem places_eq (p : GroupPlan) : p.places = p.parts.zipIdx.flatMap fun x => placesOf x.1 x.2 := rfl

theorem mem_placesOf {part : Part} {i : Nat} {s : Selection} (mem : s ∈ placesOf part i) :
    s.position ∈ [Position.predicate, .object, .graph] ∧ part.triple.get s.position = .var s.name := by
  obtain ⟨position, inner, named⟩ := List.mem_flatMap.1 mem
  obtain ⟨name, here, rfl⟩ := List.mem_map.1 named
  refine ⟨inner, ?_⟩
  dsimp only
  cases ht : part.triple.get position with
  | var other =>
    rw [ht] at here
    rw [List.mem_singleton.1 here]
  | _ =>
    rw [ht] at here
    cases here

theorem find?_places (before : List Quad) {parts : List Part} {rows : List Quad}
    (count : parts.length = rows.length) {name : Text}
    (other : ∀ part ∈ parts, part.triple.subject ≠ .var name) :
    (((parts.zipIdx before.length).flatMap fun x => placesOf x.1 x.2).find? fun s => s.name = name).bind
        (fun s => (before ++ rows)[s.pattern]?.map (·.get s.position)) =
      Group.value? (parts.map (·.triple)) rows name := by
  induction parts generalizing before rows with
  | nil => rfl
  | cons part parts ih =>
    cases rows with
    | nil => cases count
    | cons k rows =>
      have rest := ih (before ++ [k]) (Nat.succ.inj count)
        fun part mem => other part (List.mem_cons_of_mem _ mem)
      have subject : part.triple.get .subject ≠ .var name := other part List.mem_cons_self
      have head : part.triple.value? k name =
          ([Position.predicate, .object, .graph].find? fun p => part.triple.get p = .var name).map k.get := by
        rw [value?_eq_find?, Position.all, List.find?_cons, decide_eq_false subject]
      rw [List.zipIdx_cons, List.flatMap_cons, List.find?_append]
      change _ = ((part.triple, k) :: (parts.map (·.triple)).zip rows).findSome? _
      rw [List.findSome?_cons]
      dsimp only
      rw [find?_placesOf, head]
      cases [Position.predicate, .object, .graph].find? fun p => part.triple.get p = .var name with
      | some p => simp
      | none =>
        rw [List.length_append, List.append_assoc] at rest
        exact rest

theorem mem_places {p : GroupPlan} {s : Selection} (mem : s ∈ p.places) : s.pattern < p.parts.length := by
  rw [places_eq, List.mem_flatMap] at mem
  obtain ⟨⟨part, i⟩, inside, mem⟩ := mem
  obtain ⟨position, -, mem⟩ := List.mem_flatMap.1 mem
  obtain ⟨name, -, rfl⟩ := List.mem_map.1 mem
  have lt := (List.mem_zipIdx inside).2.1
  rw [Nat.zero_add] at lt
  exact lt

theorem mem_selections {p : GroupPlan} {s : Selection} (mem : s ∈ p.selections) : s ∈ p.places :=
  (List.mem_filter.1 ((FirstOfEach.sublist_eraseDupsBy _ _).mem mem)).1

theorem find?_selections {p : GroupPlan} {name : Text} (other : name ≠ p.subject) :
    p.selections.find? (fun s => s.name = name) = p.places.find? fun s => s.name = name := by
  unfold selections
  rw [FirstOfEach.find?_eraseDupsBy, List.find?_filter]
  congr 1
  funext s
  by_cases h : s.name = name
  · simp [h, other]
  · simp [h]

def selected (j : Table.Joined) (s : Selection) : Term := .ofStored (j.text s.pattern s.position) s.position

theorem get?_foldl_selections {select : List Selection} (once : select.Pairwise fun a b => a.name ≠ b.name)
    (value : Selection → Term) (name : Text) :
    Binding.get? (select.foldl (fun b s => b.set s.name (value s)) []) name =
      (select.find? fun s => s.name = name).map value := by
  rw [Binding.get?_foldl_once fun s name => if s.name = name then some (value s) else none]
  · rw [findSome?_ite]
    simp [Binding.get?]
  · intro b s name
    rw [Binding.get?_set]
    by_cases h : s.name = name
    · simp [h]
    · simp [h, Ne.symm h]
  · refine once.imp fun {s s'} apart name => ?_
    by_cases h : s.name = name
    · exact Or.inr (if_neg fun h' => apart (h.trans h'.symm))
    · exact Or.inl (if_neg h)

theorem get?_joined {c : Compound} (once : c.select.Pairwise fun a b => a.name ≠ b.name)
    (some_ : c.select.isEmpty = false) (clauses : List (List Clause)) (j : Table.Joined) (name : Text) :
    (Store.ofJoined c.on (Store.projections c)
      (j.record ⟨c.on, (Store.projections c).map (·.2), clauses⟩)).bindings.get? name =
      (c.select.find? fun s => s.name = name).map (selected j) := by
  have columns : c.columns = c.select := if_neg (by simp [some_])
  rw [Store.bindings_joined, columns]
  exact get?_foldl_selections once (selected j) name

theorem get?_bind {p : GroupPlan} (found : CompoundResult) {name : Text} (other : name ≠ p.subject) :
    (p.bind found).get? name =
      if name ∈ p.selections.map (·.name) then found.bindings.get? name else none := by
  have copied := Binding.get?_foldl_copy found.bindings.get? Selection.name p.selections
    [(p.subject, found.value)] name
  have start : Binding.get? [(p.subject, found.value)] name = none := by
    simp [Binding.get?, List.lookup_cons, beq_eq_false_iff_ne.2 other]
  rw [start, Option.or_none] at copied
  exact copied

structure Tells (p : GroupPlan) (found : CompoundResult) (tuple : List Quint) : Prop where
  count : p.parts.length = tuple.length
  value : ∀ k ∈ tuple.head?, found.value = k.subject
  bindings : p.selections.isEmpty = false → ∀ name, found.bindings.get? name =
    (p.selections.find? fun s => s.name = name).bind fun s => tuple[s.pattern]?.map (·.get s.position)

theorem Tells.get?_bind {p : GroupPlan} {found : CompoundResult} {tuple : List Quint} (h : p.Tells found tuple)
    {name : Text} (other : name ≠ p.subject) :
    (p.bind found).get? name =
      (p.places.find? fun s => s.name = name).bind fun s => tuple[s.pattern]?.map (·.get s.position) := by
  rw [GroupPlan.get?_bind found other, ← find?_selections other]
  by_cases mem : name ∈ p.selections.map (·.name)
  · have some_ : p.selections.isEmpty = false := by
      cases hs : p.selections with
      | nil => simp [hs] at mem
      | cons s rest => rfl
    rw [if_pos mem]
    exact h.bindings some_ name
  · have none_ : p.selections.find? (fun s => s.name = name) = none := by
      rw [List.find?_eq_none]
      intro s hs
      have different : s.name ≠ name := fun same => mem (List.mem_map.2 ⟨s, hs, same⟩)
      simpa using different
    rw [if_neg mem, none_]
    rfl

theorem Tells.bind {p : GroupPlan} (subjects : ∀ part ∈ p.parts, part.triple.subject = .var p.subject)
    {found : CompoundResult} {tuple : List Quint} (some_ : tuple ≠ []) (h : p.Tells found tuple) :
    (p.bind found).get? = Group.value? p.triples (tuple.map (·.toQuad)) := by
  funext name
  by_cases own : name = p.subject
  · subst own
    rw [bind_subject]
    cases tuple with
    | nil => exact absurd rfl some_
    | cons k tuple =>
      obtain ⟨part, parts, hp⟩ : ∃ part parts, p.parts = part :: parts := by
        have count := h.count
        cases hp : p.parts with
        | nil => rw [hp] at count; cases count
        | cons part parts => exact ⟨part, parts, rfl⟩
      have subject : part.triple.get .subject = .var p.subject :=
        subjects part (hp ▸ List.mem_cons_self)
      rw [h.value k rfl, triples, hp]
      change _ = ((part.triple, k.toQuad) :: _).findSome? _
      rw [List.findSome?_cons]
      dsimp only
      rw [value?_eq_find?, Position.all, List.find?_cons, decide_eq_true subject]
      rfl
  · have count : p.parts.length = (tuple.map (·.toQuad)).length := by rw [List.length_map, h.count]
    have other : ∀ part ∈ p.parts, part.triple.subject ≠ .var name := by
      intro part mem same
      rw [subjects part mem] at same
      exact own (Term.var.inj same).symm
    have values := find?_places [] count other
    rw [h.get?_bind own, triples, ← values]
    change _ = (p.places.find? fun s => s.name = name).bind _
    congr 1
    funext s
    rw [List.nil_append, List.getElem?_map, Option.map_map]
    rfl

def joinedResult (p : GroupPlan) (clauses : List (List Clause)) (j : Table.Joined) : CompoundResult :=
  Store.ofJoined (p.compound none).on (Store.projections (p.compound none))
    (j.record ⟨(p.compound none).on, (Store.projections (p.compound none)).map (·.2), clauses⟩)

theorem once_selections (p : GroupPlan) : p.selections.Pairwise fun a b => a.name ≠ b.name :=
  FirstOfEach.pairwise_eraseDupsBy _ _

theorem tells_joined {p : GroupPlan} (clauses : List (List Clause)) {j : Table.Joined} {tuple : List Quint}
    (made : j.rows = tuple.map Quint.toRow) (stored : ∀ k ∈ tuple, k.toQuad.Kept)
    (count : p.parts.length = tuple.length) : p.Tells (p.joinedResult clauses j) tuple := by
  refine ⟨count, ?_, ?_⟩
  · intro k first
    have row : j.first = k.toRow := by
      have heads := congrArg List.head? made
      rw [List.head?_map, first] at heads
      exact Option.some.inj heads
    change Term.decode j.first.subject = k.subject
    rw [row]
    exact stored k (List.mem_of_mem_head? first) .subject
  · intro some_ name
    have joined := get?_joined (c := p.compound none) p.once_selections some_ clauses j name
    refine joined.trans ?_
    change (p.selections.find? fun s => s.name = name).map (selected j) = _
    cases hf : p.selections.find? fun s => s.name = name with
    | none => rfl
    | some s =>
      have lt : s.pattern < tuple.length := count ▸ mem_places (mem_selections (List.mem_of_find?_eq_some hf))
      have row : j.row? s.pattern = some tuple[s.pattern].toRow := by
        change j.rows[s.pattern]? = _
        rw [made, List.getElem?_map, List.getElem?_eq_getElem lt]
        rfl
      have value : selected j s = tuple[s.pattern].get s.position := by
        rw [selected, Table.Joined.text, row]
        change Term.ofStored (tuple[s.pattern].toRow.get s.position) s.position = _
        rw [Quint.get_toRow]
        exact stored _ (List.getElem_mem lt) s.position
      simp [value, lt]

theorem tells_single {p : GroupPlan} (count : p.parts.length = 1) {k : Quint} (stored : k.toQuad.Kept) :
    p.Tells (Store.ofSingle (p.compound none) (.ofRow k.toRow)) [k] := by
  have whole : (Quint.ofRow k.toRow).toQuad = k.toQuad := Quint.toQuad_ofRow stored
  refine ⟨count, ?_, ?_⟩
  · intro k' first
    cases first
    exact congrArg Quad.subject whole
  · intro some_ name
    have bindings : (Store.ofSingle (p.compound none) (.ofRow k.toRow)).bindings =
        p.selections.foldl (fun (b : Binding) s => b.set s.name (k.get s.position)) [] := by
      unfold Store.ofSingle
      dsimp only
      rw [whole]
      change (if p.selections.isEmpty then _ else _) = _
      rw [some_]
      rfl
    rw [bindings, get?_foldl_selections p.once_selections]
    cases hf : p.selections.find? fun s => s.name = name with
    | none => rfl
    | some s =>
      have lt := mem_places (mem_selections (List.mem_of_find?_eq_some hf))
      rw [count] at lt
      obtain zero : s.pattern = 0 := by omega
      simp [zero]

end GroupPlan

theorem agreeing_toRow {tuple : List Quint} (stored : ∀ k ∈ tuple, k.toQuad.Kept) :
    Table.agreeing .subject (tuple.map Quint.toRow) =
      (Group.sameSubject (tuple.map (·.toQuad)) && Group.sameGraph (tuple.map (·.toQuad))) := by
  cases tuple with
  | nil => rfl
  | cons k tuple =>
    have first := stored k List.mem_cons_self
    rw [Bool.eq_iff_iff]
    simp only [List.map_cons, Table.agreeing, Group.sameSubject, Group.sameGraph, List.all_map, List.all_eq_true,
      Bool.and_eq_true, Function.comp_apply, Table.Joined.agrees, Bool.or_eq_true, decide_eq_true_eq,
      ← forall_and]
    refine forall_congr' fun r => forall_congr' fun mem => ?_
    have other := stored r (List.mem_cons_of_mem k mem)
    have graphs : k.toRow.graph = r.toRow.graph ↔ k.graph = r.graph := Quint.get_toRow_eq_iff first other .graph
    have apart : ¬ Position.subject = Position.graph := by decide
    rw [Quint.get_toRow_eq_iff first other .subject, graphs, or_iff_right apart]
    exact and_congr eq_comm eq_comm

abbrev Store.limited (limits : Limits) (lasting : Bool) (qs : List Quint) : Store Limited :=
  within limits ⟨true, .holding lasting qs⟩

namespace GroupPlan

variable {p : GroupPlan} {scope : Option Term} {triples : List Quad}

theorem Bare.patterns (bare : p.Bare scope triples) :
    (p.compound none).patterns = triples.map fun q => (q.within scope).inGraph ((q.within scope).lookup none) := by
  unfold compound
  dsimp only
  rw [bare.parts, List.map_map]
  apply List.map_congr_left
  intro q _
  rw [Function.comp_apply, Quad.filteredLookup_nil]

def clauses (p : GroupPlan) : List (List Clause) := (p.compound none).patterns.map Pattern.clauses

theorem inside_compound (p : GroupPlan) :
    ∀ s ∈ (p.compound none).select, s.pattern < (p.compound none).patterns.length := by
  intro s mem
  rw [compound, List.length_map]
  exact mem_places (mem_selections mem)

theorem Bare.plain (bare : p.Bare scope triples) :
    ∀ pattern ∈ (p.compound none).patterns, pattern.hasRegex = false := by
  intro pattern mem
  rw [bare.patterns] at mem
  obtain ⟨q, -, rfl⟩ := List.mem_map.1 mem
  exact (q.within scope).hasRegex_lookup

/-- The one query that a group without filters and security pattern is answered by. -/
def query (p : GroupPlan) : Query := Store.compoundQuery (p.compound none) {}

theorem Bare.some_patterns (bare : p.Bare scope triples) (some_ : triples ≠ []) : (p.compound none).patterns ≠ [] := by
  rw [bare.patterns]
  simpa using some_

theorem Bare.queries (bare : p.Bare scope triples) (some_ : triples ≠ []) :
    Store.combinedQueries (p.compound none) {} = [p.query] :=
  Store.combinedQueries_plain (bare.some_patterns some_) bare.plain p.inside_compound {}

theorem Bare.tables (bare : p.Bare scope triples) (some_ : triples ≠ []) : p.query.tables = triples.length := by
  rw [query, Store.tables_compoundQuery (bare.some_patterns some_), bare.patterns, List.length_map]

theorem Bare.few_values (bare : p.Bare scope triples) :
    ((p.compound none).patterns.flatMap fun pattern => Clause.values pattern.clauses).length ≤
      triples.length * 4 := by
  rw [bare.patterns, List.flatMap_map, List.length_flatMap]
  refine (List.sum_le_card_nsmul _ 4 ?_).trans_eq ?_
  · intro n mem
    obtain ⟨q, -, rfl⟩ := List.mem_map.1 mem
    exact (q.within scope).few_values_lookup
  · rw [List.length_map]
    rfl

/-- As the engine is built, it takes the join of a group exactly if there is a table left for each triple. -/
theorem Bare.usual_takes (bare : p.Bare scope triples) (some_ : triples ≠ []) (t : Table) :
    Limits.usual.refusal t p.query = none ↔ triples.length ≤ 64 := by
  have few := bare.few_values
  rw [query, Store.usual_takes_compound t (bare.some_patterns some_), bare.patterns, List.length_map]
  rw [bare.patterns] at few
  constructor
  · exact fun both => both.1
  · exact fun short => ⟨short, by omega⟩

theorem Bare.combined (bare : p.Bare scope triples) (more : 2 ≤ triples.length) (t : Table) :
    Store.combined t (p.compound none) {} =
      .ok ((t.joined .subject p.clauses).map (p.joinedResult p.clauses)) := by
  refine Store.combined_several bare.plain p.inside_compound ?_
  rw [bare.patterns, List.length_map]
  exact more

theorem Bare.combined_single {q : Quad} (bare : p.Bare scope [q]) (constants : q.Kept)
    (named : ∀ g ∈ scope, g ≠ .defaultGraph ∧ g.Kept .graph) (lasting : Bool) {qs : List Quint}
    (stored : ∀ k ∈ qs, k.toQuad.Kept) :
    Store.combined (.holding lasting qs) (p.compound none) {} =
      .ok ((qs.filter fun k => q.meets k.toQuad && k.graph.inScope scope).map fun k =>
        Store.ofSingle (p.compound none) (.ofRow k.toRow)) := by
  rw [Store.combined_one bare.plain p.inside_compound bare.patterns]
  change Except.ok (((qs.map Quint.toRow).filter _).map _) = _
  rw [Quad.filter_admits_within constants named stored, List.map_map]
  rfl

theorem Bare.selected (bare : p.Bare scope triples) (constants : ∀ q ∈ triples, q.Kept)
    (named : ∀ g ∈ scope, g ≠ .defaultGraph ∧ g.Kept .graph) (lasting : Bool) {qs : List Quint}
    (stored : ∀ k ∈ qs, k.toQuad.Kept) :
    p.clauses.map (Table.holding lasting qs).selected =
      (triples.map fun q => qs.filter fun k => q.meets k.toQuad && k.graph.inScope scope).map
        (List.map Quint.toRow) := by
  unfold clauses
  rw [bare.patterns, List.map_map, List.map_map, List.map_map]
  apply List.map_congr_left
  intro q mem
  refine (Store.selected_plain (q.within scope).hasRegex_lookup).trans ?_
  exact Quad.filter_admits_within (constants q mem) named stored

theorem Bare.rows (bare : p.Bare scope triples) (more : 2 ≤ triples.length)
    (constants : ∀ q ∈ triples, q.Kept) (named : ∀ g ∈ scope, g ≠ .defaultGraph ∧ g.Kept .graph)
    (lasting : Bool) {qs : List Quint} (stored : ∀ k ∈ qs, k.toQuad.Kept) :
    ((Table.holding lasting qs).joined .subject p.clauses).map Table.Joined.rows =
      ((choices (triples.map fun q => qs.filter fun k => q.meets k.toQuad && k.graph.inScope scope)).filter
        fun tuple => Group.sameSubject (tuple.map (·.toQuad)) && Group.sameGraph (tuple.map (·.toQuad))).map
          (List.map Quint.toRow) := by
  obtain ⟨first, rest, shape⟩ : ∃ first rest, p.clauses = first :: rest := by
    unfold clauses
    rw [bare.patterns]
    cases triples with
    | nil => exact absurd more (by simp)
    | cons q triples => exact ⟨_, _, rfl⟩
  rw [shape, Table.rows_joined, ← shape, bare.selected constants named lasting stored, choices_map,
    List.filter_map]
  congr 1
  apply List.filter_congr
  intro tuple mem
  rw [Function.comp_apply, agreeing_toRow]
  intro k hk
  refine stored k (mem_of_mem_choices (fun ks hks x hx => ?_) mem k hk)
  obtain ⟨q, -, rfl⟩ := List.mem_map.1 hks
  exact List.mem_of_mem_filter hx

def tuplesIn (scope : Option Term) (triples : List Quad) (qs : List Quint) : List (List Quint) :=
  (choices (triples.map fun q => qs.filter fun k => q.meets k.toQuad && k.graph.inScope scope)).filter
    fun tuple => Group.sameSubject (tuple.map (·.toQuad)) && Group.sameGraph (tuple.map (·.toQuad))

theorem mem_tuplesIn {qs tuple : List Quint} (mem : tuple ∈ tuplesIn scope triples qs) :
    tuple.length = triples.length ∧ ∀ k ∈ tuple, k ∈ qs := by
  have chosen := List.mem_of_mem_filter mem
  refine ⟨(mem_choices.1 chosen).length_eq.trans (List.length_map _), fun k hk => ?_⟩
  refine mem_of_mem_choices (fun ks hks x hx => ?_) chosen k hk
  obtain ⟨q, -, rfl⟩ := List.mem_map.1 hks
  exact List.mem_of_mem_filter hx

theorem map_tuplesIn (some_ : triples ≠ []) (qs : List Quint) :
    ((tuplesIn scope triples qs).map (List.map (·.toQuad))).Perm
      ((((qs.map (·.toQuad)).map Quad.graph).dedup.filter (Term.inScope scope)).flatMap fun g =>
        Group.rowsIn g triples (qs.map (·.toQuad))) := by
  have tuples : Group.rowsInScope scope triples (qs.map (·.toQuad)) =
      (choices (triples.map fun q => qs.filter fun k => q.meets k.toQuad && k.graph.inScope scope)).map
        (List.map (·.toQuad)) := by
    unfold Group.rowsInScope
    rw [← choices_map, List.map_map]
    congr 2
    funext q
    rw [Function.comp_apply, List.filter_map]
    rfl
  refine List.Perm.trans (List.Perm.of_eq ?_) (Group.perm_rowsIn scope some_ (qs.map (·.toQuad)))
  rw [tuples, List.filter_map]
  rfl

theorem Bare.results (bare : p.Bare scope triples) (some_ : triples ≠ [])
    (constants : ∀ q ∈ triples, q.Kept) (named : ∀ g ∈ scope, g ≠ .defaultGraph ∧ g.Kept .graph)
    (lasting : Bool) {qs : List Quint} (stored : ∀ k ∈ qs, k.toQuad.Kept) :
    ∃ results, Store.combined (.holding lasting qs) (p.compound none) {} = .ok results ∧
      List.Forall₂ p.Tells results (tuplesIn scope triples qs) := by
  have parts : p.parts.length = triples.length := by rw [bare.parts, List.length_map]
  by_cases more : 2 ≤ triples.length
  · refine ⟨_, bare.combined more _, ?_⟩
    have made : List.Forall₂ (fun (j : Table.Joined) tuple => j.rows = tuple.map Quint.toRow)
        ((Table.holding lasting qs).joined .subject p.clauses) (tuplesIn scope triples qs) := by
      have rows := bare.rows more constants named lasting stored
      rw [← List.forall₂_map_left_iff (R := fun row tuple => row = List.map Quint.toRow tuple), rows,
        List.forall₂_map_left_iff]
      exact List.forall₂_same.2 fun _ _ => rfl
    rw [List.forall₂_map_left_iff]
    refine (List.forall₂_iff_zip.2 ⟨made.length_eq, fun {j tuple} mem => ?_⟩)
    obtain ⟨length, inside⟩ := mem_tuplesIn (List.of_mem_zip mem).2
    exact tells_joined p.clauses ((List.forall₂_iff_zip.1 made).2 mem) (fun k hk => stored k (inside k hk))
      (parts.trans length.symm)
  · obtain ⟨q, rfl⟩ : ∃ q, triples = [q] := by
      cases triples with
      | nil => exact absurd rfl some_
      | cons q rest =>
        cases rest with
        | nil => exact ⟨q, rfl⟩
        | cons q' rest => exact absurd (by simp) more
    have tuples : tuplesIn scope [q] qs =
        (qs.filter fun k => q.meets k.toQuad && k.graph.inScope scope).map fun k => [k] := by
      simp [tuplesIn, choices, List.filter_map, Function.comp_def, Group.sameSubject, Group.sameGraph,
        ← List.map_eq_flatMap]
    refine ⟨_, bare.combined_single (constants q List.mem_cons_self) named lasting stored, ?_⟩
    rw [tuples, List.forall₂_map_left_iff, List.forall₂_map_right_iff, List.forall₂_same]
    exact fun k mem => tells_single parts (stored k (List.mem_of_mem_filter mem))

theorem Bare.answers (bare : p.Bare scope triples) (some_ : triples ≠ [])
    (constants : ∀ q ∈ triples, q.Kept) (named : ∀ g ∈ scope, g ≠ .defaultGraph ∧ g.Kept .graph)
    (lasting : Bool) {qs : List Quint} (stored : ∀ k ∈ qs, k.toQuad.Kept) :
    ∃ rows, p.answer (.holding lasting qs) none {} = .ok ⟨p.names, rows⟩ ∧
      (rows.map Binding.get?).Perm (Group.solutions scope triples (qs.map (·.toQuad))) := by
  have patterns : p.triples = triples.map (·.within scope) := by
    rw [GroupPlan.triples, bare.parts, List.map_map]
    rfl
  have subjects : ∀ part ∈ p.parts, part.triple.subject = .var p.subject := by
    rw [bare.parts]
    intro part mem
    obtain ⟨q, hq, rfl⟩ := List.mem_map.1 mem
    exact bare.subjects q hq
  obtain ⟨results, combined, tells⟩ := bare.results some_ constants named lasting stored
  have values : (results.map p.bind).map Binding.get? =
      ((tuplesIn scope triples qs).map (List.map (·.toQuad))).map (Group.value? p.triples) := by
    rw [List.map_map, List.map_map]
    rw [← List.forall₂_eq_eq_eq, List.forall₂_map_left_iff, List.forall₂_map_right_iff]
    refine tells.imp fun found tuple told => told.bind subjects ?_
    rintro rfl
    have count := told.count
    rw [bare.parts, List.length_map] at count
    exact some_ (List.length_eq_zero_iff.1 count)
  refine ⟨results.map p.bind, ?_, ?_⟩
  · unfold answer
    rw [combined]
    rfl
  · rw [values, patterns, Group.solutions, ← List.map_flatMap]
    exact (map_tuplesIn some_ qs).map _

def otherNames (q : Quad) : List Text := nameOf q.predicate ++ nameOf q.object

theorem eq_of_shared {rows : List Quad} (nodup : (triples.flatMap otherNames).Nodup) {a b : Quad × Quad}
    (ha : a ∈ triples.zip rows) (hb : b ∈ triples.zip rows) {name : Text} (inA : name ∈ otherNames a.1)
    (inB : name ∈ otherNames b.1) : a = b := by
  induction triples generalizing rows with
  | nil => cases ha
  | cons q triples ih =>
    cases rows with
    | nil => cases ha
    | cons k rows =>
      rw [List.flatMap_cons] at nodup
      obtain ⟨-, rest, apart⟩ := List.nodup_append.1 nodup
      have elsewhere : ∀ c ∈ triples.zip rows, name ∈ otherNames c.1 → name ∉ otherNames q := by
        intro c hc inC inQ
        exact apart name inQ name (List.mem_flatMap.2 ⟨c.1, (List.of_mem_zip hc).1, inC⟩) rfl
      rcases List.mem_cons.1 ha with rfl | ha
      · rcases List.mem_cons.1 hb with rfl | hb
        · rfl
        · exact absurd inA (elsewhere b hb inB)
      · rcases List.mem_cons.1 hb with rfl | hb
        · exact absurd inB (elsewhere a ha inA)
        · exact ih rest ha hb

theorem mem_otherNames {q : Quad} {p : Position} {name : Text} (inner : p = .predicate ∨ p = .object)
    (h : q.get p = .var name) : name ∈ otherNames q := by
  rcases inner with rfl | rfl
  · have predicate : q.predicate = .var name := h
    simp [otherNames, nameOf, predicate]
  · have object : q.object = .var name := h
    simp [otherNames, nameOf, object]

theorem position_of_shared {q : Quad} (nodup : (otherNames q).Nodup) {p p' : Position} {name : Text}
    (inner : p = .predicate ∨ p = .object) (inner' : p' = .predicate ∨ p' = .object)
    (h : q.get p = .var name) (h' : q.get p' = .var name) : p = p' := by
  have apart : ¬ (q.predicate = .var name ∧ q.object = .var name) := by
    rintro ⟨predicate, object⟩
    simp [otherNames, nameOf, predicate, object] at nodup
  rcases inner with rfl | rfl <;> rcases inner' with rfl | rfl
  · rfl
  · exact absurd ⟨h, h'⟩ apart
  · exact absurd ⟨h', h⟩ apart
  · rfl

theorem Bare.place (bare : p.Bare scope triples) {q : Quad} (mem : q ∈ triples) {a : Position} {name : Text}
    (h : (q.within scope).get a = .var name) :
    (a = .subject ∧ name = p.subject) ∨ (a = .graph ∧ name ∈ (scope.map nameOf).getD []) ∨
      ((a = .predicate ∨ a = .object) ∧ q.get a = .var name ∧ name ∈ otherNames q) := by
  cases a with
  | subject =>
    have subject : q.subject = .var name := h
    rw [bare.subjects q mem] at subject
    exact Or.inl ⟨rfl, (Term.var.inj subject).symm⟩
  | graph =>
    have graph : scope.getD .defaultGraph = .var name := h
    cases scope with
    | none => cases graph
    | some g =>
      cases graph
      exact Or.inr (Or.inl ⟨rfl, List.mem_singleton.2 rfl⟩)
  | predicate => exact Or.inr (Or.inr ⟨Or.inl rfl, h, mem_otherNames (Or.inl rfl) h⟩)
  | object => exact Or.inr (Or.inr ⟨Or.inr rfl, h, mem_otherNames (Or.inr rfl) h⟩)

/-- Statements that share graph and subject give every variable of a plan one value. -/
theorem Bare.agree (bare : p.Bare scope triples) {g : Term} {ks rows : List Quad}
    (mem : rows ∈ Group.rowsIn g triples ks) : Group.Agree (triples.map (·.within scope)) rows := by
  obtain ⟨chosen, shared⟩ := List.mem_filter.1 mem
  have graph : ∀ k ∈ rows, k.graph = g := by
    have sub : ∀ xs ∈ triples.map (fun q => ks.filter fun k => k.graph = g && q.meets k), ∀ k ∈ xs,
        k ∈ ks.filter fun k => k.graph = g := by
      intro xs hx k hk
      obtain ⟨q, -, rfl⟩ := List.mem_map.1 hx
      obtain ⟨stored, both⟩ := List.mem_filter.1 hk
      exact List.mem_filter.2 ⟨stored, (Bool.and_eq_true_iff.1 both).1⟩
    intro k hk
    simpa using (List.mem_filter.1 (mem_of_mem_choices sub chosen k hk)).2
  have subject : ∀ k ∈ rows, ∀ k' ∈ rows, k.subject = k'.subject := by
    cases rows with
    | nil => exact fun k hk => absurd hk List.not_mem_nil
    | cons first rest =>
      have all : ∀ k ∈ first :: rest, k.subject = first.subject := by
        intro k hk
        rcases List.mem_cons.1 hk with rfl | hk
        · rfl
        · simpa using List.all_eq_true.1 shared k hk
      exact fun k hk k' hk' => (all k hk).trans (all k' hk').symm
  obtain ⟨fresh, nodup⟩ := List.nodup_cons.1 bare.distinct
  obtain ⟨-, inner, apart⟩ := List.nodup_append.1 nodup
  have inTriples : ∀ {q : Quad} {name : Text}, q ∈ triples → name ∈ otherNames q →
      name ∈ triples.flatMap otherNames := fun hq hn => List.mem_flatMap.2 ⟨_, hq, hn⟩
  intro a ha b hb c c' name h h'
  rw [List.zip_map_left] at ha hb
  obtain ⟨⟨q, k⟩, hq, rfl⟩ := List.mem_map.1 ha
  obtain ⟨⟨q', k'⟩, hq', rfl⟩ := List.mem_map.1 hb
  obtain ⟨memQ, memK⟩ := List.of_mem_zip hq
  obtain ⟨memQ', memK'⟩ := List.of_mem_zip hq'
  rcases bare.place memQ h with ⟨rfl, own⟩ | ⟨rfl, inScope⟩ | ⟨place, at_, inQ⟩ <;>
    rcases bare.place memQ' h' with ⟨rfl, own'⟩ | ⟨rfl, inScope'⟩ | ⟨place', at', inQ'⟩
  · exact subject k memK k' memK'
  · exact absurd (List.mem_append_left _ (own ▸ inScope')) fresh
  · exact absurd (List.mem_append_right _ (own ▸ inTriples memQ' inQ')) fresh
  · exact absurd (List.mem_append_left _ (own' ▸ inScope)) fresh
  · exact (graph k memK).trans (graph k' memK').symm
  · exact absurd rfl (apart name inScope name (inTriples memQ' inQ'))
  · exact absurd (List.mem_append_right _ (own' ▸ inTriples memQ inQ)) fresh
  · exact absurd rfl (apart name inScope' name (inTriples memQ inQ))
  · cases eq_of_shared inner hq hq' inQ inQ'
    have nodupQ := (List.nodup_flatMap.1 inner).1 q memQ
    rw [position_of_shared nodupQ place place' at_ at']

end GroupPlan

namespace MultiPlan

theorem run_compound {names : List Text} (projected : names ≠ []) {p : GroupPlan} {t : Table}
    {found : Solutions} (h : p.answer t none {} = .ok found) :
    run ⟨{ names }, .compound p⟩ none ⟨true, t⟩ =
      (.ok ⟨names, found.rows.map (·.restrict names)⟩, ⟨true, t⟩) := by
  have given : names.isEmpty = false := by simpa using projected
  have asked : options { names } = {} := rfl
  unfold run
  rw [Step.bind_apply, rows]
  dsimp only
  rw [Step.adapt_apply, GroupPlan.run_open, asked, h]
  simp [Except.mapError, Step.pure_apply, finish, given, Solutions.window]

section

variable {names : List Text} {body : Operation} {p : GroupPlan}

theorem bare_of_accepted (accepted : (ofOperation (.project names body)).shape = .compound p)
    (plain : body.isPlain = true) : p.Bare body.graphs.head? body.triples ∧ 2 ≤ body.triples.length := by
  rw [ofOperation_project plain] at accepted
  exact GroupPlan.bare_ofGroup (Operation.isUnfiltered_of_plain plain) (compound_of_shape accepted)

theorem compound_solutions (accepted : (ofOperation (.project names body)).shape = .compound p)
    (plain : body.isPlain = true) (projected : names ≠ []) (constants : ∀ q ∈ body.triples, q.Kept)
    (named : ∀ g ∈ body.graphs, g ≠ .defaultGraph ∧ g.Kept .graph) {qs : List Quint}
    (stored : ∀ k ∈ qs, k.toQuad.Kept) (lasting : Bool) :
    ∃ found, (ofOperation (.project names body)).run none ⟨true, Table.holding lasting qs⟩ =
        (.ok found, ⟨true, Table.holding lasting qs⟩) ∧
      found.names = names ∧
      (found.rows.map Binding.get?).Perm
        ((Group.solutions body.graphs.head? body.triples (qs.map (·.toQuad))).map (·.restrict names)) := by
  obtain ⟨bare, more⟩ := bare_of_accepted accepted plain
  rw [ofOperation_project plain] at accepted ⊢
  dsimp only at accepted
  rw [accepted]
  have scope : ∀ g ∈ body.graphs.head?, g ≠ .defaultGraph ∧ g.Kept .graph :=
    fun g mem => named g (List.mem_of_head? mem)
  obtain ⟨rows, answered, perm⟩ := bare.answers (List.ne_nil_of_length_pos (by omega)) constants scope lasting stored
  refine ⟨_, run_compound projected answered, rfl, ?_⟩
  have values : (rows.map (·.restrict names)).map Binding.get? =
      (rows.map Binding.get?).map fun a => Assignment.restrict a names := by
    rw [List.map_map, List.map_map]
    apply List.map_congr_left
    intro b _
    funext name
    exact b.get?_restrict names name
  dsimp only
  rw [values]
  exact perm.map _

theorem compound_asks (accepted : (ofOperation (.project names body)).shape = .compound p)
    (plain : body.isPlain = true) (t : Table) :
    Store.Asks (fun f => .store (.sql f)) ((ofOperation (.project names body)).run none)
      ((ofOperation (.project names body)).run none) ⟨true, t⟩ [p.query] := by
  obtain ⟨bare, more⟩ := bare_of_accepted accepted plain
  have unsliced : options (ofOperation (.project names body)).modifiers = {} := by
    rw [ofOperation_project plain]
    rfl
  have asks := run_asks (ofOperation (.project names body)) none t
  rw [accepted, unsliced] at asks
  rw [← bare.queries (List.ne_nil_of_length_pos (by omega))]
  exact asks

/-- A selection on several triples answers, in some order, one solution for each choice of statements of
one graph that meet the triples and share their subject. It is one join, with a table for each triple; if the
engine refuses that, as it does from the 65th triple on if it is built as usual, the selection fails with the
refusal and nothing has changed. -/
theorem compound_answers (accepted : (ofOperation (.project names body)).shape = .compound p)
    (plain : body.isPlain = true) (projected : names ≠ []) (constants : ∀ q ∈ body.triples, q.Kept)
    (named : ∀ g ∈ body.graphs, g ≠ .defaultGraph ∧ g.Kept .graph) {qs : List Quint}
    (stored : ∀ k ∈ qs, k.toQuad.Kept) (lasting : Bool) (limits : Limits) :
    (limits.refusal (.holding lasting qs) p.query = none →
      ∃ found, (ofOperation (.project names body)).run none (Store.limited limits lasting qs) =
          (.ok found, Store.limited limits lasting qs) ∧
        found.names = names ∧
        (found.rows.map Binding.get?).Perm
          ((Group.solutions body.graphs.head? body.triples (qs.map (·.toQuad))).map (·.restrict names))) ∧
    (∀ failure, limits.refusal (.holding lasting qs) p.query = some failure →
      (ofOperation (.project names body)).run none (Store.limited limits lasting qs) =
        (.error (.store (.sql failure)), Store.limited limits lasting qs)) ∧
    (limits.tables < body.triples.length → (limits.refusal (.holding lasting qs) p.query).isSome = true) ∧
    (Limits.usual.refusal (.holding lasting qs) p.query = none ↔ body.triples.length ≤ 64) ∧
    ∀ g, ∀ rows ∈ Group.rowsIn g body.triples (qs.map (·.toQuad)),
      Group.Agree (body.triples.map (·.within body.graphs.head?)) rows := by
  obtain ⟨bare, more⟩ := bare_of_accepted accepted plain
  have asks := compound_asks accepted plain (.holding lasting qs)
  have some_ : body.triples ≠ [] := List.ne_nil_of_length_pos (by omega)
  refine ⟨fun taken => ?_, fun failure refused => ?_, fun wide => ?_, bare.usual_takes some_ _,
    fun g rows mem => bare.agree mem⟩
  · obtain ⟨found, answered, shown⟩ := compound_solutions accepted plain projected constants named stored lasting
    refine ⟨found, ?_, shown⟩
    have run := asks.taken_alone limits taken
    rwa [answered] at run
  · exact asks.refused_alone refused
  · exact limits.wide_refused _ _ (by rwa [bare.tables some_])

end

def nameAndAge : Operation :=
  .graph (.var "g") (.bgp
    [⟨.var "s", .iri "http://ex/name", .var "n", .defaultGraph⟩,
     ⟨.var "s", .iri "http://ex/age", .var "a", .defaultGraph⟩])

def people : List Quint :=
  [⟨⟨.iri "http://ex/ann", .iri "http://ex/name", .plain "Ann", .iri "http://ex/g"⟩, none⟩,
   ⟨⟨.iri "http://ex/ann", .iri "http://ex/age", .typed "41" Xsd.integer, .iri "http://ex/g"⟩, none⟩]

theorem compound_answers_people :
    nameAndAge.isPlain = true ∧
    ∃ found, (ofOperation (.project ["n", "a"] nameAndAge)).run none (Store.limited .usual true people) =
        (.ok found, Store.limited .usual true people) ∧
      (found.rows.map Binding.get?).Perm
        ((Group.solutions (some (.var "g")) nameAndAge.triples (people.map (·.toQuad))).map
          (·.restrict ["n", "a"])) := by
  have accepted : (ofOperation (.project ["n", "a"] nameAndAge)).shape = .compound ⟨"s",
      [⟨⟨.var "s", .iri "http://ex/name", .var "n", .var "g"⟩, []⟩,
       ⟨⟨.var "s", .iri "http://ex/age", .var "a", .var "g"⟩, []⟩]⟩ := by rfl
  have constants : ∀ q ∈ nameAndAge.triples, q.Kept := by decide +kernel
  have stored : ∀ k ∈ people, k.toQuad.Kept := by decide +kernel
  have named : ∀ g ∈ nameAndAge.graphs, g ≠ .defaultGraph ∧ g.Kept .graph := by
    intro g mem
    cases List.mem_singleton.1 mem
    exact ⟨nofun, rfl⟩
  obtain ⟨answers, -, -, taken, -⟩ :=
    compound_answers accepted rfl (List.cons_ne_nil _ _) constants named stored true .usual
  obtain ⟨found, run, -, perm⟩ := answers (taken.2 (by decide))
  exact ⟨rfl, found, run, perm⟩

def annsName : Quint := ⟨⟨.iri "http://ex/ann", .iri "http://ex/name", .plain "Ann", .defaultGraph⟩, none⟩

def wideGroup : Operation :=
  .bgp (List.replicate 65 ⟨.var "s", .iri "http://ex/name", .plain "Ann", .defaultGraph⟩)

theorem wide_group_refused :
    wideGroup.isPlain = true ∧ (Group.solutions none wideGroup.triples [annsName.toQuad]).length = 1 ∧
    ∃ p, (ofOperation (.project ["s"] wideGroup)).shape = .compound p ∧
      (ofOperation (.project ["s"] wideGroup)).run none (Store.limited .usual true [annsName]) =
        (.error (.store (.sql Limits.tooManyTables)), Store.limited .usual true [annsName]) := by
  have accepted : (ofOperation (.project ["s"] wideGroup)).shape = .compound ⟨"s",
      List.replicate 65 ⟨⟨.var "s", .iri "http://ex/name", .plain "Ann", .defaultGraph⟩, []⟩⟩ := by rfl
  refine ⟨rfl, by decide +kernel, _, accepted, (compound_asks accepted rfl _).refused_alone ?_⟩
  decide +kernel

end MultiPlan

end QuadStore
