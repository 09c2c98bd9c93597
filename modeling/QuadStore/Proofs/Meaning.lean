import Mathlib.Data.List.Dedup
import Mathlib.Data.List.Perm.Lattice
import QuadStore.Sparql.Algebra

namespace QuadStore

open Sparql

/-- All ways to take one element of each list. -/
def choices {α : Type} : List (List α) → List (List α)
  | [] => [[]]
  | xs :: rest => xs.flatMap fun x => (choices rest).map (x :: ·)

/-- The terms that a solution gives to names. -/
abbrev Assignment := Text → Option Term

namespace Assignment

def restrict (a : Assignment) (names : List Text) : Assignment := fun name =>
  if name ∈ names then a name else none

end Assignment

/-- Whether a graph is one that a query looks into: any, if it names none; any but the default graph, if
it names a variable. -/
def Term.inScope (scope : Option Term) (g : Term) : Bool :=
  match scope with
  | none => true
  | some (.var _) => g ≠ .defaultGraph
  | some t => g = t

namespace Quad

variable (pattern k : Quad)

/-- Whether a statement has the constants of a triple. -/
def meets : Bool :=
  [Position.subject, .predicate, .object].all fun p => (pattern.get p).isVar || k.get p = pattern.get p

/-- What a statement gives to the variables of a pattern. -/
def value? : Assignment := fun name =>
  Position.all.findSome? fun p => if pattern.get p = .var name then some (k.get p) else none

/-- Whether a statement gives a property of a subject, in a graph of a scope. -/
def hasProperty (scope : Option Term) (subject predicate : Term) : Bool :=
  k.subject = subject && k.predicate = predicate && k.graph.inScope scope

/-- A triple in the graph that a query names. -/
def within (scope : Option Term) : Quad := { pattern with graph := scope.getD .defaultGraph }

end Quad

namespace Group

def sameSubject : List Quad → Bool
  | [] => true
  | k :: rest => rest.all fun r => r.subject = k.subject

/-- The choices of statements of one graph, one for each triple, that share their subject. -/
def rowsIn (g : Term) (triples ks : List Quad) : List (List Quad) :=
  (choices (triples.map fun q => ks.filter fun k => k.graph = g && q.meets k)).filter sameSubject

/-- What statements, one for each pattern, give to variables. -/
def value? (patterns rows : List Quad) : Assignment := fun name =>
  (patterns.zip rows).findSome? fun (pattern, k) => pattern.value? k name

def solutions (scope : Option Term) (triples ks : List Quad) : List Assignment :=
  ((ks.map Quad.graph).dedup.filter (Term.inScope scope)).flatMap fun g =>
    (rowsIn g triples ks).map (value? (triples.map (·.within scope)))

/-- Whether all places of a variable have one value. -/
def Agree (patterns rows : List Quad) : Prop :=
  ∀ a ∈ patterns.zip rows, ∀ b ∈ patterns.zip rows, ∀ (p p' : Position) (name : Text),
    a.1.get p = .var name → b.1.get p' = .var name → a.2.get p = b.2.get p'

end Group

namespace Sparql.Operation

/-- The names of graphs that patterns stand in, in order. -/
def graphs : Operation → List Term
  | bgp _ => []
  | graph name input => name :: input.graphs
  | join left right | leftJoin left right _ | union left right | minus left right =>
    left.graphs ++ right.graphs
  | filter _ input | orderBy _ input | project _ input | distinct input | reduced input
  | slice _ _ input | ask input | construct _ input | describe _ input => input.graphs

/-- Whether there are patterns only: no filter, and nothing that shapes a result. -/
def isPlain : Operation → Bool
  | bgp _ => true
  | graph _ input => input.isPlain
  | join left right | leftJoin left right _ | union left right | minus left right =>
    left.isPlain && right.isPlain
  | filter .. | orderBy .. | project .. | distinct _ | reduced _ | slice .. | ask _ | construct ..
  | describe .. => false

/-- Whether there is no filter around a pattern. -/
def isUnfiltered : Operation → Bool
  | bgp _ => true
  | filter .. => false
  | join left right | leftJoin left right _ | union left right | minus left right =>
    left.isUnfiltered && right.isUnfiltered
  | graph _ input | orderBy _ input | project _ input | distinct input | reduced input
  | slice _ _ input | ask input | construct _ input | describe _ input => input.isUnfiltered

/-- The graph that a whole pattern stands in. -/
def around : Operation → Option Term
  | graph name _ => some name
  | bgp _ | join .. | leftJoin .. | union .. | minus .. => none
  | filter _ input | orderBy _ input | project _ input | distinct input | reduced input
  | slice _ _ input | ask input | construct _ input | describe _ input => input.around

/-- The triples that are not in an optional part. -/
def required : Operation → List Quad
  | bgp found => found
  | leftJoin left _ _ => left.required
  | join left right | union left right | minus left right => left.required ++ right.required
  | graph _ input | filter _ input | orderBy _ input | project _ input | distinct input | reduced input
  | slice _ _ input | ask input | construct _ input | describe _ input => input.required

def optionals : Operation → List Quad
  | bgp _ => []
  | leftJoin left right _ => left.optionals ++ right.triples
  | join left right | union left right | minus left right => left.optionals ++ right.optionals
  | graph _ input | filter _ input | orderBy _ input | project _ input | distinct input | reduced input
  | slice _ _ input | ask input | construct _ input | describe _ input => input.optionals

theorem isUnfiltered_of_plain {op : Operation} (plain : op.isPlain = true) : op.isUnfiltered = true := by
  fun_induction isPlain op with
  | case1 => rfl
  | case2 name input ih => exact ih plain
  | case3 left right ihLeft ihRight | case4 left right condition ihLeft ihRight
  | case5 left right ihLeft ihRight | case6 left right ihLeft ihRight =>
    obtain ⟨plainLeft, plainRight⟩ := Bool.and_eq_true_iff.1 plain
    exact Bool.and_eq_true_iff.2 ⟨ihLeft plainLeft, ihRight plainRight⟩
  | _ => cases plain

end Sparql.Operation

section

variable {α β : Type}

theorem mem_choices {xss : List (List α)} {row : List α} :
    row ∈ choices xss ↔ List.Forall₂ (fun x xs => x ∈ xs) row xss := by
  induction xss generalizing row with
  | nil => simp [choices]
  | cons xs rest ih =>
    rw [choices, List.mem_flatMap]
    constructor
    · rintro ⟨x, hx, mem⟩
      obtain ⟨row, hr, rfl⟩ := List.mem_map.1 mem
      exact .cons hx (ih.1 hr)
    · intro all
      cases all with
      | cons hx hr => exact ⟨_, hx, List.mem_map.2 ⟨_, ih.2 hr, rfl⟩⟩

theorem mem_of_mem_choices {xss : List (List α)} {ys row : List α} (sub : ∀ xs ∈ xss, ∀ x ∈ xs, x ∈ ys)
    (mem : row ∈ choices xss) : ∀ x ∈ row, x ∈ ys := by
  have all := mem_choices.1 mem
  clear mem
  induction all with
  | nil => exact fun x hx => absurd hx List.not_mem_nil
  | @cons x xs row rest hx _ ih =>
    intro y hy
    rcases List.mem_cons.1 hy with rfl | hy
    · exact sub xs List.mem_cons_self y hx
    · exact ih (fun zs hz => sub zs (List.mem_cons_of_mem xs hz)) y hy

theorem choices_map (f : α → β) (xss : List (List α)) :
    choices (xss.map (List.map f)) = (choices xss).map (List.map f) := by
  induction xss with
  | nil => rfl
  | cons xs rest ih =>
    rw [List.map_cons, choices, choices, ih, List.flatMap_map, List.map_flatMap]
    congr 1
    funext x
    rw [List.map_map, List.map_map]
    rfl

theorem choices_filter (keep : α → Bool) (xss : List (List α)) :
    (choices xss).filter (fun row => row.all keep) = choices (xss.map (List.filter keep)) := by
  induction xss with
  | nil => rfl
  | cons xs rest ih =>
    rw [List.map_cons, choices, choices, ← ih, List.filter_flatMap]
    induction xs with
    | nil => rfl
    | cons x xs inner =>
      rw [List.flatMap_cons, inner, List.filter_cons]
      cases hx : keep x with
      | true => simp [List.filter_map, Function.comp_def, hx]
      | false => simp [List.filter_map, Function.comp_def, hx]

theorem choices_append (xss : List (List α)) (ys : List α) :
    choices (xss ++ [ys]) = (choices xss).flatMap fun row => ys.map fun y => row ++ [y] := by
  induction xss with
  | nil => simp [choices, List.map_eq_flatMap]
  | cons xs rest ih =>
    rw [List.cons_append, choices, choices, ih, List.flatMap_assoc]
    congr 1
    funext x
    simp [List.map_flatMap, List.flatMap_map, Function.comp_def]

theorem perm_flatMap_filter [DecidableEq β] (key : α → β) {keys : List β} (nodup : keys.Nodup) {xs : List α}
    (covered : ∀ x ∈ xs, key x ∈ keys) :
    xs.Perm (keys.flatMap fun k => xs.filter fun x => key x = k) := by
  -- on the keys: the elements of the first one, and then those that are left
  induction keys generalizing xs with
  | nil =>
    cases xs with
    | nil => exact .nil
    | cons x xs => exact absurd (covered x List.mem_cons_self) List.not_mem_nil
  | cons k keys ih =>
    obtain ⟨fresh, nodup⟩ := List.nodup_cons.1 nodup
    have rest : ∀ x ∈ xs.filter fun x => !decide (key x = k), key x ∈ keys := by
      intro x mem
      obtain ⟨mem, other⟩ := List.mem_filter.1 mem
      exact (List.mem_cons.1 (covered x mem)).resolve_left (by simpa using other)
    have others := ih nodup rest
    have same : (keys.flatMap fun k' => (xs.filter fun x => !decide (key x = k)).filter fun x => key x = k') =
        keys.flatMap fun k' => xs.filter fun x => key x = k' := by
      apply List.flatMap_congr
      intro k' mem
      rw [List.filter_filter]
      apply List.filter_congr
      intro x _
      have different : k' ≠ k := fun eq => fresh (eq ▸ mem)
      by_cases h : key x = k'
      · simp [h, different]
      · simp [h]
    rw [List.flatMap_cons, ← same]
    exact (List.filter_append_perm (fun x => decide (key x = k)) xs).symm.trans (others.append_left _)

end

namespace Group

def sameGraph : List Quad → Bool
  | [] => true
  | k :: rest => rest.all fun r => r.graph = k.graph

theorem sameGraph_iff (k : Quad) (rest : List Quad) (g : Term) :
    (sameGraph (k :: rest) && decide (k.graph = g)) = (k :: rest).all fun r => decide (r.graph = g) := by
  by_cases h : k.graph = g
  · simp [sameGraph, h]
  · simp [h]

/-- The choices in the graphs of a scope, whatever else they share. -/
def rowsInScope (scope : Option Term) (triples ks : List Quad) : List (List Quad) :=
  choices (triples.map fun q => ks.filter fun k => q.meets k && k.graph.inScope scope)

theorem head_rowsInScope {scope : Option Term} {triples ks rows : List Quad} (some_ : triples ≠ [])
    (mem : rows ∈ rowsInScope scope triples ks) :
    ∃ k rest, rows = k :: rest ∧ k ∈ ks ∧ k.graph.inScope scope = true := by
  have all := mem_choices.1 mem
  cases triples with
  | nil => exact absurd rfl some_
  | cons q triples =>
    cases all with
    | cons taken rest =>
      obtain ⟨inside, meets⟩ := List.mem_filter.1 taken
      exact ⟨_, _, rfl, inside, (Bool.and_eq_true_iff.1 meets).2⟩

theorem rowsInScope_graph {scope : Option Term} {g : Term} (inside : g.inScope scope = true)
    (triples ks : List Quad) :
    ((rowsInScope scope triples ks).filter fun rows => rows.all fun r => r.graph = g).filter sameSubject =
      rowsIn g triples ks := by
  unfold rowsInScope rowsIn
  rw [choices_filter, List.map_map]
  congr 3
  funext q
  rw [Function.comp_apply, List.filter_filter]
  apply List.filter_congr
  intro k _
  by_cases h : k.graph = g
  · simp [h, inside]
  · simp [h]

/-- Choices that share subject and graph, one graph after the other. -/
theorem perm_rowsIn (scope : Option Term) {triples : List Quad} (some_ : triples ≠ []) (ks : List Quad) :
    ((rowsInScope scope triples ks).filter fun rows => sameSubject rows && sameGraph rows).Perm
      (((ks.map Quad.graph).dedup.filter (Term.inScope scope)).flatMap fun g => rowsIn g triples ks) := by
  let key : List Quad → Term := fun rows => (rows.head?.map Quad.graph).getD .defaultGraph
  have covered : ∀ rows ∈ (rowsInScope scope triples ks).filter fun rows => sameSubject rows && sameGraph rows,
      key rows ∈ (ks.map Quad.graph).dedup.filter (Term.inScope scope) := by
    intro rows mem
    obtain ⟨k, rest, rfl, stored, inside⟩ := head_rowsInScope some_ (List.mem_of_mem_filter mem)
    exact List.mem_filter.2 ⟨List.mem_dedup.2 (List.mem_map_of_mem stored), inside⟩
  refine (perm_flatMap_filter key ((List.nodup_dedup _).filter _) covered).trans (List.Perm.of_eq ?_)
  apply List.flatMap_congr
  intro g mem
  rw [← rowsInScope_graph (List.mem_filter.1 mem).2, List.filter_filter, List.filter_filter]
  apply List.filter_congr
  intro rows inside
  obtain ⟨k, rest, rfl, -⟩ := head_rowsInScope some_ inside
  have graph := sameGraph_iff k rest g
  change (decide (k.graph = g) && _) = _
  rw [← graph]
  cases sameSubject (k :: rest) <;> cases sameGraph (k :: rest) <;> simp

end Group

end QuadStore
