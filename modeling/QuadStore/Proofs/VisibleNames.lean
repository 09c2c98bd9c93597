import QuadStore.Proofs.FirstOfEach
import QuadStore.Proofs.TreeTerms

namespace QuadStore.Sparql

open Sparql.Tree FirstOfEach

/-- What is collected from the parts of a pattern in their order, and from no condition. -/
structure Operation.Collects {α : Type} (f : Operation → List α) : Prop where
  bgp : ∀ a b, f (.bgp (a ++ b)) = f (.bgp a) ++ f (.bgp b)
  join : ∀ left right, f (.join left right) = f left ++ f right
  leftJoin : ∀ left right condition, f (.leftJoin left right condition) = f left ++ f right
  filter : ∀ condition input, f (.filter condition input) = f input

namespace Operation

theorem collects_triples : Collects triples :=
  ⟨fun _ _ => rfl, fun _ _ => rfl, fun _ _ _ => rfl, fun _ _ => rfl⟩

theorem collects_mentioned : Collects mentioned :=
  ⟨fun _ _ => List.flatMap_append, fun _ _ => rfl, fun _ _ _ => rfl, fun _ _ => rfl⟩

namespace Collects

variable {α : Type} {f : Operation → List α} (h : Collects f) (g : Reader.Group)
include h

theorem empty : f (.bgp []) = [] := List.self_eq_append_right.1 (h.bgp [] [])

theorem finish : f g.finish = f g.content := by
  unfold Reader.Group.finish
  split
  · exact h.filter _ _
  · rfl

theorem joined (before : Option Operation) (op : Operation) :
    f (Operation.joined before op) = f (before.getD (.bgp [])) ++ f op := by
  unfold Operation.joined
  split
  · rw [Option.getD_none, h.empty, List.nil_append]
  · rw [Option.getD_some, h.empty, List.nil_append]
  · rw [Option.getD_some, h.empty, List.append_nil]
  · exact h.join _ _

theorem added (op : Operation) : f (g.join op).finish = f g.finish ++ f op := by
  rw [h.finish, h.finish g]
  exact h.joined g.pattern op

theorem addTriples (found : List Quad) : f (g.addTriples found).finish = f g.finish ++ f (.bgp found) := by
  unfold Reader.Group.addTriples
  split
  · rename_i before same
    have own : g.content = .bgp before := by rw [Reader.Group.content, same, Option.getD_some]
    rw [h.finish, h.finish g, own]
    exact h.bgp before found
  · exact h.added g (.bgp found)

theorem addOptional (op : Operation) : f (g.addOptional op).finish = f g.finish ++ f op := by
  rw [h.finish, h.finish g]
  unfold Reader.Group.addOptional
  split
  · rename_i condition inner
    rw [h.filter]
    exact h.leftJoin _ _ _
  · exact h.leftJoin _ _ _

end Collects

end Operation

namespace Tree

def Leaf.var? : Leaf → Option Text
  | name (.var x) => some x
  | name _ | iri _ | quoted .. | bare .. => none

/-- The variables among leaves that a result shows: those with names that no node becomes. -/
def visible (leaves : List Leaf) : List Text := (leaves.filterMap Leaf.var?).filter (!blankMark.isPrefixOf ·)

theorem visible_append (a b : List Leaf) : visible (a ++ b) = visible a ++ visible b := by
  rw [visible, List.filterMap_append, List.filter_append]
  rfl

theorem visible_congr {a b : List Text} {l m : List Leaf} (ha : a.eraseDups = (visible l).eraseDups)
    (hb : b.eraseDups = (visible m).eraseDups) : (a ++ b).eraseDups = (visible (l ++ m)).eraseDups := by
  rw [visible_append]
  exact eraseDups_append_congr ha hb

theorem shown_node (label : Text) : shown (.var (blankMark ++ label)) = [] := by
  rw [shown, if_pos (List.isPrefixOf_iff_prefix.2 (List.prefix_append _ _))]

theorem shown_leaf (l : Leaf) : shown (l.term false) = visible [l] := by
  cases l with
  | name n =>
    cases n with
    | var x =>
      by_cases hidden : blankMark.isPrefixOf x = true <;>
        simp [Leaf.term, Name.term, shown, visible, Leaf.var?, hidden]
    | label l => exact shown_node l
    | anonymous n => exact shown_node _
  | _ => rfl

mutual

/-- The leaves of a pattern that its solutions have values for: all but those of conditions and of what
is taken away. -/
def Group.placed : Group → List Leaf
  | .empty => []
  | .triples before found => before.placed ++ found.flatMap Statement.leaves
  | .optional before operand => before.placed ++ operand.placed
  | .graph before name operand => before.placed ++ (name.leaf :: operand.placed)
  | .choice before operands => before.placed ++ operands.placed
  | .minus before _ | .filter before _ => before.placed

def Choice.placed : Choice → List Leaf
  | .single operand => operand.placed
  | .either left right => left.placed ++ right.placed

end

def Flat (found : List Quad) : Prop :=
  ∀ q ∈ found, ∀ r ∈ found, r.object = q.subject → q.subject.isVar = false

theorem Flat.mono {a b : List Quad} (flat : Flat b) (sub : a ⊆ b) : Flat a :=
  fun q hq r hr => flat q (sub hq) r (sub hr)

theorem Flat.left {a b : List Quad} (flat : Flat (a ++ b)) : Flat a := flat.mono (List.subset_append_left a b)

theorem Flat.right {a b : List Quad} (flat : Flat (a ++ b)) : Flat b := flat.mono (List.subset_append_right a b)

theorem flat_of_subject {found : List Quad} {x : Text} (subjects : ∀ q ∈ found, q.subject = .var x)
    (objects : ∀ q ∈ found, q.object ≠ .var x) : Flat found :=
  fun q hq r hr same => absurd (same.trans (subjects q hq)) (objects r hr)

variable {scope : Scope}

theorem Objects.exists_quad (scope : Scope) (s p : Term) (os : Objects) : ∃ q ∈ os.quads scope s p, q.subject = s := by
  cases os <;> exact ⟨_, List.mem_append_right _ (List.mem_singleton.2 rfl), rfl⟩

theorem Properties.exists_quad (scope : Scope) (s : Term) (ps : Properties) :
    ∃ q ∈ ps.quads scope s, q.subject = s := by
  cases ps with
  | one verb os => exact os.exists_quad scope s _
  | also before verb os =>
    obtain ⟨q, mem, own⟩ := os.exists_quad scope s (verb.term scope.data)
    exact ⟨q, List.mem_append_right _ mem, own⟩

theorem mentioned_triple (s p o g : Term) :
    (Operation.bgp [⟨s, p, o, g⟩]).mentioned = shown s ++ (shown p ++ (shown o ++ shown g)) := by
  simp [Operation.mentioned, Position.all, Quad.get]

section

variable (query : scope.data = false) (home : shown scope.graph = [])
include query

theorem leaf_of_flat {s p g : Term} {o : Node} (flat : Flat (o.quads scope ++ [⟨s, p, o.term scope.data, g⟩])) :
    ∃ l, o = .leaf l := by
  cases o with
  | leaf l => exact ⟨l, rfl⟩
  | bracketed n ps =>
    obtain ⟨q, mem, own⟩ := ps.exists_quad scope ((Name.anonymous n).term scope.data)
    have object := flat q (List.mem_append_left _ mem) _ (List.mem_append_right _ (List.mem_singleton.2 rfl)) own.symm
    rw [own, query] at object
    cases object

include home

theorem shown_graphOf (graph? : Option Leaf) : shown (graphOf scope graph?) = visible graph?.toList := by
  cases graph? with
  | none => exact home
  | some l =>
    rw [graphOf, query]
    exact shown_leaf l

theorem mentioned_object {s p : Term} {o : Node} {graph? : Option Leaf}
    (flat : Flat (o.quads scope ++ [⟨s, p, o.term scope.data, graphOf scope graph?⟩])) :
    (Operation.bgp (o.quads scope ++ [⟨s, p, o.term scope.data, graphOf scope graph?⟩])).mentioned =
      shown s ++ (shown p ++ visible (o.leaves ++ graph?.toList)) := by
  obtain ⟨l, rfl⟩ := leaf_of_flat query flat
  rw [Node.quads, List.nil_append, mentioned_triple, shown_graphOf query home, Node.term, query, shown_leaf,
    ← visible_append, Node.leaves]

theorem Objects.mentioned_eq (s p : Term) (os : Objects) (flat : Flat (os.quads scope s p)) :
    (Operation.bgp (os.quads scope s p)).mentioned.eraseDups =
      (shown s ++ (shown p ++ visible os.leaves)).eraseDups := by
  match os with
  | .one o graph? => rw [Objects.quads] at flat ⊢; rw [mentioned_object query home flat, Objects.leaves]
  | .also before o graph? =>
    rw [Objects.quads, List.append_assoc] at flat ⊢
    rw [Operation.collects_mentioned.bgp, mentioned_object query home flat.right, Objects.leaves,
      visible_append before.leaves,
      eraseDups_append_congr (Objects.mentioned_eq s p before flat.left) rfl]
    -- subject and predicate have been seen before
    have seen : shown s ++ shown p ⊆ shown s ++ (shown p ++ visible before.leaves) := by
      rw [← List.append_assoc]
      exact List.subset_append_left _ _
    have again := eraseDups_again seen (visible (o.leaves ++ graph?.toList))
    simpa only [List.append_assoc] using again

theorem Properties.mentioned_eq (s : Term) (ps : Properties) (flat : Flat (ps.quads scope s)) :
    (Operation.bgp (ps.quads scope s)).mentioned.eraseDups = (shown s ++ visible ps.leaves).eraseDups := by
  have one (verb : Leaf) (os : Objects) (flat : Flat (os.quads scope s (verb.term scope.data))) :
      (Operation.bgp (os.quads scope s (verb.term scope.data))).mentioned.eraseDups =
        (shown s ++ visible (verb :: os.leaves)).eraseDups := by
    rw [Objects.mentioned_eq query home s _ os flat, query, shown_leaf, ← visible_append, List.singleton_append]
  match ps with
  | .one verb os => exact one verb os flat
  | .also before verb os =>
    rw [Properties.quads] at flat ⊢
    rw [Operation.collects_mentioned.bgp, Properties.leaves, visible_append,
      eraseDups_append_congr (Properties.mentioned_eq s before flat.left) (one verb os flat.right),
      List.append_assoc]
    have again := eraseDups_again (List.subset_append_left (shown s) (visible before.leaves))
      (visible (verb :: os.leaves))
    rwa [List.append_assoc, List.append_assoc] at again

theorem Statement.mentioned_eq (s : Statement) (flat : Flat (s.quads scope)) :
    (Operation.bgp (s.quads scope)).mentioned.eraseDups = (visible s.leaves).eraseDups := by
  have bracketed (n : Nat) (ps : Properties) (flat : Flat (ps.quads scope ((Name.anonymous n).term scope.data))) :
      (Operation.bgp (ps.quads scope ((Name.anonymous n).term scope.data))).mentioned.eraseDups =
        (visible ps.leaves).eraseDups := by
    rw [Properties.mentioned_eq query home _ ps flat, query]
    exact congrArg (fun hidden => (hidden ++ visible ps.leaves).eraseDups) (shown_node _)
  cases s with
  | bracketed n ps => exact bracketed n ps flat
  | described subject ps =>
    rw [Statement.quads] at flat ⊢
    cases subject with
    | leaf l =>
      rw [Node.quads, List.nil_append, Node.term] at flat ⊢
      rw [Properties.mentioned_eq query home _ ps flat, query, shown_leaf, ← visible_append]
      rfl
    | bracketed n ps' =>
      rw [Node.quads, Node.term] at flat ⊢
      rw [Operation.collects_mentioned.bgp]
      exact visible_congr (bracketed n ps' flat.left) (bracketed n ps flat.right)

theorem mentioned_quadsOf (found : List Statement) (flat : Flat (quadsOf scope found)) :
    (Operation.bgp (quadsOf scope found)).mentioned.eraseDups =
      (visible (found.flatMap Statement.leaves)).eraseDups := by
  induction found with
  | nil => rfl
  | cons s found ih =>
    rw [quadsOf, List.flatMap_cons, ← quadsOf] at flat ⊢
    rw [Operation.collects_mentioned.bgp]
    exact visible_congr (s.mentioned_eq query home flat.left) (ih flat.right)

end

mutual

theorem Group.mentioned_eq (query : scope.data = false) (home : shown scope.graph = []) (g : Tree.Group)
    (flat : Flat (g.read scope).finish.triples) :
    (g.read scope).finish.mentioned.eraseDups = (visible g.placed).eraseDups := by
  cases g with
  | empty => rfl
  | triples before found =>
    rw [Group.read, Operation.collects_triples.addTriples] at flat
    rw [Group.read, Operation.collects_mentioned.addTriples, Group.placed]
    exact visible_congr (Group.mentioned_eq query home before flat.left)
      (mentioned_quadsOf query home found flat.right)
  | optional before operand =>
    rw [Group.read, Operation.collects_triples.addOptional] at flat
    rw [Group.read, Operation.collects_mentioned.addOptional, Group.placed]
    exact visible_congr (Group.mentioned_eq query home before flat.left)
      (Group.mentioned_eq query home operand flat.right)
  | minus before operand =>
    rw [Group.read, Operation.collects_triples.finish] at flat
    rw [Group.read, Operation.collects_mentioned.finish, Group.placed]
    rw [← Group.mentioned_eq query home before, Operation.collects_mentioned.finish]
    · rfl
    · rw [Operation.collects_triples.finish]
      exact flat.left
  | graph before name operand =>
    rw [Group.read, Operation.collects_triples.added] at flat
    rw [Group.read, Operation.collects_mentioned.added, Group.placed]
    refine visible_congr (Group.mentioned_eq query home before flat.left) ?_
    rw [Operation.mentioned, GraphName.term, query, shown_leaf]
    exact visible_congr rfl (Group.mentioned_eq query home operand flat.right)
  | choice before operands =>
    rw [Group.read, Operation.collects_triples.added] at flat
    rw [Group.read, Operation.collects_mentioned.added, Group.placed]
    exact visible_congr (Group.mentioned_eq query home before flat.left)
      (Choice.mentioned_eq query home operands flat.right)
  | filter before c =>
    rw [Group.read, Operation.collects_triples.finish] at flat
    rw [Group.read, Operation.collects_mentioned.finish, Group.placed, ← Group.mentioned_eq query home before,
      Operation.collects_mentioned.finish]
    · rfl
    · rw [Operation.collects_triples.finish]
      exact flat

theorem Choice.mentioned_eq (query : scope.data = false) (home : shown scope.graph = []) (operands : Choice)
    (flat : Flat (operands.pattern scope).triples) :
    (operands.pattern scope).mentioned.eraseDups = (visible operands.placed).eraseDups := by
  cases operands with
  | single operand => exact Group.mentioned_eq query home operand flat
  | either left right =>
    rw [Choice.pattern, Operation.mentioned, Choice.placed]
    exact visible_congr (Choice.mentioned_eq query home left flat.left)
      (Group.mentioned_eq query home right flat.right)

end

theorem Shape.mentioned_ordered (s : Shape) (op : Operation) : (s.ordered scope op).mentioned = op.mentioned := by
  unfold Shape.ordered
  split <;> rfl

/-- What a star selects is what is written in the pattern. -/
theorem inScope_eq (query : scope.data = false) (home : shown scope.graph = []) (g : Tree.Group) (shape : Shape)
    (flat : Flat (g.pattern scope).triples) :
    (shape.ordered scope (g.pattern scope)).inScope = (visible g.placed).eraseDups := by
  rw [Operation.inScope, shape.mentioned_ordered]
  exact g.mentioned_eq query home flat

end Tree

end QuadStore.Sparql
