import QuadStore.Proofs.WrittenTree
import Mathlib.Tactic.Common

namespace QuadStore.Sparql

open Sparql.Tree

def termsOf (found : List Quad) : List Term := found.flatMap fun q => [q.subject, q.predicate, q.object, q.graph]

mutual

def Expression.terms : Expression → List Term
  | .term t => [t]
  | .binary _ left right => left.terms ++ right.terms
  | .negation e | .opposite e => e.terms
  | .member _ e values => e.terms ++ Expression.termsOfAll values
  | .builtin _ arguments => Expression.termsOfAll arguments
  | .call function arguments => function :: Expression.termsOfAll arguments
  | .existence _ pattern => pattern.terms

def Expression.termsOfAll : List Expression → List Term
  | [] => []
  | e :: es => e.terms ++ Expression.termsOfAll es

def Expression.termsOfSome : Option Expression → List Term
  | none => []
  | some e => e.terms

def OrderCondition.terms : OrderCondition → List Term
  | .on _ key => key.terms

def OrderCondition.termsOfAll : List OrderCondition → List Term
  | [] => []
  | o :: os => o.terms ++ OrderCondition.termsOfAll os

def Operation.terms : Operation → List Term
  | .bgp found => termsOf found
  | .join left right | .union left right | .minus left right => left.terms ++ right.terms
  | .leftJoin left right condition => left.terms ++ right.terms ++ Expression.termsOfSome condition
  | .graph name input => name :: input.terms
  | .filter condition input => condition.terms ++ input.terms
  | .orderBy conditions input => OrderCondition.termsOfAll conditions ++ input.terms
  | .project names input => names.map .var ++ input.terms
  | .distinct input | .reduced input | .slice _ _ input | .ask input => input.terms
  | .construct template input => termsOf template ++ input.terms
  | .describe targets input => targets ++ input.terms

end

def Content.terms : Content → List Term
  | .query root => root.terms
  | .update inserted deleted => termsOf inserted ++ termsOf deleted

variable {P : Term → Prop}

theorem forall_termsOf (found : List Quad) : (∀ t ∈ termsOf found, P t) ↔
    ∀ q ∈ found, P q.subject ∧ P q.predicate ∧ P q.object ∧ P q.graph := by
  induction found with
  | nil => simp [termsOf]
  | cons q found ih =>
    rw [termsOf, List.flatMap_cons, ← termsOf, List.forall_mem_append, ih]
    simp

theorem termsOf_append (a b : List Quad) : termsOf (a ++ b) = termsOf a ++ termsOf b := List.flatMap_append

theorem forall_termsOf_append (a b : List Quad) :
    (∀ t ∈ termsOf (a ++ b), P t) ↔ (∀ t ∈ termsOf a, P t) ∧ ∀ t ∈ termsOf b, P t := by
  rw [termsOf_append, List.forall_mem_append]

theorem Expression.forall_termsOfAll (es : List Expression) :
    (∀ t ∈ termsOfAll es, P t) ↔ ∀ e ∈ es, ∀ t ∈ e.terms, P t := by
  induction es with
  | nil => simp [termsOfAll]
  | cons e es ih => rw [termsOfAll, List.forall_mem_append, ih, List.forall_mem_cons]

theorem OrderCondition.forall_termsOfAll (os : List OrderCondition) :
    (∀ t ∈ termsOfAll os, P t) ↔ ∀ o ∈ os, ∀ t ∈ o.terms, P t := by
  induction os with
  | nil => simp [termsOfAll]
  | cons o os ih => rw [termsOfAll, List.forall_mem_append, ih, List.forall_mem_cons]

theorem var_of_mem_shown {x : Text} {t : Term} (mem : x ∈ shown t) : t = .var x := by
  cases t with
  | var name =>
    rw [shown] at mem
    split at mem
    · cases mem
    · rw [List.mem_singleton.1 mem]
  | _ => cases mem

theorem Operation.var_mem_terms {x : Text} : ∀ op : Operation, x ∈ op.mentioned → .var x ∈ op.terms
  | .bgp found => by
    intro mem
    obtain ⟨q, own, mem⟩ := List.mem_flatMap.1 mem
    obtain ⟨p, -, mem⟩ := List.mem_flatMap.1 mem
    refine List.mem_flatMap.2 ⟨q, own, ?_⟩
    rw [← var_of_mem_shown mem]
    cases p <;> simp [Quad.get]
  | .graph name input => by
    intro mem
    rcases List.mem_append.1 mem with mem | mem
    · exact List.mem_cons.2 (.inl (var_of_mem_shown mem).symm)
    · exact List.mem_cons_of_mem name (var_mem_terms input mem)
  | .minus left _ => fun mem => List.mem_append_left _ (var_mem_terms left mem)
  | .join left right | .union left right => by
    intro mem
    exact (List.mem_append.1 mem).elim (fun mem => List.mem_append_left _ (var_mem_terms left mem))
      fun mem => List.mem_append_right _ (var_mem_terms right mem)
  | .leftJoin left right _ => by
    intro mem
    refine List.mem_append_left _ ?_
    exact (List.mem_append.1 mem).elim (fun mem => List.mem_append_left _ (var_mem_terms left mem))
      fun mem => List.mem_append_right _ (var_mem_terms right mem)
  | .filter _ input | .orderBy _ input | .project _ input | .construct _ input | .describe _ input =>
    fun mem => List.mem_append_right _ (var_mem_terms input mem)
  | .distinct input | .reduced input | .slice _ _ input | .ask input => var_mem_terms input

theorem Operation.var_mem_inScope {x : Text} {op : Operation} (mem : x ∈ op.inScope) : .var x ∈ op.terms :=
  op.var_mem_terms (List.mem_eraseDups.1 mem)

theorem forall_vars_inScope {op : Operation} (all : ∀ t ∈ op.terms, P t) : ∀ t ∈ op.inScope.map Term.var, P t :=
  List.forall_mem_map.2 fun _ mem => all _ (Operation.var_mem_inScope mem)

namespace Reader.Group

variable (g : Reader.Group)

theorem forall_conjunction (es : List Expression) :
    (∀ t ∈ Expression.termsOfSome (Expression.conjunction? es), P t) ↔ ∀ e ∈ es, ∀ t ∈ e.terms, P t := by
  cases es with
  | nil => simp [Expression.conjunction?, Expression.termsOfSome]
  | cons e es =>
    rw [Expression.conjunction?, Expression.termsOfSome, List.forall_mem_cons]
    induction es generalizing e with
    | nil => simp
    | cons e' es ih =>
      rw [List.foldl_cons, ih, Expression.terms, List.forall_mem_append, List.forall_mem_cons, and_assoc]

theorem forall_finish : (∀ t ∈ g.finish.terms, P t) ↔
    (∀ t ∈ g.content.terms, P t) ∧ ∀ e ∈ g.filters, ∀ t ∈ e.terms, P t := by
  rw [← forall_conjunction, finish]
  cases Expression.conjunction? g.filters with
  | none => simp [Expression.termsOfSome]
  | some c => rw [Operation.terms, List.forall_mem_append, Expression.termsOfSome, and_comm]

theorem forall_joined (before : Option Operation) (op : Operation) : (∀ t ∈ (Operation.joined before op).terms, P t) ↔
    (∀ t ∈ (before.getD (.bgp [])).terms, P t) ∧ ∀ t ∈ op.terms, P t := by
  unfold Operation.joined
  split
  · simp [Operation.terms, termsOf]
  · simp [Operation.terms, termsOf]
  · simp [Operation.terms, termsOf]
  · rw [Operation.terms, List.forall_mem_append]
    rfl

theorem forall_join (op : Operation) : (∀ t ∈ (g.join op).finish.terms, P t) ↔
    (∀ t ∈ g.finish.terms, P t) ∧ ∀ t ∈ op.terms, P t := by
  rw [forall_finish, forall_finish g, and_right_comm]
  exact and_congr_left fun _ => forall_joined g.pattern op

theorem forall_addTriples (found : List Quad) : (∀ t ∈ (g.addTriples found).finish.terms, P t) ↔
    (∀ t ∈ g.finish.terms, P t) ∧ ∀ t ∈ termsOf found, P t := by
  unfold addTriples
  split
  · rename_i before same
    have before_ : g.content = .bgp before := by rw [content, same, Option.getD_some]
    rw [forall_finish, forall_finish g, and_right_comm, before_]
    exact and_congr_left fun _ => forall_termsOf_append before found
  · exact forall_join g (.bgp found)

theorem forall_addOptional (op : Operation) : (∀ t ∈ (g.addOptional op).finish.terms, P t) ↔
    (∀ t ∈ g.finish.terms, P t) ∧ ∀ t ∈ op.terms, P t := by
  rw [forall_finish g, and_right_comm]
  unfold addOptional
  split
  · rw [forall_finish, content, Option.getD_some, Operation.terms, Operation.terms, Expression.termsOfSome]
    simp only [List.forall_mem_append]
    tauto
  · rw [forall_finish, content, Option.getD_some, Operation.terms, Expression.termsOfSome, List.append_nil,
      List.forall_mem_append]

theorem forall_minus (op : Operation) :
    (∀ t ∈ ({ g with pattern := some (.minus g.content op) } : Reader.Group).finish.terms, P t) ↔
      (∀ t ∈ g.finish.terms, P t) ∧ ∀ t ∈ op.terms, P t := by
  rw [forall_finish, forall_finish g, and_right_comm]
  exact and_congr_left fun _ => List.forall_mem_append

theorem forall_filter (e : Expression) :
    (∀ t ∈ ({ g with filters := g.filters ++ [e] } : Reader.Group).finish.terms, P t) ↔
      (∀ t ∈ g.finish.terms, P t) ∧ ∀ t ∈ e.terms, P t := by
  rw [forall_finish, forall_finish g, List.forall_mem_append, List.forall_mem_singleton, and_assoc]
  rfl

end Reader.Group

namespace Tree

variable {scope : Scope}

def Forall (P : Term → Prop) (data : Bool) (leaves : List Leaf) : Prop := ∀ l ∈ leaves, P (l.term data)

theorem forall_append (data : Bool) (a b : List Leaf) :
    Forall P data (a ++ b) ↔ Forall P data a ∧ Forall P data b := List.forall_mem_append

theorem forall_cons (data : Bool) (l : Leaf) (ls : List Leaf) :
    Forall P data (l :: ls) ↔ P (l.term data) ∧ Forall P data ls := List.forall_mem_cons

theorem forall_graphOf (home : P scope.graph) (graph? : Option Leaf) :
    P (graphOf scope graph?) ↔ Forall P scope.data graph?.toList := by
  cases graph? with
  | none => exact iff_of_true home (List.forall_mem_nil _)
  | some l => simp [graphOf, Forall]

theorem forall_triple (s p o g : Term) : (∀ t ∈ termsOf [⟨s, p, o, g⟩], P t) ↔ P s ∧ P p ∧ P o ∧ P g := by
  rw [forall_termsOf, List.forall_mem_singleton]

mutual

theorem Node.forall_iff (home : P scope.graph) (o : Node) :
    P (o.term scope.data) ∧ (∀ t ∈ termsOf (o.quads scope), P t) ↔ Forall P scope.data o.leaves := by
  cases o with
  | leaf l => simp [Node.term, Node.quads, termsOf, Forall, Node.leaves]
  | bracketed n ps =>
    rw [Node.quads, Properties.forall_iff home _ ps, Node.leaves, forall_cons, Node.term, Leaf.term, and_self_left]

theorem Objects.forall_iff (home : P scope.graph) (s p : Term) (os : Objects) :
    (∀ t ∈ termsOf (os.quads scope s p), P t) ↔ P s ∧ P p ∧ Forall P scope.data os.leaves := by
  cases os with
  | one o graph? =>
    rw [Objects.quads, forall_termsOf_append, forall_triple, Objects.leaves, forall_append, ← Node.forall_iff home o,
      forall_graphOf home]
    tauto
  | also before o graph? =>
    rw [Objects.quads, forall_termsOf_append, forall_termsOf_append, Objects.forall_iff home s p before, forall_triple,
      Objects.leaves, forall_append, forall_append, ← Node.forall_iff home o, forall_graphOf home]
    tauto

theorem Properties.forall_iff (home : P scope.graph) (s : Term) (ps : Properties) :
    (∀ t ∈ termsOf (ps.quads scope s), P t) ↔ P s ∧ Forall P scope.data ps.leaves := by
  cases ps with
  | one verb os =>
    rw [Properties.quads, Objects.forall_iff home s _ os, Properties.leaves, forall_cons]
  | also before verb os =>
    rw [Properties.quads, forall_termsOf_append, Properties.forall_iff home s before, Objects.forall_iff home s _ os,
      Properties.leaves, forall_append, forall_cons]
    tauto

end

theorem Statement.forall_iff (home : P scope.graph) (s : Statement) :
    (∀ t ∈ termsOf (s.quads scope), P t) ↔ Forall P scope.data s.leaves := by
  cases s with
  | described subject ps =>
    rw [Statement.quads, forall_termsOf_append, Properties.forall_iff home, Statement.leaves, forall_append,
      ← Node.forall_iff home]
    tauto
  | bracketed n ps => rw [Statement.quads, Properties.forall_iff home, Statement.leaves, forall_cons, Leaf.term]

theorem forall_quadsOf (scope : Scope) (home : P scope.graph) (ss : List Statement) :
    (∀ t ∈ termsOf (quadsOf scope ss), P t) ↔ Forall P scope.data (ss.flatMap Statement.leaves) := by
  induction ss with
  | nil => simp [quadsOf, termsOf, Forall]
  | cons s ss ih =>
    rw [quadsOf, List.flatMap_cons, forall_termsOf_append, ← quadsOf, ih, List.flatMap_cons, forall_append,
      Statement.forall_iff home]

mutual

theorem Condition.forall_iff (home : P scope.graph) (c : Condition) :
    (∀ t ∈ (c.expression scope).terms, P t) ↔ Forall P scope.data c.leaves := by
  cases c with
  | leaf l => simp [Condition.expression, Expression.terms, Forall, Condition.leaves]
  | binary op left right =>
    rw [Condition.expression, Expression.terms, List.forall_mem_append, Condition.forall_iff home left,
      Condition.forall_iff home right, Condition.leaves, forall_append]
  | negation c | opposite c => exact Condition.forall_iff home c
  | member negated c values =>
    rw [Condition.expression, Expression.terms, List.forall_mem_append, Condition.forall_iff home c,
      Conditions.forall_iff home values, Condition.leaves, forall_append]
  | builtin f arguments => exact Conditions.forall_iff home arguments
  | call function arguments =>
    rw [Condition.expression, Expression.terms, List.forall_mem_cons, Conditions.forall_iff home arguments,
      Condition.leaves, forall_cons]
    rfl
  | existence negated g => exact Group.forall_iff home g

theorem Conditions.forall_iff (home : P scope.graph) (cs : Conditions) :
    (∀ t ∈ Expression.termsOfAll (cs.expressions scope), P t) ↔ Forall P scope.data cs.leaves := by
  cases cs with
  | none => simp [Conditions.expressions, Expression.termsOfAll, Forall, Conditions.leaves]
  | also before c =>
    rw [Conditions.expressions, Expression.forall_termsOfAll, List.forall_mem_append, ← Expression.forall_termsOfAll,
      Conditions.forall_iff home before, List.forall_mem_singleton, Condition.forall_iff home c, Conditions.leaves,
      forall_append]

theorem Group.forall_iff (home : P scope.graph) (g : Tree.Group) :
    (∀ t ∈ (g.read scope).finish.terms, P t) ↔ Forall P scope.data g.leaves := by
  cases g with
  | empty => simp [Group.read, Reader.Group.finish, Expression.conjunction?, Reader.Group.content, Operation.terms,
      termsOf, Forall, Group.leaves]
  | triples before found =>
    rw [Group.read, Reader.Group.forall_addTriples, Group.forall_iff home before, forall_quadsOf scope home,
      Group.leaves, forall_append]
  | optional before operand =>
    rw [Group.read, Reader.Group.forall_addOptional, Group.forall_iff home before, Group.forall_iff home operand,
      Group.leaves, forall_append]
  | minus before operand =>
    rw [Group.read, Reader.Group.forall_minus, Group.forall_iff home before, Group.forall_iff home operand,
      Group.leaves, forall_append]
  | graph before name operand =>
    rw [Group.read, Reader.Group.forall_join, Group.forall_iff home before, Operation.terms, List.forall_mem_cons,
      Group.forall_iff home operand, Group.leaves, forall_append, forall_cons]
    rfl
  | choice before operands =>
    rw [Group.read, Reader.Group.forall_join, Group.forall_iff home before, Choice.forall_iff home operands,
      Group.leaves, forall_append]
  | filter before c =>
    rw [Group.read, Reader.Group.forall_filter, Group.forall_iff home before, Condition.forall_iff home c,
      Group.leaves, forall_append]

theorem Choice.forall_iff (home : P scope.graph) (operands : Choice) :
    (∀ t ∈ (operands.pattern scope).terms, P t) ↔ Forall P scope.data operands.leaves := by
  cases operands with
  | single operand => exact Group.forall_iff home operand
  | either left right =>
    rw [Choice.pattern, Operation.terms, List.forall_mem_append, Choice.forall_iff home left,
      Group.forall_iff home right, Choice.leaves, forall_append]

end

theorem Shape.forall_sliced (s : Shape) (op : Operation) : (∀ t ∈ (s.sliced op).terms, P t) ↔ ∀ t ∈ op.terms, P t := by
  unfold Shape.sliced
  split <;> rfl

theorem Shape.forall_ordered (home : P scope.graph) (s : Shape) (op : Operation) :
    (∀ t ∈ (s.ordered scope op).terms, P t) ↔ (∀ t ∈ op.terms, P t) ∧ Forall P scope.data s.leaves := by
  have conditions : (∀ t ∈ OrderCondition.termsOfAll (s.conditions scope), P t) ↔ Forall P scope.data s.leaves := by
    rw [OrderCondition.forall_termsOfAll, Shape.conditions, Shape.leaves]
    simp only [List.forall_mem_map, Forall, List.forall_mem_flatMap, OrderCondition.terms,
      Condition.forall_iff home]
  rw [← conditions, Shape.ordered, Shape.conditions]
  split
  · rename_i none_
    rw [List.isEmpty_iff.1 none_]
    simp [OrderCondition.termsOfAll]
  · rw [Operation.terms, List.forall_mem_append, and_comm]

theorem forall_shaped (home : P scope.graph) (s : Shape) (op : Operation) :
    (∀ t ∈ (s.sliced (s.ordered scope op)).terms, P t) ↔ (∀ t ∈ op.terms, P t) ∧ Forall P scope.data s.leaves := by
  rw [Shape.forall_sliced, Shape.forall_ordered home]

theorem forall_wrapped (isDistinct isReduced : Bool) (op : Operation) :
    (∀ t ∈ (wrapped isDistinct isReduced op).terms, P t) ↔ ∀ t ∈ op.terms, P t := by
  cases isDistinct <;> cases isReduced <;> rfl

theorem Query.forall_iff (home : P scope.graph) (q : Query) :
    (∀ t ∈ (q.root scope).terms, P t) ↔ Forall P scope.data q.leaves := by
  cases q with
  | select isDistinct isReduced chosen g shape =>
    have whole := Shape.forall_ordered home shape (g.pattern scope)
    rw [Group.pattern, Group.forall_iff home, ← forall_append] at whole
    rw [Query.root, Shape.forall_sliced, forall_wrapped, Operation.terms, List.forall_mem_append, Group.pattern, whole,
      Query.leaves, forall_append _ (List.map _ _)]
    refine and_congr_left fun all => ?_
    cases chosen with
    | none => exact iff_of_true (forall_vars_inScope (whole.2 all)) (List.forall_mem_nil _)
    | some names => simp [Forall, Leaf.term, Name.term]
  | ask g shape =>
    rw [Query.root, Operation.terms, forall_shaped home, Group.pattern, Group.forall_iff home, Query.leaves,
      forall_append]
  | construct template g shape =>
    rw [Query.root, Operation.terms, List.forall_mem_append, forall_quadsOf scope home, forall_shaped home,
      Group.pattern, Group.forall_iff home, Query.leaves, forall_append, forall_append]
  | constructWhere template shape =>
    rw [Query.root, Operation.terms, List.forall_mem_append, forall_shaped home, Operation.terms,
      forall_quadsOf scope home, and_self_left, Query.leaves, forall_append]
  | describe targets g shape =>
    rw [Query.root, Operation.terms, List.forall_mem_append, forall_shaped home, Group.pattern, Group.forall_iff home,
      Query.leaves, forall_append, forall_append]
    refine and_congr_left fun all => ?_
    split
    · rename_i none_
      rw [List.isEmpty_iff.1 none_]
      exact iff_of_true (forall_vars_inScope ((Group.forall_iff home g).2 all.1)) (List.forall_mem_nil _)
    · exact List.forall_mem_map

def Plain (P : Term → Prop) (data : Bool) (leaves : List Leaf) : Prop :=
  ∀ l ∈ leaves, (∀ lexical kind, l ≠ .quoted lexical kind) → P (l.term data)

theorem Plain.left {data : Bool} {a b : List Leaf} (h : Plain P data (a ++ b)) : Plain P data a :=
  fun l mem => h l (List.mem_append_left b mem)

theorem Plain.right {data : Bool} {a b : List Leaf} (h : Plain P data (a ++ b)) : Plain P data b :=
  fun l mem => h l (List.mem_append_right a mem)

theorem forall_named {name : GraphName} {found : List Statement}
    (plain : Plain P scope.data (name.leaf :: found.flatMap Statement.leaves)) :
    (∀ t ∈ termsOf (quadsOf { scope with graph := name.term scope.data } found), P t) ↔
      Forall P scope.data (name.leaf :: found.flatMap Statement.leaves) := by
  have named : P (name.term scope.data) := by
    refine plain name.leaf List.mem_cons_self fun _ _ => ?_
    cases name <;> exact nofun
  rw [forall_quadsOf { scope with graph := name.term scope.data } named, forall_cons]
  exact (and_iff_right named).symm

theorem Block.forall_iff (home : P scope.graph) (b : Block) (plain : Plain P scope.data b.leaves) :
    (∀ t ∈ termsOf (b.quads scope), P t) ↔ Forall P scope.data b.leaves := by
  cases b with
  | triples found => exact forall_quadsOf scope home found
  | graph name found => exact forall_named plain

theorem forall_blocks (scope : Scope) (home : P scope.graph) (bs : List Block)
    (plain : Plain P scope.data (bs.flatMap Block.leaves)) :
    (∀ t ∈ termsOf (bs.flatMap (·.quads scope)), P t) ↔ Forall P scope.data (bs.flatMap Block.leaves) := by
  induction bs with
  | nil => simp [termsOf, Forall]
  | cons b bs ih =>
    rw [List.flatMap_cons] at plain
    rw [List.flatMap_cons, forall_termsOf_append, b.forall_iff home plain.left, ih plain.right, List.flatMap_cons,
      forall_append]

theorem forall_updates (home : P scope.graph) (parts : List Update)
    (plain : Plain P true (parts.flatMap Update.leaves)) :
    (∀ t ∈ (Content.update (parts.flatMap (·.inserted { scope with data := true }))
      (parts.flatMap (·.deleted { scope with data := true }))).terms, P t) ↔
        Forall P true (parts.flatMap Update.leaves) := by
  rw [Content.terms, List.forall_mem_append]
  induction parts with
  | nil => simp [termsOf, Forall]
  | cons part parts ih =>
    rw [List.flatMap_cons] at plain
    rw [List.flatMap_cons, List.flatMap_cons, List.flatMap_cons, forall_append, ← ih plain.right, forall_termsOf_append,
      forall_termsOf_append]
    have own := plain.left
    cases part with
    | insertion bs =>
      rw [Update.leaves] at own ⊢
      rw [Update.inserted, Update.deleted, forall_blocks { scope with data := true } home bs own]
      simp [termsOf]
      tauto
    | deletion bs =>
      rw [Update.leaves] at own ⊢
      rw [Update.inserted, Update.deleted, forall_blocks { scope with data := true } home bs own]
      simp [termsOf]
      tauto

theorem Request.forall_iff (home : P scope.graph) (query : scope.data = false) (r : Request)
    (plain : Plain P r.isData r.leaves) :
    (∀ t ∈ (r.content scope).terms, P t) ↔ Forall P r.isData r.leaves := by
  cases r with
  | query q =>
    rw [Request.isData, ← query]
    exact q.forall_iff home
  | update parts => exact forall_updates home parts plain

theorem Document.forall_addStated (d : Document) (found : List Quad) :
    (∀ t ∈ termsOf (d.addStated found).quads, P t) ↔ (∀ t ∈ termsOf d.quads, P t) ∧ ∀ t ∈ termsOf found, P t := by
  rw [Document.addStated, Document.quads, ← List.append_assoc, forall_termsOf_append]
  rfl

theorem Part.forall_add (home : P scope.graph) (start : P scope.home) (d : Document) (part : Part)
    (plain : Plain P scope.data part.leaves) : (∀ t ∈ termsOf (part.add scope d).quads, P t) ↔
      (∀ t ∈ termsOf d.quads, P t) ∧ Forall P scope.data part.leaves := by
  cases part with
  | insertion bs =>
    rw [Part.add, Part.leaves, ← forall_blocks scope home bs plain, Document.quads, forall_termsOf_append,
      forall_termsOf_append, Document.quads, forall_termsOf_append, and_right_comm]
  | home found =>
    rw [Part.add, Document.forall_addStated, Part.leaves, forall_quadsOf { scope with graph := scope.home } start]
  | graph name found => rw [Part.add, Document.forall_addStated, Part.leaves, forall_named plain]
  | statement s => rw [Part.add, Document.forall_addStated, Part.leaves, s.forall_iff home]

theorem document_forall_iff (home : P scope.graph) (start : P scope.home) (parts : List Part)
    (plain : Plain P scope.data (parts.flatMap Part.leaves)) :
    (∀ t ∈ termsOf (document scope parts).quads, P t) ↔ Forall P scope.data (parts.flatMap Part.leaves) := by
  have from_ (d : Document) : (∀ t ∈ termsOf (parts.foldl (Part.add scope) d).quads, P t) ↔
      (∀ t ∈ termsOf d.quads, P t) ∧ Forall P scope.data (parts.flatMap Part.leaves) := by
    induction parts generalizing d with
    | nil => simp [Forall]
    | cons part parts ih =>
      rw [List.flatMap_cons] at plain
      rw [List.foldl_cons, ih plain.right, part.forall_add home start d plain.left, List.flatMap_cons, forall_append,
        and_assoc]
  rw [document, from_]
  exact and_iff_right (List.forall_mem_nil _)

end Tree

end QuadStore.Sparql
