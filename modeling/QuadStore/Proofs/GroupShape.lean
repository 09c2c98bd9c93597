import QuadStore.Proofs.ReaderRules
import QuadStore.Sparql.Group

namespace QuadStore.Sparql

mutual

inductive Expression.Readable : Expression → Prop
  | term (t : Term) : (Expression.term t).Readable
  | binary (op : Operator) {left right : Expression} (hl : left.Readable) (hr : right.Readable) :
    (Expression.binary op left right).Readable
  | negation {e : Expression} (h : e.Readable) : (Expression.negation e).Readable
  | opposite {e : Expression} (h : e.Readable) : (Expression.opposite e).Readable
  | member (negated : Bool) {e : Expression} {values : List Expression} (h : e.Readable)
    (all : ∀ v ∈ values, v.Readable) : (Expression.member negated e values).Readable
  | builtin (f : Builtin) {arguments : List Expression} (all : ∀ a ∈ arguments, a.Readable) :
    (Expression.builtin f arguments).Readable
  | call (function : Term) {arguments : List Expression} (all : ∀ a ∈ arguments, a.Readable) :
    (Expression.call function arguments).Readable
  | existence (negated : Bool) {pattern : Operation} (h : pattern.Readable) :
    (Expression.existence negated pattern).Readable

inductive Operation.Readable : Operation → Prop
  | bgp {found : List Quad} (unnamed : ∀ q ∈ found, q.graph = .defaultGraph) : (Operation.bgp found).Readable
  | join {left right : Operation} (hl : left.Readable) (hr : right.Readable) :
    (Operation.join left right).Readable
  | leftJoin {left right : Operation} {condition : Option Expression} (hl : left.Readable)
    (hr : right.Readable) (he : ∀ e, condition = some e → e.Readable) :
    (Operation.leftJoin left right condition).Readable
  | union {left right : Operation} (hl : left.Readable) (hr : right.Readable) :
    (Operation.union left right).Readable
  | minus {left right : Operation} (hl : left.Readable) (hr : right.Readable) :
    (Operation.minus left right).Readable
  | graph {name : Term} {input : Operation} (proper : name ≠ .defaultGraph) (h : input.Readable) :
    (Operation.graph name input).Readable
  | filter {condition : Expression} {input : Operation} (he : condition.Readable) (h : input.Readable) :
    (Operation.filter condition input).Readable

end

namespace Reader

variable {α β : Type} {P : α → Prop}

def asking : Setting := ⟨fun scope => scope.data = false ∧ scope.graph = .defaultGraph, fun _ => True⟩

abbrev Gives (r : Reader α) (P : α → Prop) : Prop := Holds asking r P

theorem gives_bind {r : Reader β} {f : β → Reader α} (hf : ∀ b, Gives (f b) P) : Gives (r >>= f) P := by
  have any : Gives r fun _ => True := fun _ _ _ _ _ _ _ => ⟨trivial, trivial⟩
  exact any.bind fun b _ => hf b

def Proper (t : Term) : Prop := t ≠ .defaultGraph

theorem gives_iri : Gives iri Proper := by
  refine gives_bind fun c => ?_
  split
  · exact gives_bind fun _ => gives_bind fun _ => holds_pure nofun
  · exact gives_bind fun _ => gives_bind fun _ => holds_pure nofun
  · exact holds_fail _

theorem gives_freshNode : Gives freshNode Proper := by
  refine gives_bind fun c => gives_bind fun _ => gives_bind fun s => ?_
  cases s.data <;> exact holds_pure nofun

theorem gives_number (negative : Bool) : Gives (number negative) Proper := by
  refine gives_bind fun next => ?_
  split
  · exact gives_bind fun _ => holds_pure nofun
  · exact gives_bind fun _ => holds_pure nofun
  · exact gives_bind fun _ => holds_pure nofun
  · exact holds_fail _

theorem gives_literal (lexical : Text) : Gives (literal lexical) Proper := by
  refine gives_bind fun next => ?_
  split
  · exact gives_bind fun _ => holds_pure nofun
  · exact gives_bind fun _ => gives_bind fun _ => holds_pure nofun
  · exact holds_pure nofun

theorem gives_term : Gives term Proper := by
  refine gives_bind fun next => ?_
  split
  · exact gives_bind fun s => holds_ite (holds_fail _) (gives_bind fun _ => holds_pure nofun)
  · exact gives_iri
  · exact gives_iri
  · refine gives_bind fun _ => gives_bind fun s => ?_
    cases s.data <;> exact holds_pure nofun
  · exact gives_bind fun _ => gives_literal _
  · exact gives_number false
  · exact gives_number false
  · exact gives_number false
  · exact gives_bind fun _ => holds_ite (gives_bind fun _ => gives_bind fun _ => gives_freshNode) (holds_fail _)
  · exact gives_bind fun _ => holds_ite (gives_bind fun _ => gives_number false) (holds_fail _)
  · exact gives_bind fun _ => holds_ite (gives_bind fun _ => gives_number true) (holds_fail _)
  · exact holds_ite (gives_bind fun _ => holds_pure nofun) (holds_fail _)
  · exact holds_fail _

theorem gives_graphName : Gives graphName Proper := by
  refine gives_bind fun next => gives_bind fun s => ?_
  split
  · exact gives_bind fun _ => holds_pure nofun
  · exact holds_ite gives_term (holds_fail _)

def Unnamed (found : List Quad) : Prop := ∀ q ∈ found, q.graph = .defaultGraph

theorem unnamed_nil : Unnamed [] := fun _ mem => absurd mem List.not_mem_nil

theorem Unnamed.append {a b : List Quad} (ha : Unnamed a) (hb : Unnamed b) : Unnamed (a ++ b) :=
  List.forall_mem_append.2 ⟨ha, hb⟩

theorem gives_tripleGraph : Gives tripleGraph fun g => g = .defaultGraph := by
  refine Holds.bind holds_scope fun s known => gives_bind fun next => ?_
  obtain ⟨query, unnamed⟩ := known
  rw [query, Bool.false_and, if_neg Bool.false_ne_true]
  exact holds_pure unnamed

variable {inner : Properties}

theorem gives_bracketed (h : ∀ t, Gives (inner t) Unnamed) :
    Gives (bracketed? inner) fun found => ∀ x ∈ found, Unnamed x.2 := by
  refine gives_bind fun _ => gives_bind fun _ => holds_ite ?_ (holds_pure nofun)
  refine gives_bind fun _ => gives_bind fun node => (h node).bind fun found unnamed => gives_bind fun _ => ?_
  refine holds_pure fun x mem => ?_
  cases mem
  exact unnamed

theorem gives_object (h : ∀ t, Gives (inner t) Unnamed) : Gives (object inner) fun x => Unnamed x.2 := by
  refine gives_bind fun _ => holds_ite (holds_fail _) ?_
  refine (gives_bracketed h).bind fun found unnamed => ?_
  cases found with
  | some x => exact holds_pure (unnamed x rfl)
  | none => exact gives_bind fun t => holds_pure unnamed_nil

theorem gives_objects (h : ∀ t, Gives (inner t) Unnamed) (subject predicate : Term) :
    Gives (objects inner subject predicate) Unnamed := by
  refine holds_loop (fun found before => ?_) unnamed_nil
  refine (gives_object h).bind fun x own => gives_tripleGraph.bind fun g unnamed => gives_bind fun more => ?_
  have all : Unnamed (found ++ x.2 ++ [⟨subject, predicate, x.1, g⟩]) :=
    (before.append own).append (by simpa [Unnamed] using unnamed)
  cases more <;> exact holds_pure all

theorem gives_propertiesWith (h : ∀ t, Gives (inner t) Unnamed) (subject : Term) :
    Gives (propertiesWith inner subject) Unnamed := by
  refine holds_loop (fun found before => gives_bind fun predicate => ?_) unnamed_nil
  refine (gives_objects h subject predicate).bind fun more unnamed => gives_bind fun _ => ?_
  have all := before.append unnamed
  refine holds_ite (gives_bind fun _ => gives_bind fun next => ?_) (holds_pure all)
  cases startsVerb next <;> exact holds_pure all

theorem gives_properties (subject : Term) : Gives (properties subject) Unnamed := by
  have nested : ∀ depth t, Gives (propertiesTo depth t) Unnamed := by
    intro depth
    induction depth with
    | zero => exact fun _ => holds_fail _
    | succ depth ih => exact fun t => gives_propertiesWith ih t
  exact gives_bind fun _ => nested _ subject

theorem gives_sameSubject : Gives sameSubject Unnamed := by
  refine gives_bind fun _ => holds_ite (holds_fail _) ?_
  refine (gives_bracketed gives_properties).bind fun found unnamed => ?_
  cases found with
  | none => exact gives_bind fun t => gives_properties t
  | some x =>
    have own := unnamed x rfl
    refine gives_bind fun _ => holds_ite ?_ (holds_pure own)
    exact (gives_properties x.1).bind fun more others => holds_pure (own.append others)

theorem gives_triples : Gives triples Unnamed := by
  refine holds_loop (fun found before => gives_bind fun _ => holds_ite ?_ (holds_pure before)) unnamed_nil
  refine gives_sameSubject.bind fun more unnamed => gives_bind fun next => ?_
  have all := before.append unnamed
  cases next <;> exact holds_pure all

variable {nested : Nested}

structure Nested.Reads (nested : Nested) : Prop where
  expression : Gives nested.expression Expression.Readable
  group : Gives nested.group Operation.Readable

theorem gives_chain {operand : Reader Expression} (choices : List Operator)
    (h : Gives operand Expression.Readable) : Gives (chain choices operand) Expression.Readable := by
  refine Holds.bind h fun e first => holds_loop (fun left before => gives_bind fun found => ?_) first
  cases found with
  | some op => exact Holds.bind h fun right added => holds_pure (.binary op before added)
  | none => exact holds_pure before

theorem gives_expressionList (h : nested.Reads) :
    Gives (expressionList nested) fun es => ∀ e ∈ es, e.Readable := by
  refine gives_bind fun _ => gives_bind fun _ => holds_ite (holds_pure nofun) ?_
  refine Holds.bind (holds_loop (fun found before => ?_) nofun) fun es all => gives_bind fun _ => holds_pure all
  refine Holds.bind h.expression fun e added => gives_bind fun more => ?_
  have all : ∀ e' ∈ found ++ [e], e'.Readable :=
    List.forall_mem_append.2 ⟨before, List.forall_mem_singleton.2 added⟩
  cases more <;> exact holds_pure all

theorem gives_parenthesized (h : nested.Reads) : Gives (parenthesized nested) Expression.Readable :=
  gives_bind fun _ => Holds.bind h.expression fun _ read => gives_bind fun _ => holds_pure read

theorem gives_wordExpression (h : nested.Reads) (word : Text) (after : Option Lexeme) :
    Gives (wordExpression nested word after) Expression.Readable := by
  refine holds_ite (gives_bind fun t => holds_pure (.term t)) (holds_ite ?_ (holds_ite ?_ (holds_ite (holds_fail _) ?_)))
  · exact gives_bind fun _ => Holds.bind h.group fun op read => holds_pure (.existence false read)
  · exact gives_bind fun _ => gives_bind fun _ => Holds.bind h.group fun op read => holds_pure (.existence true read)
  · split
    · exact gives_bind fun _ => (gives_expressionList h).bind fun es all => holds_pure (.builtin _ all)
    · exact holds_fail _

theorem gives_primary (h : nested.Reads) : Gives (primary nested) Expression.Readable := by
  have named : ∀ function : Term, Gives (do
      if ← onSymbol .openParen then return .call function (← expressionList nested)
      else return .term function) Expression.Readable := fun function =>
    gives_bind fun _ => holds_ite ((gives_expressionList h).bind fun es all => holds_pure (.call function all))
      (holds_pure (.term function))
  have plain : Gives (do return .term (← term)) Expression.Readable := gives_bind fun t => holds_pure (.term t)
  refine gives_bind fun next => ?_
  split
  · exact gives_parenthesized h
  · exact gives_bind fun after => gives_wordExpression h _ after
  · exact gives_bind named
  · exact gives_bind named
  · exact plain
  · exact plain
  · exact plain
  · exact plain
  · exact plain
  · exact plain
  · exact holds_fail _

theorem gives_unary (h : nested.Reads) : Gives (unary nested) Expression.Readable := by
  have own := gives_primary h
  refine gives_bind fun _ => holds_ite (own.bind fun e read => holds_pure (.negation read)) ?_
  refine gives_bind fun _ => holds_ite own (gives_bind fun _ => holds_ite ?_ own)
  refine gives_bind fun _ => holds_ite (gives_bind fun t => holds_pure (.term t)) ?_
  exact own.bind fun e read => holds_pure (.opposite read)

theorem gives_sum (h : nested.Reads) : Gives (sum nested) Expression.Readable :=
  gives_chain _ (gives_chain _ (gives_unary h))

theorem gives_comparison (h : nested.Reads) : Gives (comparison nested) Expression.Readable := by
  refine (gives_sum h).bind fun left first => gives_bind fun found => ?_
  cases found with
  | some op => exact (gives_sum h).bind fun right added => holds_pure (.binary op first added)
  | none =>
    refine gives_bind fun listed => ?_
    cases listed with
    | some negated => exact (gives_expressionList h).bind fun es all => holds_pure (.member negated first all)
    | none => exact holds_pure first

theorem gives_constraint (h : nested.Reads) : Gives (constraint nested) Expression.Readable := by
  refine gives_bind fun next => ?_
  split
  · exact gives_parenthesized h
  · exact gives_primary h
  · exact gives_primary h
  · exact gives_primary h
  · exact holds_fail _

theorem readable_empty : (Operation.bgp []).Readable := .bgp unnamed_nil

namespace Group

structure Readable (g : Group) : Prop where
  content : g.content.Readable
  filters : ∀ e ∈ g.filters, e.Readable

theorem readable_start : Readable {} := ⟨readable_empty, nofun⟩

variable {g : Group} {op : Operation}

theorem Readable.join (h : g.Readable) (added : op.Readable) : (g.join op).Readable := by
  obtain ⟨pattern, filters⟩ := g
  refine ⟨?_, h.filters⟩
  change (Operation.joined pattern op).Readable
  unfold Operation.joined
  split
  · exact added
  · exact added
  · exact h.content
  · exact .join h.content added

theorem Readable.addTriples (h : g.Readable) {found : List Quad} (unnamed : Unnamed found) :
    (g.addTriples found).Readable := by
  unfold Group.addTriples
  split
  · rename_i before last
    refine ⟨?_, h.filters⟩
    have content := h.content
    unfold Group.content at content
    rw [last] at content
    cases content with
    | bgp first => exact .bgp (Unnamed.append first unnamed)
  · exact h.join (.bgp unnamed)

theorem Readable.addOptional (h : g.Readable) (added : op.Readable) : (g.addOptional op).Readable := by
  unfold Group.addOptional
  split
  · cases added with
    | filter condition inner =>
      refine ⟨.leftJoin h.content inner fun e same => ?_, h.filters⟩
      cases same
      exact condition
  · exact ⟨.leftJoin h.content added nofun, h.filters⟩

theorem Readable.addFilter (h : g.Readable) {e : Expression} (added : e.Readable) :
    Readable { g with filters := g.filters ++ [e] } :=
  ⟨h.content, List.forall_mem_append.2 ⟨h.filters, List.forall_mem_singleton.2 added⟩⟩

theorem Readable.finish (h : g.Readable) : g.finish.Readable := by
  have joined : ∀ (es : List Expression) (e : Expression), (∀ e' ∈ es, e'.Readable) → e.Readable →
      (es.foldl (.binary .and) e).Readable := by
    intro es
    induction es with
    | nil => exact fun _ _ first => first
    | cons e' es ih =>
      intro e all first
      have ⟨next, rest⟩ := List.forall_mem_cons.1 all
      exact ih _ rest (.binary .and first next)
  obtain ⟨pattern, filters⟩ := g
  unfold Group.finish
  cases filters with
  | nil => exact h.content
  | cons e es =>
    have ⟨first, rest⟩ := List.forall_mem_cons.1 h.filters
    exact .filter (joined es e rest first) h.content

end Group

theorem gives_alternatives (h : nested.Reads) : Gives (alternatives nested) Operation.Readable := by
  refine Holds.bind h.group fun op first => holds_loop (fun left before => gives_bind fun _ => ?_) first
  refine holds_ite ?_ (holds_pure before)
  exact Holds.bind h.group fun right added => holds_pure (.union before added)

theorem gives_groupPart (h : nested.Reads) {g : Group} (before : g.Readable) :
    Gives (groupPart nested g) Group.Readable := by
  refine gives_bind fun _ => holds_ite ?_ (gives_bind fun _ => holds_ite ?_ (gives_bind fun _ => holds_ite ?_
    (gives_bind fun _ => holds_ite ?_ (gives_bind fun _ => holds_ite ?_ (gives_bind fun next => ?_)))))
  · exact Holds.bind h.group fun op added => holds_pure (before.addOptional added)
  · exact Holds.bind h.group fun op added => holds_pure ⟨.minus before.content added, before.filters⟩
  · refine gives_graphName.bind fun name proper => Holds.bind h.group fun op added => holds_pure (before.join ?_)
    exact .graph proper added
  · exact (gives_alternatives h).bind fun op added => holds_pure (before.join added)
  · exact (gives_constraint h).bind fun e added => holds_pure (before.addFilter added)
  · split <;> exact holds_fail _

theorem gives_groupParts (h : nested.Reads) : Gives (groupParts nested) Group.Readable := by
  refine holds_loop (fun g before => gives_bind fun _ => holds_ite (holds_pure before) ?_) Group.readable_start
  refine gives_bind fun _ => holds_ite (holds_fail _) (gives_bind fun _ => holds_ite ?_ ?_)
  · exact gives_triples.bind fun found unnamed => holds_pure (before.addTriples unnamed)
  · exact (gives_groupPart h before).bind fun g after => gives_bind fun _ => holds_pure after

theorem reads_nestedTo (depth : Nat) : (nestedTo depth).Reads := by
  induction depth with
  | zero => exact ⟨holds_fail _, holds_fail _⟩
  | succ depth ih =>
    refine ⟨gives_chain _ (gives_chain _ (gives_comparison ih)), ?_⟩
    refine gives_bind fun _ => gives_bind fun _ => holds_ite (holds_fail _) ?_
    exact (gives_groupParts ih).bind fun g read => holds_pure read.finish

theorem gives_nested : Gives Reader.nested Nested.Reads :=
  gives_bind fun _ => holds_pure (reads_nestedTo _)

theorem gives_group : Gives group Operation.Readable := gives_nested.bind fun _ h => h.group

theorem gives_expression : Gives expression Expression.Readable := gives_nested.bind fun _ h => h.expression

end Reader

end QuadStore.Sparql
