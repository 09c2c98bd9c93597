import QuadStore.Proofs.Digits
import QuadStore.Proofs.TreeReading

namespace QuadStore.Sparql

open Sparql.Tree

def generated (bracket : Nat) : Text := "genid" ++ Text.ofNat bracket

/-- Different names of one term. -/
inductive Clash : Bool → Name → Name → Prop where
  | labelled (l : Text) : Clash false (.var (blankMark ++ l)) (.label l)
  | numbered (n : Nat) : Clash false (.var (blankMark ++ generated n)) (.anonymous n)
  | generated (data : Bool) (n : Nat) : Clash data (.label (generated n)) (.anonymous n)

theorem Clash.same {data : Bool} {a b : Name} (clash : Clash data a b) : a.term data = b.term data := by
  cases clash <;> rfl

theorem Clash.ne {data : Bool} {a b : Name} (clash : Clash data a b) : a ≠ b := by
  cases clash <;> exact nofun

namespace Name

theorem generated_inj {m n : Nat} (h : generated m = generated n) : m = n :=
  Text.ofNat_inj (List.append_cancel_left h)

def nodeTerm (data : Bool) (l : Text) : Term := if data then .blank l else .var (blankMark ++ l)

theorem nodeTerm_inj {data : Bool} {l l' : Text} (h : nodeTerm data l = nodeTerm data l') : l = l' := by
  cases data with
  | true => exact Term.blank.inj h
  | false => exact List.append_cancel_left (Term.var.inj h)

theorem var_eq_nodeTerm {data : Bool} {x l : Text} (h : Term.var x = nodeTerm data l) :
    data = false ∧ x = blankMark ++ l := by
  cases data with
  | true => cases h
  | false => exact ⟨rfl, Term.var.inj h⟩

/-- Names become one term if they are the same, or clash. -/
theorem term_eq_iff (data : Bool) (a b : Name) :
    a.term data = b.term data ↔ a = b ∨ Clash data a b ∨ Clash data b a := by
  constructor
  · intro same
    cases a with
    | var x =>
      cases b with
      | var y => exact .inl (congrArg _ (Term.var.inj same))
      | label l =>
        obtain ⟨rfl, rfl⟩ := var_eq_nodeTerm same
        exact .inr (.inl (.labelled l))
      | anonymous n =>
        obtain ⟨rfl, rfl⟩ := var_eq_nodeTerm same
        exact .inr (.inl (.numbered n))
    | label l =>
      cases b with
      | var x =>
        obtain ⟨rfl, rfl⟩ := var_eq_nodeTerm same.symm
        exact .inr (.inr (.labelled l))
      | label l' => exact .inl (congrArg _ (nodeTerm_inj same))
      | anonymous n =>
        have own : l = generated n := nodeTerm_inj same
        subst own
        exact .inr (.inl (.generated data n))
    | anonymous n =>
      cases b with
      | var x =>
        obtain ⟨rfl, rfl⟩ := var_eq_nodeTerm (l := generated n) same.symm
        exact .inr (.inr (.numbered n))
      | label l' =>
        cases nodeTerm_inj (l := generated n) same
        exact .inr (.inr (.generated data n))
      | anonymous n' => exact .inl (congrArg _ (generated_inj (nodeTerm_inj same)))
  · rintro (rfl | (clash | clash))
    · rfl
    · exact clash.same
    · exact clash.same.symm

end Name

def Apart (data : Bool) (names : List Name) : Prop :=
  ∀ a ∈ names, ∀ b ∈ names, a.term data = b.term data → a = b

instance (data : Bool) (names : List Name) : Decidable (Apart data names) :=
  inferInstanceAs (Decidable (∀ a ∈ names, ∀ b ∈ names, a.term data = b.term data → a = b))

theorem apart_iff (data : Bool) (names : List Name) :
    Apart data names ↔ ∀ a ∈ names, ∀ b ∈ names, ¬ Clash data a b := by
  constructor
  · intro apart a ha b hb clash
    exact clash.ne (apart a ha b hb clash.same)
  · intro free a ha b hb same
    rcases (Name.term_eq_iff data a b).1 same with rfl | clash | clash
    · rfl
    · exact absurd clash (free a ha b hb)
    · exact absurd clash (free b hb a ha)

def Item.name? : Item → Option Name
  | name n => some n
  | string _ => none

def namesOf (tokens : List Token) : List Name := (Item.ofLexemes 0 (tokens.map (·.lexeme))).filterMap Item.name?

def Tree.Leaf.name? : Leaf → Option Name
  | name n => some n
  | iri _ | quoted .. | bare .. => none

theorem namesOf_leaves {tokens : List Token} {leaves : List Leaf}
    (items : leaves.filterMap Leaf.item? = Item.ofLexemes 0 (tokens.map (·.lexeme))) :
    namesOf tokens = leaves.filterMap Leaf.name? := by
  rw [namesOf, ← items, List.filterMap_filterMap]
  congr
  funext l
  cases l <;> rfl

def anyKnowledge : Knowledge where
  lexeme _ := True
  iri _ := True
  leaf _ := True
  resolved _ _ := trivial
  expanded _ _ := trivial
  type := trivial
  var _ := trivial
  label _ := trivial
  anonymous _ := trivial
  named _ := trivial
  plain _ := trivial
  tagged _ _ := trivial
  typed _ _ := trivial
  number _ _ _ := ⟨trivial, trivial⟩
  boolean _ := trivial

/-- Whatever text is accepted, it is written as a tree in which its names stand in their order, and
each of them is its own term in what is read. Different names stay different terms if and only if no
variable of a query is written as one of its nodes becomes, and no label as one of those for nodes
without a label. -/
theorem names_apart_iff (s : Text) :
    (∀ request, Request.read s = .ok request → ∃ tokens, Token.scan s = .ok tokens ∧ ∃ tree : Tree.Request,
      tree.leaves.filterMap Leaf.name? = namesOf tokens ∧
      request.content = tree.content (.whole false .defaultGraph s.length) ∧
      (Apart tree.isData (namesOf tokens) ↔ ∀ a ∈ namesOf tokens, ∀ b ∈ namesOf tokens, ¬ Clash tree.isData a b)) ∧
    ∀ graph quads, Document.read s graph = .ok quads → ∃ tokens, Token.scan s = .ok tokens ∧ ∃ parts : List Part,
      (parts.flatMap Part.leaves).filterMap Leaf.name? = namesOf tokens ∧
      quads = (Tree.document (.whole true graph s.length) parts).quads ∧
      (Apart true (namesOf tokens) ↔ ∀ a ∈ namesOf tokens, ∀ b ∈ namesOf tokens, ¬ Clash true a b) := by
  constructor
  · intro request read
    obtain ⟨tokens, scanned, tree, items, -, same⟩ := Request.read_tree anyKnowledge read fun _ _ _ _ => trivial
    exact ⟨tokens, scanned, tree, (namesOf_leaves items).symm, same, apart_iff _ _⟩
  · intro graph quads read
    obtain ⟨tokens, scanned, parts, items, -, same⟩ := Document.read_tree anyKnowledge read fun _ _ _ _ => trivial
    exact ⟨tokens, scanned, parts, (namesOf_leaves items).symm, same, apart_iff _ _⟩

def knowing : Text := "SELECT ?who \x7b ?who <http://ex/knows> [ <http://ex/name> ?name ] , _:other \x7d"

def labelledFirst (label : Text) : Text := "_:" ++ label ++ " <http://ex/p> [] ."

theorem names_apart_knowing :
    (∃ request tokens tree, Request.read knowing = .ok request ∧ Token.scan knowing = .ok tokens ∧
      namesOf tokens = [.var "who", .var "who", .anonymous 0, .var "name", .label "other"] ∧
      request.content = Tree.Request.content (.whole false .defaultGraph knowing.length) tree ∧
      ∀ a ∈ namesOf tokens, ∀ b ∈ namesOf tokens, ¬ Clash tree.isData a b) ∧
    ∃ quads tokens parts, Document.read (labelledFirst "a") .defaultGraph = .ok quads ∧
      Token.scan (labelledFirst "a") = .ok tokens ∧ namesOf tokens = [.label "a", .anonymous 0] ∧
      quads = (Tree.document (.whole true .defaultGraph (labelledFirst "a").length) parts).quads ∧
      ∀ a ∈ namesOf tokens, ∀ b ∈ namesOf tokens, ¬ Clash true a b := by
  constructor
  · have accepted : (Request.read knowing).isOk := by decide +kernel
    have found : (Token.scan knowing).map namesOf =
        .ok [.var "who", .var "who", .anonymous 0, .var "name", .label "other"] := by decide +kernel
    cases read : Request.read knowing with
    | error e => rw [read] at accepted; cases accepted
    | ok request =>
      obtain ⟨tokens, scanned, tree, -, same, apart⟩ := (names_apart_iff _).1 request read
      rw [scanned] at found
      have names := Except.ok.inj found
      refine ⟨request, tokens, tree, rfl, scanned, names, same, apart.1 ?_⟩
      rw [names]
      cases tree.isData <;> decide +kernel
  · have read : Document.read (labelledFirst "a") .defaultGraph =
        .ok [⟨.blank "a", .iri "http://ex/p", .blank "genid0", .defaultGraph⟩] := by decide +kernel
    have found : (Token.scan (labelledFirst "a")).map namesOf = .ok [.label "a", .anonymous 0] := by
      decide +kernel
    obtain ⟨tokens, scanned, parts, -, same, apart⟩ := (names_apart_iff _).2 _ _ read
    rw [scanned] at found
    have names := Except.ok.inj found
    refine ⟨_, tokens, parts, read, scanned, names, same, apart.1 ?_⟩
    rw [names]
    decide +kernel

/-- A text may use the label of a node without one, in data as in queries, and the variable that a
node becomes. -/
theorem names_not_apart :
    Document.read (labelledFirst "genid0") .defaultGraph =
      .ok [⟨.blank "genid0", .iri "http://ex/p", .blank "genid0", .defaultGraph⟩] ∧
    (Token.scan (labelledFirst "genid0")).map namesOf = .ok [.label "genid0", .anonymous 0] ∧
    ¬ Apart true [.label "genid0", .anonymous 0] ∧
    (Token.scan "SELECT * \x7b ?__bx <http://ex/p> _:x \x7d").map namesOf = .ok [.var "__bx", .label "x"] ∧
    ¬ Apart false [.var "__bx", .label "x"] := by
  decide +kernel

end QuadStore.Sparql
