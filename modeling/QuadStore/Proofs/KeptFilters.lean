import QuadStore.Proofs.PlanShapes

namespace QuadStore

open Sparql

inductive Test where
  | eq | ne | gt | ge | lt | le | among | notAmong | startsWith | endsWith | contains | regex | isNull
  deriving DecidableEq

/-- What a test compares with. -/
inductive Operand where
  | value (v : Value)
  | values (vs : List Value)
  | text (s : Text)
  | flag (b : Bool)
  deriving DecidableEq

namespace Operators

def operand? (o : Operators) : Test → Option Operand
  | .eq => o.eq.map .value
  | .ne => o.ne.map .value
  | .gt => o.gt.map .value
  | .ge => o.ge.map .value
  | .lt => o.lt.map .value
  | .le => o.le.map .value
  | .among => o.among.map .values
  | .notAmong => o.notAmong.map .values
  | .startsWith => o.startsWith.map .text
  | .endsWith => o.endsWith.map .text
  | .contains => o.contains.map .text
  | .regex => o.regex.map .text
  | .isNull => o.isNull.map .flag

theorem operand?_merge (a b : Operators) (t : Test) :
    (a.merge b).operand? t = (b.operand? t).or (a.operand? t) := by
  cases t <;> exact Option.map_or

theorem overlaps_of_operands {a b : Operators} {t : Test} (ha : (a.operand? t).isSome = true)
    (hb : (b.operand? t).isSome = true) : a.overlaps b = true := by
  cases t <;>
    · simp only [operand?, Option.isSome_map] at ha hb
      simp [overlaps, ha, hb]

end Operators

namespace Filters

variable {fs more : Filters} {name other : Text} {t : Test}

def operand? (fs : Filters) (name : Text) (t : Test) : Option Operand :=
  fs.lookup name >>= fun o => o.operand? t

theorem lookup_add (fs : Filters) (name : Text) (ops : Operators) (other : Text) :
    (fs.add name ops).lookup other =
      if other = name then some (((fs.lookup name).map (·.merge ops)).getD ops) else fs.lookup other := by
  induction fs with
  | nil =>
    by_cases h : other = name
    · simp [add, h]
    · simp [add, List.lookup_cons, h, beq_eq_false_iff_ne.2 h]
  | cons entry rest ih =>
    obtain ⟨n, old⟩ := entry
    unfold add
    by_cases same : n = name
    · subst same
      by_cases h : other = n
      · simp [h]
      · simp [List.lookup_cons, h, beq_eq_false_iff_ne.2 h]
    · rw [if_neg same, List.lookup_cons, List.lookup_cons, List.lookup_cons, ih,
        beq_eq_false_iff_ne.2 (Ne.symm same)]
      by_cases h : other = n
      · subst h
        simp [same]
      · simp [beq_eq_false_iff_ne.2 h]

theorem operand?_add (fs : Filters) (name : Text) (ops : Operators) (other : Text) (t : Test) :
    (fs.add name ops).operand? other t =
      if other = name then (ops.operand? t).or (fs.operand? name t) else fs.operand? other t := by
  unfold operand?
  rw [lookup_add]
  by_cases h : other = name
  · rw [if_pos h, if_pos h]
    cases fs.lookup name with
    | none => simp
    | some old => simp [Operators.operand?_merge]
  · rw [if_neg h, if_neg h]

theorem names_add (fs : Filters) (name : Text) (ops : Operators) :
    (fs.add name ops).map (·.1) = if name ∈ fs.map (·.1) then fs.map (·.1) else fs.map (·.1) ++ [name] := by
  induction fs with
  | nil => simp [add]
  | cons entry rest ih =>
    obtain ⟨n, old⟩ := entry
    unfold add
    by_cases same : n = name
    · simp [same]
    · rw [if_neg same, List.map_cons, ih]
      by_cases mem : name ∈ rest.map (·.1)
      · simp [mem]
      · simp [mem, Ne.symm same]

theorem nodup_add (nodup : (fs.map (·.1)).Nodup) (name : Text) (ops : Operators) :
    ((fs.add name ops).map (·.1)).Nodup := by
  rw [names_add]
  split
  · exact nodup
  · rename_i fresh
    rw [List.nodup_append]
    refine ⟨nodup, List.pairwise_singleton _ _, ?_⟩
    rintro n mem _ last rfl
    exact fresh (List.mem_singleton.1 last ▸ mem)

theorem nodup_addAll (nodup : (fs.map (·.1)).Nodup) (more : Filters) : ((fs.addAll more).map (·.1)).Nodup := by
  unfold addAll
  induction more generalizing fs with
  | nil => exact nodup
  | cons entry more ih => exact ih (nodup_add nodup _ _)

theorem operand?_addAll (fs : Filters) (nodup : (more.map (·.1)).Nodup) (name : Text) (t : Test) :
    (fs.addAll more).operand? name t = (more.operand? name t).or (fs.operand? name t) := by
  unfold addAll
  induction more generalizing fs with
  | nil => rfl
  | cons entry more ih =>
    obtain ⟨n, ops⟩ := entry
    obtain ⟨fresh, nodup⟩ := List.nodup_cons.1 nodup
    rw [List.foldl_cons, ih _ nodup, operand?_add]
    by_cases h : name = n
    · subst h
      have none_ : List.lookup name more = none := by
        rw [List.lookup_eq_none_iff]
        intro e mem
        exact bne_iff_ne.2 fun same => fresh (List.mem_map.2 ⟨e, mem, same.symm⟩)
      simp [operand?, none_]
    · simp [operand?, List.lookup_cons, h, beq_eq_false_iff_ne.2 h]

theorem mem_of_lookup {ops : Operators} (h : fs.lookup name = some ops) : (name, ops) ∈ fs := by
  obtain ⟨before, after, rfl, -⟩ := List.lookup_eq_some_iff.1 h
  simp

theorem apart_of_overlaps (apart : fs.overlaps more = false) (h : (more.operand? name t).isSome = true) :
    fs.operand? name t = none := by
  unfold operand? at h ⊢
  cases added : more.lookup name with
  | none => simp [added] at h
  | some ops =>
    cases old : fs.lookup name with
    | none => rfl
    | some o =>
      rw [added] at h
      cases hold : o.operand? t with
      | none => exact hold
      | some v =>
        have shared : o.overlaps ops = true := Operators.overlaps_of_operands (by rw [hold]; rfl) h
        have within : fs.overlaps more = true :=
          List.any_eq_true.2 ⟨(name, ops), mem_of_lookup added, by simpa [old] using shared⟩
        rw [apart] at within
        cases within

end Filters

namespace Pushdown

theorem nodup_choice {branches : List (Text × Operators)} {fs : Filters} (h : choice? branches = some fs) :
    (fs.map (·.1)).Nodup := by
  unfold choice? at h
  obtain ⟨equalities, -, h⟩ := Option.bind_eq_some_iff.1 h
  obtain ⟨name, -, h⟩ := Option.bind_eq_some_iff.1 h
  cases h
  exact List.pairwise_singleton _ _

theorem ofDisjunction_cases (q : Quad) (e : Expression) :
    ofDisjunction q e = { remainder := some e } ∨
    (e.disjuncts.filterMap (Condition.on? q) ≠ [] ∧
      (e.disjuncts.filter fun a => (Condition.on? q a).isNone) = [] ∧
      ∃ fs, choice? (e.disjuncts.filterMap (Condition.on? q)) = some fs ∧ ofDisjunction q e = { filters := fs }) ∨
    (e.disjuncts.filterMap (Condition.on? q) ≠ [] ∧
      ofDisjunction q e = {
        branches := e.disjuncts.filterMap (Condition.on? q)
        branchRemainder := e.disjuncts.filter fun a => (Condition.on? q a).isNone }) := by
  unfold ofDisjunction
  dsimp only
  split
  · exact .inl rfl
  · rename_i found
    rw [List.isEmpty_iff] at found
    split
    · rename_i whole
      rw [List.isEmpty_iff] at whole
      split
      · rename_i fs chosen
        exact .inr (.inl ⟨found, whole, fs, chosen, rfl⟩)
      · exact .inr (.inr ⟨found, by rw [whole]⟩)
    · exact .inr (.inr ⟨found, rfl⟩)

theorem nodup_disjunction (q : Quad) (e : Expression) : ((ofDisjunction q e).filters.map (·.1)).Nodup := by
  rcases ofDisjunction_cases q e with nothing | ⟨-, -, fs, chosen, choice⟩ | ⟨-, several⟩
  · rw [nothing]
    exact .nil
  · rw [choice]
    exact nodup_choice chosen
  · rw [several]
    exact .nil

theorem nodup_ofFilter (q : Quad) (e : Expression) : ((ofFilter q e).filters.map (·.1)).Nodup := by
  fun_cases ofFilter q e with
  | case1 left right =>
    have none_ : (([] : Filters).map (·.1)).Nodup := .nil
    exact Filters.nodup_addAll (Filters.nodup_addAll none_ _) _
  | case2 left right => exact nodup_disjunction q _
  | case3 => exact List.pairwise_singleton _ _
  | case4 => exact .nil

/-- What has alternatives has nothing else left. -/
theorem remainder_of_branches {q : Quad} {e : Expression} (some_ : (ofFilter q e).branches.isEmpty = false) :
    (ofFilter q e).remainder = none := by
  have disjunction : ∀ e, (ofDisjunction q e).branches.isEmpty = false → (ofDisjunction q e).remainder = none := by
    intro e some_
    rcases ofDisjunction_cases q e with nothing | ⟨-, -, fs, -, choice⟩ | ⟨-, several⟩
    · rw [nothing] at some_
      cases some_
    · rw [choice]
    · rw [several]
  fun_induction ofFilter q e with
  | case1 => cases some_
  | case2 left right => exact disjunction _ some_
  | case3 => rfl
  | case4 => cases some_

end Pushdown

namespace GroupPlan

/-- Whether all of a condition becomes operators on the variables of a triple. -/
structure Takes (q : Quad) (e : Expression) : Prop where
  whole : (Pushdown.ofFilter q e).remainder = none
  single : (Pushdown.ofFilter q e).branches = []
  some_ : (Pushdown.ofFilter q e).filters ≠ []

theorem takes_of_isWhole {q : Quad} {e : Expression} (h : (Pushdown.ofFilter q e).isWhole = true) : Takes q e := by
  simp only [Pushdown.isWhole, Bool.and_eq_true, Option.isNone_iff_eq_none, List.isEmpty_iff,
    Bool.not_eq_true', List.isEmpty_eq_false_iff] at h
  exact ⟨h.1.1, h.1.2, h.2⟩

/-- The parts of a plan hold the operators of some conditions: of each, in one part, and no others. -/
structure Holds (conditions : List Expression) (parts : List Part) : Prop where
  kept : ∀ e ∈ conditions, ∃ part ∈ parts, Takes part.triple e ∧ ∀ name t v,
    (Pushdown.ofFilter part.triple e).filters.operand? name t = some v → part.filters.operand? name t = some v
  sourced : ∀ part ∈ parts, ∀ name t v, part.filters.operand? name t = some v →
    ∃ e ∈ conditions, Takes part.triple e ∧
      (Pushdown.ofFilter part.triple e).filters.operand? name t = some v

theorem push?_cases {e : Expression} {parts parts' : List Part} (h : push? e parts = some parts') :
    ∃ before part after, parts = before ++ part :: after ∧ Takes part.triple e ∧
      part.filters.overlaps (Pushdown.ofFilter part.triple e).filters = false ∧
      parts' = before ++
        { part with filters := part.filters.addAll (Pushdown.ofFilter part.triple e).filters } :: after := by
  fun_induction push? e parts generalizing parts' with
  | case1 => cases h
  | case2 => cases h
  | case3 part rest =>
    rename_i whole apart
    cases h
    exact ⟨[], part, rest, rfl, takes_of_isWhole whole, by simpa using apart, rfl⟩
  | case4 part rest =>
    rename_i ih
    obtain ⟨rest', pushed, rfl⟩ := Option.map_eq_some_iff.1 h
    obtain ⟨before, taker, after, rfl, takes, apart, rfl⟩ := ih pushed
    exact ⟨part :: before, taker, after, rfl, takes, apart, rfl⟩

theorem Holds.push {conditions : List Expression} {e : Expression} {parts parts' : List Part}
    (h : Holds conditions parts) (pushed : push? e parts = some parts') : Holds (conditions ++ [e]) parts' := by
  obtain ⟨before, part, after, rfl, takes, apart, rfl⟩ := push?_cases pushed
  have operands : ∀ name t, (part.filters.addAll (Pushdown.ofFilter part.triple e).filters).operand? name t =
      ((Pushdown.ofFilter part.triple e).filters.operand? name t).or (part.filters.operand? name t) :=
    Filters.operand?_addAll _ (Pushdown.nodup_ofFilter part.triple e)
  have inside : part ∈ before ++ part :: after := by simp
  constructor
  · intro e' mem
    rcases List.mem_append.1 mem with old | new
    · obtain ⟨holder, inParts, took, all⟩ := h.kept e' old
      by_cases same : holder = part
      · subst same
        refine ⟨_, List.mem_append_right _ List.mem_cons_self, took, fun name t v extracted => ?_⟩
        have kept := all name t v extracted
        have free : (Pushdown.ofFilter holder.triple e).filters.operand? name t = none := by
          rw [← Option.not_isSome_iff_eq_none]
          intro some_
          rw [Filters.apart_of_overlaps apart some_] at kept
          cases kept
        rw [operands, free]
        exact kept
      · refine ⟨holder, ?_, took, all⟩
        rcases List.mem_append.1 inParts with mem | mem
        · exact List.mem_append_left _ mem
        · exact List.mem_append_right _ (List.mem_cons_of_mem _ ((List.mem_cons.1 mem).resolve_left same))
    · cases List.mem_singleton.1 new
      refine ⟨_, List.mem_append_right _ List.mem_cons_self, takes, fun name t v extracted => ?_⟩
      rw [operands, extracted]
      rfl
  · intro holder mem name t v there
    have before_ : ∀ holder ∈ before ++ part :: after, holder.filters.operand? name t = some v →
        ∃ e' ∈ conditions ++ [e], Takes holder.triple e' ∧
          (Pushdown.ofFilter holder.triple e').filters.operand? name t = some v := by
      intro holder inParts there
      obtain ⟨e', old, source⟩ := h.sourced holder inParts name t v there
      exact ⟨e', List.mem_append_left _ old, source⟩
    rcases List.mem_append.1 mem with mem | mem
    · exact before_ holder (List.mem_append_left _ mem) there
    · rcases List.mem_cons.1 mem with rfl | mem
      · rw [operands] at there
        cases extracted : (Pushdown.ofFilter part.triple e).filters.operand? name t with
        | some w =>
          rw [extracted] at there
          cases there
          exact ⟨e, by simp, takes, extracted⟩
        | none =>
          rw [extracted] at there
          exact before_ part inside there
      · exact before_ holder (List.mem_append_right _ (List.mem_cons_of_mem _ mem)) there

theorem Holds.pushAll {conditions done : List Expression} {parts parts' : List Part} (h : Holds done parts)
    (pushed : pushAll? conditions parts = some parts') : Holds (done ++ conditions) parts' := by
  unfold pushAll? at pushed
  induction conditions generalizing done parts with
  | nil =>
    cases pushed
    rw [List.append_nil]
    exact h
  | cons e conditions ih =>
    rw [List.foldlM_cons] at pushed
    obtain ⟨next, first, rest⟩ := Option.bind_eq_some_iff.1 pushed
    have all := ih (h.push first) rest
    rw [List.append_assoc] at all
    exact all

theorem holds_nothing (triples : List Quad) : Holds [] (triples.map fun q => { triple := q }) := by
  refine ⟨fun e mem => absurd mem List.not_mem_nil, fun part mem name t v there => ?_⟩
  obtain ⟨q, -, rfl⟩ := List.mem_map.1 mem
  cases there

end GroupPlan

namespace Sparql.Operation

def conditions : Operation → List Expression
  | bgp _ => []
  | filter condition input => condition :: input.conditions
  | leftJoin left right condition => left.conditions ++ right.conditions ++ condition.toList
  | join left right | union left right | minus left right => left.conditions ++ right.conditions
  | graph _ input | orderBy _ input | project _ input | distinct input | reduced input
  | slice _ _ input | ask input | construct _ input | describe _ input => input.conditions

end Sparql.Operation

theorem Modifiers.peel_conditions {m m' : Modifiers} {op body : Operation} (h : m.peel op = (m', some body)) :
    body.conditions = op.conditions := by
  fun_induction peel m op with
  | case1 m names input ih | case2 m start length input ih | case3 m input ih | case4 m input ih
  | case5 m conditions input m' ordered ih | case7 m input ih => exact ih h
  | case6 => cases h
  | case8 =>
    cases h
    rfl

namespace GroupPlan

theorem unwrap_conditions {op inner : Operation} {filters filters' : List Expression} {graph graph' : Option Term}
    (h : unwrap filters graph op = some (filters', graph', inner)) :
    filters' ++ inner.conditions = filters ++ op.conditions := by
  fun_induction unwrap filters graph op with
  | case1 filters graph condition input ih =>
    rw [ih h, List.append_assoc]
    rfl
  | case2 => cases h
  | case3 filters graph name input outer ih => exact ih h
  | case4 =>
    cases h
    rfl

theorem joined?_conditions {op : Operation} {triples : List Quad} (h : joined? op = some triples) :
    op.conditions = [] := by
  fun_induction joined? op generalizing triples with
  | case1 found => rfl
  | case2 left right ihLeft ihRight =>
    obtain ⟨a, ha, h⟩ := Option.bind_eq_some_iff.1 h
    obtain ⟨b, hb, h⟩ := Option.bind_eq_some_iff.1 h
    rw [Operation.conditions, ihLeft ha, ihRight hb]
    rfl
  | case3 => cases h

theorem ofTriples?_holds {filters : List Expression} {graph : Option Term} {triples : List Quad} {p : GroupPlan}
    (h : ofTriples? filters graph triples = some p) : Holds (filters.flatMap Expression.conjuncts) p.parts := by
  obtain ⟨-, -, pushed⟩ := ofTriples?_cases h
  have start := holds_nothing (triples.map (·.within graph))
  rw [List.map_map] at start
  exact start.pushAll pushed

theorem ofGroup?_holds {filters : List Expression} {graph : Option Term} {least : Nat} {op : Operation}
    {p : GroupPlan} (h : ofGroup? filters graph least op = some p) :
    Holds ((filters ++ op.conditions).flatMap Expression.conjuncts) p.parts := by
  unfold ofGroup? at h
  obtain ⟨⟨filters', graph', inner⟩, unwrapped, h⟩ := Option.bind_eq_some_iff.1 h
  obtain ⟨triples, joined, h⟩ := Option.bind_eq_some_iff.1 h
  have all := unwrap_conditions unwrapped
  rw [joined?_conditions joined, List.append_nil] at all
  dsimp only at h
  split at h
  · cases h
  · rw [← all]
    exact ofTriples?_holds h

end GroupPlan

namespace OptionalPlan

theorem spine_conditions {op core : Operation} {rest : List (Operation × Option Expression)}
    (h : spine op = (core, rest)) :
    op.conditions = core.conditions ++ rest.flatMap fun x => x.1.conditions ++ x.2.toList := by
  fun_induction spine op generalizing core rest with
  | case1 left right condition inner before split_ ih =>
    cases h
    rw [Operation.conditions, ih split_, List.flatMap_append, List.append_assoc, List.append_assoc]
    simp
  | case2 op other =>
    cases h
    simp

theorem extension?_conditions {subject : Text} {x : Operation × Option Expression} {e : Extension}
    (h : extension? subject x = some e) : x.1.conditions ++ x.2.toList = [] := by
  unfold extension? at h
  split at h
  · rfl
  · cases h

theorem extensions_conditions {subject : Text} {rest : List (Operation × Option Expression)}
    {extensions : List Extension} (h : rest.mapM (extension? subject) = some extensions) :
    (rest.flatMap fun x => x.1.conditions ++ x.2.toList) = [] := by
  induction rest generalizing extensions with
  | nil => rfl
  | cons x rest ih =>
    rw [List.mapM_cons] at h
    obtain ⟨e, he, h⟩ := Option.bind_eq_some_iff.1 h
    obtain ⟨more, hm, h⟩ := Option.bind_eq_some_iff.1 h
    rw [List.flatMap_cons, extension?_conditions he, ih hm]
    rfl

theorem ofPattern?_holds {op : Operation} {p : OptionalPlan} (h : ofPattern? op = some p) :
    GroupPlan.Holds (op.conditions.flatMap Expression.conjuncts) p.core.parts := by
  obtain ⟨filters, body, unwrapped, -, -, core, extensions, -⟩ := ofPattern?_cases h
  have outer := GroupPlan.unwrap_conditions unwrapped
  have inner := spine_conditions (rfl : spine body = ((spine body).1, (spine body).2))
  rw [extensions_conditions extensions, List.append_nil] at inner
  have held := GroupPlan.ofGroup?_holds core
  rw [← inner, outer] at held
  exact held

end OptionalPlan

namespace MultiPlan

theorem compound?_holds {root : Operation} {p : GroupPlan} (h : compound? root = some p) :
    GroupPlan.Holds (root.conditions.flatMap Expression.conjuncts) p.parts := by
  obtain ⟨body, peeled, planned⟩ := Option.bind_eq_some_iff.1 h
  have inside := Modifiers.peel_conditions (Prod.ext rfl peeled : Modifiers.peel {} root = (_, some body))
  rw [← inside]
  exact GroupPlan.ofGroup?_holds planned

theorem optional?_holds {root : Operation} {p : OptionalPlan} (h : optional? root = some p) :
    GroupPlan.Holds (root.conditions.flatMap Expression.conjuncts) p.core.parts := by
  obtain ⟨body, peeled, planned⟩ := Option.bind_eq_some_iff.1 h
  have inside := Modifiers.peel_conditions (Prod.ext rfl peeled : Modifiers.peel {} root = (_, some body))
  rw [← inside]
  exact OptionalPlan.ofPattern?_holds planned

/-- In a plan for several triples every condition of every filter is in the operators of one triple, which
takes all of it, and every operator is of such a condition. -/
theorem filters_kept {root : Operation} {p : GroupPlan}
    (accepted : compound? root = some p ∨ (optional? root).map (·.core) = some p) :
    (∀ condition ∈ root.conditions, ∀ e ∈ condition.conjuncts, ∃ (i : Nat) (part : Part),
      p.parts[i]? = some part ∧ GroupPlan.Takes part.triple e ∧ ∀ name t v,
        (Pushdown.ofFilter part.triple e).filters.operand? name t = some v →
        part.filters.operand? name t = some v) ∧
    ∀ (i : Nat) (part : Part), p.parts[i]? = some part → ∀ name t v, part.filters.operand? name t = some v →
      ∃ condition ∈ root.conditions, ∃ e ∈ condition.conjuncts, GroupPlan.Takes part.triple e ∧
        (Pushdown.ofFilter part.triple e).filters.operand? name t = some v := by
  have held : GroupPlan.Holds (root.conditions.flatMap Expression.conjuncts) p.parts := by
    rcases accepted with compound | optional
    · exact compound?_holds compound
    · obtain ⟨plan, made, rfl⟩ := Option.map_eq_some_iff.1 optional
      exact optional?_holds made
  constructor
  · intro condition inQuery e inCondition
    obtain ⟨part, mem, kept⟩ := held.kept e (List.mem_flatMap.2 ⟨condition, inQuery, inCondition⟩)
    obtain ⟨i, at_⟩ := List.mem_iff_getElem?.1 mem
    exact ⟨i, part, at_, kept⟩
  · intro i part at_ name t v there
    obtain ⟨e, mem, source⟩ := held.sourced part (List.mem_of_getElem? at_) name t v there
    obtain ⟨condition, inQuery, inCondition⟩ := List.mem_flatMap.1 mem
    exact ⟨condition, inQuery, e, inCondition, source⟩

def atLeast (name : Text) (n : Text) : Expression :=
  .binary .ge (.term (.var name)) (.term (.typed n Xsd.integer))

def below (name : Text) (n : Text) : Expression :=
  .binary .lt (.term (.var name)) (.term (.typed n Xsd.integer))

def agesAndSizes : Operation :=
  .project ["s"] (.filter (.binary .and (atLeast "age" "18") (below "size" "200"))
    (.graph (.var "g") (.filter (below "age" "65") (.bgp
      [⟨.var "s", .iri "http://ex/age", .var "age", .defaultGraph⟩,
       ⟨.var "s", .iri "http://ex/size", .var "size", .defaultGraph⟩]))))

theorem filters_kept_ages : ∃ p, compound? agesAndSizes = some p ∧
    ∃ part : Part, p.parts[1]? = some part ∧ GroupPlan.Takes part.triple (below "size" "200") ∧
      part.filters.operand? "size" .lt = some (.value (.term (.typed "200" Xsd.integer))) := by
  obtain ⟨i, part, at_, takes, kept⟩ := (filters_kept (.inl (rfl : compound? agesAndSizes = some _))).1
    (.binary .and (atLeast "age" "18") (below "size" "200")) List.mem_cons_self (below "size" "200")
    (List.mem_cons_of_mem _ List.mem_cons_self)
  match i with
  | 0 =>
    cases at_
    exact absurd takes.whole (Option.some_ne_none _)
  | 1 =>
    refine ⟨_, rfl, part, at_, takes, kept _ _ _ ?_⟩
    cases at_
    rfl
  | n + 2 => cases at_

end MultiPlan

end QuadStore
