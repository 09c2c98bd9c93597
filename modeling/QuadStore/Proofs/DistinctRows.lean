import QuadStore.Proofs.SingleAnswers
import QuadStore.Proofs.GroupAnswers
import QuadStore.Proofs.TermText

namespace QuadStore

open Sql Sparql Step

namespace Text

def bar : UInt8 := byte '|'

theorem parts_joined {xs : List Text} (some_ : xs ≠ []) (unbarred : ∀ x ∈ xs, bar ∉ x) :
    parts bar (joined "|" xs) = xs := by
  induction xs with
  | nil => exact absurd rfl some_
  | cons x xs ih =>
    have first := unbarred x List.mem_cons_self
    cases xs with
    | nil =>
      have single : joined "|" [x] = x := by simp [joined]
      rw [single, parts_single bar x first]
    | cons y xs =>
      have separator : ("|" : Text) = [bar] := by decide
      have cons : joined "|" (x :: y :: xs) = x ++ bar :: joined "|" (y :: xs) := by
        simp [joined, separator, List.intercalate_cons_cons]
      rw [cons, parts_append bar x _ first,
        ih (List.cons_ne_nil _ _) fun z mem => unbarred z (List.mem_cons_of_mem x mem)]

theorem joined_inj {xs ys : List Text} (hx : xs ≠ []) (hy : ys ≠ []) (unbarred : ∀ x ∈ xs ++ ys, bar ∉ x)
    (same : joined "|" xs = joined "|" ys) : xs = ys := by
  rw [← parts_joined hx fun x mem => unbarred x (List.mem_append_left _ mem), same,
    parts_joined hy fun y mem => unbarred y (List.mem_append_right _ mem)]

end Text

namespace Term

/-- Terms that their displayed text tells from each other. -/
inductive Legible : Term → Prop
  | iri (value : Text) : Legible (.iri value)
  | blank (label : Text) : Legible (.blank label)
  | plain (lexical : Text) : Legible (.literal lexical .plain)
  | language (lexical tag : Text) (unquoted : quote ∉ tag) : Legible (.literal lexical (.language tag))
  | datatype (lexical d : Text) (unquoted : quote ∉ d) : Legible (.literal lexical (.datatype d))

theorem suffix_inj {a b : LiteralKind} (h : suffix a = suffix b) : a = b := by
  cases a with
  | plain => cases b <;> first | rfl | cases h
  | language tag =>
    cases b with
    | plain => cases h
    | language tag' => rw [show tag = tag' from (List.cons.inj h).2]
    | datatype d => exact absurd (List.cons.inj h).1 (by decide)
  | datatype d =>
    cases b with
    | plain => cases h
    | language tag => exact absurd (List.cons.inj h).1 (by decide)
    | datatype d' =>
      have inner : ("^<" : Text) ++ d ++ ">" = "^<" ++ d' ++ ">" := (List.cons.inj h).2
      rw [List.append_cancel_left (List.append_cancel_right inner)]

theorem Legible.suffix_unquoted {lexical : Text} {kind : LiteralKind} (h : (literal lexical kind).Legible) :
    quote ∉ suffix kind := by
  cases h with
  | plain => exact List.not_mem_nil
  | language _ tag unquoted => exact List.not_mem_cons_of_ne_of_not_mem (by decide) unquoted
  | datatype _ d unquoted =>
    simp only [suffix, List.mem_cons, List.mem_append, not_or]
    exact ⟨by decide, ⟨by decide, unquoted⟩, by decide⟩

theorem Legible.display_ne_nil {t : Term} (h : t.Legible) : t.display ≠ [] := by
  cases h with
  | iri v => exact List.cons_ne_nil _ _
  | blank l => exact List.cons_ne_nil _ _
  | _ =>
    rw [display_literal]
    exact List.cons_ne_nil _ _

theorem Legible.display_inj {a b : Term} (ha : a.Legible) (hb : b.Legible) (same : a.display = b.display) :
    a = b := by
  have iris : ∀ v w : Text, (Term.iri v).display = (Term.iri w).display → v = w := by
    intro v w h
    exact List.append_cancel_left (List.append_cancel_right h)
  have blanks : ∀ v w : Text, (Term.blank v).display = (Term.blank w).display → v = w := by
    intro v w h
    exact List.append_cancel_left h
  have literals : ∀ l l' k k', (literal l k).Legible → (literal l' k').Legible →
      (literal l k).display = (literal l' k').display → literal l k = literal l' k' := by
    intro l l' k k' h h' same
    rw [display_literal, display_literal] at same
    have read := congrArg splitLastQuote? (List.cons.inj same).2
    rw [splitLastQuote_append _ _ h.suffix_unquoted, splitLastQuote_append _ _ h'.suffix_unquoted] at read
    obtain ⟨rfl, suffix⟩ := Prod.mk.inj (Option.some.inj read)
    rw [suffix_inj suffix]
  have kind : ∀ t : Term, t.Legible → t.rank =
      if t.display.head? = some (Text.byte '<') then 0
      else if t.display.head? = some (Text.byte '_') then 1 else 2 := by
    intro t ht
    cases ht with
    | iri v => rfl
    | blank l => rfl
    | _ =>
      rw [display_literal]
      rfl
  have rank := kind a ha
  rw [same, ← kind b hb] at rank
  cases a with
  | iri v =>
    cases b with
    | iri w => rw [iris v w same]
    | _ => cases rank
  | blank l =>
    cases b with
    | blank l' => rw [blanks l l' same]
    | _ => cases rank
  | literal l k =>
    cases b with
    | literal l' k' => exact literals l l' k k' ha hb same
    | _ => cases rank
  | defaultGraph => cases ha
  | var n => cases ha

end Term

namespace Binding

def Agrees (b c : Binding) (names : List Text) : Prop := ∀ name ∈ names, b.get? name = c.get? name

/-- Whether the values of some variables are told apart by what a row shows of them. -/
structure Clear (b : Binding) (names : List Text) : Prop where
  legible : ∀ name ∈ names, ∀ t, b.get? name = some t → t.Legible
  unbarred : ∀ name ∈ names, ∀ t, b.get? name = some t → Text.bar ∉ t.display

def shown (b : Binding) (name : Text) : Text := ((b.get? name).map Term.display).getD []

theorem signature_eq (names : List Text) (b : Binding) :
    b.signature names = names.map fun name => name ++ "=" ++ b.shown name := rfl

theorem Agrees.shown {b c : Binding} {names : List Text} (h : b.Agrees c names) :
    b.signature names = c.signature names := by
  rw [signature_eq, signature_eq]
  apply List.map_congr_left
  intro name mem
  rw [Binding.shown, Binding.shown, h name mem]

theorem Clear.agrees {b c : Binding} {names : List Text} (hb : b.Clear names) (hc : c.Clear names)
    (same : ∀ name ∈ names, b.shown name = c.shown name) : b.Agrees c names := by
  intro name mem
  have text := same name mem
  unfold shown at text
  cases fb : b.get? name with
  | none =>
    cases fc : c.get? name with
    | none => rfl
    | some u =>
      rw [fb, fc] at text
      exact absurd text.symm (hc.legible name mem u fc).display_ne_nil
  | some t =>
    cases fc : c.get? name with
    | none =>
      rw [fb, fc] at text
      exact absurd text (hb.legible name mem t fb).display_ne_nil
    | some u =>
      rw [fb, fc] at text
      rw [(hb.legible name mem t fb).display_inj (hc.legible name mem u fc) text]

end Binding

def Text.IsName (name : Text) : Prop := bar ∉ name ∧ byte '=' ∉ name

theorem Text.IsName.split {m n v w : Text} (hm : m.IsName) (hn : n.IsName) (same : m ++ "=" ++ v = n ++ "=" ++ w) :
    m = n ∧ v = w := by
  have sign : ("=" : Text) = [byte '='] := by decide
  rw [sign, List.append_assoc, List.append_assoc, List.singleton_append, List.singleton_append] at same
  have fields := congrArg (parts (byte '=')) same
  rw [parts_append _ _ _ hm.2, parts_append _ _ _ hn.2] at fields
  obtain ⟨rfl, -⟩ := List.cons.inj fields
  exact ⟨rfl, (List.cons.inj (List.append_cancel_left same)).2⟩

namespace Binding

variable {b c : Binding} {names : List Text}

theorem Clear.signature_unbarred (clear : b.Clear names) (given : ∀ name ∈ names, name.IsName) :
    ∀ x ∈ b.signature names, Text.bar ∉ x := by
  intro x mem
  rw [signature_eq] at mem
  obtain ⟨name, inside, rfl⟩ := List.mem_map.1 mem
  have sign : Text.bar ∉ ("=" : Text) := by decide
  simp only [List.mem_append, not_or]
  refine ⟨⟨(given name inside).1, sign⟩, ?_⟩
  unfold shown
  cases found : b.get? name with
  | none => exact List.not_mem_nil
  | some t => exact clear.unbarred name inside t found

theorem shown_of_perm (given : ∀ name ∈ names, name.IsName) (same : (b.signature names).Perm (c.signature names)) :
    ∀ name ∈ names, b.shown name = c.shown name := by
  intro name mem
  have own : name ++ "=" ++ b.shown name ∈ b.signature names := by
    rw [signature_eq]
    exact List.mem_map.2 ⟨name, mem, rfl⟩
  have other := same.subset own
  rw [signature_eq] at other
  obtain ⟨name', mem', text⟩ := List.mem_map.1 other
  obtain ⟨rfl, shown⟩ := Text.IsName.split (given name' mem') (given name mem) text
  exact shown.symm

end Binding

namespace Solutions

theorem sublist_distinctBy (key : Binding → Text) (rows : List Binding) : (distinctBy key rows).Sublist rows :=
  FirstOfEach.sublist_eraseDupsBy _ rows

theorem pairwise_distinctBy (key : Binding → Text) (rows : List Binding) :
    (distinctBy key rows).Pairwise fun b c => key b ≠ key c :=
  FirstOfEach.pairwise_eraseDupsBy key rows

theorem exists_distinctBy (key : Binding → Text) {rows : List Binding} {c : Binding} (mem : c ∈ rows) :
    ∃ b ∈ distinctBy key rows, key b = key c := by
  have found : (rows.find? fun b => key b = key c).isSome = true :=
    List.find?_isSome.2 ⟨c, mem, decide_eq_true rfl⟩
  rw [← FirstOfEach.find?_eraseDupsBy key rows] at found
  obtain ⟨b, inside, same⟩ := List.find?_isSome.1 found
  exact ⟨b, inside, of_decide_eq_true same⟩

/-- Every row has a row like it among the distinct ones if and only if rows with one key are alike. -/
theorem covered_iff {key : Binding → Text} {names : List Text} {rows : List Binding}
    (congr : ∀ b c : Binding, b.Agrees c names → key b = key c) :
    (∀ c ∈ rows, ∃ b ∈ distinctBy key rows, b.Agrees c names) ↔
      ∀ b ∈ rows, ∀ c ∈ rows, key b = key c → b.Agrees c names := by
  constructor
  · intro covered b hb c hc same
    obtain ⟨b', hb', agrees⟩ := covered b hb
    obtain ⟨c', hc', agrees'⟩ := covered c hc
    have one : b' = c' := by
      have keys : key b' = key c' := (congr _ _ agrees).trans (same.trans (congr _ _ agrees').symm)
      have symm : Std.Symm fun b c : Binding => key b ≠ key c := ⟨fun _ _ h => h.symm⟩
      by_contra other
      exact (pairwise_distinctBy key rows).forall hb' hc' other keys
    subst one
    intro name mem
    rw [← agrees name mem, agrees' name mem]
  · intro alike c hc
    obtain ⟨b, hb, same⟩ := exists_distinctBy key hc
    exact ⟨b, hb, alike b ((sublist_distinctBy key rows).subset hb) c hc same⟩

end Solutions

namespace Modifiers

def distinct (m : Modifiers) : Modifiers := { m with isDistinct := true }

/-- Neither distinctness nor a slice. -/
structure IsWhole (m : Modifiers) : Prop where
  limit : m.limit = none
  offset : m.offset = none
  repeats : m.isDistinct = false

theorem orderBy?_distinct (m : Modifiers) (conditions : List OrderCondition) :
    m.distinct.orderBy? conditions = (m.orderBy? conditions).map distinct := by
  unfold orderBy?
  split
  · rw [Option.map_map]
    rfl
  · rfl

theorem peel_distinct (m : Modifiers) (op : Operation) :
    m.distinct.peel op = ((m.peel op).1.distinct, (m.peel op).2) := by
  fun_induction peel m op with
  | case5 m conditions input m' ordered ih =>
    rw [peel, orderBy?_distinct, ordered]
    exact ih
  | case6 m conditions input unordered =>
    rw [peel, orderBy?_distinct, unordered]
    rfl
  | case8 m op => rw [peel] <;> assumption
  | case1 | case2 | case3 | case4 | case7 =>
    rename_i ih
    exact ih

end Modifiers

namespace SinglePlan

def distinct (p : SinglePlan) : SinglePlan := { p with isDistinct := true }

theorem triple?_distinct (m : Modifiers) (graph : Option Term) (op : Operation) :
    triple? m.distinct graph op = (triple? m graph op).map fun (m, graph, q) => (m.distinct, graph, q) := by
  fun_induction triple? m graph op with
  | case5 m graph conditions input m' ordered ih =>
    rw [triple?, Modifiers.orderBy?_distinct, ordered]
    exact ih
  | case6 m graph conditions input unordered =>
    rw [triple?, Modifiers.orderBy?_distinct, unordered]
    rfl
  | case1 | case2 | case3 | case4 | case7 | case8 | case9 | case10 =>
    rename_i ih
    exact ih
  | case12 m graph triples several =>
    rw [triple?]
    · rfl
    · exact several
  | _ => rfl

theorem ofOperation?_distinct {root op : Operation} (distinct : op = .distinct root ∨ op = .reduced root) :
    ofOperation? op = (ofOperation? root).map SinglePlan.distinct := by
  have found : triple? {} none op = triple? (Modifiers.distinct {}) none root := by
    rcases distinct with rfl | rfl <;> rfl
  unfold ofOperation?
  rw [found, triple?_distinct]
  rcases triple? {} none root with _ | ⟨m, graph, q⟩
  · rfl
  · have order : m.distinct.order = m.order := rfl
    simp only [Option.map_some, Option.bind_eq_bind, Option.bind_some, order]
    split
    · cases order? { q with graph := graph.getD q.graph } m.order <;> rfl
    · rfl

end SinglePlan

namespace MultiPlan

def distinct (p : MultiPlan) : MultiPlan := ⟨p.modifiers.distinct, p.shape⟩

theorem ofOperation_distinct {root op : Operation} (distinct : op = .distinct root ∨ op = .reduced root) :
    ofOperation op = (ofOperation root).distinct := by
  have peeled : Modifiers.peel {} op = Modifiers.peel (Modifiers.distinct {}) root := by
    rcases distinct with rfl | rfl <;> rfl
  unfold ofOperation
  rw [peeled, Modifiers.peel_distinct]
  rcases Modifiers.peel {} root with ⟨m, _ | body⟩ <;> rfl

end MultiPlan

namespace Route

def modifiers : Route → Modifiers
  | .single p => p.modifiers
  | .multi p => p.modifiers
  | .delegated => {}

def distinct : Route → Route
  | .single p => .single p.distinct
  | .multi p => .multi p.distinct
  | .delegated => .delegated

theorem ofPlans_distinct {root op : Operation} (distinct : op = .distinct root ∨ op = .reduced root) :
    ofPlans op = (ofPlans root).distinct := by
  unfold ofPlans
  rw [SinglePlan.ofOperation?_distinct distinct, MultiPlan.ofOperation_distinct distinct]
  cases SinglePlan.ofOperation? root with
  | some p => rfl
  | none =>
    dsimp only [Option.map]
    obtain ⟨m, shape⟩ := MultiPlan.ofOperation root
    cases shape <;> rfl

theorem ofText_read {query : Text} {request : Request} {root : Operation} (read : Request.read query = .ok request)
    (selects : request.content = .query root) (form : root.form = .select) : ofText query = ofPlans root := by
  obtain ⟨content, prefixes, base⟩ := request
  dsimp only at selects
  unfold ofText
  rw [read, selects]
  dsimp only
  rw [form]

def key (r : Route) (names : List Text) (b : Binding) : Text :=
  match r with
  | .single _ => Text.joined "|" ((b.signature names).mergeSort (· ≤ ·))
  | .multi _ | .delegated => MultiPlan.key names b

theorem key_congr (r : Route) {names : List Text} {b c : Binding} (h : b.Agrees c names) :
    r.key names b = r.key names c := by
  unfold key MultiPlan.key
  rw [h.shown]

theorem agrees_of_key {r : Route} {names : List Text} (given : ∀ name ∈ names, name.IsName) {b c : Binding}
    (hb : b.Clear names) (hc : c.Clear names) (same : r.key names b = r.key names c) : b.Agrees c names := by
  apply hb.agrees hc
  cases names with
  | nil => exact fun name mem => absurd mem List.not_mem_nil
  | cons n rest =>
    have unbarred := hb.signature_unbarred given
    have unbarred' := hc.signature_unbarred given
    have some_ : ∀ b : Binding, b.signature (n :: rest) ≠ [] := fun b => List.cons_ne_nil _ _
    have multi : MultiPlan.key (n :: rest) b = MultiPlan.key (n :: rest) c →
        (b.signature (n :: rest)).Perm (c.signature (n :: rest)) := by
      intro same
      refine List.Perm.of_eq (Text.joined_inj (some_ b) (some_ c) ?_ same)
      intro x mem
      exact (List.mem_append.1 mem).elim (unbarred x) (unbarred' x)
    apply Binding.shown_of_perm given
    cases r with
    | multi p => exact multi same
    | delegated => exact multi same
    | single p =>
      have sorted : ∀ b : Binding, (b.signature (n :: rest)).mergeSort (· ≤ ·) ≠ [] := by
        intro b none_
        have perm := List.mergeSort_perm (b.signature (n :: rest)) (· ≤ ·)
        rw [none_] at perm
        exact some_ b perm.symm.eq_nil
      have lists := Text.joined_inj (sorted b) (sorted c) (fun x mem => by
        rcases List.mem_append.1 mem with mem | mem
        · exact unbarred x (List.mem_mergeSort.1 mem)
        · exact unbarred' x (List.mem_mergeSort.1 mem)) same
      have perm := List.mergeSort_perm (b.signature (n :: rest)) (· ≤ ·)
      rw [lists] at perm
      exact perm.symm.trans (List.mergeSort_perm _ _)

def once (r : Route) (found : Solutions) : Solutions :=
  ⟨found.names, Solutions.distinctBy (r.key found.names) found.rows⟩

end Route

namespace SinglePlan

variable {σ : Type} [Backend σ]

theorem run_distinct {p : SinglePlan} (whole : p.modifiers.IsWhole) (security : Option Pattern) (s : Store σ) :
    p.distinct.run security s =
      ((p.run security s).1.map (Route.single p).once, (p.run security s).2) := by
  have limit : p.limit = none := whole.limit
  have offset : p.offset = none := whole.offset
  have repeats : p.isDistinct = false := whole.repeats
  have asked : p.distinct.options = p.options := by
    unfold options distinct
    rw [limit, repeats]
    rfl
  have every : ∀ rows, Solutions.window p.modifiers p.key rows = rows := by
    intro rows
    simp [Solutions.window, modifiers, limit, offset, repeats]
  have distinct : ∀ rows, Solutions.window p.distinct.modifiers p.distinct.key rows =
      Solutions.distinctBy p.key rows := by
    intro rows
    simp [Solutions.window, modifiers, SinglePlan.distinct, limit, offset]
    rfl
  unfold run
  have triple : p.distinct.triple = p.triple := rfl
  rw [asked, bind_apply, bind_apply, triple]
  rcases Store.get (p.triple.inGraph (p.triple.lookup security)) p.options s with ⟨e | found, after⟩
  · rfl
  · simp only [pure_apply, every, distinct]
    rfl

end SinglePlan

namespace MultiPlan

variable {σ : Type} [Backend σ]

theorem run_distinct {p : MultiPlan} (whole : p.modifiers.IsWhole) (security : Option Pattern) (s : Store σ) :
    p.distinct.run security s =
      ((p.run security s).1.map (Route.multi p).once, (p.run security s).2) := by
  obtain ⟨m, shape⟩ := p
  obtain ⟨limit, offset, repeats⟩ := whole
  dsimp only at limit offset repeats
  have asked : options m.distinct = options m := by
    unfold options Modifiers.distinct
    rw [limit, repeats]
    cases m.order.isSome <;> rfl
  have once : ∀ found, finish m.distinct found = (Route.multi ⟨m, shape⟩).once (finish m found) := by
    intro found
    simp only [finish, Modifiers.distinct, Route.once, Solutions.window, limit, offset, repeats,
      Option.getD_none, List.drop_zero, if_true, Bool.false_eq_true, if_false]
    rfl
  unfold run distinct
  dsimp only
  rw [bind_apply, bind_apply, asked]
  rcases rows shape security (options m) s with ⟨e | found, after⟩
  · rfl
  · simp only [pure_apply, once]
    rfl

end MultiPlan

namespace Engine

variable {σ δ : Type} [Backend σ]

theorem runRoute_distinct {r : Route} (whole : r.modifiers.IsWhole) (security : Option Pattern) (e : Engine σ δ) :
    runRoute r.distinct security e =
      ((runRoute r security e).1.map (Option.map r.once), (runRoute r security e).2) := by
  cases r with
  | delegated => rfl
  | single p =>
    unfold runRoute Route.distinct
    dsimp only
    rw [bind_apply, bind_apply, onStore, onStore, adapt_apply, adapt_apply, SinglePlan.run_distinct whole]
    rcases p.run security e.store with ⟨error | found, after⟩ <;> rfl
  | multi p =>
    unfold runRoute Route.distinct
    dsimp only
    rw [bind_apply, bind_apply, onStore, onStore, MultiPlan.run_distinct whole]
    rcases p.run security e.store with ⟨error | found, after⟩ <;> rfl

variable [Evaluator δ]

theorem select_distinct {query plain : Text} (route : Route.ofText query = (Route.ofText plain).distinct)
    (optimized : (Route.ofText plain).isOptimized = true) (whole : (Route.ofText plain).modifiers.IsWhole)
    (security : Option Pattern) (e : Engine σ δ) :
    select query security e =
      ((select plain security e).1.map (Route.ofText plain).once, (select plain security e).2) := by
  unfold select
  rw [route]
  dsimp only
  rw [bind_apply, bind_apply, runRoute_distinct whole]
  rcases answered : runRoute (Route.ofText plain) security e with ⟨error | found, after⟩
  · rfl
  · obtain ⟨solutions, rfl⟩ := some_of_runRoute optimized (congrArg Prod.fst answered)
    cases hr : Route.ofText plain <;> rfl

theorem select_multi {query : Text} {p : MultiPlan} (route : Route.ofText query = .multi p)
    {security : Option Pattern} {s s' : Store σ} {found : Solutions} (answered : p.run security s = (.ok found, s'))
    (evaluator : Option δ) (flag : Bool) :
    select query security ⟨s, evaluator, flag⟩ = (.ok found, ⟨s', evaluator, true⟩) := by
  have step : runRoute (.multi p) security (⟨s, evaluator, flag⟩ : Engine σ δ) =
      (.ok (some found), ⟨s', evaluator, flag⟩) := by
    unfold runRoute
    dsimp only
    rw [bind_apply, onStore]
    dsimp only
    rw [answered]
    rfl
  unfold select
  rw [route]
  dsimp only
  rw [bind_apply, step]
  rfl

/-- Distinct solutions are some of the solutions that a query has otherwise, and no two of them are alike.
None is missing if and only if the key tells apart whatever is not alike, as it does where the values
are clear. -/
theorem distinct_answers {query plain : Text} {request request' : Request} {root op : Operation}
    (read : Request.read plain = .ok request) (selects : request.content = .query root)
    (read' : Request.read query = .ok request') (selects' : request'.content = .query op)
    (distinct : op = .distinct root ∨ op = .reduced root) (form : root.form = .select)
    (optimized : (Route.ofText plain).isOptimized = true) (whole : (Route.ofText plain).modifiers.IsWhole)
    (security : Option Pattern) (e : Engine σ δ) :
    (∀ error, (select query security e).1 = .error error ↔ (select plain security e).1 = .error error) ∧
    ∀ all, (select plain security e).1 = .ok all → ∃ found, (select query security e).1 = .ok found ∧
      found.names = all.names ∧ found.rows.Sublist all.rows ∧
      (found.rows.Pairwise fun b c => ¬ b.Agrees c all.names) ∧
      ((∀ c ∈ all.rows, ∃ b ∈ found.rows, b.Agrees c all.names) ↔
        ∀ b ∈ all.rows, ∀ c ∈ all.rows,
          (Route.ofText plain).key all.names b = (Route.ofText plain).key all.names c → b.Agrees c all.names) ∧
      ((∀ name ∈ all.names, name.IsName) → (∀ b ∈ all.rows, b.Clear all.names) →
        ∀ c ∈ all.rows, ∃ b ∈ found.rows, b.Agrees c all.names) := by
  have form' : op.form = .select := by rcases distinct with rfl | rfl <;> rfl
  have route : Route.ofText query = (Route.ofText plain).distinct := by
    rw [Route.ofText_read read' selects' form', Route.ofText_read read selects form, Route.ofPlans_distinct distinct]
  have once := congrArg Prod.fst (select_distinct route optimized whole security e)
  dsimp only at once
  rw [once]
  generalize Route.ofText plain = r
  refine ⟨?_, ?_⟩
  · intro error
    cases (select plain security e).1 with
    | error other => rfl
    | ok all => simp [Except.map]
  · intro all answered
    have covered : (∀ c ∈ all.rows, ∃ b ∈ Solutions.distinctBy (r.key all.names) all.rows, b.Agrees c all.names) ↔
        ∀ b ∈ all.rows, ∀ c ∈ all.rows, r.key all.names b = r.key all.names c → b.Agrees c all.names :=
      Solutions.covered_iff fun _ _ => r.key_congr
    refine ⟨r.once all, by rw [answered]; rfl, rfl, Solutions.sublist_distinctBy _ _, ?_, covered, ?_⟩
    · exact (Solutions.pairwise_distinctBy _ _).imp fun apart alike => apart (r.key_congr alike)
    · intro given clear
      rw [Route.once, covered]
      exact fun b hb c hc same => Route.agrees_of_key given (clear b hb) (clear c hc) same

def codesAndNames : Text :=
  "SELECT ?x ?y WHERE { ?s <http://ex/code> ?x . ?s <http://ex/name> ?y }"

def distinctCodes : Text :=
  "SELECT DISTINCT ?x ?y WHERE { ?s <http://ex/code> ?x . ?s <http://ex/name> ?y }"

def codeTriples : List Quad :=
  [⟨.var "s", .iri "http://ex/code", .var "x", .defaultGraph⟩,
   ⟨.var "s", .iri "http://ex/name", .var "y", .defaultGraph⟩]

def codesPlan : GroupPlan := ⟨"s", codeTriples.map fun q => { triple := q }⟩

/-- Two subjects with different codes and names, of which the same text is made. -/
def codes : List Quint :=
  [⟨⟨.iri "http://ex/s", .iri "http://ex/code", .plain "1", .defaultGraph⟩, none⟩,
   ⟨⟨.iri "http://ex/s", .iri "http://ex/name", .plain "2\"|y=\"3", .defaultGraph⟩, none⟩,
   ⟨⟨.iri "http://ex/t", .iri "http://ex/code", .plain "1\"|y=\"2", .defaultGraph⟩, none⟩,
   ⟨⟨.iri "http://ex/t", .iri "http://ex/name", .plain "3", .defaultGraph⟩, none⟩]

theorem codesAndNames_shape :
    (match Request.read codesAndNames with
      | .ok ⟨.query (.project names (.bgp triples)), _, _⟩ => decide (names = ["x", "y"] ∧ triples = codeTriples)
      | _ => false) = true := by
  decide +kernel

theorem distinctCodes_shape :
    (match Request.read distinctCodes with
      | .ok ⟨.query (.distinct (.project names (.bgp triples))), _, _⟩ =>
        decide (names = ["x", "y"] ∧ triples = codeTriples)
      | _ => false) = true := by
  decide +kernel

theorem codes_read :
    (∃ request, Request.read codesAndNames = .ok request ∧
      request.content = .query (.project ["x", "y"] (.bgp codeTriples))) ∧
    ∃ request, Request.read distinctCodes = .ok request ∧
      request.content = .query (.distinct (.project ["x", "y"] (.bgp codeTriples))) := by
  have plain := codesAndNames_shape
  have distinct := distinctCodes_shape
  constructor
  · split at plain
    · rename_i read
      obtain ⟨rfl, rfl⟩ := of_decide_eq_true plain
      exact ⟨_, read, rfl⟩
    · cases plain
  · split at distinct
    · rename_i read
      obtain ⟨rfl, rfl⟩ := of_decide_eq_true distinct
      exact ⟨_, read, rfl⟩
    · cases distinct

theorem codes_route : Route.ofText codesAndNames = .multi ⟨{ names := ["x", "y"] }, .compound codesPlan⟩ := by
  obtain ⟨⟨request, read, selects⟩, -⟩ := codes_read
  rw [Route.ofText_read read selects rfl]
  rfl

def codeRows : List Binding :=
  [[("x", .plain "1"), ("y", .plain "2\"|y=\"3")], [("x", .plain "1\"|y=\"2"), ("y", .plain "3")]]

theorem codes_answered :
    MultiPlan.run ⟨{ names := ["x", "y"] }, .compound codesPlan⟩ none ⟨true, Table.holding true codes⟩ =
      (.ok ⟨["x", "y"], codeRows⟩, ⟨true, Table.holding true codes⟩) := by
  have plain : ∀ p ∈ (codesPlan.compound none).patterns, p.hasRegex = false := by decide +kernel
  have inside : ∀ s ∈ (codesPlan.compound none).select, s.pattern < (codesPlan.compound none).patterns.length := by
    decide +kernel
  obtain ⟨results, combined, rows⟩ : ∃ results,
      Store.combined (.holding true codes) (codesPlan.compound none) {} = .ok results ∧
        (results.map codesPlan.bind).map (·.restrict ["x", "y"]) = codeRows :=
    ⟨_, Store.combined_several plain inside (by decide +kernel), by decide +kernel⟩
  have answered : codesPlan.answer (.holding true codes) none {} = .ok ⟨codesPlan.names, results.map codesPlan.bind⟩ := by
    rw [GroupPlan.answer, combined]
    rfl
  rw [MultiPlan.run_compound (by decide) answered, rows]

abbrev codesEngine : Engine Table Empty := ⟨⟨true, .holding true codes⟩, none, false⟩

theorem select_codes : (select codesAndNames none codesEngine).1 = .ok ⟨["x", "y"], codeRows⟩ := by
  rw [select_multi codes_route codes_answered]

theorem codes_whole : (Route.ofText codesAndNames).isOptimized = true ∧
    (Route.ofText codesAndNames).modifiers.IsWhole := by
  rw [codes_route]
  exact ⟨rfl, rfl, rfl, rfl⟩

theorem distinct_answers_codes :
    ∃ found, (select distinctCodes none codesEngine).1 = .ok found ∧ found.rows.Sublist codeRows ∧
      ¬ ∀ c ∈ codeRows, ∃ b ∈ found.rows, b.Agrees c ["x", "y"] := by
  obtain ⟨⟨request, read, selects⟩, ⟨request', read', selects'⟩⟩ := codes_read
  obtain ⟨optimized, whole⟩ := codes_whole
  obtain ⟨found, answered, names, within, -, covered, -⟩ := (distinct_answers read selects read' selects' (.inl rfl) rfl
    optimized whole none codesEngine).2 _ select_codes
  refine ⟨found, answered, within, ?_⟩
  rw [covered, codes_route]
  intro alike
  have first := alike _ List.mem_cons_self _ (List.mem_cons_of_mem _ List.mem_cons_self) (by decide +kernel) "x"
    List.mem_cons_self
  revert first
  decide +kernel

theorem distinct_merges_codes :
    (select codesAndNames none codesEngine).1 = .ok ⟨["x", "y"], codeRows⟩ ∧
    (codeRows.map fun b => (b.get? "x", b.get? "y")) =
      [(some (.plain "1"), some (.plain "2\"|y=\"3")), (some (.plain "1\"|y=\"2"), some (.plain "3"))] ∧
    ∃ found, (select distinctCodes none codesEngine).1 = .ok found ∧ found.rows.length = 1 := by
  obtain ⟨⟨request, read, selects⟩, ⟨request', read', selects'⟩⟩ := codes_read
  obtain ⟨optimized, whole⟩ := codes_whole
  have route : Route.ofText distinctCodes = (Route.ofText codesAndNames).distinct := by
    rw [Route.ofText_read read' selects' rfl, Route.ofText_read read selects rfl, Route.ofPlans_distinct (.inl rfl)]
  refine ⟨select_codes, by decide +kernel, (Route.ofText codesAndNames).once ⟨["x", "y"], codeRows⟩, ?_, ?_⟩
  · rw [select_distinct route optimized whole, select_codes]
    rfl
  · rw [codes_route]
    decide +kernel

end Engine

end QuadStore
