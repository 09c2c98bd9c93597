import QuadStore.Proofs.ClearTerms
import QuadStore.Proofs.ReaderRules
import QuadStore.Proofs.StoreMap
import QuadStore.Sparql.Document

namespace QuadStore

open Sql

namespace Sparql

namespace Token

theorem mem_tagParts {c : UInt8} (fuel : Nat) (s : Text) (mem : c ∈ tagParts fuel s) :
    Ascii.isAlnum c = true ∨ c = Text.byte '-' := by
  induction fuel generalizing s with
  | zero => cases mem
  | succ fuel ih =>
    cases s with
    | nil => cases mem
    | cons d rest =>
      rw [tagParts] at mem
      split at mem
      · rename_i hyphen
        rcases List.mem_append.1 mem with mem | mem
        · rcases List.mem_cons.1 mem with rfl | mem
          · simp only [Bool.and_eq_true, decide_eq_true_eq] at hyphen
            exact .inr hyphen.1
          · exact .inl (List.mem_takeWhile_imp mem)
        · exact ih _ mem
      · cases mem

theorem quote_not_mem_tag (s : Text) : Term.quote ∉ tag s := by
  intro mem
  have part : Ascii.isAlnum Term.quote = true ∨ Term.quote = Text.byte '-' := by
    unfold tag at mem
    dsimp only at mem
    split at mem
    · cases mem
    · rcases List.mem_append.1 mem with mem | mem
      · exact .inl (Bool.or_eq_true_iff.2 (.inl (List.mem_takeWhile_imp mem)))
      · exact mem_tagParts _ _ mem
  rcases part with part | part <;> exact absurd part (by decide)

theorem number?_ne_tag (s language : Text) : number? s ≠ some (.tag language) := by
  unfold number?
  grind

theorem lexeme?_tag_inv {c : UInt8} {rest after language : Text} (h : lexeme? c rest = .ok (.tag language, after)) :
    language = tag rest := by
  unfold lexeme? at h
  dsimp only at h
  split at h
  · cases h
  split at h
  · cases h
  split at h
  · obtain ⟨⟨value, left⟩, -, same⟩ := Step.map_eq_ok h
    cases same
  split at h
  · split at h <;> cases h
  split at h
  · split at h
    · cases h
    · cases h
      rfl
  split at h
  · split at h
    · rename_i number
      cases h
      exact absurd number (number?_ne_tag _ _)
    · cases h
  split at h <;> split at h <;> cases h

def Unquoted (tokens : List Token) : Prop :=
  ∀ t ∈ tokens, ∀ language, t.lexeme = .tag language → Term.quote ∉ language

theorem scanFrom_unquoted {total fuel : Nat} {s : Text} {tokens : List Token}
    (h : scanFrom total fuel s = .ok tokens) : Unquoted tokens := by
  induction fuel generalizing s tokens with
  | zero =>
    cases h
    exact nofun
  | succ fuel ih =>
    rw [scanFrom] at h
    split at h
    · cases h
      exact nofun
    · split at h
      · cases h
      · rename_i read
        obtain ⟨others, scanned, rfl⟩ := Step.map_eq_ok h
        intro t mem language same
        rcases List.mem_cons.1 mem with rfl | mem
        · cases same
          rw [lexeme?_tag_inv read]
          exact quote_not_mem_tag _
        · exact ih scanned t mem language same

end Token

open Term (Spelled)

namespace Reader

def loading : Setting :=
  ⟨fun scope => Spelled scope.graph ∧ Spelled scope.home, fun c => Token.Unquoted c.tokens⟩

variable {α β : Type} {P : α → Prop} {f : β → Reader α}

abbrev Loads (r : Reader α) (P : α → Prop) : Prop := Holds loading r P

abbrev Tame (r : Reader α) : Prop := Loads r fun _ => True

theorem Tame.bind {r : Reader β} (h : Tame r) (hf : ∀ b, Loads (f b) P) : Loads (r >>= f) P :=
  Holds.bind h fun b _ => hf b

theorem Tame.of {r : Reader α} (h : Loads r P) : Tame r := h.weaken fun _ _ => trivial

theorem tame_pure (a : α) : Tame (pure a) := holds_pure trivial

theorem loads_ahead (n : Nat) :
    Loads (ahead? n) fun l => ∀ language, l = some (.tag language) → Term.quote ∉ language := by
  refine holds_cursor.bind fun c unquoted => holds_pure fun language same => ?_
  obtain ⟨t, at_, tag⟩ := Option.map_eq_some_iff.1 same
  exact unquoted t (List.mem_of_getElem? at_) language tag

theorem loads_peek : Loads peek? fun l => ∀ language, l = some (.tag language) → Term.quote ∉ language :=
  loads_ahead 0

theorem peek_bind {f : Option Lexeme → Reader α} (h : ∀ l, Loads (f l) P) : Loads (peek? >>= f) P :=
  loads_peek.bind fun l _ => h l

theorem ahead_bind {n : Nat} {f : Option Lexeme → Reader α} (h : ∀ l, Loads (f l) P) : Loads (ahead? n >>= f) P :=
  (loads_ahead n).bind fun l _ => h l

theorem tame_skip : Tame skip :=
  holds_update fun _ unquoted t mem => unquoted t (List.mem_of_mem_tail mem)

theorem skip_bind {f : Unit → Reader α} (h : Loads (f ()) P) : Loads (skip >>= f) P :=
  tame_skip.bind fun _ => h

theorem tame_onSymbol (s : Symbol) : Tame (onSymbol s) := peek_bind fun _ => tame_pure _

theorem tame_onWord (word : Text) : Tame (onWord word) := peek_bind fun _ => tame_pure _

theorem tame_atEnd : Tame atEnd := peek_bind fun _ => tame_pure _

theorem tame_acceptSymbol (s : Symbol) : Tame (acceptSymbol s) :=
  (tame_onSymbol s).bind fun _ => holds_ite (skip_bind (tame_pure _)) (tame_pure _)

theorem tame_acceptWord (word : Text) : Tame (acceptWord word) :=
  (tame_onWord word).bind fun _ => holds_ite (skip_bind (tame_pure _)) (tame_pure _)

theorem tame_acceptTag (tag : Text) : Tame (acceptTag tag) :=
  peek_bind fun _ => holds_ite (skip_bind (tame_pure _)) (tame_pure _)

theorem tame_expectSymbol (s : Symbol) : Tame (expectSymbol s) :=
  (tame_acceptSymbol s).bind fun _ => holds_ite (tame_pure _) (holds_fail _)

theorem tame_expectWord (word : Text) : Tame (expectWord word) :=
  (tame_acceptWord word).bind fun _ => holds_ite (tame_pure _) (holds_fail _)

theorem tame_expand (name : Text) (offset : Nat) : Tame (expand name offset) := by
  refine Tame.bind (Tame.of holds_cursor) fun c => ?_
  split
  · exact tame_pure _
  · exact holds_failWith _

theorem loads_iri : Loads iri Spelled := by
  refine holds_cursor.bind fun c _ => ?_
  split
  · exact skip_bind (Tame.bind (Tame.of holds_cursor) fun _ => holds_pure (.iri _))
  · exact skip_bind ((tame_expand _ _).bind fun _ => holds_pure (.iri _))
  · exact holds_fail _

theorem tame_iriRef : Tame iriRef := by
  refine peek_bind fun l => ?_
  split
  · exact skip_bind (Tame.bind (Tame.of holds_cursor) fun _ => tame_pure _)
  · exact holds_fail _

theorem tame_update {f : Cursor → Cursor} (tokens : ∀ c, (f c).tokens = c.tokens) : Tame (update f) :=
  holds_update fun c unquoted => by
    change Token.Unquoted (f c).tokens
    rw [tokens c]
    exact unquoted

theorem tame_prefixDeclaration : Tame prefixDeclaration := by
  refine peek_bind fun l => ?_
  split
  all_goals
    refine (tame_pure _).bind fun front => ?_
    cases front with
    | none => exact holds_fail _
    | some front => exact skip_bind (tame_iriRef.bind fun _ => tame_update fun _ => rfl)

theorem tame_baseDeclaration : Tame baseDeclaration :=
  tame_iriRef.bind fun _ => tame_update fun _ => rfl

theorem tame_loop {step : α → Reader (ForInStep α)} (each : ∀ a, Tame (step a)) (a : α) : Tame (loop step a) :=
  holds_loop (fun a _ => (each a).weaken fun next _ => by cases next <;> trivial) trivial

theorem tame_prologue : Tame prologue := by
  refine tame_loop (fun _ => (tame_acceptWord _).bind fun _ => holds_ite ?_ ?_) ()
  · exact tame_baseDeclaration.bind fun _ => tame_pure _
  · exact (tame_acceptWord _).bind fun _ => holds_ite (tame_prefixDeclaration.bind fun _ => tame_pure _) (tame_pure _)

theorem loads_freshNode : Loads freshNode Spelled := by
  refine Tame.bind (Tame.of holds_cursor) fun c => Tame.bind (tame_update fun _ => rfl) fun _ => ?_
  refine Tame.bind (Tame.of holds_scope) fun scope => ?_
  cases scope.data
  · exact holds_pure (.var _)
  · exact holds_pure (.blank _)

theorem loads_number (negative : Bool) : Loads (number negative) Spelled := by
  refine peek_bind fun l => ?_
  split
  · exact skip_bind (holds_pure (.typed _ _))
  · exact skip_bind (holds_pure (.typed _ _))
  · exact skip_bind (holds_pure (.typed _ _))
  · exact holds_fail _

theorem loads_literal (lexical : Text) : Loads (literal lexical) Spelled := by
  refine loads_peek.bind fun l unquoted => ?_
  split
  · exact skip_bind (holds_pure (.tagged lexical (unquoted _ rfl)))
  · exact skip_bind (loads_iri.bind fun _ _ => holds_pure (.typed _ _))
  · exact holds_pure (.plain lexical)

theorem loads_term : Loads term Spelled := by
  refine peek_bind fun l => ?_
  split
  · exact Tame.bind (Tame.of holds_scope) fun _ => holds_ite (holds_fail _) (skip_bind (holds_pure (.var _)))
  · exact loads_iri
  · exact loads_iri
  · refine skip_bind (Tame.bind (Tame.of holds_scope) fun scope => ?_)
    cases scope.data
    · exact holds_pure (.var _)
    · exact holds_pure (.blank _)
  · exact skip_bind (loads_literal _)
  · exact loads_number false
  · exact loads_number false
  · exact loads_number false
  · exact ahead_bind fun _ => holds_ite (skip_bind (skip_bind loads_freshNode)) (holds_fail _)
  · exact ahead_bind fun _ => holds_ite (skip_bind (loads_number false)) (holds_fail _)
  · exact ahead_bind fun _ => holds_ite (skip_bind (loads_number true)) (holds_fail _)
  · exact holds_ite (skip_bind (holds_pure (.typed _ _))) (holds_fail _)
  · exact holds_fail _

theorem loads_graphName : Loads graphName Spelled := by
  refine peek_bind fun l => Tame.bind (Tame.of holds_scope) fun scope => ?_
  split
  · exact skip_bind (holds_pure (.var _))
  · exact holds_ite loads_term (holds_fail _)

def AllSpelled (found : List Quad) : Prop := ∀ q ∈ found, ∀ p, Spelled (q.get p)

theorem allSpelled_nil : AllSpelled [] := List.forall_mem_nil _

theorem AllSpelled.append {a b : List Quad} (ha : AllSpelled a) (hb : AllSpelled b) : AllSpelled (a ++ b) :=
  List.forall_mem_append.2 ⟨ha, hb⟩

theorem allSpelled_single {q : Quad} (h : ∀ p, Spelled (q.get p)) : AllSpelled [q] := by
  intro r mem
  rw [List.mem_singleton.1 mem]
  exact h

theorem tame_onTriple : Tame onTriple := peek_bind fun _ => ahead_bind fun _ => tame_pure _

theorem loads_verbTerm : Loads verbTerm Spelled := by
  refine peek_bind fun l => ?_
  split
  · exact holds_ite (skip_bind (holds_pure (.iri _))) loads_iri
  · exact loads_term
  · exact loads_iri

theorem loads_verb : Loads verb Spelled := by
  refine peek_bind fun l => holds_ite (holds_fail _) (loads_verbTerm.bind fun t spelled => ?_)
  exact peek_bind fun _ => holds_ite (holds_fail _) (holds_pure spelled)

theorem loads_tripleGraph : Loads tripleGraph Spelled :=
  holds_scope.bind fun _ spelled => peek_bind fun _ => holds_ite loads_term (holds_pure spelled.1)

def SpelledNode (x : Term × List Quad) : Prop := Spelled x.1 ∧ AllSpelled x.2

def WritesAll (inner : Properties) : Prop := ∀ t, Spelled t → Loads (inner t) AllSpelled

variable {inner : Properties}

theorem loads_bracketed (h : WritesAll inner) :
    Loads (bracketed? inner) fun found => ∀ x ∈ found, SpelledNode x := by
  refine peek_bind fun _ => ahead_bind fun _ => holds_ite (skip_bind ?_) (holds_pure nofun)
  refine loads_freshNode.bind fun node spelled => (h node spelled).bind fun found others => ?_
  refine (tame_expectSymbol _).bind fun _ => holds_pure ?_
  rintro x ⟨⟩
  exact ⟨spelled, others⟩

theorem loads_object (h : WritesAll inner) : Loads (object inner) SpelledNode := by
  refine (tame_onSymbol _).bind fun _ => holds_ite (holds_fail _) ((loads_bracketed h).bind fun found spelled => ?_)
  cases found with
  | some x => exact holds_pure (spelled x rfl)
  | none => exact loads_term.bind fun t spelled => holds_pure ⟨spelled, allSpelled_nil⟩

theorem loads_objects (h : WritesAll inner) {subject predicate : Term} (hs : Spelled subject)
    (hp : Spelled predicate) : Loads (objects inner subject predicate) AllSpelled := by
  refine holds_loop (fun found before => ?_) allSpelled_nil
  refine (loads_object h).bind fun x spelled => loads_tripleGraph.bind fun g named => ?_
  refine (tame_acceptSymbol _).bind fun more => holds_pure ?_
  have last : AllSpelled [⟨subject, predicate, x.1, g⟩] := allSpelled_single fun p => by
    cases p
    · exact hs
    · exact hp
    · exact spelled.1
    · exact named
  have all := (before.append spelled.2).append last
  cases more <;> exact all

theorem tame_skipSemicolons : Tame skipSemicolons :=
  tame_loop (fun _ => (tame_acceptSymbol _).bind fun _ => tame_pure _) ()

theorem loads_propertiesWith (h : WritesAll inner) : WritesAll (propertiesWith inner) := by
  refine fun subject spelled => holds_loop (fun found before => ?_) allSpelled_nil
  refine loads_verb.bind fun predicate verb => (loads_objects h spelled verb).bind fun more others => ?_
  have all := before.append others
  refine (tame_acceptSymbol _).bind fun _ => holds_ite (tame_skipSemicolons.bind fun _ => ?_) (holds_pure all)
  refine peek_bind fun l => holds_pure ?_
  cases startsVerb l <;> exact all

theorem loads_properties : WritesAll properties := by
  -- nodes in brackets are read one level deeper, with the same reader
  have nested : ∀ depth, WritesAll (propertiesTo depth) := by
    intro depth
    induction depth with
    | zero => exact fun _ _ => holds_fail _
    | succ depth ih => exact loads_propertiesWith ih
  exact fun t spelled => Tame.bind (Tame.of holds_cursor) fun c => nested _ t spelled

theorem loads_sameSubject : Loads sameSubject AllSpelled := by
  refine (tame_onSymbol _).bind fun _ => holds_ite (holds_fail _) ?_
  refine (loads_bracketed loads_properties).bind fun found spelled => ?_
  cases found with
  | none => exact loads_term.bind fun t spelled => loads_properties t spelled
  | some x =>
    obtain ⟨subject, own⟩ := spelled x rfl
    refine peek_bind fun _ => holds_ite ?_ (holds_pure own)
    exact (loads_properties x.1 subject).bind fun more others => holds_pure (own.append others)

theorem loads_triples : Loads triples AllSpelled := by
  refine holds_loop (fun found before => tame_onTriple.bind fun _ => holds_ite ?_ (holds_pure before)) allSpelled_nil
  refine loads_sameSubject.bind fun more others => (tame_acceptSymbol _).bind fun dot => holds_pure ?_
  have all := before.append others
  cases dot <;> exact all

theorem Holds.inGraph {r : Reader α} {graph : Term} (spelled : Spelled graph) (h : Loads r P) :
    Loads (inGraph graph r) P :=
  fun scope c a c' inside => h { scope with graph } c a c' ⟨spelled, inside.2⟩

theorem Holds.inData {r : Reader α} (h : Loads r P) : Loads (inData r) P :=
  fun scope c a c' inside => h { scope with data := true } c a c' inside

theorem loads_graphBlock {graph : Term} (spelled : Spelled graph) : Loads (graphBlock graph) AllSpelled := by
  refine (tame_expectSymbol _).bind fun _ => Holds.inGraph spelled ?_
  refine holds_loop (fun found before => ?_) allSpelled_nil
  refine (tame_acceptSymbol _).bind fun _ => holds_ite (holds_pure before) ?_
  refine tame_onTriple.bind fun _ => holds_ite ?_ (holds_fail _)
  exact loads_triples.bind fun more others => holds_pure (before.append others)

theorem loads_quadData : Loads quadData AllSpelled := by
  refine Holds.inData ((tame_expectSymbol _).bind fun _ => holds_loop (fun found before => ?_) allSpelled_nil)
  refine (tame_acceptSymbol _).bind fun _ => holds_ite (holds_pure before) ((tame_acceptWord _).bind fun _ => ?_)
  have added : ∀ more, AllSpelled more → Loads (do
      discard (acceptSymbol .dot)
      return .yield (found ++ more)) (Keeps AllSpelled) := fun more others =>
    Tame.bind ((tame_acceptSymbol _).bind fun _ => tame_pure _) fun _ => holds_pure (before.append others)
  split
  · exact tame_onTriple.bind fun _ => loads_graphName.bind fun g spelled => (loads_graphBlock spelled).bind added
  · refine tame_onTriple.bind fun _ => ?_
    split
    · exact loads_triples.bind added
    · exact Holds.bind (holds_fail _) added

theorem loads_insertion : Loads insertion AllSpelled := by
  refine (tame_expectWord _).bind fun _ => loads_quadData.bind fun found spelled => ?_
  exact Tame.bind ((tame_acceptSymbol _).bind fun _ => tame_pure _) fun _ => holds_pure spelled

theorem loads_statement : Loads statement AllSpelled := by
  refine loads_sameSubject.bind fun found spelled => tame_atEnd.bind fun _ => holds_ite (holds_pure spelled) ?_
  exact (tame_expectSymbol _).bind fun _ => holds_pure spelled

def SpelledParts (d : Document) : Prop := AllSpelled d.inserted ∧ AllSpelled d.stated

theorem loads_documentPart {d : Document} (before : SpelledParts d) : Loads (documentPart d) SpelledParts := by
  have stated : ∀ {r : Reader (List Quad)}, Loads r AllSpelled →
      Loads (do return d.addStated (← r)) SpelledParts :=
    fun h => h.bind fun found spelled => holds_pure ⟨before.1, before.2.append spelled⟩
  refine (tame_acceptTag _).bind fun _ => holds_ite ?_ ((tame_acceptTag _).bind fun _ => holds_ite ?_ ?_)
  · exact tame_prefixDeclaration.bind fun _ => (tame_expectSymbol _).bind fun _ => holds_pure before
  · exact tame_baseDeclaration.bind fun _ => (tame_expectSymbol _).bind fun _ => holds_pure before
  refine (tame_onWord _).bind fun _ => (tame_onWord _).bind fun _ => ?_
  refine holds_ite (tame_prologue.bind fun _ => holds_pure before) ?_
  refine (tame_acceptWord _).bind fun _ => holds_ite ?_ ((tame_acceptWord _).bind fun _ => holds_ite ?_ ?_)
  · exact loads_insertion.bind fun found spelled => holds_pure ⟨before.1.append spelled, before.2⟩
  · exact loads_graphName.bind fun g spelled => stated (loads_graphBlock spelled)
  refine (tame_onSymbol _).bind fun _ => holds_ite ?_ (peek_bind fun _ => ahead_bind fun _ => holds_ite ?_ ?_)
  · exact holds_scope.bind fun scope spelled => stated (loads_graphBlock spelled.2)
  · exact loads_graphName.bind fun g spelled => stated (loads_graphBlock spelled)
  · exact stated loads_statement

theorem loads_document : Loads document SpelledParts := by
  refine holds_loop (fun d before => ?_) ⟨allSpelled_nil, allSpelled_nil⟩
  refine tame_atEnd.bind fun _ => holds_ite (holds_pure before) ?_
  exact (loads_documentPart before).bind fun d after => holds_pure after

end Reader

theorem Document.read_allSpelled {s : Text} {graph : Term} {quads : List Quad} (spelled : Spelled graph)
    (h : Document.read s graph = .ok quads) : Reader.AllSpelled quads := by
  unfold read at h
  cases scanned : Token.scan s with
  | error e =>
    rw [scanned] at h
    cases h
  | ok tokens =>
    rw [scanned] at h
    simp only [bind, Except.bind] at h
    cases run : Reader.run Reader.document (.whole true graph s.length) tokens with
    | error e =>
      rw [run] at h
      cases h
    | ok d =>
      rw [run] at h
      cases h
      obtain ⟨after, made⟩ := Reader.run_eq_ok run
      have unquoted : Reader.loading.cursor { tokens } := Token.scanFrom_unquoted scanned
      obtain ⟨⟨inserted, stated⟩, -⟩ := Reader.loads_document _ _ d after ⟨spelled, spelled⟩ unquoted made
      exact inserted.append stated

end Sparql

theorem Contents.foldl_put (quads : List Quad) (m : Contents) (k : Quad) :
    ((quads.map fun q => (⟨q, none⟩ : Quint)).foldl put m) k = if k ∈ quads then some none else m k := by
  induction quads generalizing m with
  | nil => simp
  | cons q quads ih =>
    rw [List.map_cons, List.foldl_cons, ih, put]
    by_cases later : k ∈ quads
    · simp [later]
    · by_cases same : k = q <;> simp [later, same]

theorem Sql.Table.mem_upserts {t after : Table} {qs : List Quint} {r : Row}
    (h : t.applyAll (qs.map fun q => .upsert q.toRow) = .ok after) (mem : r ∈ after.rows) :
    r ∈ t.rows ∨ ∃ q ∈ qs, r = q.toRow := by
  induction qs generalizing t with
  | nil =>
    cases h
    exact .inl mem
  | cons q qs ih =>
    cases applied : t.apply (.upsert q.toRow) with
    | error e =>
      rw [List.map_cons, applyAll, List.foldlM_cons, applied] at h
      cases h
    | ok next =>
      obtain ⟨next, n⟩ := next
      rw [List.map_cons, applyAll_cons applied] at h
      rcases ih h with before | ⟨k, inside, rfl⟩
      · rw [apply] at applied
        split at applied
        · cases applied
        · cases applied
          rcases List.mem_append.1 before with before | last
          · exact .inl (List.mem_of_mem_filter before)
          · exact .inr ⟨q, List.mem_cons_self, List.mem_singleton.1 last⟩
      · exact .inr ⟨k, List.mem_cons_of_mem q inside, rfl⟩

namespace Store

theorem applyAll_of_putAll {t after : Table} {qs : List Quint}
    (h : Store.putAll qs ⟨true, t⟩ = (.ok (), ⟨true, after⟩)) :
    t.applyAll (qs.map fun q => .upsert q.toRow) = .ok after := by
  rw [show Store.putAll qs ⟨true, t⟩ = _ from Write.open_apply _ _, transact_eq] at h
  cases applied : t.applyAll (qs.map fun q => .upsert q.toRow) with
  | error e =>
    rw [applied] at h
    cases h
  | ok next =>
    rw [applied] at h
    cases h
    rfl

/-- Loaded into an empty store, some statements are what a lookup of everything answers, each once. -/
def ReadsBack (lasting : Bool) (quads : List Quad) : Prop :=
  ∃ (t : Table) (rows : List Quint),
    Store.putAll (quads.map fun q => ⟨q, none⟩) ⟨true, .empty lasting⟩ = (.ok (), ⟨true, t⟩) ∧
    Store.get {} {} ⟨true, t⟩ = (.ok rows, ⟨true, t⟩) ∧
    (rows.map (·.toQuad)).Nodup ∧
    ∀ q : Quint, q ∈ rows ↔ q.toQuad ∈ quads ∧ q.vector = none

theorem readsBack_of_kept (lasting : Bool) {quads : List Quad} (kept : ∀ q ∈ quads, q.Kept) :
    ReadsBack lasting quads := by
  have kept : Write.Kept (.putAll (quads.map fun q => ⟨q, none⟩)) := by
    intro q mem
    obtain ⟨k, inside, rfl⟩ := List.mem_map.1 mem
    exact ⟨kept k inside, nofun⟩
  obtain ⟨t, put, represents⟩ := Write.run_represents kept (Represents.empty lasting)
  obtain ⟨rows, get, lists⟩ := represents.get_all
  refine ⟨t, rows, put, get, lists.distinct, fun q => ?_⟩
  rw [lists.mem_iff, Write.effect, Contents.foldl_put]
  by_cases mem : q.toQuad ∈ quads <;> simp [mem, Contents.empty, eq_comm]

theorem regained_of_readsBack {lasting : Bool} {quads : List Quad} (h : ReadsBack lasting quads) :
    ∀ k ∈ quads, ∃ q ∈ quads, ∀ p, k.get p = Term.ofStored ((q.get p).stored p) p := by
  obtain ⟨t, rows, put, get, -, mem_iff⟩ := h
  intro k mem
  have rows_eq : t.rows.map Quint.ofRow = rows := by
    rw [get_everything] at get
    cases get
    rfl
  have answered : (⟨k, none⟩ : Quint) ∈ rows := (mem_iff _).2 ⟨mem, rfl⟩
  rw [← rows_eq] at answered
  obtain ⟨r, stored, eq⟩ := List.mem_map.1 answered
  rcases Table.mem_upserts (applyAll_of_putAll put) stored with none | ⟨q, loaded, rfl⟩
  · cases none
  · obtain ⟨q, inside, rfl⟩ := List.mem_map.1 loaded
    refine ⟨q, inside, fun p => ?_⟩
    have whole : k = (Quint.ofRow (Quint.toRow ⟨q, none⟩)).toQuad := by rw [eq]
    rw [whole, Quint.get_ofRow, Quint.get_toRow]

/-- A document that is loaded into an empty store reads back if, and only if, its terms are clear. -/
theorem load_reads_back (lasting : Bool) {s : Text} {graph : Term} {quads : List Quad}
    (home : graph = .defaultGraph ∨ ∃ value, graph = .iri value)
    (read : Sparql.Document.read s graph = .ok quads) :
    ReadsBack lasting quads ↔ ∀ q ∈ quads, ∀ p, (q.get p).Clear p := by
  have spelled : graph.Spelled := by
    rcases home with rfl | ⟨value, rfl⟩
    · exact .defaultGraph
    · exact .iri value
  have all := Sparql.Document.read_allSpelled spelled read
  constructor
  · exact fun back => Quad.clear_of_regained all (regained_of_readsBack back)
  · exact fun clear => readsBack_of_kept lasting fun q mem p => (all q mem p).kept (clear q mem p)

def greetings : Text := "<a:s> <a:p> 1 .\n_:b <a:p> \"hi\"@en <a:g> .\n<a:s> <a:p> 1 ."

def greetingQuads : List Quad :=
  [⟨.iri "a:s", .iri "a:p", .typed "1" Xsd.integer, .defaultGraph⟩,
   ⟨.blank "b", .iri "a:p", .tagged "hi" "en", .iri "a:g"⟩,
   ⟨.iri "a:s", .iri "a:p", .typed "1" Xsd.integer, .defaultGraph⟩]

theorem load_reads_back_greetings :
    Sparql.Document.read greetings .defaultGraph = .ok greetingQuads ∧ ReadsBack false greetingQuads := by
  have read : Sparql.Document.read greetings .defaultGraph = .ok greetingQuads := by decide +kernel
  have each : ∀ q ∈ greetingQuads, ∀ p ∈ Position.all, (q.get p).Clear p := by decide +kernel
  have clear : ∀ q ∈ greetingQuads, ∀ p, (q.get p).Clear p := fun q mem p =>
    each q mem p (by cases p <;> decide)
  exact ⟨read, (load_reads_back false (.inl rfl) read).2 clear⟩

def nulNumber : Text :=
  "<http://ex/s> <http://ex/p> \"1\\u0000\"^^<http://www.w3.org/2001/XMLSchema#integer> ."

def nulQuad : Quad :=
  ⟨.iri "http://ex/s", .iri "http://ex/p", .typed [Text.byte '1', 0] Xsd.integer, .defaultGraph⟩

theorem load_cuts_nul :
    Sparql.Document.read nulNumber .defaultGraph = .ok [nulQuad] ∧
    ∃ (t : Table) (row : Quint),
      Store.putAll [⟨nulQuad, none⟩] ⟨true, .empty false⟩ = (.ok (), ⟨true, t⟩) ∧
      Store.get {} {} ⟨true, t⟩ = (.ok [row], ⟨true, t⟩) ∧
      row.object = .typed "1" Xsd.integer ∧ row.toQuad ≠ nulQuad := by
  let stored : Row := Quint.toRow ⟨nulQuad, none⟩
  have put : ∀ r : Row, (Table.empty false).applyAll [.upsert r] = .ok ⟨[r], [], [], false⟩ := fun _ => rfl
  refine ⟨by decide +kernel, ⟨[stored], [], [], false⟩, Quint.ofRow stored, ?_, Store.get_everything _, ?_, ?_⟩
  · exact (Write.open_apply _ _).trans (Store.transact_apply (put stored))
  · decide +kernel
  · decide +kernel

end Store

end QuadStore
