import Mathlib.Data.List.Forall2
import QuadStore.Proofs.Digits
import QuadStore.Sql.Statement

namespace QuadStore.Sql

/-- SQL with the values in it. -/
inductive Piece where
  | byte (c : UInt8)
  | value (p : Param)
  deriving DecidableEq

abbrev quote : UInt8 := Text.byte '\''

abbrev mark : UInt8 := Text.byte '?'

def placeholders (quoted : Bool) : Text → Nat
  | [] => 0
  | c :: rest =>
    if c = quote then placeholders (!quoted) rest
    else if c = mark ∧ !quoted then placeholders quoted rest + 1
    else placeholders quoted rest

/-- Puts values in for the question marks that are not between single quotes, if there are as many. -/
def fill (quoted : Bool) : Text → List Param → Option (List Piece)
  | [], ps => if ps = [] then some [] else none
  | c :: rest, ps =>
    if c = quote then (fill (!quoted) rest ps).map (.byte c :: ·)
    else if c = mark ∧ !quoted then
      match ps with
      | [] => none
      | p :: ps => (fill quoted rest ps).map (.value p :: ·)
    else (fill quoted rest ps).map (.byte c :: ·)

def Fragment.filled (f : Fragment) : Option (List Piece) := fill false f.text f.params

namespace Piece

def value? : Piece → Option Param
  | byte _ => none
  | value p => some p

def numberedFrom (next : Nat) : List Piece → Text
  | [] => []
  | byte c :: rest => c :: numberedFrom next rest
  | value _ :: rest => Text.byte '$' :: Text.ofNat next ++ numberedFrom (next + 1) rest

end Piece

def bytes (s : Text) : List Piece := s.map .byte

variable {quoted : Bool} {sql : Text} {ps : List Param} {pieces : List Piece}

theorem values_of_fill (h : fill quoted sql ps = some pieces) : pieces.filterMap Piece.value? = ps := by
  fun_induction fill quoted sql ps generalizing pieces with
  | case1 =>
    cases h
    rfl
  | case2 | case4 => cases h
  | case3 quoted rest ps ih | case6 quoted c rest ps plain unmarked ih =>
    obtain ⟨more, filled, rfl⟩ := Option.map_eq_some_iff.1 h
    rw [← ih filled]
    rfl
  | case5 quoted c rest plain marked p ps ih =>
    obtain ⟨more, filled, rfl⟩ := Option.map_eq_some_iff.1 h
    exact congrArg (p :: ·) (ih filled)

theorem placeholders_of_fill (h : fill quoted sql ps = some pieces) : placeholders quoted sql = ps.length := by
  fun_induction fill quoted sql ps generalizing pieces with
  | case1 => rfl
  | case2 | case4 => cases h
  | case3 quoted rest ps ih =>
    obtain ⟨more, filled, rfl⟩ := Option.map_eq_some_iff.1 h
    rw [placeholders, if_pos rfl, ih filled]
  | case5 quoted c rest plain marked p ps ih =>
    obtain ⟨more, filled, rfl⟩ := Option.map_eq_some_iff.1 h
    rw [placeholders, if_neg plain, if_pos marked, ih filled, List.length_cons]
  | case6 quoted c rest ps plain unmarked ih =>
    obtain ⟨more, filled, rfl⟩ := Option.map_eq_some_iff.1 h
    rw [placeholders, if_neg plain, if_neg unmarked, ih filled]

theorem numbered_of_fill (next : Nat) (h : fill quoted sql ps = some pieces) :
    numbered.go quoted next sql = Piece.numberedFrom next pieces := by
  fun_induction fill quoted sql ps generalizing pieces next with
  | case1 =>
    cases h
    rfl
  | case2 | case4 => cases h
  | case3 quoted rest ps ih =>
    obtain ⟨more, filled, rfl⟩ := Option.map_eq_some_iff.1 h
    rw [numbered.go, if_pos rfl, ih next filled, Piece.numberedFrom]
  | case5 quoted c rest plain marked p ps ih =>
    obtain ⟨more, filled, rfl⟩ := Option.map_eq_some_iff.1 h
    rw [numbered.go, if_neg plain, if_pos marked, ih (next + 1) filled, Piece.numberedFrom]
  | case6 quoted c rest ps plain unmarked ih =>
    obtain ⟨more, filled, rfl⟩ := Option.map_eq_some_iff.1 h
    rw [numbered.go, if_neg plain, if_neg unmarked, ih next filled, Piece.numberedFrom]

namespace Fragment

def Reads (f : Fragment) (x : List Piece) : Prop :=
  ∀ sql ps, fill false (f.text ++ sql) (f.params ++ ps) = (fill false sql ps).map (x ++ ·)

variable {f g : Fragment} {x y : List Piece}

theorem Reads.filled (h : f.Reads x) : f.filled = some x := by
  have whole := h [] []
  rw [List.append_nil, List.append_nil] at whole
  rw [Fragment.filled, whole]
  exact congrArg some (List.append_nil x)

theorem Reads.text_eq_nil (h : f.Reads x) : f.text = [] ↔ x = [] := by
  have filled : fill false f.text f.params = some x := h.filled
  constructor
  · intro none_
    rw [none_, fill] at filled
    split at filled
    · exact (Option.some.inj filled).symm
    · cases filled
  · rintro rfl
    cases ht : f.text with
    | nil => rfl
    | cons c rest =>
      rw [ht, fill.eq_def] at filled
      dsimp only at filled
      split at filled
      · simp at filled
      · split at filled
        · split at filled
          · cases filled
          · simp at filled
        · simp at filled

theorem reads_empty : Reads .empty [] := by
  intro sql ps
  exact (congrFun Option.map_id (fill false sql ps)).symm

theorem Reads.append (hf : f.Reads x) (hg : g.Reads y) : (f ++ g).Reads (x ++ y) := by
  intro sql ps
  calc fill false (f.text ++ g.text ++ sql) (f.params ++ g.params ++ ps)
      = fill false (f.text ++ (g.text ++ sql)) (f.params ++ (g.params ++ ps)) := by
        rw [List.append_assoc, List.append_assoc]
    _ = ((fill false sql ps).map (y ++ ·)).map (x ++ ·) := by rw [hf, hg]
    _ = (fill false sql ps).map (x ++ y ++ ·) := by
        rw [Option.map_map]
        congr 1
        funext rest
        exact (List.append_assoc x y rest).symm

/-- The placeholders of a statement are those of the values of some SQL, each in its place. -/
structure Carries (f : Fragment) (sql : List Piece) : Prop where
  count : placeholders false f.text = f.params.length
  places : f.filled = some sql
  values : sql.filterMap Piece.value? = f.params
  numbers : numbered f.text = Piece.numberedFrom 1 sql

theorem Reads.carries (h : f.Reads x) : f.Carries x :=
  ⟨placeholders_of_fill h.filled, h.filled, values_of_fill h.filled, numbered_of_fill 1 h.filled⟩

theorem reads_param (p : Param) : (param p).Reads [.value p] := fun _ _ => rfl

end Fragment

def IsPlain (s : Text) : Prop := ∀ c ∈ s, c ≠ quote ∧ c ≠ mark

instance : DecidablePred IsPlain := fun s => List.decidableBAll (fun c => c ≠ quote ∧ c ≠ mark) s

theorem isPlain_literal (s : String) :
    (s.toByteArray.data.toList.all fun c => c != quote && c != mark) = true ↔ IsPlain (Text.ofString s) := by
  have bytes : Text.ofString s = s.toByteArray.data.toList := by
    rw [← String.utf8Encode_toList, List.utf8Encode, List.toList_data_toByteArray]
    rfl
  rw [bytes, List.all_eq_true]
  simp [IsPlain]

instance (s : String) : Decidable (IsPlain (Text.ofString s)) := decidable_of_iff _ (isPlain_literal s)

theorem IsPlain.append {s t : Text} (hs : IsPlain s) (ht : IsPlain t) : IsPlain (s ++ t) := by
  intro c mem
  rcases List.mem_append.1 mem with mem | mem
  · exact hs c mem
  · exact ht c mem

theorem IsPlain.flatMap {α : Type} {f : α → Text} {xs : List α} (h : ∀ x ∈ xs, IsPlain (f x)) :
    IsPlain (xs.flatMap f) := by
  intro c mem
  obtain ⟨x, hx, mem⟩ := List.mem_flatMap.1 mem
  exact h x hx c mem

theorem IsPlain.joined {separator : Text} (hs : IsPlain separator) {parts : List Text}
    (h : ∀ s ∈ parts, IsPlain s) : IsPlain (Text.joined separator parts) := by
  induction parts with
  | nil => exact fun c mem => absurd mem List.not_mem_nil
  | cons s rest ih =>
    have tail := ih fun t mem => h t (List.mem_cons_of_mem s mem)
    have head := h s List.mem_cons_self
    cases rest with
    | nil => simpa [Text.joined, List.intercalate] using head
    | cons t rest =>
      have cons : Text.joined separator (s :: t :: rest) = s ++ (separator ++ Text.joined separator (t :: rest)) := by
        simp [Text.joined, List.intercalate]
      rw [cons]
      exact head.append (hs.append tail)

namespace Fragment

theorem reads_raw {s : Text} (plain : IsPlain s) : (raw s).Reads (bytes s) := by
  -- on the text, for every rest of the statement: no byte opens a quote or takes a value
  intro sql ps
  induction s with
  | nil => exact reads_empty sql ps
  | cons c rest ih =>
    obtain ⟨unquoted, unmarked⟩ := plain c List.mem_cons_self
    have tail := ih fun d mem => plain d (List.mem_cons_of_mem c mem)
    have start : fill false (c :: (rest ++ sql)) ps = (fill false (rest ++ sql) ps).map (.byte c :: ·) := by
      rw [fill.eq_def]
      dsimp only
      rw [if_neg unquoted, if_neg fun marked => unmarked marked.1]
    change fill false (c :: (rest ++ sql)) ps = _
    rw [start]
    change fill false (rest ++ sql) ps = _ at tail
    rw [tail, Option.map_map]
    rfl

theorem fill_quoted {s : Text} (inside : quote ∉ s) (sql : Text) (ps : List Param) :
    fill true (s ++ sql) ps = (fill true sql ps).map (bytes s ++ ·) := by
  induction s with
  | nil => exact (congrFun Option.map_id (fill true sql ps)).symm
  | cons c rest ih =>
    obtain ⟨other, tail⟩ := not_or.1 fun same => inside (List.mem_cons.2 same)
    have start : fill true (c :: (rest ++ sql)) ps = (fill true (rest ++ sql) ps).map (.byte c :: ·) := by
      rw [fill.eq_def]
      dsimp only
      rw [if_neg (Ne.symm other), if_neg fun marked => Bool.false_ne_true marked.2]
    rw [List.cons_append, start, ih tail, Option.map_map]
    rfl

theorem reads_quoted {s : Text} (inside : quote ∉ s) :
    (raw (quote :: (s ++ [quote]))).Reads (bytes (quote :: (s ++ [quote]))) := by
  intro sql ps
  have opening : fill false (quote :: (s ++ quote :: sql)) ps =
      (fill true (s ++ quote :: sql) ps).map (.byte quote :: ·) := by
    rw [fill.eq_def]
    rfl
  have closing : fill true (quote :: sql) ps = (fill false sql ps).map (.byte quote :: ·) := by
    rw [fill.eq_def]
    rfl
  have text : (raw (quote :: (s ++ [quote]))).text ++ sql = quote :: (s ++ quote :: sql) := by
    simp [raw]
  have pieces : bytes (quote :: (s ++ [quote])) = .byte quote :: (bytes s ++ [.byte quote]) := by
    simp [bytes]
  change fill false _ ps = _
  rw [text, opening, fill_quoted inside, closing, pieces, Option.map_map, Option.map_map]
  congr 1
  funext rest
  simp

theorem reads_escape : (raw " ESCAPE '\\'").Reads (bytes " ESCAPE '\\'") := by
  have text : raw " ESCAPE '\\'" = raw " ESCAPE " ++ raw (quote :: ([Text.byte '\\'] ++ [quote])) := by decide
  have pieces : bytes " ESCAPE '\\'" = bytes " ESCAPE " ++ bytes (quote :: ([Text.byte '\\'] ++ [quote])) := by
    decide
  rw [text, pieces]
  exact (reads_raw (by decide)).append (reads_quoted (by decide))

theorem reads_joined {separator : Text} (plain : IsPlain separator) {fs : List Fragment} {xs : List (List Piece)}
    (h : List.Forall₂ Reads fs xs) : (joined separator fs).Reads ((bytes separator).intercalate xs) := by
  induction h with
  | nil => exact reads_empty
  | @cons f x fs xs head tail ih =>
    cases tail with
    | nil => simpa [joined, List.intercalate] using head
    | @cons g y fs xs head' tail' =>
      have cons : (bytes separator).intercalate (x :: y :: xs) =
          x ++ bytes separator ++ (bytes separator).intercalate (y :: xs) := by
        simp [List.intercalate]
      rw [cons, joined]
      · exact (head.append (reads_raw plain)).append ih
      · exact nofun

theorem reads_some {fs : List Fragment} {xs : List (List Piece)} (h : List.Forall₂ Reads fs xs) :
    List.Forall₂ Reads (fs.filter (·.text ≠ [])) (xs.filter (· ≠ [])) := by
  induction h with
  | nil => exact .nil
  | @cons f x fs xs head tail ih =>
    by_cases none_ : x = []
    · simpa [none_, head.text_eq_nil.2 none_] using ih
    · have text : f.text ≠ [] := fun same => none_ (head.text_eq_nil.1 same)
      simpa [none_, text] using List.Forall₂.cons head ih

end Fragment

theorem position_plain (p : Position) : IsPlain p.name := by
  cases p <;> decide

theorem ofNat_plain (n : Nat) : IsPlain (Text.ofNat n) := by
  intro c mem
  have digit := Text.isDigit_of_mem_ofNat mem
  constructor <;> rintro rfl <;> revert digit <;> decide

theorem patternName_plain (i : Nat) : IsPlain (patternName i) := by
  intro c mem
  rcases List.mem_cons.1 mem with rfl | mem
  · decide
  · exact ofNat_plain i c mem

def listed (ps : List Param) : List Piece := (bytes ", ").intercalate (ps.map fun p => [.value p])

theorem reads_listed (ps : List Param) : (Fragment.params? ps).Reads (listed ps) := by
  apply Fragment.reads_joined (by decide)
  rw [List.forall₂_map_left_iff, List.forall₂_map_right_iff, List.forall₂_same]
  exact fun p _ => Fragment.reads_param p

end QuadStore.Sql

namespace QuadStore

open Sql

def Condition.inlined (column : Text) : Condition → List Piece
  | .compare c value => bytes (column ++ Comparison.symbol c) ++ [.value (.text value)]
  | .among [] => bytes "1 = 0"
  | .among values => bytes (column ++ " IN (") ++ listed (values.map .text) ++ bytes ")"
  | .notAmong values => bytes (column ++ " NOT IN (") ++ listed (values.map .text) ++ bytes ")"
  | .between first last =>
    bytes (column ++ " >= ") ++ [.value (.text first)] ++ bytes (" AND " ++ column ++ " < ") ++
      [.value (.text last)]
  | .like pattern => bytes (column ++ " LIKE ") ++ [.value (.text pattern)] ++ bytes " ESCAPE '\\'"
  | .isNull true => bytes (column ++ " IS NULL")
  | .isNull false => bytes (column ++ " IS NOT NULL")

theorem Condition.reads {column : Text} (plain : IsPlain column) (c : Condition) :
    (conditionFragment column c).Reads (c.inlined column) := by
  have raw : ∀ s : Text, IsPlain s → (Fragment.raw (column ++ s)).Reads (bytes (column ++ s)) :=
    fun s hs => Fragment.reads_raw (plain.append hs)
  have value : ∀ s : Text, (Fragment.param (.text s)).Reads [.value (.text s)] := fun s => Fragment.reads_param _
  have closing : (Fragment.raw ")").Reads (bytes ")") := Fragment.reads_raw (by decide)
  cases c with
  | compare op v =>
    have symbol : IsPlain (Comparison.symbol op) := by cases op <;> decide
    exact (raw _ symbol).append (value v)
  | among vs =>
    cases vs with
    | nil => exact Fragment.reads_raw (by decide)
    | cons v vs => exact ((raw _ (by decide)).append (reads_listed _)).append closing
  | notAmong vs => exact ((raw _ (by decide)).append (reads_listed _)).append closing
  | between first last =>
    have second : IsPlain (" AND " ++ column ++ " < ") :=
      (IsPlain.append (by decide) plain).append (by decide)
    exact (((raw _ (by decide)).append (value first)).append (Fragment.reads_raw second)).append (value last)
  | like pattern => exact ((raw _ (by decide)).append (value pattern)).append Fragment.reads_escape
  | isNull expected =>
    cases expected with
    | true => exact raw _ (by decide)
    | false => exact raw _ (by decide)

def Clause.inlinedAll (qualifier : Text) (clauses : List Clause) : List Piece :=
  (bytes " AND ").intercalate (clauses.map fun c => c.condition.inlined (qualifier ++ c.position.name))

theorem Clause.reads_all {qualifier : Text} (plain : IsPlain qualifier) (clauses : List Clause) :
    (conditionsFragment qualifier clauses).Reads (inlinedAll qualifier clauses) := by
  apply Fragment.reads_joined (by decide)
  rw [List.forall₂_map_left_iff, List.forall₂_map_right_iff, List.forall₂_same]
  exact fun c _ => c.condition.reads (plain.append (position_plain c.position))

def Options.inlined (options : Options) : List Piece :=
  (match options.limit, options.offset with
    | some n, _ => bytes " LIMIT " ++ [.value (.int (sqlInteger n))]
    | none, some _ => bytes " LIMIT " ++ [.value (.int maxInteger)]
    | none, none => []) ++
  match options.offset with
    | some n => bytes " OFFSET " ++ [.value (.int (sqlInteger n))]
    | none => []

theorem Options.reads (options : Options) : (sliceFragment options).Reads options.inlined := by
  have limited : ∀ n : Nat, ((" LIMIT " : Fragment) ++ .param (.int n)).Reads (bytes " LIMIT " ++ [.value (.int n)]) :=
    fun n => (Fragment.reads_raw (by decide)).append (Fragment.reads_param _)
  have skipped : ∀ n : Nat, ((" OFFSET " : Fragment) ++ .param (.int n)).Reads (bytes " OFFSET " ++ [.value (.int n)]) :=
    fun n => (Fragment.reads_raw (by decide)).append (Fragment.reads_param _)
  unfold sliceFragment inlined
  cases options.limit with
  | some n =>
    cases options.offset with
    | some k => exact (limited _).append (skipped _)
    | none => exact (limited _).append Fragment.reads_empty
  | none =>
    cases options.offset with
    | some k => exact (limited _).append (skipped _)
    | none => exact Fragment.reads_empty.append Fragment.reads_empty

theorem Options.reads_order {qualifier : Text} (plain : IsPlain qualifier) (options : Options) :
    (orderFragment qualifier options).Reads (bytes (orderFragment qualifier options).text) := by
  unfold orderFragment
  split
  · exact Fragment.reads_empty
  · apply Fragment.reads_raw
    apply IsPlain.append (by decide)
    apply IsPlain.joined (by decide)
    intro s mem
    obtain ⟨p, -, rfl⟩ := List.mem_map.1 mem
    apply IsPlain.append (plain.append (position_plain p))
    split <;> decide

namespace Sql

def filteredInlined (conditions : List Piece) : List Piece :=
  if conditions = [] then [] else bytes " WHERE " ++ conditions

theorem reads_filtered {f : Fragment} {x : List Piece} (h : f.Reads x) : (filtered f).Reads (filteredInlined x) := by
  unfold filtered filteredInlined
  by_cases none_ : x = []
  · rw [if_pos (h.text_eq_nil.2 none_), if_pos none_]
    exact Fragment.reads_empty
  · rw [if_neg fun same => none_ (h.text_eq_nil.1 same), if_neg none_]
    exact (Fragment.reads_raw (by decide)).append h

theorem reads_where (clauses : List Clause) :
    (whereFragment clauses).Reads (filteredInlined (Clause.inlinedAll [] clauses)) :=
  reads_filtered (Clause.reads_all (by decide) clauses)

namespace Join

def conditionsInlined (j : Join) : List Piece :=
  (bytes " AND ").intercalate ((j.patterns.zipIdx.map fun (clauses, i) =>
    Clause.inlinedAll (patternName i ++ ".") clauses).filter (· ≠ []))

def header (j : Join) : Text :=
  "SELECT q0." ++ j.on.name ++ " AS join_value" ++ j.projections.flatMap projectionFragment ++ " FROM quints q0" ++
    (List.range' 1 (j.patterns.length - 1)).flatMap (partFragment j.on)

def inlined (j : Join) (options : Options) : List Piece :=
  bytes j.header ++ filteredInlined j.conditionsInlined ++ bytes (orderFragment "q0." options).text ++ options.inlined

theorem reads_conditions (j : Join) : j.conditions.Reads j.conditionsInlined := by
  apply Fragment.reads_joined (by decide)
  apply Fragment.reads_some
  rw [List.forall₂_map_left_iff, List.forall₂_map_right_iff, List.forall₂_same]
  exact fun x _ => Clause.reads_all ((patternName_plain x.2).append (by decide)) x.1

theorem header_plain {j : Join} (named : ∀ p ∈ j.projections, IsPlain p.name) : IsPlain j.header := by
  have projections : IsPlain (j.projections.flatMap projectionFragment) := by
    apply IsPlain.flatMap
    intro p mem
    have column : IsPlain (", " ++ patternName p.pattern ++ "." ++ p.position.name ++ " AS ") :=
      ((((by decide : IsPlain ", ").append (patternName_plain _)).append (by decide)).append
        (position_plain _)).append (by decide)
    exact column.append (named p mem)
  have parts : IsPlain ((List.range' 1 (j.patterns.length - 1)).flatMap (partFragment j.on)) := by
    apply IsPlain.flatMap
    intro i _
    have graph : IsPlain (if j.on = .graph then [] else sameGraph i) := by
      split
      · decide
      · exact ((by decide : IsPlain " AND q0.graph = ").append (patternName_plain i)).append (by decide)
    have on : IsPlain (" JOIN quints " ++ patternName i ++ " ON q0." ++ j.on.name ++ " = " ++ patternName i ++ "." ++
        j.on.name) :=
      ((((((((by decide : IsPlain " JOIN quints ").append (patternName_plain i)).append (by decide)).append
        (position_plain j.on)).append (by decide)).append (patternName_plain i)).append (by decide)).append
        (position_plain j.on))
    exact on.append graph
  exact (((((by decide : IsPlain "SELECT q0.").append (position_plain j.on)).append (by decide)).append
    projections).append (by decide)).append parts

theorem reads {j : Join} (named : ∀ p ∈ j.projections, IsPlain p.name) (options : Options) :
    (j.render options).Reads (j.inlined options) :=
  (((Fragment.reads_raw (header_plain named)).append (reads_filtered j.reads_conditions)).append
    (options.reads_order (by decide))).append options.reads

end Join

/-- What a store asks of a database in one call, or in one step of a transaction. -/
inductive Statement where
  | definition (d : Definition)
  | query (q : Query)
  | command (c : Command)

namespace Statement

def render (d : Dialect) : Statement → Fragment
  | definition x => .raw (x.render d)
  | query q => q.render
  | command c => c.render d

def inlined (d : Dialect) : Statement → List Piece
  | definition x => bytes (x.render d)
  | query (.select columns clauses options) =>
    bytes ("SELECT " ++ Text.joined ", " (columns.map Column.name) ++ " FROM quints") ++
      filteredInlined (Clause.inlinedAll [] clauses) ++ bytes (orderFragment [] options).text ++ options.inlined
  | query (.count clauses) =>
    bytes "SELECT COUNT(*) AS count FROM quints" ++ filteredInlined (Clause.inlinedAll [] clauses)
  | query .countVectors => bytes "SELECT COUNT(*) AS count FROM quints WHERE vector IS NOT NULL"
  | query .countGraphs => bytes "SELECT COUNT(DISTINCT graph) AS count FROM quints"
  | query (.join j options) => j.inlined options
  | command (.upsert r) =>
    let values := listed (Position.keyOrder.map (fun p => .text (r.get p)) ++ [Command.vectorParam r.vector])
    match d with
    | .sqlite => bytes ("INSERT OR REPLACE INTO quints " ++ Command.columns ++ " VALUES (") ++ values ++ bytes ")"
    | .postgres =>
      bytes ("INSERT INTO quints " ++ Command.columns ++ " VALUES (") ++ values ++
        bytes ") ON CONFLICT (graph, subject, predicate, object) DO UPDATE SET vector = EXCLUDED.vector"
  | command (.setVector payload clauses) =>
    bytes "UPDATE quints SET vector = " ++ [.value (.text payload)] ++ filteredInlined (Clause.inlinedAll [] clauses)
  | command (.delete clauses) => bytes "DELETE FROM quints" ++ filteredInlined (Clause.inlinedAll [] clauses)

def IsNamed : Statement → Prop
  | definition (.index name _) => IsPlain name
  | query (.join j _) => ∀ p ∈ j.projections, IsPlain p.name
  | _ => True

theorem names_plain (ps : List Position) : IsPlain (names ps) := by
  apply IsPlain.joined (by decide)
  intro s mem
  obtain ⟨p, -, rfl⟩ := List.mem_map.1 mem
  exact position_plain p

/-- In every statement the values stand where they are meant. -/
theorem reads {s : Statement} (named : s.IsNamed) (d : Dialect) : (s.render d).Reads (s.inlined d) := by
  cases s with
  | definition x =>
    apply Fragment.reads_raw
    cases x with
    | table =>
      have columns : ∀ (type : Text) (p : Position), IsPlain type → IsPlain (p.name ++ " " ++ type ++ " NOT NULL, ") :=
        fun type p plain => (((position_plain p).append (by decide)).append plain).append (by decide)
      cases d <;>
        exact ((((by decide : IsPlain "CREATE TABLE IF NOT EXISTS quints (").append
          (IsPlain.flatMap fun p _ => columns _ p (by decide))).append (by decide)).append (names_plain _)).append (by decide)
    | index name columns =>
      exact ((((by decide : IsPlain "CREATE INDEX IF NOT EXISTS ").append named).append (by decide)).append
        (names_plain columns)).append (by decide)
  | query q =>
    cases q with
    | select columns clauses options =>
      have list : IsPlain (Text.joined ", " (columns.map Column.name)) := by
        apply IsPlain.joined (by decide)
        intro s mem
        obtain ⟨c, -, rfl⟩ := List.mem_map.1 mem
        cases c with
        | position p => exact position_plain p
        | vector => decide
      have front : IsPlain ("SELECT " ++ Text.joined ", " (columns.map Column.name) ++ " FROM quints") :=
        (IsPlain.append (by decide) list).append (by decide)
      exact (((Fragment.reads_raw front).append (reads_where clauses)).append
        (options.reads_order (by decide))).append options.reads
    | count clauses => exact (Fragment.reads_raw (by decide)).append (reads_where clauses)
    | countVectors => exact Fragment.reads_raw (by decide)
    | countGraphs => exact Fragment.reads_raw (by decide)
    | join j options => exact Join.reads named options
  | command c =>
    cases c with
    | upsert r =>
      cases d with
      | sqlite =>
        exact ((Fragment.reads_raw (by decide)).append (reads_listed _)).append
          (Fragment.reads_raw (by decide))
      | postgres =>
        exact ((Fragment.reads_raw (by decide)).append (reads_listed _)).append
          (Fragment.reads_raw (by decide))
    | setVector payload clauses =>
      exact ((Fragment.reads_raw (by decide)).append (Fragment.reads_param _)).append (reads_where clauses)
    | delete clauses => exact (Fragment.reads_raw (by decide)).append (reads_where clauses)

end Statement

end Sql

end QuadStore
