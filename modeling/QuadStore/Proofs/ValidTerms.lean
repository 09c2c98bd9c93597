import QuadStore.Proofs.Digits
import QuadStore.Proofs.TreeReading
import QuadStore.Proofs.TreeTerms
import QuadStore.Proofs.ValidTokens

namespace QuadStore

open Utf8

def LiteralKind.Valid : LiteralKind → Prop
  | plain => True
  | language tag => Utf8.Valid tag
  | datatype iri => Utf8.Valid iri

def Term.Valid : Term → Prop
  | iri text | blank text | var text => Utf8.Valid text
  | literal lexical kind => Utf8.Valid lexical ∧ kind.Valid
  | defaultGraph => True

theorem Term.valid_typed {lexical datatype : Text} (hl : Utf8.Valid lexical) (hd : Utf8.Valid datatype) :
    (Term.typed lexical datatype).Valid := by
  refine ⟨hl, ?_⟩
  split
  · trivial
  · exact hd

namespace Utf8

theorem valid_map {f : UInt8 → UInt8} (ascii : ∀ c < 0x80, f c < 0x80) (other : ∀ c, ¬ c < 0x80 → f c = c) {s : Text}
    (h : Valid s) : Valid (s.map f) := by
  obtain ⟨cs, rfl⟩ := h
  induction cs with
  | nil => exact valid_nil
  | cons c cs ih =>
    rw [List.flatMap_cons, List.map_append]
    refine Valid.append ?_ ih
    obtain ⟨lead, more, shape, -, goes, alone⟩ := char_shape c
    by_cases own : lead < 0x80
    · rw [shape, alone own]
      exact valid_singleton (ascii lead own)
    · have same : (String.utf8EncodeChar c).map f = String.utf8EncodeChar c := by
        refine (List.map_congr_left fun d mem => ?_).trans (List.map_id _)
        rw [shape] at mem
        rcases List.mem_cons.1 mem with rfl | mem
        · exact other d own
        · refine other d fun small => ?_
          have on := goes d mem
          rw [not_continuation_of_ascii d small] at on
          cases on
      rw [same]
      exact valid_char c

theorem valid_lower {s : Text} (h : Valid s) : Valid s.lower :=
  valid_map (forall_byte (by decide +kernel)) (forall_byte (by decide +kernel)) h

theorem valid_unescaped (before : Text) {s : Text} (h : Valid (before ++ s)) :
    Valid (before ++ Sparql.Reader.unescaped s) := by
  fun_induction Sparql.Reader.unescaped s generalizing before with
  | case1 => exact h
  | case2 d after ih =>
    obtain ⟨front, behind⟩ := h.split (starts_cons (by decide) _)
    rw [valid_cons_iff (by decide), ← List.singleton_append] at behind
    exact front.append (ih _ behind)
  | case3 => exact h
  | case4 c rest _ ih =>
    rw [List.append_cons] at h ⊢
    exact ih _ h

end Utf8

namespace Sparql

open Sparql.Tree

def Tree.Leaf.Sound : Leaf → Prop
  | name n => ∀ data, (n.term data).Valid
  | iri value => Valid value
  | quoted _ kind => kind.Valid
  | bare lexical datatype => Valid lexical ∧ Valid datatype

theorem valid_node (data : Bool) {l : Text} (h : Valid l) :
    (if data then Term.blank l else .var (blankMark ++ l)).Valid := by
  cases data with
  | true => exact h
  | false => exact Valid.append (valid_of_ascii (by decide +kernel)) h

theorem valid_local {name : Text} (h : Valid name) :
    Valid (name.drop ((name.takeWhile (!Reader.isColon ·)).length + 1)) := by
  have split := List.takeWhile_append_dropWhile (p := (!Reader.isColon ·)) (l := name)
  have stop := List.head?_dropWhile_not (!Reader.isColon ·) name
  generalize name.takeWhile (!Reader.isColon ·) = front at split ⊢
  generalize name.dropWhile (!Reader.isColon ·) = behind at split stop
  subst split
  cases behind with
  | nil =>
    rw [List.append_nil, List.drop_eq_nil_of_le (Nat.le_succ _)]
    exact valid_nil
  | cons c rest =>
    have colon : c = Text.byte ':' := by simpa [Reader.isColon] using stop
    have own : c < 0x80 := by rw [colon]; decide
    have cut : (front ++ c :: rest).drop (front.length + 1) = rest := by
      have length : front.length + 1 = (front ++ [c]).length := by simp
      rw [List.append_cons, length, List.drop_left]
    rw [cut]
    exact (valid_cons_iff own).1 (h.split (starts_cons own rest)).2

def validKnowledge : Knowledge where
  lexeme l := (∀ value, l ≠ .string value) → Valid l.text
  iri := Valid
  leaf := Leaf.Sound
  resolved {base value} known lexeme := by
    unfold Reader.resolve
    split
    · exact lexeme nofun
    · rename_i other
      refine Valid.append (known ?_) (lexeme nofun)
      rintro rfl
      exact other rfl
  expanded {start name} known lexeme := by
    refine known.append (valid_unescaped [] ?_)
    exact valid_local (lexeme nofun)
  type := valid_of_ascii (by decide +kernel)
  var h _ := h nofun
  label h data := valid_node data (h nofun)
  anonymous n data := by
    refine valid_node data (Valid.append (valid_ofString "genid") (valid_of_ascii fun c mem => ?_))
    exact Token.digit_ascii c (Text.isDigit_of_mem_ofNat mem)
  named := id
  plain _ := trivial
  tagged _ h := h nofun
  typed _ h := h
  number {l datatype} isNumber numeric h := by
    have own : Valid l.text := h fun value same => by
      rw [same] at isNumber
      cases isNumber
    have known : Valid datatype := by
      simp only [List.mem_cons, List.not_mem_nil, or_false] at numeric
      rcases numeric with rfl | rfl | rfl <;> exact valid_of_ascii (by decide +kernel)
    exact ⟨⟨own, known⟩, Valid.append (valid_ofString "-") own, known⟩
  boolean h := ⟨valid_lower (h nofun), valid_of_ascii (by decide +kernel)⟩

theorem mem_ofLexemes {value : Text} (n : Nat) (ls : List Lexeme) :
    .string value ∈ Item.ofLexemes n ls ↔ .string value ∈ ls := by
  induction ls generalizing n with
  | nil => simp [Item.ofLexemes]
  | cons l ls ih =>
    rw [Item.ofLexemes, List.mem_append, ih, List.mem_cons]
    refine or_congr_left ?_
    cases l with
    | symbol s => cases s <;> simp [Item.ofLexeme?]
    | _ => simp [Item.ofLexeme?]

theorem Tree.Leaf.Sound.valid_iff {l : Leaf} (h : l.Sound) (data : Bool) :
    (l.term data).Valid ↔ ∀ value, l.item? = some (.string value) → Valid value := by
  cases l with
  | name n => exact iff_of_true (h data) nofun
  | iri value => exact iff_of_true h nofun
  | quoted lexical kind =>
    constructor
    · rintro ⟨own, -⟩ _ ⟨⟩
      exact own
    · exact fun own => ⟨own lexical rfl, h⟩
  | bare lexical datatype => exact iff_of_true (Term.valid_typed h.1 h.2) nofun

/-- The leaves of a tree are valid if the strings of its text are. -/
theorem forall_valid_iff {s : Text} {tokens : List Token} {leaves : List Leaf} {data : Bool}
    (sound : ∀ t ∈ tokens, t.Sound s) (good : ∀ l ∈ leaves, l.Sound)
    (items : leaves.filterMap Leaf.item? = Item.ofLexemes 0 (tokens.map (·.lexeme))) :
    Forall Term.Valid data leaves ↔ ∀ t ∈ tokens, ∀ n ∈ t.escaped s, Encodes n := by
  have strings : Forall Term.Valid data leaves ↔ ∀ t ∈ tokens, ∀ value, t.lexeme = .string value → Valid value := by
    constructor
    · intro all t mem value same
      have item : Item.string value ∈ leaves.filterMap Leaf.item? := by
        rw [items, mem_ofLexemes]
        exact List.mem_map.2 ⟨t, mem, same⟩
      obtain ⟨l, own, item⟩ := List.mem_filterMap.1 item
      exact ((good l own).valid_iff data).1 (all l own) value item
    · intro all l own
      refine ((good l own).valid_iff data).2 fun value item => ?_
      have mem : Item.string value ∈ leaves.filterMap Leaf.item? := List.mem_filterMap.2 ⟨l, own, item⟩
      rw [items, mem_ofLexemes] at mem
      obtain ⟨t, mem, same⟩ := List.mem_map.1 mem
      exact all t mem value same
  rw [strings]
  exact forall₂_congr fun t mem => (sound t mem).valid_iff

theorem plain_valid {leaves : List Leaf} (good : ∀ l ∈ leaves, l.Sound) (data : Bool) :
    Plain Term.Valid data leaves := by
  intro l mem other
  refine ((good l mem).valid_iff data).2 fun value item => ?_
  cases l with
  | quoted lexical kind => exact absurd rfl (other lexical kind)
  | _ => cases item

/-- The terms that a valid text is read as are valid if and only if every number that it escapes in a
string is written as a character. -/
theorem terms_valid_iff {s : Text} (valid : Valid s) :
    (∀ request, Request.read s = .ok request → ∃ tokens, Token.scan s = .ok tokens ∧
      ((∀ t ∈ request.content.terms, t.Valid) ↔ ∀ t ∈ tokens, ∀ n ∈ t.escaped s, Encodes n)) ∧
    (∀ graph quads, graph.Valid → Document.read s graph = .ok quads → ∃ tokens, Token.scan s = .ok tokens ∧
      ((∀ t ∈ termsOf quads, t.Valid) ↔ ∀ t ∈ tokens, ∀ n ∈ t.escaped s, Encodes n)) ∧
    (∀ n, Encodes n ↔ ∃ c : Char, encode n = String.utf8EncodeChar c) ∧
    ∀ c : Char, encode c.toNat = String.utf8EncodeChar c := by
  refine ⟨?_, ?_, ?_, encode_char⟩
  · intro request read
    obtain ⟨tokens, scanned, tree, items, good, same⟩ :=
      Request.read_tree validKnowledge read fun _ scanned t mem => (Token.scan_sound valid scanned t mem).2
    refine ⟨tokens, scanned, ?_⟩
    rw [same, Request.forall_iff trivial rfl tree (plain_valid good _)]
    exact forall_valid_iff (Token.scan_sound valid scanned) good items
  · intro graph quads home read
    obtain ⟨tokens, scanned, parts, items, good, same⟩ :=
      Document.read_tree validKnowledge read fun _ scanned t mem => (Token.scan_sound valid scanned t mem).2
    refine ⟨tokens, scanned, ?_⟩
    rw [same, document_forall_iff home home parts (plain_valid good _)]
    exact forall_valid_iff (Token.scan_sound valid scanned) good items
  · intro n
    rw [← valid_encode_iff]
    constructor
    · intro h
      obtain ⟨c, same⟩ := char_of_valid_encode h
      exact ⟨c, by rw [same, encode_char]⟩
    · rintro ⟨c, same⟩
      rw [same]
      exact valid_char c

def accented : Text := "SELECT ?s \x7b ?s <http://ex/name> \"na\\u00EFve\" \x7d"

def smiling : Text := "<http://ex/s> <http://ex/p> \"\\U0001F600\" ."

theorem terms_valid_accented :
    (∃ request, Request.read accented = .ok request ∧ ∀ t ∈ request.content.terms, t.Valid) ∧
      ∃ quads, Document.read smiling .defaultGraph = .ok quads ∧ ∀ t ∈ termsOf quads, t.Valid := by
  have characters (s : Text) (tokens : List Token) (scanned : Token.scan s = .ok tokens)
      (all : (Token.scan s).map (·.all fun t => (t.escaped s).all fun n => decide (Encodes n)) = .ok true) :
      ∀ t ∈ tokens, ∀ n ∈ t.escaped s, Encodes n := by
    rw [scanned] at all
    simpa using Except.ok.inj all
  constructor
  · have accepted : (Request.read accented).isOk := by decide +kernel
    cases read : Request.read accented with
    | error e => rw [read] at accepted; cases accepted
    | ok request =>
      obtain ⟨tokens, scanned, iff⟩ := (terms_valid_iff (valid_ofString _)).1 request read
      exact ⟨request, rfl, iff.2 (characters _ tokens scanned (by decide +kernel))⟩
  · have read : Document.read smiling .defaultGraph =
        .ok [⟨.iri "http://ex/s", .iri "http://ex/p", .plain [0xF0, 0x9F, 0x98, 0x80], .defaultGraph⟩] := by
      decide +kernel
    obtain ⟨tokens, scanned, iff⟩ := (terms_valid_iff (valid_ofString _)).2.1 .defaultGraph _ trivial read
    exact ⟨_, read, iff.2 (characters _ tokens scanned (by decide +kernel))⟩

def noCharacters : Text := "<http://ex/s> <http://ex/p> \"\\uD800\", \"\\U00110000\" ."

theorem terms_not_valid :
    Valid noCharacters ∧
      Document.read noCharacters .defaultGraph =
        .ok [⟨.iri "http://ex/s", .iri "http://ex/p", .plain [0xED, 0xA0, 0x80], .defaultGraph⟩,
          ⟨.iri "http://ex/s", .iri "http://ex/p", .plain [0xF4, 0x90, 0x80, 0x80], .defaultGraph⟩] ∧
      ¬ (Term.plain [0xED, 0xA0, 0x80]).Valid ∧ ¬ (Term.plain [0xF4, 0x90, 0x80, 0x80]).Valid := by
  have surrogate : ¬ Valid (encode 0xD800) := by
    rw [valid_encode_iff]
    decide
  have beyond : ¬ Valid (encode 0x110000) := by
    rw [valid_encode_iff]
    decide
  exact ⟨valid_ofString _, by decide +kernel, fun h => surrogate h.1, fun h => beyond h.1⟩

end Sparql

end QuadStore
