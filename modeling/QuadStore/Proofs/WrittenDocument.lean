import QuadStore.Proofs.Spelling
import QuadStore.Sparql.Document

namespace QuadStore.Sparql

open Token

inductive Node where
  | iri (i : IriText)
  | blank (l : LabelText)

namespace Node

def term : Node → Term
  | iri i => .iri i.value
  | blank l => .blank l.value

def text : Node → Text
  | iri i => bracketedText i
  | blank l => labelledText l

def lexeme : Node → Lexeme
  | iri i => .iri i.value
  | blank l => .blank l.value

end Node

inductive WrittenObject where
  | node (n : Node)
  | plain (lexical : Text)
  | tagged (lexical : Text) (language : TagText)
  | typed (lexical : Text) (datatype : IriText)

namespace WrittenObject

def term : WrittenObject → Term
  | node n => n.term
  | plain lexical => .plain lexical
  | tagged lexical language => .tagged lexical language.value
  | typed lexical datatype => .typed lexical datatype.value

def text : WrittenObject → Text
  | node n => n.text
  | plain lexical => quotedText lexical
  | tagged lexical language => quotedText lexical ++ Text.byte '@' :: language.value
  | typed lexical datatype => quotedText lexical ++ ("^^" ++ bracketedText datatype)

def lexemes : WrittenObject → List Lexeme
  | node n => [n.lexeme]
  | plain lexical => [.string lexical]
  | tagged lexical language => [.string lexical, .tag language.value]
  | typed lexical datatype => [.string lexical, .symbol .carets, .iri datatype.value]

end WrittenObject

structure WrittenTriple where
  subject : Node
  predicate : IriText
  object : WrittenObject

namespace WrittenTriple

def quad (t : WrittenTriple) (graph : Term) : Quad :=
  ⟨t.subject.term, .iri t.predicate.value, t.object.term, graph⟩

def text (t : WrittenTriple) : Text :=
  t.subject.text ++ (" " ++ (bracketedText t.predicate ++ (" " ++ t.object.text)))

def lexemes (t : WrittenTriple) : List Lexeme :=
  t.subject.lexeme :: .iri t.predicate.value :: t.object.lexemes

end WrittenTriple

/-- A triple, and the graph it names if there is one. -/
structure WrittenStatement extends WrittenTriple where
  graph? : Option Node

namespace WrittenStatement

def quad (s : WrittenStatement) (home : Term) : Quad :=
  s.toWrittenTriple.quad ((s.graph?.map Node.term).getD home)

def text (s : WrittenStatement) : Text :=
  s.toWrittenTriple.text ++ ((s.graph?.elim [] (Text.byte ' ' :: ·.text)) ++ " .\n")

def lexemes (s : WrittenStatement) : List Lexeme :=
  s.toWrittenTriple.lexemes ++ ((s.graph?.elim [] ([·.lexeme])) ++ [.symbol .dot])

end WrittenStatement

/-- A statement, or a block of triples of one graph, with or without the word in front of it. -/
inductive WrittenItem where
  | statement (s : WrittenStatement)
  | block (word : Bool) (graph : Node) (triples : List WrittenTriple)

namespace WrittenItem

def line (t : WrittenTriple) : WrittenStatement := ⟨t, none⟩

def quads (home : Term) : WrittenItem → List Quad
  | statement s => [s.quad home]
  | block _ graph triples => triples.map (·.quad graph.term)

def text : WrittenItem → Text
  | statement s => s.text
  | block word graph triples =>
    (if word then ("GRAPH " : Text) else []) ++
      (graph.text ++ (" \x7b\n" ++ (triples.flatMap (line · |>.text) ++ "\x7d\n")))

def lexemes : WrittenItem → List Lexeme
  | statement s => s.lexemes
  | block word graph triples =>
    (if word then [.word "GRAPH"] else []) ++ ([graph.lexeme] ++ ([.symbol .openBrace] ++
      (triples.flatMap (line · |>.lexemes) ++ [.symbol .closeBrace])))

end WrittenItem

def Anything (_ : Text) : Prop := True

theorem apart_space (rest : Text) : Apart (Text.byte ' ' :: rest) := by
  rintro c ⟨⟩
  exact .inl rfl

theorem apart_gap (rest : Text) : Apart (" " ++ rest) := apart_space rest

theorem spells_gap : Spells " " [] Anything := spells_blank rfl

theorem Node.spells (n : Node) : Spells n.text [n.lexeme] Apart := by
  cases n with
  | iri i => exact (spells_bracketed i).weaken fun _ _ => trivial
  | blank l => exact spells_labelled l

theorem Token.Apart.unquoted {rest : Text} (apart : Apart rest) : ∀ c ∈ rest.head?, c ≠ Text.byte '"' := by
  intro c mem
  rcases apart c mem with rfl | rfl <;> decide

theorem WrittenObject.spells (o : WrittenObject) : Spells o.text o.lexemes Apart := by
  cases o with
  | node n => exact n.spells
  | plain lexical => exact (spells_quoted lexical).weaken fun _ apart => apart.unquoted
  | tagged lexical language =>
    refine (spells_quoted lexical).append (spells_tag language) ?_
    rintro rest - c ⟨⟩
    decide
  | typed lexical datatype =>
    have marked := spells_carets.append (spells_bracketed datatype) fun _ _ => trivial
    refine ((spells_quoted lexical).append marked ?_).weaken fun _ _ => trivial
    rintro rest - c ⟨⟩
    decide

theorem WrittenTriple.spells (t : WrittenTriple) : Spells t.text t.lexemes Apart := by
  have object := spells_gap.append t.object.spells fun _ _ => trivial
  have predicate := (spells_bracketed t.predicate).append object fun _ _ => trivial
  have rest := spells_gap.append predicate fun _ _ => trivial
  exact t.subject.spells.append rest fun _ _ => apart_gap _

theorem spells_line : Spells "\n" [] Anything := spells_blank rfl

theorem spells_dot : Spells " .\n" [.symbol .dot] Anything := by
  have dot : Spells "." [.symbol .dot] Apart := by
    refine spells_one (by decide) fun rest apart => ?_
    cases rest with
    | nil => rfl
    | cons c rest => rcases apart c rfl with rfl | rfl <;> rfl
  refine spells_gap.append (dot.append spells_line ?_) fun _ _ => trivial
  rintro rest - c ⟨⟩
  exact .inr rfl

theorem WrittenStatement.spells (s : WrittenStatement) : Spells s.text s.lexemes Anything := by
  obtain ⟨t, graph?⟩ := s
  cases graph? with
  | none => exact t.spells.append spells_dot fun _ _ => apart_space _
  | some g =>
    have named := (spells_gap.append g.spells fun _ _ => trivial).append spells_dot fun _ _ => apart_space _
    exact t.spells.append named fun _ _ => apart_space _

theorem spells_flatMap {α : Type} {text : α → Text} {lexemes : α → List Lexeme}
    (each : ∀ a, Spells (text a) (lexemes a) Anything) (as : List α) :
    Spells (as.flatMap text) (as.flatMap lexemes) Anything := by
  induction as with
  | nil => exact spells_nil
  | cons a as ih => exact (each a).append ih fun _ _ => trivial

theorem WrittenItem.spells (i : WrittenItem) : Spells i.text i.lexemes Anything := by
  cases i with
  | statement s => exact s.spells
  | block word graph triples =>
    have closing : Spells "\x7d" [.symbol .closeBrace] Anything := spells_one (by decide) fun _ _ => rfl
    have close : Spells "\x7d\n" [.symbol .closeBrace] Anything := closing.append spells_line fun _ _ => trivial
    have opening : Spells "\x7b" [.symbol .openBrace] Anything := spells_one (by decide) fun _ _ => rfl
    have brace : Spells " \x7b\n" [.symbol .openBrace] Anything :=
      spells_gap.append (opening.append spells_line fun _ _ => trivial) fun _ _ => trivial
    have body := (spells_flatMap (fun t => (line t).spells) triples).append close fun _ _ => trivial
    have named := graph.spells.append (brace.append body fun _ _ => trivial) fun _ _ => apart_space _
    cases word with
    | false => exact named
    | true =>
      have graphWord : Spells "GRAPH" [.word "GRAPH"] Apart := by
        refine spells_one (by decide) fun rest apart => ?_
        cases rest with
        | nil => rfl
        | cons c rest => rcases apart c rfl with rfl | rfl <;> rfl
      have gap := graphWord.append spells_gap fun _ _ => apart_gap _
      exact gap.append named fun _ _ => trivial

namespace Reader

variable {α β ι : Type} {scope : Scope} {r : Reader α} {f : α → Reader β} {a : α} {b : β}
  {ls ls' : List Lexeme} {next next' : Option Lexeme → Prop}

/-- A reader takes tokens with certain lexemes and gives an answer, if no token follows that may not. -/
def Takes (scope : Scope) (r : Reader α) (ls : List Lexeme) (a : α) (next : Option Lexeme → Prop) : Prop :=
  ∀ tokens rest fresh prefixes, tokens.map (·.lexeme) = ls → next (rest.head?.map (·.lexeme)) →
    r scope ⟨tokens ++ rest, fresh, prefixes, []⟩ = .ok (a, ⟨rest, fresh, prefixes, []⟩)

def Sees (scope : Scope) (r : Reader α) (ls : List Lexeme) (a : α) (next : Option Lexeme → Prop) : Prop :=
  ∀ tokens rest fresh prefixes, tokens.map (·.lexeme) = ls → next (rest.head?.map (·.lexeme)) →
    r scope ⟨tokens ++ rest, fresh, prefixes, []⟩ = .ok (a, ⟨tokens ++ rest, fresh, prefixes, []⟩)

def Any (_ : Option Lexeme) : Prop := True

theorem Takes.weaken (h : Takes scope r ls a next) (stronger : ∀ l, next' l → next l) :
    Takes scope r ls a next' := fun tokens rest fresh prefixes made may =>
  h tokens rest fresh prefixes made (stronger _ may)

theorem head_lexeme (tokens rest : List Token) :
    (tokens ++ rest).head?.map (·.lexeme) =
      ((tokens.map (·.lexeme)).head?).or (rest.head?.map (·.lexeme)) := by
  cases tokens <;> simp

theorem takes_pure (a : α) : Takes scope (pure a) [] a next := by
  intro tokens rest fresh prefixes made _
  rw [List.map_eq_nil_iff.1 made]
  rfl

theorem Takes.bind (h : Takes scope r ls a next) (h' : Takes scope (f a) ls' b next')
    (joins : ∀ l, next' l → next (ls'.head?.or l)) : Takes scope (r >>= f) (ls ++ ls') b next' := by
  intro tokens rest fresh prefixes made may
  obtain ⟨first, second, rfl, made, made'⟩ := List.map_eq_append_iff.1 made
  have follows : next ((second ++ rest).head?.map (·.lexeme)) := by
    rw [head_lexeme, made']
    exact joins _ may
  rw [List.append_assoc, bind_apply, h first (second ++ rest) fresh prefixes made follows]
  exact h' second rest fresh prefixes made' may

theorem Takes.gives (h : Takes scope r ls a next) (last : f a = pure b) : Takes scope (r >>= f) ls b next := by
  intro tokens rest fresh prefixes made may
  rw [bind_apply, h tokens rest fresh prefixes made may]
  dsimp only
  rw [last]
  rfl

theorem Sees.bind (h : Sees scope r ls a next) (h' : Takes scope (f a) ls b next) :
    Takes scope (r >>= f) ls b next := by
  intro tokens rest fresh prefixes made may
  rw [bind_apply, h tokens rest fresh prefixes made may]
  exact h' tokens rest fresh prefixes made may

theorem sees_peek {l : Option Lexeme} (first : ∀ n, next n → ls.head?.or n = l) : Sees scope peek? ls l next := by
  intro tokens rest fresh prefixes made may
  have head := head_lexeme tokens rest
  rw [made, first _ may] at head
  unfold peek? ahead?
  rw [bind_apply, ← head, List.head?_eq_getElem?]
  rfl

theorem sees_next {l : Option Lexeme} : Sees scope peek? ls (ls.head?.or l) (· = l) :=
  sees_peek fun _ same => congrArg _ same

theorem sees_first (l : Lexeme) (ls : List Lexeme) : Sees scope peek? (l :: ls) (some l) next :=
  sees_peek fun _ _ => rfl

theorem sees_scope : Sees scope Reader.scope ls scope next := fun _ _ _ _ _ _ => rfl

theorem sees_second (l l' : Lexeme) (ls : List Lexeme) : Sees scope (ahead? 1) (l :: l' :: ls) (some l') next := by
  intro tokens rest fresh prefixes made _
  obtain ⟨first, others, rfl, rfl, after⟩ := List.map_eq_cons_iff.1 made
  obtain ⟨second, others, rfl, rfl, -⟩ := List.map_eq_cons_iff.1 after
  rfl

theorem sees_told {test : Option Lexeme → β} (first : ∀ n, next n → test (ls.head?.or n) = b) :
    Sees scope (do return test (← peek?)) ls b next := by
  intro tokens rest fresh prefixes made may
  rw [bind_apply, sees_next tokens rest fresh prefixes made rfl]
  exact congrArg (fun b => Except.ok (b, _)) (first _ may)

theorem sees_onSymbol {s : Symbol} {b : Bool} (first : ∀ n, next n → isSymbol s (ls.head?.or n) = b) :
    Sees scope (onSymbol s) ls b next := sees_told first

theorem sees_onWord {word : Text} {b : Bool} (first : ∀ n, next n → isWord word (ls.head?.or n) = b) :
    Sees scope (onWord word) ls b next := sees_told first

theorem sees_atEnd {b : Bool} (first : ∀ n, next n → (ls.head?.or n).isNone = b) : Sees scope atEnd ls b next :=
  sees_told first

theorem sees_rejected {look : Reader Bool} (h : Sees scope look ls false next) :
    Sees scope (do
      if ← look then
        skip
        return true
      else return false) ls false next := by
  intro tokens rest fresh prefixes made may
  rw [bind_apply, h tokens rest fresh prefixes made may]
  rfl

theorem takes_skip (l : Lexeme) : Takes scope skip [l] () Any := by
  intro tokens rest fresh prefixes made _
  obtain ⟨t, rfl, rfl⟩ := List.map_eq_singleton_iff.1 made
  rfl

theorem Takes.skipping (l : Lexeme) (h : Takes scope r ls a next) : Takes scope (do skip; r) (l :: ls) a next :=
  (takes_skip l).bind h fun _ _ => trivial

theorem takes_accepted {look : Reader Bool} {l : Lexeme} (h : Sees scope look [l] true Any) :
    Takes scope (do
      if ← look then
        skip
        return true
      else return false) [l] true Any :=
  h.bind ((takes_pure true).skipping l)

theorem takes_acceptSymbol (s : Symbol) : Takes scope (acceptSymbol s) [.symbol s] true Any :=
  takes_accepted (sees_onSymbol fun _ _ => decide_eq_true rfl)

theorem takes_expectSymbol (s : Symbol) : Takes scope (expectSymbol s) [.symbol s] () Any :=
  (takes_acceptSymbol s).gives (by rfl)

theorem takes_acceptWord (word : Text) : Takes scope (acceptWord word) [.word word] true Any :=
  takes_accepted (sees_onWord fun _ _ => decide_eq_true rfl)

theorem Takes.inGraph {graph : Term} (h : Takes { scope with graph } r ls a next) :
    Takes scope (inGraph graph r) ls a next := h

inductive Rounds (scope : Scope) (step : β → Reader (ForInStep β)) :
    β → List Lexeme → β → (Option Lexeme → Prop) → Prop where
  | last {b b' : β} {ls : List Lexeme} {next : Option Lexeme → Prop}
    (h : Takes scope (step b) ls (.done b') next) : Rounds scope step b ls b' next
  | more {b b' b'' : β} {ls ls' : List Lexeme} (next : Option Lexeme → Prop) {next' : Option Lexeme → Prop}
    (h : Takes scope (step b) ls (.yield b') next) (some_ : ls ≠ []) (others : Rounds scope step b' ls' b'' next')
    (joins : ∀ l, next' l → next (ls'.head?.or l)) : Rounds scope step b (ls ++ ls') b'' next'

theorem Rounds.takes {step : β → Reader (ForInStep β)} {b b' : β} (rounds : Rounds scope step b ls b' next) :
    Takes scope (loop step b) ls b' next := by
  have repeats : ∀ fuel tokens rest fresh prefixes,
      tokens.map (·.lexeme) = ls → next (rest.head?.map (·.lexeme)) →
      tokens.length < fuel → iterate step fuel b scope ⟨tokens ++ rest, fresh, prefixes, []⟩ =
        .ok (b', ⟨rest, fresh, prefixes, []⟩) := by
    -- a round that goes on takes a token, and so the fuel of a loop lasts for all its rounds
    induction rounds with
    | last h =>
      intro fuel tokens rest fresh prefixes made may enough
      cases fuel with
      | zero => omega
      | succ fuel =>
        rw [iterate, bind_apply, h tokens rest fresh prefixes made may]
        rfl
    | @more b b' b'' ls ls' next next' h some_ others joins ih =>
      intro fuel tokens rest fresh prefixes made may enough
      obtain ⟨first, second, rfl, made, made'⟩ := List.map_eq_append_iff.1 made
      have follows : next ((second ++ rest).head?.map (·.lexeme)) := by
        rw [head_lexeme, made']
        exact joins _ may
      have pos : 0 < first.length := by
        rw [← List.length_map (·.lexeme), made]
        exact List.length_pos_iff.2 some_
      cases fuel with
      | zero => omega
      | succ fuel =>
        rw [List.length_append] at enough
        rw [List.append_assoc, iterate, bind_apply, h first (second ++ rest) fresh prefixes made follows]
        exact ih fuel second rest fresh prefixes made' may (by omega)
  intro tokens rest fresh prefixes made may
  refine repeats _ tokens rest fresh prefixes made may ?_
  rw [List.length_append]
  omega

theorem Rounds.all {step : β → Reader (ForInStep β)} {lexemes : ι → List Lexeme} {add : β → ι → β}
    (each : ∀ b i, Takes scope (step b) (lexemes i) (.yield (add b i)) Any) (some_ : ∀ i, lexemes i ≠ [])
    (stop : ∀ b, Takes scope (step b) ls (.done b) next) (is : List ι) (b : β) :
    Rounds scope step b (is.flatMap lexemes ++ ls) (is.foldl add b) next := by
  induction is generalizing b with
  | nil => exact .last (stop b)
  | cons i is ih =>
    rw [List.flatMap_cons, List.append_assoc]
    exact .more Any (each b i) (some_ i) (ih (add b i)) fun _ _ => trivial

def Ends (l : Option Lexeme) : Prop := l = some (.symbol .dot) ∨ ∃ n : Node, l = some n.lexeme

theorem takes_iri (i : IriText) : Takes scope iri [.iri i.value] (.iri i.value) Any := by
  intro tokens rest fresh prefixes made _
  obtain ⟨⟨lexeme, offset⟩, rfl, same⟩ := List.map_eq_singleton_iff.1 made
  cases same
  rfl

theorem takes_node (data : scope.data = true) (n : Node) : Takes scope term [n.lexeme] n.term Any := by
  refine (sees_first n.lexeme []).bind ?_
  cases n with
  | iri i => exact takes_iri i
  | blank l =>
    refine Takes.skipping _ ?_
    intro tokens rest fresh prefixes made _
    rw [List.map_eq_nil_iff.1 made]
    change Except.ok (if scope.data = true then _ else _, _) = _
    rw [if_pos data]
    rfl

theorem takes_of_next (h : ∀ l, next l → Takes scope r ls a (· = l)) : Takes scope r ls a next :=
  fun tokens rest fresh prefixes made may => h _ may tokens rest fresh prefixes made rfl

theorem takes_literal_plain (lexical : Text) : Takes scope (literal lexical) [] (.plain lexical) Ends := by
  refine takes_of_next fun l ends => sees_next.bind ?_
  rcases ends with rfl | ⟨n, rfl⟩
  · exact takes_pure _
  · cases n <;> exact takes_pure _

theorem takes_literal_tagged (lexical language : Text) :
    Takes scope (literal lexical) [.tag language] (.tagged lexical language) next :=
  (sees_first _ _).bind ((takes_pure _).skipping _)

theorem takes_literal_typed (lexical : Text) (i : IriText) :
    Takes scope (literal lexical) [.symbol .carets, .iri i.value] (.typed lexical i.value) Any :=
  (sees_first _ _).bind (((takes_iri i).gives (by rfl)).skipping _)

theorem takes_term (data : scope.data = true) (o : WrittenObject) : Takes scope term o.lexemes o.term Ends := by
  have string : ∀ lexical t ls', Takes scope (literal lexical) ls' t Ends →
      Takes scope term (.string lexical :: ls') t Ends := fun lexical t ls' h =>
    (sees_first _ _).bind (h.skipping _)
  cases o with
  | node n => exact (takes_node data n).weaken fun _ _ => trivial
  | plain lexical => exact string _ _ _ (takes_literal_plain lexical)
  | tagged lexical language => exact string _ _ _ (takes_literal_tagged lexical _)
  | typed lexical datatype => exact string _ _ _ ((takes_literal_typed lexical _).weaken fun _ _ => trivial)

theorem sees_bracketed (properties : Properties)
    (first : ∀ n, next n → isSymbol .openBracket (ls.head?.or n) = false) :
    Sees scope (bracketed? properties) ls none next := by
  intro tokens rest fresh prefixes made may
  unfold bracketed?
  rw [bind_apply, sees_next tokens rest fresh prefixes made rfl]
  dsimp only
  rw [first _ may]
  rfl

theorem takes_object (data : scope.data = true) (properties : Properties) (o : WrittenObject) :
    Takes scope (object properties) o.lexemes (o.term, []) Ends := by
  have paren : ∀ n, isSymbol .openParen (o.lexemes.head?.or n) = false := by
    cases o with
    | node n => cases n <;> exact fun _ => rfl
    | _ => exact fun _ => rfl
  have bracket : ∀ n, isSymbol .openBracket (o.lexemes.head?.or n) = false := by
    cases o with
    | node n => cases n <;> exact fun _ => rfl
    | _ => exact fun _ => rfl
  refine (sees_onSymbol fun n _ => paren n).bind ((sees_bracketed properties fun n _ => bracket n).bind ?_)
  exact (takes_term data o).gives (by rfl)

def Dot (l : Option Lexeme) : Prop := l = some (.symbol .dot)

theorem Ends.of_graph (graph? : Option Node) {l : Option Lexeme} (dot : Dot l) :
    Ends ((graph?.elim [] ([·.lexeme]) : List Lexeme).head?.or l) := by
  cases graph? with
  | none => exact .inl dot
  | some g => exact .inr ⟨g, rfl⟩

theorem isGraphName_node (g : Node) : isGraphName (some g.lexeme) = true := by
  cases g <;> rfl

theorem takes_tripleGraph (data : scope.data = true) (graph? : Option Node) :
    Takes scope tripleGraph (graph?.elim [] ([·.lexeme])) ((graph?.map Node.term).getD scope.graph) Dot := by
  refine sees_scope.bind ?_
  rw [data]
  cases graph? with
  | none =>
    refine takes_of_next fun l dot => sees_next.bind ?_
    rw [dot]
    exact takes_pure _
  | some g =>
    refine (sees_first _ _).bind ?_
    rw [isGraphName_node g]
    exact (takes_node data g).weaken fun _ _ => trivial

theorem takes_objects (data : scope.data = true) (inner : Properties) (subject predicate : Term) (o : WrittenObject)
    (graph? : Option Node) :
    Takes scope (objects inner subject predicate) (o.lexemes ++ graph?.elim [] ([·.lexeme]))
      [⟨subject, predicate, o.term, (graph?.map Node.term).getD scope.graph⟩] Dot := by
  refine (Rounds.last ?_).takes
  refine (takes_object data inner o).bind ?_ fun _ => Ends.of_graph graph?
  rw [← List.append_nil (graph?.elim [] _)]
  refine (takes_tripleGraph data graph?).bind ?_ fun _ => id
  refine Sees.bind (sees_rejected (sees_onSymbol fun l dot => ?_)) (takes_pure _)
  rw [dot]
  rfl

theorem takes_verb (i : IriText) : Takes scope verb [.iri i.value] (.iri i.value) fun l => continuesPath l = false := by
  have verbTerm : Takes scope verbTerm [.iri i.value] (.iri i.value) Any := (sees_first _ _).bind (takes_iri i)
  refine (sees_first _ _).bind (verbTerm.bind ?_ fun _ _ => trivial)
  refine takes_of_next fun l other => sees_next.bind ?_
  rw [List.head?_nil, Option.none_or, other]
  exact takes_pure _

theorem continuesPath_object (o : WrittenObject) (ls : List Lexeme) (l : Option Lexeme) :
    continuesPath ((o.lexemes ++ ls).head?.or l) = false := by
  cases o with
  | node n => cases n <;> rfl
  | _ => rfl

theorem takes_propertiesWith (data : scope.data = true) (inner : Properties) (subject : Term) (predicate : IriText)
    (o : WrittenObject) (graph? : Option Node) :
    Takes scope (propertiesWith inner subject) ([.iri predicate.value] ++ (o.lexemes ++ graph?.elim [] ([·.lexeme])))
      [⟨subject, .iri predicate.value, o.term, (graph?.map Node.term).getD scope.graph⟩] Dot := by
  rw [← List.append_nil (o.lexemes ++ _)]
  refine (Rounds.last ?_).takes
  refine (takes_verb predicate).bind ((takes_objects data inner subject _ o graph?).bind ?_ fun _ => id) fun l _ => ?_
  · refine (sees_rejected (sees_onSymbol fun l dot => ?_)).bind (takes_pure _)
    rw [dot]
    rfl
  · rw [List.append_nil]
    exact continuesPath_object o _ l

theorem takes_properties (data : scope.data = true) (subject : Term) (predicate : IriText) (o : WrittenObject)
    (graph? : Option Node) :
    Takes scope (properties subject) ([.iri predicate.value] ++ (o.lexemes ++ graph?.elim [] ([·.lexeme])))
      [⟨subject, .iri predicate.value, o.term, (graph?.map Node.term).getD scope.graph⟩] Dot :=
  fun tokens rest fresh prefixes made may =>
    takes_propertiesWith data (propertiesTo (tokens ++ rest).length) subject predicate o graph?
      tokens rest fresh prefixes made may

theorem isSymbol_node (s : Symbol) (n : Node) : isSymbol s (some n.lexeme) = false := by
  cases n <;> rfl

theorem startsTriple_node (n : Node) (after : Option Lexeme) : startsTriple (some n.lexeme) after = true := by
  cases n <;> rfl

theorem sees_onTriple (b : Bool) (first : ∀ n, next n → ∀ after, startsTriple (ls.head?.or n) after = b) :
    Sees scope onTriple ls b next := by
  intro tokens rest fresh prefixes made may
  unfold onTriple
  rw [bind_apply, sees_next tokens rest fresh prefixes made rfl]
  dsimp only
  rw [bind_apply, ← first _ may]
  rfl

theorem takes_sameSubject (data : scope.data = true) (s : WrittenStatement) :
    Takes scope sameSubject
      ([s.subject.lexeme] ++ ([.iri s.predicate.value] ++ (s.object.lexemes ++ s.graph?.elim [] ([·.lexeme]))))
      [s.quad scope.graph] Dot := by
  refine (sees_onSymbol fun _ _ => isSymbol_node _ _).bind ?_
  refine (sees_bracketed _ fun _ _ => isSymbol_node _ _).bind ?_
  exact (takes_node data s.subject).bind (takes_properties data _ _ _ _) fun _ _ => trivial

theorem WrittenStatement.lexemes_eq (s : WrittenStatement) :
    s.lexemes =
      ([s.subject.lexeme] ++ ([.iri s.predicate.value] ++ (s.object.lexemes ++ s.graph?.elim [] ([·.lexeme])))) ++
      [.symbol .dot] := by
  simp [WrittenStatement.lexemes, WrittenTriple.lexemes]

theorem takes_statement (data : scope.data = true) (s : WrittenStatement) :
    Takes scope statement s.lexemes [s.quad scope.graph] Any := by
  rw [WrittenStatement.lexemes_eq]
  refine (takes_sameSubject data s).bind ?_ fun _ _ => rfl
  exact (sees_atEnd fun _ _ => rfl).bind ((takes_expectSymbol .dot).gives (by rfl))

theorem takes_triples (data : scope.data = true) (ts : List WrittenTriple) :
    Takes scope triples (ts.flatMap (WrittenItem.line · |>.lexemes)) (ts.map (·.quad scope.graph))
      (· = some (.symbol .closeBrace)) := by
  have folded : ts.map (·.quad scope.graph) = ts.foldl (fun found t => found ++ [t.quad scope.graph]) [] := by
    rw [List.map_eq_flatMap, List.flatMap_eq_foldl]
  rw [folded, ← List.append_nil (ts.flatMap _)]
  refine (Rounds.all (fun found t => ?_) (fun t => ?_) (fun found => ?_) ts []).takes
  · rw [WrittenStatement.lexemes_eq]
    refine Sees.bind (sees_onTriple true fun _ _ => startsTriple_node t.subject) ?_
    refine (takes_sameSubject data (WrittenItem.line t)).bind ?_ fun _ _ => rfl
    exact (takes_acceptSymbol .dot).gives (by rfl)
  · simp [WrittenStatement.lexemes_eq]
  · refine (sees_onTriple false fun l close after => ?_).bind (takes_pure _)
    rw [close]
    rfl

theorem takes_graphName (data : scope.data = true) (g : Node) :
    Takes scope graphName [g.lexeme] g.term Any := by
  refine (sees_first _ _).bind (sees_scope.bind ?_)
  cases g <;> exact takes_node data _

theorem takes_graphBlock (data : scope.data = true) (g : Term) (ts : List WrittenTriple) :
    Takes scope (graphBlock g)
      ([.symbol .openBrace] ++ (ts.flatMap (WrittenItem.line · |>.lexemes) ++ [.symbol .closeBrace]))
      (ts.map (·.quad g)) Any := by
  refine (takes_expectSymbol .openBrace).bind (Takes.inGraph ?_) fun _ _ => trivial
  cases ts with
  | nil => exact (Rounds.last ((takes_acceptSymbol .closeBrace).gives (by rfl))).takes
  | cons t ts =>
    refine (Rounds.more (· = some (.symbol .closeBrace)) ?_ ?_
      (.last ((takes_acceptSymbol .closeBrace).gives (by rfl))) fun _ _ => rfl).takes
    · refine (sees_rejected (sees_onSymbol fun _ _ => isSymbol_node _ t.subject)).bind ?_
      refine Sees.bind (sees_onTriple true fun _ _ => startsTriple_node t.subject) ?_
      have inside : ({ scope with graph := g } : Scope).data = true := data
      exact (takes_triples inside (t :: ts)).gives (by rfl)
    · simp [WrittenStatement.lexemes_eq]

theorem sees_untagged {tag : Text} {l : Lexeme} (other : l ≠ .tag tag) (ls : List Lexeme) :
    Sees scope (acceptTag tag) (l :: ls) false next := by
  intro tokens rest fresh prefixes made may
  unfold acceptTag
  rw [bind_apply, sees_first l ls tokens rest fresh prefixes made may]
  dsimp only
  rw [if_neg (by simpa using other)]
  rfl

theorem isWord_node (word : Text) (n : Node) : isWord word (some n.lexeme) = false := by
  cases n <;> rfl

theorem takes_fromNode {d d' : Document} (n : Node) (l : Lexeme) (ls : List Lexeme)
    (h : Takes scope (do
      if isSymbol .openBrace (some l) then return d.addStated (← graphBlock (← graphName))
      else return d.addStated (← statement)) (n.lexeme :: l :: ls) d' next) :
    Takes scope (documentPart d) (n.lexeme :: l :: ls) d' next := by
  have untagged : ∀ tag, n.lexeme ≠ .tag tag := by
    intro tag
    cases n <;> exact nofun
  have word : ∀ w, Sees scope (onWord w) (n.lexeme :: l :: ls) false next := fun w =>
    sees_onWord fun _ _ => isWord_node w n
  refine (sees_untagged (untagged _) _).bind ((sees_untagged (untagged _) _).bind ?_)
  refine (word "PREFIX").bind ((word "BASE").bind ((sees_rejected (word "INSERT")).bind
    ((sees_rejected (word "GRAPH")).bind ?_)))
  refine (sees_onSymbol fun _ _ => isSymbol_node _ n).bind ((sees_first _ _).bind ((sees_second _ _ _).bind ?_))
  rw [isGraphName_node]
  exact h

/-- A statement goes to the graph that it names, or to the one outside of blocks. -/
theorem takes_documentPart (data : scope.data = true) (home : scope.graph = scope.home) (d : Document)
    (i : WrittenItem) :
    Takes scope (documentPart d) i.lexemes (d.addStated (i.quads scope.home)) Any := by
  cases i with
  | statement s =>
    refine takes_fromNode s.subject (.iri s.predicate.value) _ ?_
    rw [← home]
    exact (takes_statement data s).gives (by rfl)
  | block word g ts =>
    cases word with
    | false =>
      refine takes_fromNode g (.symbol .openBrace) _ ?_
      rw [if_pos (by rfl)]
      exact (takes_graphName data g).bind ((takes_graphBlock data g.term ts).gives (by rfl)) fun _ _ => trivial
    | true =>
      have untagged : ∀ tag, Lexeme.word "GRAPH" ≠ .tag tag := fun _ => nofun
      refine (sees_untagged (untagged _) _).bind ((sees_untagged (untagged _) _).bind ?_)
      refine Sees.bind (sees_onWord fun _ _ => by rfl) (Sees.bind (sees_onWord fun _ _ => by rfl) ?_)
      refine Sees.bind (sees_rejected (sees_onWord fun _ _ => by rfl)) ?_
      refine (takes_acceptWord "GRAPH").bind ?_ fun _ _ => trivial
      exact (takes_graphName data g).bind ((takes_graphBlock data g.term ts).gives (by rfl)) fun _ _ => trivial

theorem takes_document (data : scope.data = true) (home : scope.graph = scope.home) (items : List WrittenItem) :
    Takes scope document (items.flatMap WrittenItem.lexemes)
      (items.foldl (fun d i => d.addStated (i.quads scope.home)) ({} : Document)) (· = none) := by
  have some_ : ∀ i : WrittenItem, ∃ l ls, i.lexemes = l :: ls := by
    intro i
    rcases i with s | ⟨_ | _, g, ts⟩ <;> exact ⟨_, _, rfl⟩
  rw [← List.append_nil (items.flatMap _)]
  refine (Rounds.all (fun d i => ?_) (fun i => ?_) (fun d => ?_) items _).takes
  · refine Sees.bind (sees_atEnd (b := false) fun n _ => ?_) ((takes_documentPart data home d i).gives (by rfl))
    obtain ⟨l, ls, begins⟩ := some_ i
    rw [begins]
    rfl
  · obtain ⟨l, ls, begins⟩ := some_ i
    rw [begins]
    exact nofun
  · refine Sees.bind (sees_atEnd (b := true) fun n none_ => ?_) (takes_pure _)
    rw [none_]
    rfl

end Reader

namespace Document

theorem quads_foldl (found : WrittenItem → List Quad) (items : List WrittenItem) (d : Document) :
    (items.foldl (fun d i => d.addStated (found i)) d).quads = d.quads ++ items.flatMap found := by
  induction items generalizing d with
  | nil => simp
  | cons i items ih =>
    rw [List.foldl_cons, ih]
    simp [addStated, quads]

/-- A document that is written is read as its quads, in order; triples that name no graph belong to
the graph of their block, or to the one the reader is told. -/
theorem read_written (items : List WrittenItem) (graph : Term) :
    read (items.flatMap WrittenItem.text) graph = .ok (items.flatMap (·.quads graph)) := by
  obtain ⟨tokens, made, scanned⟩ := (spells_flatMap WrittenItem.spells items).scan trivial
  let scope : Scope := .whole true graph (items.flatMap WrittenItem.text).length
  have taken : Reader.Takes scope Reader.document _ _ (· = none) := Reader.takes_document rfl rfl items
  have whole := taken tokens [] 0 [] made rfl
  rw [List.append_nil] at whole
  have found := quads_foldl (·.quads graph) items {}
  unfold read Reader.run
  rw [scanned]
  simp only [bind, Except.bind]
  rw [whole]
  exact congrArg Except.ok found

/-- A block of one triple, whose label has a dot and whose string has a quote. -/
example :
    let s : Node := .blank ⟨"a.b", by decide +kernel, by decide +kernel, by decide +kernel⟩
    let p : IriText := ⟨"p", by decide +kernel⟩
    let o : WrittenObject := .tagged "a\"b" ⟨"en", ["GB"], by decide +kernel, by decide +kernel, by decide +kernel⟩
    let item : WrittenItem := .block true (.iri ⟨"g", by decide +kernel⟩) [⟨s, p, o⟩]
    item.text = "GRAPH <g> \x7b\n_:a.b <p> \"a\\\"b\"@en-GB .\n\x7d\n" ∧
      Document.read item.text = .ok [⟨.blank "a.b", .iri "p", .tagged "a\"b" "en-GB", .iri "g"⟩] := by
  decide +kernel

end Document

end QuadStore.Sparql
