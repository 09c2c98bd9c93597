import QuadStore.Sparql.Algebra

namespace QuadStore.Sparql

/-- What a reader is told from outside. -/
structure Scope where
  /-- In data, blank nodes are nodes of the data and there are no variables. -/
  data : Bool
  /-- The graph of a triple that names none. -/
  graph : Term
  /-- The length of the text. -/
  finish : Nat
  /-- The graph of triples outside of the blocks of a graph. -/
  home : Term

def Scope.whole (data : Bool) (graph : Term) (finish : Nat) : Scope := ⟨data, graph, finish, graph⟩

structure Cursor where
  tokens : List Token
  /-- The number of nodes without a label so far. -/
  fresh : Nat := 0
  prefixes : List (Text × Text) := []
  base : Text := []

/-- A reader that failed: why, and how things stood there. -/
structure Stop where
  error : ParseError
  scope : Scope
  cursor : Cursor

def Reader (α : Type) : Type := Scope → Cursor → Except Stop (α × Cursor)

namespace Reader

instance : Monad Reader where
  pure a := fun _ c => .ok (a, c)
  bind r f := fun scope c =>
    match r scope c with
    | .ok (a, c) => f a scope c
    | .error e => .error e

theorem bind_apply {α β : Type} (r : Reader α) (f : α → Reader β) (scope : Scope) (c : Cursor) :
    (r >>= f) scope c = match r scope c with
      | .ok (a, c) => f a scope c
      | .error stop => .error stop := rfl

def scope : Reader Scope := fun scope c => .ok (scope, c)

def cursor : Reader Cursor := fun _ c => .ok (c, c)

def update (f : Cursor → Cursor) : Reader Unit := fun _ c => .ok ((), f c)

def inData {α : Type} (r : Reader α) : Reader α := fun scope => r { scope with data := true }

def inGraph {α : Type} (graph : Term) (r : Reader α) : Reader α :=
  fun scope => r { scope with graph }

def failWith {α : Type} (e : ParseError) : Reader α := fun scope c => .error ⟨e, scope, c⟩

def fail {α : Type} (fault : Fault) : Reader α := fun scope c =>
  match c.tokens with
  | [] => .error ⟨⟨fault, .finish, scope.finish⟩, scope, c⟩
  | t :: _ => .error ⟨⟨fault, .token t.lexeme.text, t.offset⟩, scope, c⟩

def ahead? (n : Nat) : Reader (Option Lexeme) := do return ((← cursor).tokens[n]?).map (·.lexeme)

def peek? : Reader (Option Lexeme) := ahead? 0

def skip : Reader Unit := update fun c => { c with tokens := c.tokens.tail }

def atEnd : Reader Bool := do return (← peek?).isNone

def isSymbol (s : Symbol) (l : Option Lexeme) : Bool := l = some (.symbol s)

def isWord (word : Text) : Option Lexeme → Bool
  | some (.word w) => w.lower = word.lower
  | _ => false

def isNumber : Option Lexeme → Bool
  | some (.integer _) | some (.decimal _) | some (.double _) => true
  | _ => false

def onSymbol (s : Symbol) : Reader Bool := do return isSymbol s (← peek?)

def onWord (word : Text) : Reader Bool := do return isWord word (← peek?)

def acceptSymbol (s : Symbol) : Reader Bool := do
  if ← onSymbol s then
    skip
    return true
  else return false

def acceptWord (word : Text) : Reader Bool := do
  if ← onWord word then
    skip
    return true
  else return false

def expectSymbol (s : Symbol) : Reader Unit := do
  unless ← acceptSymbol s do fail (.expectedSymbol s.text)

def expectWord (word : Text) : Reader Unit := do
  unless ← acceptWord word do fail (.expected word)

def iterate {α : Type} (step : α → Reader (ForInStep α)) : Nat → α → Reader α
  | 0, _ => fail .tooDeep
  | fuel + 1, a => do
    match ← step a with
    | .yield b => iterate step fuel b
    | .done b => return b

def loop {α : Type} (step : α → Reader (ForInStep α)) (a : α) : Reader α := do
  iterate step ((← cursor).tokens.length + 1) a

end Reader

end QuadStore.Sparql
