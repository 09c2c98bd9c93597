import QuadStore.Sparql.Session

namespace QuadStore.Sparql

/-- The stack that texts are read on. Numbers, tags and names are matched by recursion, with a frame for each
byte and more for a choice that can be taken back. Whether readers nest too deep is left open, but they do not
for a few tokens. -/
structure Stack where
  size : Nat
  frame : Nat
  choice : Nat
  buries : Bool → List Token → Bool
  depth : Nat
  shallow : ∀ data tokens, tokens.length ≤ depth → buries data tokens = false

/-- What becomes of a reading: it finishes, or the program is ended because its stack is exhausted. -/
inductive Outcome (α : Type) where
  | finished (a : α)
  | exhausted
  deriving DecidableEq

def Outcome.map {α β : Type} (f : α → β) : Outcome α → Outcome β
  | finished a => .finished (f a)
  | exhausted => .exhausted

namespace Token

/-- The bytes that are matched by recursion from a byte on, and the choices among them. The other tokens are
taken by loops. -/
def matched (c : UInt8) (rest : Text) : Nat × Nat :=
  let s := c :: rest
  if c = Text.byte '@' then
    let language := tag rest
    (language.length + 1, language.count (Text.byte '-'))
  else if Ascii.isDigit c || (c = Text.byte '.' && isPart Ascii.isDigit rest) then
    (((number? s).map (·.text.length)).getD 0, 0)
  else if Ascii.isAlpha c || c = Text.byte ':' then
    let front := s.takeWhile isPrefixPart
    match s.dropWhile isPrefixPart with
    | d :: after =>
      if d = Text.byte ':' then (front.length + 1 + (localPart after).length, (localPart after).length)
      else (front.length, 0)
    | [] => (front.length, 0)
  else (0, 0)

end Token

namespace Stack

def usual : Stack where
  size := 8388608
  frame := 320
  choice := 144
  buries _ _ := false
  depth := 0
  shallow _ _ _ := rfl

variable (k : Stack)

def taken (c : UInt8) (rest : Text) : Nat :=
  k.frame * (Token.matched c rest).1 + k.choice * (Token.matched c rest).2

def scanFrom (total : Nat) : Nat → Text → Outcome (Except ParseError (List Token))
  | 0, _ => .finished (.ok [])
  | fuel + 1, s =>
    match Token.skipBlanks false s with
    | [] => .finished (.ok [])
    | c :: rest =>
      if k.size < k.taken c rest then .exhausted
      else match Token.lexeme? c rest with
        | .error (fault, found) => .finished (.error ⟨fault, .unnamed, total - found.length⟩)
        | .ok (lexeme, after) =>
          (scanFrom total fuel after).map fun scanned => scanned.map (⟨lexeme, total - (rest.length + 1)⟩ :: ·)

def scan (s : Text) : Outcome (Except ParseError (List Token)) := k.scanFrom s.length s.length s

/-- What is made of the tokens of a text, which readers may be buried by. -/
def onTokens {α : Type} (text : Text) (buried : List Token → Bool) (answer : α) : Outcome α :=
  match k.scan text with
  | .exhausted => .exhausted
  | .finished (.error _) => .finished answer
  | .finished (.ok tokens) => if buried tokens then .exhausted else .finished answer

def read (text : Text) (s : Session) : Outcome (Except ParseError Request × Session) :=
  k.onTokens text (k.buries false) (s.read text)

def readData (text : Text) (graph : Term) (s : Session) : Outcome (Except ParseError (List Quad) × Session) :=
  k.onTokens text (k.buries true) (s.readData text graph)

def form (text : Text) : Outcome (Except ParseError Form) :=
  k.onTokens text (fun _ => false) (Form.ofText text)

end Stack

end QuadStore.Sparql
