import QuadStore.Regex

namespace QuadStore.Regex

inductive Opening where
  | capture
  | plain
  | ahead (negated : Bool)
  deriving DecidableEq

inductive Token where
  | atom (r : Regex)
  | assertion (r : Regex)
  | back (group : Nat)
  | opening (kind : Opening)
  | closing
  | bar
  | quantifier (least : Nat) (most : Option Nat) (lazy : Bool)
  deriving DecidableEq

namespace Token

def literal (c : UInt8) : Token := atom (.one (.singleton c))

def maxCount : Nat := 2147483647

def count? (digits : Text) : Option Nat :=
  let n := Text.toNat 10 digits
  if n ≤ maxCount then some n else none

def hexByte? (width : Nat) (s : Text) : Option (UInt8 × Text) :=
  let digits := s.take width
  if digits.length = width ∧ digits.all Ascii.isHexDigit then
    some ((Text.toNat 16 digits).toUInt8, s.drop width)
  else none

/-- What a backslash and the byte after it stand for. -/
inductive Escape where
  | byte (c : UInt8)
  | ofClass (k : ByteClass) (negated : Bool)
  | boundary (negated : Bool)
  | back (digits : Text)

def namedBytes : List (UInt8 × UInt8) :=
  [(Text.byte '0', 0), (Text.byte 'b', 8), (Text.byte 'f', 12), (Text.byte 'n', 10),
   (Text.byte 'r', 13), (Text.byte 't', 9), (Text.byte 'v', 11)]

def escapeClasses : List (UInt8 × ByteClass × Bool) :=
  [(Text.byte 'd', .digit, false), (Text.byte 'D', .digit, true), (Text.byte 's', .space, false),
   (Text.byte 'S', .space, true), (Text.byte 'w', .word, false), (Text.byte 'W', .word, true)]

/-- The escape after a backslash. Outside of brackets `\b` is a word boundary. -/
def escape? (bracketed : Bool) : Text → Option (Escape × Text)
  | [] => none
  | c :: rest =>
    if c = Text.byte 'b' ∧ !bracketed then some (.boundary false, rest)
    else match namedBytes.lookup c with
    | some b => some (.byte b, rest)
    | none =>
    if c = Text.byte 'B' then some (.boundary true, rest)
    else match escapeClasses.lookup c with
    | some (k, negated) => some (.ofClass k negated, rest)
    | none =>
    if c = Text.byte 'c' then
      match rest with
      | d :: after => some (.byte d, after)
      | [] => none
    else if c = Text.byte 'x' then (hexByte? 2 rest).map fun (b, after) => (.byte b, after)
    else if c = Text.byte 'u' then (hexByte? 4 rest).map fun (b, after) => (.byte b, after)
    else if Ascii.isDigit c then
      some (.back (c :: rest.takeWhile Ascii.isDigit), rest.dropWhile Ascii.isDigit)
    else some (.byte c, rest)

inductive BracketToken where
  | byte (c : UInt8)
  | dash
  | item (i : ByteItem)
  | closing

def bracketName? (mark : UInt8) (s : Text) : Option (Text × Text) :=
  match s.dropWhile (· ≠ mark) with
  | _ :: c :: rest => if c = Text.byte ']' then some (s.takeWhile (· ≠ mark), rest) else none
  | _ => none

def bracketToken? : Text → Option (BracketToken × Text)
  | [] => none
  | c :: rest =>
    if c = Text.byte '-' then some (.dash, rest)
    else if c = Text.byte ']' then some (.closing, rest)
    else if c = Text.byte '\\' then
      match escape? true rest with
      | some (.byte b, after) => some (.byte b, after)
      | some (.ofClass k negated, after) => some (.item (.ofClass k negated), after)
      | _ => none
    else if c = Text.byte '[' then
      match rest with
      | [] => none
      | d :: after =>
        if d = Text.byte '.' then do
          let (name, after) ← bracketName? d after
          return (.byte (← byteOfName? name), after)
        else if d = Text.byte ':' then do
          let (name, after) ← bracketName? d after
          return (.item (.ofClass (← ByteClass.ofName? name) false), after)
        else if d = Text.byte '=' then do
          let (name, after) ← bracketName? d after
          return (.item (.anyCase (← byteOfName? name)), after)
        else some (.byte c, rest)
    else some (.byte c, rest)

/-- What stands before a dash: nothing, a byte that may start a range, or a class. -/
inductive Pending where
  | nothing
  | byte (c : UInt8)
  | ofClass

def Pending.items : Pending → List ByteItem
  | byte c => [.single c]
  | _ => []

def range? (first last : UInt8) : Option ByteItem :=
  if signedRank first ≤ signedRank last then some (.range first last) else none

/-- The items up to the closing bracket; the fuel is the length of the text. -/
def bracketItems? : Nat → Pending → Text → Option (List ByteItem × Text)
  | 0, _, _ => none
  | fuel + 1, pending, s => do
    let (token, rest) ← bracketToken? s
    match token with
    | .closing => return (pending.items, rest)
    | .byte c =>
      let (items, rest) ← bracketItems? fuel (.byte c) rest
      return (pending.items ++ items, rest)
    | .item i =>
      let (items, rest) ← bracketItems? fuel .ofClass rest
      return (pending.items ++ i :: items, rest)
    | .dash =>
      let (next, after) ← bracketToken? rest
      match next, pending with
      | .closing, _ => return (pending.items ++ [.single (Text.byte '-')], after)
      | _, .ofClass => none
      | .byte d, .byte c =>
        let i ← range? c d
        let (items, rest) ← bracketItems? fuel .nothing after
        return (i :: items, rest)
      | .dash, .byte c =>
        let i ← range? c (Text.byte '-')
        let (items, rest) ← bracketItems? fuel .nothing after
        return (i :: items, rest)
      | .item _, .byte _ => none
      | _, .nothing => bracketItems? fuel (.byte (Text.byte '-')) rest

def bracket? (s : Text) : Option (ByteSet × Text) :=
  match s with
  | [] => none
  | c :: rest =>
    if c = Text.byte '^' then
      (bracketItems? s.length .nothing rest).map fun (items, after) => (⟨true, items⟩, after)
    else (bracketItems? s.length .nothing s).map fun (items, after) => (⟨false, items⟩, after)

def quantified (least : Nat) (most : Option Nat) : Text → Token × Text
  | c :: rest =>
    if c = Text.byte '?' then (quantifier least most true, rest)
    else (quantifier least most false, c :: rest)
  | [] => (quantifier least most false, [])

def braces? (s : Text) : Option (Nat × Option Nat × Text) := do
  let digits := s.takeWhile Ascii.isDigit
  if digits = [] then none
  let least ← count? digits
  match s.dropWhile Ascii.isDigit with
  | [] => none
  | c :: rest =>
    if c = Text.byte '\x7d' then return (least, some least, rest)
    else if c = Text.byte ',' then
      let digits := rest.takeWhile Ascii.isDigit
      match rest.dropWhile Ascii.isDigit with
      | [] => none
      | d :: after =>
        if d ≠ Text.byte '\x7d' then none
        else if digits = [] then return (least, none, after)
        else
          let most ← count? digits
          if most < least then none else return (least, some most, after)
    else none

def opening? : Text → Option (Token × Text)
  | c :: rest =>
    if c = Text.byte '?' then
      match rest with
      | [] => none
      | d :: after =>
        if d = Text.byte ':' then some (.opening .plain, after)
        else if d = Text.byte '=' then some (.opening (.ahead false), after)
        else if d = Text.byte '!' then some (.opening (.ahead true), after)
        else none
    else some (.opening .capture, c :: rest)
  | [] => some (.opening .capture, [])

def ofEscape? : Escape → Option Token
  | .byte c => some (literal c)
  | .ofClass k negated => some (.atom (.one ⟨negated, [.ofClass k false]⟩))
  | .boundary negated => some (.assertion (.boundary negated))
  | .back digits => (count? digits).map .back

def token? (c : UInt8) (rest : Text) : Option (Token × Text) :=
  if c = Text.byte '\\' then do
    let (e, after) ← escape? false rest
    return (← ofEscape? e, after)
  else if c = Text.byte '^' then some (.assertion .start, rest)
  else if c = Text.byte '$' then some (.assertion .finish, rest)
  else if c = Text.byte '.' then some (.atom (.one .dot), rest)
  else if c = Text.byte '*' then some (quantified 0 none rest)
  else if c = Text.byte '+' then some (quantified 1 none rest)
  else if c = Text.byte '?' then some (quantified 0 (some 1) rest)
  else if c = Text.byte '\x7b' then do
    let (least, most, after) ← braces? rest
    return quantified least most after
  else if c = Text.byte '(' then opening? rest
  else if c = Text.byte ')' then some (.closing, rest)
  else if c = Text.byte '|' then some (.bar, rest)
  else if c = Text.byte '[' then
    (bracket? rest).map fun (set, after) => (.atom (.one set), after)
  else some (literal c, rest)

def scan? : Nat → Text → Option (List Token)
  | _, [] => some []
  | 0, _ :: _ => none
  | fuel + 1, c :: rest => do
    let (t, after) ← token? c rest
    return t :: (← scan? fuel after)

end Token

/-- An open parenthesis: the alternatives before the last bar, the line since then, backwards, and
the atom at its end that a quantifier would take. -/
structure Frame where
  kind : Opening
  index : Nat
  done : Option Regex
  line : List Regex
  last : Option Regex

namespace Frame

def opened (kind : Opening) (index : Nat) : Frame := ⟨kind, index, none, [], none⟩

def settled (f : Frame) : List Regex :=
  match f.last with
  | some r => r :: f.line
  | none => f.line

def atom (f : Frame) (r : Regex) : Frame := { f with line := f.settled, last := some r }

def assertion (f : Frame) (r : Regex) : Frame := { f with line := r :: f.settled, last := none }

def body (f : Frame) : Regex :=
  let line := f.settled.reverse.foldr .seq .empty
  match f.done with
  | some r => .alt r line
  | none => line

def bar (f : Frame) : Frame := { f with done := some f.body, line := [], last := none }

def close (outer inner : Frame) : Frame :=
  match inner.kind with
  | .capture => outer.atom (.group (some inner.index) inner.body)
  | .plain => outer.atom (.group none inner.body)
  | .ahead negated => outer.assertion (.look negated inner.body)

end Frame

/-- The innermost frame, the frames around it, and how many groups have been opened. -/
structure Reader where
  top : Frame
  outer : List Frame
  groups : Nat

namespace Reader

def initial : Reader := ⟨.opened .plain 0, [], 0⟩

def isOpen (s : Reader) (n : Nat) : Bool :=
  (s.top :: s.outer).any fun f => f.kind = .capture && f.index = n

def step? (s : Reader) : Token → Option Reader
  | .atom r => some { s with top := s.top.atom r }
  | .assertion r => some { s with top := s.top.assertion r }
  | .back n =>
    if n ≤ s.groups ∧ !s.isOpen n then some { s with top := s.top.atom (.back n) } else none
  | .opening kind =>
    let groups := if kind = .capture then s.groups + 1 else s.groups
    some ⟨.opened kind groups, s.top :: s.outer, groups⟩
  | .closing =>
    match s.outer with
    | f :: outer => some { s with top := f.close s.top, outer }
    | [] => none
  | .bar => some { s with top := s.top.bar }
  | .quantifier least most lazy =>
    s.top.last.map fun r => { s with top := { s.top with last := some (.loop r least most lazy) } }

end Reader

/-- The states of the automaton for an expression. A counted loop has a copy of its body for each
time. -/
def states : Regex → Nat
  | empty | one _ | start | finish | boundary _ | back _ => 1
  | group none r => states r + 1
  | group (some _) r => states r + 2
  | look _ r => states r + 2
  | seq a b => states a + states b
  | alt a b => states a + states b + 2
  | loop r 0 none _ => states r + 1
  | loop r 1 none _ => states r + 1
  | loop r 0 (some 1) _ => states r + 2
  | loop r n none _ => 1 + n * states r + states r + 1
  | loop r n (some m) _ => 1 + n * states r + 1 + (m - n) * (states r + 1)

/-- The states made on the way; the body of a counted loop is made once more than it is used. -/
def made : Regex → Nat
  | empty | one _ | start | finish | boundary _ | back _ => 1
  | group none r => made r + 1
  | group (some _) r => made r + 2
  | look _ r => made r + 2
  | seq a b => made a + made b
  | alt a b => made a + made b + 2
  | loop r 0 none _ => made r + 1
  | loop r 1 none _ => made r + 1
  | loop r 0 (some 1) _ => made r + 2
  | loop r n none _ => made r + 1 + n * states r + states r + 1
  | loop r n (some m) _ => made r + 1 + n * states r + 1 + (m - n) * (states r + 1)

def maxStates : Nat := 100000

/-- The expression that a text writes; none if it is malformed or too large. -/
def read? (s : Text) : Option Regex := do
  let tokens ← Token.scan? s.length s
  let reader ← tokens.foldlM Reader.step? .initial
  if reader.outer ≠ [] then none
  let r := reader.top.body
  if made r + 3 ≤ maxStates then some r else none

end QuadStore.Regex
