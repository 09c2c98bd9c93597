import QuadStore.Sparql.Group

namespace QuadStore.Sparql

inductive Form where
  | select
  | ask
  | construct
  | describe
  | update
  deriving DecidableEq

namespace Form

def name : Form → Text
  | select => "select"
  | ask => "ask"
  | construct => "construct"
  | describe => "describe"
  | update => "update"

end Form

/-- What a request asks for. -/
inductive Content where
  | query (root : Operation)
  | update (inserted deleted : List Quad)

structure Request where
  content : Content
  prefixes : List (Text × Text)
  base : Text

namespace Operation

def projection? : Operation → Option (List Text)
  | project names _ => some names
  | graph _ input | filter _ input | orderBy _ input | distinct input | reduced input
  | slice _ _ input | ask input | construct _ input | describe _ input
  | join input _ | leftJoin input _ _ | union input _ | minus input _ => input.projection?
  | bgp _ => none

def form : Operation → Form
  | ask _ => .ask
  | construct .. => .construct
  | describe .. => .describe
  | _ => .select

def isDistinct : Operation → Bool
  | distinct _ | slice _ _ (distinct _) => true
  | _ => false

end Operation

namespace Content

def form : Content → Form
  | query root => root.form
  | update .. => .update

def root? : Content → Option Operation
  | query root => some root
  | update .. => none

def inserted : Content → List Quad
  | query _ => []
  | update inserted _ => inserted

def isDistinct : Content → Bool
  | query root => root.isDistinct
  | update .. => false

def names : Content → List Text
  | query root => if root.form = .select then root.projection?.getD [] else []
  | update .. => []

def triples : Content → List Quad
  | query root => root.triples
  | update .. => []

end Content

namespace Reader

def startsOrderCondition : Option Lexeme → Bool
  | some (.var _) | some (.iri _) | some (.prefixed _) | some (.symbol .openParen) => true
  | some (.word w) =>
    isWord "ASC" (some (.word w)) || isWord "DESC" (some (.word w)) ||
      (Builtin.ofName? w.lower).isSome
  | _ => false

def directed (ascending : Bool) : Reader OrderCondition := do
  expectSymbol .openParen
  let key ← expression
  expectSymbol .closeParen
  return .on ascending key

def orderCondition : Reader OrderCondition := do
  if ← acceptWord "ASC" then directed true
  else if ← acceptWord "DESC" then directed false
  else match ← peek? with
    | some (.var _) => return .on true (.term (← term))
    | _ => return .on true (← constraint (← nested))

def orderConditions : Reader (List OrderCondition) :=
  loop (fun found => do
    if startsOrderCondition (← peek?) then return .yield (found ++ [← orderCondition])
    else return .done found) []

def ordered (op : Operation) : Reader Operation := do
  if (← onWord "GROUP") || (← onWord "HAVING") then fail (.unsupportedMany "GROUP BY and HAVING")
  else if ← acceptWord "ORDER" then
    expectWord "BY"
    let conditions ← orderConditions
    if conditions.isEmpty then fail (.expected "an order condition")
    else return .orderBy conditions op
  else return op

def countLimit : Nat := Nat.pow 2 64

def rowCount : Reader Nat := do
  match ← peek? with
  | some (.integer digits) =>
    let n := Text.toNat 10 digits
    if n < countLimit then
      skip
      return n
    else fail .integerRange
  | _ => fail (.expected "an integer")

/-- One bound of the slice, if it is not there yet: the start and the length. -/
def sliceBound (bounds : Option Nat × Option Nat) : Reader (Option Nat × Option Nat) := do
  if bounds.2.isNone && (← onWord "LIMIT") then
    skip
    return (bounds.1, some (← rowCount))
  else if bounds.1.isNone && (← onWord "OFFSET") then
    skip
    return (some (← rowCount), bounds.2)
  else return bounds

def sliced (op : Operation) : Reader Operation := do
  let bounds ← sliceBound (← sliceBound (none, none))
  if ← onWord "VALUES" then fail (.unsupported "VALUES")
  else match bounds with
    | (none, none) => return op
    | (start, length) => return .slice start length op

def noDataset : Reader Unit := do
  if ← onWord "FROM" then fail (.unsupportedMany "FROM clauses")

def whereClause : Reader Operation := do
  noDataset
  discard (acceptWord "WHERE")
  group

def projected? : Reader (Option (List Text)) := do
  if ← acceptSymbol .star then return none
  else
    let found ← loop (fun found => do
      match ← peek? with
      | some (.var name) =>
        skip
        return .yield (found ++ [name])
      | some (.symbol .openParen) => fail (.unsupportedMany "SELECT expressions")
      | _ => return .done found) []
    if found.isEmpty then fail (.expected "a projection") else return some found

def selectQuery : Reader Operation := do
  let isDistinct ← acceptWord "DISTINCT"
  let isReduced ← if isDistinct then pure false else acceptWord "REDUCED"
  let chosen ← projected?
  let pattern ← ordered (← whereClause)
  let root : Operation := .project (chosen.getD pattern.inScope) pattern
  sliced (if isDistinct then .distinct root else if isReduced then .reduced root else root)

def askQuery : Reader Operation := do
  return .ask (← sliced (← ordered (← whereClause)))

def template : Reader (List Quad) := do
  expectSymbol .openBrace
  let found ← triples
  expectSymbol .closeBrace
  return found

/-- What follows `CONSTRUCT`; without a template the pattern is the template. -/
def constructQuery : Reader Operation := do
  if ← onSymbol .openBrace then
    let found ← template
    return .construct found (← sliced (← ordered (← whereClause)))
  else
    noDataset
    expectWord "WHERE"
    let found ← template
    return .construct found (← sliced (← ordered (.bgp found)))

/-- The nodes that a description is of; none for all that the pattern shows. -/
def targets : Reader (List Term) := do
  if ← acceptSymbol .star then return []
  else
    let found ← loop (fun found => do
      match ← peek? with
      | some (.var _) | some (.iri _) | some (.prefixed _) => return .yield (found ++ [← term])
      | _ => return .done found) []
    if found.isEmpty then fail (.expected "a variable or an IRI") else return found

def describeQuery : Reader Operation := do
  let chosen ← targets
  noDataset
  let pattern ←
    if (← onWord "WHERE") || (← onSymbol .openBrace) then whereClause else pure (.bgp [])
  let shown := if chosen.isEmpty then pattern.inScope.map Term.var else chosen
  return .describe shown (← sliced (← ordered pattern))

def graphBlock (graph : Term) : Reader (List Quad) := do
  expectSymbol .openBrace
  inGraph graph <| loop (fun found => do
    if ← acceptSymbol .closeBrace then return .done found
    else if ← onTriple then return .yield (found ++ (← triples))
    else fail (.expected "a triple")) []

def quadData : Reader (List Quad) := inData do
  expectSymbol .openBrace
  loop (fun found => do
    if ← acceptSymbol .closeBrace then return .done found
    else
      let more ←
        if ← acceptWord "GRAPH" then graphBlock (← graphName)
        else if ← onTriple then triples
        else fail (.expected "a triple or a GRAPH block")
      discard (acceptSymbol .dot)
      return .yield (found ++ more)) []

def updateWords : List Text :=
  ["INSERT", "DELETE", "LOAD", "CLEAR", "DROP", "CREATE", "ADD", "MOVE", "COPY", "WITH"]

def startsUpdate (l : Option Lexeme) : Bool := updateWords.any fun w => isWord w l

def dataOf (form : Text) : Reader (List Quad) := do
  if ← acceptWord "DATA" then quadData else fail (.onlyData form)

/-- One operation of an update, added to what was inserted and deleted before. -/
def updateOperation (done : List Quad × List Quad) : Reader (List Quad × List Quad) := do
  if ← acceptWord "INSERT" then return (done.1 ++ (← dataOf "INSERT"), done.2)
  else if ← acceptWord "DELETE" then return (done.1, done.2 ++ (← dataOf "DELETE"))
  else
    let next ← peek?
    match updateWords.find? fun w => isWord w next with
    | some w => fail (.unsupported w)
    | none => fail (.expected "an update operation")

def updateRequest : Reader (List Quad × List Quad) :=
  loop (fun done => do
    prologue
    if ← atEnd then return .done done
    else
      let done ← updateOperation done
      return if ← acceptSymbol .semicolon then .yield done else .done done) ([], [])

def content : Reader Content := do
  prologue
  if ← acceptWord "SELECT" then return .query (← selectQuery)
  else if ← acceptWord "ASK" then return .query (← askQuery)
  else if ← acceptWord "CONSTRUCT" then return .query (← constructQuery)
  else if ← acceptWord "DESCRIBE" then return .query (← describeQuery)
  else if startsUpdate (← peek?) then
    let (inserted, deleted) ← updateRequest
    return .update inserted deleted
  else fail (.expected "SELECT, ASK, CONSTRUCT, DESCRIBE or an update operation")

def finished (content : Content) : Reader Request := do
  if ← atEnd then
    let c ← cursor
    return ⟨content, c.prefixes, c.base⟩
  else fail .trailingInput

def run {α : Type} (r : Reader α) (scope : Scope) (tokens : List Token) : Except ParseError α :=
  match r scope { tokens } with
  | .ok (a, _) => .ok a
  | .error stop => .error stop.error

theorem run_eq_ok {α : Type} {r : Reader α} {scope : Scope} {tokens : List Token} {a : α}
    (h : run r scope tokens = .ok a) : ∃ c, r scope { tokens } = .ok (a, c) := by
  unfold run at h
  split at h
  · rename_i b c read
    cases h
    exact ⟨c, read⟩
  · cases h

end Reader

namespace Request

def read (s : Text) : Except ParseError Request := do
  let tokens ← Token.scan s
  Reader.run (do Reader.finished (← Reader.content)) (.whole false .defaultGraph s.length) tokens

end Request

namespace Form

/-- The form that the first word tells which is not part of a declaration. -/
def ofTokens (finish : Nat) : List Token → Except ParseError Form
  | [] => .error ⟨.unknownForm, .unnamed, finish⟩
  | t :: rest =>
    let l := some t.lexeme
    if Reader.isWord "PREFIX" l then ofTokens finish (rest.drop 2)
    else if Reader.isWord "BASE" l then ofTokens finish (rest.drop 1)
    else if Reader.isWord "SELECT" l then .ok .select
    else if Reader.isWord "ASK" l then .ok .ask
    else if Reader.isWord "CONSTRUCT" l then .ok .construct
    else if Reader.isWord "DESCRIBE" l then .ok .describe
    else if Reader.startsUpdate l then .ok .update
    else .error ⟨.unknownForm, .unnamed, t.offset⟩
termination_by tokens => tokens.length
decreasing_by all_goals (simp only [List.length_cons, List.length_drop]; omega)

def ofText (s : Text) : Except ParseError Form := do
  ofTokens s.length (← Token.scan s)

end Form

end QuadStore.Sparql
