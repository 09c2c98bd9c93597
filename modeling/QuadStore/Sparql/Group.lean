import QuadStore.Sparql.Triples

namespace QuadStore.Sparql.Reader

/-- The readers for what stands inside brackets. -/
structure Nested where
  expression : Reader Expression
  group : Reader Operation

def operator? (choices : List Operator) : Reader (Option Operator) := do
  let next ← peek?
  match choices.find? fun op => isSymbol op.symbol next with
  | some op =>
    skip
    return some op
  | none => return none

def chain (choices : List Operator) (operand : Reader Expression) : Reader Expression := do
  loop (fun left => do
    match ← operator? choices with
    | some op => return .yield (.binary op left (← operand))
    | none => return .done left) (← operand)

/-- Expressions in parentheses with commas between them; there may be none. -/
def expressionList (nested : Nested) : Reader (List Expression) := do
  expectSymbol .openParen
  if ← acceptSymbol .closeParen then return []
  else
    let found ← loop (fun found => do
      let found := found ++ [← nested.expression]
      return if ← acceptSymbol .comma then .yield found else .done found) []
    expectSymbol .closeParen
    return found

def parenthesized (nested : Nested) : Reader Expression := do
  skip
  let e ← nested.expression
  expectSymbol .closeParen
  return e

def aggregates : List Text := ["count", "sum", "min", "max", "avg", "sample", "group_concat"]

/-- An expression that begins with a word; `after` is the token behind it. -/
def wordExpression (nested : Nested) (word : Text) (after : Option Lexeme) : Reader Expression := do
  if word = "true" || word = "false" then return .term (← term)
  else if word = "exists" then
    skip
    return .existence false (← nested.group)
  else if word = "not" && isWord "EXISTS" after then
    skip
    skip
    return .existence true (← nested.group)
  else if aggregates.contains word then fail (.unsupportedMany "aggregates")
  else match Builtin.ofName? word with
    | some f =>
      skip
      return .builtin f (← expressionList nested)
    | none => fail .unknownFunction

def primary (nested : Nested) : Reader Expression := do
  match ← peek? with
  | some (.symbol .openParen) => parenthesized nested
  | some (.word w) => wordExpression nested w.lower (← ahead? 1)
  | some (.iri _) | some (.prefixed _) =>
    let function ← iri
    if ← onSymbol .openParen then return .call function (← expressionList nested)
    else return .term function
  | some (.var _) | some (.string _) | some (.blank _) | some (.integer _) | some (.decimal _)
  | some (.double _) => return .term (← term)
  | _ => fail (.expected "an expression")

def unary (nested : Nested) : Reader Expression := do
  if ← acceptSymbol .bang then return .negation (← primary nested)
  else if ← acceptSymbol .plus then primary nested
  else if ← acceptSymbol .minus then
    if isNumber (← peek?) then return .term (← number true)
    else return .opposite (← primary nested)
  else primary nested

def product (nested : Nested) : Reader Expression := chain [.mul, .div] (unary nested)

def sum (nested : Nested) : Reader Expression := chain [.add, .sub] (product nested)

/-- Takes `IN` or `NOT IN` if it is next, and tells whether it was negated. -/
def membership? : Reader (Option Bool) := do
  if ← acceptWord "IN" then return some false
  else if isWord "NOT" (← peek?) && isWord "IN" (← ahead? 1) then
    skip
    skip
    return some true
  else return none

def comparison (nested : Nested) : Reader Expression := do
  let left ← sum nested
  match ← operator? [.eq, .ne, .lt, .gt, .le, .ge] with
  | some op => return .binary op left (← sum nested)
  | none =>
    match ← membership? with
    | some negated => return .member negated left (← expressionList nested)
    | none => return left

def disjunction (nested : Nested) : Reader Expression :=
  chain [.or] (chain [.and] (comparison nested))

def constraint (nested : Nested) : Reader Expression := do
  match ← peek? with
  | some (.symbol .openParen) => parenthesized nested
  | some (.word _) | some (.iri _) | some (.prefixed _) => primary nested
  | _ => fail (.expected "a constraint")

/-- What a group holds so far. -/
structure Group where
  pattern : Option Operation := none
  filters : List Expression := []

namespace Group

def content (g : Group) : Operation := g.pattern.getD (.bgp [])

def join (g : Group) (op : Operation) : Group :=
  { g with pattern := some (Operation.joined g.pattern op) }

def addTriples (g : Group) (found : List Quad) : Group :=
  match g.pattern with
  | some (.bgp before) => { g with pattern := some (.bgp (before ++ found)) }
  | _ => g.join (.bgp found)

def addOptional (g : Group) (op : Operation) : Group :=
  match op with
  | .filter condition inner =>
    { g with pattern := some (.leftJoin g.content inner (some condition)) }
  | _ => { g with pattern := some (.leftJoin g.content op none) }

def finish (g : Group) : Operation :=
  match Expression.conjunction? g.filters with
  | some condition => .filter condition g.content
  | none => g.content

end Group

def alternatives (nested : Nested) : Reader Operation := do
  loop (fun left => do
    if ← acceptWord "UNION" then return .yield (.union left (← nested.group))
    else return .done left) (← nested.group)

def unsupportedParts : List Text := ["BIND", "VALUES", "SERVICE"]

def groupPart (nested : Nested) (g : Group) : Reader Group := do
  if ← acceptWord "OPTIONAL" then return g.addOptional (← nested.group)
  else if ← acceptWord "MINUS" then
    return { g with pattern := some (.minus g.content (← nested.group)) }
  else if ← acceptWord "GRAPH" then
    let name ← graphName
    return g.join (.graph name (← nested.group))
  else if ← onSymbol .openBrace then return g.join (← alternatives nested)
  else if ← acceptWord "FILTER" then
    return { g with filters := g.filters ++ [← constraint nested] }
  else
    let next ← peek?
    match unsupportedParts.find? fun w => isWord w next with
    | some w => fail (.unsupported w)
    | none => fail .unexpectedInGroup

def groupParts (nested : Nested) : Reader Group :=
  loop (fun g => do
    if ← acceptSymbol .closeBrace then return .done g
    else if ← atEnd then fail .unterminatedGroup
    else if ← onTriple then return .yield (g.addTriples (← triples))
    else
      let g ← groupPart nested g
      discard (acceptSymbol .dot)
      return .yield g) {}

def groupPattern (nested : Nested) : Reader Operation := do
  expectSymbol .openBrace
  if ← onWord "SELECT" then fail .subQueries
  else return (← groupParts nested).finish

def nestedTo : Nat → Nested
  | 0 => ⟨fail .tooDeep, fail .tooDeep⟩
  | depth + 1 => ⟨disjunction (nestedTo depth), groupPattern (nestedTo depth)⟩

/-- Every bracket takes a token, so there is no deeper nesting than there are tokens. -/
def nested : Reader Nested := do return nestedTo ((← cursor).tokens.length + 1)

def group : Reader Operation := do (← nested).group

def expression : Reader Expression := do (← nested).expression

end QuadStore.Sparql.Reader
