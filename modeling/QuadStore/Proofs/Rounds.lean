import QuadStore.Sparql.Document

namespace QuadStore.Sparql.Reader

def prologueRound (_ : Unit) : Reader (ForInStep Unit) := do
  if ← acceptWord "BASE" then
    baseDeclaration
    return .yield ()
  else if ← acceptWord "PREFIX" then
    prefixDeclaration
    return .yield ()
  else return .done ()

theorem prologue_eq : prologue = loop prologueRound () := rfl

def objectsRound (inner : Properties) (subject predicate : Term) (found : List Quad) : Reader (ForInStep (List Quad)) := do
  let (o, more) ← object inner
  let graph ← tripleGraph
  let found := found ++ more ++ [⟨subject, predicate, o, graph⟩]
  return if ← acceptSymbol .comma then .yield found else .done found

theorem objects_eq (inner : Properties) (subject predicate : Term) :
    objects inner subject predicate = loop (objectsRound inner subject predicate) [] := rfl

def semicolonsRound (_ : Unit) : Reader (ForInStep Unit) := do
  return if ← acceptSymbol .semicolon then .yield () else .done ()

theorem skipSemicolons_eq : skipSemicolons = loop semicolonsRound () := rfl

def propertiesRound (inner : Properties) (subject : Term) (found : List Quad) : Reader (ForInStep (List Quad)) := do
  let predicate ← verb
  let found := found ++ (← objects inner subject predicate)
  if ← acceptSymbol .semicolon then
    skipSemicolons
    return if startsVerb (← peek?) then .yield found else .done found
  else return .done found

theorem propertiesWith_eq (inner : Properties) (subject : Term) :
    propertiesWith inner subject = loop (propertiesRound inner subject) [] := rfl

def triplesRound (found : List Quad) : Reader (ForInStep (List Quad)) := do
  if ← onTriple then
    let found := found ++ (← sameSubject)
    return if ← acceptSymbol .dot then .yield found else .done found
  else return .done found

theorem triples_eq : triples = loop triplesRound [] := rfl

def chainRound (choices : List Operator) (operand : Reader Expression) (left : Expression) :
    Reader (ForInStep Expression) := do
  match ← operator? choices with
  | some op => return .yield (.binary op left (← operand))
  | none => return .done left

theorem chain_eq (choices : List Operator) (operand : Reader Expression) :
    chain choices operand = operand >>= loop (chainRound choices operand) := rfl

def expressionsRound (nested : Nested) (found : List Expression) : Reader (ForInStep (List Expression)) := do
  let found := found ++ [← nested.expression]
  return if ← acceptSymbol .comma then .yield found else .done found

theorem expressionList_eq (nested : Nested) :
    expressionList nested = (do
      expectSymbol .openParen
      if ← acceptSymbol .closeParen then return []
      else
        let found ← loop (expressionsRound nested) []
        expectSymbol .closeParen
        return found) := rfl

def alternativesRound (nested : Nested) (left : Operation) : Reader (ForInStep Operation) := do
  if ← acceptWord "UNION" then return .yield (.union left (← nested.group))
  else return .done left

theorem alternatives_eq (nested : Nested) :
    alternatives nested = nested.group >>= loop (alternativesRound nested) := rfl

def groupRound (nested : Nested) (g : Group) : Reader (ForInStep Group) := do
  if ← acceptSymbol .closeBrace then return .done g
  else if ← atEnd then fail .unterminatedGroup
  else if ← onTriple then return .yield (g.addTriples (← triples))
  else
    let g ← groupPart nested g
    discard (acceptSymbol .dot)
    return .yield g

theorem groupParts_eq (nested : Nested) : groupParts nested = loop (groupRound nested) {} := rfl

def orderRound (found : List OrderCondition) : Reader (ForInStep (List OrderCondition)) := do
  if startsOrderCondition (← peek?) then return .yield (found ++ [← orderCondition])
  else return .done found

theorem orderConditions_eq : orderConditions = loop orderRound [] := rfl

def projectedRound (found : List Text) : Reader (ForInStep (List Text)) := do
  match ← peek? with
  | some (.var name) =>
    skip
    return .yield (found ++ [name])
  | some (.symbol .openParen) => fail (.unsupportedMany "SELECT expressions")
  | _ => return .done found

theorem projected?_eq : projected? = (do
    if ← acceptSymbol .star then return none
    else
      let found ← loop projectedRound []
      if found.isEmpty then fail (.expected "a projection") else return some found) := rfl

def targetsRound (found : List Term) : Reader (ForInStep (List Term)) := do
  match ← peek? with
  | some (.var _) | some (.iri _) | some (.prefixed _) => return .yield (found ++ [← term])
  | _ => return .done found

theorem targets_eq : targets = (do
    if ← acceptSymbol .star then return []
    else
      let found ← loop targetsRound []
      if found.isEmpty then fail (.expected "a variable or an IRI") else return found) := rfl

def graphRound (found : List Quad) : Reader (ForInStep (List Quad)) := do
  if ← acceptSymbol .closeBrace then return .done found
  else if ← onTriple then return .yield (found ++ (← triples))
  else fail (.expected "a triple")

theorem graphBlock_eq (graph : Term) :
    graphBlock graph = (do
      expectSymbol .openBrace
      inGraph graph (loop graphRound [])) := rfl

def dataRound (found : List Quad) : Reader (ForInStep (List Quad)) := do
  if ← acceptSymbol .closeBrace then return .done found
  else
    let more ←
      if ← acceptWord "GRAPH" then graphBlock (← graphName)
      else if ← onTriple then triples
      else fail (.expected "a triple or a GRAPH block")
    discard (acceptSymbol .dot)
    return .yield (found ++ more)

theorem quadData_eq : quadData = inData (do
    expectSymbol .openBrace
    loop dataRound []) := rfl

def updateRound (done : List Quad × List Quad) : Reader (ForInStep (List Quad × List Quad)) := do
  prologue
  if ← atEnd then return .done done
  else
    let done ← updateOperation done
    return if ← acceptSymbol .semicolon then .yield done else .done done

theorem updateRequest_eq : updateRequest = loop updateRound ([], []) := rfl

def documentRound (d : Document) : Reader (ForInStep Document) := do
  if ← atEnd then return .done d else return .yield (← documentPart d)

theorem document_eq : document = loop documentRound {} := rfl

/-- The rounds of all loops. In brackets a loop works with the readers of some depth. -/
inductive Round : {α : Type} → (α → Reader (ForInStep α)) → Prop where
  | prologue : Round prologueRound
  | objects (depth : Nat) (subject predicate : Term) : Round (objectsRound (propertiesTo depth) subject predicate)
  | semicolons : Round semicolonsRound
  | properties (depth : Nat) (subject : Term) : Round (propertiesRound (propertiesTo depth) subject)
  | triples : Round triplesRound
  | product (depth : Nat) : Round (chainRound [.mul, .div] (unary (nestedTo depth)))
  | sum (depth : Nat) : Round (chainRound [.add, .sub] (product (nestedTo depth)))
  | conjunction (depth : Nat) : Round (chainRound [.and] (comparison (nestedTo depth)))
  | disjunction (depth : Nat) : Round (chainRound [.or] (chain [.and] (comparison (nestedTo depth))))
  | expressions (depth : Nat) : Round (expressionsRound (nestedTo depth))
  | alternatives (depth : Nat) : Round (alternativesRound (nestedTo depth))
  | group (depth : Nat) : Round (groupRound (nestedTo depth))
  | order : Round orderRound
  | projected : Round projectedRound
  | targets : Round targetsRound
  | graph : Round graphRound
  | data : Round dataRound
  | update : Round updateRound
  | document : Round documentRound

end QuadStore.Sparql.Reader
