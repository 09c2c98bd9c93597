import QuadStore.Sparql.Reader

namespace QuadStore.Sparql.Reader

def resolve (base iri : Text) : Text :=
  if base = [] || iri.contains (Text.byte ':') then iri else base ++ iri

def unescaped : Text → Text
  | [] => []
  | c :: rest =>
    if c = Text.byte '\\' then
      match rest with
      | d :: after => d :: unescaped after
      | [] => [c]
    else c :: unescaped rest

def isColon (c : UInt8) : Bool := c = Text.byte ':'

def expand (name : Text) (offset : Nat) : Reader Text := do
  let front := name.takeWhile (!isColon ·)
  match (← cursor).prefixes.lookup front with
  | some start => return start ++ unescaped (name.drop (front.length + 1))
  | none => failWith ⟨.unknownPrefix front, .unnamed, offset⟩

def iriRef : Reader Text := do
  match ← peek? with
  | some (.iri value) =>
    skip
    return resolve (← cursor).base value
  | _ => fail (.expected "an IRI")

def iri : Reader Term := do
  match (← cursor).tokens with
  | ⟨.iri value, _⟩ :: _ =>
    skip
    return .iri (resolve (← cursor).base value)
  | ⟨.prefixed name, offset⟩ :: _ =>
    skip
    return .iri (← expand name offset)
  | _ => fail (.expected "an IRI")

/-- The prefix that a name with nothing behind its only colon declares. -/
def declared? (name : Text) : Option Text :=
  match name.dropWhile (!isColon ·) with
  | [_] => some (name.takeWhile (!isColon ·))
  | _ => none

def prefixDeclaration : Reader Unit := do
  let front ← match ← peek? with
    | some (.prefixed name) => pure (declared? name)
    | _ => pure none
  match front with
  | none => fail (.expected "a prefix name")
  | some front =>
    skip
    let value ← iriRef
    update fun c => { c with prefixes := (front, value) :: c.prefixes.filter (·.1 ≠ front) }

def baseDeclaration : Reader Unit := do
  let value ← iriRef
  update fun c => { c with base := value }

def prologue : Reader Unit :=
  loop (fun _ => do
    if ← acceptWord "BASE" then
      baseDeclaration
      return .yield ()
    else if ← acceptWord "PREFIX" then
      prefixDeclaration
      return .yield ()
    else return .done ()) ()

def freshNode : Reader Term := do
  let n := (← cursor).fresh
  update fun c => { c with fresh := n + 1 }
  let label : Text := "genid" ++ Text.ofNat n
  return if (← scope).data then .blank label else .var (blankMark ++ label)

def number (negative : Bool) : Reader Term := do
  let signed (digits : Text) : Text := if negative then "-" ++ digits else digits
  match ← peek? with
  | some (.integer digits) =>
    skip
    return .typed (signed digits) Xsd.integer
  | some (.decimal digits) =>
    skip
    return .typed (signed digits) Xsd.decimal
  | some (.double digits) =>
    skip
    return .typed (signed digits) Xsd.double
  | _ => fail (.expected "an RDF term")

def literal (lexical : Text) : Reader Term := do
  match ← peek? with
  | some (.tag language) =>
    skip
    return .tagged lexical language
  | some (.symbol .carets) =>
    skip
    return .typed lexical (← iri).value
  | _ => return .plain lexical

def isBoolean (l : Option Lexeme) : Bool := isWord "true" l || isWord "false" l

def term : Reader Term := do
  match ← peek? with
  | some (.var name) =>
    if (← scope).data then fail .variableInData
    else
      skip
      return .var name
  | some (.iri _) | some (.prefixed _) => iri
  | some (.blank label) =>
    skip
    return if (← scope).data then .blank label else .var (blankMark ++ label)
  | some (.string value) =>
    skip
    literal value
  | some (.integer _) | some (.decimal _) | some (.double _) => number false
  | some (.symbol .openBracket) =>
    if isSymbol .closeBracket (← ahead? 1) then
      skip
      skip
      freshNode
    else fail (.expected "an RDF term")
  | some (.symbol .plus) =>
    if isNumber (← ahead? 1) then
      skip
      number false
    else fail (.expected "an RDF term")
  | some (.symbol .minus) =>
    if isNumber (← ahead? 1) then
      skip
      number true
    else fail (.expected "an RDF term")
  | some (.word w) =>
    if isBoolean (some (.word w)) then
      skip
      return .typed w.lower Xsd.boolean
    else fail (.expected "an RDF term")
  | _ => fail (.expected "an RDF term")

def isGraphName : Option Lexeme → Bool
  | some (.iri _) | some (.prefixed _) | some (.blank _) => true
  | _ => false

def graphName : Reader Term := do
  let next ← peek?
  match next, (← scope).data with
  | some (.var name), false =>
    skip
    return .var name
  | _, _ => if isGraphName next then term else fail (.expected "a graph name")

/-- Whether a triple can begin with the next token; `after` is the one behind it. -/
def startsTriple (next after : Option Lexeme) : Bool :=
  match next with
  | some (.var _) | some (.iri _) | some (.prefixed _) | some (.blank _) | some (.string _)
  | some (.integer _) | some (.decimal _) | some (.double _) => true
  | some (.symbol .openBracket) | some (.symbol .openParen) => true
  | some (.symbol .plus) | some (.symbol .minus) => isNumber after
  | some (.word w) => isBoolean (some (.word w))
  | _ => false

def onTriple : Reader Bool := do return startsTriple (← peek?) (← ahead? 1)

/-- Whether the next token can begin a predicate; the short form of `rdf:type` is a small letter. -/
def startsVerb : Option Lexeme → Bool
  | some (.var _) | some (.iri _) | some (.prefixed _) => true
  | some (.word w) => w = "a"
  | some (.symbol s) => s = .caret || s = .bang || s = .openParen
  | _ => false

def opensPath : Option Lexeme → Bool
  | some (.symbol s) => s = .caret || s = .bang || s = .openParen
  | _ => false

def continuesPath : Option Lexeme → Bool
  | some (.symbol s) => s = .slash || s = .bar || s = .star || s = .plus || s = .question
  | _ => false

def verbTerm : Reader Term := do
  match ← peek? with
  | some (.word w) =>
    if w = "a" then
      skip
      return .iri Rdf.type
    else iri
  | some (.var _) => term
  | _ => iri

def verb : Reader Term := do
  if opensPath (← peek?) then fail .propertyPaths
  else
    let t ← verbTerm
    if continuesPath (← peek?) then fail .propertyPaths else return t

abbrev Properties := Term → Reader (List Quad)

/-- A node in brackets, from the opening bracket on, if it has properties. -/
def bracketed? (properties : Properties) : Reader (Option (Term × List Quad)) := do
  if isSymbol .openBracket (← peek?) && !isSymbol .closeBracket (← ahead? 1) then
    skip
    let node ← freshNode
    let found ← properties node
    expectSymbol .closeBracket
    return some (node, found)
  else return none

def object (properties : Properties) : Reader (Term × List Quad) := do
  if ← onSymbol .openParen then fail .collections
  else match ← bracketed? properties with
    | some found => return found
    | none => return (← term, [])

def tripleGraph : Reader Term := do
  let scope ← scope
  if scope.data && isGraphName (← peek?) then term else return scope.graph

/-- The objects of a subject and a predicate, with commas between them. -/
def objects (properties : Properties) (subject predicate : Term) : Reader (List Quad) :=
  loop (fun found => do
    let (o, inner) ← object properties
    let graph ← tripleGraph
    let found := found ++ inner ++ [⟨subject, predicate, o, graph⟩]
    return if ← acceptSymbol .comma then .yield found else .done found) []

def skipSemicolons : Reader Unit :=
  loop (fun _ => do return if ← acceptSymbol .semicolon then .yield () else .done ()) ()

/-- The predicates of a subject with their objects, with semicolons between them. -/
def propertiesWith (inner : Properties) (subject : Term) : Reader (List Quad) :=
  loop (fun found => do
    let predicate ← verb
    let found := found ++ (← objects inner subject predicate)
    if ← acceptSymbol .semicolon then
      skipSemicolons
      return if startsVerb (← peek?) then .yield found else .done found
    else return .done found) []

def propertiesTo : Nat → Properties
  | 0, _ => fail .tooDeep
  | depth + 1, subject => propertiesWith (propertiesTo depth) subject

def properties : Properties := fun subject => do
  propertiesTo ((← cursor).tokens.length + 1) subject

def sameSubject : Reader (List Quad) := do
  if ← onSymbol .openParen then fail .collections
  else match ← bracketed? properties with
    | some (subject, found) =>
      if startsVerb (← peek?) then return found ++ (← properties subject) else return found
    | none => properties (← term)

def triples : Reader (List Quad) :=
  loop (fun found => do
    if ← onTriple then
      let found := found ++ (← sameSubject)
      return if ← acceptSymbol .dot then .yield found else .done found
    else return .done found) []

end QuadStore.Sparql.Reader
