import QuadStore.Sparql.Document

namespace QuadStore.Sparql

/-- What a text calls a node or a variable; nodes without a label are told apart by their opening
brackets, which are counted from the start of the text. -/
inductive Name where
  | var (name : Text)
  | label (label : Text)
  | anonymous (bracket : Nat)
  deriving DecidableEq

def Name.term (data : Bool) : Name → Term
  | var name => .var name
  | label l => if data then .blank l else .var (blankMark ++ l)
  | anonymous n =>
    if data then .blank ("genid" ++ Text.ofNat n) else .var (blankMark ++ ("genid" ++ Text.ofNat n))

/-- The names and strings of a text. -/
inductive Item where
  | name (n : Name)
  | string (value : Text)
  deriving DecidableEq

namespace Item

/-- What a lexeme brings; `bracket` is the number of opening brackets before it. -/
def ofLexeme? (bracket : Nat) : Lexeme → Option Item
  | .var x => some (.name (.var x))
  | .blank l => some (.name (.label l))
  | .symbol .openBracket => some (.name (.anonymous bracket))
  | .string s => some (.string s)
  | _ => none

def brackets (ls : List Lexeme) : Nat := ls.count (.symbol .openBracket)

def ofLexemes (bracket : Nat) : List Lexeme → List Item
  | [] => []
  | l :: ls => (ofLexeme? bracket l).toList ++ ofLexemes (bracket + brackets [l]) ls

end Item

namespace Tree

/-- A term, as it is written; numbers, booleans and the short form of `rdf:type` are not quoted. -/
inductive Leaf where
  | name (n : Name)
  | iri (value : Text)
  | quoted (lexical : Text) (kind : LiteralKind)
  | bare (lexical datatype : Text)

namespace Leaf

def term (data : Bool) : Leaf → Term
  | name n => n.term data
  | iri value => .iri value
  | quoted lexical kind => .literal lexical kind
  | bare lexical datatype => .typed lexical datatype

def item? : Leaf → Option Item
  | name n => some (.name n)
  | quoted lexical _ => some (.string lexical)
  | iri _ | bare .. => none

end Leaf

mutual

/-- A subject or an object; a node in brackets may have properties. -/
inductive Node where
  | leaf (l : Leaf)
  | bracketed (bracket : Nat) (properties : Properties)

/-- Objects, at least one, each with the graph that it names if there is one. -/
inductive Objects where
  | one (o : Node) (graph? : Option Leaf)
  | also (before : Objects) (o : Node) (graph? : Option Leaf)

inductive Properties where
  | one (verb : Leaf) (objects : Objects)
  | also (before : Properties) (verb : Leaf) (objects : Objects)

end

/-- A subject and its properties, or a node in brackets that has no others. -/
inductive Statement where
  | described (subject : Node) (properties : Properties)
  | bracketed (bracket : Nat) (properties : Properties)

/-- The name of a graph: no number and no string. -/
inductive GraphName where
  | name (n : Name)
  | iri (value : Text)

mutual

inductive Condition where
  | leaf (l : Leaf)
  | binary (op : Operator) (left right : Condition)
  | negation (c : Condition)
  | opposite (c : Condition)
  | member (negated : Bool) (c : Condition) (values : Conditions)
  | builtin (f : Builtin) (arguments : Conditions)
  | call (function : Text) (arguments : Conditions)
  | existence (negated : Bool) (g : Group)

inductive Conditions where
  | none
  | also (before : Conditions) (c : Condition)

/-- A pair of braces, up to its last part. -/
inductive Group where
  | empty
  | triples (before : Group) (found : List Statement)
  | optional (before operand : Group)
  | minus (before operand : Group)
  | graph (before : Group) (name : GraphName) (operand : Group)
  | choice (before : Group) (operands : Choice)
  | filter (before : Group) (c : Condition)

/-- Pairs of braces with `UNION` between them. -/
inductive Choice where
  | single (operand : Group)
  | either (left : Choice) (right : Group)

end

/-- What shapes the result of a pattern. -/
structure Shape where
  order : List (Bool × Condition)
  start : Option Nat
  length : Option Nat

inductive Query where
  | select (isDistinct isReduced : Bool) (chosen : Option (List Text)) (pattern : Group) (shape : Shape)
  | ask (pattern : Group) (shape : Shape)
  | construct (template : List Statement) (pattern : Group) (shape : Shape)
  | constructWhere (template : List Statement) (shape : Shape)
  | describe (targets : List Leaf) (pattern : Group) (shape : Shape)

/-- Triples in data, or a block of triples of one graph. -/
inductive Block where
  | triples (found : List Statement)
  | graph (name : GraphName) (found : List Statement)

inductive Update where
  | insertion (blocks : List Block)
  | deletion (blocks : List Block)

inductive Request where
  | query (q : Query)
  | update (parts : List Update)

inductive Part where
  | insertion (blocks : List Block)
  | home (found : List Statement)
  | graph (name : GraphName) (found : List Statement)
  | statement (s : Statement)

mutual

def Node.leaves : Node → List Leaf
  | .leaf l => [l]
  | .bracketed n properties => .name (.anonymous n) :: properties.leaves

def Objects.leaves : Objects → List Leaf
  | .one o graph? => o.leaves ++ graph?.toList
  | .also before o graph? => before.leaves ++ (o.leaves ++ graph?.toList)

def Properties.leaves : Properties → List Leaf
  | .one verb objects => verb :: objects.leaves
  | .also before verb objects => before.leaves ++ (verb :: objects.leaves)

end

def Statement.leaves : Statement → List Leaf
  | .described subject properties => subject.leaves ++ properties.leaves
  | .bracketed n properties => .name (.anonymous n) :: properties.leaves

def GraphName.leaf : GraphName → Leaf
  | .name n => .name n
  | .iri value => .iri value

mutual

def Condition.leaves : Condition → List Leaf
  | .leaf l => [l]
  | .binary _ left right => left.leaves ++ right.leaves
  | .negation c | .opposite c => c.leaves
  | .member _ c values => c.leaves ++ values.leaves
  | .builtin _ arguments => arguments.leaves
  | .call function arguments => .iri function :: arguments.leaves
  | .existence _ g => g.leaves

def Conditions.leaves : Conditions → List Leaf
  | .none => []
  | .also before c => before.leaves ++ c.leaves

def Group.leaves : Group → List Leaf
  | .empty => []
  | .triples before found => before.leaves ++ found.flatMap Statement.leaves
  | .optional before operand | .minus before operand => before.leaves ++ operand.leaves
  | .graph before name operand => before.leaves ++ (name.leaf :: operand.leaves)
  | .choice before operands => before.leaves ++ operands.leaves
  | .filter before c => before.leaves ++ c.leaves

def Choice.leaves : Choice → List Leaf
  | .single operand => operand.leaves
  | .either left right => left.leaves ++ right.leaves

end

def Shape.leaves (s : Shape) : List Leaf := s.order.flatMap (·.2.leaves)

def Query.leaves : Query → List Leaf
  | .select _ _ chosen pattern shape =>
    (chosen.getD []).map (.name <| .var ·) ++ (pattern.leaves ++ shape.leaves)
  | .ask pattern shape => pattern.leaves ++ shape.leaves
  | .construct template pattern shape =>
    template.flatMap Statement.leaves ++ (pattern.leaves ++ shape.leaves)
  | .constructWhere template shape => template.flatMap Statement.leaves ++ shape.leaves
  | .describe targets pattern shape => targets ++ (pattern.leaves ++ shape.leaves)

def Block.leaves : Block → List Leaf
  | .triples found => found.flatMap Statement.leaves
  | .graph name found => name.leaf :: found.flatMap Statement.leaves

def Update.leaves : Update → List Leaf
  | .insertion blocks | .deletion blocks => blocks.flatMap Block.leaves

def Request.leaves : Request → List Leaf
  | .query q => q.leaves
  | .update parts => parts.flatMap Update.leaves

def Part.leaves : Part → List Leaf
  | .insertion blocks => blocks.flatMap Block.leaves
  | .home found => found.flatMap Statement.leaves
  | .graph name found => name.leaf :: found.flatMap Statement.leaves
  | .statement s => s.leaves

def Node.term (data : Bool) : Node → Term
  | .leaf l => l.term data
  | .bracketed n _ => (Name.anonymous n).term data

def graphOf (scope : Scope) (graph? : Option Leaf) : Term :=
  (graph?.map (·.term scope.data)).getD scope.graph

def GraphName.term (data : Bool) (name : GraphName) : Term := name.leaf.term data

mutual

def Node.quads (scope : Scope) : Node → List Quad
  | .leaf _ => []
  | .bracketed n properties => properties.quads scope ((Name.anonymous n).term scope.data)

def Objects.quads (scope : Scope) (subject predicate : Term) : Objects → List Quad
  | .one o graph? =>
    o.quads scope ++ [⟨subject, predicate, o.term scope.data, graphOf scope graph?⟩]
  | .also before o graph? =>
    before.quads scope subject predicate ++ o.quads scope ++
      [⟨subject, predicate, o.term scope.data, graphOf scope graph?⟩]

def Properties.quads (scope : Scope) (subject : Term) : Properties → List Quad
  | .one verb objects => objects.quads scope subject (verb.term scope.data)
  | .also before verb objects =>
    before.quads scope subject ++ objects.quads scope subject (verb.term scope.data)

end

def Statement.quads (scope : Scope) : Statement → List Quad
  | .described subject properties =>
    subject.quads scope ++ properties.quads scope (subject.term scope.data)
  | .bracketed n properties => properties.quads scope ((Name.anonymous n).term scope.data)

def quadsOf (scope : Scope) (found : List Statement) : List Quad := found.flatMap (·.quads scope)

mutual

def Condition.expression (scope : Scope) : Condition → Expression
  | .leaf l => .term (l.term scope.data)
  | .binary op left right => .binary op (left.expression scope) (right.expression scope)
  | .negation c => .negation (c.expression scope)
  | .opposite c => .opposite (c.expression scope)
  | .member negated c values => .member negated (c.expression scope) (values.expressions scope)
  | .builtin f arguments => .builtin f (arguments.expressions scope)
  | .call function arguments => .call (.iri function) (arguments.expressions scope)
  | .existence negated g => .existence negated (g.read scope).finish

def Conditions.expressions (scope : Scope) : Conditions → List Expression
  | .none => []
  | .also before c => before.expressions scope ++ [c.expression scope]

def Group.read (scope : Scope) : Group → Reader.Group
  | .empty => {}
  | .triples before found => (before.read scope).addTriples (quadsOf scope found)
  | .optional before operand => (before.read scope).addOptional (operand.read scope).finish
  | .minus before operand =>
    { before.read scope with pattern := some (.minus (before.read scope).content (operand.read scope).finish) }
  | .graph before name operand =>
    (before.read scope).join (.graph (name.term scope.data) (operand.read scope).finish)
  | .choice before operands => (before.read scope).join (operands.pattern scope)
  | .filter before c =>
    { before.read scope with filters := (before.read scope).filters ++ [c.expression scope] }

def Choice.pattern (scope : Scope) : Choice → Operation
  | .single operand => (operand.read scope).finish
  | .either left right => .union (left.pattern scope) (right.read scope).finish

end

def Group.pattern (scope : Scope) (g : Group) : Operation := (g.read scope).finish

namespace Shape

def conditions (scope : Scope) (s : Shape) : List OrderCondition :=
  s.order.map fun (ascending, key) => .on ascending (key.expression scope)

def ordered (scope : Scope) (s : Shape) (op : Operation) : Operation :=
  if s.order.isEmpty then op else .orderBy (s.conditions scope) op

def sliced (s : Shape) (op : Operation) : Operation :=
  match s.start, s.length with
  | none, none => op
  | start, length => .slice start length op

end Shape

def wrapped (isDistinct isReduced : Bool) (root : Operation) : Operation :=
  if isDistinct then .distinct root else if isReduced then .reduced root else root

def Query.root (scope : Scope) : Query → Operation
  | .select isDistinct isReduced chosen pattern shape =>
    let op := shape.ordered scope (pattern.pattern scope)
    shape.sliced (wrapped isDistinct isReduced (.project (chosen.getD op.inScope) op))
  | .ask pattern shape => .ask (shape.sliced (shape.ordered scope (pattern.pattern scope)))
  | .construct template pattern shape =>
    .construct (quadsOf scope template) (shape.sliced (shape.ordered scope (pattern.pattern scope)))
  | .constructWhere template shape =>
    .construct (quadsOf scope template) (shape.sliced (shape.ordered scope (.bgp (quadsOf scope template))))
  | .describe targets pattern shape =>
    .describe
      (if targets.isEmpty then (pattern.pattern scope).inScope.map Term.var else targets.map (·.term scope.data))
      (shape.sliced (shape.ordered scope (pattern.pattern scope)))

def Block.quads (scope : Scope) : Block → List Quad
  | .triples found => quadsOf scope found
  | .graph name found => quadsOf { scope with graph := name.term scope.data } found

def Update.inserted (scope : Scope) : Update → List Quad
  | .insertion blocks => blocks.flatMap (·.quads scope)
  | .deletion _ => []

def Update.deleted (scope : Scope) : Update → List Quad
  | .insertion _ => []
  | .deletion blocks => blocks.flatMap (·.quads scope)

def Request.content (scope : Scope) : Request → Content
  | .query q => .query (q.root scope)
  | .update parts =>
    .update (parts.flatMap (·.inserted { scope with data := true }))
      (parts.flatMap (·.deleted { scope with data := true }))

def Request.isData : Request → Bool
  | .query _ => false
  | .update _ => true

def Part.add (scope : Scope) (d : Document) : Part → Document
  | .insertion blocks => { d with inserted := d.inserted ++ blocks.flatMap (·.quads scope) }
  | .home found => d.addStated (quadsOf { scope with graph := scope.home } found)
  | .graph name found => d.addStated (quadsOf { scope with graph := name.term scope.data } found)
  | .statement s => d.addStated (s.quads scope)

def document (scope : Scope) (parts : List Part) : Document := parts.foldl (Part.add scope) {}

end Tree

end QuadStore.Sparql
