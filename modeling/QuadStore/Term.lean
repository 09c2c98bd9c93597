import QuadStore.Binary
import QuadStore.Text

namespace QuadStore

namespace Xsd

def base : Text := "http://www.w3.org/2001/XMLSchema#"
def string : Text := base ++ "string"
def integer : Text := base ++ "integer"
def decimal : Text := base ++ "decimal"
def double : Text := base ++ "double"
def boolean : Text := base ++ "boolean"
def dateTime : Text := base ++ "dateTime"

def numericNames : List Text :=
  ["integer", "decimal", "float", "double", "nonPositiveInteger", "negativeInteger", "long", "int",
   "short", "byte", "nonNegativeInteger", "unsignedLong", "unsignedInt", "unsignedShort",
   "unsignedByte", "positiveInteger"]

def isNumeric (datatype : Text) : Bool := (numericNames.map (base ++ ·)).contains datatype

end Xsd

namespace Rdf

def base : Text := "http://www.w3.org/1999/02/22-rdf-syntax-ns#"
def type : Text := base ++ "type"
def langString : Text := base ++ "langString"

end Rdf

/-- What stands behind the quotes of a literal. -/
inductive LiteralKind where
  | plain
  | language (tag : Text)
  | datatype (iri : Text)
  deriving DecidableEq

inductive Term where
  | iri (value : Text)
  | blank (label : Text)
  | literal (lexical : Text) (kind : LiteralKind)
  | defaultGraph
  | var (name : Text)
  deriving DecidableEq, Inhabited

namespace Term

def plain (lexical : Text) : Term := .literal lexical .plain

def tagged (lexical language : Text) : Term :=
  .literal lexical (if language = [] then .plain else .language language)

def typed (lexical datatype : Text) : Term :=
  .literal lexical
    (if datatype = [] ∨ datatype = Xsd.string ∨ datatype = Rdf.langString then .plain
     else .datatype datatype)

/-- The text inside a term: the IRI, the label, the lexical form or the name. -/
def value : Term → Text
  | iri v | blank v | literal v _ | var v => v
  | defaultGraph => []

def language : Term → Text
  | literal _ (.language tag) => tag
  | _ => []

def datatype : Term → Text
  | literal _ (.datatype d) => d
  | _ => []

def isIri : Term → Bool
  | iri _ => true
  | _ => false

def isLiteral : Term → Bool
  | literal .. => true
  | _ => false

def isVar : Term → Bool
  | var _ => true
  | _ => false

/-- IRIs come first, then blank nodes, literals, the default graph and variables. -/
def rank : Term → Nat
  | iri _ => 0
  | blank _ => 1
  | literal .. => 2
  | defaultGraph => 3
  | var _ => 4

def lt (a b : Term) : Bool :=
  a.rank < b.rank || (a.rank = b.rank &&
    (a.value < b.value || (a.value = b.value &&
      (a.language < b.language || (a.language = b.language && a.datatype < b.datatype)))))

def le (a b : Term) : Bool := !lt b a

def annotated (lexical : Text) : LiteralKind → Text
  | .plain => "\"" ++ lexical ++ "\""
  | .language tag => "\"" ++ lexical ++ "\"@" ++ tag
  | .datatype d => "\"" ++ lexical ++ "\"^^<" ++ d ++ ">"

def display : Term → Text
  | iri v => "<" ++ v ++ ">"
  | blank label => "_:" ++ label
  | literal lexical a => annotated lexical a
  | defaultGraph => []
  | var name => "?" ++ name

end Term

inductive Position where
  | subject
  | predicate
  | object
  | graph
  deriving DecidableEq

namespace Position

def name : Position → Text
  | subject => "subject"
  | predicate => "predicate"
  | object => "object"
  | graph => "graph"

def all : List Position := [subject, predicate, object, graph]

def keyOrder : List Position := [graph, subject, predicate, object]

end Position

/-- A statement in a graph, or a pattern of one if it has variables. -/
structure Quad where
  subject : Term
  predicate : Term
  object : Term
  graph : Term := .defaultGraph
  deriving DecidableEq

namespace Quad

def get (q : Quad) : Position → Term
  | .subject => q.subject
  | .predicate => q.predicate
  | .object => q.object
  | .graph => q.graph

end Quad

abbrev Vector := List Single

/-- A statement and its vector; the statement alone identifies it. -/
structure Quint extends Quad where
  vector : Option Vector := none
  deriving DecidableEq

namespace Quint

def sameKey (a b : Quint) : Bool := a.toQuad = b.toQuad

def sameVector : Option Vector → Option Vector → Bool
  | none, none => true
  | some a, some b => a.length = b.length && (a.zip b).all fun (x, y) => x.beq y
  | _, _ => false

/-- Equal statements with numerically equal vectors; a NaN equals nothing. -/
def same (a b : Quint) : Bool := sameKey a b && sameVector a.vector b.vector

def le (a b : Quint) : Bool :=
  let rec go : List Position → Bool
    | [] => true
    | p :: ps => if a.get p = b.get p then go ps else (a.get p).le (b.get p)
  go Position.keyOrder

end Quint

end QuadStore
