import QuadStore.Text

namespace QuadStore.Sparql

inductive Fault where
  | emptyBlankLabel
  | invalidLanguageTag
  | invalidNumber
  | unexpectedCharacter (c : UInt8)
  | unterminatedString
  | lineBreakInString
  | danglingEscape
  | truncatedEscape
  | invalidEscape
  | unknownEscape (c : UInt8)
  | unknownPrefix (name : Text)
  | unknownForm
  | expected (what : Text)
  | expectedSymbol (symbol : Text)
  | trailingInput
  | variableInData
  | collections
  | propertyPaths
  | subQueries
  | unterminatedGroup
  | unsupported (what : Text)
  | unsupportedMany (what : Text)
  | onlyData (form : Text)
  | unexpectedInGroup
  | unknownFunction
  | integerRange
  | tooDeep
  deriving DecidableEq

namespace Fault

def message : Fault → Text
  | emptyBlankLabel => "empty blank node label"
  | invalidLanguageTag => "invalid language tag"
  | invalidNumber => "invalid number"
  | unexpectedCharacter c => "unexpected character '" ++ c :: "'"
  | unterminatedString => "unterminated string"
  | lineBreakInString => "line break in string"
  | danglingEscape => "dangling escape"
  | truncatedEscape => "truncated unicode escape"
  | invalidEscape => "invalid unicode escape"
  | unknownEscape c => "unknown escape '\\" ++ c :: "'"
  | unknownPrefix name => "unknown prefix '" ++ name ++ ":'"
  | unknownForm => "unknown request form"
  | expected what => "expected " ++ what
  | expectedSymbol symbol => "expected '" ++ symbol ++ "'"
  | trailingInput => "unexpected trailing input"
  | variableInData => "variables are not allowed in data"
  | collections => "RDF collections are not supported"
  | propertyPaths => "property paths are not supported"
  | subQueries => "sub-queries are not supported"
  | unterminatedGroup => "unterminated group pattern"
  | unsupported what => what ++ " is not supported"
  | unsupportedMany what => what ++ " are not supported"
  | onlyData form => "only " ++ form ++ " DATA is supported"
  | unexpectedInGroup => "unexpected token in group pattern"
  | unknownFunction => "unknown function"
  | integerRange => "integer out of range"
  | tooDeep => "nesting too deep"

end Fault

/-- What stands where a fault was found. -/
inductive Place where
  | unnamed
  | token (text : Text)
  | finish
  deriving DecidableEq

structure ParseError where
  fault : Fault
  place : Place
  offset : Nat
  deriving DecidableEq

namespace ParseError

def placeText : Place → Text
  | .unnamed => []
  | .token text => " near '" ++ text ++ "'"
  | .finish => " at end of input"

def message (e : ParseError) : Text :=
  e.fault.message ++ placeText e.place ++ " (at offset " ++ Text.ofNat e.offset ++ ")"

end ParseError

end QuadStore.Sparql
