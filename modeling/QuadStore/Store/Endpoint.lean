import QuadStore.Sql.Fragment

namespace QuadStore

inductive EndpointError where
  | empty
  | withoutPath (endpoint : Text)
  | unsupportedScheme (scheme : Text)
  deriving DecidableEq

namespace EndpointError

def message : EndpointError → Text
  | empty => "empty store endpoint"
  | withoutPath endpoint => "sqlite endpoint without a path: " ++ endpoint
  | unsupportedScheme scheme => "unsupported store endpoint scheme '" ++ scheme ++ "'"

end EndpointError

structure Endpoint where
  dialect : Sql.Dialect
  location : Text
  poolSize : Nat := 10
  debug : Bool := false
  deriving DecidableEq

namespace Endpoint

def isSchemePart (c : UInt8) : Bool := Ascii.isAlnum c || ("+.-" : Text).contains c

/-- The word before `://` at the front of a text: a letter, then letters, digits, `+`, `.` and
`-`. -/
def scheme? (s : Text) : Option Text :=
  let scheme := s.takeWhile isSchemePart
  match scheme with
  | c :: _ =>
    if Ascii.isAlpha c && ("://" : Text).isPrefixOf (s.dropWhile isSchemePart) then some scheme
    else none
  | [] => none

def afterSlashes (s : Text) : Text := if ("//" : Text).isPrefixOf s then s.drop 2 else s

def read (s : Text) : Except EndpointError Endpoint :=
  if s = [] then .error .empty
  else if ("postgresql://" : Text).isPrefixOf s || ("postgres://" : Text).isPrefixOf s then
    .ok { dialect := .postgres, location := s }
  else if s = "sqlite::memory:" then .ok { dialect := .sqlite, location := ":memory:" }
  else if ("sqlite:" : Text).isPrefixOf s then
    let path := afterSlashes (s.drop 7)
    if path = [] then .error (.withoutPath s) else .ok { dialect := .sqlite, location := path }
  else match scheme? s with
    | some scheme => .error (.unsupportedScheme scheme)
    | none => .ok { dialect := .sqlite, location := s }

end Endpoint

end QuadStore
