import QuadStore.Sparql.Token
import QuadStore.Term

namespace QuadStore.Sparql

/-- The operators with two operands. -/
inductive Operator where
  | or | and | eq | ne | lt | gt | le | ge | add | sub | mul | div
  deriving DecidableEq

namespace Operator

def symbol : Operator → Symbol
  | or => .either
  | and => .both
  | eq => .equal
  | ne => .notEqual
  | lt => .less
  | gt => .greater
  | le => .atMost
  | ge => .atLeast
  | add => .plus
  | sub => .minus
  | mul => .star
  | div => .slash

end Operator

/-- The functions that are called by a word. -/
inductive Builtin where
  | str | lang | langMatches | datatype | bound | iri | uri | bnode | rand
  | abs | ceil | floor | round | concat | strLen | upper | lower | encodeForUri
  | contains | strStarts | strEnds | strBefore | strAfter | year | month | day
  | hours | minutes | seconds | timezone | tz | now | uuid | strUuid | md5
  | sha1 | sha256 | sha384 | sha512 | coalesce | choose | strLang | strDt | sameTerm
  | isIri | isUri | isBlank | isLiteral | isNumeric | regex | substr | replace
  deriving DecidableEq

namespace Builtin

def all : List Builtin :=
  [str, lang, langMatches, datatype, bound, iri, uri, bnode, rand, abs, ceil, floor, round, concat,
   strLen, upper, lower, encodeForUri, contains, strStarts, strEnds, strBefore, strAfter, year,
   month, day, hours, minutes, seconds, timezone, tz, now, uuid, strUuid, md5, sha1, sha256, sha384,
   sha512, coalesce, choose, strLang, strDt, sameTerm, isIri, isUri, isBlank, isLiteral, isNumeric,
   regex, substr, replace]

def name : Builtin → Text
  | str => "str"
  | lang => "lang"
  | langMatches => "langmatches"
  | datatype => "datatype"
  | bound => "bound"
  | iri => "iri"
  | uri => "uri"
  | bnode => "bnode"
  | rand => "rand"
  | abs => "abs"
  | ceil => "ceil"
  | floor => "floor"
  | round => "round"
  | concat => "concat"
  | strLen => "strlen"
  | upper => "ucase"
  | lower => "lcase"
  | encodeForUri => "encode_for_uri"
  | contains => "contains"
  | strStarts => "strstarts"
  | strEnds => "strends"
  | strBefore => "strbefore"
  | strAfter => "strafter"
  | year => "year"
  | month => "month"
  | day => "day"
  | hours => "hours"
  | minutes => "minutes"
  | seconds => "seconds"
  | timezone => "timezone"
  | tz => "tz"
  | now => "now"
  | uuid => "uuid"
  | strUuid => "struuid"
  | md5 => "md5"
  | sha1 => "sha1"
  | sha256 => "sha256"
  | sha384 => "sha384"
  | sha512 => "sha512"
  | coalesce => "coalesce"
  | choose => "if"
  | strLang => "strlang"
  | strDt => "strdt"
  | sameTerm => "sameterm"
  | isIri => "isiri"
  | isUri => "isuri"
  | isBlank => "isblank"
  | isLiteral => "isliteral"
  | isNumeric => "isnumeric"
  | regex => "regex"
  | substr => "substr"
  | replace => "replace"

def ofName? (word : Text) : Option Builtin := all.find? fun f => f.name = word

end Builtin

mutual

inductive Expression where
  | term (t : Term)
  | binary (op : Operator) (left right : Expression)
  | negation (e : Expression)
  | opposite (e : Expression)
  | member (negated : Bool) (e : Expression) (values : List Expression)
  | builtin (f : Builtin) (arguments : List Expression)
  | call (function : Term) (arguments : List Expression)
  | existence (negated : Bool) (pattern : Operation)

inductive OrderCondition where
  | on (ascending : Bool) (key : Expression)

inductive Operation where
  | bgp (triples : List Quad)
  | join (left right : Operation)
  | leftJoin (left right : Operation) (condition : Option Expression)
  | union (left right : Operation)
  | minus (left right : Operation)
  | graph (name : Term) (input : Operation)
  | filter (condition : Expression) (input : Operation)
  | orderBy (conditions : List OrderCondition) (input : Operation)
  | project (names : List Text) (input : Operation)
  | distinct (input : Operation)
  | reduced (input : Operation)
  | slice (start length : Option Nat) (input : Operation)
  | ask (input : Operation)
  | construct (template : List Quad) (input : Operation)
  | describe (targets : List Term) (input : Operation)

end

instance : Inhabited Expression := ⟨.term .defaultGraph⟩
instance : Inhabited Operation := ⟨.bgp []⟩

namespace Expression

def varName? : Expression → Option Text
  | term (.var name) => some name
  | _ => none

def operands? : Expression → Option (Text × List Expression)
  | binary op left right => some (op.symbol.text, [left, right])
  | negation e => some ("!", [e])
  | opposite e => some ("UMINUS", [e])
  | member negated e values => some ((if negated then "notin" else "in" : Text), e :: values)
  | builtin f arguments => some (f.name, arguments)
  | term _ | call .. | existence .. => none

def conjuncts : Expression → List Expression
  | binary .and left right => left.conjuncts ++ right.conjuncts
  | e => [e]

def disjuncts : Expression → List Expression
  | binary .or left right => left.disjuncts ++ right.disjuncts
  | e => [e]

theorem forall_conjuncts {P : Expression → Prop}
    (both : ∀ left right, P (binary .and left right) ↔ P left ∧ P right) (e : Expression) :
    P e ↔ ∀ a ∈ e.conjuncts, P a := by
  fun_induction conjuncts e with
  | case1 left right ihl ihr => rw [both, ihl, ihr, List.forall_mem_append]
  | case2 => rw [List.forall_mem_singleton]

theorem exists_disjuncts {P : Expression → Prop}
    (either : ∀ left right, P (binary .or left right) ↔ P left ∨ P right) (e : Expression) :
    P e ↔ ∃ a ∈ e.disjuncts, P a := by
  fun_induction disjuncts e with
  | case1 left right ihl ihr => simp only [either, ihl, ihr, List.mem_append, or_and_right, exists_or]
  | case2 => simp

theorem ne_and_of_mem_conjuncts {e a : Expression} (mem : a ∈ e.conjuncts) (left right : Expression) :
    a ≠ binary .and left right := by
  fun_induction conjuncts e with
  | case1 l r ihl ihr =>
    rcases List.mem_append.1 mem with mem | mem
    · exact ihl mem
    · exact ihr mem
  | case2 e single =>
    cases List.mem_singleton.1 mem
    exact single left right

def conjunction? : List Expression → Option Expression
  | [] => none
  | e :: es => some (es.foldl (binary .and) e)

end Expression

def blankMark : Text := "__b"

def shown (t : Term) : List Text :=
  match t with
  | .var name => if blankMark.isPrefixOf name then [] else [name]
  | _ => []

namespace Operation

def name : Operation → Text
  | bgp _ => "bgp"
  | join .. => "join"
  | leftJoin .. => "leftjoin"
  | union .. => "union"
  | minus .. => "minus"
  | graph .. => "graph"
  | filter .. => "filter"
  | orderBy .. => "orderby"
  | project .. => "project"
  | distinct _ => "distinct"
  | reduced _ => "reduced"
  | slice .. => "slice"
  | ask _ => "ask"
  | construct .. => "construct"
  | describe .. => "describe"

def inputs : Operation → List Operation
  | bgp _ => []
  | join left right | leftJoin left right _ | union left right | minus left right => [left, right]
  | graph _ input | filter _ input | orderBy _ input | project _ input | distinct input
  | reduced input | slice _ _ input | ask input | construct _ input | describe _ input => [input]

def triples : Operation → List Quad
  | bgp found => found
  | join left right | leftJoin left right _ | union left right | minus left right =>
    left.triples ++ right.triples
  | graph _ input | filter _ input | orderBy _ input | project _ input | distinct input
  | reduced input | slice _ _ input | ask input | construct _ input | describe _ input =>
    input.triples

/-- The variables in scope, once for each time they stand there. What is taken away by `minus` binds
none. -/
def mentioned : Operation → List Text
  | bgp found => found.flatMap fun q => Position.all.flatMap fun p => shown (q.get p)
  | graph name input => shown name ++ input.mentioned
  | minus left _ => left.mentioned
  | join left right | leftJoin left right _ | union left right => left.mentioned ++ right.mentioned
  | filter _ input | orderBy _ input | project _ input | distinct input | reduced input
  | slice _ _ input | ask input | construct _ input | describe _ input => input.mentioned

def inScope (op : Operation) : List Text := op.mentioned.eraseDups

def joined : Option Operation → Operation → Operation
  | none, right | some (bgp []), right => right
  | some left, bgp [] => left
  | some left, right => join left right

end Operation

end QuadStore.Sparql
