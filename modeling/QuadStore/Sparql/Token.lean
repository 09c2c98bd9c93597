import QuadStore.Sparql.Error
import QuadStore.Text.Utf8

namespace QuadStore.Sparql

inductive Symbol where
  | both | either | notEqual | atMost | atLeast | carets
  | openBrace | closeBrace | openParen | closeParen | openBracket | closeBracket
  | dot | comma | semicolon | star | equal | less | greater | bang
  | plus | minus | slash | bar | caret | question
  deriving DecidableEq

namespace Symbol

def text : Symbol → Text
  | both => "&&"
  | either => "||"
  | notEqual => "!="
  | atMost => "<="
  | atLeast => ">="
  | carets => "^^"
  | openBrace => "\x7b"
  | closeBrace => "\x7d"
  | openParen => "("
  | closeParen => ")"
  | openBracket => "["
  | closeBracket => "]"
  | dot => "."
  | comma => ","
  | semicolon => ";"
  | star => "*"
  | equal => "="
  | less => "<"
  | greater => ">"
  | bang => "!"
  | plus => "+"
  | minus => "-"
  | slash => "/"
  | bar => "|"
  | caret => "^"
  | question => "?"

def all : List Symbol :=
  [both, either, notEqual, atMost, atLeast, carets, openBrace, closeBrace, openParen, closeParen,
   openBracket, closeBracket, dot, comma, semicolon, star, equal, less, greater, bang, plus, minus,
   slash, bar, caret, question]

def scan? (s : Text) : Option Symbol := all.find? fun x => x.text.isPrefixOf s

end Symbol

inductive Lexeme where
  | iri (value : Text)
  /-- A name with a colon, as it is written. -/
  | prefixed (name : Text)
  | blank (label : Text)
  | var (name : Text)
  | string (value : Text)
  | tag (language : Text)
  | integer (digits : Text)
  | decimal (digits : Text)
  | double (digits : Text)
  | word (name : Text)
  | symbol (s : Symbol)
  deriving DecidableEq

namespace Lexeme

def text : Lexeme → Text
  | iri s | prefixed s | blank s | var s | string s | tag s | integer s | decimal s | double s
  | word s => s
  | symbol s => s.text

end Lexeme

structure Token where
  lexeme : Lexeme
  offset : Nat
  deriving DecidableEq

namespace Token

/-- Letters, digits, the underscore and all bytes of longer characters. -/
def isNamePart (c : UInt8) : Bool := Ascii.isAlnum c || c = Text.byte '_' || 0x80 ≤ c

/-- The text from the next token on; in a comment, everything up to the line break is skipped. -/
def skipBlanks : Bool → Text → Text
  | _, [] => []
  | true, c :: rest => skipBlanks (c ≠ 10) rest
  | false, c :: rest =>
    if Ascii.isSpace c then skipBlanks false rest
    else if c = Text.byte '#' then skipBlanks true rest
    else c :: rest

def iriStops : Text := "<\"\x7b\x7d|^`"

/-- The rest of an IRI up to its closing bracket; none if a byte before it cannot be in an IRI. -/
def iri? : Text → Option (Text × Text)
  | [] => none
  | c :: rest =>
    if c = Text.byte '>' then some ([], rest)
    else if c ≤ 0x20 || iriStops.contains c then none
    else (iri? rest).map fun (value, after) => (c :: value, after)

def dropDots (s : Text) : Text := (s.reverse.dropWhile (· = Text.byte '.')).reverse

def label (s : Text) : Text :=
  dropDots (s.takeWhile fun c => isNamePart c || c = Text.byte '.' || c = Text.byte '-')

/-- The letters after `@`, and then any number of parts behind hyphens. -/
def tagParts : Nat → Text → Text
  | 0, _ => []
  | fuel + 1, s =>
    match s with
    | c :: rest =>
      let part := rest.takeWhile Ascii.isAlnum
      if c = Text.byte '-' && part ≠ [] then
        c :: part ++ tagParts fuel (rest.dropWhile Ascii.isAlnum)
      else []
    | [] => []

def tag (s : Text) : Text :=
  let first := s.takeWhile Ascii.isAlpha
  if first = [] then [] else first ++ tagParts s.length (s.dropWhile Ascii.isAlpha)

def isPrefixPart (c : UInt8) : Bool :=
  Ascii.isAlnum c || c = Text.byte '_' || c = Text.byte '.' || c = Text.byte '-'

def isLocalPart (c : UInt8) : Bool := isPrefixPart c || c = Text.byte ':' || c = Text.byte '%'

/-- The local part of a prefixed name; a backslash takes any byte of the line along. -/
def localPart : Text → Text
  | [] => []
  | c :: rest =>
    if isLocalPart c then c :: localPart rest
    else if c = Text.byte '\\' then
      match rest with
      | d :: after => if d = 10 || d = 13 then [] else c :: d :: localPart after
      | [] => []
    else []

/-- A name without the dots at its end that are not behind a backslash, backwards. -/
def dropStops : Text → Text
  | [] => []
  | c :: rest =>
    if c = Text.byte '.' && rest.head? ≠ some (Text.byte '\\') then dropStops rest else c :: rest

def prefixedName? (s : Text) : Option Text :=
  let front := match s with
    | c :: _ => if Ascii.isAlpha c then s.takeWhile isPrefixPart else []
    | [] => []
  match s.drop front.length with
  | c :: rest =>
    if c = Text.byte ':' then
      some (dropStops (front ++ c :: localPart rest).reverse).reverse
    else none
  | [] => none

def exponent (s : Text) : Text :=
  match s with
  | [] => []
  | c :: rest =>
    if Ascii.toLower c = Text.byte 'e' then
      let (sign, body) : Text × Text := match rest with
        | d :: after => if d = Text.byte '+' || d = Text.byte '-' then ([d], after) else ([], rest)
        | [] => ([], [])
      let digits := body.takeWhile Ascii.isDigit
      if digits = [] then [] else c :: sign ++ digits
    else []

/-- The longest number at the front of a text: with an exponent, with a fraction, or whole. -/
def number? (s : Text) : Option Lexeme :=
  let whole := s.takeWhile Ascii.isDigit
  let rest := s.dropWhile Ascii.isDigit
  let dotted := match rest with
    | c :: after => if c = Text.byte '.' then c :: after.takeWhile Ascii.isDigit else []
    | [] => []
  let mark := exponent (rest.drop dotted.length)
  let hasDigits := whole ≠ [] || 2 ≤ dotted.length
  if hasDigits && mark ≠ [] then some (.double (whole ++ dotted ++ mark))
  else if 2 ≤ dotted.length then some (.decimal (whole ++ dotted))
  else if whole ≠ [] then some (.integer whole)
  else none

def escapes : List (UInt8 × UInt8) :=
  [(Text.byte 't', 9), (Text.byte 'n', 10), (Text.byte 'r', 13), (Text.byte 'b', 8),
   (Text.byte 'f', 12), (Text.byte '"', Text.byte '"'), (Text.byte '\'', Text.byte '\''),
   (Text.byte '\\', Text.byte '\\')]

def codePoint? (width : Nat) (s : Text) : Except Fault (Text × Text) :=
  if s.length < width then .error .truncatedEscape
  else
    let digits := s.take width
    if digits.all Ascii.isHexDigit then .ok (Utf8.encode (Text.toNat 16 digits), s.drop width)
    else .error .invalidEscape

def escape? : Text → Except Fault (Text × Text)
  | [] => .error .danglingEscape
  | c :: rest =>
    match escapes.lookup c with
    | some b => .ok ([b], rest)
    | none =>
      if c = Text.byte 'u' then codePoint? 4 rest
      else if c = Text.byte 'U' then codePoint? 8 rest
      else .error (.unknownEscape c)

/-- The rest of a string and what follows it, or a fault and the text from there on; `start` is the
text from the opening quote on, and the fuel is the length of the text. -/
def string? (closing start : Text) : Nat → Text → Except (Fault × Text) (Text × Text)
  | _, [] => .error (.unterminatedString, start)
  | 0, _ => .error (.unterminatedString, start)
  | fuel + 1, c :: rest =>
    if c = Text.byte '\\' then
      match escape? rest with
      | .error fault => .error (fault, c :: rest)
      | .ok (bytes, after) =>
        (string? closing start fuel after).map fun (value, last) => (bytes ++ value, last)
    else if closing.isPrefixOf (c :: rest) then .ok ([], (c :: rest).drop closing.length)
    else if closing.length = 1 && (c = 10 || c = 13) then .error (.lineBreakInString, c :: rest)
    else (string? closing start fuel rest).map fun (value, last) => (c :: value, last)

def quoted? (quote : UInt8) (s : Text) : Except (Fault × Text) (Text × Text) :=
  let long := [quote, quote, quote]
  let closing := if long.isPrefixOf s then long else [quote]
  string? closing s s.length (s.drop closing.length)

def isPart (test : UInt8 → Bool) : Text → Bool
  | c :: _ => test c
  | [] => false

/-- The lexeme that begins with a byte, and the text after it; or a fault and the text from there
on. -/
def lexeme? (c : UInt8) (rest : Text) : Except (Fault × Text) (Lexeme × Text) :=
  let s := c :: rest
  let opened := if c = Text.byte '<' then iri? rest else none
  match opened with
  | some (value, after) => .ok (.iri value, after)
  | none =>
  if (c = Text.byte '?' || c = Text.byte '$') && isPart isNamePart rest then
    .ok (.var (rest.takeWhile isNamePart), rest.dropWhile isNamePart)
  else if c = Text.byte '"' || c = Text.byte '\'' then
    (quoted? c s).map fun (value, after) => (.string value, after)
  else if c = Text.byte '_' && isPart (· = Text.byte ':') rest then
    let name := label (rest.drop 1)
    if name = [] then .error (.emptyBlankLabel, s)
    else .ok (.blank name, rest.drop (1 + name.length))
  else if c = Text.byte '@' then
    let language := tag rest
    if language = [] then .error (.invalidLanguageTag, s)
    else .ok (.tag language, rest.drop language.length)
  else if Ascii.isDigit c || (c = Text.byte '.' && isPart Ascii.isDigit rest) then
    match number? s with
    | some n => .ok (n, s.drop n.text.length)
    | none => .error (.invalidNumber, s)
  else if Ascii.isAlpha c || c = Text.byte ':' then
    match prefixedName? s with
    | some name => .ok (.prefixed name, s.drop name.length)
    | none =>
      let isWordPart := fun c => Ascii.isAlnum c || c = Text.byte '_'
      .ok (.word (s.takeWhile isWordPart), s.dropWhile isWordPart)
  else match Symbol.scan? s with
    | some symbol => .ok (.symbol symbol, s.drop symbol.text.length)
    | none => .error (.unexpectedCharacter c, s)

/-- The tokens of the rest of a text of a given length; the fuel is the length of the rest. -/
def scanFrom (total : Nat) : Nat → Text → Except ParseError (List Token)
  | 0, _ => .ok []
  | fuel + 1, s =>
    match skipBlanks false s with
    | [] => .ok []
    | c :: rest =>
      match lexeme? c rest with
      | .error (fault, found) => .error ⟨fault, .unnamed, total - found.length⟩
      | .ok (lexeme, after) =>
        (scanFrom total fuel after).map (⟨lexeme, total - (rest.length + 1)⟩ :: ·)

def scan (s : Text) : Except ParseError (List Token) := scanFrom s.length s.length s

end Token

end QuadStore.Sparql
