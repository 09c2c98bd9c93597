import QuadStore.Regex.ByteSet

namespace QuadStore

inductive Regex where
  | empty
  | one (set : Regex.ByteSet)
  | start
  | finish
  | boundary (negated : Bool)
  | back (group : Nat)
  /-- A group; one with an index keeps what it matched. -/
  | group (index : Option Nat) (body : Regex)
  | look (negated : Bool) (body : Regex)
  | seq (first second : Regex)
  | alt (first second : Regex)
  | loop (body : Regex) (least : Nat) (most : Option Nat) (lazy : Bool)
  deriving DecidableEq, Inhabited

namespace Regex

/-- A place in a text, with the texts that groups have matched, the latest first. -/
structure Cursor where
  previous : Option UInt8
  rest : Text
  captures : List (Nat × Text)

abbrev Matcher := Cursor → (Cursor → Option Cursor) → Option Cursor

namespace Cursor

def advance (c : Cursor) (t : Text) : Cursor :=
  { c with previous := t.getLast?.or c.previous, rest := c.rest.drop t.length }

def upTo (c d : Cursor) : Text := c.rest.take (c.rest.length - d.rest.length)

def isWord (c : UInt8) : Bool := ByteClass.word.contains c

def atBoundary (c : Cursor) : Bool :=
  (match c.previous with
    | some b => isWord b
    | none => false) !=
  match c.rest with
    | b :: _ => isWord b
    | [] => false

end Cursor

def times (m : Matcher) : Nat → Matcher
  | 0 => fun c k => k c
  | n + 1 => fun c k => m c fun d => times m n d k

/-- Goes on after none, or once more first; the greedy way tries once more first. -/
def choose (lazy : Bool) (once stop : Unit → Option Cursor) : Option Cursor :=
  if lazy then stop () <|> once () else once () <|> stop ()

def upTo (m : Matcher) (lazy : Bool) : Nat → Matcher
  | 0 => fun c k => k c
  | n + 1 => fun c k => choose lazy (fun _ => m c fun d => upTo m lazy n d k) fun _ => k c

/-- Any number of times. At one place the body is tried at most twice in a row; `place` is where it
was tried last, by the length of the rest, and `tries` how often. -/
def star (m : Matcher) (lazy : Bool) : Nat → Nat → Nat → Matcher
  | 0, _, _ => fun c k => k c
  | fuel + 1, place, tries => fun c k =>
    let here := c.rest.length
    let next := if place = here then tries + 1 else 1
    choose lazy
      (fun _ => if next ≤ 2 then m c fun d => star m lazy fuel here next d k else none)
      fun _ => k c

/-- Any number of times from a place on: twice at each of the places that are left. -/
def starting (m : Matcher) (lazy : Bool) : Matcher := fun c k =>
  star m lazy (2 * (c.rest.length + 1)) c.rest.length 0 c k

def run : Regex → Matcher
  | empty => fun c k => k c
  | one set => fun c k =>
    match c.rest with
    | b :: _ => if set.contains b then k (c.advance [b]) else none
    | [] => none
  | start => fun c k => if c.previous = none then k c else none
  | finish => fun c k => if c.rest = [] then k c else none
  | boundary negated => fun c k => if c.atBoundary != negated then k c else none
  | back n => fun c k =>
    match c.captures.lookup n with
    | some t => if t.isPrefixOf c.rest then k (c.advance t) else none
    | none => none
  | group none r => run r
  | group (some n) r => fun c k =>
    run r c fun d => k { d with captures := (n, c.upTo d) :: d.captures }
  | look false r => fun c k =>
    match run r { c with previous := none } some with
    | some d => k { c with captures := d.captures }
    | none => none
  | look true r => fun c k =>
    match run r { c with previous := none } some with
    | some _ => none
    | none => k c
  | seq a b => fun c k => run a c fun d => run b d k
  | alt a b => fun c k => run a c k <|> run b c k
  | loop r least most lazy => fun c k =>
    times (run r) least c fun d =>
      match most with
      | none => starting (run r) lazy d k
      | some most => upTo (run r) lazy (most - least) d k

def matchesAt (r : Regex) (previous : Option UInt8) (t : Text) : Bool :=
  (r.run ⟨previous, t, []⟩ some).isSome

def searchFrom (r : Regex) (previous : Option UInt8) : Text → Bool
  | [] => r.matchesAt previous []
  | b :: rest => r.matchesAt previous (b :: rest) || searchFrom r (some b) rest

def search (r : Regex) (t : Text) : Bool := r.searchFrom none t

end Regex

end QuadStore
