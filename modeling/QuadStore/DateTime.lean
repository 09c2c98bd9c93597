import QuadStore.Binary.Reading

namespace QuadStore

structure DateTime where
  year : Nat
  month : Nat
  day : Nat
  hour : Nat
  minute : Nat
  second : Nat
  /-- The digits after the point; without a point there are none. -/
  fraction : Text
  /-- Minutes ahead of universal time. -/
  offset : Int
  deriving DecidableEq

namespace DateTime

def isLeap (year : Nat) : Bool := year % 4 = 0 && (year % 100 ≠ 0 || year % 400 = 0)

def monthLengths (year : Nat) : List Nat :=
  [31, if isLeap year then 29 else 28, 31, 30, 31, 30, 31, 31, 30, 31, 30, 31]

/-- Days from the first day of year 1 to the first day of a later year. -/
def daysBeforeYear (year : Nat) : Nat :=
  let y := year - 1
  365 * y + y / 4 - y / 100 + y / 400

def dayNumber (year month day : Nat) : Nat :=
  daysBeforeYear year + ((monthLengths year).take (month - 1)).foldl (· + ·) 0 + (day - 1)

def daysSinceEpoch (d : DateTime) : Int := dayNumber d.year d.month d.day - dayNumber 1970 1 1

/-- The date exists in the years 1400 to 9999, and the time is one of the day. -/
def isValid (d : DateTime) : Bool :=
  1400 ≤ d.year && d.year ≤ 9999 && 1 ≤ d.month && d.month ≤ 12 && 1 ≤ d.day &&
    d.day ≤ (monthLengths d.year).getD (d.month - 1) 0 &&
    d.hour ≤ 24 && d.minute ≤ 59 && d.second ≤ 60

def fractionMillis (digits : Text) : Int :=
  if digits = [] then 0
  else ((Binary.ofText (Text.byte '.' :: digits)).scale 1000).floor?.getD 0

def millis? (d : DateTime) : Option Int :=
  if d.isValid then
    some (d.daysSinceEpoch * 86400000 + (d.hour * 3600 + d.minute * 60 + d.second : Nat) * 1000 +
      fractionMillis d.fraction - d.offset * 60000)
  else none

def byte? (c : Char) : Text → Option Text
  | b :: rest => if b = Text.byte c then some rest else none
  | [] => none

def twoDigits? : Text → Option (Nat × Text)
  | a :: b :: rest =>
    if Ascii.isDigit a && Ascii.isDigit b then some (Text.toNat 10 [a, b], rest) else none
  | _ => none

/-- Four digits or more; a year before the first one is read as year 0, which is out of range. -/
def year? (s : Text) : Option (Nat × Text) :=
  let (negative, body) := match byte? '-' s with
    | some rest => (true, rest)
    | none => (false, s)
  let digits := body.takeWhile Ascii.isDigit
  if digits.length < 4 then none
  else some (if negative then 0 else Text.toNat 10 digits, body.dropWhile Ascii.isDigit)

def fraction? (s : Text) : Option (Text × Text) :=
  match byte? '.' s with
  | none => some ([], s)
  | some rest =>
    let digits := rest.takeWhile Ascii.isDigit
    if digits = [] then none else some (digits, rest.dropWhile Ascii.isDigit)

def zone? (s : Text) : Option (Int × Text) :=
  match s with
  | [] => some (0, s)
  | c :: rest =>
    if c = Text.byte 'Z' then some (0, rest)
    else if c = Text.byte '+' || c = Text.byte '-' then do
      let (hours, rest) ← twoDigits? rest
      let rest ← byte? ':' rest
      let (minutes, rest) ← twoDigits? rest
      let n : Int := (hours * 60 + minutes : Nat)
      return (if c = Text.byte '+' then n else -n, rest)
    else some (0, s)

/-- The date and time that makes up a whole text, blanks around it apart. -/
def read? (s : Text) : Option DateTime := do
  let (year, s) ← year? (s.dropWhile Ascii.isSpace)
  let (month, s) ← byte? '-' s >>= twoDigits?
  let (day, s) ← byte? '-' s >>= twoDigits?
  let (hour, s) ← byte? 'T' s >>= twoDigits?
  let (minute, s) ← byte? ':' s >>= twoDigits?
  let (second, s) ← byte? ':' s >>= twoDigits?
  let (fraction, s) ← fraction? s
  let (offset, s) ← zone? s
  if s.dropWhile Ascii.isSpace = [] then
    some { year, month, day, hour, minute, second, fraction, offset }
  else none

/-- Milliseconds of a text since the start of 1970; none if it is no date of the calendar. -/
def millisOf? (s : Text) : Option Int := read? s >>= millis?

end DateTime

end QuadStore
