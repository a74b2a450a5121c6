import SuiteOutline.Number.Basic
import SuiteOutline.Value.Basic

/-! Moments: dates with times of day, and seconds since the epoch. -/
namespace SuiteOutline.Moment

/-- The number that ASCII digits spell. -/
def number (digits : List Char) : Nat := ofDigits 10 (digits.map fun c => c.toNat - 0x30)

/-- So many ASCII digits, as a number, and what follows. -/
def digits? (count : Nat) (cs : List Char) : Option (Nat × List Char) :=
  let digits := cs.take count
  if digits.length = count && digits.all Char.isDigit then some (number digits, cs.drop count)
  else none

/-- Two ASCII digits with a value of at most `high`, and what follows. -/
def twoDigits? (high : Nat) (cs : List Char) : Option (List Char) := do
  let (n, rest) ← digits? 2 cs
  if n ≤ high then some rest else none

def after? (c : Char) : List Char → Option (List Char)
  | d :: rest => if d = c then some rest else none
  | [] => none

/-- Nothing, `Z`, or hours and minutes east or west of it. -/
def isZone (cs : List Char) : Bool :=
  match cs with
  | [] | ['Z'] | ['z'] => true
  | sign :: rest =>
    (sign = '+' || sign = '-' || sign = '\u2212') && (twoDigits? 23 rest).any fun rest =>
      twoDigits? 59 ((after? ':' rest).getD rest) = some []

/-- Hours and minutes, perhaps seconds, perhaps a fraction of them, and a zone. -/
def isClock (cs : List Char) : Bool :=
  ((twoDigits? 23 cs).bind (after? ':')).bind (twoDigits? 59) |>.any fun rest =>
    match (after? ':' rest).bind (twoDigits? 59) with
    | none => isZone rest
    | some rest =>
      match (after? '.' rest).or (after? ',' rest) with
      | none => isZone rest
      | some fraction =>
        let digits := fraction.takeWhile Char.isDigit
        !digits.isEmpty && isZone (fraction.drop digits.length)

def isLeapYear (year : Nat) : Bool := year % 4 = 0 && (year % 100 ≠ 0 || year % 400 = 0)

def daysIn (year month : Nat) : Nat :=
  if month = 2 then (if isLeapYear year then 29 else 28)
  else if [4, 6, 9, 11].contains month then 30
  else 31

/-- A day of the calendar, and what follows. The calendar begins with the year one. -/
def day? (cs : List Char) : Option (List Char) := do
  let (year, rest) ← digits? 4 cs
  let (month, rest) ← digits? 2 (← after? '-' rest)
  let (day, rest) ← digits? 2 (← after? '-' rest)
  if 1 ≤ year && 1 ≤ month && month ≤ 12 && 1 ≤ day && day ≤ daysIn year month then some rest
  else none

/-- A day, or a day and a time of day. -/
def isDateTime (cs : List Char) : Bool :=
  (day? cs).any fun rest =>
    match rest with
    | [] => true
    | mark :: rest => (mark = 'T' || mark = 't' || mark = ' ' || mark = '_') && isClock rest

/-- The greatest count that is one of seconds; beyond it, milliseconds are meant. -/
def secondsLimit : Int := 20000000000

/-- The first second of the year one, and the last of the year 9999. -/
def firstSecond : Int := -62135596800
def lastSecond : Int := 253402300799

/-- Whether a count of seconds or milliseconds since the epoch stays inside the calendar. -/
def inCalendar (count : Int) : Bool :=
  let seconds := if count.natAbs ≤ secondsLimit.natAbs then count else count.fdiv 1000
  firstSecond ≤ seconds && seconds ≤ lastSecond

/-- The whole count at or below that which text spells: a sign, digits, perhaps a fraction. There has
to be a digit before the point or after it. -/
def count? (cs : List Char) : Option Int :=
  let (negative, cs) := splitSign cs
  let (whole, rest) := cs.span Char.isDigit
  let fraction := rest.drop 1
  if rest.head?.any (· != '.') || !fraction.all Char.isDigit then none
  else if whole.isEmpty && fraction.isEmpty then none
  else if negative then some (-(number whole : Int) - if fraction.all (· = '0') then 0 else 1)
  else some (number whole)

/-- Whether a value tells a moment. -/
def isMoment : Value → Bool
  | .number (.integer n) => inCalendar n
  | .number (.real x) => x.floor?.any inCalendar
  | .text t =>
    !t.hasSurrogate && (isDateTime t.toChars || (count? t.toChars).any inCalendar)
  | _ => false

end SuiteOutline.Moment
