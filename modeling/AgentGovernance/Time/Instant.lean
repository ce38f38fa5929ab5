/-!
# Instants

An instant is a tick of a scale that starts with 1970 in UTC and on which every minute has 61
seconds of nanoseconds. The last of these seconds is the room for a leap second, so the ticks are in
the order of the instants, and no two instants are written alike.

Dates follow the proleptic Gregorian calendar; the calendar ends with the year 262142, and instants
outside it do not exist. Instants are written as RFC 3339 texts. Years of more than four digits and
years before zero carry a sign.
-/
namespace AgentGovernance

structure Instant where
  ticks : Int
  deriving DecidableEq, Repr, Inhabited

namespace Instant

instance : LT Instant := ⟨fun s t => s.ticks < t.ticks⟩
instance : LE Instant := ⟨fun s t => s.ticks ≤ t.ticks⟩
instance (s t : Instant) : Decidable (s < t) := inferInstanceAs (Decidable (s.ticks < t.ticks))
instance (s t : Instant) : Decidable (s ≤ t) := inferInstanceAs (Decidable (s.ticks ≤ t.ticks))

/-- The later of two instants. -/
def latest (s t : Instant) : Instant := if s < t then t else s

def nanosPerSecond : Int := 1000000000

/-- The nanoseconds of a minute without a leap second. -/
def nanosPerMinute : Int := 60 * nanosPerSecond

def ticksPerMinute : Int := 61 * nanosPerSecond

def minutesPerDay : Int := 1440

/-- The instant a number of nanoseconds behind the start of a minute. -/
def ofMinute (minute nanos : Int) : Instant := ⟨minute * ticksPerMinute + nanos⟩

/-- The minute of an instant, counted from the start of 1970. -/
def minute (t : Instant) : Int := t.ticks / ticksPerMinute

/-- The nanoseconds since the start of the minute. -/
def nanosInMinute (t : Instant) : Int := t.ticks % ticksPerMinute

/-- Whether the instant lies in a leap second. -/
def isLeapSecond (t : Instant) : Bool := nanosPerMinute ≤ t.nanosInMinute

structure Date where
  year : Int
  month : Nat
  day : Nat
  deriving DecidableEq, Repr

/-- Days since the first of March of the year 0, in years that start with March. -/
def dayOfEra (month day : Nat) : Nat :=
  let shifted := if 3 ≤ month then month - 3 else month + 9
  (153 * shifted + 2) / 5 + day - 1

/-- Days from the start of 1970 to a date. -/
def Date.toDays (d : Date) : Int :=
  let y := if d.month ≤ 2 then d.year - 1 else d.year
  365 * y + y / 4 - y / 100 + y / 400 + dayOfEra d.month d.day - 719468

def Date.ofDays (days : Int) : Date :=
  let z := days + 719468
  let era := z / 146097
  let doe := (z % 146097).toNat
  let yoe := (doe - doe / 1460 + doe / 36524 - doe / 146096) / 365
  let doy := doe - (365 * yoe + yoe / 4 - yoe / 100)
  let mp := (5 * doy + 2) / 153
  let day := doy - (153 * mp + 2) / 5 + 1
  let month := if mp < 10 then mp + 3 else mp - 9
  let year := (yoe : Int) + era * 400
  ⟨if month ≤ 2 then year + 1 else year, month, day⟩

def isLeap (year : Int) : Bool := year % 4 = 0 && (year % 100 != 0 || year % 400 = 0)

def daysInMonth (year : Int) (month : Nat) : Nat :=
  if month = 2 then (if isLeap year then 29 else 28)
  else if month = 4 ∨ month = 6 ∨ month = 9 ∨ month = 11 then 30
  else 31

def Date.isValid (d : Date) : Bool :=
  -262143 ≤ d.year && d.year ≤ 262142 && 1 ≤ d.month && d.month ≤ 12 &&
    1 ≤ d.day && d.day ≤ daysInMonth d.year d.month

/-- The first and the last instant of the calendar. -/
def earliest : Instant := ofMinute ((Date.mk (-262143) 1 1).toDays * minutesPerDay) 0

def last : Instant := ⟨(ofMinute (((Date.mk 262142 12 31).toDays + 1) * minutesPerDay) 0).ticks - 1⟩

def checked? (t : Instant) : Option Instant := if earliest ≤ t ∧ t ≤ last then some t else none

/-- The instant after some nanoseconds since 1970, leap seconds not counted. -/
def ofNanos (nanos : Int) : Instant := ofMinute (nanos / nanosPerMinute) (nanos % nanosPerMinute)

/-- Moves an instant, if the result is in the calendar. A leap second counts only for a move that
ends in it or in the second before it: a longer move starts from the second before if it goes
forward, and from the second after if it goes back. -/
def shift? (t : Instant) (nanos : Int) : Option Instant :=
  let counted := t.minute * nanosPerMinute + t.nanosInMinute
  checked? <|
    if !t.isLeapSecond then ofNanos (counted + nanos)
    else if ticksPerMinute ≤ t.nanosInMinute + nanos then
      ofNanos (counted - nanosPerSecond + nanos)
    else if nanos ≤ -nanosPerSecond then ofNanos (counted + nanos)
    else ⟨t.ticks + nanos⟩

def pad (width n : Nat) : List Char :=
  let ds := (toString n).toList
  List.replicate (width - ds.length) '0' ++ ds

/-- How many digits of the second are written. -/
inductive Precision where
  /-- The fewest of 0, 3, 6 and 9 digits that are exact. -/
  | shortest
  | nanoseconds
  deriving DecidableEq, Repr

def fraction (precision : Precision) (nanos : Nat) : List Char :=
  match precision with
  | .nanoseconds => '.' :: pad 9 nanos
  | .shortest =>
      if nanos = 0 then []
      else if nanos % 1000000 = 0 then '.' :: pad 3 (nanos / 1000000)
      else if nanos % 1000 = 0 then '.' :: pad 6 (nanos / 1000)
      else '.' :: pad 9 nanos

def yearText (year : Int) : List Char :=
  if 0 ≤ year ∧ year ≤ 9999 then pad 4 year.toNat
  else (if year < 0 then '-' else '+') :: pad 4 year.natAbs

def dateText (t : Instant) : List Char :=
  let d := Date.ofDays (t.minute / minutesPerDay)
  yearText d.year ++ '-' :: (pad 2 d.month ++ '-' :: pad 2 d.day)

def timeText (precision : Precision) (t : Instant) : List Char :=
  let minute := (t.minute % minutesPerDay).toNat
  let nanos := t.nanosInMinute.toNat
  pad 2 (minute / 60) ++ ':' :: (pad 2 (minute % 60) ++ ':' ::
    (pad 2 (nanos / 1000000000) ++ fraction precision (nanos % 1000000000)))

/-- Date and time with the zone written in a given way. -/
def textWith (precision : Precision) (zone : String) (t : Instant) : String :=
  String.ofList (t.dateText ++ 'T' :: (t.timeText precision ++ zone.toList))

/-- The text in values and answers. -/
def text (t : Instant) : String := t.textWith .shortest "Z"

/-- The text that hashes of memory nodes and trace entries cover. -/
def preciseText (t : Instant) : String := t.textWith .nanoseconds "Z"

/-- The text that hashes of agreements cover. -/
def offsetText (t : Instant) : String := t.textWith .shortest "+00:00"

/-- The text in sentences. -/
def plainText (t : Instant) : String :=
  String.ofList (t.dateText ++ ' ' :: t.timeText .shortest) ++ " UTC"

end Instant

end AgentGovernance
