import AgentGovernance.Time.Reader

/-!
# Spans of time

A span is a number of nanoseconds whose whole seconds fit a 64-bit word. Its text is a list of
numbers with units, largest first: years of 365.25 days and months of 30.44 days, then days down to
nanoseconds. Weeks can be read and are not written.

A number read may have a fraction where the unit makes it whole: in nanoseconds below an hour, in
seconds from an hour on. Sums are kept as seconds and nanoseconds, both in 64-bit words; what does
not fit is refused.
-/
namespace AgentGovernance

structure Span where
  nanos : Nat
  deriving DecidableEq, Repr, Inhabited

namespace Span

def ofSeconds (n : Nat) : Span := ⟨n * 1000000000⟩

def seconds (s : Span) : Nat := s.nanos / 1000000000

def subsecond (s : Span) : Nat := s.nanos % 1000000000

/-- Spans that clocks can add: at most `2 ^ 63 - 1` milliseconds. -/
def isAddable (s : Span) : Bool := s.nanos ≤ ((1 <<< 63) - 1) * 1000000

/-- Drops the zeros at the end of a fraction. -/
def trimZeros (ds : List Char) : List Char := (ds.reverse.dropWhile (· = '0')).reverse

/-- A value in units of `10 ^ digits` with its fraction. -/
def decimal (value digits : Nat) (unit : String) : String :=
  let fraction := trimZeros (Instant.pad digits (value % Nat.pow 10 digits))
  toString (value / Nat.pow 10 digits) ++
    (if fraction.isEmpty then "" else "." ++ String.ofList fraction) ++ unit

/-- The text in sentences: one decimal number in the largest unit that is not zero. -/
def decimalText (s : Span) : String :=
  if 1000000000 ≤ s.nanos then decimal s.nanos 9 "s"
  else if 1000000 ≤ s.nanos then decimal s.nanos 6 "ms"
  else if 1000 ≤ s.nanos then decimal s.nanos 3 "µs"
  else decimal s.nanos 0 "ns"

inductive Scale where
  | nanosecond
  | microsecond
  | millisecond
  | second
  | minute
  | hour
  | day
  | week
  | month
  | year
  deriving DecidableEq, Repr

/-- The names a unit is read under. -/
def Scale.names : Scale → List String
  | .nanosecond => ["nanos", "nsec", "ns"]
  | .microsecond => ["usec", "us", "µs"]
  | .millisecond => ["millis", "msec", "ms"]
  | .second => ["seconds", "second", "secs", "sec", "s"]
  | .minute => ["minutes", "minute", "mins", "min", "m"]
  | .hour => ["hours", "hour", "hrs", "hr", "h"]
  | .day => ["days", "day", "d"]
  | .week => ["weeks", "week", "wks", "wk", "w"]
  | .month => ["months", "month", "M"]
  | .year => ["years", "year", "yrs", "yr", "y"]

def Scale.all : List Scale :=
  [.nanosecond, .microsecond, .millisecond, .second, .minute, .hour, .day, .week, .month, .year]

def Scale.ofName? (name : String) : Option Scale := Scale.all.find? (·.names.contains name)

/-- The length of a unit in seconds, from an hour on a whole number is counted in them. -/
def Scale.wholeSeconds : Scale → Nat
  | .second => 1
  | .minute => 60
  | .hour => 3600
  | .day => 86400
  | .week => 604800
  | .month => 2630016
  | .year => 31557600
  | _ => 0

/-- The length of a unit in nanoseconds where fractions are counted in them. -/
def Scale.fractionNanos : Scale → Nat
  | .microsecond => 1000
  | .millisecond => 1000000
  | .second => 1000000000
  | .minute => 60000000000
  | _ => 0

def wordLimit : Nat := 1 <<< 64

def word? (n : Nat) : Option Nat := if n < wordLimit then some n else none

/-- Adds seconds and nanoseconds to a span. -/
def add? (s : Span) (seconds nanos : Nat) : Option Span := do
  let nanos ← word? (s.subsecond + nanos)
  let seconds ← word? (seconds + nanos / 1000000000)
  let seconds ← word? (s.seconds + seconds)
  some ⟨seconds * 1000000000 + nanos % 1000000000⟩

/-- Adds a whole number of units. -/
def addWhole? (s : Span) (unit : Scale) (n : Nat) : Option Span := do
  match unit with
  | .nanosecond => s.add? 0 n
  | .microsecond => s.add? 0 (← word? (n * 1000))
  | .millisecond => s.add? 0 (← word? (n * 1000000))
  | _ => s.add? (← word? (n * unit.wholeSeconds)) 0

/-- Adds the fraction `n / d` of a unit, if it comes out whole. -/
def addFraction? (s : Span) (unit : Scale) (n d : Nat) : Option Span := do
  let share? (scale : Nat) : Option Nat := do
    let product ← word? (n * scale)
    if product % d = 0 then some (product / d) else none
  if unit = .nanosecond then none
  else if unit.fractionNanos ≠ 0 then s.add? 0 (← share? unit.fractionNanos)
  else s.add? (← share? unit.wholeSeconds) 0

def isLetter (c : Char) : Bool := ('a' ≤ c && c ≤ 'z') || ('A' ≤ c && c ≤ 'Z') || c = 'µ'

open Instant.Reader (isBlank isDigit)

/-- Where the reader of a span stands. -/
inductive Stage where
  /-- Before the first digit of a number. -/
  | start
  /-- In the whole part of a number. -/
  | whole (n : Nat)
  /-- In its fraction. -/
  | fraction (n numerator denominator : Nat)
  /-- In the unit of a number with a fraction, if it has one. -/
  | unit (n : Nat) (fraction : Option (Nat × Nat)) (letters : List Char)
  deriving Repr

structure Reading where
  sum : Span := ⟨0⟩
  stage : Stage := .start
  deriving Repr

/-- Adds a number once its unit is complete. -/
def Reading.close? (sum : Span) (n : Nat) (fraction : Option (Nat × Nat)) (letters : List Char) :
    Option Span := do
  let unit ← Scale.ofName? (String.ofList letters.reverse)
  let sum ← sum.addWhole? unit n
  match fraction with
  | none => some sum
  | some (numerator, denominator) => sum.addFraction? unit numerator denominator

/-- One character. Blanks may stand inside a number and end a unit; a digit ends a unit too. -/
def Reading.step? (r : Reading) (c : Char) : Option Reading :=
  let value := c.toNat - 48
  match r.stage with
  | .start =>
      if isDigit c then some { r with stage := .whole value }
      else if isBlank c then some r
      else none
  | .whole n =>
      if isDigit c then (word? (n * 10 + value)).map fun n => { r with stage := .whole n }
      else if isBlank c then some r
      else if isLetter c then some { r with stage := .unit n none [c] }
      else if c = '.' then some { r with stage := .fraction n 0 1 }
      else none
  | .fraction n numerator denominator =>
      if isDigit c then do
        let denominator ← word? (denominator * 10)
        let numerator ← word? (numerator * 10 + value)
        some { r with stage := .fraction n numerator denominator }
      else if isBlank c then some r
      else if isLetter c ∧ denominator ≠ 1 then
        some { r with stage := .unit n (some (numerator, denominator)) [c] }
      else none
  | .unit n fraction letters =>
      if isLetter c then some { r with stage := .unit n fraction (c :: letters) }
      else if isDigit c then do
        let sum ← close? r.sum n fraction letters
        some { sum, stage := .whole value }
      else if isBlank c then do
        let sum ← close? r.sum n fraction letters
        some { sum, stage := .start }
      else none

/-- The end of the text has to complete a number. -/
def Reading.finish? (r : Reading) : Option Span :=
  match r.stage with
  | .unit n fraction letters => close? r.sum n fraction letters
  | _ => none

/-- A trailing blank is no number, so a text may end in blanks after a unit only. -/
def parse? (text : String) : Option Span :=
  if text = "0" then some ⟨0⟩
  else
    let cs := text.toList
    let body := (cs.reverse.dropWhile isBlank).reverse
    match body.foldlM Reading.step? {} with
    | some r => r.finish?
    | none => none

def plural (n : Nat) (name : String) : List String :=
  if n = 0 then [] else [toString n ++ name ++ (if n = 1 then "" else "s")]

def single (n : Nat) (name : String) : List String :=
  if n = 0 then [] else [toString n ++ name]

/-- The text in manifests. -/
def text (s : Span) : String :=
  if s.nanos = 0 then "0s"
  else
    let ofYear := s.seconds % 31557600
    let ofMonth := ofYear % 2630016
    let ofDay := ofMonth % 86400
    let parts :=
      plural (s.seconds / 31557600) "year" ++ plural (ofYear / 2630016) "month" ++
      plural (ofMonth / 86400) "day" ++ single (ofDay / 3600) "h" ++ single (ofDay / 60 % 60) "m" ++
      single (ofDay % 60) "s" ++ single (s.subsecond / 1000000) "ms" ++
      single (s.subsecond / 1000 % 1000) "us" ++ single (s.subsecond % 1000) "ns"
    " ".intercalate parts

end Span

end AgentGovernance
