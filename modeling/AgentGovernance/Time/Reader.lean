import AgentGovernance.Time.Instant

/-!
# Reading instants

An instant is read from a date, a separator, a time and an offset. Blanks may surround every part;
a month, day, hour, minute or second has one or two digits and a year up to four, or any number of
digits after a sign. Every minute may have a leap second, which has the number 60. Digits of the
second beyond the ninth are dropped. The offset is `Z`, `UTC` or signed hours and minutes, and the
result is the instant in UTC.
-/
namespace AgentGovernance.Instant.Reader

/-- The blanks of Unicode. -/
def isBlank (c : Char) : Bool :=
  let n := c.toNat
  (9 ≤ n && n ≤ 13) || n = 32 || n = 0x85 || n = 0xA0 || n = 0x1680 || (0x2000 ≤ n && n ≤ 0x200A) ||
    n = 0x2028 || n = 0x2029 || n = 0x202F || n = 0x205F || n = 0x3000

def skip (cs : List Char) : List Char := cs.dropWhile isBlank

def isDigit (c : Char) : Bool := '0' ≤ c && c ≤ '9'

def valueOf (ds : List Char) : Nat := ds.foldl (fun n d => n * 10 + (d.toNat - 48)) 0

/-- A number of at least one and at most `width` digits. -/
def digits? (width : Nat) (cs : List Char) : Option (Nat × List Char) :=
  let ds := (cs.take width).takeWhile isDigit
  if ds.isEmpty then none else some (valueOf ds, cs.drop ds.length)

def number? (cs : List Char) : Option (Nat × List Char) := digits? 2 (skip cs)

def year? (cs : List Char) : Option (Int × List Char) :=
  match skip cs with
  | '-' :: r => (digits? r.length r).map fun (n, r) => (-(n : Int), r)
  | '+' :: r => (digits? r.length r).map fun (n, r) => ((n : Int), r)
  | r => (digits? 4 r).map fun (n, r) => ((n : Int), r)

def literal? (c : Char) (cs : List Char) : Option (List Char) :=
  match skip cs with
  | d :: r => if c = d then some r else none
  | [] => none

def separator? : List Char → Option (List Char)
  | c :: r => if c = 'T' ∨ c = 't' ∨ c = ' ' then some r else none
  | [] => none

/-- Nanoseconds after a point, if there is one. -/
def nanos? : List Char → Option (Nat × List Char)
  | '.' :: r =>
      let ds := r.takeWhile isDigit
      if ds.isEmpty then none
      else
        let kept := ds.take 9
        some (valueOf kept * Nat.pow 10 (9 - kept.length), r.dropWhile isDigit)
  | r => some (0, r)

def isSeparator (c : Char) : Bool := c = ':' || isBlank c

def signedOffset? (negative : Bool) : List Char → Option (Int × List Char)
  | h1 :: h2 :: r =>
      match r.dropWhile isSeparator with
      | m1 :: m2 :: r =>
          if isDigit h1 && isDigit h2 && isDigit m1 && isDigit m2 && m1 ≤ '5' then
            let minutes : Int := valueOf [h1, h2] * 60 + valueOf [m1, m2]
            some (if negative then -minutes else minutes, r)
          else none
      | _ => none
  | _ => none

/-- Minutes east of UTC. -/
def offset? (cs : List Char) : Option (Int × List Char) :=
  match cs with
  | 'Z' :: r => some (0, r)
  | 'z' :: r => some (0, r)
  | a :: b :: c :: r =>
      if [a, b, c].map Char.toUpper = ['U', 'T', 'C'] then some (0, r)
      else if a = '+' then signedOffset? false (b :: c :: r)
      else if a = '-' ∨ a.toNat = 0x2212 then signedOffset? true (b :: c :: r)
      else none
  | _ => none

def read? (cs : List Char) : Option (Instant × List Char) := do
  let (year, cs) ← year? cs
  let (month, cs) ← number? (← literal? '-' cs)
  let (day, cs) ← number? (← literal? '-' cs)
  let (hour, cs) ← number? (← separator? cs)
  let (minute, cs) ← number? (← literal? ':' cs)
  let (second, cs) ← number? (← literal? ':' cs)
  let (nanos, cs) ← nanos? cs
  let (offset, cs) ← offset? (skip cs)
  let date : Date := ⟨year, month, day⟩
  if date.isValid ∧ hour < 24 ∧ minute < 60 ∧ second ≤ 60 ∧ offset.natAbs < 1440 then
    let minutes : Int := date.toDays * minutesPerDay + hour * 60 + minute - offset
    let t ← checked? (ofMinute minutes (second * nanosPerSecond + nanos))
    some (t, cs)
  else none

end AgentGovernance.Instant.Reader

namespace AgentGovernance.Instant

def parse? (text : String) : Option Instant :=
  match Reader.read? text.toList with
  | some (t, rest) => if (Reader.skip rest).isEmpty then some t else none
  | none => none

end AgentGovernance.Instant
