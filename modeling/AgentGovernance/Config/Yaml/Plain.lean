import AgentGovernance.Digits
import AgentGovernance.Number

/-!
# Plain scalars

What the text of an unquoted scalar may stand for besides itself: nothing, a truth value or a
number. Integers are written in base 10, or in base 16, 8 or 2 behind a mark; a row of digits that
starts with a superfluous zero is no number.
-/
namespace AgentGovernance

namespace Config.Yaml.Plain

/-- The words for nothing. -/
def isNullWord (s : String) : Bool := ["null", "Null", "NULL", "~"].contains s

def isNull (s : String) : Bool := s = "" || isNullWord s

def bool? (s : String) : Option Bool :=
  if ["true", "True", "TRUE"].contains s then some true
  else if ["false", "False", "FALSE"].contains s then some false
  else none

/-- An integer by the width it takes. -/
inductive Integer where
  /-- From zero up to below `2 ^ 64`, without a minus. -/
  | word (n : Nat)
  /-- With a minus, from `-2 ^ 63` on. -/
  | negative
  /-- One that 128 bits hold, but not 64. -/
  | wide
  deriving DecidableEq, Repr

/-- Whether a text is a row of digits with a superfluous zero in front. -/
def isPadded (cs : List Char) : Bool :=
  1 < cs.length && cs.head? = some '0' && cs.all Char.isDigit

def magnitude? (cs : List Char) : Option Nat :=
  match cs with
  | '0' :: 'x' :: ds => Digits.read? 16 ds
  | '0' :: 'o' :: ds => Digits.read? 8 ds
  | '0' :: 'b' :: ds => Digits.read? 2 ds
  | ds => if isPadded ds then none else Digits.read? 10 ds

def integer? (s : String) : Option Integer := do
  let cs := s.toList
  let n ← magnitude? (Digits.dropSign cs)
  if cs.head? = some '-' then
    if n ≤ 1 <<< 63 then return .negative
    else if n ≤ 1 <<< 127 then return .wide
    else none
  else if n < 1 <<< 64 then return .word n
  else if n < 1 <<< 128 then return .wide
  else none

def word? (s : String) : Option Nat :=
  match integer? s with
  | some (.word n) => some n
  | _ => none

/-- Whether the nearest double of a decimal is finite. -/
def isFinite (significand : Nat) (exponent : Int) : Bool :=
  let top := (Binary64.digitsOf significand).length + exponent
  significand = 0 || top ≤ 308 ||
    (top = 309 && !(Binary64.nearest (significand * Nat.pow 10 exponent.toNat)
      (Nat.pow 10 (-exponent).toNat)).isInfinite)

def isFloat (s : String) : Bool :=
  let cs := Digits.dropSign s.toList
  [".inf", ".Inf", ".INF"].contains (String.ofList cs) || [".nan", ".NaN", ".NAN"].contains s ||
    (Digits.decimal? cs).any fun (significand, exponent) => isFinite significand exponent

/-- Whether a text stands for itself when it is not quoted. -/
def isText (s : String) : Bool :=
  !isNull s && (bool? s).isNone && (integer? s).isNone &&
    (isPadded (Digits.dropSign s.toList) || !isFloat s)

/-- Whether a text stands for itself and does not look like a number either. -/
def isClear (s : String) : Bool := isText s && !isPadded (Digits.dropSign s.toList)

end Config.Yaml.Plain

end AgentGovernance
