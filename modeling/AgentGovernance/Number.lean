/-!
# Binary floating point

A double is its 64 bits. Every finite double is a whole number of steps of `2 ^ -1074`, so reading
a decimal, multiplying and dividing are exact computations on natural numbers followed by one
rounding to nearest, ties to even.

A double is written with the fewest digits that read back as itself and, among those, with the
digits closest to it.
-/
namespace AgentGovernance

structure Binary64 where
  bits : UInt64
  deriving DecidableEq, Repr

namespace Binary64

/-- The bits of positive infinity. -/
def infinityBits : Nat := 2047 <<< 52

def signBit : Nat := 1 <<< 63

def isNegative (x : Binary64) : Bool := signBit ≤ x.bits.toNat

def magnitudeBits (x : Binary64) : Nat := x.bits.toNat % signBit

def isInfinite (x : Binary64) : Bool := x.magnitudeBits = infinityBits

def isZero (x : Binary64) : Bool := x.magnitudeBits = 0

/-- The significand and the binary exponent above `2 ^ -1074` of a finite double. -/
def parts (x : Binary64) : Nat × Nat :=
  let field := x.magnitudeBits >>> 52
  let fraction := x.magnitudeBits % (1 <<< 52)
  if field = 0 then (fraction, 0) else (fraction + (1 <<< 52), field - 1)

/-- The absolute value of a finite double, in steps of `2 ^ -1074`. -/
def steps (x : Binary64) : Nat := x.parts.1 <<< x.parts.2

def roundHalfEven (num den : Nat) : Nat :=
  let q := num / den
  let r := num % den
  if 2 * r < den then q
  else if den < 2 * r then q + 1
  else q + q % 2

/-- The nearest non-negative double to `num / den`, infinity beyond the largest. The bits count
steps from one double to the next, so a significand that rounds up carries into the exponent. -/
def nearest (num den : Nat) : Binary64 :=
  let scaled := num <<< 1074
  let low := scaled.log2 - den.log2 - 53
  let exponent := if scaled / (den <<< low) < 1 <<< 53 then low else low + 1
  ⟨UInt64.ofNat (min infinityBits ((exponent <<< 52) + roundHalfEven scaled (den <<< exponent)))⟩

def neg (x : Binary64) : Binary64 :=
  ⟨UInt64.ofNat (if x.isNegative then x.magnitudeBits else x.magnitudeBits + signBit)⟩

/-- The rounded product of two non-negative finite doubles. -/
def mul (x y : Binary64) : Binary64 := nearest (x.steps * y.steps) (1 <<< 2148)

/-- The rounded quotient of two positive finite doubles. -/
def div (x y : Binary64) : Binary64 := nearest x.steps y.steps

def powerOfTen (n : Nat) : Binary64 := nearest (Nat.pow 10 n) 1

/-- Scales by a power of ten in double arithmetic: one rounded product, or one rounded quotient
after as many divisions by `10 ^ 308` as bring the exponent into range. A product that is too
large has no value. -/
def scaleDown : Nat → Binary64 → Nat → Binary64
  | 0, x, _ => x
  | fuel + 1, x, exponent =>
      if exponent ≤ 308 then x.div (powerOfTen exponent)
      else if x.isZero then x
      else scaleDown fuel (x.div (powerOfTen 308)) (exponent - 308)

def ofDecimal? (significand : Nat) (exponent : Int) : Option Binary64 :=
  let x := nearest significand 1
  if exponent < 0 then some (scaleDown 4 x exponent.natAbs)
  else if exponent ≤ 308 then
    let y := x.mul (powerOfTen exponent.toNat)
    if y.isInfinite then none else some y
  else if x.isZero then some x else none

/-- Decimal digits of a number. -/
def digitsOf (n : Nat) : List Char := (toString n).toList

/-- The least `j` in a range with `scale ≤ n * 10 ^ j`. -/
def leadingZeros (n scale : Nat) : Nat → Nat → Nat
  | 0, j => j
  | fuel + 1, j => if scale ≤ n * Nat.pow 10 j then j else leadingZeros n scale fuel (j + 1)

/-- The power of ten of the first digit of a positive finite double. -/
def decimalExponent (x : Binary64) : Int :=
  let scale := 1 <<< 1074
  if scale ≤ x.steps then ((digitsOf (x.steps / scale)).length : Int) - 1
  else -(leadingZeros x.steps scale 330 0 : Int)

/-- The digits on the grid of `10 ^ unit`, when a point of the grid lies in the interval of reals
that round to `x`. Values are scaled by `2 ^ 1076`, so that half of each gap is whole; the ends of
the interval belong to it when the significand is even. -/
def onGrid? (x : Binary64) (unit : Int) : Option Nat :=
  let (significand, exponent) := x.parts
  let scaleUp := Nat.pow 10 (-unit).toNat
  let point := (Nat.pow 10 unit.toNat) <<< 1076
  let value := 4 * x.steps * scaleUp
  let above := (2 * scaleUp) <<< exponent
  let below := if significand = 1 <<< 52 ∧ 0 < exponent then scaleUp <<< exponent else above
  let inside (distance gap : Nat) : Bool :=
    distance < gap || (distance = gap && significand % 2 = 0)
  let floor := value / point
  let down := value - floor * point
  let up := (floor + 1) * point - value
  let hitDown := inside down below
  let hitUp := inside up above
  if hitDown && hitUp then
    some (if down < up then floor else if up < down then floor + 1 else floor + floor % 2)
  else if hitDown then some floor
  else if hitUp then some (floor + 1)
  else none

/-- Tries one, two, … digits until a grid has a hit. -/
def shortestFrom (x : Binary64) (top : Int) : Nat → Nat → Nat × Int
  | 0, _ => (x.steps, 0)
  | fuel + 1, count =>
      let unit := top - count
      match x.onGrid? unit with
      | some n => (n, unit)
      | none => shortestFrom x top fuel (count + 1)

/-- The shortest decimal `n * 10 ^ e` of a positive finite double. -/
def shortest (x : Binary64) : Nat × Int := shortestFrom x x.decimalExponent 17 0

def dropTrailingZeros (ds : List Char) : List Char := (ds.reverse.dropWhile (· = '0')).reverse

/-- The digits without trailing zeros, and the power of ten of the first of them. -/
def shortestDigits (x : Binary64) : List Char × Int :=
  let (n, unit) := x.shortest
  let ds := digitsOf n
  (dropTrailingZeros ds, unit + ds.length - 1)

end Binary64

end AgentGovernance
