/-!
# Digits

Numbers from their digits: whole numbers in a base up to 36, where letters are digits in either
case, and decimals.
-/
namespace AgentGovernance.Digits

def value? (base : Nat) (c : Char) : Option Nat :=
  let d :=
    if '0' ≤ c ∧ c ≤ '9' then c.toNat - 48
    else if 'a' ≤ c ∧ c ≤ 'z' then c.toNat - 87
    else if 'A' ≤ c ∧ c ≤ 'Z' then c.toNat - 55
    else base
  if d < base then some d else none

/-- The number that a text of digits denotes; there has to be a digit. -/
def read? (base : Nat) (cs : List Char) : Option Nat :=
  if cs.isEmpty then none
  else cs.foldlM (fun n c => (value? base c).map (n * base + ·)) 0

def isSign (c : Char) : Bool := c = '+' || c = '-'

def dropSign (cs : List Char) : List Char := if cs.head?.any isSign then cs.drop 1 else cs

/-- The significand and the power of ten of a decimal without a sign. It has a digit before or after
the point, and digits behind the mark of an exponent. -/
def decimal? (cs : List Char) : Option (Nat × Int) := do
  let whole := cs.takeWhile Char.isDigit
  let rest := cs.dropWhile Char.isDigit
  let (fraction, rest) := match rest with
    | '.' :: r => (r.takeWhile Char.isDigit, r.dropWhile Char.isDigit)
    | r => ([], r)
  let significand ← read? 10 (whole ++ fraction)
  let exponent : Int ← match rest with
    | [] => some 0
    | c :: r =>
        if c = 'e' ∨ c = 'E' then
          (read? 10 (dropSign r)).map fun (n : Nat) => if r.head? = some '-' then -(n : Int) else n
        else none
  return (significand, exponent - fraction.length)

end AgentGovernance.Digits
