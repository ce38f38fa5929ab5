import AgentGovernance.Json.Basic

/-!
# Reading JSON

A text is one value between blanks. Containers nest at most 127 deep. Integers that fit neither
a signed nor an unsigned 64-bit word, numbers with a fraction or an exponent, and `-0` are doubles:
the digits that fit a 64-bit word make the significand, which is then scaled by a power of ten in
double arithmetic. A number too large for a double is refused, and so are control characters and
unpaired surrogates in strings.
-/
namespace AgentGovernance.Json.Reader

def isBlank (c : Char) : Bool := c = ' ' || c = '\n' || c = '\t' || c = '\r'

def skipBlanks (cs : List Char) : List Char := cs.dropWhile isBlank

def isDigit (c : Char) : Bool := '0' ≤ c && c ≤ '9'

def digitValue (c : Char) : Nat := c.toNat - 48

def wordLimit : Nat := 1 <<< 64

/-- The longest run of digits that fits a word, with the digits that follow it. -/
def takeWord (value : Nat) : List Char → Nat × List Char
  | [] => (value, [])
  | d :: ds =>
      let next := value * 10 + digitValue d
      if next < wordLimit then takeWord next ds else (value, d :: ds)

/-- An exponent part, if there is one: its sign and its digits. -/
def exponentPart? : List Char → Option (Option (Bool × List Char) × List Char)
  | [] => some (none, [])
  | c :: cs =>
      if c = 'e' ∨ c = 'E' then
        let (negative, cs) := match cs with
          | '+' :: r => (false, r)
          | '-' :: r => (true, r)
          | r => (false, r)
        let digits := cs.takeWhile isDigit
        if digits.isEmpty then none else some (some (negative, digits), cs.dropWhile isDigit)
      else some (none, c :: cs)

/-- A fraction part, if there is one. -/
def fractionPart? : List Char → Option (Option (List Char) × List Char)
  | '.' :: cs =>
      let digits := cs.takeWhile isDigit
      if digits.isEmpty then none else some (some digits, cs.dropWhile isDigit)
  | cs => some (none, cs)

def ofDigits (ds : List Char) : Nat := ds.foldl (fun n d => n * 10 + digitValue d) 0

/-- The double of a decimal with a whole part, a fraction and an exponent. Whole digits beyond a
word count as zeros and fraction digits beyond it are dropped. -/
def doubleOf? (whole fraction : List Char) (exponent : Option (Bool × List Char)) :
    Option Binary64 :=
  let (high, wholeLeft) := takeWord 0 whole
  let (significand, fractionLeft) :=
    if wholeLeft.isEmpty then takeWord high fraction else (high, fraction)
  let shift : Int := (wholeLeft.length : Int) - ((fraction.length : Int) - fractionLeft.length)
  match exponent with
  | none => Binary64.ofDecimal? significand shift
  | some (negative, digits) =>
      let n := ofDigits digits
      if n < 1 <<< 31 then
        let signed : Int := if negative then shift - n else shift + n
        Binary64.ofDecimal? significand (max (-2147483648) (min 2147483647 signed))
      else if significand ≠ 0 ∧ ¬negative then none
      else some ⟨0⟩

def signed (negative : Bool) (x : Binary64) : Number := .double (if negative then x.neg else x)

def number? (cs : List Char) : Option (Number × List Char) := do
  let (negative, cs) := match cs with
    | '-' :: r => (true, r)
    | r => (false, r)
  let whole := cs.takeWhile isDigit
  let rest := cs.dropWhile isDigit
  if whole.isEmpty ∨ (whole.head? = some '0' ∧ 1 < whole.length) then none
  else
    let (fraction, rest) ← fractionPart? rest
    let (exponent, rest) ← exponentPart? rest
    let n := ofDigits whole
    if fraction.isNone ∧ exponent.isNone ∧ ¬negative ∧ n < wordLimit then
      some (.integer n, rest)
    else if fraction.isNone ∧ exponent.isNone ∧ negative ∧ 0 < n ∧ n ≤ 1 <<< 63 then
      some (.integer (-n), rest)
    else
      let x ← doubleOf? whole (fraction.getD []) exponent
      some (signed negative x, rest)

def hexValue? (c : Char) : Option Nat :=
  if c.toNat < 128 then Hex.digitValue? (UInt8.ofNat c.toNat) else none

def unit16? : List Char → Option (Nat × List Char)
  | a :: b :: c :: d :: rest => do
      let a ← hexValue? a
      let b ← hexValue? b
      let c ← hexValue? c
      let d ← hexValue? d
      some (((a * 16 + b) * 16 + c) * 16 + d, rest)
  | _ => none

/-- The character of an escape after `\u`; a leading surrogate takes the trailing one with it. -/
def unicodeEscape? (cs : List Char) : Option (Char × List Char) := do
  let (n, rest) ← unit16? cs
  if 0xDC00 ≤ n ∧ n ≤ 0xDFFF then none
  else if 0xD800 ≤ n ∧ n ≤ 0xDBFF then
    match rest with
    | '\\' :: 'u' :: more => do
        let (m, rest) ← unit16? more
        if 0xDC00 ≤ m ∧ m ≤ 0xDFFF then
          some (Char.ofNat (0x10000 + (n - 0xD800) * 0x400 + (m - 0xDC00)), rest)
        else none
    | _ => none
  else some (Char.ofNat n, rest)

def shortEscape? (c : Char) : Option Char :=
  if c = '"' then some '"'
  else if c = '\\' then some '\\'
  else if c = '/' then some '/'
  else if c = 'b' then some (Char.ofNat 8)
  else if c = 'f' then some (Char.ofNat 12)
  else if c = 'n' then some '\n'
  else if c = 'r' then some '\r'
  else if c = 't' then some '\t'
  else none

/-- The rest of a string after its opening quotation mark. -/
def stringBody? : Nat → List Char → List Char → Option (String × List Char)
  | 0, _, _ => none
  | fuel + 1, cs, done =>
      match cs with
      | [] => none
      | '"' :: rest => some (String.ofList done.reverse, rest)
      | '\\' :: 'u' :: rest => do
          let (c, rest) ← unicodeEscape? rest
          stringBody? fuel rest (c :: done)
      | '\\' :: c :: rest => do
          let c ← shortEscape? c
          stringBody? fuel rest (c :: done)
      | c :: rest => if c.toNat < 32 then none else stringBody? fuel rest (c :: done)

def string? (cs : List Char) : Option (String × List Char) := stringBody? (cs.length + 1) cs []

mutual

/-- One value; `depth` counts the containers that may still open, and `fuel` bounds the calls. -/
def value? (fuel depth : Nat) (cs : List Char) : Option (Json × List Char) :=
  match fuel with
  | 0 => none
  | fuel + 1 =>
      match skipBlanks cs with
      | 'n' :: 'u' :: 'l' :: 'l' :: rest => some (.null, rest)
      | 't' :: 'r' :: 'u' :: 'e' :: rest => some (.bool true, rest)
      | 'f' :: 'a' :: 'l' :: 's' :: 'e' :: rest => some (.bool false, rest)
      | '"' :: rest => do
          let (s, rest) ← string? rest
          some (.string s, rest)
      | '[' :: rest =>
          if depth ≤ 1 then none
          else match skipBlanks rest with
            | ']' :: rest => some (.array [], rest)
            | rest => do
                let (items, rest) ← items? fuel (depth - 1) rest
                some (.array items, rest)
      | '\x7b' :: rest =>
          if depth ≤ 1 then none
          else match skipBlanks rest with
            | '\x7d' :: rest => some (.object [], rest)
            | rest => do
                let (members, rest) ← members? fuel (depth - 1) rest
                some (.object members, rest)
      | rest => do
          let (n, rest) ← number? rest
          some (.number n, rest)

def items? (fuel depth : Nat) (cs : List Char) : Option (List Json × List Char) :=
  match fuel with
  | 0 => none
  | fuel + 1 =>
      match value? fuel depth cs with
      | none => none
      | some (v, rest) =>
          match skipBlanks rest with
          | ',' :: rest => do
              let (vs, rest) ← items? fuel depth rest
              some (v :: vs, rest)
          | ']' :: rest => some ([v], rest)
          | _ => none

def members? (fuel depth : Nat) (cs : List Char) : Option (List (String × Json) × List Char) :=
  match fuel with
  | 0 => none
  | fuel + 1 =>
      match skipBlanks cs with
      | '"' :: rest =>
          match string? rest with
          | none => none
          | some (k, rest) =>
              match skipBlanks rest with
              | ':' :: rest =>
                  match value? fuel depth rest with
                  | none => none
                  | some (v, rest) =>
                      match skipBlanks rest with
                      | ',' :: rest => do
                          let (ms, rest) ← members? fuel depth rest
                          some ((k, v) :: ms, rest)
                      | '\x7d' :: rest => some ([(k, v)], rest)
                      | _ => none
              | _ => none
      | _ => none

end

end AgentGovernance.Json.Reader

namespace AgentGovernance.Json

/-- The value a text holds, members in the order of the text. -/
def read? (text : String) : Option Json :=
  let cs := text.toList
  match Reader.value? (2 * cs.length + 2) 128 cs with
  | some (v, rest) => if (Reader.skipBlanks rest).isEmpty then some v else none
  | none => none

end AgentGovernance.Json
