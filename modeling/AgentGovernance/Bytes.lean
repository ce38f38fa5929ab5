/-!
# Byte strings

Byte strings are lists of octets. The module holds the three views the rest of the library needs:
the UTF-8 form of a text, big-endian words of a fixed width, and hexadecimal text.

Hexadecimal text is written with lower-case digits and read in either case. Reading reports the
odd length first and otherwise the first octet that is no digit, with its position.
-/
namespace AgentGovernance

abbrev Bytes := List UInt8

namespace Bytes

/-- The UTF-8 form of a text. -/
def ofString (s : String) : Bytes := s.toUTF8.data.toList

/-- The text of a byte string, when it is valid UTF-8. -/
def toString? (bs : Bytes) : Option String := String.fromUTF8? ⟨bs.toArray⟩

/-- The lowest `width` octets of a number, most significant first. -/
def bigEndian : Nat → Nat → Bytes
  | 0, _ => []
  | width + 1, n => bigEndian width (n / 256) ++ [UInt8.ofNat n]

/-- The lowest `width` octets of a number, least significant first. -/
def littleEndian : Nat → Nat → Bytes
  | 0, _ => []
  | width + 1, n => UInt8.ofNat n :: littleEndian width (n / 256)

/-- The shortest big-endian form of at least `width` octets; no two numbers share it. -/
def bigEndianAtLeast (width n : Nat) : Bytes :=
  let octets := if n = 0 then 0 else n.log2 / 8 + 1
  bigEndian (max width octets) n

def ofBigEndian (bs : Bytes) : Nat := bs.foldl (fun n b => n * 256 + b.toNat) 0

def ofLittleEndian : Bytes → Nat
  | [] => 0
  | b :: bs => b.toNat + 256 * ofLittleEndian bs

/-- The first `count` blocks of `size` octets. -/
def blocks (size : Nat) : Nat → Bytes → List Bytes
  | 0, _ => []
  | count + 1, bs => bs.take size :: blocks size count (bs.drop size)

@[simp] theorem length_bigEndian (width n : Nat) : (bigEndian width n).length = width := by
  induction width generalizing n with
  | zero => rfl
  | succ width ih => simp [bigEndian, ih]

end Bytes

namespace Hex

/-- Why a text is no hexadecimal form of a byte string. -/
inductive Error where
  | oddLength
  | invalidDigit (octet : UInt8) (position : Nat)
  deriving DecidableEq, Repr

def digit (n : Nat) : Char :=
  if n < 10 then Char.ofNat (48 + n) else Char.ofNat (87 + n)

/-- Characters below 256 that leave no mark: controls, the hard space and the soft hyphen. -/
def isInvisible (n : Nat) : Bool := n < 32 || (127 ≤ n && n ≤ 160) || n = 173

/-- The character with the number of an octet, escaped where it is invisible, a quotation mark or a
backslash. -/
def shown (octet : UInt8) : List Char :=
  let n := octet.toNat
  if n = 0 then ['\\', '0']
  else if n = 9 then ['\\', 't']
  else if n = 10 then ['\\', 'n']
  else if n = 13 then ['\\', 'r']
  else if n = 39 ∨ n = 92 then ['\\', Char.ofNat n]
  else if isInvisible n then
    let digits := if n < 16 then [digit n] else [digit (n / 16), digit (n % 16)]
    '\\' :: 'u' :: '\x7b' :: (digits ++ ['\x7d'])
  else [Char.ofNat n]

def Error.message : Error → String
  | .oddLength => "Odd number of digits"
  | .invalidDigit octet position =>
      "Invalid character '" ++ String.ofList (shown octet) ++ "' at position " ++ toString position

def encodeOctet (b : UInt8) : List Char := [digit (b.toNat / 16), digit (b.toNat % 16)]

def encode (bs : Bytes) : String := String.ofList (bs.flatMap encodeOctet)

def digitValue? (b : UInt8) : Option Nat :=
  let n := b.toNat
  if 48 ≤ n ∧ n ≤ 57 then some (n - 48)
  else if 97 ≤ n ∧ n ≤ 102 then some (n - 87)
  else if 65 ≤ n ∧ n ≤ 70 then some (n - 55)
  else none

/-- Reads digits two by two; `position` counts the octets already read. -/
def decodeFrom (position : Nat) : Bytes → Except Error Bytes
  | [] => .ok []
  | [_] => .error .oddLength
  | a :: b :: rest =>
      match digitValue? a, digitValue? b with
      | none, _ => .error (.invalidDigit a position)
      | some _, none => .error (.invalidDigit b (position + 1))
      | some high, some low =>
          match decodeFrom (position + 2) rest with
          | .ok bs => .ok (UInt8.ofNat (high * 16 + low) :: bs)
          | .error e => .error e

def decode (text : String) : Except Error Bytes :=
  let octets := Bytes.ofString text
  if octets.length % 2 = 1 then .error .oddLength else decodeFrom 0 octets

end Hex

end AgentGovernance
