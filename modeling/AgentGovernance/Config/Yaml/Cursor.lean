/-!
# Reading positions in YAML

A cursor is the rest of a text with the place of its first character. Line breaks of several
characters are made one character before; the two breaks of Unicode stay as they are.
-/
namespace AgentGovernance

namespace Config.Yaml

/-- Characters a text may hold unescaped. -/
def isAllowed (c : Char) : Bool :=
  let n := c.toNat
  n = 9 || n = 10 || n = 13 || (32 ≤ n && n ≤ 126) || n = 0x85 || (0xA0 ≤ n && n < 0xFFFE) ||
    0x10000 ≤ n

/-- Turns next-line characters and carriage returns, with a line feed or not, into line feeds. -/
def normalBreaks : List Char → List Char
  | '\x0d' :: '\n' :: rest => '\n' :: normalBreaks rest
  | c :: rest => (if c = '\x0d' ∨ c.toNat = 0x85 then '\n' else c) :: normalBreaks rest
  | [] => []

def byteOrderMark : Char := Char.ofNat 0xFEFF

def isBlank (c : Char) : Bool := c = ' ' || c = '\t'

def isBreak (c : Char) : Bool := c = '\n' || c.toNat = 0x2028 || c.toNat = 0x2029

def isSpace (c : Char) : Bool := isBlank c || isBreak c

/-- Whether a blank, a line break or the end follows. -/
def endsToken : List Char → Bool
  | [] => true
  | c :: _ => isSpace c

def isFlowIndicator (c : Char) : Bool := [',', '[', ']', '\x7b', '\x7d'].contains c

/-- Indicators that start no plain scalar. -/
def isIndicator (c : Char) : Bool :=
  isFlowIndicator c ||
    ['#', '&', '*', '!', '|', '>', '\'', '"', '%', '@', Char.ofNat 96].contains c

/-- Characters of names. -/
def isWordChar (c : Char) : Bool :=
  ('0' ≤ c && c ≤ '9') || ('a' ≤ c && c ≤ 'z') || ('A' ≤ c && c ≤ 'Z') || c = '_' || c = '-'

structure Cursor where
  rest : List Char
  index : Nat := 0
  line : Nat := 0
  column : Nat := 0
  deriving Repr

namespace Cursor

/-- Moves over one character. -/
def next (c : Cursor) : Cursor :=
  match c.rest with
  | [] => c
  | a :: rest =>
      if isBreak a then ⟨rest, c.index + 1, c.line + 1, 0⟩
      else ⟨rest, c.index + 1, c.line, c.column + 1⟩

/-- Moves over some characters. -/
def drop (c : Cursor) (n : Nat) : Cursor := Nat.repeat next n c

/-- The characters up to the first without a property, and the cursor behind them. -/
def span (c : Cursor) (p : Char → Bool) : List Char × Cursor :=
  let cs := c.rest.takeWhile p
  (cs, c.drop cs.length)

def skipWhile (c : Cursor) (p : Char → Bool) : Cursor := (c.span p).2

def at? (c : Cursor) (a : Char) : Bool := c.rest.head? = some a

def isAtEnd (c : Cursor) : Bool := c.rest.isEmpty

/-- Whether nothing is left of the line. -/
def isAtBreak (c : Cursor) : Bool := c.rest.head?.all isBreak

/-- Skips blanks and a comment behind them; nothing else may be left of the line. -/
def endOfLine? (c : Cursor) : Option Cursor :=
  let c := c.skipWhile isBlank
  let c := if c.at? '#' then c.skipWhile (!isBreak ·) else c
  if c.isAtBreak then some c.next else none

/-- Whether three such characters make up the start of the line. -/
def isMarkerOf (a : Char) (c : Cursor) : Bool :=
  c.column = 0 && match c.rest with
    | x :: y :: z :: rest => x = a && y = a && z = a && endsToken rest
    | _ => false

def startsDocument (c : Cursor) : Bool := c.isMarkerOf '-'

def endsDocument (c : Cursor) : Bool := c.isMarkerOf '.'

/-- Whether the line is a marker between documents. -/
def isMarker (c : Cursor) : Bool := c.startsDocument || c.endsDocument

end Cursor

end Config.Yaml

end AgentGovernance
