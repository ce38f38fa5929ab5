import AgentGovernance.Config.Yaml.Cursor
import AgentGovernance.Config.Yaml.Plain
import AgentGovernance.Json.Basic

/-!
# Writing YAML

Objects are written as indented blocks, members in their order, everything else behind its key. A
text is written plain if a reader takes it for that text, else in single quotes, and in double
quotes if it holds characters that have to be escaped. A text with line feeds is written below its
key, unless blanks at the end of a line would be lost from sight. A long key, or one of several
lines, is marked as a key.
-/
namespace AgentGovernance

namespace Config.Yaml

/-- Characters that are written as they are outside double quotes. -/
def isPrintable (c : Char) : Bool :=
  let n := c.toNat
  n = 10 || (32 ≤ n && n ≤ 126) || (0xA0 ≤ n && n ≠ 0xFEFF && n ≠ 0xFFFE && n ≠ 0xFFFF)

/-- Whether a character of one kind stands before one of another kind. -/
def hasPair (first second : Char → Bool) (cs : List Char) : Bool :=
  (cs.zip (cs.drop 1)).any fun (a, b) => first a && second b

def isSpaceBar (c : Char) : Bool := c = ' '

/-- Whether a colon ends a word or a hash starts one. -/
def hasMark (startsWord : Bool) : List Char → Bool
  | [] => false
  | c :: rest =>
      (c = ':' && endsToken rest) || (c = '#' && startsWord) || hasMark (isSpace c) rest

/-- Whether a text has to be escaped. -/
def needsEscapes (cs : List Char) : Bool :=
  !cs.all isPrintable || hasPair isSpaceBar isBreak cs

/-- Whether a text is not taken for anything else where no quotes are. -/
def canBePlain (cs : List Char) : Bool :=
  let isOuter (c : Char) : Bool := c = ' ' || isBreak c
  let startsMarked := match cs with
    | [] => false
    | c :: rest => isIndicator c || ((c = '-' || c = '?') && endsToken rest)
  !needsEscapes cs && !cs.any isBreak && !cs.head?.any isOuter && !cs.getLast?.any isOuter &&
    !startsMarked && !hasMark true cs && cs.take 3 ≠ ['-', '-', '-'] && cs.take 3 ≠ ['.', '.', '.']

def canBeSingleQuoted (cs : List Char) : Bool :=
  !needsEscapes cs && !hasPair isBreak isSpaceBar cs

def canBeBlock (cs : List Char) : Bool := !needsEscapes cs && !cs.getLast?.any isSpaceBar

/-- The letters of escapes. -/
def escapeLetters : List (Nat × Char) :=
  [(0, '0'), (7, 'a'), (8, 'b'), (9, 't'), (10, 'n'), (11, 'v'), (12, 'f'), (13, 'r'),
   (27, 'e'), (34, '"'), (92, '\\'),
   (0x85, 'N'), (0x2028, 'L'), (0x2029, 'P')]

def hexDigits (width n : Nat) : List Char :=
  let ds := (Nat.toDigits 16 n).map Char.toUpper
  List.replicate (width - ds.length) '0' ++ ds

def renderEscape (c : Char) : List Char :=
  match escapeLetters.lookup c.toNat with
  | some letter => ['\\', letter]
  | none =>
      if isPrintable c then [c]
      else if c.toNat ≤ 0xFF then '\\' :: 'x' :: hexDigits 2 c.toNat
      else '\\' :: 'u' :: hexDigits 4 c.toNat

def indentation (depth : Nat) : List Char := List.replicate (2 * depth) ' '

/-- The characters of a text with the lines behind breaks indented, empty ones aside. -/
def renderLines (depth : Nat) (afterBreak : Bool) : List Char → List Char
  | [] => []
  | c :: rest =>
      (if afterBreak && !isBreak c then indentation depth else []) ++
        c :: renderLines depth (isBreak c) rest

def renderSingleQuoted (depth : Nat) (cs : List Char) : List Char :=
  let doubled := cs.flatMap fun c => if c = '\'' then ['\'', '\''] else [c]
  let closing := if cs.getLast?.any isBreak then indentation depth else []
  '\'' :: renderLines depth false doubled ++ closing ++ ['\'']

/-- How the line breaks at the end of a text of several lines are marked. -/
def chompingMark (cs : List Char) : List Char :=
  match cs.reverse with
  | [] => ['-']
  | a :: rest => if !isBreak a then ['-'] else if rest.head?.all isBreak then ['+'] else []

/-- The lines of a text below their key. A mark says how far they are indented where that cannot be
seen from the first line. -/
def renderBlock (depth : Nat) (cs : List Char) : List Char :=
  let indentMark := if cs.head?.any fun c => c = ' ' || isBreak c then ['2'] else []
  '|' :: (indentMark ++ chompingMark cs) ++ '\n' :: renderLines depth true cs

/-- A text whose further lines have a depth. -/
def renderText (depth : Nat) (s : String) : List Char :=
  let cs := s.toList
  if cs.contains '\n' && canBeBlock cs then renderBlock depth cs
  else if !cs.contains '\n' && Plain.isClear s && canBePlain cs then cs
  else if !cs.contains '\n' && canBeSingleQuoted cs then renderSingleQuoted depth cs
  else '"' :: cs.flatMap renderEscape ++ ['"']

/-- A text is ended by a line feed, if it does not end a line itself. -/
def ended (cs : List Char) : List Char := if cs.getLast?.any isBreak then cs else cs ++ ['\n']

/-- Keys that need no mark before them. -/
def isSimpleKey (k : String) : Bool :=
  k.utf8ByteSize ≤ 128 && !k.toList.any fun c => isBreak c || c = '\r' || c.toNat = 0x85

/-- The key of a member at a depth, with what stands before the value. -/
def renderKey (depth : Nat) (k : String) : List Char :=
  let key := renderText (depth + 1) k
  indentation depth ++
    if isSimpleKey k then key ++ [':']
    else '?' :: ' ' :: ended key ++ indentation depth ++ [':']

/-- A value that is no object with members, and the end of its line. -/
def renderValue (depth : Nat) : Json → List Char
  | .string s => ended (renderText (depth + 1) s)
  | v => v.render ++ ['\n']

/-- The members of an object, each on lines of its own. -/
def renderMembers (depth : Nat) : List (String × Json) → List Char
  | [] => []
  | (k, .object (m :: ms)) :: rest =>
      renderKey depth k ++ '\n' :: renderMembers (depth + 1) (m :: ms) ++ renderMembers depth rest
  | (k, v) :: rest =>
      renderKey depth k ++ ' ' :: renderValue depth v ++ renderMembers depth rest

def render : Json → String
  | .object (m :: ms) => String.ofList (renderMembers 0 (m :: ms))
  | v => String.ofList (renderValue 0 v)

end Config.Yaml

end AgentGovernance
