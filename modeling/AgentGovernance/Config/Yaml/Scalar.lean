import AgentGovernance.Config.Yaml.Cursor
import AgentGovernance.Digits

/-!
# Scalars of YAML

Plain, quoted and block scalars at a cursor. Lines of a plain or quoted scalar are folded: a line
feed becomes a space, and of several breaks the first is dropped.
-/
namespace AgentGovernance

namespace Config.Yaml

/-- The text for some blanks and breaks between words. -/
def fold (gap : List Char) : List Char :=
  match gap.filter isBreak with
  | [] => gap
  | ['\n'] => [' ']
  | '\n' :: more => more
  | breaks => breaks

/-- The lines of a text, without their breaks. -/
def splitLines (text : List Char) : List (List Char) :=
  text.foldr
    (fun c lines => if isBreak c then [] :: lines else (c :: lines.headD []) :: lines.tail) [[]]

/-! ## Plain scalars -/

/-- The characters of a plain scalar up to a blank. A colon before an indicator in brackets is
refused. -/
def plainWord? (inFlow : Bool) : List Char → Option (List Char)
  | [] => some []
  | c :: rest =>
      if isSpace c || (c = ':' && endsToken rest) then some []
      else if inFlow && c = ':' && rest.head?.any (fun a => a = '?' || isFlowIndicator a) then none
      else if inFlow && isFlowIndicator c then some []
      else (plainWord? inFlow rest).map (c :: ·)

/-- Whether a tab stands in the indentation of a line after the first. -/
def hasTabIndent (least : Nat) (gap : List Char) : Bool :=
  (splitLines gap).tail.any fun line => (line.take least).contains '\t'

/-- The rest of a plain scalar whose further lines are indented by at least `least`; `done` is what
has been read, backwards. The blanks behind the scalar are skipped, and the result tells whether
they end a line. -/
def plainFrom? (inFlow : Bool) (least : Nat) :
    Nat → List Char → List Char → Cursor → Option (String × Bool × Cursor)
  | 0, _, _, _ => none
  | fuel + 1, done, gap, c => do
      let finished (done gap : List Char) (c : Cursor) : String × Bool × Cursor :=
        (String.ofList done.reverse, gap.any isBreak, c)
      if c.isMarker || c.at? '#' then return finished done gap c
      let word ← plainWord? inFlow c.rest
      if word.isEmpty then return finished done gap c
      let done := word.reverse ++ ((fold gap).reverse ++ done)
      let (gap, c) := (c.drop word.length).span isSpace
      if hasTabIndent least gap then none
      if gap.isEmpty || (!inFlow && c.column < least) then return finished done gap c
      plainFrom? inFlow least fuel done gap c

def startsPlain (inFlow : Bool) : List Char → Bool
  | [] => false
  | c :: rest =>
      if c = '-' then !rest.head?.any isBlank
      else if c = '?' || c = ':' then !inFlow && !endsToken rest
      else !(isIndicator c || isSpace c)

/-! ## Quoted scalars -/

def shortEscape? (c : Char) : Option Char :=
  [('0', 0), ('a', 7), ('b', 8), ('t', 9), ('\t', 9), ('n', 10), ('v', 11), ('f', 12), ('r', 13),
    ('e', 27), (' ', 32), ('"', 34), ('/', 47), ('\\', 92), ('N', 0x85), ('_', 0xA0), ('L', 0x2028),
    ('P', 0x2029)].lookup c |>.map Char.ofNat

/-- How many hexadecimal digits follow the letter of an escape. -/
def escapeWidth (c : Char) : Nat :=
  if c = 'x' then 2 else if c = 'u' then 4 else if c = 'U' then 8 else 0

def hexEscape? (digits : List Char) (width : Nat) : Option Char := do
  let n ← if digits.length = width then Digits.read? 16 digits else none
  if n.isValidChar then some (Char.ofNat n) else none

/-- The character of an escape, and how many characters the escape has behind the backslash. -/
def escape? : List Char → Option (Char × Nat)
  | [] => none
  | c :: rest =>
      match escapeWidth c with
      | 0 => (shortEscape? c).map ((·, 1))
      | width => (hexEscape? (rest.take width) width).map ((·, width + 1))

/-- The rest of a quoted scalar after its opening mark; `done` is what has been read, backwards.
After an escaped break further breaks stand for themselves. -/
def quotedFrom? (mark : Char) : Nat → List Char → Cursor → Option (String × Cursor)
  | 0, _, _ => none
  | fuel + 1, done, c =>
      if c.isMarker then none
      else match c.rest with
        | [] => none
        | a :: rest =>
            if isSpace a then
              let (gap, c) := c.span isSpace
              quotedFrom? mark fuel ((fold gap).reverse ++ done) c
            else if a = mark then
              if mark = '\'' ∧ rest.head? = some '\'' then
                quotedFrom? mark fuel (a :: done) (c.drop 2)
              else some (String.ofList done.reverse, c.drop 1)
            else if a = '\\' ∧ mark = '"' then
              if rest.head?.any isBreak then
                let (gap, c) := (c.drop 2).span isSpace
                quotedFrom? mark fuel ((gap.filter isBreak).reverse ++ done) c
              else do
                let (b, length) ← escape? rest
                quotedFrom? mark fuel (b :: done) (c.drop (length + 1))
            else quotedFrom? mark fuel (a :: done) (c.drop 1)

def quoted? (fuel : Nat) (c : Cursor) : Option (String × Cursor) :=
  match c.rest with
  | [] => none
  | mark :: _ => quotedFrom? mark fuel [] (c.drop 1)

/-! ## Block scalars -/

/-- What becomes of the line breaks at the end. -/
inductive Chomping where
  | strip
  | clip
  | keep
  deriving DecidableEq, Repr

structure BlockHeader where
  isFolded : Bool
  chomping : Option Chomping := none
  /-- How much deeper than its parent the text is indented, where that is given. -/
  indent : Option Nat := none
  deriving Repr

/-- Reads the marks of a header, each of which is given once at most. -/
def BlockHeader.read (h : BlockHeader) : List Char → BlockHeader × Nat
  | [] => (h, 0)
  | c :: rest =>
      let go (h : BlockHeader) : BlockHeader × Nat :=
        let (h, count) := h.read rest
        (h, count + 1)
      if h.chomping.isNone ∧ c = '-' then go { h with chomping := some .strip }
      else if h.chomping.isNone ∧ c = '+' then go { h with chomping := some .keep }
      else if h.indent.isNone ∧ '1' ≤ c ∧ c ≤ '9' then go { h with indent := some (c.toNat - 48) }
      else (h, 0)

/-- Skips empty lines and the indentation of the next one. The result has the breaks of the lines,
backwards, and the widest indentation among them. Tabs do not indent. -/
def emptyLines? (indent : Option Nat) :
    Nat → List Char → Nat → Cursor → Option (List Char × Nat × Cursor)
  | 0, _, _, _ => none
  | fuel + 1, breaks, widest, c =>
      let spaces := (c.rest.takeWhile (· = ' ')).length
      let c := c.drop (indent.elim spaces fun n => min spaces (n - c.column))
      let widest := max widest c.column
      if c.at? '\t' && indent.all (c.column < ·) then none
      else match c.rest with
        | b :: _ =>
            if isBreak b then emptyLines? indent fuel (b :: breaks) widest c.next
            else some (breaks, widest, c)
        | [] => some (breaks, widest, c)

/-- What has been read of a block scalar, all of it backwards: its text, the break behind it and the
breaks of the empty lines behind that; and whether the last line starts with a blank. -/
structure BlockText where
  text : List Char := []
  lineBreak : List Char := []
  breaks : List Char
  isDeeper : Bool := false

/-- The text, backwards, with the breaks before a further line. -/
def BlockText.joined (t : BlockText) (isFolded isDeeper : Bool) : List Char :=
  if isFolded ∧ t.lineBreak = ['\n'] ∧ ¬t.isDeeper ∧ ¬isDeeper then
    (if t.breaks.isEmpty then [' '] else t.breaks) ++ t.text
  else t.breaks ++ t.lineBreak ++ t.text

def BlockText.finished (t : BlockText) (chomping : Chomping) : String :=
  let backwards := match chomping with
    | .strip => t.text
    | .clip => t.lineBreak ++ t.text
    | .keep => t.breaks ++ t.lineBreak ++ t.text
  String.ofList backwards.reverse

/-- The further lines with a given indentation. -/
def blockLines? (isFolded : Bool) (indent : Nat) :
    Nat → BlockText → Cursor → Option (BlockText × Cursor)
  | 0, _, _ => none
  | fuel + 1, t, c =>
      if c.column = indent ∧ ¬c.isAtEnd then do
        let isDeeper := c.rest.head?.any isBlank
        let (line, c) := c.span (!isBreak ·)
        let lineBreak := c.rest.take 1
        let (breaks, _, c) ← emptyLines? (some indent) fuel [] 0 c.next
        blockLines? isFolded indent fuel
          { text := line.reverse ++ t.joined isFolded isDeeper, lineBreak, breaks, isDeeper } c
      else some (t, c)

/-- A literal or folded scalar in a block whose entries are indented by at least `least`. -/
def block? (fuel least : Nat) (c : Cursor) : Option (String × Cursor) := do
  let (header, length) := BlockHeader.read { isFolded := c.at? '>' } (c.rest.drop 1)
  let c ← (c.drop (length + 1)).endOfLine?
  let given := header.indent.map (least - 1 + ·)
  let (breaks, widest, c) ← emptyLines? given fuel [] 0 c
  let indent := given.getD (max 1 (max least widest))
  let (t, c) ← blockLines? header.isFolded indent fuel { breaks } c
  return (t.finished (header.chomping.getD .clip), c)

end Config.Yaml

end AgentGovernance
