import AgentGovernance.Alphabet
import AgentGovernance.Digits
import AgentGovernance.Time.Reader

/-!
# Patterns

A regular expression in a log filter is compiled without tables of scripts and without counts in
braces, so that letter cases and classes of characters are known for octets only, and a pattern must
match whole characters. The functions below say which texts such a compiler accepts. Those that read
a part of a pattern give its height, which is limited.
-/
namespace AgentGovernance

namespace Config

namespace Pattern

open Instant.Reader (isBlank)

structure Flags where
  isCaseless : Bool := false
  /-- Whether a pattern speaks about characters, or about octets. -/
  isUnicode : Bool := true
  /-- Whether blanks and comments are skipped. -/
  isSpaced : Bool := false
  deriving DecidableEq, Repr

/-! ## Characters -/

def skipBlanks (inComment : Bool) : List Char → List Char
  | [] => []
  | c :: rest =>
      if inComment then skipBlanks (c ≠ '\n') rest
      else if isBlank c then skipBlanks false rest
      else if c = '#' then skipBlanks true rest
      else c :: rest

/-- Skips what does not count. -/
def Flags.skip (f : Flags) (cs : List Char) : List Char :=
  if f.isSpaced then skipBlanks false cs else cs

/-- Whether a character stands for itself under some flags. -/
def Flags.allowsLiteral (f : Flags) : Bool := !(f.isUnicode && f.isCaseless)

/-- What stands behind a backslash. -/
inductive Escape where
  /-- A character; `isOctet` if its number has two digits. -/
  | literal (c : Char) (isOctet : Bool)
  | digits
  | notDigits
  | edge
  | wordEdge
  deriving DecidableEq, Repr

def hexDigits? (f : Flags) : Nat → List Char → Option (List Char × List Char)
  | 0, cs => some ([], cs)
  | count + 1, cs =>
      match f.skip cs with
      | [] => none
      | c :: rest => (hexDigits? f count rest).map fun (ds, rest) => (c :: ds, rest)

def hex? (f : Flags) (width : Nat) (cs : List Char) : Option (Escape × List Char) := do
  let (ds, rest) ← hexDigits? f width cs
  let n ← Digits.read? 16 ds
  if n.isValidChar then some (.literal (Char.ofNat n) (width = 2), rest) else none

def escape? (f : Flags) : List Char → Option (Escape × List Char)
  | [] => none
  | c :: rest =>
      if c = 'x' then hex? f 2 rest
      else if c = 'u' then hex? f 4 rest
      else if c = 'U' then hex? f 8 rest
      else if ['d', 's', 'w'].contains c then some (.digits, rest)
      else if ['D', 'S', 'W'].contains c then some (.notDigits, rest)
      else if ['b', 'B', '<', '>'].contains c then some (.wordEdge, rest)
      else if c = 'A' ∨ c = 'z' then some (.edge, rest)
      else if ['a', 'f', 't', 'n', 'r', 'v'].contains c then some (.literal c false, rest)
      else if c.toNat < 128 ∧ ¬c.isAlphanum then some (.literal c false, rest)
      else none

/-- Whether an escape means something under some flags. -/
def Flags.allows (f : Flags) : Escape → Bool
  | .literal c isOctet => f.allowsLiteral && (f.isUnicode || !isOctet || c.toNat < 128)
  | .digits => !f.isUnicode
  | .notDigits => false
  | .edge => true
  | .wordEdge => !f.isUnicode

/-! ## Classes -/

/-- Whether a character may stand in a class. -/
def Flags.allowsMember (f : Flags) (c : Char) : Bool :=
  f.allowsLiteral && (f.isUnicode || c.toNat < 128)

/-- The height of some parts side by side. -/
def joined : List Nat → Nat
  | [] => 0
  | [h] => h
  | hs => hs.foldl max 0 + 1

def classNames : List String :=
  ["alnum", "alpha", "ascii", "blank", "cntrl", "digit", "graph", "lower", "print", "punct",
    "space", "upper", "word", "xdigit"]

/-- A class by its name, behind its bracket: whether it is negated. -/
def namedClass? (cs : List Char) : Option (Bool × List Char) := do
  let ':' :: rest := cs | none
  let (isNegated, rest) := match rest with
    | '^' :: r => (true, r)
    | r => (false, r)
  let name := rest.takeWhile (· ≠ ':')
  let ':' :: ']' :: rest := rest.drop name.length | none
  if classNames.contains (String.ofList name) then some (isNegated, rest) else none

/-- The character of a member that is one, or the escape it is. -/
def member? (f : Flags) : List Char → Option (Escape × List Char)
  | [] => none
  | '\\' :: rest => escape? f rest
  | c :: rest => some (.literal c false, rest)

/-- The character behind a dash, blanks and the mark of a comment apart. -/
def behindDash (f : Flags) (rest : List Char) : Option Char :=
  let skip (cs : List Char) : List Char := if f.isSpaced then cs.dropWhile isBlank else cs
  match skip rest with
  | '#' :: more => if f.isSpaced then (skip more).head?.or rest.head? else some '#'
  | c :: _ => some c
  | [] => rest.head?

/-- A member of a class, or a range of members. -/
def range? (f : Flags) (cs : List Char) : Option (List Char) := do
  let (first, rest) ← member? f cs
  let allows : Escape → Bool
    | .literal c _ => f.allowsMember c
    | .digits => !f.isUnicode
    | _ => false
  match f.skip rest with
  | [] => none
  | '-' :: more =>
      let next := behindDash f more
      if next = some ']' ∨ next = some '-' then if allows first then some ('-' :: more) else none
      else do
        let (second, rest) ← member? f (f.skip more)
        match first, second with
        | .literal a _, .literal b _ =>
            if a ≤ b ∧ f.allowsMember a ∧ f.allowsMember b then some rest else none
        | _, _ => none
  | rest => if allows first then some rest else none

/-- The members of a class up to its end, and their height. `left` is the height of what is before
an operator, and `items` has the heights of the members behind it. At the start of a class dashes
stand for themselves, and so does a closing bracket. -/
def members? (f : Flags) :
    Nat → Bool → Option Nat → List Nat → List Char → Option (Nat × List Char)
  | 0, _, _, _, _ => none
  | fuel + 1, isStart, left, items, cs =>
      let height := left.elim (joined items) fun h => max h (joined items) + 1
      match f.skip cs with
      | [] => none
      | '[' :: rest =>
          match namedClass? rest with
          | some (isNegated, rest) =>
              if f.allowsLiteral && (f.isUnicode || !isNegated) then
                members? f fuel false left (0 :: items) rest
              else none
          | none => do
              let isNegated := (f.skip rest).head? = some '^'
              if isNegated && !f.isUnicode then none
              let rest := if isNegated then (f.skip rest).drop 1 else rest
              let (h, rest) ← members? f fuel true none [] rest
              members? f fuel false left ((h + 1) :: items) rest
      | ']' :: rest =>
          if isStart && items.isEmpty then
            if f.allowsLiteral then members? f fuel false left [0] rest else none
          else some (height, rest)
      | c :: rest =>
          if isStart && c = '-' then
            if f.allowsLiteral then members? f fuel true left (0 :: items) rest else none
          else if ['&', '-', '~'].contains c && rest.head? = some c then
            members? f fuel false (some height) [] (rest.drop 1)
          else do members? f fuel false left (0 :: items) (← range? f (c :: rest))

/-! ## Groups -/

def Flags.set (f : Flags) (value : Bool) (c : Char) : Flags :=
  if c = 'i' then { f with isCaseless := value }
  else if c = 'u' then { f with isUnicode := value }
  else if c = 'x' then { f with isSpaced := value }
  else f

/-- The flags that some marks set, or, behind a dash, unset; no mark is given twice. -/
def Flags.marked? (f : Flags) (marks : List Char) : Option Flags :=
  let known := ['i', 'm', 's', 'U', 'u', 'R', 'x', '-']
  if !marks.all known.contains || !marks.Nodup || marks.getLast? = some '-' then none
  else
    let f := (marks.takeWhile (· ≠ '-')).foldl (·.set true) f
    some ((marks.dropWhile (· ≠ '-')).foldl (·.set false) f)

/-- The name of a group. -/
def isGroupName : List Char → Bool
  | [] => false
  | c :: rest =>
      (c = '_' || Alphabet.isLetter c) &&
        rest.all fun a => ['_', '.', '[', ']'].contains a || Alphabet.isAlphanumeric a

/-- What opens at a parenthesis: flags for what follows, or a group with its flags and the names
that are taken. -/
inductive Opening where
  | flags (f : Flags)
  | group (f : Flags) (names : List (List Char))

def groupName? (f : Flags) (names : List (List Char)) (cs : List Char) :
    Option (Opening × List Char) := do
  let name := cs.takeWhile (· ≠ '>')
  let '>' :: rest := cs.drop name.length | none
  if isGroupName name && !names.contains name then return (.group f (name :: names), rest) else none

/-- Reads what is behind an opening parenthesis. Nothing looks ahead or behind. -/
def opening? (f : Flags) (names : List (List Char)) (cs : List Char) :
    Option (Opening × List Char) :=
  match f.skip cs with
  | '?' :: 'P' :: '<' :: rest => groupName? f names rest
  | '?' :: '<' :: rest => groupName? f names rest
  | '?' :: rest => do
      let marks := rest.takeWhile fun c => c ≠ ':' && c ≠ ')'
      let inner ← f.marked? marks
      match rest.drop marks.length with
      | ':' :: rest => return (.group inner names, rest)
      | ')' :: rest => if marks.isEmpty then none else return (.flags inner, rest)
      | _ => none
  | rest => some (.group f names, rest)

/-! ## Patterns -/

/-- Where the reader of a pattern stands. -/
structure Progress where
  flags : Flags := {}
  names : List (List Char) := []
  rest : List Char

/-- Reads alternatives up to a closing parenthesis or the end. `branches` has the heights of those
that are complete and `items` the heights of the parts of the last one; flags have no height, and
cannot be repeated. -/
def alternatives? :
    Nat → List Nat → List (Option Nat) → Progress → Option (Nat × Progress)
  | 0, _, _, _ => none
  | fuel + 1, branches, items, p =>
      let f := p.flags
      let branch := joined (items.map (·.getD 0))
      let leaf (allowed : Bool) (rest : List Char) : Option (Nat × Progress) :=
        if allowed then alternatives? fuel branches (some 0 :: items) { p with rest } else none
      match f.skip p.rest with
      | [] => some (joined (branch :: branches), { p with rest := [] })
      | ')' :: rest => some (joined (branch :: branches), { p with rest := ')' :: rest })
      | '|' :: rest => alternatives? fuel (branch :: branches) [] { p with rest }
      | '(' :: rest => do
          match ← opening? f p.names rest with
          | (.flags flags, rest) =>
              alternatives? fuel branches (none :: items) { p with flags, rest }
          | (.group flags names, rest) =>
              let (h, q) ← alternatives? fuel [] [] ⟨flags, names, rest⟩
              let ')' :: rest := q.rest | none
              alternatives? fuel branches (some (h + 1) :: items) ⟨f, q.names, rest⟩
      | '[' :: rest => do
          let isNegated := (f.skip rest).head? = some '^'
          if isNegated && !f.isUnicode then none
          let rest := if isNegated then (f.skip rest).drop 1 else rest
          let (h, rest) ← members? f (rest.length + 1) true none [] rest
          alternatives? fuel branches (some (h + 1) :: items) { p with rest }
      | '\\' :: rest => do
          let (e, rest) ← escape? f rest
          leaf (f.allows e) rest
      | c :: rest =>
          if ['?', '*', '+'].contains c then
            match items with
            | some h :: before =>
                let rest := if rest.head? = some '?' then rest.drop 1 else rest
                alternatives? fuel branches (some (h + 1) :: before) { p with rest }
            | _ => none
          else if c = '\x7b' then none
          else if c = '.' then leaf f.isUnicode rest
          else if c = '^' ∨ c = '$' then leaf true rest
          else leaf f.allowsLiteral rest

def heightLimit : Nat := 250

/-- Whether a text is a pattern that can be compiled. -/
def isValid (text : String) : Bool :=
  let cs := text.toList
  match alternatives? (cs.length + 1) [] [] { rest := cs } with
  | some (h, p) => p.rest.isEmpty && h ≤ heightLimit
  | none => false

end Pattern

end Config

end AgentGovernance
