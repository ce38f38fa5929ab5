import AgentGovernance.Config.Yaml.Cursor
import AgentGovernance.Config.Yaml.Token
import AgentGovernance.Digits

/-!
# Names, tags and directives of YAML

What may stand before a node or before a document. Tags are octets: an octet may be written with a
percent sign and two digits, and a zero octet ends the tag.
-/
namespace AgentGovernance

namespace Config.Yaml

/-- The name of an anchor, behind its mark. -/
def name? (c : Cursor) : Option (String × Cursor) :=
  let (cs, c) := c.span isWordChar
  let ends := endsToken c.rest ||
    c.rest.head?.any fun a => ['?', ':', ',', ']', '\x7d', '%', '@', Char.ofNat 96].contains a
  if cs.isEmpty || !ends then none else some (String.ofList cs, c)

/-! ## Tags -/

/-- Characters of a tag; some stand in verbatim tags and in prefixes only. -/
def isTagChar (isVerbatim : Bool) (c : Char) : Bool :=
  isWordChar c || [';', '/', '?', ':', '@', '&', '=', '+', '$', '.', '%', '!', '~', '*', '\'', '(',
    ')'].contains c || (isVerbatim && [',', '[', ']'].contains c)

/-- The number of octets of the character that starts with an octet. -/
def sequenceLength (octet : Nat) : Nat :=
  if octet < 0x80 then 1
  else if octet < 0xC0 then 0
  else if octet < 0xE0 then 2
  else if octet < 0xF0 then 3
  else if octet < 0xF8 then 4
  else 0

/-- The octets of a tag. While `pending` is not zero, that many escaped octets have to follow to
complete a character. -/
def tagOctets? (pending : Nat) : List Char → Option Bytes
  | '%' :: a :: b :: rest => do
      let octet ← Digits.read? 16 [a, b]
      let pending ←
        if pending = 0 then
          if sequenceLength octet = 0 then none else some (sequenceLength octet - 1)
        else if 0x80 ≤ octet ∧ octet < 0xC0 then some (pending - 1)
        else none
      return UInt8.ofNat octet :: (← tagOctets? pending rest)
  | c :: rest =>
      if 0 < pending ∨ c = '%' then none
      else (tagOctets? 0 rest).map (UInt8.ofNat c.toNat :: ·)
  | [] => if pending = 0 then some [] else none

/-- The characters of a tag or a prefix at a cursor, with some before them. -/
def tagText? (isVerbatim : Bool) (before : List Char) (c : Cursor) : Option (Bytes × Cursor) := do
  let (cs, c) := c.span (isTagChar isVerbatim)
  return ((← tagOctets? 0 (before ++ cs)).takeWhile (· ≠ 0), c)

/-- An exclamation mark with the word behind it, and whether another mark closes it. -/
def handle (c : Cursor) : List Char × Bool × Cursor :=
  let (word, c) := (c.drop 1).span isWordChar
  if c.at? '!' then ('!' :: word ++ ['!'], true, c.drop 1) else ('!' :: word, false, c)

/-- A tag; an exclamation mark alone is a verbatim tag. -/
def tag? (inFlow : Bool) (c : Cursor) : Option (TagName × Cursor) := do
  let (name, c) ←
    if c.rest.take 2 = ['!', '<'] then do
      let start := c.drop 2
      let (suffix, c) ← tagText? true [] start
      if c.index = start.index || !c.at? '>' then none
      pure (⟨"", suffix⟩, c.drop 1)
    else do
      let (handle, isClosed, start) := handle c
      if isClosed then
        let (suffix, c) ← tagText? false [] start
        if c.index = start.index then none
        pure (⟨String.ofList handle, suffix⟩, c)
      else
        let (suffix, c) ← tagText? false (handle.drop 1) start
        pure (if suffix.isEmpty then ⟨"", [33]⟩ else ⟨"!", suffix⟩, c)
  if endsToken c.rest || (inFlow && c.at? ',') then return (name, c) else none

/-! ## Directives -/

/-- A number of at most nine digits. -/
def shortNumber? (c : Cursor) : Option (Nat × Cursor) := do
  let (ds, c) := c.span Char.isDigit
  if 9 < ds.length then none
  return (← Digits.read? 10 ds, c)

/-- A directive and its line. -/
def directive? (c : Cursor) : Option (Token × Cursor) := do
  let (name, c) := (c.drop 1).span isWordChar
  if !endsToken c.rest then none
  let c := c.skipWhile isBlank
  let (token, c) ←
    if name = ['Y', 'A', 'M', 'L'] then do
      let (major, c) ← shortNumber? c
      if !c.at? '.' then none
      let (minor, c) ← shortNumber? (c.drop 1)
      pure (.version major minor, c)
    else if name = ['T', 'A', 'G'] then do
      if !c.at? '!' then none
      let (handle, isClosed, c) := handle c
      if !(isClosed || handle.length = 1) || !c.rest.head?.any isBlank then none
      let start := c.skipWhile isBlank
      let (octets, c) ← tagText? true [] start
      if c.index = start.index || !endsToken c.rest then none
      pure (.tagPrefix (String.ofList handle) octets, c)
    else none
  return (token, ← c.endOfLine?)

end Config.Yaml

end AgentGovernance
