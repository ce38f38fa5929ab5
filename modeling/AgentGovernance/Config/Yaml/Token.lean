import AgentGovernance.Bytes

/-!
# Tokens of YAML

Blocks are delimited by indentation, so the starts and ends of blocks are tokens without characters
of their own, and so is the token that makes what follows a key.
-/
namespace AgentGovernance

namespace Config.Yaml

/-- How a scalar is written. -/
inductive Style where
  | plain
  | quoted
  | literal
  | folded
  deriving DecidableEq, Repr

/-- A tag as it is written: its handle, whose prefix is to be put before its suffix. A verbatim tag
has no handle. -/
structure TagName where
  handle : String
  suffix : Bytes
  deriving DecidableEq, Repr

inductive Token where
  | version (major minor : Nat)
  | tagPrefix (handle : String) (octets : Bytes)
  | documentStart
  | documentEnd
  | blockSequence
  | blockMapping
  | blockEnd
  | flowSequence
  | flowSequenceEnd
  | flowMapping
  | flowMappingEnd
  | dash
  | comma
  | key
  | value
  | alias (name : String)
  | anchor (name : String)
  | tag (name : TagName)
  | scalar (style : Style) (text : String)
  | streamEnd
  deriving DecidableEq, Repr

end Config.Yaml

end AgentGovernance
