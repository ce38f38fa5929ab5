import AgentGovernance.Digest.Sha2
import AgentGovernance.Json.Codec

/-!
# Content hashes

A content hash is the SHA-256 digest of some bytes as 64 hexadecimal digits. Several fields are
hashed together with their lengths in front, so that no two lists of fields give one byte string.
A JSON value is hashed as the compact text of its canonical form.

A hash that was read rather than computed may be any text.
-/
namespace AgentGovernance

structure ContentHash where
  text : String
  deriving DecidableEq, Repr, Inhabited

namespace ContentHash

instance : ToString ContentHash := ⟨text⟩

instance : Codec ContentHash := Codec.wrapped ContentHash.text ContentHash.mk

/-- What the first entry of a chain links to. -/
def genesis : ContentHash := ⟨String.ofList (List.replicate 64 '0')⟩

def of (bytes : Bytes) : ContentHash := ⟨Hex.encode (Sha2.sha256 bytes)⟩

/-- A field behind its length in eight octets. -/
def frame (field : Bytes) : Bytes := Bytes.bigEndian 8 field.length ++ field

def frames (fields : List Bytes) : Bytes := fields.flatMap frame

def ofFields (fields : List Bytes) : ContentHash := of (frames fields)

def ofTexts (texts : List String) : ContentHash := ofFields (texts.map Bytes.ofString)

def ofJson (v : Json) : ContentHash := of (Bytes.ofString v.canonical.compact)

end ContentHash

end AgentGovernance
