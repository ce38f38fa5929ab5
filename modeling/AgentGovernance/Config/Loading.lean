import AgentGovernance.Config.Manifest
import AgentGovernance.Config.Yaml.Value
import AgentGovernance.Config.Yaml.Writer

/-!
# Loading manifests

A manifest is read from the file that is asked for, or else from the one the environment names, or
else from the one in the home directory if there is one, and is the default manifest otherwise. Four
variables of the environment then override settings; a value that cannot be read is ignored.
-/
namespace AgentGovernance

namespace Config

def Manifest.ofYaml? (text : String) : Option Manifest := do
  let document ← Yaml.read? text
  manifest? (Yaml.Value.mk document document.root)

def Manifest.toYaml (m : Manifest) : String := Yaml.render m.toJson

/-! ## The environment -/

/-- Decimal digits, with a plus in front at most, of a 64-bit word. -/
def wordOf? (text : String) : Option Nat := do
  let digits := match text.toList with
    | '+' :: rest => rest
    | cs => cs
  let n ← Digits.read? 10 digits
  if n < 1 <<< 64 then some n else none

namespace Manifest

def withLogLevel (m : Manifest) (level : String) : Manifest :=
  { m with spec := { m.spec with log := { m.spec.log with level } } }

/-- Names of formats are read in either case. -/
def withLogFormat (m : Manifest) (text : String) : Manifest :=
  match LogFormat.all.find? fun f => f.name.toList = text.toList.map Char.toLower with
  | some format => { m with spec := { m.spec with log := { m.spec.log with format } } }
  | none => m

def withStorePath (m : Manifest) (path : String) : Manifest :=
  { m with spec := { m.spec with audit := { m.spec.audit with store := .sled path } } }

def withCheckpointInterval (m : Manifest) (text : String) : Manifest :=
  match wordOf? text with
  | some n =>
      { m with spec := { m.spec with audit := { m.spec.audit with checkpointInterval := n } } }
  | none => m

/-- The manifest with the overrides of an environment. -/
def overridden (m : Manifest) (environment : Table String String) : Manifest :=
  let change (m : Manifest) (name : String) (f : Manifest → String → Manifest) : Manifest :=
    (environment.find? name).elim m (f m)
  let m := change m "COVENANT_LOG_LEVEL" withLogLevel
  let m := change m "COVENANT_LOG_FORMAT" withLogFormat
  let m := change m "COVENANT_TRACE_STORE_PATH" withStorePath
  change m "COVENANT_CHECKPOINT_INTERVAL" withCheckpointInterval

end Manifest

/-! ## Files -/

inductive FileError where
  | unreadable (path : String)
  | unparsable (path : String)
  | unwritable (path : String)
  deriving DecidableEq, Repr

def FileError.message : FileError → String
  | .unreadable path => "Failed to read config at " ++ path
  | .unparsable path => "Failed to parse config at " ++ path
  | .unwritable path => "Failed to write config to " ++ path

/-- A path and the text of the file there, if there is one. -/
structure File where
  path : String
  text : Option String

def File.manifest (f : File) : Except FileError Manifest :=
  match f.text with
  | none => .error (.unreadable f.path)
  | some text =>
      match Manifest.ofYaml? text with
      | none => .error (.unparsable f.path)
      | some m => .ok m

/-- The manifest in effect, given the file asked for, the file the environment names, the file in
the home directory and the environment. -/
def load (explicit named : Option File) (home : File) (environment : Table String String) :
    Except FileError Manifest :=
  let chosen := (explicit.or named).or (if home.text.isSome then some home else none)
  (chosen.elim (.ok {}) File.manifest).map (·.overridden environment)

/-- Whether a path from a directory without subdirectories names a place for a file in it. A name
has at most 255 octets, none of which is zero. -/
def isFileName (name : String) : Bool :=
  let parts := name.splitOn "/"
  let isStay (part : String) : Bool := ["", ".", ".."].contains part
  let file := parts.getLast?.getD ""
  parts.dropLast.all isStay && !isStay file && file.utf8ByteSize ≤ 255 &&
    !name.contains (Char.ofNat 0)

/-- Saving to a directory without subdirectories fails for every path that does not name a file in
it. A path from the root leaves the directory aside. -/
def savingError? (directory name : String) : Option FileError :=
  let path := if name.startsWith "/" then name else directory ++ "/" ++ name
  if isFileName name then none else some (.unwritable path)

end Config

end AgentGovernance
