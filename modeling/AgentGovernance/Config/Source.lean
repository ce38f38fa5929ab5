import AgentGovernance.Json.Codec

/-!
# Sources of settings

A configuration is read from trees of different syntaxes. What a value is depends on what is wished
for: an unquoted scalar of one syntax is a number where a number is wanted and a text where a text
is wanted. A source answers each kind of wish, and records of settings are read from its answers.
-/
namespace AgentGovernance

namespace Config

/-- The parts of a record: entries with keys, or only their values in order. -/
inductive Parts (κ α : Type) where
  | named (entries : List (κ × α))
  | listed (items : List α)
  deriving Repr

/-- A value for which nothing is wished. -/
inductive Content where
  | text (s : String)
  | word (n : Nat)
  | other
  deriving DecidableEq, Repr

/-- A value that begins with its own type. -/
structure Variant where
  type : String
  settings : Parts Content Content
  deriving Repr

class Source (σ : Type) where
  text? : σ → Option String
  bool? : σ → Option Bool
  /-- A number from zero up to below `2 ^ 64`. -/
  word? : σ → Option Nat
  /-- Whether an optional value is absent; some values may not stand for one. -/
  isNull? : σ → Option Bool
  /-- A name of a closed vocabulary. -/
  choice? : σ → Option String
  fields? : σ → Option (Parts String σ)
  variant? : σ → Option Variant

namespace Source

variable {σ α : Type} [Source σ]

def span? (s : σ) : Option Span := (text? s).bind Span.parse?

def optional? (read : σ → Option α) (s : σ) : Option (Option α) := do
  if ← isNull? s then return none else return some (← read s)

def named? (all : List α) (name : α → String) (s : σ) : Option α :=
  (choice? s).bind fun t => all.find? (name · = t)

def table? (read : σ → Option α) (s : σ) : Option (Table String α) := do
  let .named entries ← fields? s | none
  return Table.ofList (← entries.mapM fun (k, v) => (read v).map ((k, ·)))

/-! ## Records -/

/-- Takes a field, which may be absent but not be given twice. -/
def take? (name : String) : Parts String σ → Option (Option σ × Parts String σ)
  | .named entries =>
      match entries.filter (·.1 = name) with
      | [] => some (none, .named entries)
      | [(_, v)] => some (some v, .named entries)
      | _ => none
  | .listed [] => some (none, .listed [])
  | .listed (v :: rest) => some (some v, .listed rest)

/-- Reads fields of a record, whose parts are used up in order if they have no names. -/
abbrev FieldReader (σ α : Type) : Type := StateT (Parts String σ) Option α

def required (name : String) (read : σ → Option α) : FieldReader σ α := do
  match ← take? name with
  | some v => read v
  | none => failure

def withDefault (name : String) (default : α) (read : σ → Option α) : FieldReader σ α := do
  match ← take? name with
  | some v => read v
  | none => pure default

/-- A field that may be left out where fields have names. -/
def optional (name : String) (read : σ → Option α) : FieldReader σ (Option α) := fun parts => do
  match ← take? name parts, parts with
  | (some v, rest), _ => return (← optional? read v, rest)
  | (none, rest), .named _ => return (none, rest)
  | (none, _), .listed _ => none

/-- Reads a record; no items may be left over. -/
def record? (reader : FieldReader σ α) (s : σ) : Option α := do
  let (a, rest) ← reader (← fields? s)
  match rest with
  | .listed (_ :: _) => none
  | _ => return a

end Source

/-! ## JSON -/

def Content.ofJson : Json → Content
  | .string s => .text s
  | v => ((decode? v : Option Nat).map word).getD other

/-- The last of members with one name counts. -/
instance : Source Json where
  text? v := decode? v
  bool? v := decode? v
  word? v := decode? v
  isNull? v := some (v = .null)
  choice?
    | .string s => some s
    | .object [(s, .null)] => some s
    | _ => none
  fields?
    | .object members => some (.named (Json.sortMembers members))
    | .array items => some (.listed items)
    | _ => none
  variant?
    | .object members => do
        let type ← Json.lookup "type" members >>= decode?
        let others := (Json.sortMembers members).filter (·.1 ≠ "type")
        return ⟨type, .named (others.map fun (k, v) => (.text k, .ofJson v))⟩
    | .array (type :: items) => do
        return ⟨← decode? type, .listed (items.map .ofJson)⟩
    | _ => none

end Config

end AgentGovernance
