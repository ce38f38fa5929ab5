import AgentGovernance.ContentHash

/-!
# Agreements

An agreement says which actions are compliant until it expires. It carries a hash over its other
fields. An action is matched by a pattern that is `*`, the action itself, or the start of the
action followed by `*`; a denial wins over an allowance and an empty list allows everything.
-/
namespace AgentGovernance

structure AgreementConstraints where
  allowedActions : List String := []
  deniedActions : List String := []
  deriving DecidableEq, Repr

instance : Codec AgreementConstraints where
  encode c := .record
    [("allowed_actions", encode c.allowedActions), ("denied_actions", encode c.deniedActions)]
  decode? := Codec.readRecord do
    let allowed ← Codec.withDefault "allowed_actions" []
    let denied ← Codec.withDefault "denied_actions" []
    return ⟨allowed, denied⟩

structure Agreement where
  id : AgreementRef
  hash : ContentHash
  ethicsRules : List String
  constraints : AgreementConstraints
  validUntil : Instant
  deriving DecidableEq, Repr

instance : Codec Agreement where
  encode a := .record
    [("agreement_id", encode a.id), ("agreement_hash", encode a.hash),
     ("ethics_rules", encode a.ethicsRules), ("constraints", encode a.constraints),
     ("valid_until", encode a.validUntil)]
  decode? := Codec.readRecord do
    let id ← Codec.required "agreement_id"
    let hash ← Codec.required "agreement_hash"
    let rules ← Codec.required "ethics_rules"
    let constraints ← Codec.required "constraints"
    let until_ ← Codec.required "valid_until"
    return ⟨id, hash, rules, constraints, until_⟩

/-- The answer of a policy authority. -/
structure Decision where
  compliant : Bool
  reason : String
  deriving DecidableEq, Repr

instance : Codec Decision where
  encode d := .record [("compliant", encode d.compliant), ("reason", encode d.reason)]
  decode? := Codec.readRecord do
    let compliant ← Codec.required "compliant"
    let reason ← Codec.required "reason"
    return ⟨compliant, reason⟩

/-- The action checked when an intent is executed. -/
def executeAction (intent : String) : String := "agent.execute:" ++ intent

/-- The action checked when a proposal is committed. -/
def commitAction (proposalType : String) : String := "consensus.commit:" ++ proposalType

namespace Agreement

/-- What stands before the star of a pattern that ends in one. -/
def stem? (pattern : List Char) : Option (List Char) :=
  if pattern.getLast? = some '*' then some pattern.dropLast else none

def patternMatches (pattern action : String) : Bool :=
  pattern = "*" || pattern = action ||
    match stem? pattern.toList with
    | some stem => stem.isPrefixOf action.toList
    | none => false

def computeHash (id : AgreementRef) (rules : List String) (constraints : AgreementConstraints)
    (validUntil : Instant) : ContentHash :=
  .ofTexts
    [id.name, (ContentHash.ofTexts rules).text,
     (ContentHash.ofTexts constraints.allowedActions).text,
     (ContentHash.ofTexts constraints.deniedActions).text, validUntil.offsetText]

/-- An agreement with its hash. -/
def issue (id : AgreementRef) (rules : List String) (constraints : AgreementConstraints)
    (validUntil : Instant) : Agreement :=
  ⟨id, computeHash id rules constraints validUntil, rules, constraints, validUntil⟩

def isConsistent (a : Agreement) : Bool :=
  computeHash a.id a.ethicsRules a.constraints a.validUntil = a.hash

/-- The pattern that denies an action, if one does. -/
def denial? (a : Agreement) (action : String) : Option String :=
  a.constraints.deniedActions.find? (patternMatches · action)

def allows (a : Agreement) (action : String) : Bool :=
  a.constraints.allowedActions.isEmpty || a.constraints.allowedActions.any (patternMatches · action)

def evaluate (a : Agreement) (action : String) (now : Instant) : Decision :=
  if a.validUntil ≤ now then
    ⟨false, "agreement " ++ a.id.name ++ " expired at " ++ a.validUntil.plainText⟩
  else match a.denial? action with
    | some pattern =>
        ⟨false, "action '" ++ action ++ "' denied by pattern '" ++ pattern ++ "' of agreement " ++
         a.id.name⟩
    | none =>
        if a.allows action then
          ⟨true, "action '" ++ action ++ "' permitted by agreement " ++ a.id.name ++
            s!" ({a.ethicsRules.length} ethics rules)"⟩
        else
          ⟨false, "action '" ++ action ++ "' not in allowlist of agreement " ++ a.id.name⟩

end Agreement

end AgentGovernance
