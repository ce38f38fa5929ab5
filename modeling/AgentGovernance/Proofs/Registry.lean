import AgentGovernance.Registry

/-!
# What a registry answers

A registry finds an action compliant exactly if it is online and holds the agreement unaltered, the
agreement has not expired, and none of its patterns denies the action while some pattern allows it
or there is none to allow anything.
-/
namespace AgentGovernance

/-- What an agreement has to say for an action to be compliant. -/
structure Agreement.Permits (a : Agreement) (action : String) (now : Instant) : Prop where
  unexpired : now < a.validUntil
  undenied : ∀ pattern ∈ a.constraints.deniedActions, patternMatches pattern action = false
  allowed : a.constraints.allowedActions = [] ∨
    ∃ pattern ∈ a.constraints.allowedActions, patternMatches pattern action = true

theorem Agreement.denial?_eq_none_iff {a : Agreement} {action : String} :
    a.denial? action = none ↔
      ∀ pattern ∈ a.constraints.deniedActions, patternMatches pattern action = false := by
  simp [denial?, List.find?_eq_none]

theorem Agreement.allows_iff {a : Agreement} {action : String} :
    a.allows action = true ↔ a.constraints.allowedActions = [] ∨
      ∃ pattern ∈ a.constraints.allowedActions, patternMatches pattern action = true := by
  simp [allows]

theorem Agreement.evaluate_compliant_iff {a : Agreement} {action : String} {now : Instant} :
    (a.evaluate action now).compliant = true ↔ a.Permits action now := by
  have hfields : a.Permits action now ↔
      ¬a.validUntil ≤ now ∧ a.denial? action = none ∧ a.allows action = true := by
    rw [denial?_eq_none_iff, allows_iff]
    exact ⟨fun h => ⟨Int.not_le.mpr h.unexpired, h.undenied, h.allowed⟩,
      fun ⟨hlater, hdenied, hallowed⟩ => ⟨Int.not_le.mp hlater, hdenied, hallowed⟩⟩
  rw [hfields]
  unfold evaluate
  split
  next hexpired => simp [hexpired]
  next hvalid =>
    split
    next hdenied => simp [hdenied]
    next hdenied => cases hallows : a.allows action <;> simp [hvalid, hdenied]

/-- What a registry has to hold to find an action compliant. -/
structure Registry.Clears (r : Registry) (agreement : AgreementRef) (action : String)
    (now : Instant) : Prop where
  online : r.isOffline = false
  held : ∃ a, r.get? agreement = some a ∧ a.isConsistent = true ∧ a.Permits action now

theorem Registry.judge_compliant_iff {r : Registry} {agreement : AgreementRef} {action : String}
    {now : Instant} :
    (∃ d, r.judge agreement action now = .ok d ∧ d.compliant = true) ↔
      r.Clears agreement action now := by
  unfold judge
  constructor
  · rintro ⟨d, hd, hcompliant⟩
    split at hd
    · cases hd
    next hoffline =>
      split at hd
      · cases hd
      next a ha =>
        split at hd
        next hconsistent =>
          cases hd
          exact ⟨Bool.eq_false_iff.mpr hoffline, a, ha, hconsistent,
            Agreement.evaluate_compliant_iff.mp hcompliant⟩
        · cases hd
  · rintro ⟨honline, a, ha, hconsistent, hpermits⟩
    refine ⟨a.evaluate action now, ?_, Agreement.evaluate_compliant_iff.mpr hpermits⟩
    simp [honline, ha, hconsistent]

/-- A registry replies to what it is asked to judge, and others to everything else. -/
def Registry.replies (r : Registry) (others : (q : Request) → q.Reply) (now : Instant) :
    (q : Request) → q.Reply
  | .judge agreement action => r.judge agreement action now
  | q => others q

end AgentGovernance
