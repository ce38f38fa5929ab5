import AgentGovernance.Proofs.Trace.TailHash

/-!
# Altered entries

An entry that was altered under its hash is reported wherever it is looked for, as long as what is
hashed for it has changed. Everything but the hash itself is hashed, and the octets of a field
determine it, except that an absent target has the octets of an empty one. To put the one for the
other is the only alteration that goes unnoticed without a collision.
-/
namespace AgentGovernance.Trace

namespace Entry

/-- A wrong hash is found from whichever point the entry is looked at. -/
theorem forall_exists_linkFault?_iff {e : Entry} :
    (∀ id previous, ∃ fault, e.linkFault? id previous = some fault) ↔
      e.recomputeHash ≠ e.hash := by
  constructor
  · intro h hright
    obtain ⟨fault, hfault⟩ := h e.id e.previous
    rw [linkFault?_eq_none_iff.mpr ⟨rfl, rfl, hright⟩] at hfault
    cases hfault
  · intro hwrong id previous
    rw [← Option.ne_none_iff_exists']
    intro hnone
    exact hwrong (linkFault?_eq_none_iff.mp hnone).2.2

end Entry

/-- Two entries have one hash over their fields exactly if they match, which leaves open only
whether a target is absent or empty, or if they collide. An entry that is put in the place of a
sealed one under its hash is reported for whatever id and hash are expected, exactly if it neither
matches the sealed one nor collides with it. -/
theorem alteration_reported {d e : Entry} (hd : d.IsProper) (he : e.IsProper) :
    (d.recomputeHash = e.recomputeHash ↔ d.Matches e ∨ d.Collides e) ∧
      (d.recomputeHash = d.hash → e.hash = d.hash →
        ((∀ id previous, ∃ fault, e.linkFault? id previous = some fault) ↔
          ¬(d.Matches e ∨ d.Collides e))) := by
  have hiff := Entry.recomputeHash_eq_iff hd he
  refine ⟨hiff, fun hsealed hkept => ?_⟩
  rw [Entry.forall_exists_linkFault?_iff, ← hiff, hkept, ← hsealed]
  exact ne_comm

/-- An empty target in the place of none is not reported. -/
theorem alteration_reported_emptyTarget :
    resumedEntry.target = none ∧ emptyTargetEntry = { resumedEntry with target := some "" } ∧
      resumedEntry.recomputeHash = resumedEntry.hash ∧
      resumedEntry.recomputeHash = emptyTargetEntry.recomputeHash ∧
      ¬∀ id previous, ∃ fault, emptyTargetEntry.linkFault? id previous = some fault := by
  have hproper : resumedEntry.IsProper := ⟨fits_resumedEntry, by decide⟩
  have hproper' : emptyTargetEntry.IsProper := ⟨fits_resumedEntry, by decide⟩
  have hmatches : resumedEntry.Matches emptyTargetEntry := ⟨rfl, rfl, rfl, rfl, rfl, rfl, rfl⟩
  obtain ⟨hhash, hreported⟩ := alteration_reported hproper hproper'
  refine ⟨rfl, rfl, rfl, hhash.mpr (.inl hmatches), ?_⟩
  rw [hreported rfl rfl]
  exact not_not_intro (.inl hmatches)

end AgentGovernance.Trace
