import AgentGovernance.Proofs.Trace.Replaying

/-!
# The first entry of a chain

A segment that replays and has entry 1 in front sets out from genesis. Entry 1 can also stand behind
another entry, and then it is linked to that one: replaying takes an entry with the id 0 in front of
it. Segments without such an entry have entry 1 linked to genesis, wherever it stands.
-/
namespace AgentGovernance.Trace

variable {a : Arithmetic} {id : Nat} {previous hash : ContentHash}

/-- Where the links of an entry and those behind it are followed, the next id leads on. -/
theorem exists_next_of_followWith {e : Entry} {es : List Entry}
    (h : followWith a id previous (e :: es) = some (.ok hash)) :
    (e.id = id ∧ e.previous = previous) ∧
      ∃ next, a.next? e.id = some next ∧ followWith a next e.hash es = some (.ok hash) := by
  obtain ⟨hlinks, next, hnext, hrest⟩ := followWith_cons_eq_ok_iff.mp h
  obtain ⟨hid, hprevious, -⟩ := linkFault?_eq_none_iff.mp hlinks
  exact ⟨⟨hid, hprevious⟩, next, hid ▸ hnext, hrest⟩

variable {es : List Entry}

/-- Entry 1 in front of a segment that replays is linked to genesis. -/
theorem previous_of_head (h : replayWith a es = some (.ok hash)) {e : Entry} {rest : List Entry}
    (hes : es = e :: rest) (hid : e.id = 1) : e.previous = .genesis := by
  subst hes
  obtain ⟨⟨-, hprevious⟩, -⟩ := exists_next_of_followWith (replayWith_cons_eq_ok_iff.mp h)
  rw [hprevious]
  exact if_pos hid

/-- Neighbours in a segment that replays are linked, with the next id behind. -/
theorem linked_of_neighbours (h : replayWith a es = some (.ok hash)) {before rest : List Entry}
    {d e : Entry} (hes : es = before ++ d :: e :: rest) :
    a.next? d.id = some e.id ∧ e.previous = d.hash := by
  have hfollow : ∃ next reached, followWith a next reached (d :: e :: rest) = some (.ok hash) := by
    subst hes
    cases before with
    | nil => exact ⟨_, _, replayWith_cons_eq_ok_iff.mp h⟩
    | cons first before =>
        exact followWith_append_eq_ok (first :: before) (replayWith_cons_eq_ok_iff.mp h)
  obtain ⟨_, _, hfollow⟩ := hfollow
  obtain ⟨-, next, hnext, hrest⟩ := exists_next_of_followWith hfollow
  obtain ⟨⟨hid, hprevious⟩, -⟩ := exists_next_of_followWith hrest
  exact ⟨hid ▸ hnext, hprevious⟩

/-- Entry 1 stands behind an entry with the id 0, and nothing else does. -/
theorem one_behind_zero (h : replayWith a es = some (.ok hash)) {before rest : List Entry}
    {d e : Entry} (hes : es = before ++ d :: e :: rest) : e.id = 1 ↔ d.id = 0 := by
  have hnext := (linked_of_neighbours h hes).1
  constructor
  · intro hone
    rw [hone] at hnext
    exact Arithmetic.eq_of_next? hnext
  · intro hzero
    rw [hzero, Arithmetic.next?_of_lt (by decide)] at hnext
    exact (Option.some.inj hnext).symm

/-- Whether the entries with the id 1 are linked to genesis depends on those with the id 0. -/
theorem anchored_iff (h : replayWith a es = some (.ok hash)) :
    (∀ e ∈ es, e.id = 1 → e.previous = .genesis) ↔
      ∀ before d e rest, es = before ++ d :: e :: rest → d.id = 0 → d.hash = .genesis := by
  constructor
  · intro hall before d e rest hes hzero
    rw [← (linked_of_neighbours h hes).2]
    apply hall
    · rw [hes]
      simp
    · exact (one_behind_zero h hes).mpr hzero
  · intro hall e he hone
    obtain ⟨before, rest, hes⟩ := List.append_of_mem he
    cases before using List.reverseRecOn with
    | nil => exact previous_of_head h hes hone
    | append_singleton before d =>
        rw [List.append_assoc] at hes
        rw [(linked_of_neighbours h hes).2]
        apply hall before d e rest hes
        exact (one_behind_zero h hes).mp hone

/-- In a segment that replays, entry 1 is linked to genesis where it stands in front. Behind another
entry it is linked to this one, which then has the id 0, and an entry behind one with the id 0 is
entry 1. So all entries with the id 1 are linked to genesis exactly if the hash of genesis is that of
every entry with the id 0 that has another one behind it, and in particular if no entry has the
id 0. -/
theorem firstEntry_anchored (h : replayWith a es = some (.ok hash)) :
    (∀ e rest, es = e :: rest → e.id = 1 → e.previous = .genesis) ∧
    (∀ before d e rest, es = before ++ d :: e :: rest →
      (e.id = 1 ↔ d.id = 0) ∧ e.previous = d.hash) ∧
    ((∀ e ∈ es, e.id = 1 → e.previous = .genesis) ↔
      ∀ before d e rest, es = before ++ d :: e :: rest → d.id = 0 → d.hash = .genesis) ∧
    ((∀ e ∈ es, e.id ≠ 0) → ∀ e ∈ es, e.id = 1 → e.previous = .genesis) := by
  refine ⟨fun e rest => previous_of_head h, ?_, anchored_iff h, ?_⟩
  · intro before d e rest hes
    exact ⟨one_behind_zero h hes, (linked_of_neighbours h hes).2⟩
  · intro hnone
    apply (anchored_iff h).mpr
    intro before d e rest hes hzero
    exact absurd hzero (hnone d (by rw [hes]; simp))

def entryZero : Entry := .sealed 0 .agentPaused "agents" none .genesis .genesis ⟨5⟩

/-- Entry 1, linked to the entry with the id 0. -/
def entryOne : Entry := .sealed 1 .agentResumed "agents" none .genesis entryZero.hash ⟨7⟩

/-- Entry 1 behind an entry with the id 0 is accepted and not linked to genesis. -/
theorem firstEntry_anchored_entryOne :
    replayWith .wrapping [entryZero, entryOne] = some (.ok entryOne.hash) ∧
      entryOne.id = 1 ∧ entryOne.previous = entryZero.hash ∧ entryZero.hash ≠ .genesis ∧
      ¬∀ e ∈ [entryZero, entryOne], e.id = 1 → e.previous = .genesis := by
  have hlinked : Linked 0 .genesis [entryZero, entryOne] :=
    ⟨rfl, rfl, rfl, rfl, rfl, rfl, trivial⟩
  have hids : ∀ e ∈ [entryZero, entryOne], e.id < 2 ^ 64 - 1 := by
    intro e he
    simp only [List.mem_cons, List.not_mem_nil, or_false] at he
    rcases he with rfl | rfl <;> decide
  have hreplay : replayWith .wrapping [entryZero, entryOne] = some (.ok entryOne.hash) :=
    hlinked.replayWith_eq (fun _ => rfl) hids .wrapping
  have hhash : entryZero.hash ≠ .genesis := by decide +kernel
  obtain ⟨-, hneighbours, hiff, -⟩ := firstEntry_anchored hreplay
  refine ⟨hreplay, rfl, (hneighbours [] entryZero entryOne [] rfl).2, hhash, ?_⟩
  rw [hiff]
  exact fun hall => hhash (hall [] entryZero entryOne [] rfl rfl)

end AgentGovernance.Trace
