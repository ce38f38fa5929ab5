import AgentGovernance.Memory.Path
import AgentGovernance.Proofs.Framing
import AgentGovernance.Proofs.Memory.Absorption

/-!
# The way up

From a node of a forest the way up leads over its ancestors to a root, with as many links as the
node stands deep, and passes no node twice. Verifying the node goes this way: it ends at the first
node whose hash is wrong and otherwise at the root. That a node is met again or a parent does not
resolve, for which verifying looks out as well, does not happen.
-/
namespace AgentGovernance.Memory

theorem NewNode.hashIsValid_sealed (n : NewNode) (fresh : NodeId) (now : Instant) :
    (n.sealed fresh now).hashIsValid = true := decide_eq_true rfl

namespace Forest

/-- The nodes on the way up from a node, with the number of links to them. -/
inductive Rises (f : Forest) : Node → Nat → Node → Prop
  | refl {n : Node} : Rises f n 0 n
  | link {n next a : Node} {p : NodeId} {k : Nat} : n.parent = some p → f.get? p = some next →
      Rises f next k a → Rises f n (k + 1) a

/-- Every hash on the way up can be recomputed. -/
def IsSound (f : Forest) (n : Node) : Prop := ∀ k a, Rises f n k a → a.hashIsValid = true

/-- A node on the way up is the first one whose hash is wrong. -/
structure FirstFault (f : Forest) (n : Node) (k : Nat) (a : Node) : Prop where
  reached : Rises f n k a
  invalid : a.hashIsValid = false
  below : ∀ j b, j < k → Rises f n j b → b.hashIsValid = true

variable {f : Forest} {n : Node}

/-! ## Climbing -/

section Climb

variable {met : List NodeId} {hn : n ∈ f.nodes}

theorem climb_of_invalid (hnew : n.id ∉ met) (hinvalid : n.hashIsValid = false) :
    f.climb met n hn = (met.length + 1, some (n.id, .hashMismatch n.hash n.recomputeHash)) := by
  rw [climb, if_neg (by simpa using hnew), if_pos (by simp [hinvalid])]

theorem climb_of_root (hnew : n.id ∉ met) (hvalid : n.hashIsValid = true) (hp : n.parent = none) :
    f.climb met n hn = (met.length + 1, none) := by
  rw [climb, if_neg (by simpa using hnew), if_neg (by simp [hvalid])]
  simp only [hp]

theorem climb_of_parent (hnew : n.id ∉ met) (hvalid : n.hashIsValid = true) {p : NodeId}
    {next : Node} (hp : n.parent = some p) (hnext : f.get? p = some next) :
    f.climb met n hn = f.climb (n.id :: met) next (mem_nodes_of_get? hnext) := by
  rw [climb, if_neg (by simpa using hnew), if_neg (by simp [hvalid])]
  simp only [hp]
  split
  next habsent =>
    rw [hnext] at habsent
    cases habsent
  next m hm =>
    obtain rfl := Option.some.inj (hnext.symm.trans hm)
    rfl

end Climb

/-! ## What is met on the way -/

theorem isSound_iff : IsSound f n ↔ n.hashIsValid = true ∧
    ∀ p next, n.parent = some p → f.get? p = some next → IsSound f next := by
  constructor
  · intro h
    exact ⟨h 0 n .refl, fun p next hp hnext k a hrises => h (k + 1) a (.link hp hnext hrises)⟩
  · rintro ⟨hvalid, habove⟩ k a hrises
    cases hrises with
    | refl => exact hvalid
    | link hp hnext hrises => exact habove _ _ hp hnext _ a hrises

/-- What is met on the way up from a stored node is stored. -/
theorem Rises.get? (hf : WellFormed f) {k : Nat} {a : Node} (h : Rises f n k a)
    (hn : f.get? n.id = some n) : f.get? a.id = some a := by
  induction h with
  | refl => exact hn
  | link _ hnext _ ih =>
      refine ih ?_
      rw [hf.id_eq hnext]
      exact hnext

theorem FirstFault.link {p : NodeId} {next a : Node} {k : Nat} (hvalid : n.hashIsValid = true)
    (hp : n.parent = some p) (hnext : f.get? p = some next) (h : FirstFault f next k a) :
    FirstFault f n (k + 1) a where
  reached := .link hp hnext h.reached
  invalid := h.invalid
  below j b hj hrises := by
    cases hrises with
    | refl => exact hvalid
    | link hp' hnext' hrises =>
        obtain rfl := Option.some.inj (hp.symm.trans hp')
        obtain rfl := Option.some.inj (hnext.symm.trans hnext')
        exact h.below _ b (Nat.lt_of_succ_lt_succ hj) hrises

theorem FirstFault.of_link {p : NodeId} {next a : Node} {k : Nat} (hp : n.parent = some p)
    (hnext : f.get? p = some next) (hrises : Rises f next k a) (h : FirstFault f n (k + 1) a) :
    FirstFault f next k a where
  reached := hrises
  invalid := h.invalid
  below j b hj hrises := h.below (j + 1) b (Nat.succ_lt_succ hj) (.link hp hnext hrises)

namespace WellFormed

/-- On the way up there is a wrong hash or there is none, and the root ends the way. -/
theorem isSound_or_firstFault (hf : WellFormed f) {id : NodeId} (hn : f.get? id = some n) :
    IsSound f n ∨ ∃ k a, FirstFault f n k a := by
  refine hf.parent_induction (P := fun id => ∀ n, f.get? id = some n →
    IsSound f n ∨ ∃ k a, FirstFault f n k a) ?_ hn n hn
  intro id m hm ih n hn
  obtain rfl := Option.some.inj (hm.symm.trans hn)
  cases hvalid : m.hashIsValid with
  | false => exact .inr ⟨0, m, .refl, hvalid, fun j _ hj => absurd hj (Nat.not_lt_zero j)⟩
  | true =>
      cases hp : m.parent with
      | none =>
          refine .inl (isSound_iff.mpr ⟨hvalid, fun p next hsome => ?_⟩)
          rw [hp] at hsome
          cases hsome
      | some p =>
          obtain ⟨next, hnext⟩ := hf.parent hm hp
          rcases ih p hp next hnext with hsound | ⟨k, a, hfault⟩
          · refine .inl (isSound_iff.mpr ⟨hvalid, fun q other hq hother => ?_⟩)
            obtain rfl := Option.some.inj (hp.symm.trans hq)
            obtain rfl := Option.some.inj (hnext.symm.trans hother)
            exact hsound
          · exact .inr ⟨k + 1, a, hfault.link hvalid hp hnext⟩

theorem exists_root_above (hf : WellFormed f) {id : NodeId} (hn : f.get? id = some n) :
    ∃ root, Rises f n (f.depth id) root ∧ root.parent = none := by
  refine hf.parent_induction (P := fun id => ∀ n, f.get? id = some n →
    ∃ root, Rises f n (f.depth id) root ∧ root.parent = none) ?_ hn n hn
  intro id m hm ih n hn
  obtain rfl := Option.some.inj (hm.symm.trans hn)
  cases hp : m.parent with
  | none =>
      rw [hf.depth_root hm hp]
      exact ⟨m, .refl, hp⟩
  | some p =>
      obtain ⟨next, hnext⟩ := hf.parent hm hp
      obtain ⟨root, hrises, hroot⟩ := ih p hp next hnext
      rw [hf.depth_child hm hp]
      exact ⟨root, .link hp hnext hrises, hroot⟩

/-! ## What climbing comes to

The nodes that were met stand deeper than the one to be checked, so it is none of them. -/

theorem climb_of_isSound (hf : WellFormed f) {id : NodeId} (hn : f.get? id = some n) :
    ∀ met hmem, (∀ i ∈ met, f.depth id < f.depth i) → IsSound f n →
      f.climb met n hmem = (met.length + f.depth id + 1, none) := by
  refine hf.parent_induction (P := fun id => ∀ n, f.get? id = some n →
    ∀ met hmem, (∀ i ∈ met, f.depth id < f.depth i) → IsSound f n →
      f.climb met n hmem = (met.length + f.depth id + 1, none)) ?_ hn n hn
  intro id m hm ih n hn met hmem hmet hsound
  obtain rfl := Option.some.inj (hm.symm.trans hn)
  obtain rfl := hf.id_eq hm
  have hnew : m.id ∉ met := fun hi => Nat.lt_irrefl _ (hmet m.id hi)
  obtain ⟨hvalid, habove⟩ := isSound_iff.mp hsound
  cases hp : m.parent with
  | none => rw [climb_of_root hnew hvalid hp, hf.depth_root hm hp, Nat.add_zero]
  | some p =>
      obtain ⟨next, hnext⟩ := hf.parent hm hp
      have hdepth := hf.depth_child hm hp
      have hdeeper : ∀ i ∈ m.id :: met, f.depth p < f.depth i := by
        intro i hi
        rcases List.mem_cons.mp hi with rfl | hi
        · omega
        · have hlt := hmet i hi
          omega
      rw [climb_of_parent hnew hvalid hp hnext,
        ih p hp next hnext _ _ hdeeper (habove p next hp hnext), hdepth, List.length_cons]
      simp only [Prod.mk.injEq, and_true]
      omega

theorem climb_of_firstFault (hf : WellFormed f) {k : Nat} {a : Node} {met : List NodeId}
    {hmem : n ∈ f.nodes} (hn : f.get? n.id = some n) (hmet : ∀ i ∈ met, f.depth n.id < f.depth i)
    (h : FirstFault f n k a) :
    f.climb met n hmem =
      (met.length + k + 1, some (a.id, .hashMismatch a.hash a.recomputeHash)) := by
  have hrises := h.reached
  induction hrises generalizing met with
  | refl =>
      have hnew := fun hi => Nat.lt_irrefl _ (hmet _ hi)
      exact climb_of_invalid hnew h.invalid
  | @link n next a p k hp hnext hrises ih =>
      have hnew : n.id ∉ met := fun hi => Nat.lt_irrefl _ (hmet n.id hi)
      have hdepth := hf.depth_child hn hp
      obtain rfl := hf.id_eq hnext
      have hdeeper : ∀ i ∈ n.id :: met, f.depth next.id < f.depth i := by
        intro i hi
        rcases List.mem_cons.mp hi with rfl | hi
        · omega
        · have hlt := hmet i hi
          omega
      have hvalid := h.below 0 n (Nat.succ_pos k) .refl
      rw [climb_of_parent hnew hvalid hp hnext,
        ih hnext hdeeper (h.of_link hp hnext hrises), List.length_cons]
      simp only [Prod.mk.injEq, and_true]
      omega

end WellFormed

/-! ## Verifying -/

theorem verifyPath_eq (hn : f.get? n.id = some n) :
    f.verifyPath n.id = .ok (.ofWalk n.id (f.climb [] n (mem_nodes_of_get? hn))) := by
  unfold verifyPath
  split
  next habsent =>
    rw [hn] at habsent
    cases habsent
  next m hm =>
    obtain rfl := Option.some.inj (hn.symm.trans hm)
    rfl

namespace WellFormed

theorem verifyPath_of_isSound (hf : WellFormed f) (hn : f.get? n.id = some n) (h : IsSound f n) :
    f.verifyPath n.id = .ok ⟨n.id, true, f.depth n.id + 1, none, none⟩ := by
  rw [verifyPath_eq hn, hf.climb_of_isSound hn [] _ (by simp) h, List.length_nil, Nat.zero_add]
  rfl

theorem verifyPath_of_firstFault (hf : WellFormed f) (hn : f.get? n.id = some n) {k : Nat}
    {a : Node} (h : FirstFault f n k a) :
    f.verifyPath n.id = .ok ⟨n.id, false, k + 1, some a.id,
      some (PathFault.hashMismatch a.hash a.recomputeHash).message⟩ := by
  rw [verifyPath_eq hn, hf.climb_of_firstFault hn (by simp) h, List.length_nil, Nat.zero_add]
  rfl

end WellFormed

theorem message_hashMismatch_ne_cycle (stored recomputed : ContentHash) :
    (PathFault.hashMismatch stored recomputed).message ≠ PathFault.cycle.message := by
  intro h
  simpa [PathFault.message] using congrArg (·.toList.head?) h

theorem message_hashMismatch_ne_missingParent (stored recomputed : ContentHash) (p : NodeId) :
    (PathFault.hashMismatch stored recomputed).message ≠ (PathFault.missingParent p).message := by
  intro h
  simpa [PathFault.message] using congrArg (·.toList.head?) h

/-- What a verification has to report of a stored node. -/
structure Reports (f : Forest) (n : Node) (r : PathReport) : Prop where
  /-- The depth of a node is the number of links to its root. -/
  root : ∃ root, Rises f n (f.depth n.id) root ∧ root.parent = none
  valid_iff : r.valid = true ∧ r.checked = f.depth n.id + 1 ↔ IsSound f n
  sound : IsSound f n → r = ⟨n.id, true, f.depth n.id + 1, none, none⟩
  /-- Of several wrong hashes the one closest to the node is reported. -/
  fault : ¬IsSound f n → ∃ k a, FirstFault f n k a ∧ r = ⟨n.id, false, k + 1, some a.id,
    some (PathFault.hashMismatch a.hash a.recomputeHash).message⟩
  reason : ∀ reason ∈ r.reason, reason ≠ PathFault.cycle.message ∧
    ∀ p, reason ≠ (PathFault.missingParent p).message

/-- Whatever nodes have been inserted, verifying a stored node gives a report, and the report is
about the first wrong hash on the way up to the root. -/
theorem verifyPath_reports (hf : Grown {} f) (hn : f.get? n.id = some n) :
    ∃ r, f.verifyPath n.id = .ok r ∧ Reports f n r := by
  have hwell := hf.wellFormed
  have hroot := hwell.exists_root_above hn
  rcases hwell.isSound_or_firstFault hn with hsound | ⟨k, a, hfault⟩
  · refine ⟨_, hwell.verifyPath_of_isSound hn hsound, hroot, by simp [hsound], fun _ => rfl,
      fun hnot => absurd hsound hnot, by simp⟩
  · have hnot : ¬IsSound f n := by
      intro hsound
      have hvalid := hsound k a hfault.reached
      rw [hfault.invalid] at hvalid
      cases hvalid
    refine ⟨_, hwell.verifyPath_of_firstFault hn hfault, hroot, by simp [hnot],
      fun hsound => absurd hsound hnot, fun _ => ⟨k, a, hfault, rfl⟩, ?_⟩
    rintro reason ⟨⟩
    exact ⟨message_hashMismatch_ne_cycle _ _, message_hashMismatch_ne_missingParent _ _⟩

/-- A note below `lateChild` whose hash is right. -/
def sealedNote : Node := NewNode.sealed ⟨some ⟨"c3"⟩, "note", "note", ∅, some ⟨"c2"⟩⟩ ⟨"x"⟩ ⟨30⟩

/-- A hash that is too short is not one that could be computed. -/
theorem hashIsValid_of_length_ne {n : Node} (h : (Bytes.ofString n.hash.text).length ≠ 64) :
    n.hashIsValid = false := by
  rw [Node.hashIsValid, decide_eq_false_iff_not]
  intro hsame
  exact h (hsame ▸ ContentHash.length_text_of _)

/-- Of two wrong hashes above a node the one of its parent is reported and not that of its root. -/
theorem verifyPath_reports_nearer :
    ∃ f root r, Grown {} f ∧ f.verifyPath sealedNote.id = .ok r ∧ Reports f sealedNote r ∧
      Rises f sealedNote 2 root ∧ root.hashIsValid = false ∧ r.valid = false ∧ r.checked = 2 ∧
      r.divergence = some lateChild.id := by
  let f := ((({} : Forest).place staleRoot).place lateChild).place sealedNote
  have hgrown : Grown {} f := by
    have hroot : ({} : Forest).insert staleRoot = .ok (({} : Forest).place staleRoot) := rfl
    have hchild : (({} : Forest).place staleRoot).insert lateChild =
        .ok ((({} : Forest).place staleRoot).place lateChild) := rfl
    have hnote : ((({} : Forest).place staleRoot).place lateChild).insert sealedNote = .ok f := rfl
    exact ((Grown.refl.insert hroot).insert hchild).insert hnote
  have hthere : f.get? sealedNote.id = some sealedNote := rfl
  have hchild : f.get? lateChild.id = some lateChild := rfl
  have hroot : f.get? staleRoot.id = some staleRoot := rfl
  have hwrong : lateChild.hashIsValid = false := hashIsValid_of_length_ne (by decide)
  have hfault : FirstFault f sealedNote 1 lateChild :=
    .link (NewNode.hashIsValid_sealed _ _ _) rfl hchild
      ⟨.refl, hwrong, fun j _ hj => absurd hj (Nat.not_lt_zero j)⟩
  obtain ⟨r, hr, hreports⟩ := verifyPath_reports hgrown hthere
  have hreport := hgrown.wellFormed.verifyPath_of_firstFault hthere hfault
  obtain rfl := Except.ok.inj (hr.symm.trans hreport)
  exact ⟨f, staleRoot, _, hgrown, hr, hreports, .link rfl hchild (.link rfl hroot .refl),
    hashIsValid_of_length_ne (by decide), rfl, rfl, rfl⟩

end Forest

end AgentGovernance.Memory
