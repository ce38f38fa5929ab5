import AgentGovernance.Memory.Store
import AgentGovernance.Proofs.Memory.Consistency

/-!
# Owners

The table of owners names an agent for an id exactly when the node is in the forest of this agent.
Every call keeps it so, refused ones included, and also a compaction during which other calls come
in. What is looked up through the table is therefore found whenever it is in some forest, an id that
is in none can be used again, and a call for one agent leaves the forests of the others alone.
-/
namespace AgentGovernance.Memory

open Forest

/-- A verification of a node that is there gives a report. -/
theorem Forest.verifyPath_of_contains {f : Forest} {id : NodeId} (h : f.contains id = true) :
    ∃ r, f.verifyPath id = .ok r := by
  obtain ⟨n, hn⟩ := contains_iff.mp h
  unfold verifyPath
  split
  next habsent =>
    rw [hn] at habsent
    cases habsent
  next => exact ⟨_, rfl⟩

namespace Store

theorem forest_withForest (s : Store) (a b : AgentId) (f : Forest) :
    (s.withForest a f).forest b = if b = a then f else s.forest b := by
  simp only [forest, withForest, Table.find?_insert]
  split <;> rfl

@[simp] theorem forest_reserve (s : Store) (agent : AgentId) (id : NodeId) (b : AgentId) :
    (s.reserve agent id).forest b = s.forest b := rfl

/-- A refusal leaves every forest as it was, even when it brings an empty one into being, -/
theorem forest_refused (s : Store) (agent : AgentId) (id : NodeId) (b : AgentId) :
    (((s.reserve agent id).withForest agent (s.forest agent)).release id).forest b =
      s.forest b := by
  change ((s.reserve agent id).withForest agent (s.forest agent)).forest b = s.forest b
  rw [forest_withForest]
  split
  next hb => rw [hb]
  next => rfl

/-- and an id that was free is free again. -/
theorem find?_owners_refused {s : Store} {id : NodeId} (h : s.owners.find? id = none)
    (agent : AgentId) (f : Forest) (j : NodeId) :
    (((s.reserve agent id).withForest agent f).release id).owners.find? j = s.owners.find? j := by
  change ((s.owners.insert id agent).erase id).find? j = s.owners.find? j
  rw [Table.find?_erase, Table.find?_insert]
  split
  next hj => rw [hj, h]
  next => rfl

theorem find?_forests_of_contains {s : Store} {agent : AgentId} {id : NodeId}
    (h : (s.forest agent).contains id = true) :
    s.forests.find? agent = some (s.forest agent) := by
  cases hfind : s.forests.find? agent with
  | some f => rw [forest, hfind, Option.getD_some]
  | none =>
      rw [forest, hfind] at h
      cases h

/-! ## What calls do -/

/-- A node is refused because its id is in use, or because the forest refuses it, or it is placed. -/
theorem place_cases (s : Store) (agent : AgentId) (n : Node) :
    (∃ owner, s.owners.find? n.id = some owner ∧ (s.place agent n).state = s ∧
      (s.place agent n).result = .error (.invalidState (.nodeExists n.id))) ∨
    s.owners.find? n.id = none ∧
      ((∃ e, (s.forest agent).insert n = .error e ∧
          (s.place agent n).state =
            ((s.reserve agent n.id).withForest agent (s.forest agent)).release n.id ∧
          (s.place agent n).result = .error e) ∨
        ∃ grown, (s.forest agent).insert n = .ok grown ∧
          (s.place agent n).state = (s.reserve agent n.id).withForest agent grown ∧
          (s.place agent n).result = .ok n.id) := by
  cases howner : s.owners.find? n.id with
  | some owner =>
      have hused : s.owners.contains n.id = true := by rw [Table.contains, howner]; rfl
      refine .inl ⟨owner, rfl, ?_⟩
      rw [place, if_pos hused]
      exact ⟨rfl, rfl⟩
  | none =>
      have hfree : ¬s.owners.contains n.id = true := by
        rw [Table.contains, howner]
        exact Bool.false_ne_true
      refine .inr ⟨rfl, ?_⟩
      rw [place, if_neg hfree]
      dsimp only
      rw [forest_reserve]
      cases (s.forest agent).insert n with
      | error e => exact .inl ⟨e, rfl, rfl, rfl⟩
      | ok grown => exact .inr ⟨grown, rfl, rfl, rfl⟩

/-- What an insertion for an agent makes of a store. -/
structure Inserted (s t : Store) (agent : AgentId) : Prop where
  grown : Grown (s.forest agent) (t.forest agent)
  others : ∀ b, b ≠ agent → t.forest b = s.forest b

/-- The forest that a compaction leaves. -/
def kept (s : Store) (c : Compaction) : Forest :=
  (c.base.compacted c.horizon).absorbNewer c.base (s.forest c.agent)

theorem forest_finishCompaction (s : Store) (c : Compaction) (b : AgentId) :
    (s.finishCompaction c).state.forest b = if b = c.agent then s.kept c else s.forest b :=
  forest_withForest s c.agent b (s.kept c)

theorem find?_owners_finishCompaction (s : Store) (c : Compaction) (id : NodeId)
    (agent : AgentId) :
    (s.finishCompaction c).state.owners.find? id = some agent ↔
      s.owners.find? id = some agent ∧
        ¬(agent = c.agent ∧ c.base.contains id = true ∧ (s.kept c).contains id = false) := by
  change (s.owners.filter fun id owner =>
    !((c.base.contains id && !(s.kept c).contains id) && owner = c.agent)).find? id = _ ↔ _
  rw [Table.find?_filter, Option.filter_eq_some_iff]
  refine and_congr_right fun _ => ?_
  rw [Bool.not_eq_true', ← Bool.not_eq_true, Bool.and_eq_true, Bool.and_eq_true,
    Bool.not_eq_true', decide_eq_true_eq, and_comm]

/-! ## Owned nodes -/

/-- Every forest has grown by insertions, and the owner of a node is the agent in whose forest it
is. -/
structure Owned (s : Store) : Prop where
  grown : ∀ agent, Grown {} (s.forest agent)
  owner_iff : ∀ {id agent},
    s.owners.find? id = some agent ↔ (s.forest agent).contains id = true

namespace Owned

variable {s : Store}

theorem empty (limits : Limits) : Owned { limits } where
  grown _ := .refl
  owner_iff := by
    intro id agent
    constructor
    · intro h
      cases h
    · intro h
      cases h

theorem sole (h : s.Owned) {id : NodeId} {a b : AgentId}
    (ha : (s.forest a).contains id = true) (hb : (s.forest b).contains id = true) : a = b := by
  rw [← h.owner_iff] at ha hb
  exact Option.some.inj (ha.symm.trans hb)

theorem find?_owners_eq_none_iff (h : s.Owned) {id : NodeId} :
    s.owners.find? id = none ↔ ∀ agent, (s.forest agent).contains id = false := by
  rw [Option.eq_none_iff_forall_ne_some]
  refine forall_congr' fun agent => ?_
  rw [ne_eq, h.owner_iff, Bool.not_eq_true]

theorem ownerForest_of_contains (h : s.Owned) {id : NodeId} {agent : AgentId}
    (hid : (s.forest agent).contains id = true) : s.ownerForest id = .ok (s.forest agent) := by
  rw [ownerForest, h.owner_iff.mpr hid, Option.bind_some, find?_forests_of_contains hid]

theorem ownerForest_of_absent (h : s.Owned) {id : NodeId}
    (hid : ∀ agent, (s.forest agent).contains id = false) :
    s.ownerForest id = .error (notFound id) := by
  rw [ownerForest, h.find?_owners_eq_none_iff.mpr hid, Option.bind_none]

/-- A node that is placed goes to the agent; nobody had its id. -/
theorem placed (h : s.Owned) {agent : AgentId} {n : Node} {grown : Forest}
    (hfree : s.owners.find? n.id = none) (hinsert : (s.forest agent).insert n = .ok grown) :
    Owned ((s.reserve agent n.id).withForest agent grown) := by
  obtain ⟨hplace, rfl⟩ := insert_eq_ok_iff.mp hinsert
  have habsent := h.find?_owners_eq_none_iff.mp hfree
  refine ⟨fun b => ?_, fun {id b} => ?_⟩
  · rw [forest_withForest]
    split
    next => exact (h.grown agent).insert hinsert
    next => exact h.grown b
  · change (s.owners.insert n.id agent).find? id = some b ↔ _
    rw [Table.find?_insert, forest_withForest, forest_reserve]
    by_cases hid : id = n.id
    · rw [if_pos hid, hid]
      by_cases hb : b = agent
      · rw [if_pos hb, hb, contains_iff, get?_place, if_pos rfl]
        simp
      · rw [if_neg hb, habsent b]
        simp [Ne.symm hb]
    · rw [if_neg hid, h.owner_iff]
      by_cases hb : b = agent
      · rw [if_pos hb, hb, contains_iff, contains_iff, get?_place, if_neg hid]
      · rw [if_neg hb]

/-- A node that is refused gives its id up. -/
theorem refused (h : s.Owned) {agent : AgentId} {n : Node} (hfree : s.owners.find? n.id = none) :
    Owned (((s.reserve agent n.id).withForest agent (s.forest agent)).release n.id) where
  grown b := by
    rw [forest_refused]
    exact h.grown b
  owner_iff := by
    intro id b
    rw [find?_owners_refused hfree, forest_refused]
    exact h.owner_iff

theorem place (h : s.Owned) (agent : AgentId) (n : Node) :
    Owned (s.place agent n).state ∧ Inserted s (s.place agent n).state agent := by
  rcases s.place_cases agent n with ⟨owner, -, hstate, -⟩ | ⟨hfree, hrest⟩
  · rw [hstate]
    exact ⟨h, .refl, fun _ _ => rfl⟩
  · rcases hrest with ⟨e, -, hstate, -⟩ | ⟨grown, hinsert, hstate, -⟩
    · have hsame := s.forest_refused agent n.id
      rw [hstate]
      refine ⟨h.refused hfree, ?_, fun b _ => hsame b⟩
      rw [hsame]
      exact .refl
    · rw [hstate]
      refine ⟨h.placed hfree hinsert, ?_, fun b hb => ?_⟩
      · rw [forest_withForest, if_pos rfl]
        exact Grown.refl.insert hinsert
      · rw [forest_withForest, if_neg hb, forest_reserve]

theorem insert (h : s.Owned) (agent : AgentId) (n : NewNode) (fresh : NodeId) (now : Instant) :
    Owned (s.insert agent n fresh now).state ∧
      Inserted s (s.insert agent n fresh now).state agent := by
  rw [Store.insert]
  split
  next => exact ⟨h, .refl, fun _ _ => rfl⟩
  next => exact h.place agent (n.sealed fresh now)

/-- Finishing a compaction gives up the ids of the pruned nodes and of no others. -/
theorem finishCompaction (h : s.Owned) {c : Compaction} (hbase : Grown {} c.base)
    (hcurrent : Grown c.base (s.forest c.agent)) : Owned (s.finishCompaction c).state := by
  obtain ⟨-, hwithin, -⟩ := absorbNewer_compacted hbase hcurrent c.horizon
  refine ⟨fun b => ?_, fun {id b} => ?_⟩
  · rw [forest_finishCompaction]
    split
    next => exact (grown_compacted c.base c.horizon).trans (grown_absorbNewer _ _ _)
    next => exact h.grown b
  · rw [find?_owners_finishCompaction, forest_finishCompaction, h.owner_iff]
    by_cases hb : b = c.agent
    · rw [if_pos hb, hb]
      constructor
      · intro hid
        by_contra hgone
        rw [Bool.not_eq_true] at hgone
        have hcopy : c.base.contains id = true := by
          by_contra hnew
          rw [Bool.not_eq_true] at hnew
          have hthere := contains_absorbNewer_of_newer hbase hcurrent c.horizon hid.1 hnew
          rw [kept, hthere] at hgone
          cases hgone
        exact hid.2 ⟨rfl, hcopy, hgone⟩
      · intro hid
        obtain ⟨n, hn⟩ := contains_iff.mp hid
        refine ⟨contains_iff.mpr ⟨n, hwithin id n hn⟩, ?_⟩
        intro hpruned
        rw [hpruned.2.2] at hid
        cases hid
    · rw [if_neg hb]
      simp [hb]

end Owned

/-! ## Looking up -/

/-- The table of owners, what is looked up through it and the forests agree. -/
structure Accords (s : Store) : Prop where
  /-- The owner of a node is the agent whose forest has it, -/
  owner : ∀ id agent, s.owners.find? id = some agent ↔ (s.forest agent).contains id = true
  /-- and no two forests have it. -/
  sole : ∀ id a b, (s.forest a).contains id = true → (s.forest b).contains id = true → a = b
  /-- What is in a forest is found there, -/
  found : ∀ id agent, (s.forest agent).contains id = true →
    (∃ n, (s.forest agent).get? id = some n ∧ s.get id = .ok n) ∧
      s.children id = .ok ((s.forest agent).children id) ∧
      ∃ r, (s.forest agent).verifyPath id = .ok r ∧ (s.verifyPath id).result = .ok r
  /-- what is in none is not found, -/
  absent : ∀ id, (∀ agent, (s.forest agent).contains id = false) →
    s.get id = .error (notFound id) ∧ s.children id = .error (notFound id) ∧
      (s.verifyPath id).result = .error (notFound id)
  /-- and its id is free: an insertion under it may be refused for other reasons only. -/
  free : ∀ agent n fresh now,
    (∀ other, (s.forest other).contains (NewNode.sealed n fresh now).id = false) →
      (∀ id, (s.insert agent n fresh now).result ≠ .error (.invalidState (.nodeExists id))) ∧
      (s.isOversized n = false → Placeable (s.forest agent) (n.sealed fresh now) →
        (s.insert agent n fresh now).result = .ok (n.sealed fresh now).id)

/-- Nothing changes for an agent: neither its forest nor what is found and verified in it. -/
structure Spares (s t : Store) (agent : AgentId) : Prop where
  forest : t.forest agent = s.forest agent
  get : ∀ id, (s.forest agent).contains id = true → t.get id = s.get id
  children : ∀ id, (s.forest agent).contains id = true → t.children id = s.children id
  verifyPath : ∀ id, (s.forest agent).contains id = true →
    (t.verifyPath id).result = (s.verifyPath id).result

namespace Owned

variable {s : Store}

theorem get_eq (h : s.Owned) {id : NodeId} {agent : AgentId} {n : Node}
    (hn : (s.forest agent).get? id = some n) : s.get id = .ok n := by
  have hforest := h.ownerForest_of_contains (contains_iff.mpr ⟨n, hn⟩)
  rw [Store.get, hforest]
  dsimp only [bind, Except.bind]
  rw [hn]
  rfl

theorem children_eq (h : s.Owned) {id : NodeId} {agent : AgentId}
    (hid : (s.forest agent).contains id = true) :
    s.children id = .ok ((s.forest agent).children id) := by
  rw [Store.children, h.ownerForest_of_contains hid]
  exact if_pos hid

theorem verifyPath_eq (h : s.Owned) {id : NodeId} {agent : AgentId} {r : PathReport}
    (hid : (s.forest agent).contains id = true) (hr : (s.forest agent).verifyPath id = .ok r) :
    (s.verifyPath id).result = .ok r := by
  have hlookup : (s.ownerForest id >>= (·.verifyPath id)) = .ok r := by
    rw [h.ownerForest_of_contains hid]
    exact hr
  rw [Store.verifyPath, hlookup]

theorem insert_of_free (h : s.Owned) {agent : AgentId} {n : NewNode} {fresh : NodeId}
    {now : Instant} (hfree : ∀ other, (s.forest other).contains (n.sealed fresh now).id = false) :
    (∀ id, (s.insert agent n fresh now).result ≠ .error (.invalidState (.nodeExists id))) ∧
      (s.isOversized n = false → Placeable (s.forest agent) (n.sealed fresh now) →
        (s.insert agent n fresh now).result = .ok (n.sealed fresh now).id) := by
  rw [Store.insert]
  split
  next hlarge =>
    refine ⟨fun id hresult => ?_, fun hsmall => ?_⟩
    · cases hresult
    · rw [hlarge] at hsmall
      cases hsmall
  next =>
    rcases s.place_cases agent (n.sealed fresh now) with ⟨owner, howner, -⟩ | ⟨-, hrest⟩
    · rw [h.find?_owners_eq_none_iff.mpr hfree] at howner
      cases howner
    · rcases hrest with ⟨e, hinsert, -, hresult⟩ | ⟨grown, -, -, hresult⟩
      · rw [hresult]
        refine ⟨fun id he => ?_, fun _ hplace => ?_⟩
        · obtain rfl := Except.error.inj he
          rcases insert_error_cases hinsert with ⟨-, he⟩ | ⟨hthere, -⟩ | ⟨p, -, -, he⟩
          · cases he
          · rw [hfree agent] at hthere
            cases hthere
          · cases he
        · rw [insert_eq_ok_iff.mpr ⟨hplace, rfl⟩] at hinsert
          cases hinsert
      · rw [hresult]
        refine ⟨fun id he => ?_, fun _ _ => rfl⟩
        cases he

theorem accords (h : s.Owned) : s.Accords where
  owner _ _ := h.owner_iff
  sole _ _ _ := h.sole
  found id agent hid := by
    obtain ⟨n, hn⟩ := contains_iff.mp hid
    obtain ⟨r, hr⟩ := verifyPath_of_contains hid
    exact ⟨⟨n, hn, h.get_eq hn⟩, h.children_eq hid, r, hr, h.verifyPath_eq hid hr⟩
  absent id hid := by
    have hnone := h.ownerForest_of_absent hid
    refine ⟨?_, ?_, ?_⟩
    · rw [Store.get, hnone]
      rfl
    · rw [Store.children, hnone]
      rfl
    · rw [Store.verifyPath, hnone]
      rfl
  free _ _ _ _ hfree := h.insert_of_free hfree

/-- What is looked up for an agent depends on its forest only. -/
theorem spares (hs : s.Owned) {t : Store} (ht : t.Owned) {agent : AgentId}
    (hsame : t.forest agent = s.forest agent) : Spares s t agent where
  forest := hsame
  get id hid := by
    obtain ⟨n, hn⟩ := contains_iff.mp hid
    rw [hs.get_eq hn, ht.get_eq (hsame ▸ hn)]
  children id hid := by
    have hid' : (t.forest agent).contains id = true := hsame ▸ hid
    rw [hs.children_eq hid, ht.children_eq hid', hsame]
  verifyPath id hid := by
    obtain ⟨r, hr⟩ := verifyPath_of_contains hid
    rw [hs.verifyPath_eq hid hr, ht.verifyPath_eq (hsame ▸ hid) (hsame ▸ hr)]

end Owned

/-! ## Runs -/

inductive Action where
  | insert (agent : AgentId) (n : NewNode) (fresh : NodeId) (now : Instant)
  | compact (agent : AgentId) (now : Instant)
  /-- A compaction sets out; other calls may come before it finishes. -/
  | start (agent : AgentId) (now : Instant)
  | finish (agent : AgentId)

/-- The agent for which a call is made. -/
def Action.agent : Action → AgentId
  | .insert agent .. => agent
  | .compact agent _ => agent
  | .start agent _ => agent
  | .finish agent => agent

structure Run where
  store : Store
  underway : Table AgentId Compaction := ∅

namespace Run

/-- Compactions of one agent come one after the other: a second one waits. -/
def step (r : Run) : Action → Run
  | .insert agent n fresh now =>
      { r with store := (r.store.insert agent n fresh now).state }
  | .compact agent now =>
      if r.underway.contains agent then r
      else { r with store := (r.store.compact agent now).state }
  | .start agent now =>
      if r.underway.contains agent then r
      else match r.store.startCompaction agent now with
        | .error _ => r
        | .ok c => { r with underway := r.underway.insert agent c }
  | .finish agent =>
      match r.underway.find? agent with
      | none => r
      | some c =>
          { store := (r.store.finishCompaction c).state, underway := r.underway.erase agent }

def after (limits : Limits) (actions : List Action) : Run :=
  actions.foldl step { store := { limits } }

/-- A compaction that is under way set out from a forest from which the present one has grown. -/
structure Sound (r : Run) : Prop where
  owned : r.store.Owned
  underway : ∀ {agent c}, r.underway.find? agent = some c →
    c.agent = agent ∧ Grown {} c.base ∧ Grown c.base (r.store.forest agent)

theorem startCompaction_eq_ok {s : Store} {agent : AgentId} {now : Instant} {c : Compaction}
    (h : s.startCompaction agent now = .ok c) : c.agent = agent ∧ c.base = s.forest agent := by
  unfold startCompaction at h
  split at h
  next => cases h
  next base hbase =>
    obtain rfl := Except.ok.inj h
    rw [forest, hbase]
    exact ⟨rfl, rfl⟩

/-- What finishing a compaction keeps, while no other one of the agent is under way. -/
theorem Sound.finishCompaction {r : Run} (h : r.Sound) {c : Compaction} (hbase : Grown {} c.base)
    (hcurrent : Grown c.base (r.store.forest c.agent)) {underway : Table AgentId Compaction}
    (hothers : ∀ {b d}, underway.find? b = some d → b ≠ c.agent ∧ r.underway.find? b = some d) :
    Sound ⟨(r.store.finishCompaction c).state, underway⟩ := by
  refine ⟨h.owned.finishCompaction hbase hcurrent, fun {b d} hd => ?_⟩
  obtain ⟨hb, hunderway⟩ := hothers hd
  have hsame : (r.store.finishCompaction c).state.forest b = r.store.forest b := by
    rw [forest_finishCompaction, if_neg hb]
  dsimp only
  rw [hsame]
  exact h.underway hunderway

theorem Sound.step {r : Run} (h : r.Sound) (action : Action) : (r.step action).Sound := by
  cases action with
  | insert agent n fresh now =>
      obtain ⟨howned, hinserted⟩ := h.owned.insert agent n fresh now
      refine ⟨howned, fun {b c} hc => ?_⟩
      obtain ⟨hagent, hbase, hcurrent⟩ := h.underway hc
      refine ⟨hagent, hbase, ?_⟩
      by_cases hb : b = agent
      · subst hb
        exact hcurrent.trans hinserted.grown
      · exact (hinserted.others b hb).symm ▸ hcurrent
  | compact agent now =>
      rw [Run.step]
      split
      next => exact h
      next hnone =>
        rw [Store.compact]
        cases hstart : r.store.startCompaction agent now with
        | error e => exact ⟨h.owned, h.underway⟩
        | ok c =>
            obtain ⟨hagent, hbase⟩ := startCompaction_eq_ok hstart
            have hgrown : Grown {} c.base := hbase ▸ h.owned.grown agent
            have hcurrent : Grown c.base (r.store.forest c.agent) := by
              rw [hbase, hagent]
              exact .refl
            refine h.finishCompaction hgrown hcurrent fun {b d} hd => ⟨?_, hd⟩
            intro hb
            rw [hb, hagent] at hd
            exact hnone (by rw [Table.contains, hd]; rfl)
  | start agent now =>
      rw [Run.step]
      split
      next => exact h
      next =>
        cases hstart : r.store.startCompaction agent now with
        | error e => exact h
        | ok c =>
            obtain ⟨hagent, hbase⟩ := startCompaction_eq_ok hstart
            refine ⟨h.owned, fun {b d} hd => ?_⟩
            dsimp only at hd ⊢
            rw [Table.find?_insert] at hd
            split at hd
            next hb =>
              obtain rfl := Option.some.inj hd
              rw [hb, hagent, hbase]
              exact ⟨rfl, h.owned.grown agent, .refl⟩
            next => exact h.underway hd
  | finish agent =>
      rw [Run.step]
      cases hunderway : r.underway.find? agent with
      | none => exact h
      | some c =>
          obtain ⟨hagent, hbase, hcurrent⟩ := h.underway hunderway
          rw [← hagent] at hcurrent
          refine h.finishCompaction hbase hcurrent fun {b d} hd => ?_
          rw [Table.find?_erase] at hd
          split at hd
          next => cases hd
          next hb => exact ⟨hagent.symm ▸ hb, hd⟩

theorem after_concat (limits : Limits) (actions : List Action) (action : Action) :
    after limits (actions ++ [action]) = (after limits actions).step action := by
  rw [after, List.foldl_concat]
  rfl

theorem after_sound (limits : Limits) (actions : List Action) : (after limits actions).Sound := by
  induction actions using List.reverseRecOn with
  | nil =>
      refine ⟨Owned.empty limits, fun {agent c} hc => ?_⟩
      cases hc
  | append_singleton actions action ih =>
      rw [after_concat]
      exact ih.step action

/-- A call for one agent leaves the forests of the others as they are. -/
theorem Sound.forest_step {r : Run} (h : r.Sound) {action : Action} {b : AgentId}
    (hb : b ≠ action.agent) : (r.step action).store.forest b = r.store.forest b := by
  cases action with
  | insert agent n fresh now => exact (h.owned.insert agent n fresh now).2.others b hb
  | compact agent now =>
      rw [Run.step]
      split
      next => rfl
      next =>
        rw [Store.compact]
        cases hstart : r.store.startCompaction agent now with
        | error e => rfl
        | ok c =>
            have hagent := (startCompaction_eq_ok hstart).1
            dsimp only
            rw [forest_finishCompaction, if_neg (hagent.symm ▸ hb)]
  | start agent now =>
      rw [Run.step]
      split
      next => rfl
      next => cases r.store.startCompaction agent now <;> rfl
  | finish agent =>
      rw [Run.step]
      cases hunderway : r.underway.find? agent with
      | none => rfl
      | some c =>
          have hagent := (h.underway hunderway).1
          dsimp only
          rw [forest_finishCompaction, if_neg (hagent.symm ▸ hb)]

/-- After any calls, whether they succeeded or not, the table of owners agrees with the forests, and
one call more does not concern the other agents. -/
theorem after_accords (limits : Limits) (actions : List Action) :
    (after limits actions).store.Accords ∧
      ∀ action agent, agent ≠ Action.agent action →
        Spares (after limits actions).store (after limits (actions ++ [action])).store agent := by
  have hsound := after_sound limits actions
  refine ⟨hsound.owned.accords, fun action agent hagent => ?_⟩
  have hnext := after_sound limits (actions ++ [action])
  refine hsound.owned.spares hnext.owned ?_
  rw [after_concat]
  exact hsound.forest_step hagent

end Run

end Store

end AgentGovernance.Memory
