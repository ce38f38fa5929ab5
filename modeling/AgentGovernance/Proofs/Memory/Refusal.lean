import AgentGovernance.Proofs.Memory.Ownership

/-!
# Refused insertions

A refused insertion gives its id up again and leaves every node where it was. For an agent that had
no forest before, a refusal by the forest leaves an empty one behind, which shows in two places: the
agent is now among the agents of the store, and its memory can be compacted.
-/
namespace AgentGovernance.Memory

open Forest

namespace Forest

@[simp] theorem nodes_empty : nodes {} = [] := rfl

@[simp] theorem parentsFirst_nil (f : Forest) : f.parentsFirst [] = [] := List.mergeSort_nil

theorem compacted_empty (horizon : Option Instant) : compacted {} horizon = {} := by
  simp [compacted]

theorem absorbNewer_empty : absorbNewer {} {} {} = {} := by
  simp [absorbNewer]

end Forest

namespace Store

variable {s t : Store} {agent : AgentId}

/-- Nothing that is looked up or verified differs between two stores. -/
structure Matches (s t : Store) : Prop where
  query : ∀ agent start, t.query agent start = s.query agent start
  size : ∀ agent, t.size agent = s.size agent
  get : ∀ id, t.get id = s.get id
  children : ∀ id, t.children id = s.children id
  verifyPath : ∀ id, (t.verifyPath id).result = (s.verifyPath id).result ∧
    (t.verifyPath id).published = (s.verifyPath id).published

theorem Matches.refl (s : Store) : Matches s s :=
  ⟨fun _ _ => rfl, fun _ => rfl, fun _ => rfl, fun _ => rfl, fun _ => ⟨rfl, rfl⟩⟩

/-- What is looked up comes from the forests of the agents and of the owners. -/
theorem matches_of_forests (hforest : ∀ b, t.forest b = s.forest b)
    (howner : ∀ id, t.ownerForest id = s.ownerForest id) : Matches s t where
  query agent start := by rw [query, query, hforest]
  size agent := by rw [size, size, hforest]
  get id := by rw [get, get, howner]
  children id := by rw [children, children, howner]
  verifyPath id := by
    rw [Store.verifyPath, Store.verifyPath, howner]
    cases s.ownerForest id >>= (·.verifyPath id) <;> exact ⟨rfl, rfl⟩

/-- What a compaction gives out depends on the limits and on the forest of its agent. -/
theorem compact_eq_of_forest (hlimits : t.limits = s.limits)
    (hforest : t.forests.find? agent = s.forests.find? agent) (now : Instant) :
    (t.compact agent now).result = (s.compact agent now).result ∧
      (t.compact agent now).published = (s.compact agent now).published := by
  have hstart : t.startCompaction agent now = s.startCompaction agent now := by
    rw [startCompaction, startCompaction, hforest, hlimits]
  rw [compact, compact, hstart]
  cases hs : s.startCompaction agent now with
  | error e => exact ⟨rfl, rfl⟩
  | ok c =>
      have hsame : t.forest c.agent = s.forest c.agent := by
        rw [(Run.startCompaction_eq_ok hs).1, forest, forest, hforest]
      simp only [finishCompaction, Outcome.ok, hsame, and_self]

/-- A store with an empty forest for an agent that had none. -/
structure Admits (s t : Store) (agent : AgentId) : Prop where
  unknown : agent ∉ s.agents
  agents : t.agents.Perm (agent :: s.agents)
  before : ∀ now, (s.compact agent now).result = .error (.notFound .agent agent.uuid.text)
  after : ∀ now, (t.compact agent now).result = .ok ⟨agent, 0, 0, horizon? s.limits now⟩
  others : ∀ b now, b ≠ agent → (t.compact b now).result = (s.compact b now).result ∧
    (t.compact b now).published = (s.compact b now).published

theorem mem_agents_iff : agent ∈ s.agents ↔ ∃ f, s.forests.find? agent = some f := by
  rw [agents, Table.mem_keys_iff, Table.contains, Option.isSome_iff_exists]

theorem admits_withForest (h : s.forests.find? agent = none) :
    Admits s (s.withForest agent {}) agent where
  unknown hmem := by
    obtain ⟨f, hf⟩ := mem_agents_iff.mp hmem
    rw [h] at hf
    cases hf
  agents := Table.perm_keys_insert_of_none h {}
  before now := by
    rw [compact, startCompaction, h]
    rfl
  after now := by
    have hfind : (s.withForest agent {}).forests.find? agent = some {} :=
      Table.find?_insert_self _ _ _
    have hforest : (s.withForest agent {}).forest agent = {} := by
      rw [forest_withForest, if_pos rfl]
    rw [compact, startCompaction, hfind]
    simp only [finishCompaction, Outcome.ok, hforest, compacted_empty, absorbNewer_empty]
    rfl
  others b now hb := by
    have hlimits : (s.withForest agent {}).limits = s.limits := rfl
    exact compact_eq_of_forest hlimits (Table.find?_insert_ne _ hb _) now

/-! ## What a refusal leaves -/

/-- Giving back a reserved id leaves no more than the forest that was looked up. -/
theorem refused_eq {id : NodeId} (h : s.owners.find? id = none) (f : Forest) :
    ((s.reserve agent id).withForest agent f).release id = s.withForest agent f := by
  simp only [reserve, withForest, release, Table.erase_insert_of_none h]

theorem withForest_self {f : Forest} (h : s.forests.find? agent = some f) :
    s.withForest agent f = s := by
  rw [withForest, Table.insert_of_find? h]

/-- The owner of an id has a forest, so an empty one for an agent without any is never looked up. -/
theorem Owned.matches_withForest (hs : s.Owned) (h : s.forests.find? agent = none) :
    Matches s (s.withForest agent {}) := by
  have hnone : s.forest agent = {} := by rw [forest, h, Option.getD_none]
  apply matches_of_forests
  · intro b
    rw [forest_withForest]
    split
    next hb => rw [hb, hnone]
    next => rfl
  · intro id
    have hsame :
        ((s.withForest agent {}).owners.find? id).bind (s.withForest agent {}).forests.find? =
          (s.owners.find? id).bind s.forests.find? := by
      apply Option.bind_congr
      intro owner howner
      apply Table.find?_insert_ne
      intro he
      have hfound := find?_forests_of_contains (hs.owner_iff.mp howner)
      rw [he, h] at hfound
      cases hfound
    rw [ownerForest, ownerForest, hsame]

theorem published_place_of_error {n : Node} {f : Failure}
    (h : (s.place agent n).result = .error f) : (s.place agent n).published = [] := by
  unfold place at h ⊢
  dsimp only at h ⊢
  split
  next => rfl
  next hfree =>
    rw [if_neg hfree] at h
    split at h
    next => rfl
    next => cases h

/-- An insertion is refused because the content is too large or the id in use, and the store stays
as it is, or because the forest of the agent refuses the node. -/
theorem Owned.insert_eq_error (hs : s.Owned) {n : NewNode} {fresh : NodeId} {now : Instant}
    {f : Failure} (h : (s.insert agent n fresh now).result = .error f) :
    (s.insert agent n fresh now).published = [] ∧
      (((s.insert agent n fresh now).state = s ∧
          ((∃ size limit, f = .constraintViolation (.contentTooLarge size limit)) ∨
            ∃ id, f = .invalidState (.nodeExists id))) ∨
        (s.insert agent n fresh now).state = s.withForest agent (s.forest agent) ∧
          ((∃ id, f = .constraintViolation (.malformedNodeId id)) ∨
            ∃ parent : NodeId, n.parent = some parent ∧
              f = .notFound .memoryNode parent.name)) := by
  rw [Store.insert] at h ⊢
  split at h
  next hlarge =>
    rw [if_pos hlarge]
    obtain rfl := Except.error.inj h
    exact ⟨rfl, .inl ⟨rfl, .inl ⟨_, _, rfl⟩⟩⟩
  next hsmall =>
    rw [if_neg hsmall]
    refine ⟨published_place_of_error h, ?_⟩
    rcases s.place_cases agent (n.sealed fresh now) with
      ⟨owner, -, hstate, hresult⟩ | ⟨hfree, ⟨e, hinsert, hstate, hresult⟩ | ⟨grown, -, -, hresult⟩⟩
    · rw [hresult] at h
      obtain rfl := Except.error.inj h
      exact .inl ⟨hstate, .inr ⟨_, rfl⟩⟩
    · rw [hresult] at h
      obtain rfl := Except.error.inj h
      rw [refused_eq hfree] at hstate
      apply Or.inr
      rcases insert_error_cases hinsert with ⟨-, he⟩ | ⟨hthere, -⟩ | ⟨p, hp, -, he⟩
      · exact ⟨hstate, .inl ⟨_, he⟩⟩
      · rw [hs.find?_owners_eq_none_iff.mp hfree agent] at hthere
        cases hthere
      · exact ⟨hstate, .inr ⟨p, hp, he⟩⟩
    · rw [hresult] at h
      cases h

/-- After any calls, a refused insertion publishes nothing and changes nothing of what is looked up
or verified. It leaves the store as it was, except when the forest of an agent that had none refuses
the node: then the agent appears with an empty forest, and its compactions succeed from then on. -/
theorem insert_refused (limits : Limits) (actions : List Action) (agent : AgentId) (n : NewNode)
    (fresh : NodeId) (now : Instant) (f : Failure)
    (h : ((Run.after limits actions).store.insert agent n fresh now).result = .error f) :
    ((Run.after limits actions).store.insert agent n fresh now).published = [] ∧
      Matches (Run.after limits actions).store
        ((Run.after limits actions).store.insert agent n fresh now).state ∧
      ((((Run.after limits actions).store.insert agent n fresh now).state =
            (Run.after limits actions).store ∧
          (agent ∈ (Run.after limits actions).store.agents ∨
            (∃ size limit, f = .constraintViolation (.contentTooLarge size limit)) ∨
            ∃ id, f = .invalidState (.nodeExists id))) ∨
        Admits (Run.after limits actions).store
            ((Run.after limits actions).store.insert agent n fresh now).state agent ∧
          ((∃ id, f = .constraintViolation (.malformedNodeId id)) ∨
            ∃ parent : NodeId, n.parent = some parent ∧
              f = .notFound .memoryNode parent.name)) := by
  have howned := (Run.after_sound limits actions).owned
  obtain ⟨hpublished, hcases⟩ := howned.insert_eq_error h
  refine ⟨hpublished, ?_⟩
  rcases hcases with ⟨hstate, hreason⟩ | ⟨hstate, hreason⟩
  · rw [hstate]
    exact ⟨.refl _, .inl ⟨rfl, .inr hreason⟩⟩
  · cases hfind : (Run.after limits actions).store.forests.find? agent with
    | some forest =>
        have hforest : (Run.after limits actions).store.forest agent = forest := by
          rw [Store.forest, hfind, Option.getD_some]
        rw [hforest, withForest_self hfind] at hstate
        rw [hstate]
        exact ⟨.refl _, .inl ⟨rfl, .inl (mem_agents_iff.mpr ⟨forest, hfind⟩)⟩⟩
    | none =>
        have hforest : (Run.after limits actions).store.forest agent = {} := by
          rw [Store.forest, hfind, Option.getD_none]
        rw [hforest] at hstate
        rw [hstate]
        exact ⟨howned.matches_withForest hfind, .inr ⟨admits_withForest hfind, hreason⟩⟩

/-- The first node of an agent names a parent that is not there. -/
theorem insert_refused_orphan :
    (Store.insert { limits := ⟨100, none⟩ } ⟨⟨1⟩⟩ ⟨some ⟨"x"⟩, "c", "note", ∅, some ⟨"missing"⟩⟩
        ⟨"y"⟩ ⟨0⟩).result = .error (.notFound .memoryNode "missing") ∧
      Admits { limits := ⟨100, none⟩ } (Store.insert { limits := ⟨100, none⟩ } ⟨⟨1⟩⟩
        ⟨some ⟨"x"⟩, "c", "note", ∅, some ⟨"missing"⟩⟩ ⟨"y"⟩ ⟨0⟩).state ⟨⟨1⟩⟩ := by
  have hresult : (Store.insert { limits := ⟨100, none⟩ } ⟨⟨1⟩⟩
      ⟨some ⟨"x"⟩, "c", "note", ∅, some ⟨"missing"⟩⟩ ⟨"y"⟩ ⟨0⟩).result =
        .error (.notFound .memoryNode "missing") := by rfl
  refine ⟨hresult, ?_⟩
  obtain ⟨-, -, ⟨-, hreason⟩ | ⟨hadmits, -⟩⟩ :=
    insert_refused ⟨100, none⟩ [] ⟨⟨1⟩⟩ ⟨some ⟨"x"⟩, "c", "note", ∅, some ⟨"missing"⟩⟩ ⟨"y"⟩ ⟨0⟩ _
      hresult
  · rcases hreason with hmem | ⟨size, limit, hreason⟩ | ⟨id, hreason⟩
    · cases hmem
    · cases hreason
    · cases hreason
  · exact hadmits

end Store

end AgentGovernance.Memory
