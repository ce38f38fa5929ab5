import AgentGovernance.Proofs.Memory.Ascent
import AgentGovernance.Proofs.Memory.Ownership

/-!
# Verification of what is stored

A node is stored as it was sealed, so its hash is right, and it stays as it is until a compaction
prunes it. Its ancestors are there with it: verifying it walks along its key up to the root and finds
nothing wrong. This holds after any calls, while compactions are under way and when ids of pruned
nodes are used again, so the store never reports a violation.
-/
namespace AgentGovernance.Memory

namespace Forest

/-- The ids on a key, that of the root first. -/
def keyIds (key : String) : List NodeId :=
  (key.toList.splitOn '/').map fun name => ⟨String.ofList name⟩

example : keyIds "r/c" = [⟨"r"⟩, ⟨"c"⟩] := by decide

theorem keyIds_name {id : NodeId} (h : isWellNamed id = true) : keyIds id.name = [id] := by
  rw [keyIds, List.splitOn_eq_singleton (isWellNamed_iff.mp h).2, List.map_singleton,
    String.ofList_toList]

theorem keyIds_childKey {id : NodeId} (h : isWellNamed id = true) (parentKey : String) :
    keyIds (childKey parentKey id) = keyIds parentKey ++ [id] := by
  have htext : (childKey parentKey id).toList = parentKey.toList ++ '/' :: id.name.toList := by
    simp [childKey]
  rw [keyIds, htext, List.splitOn_append_cons_self, List.map_append, ← keyIds, ← keyIds,
    keyIds_name h]

/-- Every stored hash is the one that would be computed again. -/
def Intact (f : Forest) : Prop := ∀ id n, f.get? id = some n → n.hashIsValid = true

namespace WellFormed

variable {f : Forest}

/-- The key of a root is its id, and that of a child is its id behind the key of its parent. -/
theorem key_cases (hf : WellFormed f) {id : NodeId} {n : Node} (hn : f.get? id = some n) :
    (n.parent = none ∧ f.key? id = some id.name) ∨
      ∃ p m key, n.parent = some p ∧ f.get? p = some m ∧ f.key? p = some key ∧
        f.key? id = some (childKey key id) := by
  have hkey := hf.key hn
  rw [keyFor, hf.id_eq hn] at hkey
  cases hp : n.parent with
  | none =>
      rw [hp] at hkey
      exact .inl ⟨rfl, hkey⟩
  | some p =>
      obtain ⟨m, hm⟩ := hf.parent hn hp
      have hparent := hf.key hm
      rw [hp] at hkey
      simp only [hparent, Option.getD_some] at hkey
      exact .inr ⟨p, m, _, rfl, hm, hparent, hkey⟩

/-- A key has one id for every step down from the root, and one for the root. -/
theorem length_keyIds (hf : WellFormed f) {id : NodeId} {n : Node} (hn : f.get? id = some n) :
    ∀ key, f.key? id = some key → (keyIds key).length = f.depth id + 1 := by
  refine hf.parent_induction
    (P := fun id => ∀ key, f.key? id = some key → (keyIds key).length = f.depth id + 1) ?_ hn
  intro id n hn ih key hkey
  have hnamed := hf.named hn
  rcases hf.key_cases hn with ⟨-, hroot⟩ | ⟨p, m, parentKey, hp, -, hparent, hchild⟩
  · obtain rfl := Option.some.inj (hkey.symm.trans hroot)
    rw [keyIds_name hnamed, depth, hroot, Option.getD_some, count_slash_name hnamed]
    rfl
  · obtain rfl := Option.some.inj (hkey.symm.trans hchild)
    rw [keyIds_childKey hnamed, List.length_append, ih p hp parentKey hparent,
      hf.depth_child hn hp]
    rfl

/-- A walk up from a node of an intact forest checks the nodes on its key and finds no fault. -/
theorem verifyPath_of_intact (hf : WellFormed f) (hintact : Intact f) {id : NodeId} {n : Node}
    {key : String} (hn : f.get? id = some n) (hkey : f.key? id = some key) :
    f.verifyPath id = .ok ⟨id, true, (keyIds key).length, none, none⟩ := by
  obtain rfl := hf.id_eq hn
  have hsound : IsSound f n := fun _ a hrises => hintact a.id a (hrises.get? hf hn)
  rw [hf.verifyPath_of_isSound hn hsound, hf.length_keyIds hn key hkey]

end WellFormed

end Forest

open Forest

namespace Store

/-! ## Where nodes come from -/

variable {s : Store} {agent : AgentId} {id : NodeId} {n : Node}

/-- What is found after an insertion was there before, or it is what the insertion has sealed. -/
theorem get?_insert_cases {other : AgentId} {new : NewNode} {fresh : NodeId} {now : Instant}
    (h : ((s.insert other new fresh now).state.forest agent).get? id = some n) :
    (s.forest agent).get? id = some n ∨
      other = agent ∧ (s.insert other new fresh now).result = .ok id ∧
        n = new.sealed fresh now := by
  unfold Store.insert at h ⊢
  split at h
  next => exact .inl h
  next hsmall =>
    rw [if_neg hsmall]
    rcases s.place_cases other (new.sealed fresh now) with ⟨owner, -, hstate, -⟩ | ⟨-, hrest⟩
    · rw [hstate] at h
      exact .inl h
    · rcases hrest with ⟨e, -, hstate, -⟩ | ⟨grown, hinsert, hstate, hresult⟩
      · rw [hstate, forest_refused] at h
        exact .inl h
      · rw [hstate, forest_withForest, forest_reserve] at h
        split at h
        next hagent =>
          obtain ⟨-, rfl⟩ := insert_eq_ok_iff.mp hinsert
          rw [get?_place] at h
          split at h
          next hid => exact .inr ⟨hagent.symm, hid ▸ hresult, (Option.some.inj h).symm⟩
          next => exact .inl (hagent ▸ h)
        next => exact .inl h

/-- A compaction adds no node and changes none. -/
theorem get?_finishCompaction {c : Compaction} (hbase : Grown {} c.base)
    (hcurrent : Grown c.base (s.forest c.agent))
    (h : ((s.finishCompaction c).state.forest agent).get? id = some n) :
    (s.forest agent).get? id = some n := by
  rw [forest_finishCompaction] at h
  split at h
  next hagent =>
    obtain ⟨-, hwithin, -⟩ := absorbNewer_compacted hbase hcurrent c.horizon
    exact hagent ▸ hwithin id n h
  next => exact h

/-- What is found after a call was there before, or the call has inserted it. -/
theorem Run.Sound.get?_step {r : Run} (h : r.Sound) {action : Action}
    (hn : ((r.step action).store.forest agent).get? id = some n) :
    (r.store.forest agent).get? id = some n ∨
      ∃ new fresh now, action = .insert agent new fresh now ∧
        (r.store.insert agent new fresh now).result = .ok id ∧ n = new.sealed fresh now := by
  cases action with
  | insert other new fresh now =>
      rcases get?_insert_cases hn with hold | ⟨rfl, hresult, hsealed⟩
      · exact .inl hold
      · exact .inr ⟨new, fresh, now, rfl, hresult, hsealed⟩
  | compact other now =>
      refine .inl ?_
      rw [Run.step] at hn
      split at hn
      next => exact hn
      next =>
        rw [Store.compact] at hn
        cases hstart : r.store.startCompaction other now with
        | error e => rwa [hstart] at hn
        | ok c =>
            obtain ⟨hagent, hbase⟩ := startCompaction_eq_ok hstart
            rw [hstart] at hn
            refine get?_finishCompaction ?_ ?_ hn
            · exact hbase ▸ h.owned.grown other
            · rw [hbase, hagent]
              exact .refl
  | start other now =>
      refine .inl ?_
      rw [Run.step] at hn
      split at hn
      next => exact hn
      next => cases hstart : r.store.startCompaction other now <;> rwa [hstart] at hn
  | finish other =>
      refine .inl ?_
      rw [Run.step] at hn
      cases hunderway : r.underway.find? other with
      | none => rwa [hunderway] at hn
      | some c =>
          obtain ⟨hagent, hbase, hcurrent⟩ := h.underway hunderway
          rw [hunderway] at hn
          exact get?_finishCompaction hbase (hagent ▸ hcurrent) hn

/-! ## Sessions -/

/-- A call of the store, or a verification that comes between two calls. -/
inductive Step where
  | call (action : Action)
  | verify (id : NodeId)

def Step.action? : Step → Option Action
  | .call action => some action
  | .verify _ => none

/-- What a call publishes. -/
def Run.events (r : Run) : Action → List Event
  | .insert agent n fresh now => (r.store.insert agent n fresh now).published
  | .compact agent now =>
      if r.underway.contains agent then [] else (r.store.compact agent now).published
  | .start _ _ => []
  | .finish agent =>
      (r.underway.find? agent).elim [] fun c => (r.store.finishCompaction c).published

/-- A run of calls and verifications, with all that the store has published. -/
structure Session where
  run : Run
  published : List Event := []

namespace Session

def step (s : Session) : Step → Session
  | .call action => ⟨s.run.step action, s.published ++ s.run.events action⟩
  | .verify id =>
      let o := s.run.store.verifyPath id
      ⟨{ s.run with store := o.state }, s.published ++ o.published⟩

def after (limits : Limits) (steps : List Step) : Session :=
  steps.foldl step { run := { store := { limits } } }

/-- The forest of an agent after some steps. -/
def forestAfter (limits : Limits) (steps : List Step) (agent : AgentId) : Forest :=
  (after limits steps).run.store.forest agent

theorem after_concat (limits : Limits) (steps : List Step) (x : Step) :
    after limits (steps ++ [x]) = (after limits steps).step x := by
  rw [after, List.foldl_concat]
  rfl

end Session

theorem verifyPath_state (s : Store) (id : NodeId) : (s.verifyPath id).state = s := by
  unfold verifyPath
  split <;> rfl

namespace Session

/-- Verifying changes nothing. -/
theorem after_run (limits : Limits) (steps : List Step) :
    (after limits steps).run = Run.after limits (steps.filterMap Step.action?) := by
  induction steps using List.reverseRecOn with
  | nil => rfl
  | append_singleton steps x ih =>
      rw [after_concat, List.filterMap_append]
      cases x with
      | call action =>
          change (after limits steps).run.step action = _
          rw [ih, ← Run.after_concat]
          rfl
      | verify id =>
          change { (after limits steps).run with
            store := ((after limits steps).run.store.verifyPath id).state } = _
          rw [verifyPath_state, ih]
          exact congrArg (Run.after limits) (List.append_nil _).symm

theorem after_sound (limits : Limits) (steps : List Step) : (after limits steps).run.Sound := by
  rw [after_run]
  exact Run.after_sound limits _

/-- A call has sealed a node and put it into an agent's forest, where the node has been since. -/
inductive Held (limits : Limits) (agent : AgentId) (id : NodeId) : Node → List Step → Prop
  | insert {steps : List Step} {new : NewNode} {fresh : NodeId} {now : Instant} :
      ((after limits steps).run.store.insert agent new fresh now).result = .ok id →
      Held limits agent id (new.sealed fresh now) (steps ++ [.call (.insert agent new fresh now)])
  | keep {steps : List Step} {x : Step} {n : Node} : Held limits agent id n steps →
      (forestAfter limits (steps ++ [x]) agent).get? id = some n →
      Held limits agent id n (steps ++ [x])

variable {limits : Limits} {steps : List Step} {agent : AgentId} {id : NodeId} {n : Node}

theorem Held.hashIsValid (h : Held limits agent id n steps) : n.hashIsValid = true := by
  induction h with
  | insert _ => exact NewNode.hashIsValid_sealed _ _ _
  | keep _ _ ih => exact ih

theorem held_of_get? (hn : (forestAfter limits steps agent).get? id = some n) :
    Held limits agent id n steps := by
  induction steps using List.reverseRecOn with
  | nil => cases hn
  | append_singleton steps x ih =>
      have hold : (forestAfter limits steps agent).get? id = some n →
          Held limits agent id n (steps ++ [x]) := fun hbefore => (ih hbefore).keep hn
      rw [forestAfter, after_concat] at hn
      cases x with
      | call action =>
          rcases (after_sound limits steps).get?_step hn with hbefore | ⟨new, fresh, now, rfl, h⟩
          · exact hold hbefore
          · obtain ⟨hresult, rfl⟩ := h
            exact .insert hresult
      | verify j =>
          refine hold ?_
          rwa [step, verifyPath_state] at hn

theorem intact_forestAfter (limits : Limits) (steps : List Step) (agent : AgentId) :
    Intact (forestAfter limits steps agent) := fun _ _ hn => (held_of_get? hn).hashIsValid

/-- Verifying a node that is there finds all hashes on its key right. -/
theorem verifyPath_of_get? (hn : (forestAfter limits steps agent).get? id = some n) :
    ∃ key, (forestAfter limits steps agent).key? id = some key ∧
      ((after limits steps).run.store.verifyPath id).result =
        .ok ⟨id, true, (keyIds key).length, none, none⟩ := by
  have howned := (after_sound limits steps).owned
  have hf : WellFormed (forestAfter limits steps agent) := (howned.grown agent).wellFormed
  have hkey := hf.key hn
  have hverify := hf.verifyPath_of_intact (intact_forestAfter limits steps agent) hn hkey
  exact ⟨_, hkey, howned.verifyPath_eq (contains_iff.mpr ⟨n, hn⟩) hverify⟩

/-! ## Violations -/

/-- A violation is published only with a report that says so. -/
theorem verifyPath_published_of_valid {s : Store} {r : PathReport}
    (hr : (s.verifyPath id).result = .ok r) (hvalid : r.valid = true) :
    (s.verifyPath id).published = [] := by
  unfold verifyPath at hr ⊢
  split at hr
  next => cases hr
  next => cases hr; simp [hvalid]

theorem verifyPath_published (limits : Limits) (steps : List Step) (id : NodeId) :
    ((after limits steps).run.store.verifyPath id).published = [] := by
  by_cases h : ∃ agent n, (forestAfter limits steps agent).get? id = some n
  · obtain ⟨agent, n, hn⟩ := h
    obtain ⟨key, -, hr⟩ := verifyPath_of_get? hn
    exact verifyPath_published_of_valid hr rfl
  · have habsent : ∀ agent, ((after limits steps).run.store.forest agent).contains id = false := by
      intro agent
      rw [contains_eq_false_iff, Option.eq_none_iff_forall_ne_some]
      exact fun n hn => h ⟨agent, n, hn⟩
    rw [verifyPath, (after_sound limits steps).owned.ownerForest_of_absent habsent]
    rfl

end Session

theorem insert_published (s : Store) (agent : AgentId) (n : NewNode) (fresh : NodeId)
    (now : Instant) :
    ∀ e ∈ (s.insert agent n fresh now).published, e.type = .memoryInserted := by
  unfold Store.insert place
  intro e he
  split at he
  next => cases he
  next =>
    split at he
    next => cases he
    next =>
      dsimp only at he
      split at he
      next => cases he
      next => rw [List.mem_singleton.mp he]; rfl

theorem finishCompaction_published (s : Store) (c : Compaction) :
    ∀ e ∈ (s.finishCompaction c).published, e.type = .memoryCompacted := by
  intro e he
  rw [List.mem_singleton.mp he]
  rfl

/-- Calls publish insertions and compactions. -/
theorem Run.events_type (r : Run) (action : Action) :
    ∀ e ∈ r.events action, e.type ≠ .auditIntegrityViolation := by
  intro e he
  cases action with
  | insert agent n fresh now => simp [insert_published _ _ _ _ _ e he]
  | compact agent now =>
      rw [Run.events] at he
      split at he
      next => cases he
      next =>
        unfold Store.compact at he
        split at he
        next => cases he
        next => simp [finishCompaction_published _ _ e he]
  | start agent now => cases he
  | finish agent =>
      rw [Run.events] at he
      cases hunderway : r.underway.find? agent with
      | none => rw [hunderway] at he; cases he
      | some c =>
          rw [hunderway] at he
          simp [finishCompaction_published _ _ e he]

namespace Session

theorem after_unviolated (limits : Limits) (steps : List Step) :
    ∀ e ∈ (after limits steps).published, e.type ≠ .auditIntegrityViolation := by
  induction steps using List.reverseRecOn with
  | nil => intro e he; cases he
  | append_singleton steps x ih =>
      intro e he
      rw [after_concat] at he
      cases x with
      | call action =>
          rcases List.mem_append.mp he with he | he
          · exact ih e he
          · exact Run.events_type _ action e he
      | verify id =>
          simp only [step, verifyPath_published, List.append_nil] at he
          exact ih e he

/-- What a session leaves behind. -/
structure Verified (limits : Limits) (steps : List Step) : Prop where
  /-- A node that is there has been held as it was sealed, and it is found. -/
  held : ∀ agent id n, (forestAfter limits steps agent).get? id = some n →
    Held limits agent id n steps ∧ (after limits steps).run.store.get id = .ok n
  /-- Verifying it checks as many hashes as there are ids on its key and finds all of them right. -/
  verified : ∀ agent id n, (forestAfter limits steps agent).get? id = some n →
    ∃ key, (forestAfter limits steps agent).key? id = some key ∧
      ((after limits steps).run.store.verifyPath id).result =
        .ok ⟨id, true, (keyIds key).length, none, none⟩
  /-- No violation has been published, neither by a call nor by a verification. -/
  unviolated : ∀ e ∈ (after limits steps).published, e.type ≠ .auditIntegrityViolation

/-- Whatever calls and verifications come in whatever order, all that is stored verifies. -/
theorem after_verified (limits : Limits) (steps : List Step) : Verified limits steps where
  held _ _ _ hn := ⟨held_of_get? hn, (after_sound limits steps).owned.get_eq hn⟩
  verified _ _ _ := verifyPath_of_get?
  unviolated := after_unviolated limits steps

/-- A child comes in below a root that a compaction under way is about to prune. -/
def lateArrival : List Step :=
  [.call (.insert ⟨⟨1⟩⟩ ⟨some ⟨"r"⟩, "goal", "episode", ∅, none⟩ ⟨"x"⟩ ⟨0⟩),
   .call (.start ⟨⟨1⟩⟩ ⟨50⟩),
   .call (.insert ⟨⟨1⟩⟩ ⟨some ⟨"c"⟩, "late", "note", ∅, some ⟨"r"⟩⟩ ⟨"x"⟩ ⟨51⟩), .verify ⟨"c"⟩]

theorem after_verified_lateArrival :
    ∃ n, (forestAfter ⟨100, some ⟨10⟩⟩ lateArrival ⟨⟨1⟩⟩).get? ⟨"c"⟩ = some n ∧
      n.content = "late" ∧ Held ⟨100, some ⟨10⟩⟩ ⟨⟨1⟩⟩ ⟨"c"⟩ n lateArrival ∧
      ((after ⟨100, some ⟨10⟩⟩ lateArrival).run.store.verifyPath ⟨"c"⟩).result =
        .ok ⟨⟨"c"⟩, true, 2, none, none⟩ := by
  obtain ⟨hheld, hverified, -⟩ := after_verified ⟨100, some ⟨10⟩⟩ lateArrival
  have hthere : ((forestAfter ⟨100, some ⟨10⟩⟩ lateArrival ⟨⟨1⟩⟩).get? ⟨"c"⟩).map Node.content =
      some "late" := by
    rw [forestAfter, after_run]
    decide +kernel
  obtain ⟨n, hn, hcontent⟩ := Option.map_eq_some_iff.mp hthere
  obtain ⟨key, hkey, hresult⟩ := hverified ⟨⟨1⟩⟩ ⟨"c"⟩ n hn
  have hplaced : (forestAfter ⟨100, some ⟨10⟩⟩ lateArrival ⟨⟨1⟩⟩).key? ⟨"c"⟩ = some "r/c" := by
    rw [forestAfter, after_run]
    decide +kernel
  obtain rfl : "r/c" = key := Option.some.inj (hplaced.symm.trans hkey)
  have hids : (keyIds "r/c").length = 2 := by decide
  rw [hids] at hresult
  exact ⟨n, hn, hcontent, (hheld ⟨⟨1⟩⟩ ⟨"c"⟩ n hn).1, hresult⟩

end Session

end Store

end AgentGovernance.Memory
