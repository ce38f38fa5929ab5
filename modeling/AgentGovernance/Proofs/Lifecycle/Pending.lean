import AgentGovernance.Proofs.Lifecycle.Move

/-!
# Calls that wait

A call that waits on behalf of an agent holds the agent's id and handle. The agent may change
meanwhile, but it stays stored and keeps its handle, so what the call holds is never out of date.
A call that waits to recover an agent holds a stored snapshot, and snapshots never change.
-/
namespace AgentGovernance.Lifecycle

/-- The agent that a call is made for, with its handle. -/
def Call.agent? : Call → Option (AgentId × KernelHandle)
  | .spawning _ | .recovering _ => none
  | .attaching id handle _ | .snapshotting id handle | .terminating id handle => some (id, handle)
  | .judging e _ | .executing e => some (e.agent, e.handle)

/-- Whether what a call holds about its agent is so. -/
def Call.IsCurrent (m : Lifecycle) (c : Call) : Prop :=
  ∀ id handle, c.agent? = some (id, handle) →
    ∃ a, m.agents.find? id = some a ∧ a.handle = handle

variable {m m' : Lifecycle} {c d : Call}

theorem Call.isCurrent_of_find? {id : AgentId} {a : Agent} (ha : m.agents.find? id = some a)
    (hc : c.agent? = some (id, a.handle)) : c.IsCurrent m := by
  intro jd handle h
  rw [hc] at h
  cases h
  exact ⟨a, ha, rfl⟩

/-- A check lets an operation go on only if it holds. -/
theorem checked_eq_ok {α : Type} {check : Except Failure α}
    {next : α → Outcome Lifecycle Progress} {p : Progress}
    (h : (m.checked check next).result = .ok p) : ∃ b, check = .ok b ∧ (next b).result = .ok p := by
  unfold checked at h
  split at h
  next b => exact ⟨b, rfl, h⟩
  next => cases h

/-- An execution is admitted for an active agent that is allowed the intent, and knows the agent's
handle and the agreement in effect. -/
theorem admitted_eq_ok {id : AgentId} {intent : Intent} {e : Execution}
    (h : m.admitted id intent = .ok e) :
    ∃ a, m.agents.find? id = some a ∧ a.status = .active ∧
      a.constraints.permits intent.name = true ∧
      e = ⟨id, a.handle, intent, intent.agreement.or a.constraints.agreementRef⟩ := by
  obtain ⟨a, ha, h⟩ := get_bind_eq_ok h
  obtain ⟨_, hactive, h⟩ := exists_of_bind_eq_ok h
  refine ⟨a, ha, Agent.ensureActive_eq_ok hactive, ?_⟩
  cases hpermits : a.constraints.permits intent.name with
  | false => simp [hpermits, throw, throwThe, MonadExceptOf.throw, bind, Except.bind] at h
  | true =>
      simp only [hpermits] at h
      cases h
      exact ⟨rfl, rfl⟩

/-- What keeps an execution from being admitted is not a deadline. -/
theorem admitted_ne_timeout {id : AgentId} {intent : Intent} {f : Failure}
    (h : m.admitted id intent = .error f) (missed : TimedOut) : f ≠ .timeout missed := by
  rintro rfl
  unfold admitted get Agent.ensureActive at h
  cases hfound : m.agents.find? id with
  | none => simp [hfound, bind, Except.bind] at h
  | some a =>
      cases hactive : a.isActive <;> cases hpermits : a.constraints.permits intent.name <;>
        simp [hfound, hactive, hpermits, bind, Except.bind, pure, Except.pure, throw, throwThe,
          MonadExceptOf.throw] at h

/-! ## What an operation waits for -/

/-- An execution is judged first exactly if there is an agreement in effect. -/
theorem startExecution_waiting {e : Execution} {tick : Nat}
    (h : (m.startExecution e tick).result = .ok (.waiting c)) :
    c = .executing e ∧ e.agreement = none ∨
      ∃ agreement, c = .judging e agreement ∧ e.agreement = some agreement := by
  unfold startExecution at h
  split at h
  · cases h
  · split at h
    next agreement hagreement =>
      cases h
      exact .inr ⟨agreement, rfl, hagreement⟩
    next hnone =>
      cases h
      exact .inl ⟨rfl, hnone⟩

theorem start_isCurrent (hm : m.Keyed) {tick : Nat} {now : Instant} {o : Operation}
    (h : (m.start tick now o).result = .ok (.waiting c)) : c.IsCurrent m := by
  cases o with
  | spawn constraints =>
      cases h
      exact fun _ _ h => by cases h
  | attach id plugin =>
      obtain ⟨a, ha, h⟩ := checked_eq_ok h
      cases h
      exact Call.isCurrent_of_find? (unarchived_eq_ok ha).1 rfl
  | execute id intent =>
      obtain ⟨e, he, h⟩ := checked_eq_ok h
      obtain ⟨a, ha, -, -, rfl⟩ := admitted_eq_ok he
      rcases startExecution_waiting h with ⟨rfl, -⟩ | ⟨agreement, rfl, -⟩ <;>
        exact Call.isCurrent_of_find? ha rfl
  | snapshot id =>
      obtain ⟨a, ha, h⟩ := checked_eq_ok h
      cases h
      exact Call.isCurrent_of_find? (unarchived_eq_ok ha).1 rfl
  | recover id =>
      obtain ⟨s, -, h⟩ := checked_eq_ok h
      cases h
      exact fun _ _ h => by cases h
  | terminate id =>
      obtain ⟨a, ha, hnext⟩ := checked_eq_ok h
      have ha := get_eq_ok ha
      unfold startTermination at hnext
      split at hnext
      · cases hnext
      · cases hnext
        exact Call.isCurrent_of_find? ha (by rw [hm id a ha]; rfl)
  | pause id =>
      obtain ⟨b, -, h⟩ := checked_eq_ok h
      cases h
  | resume id =>
      obtain ⟨b, -, h⟩ := checked_eq_ok h
      cases h

/-- Only a judgement is followed by another request. -/
theorem resume_waiting {u : Uuid} {now : Instant} {reply : c.request.Reply}
    (h : (m.resume u now c reply).result = .ok (.waiting d)) :
    ∃ e agreement, c = .judging e agreement ∧ d = .executing e := by
  cases c with
  | spawning constraints => cases reply <;> cases h
  | attaching id handle plugin =>
      cases reply with
      | ok capabilities =>
          obtain ⟨b, -, h⟩ := checked_eq_ok h
          cases h
      | error e => cases h
  | judging e agreement =>
      cases reply with
      | ok decision =>
          simp only [resume, judged] at h
          split at h
          · cases h
            exact ⟨e, agreement, rfl, rfl⟩
          · cases h
      | error f => cases h
  | executing e =>
      cases reply with
      | ok result =>
          obtain ⟨b, -, h⟩ := checked_eq_ok h
          cases h
      | error f => cases h
  | snapshotting id handle =>
      cases reply with
      | ok s =>
          obtain ⟨b, -, h⟩ := checked_eq_ok h
          cases h
      | error e => cases h
  | recovering s => cases reply <;> cases h
  | terminating id handle =>
      cases reply with
      | ok done =>
          obtain ⟨b, -, h⟩ := checked_eq_ok h
          cases h
      | error e =>
          cases e with
          | handleNotFound name =>
              obtain ⟨b, -, h⟩ := checked_eq_ok h
              cases h
          | spawnFailed | executionFailed | snapshotFailed | recoverFailed | terminationFailed
          | unreachable => cases h

/-! ## Runs -/

theorem Change.handle_eq {cause : Option Cause} {a b : Agent} {es : List Event}
    (h : Change cause a b es) : b.handle = a.handle := by cases h <;> rfl

theorem Call.IsCurrent.move {cause : Option Cause} {fresh : Option Uuid} {es : List Event}
    (h : c.IsCurrent m) (hmove : Move cause fresh m m' es)
    (hfresh : ∀ id a, m.agents.find? id = some a → fresh ≠ some id.uuid) : c.IsCurrent m' := by
  intro id handle hc
  obtain ⟨a, ha, rfl⟩ := h id handle hc
  obtain ⟨b, _, hb, hchange⟩ := hmove.find?_of_some ha (hfresh id a ha)
  exact ⟨b, hb, hchange.handle_eq⟩

namespace Run

theorem mem_pending_takeOver {r : Run} {toAnswer : Except Failure Result → Answer}
    {o : Outcome Lifecycle Progress} (h : c ∈ (r.takeOver toAnswer o).pending) :
    c ∈ r.pending ∨ o.result = .ok (.waiting c) := by
  unfold takeOver at h
  split at h
  next d hd =>
    rcases List.mem_append.mp h with h | h
    · exact .inl h
    · rw [List.mem_singleton.mp h]
      exact .inr hd
  next => exact .inl h
  next => exact .inl h

/-- A waiting call has waited before, or the action has begun it, or it follows on a judgement. -/
theorem mem_pending_cases {r : Run} {a : Action} (h : c ∈ (r.step a).pending) :
    c ∈ r.pending ∨ (∃ tick now o, (r.manager.start tick now o).result = .ok (.waiting c)) ∨
      ∃ e agreement, .judging e agreement ∈ r.pending ∧ c = .executing e := by
  cases a with
  | start o tick now =>
      rcases mem_pending_takeOver h with h | h
      · exact .inl h
      · exact .inr (.inl ⟨tick, now, o, h⟩)
  | reply place reply fresh now =>
      simp only [step] at h
      split at h
      · exact .inl h
      next d hd =>
        rcases mem_pending_takeOver h with h | h
        · exact .inl (List.mem_of_mem_eraseIdx h)
        · obtain ⟨e, agreement, rfl, rfl⟩ := resume_waiting h
          exact .inr (.inr ⟨e, agreement, List.mem_of_getElem? hd, rfl⟩)
  | abandon place =>
      simp only [step] at h
      split at h
      · exact .inl h
      · exact .inl (List.mem_of_mem_eraseIdx h)

/-- What the waiting calls hold is so before anything changes. -/
theorem mem_pending_step {r : Run} {a : Action} (hm : r.manager.Keyed)
    (hold : ∀ d ∈ r.pending, d.IsCurrent r.manager) (h : c ∈ (r.step a).pending) :
    c.IsCurrent r.manager := by
  rcases mem_pending_cases h with h | ⟨tick, now, o, h⟩ | ⟨e, agreement, hjudging, rfl⟩
  · exact hold c h
  · exact start_isCurrent hm h
  · exact hold (.judging e agreement) hjudging

theorem after_isCurrent {actions : List Action} (h : DistinctIds actions)
    (hc : c ∈ (after actions).pending) : c.IsCurrent (after actions).manager := by
  induction actions using List.reverseRecOn generalizing c with
  | nil => cases hc
  | append_singleton actions a ih =>
      obtain ⟨es, hmove, -⟩ := after_move actions a
      rw [after_concat] at hc
      have hcurrent := mem_pending_step (after_keyed actions) (fun d hd => ih h.of_append hd) hc
      exact hcurrent.move hmove fun id b hb hdrawn => h.text_ne hb hdrawn rfl

end Run

/-! ## Snapshots -/

/-- A stored snapshot was stored before, or else it is taken under the id that is drawn. -/
theorem Move.snapshot_cases {cause : Option Cause} {fresh : Option Uuid} {es : List Event}
    (h : Move cause fresh m m' es) {id : SnapshotId} {s : Snapshot}
    (hs : m'.snapshots.find? id = some s) :
    m.snapshots.find? id = some s ∨
      fresh = some id.uuid ∧ s.id = id := by
  cases h with
  | stay | add | change => exact .inl hs
  | snapshot _ _ _ _ hdrawn =>
      rw [Table.find?_insert] at hs
      split at hs
      next hid =>
        cases hs
        exact .inr ⟨hid ▸ hdrawn, hid.symm⟩
      next => exact .inl hs

theorem Move.snapshot_of_some {cause : Option Cause} {fresh : Option Uuid} {es : List Event}
    (h : Move cause fresh m m' es) {id : SnapshotId} {s : Snapshot}
    (hs : m.snapshots.find? id = some s) (hfresh : fresh ≠ some id.uuid) :
    m'.snapshots.find? id = some s := by
  cases h with
  | stay | add | change => exact hs
  | @snapshot _ jd _ _ _ _ _ _ _ _ hdrawn =>
      have hid : id ≠ jd := fun hid => hfresh (hid ▸ hdrawn)
      rw [Table.find?_insert, if_neg hid, hs]

/-- Whether the snapshot that a call recovers an agent from is stored. -/
def Call.IsFounded (m : Lifecycle) (c : Call) : Prop :=
  ∀ s, c = .recovering s → m.snapshots.find? s.id = some s

theorem getSnapshot_eq_ok {id : SnapshotId} {s : Snapshot} (h : m.getSnapshot id = .ok s) :
    m.snapshots.find? id = some s := by
  unfold getSnapshot at h
  split at h
  next hs => cases h; exact hs
  next => cases h

theorem start_isFounded (hm : ∀ id s, m.snapshots.find? id = some s → s.id = id) {tick : Nat}
    {now : Instant} {o : Operation} (h : (m.start tick now o).result = .ok (.waiting c)) :
    c.IsFounded m := by
  rintro s rfl
  cases o with
  | spawn constraints => cases h
  | attach | snapshot | pause | resume =>
      obtain ⟨_, -, h⟩ := checked_eq_ok h
      cases h
  | execute id intent =>
      obtain ⟨e, -, h⟩ := checked_eq_ok h
      rcases startExecution_waiting h with ⟨h, -⟩ | ⟨agreement, h, -⟩ <;> cases h
  | recover id =>
      obtain ⟨t, ht, h⟩ := checked_eq_ok h
      cases h
      have ht := getSnapshot_eq_ok ht
      rwa [hm id s ht]
  | terminate id =>
      obtain ⟨a, -, h⟩ := checked_eq_ok h
      unfold startTermination at h
      split at h <;> cases h

namespace Run

theorem after_snapshot_id (actions : List Action) {id : SnapshotId} {s : Snapshot}
    (hs : (after actions).manager.snapshots.find? id = some s) : s.id = id := by
  induction actions using List.reverseRecOn generalizing s with
  | nil => cases hs
  | append_singleton actions act ih =>
      obtain ⟨es, hmove, -⟩ := after_move actions act
      rcases hmove.snapshot_cases hs with hs | ⟨-, hid⟩
      · exact ih hs
      · exact hid

/-- The id of a stored snapshot has been drawn. -/
theorem mem_snapshot_texts (actions : List Action) {id : SnapshotId} {s : Snapshot}
    (hs : (after actions).manager.snapshots.find? id = some s) :
    id.uuid.text ∈ actions.filterMap Action.text? := by
  induction actions using List.reverseRecOn generalizing s with
  | nil => cases hs
  | append_singleton actions act ih =>
      obtain ⟨es, hmove, -⟩ := after_move actions act
      rw [List.filterMap_append, List.mem_append]
      rcases hmove.snapshot_cases hs with hs | ⟨hdrawn, -⟩
      · exact .inl (ih hs)
      · refine .inr (List.mem_filterMap.mpr ⟨act, List.mem_singleton_self act, ?_⟩)
        rw [Action.text?, hdrawn, Option.map_some]

end Run

theorem DistinctIds.snapshot_text_ne {actions : List Action} {act : Action}
    (h : DistinctIds (actions ++ [act])) {id : SnapshotId} {s : Snapshot}
    (hs : (Run.after actions).manager.snapshots.find? id = some s) {u : Uuid}
    (hu : act.fresh? = some u) : u.text ≠ id.uuid.text :=
  h.text_ne_of_drawn (Run.mem_snapshot_texts actions hs) hu

namespace Run

theorem after_isFounded {actions : List Action} (h : DistinctIds actions)
    (hc : c ∈ (after actions).pending) : c.IsFounded (after actions).manager := by
  induction actions using List.reverseRecOn generalizing c with
  | nil => cases hc
  | append_singleton actions act ih =>
      obtain ⟨es, hmove, -⟩ := after_move actions act
      have hfounded : c.IsFounded (after actions).manager := by
        rw [after_concat] at hc
        rcases mem_pending_cases hc with hc | ⟨tick, now, o, hstart⟩ | ⟨e, agreement, -, rfl⟩
        · exact ih h.of_append hc
        · exact start_isFounded (fun id s hs => after_snapshot_id actions hs) hstart
        · exact fun s hs => by cases hs
      intro s hs
      have hs := hfounded s hs
      exact hmove.snapshot_of_some hs fun hdrawn => h.snapshot_text_ne hs hdrawn rfl

/-- What an action replies to has waited. -/
theorem mem_pending_of_cause? {r : Run} {a : Action} {x : Cause} (h : r.cause? a = some x) :
    x.call ∈ r.pending := by
  cases a with
  | start | abandon => cases h
  | reply place reply fresh now =>
      obtain ⟨d, hd, rfl⟩ := Option.map_eq_some_iff.mp h
      exact List.mem_of_getElem? hd

end Run

end AgentGovernance.Lifecycle
