import AgentGovernance.Proofs.Basic
import AgentGovernance.Proofs.Lifecycle.Run
import Mathlib.Data.List.Induction

/-!
# What one part of an operation does

A part of an operation leaves the tables alone, adds an agent, changes one or takes a snapshot. A
`Move` says which, under what conditions, and what is published; everything about runs follows from
the moves and not from the operations.
-/
namespace AgentGovernance

namespace Agent

variable {a b : Agent} {now : Instant}

theorem ensureActive_eq_ok {u : Unit} (h : a.ensureActive = .ok u) : a.status = .active := by
  unfold ensureActive isActive at h
  split at h
  next hactive => exact of_decide_eq_true hactive
  next => cases h

theorem ensureNotArchived_eq_ok {u : Unit} (h : a.ensureNotArchived = .ok u) :
    a.status ≠ .archived := by
  unfold ensureNotArchived isArchived at h
  split at h
  next => cases h
  next hopen => simpa using hopen

theorem pause_eq_ok (h : a.pause now = .ok b) :
    a.status = .active ∧ b = { a with status := .paused, updatedAt := now } := by
  obtain ⟨_, hactive, h⟩ := exists_of_bind_eq_ok h
  cases h
  exact ⟨ensureActive_eq_ok hactive, rfl⟩

theorem recordExecution_eq_ok (h : a.recordExecution now = .ok b) :
    a.status = .active ∧ b = { a with executions := a.executions + 1, updatedAt := now } := by
  obtain ⟨_, hactive, h⟩ := exists_of_bind_eq_ok h
  cases h
  exact ⟨ensureActive_eq_ok hactive, rfl⟩

theorem resume_eq_ok (h : a.resume now = .ok b) :
    a.status = .paused ∧ b = { a with status := .active, updatedAt := now } := by
  unfold resume at h
  split at h
  next hpaused => cases h; exact ⟨hpaused, rfl⟩
  next => cases h

theorem attach_eq_ok {plugin : PluginId} {isNew : Bool} (h : a.attach plugin now = .ok (b, isNew)) :
    a.status ≠ .archived ∧
      (plugin ∈ a.plugins ∧ b = a ∧ isNew = false ∨
        plugin ∉ a.plugins ∧ isNew = true ∧
          b = { a with plugins := a.plugins ++ [plugin], updatedAt := now }) := by
  obtain ⟨_, hopen, h⟩ := exists_of_bind_eq_ok h
  refine ⟨ensureNotArchived_eq_ok hopen, ?_⟩
  split at h
  next hplugin =>
    cases h
    exact .inl ⟨List.contains_iff_mem.mp hplugin, rfl, rfl⟩
  next hplugin =>
    cases h
    exact .inr ⟨fun hmem => hplugin (List.contains_iff_mem.mpr hmem), rfl, rfl⟩

end Agent

namespace Lifecycle

/-- What a part of an operation does to an agent, with the events about it. A part that goes on from
a reply has that reply as its cause. -/
inductive Change (cause : Option Cause) (a : Agent) : Agent → List Event → Prop
  | same : Change cause a a []
  | attach {handle : KernelHandle} {plugin : PluginId} {capabilities : List String} {now : Instant}
      {reply : (r : Request) → r.Reply} :
      cause = some ⟨.attaching a.id handle plugin, reply⟩ →
      reply (.attach handle plugin) = .ok capabilities →
      a.status ≠ .archived → plugin ∉ a.plugins →
      Change cause a { a with plugins := a.plugins ++ [plugin], updatedAt := now }
        [event .agentPluginAttached a.id
          [("plugin_id", encode plugin), ("capabilities", encode capabilities)]]
  | execute {e : Execution} {result : Json} {payload : List (String × Json)} {now : Instant}
      {reply : (r : Request) → r.Reply} :
      cause = some ⟨.executing e, reply⟩ →
      reply (.execute e.handle e.intent.name e.intent.params) = .ok result →
      e.agent = a.id → a.status = .active →
      Change cause a { a with executions := a.executions + 1, updatedAt := now }
        [event .agentExecuted a.id payload]
  | pause {now : Instant} : a.status = .active →
      Change cause a { a with status := .paused, updatedAt := now } [event .agentPaused a.id []]
  | resume {now : Instant} : a.status = .paused →
      Change cause a { a with status := .active, updatedAt := now } [event .agentResumed a.id []]
  | archive {handle : KernelHandle} {now : Instant} {reply : (r : Request) → r.Reply} :
      cause = some ⟨.terminating a.id handle, reply⟩ →
      reply (.terminate handle) = .ok () ∨
        (∃ name, reply (.terminate handle) = .error (.handleNotFound name)) →
      a.status ≠ .archived →
      Change cause a { a with status := .archived, updatedAt := now }
        [event .agentTerminated a.id []]

/-- A new agent, with the events about it. -/
inductive Birth (cause : Option Cause) : Agent → List Event → Prop
  | spawn {id : AgentId} {handle : KernelHandle} {constraints : AgentConstraints} {now : Instant}
      {reply : (r : Request) → r.Reply} :
      cause = some ⟨.spawning constraints, reply⟩ → reply (.spawn constraints) = .ok handle →
      Birth cause (.new id handle constraints now)
        [event .agentSpawned id
          [("kernel_handle", encode handle), ("constraints", encode constraints)]]
  | recover {id : AgentId} {handle : KernelHandle} {s : Snapshot} {now : Instant}
      {reply : (r : Request) → r.Reply} :
      cause = some ⟨.recovering s, reply⟩ → reply (.recover s.kernelSnapshot) = .ok handle →
      Birth cause (.recovered id handle s now)
        [event .agentRecovered id
          [("snapshot_id", encode s.id), ("original_agent_id", encode s.agent),
           ("memory_ref", encode s.memoryRef)]]

/-- What a part of an operation does to the tables. What is new has the id that is drawn. -/
inductive Move (cause : Option Cause) (fresh : Option Uuid) (m : Lifecycle) :
    Lifecycle → List Event → Prop
  | stay : Move cause fresh m m []
  | add {a : Agent} {es : List Event} : fresh = some a.id.uuid → Birth cause a es →
      Move cause fresh m (m.withAgent a) es
  | change {a b : Agent} {es : List Event} : m.agents.find? a.id = some a → Change cause a b es →
      Move cause fresh m (m.withAgent b) es
  | snapshot {a : Agent} {id : SnapshotId} {handle : KernelHandle} {kernelSnapshot : KernelSnapshot}
      {now : Instant} {reply : (r : Request) → r.Reply} :
      cause = some ⟨.snapshotting a.id handle, reply⟩ →
      reply (.snapshot handle) = .ok kernelSnapshot →
      m.agents.find? a.id = some a → a.status ≠ .archived → fresh = some id.uuid →
      Move cause fresh m
        { m with snapshots := m.snapshots.insert id (a.snapshot id kernelSnapshot now) }
        [event .agentSnapshotted a.id [("snapshot_id", encode id)]]

/-- Every agent is kept under its own id. -/
def Keyed (m : Lifecycle) : Prop := ∀ id a, m.agents.find? id = some a → a.id = id

variable {cause : Option Cause} {fresh : Option Uuid} {m : Lifecycle}

/-! ## Checks -/

theorem get_eq_ok {id : AgentId} {a : Agent} (h : m.get id = .ok a) :
    m.agents.find? id = some a := by
  unfold get at h
  split at h
  next hb => cases h; exact hb
  next => cases h

theorem get_bind_eq_ok {α : Type} {id : AgentId} {next : Agent → Except Failure α} {b : α}
    (h : (m.get id >>= next) = .ok b) : ∃ a, m.agents.find? id = some a ∧ next a = .ok b := by
  obtain ⟨a, ha, h⟩ := exists_of_bind_eq_ok h
  exact ⟨a, get_eq_ok ha, h⟩

theorem unarchived_eq_ok {id : AgentId} {a : Agent} (h : m.unarchived id = .ok a) :
    m.agents.find? id = some a ∧ a.status ≠ .archived := by
  obtain ⟨b, hb, h⟩ := get_bind_eq_ok h
  obtain ⟨_, hopen, h⟩ := exists_of_bind_eq_ok h
  cases h
  exact ⟨hb, Agent.ensureNotArchived_eq_ok hopen⟩

/-- A failed check changes nothing. -/
theorem Move.checked {α : Type} {check : Except Failure α} {next : α → Outcome Lifecycle Progress}
    (h : ∀ b, check = .ok b → Move cause fresh m (next b).state (next b).published) :
    Move cause fresh m (m.checked check next).state (m.checked check next).published := by
  unfold Lifecycle.checked
  split
  next b => exact h b rfl
  next => exact .stay

/-! ## Starting -/

theorem pause_move (hm : m.Keyed) (id : AgentId) (now : Instant) :
    Move cause fresh m (m.pause id now).state (m.pause id now).published := by
  refine .checked fun b hb => ?_
  obtain ⟨a, ha, h⟩ := get_bind_eq_ok hb
  obtain rfl := hm id a ha
  obtain ⟨hactive, rfl⟩ := Agent.pause_eq_ok h
  exact .change ha (.pause hactive)

theorem unpause_move (hm : m.Keyed) (id : AgentId) (now : Instant) :
    Move cause fresh m (m.unpause id now).state (m.unpause id now).published := by
  refine .checked fun b hb => ?_
  obtain ⟨a, ha, h⟩ := get_bind_eq_ok hb
  obtain rfl := hm id a ha
  obtain ⟨hpaused, rfl⟩ := Agent.resume_eq_ok h
  exact .change ha (.resume hpaused)

theorem startExecution_move (e : Execution) (tick : Nat) :
    Move cause fresh m (m.startExecution e tick).state (m.startExecution e tick).published := by
  unfold startExecution
  split
  · exact .stay
  · split <;> exact .stay

theorem startTermination_move (a : Agent) :
    Move cause fresh m (m.startTermination a).state (m.startTermination a).published := by
  unfold startTermination
  split <;> exact .stay

theorem start_move (hm : m.Keyed) (tick : Nat) (now : Instant) (o : Operation) :
    Move cause fresh m (m.start tick now o).state (m.start tick now o).published := by
  cases o with
  | spawn constraints => exact .stay
  | attach id plugin => exact .checked fun _ _ => .stay
  | execute id intent => exact .checked fun e _ => startExecution_move e tick
  | snapshot id => exact .checked fun _ _ => .stay
  | recover id => exact .checked fun _ _ => .stay
  | terminate id => exact .checked fun a _ => startTermination_move a
  | pause id => exact pause_move hm id now
  | resume id => exact unpause_move hm id now

/-! ## Resuming -/

variable {reply : (r : Request) → r.Reply}

theorem attached_move (hm : m.Keyed) {id : AgentId} {handle : KernelHandle} {plugin : PluginId}
    {capabilities : List String} (now : Instant)
    (hcause : cause = some ⟨.attaching id handle plugin, reply⟩)
    (hreply : reply (.attach handle plugin) = .ok capabilities) :
    Move cause fresh m (m.attached id plugin capabilities now).state
      (m.attached id plugin capabilities now).published := by
  refine .checked fun (b, isNew) hb => ?_
  obtain ⟨a, ha, h⟩ := get_bind_eq_ok hb
  obtain rfl := hm id a ha
  rcases Agent.attach_eq_ok h with ⟨hopen, ⟨-, rfl, rfl⟩ | ⟨hplugin, rfl, rfl⟩⟩
  · exact .change ha .same
  · exact .change ha (.attach hcause hreply hopen hplugin)

theorem judged_move (e : Execution) (d : Decision) :
    Move cause fresh m (m.judged e d).state (m.judged e d).published := by
  unfold judged
  split <;> exact .stay

theorem executed_move (hm : m.Keyed) {e : Execution} {result : Json} (u : Uuid) (now : Instant)
    (hcause : cause = some ⟨.executing e, reply⟩)
    (hreply : reply (.execute e.handle e.intent.name e.intent.params) = .ok result) :
    Move cause fresh m (m.executed e result u now).state
      (m.executed e result u now).published := by
  refine .checked fun b hb => ?_
  obtain ⟨a, ha, h⟩ := get_bind_eq_ok hb
  have hid := hm e.agent a ha
  obtain ⟨hactive, rfl⟩ := Agent.recordExecution_eq_ok h
  rw [← hid] at ha ⊢
  exact .change ha (.execute hcause hreply hid.symm hactive)

theorem snapshotted_move (hm : m.Keyed) {id : AgentId} {handle : KernelHandle}
    {kernelSnapshot : KernelSnapshot} (u : Uuid) (now : Instant)
    (hcause : cause = some ⟨.snapshotting id handle, reply⟩)
    (hreply : reply (.snapshot handle) = .ok kernelSnapshot) :
    Move cause (some u) m (m.snapshotted id kernelSnapshot u now).state
      (m.snapshotted id kernelSnapshot u now).published := by
  refine .checked fun a ha => ?_
  obtain ⟨ha, hopen⟩ := unarchived_eq_ok ha
  obtain rfl := hm id a ha
  exact .snapshot hcause hreply ha hopen rfl

theorem terminated_move (hm : m.Keyed) {id : AgentId} {handle : KernelHandle} (now : Instant)
    (hcause : cause = some ⟨.terminating id handle, reply⟩)
    (hreply : reply (.terminate handle) = .ok () ∨
      ∃ name, reply (.terminate handle) = .error (.handleNotFound name)) :
    Move cause fresh m (m.terminated id now).state (m.terminated id now).published := by
  refine .checked fun a ha => ?_
  have ha := get_eq_ok ha
  obtain rfl := hm id a ha
  cases harchived : a.isArchived with
  | true =>
      simp only [Agent.archive, harchived]
      exact .change ha .same
  | false =>
      simp only [Agent.archive, harchived]
      exact .change ha (.archive hcause hreply (of_decide_eq_false harchived))

theorem resume_move (hm : m.Keyed) (u : Uuid) (now : Instant) (c : Call)
    (reply : (r : Request) → r.Reply) :
    Move (some ⟨c, reply⟩) (some u) m (m.resume u now c (reply c.request)).state
      (m.resume u now c (reply c.request)).published := by
  cases c with
  | spawning constraints =>
      dsimp only [Call.request]
      cases h : reply (.spawn constraints) with
      | ok handle => exact .add rfl (.spawn rfl h)
      | error e => exact .stay
  | attaching id handle plugin =>
      dsimp only [Call.request]
      cases h : reply (.attach handle plugin) with
      | ok capabilities => exact attached_move hm now rfl h
      | error e => exact .stay
  | judging e agreement =>
      dsimp only [Call.request]
      cases reply (.judge agreement (executeAction e.intent.name)) with
      | ok d => exact judged_move e d
      | error f => exact .stay
  | executing e =>
      dsimp only [Call.request]
      cases h : reply (.execute e.handle e.intent.name e.intent.params) with
      | ok result => exact executed_move hm u now rfl h
      | error f => exact .stay
  | snapshotting id handle =>
      dsimp only [Call.request]
      cases h : reply (.snapshot handle) with
      | ok s => exact snapshotted_move hm u now rfl h
      | error e => exact .stay
  | recovering s =>
      dsimp only [Call.request]
      cases h : reply (.recover s.kernelSnapshot) with
      | ok handle => exact .add rfl (.recover rfl h)
      | error e => exact .stay
  | terminating id handle =>
      dsimp only [Call.request]
      cases h : reply (.terminate handle) with
      | ok done => exact terminated_move hm now rfl (.inl h)
      | error e =>
          cases e with
          | handleNotFound name => exact terminated_move hm now rfl (.inr ⟨name, h⟩)
          | spawnFailed | executionFailed | snapshotFailed | recoverFailed | terminationFailed
          | unreachable => exact .stay

theorem Run.step_move (r : Run) (a : Action) (hm : r.manager.Keyed) :
    ∃ es, Move (r.cause? a) a.fresh? r.manager (r.step a).manager es ∧
      (r.step a).published = r.published ++ es := by
  cases a with
  | start o tick now =>
      refine ⟨(r.manager.start tick now o).published, ?_, ?_⟩
      · simpa only [step, takeOver_manager] using start_move hm tick now o
      · simp only [step, takeOver_published]
  | reply place reply fresh now =>
      simp only [step, cause?]
      split
      · exact ⟨[], .stay, by simp⟩
      next c hc =>
        refine ⟨(r.manager.resume fresh now c (reply c.request)).published, ?_, ?_⟩
        · rw [takeOver_manager, hc]
          exact resume_move hm fresh now c reply
        · rw [takeOver_published, withoutPending]
  | abandon place =>
      simp only [step]
      split <;> exact ⟨[], .stay, by simp [withoutPending, answer]⟩

/-! ## The tables after a move -/

theorem Birth.status_eq {a : Agent} {es : List Event} (h : Birth cause a es) :
    a.status = .active := by cases h <;> rfl

/-- What is published about a new agent names it and is not its end. -/
theorem Birth.event {a : Agent} {es : List Event} (h : Birth cause a es) {e : Event} (he : e ∈ es) :
    e.target = some a.id.uuid.text ∧ e.type ≠ .agentTerminated := by
  cases h with
  | spawn | recover =>
      rw [List.mem_singleton.mp he]
      exact ⟨rfl, by simp [Lifecycle.event]⟩

theorem find?_withAgent (m : Lifecycle) (a : Agent) (id : AgentId) :
    (m.withAgent a).agents.find? id = if id = a.id then some a else m.agents.find? id := by
  rw [withAgent, Table.find?_insert]

theorem find?_withAgent_self (m : Lifecycle) (a : Agent) :
    (m.withAgent a).agents.find? a.id = some a := by
  rw [find?_withAgent, if_pos rfl]

theorem exists_find?_withAgent {id : AgentId} {a : Agent} (ha : m.agents.find? id = some a)
    (b : Agent) : ∃ c, (m.withAgent b).agents.find? id = some c := by
  rw [find?_withAgent]
  split
  · exact ⟨b, rfl⟩
  · exact ⟨a, ha⟩

theorem find?_withAgent_cases {id : AgentId} {a b : Agent}
    (h : (m.withAgent b).agents.find? id = some a) :
    id = b.id ∧ a = b ∨ id ≠ b.id ∧ m.agents.find? id = some a := by
  rw [find?_withAgent] at h
  split at h
  next hid => exact .inl ⟨hid, (Option.some.inj h).symm⟩
  next hid => exact .inr ⟨hid, h⟩

/-- A part of an operation publishes at most one event. -/
theorem Birth.pairwise {a : Agent} {es : List Event} (h : Birth cause a es)
    {R : Event → Event → Prop} : es.Pairwise R := by
  cases h <;> exact List.pairwise_singleton _ _

namespace Change

variable {a b : Agent} {es : List Event}

theorem id_eq (h : Change cause a b es) : b.id = a.id := by cases h <;> rfl

theorem recoveredFrom_eq (h : Change cause a b es) : b.recoveredFrom = a.recoveredFrom := by
  cases h <;> rfl

/-- Nothing happens to an archived agent. -/
theorem eq_of_archived (h : Change cause a b es) (ha : a.status = .archived) : b = a ∧ es = [] := by
  cases h with
  | same => exact ⟨rfl, rfl⟩
  | attach _ _ hopen => exact absurd ha hopen
  | execute _ _ _ hactive => rw [ha] at hactive; cases hactive
  | pause hactive => rw [ha] at hactive; cases hactive
  | resume hpaused => rw [ha] at hpaused; cases hpaused
  | archive _ _ hopen => exact absurd ha hopen

/-- An agent is archived only when its termination has a reply. -/
theorem of_archived (h : Change cause a b es) (hb : b.status = .archived)
    (ha : a.status ≠ .archived) :
    ∃ handle reply, cause = some ⟨.terminating a.id handle, reply⟩ ∧
      (reply (.terminate handle) = .ok () ∨
        ∃ name, reply (.terminate handle) = .error (.handleNotFound name)) := by
  cases h with
  | same | attach => exact absurd hb ha
  | execute _ _ _ hactive => exact absurd hb (by simp [hactive])
  | pause => cases hb
  | resume => cases hb
  | archive hcause hreply => exact ⟨_, _, hcause, hreply⟩

/-- What is published about a change names the agent. -/
theorem target_eq (h : Change cause a b es) {e : Event} (he : e ∈ es) :
    e.target = some a.id.uuid.text := by
  cases h with
  | same => cases he
  | attach | execute | pause | resume | archive => rw [List.mem_singleton.mp he]; rfl

theorem pairwise (h : Change cause a b es) {R : Event → Event → Prop} : es.Pairwise R := by
  cases h with
  | same => exact .nil
  | attach | execute | pause | resume | archive => exact List.pairwise_singleton _ _

/-- An agent becomes archived exactly when its termination is published. -/
theorem archived_iff (h : Change cause a b es) :
    b.status = .archived ↔ a.status = .archived ∨ ∃ e ∈ es, e.type = .agentTerminated := by
  cases h with
  | same => simp
  | attach => simp [event]
  | execute => simp [event]
  | pause hactive => simp [event, hactive]
  | resume hpaused => simp [event, hpaused]
  | archive => simp [event]

end Change

namespace Move

variable {m' : Lifecycle} {es : List Event}

/-- What becomes of a stored agent whose id is not drawn again. -/
theorem find?_of_some (h : Move cause fresh m m' es) {id : AgentId} {a : Agent}
    (ha : m.agents.find? id = some a) (hfresh : fresh ≠ some id.uuid) :
    ∃ b es, m'.agents.find? id = some b ∧ Change cause a b es := by
  cases h with
  | stay => exact ⟨a, [], ha, .same⟩
  | @add c es hdrawn _ =>
      have hid : id ≠ c.id := fun hid => hfresh (hid ▸ hdrawn)
      exact ⟨a, [], by rw [find?_withAgent, if_neg hid, ha], .same⟩
  | @change c b es hc hchange =>
      rw [find?_withAgent, hchange.id_eq]
      split
      next hid =>
        rw [hid, hc] at ha
        obtain rfl := Option.some.inj ha
        exact ⟨b, es, rfl, hchange⟩
      next => exact ⟨a, [], ha, .same⟩
  | snapshot => exact ⟨a, [], ha, .same⟩

/-- A stored agent was stored before, or else its id is the one that is drawn. -/
theorem find?_cases (h : Move cause fresh m m' es) {id : AgentId} {b : Agent}
    (hb : m'.agents.find? id = some b) :
    (∃ a es, m.agents.find? id = some a ∧ Change cause a b es) ∨
      fresh = some id.uuid ∧ b.id = id ∧ ∃ es, Birth cause b es := by
  cases h with
  | stay => exact .inl ⟨b, [], hb, .same⟩
  | @add c es hdrawn hbirth =>
      rcases find?_withAgent_cases hb with ⟨rfl, rfl⟩ | ⟨-, hb⟩
      · exact .inr ⟨hdrawn, rfl, es, hbirth⟩
      · exact .inl ⟨b, [], hb, .same⟩
  | @change a c es ha hchange =>
      rcases find?_withAgent_cases hb with ⟨rfl, rfl⟩ | ⟨-, hb⟩
      · exact .inl ⟨a, es, hchange.id_eq.symm ▸ ha, hchange⟩
      · exact .inl ⟨b, [], hb, .same⟩
  | snapshot => exact .inl ⟨b, [], hb, .same⟩

theorem keyed (h : Move cause fresh m m' es) (hm : m.Keyed) : m'.Keyed := by
  intro id b hb
  rcases h.find?_cases hb with ⟨a, es, ha, hchange⟩ | ⟨-, hid, -⟩
  · rw [hchange.id_eq, hm id a ha]
  · exact hid

end Move

/-! ## Runs -/

theorem keyed_empty : Keyed {} := fun _ _ h => by cases h

namespace Run

theorem after_keyed (actions : List Action) : (after actions).manager.Keyed := by
  induction actions using List.reverseRecOn with
  | nil => exact keyed_empty
  | append_singleton actions a ih =>
      rw [after_concat]
      obtain ⟨es, hmove, -⟩ := step_move _ a ih
      exact hmove.keyed ih

/-- Every action of a run is a move. -/
theorem after_move (actions : List Action) (a : Action) :
    ∃ es, Move ((after actions).cause? a) a.fresh? (after actions).manager
        (after (actions ++ [a])).manager es ∧
      (after (actions ++ [a])).published = (after actions).published ++ es := by
  rw [after_concat]
  exact step_move _ a (after_keyed actions)

/-- The id of a stored agent has been drawn. -/
theorem mem_texts (actions : List Action) {id : AgentId} {a : Agent}
    (ha : (after actions).manager.agents.find? id = some a) :
    id.uuid.text ∈ actions.filterMap Action.text? := by
  induction actions using List.reverseRecOn generalizing a with
  | nil => cases ha
  | append_singleton actions act ih =>
      obtain ⟨es, hmove, -⟩ := after_move actions act
      rw [List.filterMap_append, List.mem_append]
      rcases hmove.find?_cases ha with ⟨b, _, hb, -⟩ | ⟨hdrawn, -⟩
      · exact .inl (ih hb)
      · refine .inr (List.mem_filterMap.mpr ⟨act, List.mem_singleton_self act, ?_⟩)
        rw [Action.text?, hdrawn, Option.map_some]

end Run

theorem DistinctIds.of_append {actions more : List Action} (h : DistinctIds (actions ++ more)) :
    DistinctIds actions := nodup_draws_of_append h

/-- An id that is drawn reads unlike the ids that were drawn before. -/
theorem DistinctIds.text_ne_of_drawn {actions : List Action} {act : Action}
    (h : DistinctIds (actions ++ [act])) {text : String}
    (htext : text ∈ actions.filterMap Action.text?) {u : Uuid} (hu : act.fresh? = some u) :
    u.text ≠ text := by
  have hnew := not_drawn_before h (by rw [Action.text?, hu, Option.map_some])
  exact fun hsame => hnew (hsame ▸ htext)

/-- An id that is drawn reads unlike the ids in use. -/
theorem DistinctIds.text_ne {actions : List Action} {act : Action}
    (h : DistinctIds (actions ++ [act])) {id : AgentId} {a : Agent}
    (ha : (Run.after actions).manager.agents.find? id = some a) {u : Uuid}
    (hu : act.fresh? = some u) : u.text ≠ id.uuid.text :=
  h.text_ne_of_drawn (Run.mem_texts actions ha) hu

end Lifecycle

end AgentGovernance
