import AgentGovernance.Proofs.Lifecycle.Pending

/-!
# The lineage of an agent

An agent that is recovered from a snapshot may be snapshotted in turn, so there is a line of agents
behind an agent, each recovered from a snapshot of the next. The line ends at an agent that was
spawned, and the memory that all of them share is the memory of that one.

No agent and no snapshot is ever removed, and of what a line rests on an agent's record keeps
everything but gains plugins. So a line that is there once stays, whatever becomes of the agents.
-/
namespace AgentGovernance.Lifecycle

/-! ## Lines of agents -/

/-- An agent was recovered from a stored snapshot, and has what it took over. -/
structure Heir (m : Lifecycle) (a : Agent) (s : Snapshot) : Prop where
  recoveredFrom : a.recoveredFrom = some s.id
  held : m.snapshots.find? s.id = some s
  plugins : s.plugins <+: a.plugins
  constraints : a.constraints = s.constraints

/-- The ancestors of an agent, the nearest first. They are all stored and share one memory, which
the last of them owns. -/
inductive Lineage (m : Lifecycle) (memory : AgentId) : AgentId → List AgentId → Prop
  | spawned {a : Agent} : m.agents.find? memory = some a → a.memoryRef = memory →
      a.recoveredFrom = none → Lineage m memory memory []
  | recovered {id : AgentId} {a : Agent} {s : Snapshot} {ancestors : List AgentId} :
      m.agents.find? id = some a → a.memoryRef = memory → Heir m a s →
      Lineage m memory s.agent ancestors → Lineage m memory id (s.agent :: ancestors)

/-- Only one line can be followed from an agent. -/
theorem Lineage.unique {m : Lifecycle} {memory id : AgentId} {xs ys : List AgentId}
    (hx : Lineage m memory id xs) (hy : Lineage m memory id ys) : xs = ys := by
  induction hx generalizing ys with
  | spawned ha _ hnone =>
      cases hy with
      | spawned => rfl
      | recovered hb _ hheir =>
          obtain rfl := Option.some.inj (ha.symm.trans hb)
          rw [hheir.recoveredFrom] at hnone
          cases hnone
  | recovered ha _ hheir _ ih =>
      cases hy with
      | spawned hb _ hnone =>
          obtain rfl := Option.some.inj (ha.symm.trans hb)
          rw [hheir.recoveredFrom] at hnone
          cases hnone
      | recovered hb _ hsame hline =>
          obtain rfl := Option.some.inj (ha.symm.trans hb)
          have hid := Option.some.inj (hheir.recoveredFrom.symm.trans hsame.recoveredFrom)
          obtain rfl := Option.some.inj (hheir.held.symm.trans (hid ▸ hsame.held))
          rw [ih hline]

/-! ## What stays -/

/-- What an agent's record keeps. -/
structure Continues (a b : Agent) : Prop where
  memoryRef : b.memoryRef = a.memoryRef
  recoveredFrom : b.recoveredFrom = a.recoveredFrom
  plugins : a.plugins <+: b.plugins
  constraints : b.constraints = a.constraints

/-- No agent is lost and no snapshot is changed. -/
structure Extends (m m' : Lifecycle) : Prop where
  agents : ∀ id a, m.agents.find? id = some a → ∃ b, m'.agents.find? id = some b ∧ Continues a b
  snapshots : ∀ id s, m.snapshots.find? id = some s → m'.snapshots.find? id = some s

variable {m m' : Lifecycle} {cause : Option Cause} {fresh : Option Uuid} {es : List Event}

theorem Change.continues {a b : Agent} (h : Change cause a b es) : Continues a b := by
  refine ⟨?_, h.recoveredFrom_eq, ?_, ?_⟩
  · cases h <;> rfl
  · cases h with
    | attach => exact List.prefix_append _ _
    | same | execute | pause | resume | archive => exact List.prefix_refl _
  · cases h <;> rfl

theorem Heir.continues {a b : Agent} {s : Snapshot} (h : Heir m a s) (hab : Continues a b)
    (hm : Extends m m') : Heir m' b s where
  recoveredFrom := hab.recoveredFrom.trans h.recoveredFrom
  held := hm.snapshots s.id s h.held
  plugins := h.plugins.trans hab.plugins
  constraints := hab.constraints.trans h.constraints

/-- A line that is there stays. -/
theorem Lineage.extends {memory id : AgentId} {ancestors : List AgentId}
    (h : Lineage m memory id ancestors) (hm : Extends m m') : Lineage m' memory id ancestors := by
  induction h with
  | spawned ha hmemory hnone =>
      obtain ⟨b, hb, hab⟩ := hm.agents _ _ ha
      exact .spawned hb (hab.memoryRef.trans hmemory) (hab.recoveredFrom.trans hnone)
  | recovered ha hmemory hheir _ ih =>
      obtain ⟨b, hb, hab⟩ := hm.agents _ _ ha
      exact .recovered hb (hab.memoryRef.trans hmemory) (hheir.continues hab hm) ih

/-! ## Moves -/

/-- There is a line behind every agent and every snapshot. -/
structure Traced (m : Lifecycle) : Prop where
  agents : ∀ id a, m.agents.find? id = some a →
    ∃ ancestors, Lineage m a.memoryRef id ancestors
  snapshots : ∀ id s, m.snapshots.find? id = some s →
    ∃ ancestors, Lineage m s.memoryRef s.agent ancestors

theorem Traced.empty : Traced {} := ⟨fun _ _ h => (by cases h), fun _ _ h => (by cases h)⟩

theorem Traced.born (h : Traced m) (hm : Extends m m') {id : AgentId} {a : Agent}
    (ha : m'.agents.find? id = some a) (hid : a.id = id) (hbirth : Birth cause a es)
    (hfounded : ∀ x ∈ cause, x.call.IsFounded m) :
    ∃ ancestors, Lineage m' a.memoryRef id ancestors := by
  cases hbirth with
  | spawn =>
      obtain rfl := hid
      exact ⟨[], .spawned ha rfl rfl⟩
  | @recover jd handle s now reply hcause =>
      have hs := hfounded _ hcause s rfl
      obtain ⟨ancestors, hline⟩ := h.snapshots s.id s hs
      have hheir : Heir m' (.recovered jd handle s now) s :=
        ⟨rfl, hm.snapshots s.id s hs, List.prefix_refl _, rfl⟩
      exact ⟨s.agent :: ancestors, .recovered ha rfl hheir (hline.extends hm)⟩

theorem Traced.move (h : Traced m) (hm : Extends m m') (hmove : Move cause fresh m m' es)
    (hfounded : ∀ x ∈ cause, x.call.IsFounded m) : Traced m' where
  agents id b hb := by
    rcases hmove.find?_cases hb with ⟨a, _, ha, hchange⟩ | ⟨-, hid, es, hbirth⟩
    · obtain ⟨ancestors, hline⟩ := h.agents id a ha
      rw [hchange.continues.memoryRef]
      exact ⟨ancestors, hline.extends hm⟩
    · exact h.born hm hb hid hbirth hfounded
  snapshots id s hs := by
    have hkept : m.snapshots.find? id = some s →
        ∃ ancestors, Lineage m' s.memoryRef s.agent ancestors := by
      intro hs
      obtain ⟨ancestors, hline⟩ := h.snapshots id s hs
      exact ⟨ancestors, hline.extends hm⟩
    cases hmove with
    | stay | add | change => exact hkept hs
    | @snapshot a _ _ _ _ _ _ _ ha =>
        rw [Table.find?_insert] at hs
        split at hs
        · cases hs
          obtain ⟨ancestors, hline⟩ := h.agents a.id a ha
          exact ⟨ancestors, hline.extends hm⟩
        · exact hkept hs

/-! ## Runs -/

theorem DistinctIds.extends {actions : List Action} {act : Action}
    (h : DistinctIds (actions ++ [act])) :
    Extends (Run.after actions).manager (Run.after (actions ++ [act])).manager := by
  obtain ⟨es, hmove, -⟩ := Run.after_move actions act
  constructor
  · intro id a ha
    obtain ⟨b, _, hb, hchange⟩ := hmove.find?_of_some ha fun hdrawn => h.text_ne ha hdrawn rfl
    exact ⟨b, hb, hchange.continues⟩
  · intro id s hs
    exact hmove.snapshot_of_some hs fun hdrawn => h.snapshot_text_ne hs hdrawn rfl

theorem Run.after_traced {actions : List Action} (h : DistinctIds actions) :
    Traced (Run.after actions).manager := by
  induction actions using List.reverseRecOn with
  | nil => exact .empty
  | append_singleton actions act ih =>
      obtain ⟨es, hmove, -⟩ := Run.after_move actions act
      refine (ih h.of_append).move h.extends hmove fun x hx => ?_
      exact Run.after_isFounded h.of_append (Run.mem_pending_of_cause? hx)

/-! ## Recovering -/

/-- Whether an action is part of recovering an agent. -/
def Run.Recovers (r : Run) : Action → Prop
  | .start o _ _ => ∃ id, o = .recover id
  | .reply place _ _ _ | .abandon place => ∃ s, r.pending[place]? = some (.recovering s)

theorem start_recover_state (m : Lifecycle) (tick : Nat) (now : Instant) (id : SnapshotId) :
    (m.start tick now (.recover id)).state = m := by
  change (m.checked (m.getSnapshot id) fun s => m.wait (.recovering s)).state = m
  cases h : m.getSnapshot id <;> rfl

theorem resume_recovering_state (m : Lifecycle) (u : Uuid) (now : Instant) (s : Snapshot)
    (reply : Except KernelError KernelHandle) :
    (m.resume u now (.recovering s) reply).state = m ∨
      ∃ handle, (m.resume u now (.recovering s) reply).state =
        m.withAgent (.recovered ⟨u⟩ handle s now) := by
  cases reply with
  | ok handle => exact .inr ⟨handle, rfl⟩
  | error e => exact .inl rfl

variable {actions : List Action}

/-- An id that is drawn names no agent. -/
theorem DistinctIds.find?_drawn {act : Action} (h : DistinctIds (actions ++ [act])) {u : Uuid}
    (hu : act.fresh? = some u) : (Run.after actions).manager.agents.find? ⟨u⟩ = none := by
  cases ha : (Run.after actions).manager.agents.find? ⟨u⟩ with
  | none => rfl
  | some a => exact absurd rfl (h.text_ne ha hu)

/-- Recovering an agent changes no other. -/
theorem DistinctIds.find?_of_recovers {act : Action} (h : DistinctIds (actions ++ [act]))
    (hrecovers : (Run.after actions).Recovers act) {id : AgentId} {a : Agent}
    (ha : (Run.after actions).manager.agents.find? id = some a) :
    (Run.after (actions ++ [act])).manager.agents.find? id = some a := by
  rw [Run.after_concat]
  cases act with
  | start o tick now =>
      obtain ⟨jd, rfl⟩ := hrecovers
      rwa [Run.step, Run.takeOver_manager, start_recover_state]
  | reply place reply u now =>
      obtain ⟨s, hs⟩ := hrecovers
      simp only [Run.step, hs, Run.takeOver_manager]
      rcases resume_recovering_state (Run.after actions).manager u now s
        (reply (.recover s.kernelSnapshot)) with hsame | ⟨handle, hadded⟩
      · rwa [hsame]
      · have hne : id ≠ (⟨u⟩ : AgentId) := by
          rintro rfl
          rw [h.find?_drawn rfl] at ha
          cases ha
        rw [hadded, find?_withAgent]
        exact (if_neg hne).trans ha
  | abandon place =>
      obtain ⟨s, hs⟩ := hrecovers
      simp only [Run.step, hs]
      exact ha

/-- Where the agents of a state come from, and what recovering another does to them. -/
structure Descended (actions : List Action) : Prop where
  lineage : ∀ id a, (Run.after actions).manager.agents.find? id = some a →
    ∃! ancestors, Lineage (Run.after actions).manager a.memoryRef id ancestors
  kept : ∀ act, DistinctIds (actions ++ [act]) → (Run.after actions).Recovers act →
    ∀ id a, (Run.after actions).manager.agents.find? id = some a →
      (Run.after (actions ++ [act])).manager.agents.find? id = some a
  /-- The agent that a recovery answers with was not there before. -/
  new : ∀ place reply fresh now, DistinctIds (actions ++ [.reply place reply fresh now]) →
    ∀ s handle, (Run.after actions).pending[place]? = some (.recovering s) →
      reply (.recover s.kernelSnapshot) = .ok handle →
        (Run.after actions).manager.agents.find? ⟨fresh⟩ = none ∧
          (Run.after (actions ++ [.reply place reply fresh now])).answers =
            (Run.after actions).answers ++ [.replied (.recovering s) (.ok (.agent ⟨fresh⟩))]

/-- Behind every agent there is a line of recoveries that ends at the owner of its memory, whatever
has become of the agents on it, and a recovery leaves every agent that is there alone. -/
theorem recovery_lineage (h : DistinctIds actions) : Descended actions where
  lineage id a ha := by
    obtain ⟨ancestors, hline⟩ := (Run.after_traced h).agents id a ha
    exact ⟨ancestors, hline, fun _ hother => hother.unique hline⟩
  kept _ hdistinct hrecovers _ _ ha := hdistinct.find?_of_recovers hrecovers ha
  new place reply fresh now hdistinct s handle hs hreply := by
    refine ⟨hdistinct.find?_drawn rfl, ?_⟩
    simp only [Run.after_concat, Run.step, hs, hreply]
    rfl

/-- An agent is recovered from a snapshot of a recovered agent. In between the first agent is
archived, and the second gets a plugin after it has been snapshotted. -/
def twiceRecovered : List Action :=
  [.start (.spawn { allowedIntents := ["work"] }) 0 ⟨0⟩, .reply 0 obliging ⟨1⟩ ⟨1⟩,
   .start (.attach ⟨⟨1⟩⟩ ⟨"files"⟩) 0 ⟨2⟩, .reply 0 obliging ⟨2⟩ ⟨3⟩,
   .start (.snapshot ⟨⟨1⟩⟩) 0 ⟨4⟩, .reply 0 obliging ⟨3⟩ ⟨5⟩,
   .start (.recover ⟨⟨3⟩⟩) 0 ⟨6⟩, .reply 0 obliging ⟨4⟩ ⟨7⟩,
   .start (.terminate ⟨⟨1⟩⟩) 0 ⟨8⟩, .reply 0 obliging ⟨5⟩ ⟨9⟩,
   .start (.snapshot ⟨⟨4⟩⟩) 0 ⟨10⟩, .reply 0 obliging ⟨6⟩ ⟨11⟩,
   .start (.attach ⟨⟨4⟩⟩ ⟨"web"⟩) 0 ⟨12⟩, .reply 0 obliging ⟨7⟩ ⟨13⟩,
   .start (.recover ⟨⟨6⟩⟩) 0 ⟨14⟩, .reply 0 obliging ⟨8⟩ ⟨15⟩]

theorem recovery_lineage_twiceRecovered :
    DistinctIds twiceRecovered ∧ ∃ a,
      (Run.after twiceRecovered).manager.agents.find? ⟨⟨8⟩⟩ = some a ∧ a.plugins = [⟨"files"⟩] ∧
        ∃! ancestors, Lineage (Run.after twiceRecovered).manager ⟨⟨1⟩⟩ ⟨⟨8⟩⟩ ancestors := by
  have hdistinct : DistinctIds twiceRecovered := by
    unfold DistinctIds
    decide +kernel
  obtain ⟨a, ha, hplugins, hmemory⟩ : ∃ a,
      (Run.after twiceRecovered).manager.agents.find? ⟨⟨8⟩⟩ = some a ∧ a.plugins = [⟨"files"⟩] ∧
        a.memoryRef = ⟨⟨1⟩⟩ := ⟨_, rfl, rfl, rfl⟩
  have hline := (recovery_lineage hdistinct).lineage _ a ha
  rw [hmemory] at hline
  exact ⟨hdistinct, a, ha, hplugins, hline⟩

end AgentGovernance.Lifecycle
