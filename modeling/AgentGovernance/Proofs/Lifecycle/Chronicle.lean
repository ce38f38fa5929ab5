import AgentGovernance.Proofs.Json.Fields
import AgentGovernance.Proofs.Lifecycle.Archive
import AgentGovernance.Proofs.Lifecycle.Pending
import AgentGovernance.Proofs.Table

/-!
# The agents as the events tell of them

Whoever reads the published events in their order, and nothing else, can keep an account of the
agents: who there is, what state each is in, its plugins, its memory, its constraints and how often
it has executed. The account names agents and snapshots by the texts of their ids, as events do.

However calls overlap, the account agrees with the stored agents after every action. What carries
the argument is that a call to recover holds a stored snapshot and that the account has every stored
snapshot as it was captured.
-/
namespace AgentGovernance

/-! ## Reading payloads -/

namespace AgentConstraints

/-- The fields of the JSON form. -/
def fields (c : AgentConstraints) : List (String × Option Json) :=
  [("cpu_millis", c.cpuMillis.map encode), ("memory_mb", c.memoryMb.map encode),
   ("allowed_intents", if c.allowedIntents.isEmpty then none else some (encode c.allowedIntents)),
   ("agreement_ref", c.agreementRef.map encode)]

theorem lookup_fields (c : AgentConstraints) {name : String} {v : Option Json}
    (h : (name, v) ∈ c.fields) : Json.lookup name (Json.present c.fields) = v :=
  Json.lookup_present (by simp [fields]) h

/-- No allowed intents are left out and read as the default. -/
theorem withDefault_allowedIntents (c : AgentConstraints) :
    Codec.withDefault "allowed_intents" [] (.named (Json.present c.fields)) =
      some (c.allowedIntents, .named (Json.present c.fields)) := by
  cases hintents : c.allowedIntents with
  | nil => exact Codec.withDefault_named_none (c.lookup_fields (by simp [fields, hintents]))
  | cons intent intents =>
      have hmember : Json.lookup "allowed_intents" (Json.present c.fields) =
          some (encode (intent :: intents)) := c.lookup_fields (by simp [fields, hintents])
      exact Codec.withDefault_named hmember (Codec.decode?_encode_list (fun _ => rfl) _)

/-- Constraints are read as they were written. -/
theorem decode?_encode (c : AgentConstraints) : decode? (encode c) = some c := by
  have hread : decode? (encode c) = Codec.readFields (do
      let cpu ← Codec.optional "cpu_millis"
      let memory ← Codec.optional "memory_mb"
      let intents ← Codec.withDefault "allowed_intents" []
      let agreement ← Codec.optional "agreement_ref"
      return (⟨cpu, memory, intents, agreement⟩ : AgentConstraints))
      (.named (Json.present c.fields)) := rfl
  have hcpu : Json.lookup "cpu_millis" (Json.present c.fields) = c.cpuMillis.map encode :=
    c.lookup_fields (by simp [fields])
  have hmemory : Json.lookup "memory_mb" (Json.present c.fields) = c.memoryMb.map encode :=
    c.lookup_fields (by simp [fields])
  have hagreement : Json.lookup "agreement_ref" (Json.present c.fields) =
      c.agreementRef.map encode := c.lookup_fields (by simp [fields])
  rw [hread, Codec.readFields]
  dsimp only [bind, StateT.bind]
  rw [Codec.optional_encode (fun _ h => by cases h) Codec.decode?_encode_halfWord hcpu,
    Option.bind_some,
    Codec.optional_encode (fun _ h => by cases h) Codec.decode?_encode_word hmemory,
    Option.bind_some, c.withDefault_allowedIntents, Option.bind_some,
    Codec.optional_encode (fun _ h => by cases h) (fun _ => rfl) hagreement, Option.bind_some]
  rfl

end AgentConstraints

/-- What a member of the payload holds. -/
def Event.read? {α : Type} [Codec α] (e : Event) (name : String) : Option α :=
  e.payload.member? name >>= decode?

namespace Lifecycle

/-! ## The account -/

/-- An agent as events tell of it. -/
structure Portrait where
  status : AgentStatus := .active
  plugins : List PluginId := []
  /-- How the id of the owner of its memory reads. -/
  memoryRef : String
  /-- No event tells the handle of a recovered agent. -/
  handle : Option KernelHandle
  constraints : AgentConstraints
  executions : UInt64 := 0

/-- An account of the agents, and of agents as they were when a snapshot was taken. -/
structure Chronicle where
  agents : Table String Portrait := ∅
  snapshots : Table String Portrait := ∅

namespace Chronicle

def withAgent (c : Chronicle) (name : String) (p : Portrait) : Chronicle :=
  { c with agents := c.agents.insert name p }

def revise? (c : Chronicle) (name : String) (change : Portrait → Portrait) : Option Chronicle :=
  (c.agents.find? name).map fun p => c.withAgent name (change p)

/-- The account after an event about the agent of that name, if the event has a place in it. -/
def next? (c : Chronicle) (name : String) (e : Event) : Option Chronicle :=
  match e.type with
  | .agentSpawned => do
      let handle ← e.read? "kernel_handle"
      let constraints ← e.read? "constraints"
      return c.withAgent name { memoryRef := name, handle := some handle, constraints }
  | .agentPluginAttached => do
      let plugin ← e.read? "plugin_id"
      c.revise? name fun p => { p with plugins := p.plugins ++ [plugin] }
  | .agentExecuted => c.revise? name fun p => { p with executions := p.executions + 1 }
  | .agentPaused => c.revise? name fun p => { p with status := .paused }
  | .agentResumed => c.revise? name fun p => { p with status := .active }
  | .agentTerminated => c.revise? name fun p => { p with status := .archived }
  | .agentSnapshotted => do
      let snapshot ← e.read? "snapshot_id"
      let p ← c.agents.find? name
      return { c with snapshots := c.snapshots.insert snapshot p }
  | .agentRecovered => do
      let p ← c.snapshots.find? (← e.read? "snapshot_id")
      return c.withAgent name { p with status := .active, handle := none, executions := 0 }
  | _ => none

def tell (c : Chronicle) (e : Event) : Chronicle :=
  (e.target.bind fun name => c.next? name e).getD c

/-- The account of some events, the first of them first. -/
def ofEvents (es : List Event) : Chronicle := es.foldl tell {}

theorem ofEvents_append (old new : List Event) :
    ofEvents (old ++ new) = new.foldl tell (ofEvents old) := List.foldl_append

end Chronicle

/-- Whether an agent is as it is portrayed. -/
structure Portrait.Shows (p : Portrait) (a : Agent) : Prop where
  status : p.status = a.status
  plugins : p.plugins = a.plugins
  memoryRef : p.memoryRef = a.memoryRef.uuid.text
  handle : ∀ handle, p.handle = some handle → a.handle = handle
  constraints : p.constraints = a.constraints
  executions : p.executions = a.executions

/-- Whether a snapshot holds what was portrayed when it was taken. -/
structure Portrait.Captures (p : Portrait) (s : Snapshot) : Prop where
  plugins : p.plugins = s.plugins
  memoryRef : p.memoryRef = s.memoryRef.uuid.text
  constraints : p.constraints = s.constraints

/-- Whether an account is one of the stored agents and of no others. -/
structure Retold (m : Lifecycle) (c : Chronicle) : Prop where
  agents : ∀ id a, m.agents.find? id = some a →
    ∃ p, c.agents.find? id.uuid.text = some p ∧ p.Shows a
  stored : ∀ name p, c.agents.find? name = some p →
    ∃ id a, m.agents.find? id = some a ∧ id.uuid.text = name
  snapshots : ∀ id s, m.snapshots.find? id = some s →
    s.id = id ∧ ∃ p, c.snapshots.find? id.uuid.text = some p ∧ p.Captures s

variable {cause : Option Cause} {fresh : Option Uuid} {m m' : Lifecycle} {c : Chronicle}
  {a b : Agent} {es : List Event}

/-! ## What one event tells -/

/-- What is published about a change has the account change the agent in the same way. -/
theorem Change.exists_tell {p : Portrait} (h : Change cause a b es)
    (hp : c.agents.find? a.id.uuid.text = some p) (hshows : p.Shows a) :
    b = a ∧ es = [] ∨
      ∃ q, es.foldl .tell c = c.withAgent b.id.uuid.text q ∧ q.Shows b := by
  have hrevised : ∀ change : Portrait → Portrait,
      c.revise? a.id.uuid.text change = some (c.withAgent a.id.uuid.text (change p)) := by
    intro change
    rw [Chronicle.revise?, hp, Option.map_some]
  obtain ⟨hstatus, hplugins, hmemory, hhandle, hconstraints, hexecutions⟩ := hshows
  cases h with
  | same => exact .inl ⟨rfl, rfl⟩
  | @attach _ plugin _ _ _ _ _ _ _ =>
      refine .inr ⟨_, congrArg (·.getD c) (hrevised _), ?_⟩
      exact ⟨hstatus, congrArg (· ++ [plugin]) hplugins, hmemory, hhandle, hconstraints,
        hexecutions⟩
  | execute =>
      refine .inr ⟨_, congrArg (·.getD c) (hrevised _), ?_⟩
      exact ⟨hstatus, hplugins, hmemory, hhandle, hconstraints, congrArg (· + 1) hexecutions⟩
  | pause | resume | archive =>
      refine .inr ⟨_, congrArg (·.getD c) (hrevised _), ?_⟩
      exact ⟨rfl, hplugins, hmemory, hhandle, hconstraints, hexecutions⟩

/-- What is published about a new agent has the account add it, if the account has the snapshot that
the agent is recovered from. -/
theorem Birth.exists_tell (h : Birth cause a es)
    (hcaptured : ∀ s reply, cause = some ⟨.recovering s, reply⟩ →
      ∃ p, c.snapshots.find? s.id.uuid.text = some p ∧ p.Captures s) :
    ∃ q, es.foldl .tell c = c.withAgent a.id.uuid.text q ∧ q.Shows a := by
  cases h with
  | @spawn id handle constraints now _ _ _ =>
      let q : Portrait := { memoryRef := id.uuid.text, handle := some handle, constraints }
      have hnext : c.next? id.uuid.text (Lifecycle.event .agentSpawned id
          [("kernel_handle", encode handle), ("constraints", encode constraints)]) =
          (decode? (encode constraints)).bind fun constraints =>
            some (c.withAgent id.uuid.text { q with constraints }) := rfl
      rw [AgentConstraints.decode?_encode, Option.bind_some] at hnext
      exact ⟨q, congrArg (·.getD c) hnext, rfl, rfl, rfl, fun _ h => Option.some.inj h, rfl, rfl⟩
  | @recover id handle s now reply hcause _ =>
      obtain ⟨p, hp, hplugins, hmemory, hconstraints⟩ := hcaptured s reply hcause
      let q : Portrait := { p with status := .active, handle := none, executions := 0 }
      have hnext : c.next? id.uuid.text (Lifecycle.event .agentRecovered id
          [("snapshot_id", encode s.id), ("original_agent_id", encode s.agent),
           ("memory_ref", encode s.memoryRef)]) =
          (c.snapshots.find? s.id.uuid.text).bind fun p => some (c.withAgent id.uuid.text
            { p with status := .active, handle := none, executions := 0 }) := rfl
      rw [hp, Option.bind_some] at hnext
      exact ⟨q, congrArg (·.getD c) hnext, rfl, hplugins, hmemory, nofun, hconstraints, rfl⟩

theorem tell_agentSnapshotted {p : Portrait} {id : SnapshotId}
    (hp : c.agents.find? a.id.uuid.text = some p) :
    c.tell (event .agentSnapshotted a.id [("snapshot_id", encode id)]) =
      { c with snapshots := c.snapshots.insert id.uuid.text p } := by
  have hnext : c.next? a.id.uuid.text (event .agentSnapshotted a.id [("snapshot_id", encode id)]) =
      (c.agents.find? a.id.uuid.text).bind fun p =>
        some { c with snapshots := c.snapshots.insert id.uuid.text p } := rfl
  rw [hp, Option.bind_some] at hnext
  exact congrArg (·.getD c) hnext

/-! ## Keeping the account -/

namespace Retold

theorem empty : Retold {} {} := by
  refine ⟨?_, ?_, ?_⟩ <;> intro _ _ h <;> cases h

/-- Storing an agent that reads unlike the others, and portraying it. -/
theorem withAgent (h : Retold m c) {q : Portrait} (hq : q.Shows b)
    (hapart : ∀ id a, m.agents.find? id = some a → id.uuid.text = b.id.uuid.text → id = b.id) :
    Retold (m.withAgent b) (c.withAgent b.id.uuid.text q) := by
  refine ⟨?_, ?_, h.snapshots⟩
  · intro id a ha
    rw [Chronicle.withAgent, Table.find?_insert]
    rcases find?_withAgent_cases ha with ⟨rfl, rfl⟩ | ⟨hid, ha⟩
    · exact ⟨q, if_pos rfl, hq⟩
    · obtain ⟨p, hp, hshows⟩ := h.agents id a ha
      exact ⟨p, by rw [if_neg fun htext => hid (hapart id a ha htext), hp], hshows⟩
  · intro name p hp
    rw [Chronicle.withAgent, Table.find?_insert] at hp
    split at hp
    next hname => exact ⟨b.id, b, find?_withAgent_self m b, hname.symm⟩
    next =>
      obtain ⟨id, a, ha, htext⟩ := h.stored name p hp
      obtain ⟨d, hd⟩ := exists_find?_withAgent ha b
      exact ⟨id, d, hd, htext⟩

theorem change (h : Retold m c) (ha : m.agents.find? a.id = some a) (hchange : Change cause a b es)
    (hapart : ∀ id d, m.agents.find? id = some d → id.uuid.text = a.id.uuid.text → id = a.id) :
    Retold (m.withAgent b) (es.foldl .tell c) := by
  obtain ⟨p, hp, hshows⟩ := h.agents a.id a ha
  rcases hchange.exists_tell hp hshows with ⟨rfl, rfl⟩ | ⟨q, htell, hq⟩
  · have hsame : m.withAgent b = m := by rw [Lifecycle.withAgent, Table.insert_of_find? ha]
    rwa [hsame]
  · rw [htell]
    refine h.withAgent hq ?_
    rwa [hchange.id_eq]

theorem snapshot (h : Retold m c) {id : SnapshotId} {kernelSnapshot : KernelSnapshot}
    {now : Instant} (ha : m.agents.find? a.id = some a)
    (hapart : ∀ jd s, m.snapshots.find? jd = some s → id.uuid.text ≠ jd.uuid.text) :
    Retold { m with snapshots := m.snapshots.insert id (a.snapshot id kernelSnapshot now) }
      (c.tell (event .agentSnapshotted a.id [("snapshot_id", encode id)])) := by
  obtain ⟨p, hp, hshows⟩ := h.agents a.id a ha
  rw [tell_agentSnapshotted hp]
  refine ⟨h.agents, h.stored, ?_⟩
  intro jd s hs
  rw [Table.find?_insert] at hs ⊢
  split at hs
  next hid =>
    cases hs
    exact ⟨hid.symm, p, if_pos (congrArg (·.uuid.text) hid), hshows.plugins, hshows.memoryRef,
      hshows.constraints⟩
  next =>
    obtain ⟨hkeyed, q, hq, hcaptures⟩ := h.snapshots jd s hs
    exact ⟨hkeyed, q, by rw [if_neg (hapart jd s hs).symm, hq], hcaptures⟩

end Retold

/-- The account stays right if the id that is drawn reads unlike those in use and a snapshot that is
recovered from is stored. -/
theorem Retold.move (h : Retold m c) {old : List Event} (htold : Told m old)
    (hmove : Move cause fresh m m' es)
    (hagents : ∀ id a, m.agents.find? id = some a → ∀ u, fresh = some u → u.text ≠ id.uuid.text)
    (hsnapshots : ∀ id s, m.snapshots.find? id = some s → ∀ u, fresh = some u →
      u.text ≠ id.uuid.text)
    (hfounded : ∀ x, cause = some x → x.call.IsFounded m) : Retold m' (es.foldl .tell c) := by
  cases hmove with
  | stay => exact h
  | @add a es hdrawn hbirth =>
      have hcaptured : ∀ s reply, cause = some ⟨.recovering s, reply⟩ →
          ∃ p, c.snapshots.find? s.id.uuid.text = some p ∧ p.Captures s := by
        intro s reply hcause
        exact (h.snapshots s.id s (hfounded _ hcause s rfl)).2
      obtain ⟨q, htell, hq⟩ := hbirth.exists_tell hcaptured
      rw [htell]
      exact h.withAgent hq fun id b hb htext => absurd htext.symm (hagents id b hb _ hdrawn)
  | change ha hchange =>
      exact h.change ha hchange fun id d hd htext => htold.apart id _ d _ hd ha htext
  | snapshot _ _ ha _ hdrawn =>
      exact h.snapshot ha fun jd s hs => hsnapshots jd s hs _ hdrawn

/-! ## Plugins and memory -/

/-- Whether no plugin occurs twice and the memory has a stored owner. -/
def Owns (m : Lifecycle) (plugins : List PluginId) (memoryRef : AgentId) : Prop :=
  plugins.Nodup ∧ ∃ owner, m.agents.find? memoryRef = some owner

theorem Owns.withAgent {plugins : List PluginId} {memoryRef : AgentId}
    (h : Owns m plugins memoryRef) (b : Agent) : Owns (m.withAgent b) plugins memoryRef := by
  obtain ⟨hnodup, owner, howner⟩ := h
  exact ⟨hnodup, exists_find?_withAgent howner b⟩

/-- What agents and snapshots have of plugins and memory. -/
structure Sound (m : Lifecycle) : Prop where
  agents : ∀ id a, m.agents.find? id = some a → Owns m a.plugins a.memoryRef
  snapshots : ∀ id s, m.snapshots.find? id = some s → Owns m s.plugins s.memoryRef

namespace Sound

theorem empty : Sound {} := by
  refine ⟨?_, ?_⟩ <;> intro _ _ h <;> cases h

theorem withAgent (h : Sound m) (hb : Owns (m.withAgent b) b.plugins b.memoryRef) :
    Sound (m.withAgent b) := by
  refine ⟨?_, fun id s hs => (h.snapshots id s hs).withAgent b⟩
  intro id a ha
  rcases find?_withAgent_cases ha with ⟨-, rfl⟩ | ⟨-, ha⟩
  · exact hb
  · exact (h.agents id a ha).withAgent b

theorem move (h : Sound m) (hmove : Move cause fresh m m' es)
    (hfounded : ∀ x, cause = some x → x.call.IsFounded m) : Sound m' := by
  cases hmove with
  | stay => exact h
  | @add a es hdrawn hbirth =>
      refine h.withAgent ?_
      cases hbirth with
      | spawn => exact ⟨List.nodup_nil, _, find?_withAgent_self m _⟩
      | @recover _ _ s _ _ hcause _ =>
          exact (h.snapshots s.id s (hfounded _ hcause s rfl)).withAgent _
  | @change a b es ha hchange =>
      have howns := (h.agents a.id a ha).withAgent b
      refine h.withAgent ?_
      cases hchange with
      | attach _ _ _ hnew =>
          refine ⟨?_, howns.2⟩
          simpa only [List.concat_eq_append] using howns.1.concat hnew
      | same | execute | pause | resume | archive => exact howns
  | @snapshot a id _ _ _ _ _ _ ha _ _ =>
      refine ⟨h.agents, ?_⟩
      intro jd s hs
      rw [Table.find?_insert] at hs
      split at hs
      next =>
        cases hs
        exact h.agents a.id a ha
      next => exact h.snapshots jd s hs

end Sound

/-! ## Runs -/

namespace Run

theorem after_sound {actions : List Action} (h : DistinctIds actions) :
    Sound (after actions).manager := by
  induction actions using List.reverseRecOn with
  | nil => exact .empty
  | append_singleton actions act ih =>
      obtain ⟨es, hmove, -⟩ := after_move actions act
      refine (ih h.of_append).move hmove ?_
      exact fun x hx => after_isFounded h.of_append (mem_pending_of_cause? hx)

theorem after_retold {actions : List Action} (h : DistinctIds actions) :
    Retold (after actions).manager (.ofEvents (after actions).published) := by
  induction actions using List.reverseRecOn with
  | nil => exact .empty
  | append_singleton actions act ih =>
      obtain ⟨es, hmove, hpublished⟩ := after_move actions act
      rw [hpublished, Chronicle.ofEvents_append]
      refine (ih h.of_append).move (after_told h.of_append) hmove ?_ ?_ ?_
      · exact fun id a ha u hu => h.text_ne ha hu
      · exact fun id s hs u hu => h.snapshot_text_ne hs hu
      · exact fun x hx => after_isFounded h.of_append (mem_pending_of_cause? hx)

end Run

/-- Everything that an account says about the stored agents. -/
structure Faithful (m : Lifecycle) (c : Chronicle) : Prop extends Retold m c where
  /-- A name in the account is that of one agent. -/
  apart : ∀ id jd a b, m.agents.find? id = some a → m.agents.find? jd = some b →
    id.uuid.text = jd.uuid.text → id = jd
  /-- No plugin is told of twice, and the memory belongs to an agent that is told of. -/
  owns : ∀ id a, m.agents.find? id = some a → Owns m a.plugins a.memoryRef

/-- Whatever calls are under way and whatever collaborators reply, the published events tell of the
stored agents as they are. -/
theorem chronicle_faithful {actions : List Action} (h : DistinctIds actions) :
    Faithful (Run.after actions).manager (.ofEvents (Run.after actions).published) :=
  { Run.after_retold h with
    apart := (Run.after_told h).apart
    owns := (Run.after_sound h).agents }

/-- An agent gets a second plugin while it is being snapshotted and a third one later; the snapshot
is then recovered from. -/
def branching : List Action :=
  [.start (.spawn { cpuMillis := some 500, allowedIntents := ["work"] }) 0 ⟨0⟩,
   .reply 0 obliging ⟨1⟩ ⟨1⟩, .start (.attach ⟨⟨1⟩⟩ ⟨"files"⟩) 0 ⟨2⟩, .reply 0 obliging ⟨2⟩ ⟨3⟩,
   .start (.snapshot ⟨⟨1⟩⟩) 0 ⟨4⟩, .start (.attach ⟨⟨1⟩⟩ ⟨"web"⟩) 0 ⟨5⟩,
   .reply 1 obliging ⟨3⟩ ⟨6⟩, .reply 0 obliging ⟨4⟩ ⟨7⟩,
   .start (.attach ⟨⟨1⟩⟩ ⟨"mail"⟩) 0 ⟨8⟩, .start (.recover ⟨⟨4⟩⟩) 0 ⟨9⟩,
   .start (.pause ⟨⟨1⟩⟩) 0 ⟨10⟩, .reply 0 obliging ⟨5⟩ ⟨11⟩, .reply 0 obliging ⟨6⟩ ⟨12⟩]

theorem chronicle_faithful_branching :
    DistinctIds branching ∧
      (∃ p, (Chronicle.ofEvents (Run.after branching).published).agents.find?
          (Uuid.text ⟨1⟩) = some p ∧
        p.status = .paused ∧ p.plugins = [⟨"files"⟩, ⟨"web"⟩, ⟨"mail"⟩]) ∧
      ∃ p, (Chronicle.ofEvents (Run.after branching).published).agents.find?
          (Uuid.text ⟨6⟩) = some p ∧
        p.status = .active ∧ p.plugins = [⟨"files"⟩, ⟨"web"⟩] ∧ p.memoryRef = Uuid.text ⟨1⟩ ∧
          p.constraints = { cpuMillis := some 500, allowedIntents := ["work"] } := by
  have hdistinct : DistinctIds branching := by
    unfold DistinctIds
    decide +kernel
  have hfaithful := chronicle_faithful hdistinct
  obtain ⟨a, ha⟩ : ∃ a, (Run.after branching).manager.agents.find? ⟨⟨1⟩⟩ = some a := ⟨_, rfl⟩
  obtain ⟨b, hb⟩ : ∃ b, (Run.after branching).manager.agents.find? ⟨⟨6⟩⟩ = some b := ⟨_, rfl⟩
  obtain ⟨p, hp, hshows⟩ := hfaithful.agents _ a ha
  obtain ⟨q, hq, hshown⟩ := hfaithful.agents _ b hb
  cases ha
  cases hb
  exact ⟨hdistinct, ⟨p, hp, hshows.status, hshows.plugins⟩,
    q, hq, hshown.status, hshown.plugins, hshown.memoryRef, hshown.constraints⟩

end Lifecycle

end AgentGovernance
