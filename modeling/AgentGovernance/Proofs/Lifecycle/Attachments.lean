import AgentGovernance.Sandbox
import AgentGovernance.Proofs.Lifecycle.Running

/-!
# Plugins in the sandbox

Here the sandbox in memory serves the attachments. It keeps plugins under the handles of the kernel,
while an agent keeps them in its record. An attachment enters both, the sandbox first. An agent that
is recovered takes the plugins of its snapshot over into the record; the sandbox hears nothing of it,
so under the new handle nothing is attached until the agent is asked to attach it anew.
-/
namespace AgentGovernance

namespace Request

/-- What a request has attached under a handle when it is answered so. -/
def attached? : (r : Request) → r.Reply → Option (KernelHandle × PluginId)
  | .attach handle plugin, .ok _ => some (handle, plugin)
  | _, _ => none

end Request

namespace Sandbox

variable {s s' : Sandbox} {handle other : KernelHandle} {p q : PluginId}

/-- Serves a request. What is not for the sandbox is left to `others`. -/
def serve (s : Sandbox) (others : (r : Request) → r.Reply) : (r : Request) → Sandbox × r.Reply
  | .attach handle plugin =>
      match s.attach handle plugin with
      | .ok (s', capabilities) => (s', .ok capabilities)
      | .error e => (s, .error e)
  | r => (s, others r)

theorem mem_attached_attach {capabilities : List String}
    (h : s.attach handle p = .ok (s', capabilities)) :
    q ∈ s'.attached other ↔ q ∈ s.attached other ∨ handle = other ∧ p = q := by
  unfold attach at h
  split at h
  · cases h
  · cases h
    rw [attached, Table.find?_insert]
    split
    next hsame =>
      subst hsame
      rw [Option.getD_some]
      split
      next hlisted =>
        refine (or_iff_left_of_imp ?_).symm
        rintro ⟨-, rfl⟩
        exact List.contains_iff_mem.mp hlisted
      next => simp [eq_comm]
    next hother => simp [attached, Ne.symm hother]

/-- An attachment is kept, and none comes about but by an answer that says so. -/
theorem mem_attached_serve (s : Sandbox) (others : (r : Request) → r.Reply) (r : Request) :
    q ∈ (s.serve others r).1.attached other ↔
      q ∈ s.attached other ∨ r.attached? (s.serve others r).2 = some (other, q) := by
  cases r with
  | attach handle plugin =>
      rw [serve]
      split
      next s' capabilities h => simp [mem_attached_attach h, Request.attached?]
      next => simp [Request.attached?]
  | spawn | execute | snapshot | recover | terminate | judge => simp [serve, Request.attached?]

end Sandbox

namespace Lifecycle

/-- The lifecycle over the kernel and the sandbox in memory. -/
structure Equipped where
  hosted : Hosted := {}
  sandbox : Sandbox := {}

namespace Equipped

inductive Action where
  | host (a : Hosted.Action)
  | register (plugin : PluginId) (capabilities : List String)

def Action.hosted? : Action → Option Hosted.Action
  | .host a => some a
  | .register _ _ => none

def DistinctIds (actions : List Action) : Prop :=
  Hosted.DistinctIds (actions.filterMap Action.hosted?)

def step (s : Equipped) : Action → Equipped
  | .host (.serve place refusal others drawn fresh now) =>
      match s.hosted.run.pending[place]? with
      | none => s
      | some c =>
          let serve := s.sandbox.serve others
          { hosted := s.hosted.step (.serve place refusal (fun r => (serve r).2) drawn fresh now)
            sandbox := (serve c.request).1 }
  | .host a => { s with hosted := s.hosted.step a }
  | .register plugin capabilities => { s with sandbox := s.sandbox.register plugin capabilities }

/-- The state after some actions, of a manager, a kernel and a sandbox that start empty. -/
def after (actions : List Action) : Equipped := actions.foldl step {}

theorem after_concat (actions : List Action) (a : Action) :
    after (actions ++ [a]) = (after actions).step a := by
  simp [after]

/-- What an action is to the manager and the kernel. -/
def seen (s : Equipped) : Action → List Hosted.Action
  | .host (.serve place refusal others drawn fresh now) =>
      [.serve place refusal (fun r => (s.sandbox.serve others r).2) drawn fresh now]
  | .host a => [a]
  | .register _ _ => []

theorem step_hosted (s : Equipped) (a : Action) :
    (s.step a).hosted = (s.seen a).foldl Hosted.step s.hosted := by
  cases a with
  | host a =>
      cases a with
      | start | abandon | switch => rfl
      | serve place refusal others drawn fresh now =>
          simp only [step, seen, List.foldl_cons, List.foldl_nil]
          split
          next h => simp only [Hosted.step, h]
          next => rfl
  | register => rfl

theorem filterMap_seen {ι : Type} {draw? : Hosted.Action → Option ι} (s : Equipped) (a : Action)
    (hdraw : ∀ place refusal others more drawn fresh now,
      draw? (.serve place refusal others drawn fresh now) =
        draw? (.serve place refusal more drawn fresh now)) :
    (s.seen a).filterMap draw? = ([a].filterMap Action.hosted?).filterMap draw? := by
  cases a with
  | host a =>
      cases a with
      | start | abandon | switch => rfl
      | serve place refusal others drawn fresh now =>
          exact congrArg (fun x : Option ι => x.toList) (hdraw place refusal _ others drawn fresh now)
  | register => rfl

/-- An equipped run is a hosted run that draws the same ids and handles. -/
theorem exists_after (actions : List Action) :
    ∃ as, (after actions).hosted = Hosted.after as ∧
      as.filterMap Hosted.Action.text? =
        (actions.filterMap Action.hosted?).filterMap Hosted.Action.text? ∧
      as.filterMap Hosted.Action.handle? =
        (actions.filterMap Action.hosted?).filterMap Hosted.Action.handle? := by
  induction actions using List.reverseRecOn with
  | nil => exact ⟨[], rfl, rfl, rfl⟩
  | append_singleton actions a ih =>
      obtain ⟨as, hhosted, htexts, hhandles⟩ := ih
      refine ⟨as ++ (after actions).seen a, ?_, ?_, ?_⟩
      · rw [after_concat, step_hosted, hhosted, Hosted.after, Hosted.after, List.foldl_append]
      · rw [List.filterMap_append, List.filterMap_append, List.filterMap_append, htexts,
          filterMap_seen _ a fun _ _ _ _ _ _ _ => rfl]
      · rw [List.filterMap_append, List.filterMap_append, List.filterMap_append, hhandles,
          filterMap_seen _ a fun _ _ _ _ _ _ _ => rfl]

theorem DistinctIds.of_append {actions more : List Action} (h : DistinctIds (actions ++ more)) :
    DistinctIds actions := by
  rw [DistinctIds, List.filterMap_append] at h
  exact Hosted.DistinctIds.of_append h

end Equipped

/-! ## Records and attachments -/

variable {m m' : Lifecycle} {s s' : Sandbox} {xs ys : List Answer} {cause : Option Cause}
  {fresh : Option Uuid} {es : List Event} {handle : KernelHandle} {p : PluginId}

/-- What the reply to a call has attached under a handle. -/
def Cause.attached? (x : Cause) : Option (KernelHandle × PluginId) :=
  x.call.request.attached? (x.reply x.call.request)

theorem Cause.call_eq {x : Cause} (h : x.attached? = some (handle, p)) :
    ∃ id, x.call = .attaching id handle p := by
  obtain ⟨c, reply⟩ := x
  cases c with
  | attaching id target plugin =>
      change Request.attached? (.attach target plugin) (reply (.attach target plugin)) = _ at h
      cases hreply : reply (.attach target plugin) with
      | ok capabilities =>
          rw [hreply] at h
          cases h
          exact ⟨id, rfl⟩
      | error e =>
          rw [hreply] at h
          cases h
  | spawning | judging | executing | snapshotting | recovering | terminating => cases h

namespace Change

variable {a b : Agent}

/-- A record gains no plugin but one that has been attached. -/
theorem mem_plugins (h : Change cause a b es) (hp : p ∈ b.plugins) :
    p ∈ a.plugins ∨ ∃ x ∈ cause, ∃ handle, x.call = .attaching a.id handle p ∧
      x.attached? = some (handle, p) := by
  cases h with
  | @attach handle plugin capabilities now reply hcause hreply _ _ =>
      rcases List.mem_append.mp hp with hp | hp
      · exact .inl hp
      · obtain rfl := List.mem_singleton.mp hp
        refine .inr ⟨_, hcause, handle, rfl, ?_⟩
        change Request.attached? (.attach handle p) (reply (.attach handle p)) = _
        rw [hreply, Request.attached?]
  | same | execute | pause | resume | archive => exact .inl hp

end Change

/-- Whether an agent has a plugin from the snapshot that it was recovered from. -/
def Inherits (m : Lifecycle) (a : Agent) (p : PluginId) : Prop :=
  ∃ t, a.recoveredFrom = some t.id ∧ m.snapshots.find? t.id = some t ∧ p ∈ t.plugins

/-- How the records, the attachments and the answers so far go together. -/
structure Supplied (m : Lifecycle) (s : Sandbox) (xs : List Answer) : Prop where
  listed : ∀ id a, m.agents.find? id = some a → ∀ p ∈ a.plugins,
    p ∈ s.attached a.handle ∨ Inherits m a p
  asked : ∀ handle p, p ∈ s.attached handle → ∃ id a, m.agents.find? id = some a ∧ a.handle = handle ∧
    (a.status = .archived ∨ ∃ result, .replied (.attaching id handle p) (.ok result) ∈ xs)
  granted : ∀ id handle p result, .replied (.attaching id handle p) (.ok result) ∈ xs →
    p ∈ s.attached handle

/-- What the sandbox and the answers do along with a move of the lifecycle. -/
structure Attends (cause : Option Cause) (m : Lifecycle) (s s' : Sandbox) (xs ys : List Answer) :
    Prop where
  attached_iff : ∀ handle p, p ∈ s'.attached handle ↔ p ∈ s.attached handle ∨
    ∃ x ∈ cause, x.attached? = some (handle, p)
  kept : ∀ x ∈ xs, x ∈ ys
  /-- An attachment that the sandbox has made is refused for an archived agent only. -/
  replied : ∀ x ∈ cause, ∀ id handle p, x.call = .attaching id handle p →
    x.attached? = some (handle, p) → ∀ a, m.agents.find? id = some a →
      a.status = .archived ∨ ∃ result, .replied (.attaching id handle p) (.ok result) ∈ ys
  granted : ∀ id handle p result, .replied (.attaching id handle p) (.ok result) ∈ ys →
    .replied (.attaching id handle p) (.ok result) ∈ xs ∨
      ∃ x ∈ cause, x.attached? = some (handle, p)

namespace Supplied

theorem empty : Supplied {} {} [] := by
  refine ⟨?_, ?_, ?_⟩
  · intro id a ha
    cases ha
  · intro handle p hp
    cases hp
  · intro id handle p result h
    cases h

/-- A plugin that was attached was attached under the handle that the agent has. -/
theorem move (h : Supplied m s xs) (hm : m.Keyed) (hmove : Move cause fresh m m' es)
    (hattends : Attends cause m s s' xs ys)
    (hagents : ∀ id a, m.agents.find? id = some a → fresh ≠ some id.uuid)
    (hsnapshots : ∀ id t, m.snapshots.find? id = some t → fresh ≠ some id.uuid)
    (hcurrent : ∀ x ∈ cause, x.call.IsCurrent m ∧ x.call.IsFounded m) : Supplied m' s' ys := by
  constructor
  · intro id b hb p hp
    rcases hmove.find?_cases hb with ⟨a, es, ha, hchange⟩ | ⟨-, -, es, hbirth⟩
    · rw [hchange.handle_eq, hattends.attached_iff]
      rcases hchange.mem_plugins hp with hold | ⟨x, hx, handle, hcall, hattached⟩
      · rcases h.listed id a ha p hold with hattached | ⟨t, hfrom, ht, hpt⟩
        · exact .inl (.inl hattached)
        · refine .inr ⟨t, hchange.recoveredFrom_eq.trans hfrom, ?_, hpt⟩
          exact hmove.snapshot_of_some ht (hsnapshots t.id t ht)
      · obtain ⟨c, hc, rfl⟩ := (hcurrent x hx).1 a.id handle (by rw [hcall]; rfl)
        rw [hm id a ha, ha] at hc
        cases hc
        exact .inl (.inr ⟨x, hx, hattached⟩)
    · cases hbirth with
      | spawn => cases hp
      | @recover _ _ t _ _ hcause _ =>
          have ht := (hcurrent _ hcause).2 t rfl
          exact .inr ⟨t, rfl, hmove.snapshot_of_some ht (hsnapshots t.id t ht), hp⟩
  · intro handle p hp
    obtain ⟨id, a, ha, rfl, hasked⟩ : ∃ id a, m.agents.find? id = some a ∧ a.handle = handle ∧
        (a.status = .archived ∨ ∃ result, .replied (.attaching id handle p) (.ok result) ∈ ys) := by
      rcases (hattends.attached_iff handle p).mp hp with hp | ⟨x, hx, hattached⟩
      · obtain ⟨id, a, ha, hhandle, hasked⟩ := h.asked handle p hp
        exact ⟨id, a, ha, hhandle,
          hasked.imp_right fun ⟨result, hanswer⟩ => ⟨result, hattends.kept _ hanswer⟩⟩
      · obtain ⟨id, hcall⟩ := Cause.call_eq hattached
        obtain ⟨a, ha, hhandle⟩ := (hcurrent x hx).1 id handle (by rw [hcall]; rfl)
        exact ⟨id, a, ha, hhandle, hattends.replied x hx id handle p hcall hattached a ha⟩
    obtain ⟨b, es, hb, hchange⟩ := hmove.find?_of_some ha (hagents id a ha)
    refine ⟨id, b, hb, hchange.handle_eq, hasked.imp_left fun harchived => ?_⟩
    rw [(hchange.eq_of_archived harchived).1, harchived]
  · intro id handle p result hanswer
    rw [hattends.attached_iff]
    exact (hattends.granted id handle p result hanswer).imp_left (h.granted id handle p result)

end Supplied

/-! ## Answers -/

namespace Run

variable {r : Run} {toAnswer : Except Failure Result → Answer} {o : Outcome Lifecycle Progress}
  {x : Answer}

theorem mem_answers_takeOver :
    x ∈ (r.takeOver toAnswer o).answers ↔ x ∈ r.answers ∨
      (∃ a, o.result = .ok (.finished a) ∧ x = toAnswer (.ok a)) ∨
        ∃ f, o.result = .error f ∧ x = toAnswer (.error f) := by
  unfold takeOver
  split
  next h => simp [h]
  next h => simp [h, answer]
  next h => simp [h, answer]

end Run

/-- What is not a reply leaves the attachments and their answers alone. -/
theorem attends_idle (r : Run) (s : Sandbox) {a : Action}
    (ha : ∀ place reply fresh now, a ≠ .reply place reply fresh now) :
    Attends none r.manager s s r.answers (r.step a).answers := by
  have hanswers : ∀ x ∈ (r.step a).answers,
      x ∈ r.answers ∨ ∀ c result, x ≠ .replied c result := by
    intro x hx
    cases a with
    | start o tick now =>
        rcases Run.mem_answers_takeOver.mp hx with hx | ⟨_, -, rfl⟩ | ⟨_, -, rfl⟩
        · exact .inl hx
        · exact .inr fun _ _ => Answer.noConfusion
        · exact .inr fun _ _ => Answer.noConfusion
    | reply => exact absurd rfl (ha _ _ _ _)
    | abandon place =>
        simp only [Run.step] at hx
        split at hx
        next => exact .inl hx
        next =>
          refine (List.mem_append.mp hx).imp_right fun hx => ?_
          rw [List.mem_singleton.mp hx]
          exact fun _ _ => Answer.noConfusion
  have hkept : ∀ x ∈ r.answers, x ∈ (r.step a).answers := by
    intro x hx
    cases a with
    | start o tick now => exact Run.mem_answers_takeOver.mpr (.inl hx)
    | reply => exact absurd rfl (ha _ _ _ _)
    | abandon place =>
        simp only [Run.step]
        split
        next => exact hx
        next => exact List.mem_append_left _ hx
  refine ⟨?_, hkept, ?_, ?_⟩
  · intro handle p
    simp
  · intro x hx
    cases hx
  · intro id handle p result h
    exact .inl ((hanswers _ h).resolve_right fun hne => hne _ _ rfl)

theorem exists_reply_of_finished {id : AgentId} {reply : (Request.attach handle p).Reply} {u : Uuid}
    {now : Instant} {result : Progress}
    (h : (m.resume u now (.attaching id handle p) reply).result = .ok result) :
    ∃ capabilities, reply = .ok capabilities := by
  cases reply with
  | ok capabilities => exact ⟨capabilities, rfl⟩
  | error e => cases h

/-- An agent that is not archived takes whatever plugin the sandbox has attached. -/
theorem attached_of_open {id : AgentId} {a : Agent} (ha : m.agents.find? id = some a)
    (hopen : a.status ≠ .archived) (p : PluginId) (capabilities : List String) (now : Instant) :
    (m.attached id p capabilities now).result = .ok (.finished (.capabilities capabilities)) := by
  obtain ⟨b, hb⟩ : ∃ b, (m.get id >>= (·.attach p now)) = .ok b := by
    simp only [get, ha, bind, Except.bind, Agent.attach, Agent.ensureNotArchived, Agent.isArchived,
      hopen, decide_false, Bool.false_eq_true, if_false]
    split <;> exact ⟨_, rfl⟩
  simp only [attached, hb, checked, finish, Outcome.ok]

/-- What the sandbox attaches reaches the lifecycle through the kernel's reply. -/
theorem attached?_serve (k : Kernel) (refusal : Option KernelError) (others : (r : Request) → r.Reply)
    (drawn : Uuid) (r : Request) :
    r.attached? (k.serve refusal others drawn r).2 = r.attached? (others r) := by
  cases r <;> rfl

/-- The sandbox and the answers go along with what the lifecycle makes of a reply. -/
theorem attends_serve (r : Run) (k : Kernel) (s : Sandbox) (refusal : Option KernelError)
    (others : (r : Request) → r.Reply) (drawn u : Uuid) (now : Instant) (place : Nat) (c : Call) :
    let reply := fun r => (k.serve refusal (fun r => (s.serve others r).2) drawn r).2
    Attends (some ⟨c, reply⟩) m s (s.serve others c.request).1 r.answers
      ((r.withoutPending place).takeOver (.replied c)
        (m.resume u now c (reply c.request))).answers := by
  intro reply
  have hattached : Cause.attached? ⟨c, reply⟩ = c.request.attached? (s.serve others c.request).2 :=
    attached?_serve k refusal _ drawn c.request
  constructor
  · intro handle p
    rw [Sandbox.mem_attached_serve, ← hattached]
    simp
  · exact fun x hx => Run.mem_answers_takeOver.mpr (.inl hx)
  · rintro _ ⟨⟩ id handle p rfl hattached a ha
    refine or_iff_not_imp_left.mpr fun hopen => ?_
    change Request.attached? (.attach handle p) (reply (.attach handle p)) = _ at hattached
    cases hreply : reply (.attach handle p) with
    | error e =>
        rw [hreply] at hattached
        cases hattached
    | ok capabilities =>
        refine ⟨.capabilities capabilities, Run.mem_answers_takeOver.mpr (.inr (.inl ⟨_, ?_, rfl⟩))⟩
        exact attached_of_open ha hopen p capabilities now
  · intro id handle p result h
    rcases Run.mem_answers_takeOver.mp h with hold | ⟨a, hresult, heq⟩ | ⟨f, -, heq⟩
    · exact .inl hold
    · cases heq
      obtain ⟨capabilities, hreply⟩ := exists_reply_of_finished hresult
      refine .inr ⟨_, rfl, ?_⟩
      change Request.attached? (.attach handle p) (reply (.attach handle p)) = _
      rw [hreply, Request.attached?]
    · cases heq

/-! ## Runs -/

namespace Hosted

/-- What holds before an action: the agents are kept under their ids, the waiting calls hold what is
so, and the id that the action draws is not in use. -/
structure Ready (s : Hosted) (act : Action) : Prop where
  keyed : s.run.manager.Keyed
  pending : ∀ c ∈ s.run.pending, c.IsCurrent s.run.manager ∧ c.IsFounded s.run.manager
  agents : ∀ id a, s.run.manager.agents.find? id = some a → ∀ fresh : Option Uuid,
    fresh.map Uuid.text = act.text? → fresh ≠ some id.uuid
  snapshots : ∀ id t, s.run.manager.snapshots.find? id = some t → ∀ fresh : Option Uuid,
    fresh.map Uuid.text = act.text? → fresh ≠ some id.uuid

theorem DistinctIds.ready {actions : List Action} {act : Action}
    (h : DistinctIds (actions ++ [act])) : Ready (after actions) act := by
  refine ⟨after_keyed actions, ?_, fun id a ha fresh hfresh => h.fresh_ne ha hfresh, ?_⟩
  · exact fun c hc => ⟨after_isCurrent h.of_append hc, after_isFounded h.of_append hc⟩
  · rintro id t ht _ hfresh rfl
    obtain ⟨as, hrun, htexts⟩ := exists_after actions
    rw [hrun] at ht
    exact not_drawn_before h.texts hfresh.symm (htexts ▸ Run.mem_snapshot_texts as ht)

end Hosted

/-- What is not a reply changes nothing for the plugins. -/
theorem Supplied.idle {r : Run} (h : Supplied r.manager s r.answers) (hm : r.manager.Keyed)
    {a : Action} (ha : ∀ place reply fresh now, a ≠ .reply place reply fresh now) :
    Supplied (r.step a).manager s (r.step a).answers := by
  have hnothing : r.cause? a = none ∧ a.fresh? = none := by
    cases a with
    | start | abandon => exact ⟨rfl, rfl⟩
    | reply => exact absurd rfl (ha _ _ _ _)
  obtain ⟨es, hmove, -⟩ := r.step_move a hm
  rw [hnothing.1, hnothing.2] at hmove
  exact h.move hm hmove (attends_idle r s ha) (by simp) (by simp) (by simp)

namespace Equipped

theorem step_supplied {s : Equipped} {a : Action}
    (h : Supplied s.hosted.run.manager s.sandbox s.hosted.run.answers)
    (hready : ∀ b ∈ a.hosted?, s.hosted.Ready b) :
    Supplied (s.step a).hosted.run.manager (s.step a).sandbox (s.step a).hosted.run.answers := by
  cases a with
  | register plugin capabilities => exact ⟨h.listed, h.asked, h.granted⟩
  | host a =>
      obtain ⟨hkeyed, hpending, hagents, hsnapshots⟩ := hready a rfl
      cases a with
      | start o tick now => exact h.idle hkeyed fun _ _ _ _ => Lifecycle.Action.noConfusion
      | serve place refusal others drawn fresh now =>
          cases hplace : s.hosted.run.pending[place]? with
          | none =>
              simp only [step, hplace]
              exact h
          | some c =>
              have hmove := resume_move hkeyed fresh now c fun r =>
                (s.hosted.kernel.serve refusal (fun r => (s.sandbox.serve others r).2) drawn r).2
              simp only [step, hplace, Hosted.step_serve hplace, Run.takeOver_manager]
              refine h.move hkeyed hmove (attends_serve _ _ _ refusal others drawn fresh now place c)
                (fun id a ha => hagents id a ha (some fresh) rfl)
                (fun id t ht => hsnapshots id t ht (some fresh) rfl) ?_
              rintro _ ⟨⟩
              exact hpending c (List.mem_of_getElem? hplace)
      | abandon place => exact h.idle hkeyed fun _ _ _ _ => Lifecycle.Action.noConfusion
      | switch isOffline => exact h

theorem DistinctIds.ready {actions : List Action} {act : Action}
    (h : DistinctIds (actions ++ [act])) {a : Hosted.Action} (ha : act.hosted? = some a) :
    (after actions).hosted.Ready a := by
  obtain ⟨as, hhosted, htexts, hhandles⟩ := exists_after actions
  simp only [DistinctIds, List.filterMap_append, List.filterMap_cons, ha] at h
  rw [hhosted]
  refine Hosted.DistinctIds.ready ⟨?_, ?_⟩
  · rw [List.filterMap_append, htexts, ← List.filterMap_append]
    exact h.texts
  · rw [List.filterMap_append, hhandles, ← List.filterMap_append]
    exact h.handles

theorem after_supplied {actions : List Action} (h : DistinctIds actions) :
    Supplied (after actions).hosted.run.manager (after actions).sandbox
      (after actions).hosted.run.answers := by
  induction actions using List.reverseRecOn with
  | nil => exact .empty
  | append_singleton actions act ih =>
      rw [after_concat]
      exact step_supplied (ih h.of_append) fun a ha => h.ready ha

theorem after_apart {actions : List Action} (h : DistinctIds actions) {id jd : AgentId} {a b : Agent}
    (ha : (after actions).hosted.run.manager.agents.find? id = some a)
    (hb : (after actions).hosted.run.manager.agents.find? jd = some b) (hsame : a.handle = b.handle) :
    id = jd := by
  obtain ⟨as, hhosted, htexts, hhandles⟩ := exists_after actions
  rw [hhosted] at ha hb
  exact (Hosted.after_tied ⟨htexts ▸ h.texts, hhandles ▸ h.handles⟩).apart id jd a b ha hb hsame

end Equipped

/-- What the attachments of the sandbox have to do with the records of the agents. -/
structure Backed (s : Equipped) : Prop where
  /-- A plugin in a record is attached, or comes from the snapshot the agent was recovered from. -/
  listed : ∀ id a, s.hosted.run.manager.agents.find? id = some a → ∀ p ∈ a.plugins,
    p ∈ s.sandbox.attached a.handle ∨ Inherits s.hosted.run.manager a p
  /-- For an agent that is not archived nothing is attached but what it was asked to attach. -/
  attached_iff : ∀ id a, s.hosted.run.manager.agents.find? id = some a → a.status ≠ .archived →
    ∀ p, p ∈ s.sandbox.attached a.handle ↔
      ∃ result, .replied (.attaching id a.handle p) (.ok result) ∈ s.hosted.run.answers
  /-- An attachment that has succeeded lasts, even if the agent is archived. -/
  lasting : ∀ id handle p result,
    .replied (.attaching id handle p) (.ok result) ∈ s.hosted.run.answers →
      p ∈ s.sandbox.attached handle

/-- The sandbox backs the record of every agent but for the plugins that come from a snapshot: these
are attached exactly if the recovered agent was asked to attach them anew. -/
theorem plugins_backed {actions : List Equipped.Action} (h : Equipped.DistinctIds actions) :
    Backed (Equipped.after actions) := by
  have hsupplied := Equipped.after_supplied h
  refine ⟨hsupplied.listed, fun id a ha hopen p => ⟨fun hp => ?_, ?_⟩, hsupplied.granted⟩
  · obtain ⟨jd, b, hb, hhandle, hasked⟩ := hsupplied.asked a.handle p hp
    obtain rfl := Equipped.after_apart h hb ha hhandle
    rw [ha] at hb
    cases hb
    exact hasked.resolve_left hopen
  · rintro ⟨result, hanswer⟩
    exact hsupplied.granted id a.handle p result hanswer

/-- An agent gets a plugin and is snapshotted, and another is recovered from the snapshot. -/
def inheriting : List Equipped.Action :=
  [.register ⟨"search"⟩ ["net.read"],
   .host (.start (.spawn {}) 0 ⟨0⟩), .host (.serve 0 none obliging ⟨1⟩ ⟨2⟩ ⟨1⟩),
   .host (.start (.attach ⟨⟨2⟩⟩ ⟨"search"⟩) 0 ⟨2⟩), .host (.serve 0 none obliging ⟨3⟩ ⟨4⟩ ⟨3⟩),
   .host (.start (.snapshot ⟨⟨2⟩⟩) 0 ⟨4⟩), .host (.serve 0 none obliging ⟨5⟩ ⟨6⟩ ⟨5⟩),
   .host (.start (.recover ⟨⟨6⟩⟩) 0 ⟨6⟩), .host (.serve 0 none obliging ⟨7⟩ ⟨8⟩ ⟨7⟩)]

/-- The recovered agent lists the plugin, and the sandbox has nothing under its handle. -/
theorem plugins_backed_inheriting :
    Equipped.DistinctIds inheriting ∧ Backed (Equipped.after inheriting) ∧
      ∃ a, (Equipped.after inheriting).hosted.run.manager.agents.find? ⟨⟨8⟩⟩ = some a ∧
        a.plugins = [⟨"search"⟩] ∧ Inherits (Equipped.after inheriting).hosted.run.manager a ⟨"search"⟩ ∧
        (Equipped.after inheriting).sandbox.attached a.handle = [] ∧
        (Equipped.after inheriting).sandbox.attached (Kernel.handleOf ⟨1⟩) = [⟨"search"⟩] := by
  have hdistinct : Equipped.DistinctIds inheriting := ⟨by decide +kernel, by decide +kernel⟩
  have hbacked := plugins_backed hdistinct
  obtain ⟨a, ha, hhandle, hplugins⟩ : ∃ a,
      (Equipped.after inheriting).hosted.run.manager.agents.find? ⟨⟨8⟩⟩ = some a ∧
        a.handle = Kernel.handleOf ⟨7⟩ ∧ a.plugins = [⟨"search"⟩] := ⟨_, rfl, rfl, rfl⟩
  have hnone : (Equipped.after inheriting).sandbox.attached a.handle = [] := by
    rw [hhandle]
    decide +kernel
  refine ⟨hdistinct, hbacked, a, ha, hplugins, ?_, hnone, by decide +kernel⟩
  refine (hbacked.listed _ a ha ⟨"search"⟩ (by simp [hplugins])).resolve_left ?_
  rw [hnone]
  exact List.not_mem_nil

end Lifecycle
end AgentGovernance
