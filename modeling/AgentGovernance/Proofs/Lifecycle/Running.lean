import AgentGovernance.Proofs.Lifecycle.Handles

/-!
# Running handles

Over the kernel in memory a handle runs exactly as long as some agent that is not archived has it.
A reply of the kernel says which handle it has let begin or end, and the lifecycle stores or archives
an agent with that handle in the same step. So an outage leaves both sides as they are, and a second
termination, which finds the handle gone, finds its agent archived as well.
-/
namespace AgentGovernance

namespace Request

/-- The handle that begins to run when a request is answered so. -/
def begun? : (r : Request) → r.Reply → Option KernelHandle
  | .spawn _, .ok handle => some handle
  | .recover _, .ok handle => some handle
  | _, _ => none

/-- The handle that has been running until a request is answered so. -/
def ended? : (r : Request) → r.Reply → Option KernelHandle
  | .terminate handle, .ok () => some handle
  | _, _ => none

end Request

namespace Kernel

variable {k : Kernel} {handle : KernelHandle}

theorem isRunning_terminate_iff {target : KernelHandle} :
    ({ k with instances := k.instances.erase target } : Kernel).isRunning handle = true ↔
      k.isRunning handle = true ∧ target ≠ handle := by
  simp only [isRunning, Table.contains, Table.find?_erase]
  split
  next h => simp [h]
  next h => simp [Ne.symm h]

/-- Which handles run once a kernel is left with a reply that lets one of them begin or end. -/
def Reports (k : Kernel) (r : Request) (served : Kernel × r.Reply) : Prop :=
  ∀ handle, served.1.isRunning handle = true ↔
    r.begun? served.2 = some handle ∨
      k.isRunning handle = true ∧ r.ended? served.2 ≠ some handle

theorem reports_withInstance (k : Kernel) {r : Request} {reply : r.Reply} (i : Instance)
    (hbegun : r.begun? reply = some handle) (hended : r.ended? reply = none) :
    k.Reports r (k.withInstance handle i, reply) := by
  intro other
  rw [isRunning_withInstance, hbegun, hended, Option.some.injEq, eq_comm]
  simp

theorem reports_of_isRunning {k' : Kernel} {r : Request} {reply : r.Reply}
    (hinstances : ∀ other, k'.isRunning other = k.isRunning other)
    (hbegun : r.begun? reply = none) (hended : r.ended? reply = none) :
    k.Reports r (k', reply) := by
  intro other
  rw [hinstances, hbegun, hended]
  simp

/-- The reply to a request tells which handles run afterwards. -/
theorem reports_serve (k : Kernel) (refusal : Option KernelError)
    (others : (r : Request) → r.Reply) (fresh : Uuid) (r : Request) :
    k.Reports r (k.serve refusal others fresh r) := by
  cases r with
  | spawn constraints =>
      rw [serve]
      rcases k.concluded_cases (k.spawn constraints fresh) with ⟨k', begun, hx, hk⟩ | ⟨e, -, hk⟩
      · obtain ⟨-, rfl⟩ := spawn_eq_ok hx
        exact hk ▸ k.reports_withInstance _ rfl rfl
      · exact hk ▸ reports_of_isRunning (fun _ => rfl) rfl rfl
  | execute target intent params =>
      rw [serve]
      rcases k.concluded_cases (refusal.elim (k.execute target intent params) .error) with
        ⟨k', result, hx, hk⟩ | ⟨e, -, hk⟩
      · cases refusal with
        | some e => cases hx
        | none =>
            obtain ⟨i, hi, rfl⟩ := execute_eq_ok hx
            refine hk ▸ reports_of_isRunning (fun other => ?_) rfl rfl
            rw [Bool.eq_iff_iff]
            refine (isRunning_withInstance k target other _).trans (or_iff_right_of_imp ?_)
            rintro rfl
            exact isRunning_of_find? hi
      · exact hk ▸ reports_of_isRunning (fun _ => rfl) rfl rfl
  | snapshot target =>
      rw [serve]
      rcases k.concluded_cases (k.snapshot target fresh) with ⟨k', name, hx, hk⟩ | ⟨e, -, hk⟩
      · obtain ⟨i, -, rfl⟩ := snapshot_eq_ok hx
        exact hk ▸ reports_of_isRunning (fun _ => rfl) rfl rfl
      · exact hk ▸ reports_of_isRunning (fun _ => rfl) rfl rfl
  | recover snapshot =>
      rw [serve]
      rcases k.concluded_cases (k.recover snapshot fresh) with ⟨k', begun, hx, hk⟩ | ⟨e, -, hk⟩
      · obtain ⟨-, i, -, rfl⟩ := recover_eq_ok hx
        exact hk ▸ k.reports_withInstance _ rfl rfl
      · exact hk ▸ reports_of_isRunning (fun _ => rfl) rfl rfl
  | terminate target =>
      rw [serve]
      cases hx : k.terminate target with
      | ok k' =>
          intro other
          change k'.isRunning other = true ↔ none = some other ∨ _ ∧ some target ≠ some other
          rw [terminate_eq_ok hx, isRunning_terminate_iff]
          simp
      | error e => exact reports_of_isRunning (fun _ => rfl) rfl rfl
  | attach target plugin => exact reports_of_isRunning (fun _ => rfl) rfl rfl
  | judge agreement action => exact reports_of_isRunning (fun _ => rfl) rfl rfl

end Kernel

namespace Agent

theorem archive_status (a : Agent) (now : Instant) : (a.archive now).1.status = .archived := by
  unfold archive isArchived
  split
  next h => exact of_decide_eq_true h
  next => rfl

theorem archive_handle (a : Agent) (now : Instant) : (a.archive now).1.handle = a.handle := by
  unfold archive
  split <;> rfl

theorem archive_id (a : Agent) (now : Instant) : (a.archive now).1.id = a.id := by
  unfold archive
  split <;> rfl

end Agent

namespace Lifecycle

variable {m m' : Lifecycle} {k k' : Kernel} {c : Call} {handle : KernelHandle}

/-- A handle that begins to run goes to a new agent. -/
theorem resume_of_begun {reply : c.request.Reply} (h : c.request.begun? reply = some handle)
    (u : Uuid) (now : Instant) :
    ∃ a, (m.resume u now c reply).state = m.withAgent a ∧ a.handle = handle := by
  cases c with
  | spawning constraints | recovering s =>
      cases reply with
      | ok begun =>
          cases h
          exact ⟨_, rfl, rfl⟩
      | error e => cases h
  | attaching | judging | executing | snapshotting | terminating => cases h

/-- When a handle has ended, the agent that was to be terminated is archived. -/
theorem resume_of_ended (hm : m.Keyed) {reply : c.request.Reply}
    (h : c.request.ended? reply = some handle) (u : Uuid) (now : Instant) :
    ∃ id, c.agent? = some (id, handle) ∧ ∀ a, m.agents.find? id = some a →
      ∃ b, (m.resume u now c reply).state.agents.find? id = some b ∧ b.status = .archived ∧
        b.handle = a.handle := by
  cases c with
  | terminating id target =>
      cases reply with
      | ok done =>
          cases h
          refine ⟨id, rfl, fun a ha => ⟨(a.archive now).1, ?_, a.archive_status now, a.archive_handle now⟩⟩
          have hstate : (m.resume u now (.terminating id handle) (.ok done)).state =
              m.withAgent (a.archive now).1 := by
            simp only [resume, terminated, get, ha, checked]
            rfl
          rw [hstate, find?_withAgent, a.archive_id now, hm id a ha, if_pos rfl]
      | error e => cases h
  | spawning | attaching | judging | executing | snapshotting | recovering => cases h

theorem Birth.begun {reply : (r : Request) → r.Reply} {a : Agent} {es : List Event}
    (h : Birth (some ⟨c, reply⟩) a es) :
    c.request.begun? (reply c.request) = some a.handle := by
  cases h with
  | spawn hcause hreply | recover hcause hreply =>
      cases hcause
      rw [hreply]
      rfl

/-- The handles that run are those of the agents that are not archived. -/
def Paired (m : Lifecycle) (k : Kernel) : Prop :=
  ∀ handle, k.isRunning handle = true ↔
    ∃ id a, m.agents.find? id = some a ∧ a.status ≠ .archived ∧ a.handle = handle

theorem Paired.empty : Paired {} {} := by
  intro handle
  constructor
  · intro h
    cases h
  · rintro ⟨id, a, ha, -⟩
    cases ha

/-- A move keeps the handles paired with the agents if it stores an agent for every handle that
begins to run, and no handle ends of an agent that stays open. -/
theorem Paired.move {drawn : List KernelHandle} {cause : Option Cause} {fresh : Option Uuid}
    {es : List Event} (h : Paired m k) (htied : Tied drawn m' k') (hmove : Move cause fresh m m' es)
    (hfresh : ∀ id a, m.agents.find? id = some a → fresh ≠ some id.uuid)
    (hbegun : ∀ handle, k'.isRunning handle = true →
      k.isRunning handle = true ∨ ∃ id a, m'.agents.find? id = some a ∧ a.handle = handle)
    (hborn : ∀ a es, Birth cause a es → k'.isRunning a.handle = true)
    (hkept : ∀ id a, m'.agents.find? id = some a → a.status ≠ .archived →
      k.isRunning a.handle = true → k'.isRunning a.handle = true) : Paired m' k' := by
  intro handle
  constructor
  · intro hrunning
    obtain ⟨id, a, ha, rfl⟩ : ∃ id a, m'.agents.find? id = some a ∧ a.handle = handle := by
      rcases hbegun handle hrunning with hbefore | hstored
      · obtain ⟨id, a, ha, -, rfl⟩ := (h handle).mp hbefore
        obtain ⟨b, _, hb, hchange⟩ := hmove.find?_of_some ha (hfresh id a ha)
        exact ⟨id, b, hb, hchange.handle_eq⟩
      · exact hstored
    refine ⟨id, a, ha, fun harchived => ?_, rfl⟩
    rw [htied.archived id a ha harchived] at hrunning
    cases hrunning
  · rintro ⟨id, b, hb, hopen, rfl⟩
    rcases hmove.find?_cases hb with ⟨a, _, ha, hchange⟩ | ⟨-, -, es, hbirth⟩
    · refine hkept id b hb hopen ?_
      rw [hchange.handle_eq]
      refine (h a.handle).mpr ⟨id, a, ha, fun harchived => hopen ?_, rfl⟩
      rw [(hchange.eq_of_archived harchived).1, harchived]
    · exact hborn b es hbirth

variable {drawn : List KernelHandle} {fresh : Option Uuid} {es : List Event}

theorem Paired.idle (h : Paired m k) (htied : Tied drawn m' k) (hmove : Move none fresh m m' es)
    (hfresh : ∀ id a, m.agents.find? id = some a → fresh ≠ some id.uuid) : Paired m' k := by
  refine h.move htied hmove hfresh (fun _ hrunning => .inl hrunning) ?_
    fun _ _ _ _ hrunning => hrunning
  intro a es hbirth
  cases hbirth with
  | spawn hcause | recover hcause => cases hcause

/-- The lifecycle follows what the kernel does in serving a call. A call that ends a handle was made
for the one agent that has the handle, and archives it. -/
theorem Paired.serve (h : Paired m k) (hm : m.Keyed) (hcurrent : c.IsCurrent m)
    (refusal : Option KernelError) (others : (r : Request) → r.Reply) (d u : Uuid) (now : Instant)
    (htied : Tied drawn (m.resume u now c (k.serve refusal others d c.request).2).state
      (k.serve refusal others d c.request).1)
    (hfresh : ∀ id a, m.agents.find? id = some a → some u ≠ some id.uuid) :
    Paired (m.resume u now c (k.serve refusal others d c.request).2).state
      (k.serve refusal others d c.request).1 := by
  have hreports := k.reports_serve refusal others d c.request
  have hmove := resume_move hm u now c fun r => (k.serve refusal others d r).2
  refine h.move htied hmove hfresh ?_ ?_ ?_
  · intro handle hrunning
    rcases (hreports handle).mp hrunning with hbegun | ⟨hbefore, -⟩
    · obtain ⟨a, hstate, hhandle⟩ := resume_of_begun hbegun u now (m := m)
      rw [hstate]
      exact .inr ⟨a.id, a, find?_withAgent_self m a, hhandle⟩
    · exact .inl hbefore
  · intro a es hbirth
    exact (hreports a.handle).mpr (.inl hbirth.begun)
  · intro id b hb hopen hrunning
    refine (hreports b.handle).mpr (.inr ⟨hrunning, fun hended => hopen ?_⟩)
    obtain ⟨jd, hagent, harchives⟩ := resume_of_ended hm hended u now
    obtain ⟨a, ha, hhandle⟩ := hcurrent jd b.handle hagent
    obtain ⟨e, he, harchived, hsame⟩ := harchives a ha
    obtain rfl := htied.apart id jd b e hb he (hhandle.symm.trans hsame.symm)
    rw [hb] at he
    rw [Option.some.inj he, harchived]

namespace Hosted

/-- Every action is a move of the lifecycle, which draws the id that the action draws. -/
theorem step_move (s : Hosted) (a : Action) (hm : s.run.manager.Keyed) :
    ∃ cause fresh es, Move cause fresh s.run.manager (s.step a).run.manager es ∧
      fresh.map Uuid.text = a.text? := by
  cases a with
  | start o tick now =>
      obtain ⟨es, hmove, -⟩ := s.run.step_move (.start o tick now) hm
      exact ⟨_, _, es, hmove, rfl⟩
  | serve place refusal others drawn fresh now =>
      simp only [step]
      split
      next => exact ⟨none, some fresh, [], .stay, rfl⟩
      next c _ =>
        let reply := fun r => (s.kernel.serve refusal others drawn r).2
        obtain ⟨es, hmove, -⟩ := s.run.step_move (.reply place reply fresh now) hm
        exact ⟨_, _, es, hmove, rfl⟩
  | abandon place =>
      obtain ⟨es, hmove, -⟩ := s.run.step_move (.abandon place) hm
      exact ⟨_, _, es, hmove, rfl⟩
  | switch isOffline => exact ⟨none, none, [], .stay, rfl⟩

/-- An id that is drawn is not that of a stored agent. -/
theorem DistinctIds.fresh_ne {actions : List Action} {act : Action}
    (h : DistinctIds (actions ++ [act])) {id : AgentId} {a : Agent}
    (ha : (after actions).run.manager.agents.find? id = some a) {fresh : Option Uuid}
    (hfresh : fresh.map Uuid.text = act.text?) : fresh ≠ some id.uuid := by
  rintro rfl
  obtain ⟨as, hrun, htexts⟩ := exists_after actions
  rw [hrun] at ha
  exact not_drawn_before h.texts hfresh.symm (htexts ▸ Run.mem_texts as ha)

theorem find?_append_of_archived {actions more : List Action}
    (h : DistinctIds (actions ++ more)) {id : AgentId} {a : Agent}
    (ha : (after actions).run.manager.agents.find? id = some a) (harchived : a.status = .archived) :
    (after (actions ++ more)).run.manager.agents.find? id = some a := by
  induction more using List.reverseRecOn with
  | nil => rwa [List.append_nil]
  | append_singleton more act ih =>
      rw [← List.append_assoc] at h ⊢
      have hkept := ih h.of_append
      obtain ⟨cause, fresh, es, hmove, hfresh⟩ :=
        step_move (after (actions ++ more)) act (after_keyed _)
      obtain ⟨b, es, hb, hchange⟩ := hmove.find?_of_some hkept (h.fresh_ne hkept hfresh)
      rw [after_concat, hb, (hchange.eq_of_archived harchived).1]

theorem step_paired {drawn : List KernelHandle} {s : Hosted} {a : Action}
    (h : Paired s.run.manager s.kernel) (hm : s.run.manager.Keyed)
    (htied : Tied drawn (s.step a).run.manager (s.step a).kernel)
    (hcurrent : ∀ c ∈ s.run.pending, c.IsCurrent s.run.manager)
    (hfresh : ∀ id b, s.run.manager.agents.find? id = some b → ∀ fresh : Option Uuid,
      fresh.map Uuid.text = a.text? → fresh ≠ some id.uuid) :
    Paired (s.step a).run.manager (s.step a).kernel := by
  cases a with
  | start o tick now =>
      obtain ⟨es, hmove, -⟩ := s.run.step_move (.start o tick now) hm
      exact h.idle htied hmove fun id b hb => hfresh id b hb none rfl
  | serve place refusal others d fresh now =>
      cases hplace : s.run.pending[place]? with
      | none =>
          simp only [step, hplace]
          exact h
      | some c =>
          rw [step_serve hplace, Run.takeOver_manager] at htied ⊢
          exact h.serve hm (hcurrent c (List.mem_of_getElem? hplace)) refusal others d fresh now htied
            fun id b hb => hfresh id b hb (some fresh) rfl
  | abandon place =>
      obtain ⟨es, hmove, -⟩ := s.run.step_move (.abandon place) hm
      exact h.idle htied hmove fun id b hb => hfresh id b hb none rfl
  | switch isOffline => exact h

theorem after_paired {actions : List Action} (h : DistinctIds actions) :
    Paired (after actions).run.manager (after actions).kernel := by
  induction actions using List.reverseRecOn with
  | nil => exact .empty
  | append_singleton actions act ih =>
      have htied := after_tied h
      rw [after_concat] at htied ⊢
      exact step_paired (ih h.of_append) (after_keyed actions) htied
        (fun c hc => after_isCurrent h.of_append hc) fun id b hb fresh htext => h.fresh_ne hb htext

end Hosted

/-- The agents that are not archived. -/
def living (m : Lifecycle) : List Agent := m.agents.values.filter fun a => !a.isArchived

theorem mem_living_iff {a : Agent} :
    a ∈ m.living ↔ ∃ id, m.agents.find? id = some a ∧ a.status ≠ .archived := by
  rw [living, List.mem_filter, Table.mem_values_iff, exists_and_right]
  simp [Agent.isArchived]

theorem Tied.nodup_handles (h : Tied drawn m k) : (m.living.map (·.handle)).Nodup := by
  have hvalues : (m.agents.values.map (·.handle)).Nodup := by
    rw [Table.values, List.map_map]
    refine List.pairwise_map.mpr (m.agents.sorted.imp_of_mem fun {p q} hp hq hbefore hsame => ?_)
    have hid := h.apart p.1 q.1 p.2 q.2 (m.agents.mem_entries_iff.mp hp)
      (m.agents.mem_entries_iff.mp hq) hsame
    exact Key.irrefl p.1 (hid ▸ hbefore)
  exact hvalues.sublist (List.filter_sublist.map _)

/-- The running handles are those of the living agents, one for one. -/
theorem Paired.perm (h : Paired m k) (htied : Tied drawn m k) :
    k.instances.keys.Perm (m.living.map (·.handle)) := by
  rw [List.perm_ext_iff_of_nodup k.instances.nodup_keys htied.nodup_handles]
  intro handle
  rw [Table.mem_keys_iff, ← Kernel.isRunning, h handle, List.mem_map]
  constructor
  · rintro ⟨id, a, ha, hopen, hhandle⟩
    exact ⟨a, mem_living_iff.mpr ⟨id, ha, hopen⟩, hhandle⟩
  · rintro ⟨a, hliving, hhandle⟩
    obtain ⟨id, ha, hopen⟩ := mem_living_iff.mp hliving
    exact ⟨id, a, ha, hopen, hhandle⟩

/-- How the running handles and the agents go together, now and later. -/
structure Matched (s later : Hosted) : Prop where
  /-- What runs is the handle of an agent that is not archived, and these all run. -/
  running_iff : ∀ handle, s.kernel.isRunning handle = true ↔
    ∃ id a, s.run.manager.agents.find? id = some a ∧ a.status ≠ .archived ∧ a.handle = handle
  apart : ∀ id jd a b, s.run.manager.agents.find? id = some a →
    s.run.manager.agents.find? jd = some b → a.handle = b.handle → id = jd
  perm : s.kernel.instances.keys.Perm (s.run.manager.living.map (·.handle))
  /-- The handle of an archived agent never runs again. -/
  ended : ∀ id a, s.run.manager.agents.find? id = some a → a.status = .archived →
    later.kernel.isRunning a.handle = false

/-- Between any two steps of a run the handles that run and the agents that are not archived
correspond one to one, whatever calls are under way and however often the kernel has been offline. -/
theorem running_matched {actions more : List Hosted.Action}
    (h : Hosted.DistinctIds (actions ++ more)) :
    Matched (Hosted.after actions) (Hosted.after (actions ++ more)) := by
  have hpaired := Hosted.after_paired h.of_append
  have htied := Hosted.after_tied h.of_append
  refine ⟨hpaired, htied.apart, hpaired.perm htied, ?_⟩
  intro id a ha harchived
  have hkept := Hosted.find?_append_of_archived h ha harchived
  exact (Hosted.after_tied h).archived id a hkept harchived

/-- An agent is spawned and another recovered from its snapshot. While an execution of the first is
under way the kernel goes offline, so that a termination fails; of two more that begin afterwards
one is served. -/
def outage : List Hosted.Action :=
  [.start (.spawn {}) 0 ⟨0⟩, .serve 0 none obliging ⟨1⟩ ⟨2⟩ ⟨1⟩,
   .start (.snapshot ⟨⟨2⟩⟩) 0 ⟨2⟩, .serve 0 none obliging ⟨3⟩ ⟨4⟩ ⟨3⟩,
   .start (.recover ⟨⟨4⟩⟩) 0 ⟨4⟩, .serve 0 none obliging ⟨5⟩ ⟨6⟩ ⟨5⟩,
   .start (.execute ⟨⟨2⟩⟩ { name := "work" }) 0 ⟨6⟩, .switch true,
   .start (.terminate ⟨⟨2⟩⟩) 0 ⟨7⟩, .serve 1 none obliging ⟨7⟩ ⟨8⟩ ⟨8⟩, .switch false,
   .start (.terminate ⟨⟨2⟩⟩) 0 ⟨9⟩, .start (.terminate ⟨⟨2⟩⟩) 0 ⟨10⟩,
   .serve 1 none obliging ⟨11⟩ ⟨12⟩ ⟨11⟩]

/-- The other termination and the execution are served as well. -/
def outageEnd : List Hosted.Action :=
  [.serve 1 none obliging ⟨13⟩ ⟨14⟩ ⟨12⟩, .serve 0 none obliging ⟨15⟩ ⟨16⟩ ⟨13⟩]

theorem running_matched_outage :
    Hosted.DistinctIds (outage ++ outageEnd) ∧
      Matched (Hosted.after outage) (Hosted.after (outage ++ outageEnd)) ∧
      (Hosted.after outage).run.pending.length = 2 ∧
      (Hosted.after outage).kernel.instances.keys = [Kernel.handleOf ⟨5⟩] ∧
      (Hosted.after outage).run.manager.living.map (·.handle) = [Kernel.handleOf ⟨5⟩] ∧
      (Hosted.after (outage ++ outageEnd)).kernel.isRunning (Kernel.handleOf ⟨1⟩) = false := by
  have hdistinct : Hosted.DistinctIds (outage ++ outageEnd) :=
    ⟨by decide +kernel, by decide +kernel⟩
  have hmatched := running_matched hdistinct
  have hkeys : (Hosted.after outage).kernel.instances.keys = [Kernel.handleOf ⟨5⟩] := by
    decide +kernel
  have hliving : (Hosted.after outage).run.manager.living.map (·.handle) =
      [Kernel.handleOf ⟨5⟩] := List.perm_singleton.mp (hkeys ▸ hmatched.perm).symm
  obtain ⟨a, ha, harchived, hhandle⟩ : ∃ a,
      (Hosted.after outage).run.manager.agents.find? ⟨⟨2⟩⟩ = some a ∧ a.status = .archived ∧
        a.handle = Kernel.handleOf ⟨1⟩ := ⟨_, rfl, rfl, rfl⟩
  exact ⟨hdistinct, hmatched, rfl, hkeys, hliving, hhandle ▸ hmatched.ended _ a ha harchived⟩

end Lifecycle
end AgentGovernance
