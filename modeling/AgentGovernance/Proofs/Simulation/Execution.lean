import AgentGovernance.Proofs.Kernel
import AgentGovernance.Proofs.Lifecycle.Permission
import AgentGovernance.Proofs.Simulation.Run

/-!
# What an execution leaves behind

An execution may wait for its judgement and for the kernel, and be given up at its deadline at
either place. Nothing that it does takes effect before the kernel has carried it out, and then there
is nothing left to wait for: the same part records and publishes it. So a part of an execution
leaves everything as it was, or ends with a failure of its own, or does all that there is to do.
-/
namespace AgentGovernance.Simulation

open Lifecycle (Execution Call Intent executedEvent)

/-- A kernel has counted an execution, in all and under its handle. -/
def Counts (e : Execution) (k k' : Kernel) : Prop :=
  ∃ i, k.instances.find? e.handle = some i ∧
    k' = { k with
      instances := k.instances.insert e.handle { i with executions := i.executions + 1 }
      totalExecutions := k.totalExecutions + 1 }

namespace Session

/-- Nothing has happened but that tasks have been added or have gone on. -/
def Idles (s t : Session) : Prop := ∃ tasks nextTask, t = { s with tasks, nextTask }

/-- An execution is counted by the kernel, recorded with its agent, and published. -/
structure Executes (e : Execution) (s t : Session) : Prop where
  counted : Counts e s.host.kernel t.host.kernel
  recorded : ∃ a, s.core.lifecycle.agents.find? e.agent = some a ∧ a.status = .active ∧
    t.core.lifecycle.agents = s.core.lifecycle.agents.insert e.agent
      { a with executions := a.executions + 1, updatedAt := s.clock }
  published : ∃ result, t.core.bus = s.core.bus.publish (executedEvent e s.fresh result)

/-- An execution on its way to what it asks for, or to its judgement and back. -/
inductive OnWay (e : Execution) : Errand → Prop
  | judging {agreement : AgreementRef} {stage : Stage _} :
      OnWay e ⟨.lifecycle (.judging e agreement), stage⟩
  | approaching : OnWay e ⟨.lifecycle (.executing e), .approaching⟩
  | inside : OnWay e ⟨.lifecycle (.executing e), .inside⟩

/-- What an execution comes to in one go. -/
inductive Turn (e : Execution) (s : Session) : Session × Task → Prop
  | waits {errand : Errand} {due : Nat} : OnWay e errand → Turn e s (s, .errand errand due)
  | late {missed : TimedOut} : Turn e s (s, .ended (.error (.core (.timeout missed))))
  | fails {t : Session} {f : Failure} : (∀ missed, f ≠ .timeout missed) →
      Turn e s (t, .ended (.error (.core f)))
  | done {t : Session} {result : Json} : Executes e s t → Turn e s (t, .ended (.ok result))

/-- What it comes to so far, unless it goes on with a request. -/
def Ahead (e : Execution) (s : Session) : Session × Next → Prop
  | (t, .wait errand due) => Turn e s (t, .errand errand due)
  | (t, .ended ending) => Turn e s (t, .ended ending)
  | (t, .request w) => t = s ∧ ∃ c : Call, c.execution? = some e ∧ w = .lifecycle c

variable {s : Session} {e : Execution} {agreement : AgreementRef}

/-! ## The judgement -/

theorem conclude_judging (reply : Except PolicyError Decision) :
    Ahead e s (s.conclude (.lifecycle (.judging e agreement)) reply) := by
  cases reply with
  | error f => exact .fails fun _ => Failure.noConfusion
  | ok d =>
      rw [conclude, Lifecycle.resume, Lifecycle.judged]
      split
      · exact ⟨rfl, .executing e, rfl, rfl⟩
      · exact .fails fun _ => Failure.noConfusion

theorem leave_judging (reply : Except PolicyError Decision) :
    Ahead e s (s.leave (.lifecycle (.judging e agreement)) reply) := by
  unfold leave
  dsimp only
  split
  · exact conclude_judging reply
  · exact .waits .judging

/-- A judgement leaves the registry as it is. -/
theorem act_judging : Ahead e s (s.act (.lifecycle (.judging e agreement))) := by
  have hact : s.act (.lifecycle (.judging e agreement)) =
      (s.withHost s.host).leave (.lifecycle (.judging e agreement))
        (s.host.registry.judge agreement (executeAction e.intent.name) s.clock) := rfl
  rw [hact, withHost_host]
  exact leave_judging _

theorem enter_judging : Ahead e s (s.enter (.lifecycle (.judging e agreement))) := by
  rw [enter]
  change Ahead e s (if s.host.judgementTime = 0 then _ else _)
  split
  · exact act_judging
  · exact .waits .judging

/-- There is no fault in the registry. -/
theorem arrive_judging : Ahead e s (s.arrive (.lifecycle (.judging e agreement))) := enter_judging

/-! ## The execution -/

theorem conclude_failed (t : Session) (err : KernelError) :
    Ahead e s (t.conclude (.lifecycle (.executing e)) (.error err)) :=
  .fails fun _ => Failure.noConfusion

/-- The agent is looked at again when the kernel has carried an execution out. -/
theorem conclude_executed (hs : s.Sound) {t : Session} {result : Json} (hcore : t.core = s.core)
    (hfresh : t.fresh = s.fresh) (hclock : t.clock = s.clock)
    (hcounted : Counts e s.host.kernel t.host.kernel) :
    Ahead e s (t.conclude (.lifecycle (.executing e)) (.ok result)) := by
  have hconclude : t.conclude (.lifecycle (.executing e)) (.ok result) =
      t.afterLifecycle (t.core.lifecycle.executed e result t.fresh t.clock) := rfl
  rw [hconclude, hfresh, hclock]
  rcases Lifecycle.executed_cases t.core.lifecycle e result s.fresh s.clock with
    ⟨f, hf, hexecuted⟩ | ⟨a, ha, hactive, hexecuted⟩
  · rw [hexecuted]
    exact .fails hf
  · rw [hexecuted]
    refine .done ⟨hcounted, ?_, ?_⟩
    · rw [hcore] at ha
      refine ⟨a, ha, hactive, ?_⟩
      rw [← hs.keyed e.agent a ha, ← hcore]
      rfl
    · rw [← hcore]
      exact ⟨result, rfl⟩

theorem leave_executing (hs : s.Sound) (reply : Except KernelError Json) :
    s.leave (.lifecycle (.executing e)) reply = s.conclude (.lifecycle (.executing e)) reply :=
  if_pos (decide_eq_true (hs.prompt e.handle e.intent.name e.intent.params))

theorem serve_executing :
    (s.serving (.lifecycle (.executing e))).serve s.fresh s.clock
        (.execute e.handle e.intent.name e.intent.params) =
      s.host.withKernel (s.host.kernel.execute e.handle e.intent.name e.intent.params) := rfl

theorem act_executing (hs : s.Sound) : Ahead e s (s.act (.lifecycle (.executing e))) := by
  cases hserved : s.host.kernel.execute e.handle e.intent.name e.intent.params with
  | error err =>
      have hact : s.act (.lifecycle (.executing e)) =
          (s.withHost s.host).leave (.lifecycle (.executing e)) (.error err) := by
        rw [act, serve_executing, hserved]
        rfl
      rw [hact, withHost_host, leave_executing hs]
      exact conclude_failed s err
  | ok served =>
      obtain ⟨kernel, result⟩ := served
      have hact : s.act (.lifecycle (.executing e)) =
          (s.withHost { s.host with kernel }).leave (.lifecycle (.executing e)) (.ok result) := by
        rw [act, serve_executing, hserved]
        rfl
      have hkeeps : s.Keeps (s.withHost { s.host with kernel }) := withHost_keeps rfl
      obtain ⟨i, hi, hkernel⟩ := Kernel.execute_eq_ok hserved
      rw [hact, leave_executing (hkeeps.sound hs)]
      refine conclude_executed hs (core_withHost _ _) (fresh_withHost _ _) (clock_withHost _ _) ?_
      rw [host_withHost]
      exact ⟨i, hi, hkernel⟩

theorem receive_executing :
    (s.serving (.lifecycle (.executing e))).receive
        (.execute e.handle e.intent.name e.intent.params) =
      match s.host.kernel.reach with
      | .error err => .inl (.error err)
      | .ok () => .inr s.host.executionTime := rfl

theorem enter_executing (hs : s.Sound) : Ahead e s (s.enter (.lifecycle (.executing e))) := by
  rw [enter, receive_executing]
  cases s.host.kernel.reach with
  | error err =>
      dsimp only
      rw [leave_executing hs]
      exact conclude_failed s err
  | ok u =>
      dsimp only
      split
      · exact act_executing hs
      · exact .waits .inside

theorem arrive_executing (hs : s.Sound) : Ahead e s (s.arrive (.lifecycle (.executing e))) := by
  rw [arrive]
  split
  next b reply hfault =>
    obtain ⟨err, -, hreply⟩ := Option.map_eq_some_iff.mp hfault
    cases hreply
    exact conclude_failed _ err
  next => exact enter_executing hs

/-! ## All parts -/

theorem onWay_approaching {c : Call} (hc : c.execution? = some e) :
    OnWay e ⟨.lifecycle c, .approaching⟩ := by
  cases c with
  | judging => cases hc; exact .judging
  | executing => cases hc; exact .approaching
  | spawning | attaching | snapshotting | recovering | terminating => cases hc

theorem carryOn_ahead (hs : s.Sound) {errand : Errand} (h : OnWay e errand) :
    Ahead e s (s.carryOn errand) := by
  cases h with
  | @judging agreement stage =>
      cases stage with
      | approaching => exact arrive_judging
      | inside => exact act_judging
      | leaving reply => exact conclude_judging reply
  | approaching => exact arrive_executing hs
  | inside => exact act_executing hs

theorem approach_ahead (hs : s.Sound) {c : Call} (hc : c.execution? = some e) :
    Ahead e s (s.approach (.lifecycle c)) := by
  have happroach : s.approach (.lifecycle c) =
      if s.host.waitBefore c.request = 0 then s.carryOn ⟨.lifecycle c, .approaching⟩
      else (s, .wait ⟨.lifecycle c, .approaching⟩ (s.tick + s.host.waitBefore c.request)) := rfl
  rw [happroach]
  split
  · exact carryOn_ahead hs (onWay_approaching hc)
  · exact .waits (onWay_approaching hc)

theorem follow_wait_turn {errand : Errand} (h : OnWay e errand) (fuel due : Nat) :
    Turn e s (follow fuel (s, .wait errand due)) := by
  rcases follow_wait fuel s errand due with hfollow | ⟨missed, hfollow⟩ <;> rw [hfollow]
  · exact .waits h
  · exact .late

theorem follow_turn (hs : s.Sound) (fuel : Nat) {x : Session × Next} (h : Ahead e s x) :
    Turn e s (follow fuel x) := by
  induction fuel generalizing x with
  | zero =>
      obtain ⟨t, _ | w | _⟩ := x
      · cases h with
        | waits hway => exact follow_wait_turn hway 0 _
      · obtain ⟨rfl, c, hc, rfl⟩ := h
        exact .waits (onWay_approaching hc)
      · exact h
  | succ fuel ih =>
      obtain ⟨t, _ | w | _⟩ := x
      · cases h with
        | waits hway => exact follow_wait_turn hway (fuel + 1) _
      · obtain ⟨rfl, c, hc, rfl⟩ := h
        exact ih (approach_ahead hs hc)
      · exact h

theorem poll_turn (hs : s.Sound) {errand : Errand} (h : OnWay e errand) (due : Nat) :
    Turn e s (s.poll (.errand errand due)) := by
  rw [poll]
  refine follow_turn hs 2 ?_
  split
  · exact carryOn_ahead hs h
  · exact .waits h

/-- A call that is not admitted fails at once. -/
theorem begun_turn (hs : s.Sound) (agent : AgentId) (intent : Intent) :
    (∃ f, (∀ missed, f ≠ .timeout missed) ∧
      (s.begun (.execute agent intent)).2 = .ended (.error (.core f))) ∨
    ∃ e, s.core.lifecycle.admitted agent intent = .ok e ∧
      Turn e s (s.begun (.execute agent intent)) := by
  cases hadmitted : s.core.lifecycle.admitted agent intent with
  | error f =>
      have hbegun : s.begun (.execute agent intent) =
          follow 2 (s.afterLifecycle (.refuse s.core.lifecycle f)) := by
        rw [begun, Lifecycle.start, hadmitted]
        rfl
      exact .inl ⟨f, Lifecycle.admitted_ne_timeout hadmitted, by rw [hbegun]; rfl⟩
  | ok e =>
      have hbegun : s.begun (.execute agent intent) =
          follow 2 (s.afterLifecycle (s.core.lifecycle.startExecution e s.tick)) := by
        rw [begun, Lifecycle.start, hadmitted]
        rfl
      refine .inr ⟨e, rfl, ?_⟩
      rw [hbegun, Lifecycle.startExecution]
      refine follow_turn hs 2 ?_
      split
      · exact .late
      · split
        next agreement _ => exact ⟨rfl, .judging e agreement, rfl, rfl⟩
        next => exact ⟨rfl, .executing e, rfl, rfl⟩

theorem Executes.withTasks {t : Session} (h : Executes e s t) (tasks : Table Nat Task)
    (nextTask : Nat) : Executes e s { t with tasks, nextTask } :=
  ⟨h.counted, h.recorded, h.published⟩

end Session

/-! ## Calls -/

/-- A part leaves everything as it was but the tasks. -/
def Part.IsIdle (p : Part) : Prop := p.before.Idles p.after

/-- One part of a call carries an execution out, and the others leave everything as it was. -/
def ExecutesOnce (e : Execution) (parts : List Part) : Prop :=
  ∃ later p earlier, parts = later ++ p :: earlier ∧ p.before.Executes e p.after ∧
    (∀ q ∈ later, q.IsIdle) ∧ ∀ q ∈ earlier, q.IsIdle

/-- How a call to execute may stand after some parts, of which the first is given. -/
inductive Standing (agent : AgentId) (intent : Intent) (first : Part) (parts : List Part) :
    Task → Prop
  | underWay {e : Execution} {errand : Errand} {due : Nat} :
      first.before.core.lifecycle.admitted agent intent = .ok e → Session.OnWay e errand →
      (∀ p ∈ parts, p.IsIdle) → Standing agent intent first parts (.errand errand due)
  | late {missed : TimedOut} : (∀ p ∈ parts, p.IsIdle) →
      Standing agent intent first parts (.ended (.error (.core (.timeout missed))))
  | failed {f : Failure} : (∀ missed, f ≠ .timeout missed) →
      Standing agent intent first parts (.ended (.error (.core f)))
  | done {e : Execution} {result : Json} :
      first.before.core.lifecycle.admitted agent intent = .ok e → ExecutesOnce e parts →
      Standing agent intent first parts (.ended (.ok result))

section Calls

variable {agent : AgentId} {intent : Intent} {first : Part} {parts : List Part} {s : Session}
  {task : Nat} {x : Task}

theorem idles_nextPart (hx : s.tasks.find? task = some x) :
    (s.poll x).1.Idles (s.nextPart task).after :=
  ⟨_, _, Session.pollTask_of_some hx⟩

theorem idles_firstPart (o : Lifecycle.Operation) : (s.begun o).1.Idles (s.firstPart o).after :=
  ⟨_, _, rfl⟩

/-- Where the task of a part has turned to is where the call stands, if the parts before have left
everything as it was. -/
theorem Session.Turn.standing {e : Execution} {p : Part} {turn : Session × Task}
    (hturn : Turn e p.before turn) (hafter : turn.1.Idles p.after)
    (hadmitted : first.before.core.lifecycle.admitted agent intent = .ok e)
    (hearlier : ∀ q ∈ parts, q.IsIdle) : Standing agent intent first (p :: parts) turn.2 := by
  cases hturn with
  | waits hway => exact .underWay hadmitted hway (List.forall_mem_cons.mpr ⟨hafter, hearlier⟩)
  | late => exact .late (List.forall_mem_cons.mpr ⟨hafter, hearlier⟩)
  | fails hf => exact .failed hf
  | done hexecutes =>
      obtain ⟨tasks, nextTask, hafter⟩ := hafter
      have hdone : p.before.Executes e p.after := hafter ▸ hexecutes.withTasks tasks nextTask
      exact .done hadmitted ⟨[], p, parts, rfl, hdone, List.forall_mem_nil _, hearlier⟩

theorem Standing.poll (hs : s.Sound) (hx : s.tasks.find? task = some x)
    (h : Standing agent intent first parts x) :
    Standing agent intent first (s.nextPart task :: parts) (s.poll x).2 := by
  cases h with
  | underWay hadmitted hway hearlier =>
      exact (Session.poll_turn hs hway _).standing (idles_nextPart hx) hadmitted hearlier
  | late hearlier => exact .late (List.forall_mem_cons.mpr ⟨idles_nextPart hx, hearlier⟩)
  | failed hf => exact .failed hf
  | done hadmitted honce =>
      obtain ⟨later, p, earlier, rfl, hexecutes, hlater, hearlier⟩ := honce
      refine .done hadmitted ⟨s.nextPart task :: later, p, earlier, rfl, hexecutes, ?_, hearlier⟩
      exact List.forall_mem_cons.mpr ⟨idles_nextPart hx, hlater⟩

theorem course_execute (agent : AgentId) (intent : Intent) :
    Course (.execute agent intent) (Standing agent intent) where
  begins s hs := by
    rcases Session.begun_turn hs agent intent with ⟨f, hf, hbegun⟩ | ⟨e, hadmitted, hturn⟩
    · rw [hbegun]
      exact .failed hf
    · exact hturn.standing (idles_firstPart _) hadmitted (List.forall_mem_nil _)
  goesOn _ _ _ _ _ hs hx h := h.poll hs hx

/-- A call to execute that has timed out has left everything as it was in all its parts, however
they and those of other calls follow each other. One that has ended well has carried out, recorded
and published its execution, for the agent and under the handle that its first part has found, in
one part, and left everything as it was in the others. -/
theorem execute_timeout_traceless (hs : s.Sound) (actions : List Action)
    (hfirst : first ∈ (Run.after s actions).journal)
    (hbegins : first.begins = some (.execute agent intent)) :
    let r := Run.after s actions
    (∀ missed, r.session.ending? first.task = some (.error (.core (.timeout missed))) →
      ∀ p ∈ partsOf r.journal first.task, p.IsIdle) ∧
    ∀ result, r.session.ending? first.task = some (.ok result) →
      ∃ a e, first.before.core.lifecycle.agents.find? agent = some a ∧ e.agent = agent ∧
        e.handle = a.handle ∧ e.intent = intent ∧
        ExecutesOnce e (partsOf r.journal first.task) := by
  intro r
  obtain ⟨x, hx, hstanding⟩ :=
    Run.after_follows hs (course_execute agent intent) actions first hfirst hbegins
  rw [Session.ending?, hx]
  cases hstanding with
  | underWay => exact ⟨nofun, nofun⟩
  | late hidle => exact ⟨fun _ _ => hidle, nofun⟩
  | failed hf =>
      refine ⟨fun missed h => ?_, nofun⟩
      cases h
      exact absurd rfl (hf missed)
  | done hadmitted honce =>
      obtain ⟨a, ha, -, -, rfl⟩ := Lifecycle.admitted_eq_ok hadmitted
      exact ⟨nofun, fun _ _ => ⟨a, _, ha, rfl, rfl, rfl, honce⟩⟩

/-- A kernel that takes 100 ticks for an execution. -/
def slowKernel : Setup where
  clock := ⟨0⟩
  proofs := ⟨"open", fun _ => .ok ⟨"open", "", none⟩, fun _ _ => true⟩
  bench := { executionTime := 100 }

/-- Of two executions that overlap the first is given up, and the second ends at its deadline. -/
def overlapping : List Action :=
  [.call (.spawn {}), .call (.execute ⟨.counted 2⟩ { name := "work", deadline := some 50 }),
   .pass 30, .call (.execute ⟨.counted 2⟩ { name := "report", deadline := some 130 }),
   .pass 20, .poll 1, .poll 2, .pass 80, .poll 2]

theorem execute_timeout_traceless_overlapping :
    ∃ s, slowKernel.session = .ok s ∧
      let r := Run.after s overlapping
      (∃ missed, r.session.ending? 1 = some (.error (.core (.timeout missed)))) ∧
      (∀ p ∈ partsOf r.journal 1, p.IsIdle) ∧ (∃ result, r.session.ending? 2 = some (.ok result)) ∧
      ∃ e, e.agent = ⟨.counted 2⟩ ∧ ExecutesOnce e (partsOf r.journal 2) := by
  refine ⟨_, rfl, ?_⟩
  have hs := Setup.session_sound (u := slowKernel) rfl fun _ _ _ => rfl
  have hlate := execute_timeout_traceless hs overlapping (List.mem_of_getElem? (i := 4) rfl) rfl
  have hdone := execute_timeout_traceless hs overlapping (List.mem_of_getElem? (i := 3) rfl) rfl
  obtain ⟨a, e, -, hagent, -, -, honce⟩ := hdone.2 _ rfl
  exact ⟨⟨_, rfl⟩, hlate.1 _ rfl, ⟨_, rfl⟩, e, hagent, honce⟩

end Calls

end AgentGovernance.Simulation
