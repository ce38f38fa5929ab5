import AgentGovernance.Proofs.Core.Run
import AgentGovernance.Proofs.Lifecycle.Move
import AgentGovernance.Simulation.Session

/-!
# Runs of a simulated session

In a run operations of the lifecycle are called, and their tasks are polled, in any order and
whenever the ticks stand where they do: nothing says that a task is polled as soon as it is due. In
between time passes, the bus delivers, agreements change and the kernel goes offline and comes back.

What a call does at once is a part of it, and the run keeps a journal of the parts, with the session
before and after each. What holds of the first part of a call and is kept by a poll of its task
therefore holds of all its parts.
-/
namespace AgentGovernance.Simulation

namespace Session

/-- The collaborators of the core. -/
def host (s : Session) : Bench := s.own.getD s.bench

def withHost (s : Session) (b : Bench) : Session :=
  if s.own.isNone then { s with bench := b } else { s with own := some b }

/-- Agents are kept under their own ids, tasks under numbers that have been given out, and a kernel
that has carried out an execution replies at once. -/
structure Sound (s : Session) : Prop where
  keyed : s.core.lifecycle.Keyed
  numbered : ∀ id t, s.tasks.find? id = some t → id < s.nextTask
  prompt : ∀ handle intent params, s.host.waitAfter (.execute handle intent params) = 0

/-- What happens between two sessions leaves the tasks alone, keeps the agents under their ids and
makes no reply slower. -/
structure Keeps (s t : Session) : Prop where
  tasks : t.tasks = s.tasks
  nextTask : t.nextTask = s.nextTask
  keyed : s.core.lifecycle.Keyed → t.core.lifecycle.Keyed
  waitsAfter : t.host.waitsAfter = s.host.waitsAfter

variable {s t u : Session}

namespace Keeps

theorem refl (s : Session) : Keeps s s := ⟨rfl, rfl, id, rfl⟩

theorem trans (h : Keeps s t) (g : Keeps t u) : Keeps s u where
  tasks := g.tasks.trans h.tasks
  nextTask := g.nextTask.trans h.nextTask
  keyed := g.keyed ∘ h.keyed
  waitsAfter := g.waitsAfter.trans h.waitsAfter

theorem sound (h : Keeps s t) (hs : s.Sound) : t.Sound where
  keyed := h.keyed hs.keyed
  numbered := by
    rw [h.tasks, h.nextTask]
    exact hs.numbered
  prompt := by
    intro handle intent params
    rw [Bench.waitAfter, h.waitsAfter]
    exact hs.prompt handle intent params

end Keeps

@[simp] theorem host_withHost (s : Session) (b : Bench) : (s.withHost b).host = b := by
  rcases s with ⟨_, _ | _⟩ <;> rfl

@[simp] theorem core_withHost (s : Session) (b : Bench) : (s.withHost b).core = s.core := by
  rcases s with ⟨_, _ | _⟩ <;> rfl

@[simp] theorem clock_withHost (s : Session) (b : Bench) : (s.withHost b).clock = s.clock := by
  rcases s with ⟨_, _ | _⟩ <;> rfl

@[simp] theorem fresh_withHost (s : Session) (b : Bench) : (s.withHost b).fresh = s.fresh := by
  rcases s with ⟨_, _ | _⟩ <;> rfl

@[simp] theorem withHost_host (s : Session) : s.withHost s.host = s := by
  rcases s with ⟨_, _ | _⟩ <;> rfl

theorem withHost_keeps {b : Bench} (h : b.waitsAfter = s.host.waitsAfter) :
    Keeps s (s.withHost b) := by
  rcases s with ⟨_, _ | _⟩ <;> exact ⟨rfl, rfl, id, h⟩

theorem drewIf_keeps (s : Session) (drawn : Bool) : Keeps s (s.drewIf drawn) := by
  unfold drewIf
  split <;> exact ⟨rfl, rfl, id, rfl⟩

theorem withServing_keeps {w : Work} {b : Bench} (h : b.waitsAfter = (s.serving w).waitsAfter) :
    Keeps s (s.withServing w b) := by
  cases w with
  | lifecycle | commit => exact withHost_keeps h
  | direct r =>
      rcases s with ⟨_, _ | _⟩
      · exact ⟨rfl, rfl, id, h⟩
      · exact ⟨rfl, rfl, id, rfl⟩

/-! ## Requests -/

theorem serve_waitsAfter (b : Bench) (fresh : Uuid) (now : Instant) (r : Request) :
    (b.serve fresh now r).1.waitsAfter = b.waitsAfter := by
  have hkernel {α : Type} (x : Except KernelError (Kernel × α)) :
      (b.withKernel x).1.waitsAfter = b.waitsAfter := by
    unfold Bench.withKernel
    split <;> rfl
  cases r with
  | spawn | execute | snapshot | recover | terminate => exact hkernel _
  | attach handle plugin =>
      simp only [Bench.serve]
      split <;> rfl
  | judge => rfl

theorem fault_waitsAfter {b c : Bench} {r : Request} {reply : r.Reply}
    (h : b.fault? r = some (c, reply)) : c.waitsAfter = b.waitsAfter := by
  have hkernel {α : Type} {service : String} {x : Except KernelError α}
      (hx : b.kernelFault? service = some (c, x)) : c.waitsAfter = b.waitsAfter := by
    obtain ⟨e, -, hc⟩ := Option.map_eq_some_iff.mp hx
    cases hc
    rfl
  cases r with
  | spawn | execute | snapshot | recover | terminate => exact hkernel h
  | attach handle plugin =>
      obtain ⟨e, -, hc⟩ := Option.map_eq_some_iff.mp h
      cases hc
      rfl
  | judge => cases h

theorem afterLifecycle_keeps {o : Outcome Lifecycle Lifecycle.Progress}
    (h : s.core.lifecycle.Keyed → o.state.Keyed) : Keeps s (s.afterLifecycle o).1 := by
  have happly : Keeps s (s.apply (s.core.onLifecycle o)) := by
    refine ⟨rfl, rfl, ?_, rfl⟩
    rw [apply, Core.onLifecycle, Core.published, Core.foldl_publish]
    exact h
  unfold afterLifecycle
  dsimp only
  split
  · exact happly
  · exact happly
  · exact happly.trans (drewIf_keeps _ _)

theorem afterCommit_keeps (s : Session) (o : Outcome Consensus Consensus.CommitProgress) :
    Keeps s (s.afterCommit o).1 := by
  have happly : Keeps s (s.apply (s.core.onConsensus o)) := by
    refine ⟨rfl, rfl, ?_, rfl⟩
    rw [apply, Core.onConsensus, Core.published, Core.foldl_publish]
    exact id
  unfold afterCommit
  dsimp only
  split
  · exact happly
  · exact happly
  · exact happly.trans (drewIf_keeps _ _)

theorem conclude_keeps (s : Session) (w : Work) (reply : w.request.Reply) :
    Keeps s (s.conclude w reply).1 := by
  cases w with
  | lifecycle call =>
      refine afterLifecycle_keeps fun hkeyed => ?_
      classical
      have hmove := Lifecycle.resume_move hkeyed s.fresh s.clock call
        (Function.update Lifecycle.obliging call.request reply)
      rw [Function.update_self] at hmove
      exact hmove.keyed hkeyed
  | commit call => exact afterCommit_keeps s _
  | direct r => exact .refl s

theorem leave_keeps (s : Session) (w : Work) (reply : w.request.Reply) :
    Keeps s (s.leave w reply).1 := by
  unfold leave
  dsimp only
  split
  · exact conclude_keeps s w reply
  · exact .refl s

theorem act_keeps (s : Session) (w : Work) : Keeps s (s.act w).1 := by
  have hserved := withServing_keeps (serve_waitsAfter (s.serving w) s.fresh s.clock w.request)
  exact (hserved.trans (drewIf_keeps _ _)).trans (leave_keeps _ _ _)

theorem enter_keeps (s : Session) (w : Work) : Keeps s (s.enter w).1 := by
  unfold enter
  split
  · exact leave_keeps s w _
  · split
    · exact act_keeps s w
    · exact .refl s

theorem arrive_keeps (s : Session) (w : Work) : Keeps s (s.arrive w).1 := by
  unfold arrive
  split
  next b reply hfault =>
    exact (withServing_keeps (fault_waitsAfter hfault)).trans (conclude_keeps _ w reply)
  next => exact enter_keeps s w

theorem approach_keeps (s : Session) (w : Work) : Keeps s (s.approach w).1 := by
  unfold approach
  dsimp only
  split
  · exact enter_keeps s w
  · split
    · exact arrive_keeps s w
    · exact .refl s

/-- Work that has to wait is given up at its deadline. -/
theorem follow_wait (fuel : Nat) (s : Session) (e : Errand) (due : Nat) :
    follow fuel (s, .wait e due) = (s, .errand e due) ∨
      ∃ missed, follow fuel (s, .wait e due) = (s, .ended (.error (.core (.timeout missed)))) := by
  cases hdeadline : e.work.deadline? with
  | none =>
      left
      cases fuel <;> simp only [follow, hdeadline]
  | some d =>
      obtain ⟨deadline, operation⟩ := d
      by_cases hlate : deadline ≤ s.tick
      · right
        refine ⟨.missed operation .whileRunning, ?_⟩
        cases fuel <;> simp only [follow, hdeadline, if_pos hlate]
      · left
        cases fuel <;> simp only [follow, hdeadline, if_neg hlate]

theorem follow_keeps (fuel : Nat) (x : Session × Next) : Keeps x.1 (follow fuel x).1 := by
  induction fuel generalizing x with
  | zero =>
      obtain ⟨s, _ | _ | _⟩ := x
      · rcases follow_wait 0 s _ _ with h | ⟨missed, h⟩ <;> rw [h] <;> exact .refl s
      · exact .refl s
      · exact .refl s
  | succ fuel ih =>
      obtain ⟨s, _ | w | _⟩ := x
      · rcases follow_wait (fuel + 1) s _ _ with h | ⟨missed, h⟩ <;> rw [h] <;> exact .refl s
      · exact (approach_keeps s w).trans (ih _)
      · exact .refl s

theorem carryOn_keeps (s : Session) (e : Errand) : Keeps s (s.carryOn e).1 := by
  obtain ⟨w, stage⟩ := e
  cases stage with
  | approaching => exact arrive_keeps s w
  | inside => exact act_keeps s w
  | leaving reply => exact conclude_keeps s w reply

theorem poll_keeps (s : Session) (t : Task) : Keeps s (s.poll t).1 := by
  cases t with
  | errand e due =>
      simp only [poll]
      split
      · exact (carryOn_keeps s e).trans (follow_keeps 2 _)
      · exact follow_keeps 2 (s, .wait e due)
  | pause due => exact .refl s
  | entries count deadline =>
      simp only [poll]
      split
      · exact .refl s
      · split <;> exact .refl s
  | ended ending => exact .refl s

/-! ## The bus -/

theorem foldl_recordDelivery_lifecycle (c : TestCore) (now : Instant)
    (ds : List EventBus.Delivery) :
    (ds.foldl (·.recordDelivery now) c).lifecycle = c.lifecycle := by
  induction ds generalizing c with
  | nil => rfl
  | cons d ds ih =>
      rw [List.foldl_cons, ih, Core.recordDelivery]
      split <;> rfl

theorem drain_keeps (s : Session) : Keeps s s.drain := by
  refine ⟨rfl, rfl, ?_, rfl⟩
  rw [drain, Core.settle, foldl_recordDelivery_lifecycle]
  exact id

theorem sweep_keeps (s : Session) : Keeps s s.sweep := by
  refine ⟨rfl, rfl, ?_, rfl⟩
  rw [sweep, apply, Core.onConsensus, Core.published, Core.foldl_publish]
  exact id

theorem settle_keeps (s : Session) : Keeps s s.settle := by
  have hreapers (u : Session) (reapers : List Reaper) : Keeps u { u with reapers } :=
    ⟨rfl, rfl, id, rfl⟩
  unfold settle
  dsimp only
  split
  · exact (((drain_keeps s).trans (hreapers s.drain _)).trans (sweep_keeps _)).trans (drain_keeps _)
  · exact drain_keeps s

/-! ## Tasks -/

/-- How a called operation stands after its first part. -/
def begun (s : Session) (o : Lifecycle.Operation) : Session × Task :=
  follow 2 (s.afterLifecycle (s.core.lifecycle.start s.tick s.clock o))

theorem startOperation_eq (s : Session) (o : Lifecycle.Operation) :
    s.startOperation o = (s.begun o).1.addTask (s.begun o).2 := rfl

theorem begun_keeps (s : Session) (o : Lifecycle.Operation) : Keeps s (s.begun o).1 := by
  have hstarted : Keeps s (s.afterLifecycle (s.core.lifecycle.start s.tick s.clock o)).1 := by
    refine afterLifecycle_keeps fun hkeyed => ?_
    have hmove := @Lifecycle.start_move none none _ hkeyed s.tick s.clock o
    exact hmove.keyed hkeyed
  exact hstarted.trans (follow_keeps 2 _)

theorem Sound.addTask (hs : s.Sound) (x : Task) : (s.addTask x).1.Sound := by
  refine ⟨hs.keyed, ?_, hs.prompt⟩
  intro id y hy
  simp only [Session.addTask, Table.find?_insert] at hy ⊢
  split at hy
  next hid => omega
  next => exact Nat.lt_succ_of_lt (hs.numbered id y hy)

theorem pollTask_of_some {id : Nat} {x : Task} (hx : s.tasks.find? id = some x) :
    s.pollTask id = { (s.poll x).1 with tasks := (s.poll x).1.tasks.insert id (s.poll x).2 } := by
  rw [pollTask, hx]

theorem Sound.pollTask (hs : s.Sound) {id : Nat} {x : Task} (hx : s.tasks.find? id = some x) :
    (s.pollTask id).Sound := by
  have hpolled := (poll_keeps s x).sound hs
  rw [pollTask_of_some hx]
  refine ⟨hpolled.keyed, ?_, hpolled.prompt⟩
  intro jd y hy
  simp only [Table.find?_insert] at hy
  split at hy
  next hid =>
    rw [hid]
    exact hpolled.numbered id x (by rw [(poll_keeps s x).tasks, hx])
  next => exact hpolled.numbered jd y hy

end Session

/-! ## Sessions that have been set up -/

theorem build_lifecycle {σ : Type} [Trace.Store σ] {manifest : Config.Manifest}
    {proofs : ProofSystem} {store : Except BuildError σ} {hasRuntime : Bool} {c : Core σ}
    (h : Core.build manifest proofs store hasRuntime = .ok c) : c.lifecycle = {} := by
  unfold Core.build at h
  split at h
  · cases h
  · obtain ⟨left, -, h⟩ := exists_of_bind_eq_ok h
    cases hopen : Audit.Engine.open? left manifest.spec.audit.checkpointInterval with
    | error f =>
        rw [hopen] at h
        cases h
    | ok audit =>
        rw [hopen] at h
        cases hasRuntime with
        | false => cases h
        | true =>
            cases h
            rfl

theorem Setup.session_sound {u : Setup} {s : Session} (h : u.session = .ok s)
    (hprompt : ∀ handle intent params, u.bench.waitAfter (.execute handle intent params) = 0) :
    s.Sound := by
  obtain ⟨c, hc, h⟩ := exists_of_bind_eq_ok h
  cases h
  refine ⟨?_, ?_, ?_⟩
  · change c.lifecycle.Keyed
    rw [build_lifecycle hc]
    exact Lifecycle.keyed_empty
  · intro id x hx
    have hnone : none = some x := hx
    cases hnone
  · intro handle intent params
    change (u.ownBench.getD u.bench).waitAfter (.execute handle intent params) = 0
    unfold Setup.ownBench
    split
    · rfl
    · exact hprompt handle intent params

/-! ## Runs -/

inductive Action where
  | call (o : Lifecycle.Operation)
  | poll (task : Nat)
  | pass (ticks : Nat)
  | set (clock : Instant)
  /-- Delivers all events and runs the sweeps that are due. -/
  | settle
  /-- Agreements are registered and revoked, or their registry goes offline or comes back. -/
  | govern (registry : Registry)
  | switch (isOffline : Bool)

/-- What the task of a call does at once. -/
structure Part where
  task : Nat
  /-- The operation that is called, if this is the first part. -/
  begins : Option Lifecycle.Operation
  before : Session
  after : Session

namespace Session

def firstPart (s : Session) (o : Lifecycle.Operation) : Part :=
  ⟨(s.startOperation o).2, some o, s, (s.startOperation o).1⟩

def nextPart (s : Session) (task : Nat) : Part := ⟨task, none, s, s.pollTask task⟩

theorem firstPart_task (s : Session) (o : Lifecycle.Operation) :
    (s.firstPart o).task = s.nextTask := by
  rw [firstPart, startOperation_eq]
  exact (begun_keeps s o).nextTask

end Session

/-- A session with the journal of what tasks have done, the last part first. -/
structure Run where
  session : Session
  journal : List Part := []

/-- The parts of one call. -/
def partsOf (journal : List Part) (task : Nat) : List Part := journal.filter (·.task = task)

theorem partsOf_cons_self (p : Part) (ps : List Part) :
    partsOf (p :: ps) p.task = p :: partsOf ps p.task := by
  simp [partsOf]

theorem partsOf_cons_of_ne {p : Part} {task : Nat} (h : p.task ≠ task) (ps : List Part) :
    partsOf (p :: ps) task = partsOf ps task := by
  simp [partsOf, h]

namespace Run

def takeUp (r : Run) (p : Part) : Run := ⟨p.after, p :: r.journal⟩

def step (r : Run) : Action → Run
  | .call o => r.takeUp (r.session.firstPart o)
  | .poll task =>
      if r.session.tasks.contains task then r.takeUp (r.session.nextPart task) else r
  | .pass ticks => { r with session := { r.session with tick := r.session.tick + ticks } }
  | .set clock => { r with session := { r.session with clock } }
  | .settle => { r with session := r.session.settle }
  | .govern registry =>
      { r with session := r.session.withHost { r.session.host with registry } }
  | .switch isOffline =>
      let kernel := { r.session.host.kernel with isOffline }
      { r with session := r.session.withHost { r.session.host with kernel } }

/-- The state after some actions in a session. -/
def after (s : Session) (actions : List Action) : Run := actions.foldl step ⟨s, []⟩

theorem after_concat (s : Session) (actions : List Action) (a : Action) :
    after s (actions ++ [a]) = (after s actions).step a := by
  simp [after]

/-- An action calls an operation, polls a task or lets the rest of the world go on. -/
theorem step_cases (r : Run) (a : Action) :
    (∃ o, r.step a = r.takeUp (r.session.firstPart o)) ∨
    (∃ task x, r.session.tasks.find? task = some x ∧
      r.step a = r.takeUp (r.session.nextPart task)) ∨
    r.session.Keeps (r.step a).session ∧ (r.step a).journal = r.journal := by
  cases a with
  | call o => exact .inl ⟨o, rfl⟩
  | poll task =>
      cases hx : r.session.tasks.find? task with
      | some x => exact .inr (.inl ⟨task, x, hx, by simp [step, Table.contains, hx]⟩)
      | none =>
          have hstep : r.step (.poll task) = r := by simp [step, Table.contains, hx]
          rw [hstep]
          exact .inr (.inr ⟨.refl r.session, rfl⟩)
  | pass | set => exact .inr (.inr ⟨⟨rfl, rfl, id, rfl⟩, rfl⟩)
  | settle => exact .inr (.inr ⟨r.session.settle_keeps, rfl⟩)
  | govern | switch => exact .inr (.inr ⟨Session.withHost_keeps rfl, rfl⟩)

/-- The journal is about tasks that there are. -/
structure Orderly (r : Run) : Prop where
  sound : r.session.Sound
  known : ∀ p ∈ r.journal, p.task < r.session.nextTask

theorem Orderly.step {r : Run} (h : r.Orderly) (a : Action) : (r.step a).Orderly := by
  rcases r.step_cases a with ⟨o, hstep⟩ | ⟨task, x, hx, hstep⟩ | ⟨hkeeps, hjournal⟩
  · rw [hstep]
    have hkeeps := r.session.begun_keeps o
    refine ⟨(hkeeps.sound h.sound).addTask _, ?_⟩
    have hnext : (r.takeUp (r.session.firstPart o)).session.nextTask = r.session.nextTask + 1 :=
      congrArg (· + 1) hkeeps.nextTask
    rw [hnext]
    intro p hp
    rcases List.mem_cons.mp hp with rfl | hp
    · rw [Session.firstPart_task]
      exact Nat.lt_succ_self _
    · exact Nat.lt_succ_of_lt (h.known p hp)
  · rw [hstep]
    refine ⟨h.sound.pollTask hx, ?_⟩
    have hnext : (r.takeUp (r.session.nextPart task)).session.nextTask = r.session.nextTask := by
      change (r.session.pollTask task).nextTask = _
      rw [Session.pollTask_of_some hx]
      exact (r.session.poll_keeps x).nextTask
    rw [hnext]
    intro p hp
    rcases List.mem_cons.mp hp with rfl | hp
    · exact h.sound.numbered task x hx
    · exact h.known p hp
  · refine ⟨hkeeps.sound h.sound, ?_⟩
    rw [hkeeps.nextTask, hjournal]
    exact h.known

theorem after_orderly {s : Session} (hs : s.Sound) (actions : List Action) :
    (after s actions).Orderly := by
  induction actions using List.reverseRecOn with
  | nil => exact ⟨hs, List.forall_mem_nil _⟩
  | append_singleton actions a ih =>
      rw [after_concat]
      exact ih.step a

end Run

/-! ## The parts of a call -/

/-- How the task of a call may stand after some parts, of which the first is given. Polls keep it
so. -/
structure Course (o : Lifecycle.Operation) (motive : Part → List Part → Task → Prop) : Prop where
  begins : ∀ s : Session, s.Sound → motive (s.firstPart o) [s.firstPart o] (s.begun o).2
  goesOn : ∀ (s : Session) (task : Nat) (x : Task) (first : Part) (parts : List Part), s.Sound →
    s.tasks.find? task = some x → motive first parts x →
      motive first (s.nextPart task :: parts) (s.poll x).2

namespace Run

variable {o : Lifecycle.Operation} {motive : Part → List Part → Task → Prop}

/-- The calls of an operation stand as they may. -/
def Follows (o : Lifecycle.Operation) (motive : Part → List Part → Task → Prop) (r : Run) : Prop :=
  ∀ first ∈ r.journal, first.begins = some o →
    ∃ x, r.session.tasks.find? first.task = some x ∧ motive first (partsOf r.journal first.task) x

theorem Follows.call {r : Run} (h : r.Follows o motive) (hr : r.Orderly) (hcourse : Course o motive)
    (p : Lifecycle.Operation) : (r.takeUp (r.session.firstPart p)).Follows o motive := by
  have hnumber := r.session.firstPart_task p
  have htasks : (r.takeUp (r.session.firstPart p)).session.tasks =
      r.session.tasks.insert (r.session.firstPart p).task (r.session.begun p).2 := by
    rw [← (r.session.begun_keeps p).tasks]
    rfl
  intro first hfirst hbegins
  rw [htasks, takeUp]
  rcases List.mem_cons.mp hfirst with rfl | hold
  · obtain rfl := Option.some.inj hbegins
    have hnone : partsOf r.journal (r.session.firstPart p).task = [] := by
      refine List.filter_eq_nil_iff.mpr fun q hq hsame => ?_
      have hlt := hr.known q hq
      have heq : q.task = (r.session.firstPart p).task := of_decide_eq_true hsame
      omega
    refine ⟨_, Table.find?_insert_self _ _ _, ?_⟩
    rw [partsOf_cons_self, hnone]
    exact hcourse.begins r.session hr.sound
  · obtain ⟨x, hx, hmotive⟩ := h first hold hbegins
    have hother : first.task ≠ (r.session.firstPart p).task := by
      have hlt := hr.known first hold
      omega
    refine ⟨x, ?_, ?_⟩
    · rw [Table.find?_insert_ne _ hother, hx]
    · rwa [partsOf_cons_of_ne hother.symm]

theorem Follows.poll {r : Run} (h : r.Follows o motive) (hr : r.Orderly) (hcourse : Course o motive)
    {task : Nat} {y : Task} (hy : r.session.tasks.find? task = some y) :
    (r.takeUp (r.session.nextPart task)).Follows o motive := by
  have htasks : (r.takeUp (r.session.nextPart task)).session.tasks =
      r.session.tasks.insert task (r.session.poll y).2 := by
    change (r.session.pollTask task).tasks = _
    rw [Session.pollTask_of_some hy, (r.session.poll_keeps y).tasks]
  intro first hfirst hbegins
  rw [htasks, takeUp]
  rcases List.mem_cons.mp hfirst with rfl | hold
  · cases hbegins
  · obtain ⟨x, hx, hmotive⟩ := h first hold hbegins
    by_cases hsame : first.task = task
    · subst hsame
      obtain rfl := Option.some.inj (hx.symm.trans hy)
      refine ⟨_, Table.find?_insert_self _ _ _, ?_⟩
      have hparts := partsOf_cons_self (r.session.nextPart first.task) r.journal
      rw [show (r.session.nextPart first.task).task = first.task from rfl] at hparts
      rw [hparts]
      exact hcourse.goesOn r.session first.task x first _ hr.sound hy hmotive
    · refine ⟨x, ?_, ?_⟩
      · rw [Table.find?_insert_ne _ hsame, hx]
      · rwa [partsOf_cons_of_ne (Ne.symm hsame)]

theorem Follows.step {r : Run} (h : r.Follows o motive) (hr : r.Orderly) (hcourse : Course o motive)
    (a : Action) : (r.step a).Follows o motive := by
  rcases r.step_cases a with ⟨p, hstep⟩ | ⟨task, x, hx, hstep⟩ | ⟨hkeeps, hjournal⟩
  · rw [hstep]
    exact h.call hr hcourse p
  · rw [hstep]
    exact h.poll hr hcourse hx
  · rw [Follows, hkeeps.tasks, hjournal]
    exact h

theorem after_follows {s : Session} (hs : s.Sound) (hcourse : Course o motive)
    (actions : List Action) : (after s actions).Follows o motive := by
  induction actions using List.reverseRecOn with
  | nil => exact List.forall_mem_nil _
  | append_singleton actions a ih =>
      rw [after_concat]
      exact ih.step (after_orderly hs actions) hcourse a

end Run

end AgentGovernance.Simulation
