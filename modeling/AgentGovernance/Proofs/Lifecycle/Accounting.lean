import AgentGovernance.Proofs.Lifecycle.Handles
import AgentGovernance.Proofs.Lifecycle.Permission
import Mathlib.Data.Nat.ModEq
import Mathlib.Algebra.BigOperators.Group.List.Basic

/-!
# Executions and their records

The kernel carries an execution out before the lifecycle looks at the agent again. If the agent has
been paused meanwhile, the execution is refused although the kernel has counted it. These refusals
are the only difference between the executions of the kernel and those in the records of the agents,
and the records agree with the published events.

The counters are words of 64 bits, so what is said of them holds up to multiples of `2 ^ 64`, and
exactly as long as there are fewer executions than that.
-/
namespace AgentGovernance.Lifecycle

/-- Whether an answer says that an execution was refused because its agent was paused when the
kernel had carried it out. -/
def Answer.isUnrecorded : Answer → Bool
  | .replied (.executing _) (.error (.invalidState (.agentNotActive _ .paused))) => true
  | _ => false

/-- The number of executions in the records of the agents. -/
def recorded (m : Lifecycle) : Nat := (m.agents.values.map (·.executions.toNat)).sum

/-- The number of events about executions. -/
def executions (es : List Event) : Nat := es.countP (·.type = .agentExecuted)

def unrecorded (xs : List Answer) : Nat := xs.countP Answer.isUnrecorded

/-- The executions that have been published or refused. -/
def Run.accounted (r : Run) : Nat := executions r.published + unrecorded r.answers

theorem executions_append (es fs : List Event) :
    executions (es ++ fs) = executions es + executions fs := List.countP_append

/-! ## Records and events -/

variable {m m' : Lifecycle} {cause : Option Cause} {fresh : Option Uuid} {es : List Event}

theorem recorded_withAgent_of_none {a : Agent} (h : m.agents.find? a.id = none) :
    (m.withAgent a).recorded = a.executions.toNat + m.recorded :=
  ((Table.perm_values_insert_of_none h a).map _).sum_eq

theorem recorded_withAgent_of_some {a b : Agent} (h : m.agents.find? b.id = some a) :
    (m.withAgent b).recorded + a.executions.toNat = m.recorded + b.executions.toNat := by
  obtain ⟨rest, hold, hnew⟩ := Table.perm_values_insert_of_some h b
  have hold := (hold.map (·.executions.toNat)).sum_eq
  have hnew := (hnew.map (·.executions.toNat)).sum_eq
  rw [List.map_cons, List.sum_cons] at hold hnew
  rw [recorded, recorded, withAgent, hold, hnew]
  omega

/-- A change adds to the record of its agent what it publishes, but for an overflow. -/
theorem Change.executions_eq {a b : Agent} (h : Change cause a b es) :
    ∃ overflow, b.executions.toNat + 2 ^ 64 * overflow = a.executions.toNat + executions es := by
  cases h with
  | same | attach | pause | resume | archive => exact ⟨0, rfl⟩
  | execute => exact ⟨(a.executions.toNat + 1) / 2 ^ 64, Nat.mod_add_div _ _⟩

theorem Birth.executions_eq {a : Agent} (h : Birth cause a es) :
    a.executions.toNat = 0 ∧ executions es = 0 := by
  cases h <;> exact ⟨rfl, rfl⟩

theorem Move.recorded_eq (h : Move cause fresh m m' es)
    (hfresh : ∀ id a, m.agents.find? id = some a → fresh ≠ some id.uuid) :
    ∃ overflow, m'.recorded + 2 ^ 64 * overflow = m.recorded + executions es := by
  cases h with
  | stay | snapshot => exact ⟨0, rfl⟩
  | @add a es hdrawn hbirth =>
      have hnone : m.agents.find? a.id = none := by
        rw [Option.eq_none_iff_forall_ne_some]
        exact fun b hb => hfresh a.id b hb hdrawn
      obtain ⟨hzero, hnothing⟩ := hbirth.executions_eq
      refine ⟨0, ?_⟩
      rw [recorded_withAgent_of_none hnone, hzero, hnothing]
      omega
  | @change a b es ha hchange =>
      obtain ⟨overflow, hcount⟩ := hchange.executions_eq
      have hsum := recorded_withAgent_of_some (hchange.id_eq.symm ▸ ha)
      exact ⟨overflow, by omega⟩

/-- Only the reply to an execution is published as one. -/
theorem Move.executions_eq_zero (h : Move cause fresh m m' es)
    (hcause : ∀ e reply, cause ≠ some ⟨.executing e, reply⟩) : executions es = 0 := by
  cases h with
  | stay | snapshot => rfl
  | add _ hbirth => exact hbirth.executions_eq.2
  | change _ hchange =>
      cases hchange with
      | same | attach | pause | resume | archive => rfl
      | execute hexecuting => exact absurd hexecuting (hcause _ _)

/-- The records agree with the events of a run. -/
theorem Run.after_recorded {actions : List Action} (h : DistinctIds actions) :
    ∃ overflow, (after actions).manager.recorded + 2 ^ 64 * overflow =
      executions (after actions).published := by
  induction actions using List.reverseRecOn with
  | nil => exact ⟨0, rfl⟩
  | append_singleton actions act ih =>
      obtain ⟨before, hbefore⟩ := ih h.of_append
      obtain ⟨es, hmove, hpublished⟩ := after_move actions act
      obtain ⟨more, hmore⟩ := hmove.recorded_eq fun id a ha hdrawn => h.text_ne ha hdrawn rfl
      rw [hpublished, executions_append]
      exact ⟨before + more, by omega⟩

/-! ## Answers -/

section TakeOver

variable (r : Run) {toAnswer : Except Failure Result → Answer}

theorem unrecorded_answer (x : Answer) :
    unrecorded (r.answer x).answers = unrecorded r.answers + if x.isUnrecorded then 1 else 0 := by
  rw [Run.answer, unrecorded, List.countP_append, List.countP_singleton]
  rfl

theorem unrecorded_takeOver (o : Outcome Lifecycle Progress)
    (h : ∀ result, (toAnswer result).isUnrecorded = false) :
    unrecorded (r.takeOver toAnswer o).answers = unrecorded r.answers := by
  unfold Run.takeOver
  split
  · rfl
  · simp only [unrecorded_answer, h]
    rfl
  · simp only [unrecorded_answer, h]
    rfl

theorem accounted_takeOver_finish (m : Lifecycle) (result : Result) (es : List Event) :
    (r.takeOver toAnswer (m.finish result es)).accounted =
      r.accounted + executions es + if (toAnswer (.ok result)).isUnrecorded then 1 else 0 := by
  rw [Run.accounted, Run.takeOver_published, executions_append]
  simp only [Run.takeOver, finish, Outcome.ok, unrecorded_answer, Run.accounted]
  omega

theorem accounted_takeOver_refuse (m : Lifecycle) (f : Failure) :
    (r.takeOver toAnswer (.refuse m f)).accounted =
      r.accounted + if (toAnswer (.error f)).isUnrecorded then 1 else 0 := by
  rw [Run.accounted, Run.takeOver_published, executions_append]
  simp only [Run.takeOver, Outcome.refuse, unrecorded_answer, Run.accounted, executions]
  rw [List.countP_nil]
  omega

end TakeOver

theorem isUnrecorded_replied {c : Call} (hc : ∀ e, c ≠ .executing e)
    (result : Except Failure Result) : (Answer.replied c result).isUnrecorded = false := by
  cases c with
  | executing e => exact absurd rfl (hc e)
  | spawning | attaching | judging | snapshotting | recovering | terminating => rfl

theorem Call.request_ne_execute {c : Call} (hc : ∀ e, c ≠ .executing e) (handle : KernelHandle)
    (intent : String) (params : Json) : c.request ≠ .execute handle intent params := by
  cases c with
  | executing e => exact absurd rfl (hc e)
  | spawning | attaching | judging | snapshotting | recovering | terminating =>
      exact Request.noConfusion

/-- An action that goes on from no execution leaves the accounts as they are. -/
theorem Run.accounted_of_not_executing {r : Run} {a : Action} (hm : r.manager.Keyed)
    (hcause : ∀ e reply, r.cause? a ≠ some ⟨.executing e, reply⟩) :
    (r.step a).accounted = r.accounted := by
  have hpublished : executions (r.step a).published = executions r.published := by
    obtain ⟨es, hmove, hpublished⟩ := r.step_move a hm
    rw [hpublished, executions_append, hmove.executions_eq_zero hcause, Nat.add_zero]
  have hanswers : unrecorded (r.step a).answers = unrecorded r.answers := by
    cases a with
    | start o tick now => exact unrecorded_takeOver r _ fun _ => rfl
    | reply place reply fresh now =>
        simp only [step]
        split
        next => rfl
        next c hc =>
          refine unrecorded_takeOver (r.withoutPending place) _ (isUnrecorded_replied ?_)
          rintro e rfl
          exact hcause e reply (by rw [cause?, hc, Option.map_some])
    | abandon place =>
        simp only [step]
        split
        next => rfl
        next => exact unrecorded_answer _ _
  rw [accounted, accounted, hpublished, hanswers]

variable {r : Run} {place : Nat} {e : Execution} {reply : (r : Request) → r.Reply} {now : Instant}

/-- An execution that the kernel has carried out is published if its agent is active, and counts as
unrecorded if it is paused. -/
theorem Run.accounted_of_executing_ok {u : Uuid} {result : Json} {a : Agent}
    (hplace : r.pending[place]? = some (.executing e))
    (hreply : reply (.execute e.handle e.intent.name e.intent.params) = .ok result)
    (ha : r.manager.agents.find? e.agent = some a) (hopen : a.status ≠ .archived) :
    (r.step (.reply place reply u now)).accounted = r.accounted + 1 := by
  have hstep : r.step (.reply place reply u now) =
      (r.withoutPending place).takeOver (.replied (.executing e))
        (r.manager.executed e result u now) := by
    simp only [step, hplace, hreply, resume]
  rw [hstep]
  cases hstatus : a.status with
  | active =>
      rw [executed_of_active ha hstatus, accounted_takeOver_finish]
      rfl
  | paused =>
      rw [executed_of_not_active ha (by simp [hstatus]), hstatus, accounted_takeOver_refuse]
      rfl
  | archived => exact absurd hstatus hopen

/-- An execution that the kernel has not carried out enters no account. -/
theorem Run.accounted_of_executing_error {u : Uuid} {f : KernelError}
    (hplace : r.pending[place]? = some (.executing e))
    (hreply : reply (.execute e.handle e.intent.name e.intent.params) = .error f) :
    (r.step (.reply place reply u now)).accounted = r.accounted := by
  have hstep : r.step (.reply place reply u now) =
      (r.withoutPending place).takeOver (.replied (.executing e))
        (.refuse r.manager (.ofKernel f)) := by
    simp only [step, hplace, hreply, resume]
  rw [hstep, accounted_takeOver_refuse]
  rfl

/-! ## The kernel's own count -/

namespace Hosted

/-- The kernel counts the executions that enter the accounts, one by one. -/
theorem step_accounted {drawn : List KernelHandle} {s : Hosted} (a : Action)
    (hm : s.run.manager.Keyed) (htied : Tied drawn s.run.manager s.kernel)
    (hcurrent : ∀ c ∈ s.run.pending, c.IsCurrent s.run.manager) :
    ∃ n, (s.step a).run.accounted = s.run.accounted + n ∧
      (s.step a).kernel.totalExecutions = s.kernel.totalExecutions + UInt64.ofNat n := by
  cases a with
  | start o tick now =>
      exact ⟨0, s.run.accounted_of_not_executing hm (by simp [Run.cause?]), by simp [step]⟩
  | serve place refusal others drawn fresh now =>
      simp only [step]
      split
      next => exact ⟨0, rfl, by simp⟩
      next c hc =>
        by_cases hexecuting : ∃ e, c = .executing e
        · obtain ⟨e, rfl⟩ := hexecuting
          obtain ⟨a, ha, hhandle⟩ := hcurrent _ (List.mem_of_getElem? hc) e.agent e.handle rfl
          rcases s.kernel.serve_execute_cases refusal others drawn e.handle e.intent.name
            e.intent.params with ⟨result, hreply, hrunning, htotal⟩ | ⟨f, hreply, hkernel⟩
          · have hopen : a.status ≠ .archived := by
              intro harchived
              rw [← hhandle, htied.archived e.agent a ha harchived] at hrunning
              cases hrunning
            exact ⟨1, Run.accounted_of_executing_ok hc hreply ha hopen, htotal⟩
          · refine ⟨0, Run.accounted_of_executing_error hc hreply, ?_⟩
            rw [Call.request, hkernel]
            simp
        · have hother : ∀ e, c ≠ .executing e := fun e he => hexecuting ⟨e, he⟩
          refine ⟨0, s.run.accounted_of_not_executing hm ?_, ?_⟩
          · intro e x hcause
            rw [Run.cause?, hc, Option.map_some] at hcause
            cases hcause
            exact hother e rfl
          · rw [(s.kernel.serve_effect refusal others drawn c.request).totalExecutions_eq
              (Call.request_ne_execute hother)]
            simp
  | abandon place =>
      exact ⟨0, s.run.accounted_of_not_executing hm (by simp [Run.cause?]), by simp [step]⟩
  | switch isOffline => exact ⟨0, rfl, by simp [step]⟩

theorem after_totalExecutions {actions : List Action} (h : DistinctIds actions) :
    (after actions).kernel.totalExecutions = UInt64.ofNat (after actions).run.accounted := by
  induction actions using List.reverseRecOn with
  | nil => rfl
  | append_singleton actions a ih =>
      obtain ⟨n, haccounted, htotal⟩ := step_accounted a (after_keyed actions)
        (after_tied h.of_append) fun c hc => after_isCurrent h.of_append hc
      rw [after_concat, htotal, haccounted, ih h.of_append, UInt64.ofNat_add]

theorem after_recorded {actions : List Action} (h : DistinctIds actions) :
    ∃ overflow, (after actions).run.manager.recorded + 2 ^ 64 * overflow =
      executions (after actions).run.published := by
  obtain ⟨as, hrun, htexts⟩ := exists_after actions
  rw [hrun]
  refine Run.after_recorded ?_
  rw [Lifecycle.DistinctIds, htexts]
  exact h.texts

end Hosted

/-- How the executions that the kernel has counted, the records of the agents and the published
events agree. -/
structure Accounted (s : Hosted) : Prop where
  recorded : s.run.manager.recorded ≡ executions s.run.published [MOD 2 ^ 64]
  total : s.kernel.totalExecutions.toNat ≡
    s.run.manager.recorded + unrecorded s.run.answers [MOD 2 ^ 64]
  /-- No counter has overflowed. -/
  exact : s.run.accounted < 2 ^ 64 →
    s.run.manager.recorded = executions s.run.published ∧
      s.kernel.totalExecutions.toNat = s.run.manager.recorded + unrecorded s.run.answers

/-- The executions of the kernel are those in the records of the agents, which are those published,
and those that were refused because the agent had been paused meanwhile. -/
theorem totalExecutions_accounted {actions : List Hosted.Action}
    (h : Hosted.DistinctIds actions) : Accounted (Hosted.after actions) := by
  obtain ⟨overflow, hrecorded⟩ := Hosted.after_recorded h
  have htotal : (Hosted.after actions).kernel.totalExecutions.toNat =
      (Hosted.after actions).run.accounted % 2 ^ 64 := by
    rw [Hosted.after_totalExecutions h, UInt64.toNat_ofNat']
  have hmod : (Hosted.after actions).run.manager.recorded ≡
      executions (Hosted.after actions).run.published [MOD 2 ^ 64] := by
    rw [← hrecorded, Nat.ModEq, Nat.add_mul_mod_self_left]
  refine ⟨hmod, ?_, ?_⟩
  · rw [htotal]
    calc (Hosted.after actions).run.accounted % 2 ^ 64
        ≡ (Hosted.after actions).run.accounted [MOD 2 ^ 64] := Nat.mod_modEq _ _
      _ ≡ (Hosted.after actions).run.manager.recorded +
          unrecorded (Hosted.after actions).run.answers [MOD 2 ^ 64] := hmod.symm.add_right _
  · intro hfew
    have hequal : (Hosted.after actions).run.manager.recorded =
        executions (Hosted.after actions).run.published := by
      unfold Run.accounted at hfew
      omega
    refine ⟨hequal, ?_⟩
    rw [htotal, Nat.mod_eq_of_lt hfew, hequal, Run.accounted]

/-- An agent executes twice and is paused during the second execution. -/
def pausedMeanwhile : List Hosted.Action :=
  [.start (.spawn {}) 0 ⟨0⟩, .serve 0 none obliging ⟨1⟩ ⟨2⟩ ⟨1⟩,
   .start (.execute ⟨⟨2⟩⟩ { name := "work" }) 0 ⟨2⟩, .serve 0 none obliging ⟨3⟩ ⟨4⟩ ⟨3⟩,
   .start (.execute ⟨⟨2⟩⟩ { name := "work" }) 0 ⟨4⟩, .start (.pause ⟨⟨2⟩⟩) 0 ⟨5⟩,
   .serve 0 none obliging ⟨5⟩ ⟨6⟩ ⟨6⟩]

/-- The kernel has counted both executions, and one is recorded and published. -/
theorem totalExecutions_ne_recorded :
    (Hosted.after pausedMeanwhile).run.pending = [] ∧
      (Hosted.after pausedMeanwhile).kernel.totalExecutions = 2 ∧
      (Hosted.after pausedMeanwhile).run.manager.recorded = 1 ∧
      executions (Hosted.after pausedMeanwhile).run.published = 1 := ⟨rfl, rfl, rfl, rfl⟩

theorem totalExecutions_accounted_pausedMeanwhile :
    Hosted.DistinctIds pausedMeanwhile ∧ Accounted (Hosted.after pausedMeanwhile) ∧
      (Hosted.after pausedMeanwhile).kernel.totalExecutions.toNat =
        (Hosted.after pausedMeanwhile).run.manager.recorded +
          unrecorded (Hosted.after pausedMeanwhile).run.answers ∧
      unrecorded (Hosted.after pausedMeanwhile).run.answers = 1 := by
  have hdistinct : Hosted.DistinctIds pausedMeanwhile :=
    ⟨by decide +kernel, by decide +kernel⟩
  have haccounted := totalExecutions_accounted hdistinct
  exact ⟨hdistinct, haccounted, (haccounted.exact (by decide +kernel)).2, rfl⟩

end AgentGovernance.Lifecycle
