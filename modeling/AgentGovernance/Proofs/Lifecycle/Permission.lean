import AgentGovernance.Proofs.Lifecycle.Journal

/-!
# No execution without permission

What has been checked for an execution before the kernel is asked to carry it out can be read off
the parts of its call. The first of them has found the agent active and allowed the intent; if there
is an agreement in effect, the one that asks the kernel goes on from a compliant answer about it.
After the kernel has replied the agent is looked at again, and only then the execution is published.
-/
namespace AgentGovernance.Lifecycle

/-! ## What is checked in a part -/

/-- The execution that a call is about. -/
def Call.execution? : Call → Option Execution
  | .judging e _ | .executing e => some e
  | _ => none

/-- A part begins an execution, and finds its agent active and allowed the intent. The execution
knows the agent's handle and the agreement in effect. -/
structure Part.Admits (p : Part) (e : Execution) : Prop where
  input : ∃ tick, p.input = .begins (.execute e.agent e.intent) tick
  found : ∃ a, p.manager.agents.find? e.agent = some a ∧ a.status = .active ∧
    a.constraints.permits e.intent.name = true ∧ e.handle = a.handle ∧
    e.agreement = e.intent.agreement.or a.constraints.agreementRef

/-- A part goes on from the answer of a registry that finds an execution compliant, and so it is. -/
structure Part.Judges (p : Part) (e : Execution) (agreement : AgreementRef) : Prop where
  input : ∃ others fresh, p.input = .goesOn (.judging e agreement) others fresh
  answered : ∃ d, p.registry.judge agreement (executeAction e.intent.name) p.now = .ok d ∧
    d.compliant = true
  cleared : p.registry.Clears agreement (executeAction e.intent.name) p.now

namespace Part

variable {p : Part} {c d : Call} {e : Execution}

theorem call?_of_begins {o : Operation} {tick : Nat} (h : p.input = .begins o tick)
    (hc : p.call? = some c) : (p.manager.start tick p.now o).result = .ok (.waiting c) := by
  rwa [call?_eq_some_iff, outcome, h] at hc

theorem call?_of_goesOn {others : (q : Request) → q.Reply} {fresh : Uuid}
    (h : p.input = .goesOn c others fresh) (hd : p.call? = some d) :
    (p.manager.resume fresh p.now c (p.registry.replies others p.now c.request)).result =
      .ok (.waiting d) := by
  rwa [call?_eq_some_iff, outcome, h] at hd

/-- A call about an execution begins with its admission, and is judged first if there is an
agreement in effect. -/
theorem admits_of_begins {o : Operation} {tick : Nat} (h : p.input = .begins o tick)
    (hc : p.call? = some c) (he : c.execution? = some e) :
    p.Admits e ∧ (c = .executing e ∧ e.agreement = none ∨
      ∃ agreement, c = .judging e agreement ∧ e.agreement = some agreement) := by
  have hwaiting := call?_of_begins h hc
  cases o with
  | spawn constraints =>
      cases hwaiting
      cases he
  | attach | snapshot | recover =>
      obtain ⟨_, -, hwaiting⟩ := checked_eq_ok hwaiting
      cases hwaiting
      cases he
  | pause | resume =>
      obtain ⟨_, -, hwaiting⟩ := checked_eq_ok hwaiting
      cases hwaiting
  | execute id intent =>
      obtain ⟨f, hf, hwaiting⟩ := checked_eq_ok hwaiting
      obtain ⟨a, ha, hactive, hpermits, rfl⟩ := admitted_eq_ok hf
      have hcases := startExecution_waiting hwaiting
      have habout : c.execution? =
          some ⟨id, a.handle, intent, intent.agreement.or a.constraints.agreementRef⟩ := by
        rcases hcases with ⟨rfl, -⟩ | ⟨agreement, rfl, -⟩ <;> rfl
      obtain rfl := Option.some.inj (habout.symm.trans he)
      exact ⟨⟨⟨tick, h⟩, a, ha, hactive, hpermits, rfl, rfl⟩, hcases⟩
  | terminate id =>
      obtain ⟨a, -, hwaiting⟩ := checked_eq_ok hwaiting
      unfold startTermination at hwaiting
      split at hwaiting
      · cases hwaiting
      · cases hwaiting
        cases he

/-- A call goes on to another request only when an execution has been judged. -/
theorem judges_of_goesOn {others : (q : Request) → q.Reply} {fresh : Uuid}
    (h : p.input = .goesOn c others fresh) (hd : p.call? = some d) :
    ∃ e agreement, c = .judging e agreement ∧ d = .executing e ∧ p.Judges e agreement := by
  have hwaiting := call?_of_goesOn h hd
  obtain ⟨e, agreement, rfl, rfl⟩ := resume_waiting hwaiting
  have hanswered : ∃ answer, p.registry.judge agreement (executeAction e.intent.name) p.now =
      .ok answer ∧ answer.compliant = true := by
    dsimp only [Call.request, Registry.replies] at hwaiting
    cases hreply : p.registry.judge agreement (executeAction e.intent.name) p.now with
    | error f =>
        rw [hreply] at hwaiting
        cases hwaiting
    | ok answer =>
        rw [hreply] at hwaiting
        refine ⟨answer, rfl, ?_⟩
        cases hcompliant : answer.compliant with
        | true => rfl
        | false =>
            simp only [Lifecycle.resume, judged, hcompliant] at hwaiting
            cases hwaiting
  exact ⟨e, agreement, rfl, rfl, ⟨others, fresh, h⟩, hanswered,
    Registry.judge_compliant_iff.mp hanswered⟩

/-- Nothing is asked of anyone when the kernel has replied to an execution. -/
theorem call?_of_executing {others : (q : Request) → q.Reply} {fresh : Uuid}
    (h : p.input = .goesOn (.executing e) others fresh) : p.call? = none := by
  cases hd : p.call? with
  | none => rfl
  | some d =>
      obtain ⟨_, _, hc, -⟩ := judges_of_goesOn h hd
      cases hc

end Part

/-! ## The gates of an execution -/

/-- An execution may be asked for in a part of a call, given the parts before it. -/
structure Permitted (e : Execution) (p : Part) (earlier : List Part) : Prop where
  admitted : ∃ first ∈ p :: earlier, first.number = p.number ∧ first.Admits e
  /-- The agreement in effect has been found to permit the intent at the very moment. -/
  judged : ∀ agreement ∈ e.agreement, p.Judges e agreement

namespace History

variable {p : Part} {ps : List Part} {e : Execution}

/-- An execution that is asked for has been admitted and, if there is an agreement, judged, and has
not been asked for before. -/
theorem permitted (h : History (p :: ps)) (hp : p.execution? = some e) :
    (∃ first ∈ p :: ps, first.Admits e) ∧ (∀ agreement ∈ e.agreement, p.Judges e agreement) ∧
      ps.filterMap Part.execution? = [] := by
  rw [Part.execution?_eq_some_iff] at hp
  cases h with
  | begins hinput =>
      obtain ⟨hadmits, ⟨-, hnone⟩ | ⟨agreement, hc, -⟩⟩ := Part.admits_of_begins hinput hp rfl
      · exact ⟨⟨p, List.mem_singleton_self p, hadmits⟩, by simp [hnone], rfl⟩
      · cases hc
  | @goesOn _ q ps _ _ _ hearlier hq hinput =>
      obtain ⟨_, agreement, rfl, ⟨⟩, hjudges⟩ := Part.judges_of_goesOn hinput hp
      cases hearlier with
      | begins hfirst =>
          obtain ⟨hadmits, ⟨hc, -⟩ | ⟨_, ⟨⟩, hagreement⟩⟩ := Part.admits_of_begins hfirst hq rfl
          · cases hc
          · refine ⟨⟨q, by simp, hadmits⟩, ?_, ?_⟩
            · simpa [hagreement] using hjudges
            · simp [Part.execution?, hq]
      | goesOn _ _ hsecond =>
          obtain ⟨_, _, _, hc, -⟩ := Part.judges_of_goesOn hsecond hq
          cases hc

/-- What the kernel replies to has been asked for exactly once. -/
theorem executions_eq (h : History (p :: ps)) {others : (q : Request) → q.Reply} {fresh : Uuid}
    (hinput : p.input = .goesOn (.executing e) others fresh) :
    ps.filterMap Part.execution? = [e] := by
  cases h with
  | begins hbegins =>
      rw [hinput] at hbegins
      cases hbegins
  | goesOn hearlier hq hgoes =>
      rw [hinput] at hgoes
      cases hgoes
      have he := Part.execution?_eq_some_iff.mpr hq
      obtain ⟨-, -, hnone⟩ := hearlier.permitted he
      rw [List.filterMap_cons_some he, hnone]

end History

/-! ## What is published -/

/-- The event about an execution that the kernel has carried out. -/
def executedEvent (e : Execution) (fresh : Uuid) (result : Json) : Event :=
  event .agentExecuted e.agent
    [("execution_id", encode (⟨fresh⟩ : ExecutionId)), ("intent", encode e.intent.name),
     ("agreement_ref", encode e.agreement), ("result_hash", encode (ContentHash.ofJson result))]

variable {m m' : Lifecycle}

theorem executed_of_active {e : Execution} {a : Agent} (ha : m.agents.find? e.agent = some a)
    (hactive : a.status = .active) (result : Json) (u : Uuid) (now : Instant) :
    m.executed e result u now =
      (m.withAgent { a with executions := a.executions + 1, updatedAt := now }).finish
        (.execution ⟨⟨u⟩, e.agent, result⟩) [executedEvent e u result] := by
  have hrecord : (m.get e.agent >>= (·.recordExecution now)) =
      .ok { a with executions := a.executions + 1, updatedAt := now } := by
    simp [get, ha, Agent.recordExecution, Agent.ensureActive, Agent.isActive, hactive, bind,
      Except.bind, pure, Except.pure]
  rw [executed, hrecord]
  rfl

theorem executed_of_not_active {e : Execution} {a : Agent}
    (ha : m.agents.find? e.agent = some a) (hactive : a.status ≠ .active) (result : Json) (u : Uuid)
    (now : Instant) :
    m.executed e result u now = .refuse m (.invalidState (.agentNotActive a.id a.status)) := by
  have hrecord : (m.get e.agent >>= (·.recordExecution now)) =
      .error (.invalidState (.agentNotActive a.id a.status)) := by
    simp [get, ha, Agent.recordExecution, Agent.ensureActive, Agent.isActive, hactive, bind,
      Except.bind]
  rw [executed, hrecord]
  rfl

/-- An execution that the kernel has carried out is refused, or it is recorded and published. -/
theorem executed_cases (m : Lifecycle) (e : Execution) (result : Json) (u : Uuid)
    (now : Instant) :
    (∃ f, (∀ missed, f ≠ .timeout missed) ∧ m.executed e result u now = .refuse m f) ∨
    ∃ a, m.agents.find? e.agent = some a ∧ a.status = .active ∧
      m.executed e result u now =
        (m.withAgent { a with executions := a.executions + 1, updatedAt := now }).finish
          (.execution ⟨⟨u⟩, e.agent, result⟩) [executedEvent e u result] := by
  cases ha : m.agents.find? e.agent with
  | none =>
      refine .inl ⟨.notFound .agent e.agent.uuid.text, nofun, ?_⟩
      simp [executed, get, ha, checked, bind, Except.bind]
  | some a =>
      by_cases hactive : a.status = .active
      · exact .inr ⟨a, rfl, hactive, executed_of_active ha hactive result u now⟩
      · refine .inl ⟨.invalidState (.agentNotActive a.id a.status), nofun, ?_⟩
        exact executed_of_not_active ha hactive result u now

/-- A part records an execution that the kernel has carried out, finds the agent active and
publishes the event. -/
structure Part.Records (p : Part) (e : Execution) (published : Event) : Prop where
  succeeded : ∃ others fresh result, p.input = .goesOn (.executing e) others fresh ∧
    others (.execute e.handle e.intent.name e.intent.params) = .ok result ∧
    published = executedEvent e fresh result
  active : ∃ a, p.manager.agents.find? e.agent = some a ∧ a.status = .active
  sole : p.outcome.published = [published]

/-- Only an execution that the kernel has carried out is published as one. -/
theorem Move.cause_of_agentExecuted {cause : Option Cause} {fresh : Option Uuid} {es : List Event}
    (h : Move cause fresh m m' es) {published : Event} (hpublished : published ∈ es)
    (htype : published.type = .agentExecuted) :
    ∃ e reply, cause = some ⟨.executing e, reply⟩ := by
  cases h with
  | stay => cases hpublished
  | add _ hbirth =>
      cases hbirth with
      | spawn | recover =>
          rw [List.mem_singleton.mp hpublished] at htype
          cases htype
  | change _ hchange =>
      cases hchange with
      | same => cases hpublished
      | execute hcause => exact ⟨_, _, hcause⟩
      | attach | pause | resume | archive =>
          rw [List.mem_singleton.mp hpublished] at htype
          cases htype
  | snapshot =>
      rw [List.mem_singleton.mp hpublished] at htype
      cases htype

theorem executed_of_published {e : Execution} {result : Json} {fresh : Uuid} {now : Instant}
    {published : Event} (h : published ∈ (m.executed e result fresh now).published) :
    (∃ a, m.agents.find? e.agent = some a ∧ a.status = .active) ∧
      (m.executed e result fresh now).published = [executedEvent e fresh result] := by
  rcases m.executed_cases e result fresh now with ⟨f, -, hexecuted⟩ | ⟨a, ha, hactive, hexecuted⟩
  · rw [hexecuted] at h
    cases h
  · rw [hexecuted]
    exact ⟨⟨a, ha, hactive⟩, rfl⟩

namespace Part

variable {p : Part}

theorem records_of_published (hm : p.manager.Keyed) {published : Event}
    (h : published ∈ p.outcome.published) (htype : published.type = .agentExecuted) :
    ∃ e, p.Records e published := by
  obtain ⟨e, reply, hcause⟩ := (p.move hm).cause_of_agentExecuted h htype
  unfold cause? at hcause
  split at hcause
  · cases hcause
  next c others fresh hinput =>
    cases hcause
    have houtcome : p.outcome = p.manager.resume fresh p.now (.executing e)
        (others (.execute e.handle e.intent.name e.intent.params)) := by
      unfold outcome
      rw [hinput]
      rfl
    cases hreply : others (.execute e.handle e.intent.name e.intent.params) with
    | error f =>
        rw [houtcome, hreply] at h
        cases h
    | ok result =>
        rw [hreply] at houtcome
        have hexecuted : p.outcome = p.manager.executed e result fresh p.now := houtcome
        rw [hexecuted] at h
        obtain ⟨hactive, hsole⟩ := executed_of_published h
        rw [hsole] at h
        obtain rfl := List.mem_singleton.mp h
        exact ⟨e, ⟨others, fresh, result, hinput, hreply, rfl⟩, hactive, by rw [hexecuted, hsole]⟩

end Part

/-! ## Runs -/

/-- What has been asked of the kernel and published has been permitted. -/
structure Governed.Guarded (s : Governed) : Prop where
  /-- There is nothing here that a run of the lifecycle does not do. -/
  mirrors : ∃ actions, s.Mirrors (Run.after actions)
  /-- Whatever the kernel is asked to execute is asked for by an execution that is permitted. -/
  permitted : ∀ later p earlier, s.journal = later ++ p :: earlier →
    ∀ handle intent params, p.request? = some (.execute handle intent params) →
      ∃ e, p.execution? = some e ∧ e.handle = handle ∧ e.intent.name = intent ∧
        e.intent.params = params ∧ Permitted e p earlier
  /-- A published execution has been asked for exactly once in its call and carried out, and its
  publication is the end of the call. -/
  recorded : ∀ later p earlier, s.journal = later ++ p :: earlier →
    ∀ published ∈ p.outcome.published, published.type = .agentExecuted →
      ∃ e, p.Records e published ∧ executionsOf earlier p.number = [e] ∧ p.call? = none ∧
        ∀ q ∈ later, q.number ≠ p.number

/-- Whatever agreements come and go and whatever else runs in between, the kernel executes nothing
that has not passed every gate in the same call, and what is published has been executed. -/
theorem execution_permitted (actions : List Governed.Action) :
    (Governed.after actions).Guarded := by
  have horderly := Governed.after_orderly actions
  refine ⟨Governed.exists_mirrors actions, ?_, ?_⟩
  · intro later p earlier hjournal handle intent params hrequest
    obtain ⟨e, he, hhandle, hintent, hparams⟩ := Part.execution?_of_request? hrequest
    obtain ⟨⟨first, hfirst, hadmits⟩, hjudged, -⟩ :=
      (horderly.history_at hjournal).of_append.permitted he
    have hsame : first ∈ p :: earlier ∧ first.number = p.number := by
      rwa [← partsOf_cons_self, mem_partsOf_iff] at hfirst
    exact ⟨e, he, hhandle, hintent, hparams, ⟨first, hsame.1, hsame.2, hadmits⟩, hjudged⟩
  · intro later p earlier hjournal published hpublished htype
    have hp : p ∈ (Governed.after actions).journal := by simp [hjournal]
    obtain ⟨e, hrecords⟩ := Part.records_of_published (horderly.found p hp) hpublished htype
    have hhistory := horderly.history_at hjournal
    obtain ⟨others, fresh, result, hinput, -, -⟩ := hrecords.succeeded
    have hlast := Part.call?_of_executing hinput
    have hend := hhistory.eq_nil_of_call? hlast
    refine ⟨e, hrecords, hhistory.of_append.executions_eq hinput, hlast, fun q hq hnumber => ?_⟩
    exact List.not_mem_nil (hend ▸ mem_partsOf_iff.mpr ⟨hq, hnumber⟩)

/-- Of two executions the second needs terms, which are revoked before it is judged. -/
def revokedMeanwhile : List Governed.Action :=
  [.start (.spawn {}) 0 ⟨0⟩, .reply 0 obliging ⟨1⟩ ⟨1⟩, .register (.issue ⟨"terms"⟩ [] {} ⟨9⟩),
   .start (.execute ⟨⟨1⟩⟩ { name := "work" }) 0 ⟨2⟩,
   .start (.execute ⟨⟨1⟩⟩ { name := "report", agreement := some ⟨"terms"⟩ }) 0 ⟨3⟩,
   .revoke ⟨"terms"⟩, .reply 1 obliging ⟨2⟩ ⟨4⟩, .reply 0 obliging ⟨3⟩ ⟨5⟩]

example : ((Governed.after revokedMeanwhile).journal.filterMap Part.execution?).map (·.intent.name) =
    ["work"] := rfl

end AgentGovernance.Lifecycle
