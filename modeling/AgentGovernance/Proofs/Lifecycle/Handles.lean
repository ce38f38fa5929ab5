import AgentGovernance.Proofs.Lifecycle.Hosted

/-!
# Handles

Over the kernel in memory no two agents share a handle, and the handle of an archived agent does not
run: a termination takes the instance away before the agent is archived, and no later call gives the
handle another.
-/
namespace AgentGovernance.Lifecycle

/-- What the handles of the agents have to do with the handles that run; `drawn` are the handles
drawn so far. -/
structure Tied (drawn : List KernelHandle) (m : Lifecycle) (k : Kernel) : Prop where
  known : ∀ id a, m.agents.find? id = some a → a.handle ∈ drawn
  apart : ∀ id jd a b, m.agents.find? id = some a → m.agents.find? jd = some b →
    a.handle = b.handle → id = jd
  archived : ∀ id a, m.agents.find? id = some a → a.status = .archived →
    k.isRunning a.handle = false

/-- What the kernel may do along with a move of the lifecycle; `new` is the handle it draws. -/
structure Accompanies (cause : Option Cause) (k k' : Kernel) (new : Option KernelHandle) :
    Prop where
  birth : ∀ a es, Birth cause a es → new = some a.handle
  running : ∀ handle, k'.isRunning handle = true → k.isRunning handle = true ∨ new = some handle
  terminated : ∀ id handle reply, cause = some ⟨.terminating id handle, reply⟩ →
    reply (.terminate handle) = .ok () ∨
      (∃ name, reply (.terminate handle) = .error (.handleNotFound name)) →
    k'.isRunning handle = false

namespace Tied

variable {drawn : List KernelHandle} {m m' : Lifecycle} {k k' : Kernel} {cause : Option Cause}
  {fresh : Option Uuid} {new : Option KernelHandle} {es : List Event}

theorem empty : Tied [] {} {} := by
  refine ⟨?_, ?_, ?_⟩ <;> intro _ _ <;> intros <;> contradiction

/-- Handles may be drawn for nothing. -/
theorem draw (h : Tied drawn m k) (more : List KernelHandle) (hk : k'.instances = k.instances) :
    Tied (drawn ++ more) m k' := by
  refine ⟨fun id a ha => List.mem_append_left more (h.known id a ha), h.apart, ?_⟩
  intro id a ha harchived
  rw [Kernel.isRunning, hk]
  exact h.archived id a ha harchived

/-- A move keeps the handles in order if the kernel draws a new one. -/
theorem move (h : Tied drawn m k) (hm : m.Keyed) (hmove : Move cause fresh m m' es)
    (haccompanies : Accompanies cause k k' new)
    (hnew : ∀ handle, new = some handle → handle ∉ drawn)
    (hcurrent : ∀ x ∈ cause, x.call.IsCurrent m) : Tied (drawn ++ new.toList) m' k' := by
  constructor
  · intro id b hb
    rw [List.mem_append]
    rcases hmove.find?_cases hb with ⟨a, _, ha, hchange⟩ | ⟨-, -, _, hbirth⟩
    · rw [hchange.handle_eq]
      exact .inl (h.known id a ha)
    · rw [haccompanies.birth b _ hbirth]
      exact .inr (List.mem_singleton_self _)
  · intro id jd b d hb hd hhandle
    rcases hmove.find?_cases hb with ⟨a, _, ha, hab⟩ | ⟨hid, -, _, hbirth⟩ <;>
      rcases hmove.find?_cases hd with ⟨c, _, hc, hcd⟩ | ⟨hjd, -, _, hdbirth⟩
    · rw [hab.handle_eq, hcd.handle_eq] at hhandle
      exact h.apart id jd a c ha hc hhandle
    · rw [hab.handle_eq] at hhandle
      exact absurd (hhandle ▸ h.known id a ha) (hnew _ (haccompanies.birth d _ hdbirth))
    · rw [hcd.handle_eq] at hhandle
      exact absurd (hhandle ▸ h.known jd c hc) (hnew _ (haccompanies.birth b _ hbirth))
    · rw [hid] at hjd
      obtain ⟨⟩ := id
      obtain ⟨⟩ := jd
      exact congrArg AgentId.mk (Option.some.inj hjd)
  · intro id b hb harchived
    rcases hmove.find?_cases hb with ⟨a, _, ha, hchange⟩ | ⟨-, -, _, hbirth⟩
    · rw [hchange.handle_eq]
      by_cases hbefore : a.status = .archived
      · rw [← Bool.not_eq_true]
        intro hrunning
        rcases haccompanies.running _ hrunning with hrunning | hdrawn
        · rw [h.archived id a ha hbefore] at hrunning
          cases hrunning
        · exact hnew _ hdrawn (h.known id a ha)
      · obtain ⟨handle, reply, hcause, hreply⟩ := hchange.of_archived harchived hbefore
        obtain ⟨c, hc, haskedUnder⟩ := hcurrent _ hcause a.id handle rfl
        rw [hm id a ha, ha] at hc
        obtain rfl := Option.some.inj hc
        rw [haskedUnder]
        exact haccompanies.terminated a.id handle reply hcause hreply
    · rw [hbirth.status_eq] at harchived
      cases harchived

end Tied

namespace Hosted

/-- The kernel goes along with what the lifecycle makes of its replies. -/
theorem accompanies_serve (k : Kernel) (refusal : Option KernelError)
    (others : (r : Request) → r.Reply) (drawn : Uuid) (c : Call) :
    Accompanies (some ⟨c, fun r => (k.serve refusal others drawn r).2⟩) k
      (k.serve refusal others drawn c.request).1 (some (Kernel.handleOf drawn)) := by
  constructor
  · intro a es hbirth
    cases hbirth with
    | spawn hcause hreply =>
        cases hcause
        rw [Kernel.serve_spawn_eq_ok hreply]
        rfl
    | recover hcause hreply =>
        cases hcause
        rw [Kernel.serve_recover_eq_ok hreply]
        rfl
  · intro handle hrunning
    rcases (k.serve_effect refusal others drawn c.request).isRunning hrunning with h | rfl
    · exact .inl h
    · exact .inr rfl
  · intro id handle reply hcause hreply
    cases hcause
    exact Kernel.isRunning_serve_terminate hreply

/-- A kernel that does nothing goes along with what is not a reply. -/
theorem accompanies_none (k : Kernel) : Accompanies none k k none := by
  refine ⟨?_, ?_, ?_⟩
  · intro a es hbirth
    cases hbirth with
    | spawn hcause | recover hcause => cases hcause
  · exact fun handle hrunning => .inl hrunning
  · intro id handle reply hcause
    cases hcause

theorem step_tied {drawn : List KernelHandle} {s : Hosted} {a : Action}
    (h : Tied drawn s.run.manager s.kernel) (hm : s.run.manager.Keyed)
    (hnew : ∀ handle, a.handle? = some handle → handle ∉ drawn)
    (hcurrent : ∀ c ∈ s.run.pending, c.IsCurrent s.run.manager) :
    Tied (drawn ++ a.handle?.toList) (s.step a).run.manager (s.step a).kernel := by
  cases a with
  | start o tick now =>
      obtain ⟨es, hmove, -⟩ := s.run.step_move (.start o tick now) hm
      exact h.move hm hmove (accompanies_none s.kernel) hnew (by simp [Run.cause?])
  | serve place refusal others drawn fresh now =>
      simp only [step]
      split
      next => exact h.draw _ rfl
      next c hc =>
        let reply := fun r => (s.kernel.serve refusal others drawn r).2
        obtain ⟨es, hmove, -⟩ := s.run.step_move (.reply place reply fresh now) hm
        have hcause : s.run.cause? (.reply place reply fresh now) = some ⟨c, reply⟩ := by
          rw [Run.cause?, hc, Option.map_some]
        rw [hcause] at hmove
        refine h.move hm hmove (accompanies_serve s.kernel refusal others drawn c) hnew ?_
        intro x hx
        cases hx
        exact hcurrent c (List.mem_of_getElem? hc)
  | abandon place =>
      obtain ⟨es, hmove, -⟩ := s.run.step_move (.abandon place) hm
      exact h.move hm hmove (accompanies_none s.kernel) hnew (by simp [Run.cause?])
  | switch isOffline => exact h.draw _ rfl

theorem after_tied {actions : List Action} (h : DistinctIds actions) :
    Tied (actions.filterMap Action.handle?) (after actions).run.manager (after actions).kernel := by
  induction actions using List.reverseRecOn with
  | nil => exact .empty
  | append_singleton actions a ih =>
      have hlast : [a].filterMap Action.handle? = a.handle?.toList := by cases a <;> rfl
      rw [after_concat, List.filterMap_append, hlast]
      exact step_tied (ih h.of_append) (after_keyed actions)
        (fun handle hdrawn => not_drawn_before h.handles hdrawn)
        fun c hc => after_isCurrent h.of_append hc

end Hosted

end AgentGovernance.Lifecycle
