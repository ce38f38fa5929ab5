import AgentGovernance.Kernel
import AgentGovernance.Proofs.Basic
import AgentGovernance.Proofs.Table

/-!
# What the kernel does

One equation for each call of the kernel says what a success leaves behind and needs. From them
follows what serving any request does to the running handles and to the number of executions.
-/
namespace AgentGovernance.Kernel

variable {k k' : Kernel} {handle : KernelHandle} {fresh : Uuid}

theorem lookup_eq_ok {i : Instance} (h : k.lookup handle = .ok i) :
    k.instances.find? handle = some i := by
  unfold lookup at h
  split at h
  next hj =>
    cases h
    exact hj
  next => cases h

theorem spawn_eq_ok {constraints : AgentConstraints}
    (h : k.spawn constraints fresh = .ok (k', handle)) :
    handle = handleOf fresh ∧ k' = k.withInstance handle { constraints } := by
  obtain ⟨_, -, h⟩ := exists_of_bind_eq_ok h
  cases h
  exact ⟨rfl, rfl⟩

theorem execute_eq_ok {intent : String} {params result : Json}
    (h : k.execute handle intent params = .ok (k', result)) :
    ∃ i, k.instances.find? handle = some i ∧
      k' = { k.withInstance handle { i with executions := i.executions + 1 } with
        totalExecutions := k.totalExecutions + 1 } := by
  obtain ⟨i, hi, h⟩ := exists_of_bind_eq_ok h
  cases h
  exact ⟨i, lookup_eq_ok hi, rfl⟩

theorem snapshot_eq_ok {name : KernelSnapshot} (h : k.snapshot handle fresh = .ok (k', name)) :
    ∃ i, k.instances.find? handle = some i ∧
      k' = { k with snapshots := k.snapshots.insert name i } := by
  obtain ⟨_, -, h⟩ := exists_of_bind_eq_ok h
  obtain ⟨i, hi, h⟩ := exists_of_bind_eq_ok h
  cases h
  exact ⟨i, lookup_eq_ok hi, rfl⟩

theorem recover_eq_ok {snapshot : KernelSnapshot}
    (h : k.recover snapshot fresh = .ok (k', handle)) :
    handle = handleOf fresh ∧
      ∃ i, k.snapshots.find? snapshot = some i ∧ k' = k.withInstance handle i := by
  obtain ⟨_, -, h⟩ := exists_of_bind_eq_ok h
  split at h
  next => cases h
  next i hi =>
    cases h
    exact ⟨rfl, i, hi, rfl⟩

theorem terminate_eq_ok (h : k.terminate handle = .ok k') :
    k' = { k with instances := k.instances.erase handle } := by
  obtain ⟨_, -, h⟩ := exists_of_bind_eq_ok h
  obtain ⟨i, -, h⟩ := exists_of_bind_eq_ok h
  cases h
  rfl

theorem terminate_eq_handleNotFound {name : String}
    (h : k.terminate handle = .error (.handleNotFound name)) : k.isRunning handle = false := by
  unfold terminate reach lookup at h
  split at h
  · cases h
  · split at h
    · cases h
    next hnone => rw [isRunning, Table.contains, hnone, Option.isSome_none]

theorem isRunning_of_find? {i : Instance} (h : k.instances.find? handle = some i) :
    k.isRunning handle = true := by
  rw [isRunning, Table.contains, h, Option.isSome_some]

theorem isRunning_withInstance (k : Kernel) (handle other : KernelHandle) (i : Instance) :
    (k.withInstance handle i).isRunning other = true ↔
      other = handle ∨ k.isRunning other = true := by
  simp only [isRunning, withInstance, Table.contains, Table.find?_insert]
  split
  next h => simp [h]
  next h => simp [h]

/-! ## Serving -/

/-- Takes over the kernel that a call has left, unless it failed. -/
def concluded {α : Type} (k : Kernel) : Except KernelError (Kernel × α) →
    Kernel × Except KernelError α
  | .ok (k', a) => (k', .ok a)
  | .error e => (k, .error e)

/-- Serves a request. The kernel looks when an execution begins whether it can be reached;
`refusal` is what came of it if it could not. What is not for the kernel is left to `others`. -/
def serve (k : Kernel) (refusal : Option KernelError) (others : (r : Request) → r.Reply)
    (fresh : Uuid) : (r : Request) → Kernel × r.Reply
  | .spawn constraints => k.concluded (k.spawn constraints fresh)
  | .execute handle intent params =>
      k.concluded (refusal.elim (k.execute handle intent params) .error)
  | .snapshot handle => k.concluded (k.snapshot handle fresh)
  | .recover snapshot => k.concluded (k.recover snapshot fresh)
  | .terminate handle => k.concluded ((k.terminate handle).map (·, ()))
  | .attach handle plugin => (k, others (.attach handle plugin))
  | .judge agreement action => (k, others (.judge agreement action))

theorem concluded_cases {α : Type} (k : Kernel) (x : Except KernelError (Kernel × α)) :
    (∃ k' a, x = .ok (k', a) ∧ k.concluded x = (k', .ok a)) ∨
      ∃ e, x = .error e ∧ k.concluded x = (k, .error e) := by
  cases x with
  | ok p => exact .inl ⟨p.1, p.2, rfl, rfl⟩
  | error e => exact .inr ⟨e, rfl, rfl⟩

theorem concluded_eq_ok {α : Type} {x : Except KernelError (Kernel × α)} {a : α}
    (h : (k.concluded x).2 = .ok a) : ∃ k', x = .ok (k', a) := by
  rcases k.concluded_cases x with ⟨k', b, hx, hk⟩ | ⟨e, -, hk⟩
  · rw [hk] at h
    cases h
    exact ⟨k', hx⟩
  · rw [hk] at h
    cases h

/-- What serving a request makes of the kernel. -/
inductive Effect (k : Kernel) (fresh : Uuid) : Request → Kernel → Prop
  | none {r : Request} : Effect k fresh r k
  | spawn {constraints : AgentConstraints} :
      Effect k fresh (.spawn constraints) (k.withInstance (handleOf fresh) { constraints })
  | execute {handle : KernelHandle} {intent : String} {params : Json} {i : Instance} :
      k.instances.find? handle = some i →
      Effect k fresh (.execute handle intent params)
        { k.withInstance handle { i with executions := i.executions + 1 } with
          totalExecutions := k.totalExecutions + 1 }
  | snapshot {handle : KernelHandle} {name : KernelSnapshot} {i : Instance} :
      k.instances.find? handle = some i →
      Effect k fresh (.snapshot handle) { k with snapshots := k.snapshots.insert name i }
  | recover {snapshot : KernelSnapshot} {i : Instance} :
      k.snapshots.find? snapshot = some i →
      Effect k fresh (.recover snapshot) (k.withInstance (handleOf fresh) i)
  | terminate {handle : KernelHandle} :
      Effect k fresh (.terminate handle) { k with instances := k.instances.erase handle }

theorem Effect.concluded {α : Type} {r : Request} {x : Except KernelError (Kernel × α)}
    (h : ∀ k' a, x = .ok (k', a) → Effect k fresh r k') : Effect k fresh r (k.concluded x).1 := by
  rcases k.concluded_cases x with ⟨k', a, hx, hk⟩ | ⟨e, -, hk⟩
  · rw [hk]
    exact h k' a hx
  · rw [hk]
    exact .none

variable (refusal : Option KernelError) (others : (r : Request) → r.Reply)

theorem serve_effect (k : Kernel) (fresh : Uuid) (r : Request) :
    Effect k fresh r (k.serve refusal others fresh r).1 := by
  cases r with
  | spawn constraints =>
      refine .concluded fun k' handle hx => ?_
      obtain ⟨rfl, rfl⟩ := spawn_eq_ok hx
      exact .spawn
  | execute handle intent params =>
      refine .concluded fun k' result hx => ?_
      cases refusal with
      | some e => cases hx
      | none =>
          obtain ⟨i, hi, rfl⟩ := execute_eq_ok hx
          exact .execute hi
  | snapshot handle =>
      refine .concluded fun k' name hx => ?_
      obtain ⟨i, hi, rfl⟩ := snapshot_eq_ok hx
      exact .snapshot hi
  | recover snapshot =>
      refine .concluded fun k' handle hx => ?_
      obtain ⟨rfl, i, hi, rfl⟩ := recover_eq_ok hx
      exact .recover hi
  | terminate handle =>
      refine .concluded fun k' done hx => ?_
      cases hterminate : k.terminate handle with
      | error e =>
          rw [hterminate] at hx
          cases hx
      | ok k'' =>
          rw [hterminate] at hx
          cases hx
          rw [terminate_eq_ok hterminate]
          exact .terminate
  | attach handle plugin => exact .none
  | judge agreement action => exact .none

/-- No handle starts to run but the one that is drawn. -/
theorem Effect.isRunning {r : Request} (h : Effect k fresh r k')
    (hrunning : k'.isRunning handle = true) :
    k.isRunning handle = true ∨ handle = handleOf fresh := by
  cases h with
  | none | snapshot => exact .inl hrunning
  | spawn | recover => exact ((isRunning_withInstance k _ _ _).mp hrunning).symm
  | execute hi =>
      rcases (isRunning_withInstance k _ _ _).mp hrunning with rfl | h
      · exact .inl (isRunning_of_find? hi)
      · exact .inl h
  | terminate =>
      simp only [Kernel.isRunning, Table.contains, Table.find?_erase] at hrunning
      split at hrunning
      · cases hrunning
      · exact .inl hrunning

/-- Nothing but an execution counts as one. -/
theorem Effect.totalExecutions_eq {r : Request} (h : Effect k fresh r k')
    (hr : ∀ handle intent params, r ≠ .execute handle intent params) :
    k'.totalExecutions = k.totalExecutions := by
  cases h with
  | none | spawn | snapshot | recover | terminate => rfl
  | execute => exact absurd rfl (hr _ _ _)

/-! ## Replies -/

variable {refusal others}

theorem serve_spawn_eq_ok {constraints : AgentConstraints}
    (h : (k.serve refusal others fresh (.spawn constraints)).2 = .ok handle) :
    handle = handleOf fresh := by
  obtain ⟨k', hx⟩ := concluded_eq_ok h
  exact (spawn_eq_ok hx).1

theorem serve_recover_eq_ok {snapshot : KernelSnapshot}
    (h : (k.serve refusal others fresh (.recover snapshot)).2 = .ok handle) :
    handle = handleOf fresh := by
  obtain ⟨k', hx⟩ := concluded_eq_ok h
  exact (recover_eq_ok hx).1

/-- An execution succeeds under a handle that runs and is counted, or fails and is not. -/
theorem serve_execute_cases (k : Kernel) (refusal : Option KernelError)
    (others : (r : Request) → r.Reply) (fresh : Uuid) (handle : KernelHandle) (intent : String)
    (params : Json) :
    let served := k.serve refusal others fresh (.execute handle intent params)
    (∃ result, served.2 = .ok result ∧ k.isRunning handle = true ∧
      served.1.totalExecutions = k.totalExecutions + 1) ∨
    ∃ e, served.2 = .error e ∧ served.1 = k := by
  intro served
  cases refusal with
  | some e => exact .inr ⟨e, rfl, rfl⟩
  | none =>
      have hserved : served = k.concluded (k.execute handle intent params) := rfl
      rcases k.concluded_cases (k.execute handle intent params) with ⟨k', a, hx, hk⟩ | ⟨e, -, hk⟩
      · obtain ⟨i, hi, rfl⟩ := execute_eq_ok hx
        rw [hserved, hk]
        exact .inl ⟨a, rfl, isRunning_of_find? hi, rfl⟩
      · rw [hserved, hk]
        exact .inr ⟨e, rfl, rfl⟩

/-- A handle does not run any more once its termination has succeeded or found nothing. -/
theorem isRunning_serve_terminate
    (h : (k.serve refusal others fresh (.terminate handle)).2 = .ok () ∨
      ∃ name, (k.serve refusal others fresh (.terminate handle)).2 =
        .error (.handleNotFound name)) :
    (k.serve refusal others fresh (.terminate handle)).1.isRunning handle = false := by
  rw [serve] at h ⊢
  cases hx : k.terminate handle with
  | ok k' =>
      rw [terminate_eq_ok hx]
      simp [Except.map, concluded, isRunning, Table.contains, Table.find?_erase]
  | error e =>
      rw [hx] at h
      rcases h with h | ⟨name, h⟩
      · cases h
      · cases h
        exact terminate_eq_handleNotFound hx

end AgentGovernance.Kernel
