import AgentGovernance.EventBus
import AgentGovernance.Proofs.Table
import Mathlib.Data.List.Induction

/-!
# Deliveries to subscriptions

A run of the bus is a list of actions: subscriptions come and go, events are published, and the
workers take one event after the other from their queues, all in any order. A handler may panic on
any events and may change its mind about them.

What a subscription is due follows from the actions alone: the events that its filter accepts, from
its beginning up to its cancellation. At every moment these are the events that its handler has
received followed by those that wait in its queue. Whether handlers panic is of no account.
-/
namespace AgentGovernance.EventBus

/-- Lets the handler of a subscription panic on these events from now on. -/
def upset (b : EventBus) (id : Nat) (panics : Event → Bool) : EventBus :=
  match b.workers.find? id with
  | none => b
  | some w => { b with workers := b.workers.insert id { w with panics } }

inductive Action where
  | subscribe (filter : EventFilter) (panics : Event → Bool)
  | unsubscribe (id : Nat)
  | publish (e : Event)
  | work (id : Nat)
  | upset (id : Nat) (panics : Event → Bool)

namespace Action

/-- What an action publishes for a filter. -/
def brings (filter : EventFilter) : Action → List Event
  | .publish e => if filter.accepts e.type then [e] else []
  | _ => []

/-- What an action takes from the queue of a subscription and hands to its handler. -/
def hands (id : Nat) (queue : List Event) : Action → List Event
  | .work jd => if jd = id then queue.head?.toList else []
  | _ => []

/-- Whether an action cancels a subscription. -/
def cancels (id : Nat) : Action → Bool
  | .unsubscribe jd => jd = id
  | _ => false

/-- The action with handlers that never panic. -/
def calm : Action → Action
  | .subscribe filter _ => .subscribe filter fun _ => false
  | .upset id _ => .upset id fun _ => false
  | a => a

end Action

/-- The events that a subscription is to receive for the actions that follow it: those that its
filter accepts, up to its cancellation. -/
def due (id : Nat) (filter : EventFilter) (actions : List Action) : List Event :=
  (actions.takeWhile fun a => !a.cancels id).flatMap (·.brings filter)

structure Run where
  bus : EventBus := {}
  deliveries : List Delivery := []

namespace Run

/-- The events that have been passed to the handler of a subscription. -/
def received (r : Run) (id : Nat) : List Event :=
  (r.deliveries.filter (·.subscription = id)).map (·.event)

/-- The events that wait for the worker of a subscription. -/
def queue (r : Run) (id : Nat) : List Event := (r.bus.workers.find? id).elim [] (·.queue)

def step (r : Run) : Action → Run
  | .subscribe filter panics => { r with bus := (r.bus.subscribe filter panics).1 }
  | .unsubscribe id => { r with bus := (r.bus.unsubscribe id).1 }
  | .publish e => { r with bus := r.bus.publish e }
  | .work id => ⟨(r.bus.work id).1, r.deliveries ++ (r.bus.work id).2.toList⟩
  | .upset id panics => { r with bus := r.bus.upset id panics }

/-- The state after some actions of a bus without subscriptions. -/
def after (actions : List Action) : Run := actions.foldl step {}

end Run

variable {id jd : Nat} {filter : EventFilter} {r : Run}

theorem due_cons (id : Nat) (filter : EventFilter) (a : Action) (actions : List Action) :
    due id filter (a :: actions) =
      if a.cancels id then [] else a.brings filter ++ due id filter actions := by
  rw [due, List.takeWhile_cons]
  cases a.cancels id <;> rfl

/-! ## One worker -/

/-- What an action makes of the worker of a subscription. -/
def Worker.after (w : Worker) (id : Nat) : Action → Worker
  | .subscribe _ _ => w
  | .unsubscribe jd => if jd = id then { w with isSubscribed := false } else w
  | .publish e => w.offer e
  | .work jd => if jd = id then { w with queue := w.queue.tail } else w
  | .upset jd panics => if jd = id then { w with panics } else w

namespace Worker

variable (w : Worker) (id : Nat) (a : Action)

theorem after_filter : (w.after id a).filter = w.filter := by
  cases a with
  | subscribe => rfl
  | publish e => rw [after, offer]; split <;> rfl
  | unsubscribe | work | upset => rw [after]; split <;> rfl

theorem after_isSubscribed : (w.after id a).isSubscribed = (w.isSubscribed && !a.cancels id) := by
  cases a with
  | subscribe => simp [after, Action.cancels]
  | unsubscribe jd => by_cases h : jd = id <;> simp [after, Action.cancels, h]
  | publish e => rw [after, offer]; split <;> simp [Action.cancels]
  | work | upset => rw [after]; split <;> simp [Action.cancels]

/-- What a subscriber is handed comes off the front of the queue, and what it is brought goes to the
end. -/
theorem hands_append_after_queue :
    a.hands id w.queue ++ (w.after id a).queue =
      w.queue ++ if w.isSubscribed then a.brings w.filter else [] := by
  cases a with
  | subscribe => simp [after, Action.hands, Action.brings]
  | publish e =>
      cases hs : w.isSubscribed <;> cases hf : w.filter.accepts e.type <;>
        simp [after, offer, Action.hands, Action.brings, hs, hf]
  | unsubscribe | upset => rw [after]; split <;> simp [Action.hands, Action.brings]
  | work jd =>
      by_cases h : jd = id
      · cases hq : w.queue <;> simp [after, Action.hands, Action.brings, h, hq]
      · simp [after, Action.hands, Action.brings, h]

end Worker

/-- Changing the worker of one subscription, if there is one. -/
theorem find?_revised (ws : Table Nat Worker) (id jd : Nat) (f : Worker → Worker) :
    ((ws.find? jd).elim ws fun w => ws.insert jd (f w)).find? id =
      (ws.find? id).map fun w => if jd = id then f w else w := by
  by_cases h : jd = id
  · subst h
    cases hw : ws.find? jd <;> simp [hw]
  · cases ws.find? jd <;> simp [h, Table.find?_insert_ne _ (Ne.symm h)]

/-- An action changes the worker of each subscription on its own, unless it begins that
subscription. -/
theorem find?_step (r : Run) (a : Action)
    (hid : id < r.bus.nextId ∨ (r.step a).bus.nextId ≤ id) :
    (r.step a).bus.workers.find? id = (r.bus.workers.find? id).map (·.after id a) := by
  cases a with
  | subscribe f panics =>
      have hne : id ≠ r.bus.nextId := by
        have hnext : (r.step (.subscribe f panics)).bus.nextId = r.bus.nextId + 1 := rfl
        omega
      simp only [Worker.after, Option.map_id']
      exact Table.find?_insert_ne _ hne _
  | unsubscribe jd =>
      simp only [Worker.after, Run.step, unsubscribe]
      rw [← find?_revised]
      cases r.bus.workers.find? jd <;> rfl
  | publish e => exact Table.find?_map _ _ _
  | work jd =>
      simp only [Worker.after, Run.step, work]
      rw [← find?_revised]
      cases hw : r.bus.workers.find? jd with
      | none => rfl
      | some w =>
          obtain ⟨filter, panics, queue, isSubscribed⟩ := w
          cases queue with
          | nil => exact congrArg (·.find? id) (Table.insert_of_find? hw).symm
          | cons e queue => rfl
  | upset jd panics =>
      simp only [Worker.after, Run.step, upset]
      rw [← find?_revised]
      cases r.bus.workers.find? jd <;> rfl

theorem received_step (r : Run) (a : Action) :
    (r.step a).received id = r.received id ++ a.hands id (r.queue id) := by
  cases a with
  | subscribe | unsubscribe | publish | upset => exact (List.append_nil _).symm
  | work jd =>
      rw [Run.received, Run.received, Run.queue, Run.step, work, Action.hands]
      by_cases h : jd = id
      · subst h
        cases hw : r.bus.workers.find? jd with
        | none => simp
        | some w => cases hq : w.queue <;> simp [hq]
      · cases r.bus.workers.find? jd with
        | none => simp [h]
        | some w => cases hq : w.queue <;> simp [hq, h]

theorem nextId_le_step (r : Run) (a : Action) : r.bus.nextId ≤ (r.step a).bus.nextId := by
  cases a with
  | subscribe => exact Nat.le_succ _
  | publish => exact Nat.le_refl _
  | unsubscribe jd =>
      rw [Run.step, unsubscribe]
      cases r.bus.workers.find? jd <;> exact Nat.le_refl _
  | upset jd panics =>
      rw [Run.step, upset]
      cases r.bus.workers.find? jd <;> exact Nat.le_refl _
  | work jd =>
      rw [Run.step, work]
      cases r.bus.workers.find? jd with
      | none => exact Nat.le_refl _
      | some w => cases hq : w.queue <;> simp [hq]

/-! ## One subscription -/

/-- A subscription with its worker: `done` are the events that have been received, followed by those
that wait. -/
structure Run.Serves (r : Run) (id : Nat) (filter : EventFilter) (isSubscribed : Bool)
    (done : List Event) : Prop where
  worker : ∃ w, r.bus.workers.find? id = some w ∧ w.filter = filter ∧
    w.isSubscribed = isSubscribed ∧ r.received id ++ w.queue = done
  numbered : id < r.bus.nextId

namespace Run.Serves

variable {isSubscribed : Bool} {done : List Event}

theorem step (h : r.Serves id filter isSubscribed done) (a : Action) :
    (r.step a).Serves id filter (isSubscribed && !a.cancels id)
      (done ++ if isSubscribed then a.brings filter else []) := by
  obtain ⟨⟨w, hw, rfl, rfl, rfl⟩, hid⟩ := h
  have hqueue : r.queue id = w.queue := by rw [queue, hw, Option.elim_some]
  refine ⟨⟨w.after id a, ?_, w.after_filter id a, w.after_isSubscribed id a, ?_⟩, ?_⟩
  · rw [find?_step r a (.inl hid), hw, Option.map_some]
  · rw [received_step, hqueue, List.append_assoc, w.hands_append_after_queue, List.append_assoc]
  · exact Nat.lt_of_lt_of_le hid (nextId_le_step r a)

/-- A cancelled subscription is brought nothing more. -/
theorem foldl_cancelled (h : r.Serves id filter false done) (later : List Action) :
    (later.foldl Run.step r).Serves id filter false done := by
  induction later generalizing r with
  | nil => exact h
  | cons a later ih =>
      have hstep := h.step a
      rw [Bool.false_and, if_neg Bool.false_ne_true, List.append_nil] at hstep
      exact ih hstep

theorem foldl (h : r.Serves id filter true done) (later : List Action) :
    ∃ isSubscribed, (later.foldl Run.step r).Serves id filter isSubscribed
      (done ++ due id filter later) := by
  induction later generalizing r done with
  | nil => exact ⟨true, by rwa [due, List.takeWhile_nil, List.flatMap_nil, List.append_nil]⟩
  | cons a later ih =>
      have hstep := h.step a
      rw [due_cons]
      cases hcancels : a.cancels id with
      | true =>
          have hnone : a.brings filter = [] := by
            cases a with
            | unsubscribe => rfl
            | subscribe | publish | work | upset => cases hcancels
          rw [hcancels, hnone] at hstep
          exact ⟨false, by simpa using hstep.foldl_cancelled later⟩
      | false =>
          rw [hcancels] at hstep
          simpa [List.append_assoc] using ih hstep

end Run.Serves

/-- A worker that takes as many steps as events wait has drained its queue. -/
theorem received_foldl_work (r : Run) (hid : id < r.bus.nextId) :
    ((List.replicate (r.queue id).length (.work id)).foldl Run.step r).received id =
      r.received id ++ r.queue id := by
  induction hqueue : r.queue id generalizing r with
  | nil => simp
  | cons e queue ih =>
      have htail : (r.step (.work id)).queue id = queue := by
        rw [Run.queue] at hqueue ⊢
        rw [find?_step r _ (.inl hid)]
        cases hw : r.bus.workers.find? id with
        | none => simp [hw] at hqueue
        | some w =>
            rw [hw, Option.elim_some] at hqueue
            simp [Worker.after, hqueue]
      have hnext := Nat.lt_of_lt_of_le hid (nextId_le_step r (.work id))
      have hrest := ih (r.step (.work id)) hnext htail
      rw [received_step, Action.hands, if_pos rfl, hqueue] at hrest
      simpa [List.replicate_succ] using hrest

/-- What has not been given out as an id has no worker and has received nothing. -/
theorem Run.after_unused (actions : List Action) (hid : (after actions).bus.nextId ≤ id) :
    (after actions).bus.workers.find? id = none ∧ (after actions).received id = [] := by
  induction actions using List.reverseRecOn with
  | nil => exact ⟨rfl, rfl⟩
  | append_singleton actions a ih =>
      rw [after, List.foldl_append, List.foldl_cons, List.foldl_nil] at hid ⊢
      obtain ⟨hworker, hreceived⟩ := ih (Nat.le_trans (nextId_le_step _ a) hid)
      have hqueue : (after actions).queue id = [] := by rw [queue, hworker, Option.elim_none]
      constructor
      · rw [find?_step _ a (.inr hid), ← after, hworker, Option.map_none]
      · rw [received_step, ← after, hreceived, hqueue]
        cases a <;> simp [Action.hands]

/-! ## Handlers that panic -/

def Worker.calm (w : Worker) : Worker := { w with panics := fun _ => false }

def Delivery.calm (d : Delivery) : Delivery := { d with panicked := false }

/-- The state as it would be if no handler ever panicked. -/
def Run.calm (r : Run) : Run :=
  { bus := { r.bus with workers := r.bus.workers.map fun _ w => w.calm }
    deliveries := r.deliveries.map Delivery.calm }

theorem Worker.calm_offer (w : Worker) (e : Event) : (w.offer e).calm = w.calm.offer e := by
  cases h : w.isSubscribed && w.filter.accepts e.type <;> simp [offer, calm, h]

theorem received_calm (r : Run) (id : Nat) : r.calm.received id = r.received id := by
  simp only [Run.received, Run.calm, List.filter_map, List.map_map]
  rfl

theorem calm_step (r : Run) (a : Action) : (r.step a).calm = r.calm.step a.calm := by
  cases a with
  | subscribe f panics =>
      simp only [Run.step, Run.calm, subscribe, Action.calm, Table.map_insert]
      rfl
  | publish e =>
      have hworkers : ((r.bus.workers.map fun _ w => w.offer e).map fun _ w => w.calm) =
          (r.bus.workers.map fun _ w => w.calm).map fun _ w => w.offer e := by
        apply Table.ext_find?
        intro id
        cases hw : r.bus.workers.find? id <;> simp [hw, Worker.calm_offer]
      simp only [Run.step, Run.calm, publish, Action.calm, hworkers]
  | unsubscribe id =>
      simp only [Run.step, Run.calm, unsubscribe, Action.calm, Table.find?_map]
      cases hw : r.bus.workers.find? id <;> simp [Table.map_insert, Worker.calm]
  | upset id panics =>
      simp only [Run.step, Run.calm, upset, Action.calm, Table.find?_map]
      cases hw : r.bus.workers.find? id <;> simp [Table.map_insert, Worker.calm]
  | work id =>
      simp only [Run.step, Run.calm, work, Action.calm, Table.find?_map]
      cases hw : r.bus.workers.find? id with
      | none => simp
      | some w =>
          obtain ⟨filter, panics, queue, isSubscribed⟩ := w
          cases queue <;> simp [Table.map_insert, Worker.calm, Delivery.calm]

/-- A run goes as it would if no handler ever panicked. -/
theorem Run.after_calm (actions : List Action) :
    after (actions.map Action.calm) = (after actions).calm := by
  induction actions using List.reverseRecOn with
  | nil => rfl
  | append_singleton actions a ih =>
      simp only [after, List.map_append, List.map_cons, List.map_nil, List.foldl_append,
        List.foldl_cons, List.foldl_nil, calm_step] at ih ⊢
      rw [ih]

/-! ## Runs -/

/-- What a subscription has received in a run: `later` are the actions since it began, after which
the run is in the state `r`. -/
structure Delivers (r : Run) (id : Nat) (filter : EventFilter) (later : List Action) : Prop where
  /-- What it has received so far is the beginning of what it is due. -/
  ordered : r.received id <+: due id filter later
  /-- When its queue is empty, it has received all of that. -/
  complete : r.queue id = [] → r.received id = due id filter later
  /-- Its worker empties the queue in as many steps as events wait, panics or not. -/
  drains : ((List.replicate (r.queue id).length (.work id)).foldl Run.step r).received id =
    due id filter later

/-- Whatever else goes on, a subscription receives what its filter accepts of the events published
from its beginning to its cancellation, in their order and each once, as far as its worker has come.
Its id is new, and no handler that panics makes a difference to what any handler receives. -/
theorem delivers (before later : List Action) (filter : EventFilter) (panics : Event → Bool) :
    let id := ((Run.after before).bus.subscribe filter panics).2
    let actions := before ++ .subscribe filter panics :: later
    (Run.after before).bus.workers.find? id = none ∧ (Run.after before).received id = [] ∧
      Delivers (Run.after actions) id filter later ∧
      ∀ others, others.map Action.calm = actions.map Action.calm →
        ∀ jd, (Run.after others).received jd = (Run.after actions).received jd := by
  intro id actions
  obtain ⟨hworker, hreceived⟩ := Run.after_unused before (Nat.le_refl _ : _ ≤ id)
  have hbegun : ((Run.after before).step (.subscribe filter panics)).Serves id filter true [] := by
    refine ⟨⟨_, Table.find?_insert_self _ _ _, rfl, rfl, ?_⟩, Nat.lt_succ_self _⟩
    rw [received_step, hreceived]
    rfl
  obtain ⟨isSubscribed, ⟨w, hw, -, -, hdone⟩, hid⟩ := hbegun.foldl later
  have hafter : Run.after actions =
      later.foldl Run.step ((Run.after before).step (.subscribe filter panics)) := by
    rw [Run.after, List.foldl_append, List.foldl_cons]
    rfl
  rw [← hafter] at hw hdone hid
  have hqueue : (Run.after actions).queue id = w.queue := by rw [Run.queue, hw, Option.elim_some]
  rw [List.nil_append, ← hqueue] at hdone
  refine ⟨hworker, hreceived, ⟨⟨_, hdone⟩, ?_, ?_⟩, ?_⟩
  · intro hempty
    rwa [hempty, List.append_nil] at hdone
  · rw [received_foldl_work _ hid, hdone]
  · intro others hothers jd
    rw [← received_calm, ← Run.after_calm, hothers, Run.after_calm, received_calm]

end AgentGovernance.EventBus
