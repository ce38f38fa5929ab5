import AgentGovernance.Event
import AgentGovernance.Failure

/-!
# The event bus

A subscription has a queue of its own that holds the published events its filter accepts. Its worker
takes them from the queue one by one and hands them to the handler; a handler that panics loses only
the event it was handed. A cancelled subscription receives nothing more, but its worker still works
off the queue.

Observers see every event of the bus, of which a bounded number is kept. One that falls behind
learns how many events it has missed and goes on with the oldest that is kept.
-/
namespace AgentGovernance

namespace EventBus

/-- Events kept for observers, the newest last, and the number of all events published so far. -/
structure Window where
  capacity : Nat
  recent : List Event := []
  published : Nat := 0
  /-- The number of events each observer has passed. -/
  positions : List Nat := []
  isClosed : Bool := false

namespace Window

/-- A window for at least one event, whose capacity is a power of two. -/
def ofCapacity (n : Nat) : Window := { capacity := if n ≤ 1 then 1 else 1 <<< ((n - 1).log2 + 1) }

def push (w : Window) (e : Event) : Window :=
  let recent := w.recent ++ [e]
  { w with recent := recent.drop (recent.length - w.capacity), published := w.published + 1 }

/-- Adds an observer of the events from now on. -/
def watch (w : Window) : Window × Nat :=
  ({ w with positions := w.positions ++ [w.published] }, w.positions.length)

/-- The next event for the observer at a position, and the position after it. -/
def receiveAt (w : Window) (position : Nat) : Nat × Except BusError Event :=
  let oldest := w.published - w.recent.length
  if position < oldest then (oldest, .error (.lagged (oldest - position)))
  else match w.recent[position - oldest]? with
    | some e => (position + 1, .ok e)
    | none => (position, .error (if w.isClosed then .closed else .nothingQueued))

/-- The next event for an observer; there may be no such observer. -/
def receive? (w : Window) (observer : Nat) : Option (Window × Except BusError Event) := do
  let (position, result) := w.receiveAt (← w.positions[observer]?)
  return ({ w with positions := w.positions.set observer position }, result)

end Window

structure Worker where
  filter : EventFilter
  /-- The events on which the handler panics. -/
  panics : Event → Bool := fun _ => false
  queue : List Event := []
  isSubscribed : Bool := true

/-- An event as it reached the handler of a subscription. -/
structure Delivery where
  subscription : Nat
  event : Event
  panicked : Bool
  deriving DecidableEq, Repr

end EventBus

open EventBus in
structure EventBus where
  workers : Table Nat Worker := ∅
  nextId : Nat := 1
  window : Window := .ofCapacity 1024

namespace EventBus

def subscribe (b : EventBus) (filter : EventFilter) (panics : Event → Bool := fun _ => false) :
    EventBus × Nat :=
  ({ b with workers := b.workers.insert b.nextId { filter, panics }, nextId := b.nextId + 1 },
    b.nextId)

def isSubscribed (b : EventBus) (id : Nat) : Bool := (b.workers.find? id).any (·.isSubscribed)

/-- Cancels a subscription and says whether there was one. -/
def unsubscribe (b : EventBus) (id : Nat) : EventBus × Bool :=
  match b.workers.find? id with
  | none => (b, false)
  | some w =>
      ({ b with workers := b.workers.insert id { w with isSubscribed := false } }, w.isSubscribed)

def subscriptions (b : EventBus) : Nat := b.workers.values.countP (·.isSubscribed)

def Worker.offer (w : Worker) (e : Event) : Worker :=
  if w.isSubscribed && w.filter.accepts e.type then { w with queue := w.queue ++ [e] } else w

def publish (b : EventBus) (e : Event) : EventBus :=
  { b with workers := b.workers.map fun _ w => w.offer e, window := b.window.push e }

/-- Lets a worker hand the first event of its queue to its handler. -/
def work (b : EventBus) (id : Nat) : EventBus × Option Delivery :=
  match b.workers.find? id with
  | none => (b, none)
  | some w =>
      match w.queue with
      | [] => (b, none)
      | e :: queue =>
          ({ b with workers := b.workers.insert id { w with queue } }, some ⟨id, e, w.panics e⟩)

/-- Lets every worker work off its queue, one worker after the other. -/
def drain (b : EventBus) : EventBus × List Delivery :=
  ({ b with workers := b.workers.map fun _ w => { w with queue := [] } },
    b.workers.entries.flatMap fun (id, w) => w.queue.map fun e => ⟨id, e, w.panics e⟩)

def watch (b : EventBus) : EventBus × Nat :=
  let (window, observer) := b.window.watch
  ({ b with window }, observer)

def receive? (b : EventBus) (observer : Nat) : Option (EventBus × Except BusError Event) := do
  let (window, result) ← b.window.receive? observer
  return ({ b with window }, result)

def close (b : EventBus) : EventBus := { b with window := { b.window with isClosed := true } }

end EventBus

end AgentGovernance
