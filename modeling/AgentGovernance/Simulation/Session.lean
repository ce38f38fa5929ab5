import AgentGovernance.Core
import AgentGovernance.Simulation.Bench
import AgentGovernance.Trace.Backend

/-!
# Simulated sessions

A session runs a core against a bench in virtual time. An operation that has to wait becomes a task;
time passes only while nothing else can happen, and then jumps to the next tick at which something
is due. Of the tasks due at one tick the oldest goes on first. Work that is due at the tick of its
deadline is done in time; work that is not done by then is given up. Sweeps for overdue proposals
are due last.

The clock that stamps entries is a different one: it stands still until it is set.
-/
namespace AgentGovernance

namespace Simulation

/-- What a task does: an operation of the core, or a request past the core. -/
inductive Work where
  | lifecycle (call : Lifecycle.Call)
  | commit (call : Consensus.PendingCommit)
  | direct (request : Request)

abbrev Work.request : Work → Request
  | .lifecycle c => c.request
  | .commit c => c.request
  | .direct r => r

def Work.isDirect : Work → Bool
  | .direct _ => true
  | _ => false

/-- The tick by which work has to be done, with the name of the operation. -/
def Work.deadline? : Work → Option (Nat × String)
  | .lifecycle c => c.deadline?.map (·, "execute")
  | .commit c => c.deadline.map (·, "commit")
  | .direct _ => none

/-- How far a request has got. -/
inductive Stage (r : Request) where
  | approaching
  | inside
  | leaving (reply : r.Reply)

structure Errand where
  work : Work
  stage : Stage work.request

inductive Refusal where
  | core (f : Failure)
  | kernel (e : KernelError)
  | sandbox (e : SandboxError)
  | policy (e : PolicyError)

namespace Refusal

def kind : Refusal → String
  | .core f => f.kind
  | .kernel _ => "KernelError"
  | .sandbox _ => "SandboxError"
  | .policy _ => "PolicyError"

def message : Refusal → String
  | .core f => f.message
  | .kernel e => e.message
  | .sandbox e => e.message
  | .policy e => e.message

end Refusal

abbrev Ending : Type := Except Refusal Json

/-- How a request past the core ends. -/
def Ending.ofReply : (r : Request) → r.Reply → Ending
  | .spawn _, reply => (reply.map encode).mapError .kernel
  | .execute _ _ _, reply => reply.mapError .kernel
  | .snapshot _, reply => (reply.map encode).mapError .kernel
  | .recover _, reply => (reply.map encode).mapError .kernel
  | .terminate _, reply => (reply.map encode).mapError .kernel
  | .attach _ _, reply => (reply.map encode).mapError .sandbox
  | .judge _ _, reply => (reply.map encode).mapError .policy

inductive Task where
  /-- An errand that goes on at a tick. -/
  | errand (e : Errand) (due : Nat)
  | pause (due : Nat)
  /-- Waits until the chain has a number of entries. -/
  | entries (count : Nat) (deadline : Option Nat)
  | ended (ending : Ending)

/-- The next tick at which a task changes by itself. -/
def Task.due? : Task → Option Nat
  | .errand e due => some ((e.work.deadline?.map (·.1)).elim due (min due))
  | .pause due => some due
  | .entries _ deadline => deadline
  | .ended _ => none

/-- Sweeps at once when it starts, and then at multiples of its period, rounded up to ticks. -/
structure Reaper where
  startedAt : Nat
  period : Span
  sweptAt : Option Nat := none

def Reaper.due (r : Reaper) : Nat :=
  match r.sweptAt with
  | none => r.startedAt
  | some t =>
      let passed := (t - r.startedAt) * 1000000 / r.period.nanos
      r.startedAt + ((passed + 1) * r.period.nanos + 999999) / 1000000

abbrev TestCore : Type := Core (Trace.Tampered Trace.Backend)

structure Session where
  bench : Bench
  /-- The collaborators of a core that does not work with those of the bench. -/
  own : Option Bench := none
  core : TestCore
  /-- A subscription that sees every event. -/
  observer : Nat
  observed : List Event := []
  clock : Instant
  tick : Nat := 0
  /-- The number of the next id to be drawn. -/
  nextId : Nat := 1
  tasks : Table Nat Task := ∅
  nextTask : Nat := 0
  reapers : List Reaper := []
  isShutDown : Bool := false

namespace Session

def fresh (s : Session) : Uuid := .counted s.nextId

def drewIf (s : Session) (drawn : Bool) : Session :=
  if drawn then { s with nextId := s.nextId + 1 } else s

/-- The collaborators that serve a piece of work. -/
def serving (s : Session) (w : Work) : Bench := if w.isDirect then s.bench else s.own.getD s.bench

def withServing (s : Session) (w : Work) (b : Bench) : Session :=
  if w.isDirect || s.own.isNone then { s with bench := b } else { s with own := some b }

/-- Takes over the state after an operation of the core. -/
def apply {α : Type} (s : Session) (o : Outcome TestCore α) : Session := { s with core := o.state }

/-! ## Errands -/

/-- How an errand goes on. -/
inductive Next where
  | wait (e : Errand) (due : Nat)
  | request (w : Work)
  | ended (ending : Ending)

def afterLifecycle (s : Session) (o : Outcome Lifecycle Lifecycle.Progress) : Session × Next :=
  let o := s.core.onLifecycle o
  match o.result with
  | .error f => (s.apply o, .ended (.error (.core f)))
  | .ok (.waiting call) => (s.apply o, .request (.lifecycle call))
  | .ok (.finished result) => ((s.apply o).drewIf result.isNamed, .ended (.ok result.toJson))

def afterCommit (s : Session) (o : Outcome Consensus Consensus.CommitProgress) : Session × Next :=
  let o := s.core.onConsensus o
  match o.result with
  | .error f => (s.apply o, .ended (.error (.core f)))
  | .ok (.waiting call) => (s.apply o, .request (.commit call))
  | .ok (.finished c) => ((s.apply o).drewIf (c.id = ⟨s.fresh⟩), .ended (.ok (encode c)))

/-- Gives a reply to the work that waits for it. -/
def conclude (s : Session) : (w : Work) → w.request.Reply → Session × Next
  | .lifecycle call, reply => s.afterLifecycle (s.core.lifecycle.resume s.fresh s.clock call reply)
  | .commit call, reply =>
      s.afterCommit ((s.core.consensus.finishCommit s.core.proofs s.fresh s.clock
        call reply).mapResult .finished)
  | .direct r, reply => (s, .ended (Ending.ofReply r reply))

def leave (s : Session) (w : Work) (reply : w.request.Reply) : Session × Next :=
  let wait := (s.serving w).waitAfter w.request
  if w.isDirect || wait = 0 then s.conclude w reply
  else (s, .wait ⟨w, .leaving reply⟩ (s.tick + wait))

def act (s : Session) (w : Work) : Session × Next :=
  let (b, reply) := (s.serving w).serve s.fresh s.clock w.request
  ((s.withServing w b).drewIf (w.request.isNaming && w.request.isServed reply)).leave w reply

def enter (s : Session) (w : Work) : Session × Next :=
  match (s.serving w).receive w.request with
  | .inl reply => s.leave w reply
  | .inr wait => if wait = 0 then s.act w else (s, .wait ⟨w, .inside⟩ (s.tick + wait))

/-- A request that was made to fail returns at once. -/
def arrive (s : Session) (w : Work) : Session × Next :=
  match (s.serving w).fault? w.request with
  | some (b, reply) => (s.withServing w b).conclude w reply
  | none => s.enter w

def approach (s : Session) (w : Work) : Session × Next :=
  let wait := (s.serving w).waitBefore w.request
  if w.isDirect then s.enter w
  else if wait = 0 then s.arrive w
  else (s, .wait ⟨w, .approaching⟩ (s.tick + wait))

/-- Follows up to `fuel` requests until an errand has to wait or has ended. An execution makes two
requests and everything else makes one. -/
def follow : Nat → Session × Next → Session × Task
  | 0, (s, .request w) => (s, .errand ⟨w, .approaching⟩ s.tick)
  | fuel + 1, (s, .request w) => follow fuel (s.approach w)
  | _, (s, .wait e due) =>
      match e.work.deadline? with
      | some (deadline, operation) =>
          if deadline ≤ s.tick then
            (s, .ended (.error (.core (.timeout (.missed operation .whileRunning)))))
          else (s, .errand e due)
      | none => (s, .errand e due)
  | _, (s, .ended ending) => (s, .ended ending)

def carryOn (s : Session) : Errand → Session × Next
  | ⟨w, .approaching⟩ => s.arrive w
  | ⟨w, .inside⟩ => s.act w
  | ⟨w, .leaving reply⟩ => s.conclude w reply

/-! ## Tasks -/

/-- What a task comes to at the current tick. -/
def poll (s : Session) : Task → Session × Task
  | .errand e due => follow 2 (if due ≤ s.tick then s.carryOn e else (s, .wait e due))
  | .pause due => (s, if due ≤ s.tick then .ended (.ok .null) else .pause due)
  | .entries count deadline =>
      if count ≤ s.core.audit.progress then (s, .ended (.ok .null))
      else if deadline.any (· ≤ s.tick) then
        (s, .ended (.error (.core (.timeout (.missed "wait_for_trace" .whileRunning)))))
      else (s, .entries count deadline)
  | .ended ending => (s, .ended ending)

def pollTask (s : Session) (id : Nat) : Session :=
  match s.tasks.find? id with
  | none => s
  | some t =>
      let (s, t) := s.poll t
      { s with tasks := s.tasks.insert id t }

/-- Lets every task go on that can, the oldest first. -/
def turn (s : Session) : Session := s.tasks.keys.foldl pollTask s

/-- Lets every subscription work off its queue. -/
def drain (s : Session) : Session :=
  let (core, deliveries) := s.core.settle s.clock
  let seen := (deliveries.filter (·.subscription = s.observer)).map (·.event)
  { s with core, observed := s.observed ++ seen }

def sweep (s : Session) : Session :=
  s.apply (s.core.onConsensus (s.core.consensus.expireOverdue s.clock))

/-- Delivers all events and runs the sweeps that are due. -/
def settle (s : Session) : Session :=
  let s := s.drain
  if s.reapers.any (·.due ≤ s.tick) then
    let swept (r : Reaper) : Reaper :=
      if r.due ≤ s.tick then { r with sweptAt := some s.tick } else r
    { s with reapers := s.reapers.map swept }.sweep.drain
  else s

/-- The next tick at which something is due. -/
def nextTick? (s : Session) : Option Nat :=
  (s.tasks.values.filterMap Task.due? ++ s.reapers.map Reaper.due).min?

def jump (s : Session) (t : Nat) : Session := { s with tick := t }.turn

/-- Lets time pass up to a tick, in at most `fuel` jumps. -/
def passTo (target : Nat) : Nat → Session → Session
  | 0, s => s
  | fuel + 1, s =>
      if target ≤ s.tick then s
      else
        let s := s.settle.turn
        passTo target fuel (s.jump (s.nextTick?.elim target (min target)))

/-- Lets time pass by some ticks. What is due at the end has happened, sweeps excepted. -/
def pass (s : Session) (ticks : Nat) : Session := passTo (s.tick + ticks) (ticks + 1) s

/-- Adds a task and returns its number. -/
def addTask (s : Session) (t : Task) : Session × Nat :=
  ({ s with tasks := s.tasks.insert s.nextTask t, nextTask := s.nextTask + 1 }, s.nextTask)

def ending? (s : Session) (id : Nat) : Option Ending :=
  match s.tasks.find? id with
  | some (.ended ending) => some ending
  | _ => none

/-- Lets time pass until a task has ended, in at most `fuel` jumps; there is no ending if nothing is
due any more. -/
def await? (id : Nat) : Nat → Session → Session × Option Ending
  | 0, s => (s, none)
  | fuel + 1, s =>
      match s.ending? id with
      | some ending => ({ s with tasks := s.tasks.erase id }, some ending)
      | none =>
          let s := s.settle.turn
          match s.ending? id, s.nextTick? with
          | some ending, _ => ({ s with tasks := s.tasks.erase id }, some ending)
          | none, none => (s, none)
          | none, some t => await? id fuel (s.jump t)

/-! ## Starting tasks -/

def startTask (s : Session × Next) : Session × Nat :=
  let (s, t) := follow 2 s
  s.addTask t

def startOperation (s : Session) (o : Lifecycle.Operation) : Session × Nat :=
  startTask (s.afterLifecycle (s.core.lifecycle.start s.tick s.clock o))

def startCommit (s : Session) (p : ProposalId) (agreement : Option AgreementRef)
    (deadline : Option Nat) :
    Session × Nat :=
  startTask (s.afterCommit
    (s.core.consensus.startCommit s.core.proofs p agreement deadline s.tick s.fresh
      s.clock s.clock))

def startRequest (s : Session) (r : Request) : Session × Nat := startTask (s, .request (.direct r))

def startPause (s : Session) (ticks : Nat) : Session × Nat :=
  s.addTask (s.poll (.pause (s.tick + ticks))).2

def startWaiting (s : Session) (count : Nat) (deadline : Option Nat) : Session × Nat :=
  if deadline.any (· ≤ s.tick) then
    s.addTask (.ended (.error (.core (.timeout (.missed "wait_for_trace" .beforeStart)))))
  else s.addTask (.entries count deadline)

/-- A tick some time from now. -/
def deadlineIn (s : Session) (ticks : Option Nat) : Option Nat := ticks.map (s.tick + ·)

/-! ## Naming -/

/-- A node without an id draws one once its size has been checked. -/
def drewFor (s t : Session) (n : Memory.NewNode) : Session :=
  t.drewIf (n.id.isNone && !s.core.memory.isOversized n)

def insertPast (s : Session) (agent : AgentId) (n : Memory.NewNode) :
    Session × Except Failure NodeId :=
  let o := s.core.onMemory (s.core.memory.insert agent n ⟨s.fresh.text⟩ s.clock)
  (s.drewFor (s.apply o) n, o.result)

def insert (s : Session) (agent : AgentId) (n : Memory.NewNode) : Session × Except Failure NodeId :=
  let o := s.core.insertMemory agent n ⟨s.fresh.text⟩ s.clock
  (if (s.core.lifecycle.unarchived agent).isOk then s.drewFor (s.apply o) n else s.apply o,
    o.result)

/-- Proposes something, with or without a check that the agent exists. -/
def propose (s : Session) (isChecked : Bool) (m : Consensus.Motion) :
    Session × Except Failure ProposalId :=
  let o :=
    if isChecked then s.core.propose m s.fresh s.clock
    else s.core.proposeUnchecked m s.fresh s.clock
  ((s.apply o).drewIf o.result.isOk, o.result)

/-! ## The reaper and the life of the core -/

/-- Starts to sweep, if the manifest says so and the core has not been shut down. -/
def startReaper (s : Session) : Session :=
  let settings := s.core.manifest.spec.consensus
  if settings.reaperEnabled && !s.isShutDown then
    { s with reapers := s.reapers ++ [⟨s.tick, settings.reaperInterval, none⟩] }
  else s

def shutDown (s : Session) : Session := { s with reapers := [], isShutDown := true }

/-- Goes on with a new core, which the observer subscribes to. -/
def withCore (s : Session) (core : TestCore) : Session :=
  let (bus, observer) := core.bus.subscribe .all
  { s with core := { core with bus }, observer, reapers := [], isShutDown := false }

end Session

/-! ## Setting up -/

/-- What a session is made of. -/
structure Setup where
  clock : Instant
  manifest : Config.Manifest := {}
  proofs : ProofSystem
  bench : Bench := {}
  /-- Whether the core has collaborators of its own. -/
  isIsolated : Bool := false
  /-- Whether the store is the one the manifest names. -/
  isConfigured : Bool := false
  /-- Whether the path of a configured store is taken by something else. -/
  isBlocked : Bool := false
  hasRuntime : Bool := true

namespace Setup

/-- The store to build a core over, given what an earlier core has left. -/
def store (u : Setup) (left : Trace.Tampered Trace.Backend) :
    Except BuildError (Trace.Tampered Trace.Backend) :=
  if u.isConfigured then
    match u.manifest.spec.audit.store, left.inner with
    | .memory, _ => .ok { inner := .log {} }
    | .sled path, inner =>
        if u.isBlocked then .error (.unopenable path)
        else match inner with
          | .log _ => .ok { inner := .ledger {} }
          | .ledger l => .ok { inner := .ledger l }
  else if u.isIsolated then .ok { inner := .log {} }
  else .ok left

def core (u : Setup) (left : Trace.Tampered Trace.Backend) : Except BuildError TestCore :=
  Core.build u.manifest u.proofs (u.store left) u.hasRuntime

def ownBench (u : Setup) : Option Bench := if u.isIsolated then some {} else none

def session (u : Setup) : Except BuildError Session := do
  let core ← u.core { inner := .log {} }
  let s : Session :=
    { bench := u.bench, own := u.ownBench, core, observer := 0, clock := u.clock }
  return s.withCore core

/-- Builds the core of a session again. The bench, the clock and what is stored stay. -/
def rebuild (u : Setup) (s : Session) : Except BuildError Session := do
  return { s with own := u.ownBench }.withCore (← u.core s.core.audit.store)

end Setup

end Simulation

end AgentGovernance
