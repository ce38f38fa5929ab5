import AgentGovernance.Proofs.Audit.Run
import AgentGovernance.Proofs.Basic
import AgentGovernance.Proofs.Core.Run
import AgentGovernance.Proofs.Trace.Stores
import AgentGovernance.Trace.Tampering
import Mathlib.Data.List.Induction

/-!
# The chain as a mirror of the bus

The audit engine hears of every event of the bus, in the order of publication, and its worker takes
one after the other from the queue. So the events published so far fall into those that the chain
records and those that wait, whatever comes in between. Appending is all that the store is needed
for: what it shows when it is read may be wrong, and what a verification then publishes is recorded
like everything else.
-/
namespace AgentGovernance

namespace Trace

/-- Tampering with what is read does not keep a store from appending. -/
theorem Appends.tampered {σ : Type} [Store σ] {Keeps : σ → List Entry → Prop}
    {Accepts : Entry → Prop} (h : Appends Keeps Accepts) :
    Appends (fun (s : Tampered σ) es => s.appendFault = none ∧ Keeps s.inner es) Accepts := by
  rintro ⟨inner, forged, hidden, fault, readFault⟩ es e ⟨rfl, hs⟩ hid he
  obtain ⟨t, happend, ht⟩ := h hs hid he
  refine ⟨{ inner := t, forged, hidden, readFault }, ?_, rfl, ht⟩
  change (({ inner := (Store.append inner e).1, forged, hidden, readFault } : Tampered σ),
    (Store.append inner e).2) = _
  rw [happend]

end Trace

namespace EventBus

/-- A worker that takes every event and still holds some. -/
def Holds (b : EventBus) (id : Nat) (queue : List Event) : Prop :=
  b.workers.find? id = some { filter := .all, queue }

variable {b : EventBus} {id : Nat} {queue : List Event}

theorem holds_subscribe (b : EventBus) : (b.subscribe .all).1.Holds (b.subscribe .all).2 [] :=
  Table.find?_insert_self _ _ _

theorem Holds.publish (h : b.Holds id queue) (e : Event) :
    (b.publish e).Holds id (queue ++ [e]) := by
  rw [Holds] at h ⊢
  rw [EventBus.publish, Table.find?_map, h]
  rfl

/-- A worker takes the first event of its queue, and nothing is published by that. -/
theorem Holds.work (h : b.Holds id queue) :
    (b.work id).1.Holds id queue.tail ∧ (b.work id).1.window = b.window ∧
      (b.work id).2 = queue.head?.map fun e => ⟨id, e, false⟩ := by
  have hfind : b.workers.find? id = some { filter := .all, queue } := h
  rw [EventBus.work, hfind]
  cases queue with
  | nil => exact ⟨h, rfl, rfl⟩
  | cons e queue => exact ⟨Table.find?_insert_self _ _ _, rfl, rfl⟩

end EventBus

namespace Audit.Engine

open Trace

variable {σ : Type} {Keeps : σ → List Entry → Prop} {Accepts : Entry → Prop} {times : List Instant}
  {a : Engine σ} {es : List Entry}

/-- An engine that stands at the end of the entries that its store keeps. They are no more than the
times that the clock has shown, and have their stamps from there. -/
structure Stands (Keeps : σ → List Entry → Prop) (times : List Instant) (a : Engine σ)
    (es : List Entry) : Prop where
  keeps : Keeps a.store es
  tracks : a.Tracks es
  length_le : es.length ≤ times.length
  stamps : ∀ e ∈ es, e.timestamp ∈ times

theorem Stands.wait (h : a.Stands Keeps times es) (now : Instant) :
    a.Stands Keeps (times ++ [now]) es := by
  have hle := h.length_le
  refine ⟨h.keeps, h.tracks, ?_, fun e he => List.mem_append_left _ (h.stamps e he)⟩
  rw [List.length_append]
  omega

theorem Stands.stamp_mem (h : a.Stands Keeps times es) (now : Instant) :
    a.nextStamp now ∈ times ++ [now] := by
  rw [List.mem_append, List.mem_singleton]
  refine (stamp_cases a.stampedAt now).imp_left fun hlast => ?_
  rw [h.tracks.stampedAt] at hlast
  obtain ⟨e, he, hstamp⟩ := Option.map_eq_some_iff.mp hlast
  rw [nextStamp, h.tracks.stampedAt, ← hstamp]
  exact h.stamps e (List.mem_of_getLast? he)

/-- Recording over a store that appends adds the next entry. -/
theorem Stands.record [Store σ] (h : a.Stands Keeps times es) (happends : Appends Keeps Accepts)
    (event : Event) (now : Instant)
    (haccepts : ∀ e : Entry, e.id = es.length + 1 → e.timestamp ∈ times ++ [now] → Accepts e) :
    (a.record event now).state.Stands Keeps (times ++ [now]) (es ++ [a.nextEntry event now]) := by
  have hid := h.tracks.nextEntry_id event now
  have hstamp : (a.nextEntry event now).timestamp ∈ times ++ [now] := h.stamp_mem now
  obtain ⟨t, happend, ht⟩ := happends h.keeps hid (haccepts _ hid hstamp)
  rw [record_of_append happend]
  refine ⟨ht, h.tracks.advanced t event now, ?_, ?_⟩
  · have hle := h.length_le
    rw [List.length_append, List.length_append]
    exact Nat.add_le_add_right hle 1
  · intro e he
    rcases List.mem_append.mp he with he | he
    · exact List.mem_append_left _ (h.stamps e he)
    · rw [List.mem_singleton.mp he]
      exact hstamp

end Audit.Engine

namespace Core

open Trace

/-- A core is built with an engine that has taken up the chain, and that hears of every event. -/
theorem build_eq_ok {σ : Type} [Store σ] {manifest : Config.Manifest} {proofs : ProofSystem}
    {store : σ} {c : Core σ} (h : build manifest proofs (.ok store) true = .ok c) :
    Audit.Engine.open? store manifest.spec.audit.checkpointInterval = .ok c.audit ∧
      c.bus.Holds c.auditor [] ∧ c.bus.window.published = 0 := by
  unfold build at h
  split at h
  · cases h
  · obtain ⟨_, ⟨⟩, h⟩ := exists_of_bind_eq_ok h
    cases hopen : Audit.Engine.open? store manifest.spec.audit.checkpointInterval with
    | error f =>
        rw [hopen] at h
        cases h
    | ok audit =>
        rw [hopen] at h
        cases h
        exact ⟨rfl, EventBus.holds_subscribe _, rfl⟩

/-- The events that wait for the audit engine. -/
def queued {σ : Type} (c : Core σ) : List Event :=
  (c.bus.workers.find? c.auditor).elim [] (·.queue)

theorem queued_of_holds {σ : Type} {c : Core σ} {queue : List Event}
    (h : c.bus.Holds c.auditor queue) : c.queued = queue := by
  have hfind : c.bus.workers.find? c.auditor = _ := h
  rw [queued, hfind]
  rfl

/-- The engine is handed the first event that waits, if there is one. -/
theorem recordNext_of_holds {σ : Type} [Store σ] {c : Core σ} {queue : List Event}
    (h : c.bus.Holds c.auditor queue) (now : Instant) :
    c.recordNext now =
      { c with
        bus := (c.bus.work c.auditor).1
        audit := queue.head?.elim c.audit fun e => (c.audit.record e now).state } := by
  have hrecord : c.recordNext now =
      (c.bus.work c.auditor).2.elim { c with bus := (c.bus.work c.auditor).1 }
        ({ c with bus := (c.bus.work c.auditor).1 }.recordDelivery now) := rfl
  rw [hrecord, h.work.2.2]
  cases queue with
  | nil => rfl
  | cons e queue =>
      rw [List.head?_cons, Option.map_some, Option.elim_some, recordDelivery, if_pos rfl]
      rfl

/-- Whether an entry is made of an event. -/
structure Records (entry : Entry) (event : Event) : Prop where
  type : entry.type = event.type
  source : entry.source = event.source
  target : entry.target = event.target
  payloadHash : entry.payloadHash = .ofJson event.payload

/-- The times that the clock shows at the steps of the auditor's worker. -/
def clocks (actions : List Action) : List Instant :=
  actions.filterMap fun
    | .record now => some now
    | _ => none

/-- The events so far are those that the entries record and those that wait for the engine. -/
structure Mirrors {σ : Type} (Keeps : σ → List Entry → Prop) (times : List Instant) (r : Run σ)
    (es : List Entry) (queue : List Event) : Prop where
  stands : r.core.audit.Stands Keeps times es
  holds : r.core.bus.Holds r.core.auditor queue
  recorded : ∃ done, r.published = done ++ queue ∧ List.Forall₂ Records es done
  counted : r.core.bus.window.published = r.published.length

namespace Mirrors

variable {σ : Type} {Keeps : σ → List Entry → Prop} {Accepts : Entry → Prop} {times : List Instant}
  {r : Run σ} {es : List Entry} {queue : List Event}

theorem publish (h : Mirrors Keeps times r es queue) (e : Event) :
    Mirrors Keeps times (r.publish e) es (queue ++ [e]) := by
  obtain ⟨done, hpublished, hrecorded⟩ := h.recorded
  refine ⟨h.stands, h.holds.publish e, ⟨done, ?_, hrecorded⟩, ?_⟩
  · rw [Run.publish, hpublished, List.append_assoc]
  · change r.core.bus.window.published + 1 = (r.published ++ [e]).length
    rw [h.counted, List.length_append, List.length_singleton]

variable [Store σ]

theorem operate (h : Mirrors Keeps times r es queue) (o : Operation) :
    Mirrors Keeps times (r.step (.operate o)) es queue := by
  have hleaves := perform_leaves r.core o
  refine ⟨?_, ?_, h.recorded, h.counted⟩
  · change (r.core.perform o).state.audit.Stands Keeps times es
    rw [hleaves.audit]
    exact h.stands
  · change r.core.bus.Holds (r.core.perform o).state.auditor queue
    rw [hleaves.auditor]
    exact h.holds

/-- The worker has the engine record the first event that waits, if there is one. -/
theorem record (h : Mirrors Keeps times r es queue) (happends : Appends Keeps Accepts)
    (now : Instant)
    (haccepts : ∀ e : Entry, e.id = es.length + 1 → e.timestamp ∈ times ++ [now] → Accepts e) :
    ∃ fs, Mirrors Keeps (times ++ [now]) (r.step (.record now)) fs queue.tail := by
  obtain ⟨hholds, hwindow, -⟩ := h.holds.work
  obtain ⟨done, hpublished, hrecorded⟩ := h.recorded
  have hcore : (r.step (.record now)).core = _ := recordNext_of_holds h.holds now
  cases queue with
  | nil =>
      refine ⟨es, ?_, ?_, ⟨done, hpublished, hrecorded⟩, ?_⟩
      · rw [hcore]
        exact h.stands.wait now
      · rw [hcore]
        exact hholds
      · rw [hcore, hwindow]
        exact h.counted
  | cons event queue =>
      refine ⟨es ++ [r.core.audit.nextEntry event now], ?_, ?_, ⟨done ++ [event], ?_, ?_⟩, ?_⟩
      · rw [hcore]
        exact h.stands.record happends event now haccepts
      · rw [hcore]
        exact hholds
      · change r.published = _
        rw [hpublished, List.append_assoc]
        rfl
      · exact List.rel_append hrecorded (.cons ⟨rfl, rfl, rfl, rfl⟩ .nil)
      · rw [hcore, hwindow]
        exact h.counted

/-- One action of a run keeps the chain the mirror of the bus. -/
theorem step (h : Mirrors Keeps times r es queue) (happends : Appends Keeps Accepts) (a : Action)
    (haccepts : ∀ e : Entry, e.id ≤ (times ++ clocks [a]).length →
      e.timestamp ∈ times ++ clocks [a] → Accepts e) :
    ∃ fs rest, Mirrors Keeps (times ++ clocks [a]) (r.step a) fs rest := by
  cases a with
  | operate o => exact ⟨es, queue, by simpa [clocks] using h.operate o⟩
  | send place =>
      simp only [Run.step]
      split
      next e rest _ =>
        have hsame :
            Mirrors Keeps times { r with outboxes := r.outboxes.set place rest } es queue :=
          ⟨h.stands, h.holds, h.recorded, h.counted⟩
        exact ⟨es, queue ++ [e], by simpa [clocks] using hsame.publish e⟩
      next => exact ⟨es, queue, by simpa [clocks] using h⟩
  | publish e => exact ⟨es, queue ++ [e], by simpa [clocks, Run.step] using h.publish e⟩
  | record now =>
      have hle := h.stands.length_le
      obtain ⟨fs, hfs⟩ := h.record happends now fun e hid hstamp =>
        haccepts e (by simpa [clocks, hid] using hle) hstamp
      exact ⟨fs, queue.tail, hfs⟩

end Mirrors

variable {σ : Type} [Store σ] {Keeps : σ → List Entry → Prop} {Accepts : Entry → Prop}
  {manifest : Config.Manifest} {proofs : ProofSystem} {store : σ} {c : Core σ}

theorem mirrors_build (hstore : Keeps store []) (hlast : Store.last store = .ok none)
    (hbuild : build manifest proofs (.ok store) true = .ok c) :
    Mirrors Keeps [] ⟨c, [], []⟩ [] [] := by
  obtain ⟨hopen, hholds, hcounted⟩ := build_eq_ok hbuild
  have haudit : c.audit = { store, interval := manifest.spec.audit.checkpointInterval } := by
    rw [Audit.Engine.open?, hlast] at hopen
    exact (Except.ok.inj hopen).symm
  refine ⟨?_, hholds, ⟨[], rfl, .nil⟩, hcounted⟩
  rw [haudit]
  exact ⟨hstore, ⟨trivial, rfl, rfl, fun p hp => by cases hp⟩, Nat.le_refl _,
    fun e he => by cases he⟩

theorem mirrors_after (happends : Appends Keeps Accepts) (hstore : Keeps store [])
    (hlast : Store.last store = .ok none) (hbuild : build manifest proofs (.ok store) true = .ok c)
    {actions : List Action}
    (haccepts : ∀ e : Entry, e.id ≤ (clocks actions).length → e.timestamp ∈ clocks actions →
      Accepts e) :
    ∃ es queue, Mirrors Keeps (clocks actions) (Run.after c actions) es queue := by
  induction actions using List.reverseRecOn with
  | nil => exact ⟨[], [], mirrors_build hstore hlast hbuild⟩
  | append_singleton actions a ih =>
      have hclocks : clocks (actions ++ [a]) = clocks actions ++ clocks [a] := List.filterMap_append
      rw [hclocks] at haccepts ⊢
      obtain ⟨es, queue, h⟩ := ih fun e hid hstamp =>
        haccepts e (by rw [List.length_append]; omega) (List.mem_append_left _ hstamp)
      rw [Run.after_concat]
      exact h.step happends a haccepts

/-! ## The chain and the events -/

/-- What the entries in the store are to the events that a run has published. -/
structure Chained (es : List Entry) (r : Run σ) : Prop where
  isChain : IsChain es
  size : r.core.audit.size = es.length
  /-- The first events are recorded, one by each entry. -/
  recorded : List.Forall₂ Records es (r.published.take es.length)
  /-- The others wait, in the order of their publication. -/
  waiting : r.core.queued = r.published.drop es.length
  drained : r.core.queued = [] → es.length = r.published.length
  /-- The next step of the worker takes the first event that waits. -/
  next : ∀ now, (r.step (.record now)).core.queued = r.core.queued.tail
  /-- The bus has carried no other events. -/
  counted : r.core.bus.window.published = r.published.length

theorem Mirrors.chained {times : List Instant} {r : Run σ} {es : List Entry} {queue : List Event}
    (h : Mirrors Keeps times r es queue) : Chained es r := by
  obtain ⟨done, hpublished, hrecorded⟩ := h.recorded
  have hlength : es.length = done.length := hrecorded.length_eq
  have hqueued : r.core.queued = queue := queued_of_holds h.holds
  refine ⟨h.stands.tracks.linked.isChain, ?_, ?_, ?_, ?_, ?_, h.counted⟩
  · rw [Audit.Engine.size, h.stands.tracks.head]
  · rw [hpublished, hlength, List.take_left]
    exact hrecorded
  · rw [hqueued, hpublished, hlength, List.drop_left]
  · intro hnil
    rw [hpublished, hlength, ← hqueued, hnil, List.append_nil]
  · intro now
    have hcore : (r.step (.record now)).core = _ := recordNext_of_holds h.holds now
    rw [hqueued, hcore]
    exact queued_of_holds h.holds.work.1

/-- At every moment of a run the store keeps a chain that records the events published so far, in
their order, up to those that wait in the queue of the audit engine. The store has to append what
it accepts, whatever it shows when it is read. -/
theorem chain_mirrors (happends : Appends Keeps Accepts) (hstore : Keeps store [])
    (hlast : Store.last store = .ok none) (hbuild : build manifest proofs (.ok store) true = .ok c)
    {actions : List Action}
    (haccepts : ∀ e : Entry, e.id ≤ (clocks actions).length → e.timestamp ∈ clocks actions →
      Accepts e) :
    ∃ es, Keeps (Run.after c actions).core.audit.store es ∧ Chained es (Run.after c actions) := by
  obtain ⟨es, queue, h⟩ := mirrors_after happends hstore hlast hbuild haccepts
  exact ⟨es, h.stands.keeps, h.chained⟩

/-- A log whose first entry cannot be read. -/
def gappedLog : Tampered Backend := ((⟨.log {}, ∅, ∅, none, none⟩ : Tampered Backend).hide 1).1

/-- The first entry is recorded and found missing. Another event is published and taken by the
worker between this and the report of it, which is then recorded as well. -/
def reporting : List Action :=
  [.publish ⟨.agentSpawned, "desk", none, .null⟩, .record ⟨5⟩, .operate (.verifyTrace 1),
   .publish ⟨.agentTerminated, "desk", none, .null⟩, .record ⟨3⟩, .send 0, .record ⟨9⟩]

theorem chain_mirrors_reporting :
    ∃ c, build {} (.ed25519 []) (.ok gappedLog) true = .ok c ∧
      (Run.after c reporting).published.map (·.type) =
        [.agentSpawned, .agentTerminated, .auditIntegrityViolation] ∧
      ∃ es, (∃ l : Log, (Run.after c reporting).core.audit.store.inner = .log l ∧ l.Keeps es) ∧
        Chained es (Run.after c reporting) ∧ es.length = 3 := by
  have hkeeps : gappedLog.appendFault = none ∧
      ∃ l : Log, gappedLog.inner = .log l ∧ l.Keeps [] := ⟨rfl, {}, rfl, rfl, trivial⟩
  obtain ⟨c, hbuild⟩ : ∃ c, build {} (.ed25519 []) (.ok gappedLog) true = .ok c := ⟨_, rfl⟩
  have happends := Appends.tampered Backend.lawful_log.appends
  obtain ⟨es, ⟨-, hlog⟩, hes⟩ : ∃ es, _ ∧ Chained es (Run.after c reporting) :=
    chain_mirrors happends hkeeps rfl hbuild fun _ _ _ => trivial
  cases hbuild
  refine ⟨_, rfl, rfl, es, hlog, hes, hes.drained rfl⟩

end Core

end AgentGovernance
