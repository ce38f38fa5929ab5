import AgentGovernance.Audit
import AgentGovernance.Proofs.Trace.Stores

/-!
# Runs of the audit engine

An audit engine is opened over a store; from then on it records events as they arrive, or is opened
again over its store, possibly with another distance between checkpoints. What a run should leave in
the store depends on the recorded events and the clock only: the chain of the events in their order,
each stamped with the latest time that the clock has shown so far.
-/
namespace AgentGovernance.Audit

open Trace

inductive Action where
  /-- An event arrives while the clock shows `now`. -/
  | record (event : Event) (now : Instant)
  | reopen (interval : Nat)

def Action.isRecord : Action → Bool
  | .record .. => true
  | .reopen _ => false

/-- What arrives in a run, with the stamps that follow the given one. -/
def drafts (stampedAt : Option Instant) : List Action → List Draft
  | [] => []
  | .record event now :: rest =>
      let stamp := stampedAt.elim now now.latest
      ⟨event.type, event.source, event.target, .ofJson event.payload, stamp⟩ ::
        drafts (some stamp) rest
  | .reopen _ :: rest => drafts stampedAt rest

/-- The chain of the events of a run. -/
def recorded (actions : List Action) : List Entry := chain 1 .genesis (drafts none actions)

/-- What a run adds to the entries that it finds. -/
def added (es : List Entry) (actions : List Action) : List Entry :=
  chain (es.length + 1) (lastHash .genesis es) (drafts (es.getLast?.map (·.timestamp)) actions)

theorem added_cons (es : List Entry) (action : Action) (actions : List Action) :
    added es (action :: actions) =
      added es [action] ++ added (es ++ added es [action]) actions := by
  cases action with
  | record event now =>
      simp only [added, drafts, chain, List.cons_append, List.nil_append, lastHash_append,
        List.length_append, List.length_singleton, List.getLast?_concat, Option.map_some]
      rfl
  | reopen interval => simp only [added, drafts, chain, List.nil_append, List.append_nil]

theorem drafts_filter_isRecord (stampedAt : Option Instant) (actions : List Action) :
    drafts stampedAt (actions.filter Action.isRecord) = drafts stampedAt actions := by
  induction actions generalizing stampedAt with
  | nil => rfl
  | cons action actions ih =>
      cases action with
      | record event now => exact congrArg (_ :: ·) (ih _)
      | reopen interval => exact ih stampedAt

theorem length_drafts (stampedAt : Option Instant) (actions : List Action) :
    (drafts stampedAt actions).length = (actions.filter Action.isRecord).length := by
  induction actions generalizing stampedAt with
  | nil => rfl
  | cons action actions ih =>
      cases action with
      | record event now => exact congrArg (· + 1) (ih _)
      | reopen interval => exact ih stampedAt

theorem length_recorded (actions : List Action) :
    (recorded actions).length = (actions.filter Action.isRecord).length := by
  rw [recorded, length_chain, length_drafts]

/-- A stamp is the time of arrival or the stamp before it. -/
theorem stamp_cases (stampedAt : Option Instant) (now : Instant) :
    stampedAt = some (stampedAt.elim now now.latest) ∨ stampedAt.elim now now.latest = now := by
  cases stampedAt with
  | none => exact .inr rfl
  | some stamp =>
      change some stamp = some (if now < stamp then stamp else now) ∨
        (if now < stamp then stamp else now) = now
      split
      · exact .inl rfl
      · exact .inr rfl

theorem le_latest (now stamp : Instant) : stamp ≤ now.latest stamp := by
  change stamp.ticks ≤ (if now < stamp then stamp else now).ticks
  split
  · exact Int.le_refl _
  next h => exact Int.not_lt.mp h

/-- The clock has shown every stamp, at some record of the run if not before it. -/
theorem timestamp_of_mem_drafts {stampedAt : Option Instant} {actions : List Action} {d : Draft}
    (h : d ∈ drafts stampedAt actions) :
    stampedAt = some d.timestamp ∨ ∃ event, Action.record event d.timestamp ∈ actions := by
  induction actions generalizing stampedAt with
  | nil => cases h
  | cons action actions ih =>
      cases action with
      | record event now =>
          have hhead : ∀ t, stampedAt.elim now now.latest = t →
              stampedAt = some t ∨ ∃ other, Action.record other t ∈ .record event now :: actions := by
            rintro t rfl
            rcases stamp_cases stampedAt now with h | h
            · exact .inl h
            · exact .inr ⟨event, by simp [h]⟩
          rcases List.mem_cons.mp h with rfl | h
          · exact hhead _ rfl
          · rcases ih h with hd | ⟨other, hother⟩
            · exact hhead _ (Option.some.inj hd)
            · exact .inr ⟨other, List.mem_cons_of_mem _ hother⟩
      | reopen interval =>
          rcases ih h with hd | ⟨other, hother⟩
          · exact .inl hd
          · exact .inr ⟨other, List.mem_cons_of_mem _ hother⟩

/-- Stamps never decrease, wherever the clock jumps to. -/
theorem drafts_monotone (stampedAt : Option Instant) (actions : List Action) :
    (∀ stamp ∈ stampedAt, ∀ d ∈ drafts stampedAt actions, stamp ≤ d.timestamp) ∧
      ((drafts stampedAt actions).map (·.timestamp)).Pairwise (· ≤ ·) := by
  induction actions generalizing stampedAt with
  | nil =>
      refine ⟨fun stamp _ d hd => ?_, .nil⟩
      cases hd
  | cons action actions ih =>
      cases action with
      | record event now =>
          obtain ⟨hlater, hsorted⟩ := ih (some (stampedAt.elim now now.latest))
          refine ⟨fun stamp hstamp d hd => ?_, ?_⟩
          · have hfirst : stamp ≤ stampedAt.elim now now.latest := by
              obtain rfl : stampedAt = some stamp := hstamp
              exact le_latest now stamp
            rcases List.mem_cons.mp hd with rfl | hd
            · exact hfirst
            · exact Int.le_trans hfirst (hlater _ rfl d hd)
          · refine List.pairwise_cons.mpr ⟨fun t ht => ?_, hsorted⟩
            obtain ⟨d, hd, rfl⟩ := List.mem_map.mp ht
            exact hlater _ rfl d hd
      | reopen interval => exact ih stampedAt

/-! ## Engines -/

namespace Engine

variable {σ : Type}

/-- The engine over a store with the given newest entry. -/
def opened (store : σ) (interval : Nat) : Option Entry → Engine σ
  | none => { store, interval }
  | some e =>
      { store, interval, head := ⟨e.id, e.hash⟩, stampedAt := some e.timestamp, progress := e.id }

@[simp] theorem store_opened (store : σ) (interval : Nat) (newest : Option Entry) :
    (opened store interval newest).store = store := by
  cases newest <;> rfl

/-- The engine behind an entry that its store has accepted. -/
def advanced (a : Engine σ) (store : σ) (e : Entry) : Engine σ :=
  { a with
    store
    head := ⟨e.id, e.hash⟩
    stampedAt := some e.timestamp
    checkpoints := if isCheckpoint a.interval e.id then a.checkpoints.insert e.id e.hash
      else a.checkpoints
    progress := e.id }

/-- An engine that stands at the end of some entries: its head and its stamp are those of the last
one, and its checkpoints are points of their chain. -/
structure Tracks (a : Engine σ) (es : List Entry) : Prop where
  linked : Linked 1 .genesis es
  head : a.head = ⟨es.length, lastHash .genesis es⟩
  stampedAt : a.stampedAt = es.getLast?.map (·.timestamp)
  checkpoints : ∀ p ∈ a.checkpoints.entries,
    0 < p.1 ∧ p.1 ≤ es.length ∧ p.2 = lastHash .genesis (es.take p.1)

/-- The entry that a record appends. -/
theorem Tracks.nextEntry_eq {a : Engine σ} {es : List Entry} (h : a.Tracks es) (event : Event)
    (now : Instant) :
    a.nextEntry event now =
      Draft.sealed ⟨event.type, event.source, event.target, .ofJson event.payload,
        (es.getLast?.map (·.timestamp)).elim now now.latest⟩ (es.length + 1)
        (lastHash .genesis es) := by
  rw [Engine.nextEntry, Engine.nextStamp, h.head, h.stampedAt]
  rfl

/-- Points of a chain stay points of it when it grows. -/
theorem Tracks.checkpoints_concat {a : Engine σ} {es : List Entry} (h : a.Tracks es) (e : Entry) :
    ∀ p ∈ a.checkpoints.entries,
      0 < p.1 ∧ p.1 ≤ (es ++ [e]).length ∧ p.2 = lastHash .genesis ((es ++ [e]).take p.1) := by
  intro p hp
  obtain ⟨hpos, hle, hhash⟩ := h.checkpoints p hp
  refine ⟨hpos, ?_, ?_⟩
  · rw [List.length_append]
    exact Nat.le_add_right_of_le hle
  · rw [List.take_append_of_le_length hle, hhash]

theorem Tracks.nextEntry_id {a : Engine σ} {es : List Entry} (h : a.Tracks es) (event : Event)
    (now : Instant) : (a.nextEntry event now).id = es.length + 1 := by
  rw [h.nextEntry_eq]
  rfl

theorem Tracks.linked_nextEntry {a : Engine σ} {es : List Entry} (h : a.Tracks es) (event : Event)
    (now : Instant) : Linked 1 .genesis (es ++ [a.nextEntry event now]) := by
  apply linked_append.mpr
  rw [h.nextEntry_eq, Nat.add_comm 1]
  exact ⟨h.linked, rfl, rfl, rfl, trivial⟩

/-- An engine that moves on to its next entry stands at the end again. -/
theorem Tracks.advanced {a : Engine σ} {es : List Entry} (h : a.Tracks es) (store : σ)
    (event : Event) (now : Instant) :
    (a.advanced store (a.nextEntry event now)).Tracks (es ++ [a.nextEntry event now]) := by
  have hlength : (es ++ [a.nextEntry event now]).length = es.length + 1 := by simp
  have hlast : lastHash .genesis (es ++ [a.nextEntry event now]) = (a.nextEntry event now).hash := by
    rw [lastHash_append]
    rfl
  have hid := h.nextEntry_id event now
  refine ⟨h.linked_nextEntry event now, ?_, ?_, ?_⟩
  · rw [Engine.advanced, hlength, hlast, hid]
  · simp [Engine.advanced]
  · have hold := h.checkpoints_concat (a.nextEntry event now)
    intro p hp
    dsimp only [Engine.advanced] at hp
    split at hp
    · rcases Table.mem_insertEntry hp with rfl | hp
      · refine ⟨by omega, by omega, ?_⟩
        dsimp only
        rw [hid, ← hlength, List.take_length, hlast]
      · exact hold p hp
    · exact hold p hp

variable [Store σ]

theorem open?_of_last {store : σ} {newest : Option Entry} (h : Store.last store = .ok newest)
    (interval : Nat) : Engine.open? store interval = .ok (opened store interval newest) := by
  rw [open?, h]
  cases newest <;> rfl

theorem tracks_open {store : σ} {es : List Entry} (h : Shows store es)
    (hlinked : Linked 1 .genesis es) (interval : Nat) :
    ∃ a, Engine.open? store interval = .ok a ∧ a.store = store ∧ a.Tracks es := by
  refine ⟨_, open?_of_last h.last interval, store_opened _ _ _, ?_⟩
  cases hlast : es.getLast? with
  | none =>
      refine ⟨hlinked, ?_, ?_, ?_⟩
      · rw [List.getLast?_eq_none_iff.mp hlast]
        rfl
      · rw [hlast]
        rfl
      · intro p hp
        cases hp
  | some e =>
      have hhash := lastHash_of_getLast? hlast .genesis
      have hid : e.id = es.length := by
        obtain ⟨init, rfl⟩ := List.getLast?_eq_some_iff.mp hlast
        have hid := (linked_append.mp hlinked).2.1
        rw [hid, List.length_append, List.length_singleton]
        omega
      refine ⟨hlinked, ?_, ?_, ?_⟩
      · rw [opened, hid, hhash]
      · rw [hlast]
        rfl
      · intro p hp
        cases hp

def step (a : Engine σ) : Action → Except Failure (Engine σ)
  | .record event now =>
      let o := a.record event now
      o.result.map fun _ => o.state
  | .reopen interval => Engine.open? a.store interval

/-- A record goes as its append goes. -/
theorem record_of_append {a : Engine σ} {event : Event} {now : Instant} {store : σ}
    (h : Store.append a.store (a.nextEntry event now) = (store, .ok ())) :
    a.record event now =
      .ok (a.advanced store (a.nextEntry event now)) (a.nextEntry event now) := by
  simp only [Engine.record, h, advanced]

/-- One action over a lawful store succeeds and adds what it should. -/
theorem Tracks.step {Keeps : σ → List Entry → Prop} {Accepts : Entry → Prop}
    (hlawful : Lawful Keeps Accepts) {a : Engine σ} {es : List Entry} (h : a.Tracks es)
    (hkeeps : Keeps a.store es) (action : Action)
    (haccepts : ∀ e ∈ added es [action], Accepts e) :
    ∃ b, a.step action = .ok b ∧ Keeps b.store (es ++ added es [action]) ∧
      b.Tracks (es ++ added es [action]) := by
  cases action with
  | record event now =>
      have hentry := h.nextEntry_eq event now
      have hadded : added es [.record event now] = [a.nextEntry event now] := by
        rw [hentry]
        rfl
      have hid := h.nextEntry_id event now
      rw [hadded] at haccepts ⊢
      obtain ⟨store, happend, hstore⟩ := hlawful.append hkeeps hid (haccepts _ List.mem_cons_self)
      refine ⟨_, ?_, hstore, h.advanced store event now⟩
      rw [Engine.step, record_of_append happend]
      rfl
  | reopen interval =>
      have hadded : added es [.reopen interval] = [] := rfl
      obtain ⟨b, hopen, hstore, hb⟩ := tracks_open (hlawful.shows hkeeps) h.linked interval
      rw [hadded, List.append_nil]
      exact ⟨b, hopen, hstore ▸ hkeeps, hb⟩

theorem Tracks.foldlM {Keeps : σ → List Entry → Prop} {Accepts : Entry → Prop}
    (hlawful : Lawful Keeps Accepts) {a : Engine σ} {es : List Entry} (h : a.Tracks es)
    (hkeeps : Keeps a.store es) (actions : List Action)
    (haccepts : ∀ e ∈ added es actions, Accepts e) :
    ∃ b, actions.foldlM Engine.step a = .ok b ∧ Keeps b.store (es ++ added es actions) ∧
      b.Tracks (es ++ added es actions) := by
  induction actions generalizing a es with
  | nil =>
      have hadded : added es [] = [] := rfl
      rw [hadded, List.append_nil]
      exact ⟨a, rfl, hkeeps, h⟩
  | cons action actions ih =>
      rw [added_cons] at haccepts ⊢
      obtain ⟨b, hstep, hstore, hb⟩ := h.step hlawful hkeeps action
        fun e he => haccepts e (List.mem_append_left _ he)
      obtain ⟨c, hfold, hc⟩ := ih hb hstore fun e he => haccepts e (List.mem_append_right _ he)
      rw [← List.append_assoc]
      refine ⟨c, ?_, hc⟩
      rw [List.foldlM_cons, hstep]
      exact hfold

end Engine

variable {σ : Type} [Store σ]

/-- Opens an engine over a store and lets it go through some actions, up to the first failure. -/
def run (store : σ) (interval : Nat) (actions : List Action) : Except Failure (Engine σ) := do
  actions.foldlM Engine.step (← Engine.open? store interval)

/-- Over a lawful store that is empty at first, a run succeeds and leaves the chain of its events. -/
theorem run_of_lawful {Keeps : σ → List Entry → Prop} {Accepts : Entry → Prop}
    (hlawful : Lawful Keeps Accepts) {store : σ} (hstore : Keeps store []) (interval : Nat)
    (actions : List Action) (haccepts : ∀ e ∈ recorded actions, Accepts e) :
    ∃ a, run store interval actions = .ok a ∧ Keeps a.store (recorded actions) ∧
      a.Tracks (recorded actions) := by
  obtain ⟨a, hopen, rfl, ha⟩ := Engine.tracks_open (hlawful.shows hstore) trivial interval
  obtain ⟨b, hfold, hb⟩ := ha.foldlM hlawful hstore actions haccepts
  refine ⟨b, ?_, hb⟩
  rw [run, hopen]
  exact hfold

end AgentGovernance.Audit
