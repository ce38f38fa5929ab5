import AgentGovernance.Proofs.Audit.Failures

/-!
# Torn writes

A torn write puts the next entry into a ledger although its record fails, so the engine falls one
entry behind what the ledger holds. The ledger accepts only the entry behind its newest one, and the
engine offers none but the one before: the engine stays where it is until it is opened again.
-/
namespace AgentGovernance.Audit

open Trace

/-- Whether one of the next writes is torn. -/
def tears (outcomes : List WriteOutcome) (count : Nat) : Bool :=
  (outcomes.take count).any WriteOutcome.isTorn

theorem tears_succ (s : Ledger) (count : Nat) :
    tears s.outcomes (count + 1) = (s.fate.isTorn || tears s.outcomes.tail count) := by
  unfold Ledger.fate
  cases s.outcomes with
  | nil => simp [tears, WriteOutcome.isTorn]
  | cons outcome rest => simp [tears]

namespace Engine

/-- An engine that stands at the end of its ledger. -/
structure Intact (a : Engine Ledger) (es : List Entry) : Prop where
  tracks : a.Tracks es
  holds : a.store.Holds es

/-- An engine whose ledger holds one entry more. -/
structure Wedged (a : Engine Ledger) (es : List Entry) (e : Entry) : Prop where
  tracks : a.Tracks es
  holds : a.store.Holds (es ++ [e])
  linked : Linked 1 .genesis (es ++ [e])

/-- The entries that an engine stands behind do not depend on its store. -/
theorem Tracks.of_concurs {σ τ : Type} {a : Engine σ} {b : Engine τ} {es : List Entry}
    (h : a.Tracks es) (hconcurs : b.Concurs a) : b.Tracks es where
  linked := h.linked
  head := hconcurs.head ▸ h.head
  stampedAt := hconcurs.stampedAt ▸ h.stampedAt
  checkpoints := hconcurs.checkpoints ▸ h.checkpoints

section

variable {a : Engine Ledger} {es : List Entry} {c : Arrival} {rest : List Arrival}

theorem Intact.append_eq_write (h : a.Intact es) :
    Store.append a.store (a.nextEntry c.event c.now) =
      a.store.write (es.length + 1) (Ledger.writeEntry (a.nextEntry c.event c.now)) := by
  have hid := h.tracks.nextEntry_id c.event c.now
  rw [h.holds.append_of_id_eq hid, hid]

/-- A write that succeeds takes engine and ledger one entry further. -/
theorem Intact.written (h : a.Intact es) (hfits : a.Fits (c :: rest))
    (hfate : a.store.fate = .written) :
    ∃ b, a.receive c = .ok b (a.nextEntry c.event c.now) ∧
      b.Intact (es ++ [a.nextEntry c.event c.now]) ∧
      b.store.outcomes = a.store.outcomes.tail := by
  have hid := h.tracks.nextEntry_id c.event c.now
  have happend := h.append_eq_write (c := c)
  rw [Ledger.write_of_written _ _ hfate] at happend
  refine ⟨_, receive_of_append_ok happend, ?_, rfl⟩
  constructor
  · exact h.tracks.advanced _ c.event c.now
  · rw [← hid]
    exact h.holds.insert hid hfits.nextEntry _

/-- A write that inserts nothing leaves engine and ledger where they are. -/
theorem Intact.notInserted (h : a.Intact es) {why : String}
    (hfate : a.store.fate = .notInserted why) :
    ∃ b, a.receive c = .refuse b (.ofStore (.io why)) ∧ b.Intact es ∧ b.Concurs a ∧
      b.store.outcomes = a.store.outcomes.tail := by
  have happend := h.append_eq_write (c := c)
  rw [Ledger.write_of_notInserted _ _ hfate] at happend
  refine ⟨_, receive_of_append_error happend, ?_, ⟨rfl, rfl, rfl, rfl, rfl⟩, rfl⟩
  constructor
  · exact h.tracks.of_concurs ⟨rfl, rfl, rfl, rfl, rfl⟩
  · exact h.holds

/-- A torn write takes the ledger one entry further, but not the engine. -/
theorem Intact.notFlushed (h : a.Intact es) (hfits : a.Fits (c :: rest)) {why : String}
    (hfate : a.store.fate = .notFlushed why) :
    ∃ b, a.receive c = .refuse b (.ofStore (.io why)) ∧
      b.Wedged es (a.nextEntry c.event c.now) ∧ b.Concurs a ∧
      b.store.outcomes = a.store.outcomes.tail := by
  have hid := h.tracks.nextEntry_id c.event c.now
  have happend := h.append_eq_write (c := c)
  rw [Ledger.write_of_notFlushed _ _ hfate] at happend
  refine ⟨_, receive_of_append_error happend, ?_, ⟨rfl, rfl, rfl, rfl, rfl⟩, rfl⟩
  constructor
  · exact h.tracks.of_concurs ⟨rfl, rfl, rfl, rfl, rfl⟩
  · rw [← hid]
    exact h.holds.insert hid hfits.nextEntry _
  · exact h.tracks.linked_nextEntry c.event c.now

/-- Once the ledger is ahead, it refuses what the engine offers, and nothing changes any more. -/
theorem Wedged.receive {e : Entry} (h : a.Wedged es e) (c : Arrival) :
    a.receive c = .refuse a (.ofStore (.outOfOrder (es.length + 2) (es.length + 1))) := by
  have hid := h.tracks.nextEntry_id c.event c.now
  have hlength : (es ++ [e]).length + 1 = es.length + 2 := by simp
  have happend := h.holds.append_of_id_ne (e := a.nextEntry c.event c.now) (by omega)
  rw [hlength, hid] at happend
  exact receive_of_append_error happend

theorem Wedged.stays {e : Entry} (h : a.Wedged es e) (arrivals : List Arrival) :
    a.after arrivals = a ∧ a.appended arrivals = [] ∧
      a.answers arrivals = List.replicate arrivals.length
        (.error (.ofStore (.outOfOrder (es.length + 2) (es.length + 1)))) := by
  induction arrivals with
  | nil => exact ⟨rfl, rfl, rfl⟩
  | cons c rest ih =>
      obtain ⟨hafter, happended, hanswers⟩ := ih
      have hreceive := h.receive c
      rw [(cons_of_refuse rest hreceive).1, (cons_of_refuse rest hreceive).2.2]
      refine ⟨hafter, happended, ?_⟩
      simp only [answers, hreceive, Outcome.refuse, hanswers, List.length_cons,
        List.replicate_succ]

/-- An engine opened over a ledger that holds a chain stands at its end. -/
theorem intact_open {s : Ledger} (h : s.Holds es) (hlinked : Linked 1 .genesis es)
    (interval : Nat) :
    ∃ a, Engine.open? s interval = .ok a ∧ a.store = s ∧ a.Intact es := by
  obtain ⟨a, hopen, rfl, htracks⟩ := tracks_open h.shows hlinked interval
  exact ⟨a, hopen, rfl, htracks, h⟩

theorem Intact.fits (h : a.Intact es) {arrivals : List Arrival}
    (hcount : es.length + arrivals.length < 2 ^ 64)
    (hclock : ∀ c ∈ arrivals, c.now.checked? = some c.now) : a.Fits arrivals where
  count := by
    rw [h.tracks.head]
    exact hcount
  stampedAt stamp hstamp := by
    rw [h.tracks.stampedAt, Option.mem_def, Option.map_eq_some_iff] at hstamp
    obtain ⟨e, he, rfl⟩ := hstamp
    exact (h.holds.writable e (List.mem_of_getLast? he)).timestamp
  clock := hclock

end

/-- What has become of an engine: one of the first writes was torn and left it behind, or else it
has used up one outcome for each arrival. -/
theorem Intact.after {a : Engine Ledger} {es : List Entry} (h : a.Intact es)
    (arrivals : List Arrival) (hfits : a.Fits arrivals) :
    (tears a.store.outcomes arrivals.length = false →
      (a.after arrivals).Intact (es ++ a.appended arrivals) ∧
        (a.after arrivals).store.outcomes = a.store.outcomes.drop arrivals.length) ∧
    (tears a.store.outcomes arrivals.length = true →
      ∃ e, (a.after arrivals).Wedged (es ++ a.appended arrivals) e) := by
  induction arrivals generalizing a es with
  | nil => simpa [tears, Engine.after, appended] using h
  | cons c rest ih =>
      have hrest := hfits.receive
      rw [List.length_cons, tears_succ]
      cases hfate : a.store.fate with
      | written =>
          obtain ⟨b, hreceive, hb, houtcomes⟩ := h.written hfits hfate
          obtain ⟨hafter, -, happended⟩ := cons_of_ok rest hreceive
          rw [hreceive] at hrest
          have hrun := ih hb hrest
          rw [houtcomes, List.append_assoc, List.singleton_append, List.drop_tail] at hrun
          rw [hafter, happended]
          exact hrun
      | notInserted why =>
          obtain ⟨b, hreceive, hb, -, houtcomes⟩ := h.notInserted (c := c) hfate
          obtain ⟨hafter, -, happended⟩ := cons_of_refuse rest hreceive
          rw [hreceive] at hrest
          have hrun := ih hb hrest
          rw [houtcomes, List.drop_tail] at hrun
          rw [hafter, happended]
          exact hrun
      | notFlushed why =>
          obtain ⟨b, hreceive, hb, -⟩ := h.notFlushed hfits hfate
          obtain ⟨hafter, -, happended⟩ := cons_of_refuse rest hreceive
          obtain ⟨hstays, hnone, -⟩ := hb.stays rest
          rw [hafter, happended, hstays, hnone, List.append_nil]
          constructor
          · intro htears
            cases htears
          · exact fun _ => ⟨_, hb⟩

/-- What a record does to an engine behind some entries, by what becomes of its write. -/
def Follows (a : Engine Ledger) (es : List Entry) (c : Arrival) : WriteOutcome → Prop
  | .written =>
      ∃ e, e.id = es.length + 1 ∧ (a.receive c).result = .ok e ∧
        Shows (a.receive c).state.store (es ++ [e])
  | .notInserted why =>
      (a.receive c).result = .error (.ofStore (.io why)) ∧ (a.receive c).state.Concurs a ∧
        Shows (a.receive c).state.store es
  | .notFlushed why =>
      ∃ e, e.id = es.length + 1 ∧ (a.receive c).result = .error (.ofStore (.io why)) ∧
        (a.receive c).state.Concurs a ∧ Shows (a.receive c).state.store (es ++ [e])

theorem Intact.follows {a : Engine Ledger} {es : List Entry} (h : a.Intact es) {c : Arrival}
    (hfits : a.Fits [c]) : a.Follows es c a.store.fate := by
  have hid := h.tracks.nextEntry_id c.event c.now
  cases hfate : a.store.fate with
  | written =>
      obtain ⟨b, hreceive, hb, -⟩ := h.written hfits hfate
      refine ⟨_, hid, ?_⟩
      rw [hreceive]
      exact ⟨rfl, hb.holds.shows⟩
  | notInserted why =>
      obtain ⟨b, hreceive, hb, hconcurs, -⟩ := h.notInserted (c := c) hfate
      unfold Follows
      rw [hreceive]
      exact ⟨rfl, hconcurs, hb.holds.shows⟩
  | notFlushed why =>
      obtain ⟨b, hreceive, hb, hconcurs, -⟩ := h.notFlushed hfits hfate
      refine ⟨_, hid, ?_⟩
      rw [hreceive]
      exact ⟨rfl, hconcurs, hb.holds.shows⟩

end Engine

/-- As long as no write has been torn, the ledger holds what was recorded, and the next record
follows its write: it succeeds, or it fails and changes nothing, or the write is torn and the record
fails although the ledger holds its entry. Once a write has been torn, every record is refused,
whatever would become of its write, until the engine is opened again. -/
theorem torn_write_wedges {s : Ledger} {es : List Entry} (hs : s.Holds es)
    (hlinked : Linked 1 .genesis es) (interval : Nat) (arrivals : List Arrival) (c : Arrival)
    (hcount : es.length + (arrivals ++ [c]).length < 2 ^ 64)
    (hclock : ∀ d ∈ arrivals ++ [c], d.now.checked? = some d.now) :
    ∃ a, Engine.open? s interval = .ok a ∧
      (tears s.outcomes arrivals.length = false →
        Shows (a.after arrivals).store (es ++ a.appended arrivals) ∧
        (a.after arrivals).Follows (es ++ a.appended arrivals) c
          (s.outcomes[arrivals.length]?.getD .written)) ∧
      (tears s.outcomes arrivals.length = true →
        ∃ e, Shows (a.after arrivals).store (es ++ a.appended arrivals ++ [e]) ∧
          (∀ later, (a.after arrivals).after later = a.after arrivals ∧
            (a.after arrivals).answers later = List.replicate later.length
              (.error (.ofStore (.outOfOrder ((es ++ a.appended arrivals).length + 2)
                ((es ++ a.appended arrivals).length + 1))))) ∧
          ∀ interval', ∃ b, Engine.open? (a.after arrivals).store interval' = .ok b ∧
            b.store = (a.after arrivals).store ∧ b.Intact (es ++ a.appended arrivals ++ [e])) := by
  obtain ⟨a, hopen, rfl, ha⟩ := Engine.intact_open hs hlinked interval
  have hfits := ha.fits hcount hclock
  have hfirst : a.Fits arrivals := by
    apply ha.fits
    · rw [List.length_append] at hcount
      omega
    · exact fun d hd => hclock d (List.mem_append_left _ hd)
  obtain ⟨hintact, hwedged⟩ := ha.after arrivals hfirst
  refine ⟨a, hopen, fun htears => ?_, fun htears => ?_⟩
  · obtain ⟨hafter, houtcomes⟩ := hintact htears
    have hfate : (a.after arrivals).store.fate =
        a.store.outcomes[arrivals.length]?.getD .written := by
      rw [Ledger.fate, houtcomes, List.head?_drop]
    rw [← hfate]
    exact ⟨hafter.holds.shows, hafter.follows hfits.after⟩
  · obtain ⟨e, he⟩ := hwedged htears
    refine ⟨e, he.holds.shows, fun later => ?_, ?_⟩
    · obtain ⟨hafter, -, hanswers⟩ := he.stays later
      exact ⟨hafter, hanswers⟩
    · exact Engine.intact_open he.holds he.linked

/-- The first of two writes is torn, and the second record is refused although its write would
succeed. -/
theorem torn_write_wedges_second :
    ∃ a, Engine.open? ({ outcomes := [.notFlushed "no space left"] } : Ledger) 1 = .ok a ∧
      ∃ e, Shows (a.after [⟨⟨.agentSpawned, "agents", none, .null⟩, ⟨5⟩⟩]).store [e] ∧
        (a.after [⟨⟨.agentSpawned, "agents", none, .null⟩, ⟨5⟩⟩]).answers
            [⟨⟨.agentPaused, "agents", none, .null⟩, ⟨6⟩⟩] =
          [.error (.ofStore (.outOfOrder 2 1))] := by
  have hempty : Ledger.Holds { outcomes := [.notFlushed "no space left"] } [] :=
    ⟨trivial, by simp, rfl, rfl⟩
  obtain ⟨a, hopen, -, htorn⟩ := torn_write_wedges hempty trivial 1
    [⟨⟨.agentSpawned, "agents", none, .null⟩, ⟨5⟩⟩] ⟨⟨.agentPaused, "agents", none, .null⟩, ⟨6⟩⟩
    (by decide) (by decide)
  have hopened : a = Engine.opened { outcomes := [.notFlushed "no space left"] } 1 none := by
    rw [Engine.open?_of_last hempty.shows.last] at hopen
    exact (Except.ok.inj hopen).symm
  have hnone : a.appended [⟨⟨.agentSpawned, "agents", none, .null⟩, ⟨5⟩⟩] = [] := by
    rw [hopened]
    decide +kernel
  obtain ⟨e, hshows, hlater, -⟩ := htorn (by rfl)
  rw [hnone] at hshows hlater
  exact ⟨a, hopen, e, hshows, (hlater [⟨⟨.agentPaused, "agents", none, .null⟩, ⟨6⟩⟩]).2⟩

end AgentGovernance.Audit
