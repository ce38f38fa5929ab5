import AgentGovernance.Proofs.Audit.Run
import AgentGovernance.Proofs.Trace.Faults

/-!
# Records that the store refuses

A store may refuse an append at any time. As long as a refused append leaves what the store holds as
it was, refused records leave no trace: the engine moves on together with what the store accepted,
so a run ends like the run of its granted records, wherever refusals lie between them.
-/
namespace AgentGovernance.Audit

open Trace

/-- An event on its way to the engine, which finds the clock at `now`. -/
structure Arrival where
  event : Event
  now : Instant

namespace Engine

section

variable {σ τ : Type}

/-- Engines that have nothing but their stores to tell them apart. -/
structure Concurs (a : Engine σ) (b : Engine τ) : Prop where
  head : a.head = b.head
  stampedAt : a.stampedAt = b.stampedAt
  checkpoints : a.checkpoints = b.checkpoints
  progress : a.progress = b.progress
  interval : a.interval = b.interval

theorem Concurs.nextEntry {a : Engine σ} {b : Engine τ} (h : a.Concurs b) (event : Event)
    (now : Instant) : b.nextEntry event now = a.nextEntry event now := by
  simp only [Engine.nextEntry, nextStamp, h.head, h.stampedAt]

theorem Concurs.advanced {a : Engine σ} {b : Engine τ} (h : a.Concurs b) (s : σ) (t : τ)
    (e : Entry) : (a.advanced s e).Concurs (b.advanced t e) := by
  constructor <;> simp [Engine.advanced, h.checkpoints, h.interval]

/-- An engine goes on where the log ends. -/
theorem nextId_opened (s : Log) (interval : Nat) :
    nextId (opened s interval s.entries.getLast?).store.entries.getLast? =
      (opened s interval s.entries.getLast?).head.id + 1 := by
  cases h : s.entries.getLast? with
  | none => simp [opened, h, nextId, Checkpoint.genesis]
  | some e => simp [opened, h, nextId]

theorem concurs_opened (s : σ) (t : τ) (interval : Nat) (newest : Option Entry) :
    (opened s interval newest).Concurs (opened t interval newest) := by
  cases newest <;> exact ⟨rfl, rfl, rfl, rfl, rfl⟩

/-- The next arrivals fit the JSON form of entries, if they are recorded. -/
structure Fits (a : Engine σ) (arrivals : List Arrival) : Prop where
  count : a.head.id + arrivals.length < 2 ^ 64
  stampedAt : ∀ stamp ∈ a.stampedAt, stamp.checked? = some stamp
  clock : ∀ c ∈ arrivals, c.now.checked? = some c.now

namespace Fits

variable {a : Engine σ} {c : Arrival} {rest : List Arrival}

theorem nextEntry (h : a.Fits (c :: rest)) : (a.nextEntry c.event c.now).IsWritable where
  id_lt := by
    have hcount := h.count
    rw [List.length_cons] at hcount
    change a.head.id + 1 < 2 ^ 64
    omega
  timestamp := by
    change (a.nextStamp c.now).checked? = some (a.nextStamp c.now)
    rcases stamp_cases a.stampedAt c.now with hstamp | hstamp
    · exact h.stampedAt _ hstamp
    · rw [nextStamp, hstamp]
      exact h.clock c List.mem_cons_self

theorem advanced (h : a.Fits (c :: rest)) (s : σ) :
    (a.advanced s (a.nextEntry c.event c.now)).Fits rest where
  count := by
    have hcount := h.count
    rw [List.length_cons] at hcount
    change a.head.id + 1 + rest.length < 2 ^ 64
    omega
  stampedAt := by
    rintro stamp ⟨⟩
    exact h.nextEntry.timestamp
  clock d hd := h.clock d (List.mem_cons_of_mem _ hd)

theorem refused (h : a.Fits (c :: rest)) (s : σ) : Engine.Fits { a with store := s } rest where
  count := Nat.lt_of_le_of_lt (Nat.add_le_add_left (Nat.le_succ _) _) h.count
  stampedAt := h.stampedAt
  clock d hd := h.clock d (List.mem_cons_of_mem _ hd)

end Fits

end

variable {σ τ : Type} [Store σ] [Store τ]

def receive (a : Engine σ) (c : Arrival) : Outcome (Engine σ) Entry := a.record c.event c.now

theorem receive_of_append_ok {a : Engine σ} {c : Arrival} {s : σ}
    (h : Store.append a.store (a.nextEntry c.event c.now) = (s, .ok ())) :
    a.receive c = .ok (a.advanced s (a.nextEntry c.event c.now)) (a.nextEntry c.event c.now) :=
  record_of_append h

theorem receive_of_append_error {a : Engine σ} {c : Arrival} {s : σ} {err : StoreError}
    (h : Store.append a.store (a.nextEntry c.event c.now) = (s, .error err)) :
    a.receive c = .refuse { a with store := s } (.ofStore err) := by
  simp only [receive, Engine.record, h]

/-- Recording goes as the append goes: the engine moves on to an accepted entry, and only its store
may have changed when the entry is refused. -/
theorem receive_cases (a : Engine σ) (c : Arrival) :
    (∃ s, Store.append a.store (a.nextEntry c.event c.now) = (s, .ok ()) ∧
      a.receive c =
        .ok (a.advanced s (a.nextEntry c.event c.now)) (a.nextEntry c.event c.now)) ∨
    ∃ s err, Store.append a.store (a.nextEntry c.event c.now) = (s, .error err) ∧
      a.receive c = .refuse { a with store := s } (.ofStore err) := by
  cases h : Store.append a.store (a.nextEntry c.event c.now) with
  | mk s result =>
      cases result with
      | ok _ => exact .inl ⟨s, rfl, receive_of_append_ok h⟩
      | error err => exact .inr ⟨s, err, rfl, receive_of_append_error h⟩

/-- The engine behind some arrivals, whatever becomes of them. -/
def after (a : Engine σ) : List Arrival → Engine σ
  | [] => a
  | c :: rest => (a.receive c).state.after rest

def answers (a : Engine σ) : List Arrival → List (Except Failure Entry)
  | [] => []
  | c :: rest => (a.receive c).result :: (a.receive c).state.answers rest

/-- The arrivals that are recorded. -/
def granted (a : Engine σ) : List Arrival → List Arrival
  | [] => []
  | c :: rest =>
      if (a.receive c).result.isOk then c :: (a.receive c).state.granted rest
      else (a.receive c).state.granted rest

/-- The entries that are recorded. -/
def appended (a : Engine σ) : List Arrival → List Entry
  | [] => []
  | c :: rest => (a.receive c).result.toOption.toList ++ (a.receive c).state.appended rest

section

variable {a b : Engine σ} {c : Arrival} (rest : List Arrival)

theorem cons_of_ok {e : Entry} (h : a.receive c = .ok b e) :
    a.after (c :: rest) = b.after rest ∧ a.granted (c :: rest) = c :: b.granted rest ∧
      a.appended (c :: rest) = e :: b.appended rest := by
  simp only [after, granted, appended, h]
  exact ⟨rfl, rfl, rfl⟩

theorem cons_of_refuse {f : Failure} (h : a.receive c = .refuse b f) :
    a.after (c :: rest) = b.after rest ∧ a.granted (c :: rest) = b.granted rest ∧
      a.appended (c :: rest) = b.appended rest := by
  simp only [after, granted, appended, h]
  exact ⟨rfl, rfl, rfl⟩

end

/-- Over atomic stores the recorded entries are those that are held. -/
theorem holds_after {Holds : σ → List Entry → Prop} {Accepts : Entry → Prop}
    (hatomic : Atomic Holds Accepts) {a : Engine σ} {es : List Entry} (h : Holds a.store es)
    (arrivals : List Arrival) (haccepts : ∀ e ∈ a.appended arrivals, Accepts e) :
    Holds (a.after arrivals).store (es ++ a.appended arrivals) := by
  induction arrivals generalizing a es with
  | nil => simpa only [after, appended, List.append_nil] using h
  | cons c rest ih =>
      rcases a.receive_cases c with ⟨s, happend, hreceive⟩ | ⟨s, err, happend, hreceive⟩
      · obtain ⟨hafter, -, happended⟩ := cons_of_ok rest hreceive
        rw [happended] at haccepts
        have hstore := hatomic.accepted h (haccepts _ List.mem_cons_self) happend
        rw [hafter, happended, List.append_cons]
        apply ih hstore
        exact fun e he => haccepts e (List.mem_cons_of_mem _ he)
      · obtain ⟨hafter, -, happended⟩ := cons_of_refuse rest hreceive
        rw [hafter, happended]
        rw [happended] at haccepts
        apply ih (hatomic.refused h happend) haccepts

/-- The granted arrivals alone lead another engine to the same end. -/
structure Retraced (a : Engine σ) (b : Engine τ) (arrivals : List Arrival) : Prop where
  answers : b.answers (a.granted arrivals) = (a.appended arrivals).map .ok
  concurs : (a.after arrivals).Concurs (b.after (a.granted arrivals))

/-- Engines that concur go through the granted arrivals alike, one of them with refusals in between
and the other one without. -/
theorem Concurs.retraced {a : Engine σ} {b : Engine τ} (h : a.Concurs b) (arrivals : List Arrival)
    (hgranted : ∀ answer ∈ b.answers (a.granted arrivals), answer.isOk = true) :
    a.Retraced b arrivals := by
  induction arrivals generalizing a b with
  | nil => exact ⟨rfl, h⟩
  | cons c rest ih =>
      rcases a.receive_cases c with ⟨s, -, hreceive⟩ | ⟨s, err, -, hreceive⟩
      · obtain ⟨hafter, hcalls, happended⟩ := cons_of_ok rest hreceive
        rw [hcalls] at hgranted
        rcases b.receive_cases c with ⟨t, -, hother⟩ | ⟨t, err, -, hother⟩
        · rw [h.nextEntry] at hother
          simp only [answers, hother, Outcome.ok, List.mem_cons, forall_eq_or_imp] at hgranted
          have hrest := ih (h.advanced s t _) hgranted.2
          constructor
          · rw [hcalls, happended, List.map_cons, ← hrest.answers]
            simp only [answers, hother, Outcome.ok]
          · rw [hafter, hcalls, (cons_of_ok _ hother).1]
            exact hrest.concurs
        · simp [answers, hother, Outcome.refuse, Except.isOk, Except.toBool] at hgranted
      · obtain ⟨hafter, hcalls, happended⟩ := cons_of_refuse rest hreceive
        have hconcurs : Engine.Concurs { a with store := s } b :=
          ⟨h.head, h.stampedAt, h.checkpoints, h.progress, h.interval⟩
        rw [hcalls] at hgranted
        have hrest := ih hconcurs hgranted
        constructor
        · rw [hcalls, happended]
          exact hrest.answers
        · rw [hafter, hcalls]
          exact hrest.concurs

theorem Fits.receive {a : Engine σ} {c : Arrival} {rest : List Arrival} (h : a.Fits (c :: rest)) :
    (a.receive c).state.Fits rest := by
  rcases a.receive_cases c with ⟨s, -, hreceive⟩ | ⟨s, err, -, hreceive⟩
  · rw [hreceive]
    exact h.advanced s
  · rw [hreceive]
    exact h.refused s

theorem Fits.after {a : Engine σ} {arrivals later : List Arrival} (h : a.Fits (arrivals ++ later)) :
    (a.after arrivals).Fits later := by
  induction arrivals generalizing a with
  | nil => exact h
  | cons c rest ih => exact ih h.receive

theorem appended_eq_filterMap (a : Engine σ) (arrivals : List Arrival) :
    a.appended arrivals = (a.answers arrivals).filterMap Except.toOption := by
  induction arrivals generalizing a with
  | nil => rfl
  | cons c rest ih =>
      rw [appended, answers, ih]
      cases (a.receive c).result <;> simp [Except.toOption, List.filterMap_cons]

theorem Retraced.holds {a : Engine σ} {b : Engine τ} {arrivals : List Arrival}
    (h : a.Retraced b arrivals) {Holds : τ → List Entry → Prop} {Accepts : Entry → Prop}
    (hatomic : Atomic Holds Accepts) {es : List Entry} (hstore : Holds b.store es)
    (haccepts : ∀ e ∈ a.appended arrivals, Accepts e) :
    Holds (b.after (a.granted arrivals)).store (es ++ a.appended arrivals) := by
  have happended : b.appended (a.granted arrivals) = a.appended arrivals := by
    rw [appended_eq_filterMap, h.answers]
    simp [List.filterMap_map, Function.comp_def, Except.toOption]
  rw [← happended] at haccepts ⊢
  exact holds_after hatomic hstore _ haccepts

/-- A log refuses nothing. -/
theorem isOk_answers_log {b : Engine Log}
    (h : nextId b.store.entries.getLast? = b.head.id + 1) (arrivals : List Arrival) :
    ∀ answer ∈ b.answers arrivals, answer.isOk = true := by
  induction arrivals generalizing b with
  | nil => simp [answers]
  | cons c rest ih =>
      have happend := Log.append_of_id_eq (e := b.nextEntry c.event c.now) h.symm
      rcases b.receive_cases c with ⟨s, hs, hreceive⟩ | ⟨s, err, hs, -⟩
      · rw [happend] at hs
        cases hs
        simp only [answers, hreceive, Outcome.ok, List.mem_cons, forall_eq_or_imp]
        constructor
        · rfl
        · apply ih
          simp [advanced, nextId]
      · rw [happend] at hs
        cases hs

theorem Fits.appended {a : Engine σ} {arrivals : List Arrival} (h : a.Fits arrivals) :
    ∀ e ∈ a.appended arrivals, e.IsWritable := by
  induction arrivals generalizing a with
  | nil => simp [Engine.appended]
  | cons c rest ih =>
      rcases a.receive_cases c with ⟨s, -, hreceive⟩ | ⟨s, err, -, hreceive⟩
      · rw [(cons_of_ok rest hreceive).2.2]
        simp only [List.mem_cons, forall_eq_or_imp]
        exact ⟨h.nextEntry, ih (h.advanced s)⟩
      · rw [(cons_of_refuse rest hreceive).2.2]
        exact ih (h.refused s)

/-- A refused record shows in the store only, if at all. -/
theorem receive_eq_error {a : Engine σ} {c : Arrival} {f : Failure}
    (h : (a.receive c).result = .error f) :
    ∃ err, Store.append a.store (a.nextEntry c.event c.now) =
        ((a.receive c).state.store, .error err) ∧
      (a.receive c).state.Concurs a ∧ (a.receive c).published = [] := by
  rcases a.receive_cases c with ⟨s, -, hreceive⟩ | ⟨s, err, happend, hreceive⟩
  · rw [hreceive] at h
    cases h
  · rw [hreceive]
    exact ⟨err, happend, ⟨rfl, rfl, rfl, rfl, rfl⟩, rfl⟩

end Engine

/-- Over a store whose refused appends change nothing, refused records are invisible. A refused
record leaves the engine's head, stamp, checkpoints and progress and the entries of the store as
they were. The granted records alone are granted by a log with the entries found at first, and
wherever they are all granted they lead to the same engine and the same entries. -/
theorem refusals_invisible {σ : Type} [Store σ] {Holds : σ → List Entry → Prop}
    {Accepts : Entry → Prop} (hatomic : Atomic Holds Accepts) {store : σ} {es : List Entry}
    (hstore : Holds store es) (interval : Nat) (arrivals : List Arrival)
    (haccepts : ∀ a, Engine.open? store interval = .ok a → ∀ e ∈ a.appended arrivals, Accepts e) :
    ∃ a, Engine.open? store interval = .ok a ∧
      Holds (a.after arrivals).store (es ++ a.appended arrivals) ∧
      (∀ c f, ((a.after arrivals).receive c).result = .error f →
        ((a.after arrivals).receive c).state.Concurs (a.after arrivals) ∧
        ((a.after arrivals).receive c).published = [] ∧
        ∀ ds, Holds (a.after arrivals).store ds →
          Holds ((a.after arrivals).receive c).state.store ds) ∧
      (∃ b : Engine Log, Engine.open? ⟨es⟩ interval = .ok b ∧ a.Retraced b arrivals ∧
        (b.after (a.granted arrivals)).store.entries = es ++ a.appended arrivals) ∧
      ∀ {τ : Type} [Store τ] {Holds' : τ → List Entry → Prop} {Accepts' : Entry → Prop},
        Atomic Holds' Accepts' → ∀ other, Holds' other es →
        ∃ b, Engine.open? other interval = .ok b ∧
          ((∀ answer ∈ b.answers (a.granted arrivals), answer.isOk = true) →
            a.Retraced b arrivals ∧
            ((∀ e ∈ a.appended arrivals, Accepts' e) →
              Holds' (b.after (a.granted arrivals)).store (es ++ a.appended arrivals))) := by
  have hlast := hatomic.last hstore
  have hopen := Engine.open?_of_last hlast interval
  have hfirst : Holds (Engine.opened store interval es.getLast?).store es := by
    rw [Engine.store_opened]
    exact hstore
  have hentries := haccepts _ hopen
  refine ⟨_, hopen, Engine.holds_after hatomic hfirst arrivals hentries, ?_, ?_, ?_⟩
  · intro c f hresult
    obtain ⟨err, happend, hconcurs, hpublished⟩ := Engine.receive_eq_error hresult
    exact ⟨hconcurs, hpublished, fun ds hds => hatomic.refused hds happend⟩
  · have hlog : Store.last (⟨es⟩ : Log) = .ok es.getLast? := rfl
    have hretraced := (Engine.concurs_opened store (⟨es⟩ : Log) interval es.getLast?).retraced
      arrivals (Engine.isOk_answers_log (Engine.nextId_opened ⟨es⟩ interval) _)
    refine ⟨_, Engine.open?_of_last hlog interval, hretraced, ?_⟩
    apply hretraced.holds Log.atomic
    · rw [Engine.store_opened]
    · exact fun _ _ => trivial
  · intro τ _ Holds' Accepts' hatomic' other hother
    refine ⟨_, Engine.open?_of_last (hatomic'.last hother) interval, fun hgranted => ?_⟩
    have hretraced := (Engine.concurs_opened store other interval es.getLast?).retraced
      arrivals hgranted
    refine ⟨hretraced, hretraced.holds hatomic' ?_⟩
    rw [Engine.store_opened]
    exact hother

/-- The first of two records does not fit on the disk. -/
theorem refusals_invisible_full_disk :
    ∃ (a : Engine Ledger) (b : Engine Log),
      Engine.open? { outcomes := [.notInserted "no space left"] } 1 = .ok a ∧
      Engine.open? {} 1 = .ok b ∧
      (a.appended [⟨⟨.agentSpawned, "agents", none, .null⟩, ⟨5⟩⟩,
        ⟨⟨.agentPaused, "agents", none, .null⟩, ⟨6⟩⟩]).length = 1 ∧
      a.Retraced b [⟨⟨.agentSpawned, "agents", none, .null⟩, ⟨5⟩⟩,
        ⟨⟨.agentPaused, "agents", none, .null⟩, ⟨6⟩⟩] := by
  have hempty : Ledger.Holds { outcomes := [.notInserted "no space left"] } [] :=
    ⟨trivial, by simp, rfl, rfl⟩
  have hstore : Ledger.Holds { outcomes := [.notInserted "no space left"] } [] ∧
      ∀ outcome ∈ [WriteOutcome.notInserted "no space left"], outcome.isTorn = false :=
    ⟨hempty, by simp [WriteOutcome.isTorn]⟩
  have hopen : ∀ a, Engine.open? ({ outcomes := [.notInserted "no space left"] } : Ledger) 1 =
      .ok a → a = Engine.opened { outcomes := [.notInserted "no space left"] } 1 none := by
    intro a h
    rw [Engine.open?_of_last hempty.shows.last] at h
    exact (Except.ok.inj h).symm
  obtain ⟨a, ha, -, -, ⟨b, hb, hretraced, -⟩, -⟩ :=
    refusals_invisible Ledger.atomic hstore 1
      [⟨⟨.agentSpawned, "agents", none, .null⟩, ⟨5⟩⟩,
        ⟨⟨.agentPaused, "agents", none, .null⟩, ⟨6⟩⟩]
      (by
        intro a ha
        rw [hopen a ha]
        exact Engine.Fits.appended ⟨by decide, by simp [Engine.opened], by decide⟩)
  refine ⟨a, b, ha, hb, ?_, hretraced⟩
  rw [hopen a ha]
  decide +kernel

end AgentGovernance.Audit
