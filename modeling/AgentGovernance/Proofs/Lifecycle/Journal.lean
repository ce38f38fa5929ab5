import AgentGovernance.Proofs.Lifecycle.Pending
import AgentGovernance.Proofs.Registry
import Mathlib.Data.List.InsertIdx
import Mathlib.Data.List.Perm.Basic

/-!
# The journal of a lifecycle

The policy authority is an agreement registry here, whose agreements may be replaced or revoked and
which may go offline at any time. Everyone else replies as they like.

The run keeps a journal of parts of calls. A part is what a call does from one wait to the next, and
remembers which call it belongs to, what it found and what set it going; what it came to follows.
The parts of one call are a chain, whatever other calls do in between: the first begins the call,
and each of the others goes on from the reply that the one before it waits for.
-/
namespace AgentGovernance.Lifecycle

/-! ## Parts of calls -/

/-- What sets a part of a call going. -/
inductive Input where
  | begins (o : Operation) (tick : Nat)
  | goesOn (c : Call) (others : (q : Request) → q.Reply) (fresh : Uuid)

/-- A part of a call, with the agents and agreements that it found. -/
structure Part where
  /-- Calls are numbered as they begin. -/
  number : Nat
  manager : Lifecycle
  registry : Registry
  now : Instant
  input : Input

namespace Part

def outcome (p : Part) : Outcome Lifecycle Progress :=
  match p.input with
  | .begins o tick => p.manager.start tick p.now o
  | .goesOn c others fresh =>
      p.manager.resume fresh p.now c (p.registry.replies others p.now c.request)

/-- What a part replies to. -/
def cause? (p : Part) : Option Cause :=
  match p.input with
  | .begins _ _ => none
  | .goesOn c others _ => some ⟨c, p.registry.replies others p.now⟩

def fresh? (p : Part) : Option Uuid :=
  match p.input with
  | .begins _ _ => none
  | .goesOn _ _ fresh => some fresh

/-- The call that waits when a part is done. -/
def call? (p : Part) : Option Call :=
  match p.outcome.result with
  | .ok (.waiting c) => some c
  | _ => none

/-- What a part asks of a collaborator in the end. -/
def request? (p : Part) : Option Request := p.call?.map Call.request

/-- The execution that a part asks the kernel for. -/
def execution? (p : Part) : Option Execution :=
  match p.call? with
  | some (.executing e) => some e
  | _ => none

variable {p : Part} {c : Call} {e : Execution}

theorem call?_eq_some_iff : p.call? = some c ↔ p.outcome.result = .ok (.waiting c) := by
  unfold call?
  split
  next d hd => simp [hd]
  next hnot => exact ⟨nofun, fun h => absurd h (hnot c)⟩

theorem execution?_eq_some_iff : p.execution? = some e ↔ p.call? = some (.executing e) := by
  unfold execution?
  split
  next f hf => simp [hf]
  next hnot => exact ⟨nofun, fun h => absurd h (hnot e)⟩

/-- The kernel is asked to execute something only on behalf of an execution. -/
theorem execution?_of_request? {handle : KernelHandle} {intent : String} {params : Json}
    (h : p.request? = some (.execute handle intent params)) :
    ∃ e, p.execution? = some e ∧ e.handle = handle ∧ e.intent.name = intent ∧
      e.intent.params = params := by
  obtain ⟨c, hc, hrequest⟩ := Option.map_eq_some_iff.mp h
  cases c with
  | executing e =>
      cases hrequest
      exact ⟨e, execution?_eq_some_iff.mpr hc, rfl, rfl, rfl⟩
  | spawning | attaching | judging | snapshotting | recovering | terminating => cases hrequest

theorem move (p : Part) (hm : p.manager.Keyed) :
    Move p.cause? p.fresh? p.manager p.outcome.state p.outcome.published := by
  unfold outcome cause? fresh?
  split
  next o tick _ => exact start_move hm tick p.now o
  next c others fresh _ => exact resume_move hm fresh p.now c _

end Part

/-! ## The parts of one call -/

/-- The parts of a call, the last one first. -/
inductive History : List Part → Prop
  | begins {p : Part} {o : Operation} {tick : Nat} : p.input = .begins o tick → History [p]
  | goesOn {p q : Part} {ps : List Part} {c : Call} {others : (q : Request) → q.Reply}
      {fresh : Uuid} :
      History (q :: ps) → q.call? = some c → p.input = .goesOn c others fresh →
      History (p :: q :: ps)

namespace History

variable {p : Part} {ps later earlier : List Part}

theorem of_cons (h : History (p :: ps)) (hps : ps ≠ []) : History ps := by
  cases h with
  | begins => exact absurd rfl hps
  | goesOn hearlier => exact hearlier

theorem of_append (h : History (later ++ p :: earlier)) : History (p :: earlier) := by
  induction later with
  | nil => exact h
  | cons q later ih => exact ih (h.of_cons (by simp))

/-- A part after which nothing waits is the last. -/
theorem eq_nil_of_call? (h : History (later ++ p :: earlier)) (hp : p.call? = none) :
    later = [] := by
  cases later using List.reverseRecOn with
  | nil => rfl
  | append_singleton later q =>
    rw [List.append_assoc] at h
    cases h.of_append with
    | goesOn _ hwaiting =>
        rw [hp] at hwaiting
        cases hwaiting

end History

/-! ## Runs -/

/-- A call that waits, with its number. -/
structure Ticket where
  number : Nat
  call : Call

/-- A lifecycle and a registry, with the journal of what has happened, the last part first. -/
structure Governed where
  manager : Lifecycle := {}
  registry : Registry := {}
  waiting : List Ticket := []
  begun : Nat := 0
  journal : List Part := []

/-- The parts of one call. -/
def partsOf (journal : List Part) (number : Nat) : List Part :=
  journal.filter (·.number = number)

/-- What the kernel has been asked to execute for one call. -/
def executionsOf (journal : List Part) (number : Nat) : List Execution :=
  (partsOf journal number).filterMap Part.execution?

namespace Governed

inductive Action where
  | start (o : Operation) (tick : Nat) (now : Instant)
  /-- The reply to the call at a place among those that wait. What a registry is asked it answers at
  that moment. -/
  | reply (place : Nat) (others : (q : Request) → q.Reply) (fresh : Uuid) (now : Instant)
  | abandon (place : Nat)
  | register (agreement : Agreement)
  | revoke (agreement : AgreementRef)
  | switch (isOffline : Bool)

def withoutWaiting (s : Governed) (place : Nat) : Governed :=
  { s with waiting := s.waiting.eraseIdx place }

def takeUp (s : Governed) (p : Part) : Governed :=
  { s with
    manager := p.outcome.state
    waiting := s.waiting ++ (p.call?.map (⟨p.number, ·⟩)).toList
    journal := p :: s.journal }

/-- A part that is taken up now. -/
def part (s : Governed) (number : Nat) (now : Instant) (input : Input) : Part :=
  ⟨number, s.manager, s.registry, now, input⟩

def step (s : Governed) : Action → Governed
  | .start o tick now =>
      { s with begun := s.begun + 1 }.takeUp (s.part s.begun now (.begins o tick))
  | .reply place others fresh now =>
      match s.waiting[place]? with
      | none => s
      | some t =>
          (s.withoutWaiting place).takeUp (s.part t.number now (.goesOn t.call others fresh))
  | .abandon place => s.withoutWaiting place
  | .register agreement => { s with registry := s.registry.register agreement }
  | .revoke agreement => { s with registry := (s.registry.revoke agreement).1 }
  | .switch isOffline => { s with registry := { s.registry with isOffline } }

/-- The state after some actions, of a lifecycle and a registry that start empty. -/
def after (actions : List Action) : Governed := actions.foldl step {}

theorem after_concat (actions : List Action) (a : Action) :
    after (actions ++ [a]) = (after actions).step a := by
  simp [after]

/-- What the parts have published, in their order. -/
def published (s : Governed) : List Event := s.journal.reverse.flatMap (·.outcome.published)

/-! ## What the lifecycle sees -/

/-- What an action is to the lifecycle. -/
def seen (s : Governed) : Action → List Lifecycle.Action
  | .start o tick now => [.start o tick now]
  | .reply place others fresh now => [.reply place (s.registry.replies others now) fresh now]
  | .abandon place => [.abandon place]
  | .register _ | .revoke _ | .switch _ => []

/-- A run of the lifecycle that has come to the same agents, calls and events. -/
structure Mirrors (s : Governed) (r : Run) : Prop where
  manager : r.manager = s.manager
  pending : r.pending = s.waiting.map Ticket.call
  published : r.published = s.published

theorem Mirrors.takeUp {s : Governed} {r : Run} (h : s.Mirrors r) {p : Part}
    {o : Outcome Lifecycle Progress} (ho : o = p.outcome)
    (toAnswer : Except Failure Result → Answer) :
    (s.takeUp p).Mirrors (r.takeOver toAnswer o) := by
  subst ho
  refine ⟨Run.takeOver_manager _ _ _, ?_, ?_⟩
  · simp only [Run.takeOver, Governed.takeUp, Part.call?, List.map_append, ← h.pending]
    split <;> simp [Run.answer, *]
  · simp [Governed.published, Governed.takeUp, h.published]

theorem Mirrors.withoutWaiting {s : Governed} {r : Run} (h : s.Mirrors r) (place : Nat) :
    (s.withoutWaiting place).Mirrors (r.withoutPending place) := by
  refine ⟨h.manager, ?_, h.published⟩
  simp [Run.withoutPending, Governed.withoutWaiting, h.pending, List.eraseIdx_map]

theorem Mirrors.step {s : Governed} {r : Run} (h : s.Mirrors r) (a : Action) :
    (s.step a).Mirrors ((s.seen a).foldl Run.step r) := by
  cases a with
  | start o tick now =>
      have hopen : Mirrors { s with begun := s.begun + 1 } r := ⟨h.manager, h.pending, h.published⟩
      have hpart : r.manager.start tick now o = (s.part s.begun now (.begins o tick)).outcome := by
        rw [h.manager]
        rfl
      exact hopen.takeUp hpart _
  | reply place others fresh now =>
      simp only [Governed.step, seen, List.foldl_cons, List.foldl_nil, Run.step, h.pending,
        List.getElem?_map]
      cases ht : s.waiting[place]? with
      | none => exact h
      | some t =>
          refine (h.withoutWaiting place).takeUp ?_ _
          rw [h.manager]
          rfl
  | abandon place =>
      simp only [Governed.step, seen, List.foldl_cons, List.foldl_nil, Run.step, h.pending,
        List.getElem?_map]
      cases ht : s.waiting[place]? with
      | none =>
          have hsame : s.withoutWaiting place = s := by
            rw [Governed.withoutWaiting,
              List.eraseIdx_of_length_le (List.getElem?_eq_none_iff.mp ht)]
          rw [hsame]
          exact h
      | some t =>
          exact ⟨h.manager, (h.withoutWaiting place).pending, h.published⟩
  | register | revoke | switch => exact ⟨h.manager, h.pending, h.published⟩

theorem exists_mirrors (actions : List Action) :
    ∃ as, (after actions).Mirrors (Run.after as) := by
  induction actions using List.reverseRecOn with
  | nil => exact ⟨[], rfl, rfl, rfl⟩
  | append_singleton actions a ih =>
      obtain ⟨as, h⟩ := ih
      refine ⟨as ++ (after actions).seen a, ?_⟩
      rw [after_concat, Run.after, List.foldl_append]
      exact h.step a

/-! ## The invariant -/

/-- The parts of every call are a chain, and a call that waits does so after its last part. -/
structure Orderly (s : Governed) : Prop where
  keyed : s.manager.Keyed
  found : ∀ p ∈ s.journal, p.manager.Keyed
  numbered : ∀ p ∈ s.journal, p.number < s.begun
  history : ∀ number, partsOf s.journal number ≠ [] → History (partsOf s.journal number)
  waiting : ∀ t ∈ s.waiting, ∃ p ps, partsOf s.journal t.number = p :: ps ∧ p.call? = some t.call
  apart : (s.waiting.map Ticket.number).Nodup

end Governed

theorem mem_partsOf_iff {p : Part} {journal : List Part} {number : Nat} :
    p ∈ partsOf journal number ↔ p ∈ journal ∧ p.number = number := by
  simp [partsOf]

theorem partsOf_cons_self (p : Part) (journal : List Part) :
    partsOf (p :: journal) p.number = p :: partsOf journal p.number := by
  simp [partsOf]

theorem partsOf_cons_ne {p : Part} {number : Nat} (h : p.number ≠ number) (journal : List Part) :
    partsOf (p :: journal) number = partsOf journal number := by
  simp [partsOf, h]

namespace Governed

variable {s : Governed}

theorem Orderly.empty : Orderly {} where
  keyed := keyed_empty
  found _ h := absurd h List.not_mem_nil
  numbered _ h := absurd h List.not_mem_nil
  history _ h := absurd rfl h
  waiting _ h := absurd h List.not_mem_nil
  apart := List.nodup_nil

theorem Orderly.number_lt (h : Orderly s) {t : Ticket} (ht : t ∈ s.waiting) :
    t.number < s.begun := by
  obtain ⟨p, ps, hparts, -⟩ := h.waiting t ht
  obtain ⟨hp, hnumber⟩ := mem_partsOf_iff.mp (hparts ▸ List.mem_cons_self : p ∈ partsOf _ _)
  rw [← hnumber]
  exact h.numbered p hp

theorem Orderly.withoutWaiting (h : Orderly s) (place : Nat) : Orderly (s.withoutWaiting place) where
  keyed := h.keyed
  found := h.found
  numbered := h.numbered
  history := h.history
  waiting t ht := h.waiting t (List.mem_of_mem_eraseIdx ht)
  apart := h.apart.sublist ((List.eraseIdx_sublist _ _).map _)

/-- When a call has been taken up, nothing else waits for it. -/
theorem Orderly.number_ne (h : Orderly s) {place : Nat} {t : Ticket}
    (ht : s.waiting[place]? = some t) :
    ∀ u ∈ (s.withoutWaiting place).waiting, u.number ≠ t.number := by
  obtain ⟨hplace, rfl⟩ := List.getElem?_eq_some_iff.mp ht
  have hapart := ((List.getElem_cons_eraseIdx_perm hplace).map Ticket.number).nodup_iff.mpr h.apart
  rw [List.map_cons, List.nodup_cons] at hapart
  exact fun u hu hsame => hapart.1 (hsame ▸ List.mem_map_of_mem hu)

/-- A part that goes on with the history of its call, while nothing else waits for that call. -/
theorem Orderly.takeUp (h : Orderly s) {p : Part} (hkeyed : p.manager.Keyed)
    (hbegun : p.number < s.begun) (hhistory : History (p :: partsOf s.journal p.number))
    (hfree : ∀ t ∈ s.waiting, t.number ≠ p.number) : Orderly (s.takeUp p) where
  keyed := (p.move hkeyed).keyed hkeyed
  found := List.forall_mem_cons.mpr ⟨hkeyed, h.found⟩
  numbered := List.forall_mem_cons.mpr ⟨hbegun, h.numbered⟩
  history number hsome := by
    by_cases hnumber : p.number = number
    · subst hnumber
      exact (partsOf_cons_self p s.journal).symm ▸ hhistory
    · have hsame : partsOf (s.takeUp p).journal number = partsOf s.journal number :=
        partsOf_cons_ne hnumber s.journal
      rw [hsame] at hsome ⊢
      exact h.history number hsome
  waiting t ht := by
    rcases List.mem_append.mp ht with ht | ht
    · obtain ⟨q, qs, hparts, hcall⟩ := h.waiting t ht
      refine ⟨q, qs, ?_, hcall⟩
      exact (partsOf_cons_ne (hfree t ht).symm s.journal).trans hparts
    · simp only [Option.mem_toList, Option.map_eq_some_iff] at ht
      obtain ⟨c, hc, rfl⟩ := ht
      exact ⟨p, _, partsOf_cons_self p s.journal, hc⟩
  apart := by
    rw [Governed.takeUp, List.map_append]
    cases p.call? with
    | none => simpa using h.apart
    | some c =>
        refine List.nodup_append.mpr ⟨h.apart, List.nodup_singleton _, ?_⟩
        rintro _ hm _ hn rfl
        obtain ⟨t, ht, rfl⟩ := List.mem_map.mp hm
        exact hfree t ht (by simpa using hn)

theorem Orderly.step (h : Orderly s) (a : Action) : Orderly (s.step a) := by
  cases a with
  | start o tick now =>
      have hnew : partsOf s.journal s.begun = [] := by
        refine List.eq_nil_iff_forall_not_mem.mpr fun p hp => ?_
        obtain ⟨hp, hnumber⟩ := mem_partsOf_iff.mp hp
        exact absurd hnumber (Nat.ne_of_lt (h.numbered p hp))
      have hopen : Orderly { s with begun := s.begun + 1 } :=
        ⟨h.keyed, h.found, fun p hp => Nat.lt_succ_of_lt (h.numbered p hp), h.history, h.waiting,
          h.apart⟩
      refine hopen.takeUp h.keyed (Nat.lt_succ_self _) ?_ ?_
      · have hparts : partsOf s.journal (s.part s.begun now (.begins o tick)).number = [] := hnew
        rw [hparts]
        exact .begins rfl
      · exact fun t ht => Nat.ne_of_lt (h.number_lt ht)
  | reply place others fresh now =>
      simp only [Governed.step]
      split
      · exact h
      next t hplace =>
        have ht := List.mem_of_getElem? hplace
        refine (h.withoutWaiting place).takeUp h.keyed (h.number_lt ht) ?_ ?_
        · obtain ⟨q, qs, hparts, hcall⟩ := h.waiting t ht
          have hearlier := h.history t.number (by simp [hparts])
          change History (_ :: partsOf s.journal t.number)
          rw [hparts] at hearlier ⊢
          exact .goesOn hearlier hcall rfl
        · exact h.number_ne hplace
  | abandon place => exact h.withoutWaiting place
  | register | revoke | switch =>
      exact ⟨h.keyed, h.found, h.numbered, h.history, h.waiting, h.apart⟩

theorem after_orderly (actions : List Action) : Orderly (after actions) := by
  induction actions using List.reverseRecOn with
  | nil => exact .empty
  | append_singleton actions a ih =>
      rw [after_concat]
      exact ih.step a

/-- What has happened in the call of a part, up to it. -/
theorem Orderly.history_at (h : Orderly s) {p : Part} {later earlier : List Part}
    (hjournal : s.journal = later ++ p :: earlier) :
    History (partsOf later p.number ++ p :: partsOf earlier p.number) := by
  have hparts : partsOf s.journal p.number =
      partsOf later p.number ++ p :: partsOf earlier p.number := by
    rw [hjournal, partsOf, List.filter_append]
    exact congrArg _ (partsOf_cons_self p earlier)
  rw [← hparts]
  exact h.history p.number (by simp [hparts])

end Governed

end AgentGovernance.Lifecycle
