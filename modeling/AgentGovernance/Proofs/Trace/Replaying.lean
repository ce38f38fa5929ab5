import AgentGovernance.Proofs.Trace.Chain
import Mathlib.Algebra.Group.Nat.Defs
import Mathlib.Algebra.GroupWithZero.Nat
import Mathlib.Data.List.Induction

/-!
# Segments that replay

An entry that links leads on to the word behind its id, and the first one that does not link ends
the replay. As long as there are words behind the ids, a segment is replayed from the point that its
first entry names, which is genesis if this is entry 1. Any run of neighbours cut out of a chain
therefore replays on its own, up to the hash of its last entry.
-/
namespace AgentGovernance.Trace

theorem Arithmetic.next?_of_lt {id : Nat} (h : id + 1 < 2 ^ 64) (a : Arithmetic) :
    a.next? id = some (id + 1) := if_pos h

/-- Only zero is in front of one. -/
theorem Arithmetic.eq_of_next? {a : Arithmetic} {id n : Nat} (h : a.next? id = some (n + 1)) :
    id = n := by
  unfold next? at h
  split at h
  · have hsucc := Option.some.inj h
    omega
  · cases a <;> cases h

/-- The word behind a word, if there is one. -/
theorem Arithmetic.eq_mod_of_next? {a : Arithmetic} {id next : Nat} (hword : id < 2 ^ 64)
    (h : a.next? id = some next) : next = (id + 1) % 2 ^ 64 := by
  unfold next? at h
  split at h
  next hlt =>
    obtain rfl := Option.some.inj h
    exact (Nat.mod_eq_of_lt hlt).symm
  next hge =>
    have hlargest : id + 1 = 2 ^ 64 := by
      change ¬id + 1 < 2 ^ 64 at hge
      omega
    cases a with
    | checked => cases h
    | wrapping =>
        obtain rfl := Option.some.inj h
        rw [hlargest, Nat.mod_self]

variable {a : Arithmetic} {id : Nat} {previous hash : ContentHash}

/-! ## Following links -/

theorem followWith_cons_of_fault {e : Entry} {fault : LinkFault}
    (h : e.linkFault? id previous = some fault) (es : List Entry) :
    followWith a id previous (e :: es) = some (.error ⟨id, fault⟩) := by
  rw [followWith, h]

theorem followWith_cons_of_links {e : Entry} (h : e.linkFault? id previous = none)
    (es : List Entry) :
    followWith a id previous (e :: es) =
      (a.next? id).bind fun next => followWith a next e.hash es := by
  rw [followWith, h]
  cases a.next? id <;> rfl

/-- Following goes through an entry if it links and the rest follows from there. -/
theorem followWith_cons_eq_ok_iff {e : Entry} {es : List Entry} :
    followWith a id previous (e :: es) = some (.ok hash) ↔
      e.linkFault? id previous = none ∧
        ∃ next, a.next? id = some next ∧ followWith a next e.hash es = some (.ok hash) := by
  cases hfault : e.linkFault? id previous with
  | some fault =>
      rw [followWith_cons_of_fault hfault]
      constructor
      · intro h
        cases h
      · intro h
        cases h.1
  | none =>
      rw [followWith_cons_of_links hfault, Option.bind_eq_some_iff]
      exact (and_iff_right rfl).symm

/-- What stands behind some entries follows from where these have led. -/
theorem followWith_append_eq_ok (before : List Entry) {es : List Entry}
    (h : followWith a id previous (before ++ es) = some (.ok hash)) :
    ∃ next reached, followWith a next reached es = some (.ok hash) := by
  induction before generalizing id previous with
  | nil => exact ⟨id, previous, h⟩
  | cons e before ih =>
      obtain ⟨-, next, -, hrest⟩ := followWith_cons_eq_ok_iff.mp h
      exact ih hrest

/-- Behind linked entries the links are followed from where these have led, as long as the ids
behind them are words. -/
theorem followWith_append {before : List Entry} (h : Linked id previous before)
    (hlt : id + before.length < 2 ^ 64) (a : Arithmetic) (es : List Entry) :
    followWith a id previous (before ++ es) =
      followWith a (id + before.length) (lastHash previous before) es := by
  induction before generalizing id previous with
  | nil => rfl
  | cons e before ih =>
      obtain ⟨hid, hprevious, hhash, hrest⟩ := h
      rw [List.length_cons] at hlt ⊢
      have hlength : id + 1 + before.length = id + (before.length + 1) := by omega
      have hlinks := linkFault?_eq_none_iff.mpr ⟨hid, hprevious, hhash⟩
      have hnext := Arithmetic.next?_of_lt (show id + 1 < 2 ^ 64 by omega) a
      rw [List.cons_append, followWith_cons_of_links hlinks, hnext, Option.bind_some,
        ih hrest (by omega), hlength]
      rfl

/-! ## Replaying -/

/-- Where the replay of a segment sets out: at the point its first entry names, but at genesis if
that is entry 1. -/
def replayStart (first : Entry) : ContentHash := if first.id = 1 then .genesis else first.previous

/-- A segment that is linked to a point of a chain sets out from this point. -/
theorem replayStart_of_linked {e : Entry} {es : List Entry} (h : Linked id previous (e :: es))
    (hfirst : id = 1 → previous = .genesis) : e.id = id ∧ replayStart e = previous := by
  obtain ⟨hid, hprevious, -⟩ := h
  refine ⟨hid, ?_⟩
  unfold replayStart
  split
  next hone =>
    have hstart := hfirst (hid.symm.trans hone)
    exact hstart.symm
  next => exact hprevious

theorem replayWith_cons (a : Arithmetic) (e : Entry) (es : List Entry) :
    replayWith a (e :: es) =
      (followWith a e.id (replayStart e) (e :: es)).map (Except.mapError Divergence.failure) := rfl

theorem map_mapError_eq_ok_iff {r : Option (Except Divergence ContentHash)} :
    r.map (Except.mapError Divergence.failure) = some (.ok hash) ↔ r = some (.ok hash) := by
  cases r with
  | none => simp
  | some r => cases r <;> simp [Except.mapError]

theorem replayWith_cons_eq_ok_iff {e : Entry} {es : List Entry} :
    replayWith a (e :: es) = some (.ok hash) ↔
      followWith a e.id (replayStart e) (e :: es) = some (.ok hash) := by
  rw [replayWith_cons, map_mapError_eq_ok_iff]

/-- A segment that begins with linked entries is replayed up to their end and goes on from there, as
long as the ids behind them are words. -/
theorem replayWith_append {run : List Entry} (hrun : run ≠ []) (h : Linked id previous run)
    (hfirst : id = 1 → previous = .genesis) (hlt : id + run.length < 2 ^ 64) (a : Arithmetic)
    (es : List Entry) :
    replayWith a (run ++ es) =
      (followWith a (id + run.length) (lastHash previous run) es).map
        (Except.mapError Divergence.failure) := by
  obtain ⟨e, rest, rfl⟩ := List.exists_cons_of_ne_nil hrun
  obtain ⟨hid, hstart⟩ := replayStart_of_linked h hfirst
  have hwhole := replayWith_cons a e (rest ++ es)
  rw [hid, hstart, ← List.cons_append, followWith_append h hlt] at hwhole
  exact hwhole

/-! ## Neighbours -/

/-- The ids of linked entries count on. -/
theorem Linked.map_id {es : List Entry} (h : Linked id previous es) :
    es.map (·.id) = List.range' id es.length := by
  induction es generalizing id previous with
  | nil => rfl
  | cons e es ih =>
      obtain ⟨hid, -, -, hrest⟩ := h
      rw [List.map_cons, List.length_cons, List.range'_succ, hid, ih hrest]

/-- Neighbours in a chain are linked on their own, and to genesis if they set out with entry 1. -/
theorem Linked.of_infix {es segment : List Entry} (h : Linked 1 .genesis es)
    (hsegment : segment <:+: es) :
    ∃ id previous, Linked id previous segment ∧ (id = 1 → previous = .genesis) := by
  obtain ⟨before, behind, rfl⟩ := hsegment
  refine ⟨_, _, (linked_append.mp (linked_append.mp h).1).2, fun hlength => ?_⟩
  have hnil : before = [] := List.eq_nil_of_length_eq_zero (by omega)
  rw [hnil]
  rfl

/-- Linked entries replay on their own if the ids behind them are words. -/
theorem Linked.replayWith_eq {es : List Entry} (h : Linked id previous es)
    (hfirst : id = 1 → previous = .genesis) (hids : ∀ e ∈ es, e.id < 2 ^ 64 - 1)
    (a : Arithmetic) :
    replayWith a es = some (.ok (es.getLast?.elim .genesis (·.hash))) := by
  cases es using List.reverseRecOn with
  | nil => rfl
  | append_singleton es e =>
      have hid : e.id = id + es.length := (linked_append.mp h).2.1
      have hlt : id + (es ++ [e]).length < 2 ^ 64 := by
        have hword := hids e (by simp)
        rw [List.length_append, List.length_singleton]
        omega
      have hwhole := replayWith_append (by simp) h hfirst hlt a []
      rw [List.append_nil] at hwhole
      rw [hwhole, followWith, List.getLast?_concat, lastHash_append]
      rfl

/-- Neighbours in a chain replay on their own, from wherever they start. -/
theorem Linked.replayWith_infix {es segment : List Entry} (h : Linked 1 .genesis es)
    (hsegment : segment <:+: es) (hids : ∀ e ∈ segment, e.id < 2 ^ 64 - 1) (a : Arithmetic) :
    replayWith a segment = some (.ok (segment.getLast?.elim .genesis (·.hash))) := by
  obtain ⟨_, _, hlinked, hfirst⟩ := h.of_infix hsegment
  exact hlinked.replayWith_eq hfirst hids a

end AgentGovernance.Trace
