import AgentGovernance.Proofs.Trace.Replaying

/-!
# The end of the words

Behind every entry that links, also behind the last one, replaying computes the next id. Behind an
entry with the largest id there is none: a checked sum stops the program there, and a sum that wraps
around lets the segment go on with an entry that has the id 0. Otherwise it does not matter how sums
are computed, and a segment is either accepted or refused.
-/
namespace AgentGovernance.Trace

variable {a : Arithmetic} {id : Nat} {previous hash : ContentHash}

theorem Arithmetic.next?_eq_of_checked {next : Nat} (h : checked.next? id = some next)
    (a : Arithmetic) : a.next? id = some next := by
  unfold next? at h ⊢
  split at h
  next hlt => rw [if_pos hlt, h]
  next => cases h

theorem Arithmetic.next?_checked_eq_none_iff (hword : id < 2 ^ 64) :
    checked.next? id = none ↔ id = 2 ^ 64 - 1 := by
  constructor
  · intro h
    by_cases hlt : id + 1 < 2 ^ 64
    · rw [next?_of_lt hlt] at h
      cases h
    · omega
  · rintro rfl
    rfl

/-! ## Following links with either sum -/

/-- What a checked sum answers, every sum answers. -/
theorem followWith_of_checked {es : List Entry} {r : Except Divergence ContentHash}
    (h : followWith .checked id previous es = some r) (a : Arithmetic) :
    followWith a id previous es = some r := by
  induction es generalizing id previous with
  | nil => exact h
  | cons e es ih =>
      cases hfault : e.linkFault? id previous with
      | some fault =>
          rw [followWith_cons_of_fault hfault] at h ⊢
          exact h
      | none =>
          rw [followWith_cons_of_links hfault, Option.bind_eq_some_iff] at h
          obtain ⟨next, hnext, hrest⟩ := h
          rw [followWith_cons_of_links hfault, Arithmetic.next?_eq_of_checked hnext]
          exact ih hrest

/-- What comes behind accepted entries depends on the id behind the last one. -/
theorem followWith_through {before : List Entry} {e : Entry}
    (h : followWith a id previous (before ++ [e]) = some (.ok hash)) (rest : List Entry) :
    followWith a id previous (before ++ e :: rest) =
      (a.next? e.id).bind fun next => followWith a next e.hash rest := by
  induction before generalizing id previous with
  | nil =>
      obtain ⟨hlinks, -⟩ := followWith_cons_eq_ok_iff.mp h
      obtain ⟨hid, -⟩ := linkFault?_eq_none_iff.mp hlinks
      rw [hid]
      exact followWith_cons_of_links hlinks rest
  | cons d before ih =>
      obtain ⟨hlinks, next, hnext, hrest⟩ := followWith_cons_eq_ok_iff.mp h
      rw [List.cons_append, followWith_cons_of_links hlinks, hnext]
      exact ih hrest

/-- A checked sum stops behind an entry with the largest id that another sum accepts. -/
theorem followWith_checked_eq_none {before : List Entry} {e : Entry} (hlargest : e.id = 2 ^ 64 - 1)
    (h : followWith a id previous (before ++ [e]) = some (.ok hash)) (rest : List Entry) :
    followWith .checked id previous (before ++ e :: rest) = none := by
  induction before generalizing id previous with
  | nil =>
      obtain ⟨hlinks, -⟩ := followWith_cons_eq_ok_iff.mp h
      obtain ⟨hid, -⟩ := linkFault?_eq_none_iff.mp hlinks
      rw [List.nil_append, followWith_cons_of_links hlinks, ← hid, hlargest]
      rfl
  | cons d before ih =>
      obtain ⟨hlinks, next, hnext, hrest⟩ := followWith_cons_eq_ok_iff.mp h
      rw [List.cons_append, followWith_cons_of_links hlinks, Option.bind_eq_none_iff]
      intro checkedNext hchecked
      obtain rfl : next = checkedNext := by
        rw [Arithmetic.next?_eq_of_checked hchecked] at hnext
        exact (Option.some.inj hnext).symm
      exact ih hrest

/-- A checked sum that stops has come behind an entry with the largest id, up to which a sum that
wraps around accepts the entries. -/
theorem exists_largest_of_checked {es : List Entry} (hwords : ∀ e ∈ es, e.id < 2 ^ 64)
    (h : followWith .checked id previous es = none) :
    ∃ before e rest, es = before ++ e :: rest ∧ e.id = 2 ^ 64 - 1 ∧
      followWith .wrapping id previous (before ++ [e]) = some (.ok e.hash) := by
  induction es generalizing id previous with
  | nil => cases h
  | cons d es ih =>
      obtain ⟨hword, hrestWords⟩ := List.forall_mem_cons.mp hwords
      cases hfault : d.linkFault? id previous with
      | some fault =>
          rw [followWith_cons_of_fault hfault] at h
          cases h
      | none =>
          obtain ⟨hid, -⟩ := linkFault?_eq_none_iff.mp hfault
          rw [followWith_cons_of_links hfault] at h
          cases hnext : Arithmetic.checked.next? id with
          | none =>
              have hlargest := (Arithmetic.next?_checked_eq_none_iff (hid ▸ hword)).mp hnext
              refine ⟨[], d, es, rfl, hid.trans hlargest, ?_⟩
              rw [List.nil_append, followWith_cons_of_links hfault, hlargest]
              rfl
          | some next =>
              rw [hnext] at h
              obtain ⟨before, e, rest, rfl, hlargest, haccepted⟩ := ih hrestWords h
              refine ⟨d :: before, e, rest, rfl, hlargest, ?_⟩
              rw [List.cons_append, followWith_cons_of_links hfault,
                Arithmetic.next?_eq_of_checked hnext]
              exact haccepted

/-! ## Segments that reach the largest id -/

/-- A beginning of a segment that is accepted when sums wrap around and ends with the largest id. -/
structure Exhausts (before : List Entry) (e : Entry) : Prop where
  id : e.id = 2 ^ 64 - 1
  accepted : replayWith .wrapping (before ++ [e]) = some (.ok e.hash)

/-- A beginning of a segment sets out where the segment does. -/
theorem replayWith_of_append_eq {first : Entry} {es run rest : List Entry} (hrun : run ≠ [])
    (hes : first :: es = run ++ rest) (a : Arithmetic) :
    replayWith a run =
      (followWith a first.id (replayStart first) run).map
        (Except.mapError Divergence.failure) := by
  obtain ⟨e, run, rfl⟩ := List.exists_cons_of_ne_nil hrun
  obtain ⟨rfl, -⟩ := List.cons.inj hes
  exact replayWith_cons a first run

theorem exhausts_iff {first e : Entry} {es before rest : List Entry}
    (hes : first :: es = before ++ e :: rest) :
    Exhausts before e ↔ e.id = 2 ^ 64 - 1 ∧
      followWith .wrapping first.id (replayStart first) (before ++ [e]) = some (.ok e.hash) := by
  rw [List.append_cons] at hes
  rw [← map_mapError_eq_ok_iff, ← replayWith_of_append_eq (by simp) hes]
  exact ⟨fun h => ⟨h.id, h.accepted⟩, fun h => ⟨h.1, h.2⟩⟩

/-- A segment goes on behind the largest id as the sum goes on. -/
theorem Exhausts.replayWith_wrapping {before : List Entry} {e : Entry} (h : Exhausts before e)
    (rest : List Entry) :
    replayWith .wrapping (before ++ e :: rest) =
      (followWith .wrapping 0 e.hash rest).map (Except.mapError Divergence.failure) := by
  obtain ⟨first, es, hes⟩ := List.exists_cons_of_ne_nil (show before ++ e :: rest ≠ [] by simp)
  obtain ⟨hlargest, haccepted⟩ := (exhausts_iff hes.symm).mp h
  have hthrough := followWith_through haccepted rest
  rw [hes] at hthrough ⊢
  rw [replayWith_cons, hthrough, hlargest]
  rfl

theorem replayWith_checked_eq_none_iff {es : List Entry} (hwords : ∀ e ∈ es, e.id < 2 ^ 64) :
    replayWith .checked es = none ↔
      ∃ before e rest, es = before ++ e :: rest ∧ Exhausts before e := by
  cases es with
  | nil =>
      constructor
      · intro h
        cases h
      · rintro ⟨before, e, rest, hes, -⟩
        cases before <;> cases hes
  | cons first es =>
      rw [replayWith_cons, Option.map_eq_none_iff]
      constructor
      · intro h
        obtain ⟨before, e, rest, hes, hexhausts⟩ := exists_largest_of_checked hwords h
        exact ⟨before, e, rest, hes, (exhausts_iff hes).mpr hexhausts⟩
      · rintro ⟨before, e, rest, hes, hexhausts⟩
        obtain ⟨hlargest, haccepted⟩ := (exhausts_iff hes).mp hexhausts
        rw [hes]
        exact followWith_checked_eq_none hlargest haccepted rest

/-- What replaying answers with checked sums, it answers with every sum. -/
theorem replayWith_of_checked {es : List Entry} {r : Except Failure ContentHash}
    (h : replayWith .checked es = some r) (a : Arithmetic) : replayWith a es = some r := by
  cases es with
  | nil => exact h
  | cons first es =>
      rw [replayWith_cons, Option.map_eq_some_iff] at h ⊢
      obtain ⟨found, hfound, hr⟩ := h
      exact ⟨found, followWith_of_checked hfound a, hr⟩

/-- Replaying accepts a segment or reports where its links break. -/
theorem ok_or_integrityViolation {es : List Entry} {r : Except Failure ContentHash}
    (h : replayWith a es = some r) :
    (∃ hash, r = .ok hash) ∨ ∃ id reason, r = .error (.integrityViolation id reason) := by
  cases es with
  | nil => exact .inl ⟨.genesis, (Option.some.inj h).symm⟩
  | cons first es =>
      rw [replayWith_cons, Option.map_eq_some_iff] at h
      obtain ⟨found, -, rfl⟩ := h
      cases found with
      | ok hash => exact .inl ⟨hash, rfl⟩
      | error d => exact .inr ⟨_, _, rfl⟩

/-- With checked sums replaying stops the program exactly if some beginning of the segment is
accepted and ends with the largest id. If none does, it accepts the segment or reports an integrity
violation, and it does not matter how sums are computed. If one does, a sum that wraps around goes on
as if the id 0 had to follow. -/
theorem replay_overflows {es : List Entry} (hwords : ∀ e ∈ es, e.id < 2 ^ 64) :
    (replayWith .checked es = none ↔
      ∃ before e rest, es = before ++ e :: rest ∧ Exhausts before e) ∧
    ((∀ before e rest, es = before ++ e :: rest → ¬Exhausts before e) →
      ∃ r, (∀ a, replayWith a es = some r) ∧
        ((∃ hash, r = .ok hash) ∨ ∃ id reason, r = .error (.integrityViolation id reason))) ∧
    ∀ before e rest, es = before ++ e :: rest → Exhausts before e →
      replayWith .wrapping es =
        (followWith .wrapping 0 e.hash rest).map (Except.mapError Divergence.failure) := by
  refine ⟨replayWith_checked_eq_none_iff hwords, ?_, ?_⟩
  · intro hnone
    have hruns : replayWith .checked es ≠ none := by
      intro hstops
      obtain ⟨before, e, rest, hes, hexhausts⟩ := (replayWith_checked_eq_none_iff hwords).mp hstops
      exact hnone before e rest hes hexhausts
    obtain ⟨r, hr⟩ := Option.ne_none_iff_exists'.mp hruns
    exact ⟨r, replayWith_of_checked hr, ok_or_integrityViolation hr⟩
  · rintro before e rest rfl hexhausts
    exact hexhausts.replayWith_wrapping rest

def lastWordEntry : Entry :=
  .sealed (2 ^ 64 - 1) .agentPaused "agents" none .genesis .genesis ⟨5⟩

/-- An entry that is linked to the one with the largest id. -/
def zeroEntry : Entry := .sealed 0 .agentResumed "agents" none .genesis lastWordEntry.hash ⟨7⟩

/-- One entry with the largest id stops the program where sums are checked. Where they wrap around,
it is accepted, also with an entry behind it that has the id 0. -/
theorem replay_overflows_lastWordEntry :
    replayWith .checked [lastWordEntry] = none ∧
      replayWith .wrapping [lastWordEntry] = some (.ok lastWordEntry.hash) ∧
      replayWith .checked [lastWordEntry, zeroEntry] = none ∧
      replayWith .wrapping [lastWordEntry, zeroEntry] = some (.ok zeroEntry.hash) := by
  have hexhausts : Exhausts [] lastWordEntry := by
    have hlinks : lastWordEntry.linkFault? lastWordEntry.id lastWordEntry.previous = none :=
      linkFault?_eq_none_iff.mpr ⟨rfl, rfl, rfl⟩
    refine ⟨rfl, replayWith_cons_eq_ok_iff.mpr ?_⟩
    exact followWith_cons_eq_ok_iff.mpr ⟨hlinks, 0, rfl, rfl⟩
  have hwords : ∀ e ∈ [lastWordEntry, zeroEntry], e.id < 2 ^ 64 := by
    intro e he
    simp only [List.mem_cons, List.not_mem_nil, or_false] at he
    rcases he with rfl | rfl <;> decide
  have hfirstWord : ∀ e ∈ [lastWordEntry], e.id < 2 ^ 64 :=
    fun e he => hwords e (List.mem_append_left [zeroEntry] he)
  obtain ⟨hstopsOne, -, -⟩ := replay_overflows hfirstWord
  obtain ⟨hstops, -, hwraps⟩ := replay_overflows hwords
  refine ⟨hstopsOne.mpr ⟨[], _, [], rfl, hexhausts⟩, hexhausts.accepted,
    hstops.mpr ⟨[], _, [zeroEntry], rfl, hexhausts⟩, ?_⟩
  have hlinks : zeroEntry.linkFault? 0 lastWordEntry.hash = none :=
    linkFault?_eq_none_iff.mpr ⟨rfl, rfl, rfl⟩
  rw [hwraps [] lastWordEntry [zeroEntry] rfl hexhausts, map_mapError_eq_ok_iff]
  exact followWith_cons_eq_ok_iff.mpr ⟨hlinks, 1, rfl, rfl⟩

end AgentGovernance.Trace
