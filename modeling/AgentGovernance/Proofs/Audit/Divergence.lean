import AgentGovernance.Proofs.Audit.Tampering

/-!
# The first divergence

What a verification reports when entries of the store were replaced or deleted after they had been
recorded. The entries that the store shows behind the anchor have places, the first of which belongs
to the id behind the anchor. A verification finds the first place whose entry is missing or is not
what belongs there; the id of this place, the number of entries looked at and the published event
all say where it is.
-/
namespace AgentGovernance

/-- What does not hold of all small numbers fails at a first one. -/
theorem exists_first {p : Nat → Prop} {n : Nat} (h : ¬∀ i < n, p i) :
    ∃ i, i < n ∧ (∀ j < i, p j) ∧ ¬p i := by
  induction n with
  | zero => exact absurd (fun i hi => absurd hi (Nat.not_lt_zero i)) h
  | succ n ih =>
      by_cases hbelow : ∀ i < n, p i
      · have hlast : ¬p n := fun hp => h (Nat.forall_lt_succ_right.mpr ⟨hbelow, hp⟩)
        exact ⟨n, Nat.lt_succ_self n, hbelow, hlast⟩
      · obtain ⟨i, hi, hfirst⟩ := ih hbelow
        exact ⟨i, Nat.lt_succ_of_lt hi, hfirst⟩

namespace Trace

/-- The hash that belongs before a place behind a point of the chain: that of the entry before it,
and at the first place that of the point. -/
def hashBefore (point : Checkpoint) (es : List Entry) : Nat → ContentHash
  | 0 => point.hash
  | i + 1 => es[i]?.elim point.hash (·.hash)

/-- The entry at a place is there, has the id of the place, names the hash before it and has a right
hash. -/
def InPlace (point : Checkpoint) (es : List Entry) (i : Nat) : Prop :=
  ∃ e, es[i]? = some e ∧ e.id = point.id + i + 1 ∧ e.previous = hashBefore point es i ∧
    e.recomputeHash = e.hash

variable {point : Checkpoint} {es : List Entry} {n : Nat}

theorem lastHash_take (h : n ≤ es.length) :
    lastHash point.hash (es.take n) = hashBefore point es n := by
  cases n with
  | zero => rfl
  | succ n =>
      have hlast : (es.take (n + 1)).getLast? = some es[n] := by
        rw [List.getLast?_take]
        simp [show n < es.length by omega]
      rw [lastHash_of_getLast? hlast, hashBefore, List.getElem?_eq_getElem h]
      rfl

/-- Entries are linked to a point exactly if each of them is in its place. -/
theorem linked_take_iff (h : n ≤ es.length) :
    Linked (point.id + 1) point.hash (es.take n) ↔ ∀ i < n, InPlace point es i := by
  induction n with
  | zero => simp [Linked]
  | succ n ih =>
      have hlength : (es.take n).length = n := by
        rw [List.length_take]
        omega
      have hid : point.id + 1 + n = point.id + n + 1 := by omega
      rw [List.take_succ_eq_append_getElem h, linked_append, ih (by omega), hlength,
        lastHash_take (by omega), hid, Nat.forall_lt_succ_right]
      simp [Linked, InPlace, List.getElem?_eq_getElem h]

theorem length_of_inPlace (h : ∀ i < n, InPlace point es i) : n ≤ es.length := by
  cases n with
  | zero => exact Nat.zero_le _
  | succ n =>
      obtain ⟨e, he, -⟩ := h n (Nat.lt_succ_self n)
      exact (List.getElem?_eq_some_iff.mp he).choose

/-- An entry that is not in its place does not link there. -/
theorem exists_linkFault? {i : Nat} (hi : i < es.length) (h : ¬InPlace point es i) :
    ∃ fault, es[i].linkFault? (point.id + i + 1) (hashBefore point es i) = some fault := by
  apply Option.ne_none_iff_exists'.mp
  intro hnone
  apply h
  exact ⟨es[i], List.getElem?_eq_getElem hi, linkFault?_eq_none_iff.mp hnone⟩

end Trace

namespace Audit

open Trace

namespace Engine

variable {point : Checkpoint} {id : Nat} {es : List Entry}

/-- The first place that is not as it should be is the divergence, whether there is an entry that
does not link or none at all. -/
theorem divergence?_of_first {i : Nat} (hbefore : ∀ j < i, InPlace point es j)
    (hhere : ¬InPlace point es i) (hlt : point.id + i < id) :
    ∃ fault, divergence? point id es = some ⟨point.id + i + 1, fault⟩ := by
  have hle := length_of_inPlace hbefore
  have hlinked := (linked_take_iff hle).mpr hbefore
  have hid : point.id + 1 + (es.take i).length = point.id + i + 1 := by
    rw [List.length_take, Nat.min_eq_left hle]
    omega
  by_cases hi : i < es.length
  · obtain ⟨fault, hfault⟩ := exists_linkFault? hi hhere
    rw [← lastHash_take hle, ← hid] at hfault
    have hfollow := follow_eq_error hlinked hfault (es.drop (i + 1))
    rw [List.getElem_cons_drop, List.take_append_drop, hid] at hfollow
    exact ⟨fault, by rw [divergence?, hfollow]⟩
  · have hend : es.take i = es := List.take_of_length_le (by omega)
    have hcount : point.id + 1 + es.length = point.id + i + 1 := by omega
    rw [hend] at hlinked
    have hfollow := follow_eq_ok_iff.mpr ⟨hlinked, rfl⟩
    rw [hcount] at hfollow
    refine ⟨.missing (point.id + i + 1), ?_⟩
    rw [divergence?, hfollow]
    exact if_neg (by omega)

/-- What a report and the events published with it say about the entries behind a point, up to the
one with a given id. -/
structure Judges (point : Checkpoint) (id : Nat) (shown : List Entry) (r : Report)
    (published : List Event) : Prop where
  valid_iff : r.valid = true ↔
    shown.length = id - point.id ∧ ∀ i < shown.length, InPlace point shown i
  of_valid : r.valid = true →
    r.checked = id - point.id ∧ r.divergence = none ∧ published = []
  /-- The first place that is not as it should be is named in the report and in one event. -/
  of_invalid : r.valid = false →
    ∃ i, point.id + i < id ∧ (∀ j < i, InPlace point shown j) ∧ ¬InPlace point shown i ∧
      r.checked = i + 1 ∧ r.divergence = some (point.id + i + 1) ∧
      ∃ event, published = [event] ∧ event.type = .auditIntegrityViolation ∧
        event.payload.member? "first_divergence" = some (encode (point.id + i + 1))

theorem report_of_all {shown : List Entry} (hlength : shown.length = id - point.id)
    (hpoint : point.id ≤ id) (hall : ∀ i < shown.length, InPlace point shown i) :
    report point id shown = ⟨id, true, point.id, id - point.id, none, none⟩ := by
  have hlinked := (linked_take_iff (Nat.le_refl _)).mpr hall
  rw [List.take_length] at hlinked
  rw [report, divergence?_eq_none_iff.mpr ⟨hlinked, by omega⟩]

theorem report_of_first {shown : List Entry} {i : Nat} (hbefore : ∀ j < i, InPlace point shown j)
    (hhere : ¬InPlace point shown i) (hlt : point.id + i < id) :
    ∃ reason, report point id shown =
      ⟨id, false, point.id, i + 1, some (point.id + i + 1), some reason⟩ := by
  obtain ⟨fault, hdivergence⟩ := divergence?_of_first hbefore hhere hlt
  have hchecked : point.id + i + 1 - point.id = i + 1 := by omega
  refine ⟨fault.message, ?_⟩
  rw [report, hdivergence]
  simp only [hchecked]

theorem violation_names_divergence (r : Report) :
    (violation r).type = .auditIntegrityViolation ∧
      (violation r).payload.member? "first_divergence" = some (encode r.divergence) :=
  ⟨rfl, rfl⟩

/-- Reports judge rightly, with one event for a broken segment and none for any other. -/
theorem judges_report {shown : List Entry} (hpoint : point.id < id)
    (hlength : shown.length ≤ id - point.id) :
    Judges point id shown (report point id shown)
      (if (report point id shown).valid then [] else [violation (report point id shown)]) := by
  by_cases hall : ∀ i < id - point.id, InPlace point shown i
  · have hfull : shown.length = id - point.id := Nat.le_antisymm hlength (length_of_inPlace hall)
    rw [← hfull] at hall
    rw [report_of_all hfull (Nat.le_of_lt hpoint) hall]
    refine ⟨iff_of_true rfl ⟨hfull, hall⟩, fun _ => ⟨rfl, rfl, rfl⟩, fun hinvalid => ?_⟩
    cases hinvalid
  · obtain ⟨i, hi, hbefore, hhere⟩ := exists_first hall
    have hlt : point.id + i < id := by omega
    obtain ⟨reason, hreport⟩ := report_of_first hbefore hhere hlt
    have hbroken : ¬(shown.length = id - point.id ∧ ∀ i < shown.length, InPlace point shown i) :=
      fun hsound => hhere (hsound.2 i (hsound.1 ▸ hi))
    rw [hreport]
    refine ⟨iff_of_false Bool.false_ne_true hbroken, fun hvalid => ?_, fun _ => ?_⟩
    · cases hvalid
    · exact ⟨i, hlt, hbefore, hhere, rfl, rfl, _, rfl, violation_names_divergence _⟩

/-! ## The anchor -/

/-- Among ids in ascending order, the last one before a bound is the largest before it. -/
theorem le_getLast?_takeWhile {cs : List Checkpoint} (hsorted : cs.Pairwise fun b c => b.id < c.id)
    {c : Checkpoint} (hc : c ∈ cs) (hbefore : c.id < id) :
    ∃ d, (cs.takeWhile (·.id < id)).getLast? = some d ∧ c.id ≤ d.id := by
  induction cs with
  | nil => cases hc
  | cons b cs ih =>
      obtain ⟨hfirst, hrest⟩ := List.pairwise_cons.mp hsorted
      rcases List.mem_cons.mp hc with rfl | hc
      · rw [List.takeWhile_cons_of_pos (by simpa using hbefore), List.getLast?_cons]
        refine ⟨_, rfl, ?_⟩
        cases hlast : (cs.takeWhile (·.id < id)).getLast? with
        | none => exact Nat.le_refl _
        | some d =>
            have hd : d ∈ cs := (List.takeWhile_prefix _).subset (List.mem_of_getLast? hlast)
            exact Nat.le_of_lt (hfirst d hd)
      · obtain ⟨d, hlast, hle⟩ := ih hrest hc
        have hb : b.id < id := Nat.lt_trans (hfirst c hc) hbefore
        rw [List.takeWhile_cons_of_pos (by simpa using hb), List.getLast?_cons, hlast]
        exact ⟨d, rfl, hle⟩

/-- No checkpoint before an entry is behind the anchor. -/
theorem le_anchor (a : Engine τ) {c : Checkpoint} (hc : c ∈ a.checkpointList)
    (hbefore : c.id < id) : c.id ≤ (a.anchor id).id := by
  have hsorted : a.checkpointList.Pairwise fun b c => b.id < c.id :=
    List.pairwise_map.mpr a.checkpoints.sorted
  obtain ⟨d, hlast, hle⟩ := le_getLast?_takeWhile hsorted hc hbefore
  rw [anchor, hlast]
  exact hle

/-- The anchor of an entry is the last checkpoint before it, or genesis where there is none. -/
structure Anchors (a : Engine τ) (id : Nat) (point : Checkpoint) : Prop where
  before : point.id < id
  checkpoint : point = .genesis ∨ point ∈ a.checkpointList
  largest : ∀ c ∈ a.checkpointList, c.id < id → c.id ≤ point.id

theorem anchors_anchor (a : Engine τ) (hpos : 0 < id) : a.Anchors id (a.anchor id) := by
  refine ⟨?_, ?_, fun c => a.le_anchor⟩
  · rcases a.anchor_cases id with hgenesis | ⟨hbefore, -⟩
    · rw [hgenesis]
      exact hpos
    · exact hbefore
  · exact (a.anchor_cases id).imp_right fun h => List.mem_map.mpr ⟨_, h.2, rfl⟩

end Engine

/-- Readers of a segment never see more entries than were recorded in it. -/
theorem range_le {σ : Type} [Store σ] {s : σ} {es : List Entry} (h : Shows s es)
    (forged : Table Nat Entry) (hidden : Table Nat Unit) (point last : Nat) :
    ∃ shown, Store.range ({ inner := s, forged, hidden } : Tampered σ) (point + 1) last = .ok shown ∧
      shown.length ≤ last - point := by
  refine ⟨_, Tampered.range_seen h forged hidden _ _, Nat.le_trans (List.length_filterMap_le _ _) ?_⟩
  rw [List.length_drop, List.length_take]
  omega

/-- Whatever a store shows after a run, verifying an entry looks at the segment behind the last
checkpoint before it and finds the first place there that is not as it should be; what it reports
and publishes names this place. Entries that were replaced or deleted after the run do not make the
segment longer. -/
theorem run_diverges {actions : List Action} {store : Backend} (h : Fresh actions store)
    (interval : Nat) :
    ∃ a, run store interval actions = .ok a ∧
      ∀ t, 1 ≤ t → t ≤ (recorded actions).length →
        a.Anchors t (a.anchor t) ∧
        (∀ (τ : Type) [Store τ] (s : τ) (shown : List Entry),
          Store.range s ((a.anchor t).id + 1) t = .ok shown →
          shown.length ≤ t - (a.anchor t).id →
            ∃ r, ((a.withStore s).verify t).result = .ok r ∧
              Engine.Judges (a.anchor t) t shown r ((a.withStore s).verify t).published) ∧
        ∀ forged hidden, ∃ shown,
          Store.range ({ inner := a.store, forged, hidden } : Tampered Backend)
              ((a.anchor t).id + 1) t = .ok shown ∧
            shown.length ≤ t - (a.anchor t).id := by
  obtain ⟨a, hrun, hshows, htracks⟩ := h.run interval
  refine ⟨a, hrun, fun t hpos hle => ?_⟩
  have hanchors := a.anchors_anchor hpos
  refine ⟨hanchors, ?_, fun forged hidden => range_le hshows forged hidden _ _⟩
  intro τ _ s shown hrange hlength
  have hsize : t ≤ (a.withStore s).size := by
    rw [Engine.size, (htracks.withStore s).head]
    exact hle
  rw [Engine.verify_eq_of_range hpos hsize hrange]
  exact ⟨_, rfl, Engine.judges_report hanchors.before hlength⟩

def threeRecords : List Action :=
  [.record ⟨.agentSpawned, "agents", none, .null⟩ ⟨5⟩,
    .record ⟨.agentPaused, "agents", some "a", .null⟩ ⟨6⟩,
    .record ⟨.agentResumed, "agents", some "a", .null⟩ ⟨7⟩]

/-- The last of three entries is deleted, behind a checkpoint at the second. -/
theorem run_diverges_deleted :
    ∃ a r event, run (.log {}) 2 threeRecords = .ok (a : Engine Backend) ∧ (a.anchor 3).id = 2 ∧
      ((a.withStore (⟨(recorded threeRecords).take 2⟩ : Log)).verify 3).result = .ok r ∧
      ((a.withStore (⟨(recorded threeRecords).take 2⟩ : Log)).verify 3).published = [event] ∧
      event.type = .auditIntegrityViolation ∧ r.valid = false ∧ r.checked = 1 ∧
      r.divergence = some 3 := by
  have hfresh : Fresh threeRecords (.log {}) := .log
  obtain ⟨a, hrun, hverify⟩ := run_diverges hfresh 2
  obtain ⟨hanchors, hjudges, -⟩ := hverify 3 (by decide) (Nat.le_refl 3)
  have hcheckpoints : (run (.log {}) 2 threeRecords).map
      (fun b : Engine Backend => b.checkpointList.map (·.id)) = .ok [2] := rfl
  have hanchor : (a.anchor 3).id = 2 := by
    rw [hrun] at hcheckpoints
    have hids : a.checkpointList.map (·.id) = [2] := Except.ok.inj hcheckpoints
    have hmem : 2 ∈ a.checkpointList.map (·.id) := by
      rw [hids]
      exact List.mem_singleton_self 2
    obtain ⟨c, hc, hid⟩ := List.mem_map.mp hmem
    have hle := hanchors.largest c hc (by omega)
    have hlt := hanchors.before
    omega
  have hrange : Store.range (⟨(recorded threeRecords).take 2⟩ : Log) ((a.anchor 3).id + 1) 3 =
      .ok [] := by
    rw [hanchor]
    rfl
  obtain ⟨r, hresult, hjudged⟩ := hjudges Log _ [] hrange (Nat.zero_le _)
  have hinvalid : r.valid = false := by
    refine Bool.eq_false_iff.mpr fun hvalid => ?_
    have hcount := (hjudged.valid_iff.mp hvalid).1
    rw [hanchor] at hcount
    cases hcount
  obtain ⟨i, hi, -, -, hchecked, hdivergence, event, hpublished, htype, -⟩ :=
    hjudged.of_invalid hinvalid
  rw [hanchor] at hi hdivergence
  obtain rfl : i = 0 := by omega
  exact ⟨a, r, event, hrun, hanchor, hresult, hpublished, htype, hinvalid, hchecked, hdivergence⟩

end Audit

end AgentGovernance
