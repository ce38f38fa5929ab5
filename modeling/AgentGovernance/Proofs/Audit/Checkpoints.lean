import AgentGovernance.Proofs.Audit.Divergence

/-!
# Checkpoints

A checkpoint holds the hash of the entry that was recorded under its id. So verifying an entry from
the last checkpoint before it finds what verifying it from genesis finds, as long as the store still
shows what was recorded up to this checkpoint: the links below it hold, and following them leads to
the hash from which the shorter verification sets out. The two differ in where they set out and in
how many entries they look at.
-/
namespace AgentGovernance

namespace Trace.Tampered

/-- Readers see forged entries in the places of those with their ids. -/
theorem replaces_forged {σ : Type} [Store σ] {s : σ} {es : List Entry} (h : Shows s es)
    (hlinked : Linked 1 .genesis es) {forged : Table Nat Entry} {kept : Nat}
    (hkept : ∀ id ≤ kept, forged.find? id = none) :
    Replaces ({ inner := s, forged } : Tampered σ) kept es
      (es.map fun e => (forged.find? e.id).getD e) := by
  have hseen : Tampered.seen { inner := s, forged } =
      some ∘ fun e => (forged.find? e.id).getD e := rfl
  refine ⟨fun first last => ?_, List.length_map _, ?_⟩
  · rw [range_seen h forged ∅ first last, hseen, List.filterMap_eq_map, ← List.map_take,
      ← List.map_drop]
  · rw [← List.map_take]
    refine (List.map_congr_left fun e he => ?_).trans (List.map_id _)
    obtain ⟨i, hi, rfl⟩ := List.mem_iff_getElem.mp he
    rw [List.length_take] at hi
    have hid := ((hlinked.take kept).getElem (by rwa [List.length_take])).1
    rw [hkept _ (by omega)]
    rfl

end Trace.Tampered

namespace Audit

open Trace

namespace Engine

section

variable {σ : Type} {a : Engine σ} {es : List Entry}

/-- The same engine with an empty table of checkpoints. -/
def withoutCheckpoints (a : Engine σ) : Engine σ := { a with checkpoints := ∅ }

@[simp] theorem anchor_withoutCheckpoints (a : Engine σ) (id : Nat) :
    a.withoutCheckpoints.anchor id = .genesis := rfl

/-- A checkpoint is the hash of the entry with its id. -/
theorem Tracks.exists_checkpoint (h : a.Tracks es) {c : Checkpoint} (hc : c ∈ a.checkpointList) :
    ∃ e ∈ es, e.id = c.id ∧ e.hash = c.hash := by
  obtain ⟨⟨id, hash⟩, hp, rfl⟩ := List.mem_map.mp hc
  obtain ⟨hpos, hle, hhash⟩ := h.checkpoints _ hp
  obtain ⟨i, rfl⟩ : ∃ i, id = i + 1 := ⟨id - 1, (Nat.sub_add_cancel hpos).symm⟩
  have hlast : lastHash Checkpoint.genesis.hash (es.take (i + 1)) = es[i].hash := by
    rw [lastHash_take hle, hashBefore, List.getElem?_eq_getElem hle]
    rfl
  refine ⟨es[i], List.getElem_mem hle, ?_, ?_⟩
  · rw [(h.linked.getElem hle).1, Nat.add_comm]
  · rw [← hlast]
    exact hhash.symm

/-! ## Where checkpoints are due -/

/-- The ids among the first few at which checkpoints are due. -/
def dueIds (interval size : Nat) : List Nat := (List.range' 1 size).filter (isCheckpoint interval)

theorem dueIds_succ (interval size : Nat) :
    dueIds interval (size + 1) =
      dueIds interval size ++ if isCheckpoint interval (size + 1) then [size + 1] else [] := by
  rw [dueIds, List.range'_1_concat, List.filter_append, List.filter_singleton, Nat.add_comm 1,
    cond_eq_ite]
  rfl

theorem lt_of_mem_dueIds {interval size id : Nat} (h : id ∈ dueIds interval size) :
    id < size + 1 := by
  have hrange := List.mem_range'_1.mp (List.mem_filter.mp h).1
  omega

/-- An engine that has kept every checkpoint since the first entry. -/
structure Spaced (a : Engine σ) (interval : Nat) : Prop where
  interval_eq : a.interval = interval
  ids : a.checkpointList.map (·.id) = dueIds interval a.size

theorem Spaced.advanced {interval : Nat} (h : a.Spaced interval) (store : σ) {e : Entry}
    (he : e.id = a.size + 1) : (a.advanced store e).Spaced interval := by
  refine ⟨h.interval_eq, ?_⟩
  have hsize : (a.advanced store e).size = a.size + 1 := he
  have hbefore : ∀ p ∈ a.checkpoints.entries, Key.Before p.1 e.id := by
    intro p hp
    have hmem : p.1 ∈ dueIds interval a.size := by
      rw [← h.ids, checkpointList, List.map_map]
      exact List.mem_map_of_mem hp
    have hlt := lt_of_mem_dueIds hmem
    rw [← he] at hlt
    exact hlt
  rw [hsize, dueIds_succ, ← h.ids, ← he]
  simp only [checkpointList, Engine.advanced, h.interval_eq]
  split
  next =>
    simp only [Table.insert, Table.insertEntry_of_before hbefore, List.map_append]
    rfl
  next => rw [List.append_nil]

end

section

variable {σ : Type} [Store σ] {a b : Engine σ}

/-- A record that succeeds moves the engine on to its next entry. -/
theorem step_record_eq_ok {event : Event} {now : Instant}
    (h : a.step (.record event now) = .ok b) :
    ∃ store, b = a.advanced store (a.nextEntry event now) := by
  cases happend : Store.append a.store (a.nextEntry event now) with
  | mk store result =>
      cases result with
      | ok _ =>
          rw [step, record_of_append happend] at h
          exact ⟨store, (Except.ok.inj h).symm⟩
      | error e =>
          simp only [step, record, happend] at h
          cases h

/-- Records alone keep every checkpoint. -/
theorem Spaced.foldlM {interval : Nat} {actions : List Action} (h : a.Spaced interval)
    (hrecords : ∀ x ∈ actions, x.isRecord = true) (hrun : actions.foldlM step a = .ok b) :
    b.Spaced interval := by
  induction actions generalizing a with
  | nil =>
      obtain rfl : a = b := Except.ok.inj hrun
      exact h
  | cons action actions ih =>
      obtain ⟨hfirst, hrest⟩ := List.forall_mem_cons.mp hrecords
      cases action with
      | reopen interval => cases hfirst
      | record event now =>
          rw [List.foldlM_cons] at hrun
          cases hstep : a.step (.record event now) with
          | error e =>
              rw [hstep] at hrun
              cases hrun
          | ok c =>
              rw [hstep] at hrun
              obtain ⟨store, rfl⟩ := step_record_eq_ok hstep
              exact ih (h.advanced store rfl) hrest hrun

/-! ## Setting out from a checkpoint -/

/-- What two reports about an entry say, wherever they set out. -/
structure Agrees (r g : Report) : Prop where
  valid : r.valid = g.valid
  divergence : r.divergence = g.divergence
  reason : r.reason = g.reason

/-- A front that is linked from genesis may be left out when the point behind it takes its place. -/
theorem divergence?_genesis {front : List Entry} {point : Checkpoint}
    (hfront : Linked 1 .genesis front) (hpoint : point = ⟨front.length, lastHash .genesis front⟩)
    (id : Nat) (shown : List Entry) :
    divergence? .genesis id (front ++ shown) = divergence? point id shown := by
  have hfollow : follow (Checkpoint.genesis.id + 1) Checkpoint.genesis.hash (front ++ shown) =
      follow (point.id + 1) point.hash shown := by
    rw [hpoint, Nat.add_comm front.length]
    exact follow_append hfront shown
  rw [divergence?, divergence?, hfollow]

theorem report_agrees {point other : Checkpoint} {id : Nat} {shown all : List Entry}
    (h : divergence? point id shown = divergence? other id all) :
    Agrees (report point id shown) (report other id all) ∧
      (report point id shown).id = (report other id all).id ∧
      (report point id shown).anchor = point.id := by
  unfold report
  rw [h]
  cases divergence? other id all <;> exact ⟨⟨rfl, rfl, rfl⟩, rfl, rfl⟩

/-- Reports about one entry that agree publish one and the same. -/
theorem violation_of_agrees {r g : Report} (h : Agrees r g) (hid : r.id = g.id) :
    violation r = violation g := by
  rw [violation, violation, hid, h.divergence, h.reason]

/-- An entry verifies from its anchor as it does from genesis. -/
structure Shortcuts (a : Engine σ) (id : Nat) : Prop where
  reports : ∃ r g, (a.verify id).result = .ok r ∧ (a.withoutCheckpoints.verify id).result = .ok g ∧
    r.anchor = (a.anchor id).id ∧ g.anchor = 0 ∧ Agrees r g
  published : (a.verify id).published = (a.withoutCheckpoints.verify id).published

theorem shortcuts_of_range {front shown : List Entry} {id : Nat} (hpos : 0 < id)
    (hle : id ≤ a.size) (hfront : Linked 1 .genesis front)
    (hanchor : a.anchor id = ⟨front.length, lastHash .genesis front⟩)
    (hbehind : Store.range a.store ((a.anchor id).id + 1) id = .ok shown)
    (hall : Store.range a.store 1 id = .ok (front ++ shown)) : a.Shortcuts id := by
  have hsame := (divergence?_genesis hfront hanchor id shown).symm
  obtain ⟨hagrees, hid, hfrom⟩ := report_agrees hsame
  obtain ⟨-, -, hgenesis⟩ := report_agrees hsame.symm
  have hshort := verify_eq_of_range hpos hle hbehind
  have hlong := verify_eq_of_range (a := a.withoutCheckpoints) hpos hle hall
  rw [anchor_withoutCheckpoints] at hlong
  refine ⟨⟨_, _, ?_, ?_, hfrom, hgenesis, hagrees⟩, ?_⟩
  · rw [hshort]
  · rw [hlong]
  · rw [hshort, hlong]
    simp only [hagrees.valid, violation_of_agrees hagrees hid]

/-- Entries behind the anchor may have been replaced. -/
theorem Tracks.shortcuts {es shown : List Entry} {id : Nat} (h : a.Tracks es)
    (hshown : Replaces a.store (a.anchor id).id es shown) (hpos : 0 < id) (hle : id ≤ es.length) :
    a.Shortcuts id := by
  obtain ⟨hbefore, hinside, hhash⟩ := h.anchor hpos
  have hsize : id ≤ a.size := by
    rw [size, h.head]
    exact hle
  have hlength : (es.take (a.anchor id).id).length = (a.anchor id).id := by
    rw [List.length_take, Nat.min_eq_left hinside]
  have hparts : es.take (a.anchor id).id ++ (shown.take id).drop (a.anchor id).id =
      shown.take id := by
    rw [← hshown.take, ← Nat.min_eq_left (Nat.le_of_lt hbefore), ← List.take_take,
      Nat.min_eq_left (Nat.le_of_lt hbefore), List.take_append_drop]
  refine shortcuts_of_range hpos hsize (h.linked.take (a.anchor id).id) ?_ (hshown.range _ _) ?_
  · rw [hlength, ← hhash]
  · rw [Nat.add_sub_cancel, hparts, hshown.range]
    rfl

end

end Engine

theorem Fresh.spaced {actions : List Action} {store : Backend} (h : Fresh actions store)
    (interval : Nat) (hrecords : ∀ x ∈ actions, x.isRecord = true) {a : Engine Backend}
    (hrun : Audit.run store interval actions = .ok a) : a.Spaced interval := by
  have hopened : Engine.open? store interval = .ok { store, interval } := by
    cases h <;> rfl
  have hstart : ({ store, interval } : Engine Backend).Spaced interval := ⟨rfl, rfl⟩
  rw [Audit.run, hopened] at hrun
  exact hstart.foldlM hrecords hrun

/-- After a run every checkpoint holds the hash of the entry recorded under its id; when nothing but
records came in, there is one at every multiple of the interval. Verifying an entry sets out from
the largest checkpoint before it. However entries behind this checkpoint are replaced afterwards,
the verification says what it says with an empty table of checkpoints. -/
theorem run_anchored {actions : List Action} {store : Backend} (h : Fresh actions store)
    (interval : Nat) :
    ∃ a, run store interval actions = .ok a ∧
      (∀ c ∈ a.checkpointList, ∃ e ∈ recorded actions, e.id = c.id ∧ e.hash = c.hash) ∧
      ((∀ x ∈ actions, x.isRecord = true) →
        a.checkpointList.map (·.id) = Engine.dueIds interval (recorded actions).length) ∧
      ∀ t, 1 ≤ t → t ≤ (recorded actions).length →
        a.Anchors t (a.anchor t) ∧
        (∀ (τ : Type) [Store τ] (s : τ) (shown : List Entry),
          Replaces s (a.anchor t).id (recorded actions) shown → (a.withStore s).Shortcuts t) ∧
        ∀ forged : Table Nat Entry, (∀ id ≤ (a.anchor t).id, forged.find? id = none) →
          Replaces ({ inner := a.store, forged } : Tampered Backend) (a.anchor t).id
            (recorded actions) ((recorded actions).map fun e => (forged.find? e.id).getD e) := by
  obtain ⟨a, hrun, hshows, htracks⟩ := h.run interval
  have hsize : a.size = (recorded actions).length := by rw [Engine.size, htracks.head]
  refine ⟨a, hrun, fun c => htracks.exists_checkpoint, fun hrecords => ?_, fun t hpos hle => ?_⟩
  · rw [← hsize]
    exact (h.spaced interval hrecords hrun).ids
  · refine ⟨a.anchors_anchor hpos, ?_, fun forged => Tampered.replaces_forged hshows htracks.linked⟩
    intro τ _ s shown hshown
    exact (htracks.withStore s).shortcuts hshown hpos hle

/-- A log in which the last of three entries is overwritten by a copy of the first. -/
def overwrittenLog : Log := ⟨(recorded threeRecords).take 2 ++ (recorded threeRecords).take 1⟩

/-- With a checkpoint at the second entry only the overwritten one is looked at. -/
theorem run_anchored_overwritten :
    ∃ a r g, run (.log {}) 2 threeRecords = .ok (a : Engine Backend) ∧
      a.checkpointList.map (·.id) = [2] ∧
      ((a.withStore overwrittenLog).verify 3).result = .ok r ∧
      ((a.withStore overwrittenLog).withoutCheckpoints.verify 3).result = .ok g ∧
      r = ⟨3, false, 2, 1, some 3, some "expected trace id 3, found 1"⟩ ∧
      g.anchor = 0 ∧ g.valid = false ∧ g.divergence = some 3 ∧
      g.reason = some "expected trace id 3, found 1" := by
  have hfresh : Fresh threeRecords (.log {}) := .log
  obtain ⟨a, hrun, -, hdue, hverify⟩ := run_anchored hfresh 2
  obtain ⟨hanchors, hshortcuts, -⟩ := hverify 3 (by decide) (Nat.le_refl 3)
  have hids : a.checkpointList.map (·.id) = [2] := hdue (by decide)
  have hanchor : (a.anchor 3).id = 2 := by
    obtain ⟨c, hc, hid⟩ : ∃ c ∈ a.checkpointList, c.id = 2 := by
      rw [← List.mem_map, hids]
      exact List.mem_singleton_self 2
    have hle := hanchors.largest c hc (by omega)
    have hlt := hanchors.before
    omega
  have hlength : (recorded threeRecords).length = 3 := rfl
  have hshown : Replaces overwrittenLog (a.anchor 3).id (recorded threeRecords)
      overwrittenLog.entries := by
    rw [hanchor]
    exact ⟨(Log.shows _).range, by simp [overwrittenLog, hlength],
      by simp [overwrittenLog, hlength]⟩
  obtain ⟨⟨r, g, hshort, hlong, -, hgenesis, hagrees⟩, -⟩ := hshortcuts Log _ _ hshown
  have hreport : (run (.log {}) 2 threeRecords).map
      (fun b : Engine Backend => ((b.withStore overwrittenLog).verify 3).result) =
        .ok (.ok ⟨3, false, 2, 1, some 3, some "expected trace id 3, found 1"⟩) := rfl
  rw [hrun] at hreport
  obtain rfl := Except.ok.inj (hshort.symm.trans (Except.ok.inj hreport))
  exact ⟨a, _, g, hrun, hids, hshort, hlong, rfl, hgenesis, hagrees.valid.symm,
    hagrees.divergence.symm, hagrees.reason.symm⟩

end Audit

end AgentGovernance
