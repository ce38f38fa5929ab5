import AgentGovernance.Proofs.Audit.Run

/-!
# Verification

Verifying an entry follows the links from the anchor, which is a point of the recorded chain, to the
entry. It depends on what the store shows there and on nothing else; a segment is valid when it is
complete and linked to the anchor.
-/
namespace AgentGovernance.Audit.Engine

open Trace

section

variable {σ : Type}

/-- The anchor is genesis or a checkpoint before the entry. -/
theorem anchor_cases (a : Engine σ) (id : Nat) :
    a.anchor id = .genesis ∨
      (a.anchor id).id < id ∧ ((a.anchor id).id, (a.anchor id).hash) ∈ a.checkpoints.entries := by
  unfold anchor
  cases hlast : (a.checkpointList.takeWhile (·.id < id)).getLast? with
  | none => exact .inl rfl
  | some c =>
      have hmem := List.mem_of_getLast? hlast
      have hbefore : c.id < id := by
        have hall := List.all_takeWhile (p := fun c : Checkpoint => c.id < id) (l := a.checkpointList)
        simpa using List.all_eq_true.mp hall c hmem
      have hkept : c ∈ a.checkpointList := (List.takeWhile_prefix _).subset hmem
      obtain ⟨p, hp, rfl⟩ := List.mem_map.mp hkept
      exact .inr ⟨hbefore, hp⟩

/-- The anchor of an entry is a point of the chain before it. -/
theorem Tracks.anchor {a : Engine σ} {es : List Entry} (h : a.Tracks es) {id : Nat}
    (hid : 0 < id) :
    (a.anchor id).id < id ∧ (a.anchor id).id ≤ es.length ∧
      (a.anchor id).hash = lastHash .genesis (es.take (a.anchor id).id) := by
  rcases a.anchor_cases id with hgenesis | ⟨hbefore, hmem⟩
  · rw [hgenesis]
    exact ⟨hid, Nat.zero_le _, rfl⟩
  · obtain ⟨-, hle, hhash⟩ := h.checkpoints _ hmem
    exact ⟨hbefore, hle, hhash⟩

theorem divergence?_eq_none_iff {anchor : Checkpoint} {id : Nat} {entries : List Entry} :
    divergence? anchor id entries = none ↔
      Linked (anchor.id + 1) anchor.hash entries ∧ anchor.id + entries.length = id := by
  unfold divergence?
  constructor
  · intro h
    split at h
    · cases h
    next next hash hfollow =>
      obtain ⟨hlinked, hend⟩ := follow_eq_ok_iff.mp hfollow
      rw [Prod.mk.injEq] at hend
      split at h
      next hnext => exact ⟨hlinked, by omega⟩
      next => cases h
  · rintro ⟨hlinked, hlength⟩
    rw [follow_eq_ok_iff.mpr ⟨hlinked, rfl⟩]
    dsimp only
    rw [if_pos (by omega)]

theorem report_valid_iff {anchor : Checkpoint} {id : Nat} {entries : List Entry} :
    (report anchor id entries).valid = true ↔
      Linked (anchor.id + 1) anchor.hash entries ∧ anchor.id + entries.length = id := by
  rw [← divergence?_eq_none_iff]
  unfold report
  cases divergence? anchor id entries <;> simp

end

variable {σ : Type} [Store σ] {a : Engine σ} {es : List Entry}

/-- A verification publishes what its report says, and leaves the engine as it is. -/
theorem verify_eq_of_range {id : Nat} {entries : List Entry} (hpos : 0 < id) (hle : id ≤ a.size)
    (h : Store.range a.store ((a.anchor id).id + 1) id = .ok entries) :
    a.verify id =
      ⟨a, if (report (a.anchor id) id entries).valid then []
          else [violation (report (a.anchor id) id entries)],
        .ok (report (a.anchor id) id entries)⟩ := by
  unfold verify
  rw [if_neg (by omega)]
  dsimp only
  rw [h]

theorem verify_of_range {id : Nat} {entries : List Entry} (hpos : 0 < id) (hle : id ≤ a.size)
    (h : Store.range a.store ((a.anchor id).id + 1) id = .ok entries) :
    (a.verify id).result = .ok (report (a.anchor id) id entries) := by
  rw [verify_eq_of_range hpos hle h]

theorem verify_of_outside {id : Nat} (h : id = 0 ∨ a.size < id) :
    (a.verify id).result = .error (.notFound .traceEntry (toString id)) := by
  unfold verify
  rw [if_pos h]
  rfl

/-- Verifying an entry checks whether the entries up to it are linked, from whichever checkpoint it
starts, as long as the store shows what was recorded up to this checkpoint. -/
theorem Tracks.verify_eq (h : a.Tracks es) {shown : List Entry} {id : Nat}
    (hshown : Replaces a.store (a.anchor id).id es shown) (hpos : 0 < id) (hle : id ≤ es.length) :
    ∃ r, (a.verify id).result = .ok r ∧ (r.valid = true ↔ Linked 1 .genesis (shown.take id)) := by
  obtain ⟨hbefore, hanchor, hhash⟩ := h.anchor hpos
  have hsize : id ≤ a.size := by
    rw [size, h.head]
    exact hle
  have hstart : (shown.take id).take (a.anchor id).id = es.take (a.anchor id).id := by
    rw [List.take_take, Nat.min_eq_left (Nat.le_of_lt hbefore), hshown.take]
  have hinside : (a.anchor id).id ≤ (shown.take id).length := by
    rw [List.length_take, hshown.length]
    omega
  have hparts : Linked 1 .genesis (shown.take id) ↔
      Linked ((a.anchor id).id + 1) (a.anchor id).hash ((shown.take id).drop (a.anchor id).id) := by
    rw [linked_take_drop hinside, hstart, hhash, Nat.add_comm 1]
    exact and_iff_right (h.linked.take _)
  refine ⟨_, verify_of_range hpos hsize (hshown.range _ _), ?_⟩
  rw [report_valid_iff, hparts, Nat.add_sub_cancel, List.length_drop, List.length_take,
    hshown.length]
  exact and_iff_left (by omega)

/-- What was recorded verifies. -/
theorem Tracks.verify_valid (h : a.Tracks es) (hshows : Shows a.store es) {id : Nat}
    (hpos : 0 < id) (hle : id ≤ es.length) :
    ∃ r, (a.verify id).result = .ok r ∧ r.valid = true := by
  obtain ⟨r, hresult, hvalid⟩ := h.verify_eq (hshows.replaces _) hpos hle
  exact ⟨r, hresult, hvalid.mpr (h.linked.take id)⟩

end AgentGovernance.Audit.Engine
