import AgentGovernance.Proofs.Audit.Recording
import AgentGovernance.Proofs.Trace.Binding

/-!
# Replaced entries

What a verification says when entries of the store were replaced after they had been recorded. It
checks the links from the anchor on, so it finds every replacement that leaves a link broken. A
replacement that computes the hashes anew up to the newest entry goes unnoticed: the hash of that
entry then differs from the hash that the engine holds, or there is a collision, but the
verification does not compare the two.
-/
namespace AgentGovernance

namespace Trace.Tampered

variable {σ : Type} [Store σ] {s : σ}

/-- Readers of a range see what the store holds there, in place of some entries others or none. -/
theorem range_seen {es : List Entry} (h : Shows s es) (forged : Table Nat Entry)
    (hidden : Table Nat Unit) (first last : Nat) :
    Store.range ({ inner := s, forged, hidden } : Tampered σ) first last =
      .ok (((es.take last).drop (first - 1)).filterMap
        (Tampered.seen { inner := s, forged, hidden })) := by
  change Except.bind (Store.range s first last) _ = _
  rw [h.range]
  rfl

/-- Readers of a range see a forged entry in its place. -/
theorem range_forge {es : List Entry} (h : Shows s es) (id : Nat) (e : Entry) (first last : Nat) :
    Store.range (Tampered.forge { inner := s } id e) first last =
      .ok (((es.map fun d => if d.id = id then e else d).take last).drop (first - 1)) := by
  have hseen : (Tampered.forge { inner := s } id e).seen =
      some ∘ fun d => if d.id = id then e else d := by
    funext d
    change some (((Table.empty.insert id e).find? d.id).getD d) = _
    rw [Table.find?_insert, Table.find?_empty, Function.comp_apply]
    split <;> rfl
  have hrange := range_seen h ((∅ : Table Nat Entry).insert id e) ∅ first last
  change Store.range (Tampered.forge { inner := s } id e) first last =
    .ok (List.filterMap (Tampered.forge { inner := s } id e).seen _) at hrange
  rw [hrange, hseen, List.filterMap_eq_map, ← List.map_take, ← List.map_drop]

/-- Forging the newest entry of a chain leaves those before it. -/
theorem replaces_forge {init : List Entry} {d : Entry} (h : Shows s (init ++ [d]))
    (hlinked : Linked 1 .genesis (init ++ [d])) (e : Entry) {kept : Nat}
    (hkept : kept ≤ init.length) :
    Replaces (Tampered.forge { inner := s } d.id e) kept (init ++ [d]) (init ++ [e]) := by
  have hid : d.id = 1 + init.length := (linked_append.mp hlinked).2.1
  have hbefore : init.map (fun c => if c.id = d.id then e else c) = init := by
    refine (List.map_congr_left fun c hc => ?_).trans (List.map_id init)
    obtain ⟨i, hi, rfl⟩ := List.mem_iff_getElem.mp hc
    have hidi := ((linked_append.mp hlinked).1.getElem hi).1
    exact if_neg (by omega)
  refine ⟨fun first last => ?_, ?_, ?_⟩
  · rw [range_forge h, List.map_append, hbefore, List.map_singleton, if_pos rfl]
  · rw [List.length_append, List.length_append]
    rfl
  · rw [List.take_append_of_le_length hkept, List.take_append_of_le_length hkept]

end Trace.Tampered

namespace Audit

open Trace

namespace Engine

variable {σ τ : Type}

/-- An engine over another store, where it stands at the same point. -/
def withStore (a : Engine σ) (store : τ) : Engine τ := { a with store }

theorem Tracks.withStore {a : Engine σ} {es : List Entry} (h : a.Tracks es) (store : τ) :
    (a.withStore store).Tracks es := ⟨h.linked, h.head, h.stampedAt, h.checkpoints⟩

variable {a : Engine σ} {es shown : List Entry}

/-- Replacements that pass leave another hash at the end than the engine holds. -/
theorem Tracks.lastHash_ne_or_collides (h : a.Tracks es) (hlength : shown.length = es.length)
    (hlinked : Linked 1 .genesis shown) (hfits : ∀ e ∈ es ++ shown, e.Fits)
    (hchanged : shown.map (·.payloadHash) ≠ es.map (·.payloadHash)) :
    lastHash .genesis shown ≠ a.head.hash ∨ ∃ x ∈ es.zip shown, x.1.Collides x.2 := by
  by_cases hlast : lastHash .genesis shown = a.head.hash
  · rw [h.head] at hlast
    rcases h.linked.eq_or_collides hlinked hlength.symm
      (fun e he => hfits e (List.mem_append_left _ he))
      (fun e he => hfits e (List.mem_append_right _ he)) hlast.symm with ⟨-, hsame⟩ | hcollides
    · exact absurd hsame.symm hchanged
    · exact .inr hcollides
  · exact .inl hlast

theorem Tracks.verify_withStore [Store τ] (h : a.Tracks es) {s : τ} (hpos : 0 < es.length)
    (hshown : Replaces s (a.anchor es.length).id es shown) :
    ∃ r, ((a.withStore s).verify es.length).result = .ok r ∧
      (r.valid = true ↔ Linked 1 .genesis shown) := by
  have hverify := (h.withStore s).verify_eq hshown hpos (Nat.le_refl _)
  rwa [← hshown.length, List.take_length, hshown.length] at hverify

/-- The newest entry with another payload hash and its hash computed anew passes. -/
theorem Tracks.verify_resealed [Store σ] (h : a.Tracks es) (hshows : Shows a.store es) {e : Entry}
    (he : es.getLast? = some e) (payloadHash : ContentHash) :
    (a.anchor es.length).id < e.id ∧
      ∃ r, ((a.withStore (Tampered.forge { inner := a.store } e.id
        { e with payloadHash }.resealed)).verify es.length).result = .ok r ∧ r.valid = true := by
  obtain ⟨init, rfl⟩ := List.getLast?_eq_some_iff.mp he
  have hlength : (init ++ [e]).length = init.length + 1 := by simp
  obtain ⟨hinit, hid, hprevious, -⟩ := linked_append.mp h.linked
  have hanchor := (h.anchor (show 0 < (init ++ [e]).length by omega)).1
  obtain ⟨r, hresult, hvalid⟩ := h.verify_withStore (by omega)
    (Tampered.replaces_forge hshows h.linked { e with payloadHash }.resealed (by omega))
  refine ⟨by omega, r, hresult, hvalid.mpr ?_⟩
  exact linked_append.mpr ⟨hinit, hid, hprevious, rfl, trivial⟩

end Engine

/-- When entries behind the anchor are replaced after a run, verifying the newest one succeeds
exactly if the entries are still linked. Payload hashes may have changed nevertheless; then the last
hash is not the one that the engine holds, or there is a collision. The newest entry can always be
replaced in such a way, with whatever payload hash. -/
theorem run_tampered {actions : List Action} {store : Backend} (h : Fresh actions store)
    (interval : Nat) (hpos : 0 < (recorded actions).length) :
    ∃ a, run store interval actions = .ok a ∧
      (∀ (τ : Type) [Store τ] (s : τ) (shown : List Entry),
        Replaces s (a.anchor (recorded actions).length).id (recorded actions) shown →
          ∃ r, ((a.withStore s).verify (recorded actions).length).result = .ok r ∧
            (r.valid = true ↔ Linked 1 .genesis shown) ∧
            (r.valid = true → (∀ e ∈ recorded actions ++ shown, e.Fits) →
              shown.map (·.payloadHash) ≠ (recorded actions).map (·.payloadHash) →
              lastHash .genesis shown ≠ a.head.hash ∨
                ∃ x ∈ (recorded actions).zip shown, x.1.Collides x.2)) ∧
      ∀ e, (recorded actions).getLast? = some e → ∀ payloadHash : ContentHash,
        (a.anchor (recorded actions).length).id < e.id ∧
          ∃ r, ((a.withStore (Tampered.forge { inner := a.store } e.id
            { e with payloadHash }.resealed)).verify (recorded actions).length).result = .ok r ∧
            r.valid = true := by
  obtain ⟨a, hrun, hshows, htracks⟩ := h.run interval
  refine ⟨a, hrun, ?_, fun e he payloadHash => htracks.verify_resealed hshows he payloadHash⟩
  intro τ _ s shown hshown
  obtain ⟨r, hresult, hvalid⟩ := htracks.verify_withStore hpos hshown
  refine ⟨r, hresult, hvalid, fun hpassed hfits hchanged => ?_⟩
  exact htracks.lastHash_ne_or_collides hshown.length (hvalid.mp hpassed) hfits hchanged

def spawnEntry : Entry := .sealed 1 .agentSpawned "agents" none (.ofJson .null) .genesis ⟨5⟩

/-- The same entry with another payload hash and the hash that belongs to it. -/
def forgedSpawnEntry : Entry := .sealed 1 .agentSpawned "agents" none .genesis .genesis ⟨5⟩

theorem run_tampered_resealed :
    ∃ a r, run (.log {}) 0 [.record ⟨.agentSpawned, "agents", none, .null⟩ ⟨5⟩] =
        .ok (a : Engine Backend) ∧
      recorded [.record ⟨.agentSpawned, "agents", none, .null⟩ ⟨5⟩] = [spawnEntry] ∧
      ((a.withStore (⟨[forgedSpawnEntry]⟩ : Log)).verify 1).result = .ok r ∧ r.valid = true ∧
      forgedSpawnEntry.payloadHash ≠ spawnEntry.payloadHash ∧
      (forgedSpawnEntry.hash ≠ a.head.hash ∨ spawnEntry.Collides forgedSpawnEntry) := by
  have hfresh : Fresh [.record ⟨.agentSpawned, "agents", none, .null⟩ ⟨5⟩] (.log {}) := .log
  have hrecorded : recorded [.record ⟨.agentSpawned, "agents", none, .null⟩ ⟨5⟩] = [spawnEntry] :=
    rfl
  have hpayload : forgedSpawnEntry.payloadHash ≠ spawnEntry.payloadHash := by decide +kernel
  have hspawn : spawnEntry.Fits :=
    Entry.fits_of_isDigest (ContentHash.isDigest_of _) ContentHash.isDigest_genesis
      (by decide +kernel)
  have hforged : forgedSpawnEntry.Fits :=
    Entry.fits_of_isDigest ContentHash.isDigest_genesis ContentHash.isDigest_genesis
      (by decide +kernel)
  have hfits : ∀ e ∈ [spawnEntry] ++ [forgedSpawnEntry], e.Fits :=
    List.forall_mem_cons.mpr ⟨hspawn, List.forall_mem_singleton.mpr hforged⟩
  obtain ⟨a, hrun, hreplaced, hresealed⟩ := run_tampered hfresh 0 (by decide)
  rw [hrecorded] at hreplaced hresealed
  have hanchor : (a.anchor [spawnEntry].length).id = 0 :=
    Nat.lt_one_iff.mp (hresealed spawnEntry rfl .genesis).1
  have hshown : Replaces (⟨[forgedSpawnEntry]⟩ : Log) (a.anchor [spawnEntry].length).id
      [spawnEntry] [forgedSpawnEntry] :=
    ⟨(Log.shows _).range, by simp only [List.length_singleton],
      by simp only [hanchor, List.take_zero]⟩
  obtain ⟨r, hresult, hvalid, hdiffers⟩ := hreplaced Log _ _ hshown
  have hpassed : r.valid = true := hvalid.mpr ⟨rfl, rfl, rfl, trivial⟩
  refine ⟨a, r, hrun, hrecorded, hresult, hpassed, hpayload, ?_⟩
  rcases hdiffers hpassed hfits (by simpa using hpayload) with hhash | hcollides
  · exact .inl hhash
  · exact .inr (by simpa using hcollides)

end Audit

end AgentGovernance
