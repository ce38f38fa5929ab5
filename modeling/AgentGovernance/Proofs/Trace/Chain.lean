import AgentGovernance.Trace.Replay

/-!
# Linked entries

A list of entries is linked to a point of a chain when replaying it from there finds no fault: the
ids count on, every entry names the hash before it, and every hash is right. Linked lists can be cut
and joined at any place, where the hash reached so far takes the part of the point.
-/
namespace AgentGovernance.Trace

/-- Entries whose ids count on from `id`, each linked to the hash before it, with right hashes. -/
def Linked (id : Nat) (previous : ContentHash) : List Entry → Prop
  | [] => True
  | e :: rest =>
      e.id = id ∧ e.previous = previous ∧ e.recomputeHash = e.hash ∧ Linked (id + 1) e.hash rest

/-- The hash reached behind some entries, or the hash before them if there are none. -/
def lastHash (previous : ContentHash) : List Entry → ContentHash
  | [] => previous
  | e :: rest => lastHash e.hash rest

@[simp] theorem lastHash_append (previous : ContentHash) (as bs : List Entry) :
    lastHash previous (as ++ bs) = lastHash (lastHash previous as) bs := by
  induction as generalizing previous with
  | nil => rfl
  | cons e as ih => exact ih e.hash

theorem lastHash_of_getLast? {es : List Entry} {e : Entry} (h : es.getLast? = some e)
    (previous : ContentHash) : lastHash previous es = e.hash := by
  obtain ⟨init, rfl⟩ := List.getLast?_eq_some_iff.mp h
  rw [lastHash_append]
  rfl

theorem linked_append {id : Nat} {previous : ContentHash} {as bs : List Entry} :
    Linked id previous (as ++ bs) ↔
      Linked id previous as ∧ Linked (id + as.length) (lastHash previous as) bs := by
  induction as generalizing id previous with
  | nil => simp [Linked, lastHash]
  | cons e as ih =>
      have hid : id + 1 + as.length = id + (as.length + 1) := by omega
      simp only [List.cons_append, Linked, lastHash, List.length_cons, ih, hid, and_assoc]

/-- The entries behind the first few are linked to the hash these have reached. -/
theorem linked_take_drop {id : Nat} {previous : ContentHash} {es : List Entry} {n : Nat}
    (h : n ≤ es.length) :
    Linked id previous es ↔
      Linked id previous (es.take n) ∧
        Linked (id + n) (lastHash previous (es.take n)) (es.drop n) := by
  have hlength : (es.take n).length = n := by
    rw [List.length_take, Nat.min_eq_left h]
  have hparts : Linked id previous (es.take n ++ es.drop n) ↔ _ := linked_append
  rwa [List.take_append_drop, hlength] at hparts

theorem Linked.take {id : Nat} {previous : ContentHash} {es : List Entry}
    (h : Linked id previous es) (n : Nat) : Linked id previous (es.take n) := by
  rw [← List.take_append_drop n es] at h
  exact (linked_append.mp h).1

theorem linkFault?_eq_none_iff {e : Entry} {id : Nat} {previous : ContentHash} :
    e.linkFault? id previous = none ↔
      e.id = id ∧ e.previous = previous ∧ e.recomputeHash = e.hash := by
  unfold Entry.linkFault?
  constructor
  · intro h
    split at h
    · cases h
    next hid =>
      split at h
      · cases h
      next hprevious =>
        split at h
        · cases h
        next hhash =>
          exact ⟨Decidable.not_not.mp hid, Decidable.not_not.mp hprevious,
            Decidable.not_not.mp hhash⟩
  · rintro ⟨hid, hprevious, hhash⟩
    rw [if_neg (not_not_intro hid), if_neg (not_not_intro hprevious),
      if_neg (not_not_intro hhash)]

/-- Following links succeeds on linked entries only, and reaches their end. -/
theorem follow_eq_ok_iff {id : Nat} {previous : ContentHash} {es : List Entry}
    {p : Nat × ContentHash} :
    follow id previous es = .ok p ↔
      Linked id previous es ∧ p = (id + es.length, lastHash previous es) := by
  induction es generalizing id previous with
  | nil =>
      simp only [follow, Except.ok.injEq, Linked, true_and, List.length_nil, Nat.add_zero, lastHash]
      exact eq_comm
  | cons e es ih =>
      have hlength : id + 1 + es.length = id + (es.length + 1) := by omega
      simp only [follow, Linked, lastHash, List.length_cons]
      split
      next fault hfault =>
        constructor
        · intro h
          cases h
        · rintro ⟨⟨hid, hprevious, hhash, -⟩, -⟩
          rw [linkFault?_eq_none_iff.mpr ⟨hid, hprevious, hhash⟩] at hfault
          cases hfault
      next hnone =>
        obtain ⟨hid, hprevious, hhash⟩ := linkFault?_eq_none_iff.mp hnone
        rw [ih, hlength]
        exact ⟨fun ⟨h, hp⟩ => ⟨⟨hid, hprevious, hhash, h⟩, hp⟩, fun ⟨⟨_, _, _, h⟩, hp⟩ => ⟨h, hp⟩⟩

/-- Following links goes on behind linked entries from where these have led. -/
theorem follow_append {id : Nat} {previous : ContentHash} {before : List Entry}
    (h : Linked id previous before) (es : List Entry) :
    follow id previous (before ++ es) =
      follow (id + before.length) (lastHash previous before) es := by
  induction before generalizing id previous with
  | nil => rfl
  | cons e before ih =>
      obtain ⟨hid, hprevious, hhash, hrest⟩ := h
      have hlength : id + 1 + before.length = id + (before.length + 1) := by omega
      simp only [List.cons_append, follow, linkFault?_eq_none_iff.mpr ⟨hid, hprevious, hhash⟩,
        List.length_cons, lastHash]
      rw [ih hrest, hlength]

/-- The first entry that does not link is where following ends. -/
theorem follow_eq_error {id : Nat} {previous : ContentHash} {before : List Entry} {e : Entry}
    {fault : LinkFault} (h : Linked id previous before)
    (hfault : e.linkFault? (id + before.length) (lastHash previous before) = some fault)
    (rest : List Entry) :
    follow id previous (before ++ e :: rest) = .error ⟨id + before.length, fault⟩ := by
  rw [follow_append h, follow, hfault]

/-! ## Chains -/

theorem length_chain (id : Nat) (previous : ContentHash) (ds : List Draft) :
    (chain id previous ds).length = ds.length := by
  induction ds generalizing id previous with
  | nil => rfl
  | cons d ds ih => simp [chain, ih]

theorem linked_chain (id : Nat) (previous : ContentHash) (ds : List Draft) :
    Linked id previous (chain id previous ds) := by
  induction ds generalizing id previous with
  | nil => trivial
  | cons d ds ih => exact ⟨rfl, rfl, rfl, ih _ _⟩

/-- Sealing keeps the stamps of the drafts. -/
theorem map_timestamp_chain (id : Nat) (previous : ContentHash) (ds : List Draft) :
    (chain id previous ds).map (·.timestamp) = ds.map (·.timestamp) := by
  induction ds generalizing id previous with
  | nil => rfl
  | cons d ds ih => exact congrArg (d.timestamp :: ·) (ih _ _)

/-- Entries with the ids 1, 2, … that are linked from genesis and whose hashes are right. -/
structure IsChain (es : List Entry) : Prop where
  id_eq : ∀ i (h : i < es.length), es[i].id = i + 1
  first : ∀ e, es.head? = some e → e.previous = .genesis
  linked : ∀ i (h : i + 1 < es.length), es[i + 1].previous = es[i].hash
  right : ∀ e ∈ es, e.recomputeHash = e.hash

theorem Linked.getElem {id : Nat} {previous : ContentHash} {es : List Entry}
    (h : Linked id previous es) {i : Nat} (hi : i < es.length) :
    es[i].id = id + i ∧ es[i].previous = lastHash previous (es.take i) ∧
      es[i].recomputeHash = es[i].hash := by
  have hparts : es = es.take i ++ es[i] :: es.drop (i + 1) := by simp
  have hlength : (es.take i).length = i := by
    rw [List.length_take]
    omega
  rw [hparts, linked_append, hlength] at h
  exact ⟨h.2.1, h.2.2.1, h.2.2.2.1⟩

theorem Linked.isChain {es : List Entry} (h : Linked 1 .genesis es) : IsChain es where
  id_eq i hi := by
    have hid := (h.getElem hi).1
    omega
  first e he := by
    cases es with
    | nil => cases he
    | cons d es =>
        obtain rfl : d = e := by simpa using he
        exact h.2.1
  linked i hi := by
    have hprevious := (h.getElem hi).2.1
    have hlast : (es.take (i + 1)).getLast? = some es[i] := by
      rw [List.getLast?_take]
      simp [show i < es.length by omega]
    rw [hprevious, lastHash_of_getLast? hlast]
  right e he := by
    obtain ⟨i, hi, rfl⟩ := List.mem_iff_getElem.mp he
    exact (h.getElem hi).2.2

end AgentGovernance.Trace
