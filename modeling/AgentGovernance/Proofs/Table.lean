import AgentGovernance.Table
import Mathlib.Data.List.Nodup

/-!
# The entries of a table

What `find?` says about a table is all there is to know about it: no key occurs twice among the
entries. An insertion puts one entry in front of the others, up to their order, and takes the entry
away that had the key.
-/
namespace AgentGovernance.Table

variable {κ α : Type} [Key κ]

theorem mem_keys_iff (t : Table κ α) {k : κ} : k ∈ t.keys ↔ t.contains k = true := by
  simp only [keys, contains, List.mem_map, Prod.exists, exists_and_right, exists_eq_right,
    mem_entries_iff, Option.isSome_iff_exists]

theorem nodup_keys (t : Table κ α) : t.keys.Nodup := by
  refine List.pairwise_map.mpr (t.sorted.imp ?_)
  intro p q hpq he
  exact Key.irrefl q.1 (he ▸ hpq)

/-- A new key adds an entry. -/
theorem perm_insertEntry_of_none {k : κ} (v : α) {es : List (κ × α)}
    (h : findEntry k es = none) : (insertEntry k v es).Perm ((k, v) :: es) := by
  induction es with
  | nil => rfl
  | cons e es ih =>
      obtain ⟨j, w⟩ := e
      rw [findEntry] at h
      rw [insertEntry]
      split
      next => rfl
      next hk =>
        rw [if_neg hk] at h
        split
        next hj =>
          rw [if_pos hj] at h
          exact ((ih h).cons (j, w)).trans (.swap (k, v) (j, w) es)
        next hj =>
          rw [if_neg hj] at h
          cases h

/-- A key that is in use changes its value. -/
theorem perm_insertEntry_of_some {k : κ} (v : α) {w : α} {es : List (κ × α)}
    (h : findEntry k es = some w) :
    ∃ rest, es.Perm ((k, w) :: rest) ∧ (insertEntry k v es).Perm ((k, v) :: rest) := by
  induction es with
  | nil => cases h
  | cons e es ih =>
      obtain ⟨j, u⟩ := e
      rw [findEntry] at h
      rw [insertEntry]
      split at h
      · cases h
      next hk =>
        rw [if_neg hk]
        split at h
        next hj =>
          obtain ⟨rest, hold, hnew⟩ := ih h
          rw [if_pos hj]
          exact ⟨(j, u) :: rest, (hold.cons (j, u)).trans (.swap (k, w) (j, u) rest),
            (hnew.cons (j, u)).trans (.swap (k, v) (j, u) rest)⟩
        next hj =>
          obtain rfl := Key.eq_of_not_before hk hj
          obtain rfl := Option.some.inj h
          rw [if_neg hj]
          exact ⟨es, .refl _, .refl _⟩

/-- Putting an entry where it already is changes nothing. -/
theorem insertEntry_of_findEntry {k : κ} {v : α} {es : List (κ × α)}
    (h : findEntry k es = some v) : insertEntry k v es = es := by
  induction es with
  | nil => cases h
  | cons e es ih =>
      obtain ⟨j, w⟩ := e
      rw [findEntry] at h
      rw [insertEntry]
      split at h
      · cases h
      next hk =>
        rw [if_neg hk]
        split at h
        next hj => rw [if_pos hj, ih h]
        next hj =>
          obtain rfl := Key.eq_of_not_before hk hj
          obtain rfl := Option.some.inj h
          rw [if_neg hj]

theorem insert_of_find? {t : Table κ α} {k : κ} {v : α} (h : t.find? k = some v) :
    t.insert k v = t := by
  obtain ⟨es, hs⟩ := t
  simp only [insert, insertEntry_of_findEntry (show findEntry k es = some v from h)]

theorem perm_values_insert_of_none {t : Table κ α} {k : κ} (h : t.find? k = none) (v : α) :
    (t.insert k v).values.Perm (v :: t.values) := (perm_insertEntry_of_none v h).map Prod.snd

theorem perm_values_insert_of_some {t : Table κ α} {k : κ} {w : α} (h : t.find? k = some w)
    (v : α) : ∃ rest, t.values.Perm (w :: rest) ∧ (t.insert k v).values.Perm (v :: rest) := by
  obtain ⟨rest, hold, hnew⟩ := perm_insertEntry_of_some v h
  exact ⟨rest.map Prod.snd, hold.map Prod.snd, hnew.map Prod.snd⟩

theorem size_insert_of_none {t : Table κ α} {k : κ} (h : t.find? k = none) (v : α) :
    (t.insert k v).size = t.size + 1 := (perm_insertEntry_of_none v h).length_eq

/-- A test that no other entry passes lets through one entry at most. -/
theorem filter_values_of_find? {t : Table κ α} {k : κ} {v : α} (hv : t.find? k = some v)
    {test : α → Bool} (hothers : ∀ j w, t.find? j = some w → j ≠ k → test w = false) :
    t.values.filter test = if test v then [v] else [] := by
  obtain ⟨before, later, hentries⟩ := List.append_of_mem (t.mem_entries_iff.mpr hv)
  have hkeys := t.nodup_keys
  rw [keys, hentries, List.map_append, List.map_cons, List.nodup_middle, List.nodup_cons,
    ← List.map_append] at hkeys
  have hrest : ∀ e ∈ before ++ later, test e.2 = false := by
    intro e he
    have hmem : e ∈ t.entries := by
      rw [hentries]
      rcases List.mem_append.mp he with he | he
      · exact List.mem_append_left _ he
      · exact List.mem_append_right _ (List.mem_cons_of_mem _ he)
    refine hothers e.1 e.2 (t.mem_entries_iff.mp hmem) ?_
    intro hkey
    exact hkeys.1 (List.mem_map.mpr ⟨e, he, hkey⟩)
  have hnone : ∀ es : List (κ × α), (∀ e ∈ es, e ∈ before ++ later) →
      (es.map Prod.snd).filter test = [] := by
    intro es hes
    rw [List.filter_map, List.map_eq_nil_iff, List.filter_eq_nil_iff]
    intro e he
    simpa using hrest e (hes e he)
  rw [values, hentries, List.map_append, List.map_cons, List.filter_append, List.filter_cons,
    hnone before fun e he => List.mem_append_left later he,
    hnone later fun e he => List.mem_append_right before he]
  rfl

theorem find?_filter (t : Table κ α) (keep : κ → α → Bool) (k : κ) :
    (t.filter keep).find? k = (t.find? k).filter (keep k) := by
  rw [Option.ext_iff]
  intro v
  rw [← mem_entries_iff, filter, List.mem_filter, mem_entries_iff, Option.filter_eq_some_iff]

theorem find?_erase [DecidableEq κ] (t : Table κ α) (k i : κ) :
    (t.erase k).find? i = if i = k then none else t.find? i := by
  rw [erase, find?_filter]
  by_cases hik : i = k
  · simp [hik]
  · cases t.find? i <;> simp [hik]

theorem find?_foldl_insert [DecidableEq κ] (t : Table κ α) (es : List (κ × α)) (k : κ) :
    (es.foldl (fun t e => t.insert e.1 e.2) t).find? k =
      ((es.reverse.find? (·.1 = k)).map Prod.snd).or (t.find? k) := by
  induction es generalizing t with
  | nil => rfl
  | cons e es ih =>
      rw [List.foldl_cons, ih, List.reverse_cons, List.find?_append]
      cases es.reverse.find? (·.1 = k) with
      | some e => rfl
      | none =>
          rw [find?_insert]
          by_cases hk : k = e.1
          · simp [hk]
          · simp [hk, Ne.symm hk]

/-- Of the entries of a list with one key the last is found. -/
theorem find?_ofList [DecidableEq κ] (es : List (κ × α)) (k : κ) :
    (ofList es).find? k = (es.reverse.find? (·.1 = k)).map Prod.snd := by
  rw [ofList, find?_foldl_insert, find?_empty, Option.or_none]

theorem nodup_entries (t : Table κ α) : t.entries.Nodup := t.nodup_keys.of_map

/-- Tables in which the same is found are equal. -/
theorem ext_find? {s t : Table κ α} (h : ∀ k, s.find? k = t.find? k) : s = t := by
  have hperm : s.entries.Perm t.entries := by
    apply (List.perm_ext_iff_of_nodup s.nodup_entries t.nodup_entries).mpr
    intro e
    rw [← Prod.eta e, mem_entries_iff, mem_entries_iff, h]
  have hentries : s.entries = t.entries :=
    hperm.eq_of_pairwise (fun a b _ _ hab hba => absurd hba (Key.asymm hab)) s.sorted t.sorted
  cases s
  cases t
  simpa using hentries

theorem map_insert {β : Type} [DecidableEq κ] (t : Table κ α) (f : κ → α → β) (k : κ) (v : α) :
    (t.insert k v).map f = (t.map f).insert k (f k v) := by
  apply ext_find?
  intro i
  rw [find?_map, find?_insert, find?_insert, find?_map]
  split
  next hi => rw [hi, Option.map_some]
  next => rfl

/-- Taking a new entry away again leaves the table as it was. -/
theorem erase_insert_of_none [DecidableEq κ] {t : Table κ α} {k : κ} (h : t.find? k = none)
    (v : α) : (t.insert k v).erase k = t := by
  apply ext_find?
  intro i
  rw [find?_erase, find?_insert]
  split
  next hi => rw [hi, h]
  next => rfl

theorem perm_keys_insert_of_none {t : Table κ α} {k : κ} (h : t.find? k = none) (v : α) :
    (t.insert k v).keys.Perm (k :: t.keys) := (perm_insertEntry_of_none v h).map Prod.fst

end AgentGovernance.Table
