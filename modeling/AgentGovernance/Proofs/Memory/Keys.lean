import AgentGovernance.Proofs.Memory.Growth

/-!
# Keys

Every node of a forest has a key, and nothing else has one. A key ends with the name of its node
behind the last slash, since names have no slash. So no two nodes have one key, and the table that
leads from keys to nodes is the inverse of the one that leads from nodes to keys.
-/
namespace AgentGovernance.Memory.Forest

/-- What stands behind the last slash of a text. -/
def lastName (key : String) : List Char := (key.toList.reverse.takeWhile (· ≠ '/')).reverse

/-- A search for a slash from the end passes over the name. -/
theorem takeWhile_name {id : NodeId} (h : isWellNamed id = true) (rest : List Char) :
    (id.name.toList.reverse ++ rest).takeWhile (· ≠ '/') =
      id.name.toList.reverse ++ rest.takeWhile (· ≠ '/') := by
  apply List.takeWhile_append_of_pos
  intro c hc
  have hne : c ≠ '/' := by
    intro he
    exact (isWellNamed_iff.mp h).2 (he ▸ List.mem_reverse.mp hc)
  simpa using hne

theorem lastName_name {id : NodeId} (h : isWellNamed id = true) :
    lastName id.name = id.name.toList := by
  have hwhole := takeWhile_name h []
  simp only [List.append_nil, List.takeWhile_nil] at hwhole
  rw [lastName, hwhole, List.reverse_reverse]

theorem lastName_childKey {id : NodeId} (h : isWellNamed id = true) (parentKey : String) :
    lastName (childKey parentKey id) = id.name.toList := by
  have htext : (childKey parentKey id).toList.reverse =
      id.name.toList.reverse ++ '/' :: parentKey.toList.reverse := by
    simp [childKey]
  rw [lastName, htext, takeWhile_name h]
  simp

theorem lastName_keyFor (f : Forest) {n : Node} (h : isWellNamed n.id = true) :
    lastName (f.keyFor n) = n.id.name.toList := by
  unfold keyFor
  split
  next => exact lastName_name h
  next => exact lastName_childKey h _

/-- An insertion enters a node and its key together. -/
theorem Grown.isSome_key? {f : Forest} (h : Grown {} f) (id : NodeId) :
    (f.key? id).isSome = (f.get? id).isSome := by
  induction h with
  | refl => rfl
  | insert _ hinsert ih =>
      obtain ⟨-, rfl⟩ := insert_eq_ok_iff.mp hinsert
      rw [key?_place, get?_place]
      split
      next => rfl
      next => exact ih

theorem Grown.exists_get?_of_key? {f : Forest} (h : Grown {} f) {id : NodeId} {key : String}
    (hkey : f.key? id = some key) : ∃ n, f.get? id = some n := by
  rw [← Option.isSome_iff_exists, ← h.isSome_key?, hkey]
  rfl

theorem Grown.lastName_key? {f : Forest} (h : Grown {} f) {id : NodeId} {key : String}
    (hkey : f.key? id = some key) : lastName key = id.name.toList := by
  have hf : WellFormed f := h.wellFormed
  obtain ⟨n, hn⟩ := h.exists_get?_of_key? hkey
  have hid := hf.id_eq hn
  have hnamed : isWellNamed n.id = true := by
    rw [hid]
    exact hf.named hn
  obtain rfl : key = f.keyFor n := Option.some.inj (hkey.symm.trans (hf.key hn))
  rw [lastName_keyFor f hnamed, hid]

/-- A key belongs to one node only. -/
theorem Grown.key?_injective {f : Forest} (h : Grown {} f) {i j : NodeId} {key : String}
    (hi : f.key? i = some key) (hj : f.key? j = some key) : i = j := by
  have hnames : i.name.toList = j.name.toList :=
    (h.lastName_key? hi).symm.trans (h.lastName_key? hj)
  rw [NodeId.mk.injEq]
  exact String.toList_injective hnames

theorem Placeable.key?_eq_none {f : Forest} {n : Node} (h : Placeable f n) (hf : Grown {} f) :
    f.key? n.id = none := by
  rw [← Option.isNone_iff_eq_none, ← Option.not_isSome, hf.isSome_key?, h.isNew]
  rfl

/-- The key of a new node is new. -/
theorem Placeable.keyFor_ne {f : Forest} {n : Node} (h : Placeable f n) (hf : Grown {} f)
    {id : NodeId} {key : String} (hid : f.key? id = some key) : key ≠ f.keyFor n := by
  intro hsame
  have hne : id ≠ n.id := by
    intro he
    rw [he, h.key?_eq_none hf] at hid
    cases hid
  have hplaced : Grown {} (f.place n) := hf.insert (insert_eq_ok_iff.mpr ⟨h, rfl⟩)
  have hold : (f.place n).key? id = some (f.keyFor n) := by
    rw [key?_place, if_neg hne, hid, hsame]
  have hnew : (f.place n).key? n.id = some (f.keyFor n) := by rw [key?_place, if_pos rfl]
  exact hne (hplaced.key?_injective hold hnew)

theorem find?_keys_place (f : Forest) (n : Node) (key : String) :
    (f.place n).keys.find? key = if key = f.keyFor n then some n.id else f.keys.find? key :=
  Table.find?_insert _ _ _ _

/-- The table of keys leads back from the key of a node to the node. -/
theorem Grown.find?_keys_iff {f : Forest} (h : Grown {} f) {key : String} {id : NodeId} :
    f.keys.find? key = some id ↔ f.key? id = some key := by
  induction h generalizing key id with
  | refl =>
      constructor
      · intro h
        cases h
      · intro h
        cases h
  | @insert g _ n hgrown hinsert ih =>
      obtain ⟨hplace, rfl⟩ := insert_eq_ok_iff.mp hinsert
      rw [find?_keys_place, key?_place]
      by_cases hkey : key = g.keyFor n
      · rw [if_pos hkey]
        by_cases hid : id = n.id
        · rw [if_pos hid, hkey, hid]
          simp
        · rw [if_neg hid]
          constructor
          · intro h
            exact absurd (Option.some.inj h).symm hid
          · intro h
            exact absurd hkey (hplace.keyFor_ne hgrown h)
      · rw [if_neg hkey, ih]
        by_cases hid : id = n.id
        · rw [if_pos hid]
          constructor
          · intro h
            rw [hid, hplace.key?_eq_none hgrown] at h
            cases h
          · intro h
            exact absurd (Option.some.inj h).symm hkey
        · rw [if_neg hid]

end AgentGovernance.Memory.Forest
