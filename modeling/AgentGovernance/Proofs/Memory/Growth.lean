import AgentGovernance.Memory.Forest
import AgentGovernance.Proofs.Table

/-!
# Forests that grow

A forest comes into being by insertions, one node at a time and every node under one that is there
already. What that makes of the tables is `WellFormed`: nodes are kept under their own ids, parents
are there, a key is the path from the root, and the children of a node are those that name it as
their parent. The depth of a node, which is read off its key, is one more than that of its parent
and less than the number of nodes.
-/
namespace AgentGovernance.Memory.Forest

/-- What it takes for a node to be placed. -/
structure Placeable (f : Forest) (n : Node) : Prop where
  named : isWellNamed n.id = true
  isNew : f.get? n.id = none
  parent : ∀ p, n.parent = some p → ∃ m, f.get? p = some m

/-- A forest with some nodes inserted one after the other. -/
inductive Grown (f : Forest) : Forest → Prop
  | refl : Grown f f
  | insert {g h : Forest} {n : Node} : Grown f g → g.insert n = .ok h → Grown f h

theorem Grown.trans {f g h : Forest} (hfg : Grown f g) (hgh : Grown g h) : Grown f h := by
  induction hgh with
  | refl => exact hfg
  | insert _ hn ih => exact ih.insert hn

/-! ## The tables of a forest -/

theorem contains_iff {f : Forest} {id : NodeId} :
    f.contains id = true ↔ ∃ n, f.get? id = some n := by
  rw [contains, Table.contains, Option.isSome_iff_exists]
  rfl

theorem contains_eq_false_iff {f : Forest} {id : NodeId} :
    f.contains id = false ↔ f.get? id = none := by
  simp [contains, Table.contains, get?]

@[simp] theorem get?_empty (id : NodeId) : ({} : Forest).get? id = none := rfl

@[simp] theorem childIds_empty (id : NodeId) : ({} : Forest).childIds id = [] := rfl

theorem mem_ids_iff {f : Forest} {id : NodeId} : id ∈ f.ids ↔ ∃ n, f.get? id = some n := by
  rw [ids, Table.mem_keys_iff]
  exact contains_iff

theorem nodup_ids (f : Forest) : f.ids.Nodup := f.stored.nodup_keys

theorem length_ids (f : Forest) : f.ids.length = f.size := List.length_map _

theorem insert_eq_ok_iff {f g : Forest} {n : Node} :
    f.insert n = .ok g ↔ Placeable f n ∧ f.place n = g := by
  have hcheck : f.checkInsert n = .ok () ↔ Placeable f n := by
    unfold checkInsert
    constructor
    · intro h
      split at h
      · cases h
      next hnamed =>
        split at h
        · cases h
        next hnew =>
          refine ⟨by simpa using hnamed, contains_eq_false_iff.mp (by simpa using hnew), ?_⟩
          intro p hp
          simp only [hp] at h
          split at h
          next hparent => exact contains_iff.mp hparent
          next => cases h
    · intro h
      rw [if_neg (by simp [h.named]), if_neg (by simp [contains_eq_false_iff.mpr h.isNew])]
      split
      · rfl
      next p hp => rw [if_pos (contains_iff.mpr (h.parent p hp))]
  rw [← hcheck, insert]
  cases f.checkInsert n with
  | ok _ => simp
  | error e => simp

/-- An insertion is refused for the name of the node, because its id is there, or because its parent
is not. -/
theorem insert_error_cases {f : Forest} {n : Node} {e : Failure} (h : f.insert n = .error e) :
    (isWellNamed n.id = false ∧ e = .constraintViolation (.malformedNodeId n.id)) ∨
      (f.contains n.id = true ∧ e = .invalidState (.nodeExists n.id)) ∨
      ∃ p, n.parent = some p ∧ f.contains p = false ∧ e = .notFound .memoryNode p.name := by
  have hcheck : f.checkInsert n = .error e := by
    unfold insert at h
    split at h
    next => cases h
    next hcheck => rw [hcheck, Except.error.inj h]
  unfold checkInsert at hcheck
  split at hcheck
  next hnamed => exact .inl ⟨by simpa using hnamed, (Except.error.inj hcheck).symm⟩
  next =>
    split at hcheck
    next hthere => exact .inr (.inl ⟨hthere, (Except.error.inj hcheck).symm⟩)
    next =>
      split at hcheck
      next => cases hcheck
      next p hp =>
        split at hcheck
        next => cases hcheck
        next hparent =>
          exact .inr (.inr ⟨p, hp, by simpa using hparent, (Except.error.inj hcheck).symm⟩)

theorem insertIfAllowed_of_placeable {f : Forest} {n : Node} (h : Placeable f n) :
    f.insertIfAllowed n = f.place n := by
  rw [insertIfAllowed, insert_eq_ok_iff.mpr ⟨h, rfl⟩]

theorem grown_insertIfAllowed (f : Forest) (n : Node) : Grown f (f.insertIfAllowed n) := by
  unfold insertIfAllowed
  split
  next g hg => exact Grown.refl.insert hg
  next => exact .refl

theorem get?_place (f : Forest) (n : Node) (id : NodeId) :
    (f.place n).get? id = if id = n.id then some n else f.get? id :=
  Table.find?_insert _ _ _ _

theorem key?_place (f : Forest) (n : Node) (id : NodeId) :
    (f.place n).key? id = if id = n.id then some (f.keyFor n) else f.key? id :=
  Table.find?_insert _ _ _ _

theorem childIds_place (f : Forest) (n : Node) (id : NodeId) :
    (f.place n).childIds id =
      if n.parent = some id then f.childIds id ++ [n.id] else f.childIds id := by
  simp only [childIds, place, addChild]
  cases hparent : n.parent with
  | none => simp
  | some p =>
      simp only [Table.find?_insert, Option.some.injEq]
      by_cases h : id = p
      · subst h
        simp
      · rw [if_neg h, if_neg (Ne.symm h)]

theorem size_place {f : Forest} {n : Node} (h : Placeable f n) :
    (f.place n).size = f.size + 1 :=
  Table.size_insert_of_none h.isNew _

theorem Placeable.get?_place {f : Forest} {n : Node} (h : Placeable f n) {id : NodeId} {m : Node}
    (hm : f.get? id = some m) : (f.place n).get? id = some m := by
  have hne : id ≠ n.id := by
    rintro rfl
    rw [h.isNew] at hm
    cases hm
  rw [Forest.get?_place, if_neg hne, hm]

theorem Grown.get? {f g : Forest} (h : Grown f g) {id : NodeId} {n : Node}
    (hn : f.get? id = some n) : g.get? id = some n := by
  induction h with
  | refl => exact hn
  | insert _ hinsert ih =>
      obtain ⟨hplace, rfl⟩ := insert_eq_ok_iff.mp hinsert
      exact hplace.get?_place ih

/-! ## Keys -/

theorem isWellNamed_iff {id : NodeId} :
    isWellNamed id = true ↔ id.name ≠ "" ∧ '/' ∉ id.name.toList := by
  simp [isWellNamed]

theorem count_slash_name {id : NodeId} (h : isWellNamed id = true) :
    id.name.toList.count '/' = 0 := by
  rw [List.count_eq_zero]
  exact (isWellNamed_iff.mp h).2

theorem count_slash_childKey {id : NodeId} (h : isWellNamed id = true) (parentKey : String) :
    (childKey parentKey id).toList.count '/' = parentKey.toList.count '/' + 1 := by
  have hslash : ("/" : String).toList = ['/'] := rfl
  rw [childKey, String.toList_append, String.toList_append, List.count_append, List.count_append,
    count_slash_name h, hslash, List.count_singleton_self]

/-- The key of a new node depends on the nodes that are there only. -/
theorem Placeable.keyFor_place {f : Forest} {n m : Node} (h : Placeable f n)
    (hm : ∀ p, m.parent = some p → ∃ k, f.get? p = some k) :
    (f.place n).keyFor m = f.keyFor m := by
  unfold keyFor
  split
  · rfl
  next p hp =>
    obtain ⟨k, hk⟩ := hm p hp
    have hne : p ≠ n.id := by
      rintro rfl
      rw [h.isNew] at hk
      cases hk
    rw [key?_place, if_neg hne]

/-! ## What an insertion keeps -/

structure WellFormed (f : Forest) : Prop where
  id_eq : ∀ {id n}, f.get? id = some n → n.id = id
  named : ∀ {id n}, f.get? id = some n → isWellNamed id = true
  parent : ∀ {id n p}, f.get? id = some n → n.parent = some p → ∃ m, f.get? p = some m
  key : ∀ {id n}, f.get? id = some n → f.key? id = some (f.keyFor n)
  depth_lt : ∀ {id n}, f.get? id = some n → f.depth id < f.size
  mem_childIds : ∀ {id p}, id ∈ f.childIds p ↔ ∃ n, f.get? id = some n ∧ n.parent = some p

namespace WellFormed

variable {f : Forest}

theorem empty : WellFormed {} where
  id_eq h := by cases h
  named h := by cases h
  parent h := by cases h
  key h := by cases h
  depth_lt h := by cases h
  mem_childIds := by simp

/-- A child stands one step below its parent. -/
theorem depth_child (hf : WellFormed f) {id p : NodeId} {n : Node} (hn : f.get? id = some n)
    (hp : n.parent = some p) : f.depth id = f.depth p + 1 := by
  obtain ⟨m, hm⟩ := hf.parent hn hp
  have hnamed : isWellNamed n.id = true := by
    rw [hf.id_eq hn]
    exact hf.named hn
  rw [depth, hf.key hn, depth, hf.key hm, Option.getD_some, Option.getD_some, keyFor, hp]
  dsimp only
  rw [count_slash_childKey hnamed, hf.key hm, Option.getD_some]

theorem mem_nodes_iff (hf : WellFormed f) {n : Node} : n ∈ f.nodes ↔ f.get? n.id = some n := by
  rw [nodes, Table.mem_values_iff]
  constructor
  · rintro ⟨id, hid⟩
    have hget : f.get? id = some n := hid
    rw [hf.id_eq hget]
    exact hget
  · intro hn
    exact ⟨n.id, hn⟩

/-- A new node stands at most one step below the deepest one. -/
theorem depth_place_le (hf : WellFormed f) {n : Node} (h : Placeable f n) :
    (f.place n).depth n.id ≤ f.size := by
  rw [depth, key?_place, if_pos rfl, Option.getD_some, keyFor]
  cases hp : n.parent with
  | none =>
      dsimp only
      rw [count_slash_name h.named]
      exact Nat.zero_le _
  | some p =>
      obtain ⟨m, hm⟩ := h.parent p hp
      dsimp only
      rw [count_slash_childKey h.named]
      exact hf.depth_lt hm

theorem place (hf : WellFormed f) {n : Node} (h : Placeable f n) : WellFormed (f.place n) := by
  have hget : ∀ {id m}, (f.place n).get? id = some m →
      (id = n.id ∧ m = n) ∨ (id ≠ n.id ∧ f.get? id = some m) := by
    intro id m hm
    rw [get?_place] at hm
    split at hm
    next he => exact .inl ⟨he, (Option.some.inj hm).symm⟩
    next he => exact .inr ⟨he, hm⟩
  have hparent : ∀ {id m p}, (f.place n).get? id = some m → m.parent = some p →
      ∃ k, f.get? p = some k := by
    intro id m p hm hp
    rcases hget hm with ⟨-, rfl⟩ | ⟨-, hm⟩
    · exact h.parent p hp
    · exact hf.parent hm hp
  have hkey : ∀ {id m}, (f.place n).get? id = some m →
      (f.place n).key? id = some ((f.place n).keyFor m) := by
    intro id m hm
    rw [h.keyFor_place fun p hp => hparent hm hp, key?_place]
    rcases hget hm with ⟨rfl, rfl⟩ | ⟨hne, hm⟩
    · rw [if_pos rfl]
    · rw [if_neg hne, hf.key hm]
  refine ⟨?_, ?_, ?_, hkey, ?_, ?_⟩
  · intro id m hm
    rcases hget hm with ⟨rfl, rfl⟩ | ⟨-, hm⟩
    · rfl
    · exact hf.id_eq hm
  · intro id m hm
    rcases hget hm with ⟨rfl, -⟩ | ⟨-, hm⟩
    · exact h.named
    · exact hf.named hm
  · intro id m p hm hp
    obtain ⟨k, hk⟩ := hparent hm hp
    exact ⟨k, h.get?_place hk⟩
  · intro id m hm
    rw [size_place h]
    rcases hget hm with ⟨rfl, rfl⟩ | ⟨hne, hm⟩
    · exact Nat.lt_succ_of_le (hf.depth_place_le h)
    · have hlt := hf.depth_lt hm
      rw [depth, key?_place, if_neg hne, ← depth]
      omega
  · intro id p
    rw [childIds_place]
    constructor
    · intro hid
      split at hid
      next hp =>
        rcases List.mem_append.mp hid with hid | hid
        · obtain ⟨m, hm, hmp⟩ := hf.mem_childIds.mp hid
          exact ⟨m, h.get?_place hm, hmp⟩
        · obtain rfl := List.mem_singleton.mp hid
          exact ⟨n, by rw [get?_place, if_pos rfl], hp⟩
      next =>
        obtain ⟨m, hm, hmp⟩ := hf.mem_childIds.mp hid
        exact ⟨m, h.get?_place hm, hmp⟩
    · rintro ⟨m, hm, hp⟩
      rcases hget hm with ⟨rfl, rfl⟩ | ⟨-, hm⟩
      · rw [if_pos hp]
        simp
      · have hid := hf.mem_childIds.mpr ⟨m, hm, hp⟩
        split
        · exact List.mem_append_left _ hid
        · exact hid

theorem grown (hf : WellFormed f) {g : Forest} (h : Grown f g) : WellFormed g := by
  induction h with
  | refl => exact hf
  | insert _ hinsert ih =>
      obtain ⟨hplace, rfl⟩ := insert_eq_ok_iff.mp hinsert
      exact ih.place hplace

end WellFormed

theorem Grown.wellFormed {f : Forest} (h : Grown {} f) : WellFormed f := WellFormed.empty.grown h

end AgentGovernance.Memory.Forest
