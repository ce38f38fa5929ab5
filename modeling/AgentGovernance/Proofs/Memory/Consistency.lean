import AgentGovernance.Proofs.Memory.Absorption
import AgentGovernance.Proofs.Memory.Keys
import Mathlib.Data.List.Nodup

/-!
# Forests that operations make

Inserting, compacting and absorbing all come down to insertions into a forest that was empty at
first, whichever forests they take the nodes from. What insertions keep therefore holds of every
forest that these operations make, also where insertions are refused in between: its tables fit
together.
-/
namespace AgentGovernance.Memory.Forest

/-- The forests that operations make. A refused insertion leaves a forest as it was; absorbing takes
any two forests for the base and the current one. -/
inductive Reached : Forest → Prop
  | empty : Reached {}
  | insert {f : Forest} (n : Node) : Reached f → Reached (f.insertIfAllowed n)
  | compacted {f : Forest} (horizon : Option Instant) : Reached f → Reached (f.compacted horizon)
  | absorbNewer {f base current : Forest} : Reached f → Reached base → Reached current →
      Reached (f.absorbNewer base current)

theorem grown_restoreWithin (source : Forest) (steps : Nat) (f : Forest) (n : Node) :
    Grown f (restoreWithin source steps f n) := by
  induction steps generalizing n with
  | zero => exact .refl
  | succ steps ih =>
      rw [restoreWithin]
      split
      next => exact .refl
      next =>
        refine Grown.trans ?_ (grown_insertIfAllowed _ n)
        split
        next => exact .refl
        next p hp =>
          split
          next => exact .refl
          next =>
            cases source.get? p with
            | none => exact .refl
            | some m => exact ih m

theorem grown_foldl_restore (source f : Forest) (ns : List Node) :
    Grown f (ns.foldl (restore · source) f) := by
  induction ns generalizing f with
  | nil => exact .refl
  | cons n ns ih => exact (grown_restoreWithin source source.size f n).trans (ih _)

theorem grown_absorbNewer (f base current : Forest) : Grown f (f.absorbNewer base current) :=
  grown_foldl_restore current f _

/-- Whatever the operations, a forest has grown by insertions. -/
theorem Reached.grown {f : Forest} (h : Reached f) : Grown {} f := by
  induction h with
  | empty => exact .refl
  | insert n _ ih => exact ih.trans (grown_insertIfAllowed _ n)
  | compacted horizon _ _ => exact grown_compacted _ horizon
  | absorbNewer _ _ _ ih _ _ => exact ih.trans (grown_absorbNewer _ _ _)

/-- A node is listed among the children of its parent when it is placed, and never again. -/
theorem Grown.nodup_childIds {f : Forest} (h : Grown {} f) (p : NodeId) : (f.childIds p).Nodup := by
  induction h with
  | refl => exact List.nodup_nil
  | @insert g _ n hgrown hinsert ih =>
      obtain ⟨hplace, rfl⟩ := insert_eq_ok_iff.mp hinsert
      rw [childIds_place]
      split
      next =>
        have hnew : n.id ∉ g.childIds p := by
          intro hmem
          obtain ⟨m, hm, -⟩ := hgrown.wellFormed.mem_childIds.mp hmem
          rw [hplace.isNew] at hm
          cases hm
        have hconcat := ih.concat hnew
        rwa [List.concat_eq_append] at hconcat
      next => exact ih

/-- No node descends from its child. -/
theorem WellFormed.not_descends_parent {f : Forest} (hf : WellFormed f) {id p : NodeId} {n : Node}
    (hn : f.get? id = some n) (hp : n.parent = some p) : ¬Descends f id p := by
  intro hdown
  have hle := hf.depth_le hdown
  have hdepth := hf.depth_child hn hp
  omega

/-- The tables of a forest fit together. -/
structure Consistent (f : Forest) : Prop where
  /-- Nodes are kept under their own ids, and these are neither empty nor have a slash. -/
  named : ∀ id n, f.get? id = some n → n.id = id ∧ id.name ≠ "" ∧ '/' ∉ id.name.toList
  parent : ∀ id n p, f.get? id = some n → n.parent = some p → f.contains p = true
  /-- Following parents reaches a root, -/
  root : ∀ id n, f.get? id = some n →
    ∃ r m, f.get? r = some m ∧ m.parent = none ∧ Descends f r id
  /-- and never comes back. -/
  acyclic : ∀ id n p, f.get? id = some n → n.parent = some p → ¬Descends f id p
  /-- The nodes and the keys are there for the same ids, -/
  keyed : ∀ id, (f.key? id).isSome = f.contains id
  /-- and keys lead back to the ids that have them. -/
  keys : ∀ key id, f.keys.find? key = some id ↔ f.key? id = some key
  rootKey : ∀ id n, f.get? id = some n → n.parent = none → f.key? id = some id.name
  childKey : ∀ id n p, f.get? id = some n → n.parent = some p →
    ∃ key, f.key? p = some key ∧ f.key? id = some (key ++ "/" ++ id.name)
  /-- The children of a node are those that name it as their parent, each of them once. -/
  children : ∀ p, (f.childIds p).Nodup ∧
    ∀ id, id ∈ f.childIds p ↔ ∃ n, f.get? id = some n ∧ n.parent = some p

theorem Grown.consistent {f : Forest} (h : Grown {} f) : Consistent f where
  named id n hn := by
    have hwell := h.wellFormed
    exact ⟨hwell.id_eq hn, isWellNamed_iff.mp (hwell.named hn)⟩
  parent id n p hn hp := contains_iff.mpr (h.wellFormed.parent hn hp)
  root id n hn := h.wellFormed.exists_root hn
  acyclic id n p hn hp := h.wellFormed.not_descends_parent hn hp
  keyed := h.isSome_key?
  keys key id := h.find?_keys_iff
  rootKey id n hn hp := by
    have hkey := h.wellFormed.key hn
    rw [keyFor, hp, h.wellFormed.id_eq hn] at hkey
    exact hkey
  childKey id n p hn hp := by
    have hkey := h.wellFormed.key hn
    obtain ⟨m, hm⟩ := h.wellFormed.parent hn hp
    have hparent := h.wellFormed.key hm
    have hstart : (f.key? p).getD "" = f.keyFor m := by rw [hparent, Option.getD_some]
    refine ⟨_, hparent, ?_⟩
    rw [hkey, keyFor, hp, h.wellFormed.id_eq hn]
    simp only [hstart, Forest.childKey]
  children p := ⟨h.nodup_childIds p, fun id => h.wellFormed.mem_childIds⟩

/-- In every forest that operations make the tables fit together. An insertion into it is refused
exactly when the node cannot be placed, and then the forest stays as it is. -/
theorem reached_consistent {f : Forest} (h : Reached f) :
    Consistent f ∧
      ∀ n, ((∃ e, f.insert n = .error e) ↔ ¬Placeable f n) ∧
        ((∃ e, f.insert n = .error e) → f.insertIfAllowed n = f) := by
  refine ⟨h.grown.consistent, fun n => ?_⟩
  cases hinsert : f.insert n with
  | ok g =>
      have hplace : Placeable f n := (insert_eq_ok_iff.mp hinsert).1
      simp [hplace]
  | error e =>
      have hrefused : ¬Placeable f n := by
        intro hplace
        rw [insert_eq_ok_iff.mpr ⟨hplace, rfl⟩] at hinsert
        cases hinsert
      have hsame : f.insertIfAllowed n = f := by rw [insertIfAllowed, hinsert]
      simp [hrefused, hsame]

/-- A forest that was compacted, then given back what it needs for a late child, after a node with a
slash in its name had been refused. -/
theorem reached_consistent_restored :
    ∃ f, Reached f ∧ Consistent f ∧
      f.insertIfAllowed { staleChild with id := ⟨"a/b"⟩ } = f := by
  have hbase : Reached staleTree :=
    Reached.insert staleChild (Reached.insert staleRoot Reached.empty)
  have hcurrent : Reached (staleTree.place lateChild) := Reached.insert lateChild hbase
  have hreached := (hbase.compacted (some ⟨10⟩)).absorbNewer hbase hcurrent
  obtain ⟨hconsistent, hinsert⟩ := reached_consistent hreached
  refine ⟨_, hreached, hconsistent, (hinsert _).2 ((hinsert _).1.mpr ?_)⟩
  intro hplace
  have hnamed := (isWellNamed_iff.mp hplace.named).2
  exact absurd (by decide) hnamed

end AgentGovernance.Memory.Forest
