import AgentGovernance.Proofs.Memory.Growth

/-!
# Descent

A node descends from its ancestors and from itself. A forest that lies within another one, node by
node, and holds the parents of its nodes holds all their ancestors, so nothing is different about
them: they descend from each other in both forests alike and have the same keys.
-/
namespace AgentGovernance.Memory.Forest

/-- The node itself and whatever stands below it. -/
inductive Descends (f : Forest) (top : NodeId) : NodeId → Prop
  | refl : Descends f top top
  | child {id p : NodeId} {n : Node} : Descends f top p → f.get? id = some n →
      n.parent = some p → Descends f top id

/-- Every node of one forest is in the other. -/
def Within (f g : Forest) : Prop := ∀ id n, f.get? id = some n → g.get? id = some n

theorem Grown.within {f g : Forest} (h : Grown f g) : Within f g := fun _ _ hn => h.get? hn

/-- The nodes of the larger forest are those of the smaller one and the others. -/
theorem Within.size_add {f g : Forest} (h : Within f g) :
    f.size + g.ids.countP (fun id => !f.contains id) = g.size := by
  have hperm : (g.ids.filter f.contains).Perm f.ids := by
    rw [List.perm_ext_iff_of_nodup (g.nodup_ids.filter _) f.nodup_ids]
    intro id
    rw [List.mem_filter, mem_ids_iff, mem_ids_iff, contains_iff]
    constructor
    · exact And.right
    · rintro ⟨n, hn⟩
      exact ⟨⟨n, h id n hn⟩, n, hn⟩
  rw [List.countP_eq_length_filter, ← length_ids f, ← hperm.length_eq, ← length_ids g]
  exact (List.length_eq_length_filter_add f.contains).symm

namespace Descends

variable {f g : Forest} {top id : NodeId}

theorem trans {middle : NodeId} (h : Descends f top middle) (hid : Descends f middle id) :
    Descends f top id := by
  induction hid with
  | refl => exact h
  | child _ hn hp ih => exact ih.child hn hp

theorem mono (hfg : Within f g) (h : Descends f top id) : Descends g top id := by
  induction h with
  | refl => exact .refl
  | child _ hn hp ih => exact ih.child (hfg _ _ hn) hp

/-- What descends from a node is in the forest with it. -/
theorem exists_get? (h : Descends f top id) (htop : ∃ n, f.get? top = some n) :
    ∃ n, f.get? id = some n := by
  cases h with
  | refl => exact htop
  | child _ hn _ => exact ⟨_, hn⟩

/-- The last step of a descent. -/
theorem parent_cases {n : Node} (h : Descends f top id) (hn : f.get? id = some n) :
    top = id ∨ ∃ p, n.parent = some p ∧ Descends f top p := by
  cases h with
  | refl => exact .inl rfl
  | @child _ p m htop hm hp =>
      rw [hm] at hn
      obtain rfl := Option.some.inj hn
      exact .inr ⟨p, hp, htop⟩

end Descends

namespace WellFormed

variable {f g : Forest}

/-- What holds of a node when it holds of its parent holds of every node. -/
theorem parent_induction (hf : WellFormed f) {P : NodeId → Prop}
    (step : ∀ id n, f.get? id = some n → (∀ p, n.parent = some p → P p) → P id) {id : NodeId}
    {n : Node} (hn : f.get? id = some n) : P id := by
  induction hdepth : f.depth id using Nat.strongRecOn generalizing id n with
  | _ depth ih =>
      refine step id n hn fun p hp => ?_
      obtain ⟨m, hm⟩ := hf.parent hn hp
      have hlt : f.depth p < depth := by
        rw [← hdepth, hf.depth_child hn hp]
        exact Nat.lt_succ_self _
      exact ih (f.depth p) hlt hm rfl

/-- Every node descends from a root. -/
theorem exists_root (hf : WellFormed f) {id : NodeId} {n : Node} (hn : f.get? id = some n) :
    ∃ r m, f.get? r = some m ∧ m.parent = none ∧ Descends f r id := by
  refine hf.parent_induction (P := fun id => ∃ r m, f.get? r = some m ∧ m.parent = none ∧
    Descends f r id) ?_ hn
  intro id n hn ih
  cases hp : n.parent with
  | none => exact ⟨id, n, hn, hp, .refl⟩
  | some p =>
      obtain ⟨r, m, hm, hroot, hdown⟩ := ih p hp
      exact ⟨r, m, hm, hroot, hdown.child hn hp⟩

theorem depth_root (hf : WellFormed f) {id : NodeId} {n : Node} (hn : f.get? id = some n)
    (hp : n.parent = none) : f.depth id = 0 := by
  have hid := hf.id_eq hn
  have hnamed := hf.named hn
  rw [depth, hf.key hn, Option.getD_some, keyFor, hp, hid]
  exact count_slash_name hnamed

theorem depth_le (hf : WellFormed f) {top id : NodeId} (h : Descends f top id) :
    f.depth top ≤ f.depth id := by
  induction h with
  | refl => exact Nat.le_refl _
  | child _ hn hp ih =>
      rw [hf.depth_child hn hp]
      exact Nat.le_succ_of_le ih

/-- The first step of a descent goes to a child. -/
theorem descends_iff (hf : WellFormed f) {top id : NodeId} :
    Descends f top id ↔ id = top ∨ ∃ c ∈ f.childIds top, Descends f c id := by
  constructor
  · intro h
    induction h with
    | refl => exact .inl rfl
    | @child id p n _ hn hp ih =>
        rcases ih with rfl | ⟨c, hc, hdown⟩
        · exact .inr ⟨id, hf.mem_childIds.mpr ⟨n, hn, hp⟩, .refl⟩
        · exact .inr ⟨c, hc, hdown.child hn hp⟩
  · rintro (rfl | ⟨c, hc, hdown⟩)
    · exact .refl
    · obtain ⟨n, hn, hp⟩ := hf.mem_childIds.mp hc
      exact (Descends.refl.child hn hp).trans hdown

/-- The ancestors of a node that both forests have are in both of them. -/
theorem descends_of_within (hf : WellFormed f) (hfg : Within f g) {top id : NodeId}
    (h : Descends g top id) {n : Node} (hn : f.get? id = some n) :
    Descends f top id ∧ ∃ m, f.get? top = some m := by
  induction h generalizing n with
  | refl => exact ⟨.refl, n, hn⟩
  | child _ hm hp ih =>
      rw [hfg _ n hn] at hm
      obtain rfl := Option.some.inj hm
      obtain ⟨k, hk⟩ := hf.parent hn hp
      obtain ⟨hdown, htop⟩ := ih hk
      exact ⟨hdown.child hn hp, htop⟩

theorem key?_of_within (hf : WellFormed f) (hg : WellFormed g) (hfg : Within f g) {id : NodeId}
    {n : Node} (hn : f.get? id = some n) : f.key? id = g.key? id := by
  refine hf.parent_induction (P := fun id => f.key? id = g.key? id) ?_ hn
  intro id n hn ih
  rw [hf.key hn, hg.key (hfg id n hn), keyFor, keyFor]
  cases hp : n.parent with
  | none => rfl
  | some p => simp only [ih p hp]

end WellFormed

end AgentGovernance.Memory.Forest
