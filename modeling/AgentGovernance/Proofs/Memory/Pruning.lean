import AgentGovernance.Proofs.Memory.Descent
import Mathlib.Data.List.Induction

/-!
# Pruning

A compaction keeps the nodes of which some descendant is not older than the horizon, and it keeps
them as they are. The walks that find the others have as many links as they need, because the walk
below a node is no longer than the nodes that do not stand above it. The nodes that stay are built
into a new forest parents first, and none of them is refused.
-/
namespace AgentGovernance.Memory

/-- Whether a node is not older than the horizon; without a horizon every node is recent. -/
def Node.IsRecent (n : Node) (horizon : Option Instant) : Prop := ∀ h ∈ horizon, h ≤ n.timestamp

theorem Node.isRecent_some {n : Node} {h : Instant} :
    n.IsRecent (some h) ↔ ¬n.timestamp < h := by
  simp only [IsRecent, Option.mem_def, Option.some.injEq, forall_eq']
  exact Int.not_lt.symm

namespace Forest

/-- Whether a node or something below it is recent. -/
def Retains (f : Forest) (horizon : Option Instant) (id : NodeId) : Prop :=
  ∃ d n, Descends f id d ∧ f.get? d = some n ∧ n.IsRecent horizon

theorem Retains.ancestor {f : Forest} {horizon : Option Instant} {top id : NodeId}
    (h : Retains f horizon id) (htop : Descends f top id) : Retains f horizon top := by
  obtain ⟨d, n, hd, hn, hrecent⟩ := h
  exact ⟨d, n, htop.trans hd, hn, hrecent⟩

theorem grown_foldl_insertIfAllowed (f : Forest) (ns : List Node) :
    Grown f (ns.foldl insertIfAllowed f) := by
  induction ns generalizing f with
  | nil => exact .refl
  | cons n ns ih => exact (grown_insertIfAllowed f n).trans (ih _)

/-- Building a forest from nodes each of which comes after its parent refuses none of them. -/
theorem get?_foldl_insertIfAllowed {ns : List Node} (hnodup : (ns.map (·.id)).Nodup)
    (hnamed : ∀ n ∈ ns, isWellNamed n.id = true)
    (hparent : ∀ before n after, ns = before ++ n :: after → ∀ p, n.parent = some p →
      ∃ m ∈ before, m.id = p) {id : NodeId} {n : Node} :
    (ns.foldl insertIfAllowed {}).get? id = some n ↔ n ∈ ns ∧ n.id = id := by
  induction ns using List.reverseRecOn generalizing id n with
  | nil => simp
  | append_singleton ns k ih =>
      rw [List.map_append, List.nodup_append] at hnodup
      have hearlier : ∀ {id n},
          (ns.foldl insertIfAllowed {}).get? id = some n ↔ n ∈ ns ∧ n.id = id := by
        refine ih hnodup.1 (fun m hm => hnamed m (List.mem_append_left _ hm)) ?_
        intro before m after hns p hp
        exact hparent before m (after ++ [k]) (by rw [hns]; simp) p hp
      have hnew : ∀ m ∈ ns, m.id ≠ k.id := fun m hm =>
        hnodup.2.2 m.id (List.mem_map_of_mem hm) k.id (by simp)
      have hplace : Placeable (ns.foldl insertIfAllowed {}) k := by
        refine ⟨hnamed k (by simp), ?_, ?_⟩
        · rw [Option.eq_none_iff_forall_ne_some]
          intro m hm
          obtain ⟨hmem, he⟩ := hearlier.mp hm
          exact hnew m hmem he
        · intro p hp
          obtain ⟨m, hm, he⟩ := hparent ns k [] rfl p hp
          exact ⟨m, hearlier.mpr ⟨hm, he⟩⟩
      rw [List.foldl_append, List.foldl_cons, List.foldl_nil, insertIfAllowed_of_placeable hplace,
        get?_place, List.mem_append, List.mem_singleton]
      split
      next he =>
        constructor
        · intro h
          obtain rfl := Option.some.inj h
          exact ⟨.inr rfl, he.symm⟩
        · rintro ⟨hn | rfl, hid⟩
          · exact absurd (hid.trans he) (hnew n hn)
          · rfl
      next he =>
        rw [hearlier]
        constructor
        · rintro ⟨hn, hid⟩
          exact ⟨.inl hn, hid⟩
        · rintro ⟨hn | rfl, hid⟩
          · exact ⟨hn, hid⟩
          · exact absurd hid.symm he

theorem perm_parentsFirst (f : Forest) (ns : List Node) : (f.parentsFirst ns).Perm ns :=
  List.mergeSort_perm ns _

theorem pairwise_parentsFirst (f : Forest) (ns : List Node) :
    (f.parentsFirst ns).Pairwise fun m n => f.depth m.id ≤ f.depth n.id := by
  have hsorted : (f.parentsFirst ns).Pairwise fun m n =>
      decide (f.depth m.id ≤ f.depth n.id) = true := by
    refine List.pairwise_mergeSort ?_ ?_ ns
    · intro k m n hkm hmn
      rw [decide_eq_true_eq] at hkm hmn ⊢
      exact Nat.le_trans hkm hmn
    · intro m n
      rw [Bool.or_eq_true, decide_eq_true_eq, decide_eq_true_eq]
      exact Nat.le_total _ _
  exact hsorted.imp of_decide_eq_true

namespace WellFormed

variable {f : Forest}

/-- A node is retained for its own sake or for that of a child. -/
theorem retains_iff (hf : WellFormed f) {horizon : Option Instant} {id : NodeId} :
    Retains f horizon id ↔
      (∃ n, f.get? id = some n ∧ n.IsRecent horizon) ∨
        ∃ c ∈ f.childIds id, Retains f horizon c := by
  constructor
  · rintro ⟨d, n, hd, hn, hrecent⟩
    rcases hf.descends_iff.mp hd with rfl | ⟨c, hc, hcd⟩
    · exact .inl ⟨n, hn, hrecent⟩
    · exact .inr ⟨c, hc, d, n, hcd, hn, hrecent⟩
  · rintro (⟨n, hn, hrecent⟩ | ⟨c, hc, hretains⟩)
    · exact ⟨id, n, .refl, hn, hrecent⟩
    · exact hretains.ancestor (hf.descends_iff.mpr (.inr ⟨c, hc, .refl⟩))

/-- A walk with enough links finds what is to be pruned below a node. What it needs is bounded
by the depth: a walk that sets out further down needs fewer links. -/
theorem visit_iff (hf : WellFormed f) (h : Instant) {steps : Nat} {id : NodeId}
    (hid : ∃ n, f.get? id = some n) (hsteps : f.size ≤ f.depth id + steps) :
    ((f.visit h steps id).2 = true ↔ ¬Retains f (some h) id) ∧
      ∀ d, d ∈ (f.visit h steps id).1 ↔ Descends f id d ∧ ¬Retains f (some h) d := by
  induction steps generalizing id with
  | zero =>
      obtain ⟨n, hn⟩ := hid
      have hlt := hf.depth_lt hn
      omega
  | succ steps ih =>
      obtain ⟨n, hn⟩ := hid
      have hchild : ∀ c ∈ f.childIds id,
          ((f.visit h steps c).2 = true ↔ ¬Retains f (some h) c) ∧
            ∀ d, d ∈ (f.visit h steps c).1 ↔ Descends f c d ∧ ¬Retains f (some h) d := by
        intro c hc
        obtain ⟨m, hm, hp⟩ := hf.mem_childIds.mp hc
        have hdepth := hf.depth_child hm hp
        exact ih ⟨m, hm⟩ (by omega)
      have hstale : (f.visit h (steps + 1) id).2 = true ↔ ¬Retains f (some h) id := by
        have hbelow : ((f.childIds id).map (f.visit h steps)).all (·.2) = true ↔
            ∀ c ∈ f.childIds id, ¬Retains f (some h) c := by
          simp only [List.all_map, List.all_eq_true, Function.comp_apply]
          exact forall₂_congr fun c hc => (hchild c hc).1
        have hown : (f.get? id).any (·.timestamp < h) = true ↔
            ¬∃ m, f.get? id = some m ∧ m.IsRecent (some h) := by
          simp [hn, Node.isRecent_some]
        rw [visit, Bool.and_eq_true, hbelow, hown, hf.retains_iff, not_or, and_comm]
        simp only [not_exists, not_and]
      refine ⟨hstale, fun d => ?_⟩
      have hlisted : d ∈ (f.visit h (steps + 1) id).1 ↔
          (∃ c ∈ f.childIds id, d ∈ (f.visit h steps c).1) ∨
            (f.visit h (steps + 1) id).2 = true ∧ d = id := by
        simp only [visit, List.mem_append, List.mem_flatMap, List.mem_map, exists_exists_and_eq_and]
        split <;> simp_all
      rw [hlisted, hf.descends_iff, hstale]
      constructor
      · rintro (⟨c, hc, hd⟩ | ⟨hnot, rfl⟩)
        · obtain ⟨hdown, hnot⟩ := ((hchild c hc).2 d).mp hd
          exact ⟨.inr ⟨c, hc, hdown⟩, hnot⟩
        · exact ⟨.inl rfl, hnot⟩
      · rintro ⟨rfl | ⟨c, hc, hdown⟩, hnot⟩
        · exact .inr ⟨hnot, rfl⟩
        · exact .inl ⟨c, hc, ((hchild c hc).2 d).mpr ⟨hdown, hnot⟩⟩

theorem mem_staleSubtrees_iff (hf : WellFormed f) (h : Instant) {id : NodeId} :
    id ∈ f.staleSubtrees h ↔ (∃ n, f.get? id = some n) ∧ ¬Retains f (some h) id := by
  have hwalk : ∀ r m, f.get? r = some m →
      (id ∈ (f.visit h f.size r).1 ↔ Descends f r id ∧ ¬Retains f (some h) id) :=
    fun r m hm => (hf.visit_iff h ⟨m, hm⟩ (Nat.le_add_left _ _)).2 id
  simp only [staleSubtrees, List.mem_flatMap, List.mem_filter, hf.mem_nodes_iff]
  constructor
  · rintro ⟨m, ⟨hm, -⟩, hid⟩
    obtain ⟨hdown, hnot⟩ := (hwalk m.id m hm).mp hid
    exact ⟨hdown.exists_get? ⟨m, hm⟩, hnot⟩
  · rintro ⟨⟨n, hn⟩, hnot⟩
    obtain ⟨r, m, hm, hroot, hdown⟩ := hf.exists_root hn
    obtain rfl := hf.id_eq hm
    exact ⟨m, ⟨hm, by rw [hroot]; rfl⟩, (hwalk m.id m hm).mpr ⟨hdown, hnot⟩⟩

theorem mem_prunable_iff (hf : WellFormed f) {horizon : Option Instant} {id : NodeId} :
    id ∈ f.prunable horizon ↔ (∃ n, f.get? id = some n) ∧ ¬Retains f horizon id := by
  cases horizon with
  | some h => exact hf.mem_staleSubtrees_iff h
  | none =>
      have hall : (∃ n, f.get? id = some n) → Retains f none id := by
        rintro ⟨n, hn⟩
        exact ⟨id, n, .refl, hn, fun h hh => by cases hh⟩
      constructor
      · intro h
        cases h
      · rintro ⟨hn, hnot⟩
        exact absurd (hall hn) hnot

theorem nodup_nodes (hf : WellFormed f) : (f.nodes.map (·.id)).Nodup := by
  have hkeys : f.nodes.map (·.id) = f.stored.keys := by
    simp only [nodes, Table.values, Table.keys, List.map_map]
    refine List.map_congr_left fun e he => ?_
    have hfind : f.get? e.1 = some e.2 := f.stored.mem_entries_iff.mp he
    exact hf.id_eq hfind
  rw [hkeys]
  exact f.stored.nodup_keys

/-- The nodes that are not prunable stay as they are, and nothing else does. -/
theorem get?_compacted (hf : WellFormed f) (horizon : Option Instant) {id : NodeId} {n : Node} :
    (f.compacted horizon).get? id = some n ↔ f.get? id = some n ∧ Retains f horizon id := by
  have hkept : ∀ {m : Node},
      m ∈ (f.parentsFirst f.nodes).filter (fun n => !(f.prunable horizon).contains n.id) ↔
        f.get? m.id = some m ∧ Retains f horizon m.id := by
    intro m
    simp only [List.mem_filter, (perm_parentsFirst f f.nodes).mem_iff, hf.mem_nodes_iff, Bool.not_eq_true',
      List.contains_eq_mem, decide_eq_false_iff_not, hf.mem_prunable_iff, not_and, not_not]
    constructor
    · rintro ⟨hm, hretains⟩
      exact ⟨hm, hretains ⟨m, hm⟩⟩
    · rintro ⟨hm, hretains⟩
      exact ⟨hm, fun _ => hretains⟩
  have hsorted := (pairwise_parentsFirst f f.nodes).filter
    (fun n => !(f.prunable horizon).contains n.id)
  rw [compacted, get?_foldl_insertIfAllowed]
  · rw [hkept]
    constructor
    · rintro ⟨⟨hn, hretains⟩, rfl⟩
      exact ⟨hn, hretains⟩
    · rintro ⟨hn, hretains⟩
      obtain rfl := hf.id_eq hn
      exact ⟨⟨hn, hretains⟩, rfl⟩
  · have hperm := (perm_parentsFirst f f.nodes).map (·.id)
    exact (hperm.nodup_iff.mpr hf.nodup_nodes).sublist (List.filter_sublist.map _)
  · intro m hm
    exact hf.named (hkept.mp hm).1
  · intro before m after hsplit p hp
    rw [hsplit] at hkept hsorted
    obtain ⟨hm, hretains⟩ := hkept.mp (List.mem_append_right before List.mem_cons_self)
    obtain ⟨k, hk⟩ := hf.parent hm hp
    obtain rfl := hf.id_eq hk
    have hmem := hkept.mpr ⟨hk, hretains.ancestor (Descends.refl.child hm hp)⟩
    have hdepth := hf.depth_child hm hp
    rcases List.mem_append.mp hmem with hbefore | hafter
    · exact ⟨k, hbefore, rfl⟩
    · rw [List.pairwise_append, List.pairwise_cons] at hsorted
      rcases List.mem_cons.mp hafter with rfl | hafter
      · omega
      · have hle := hsorted.2.1.1 k hafter
        omega

end WellFormed

theorem grown_compacted (f : Forest) (horizon : Option Instant) :
    Grown {} (f.compacted horizon) := grown_foldl_insertIfAllowed _ _

end Forest

end AgentGovernance.Memory
