import AgentGovernance.Proofs.Memory.Consistency

/-!
# Compaction

A node is stale when it and everything below it are older than the horizon. A compaction takes away
the stale nodes, counts each of them once, and leaves the others as and where they are. Compactions
add up: one with a later horizon makes up for one with an earlier horizon, and a second one with the
same horizon finds nothing to do.
-/
namespace AgentGovernance.Memory.Forest

/-- A node and everything below it are older than the horizon; without a horizon no node is. -/
def IsStale (f : Forest) (horizon : Option Instant) (id : NodeId) : Prop :=
  ∃ h ∈ horizon, ∀ d n, Descends f id d → f.get? d = some n → n.timestamp < h

variable {f : Forest} {horizon : Option Instant} {id : NodeId}

/-- The stale nodes are those that nothing retains. -/
theorem isStale_iff {n : Node} (hn : f.get? id = some n) :
    IsStale f horizon id ↔ ¬Retains f horizon id := by
  constructor
  · rintro ⟨h, rfl, hstale⟩ ⟨d, m, hdown, hm, hrecent⟩
    exact Node.isRecent_some.mp hrecent (hstale d m hdown hm)
  · intro hnot
    cases horizon with
    | none => exact absurd ⟨id, n, .refl, hn, fun h hh => by cases hh⟩ hnot
    | some h =>
        refine ⟨h, rfl, fun d m hdown hm => ?_⟩
        by_contra hrecent
        exact hnot ⟨d, m, hdown, hm, Node.isRecent_some.mpr hrecent⟩

/-! ## Every node is counted once -/

/-- Of two nodes from which one descends, one descends from the other. -/
theorem Descends.comparable {a b d : NodeId} (ha : Descends f a d) (hb : Descends f b d) :
    Descends f a b ∨ Descends f b a := by
  induction ha with
  | refl => exact .inr hb
  | @child d p n hap hn hp ih =>
      rcases hb.parent_cases hn with rfl | ⟨q, hq, hbq⟩
      · exact .inl (hap.child hn hp)
      · rw [hp] at hq
        obtain rfl := Option.some.inj hq
        exact ih hbq

namespace WellFormed

/-- Two nodes of one depth have no descendants in common. -/
theorem eq_of_descends (hf : WellFormed f) {a b d : NodeId} (ha : Descends f a d)
    (hb : Descends f b d) (hdepth : f.depth a = f.depth b) : a = b := by
  have hsame : ∀ {s t : NodeId}, Descends f s t → f.depth s = f.depth t → s = t := by
    intro s t hst hst'
    cases hst with
    | refl => rfl
    | child hsp hn hp =>
        have hle := hf.depth_le hsp
        have hchild := hf.depth_child hn hp
        omega
  rcases ha.comparable hb with hab | hba
  · exact hsame hab hdepth
  · exact (hsame hba hdepth.symm).symm

end WellFormed

/-- Walks that set out from different nodes of one depth have no node in common. -/
theorem WellFormed.nodup_walks (hf : WellFormed f) (h : Instant) {steps depth : Nat}
    {ids : List NodeId} (hids : ids.Nodup)
    (hthere : ∀ i ∈ ids, (∃ n, f.get? i = some n) ∧ f.depth i = depth)
    (hsteps : f.size ≤ depth + steps) (hwalks : ∀ i ∈ ids, (f.visit h steps i).1.Nodup) :
    (ids.flatMap fun i => (f.visit h steps i).1).Nodup := by
  have hdown : ∀ i ∈ ids, ∀ d ∈ (f.visit h steps i).1, Descends f i d := by
    intro i hi d hd
    obtain ⟨hn, hdepth⟩ := hthere i hi
    exact (((hf.visit_iff h hn (by omega)).2 d).mp hd).1
  rw [List.nodup_flatMap]
  refine ⟨hwalks, hids.pairwise_of_forall_ne fun i hi j hj hne d hid hjd => ?_⟩
  have hdepth := (hthere i hi).2.trans (hthere j hj).2.symm
  exact hne (hf.eq_of_descends (hdown i hi d hid) (hdown j hj d hjd) hdepth)

/-- A walk comes upon each node once. -/
theorem Grown.nodup_visit (hf : Grown {} f) (h : Instant) {steps : Nat}
    (hid : ∃ n, f.get? id = some n) (hsteps : f.size ≤ f.depth id + steps) :
    (f.visit h steps id).1.Nodup := by
  have hwell := hf.wellFormed
  induction steps generalizing id with
  | zero => exact List.nodup_nil
  | succ steps ih =>
      have hchild : ∀ c ∈ f.childIds id,
          (∃ m, f.get? c = some m) ∧ f.depth c = f.depth id + 1 := by
        intro c hc
        obtain ⟨m, hm, hp⟩ := hwell.mem_childIds.mp hc
        exact ⟨⟨m, hm⟩, hwell.depth_child hm hp⟩
      have hbelow : (((f.childIds id).map (f.visit h steps)).flatMap (·.1)).Nodup := by
        rw [List.flatMap_map]
        refine hwell.nodup_walks h (hf.nodup_childIds id) hchild (by omega) fun c hc => ?_
        obtain ⟨hn, hdepth⟩ := hchild c hc
        exact ih hn (by omega)
      have hself : id ∉ ((f.childIds id).map (f.visit h steps)).flatMap (·.1) := by
        rw [List.flatMap_map, List.mem_flatMap]
        rintro ⟨c, hc, hd⟩
        obtain ⟨hn, hdepth⟩ := hchild c hc
        have hle := hwell.depth_le (((hwell.visit_iff h hn (by omega)).2 id).mp hd).1
        omega
      rw [visit]
      dsimp only
      split
      next => exact hbelow.append (List.nodup_singleton id) (by simpa using hself)
      next => rwa [List.append_nil]

/-- The walks from the roots come upon each node once. -/
theorem Grown.nodup_prunable (hf : Grown {} f) (horizon : Option Instant) :
    (f.prunable horizon).Nodup := by
  have hwell := hf.wellFormed
  cases horizon with
  | none => exact List.nodup_nil
  | some h =>
      have hroots : ((f.nodes.filter (·.parent.isNone)).map (·.id)).Nodup :=
        hwell.nodup_nodes.sublist (List.filter_sublist.map _)
      have hthere : ∀ i ∈ (f.nodes.filter (·.parent.isNone)).map (·.id),
          (∃ n, f.get? i = some n) ∧ f.depth i = 0 := by
        intro i hi
        obtain ⟨n, hn, rfl⟩ := List.mem_map.mp hi
        obtain ⟨hmem, hp⟩ := List.mem_filter.mp hn
        have hget := hwell.mem_nodes_iff.mp hmem
        exact ⟨⟨n, hget⟩, hwell.depth_root hget (Option.isNone_iff_eq_none.mp hp)⟩
      have hwalks := hwell.nodup_walks h hroots hthere (Nat.le_add_left _ 0) fun i hi =>
        hf.nodup_visit h (hthere i hi).1 (Nat.le_add_left _ _)
      rwa [List.flatMap_map] at hwalks

/-! ## What a compaction leaves -/

/-- What a compaction makes of a forest, and how many nodes it says to have pruned. -/
structure Compacts (f : Forest) (horizon : Option Instant) (kept : Forest) (pruned : Nat) :
    Prop where
  removed : ∀ id n, f.get? id = some n → (kept.get? id = none ↔ IsStale f horizon id)
  /-- Whatever is kept is as it was and has the key that it had. -/
  same : ∀ id n, kept.get? id = some n → f.get? id = some n ∧ kept.key? id = f.key? id
  /-- The children of a node are those of its children that are kept. -/
  children : ∀ p, (kept.childIds p).Nodup ∧
    ∀ c, c ∈ kept.childIds p ↔ c ∈ f.childIds p ∧ kept.contains c = true
  counted : pruned = f.ids.countP fun id => !kept.contains id
  size : kept.size + pruned = f.size

theorem get?_compacted_eq_none_iff (hf : WellFormed f) {n : Node} (hn : f.get? id = some n) :
    (f.compacted horizon).get? id = none ↔ IsStale f horizon id := by
  rw [isStale_iff hn, Option.eq_none_iff_forall_ne_some]
  constructor
  · intro hnone hretains
    exact hnone n ((hf.get?_compacted horizon).mpr ⟨hn, hretains⟩)
  · intro hnot m hm
    exact hnot ((hf.get?_compacted horizon).mp hm).2

theorem mem_prunable_iff_gone (hf : WellFormed f) :
    id ∈ f.prunable horizon ↔
      (∃ n, f.get? id = some n) ∧ (f.compacted horizon).get? id = none := by
  rw [hf.mem_prunable_iff]
  refine and_congr_right fun ⟨n, hn⟩ => ?_
  rw [get?_compacted_eq_none_iff hf hn, isStale_iff hn]

/-- The number of nodes found to be prunable is the number of those that go. -/
theorem length_prunable (hf : Grown {} f) (horizon : Option Instant) :
    (f.prunable horizon).length =
      f.ids.countP fun id => !(f.compacted horizon).contains id := by
  have hperm : (f.prunable horizon).Perm
      (f.ids.filter fun id => !(f.compacted horizon).contains id) := by
    rw [List.perm_ext_iff_of_nodup (hf.nodup_prunable horizon) (f.nodup_ids.filter _)]
    intro id
    rw [mem_prunable_iff_gone hf.wellFormed, List.mem_filter, mem_ids_iff, Bool.not_eq_true',
      contains_eq_false_iff]
  rw [hperm.length_eq, List.countP_eq_length_filter]

theorem Within.mem_childIds_iff {g : Forest} (hf : WellFormed f) (hg : WellFormed g)
    (hgf : Within g f) {p c : NodeId} :
    c ∈ g.childIds p ↔ c ∈ f.childIds p ∧ g.contains c = true := by
  rw [hg.mem_childIds, hf.mem_childIds, contains_iff]
  constructor
  · rintro ⟨n, hn, hp⟩
    exact ⟨⟨n, hgf c n hn, hp⟩, n, hn⟩
  · rintro ⟨⟨n, hn, hp⟩, m, hm⟩
    rw [hgf c m hm] at hn
    obtain rfl := Option.some.inj hn
    exact ⟨m, hm, hp⟩

theorem compacts_compacted (hf : Grown {} f) (horizon : Option Instant) :
    Compacts f horizon (f.compacted horizon) (f.prunable horizon).length := by
  have hwell := hf.wellFormed
  have hgrown := grown_compacted f horizon
  have hwithin := compacted_within hf .refl horizon
  have hpruned := length_prunable hf horizon
  refine ⟨fun id n hn => get?_compacted_eq_none_iff hwell hn, fun id n hn => ⟨?_, ?_⟩,
    fun p => ⟨hgrown.nodup_childIds p, fun c => ?_⟩, hpruned, ?_⟩
  · exact hwithin id n hn
  · exact hgrown.wellFormed.key?_of_within hwell hwithin hn
  · exact hwithin.mem_childIds_iff hwell hgrown.wellFormed
  · rw [hpruned]
    exact hwithin.size_add

/-! ## Compacting again -/

/-- What is recent by a later horizon is still there to retain a node. -/
theorem retains_compacted (hf : Grown {} f) {later : Option Instant}
    (hlater : ∀ n : Node, n.IsRecent later → n.IsRecent horizon) :
    Retains (f.compacted horizon) later id ↔ Retains f later id := by
  have hwithin := compacted_within hf .refl horizon
  constructor
  · rintro ⟨d, n, hdown, hn, hrecent⟩
    exact ⟨d, n, hdown.mono hwithin, hwithin d n hn, hrecent⟩
  · rintro ⟨d, n, hdown, hn, hrecent⟩
    have hthere : (f.compacted horizon).get? d = some n :=
      (hf.wellFormed.get?_compacted horizon).mpr ⟨hn, d, n, .refl, hn, hlater n hrecent⟩
    have hbelow := (grown_compacted f horizon).wellFormed.descends_of_within hwithin hdown hthere
    exact ⟨d, n, hbelow.1, hthere, hrecent⟩

/-- A later horizon makes up for an earlier one. -/
theorem get?_compacted_compacted (hf : Grown {} f) {later : Option Instant}
    (hlater : ∀ n : Node, n.IsRecent later → n.IsRecent horizon) (id : NodeId) :
    ((f.compacted horizon).compacted later).get? id = (f.compacted later).get? id := by
  have hwell := hf.wellFormed
  rw [Option.ext_iff]
  intro n
  rw [(grown_compacted f horizon).wellFormed.get?_compacted, hwell.get?_compacted,
    hwell.get?_compacted, retains_compacted hf hlater]
  constructor
  · rintro ⟨⟨hn, -⟩, hretains⟩
    exact ⟨hn, hretains⟩
  · rintro ⟨hn, d, m, hdown, hm, hrecent⟩
    exact ⟨⟨hn, d, m, hdown, hm, hlater m hrecent⟩, d, m, hdown, hm, hrecent⟩

theorem prunable_compacted (hf : Grown {} f) (horizon : Option Instant) :
    (f.compacted horizon).prunable horizon = [] := by
  rw [List.eq_nil_iff_forall_not_mem]
  intro id hid
  obtain ⟨⟨n, hn⟩, hnot⟩ :=
    (grown_compacted f horizon).wellFormed.mem_prunable_iff.mp hid
  rw [retains_compacted hf fun _ h => h] at hnot
  exact hnot ((hf.wellFormed.get?_compacted horizon).mp hn).2

/-- A compaction takes away the nodes that are stale, whatever the shape of the trees and the order
of the times in them, and leaves the others as and where they are; without a horizon these are all.
A second one with the same horizon finds nothing to prune, and one with a later horizon leaves what
it would have left at first. -/
theorem compacted_exactly (hf : Grown {} f) :
    (∀ horizon, Compacts f horizon (f.compacted horizon) (f.prunable horizon).length) ∧
      (f.prunable none = [] ∧ ∀ id, (f.compacted none).get? id = f.get? id) ∧
      (∀ h, (f.compacted (some h)).prunable (some h) = [] ∧
        ∀ id, ((f.compacted (some h)).compacted (some h)).get? id =
          (f.compacted (some h)).get? id) ∧
      ∀ h later, h ≤ later →
        ∀ id, ((f.compacted (some h)).compacted (some later)).get? id =
          (f.compacted (some later)).get? id := by
  refine ⟨compacts_compacted hf, ⟨rfl, fun id => ?_⟩, fun h => ⟨prunable_compacted hf _, ?_⟩, ?_⟩
  · rw [Option.ext_iff]
    intro n
    rw [hf.wellFormed.get?_compacted]
    exact and_iff_left_of_imp fun hn => ⟨id, n, .refl, hn, fun h hh => by cases hh⟩
  · exact get?_compacted_compacted hf fun _ h => h
  · intro h later hle
    refine get?_compacted_compacted hf fun n hrecent => ?_
    rw [Node.isRecent_some] at hrecent ⊢
    exact fun hlt => hrecent (Int.lt_of_lt_of_le hlt hle)

/-- A late child keeps the root of its tree but not its elder sibling; before a horizon that it has
not reached either, the tree is stale as a whole. -/
theorem compacted_exactly_mixedTree :
    ∃ f, Grown {} f ∧ f.size = 3 ∧ f.prunable (some ⟨10⟩) = [⟨"c1"⟩] ∧
      (f.compacted (some ⟨10⟩)).size = 2 ∧ IsStale f (some ⟨10⟩) ⟨"c1"⟩ ∧
      ¬IsStale f (some ⟨10⟩) ⟨"r1"⟩ ∧
      (f.compacted (some ⟨10⟩)).key? ⟨"c2"⟩ = some "r1/c2" ∧
      ((f.compacted (some ⟨10⟩)).compacted (some ⟨30⟩)).get? ⟨"r1"⟩ = none := by
  have hlate : staleTree.insert lateChild = .ok (staleTree.place lateChild) := rfl
  have hgrown : Grown {} (staleTree.place lateChild) := grown_staleTree.insert hlate
  have hwell := hgrown.wellFormed
  obtain ⟨hcompacts, -, -, hlater⟩ := compacted_exactly hgrown
  obtain ⟨hremoved, hsame, -, -, hsize⟩ := hcompacts (some ⟨10⟩)
  have hkept : ∀ id n, (staleTree.place lateChild).get? id = some n →
      id ∉ (staleTree.place lateChild).prunable (some ⟨10⟩) →
      ∃ m, ((staleTree.place lateChild).compacted (some ⟨10⟩)).get? id = some m := by
    intro id n hn hnot
    rw [mem_prunable_iff_gone hwell] at hnot
    exact Option.ne_none_iff_exists'.mp fun hnone => hnot ⟨⟨n, hn⟩, hnone⟩
  refine ⟨_, hgrown, rfl, rfl, ?_, ?_, ?_, ?_, ?_⟩
  · have hcount : ((staleTree.place lateChild).prunable (some ⟨10⟩)).length = 1 := rfl
    have htotal : (staleTree.place lateChild).size = 3 := rfl
    omega
  · have hgone := ((mem_prunable_iff_gone hwell).mp
      (show ⟨"c1"⟩ ∈ (staleTree.place lateChild).prunable (some ⟨10⟩) by decide)).2
    exact (hremoved _ staleChild rfl).mp hgone
  · obtain ⟨m, hm⟩ := hkept ⟨"r1"⟩ staleRoot rfl (by decide)
    rw [← hremoved _ staleRoot rfl, hm]
    exact Option.some_ne_none m
  · obtain ⟨m, hm⟩ := hkept ⟨"c2"⟩ lateChild rfl (by decide)
    rw [(hsame _ m hm).2]
    rfl
  · rw [hlater ⟨10⟩ ⟨30⟩ (by decide)]
    exact ((mem_prunable_iff_gone hwell).mp
      (show ⟨"r1"⟩ ∈ (staleTree.place lateChild).prunable (some ⟨30⟩) by decide)).2

end AgentGovernance.Memory.Forest
