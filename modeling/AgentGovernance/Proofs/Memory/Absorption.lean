import AgentGovernance.Proofs.Memory.Pruning
import Mathlib.Data.List.Basic

/-!
# Absorption

A compaction that works on a copy of a forest loses nothing that came into the forest meanwhile.
What comes back is exactly the newer nodes and their ancestors, as they are in the forest that has
grown, whatever the order in which they are restored. If no newer node is older than the horizon,
the result has the nodes that a compaction of the grown forest would have.
-/
namespace AgentGovernance.Memory.Forest

/-- What restoring a node makes of a forest that lies within the source: the ancestors of the node
come in as they are in the source, and nothing else does. -/
structure Restored (source f : Forest) (n : Node) (g : Forest) : Prop where
  grown : Grown f g
  within : Within g source
  exists_iff : ∀ id, (∃ m, g.get? id = some m) ↔
    (∃ m, f.get? id = some m) ∨ Descends source id n.id

/-- Placing the node itself comes last. -/
theorem Restored.of_placeable {source f g : Forest} {n : Node} (hn : source.get? n.id = some n)
    (hgrown : Grown f g) (hwithin : Within g source) (hplace : Placeable g n)
    (hexists : ∀ id, id ≠ n.id → ((∃ m, g.get? id = some m) ↔
      (∃ m, f.get? id = some m) ∨ Descends source id n.id)) :
    Restored source f n (g.insertIfAllowed n) := by
  rw [insertIfAllowed_of_placeable hplace]
  refine ⟨hgrown.insert (insert_eq_ok_iff.mpr ⟨hplace, rfl⟩), ?_, ?_⟩
  · intro id k hk
    rw [get?_place] at hk
    split at hk
    next hid =>
      obtain rfl := Option.some.inj hk
      rw [hid, hn]
    next => exact hwithin id k hk
  · intro id
    rw [get?_place]
    split
    next hid =>
      subst hid
      exact iff_of_true ⟨n, rfl⟩ (.inr .refl)
    next hid => exact hexists id hid

/-- A root can be placed at once. -/
theorem Restored.place_root {source f : Forest} (hs : WellFormed source) (hf : Within f source)
    {n : Node} (hn : source.get? n.id = some n) (hnew : f.get? n.id = none)
    (hp : n.parent = none) : Restored source f n (f.insertIfAllowed n) := by
  have hplace : Placeable f n := by
    refine ⟨hs.named hn, hnew, ?_⟩
    intro p hp'
    rw [hp] at hp'
    cases hp'
  refine .of_placeable hn .refl hf hplace fun id hid => ?_
  constructor
  · exact .inl
  · rintro (hk | hdown)
    · exact hk
    · rcases hdown.parent_cases hn with rfl | ⟨p, hp', -⟩
      · exact absurd rfl hid
      · rw [hp] at hp'
        cases hp'

/-- A node can be placed once its parent has been restored, for it does not descend from its
child. -/
theorem Restored.place_child {source f g : Forest} (hs : WellFormed source) {n m : Node}
    (hn : source.get? n.id = some n) (hnew : f.get? n.id = none) (hp : n.parent = some m.id)
    (h : Restored source f m g) : Restored source f n (g.insertIfAllowed n) := by
  have hplace : Placeable g n := by
    refine ⟨hs.named hn, ?_, ?_⟩
    · rw [Option.eq_none_iff_forall_ne_some]
      intro k hk
      rcases (h.exists_iff n.id).mp ⟨k, hk⟩ with ⟨l, hl⟩ | hdown
      · rw [hnew] at hl
        cases hl
      · have hle := hs.depth_le hdown
        have hdepth := hs.depth_child hn hp
        omega
    · intro p hp'
      rw [hp] at hp'
      obtain rfl := Option.some.inj hp'
      exact (h.exists_iff m.id).mpr (.inr .refl)
  refine .of_placeable hn h.grown h.within hplace fun id hid => ?_
  rw [h.exists_iff id]
  refine or_congr_right ?_
  constructor
  · exact fun hdown => hdown.child hn hp
  · intro hdown
    rcases hdown.parent_cases hn with rfl | ⟨p, hp', hdown⟩
    · exact absurd rfl hid
    · rw [hp] at hp'
      obtain rfl := Option.some.inj hp'
      exact hdown

/-- A node that is there has its ancestors with it. -/
theorem Restored.of_exists {source f : Forest} (hf : WellFormed f) (hwithin : Within f source)
    {n : Node} (hn : ∃ m, f.get? n.id = some m) : Restored source f n f := by
  refine ⟨.refl, hwithin, fun id => ?_⟩
  constructor
  · exact .inl
  · rintro (hid | hdown)
    · exact hid
    · obtain ⟨m, hm⟩ := hn
      exact (hf.descends_of_within hwithin hdown hm).2

theorem restoreWithin_restored {source : Forest} (hs : WellFormed source) {steps : Nat}
    {f : Forest} (hf : WellFormed f) (hwithin : Within f source) {n : Node}
    (hn : source.get? n.id = some n) (hsteps : source.depth n.id < steps) :
    Restored source f n (restoreWithin source steps f n) := by
  induction steps generalizing n with
  | zero => omega
  | succ steps ih =>
      rw [restoreWithin]
      split
      next hthere => exact .of_exists hf hwithin (contains_iff.mp hthere)
      next hnew =>
        have hnew : f.get? n.id = none := contains_eq_false_iff.mp (by simpa using hnew)
        cases hp : n.parent with
        | none => exact .place_root hs hwithin hn hnew hp
        | some p =>
            obtain ⟨m, hm⟩ := hs.parent hn hp
            obtain rfl := hs.id_eq hm
            have hdepth := hs.depth_child hn hp
            dsimp only
            refine .place_child hs hn hnew hp ?_
            split
            next hparent => exact .of_exists hf hwithin (contains_iff.mp hparent)
            next =>
              rw [hm, Option.elim_some]
              exact ih hm (by omega)

theorem restore_restored {source f : Forest} (hs : WellFormed source) (hf : WellFormed f)
    (hwithin : Within f source) {n : Node} (hn : source.get? n.id = some n) :
    Restored source f n (f.restore source n) :=
  restoreWithin_restored hs hf hwithin hn (hs.depth_lt hn)

/-- What restoring some nodes makes of a forest within the source; their order does not matter. -/
theorem foldl_restore {source : Forest} (hs : WellFormed source) {ns : List Node}
    (hns : ∀ n ∈ ns, source.get? n.id = some n) {f : Forest} (hf : WellFormed f)
    (hwithin : Within f source) :
    Grown f (ns.foldl (restore · source) f) ∧ Within (ns.foldl (restore · source) f) source ∧
      ∀ id, (∃ m, (ns.foldl (restore · source) f).get? id = some m) ↔
        (∃ m, f.get? id = some m) ∨ ∃ n ∈ ns, Descends source id n.id := by
  induction ns generalizing f with
  | nil => exact ⟨.refl, hwithin, fun id => by simp⟩
  | cons n ns ih =>
      have hfirst := restore_restored hs hf hwithin (hns n List.mem_cons_self)
      obtain ⟨hgrown, hin, hexists⟩ := ih (fun m hm => hns m (List.mem_cons_of_mem n hm))
        (hf.grown hfirst.grown) hfirst.within
      refine ⟨hfirst.grown.trans hgrown, hin, fun id => ?_⟩
      rw [List.foldl_cons, hexists id, hfirst.exists_iff id, or_assoc, List.exists_mem_cons_iff]

/-! ## Compacting a copy -/

section Racing

variable {base current : Forest} (hbase : Grown {} base) (hcurrent : Grown base current)
  (horizon : Option Instant)

include hbase hcurrent

theorem compacted_within : Within (base.compacted horizon) current := by
  intro id n hn
  exact hcurrent.get? ((hbase.wellFormed.get?_compacted horizon).mp hn).1

/-- What a compaction of a copy comes to: what stays of the copy, and the newer nodes with their
ancestors. -/
theorem absorbNewer_compacted :
    WellFormed ((base.compacted horizon).absorbNewer base current) ∧
      Within ((base.compacted horizon).absorbNewer base current) current ∧
      ∀ id, (∃ m, ((base.compacted horizon).absorbNewer base current).get? id = some m) ↔
        (∃ m, base.get? id = some m) ∧ Retains base horizon id ∨
          ∃ n, current.get? n.id = some n ∧ base.get? n.id = none ∧ Descends current id n.id := by
  have hwell : WellFormed current := (hbase.trans hcurrent).wellFormed
  have hkept : WellFormed (base.compacted horizon) := (grown_compacted base horizon).wellFormed
  have hnewer : ∀ n, n ∈ current.parentsFirst (current.nodes.filter fun n => !base.contains n.id) ↔
      current.get? n.id = some n ∧ base.get? n.id = none := by
    intro n
    rw [(perm_parentsFirst current _).mem_iff, List.mem_filter, hwell.mem_nodes_iff,
      Bool.not_eq_true', contains_eq_false_iff]
  obtain ⟨hgrown, hwithin, hexists⟩ := foldl_restore hwell (fun n hn => ((hnewer n).mp hn).1) hkept
    (compacted_within hbase hcurrent horizon)
  refine ⟨hkept.grown hgrown, hwithin, fun id => ?_⟩
  rw [absorbNewer, hexists id]
  simp only [hnewer, hbase.wellFormed.get?_compacted, exists_and_right, and_assoc]

/-- A node that came in meanwhile is there. -/
theorem contains_absorbNewer_of_newer {id : NodeId} (hthere : current.contains id = true)
    (hnew : base.contains id = false) :
    ((base.compacted horizon).absorbNewer base current).contains id = true := by
  obtain ⟨-, -, hexists⟩ := absorbNewer_compacted hbase hcurrent horizon
  obtain ⟨n, hn⟩ := contains_iff.mp hthere
  obtain rfl := (hbase.trans hcurrent).wellFormed.id_eq hn
  exact contains_iff.mpr
    ((hexists n.id).mpr (.inr ⟨n, hn, contains_eq_false_iff.mp hnew, .refl⟩))

/-- The nodes that are lost are nodes of the copy. -/
theorem size_absorbNewer :
    ((base.compacted horizon).absorbNewer base current).size +
        base.ids.countP (fun id =>
          !((base.compacted horizon).absorbNewer base current).contains id) =
      current.size := by
  obtain ⟨-, hwithin, -⟩ := absorbNewer_compacted hbase hcurrent horizon
  have hnewer : ∀ id, current.contains id = true → base.contains id = false →
      ((base.compacted horizon).absorbNewer base current).contains id = true :=
    fun _ => contains_absorbNewer_of_newer hbase hcurrent horizon
  generalize (base.compacted horizon).absorbNewer base current = kept at hwithin hnewer ⊢
  have hgo : (current.ids.filter fun id => !kept.contains id).Perm
      (base.ids.filter fun id => !kept.contains id) := by
    rw [List.perm_ext_iff_of_nodup (current.nodup_ids.filter _) (base.nodup_ids.filter _)]
    intro id
    rw [List.mem_filter, List.mem_filter, mem_ids_iff, mem_ids_iff, Bool.not_eq_true']
    refine and_congr_left fun hgone => ?_
    constructor
    · intro hn
      by_contra hnone
      have hcopy : base.contains id = false := by
        rw [← Bool.not_eq_true, contains_iff]
        exact hnone
      have hrestored := hnewer id (contains_iff.mpr hn) hcopy
      rw [hgone] at hrestored
      cases hrestored
    · rintro ⟨n, hn⟩
      exact ⟨n, hcurrent.get? hn⟩
  rw [List.countP_eq_length_filter, ← hgo.length_eq, ← List.countP_eq_length_filter]
  exact hwithin.size_add

/-- If the newer nodes are recent, a node is there exactly when the grown forest retains it: what it
is retained for is in the copy, or else it is newer. -/
theorem exists_absorbNewer_iff
    (hrecent : ∀ id n, current.get? id = some n → base.contains id = false → n.IsRecent horizon)
    (id : NodeId) :
    (∃ m, ((base.compacted horizon).absorbNewer base current).get? id = some m) ↔
      (∃ m, current.get? id = some m) ∧ Retains current horizon id := by
  have hwell : WellFormed current := (hbase.trans hcurrent).wellFormed
  obtain ⟨-, -, hexists⟩ := absorbNewer_compacted hbase hcurrent horizon
  rw [hexists]
  constructor
  · rintro (⟨⟨m, hm⟩, d, n, hdown, hn, hd⟩ | ⟨n, hn, hnew, hdown⟩)
    · exact ⟨⟨m, hcurrent.get? hm⟩, d, n, hdown.mono hcurrent.within, hcurrent.get? hn, hd⟩
    · refine ⟨?_, n.id, n, hdown, hn, hrecent n.id n hn (contains_eq_false_iff.mpr hnew)⟩
      exact (hwell.descends_of_within (fun _ _ h => h) hdown hn).2
  · rintro ⟨-, d, n, hdown, hn, hd⟩
    cases hcopy : base.get? d with
    | some k =>
        obtain ⟨hdown, htop⟩ :=
          hbase.wellFormed.descends_of_within hcurrent.within hdown hcopy
        have hsame : n = k := by
          rw [hcurrent.get? hcopy] at hn
          exact (Option.some.inj hn).symm
        exact .inl ⟨htop, d, k, hdown, hcopy, hsame ▸ hd⟩
    | none =>
        obtain rfl := hwell.id_eq hn
        exact .inr ⟨n, hn, hcopy, hdown⟩

end Racing

/-- What a compaction owes to a forest that has grown from `base` to `current` meanwhile. -/
structure Reconciled (base current kept : Forest) (horizon : Option Instant) : Prop where
  /-- Every newer node is there with all its ancestors. -/
  newer : ∀ id n, current.get? id = some n → base.contains id = false →
    ∀ top, Descends current top id → kept.contains top = true
  /-- Whatever is there is as it is in the grown forest. -/
  same : ∀ id n, kept.get? id = some n →
    current.get? id = some n ∧ kept.key? id = current.key? id
  /-- Whatever is gone was in the copy. -/
  size : kept.size + base.ids.countP (fun id => !kept.contains id) = current.size
  /-- Unless a newer node is older than the horizon, the nodes are those of the grown forest
  compacted at once. -/
  atomic : (∀ id n, current.get? id = some n → base.contains id = false → n.IsRecent horizon) →
    ∀ id, kept.get? id = (current.compacted horizon).get? id

/-- Compacting a copy and then restoring what came in meanwhile is as good as compacting in one
step, and no insertion is lost. -/
theorem absorbNewer_reconciled {base current : Forest} (hbase : Grown {} base)
    (hcurrent : Grown base current) (horizon : Option Instant) :
    Reconciled base current ((base.compacted horizon).absorbNewer base current) horizon := by
  have hwell : WellFormed current := (hbase.trans hcurrent).wellFormed
  obtain ⟨hkept, hwithin, hexists⟩ := absorbNewer_compacted hbase hcurrent horizon
  refine ⟨?_, ?_, size_absorbNewer hbase hcurrent horizon, ?_⟩
  · intro id n hn hnew top hdown
    obtain rfl := hwell.id_eq hn
    rw [contains_iff, hexists]
    exact .inr ⟨n, hn, contains_eq_false_iff.mp hnew, hdown⟩
  · intro id n hn
    exact ⟨hwithin id n hn, hkept.key?_of_within hwell hwithin hn⟩
  · intro hrecent id
    have hretained := exists_absorbNewer_iff hbase hcurrent horizon hrecent id
    rw [Option.ext_iff]
    intro n
    rw [hwell.get?_compacted]
    constructor
    · intro hn
      exact ⟨hwithin id n hn, (hretained.mp ⟨n, hn⟩).2⟩
    · rintro ⟨hn, hretains⟩
      obtain ⟨m, hm⟩ := hretained.mpr ⟨⟨n, hn⟩, hretains⟩
      rw [hwithin id m hm] at hn
      rw [hm, hn]

def staleRoot : Node := ⟨⟨"r1"⟩, "goal", "episode", ∅, none, ⟨0⟩, ⟨"h1"⟩⟩

def staleChild : Node := ⟨⟨"c1"⟩, "early", "note", ∅, some ⟨"r1"⟩, ⟨1⟩, ⟨"h2"⟩⟩

/-- A tree that is stale as a whole before the tenth nanosecond. -/
def staleTree : Forest := (({} : Forest).place staleRoot).place staleChild

theorem grown_staleTree : Grown {} staleTree := by
  have hroot : ({} : Forest).insert staleRoot = .ok (({} : Forest).place staleRoot) := rfl
  have hchild : (({} : Forest).place staleRoot).insert staleChild = .ok staleTree := rfl
  exact (Grown.refl.insert hroot).insert hchild

/-- A child that comes in while `staleTree` is compacted. -/
def lateChild : Node := ⟨⟨"c2"⟩, "late", "note", ∅, some ⟨"r1"⟩, ⟨20⟩, ⟨"h3"⟩⟩

/-- The late child brings the root of its tree back, and the early child stays gone. -/
theorem absorbNewer_reconciled_lateChild :
    Grown {} staleTree ∧ Grown staleTree (staleTree.place lateChild) ∧
      (∃ kept, Reconciled staleTree (staleTree.place lateChild) kept (some ⟨10⟩) ∧
        kept.contains ⟨"r1"⟩ = true ∧ kept.contains ⟨"c2"⟩ = true ∧
        kept.contains ⟨"c1"⟩ = false) := by
  have hroot : ({} : Forest).insert staleRoot = .ok (({} : Forest).place staleRoot) := rfl
  have hchild : (({} : Forest).place staleRoot).insert staleChild = .ok staleTree := rfl
  have hlate : staleTree.insert lateChild = .ok (staleTree.place lateChild) := rfl
  have hbase : Grown {} staleTree := (Grown.refl.insert hroot).insert hchild
  have hcurrent : Grown staleTree (staleTree.place lateChild) := Grown.refl.insert hlate
  have hkept := absorbNewer_reconciled hbase hcurrent (some ⟨10⟩)
  have hthere : (staleTree.place lateChild).get? ⟨"c2"⟩ = some lateChild := rfl
  refine ⟨hbase, hcurrent, _, hkept, ?_, ?_, ?_⟩
  · exact hkept.newer _ _ hthere rfl _ (Descends.refl.child hthere rfl)
  · exact hkept.newer _ _ hthere rfl _ .refl
  · have hrecent : ∀ id n, (staleTree.place lateChild).get? id = some n →
        staleTree.contains id = false → n.IsRecent (some ⟨10⟩) := by
      intro id n hn hnew
      rw [get?_place] at hn
      split at hn
      next =>
        obtain rfl := Option.some.inj hn
        rw [Node.isRecent_some]
        decide
      next => rw [contains_eq_false_iff.mp hnew] at hn; cases hn
    rw [contains_eq_false_iff, hkept.atomic hrecent, Option.eq_none_iff_forall_ne_some]
    intro n hn
    have hwell : WellFormed (staleTree.place lateChild) := (hbase.trans hcurrent).wellFormed
    have hretains := ((hwell.get?_compacted (some ⟨10⟩)).mp hn).2
    rcases hwell.retains_iff.mp hretains with ⟨m, hm, hm'⟩ | ⟨c, hc, -⟩
    · obtain rfl : staleChild = m := Option.some.inj hm
      exact absurd (Node.isRecent_some.mp hm') (by decide)
    · cases hc

end AgentGovernance.Memory.Forest
