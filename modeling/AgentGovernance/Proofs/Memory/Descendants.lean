import AgentGovernance.Proofs.Memory.Subtree

/-!
# Queries for what stands below a node

A key that goes on behind a slash from the key of a node belongs to something below that node: names
have no slash, so the key of a parent is what stands before the last one, and no two nodes have one
key. A query for the key of a node with a slash after it therefore finds what stands strictly below
the node, whatever characters the names in the forest have. A key is a beginning of the keys below
it, so it comes before them.
-/
namespace AgentGovernance.Memory.Forest

/-! ## Keys that go on behind a slash -/

/-- A beginning that ends with a separator is the text before the last separator, or it is a
beginning of that text: nothing behind the last separator ends with one. -/
theorem eq_or_prefix_of_concat_prefix {α : Type} {p as bs : List α} {c : α} (hc : c ∉ bs)
    (h : p ++ [c] <+: as ++ c :: bs) : p = as ∨ p ++ [c] <+: as := by
  have hwhole : as ++ [c] <+: as ++ c :: bs := ⟨bs, by simp⟩
  rcases List.prefix_or_prefix_of_prefix h hwhole with hshort | ⟨ds, hds⟩
  · rcases List.prefix_concat_iff.mp hshort with hsame | has
    · exact .inl (List.append_inj_left' hsame rfl)
    · exact .inr has
  · rcases List.eq_nil_or_concat ds with rfl | ⟨es, e, rfl⟩
    · rw [List.append_nil] at hds
      exact .inl (List.append_inj_left' hds rfl).symm
    · rw [← hds, List.append_assoc, List.prefix_append_right_inj, List.singleton_append,
        List.cons_prefix_cons] at h
      rw [List.concat_eq_append, ← List.append_assoc] at hds
      obtain rfl : e = c := by simpa using List.append_inj_right' hds rfl
      exact absurd (h.2.subset (by simp)) hc

theorem startsWith_append_slash_iff {key text : String} :
    startsWith (key ++ "/") text = true ↔ key.toList ++ ['/'] <+: text.toList := by
  rw [startsWith, List.isPrefixOf_iff_prefix, String.toList_append]
  rfl

theorem not_startsWith_name {id : NodeId} (h : isWellNamed id = true) (key : String) :
    ¬startsWith (key ++ "/") id.name = true := by
  intro hstarts
  have hslash : '/' ∈ key.toList ++ ['/'] := by simp
  exact (isWellNamed_iff.mp h).2 ((startsWith_append_slash_iff.mp hstarts).subset hslash)

theorem startsWith_childKey_iff {id : NodeId} (h : isWellNamed id = true) {key parentKey : String} :
    startsWith (key ++ "/") (childKey parentKey id) = true ↔
      key = parentKey ∨ startsWith (key ++ "/") parentKey = true := by
  have htext : (childKey parentKey id).toList = parentKey.toList ++ '/' :: id.name.toList := by
    simp [childKey]
  rw [startsWith_append_slash_iff, startsWith_append_slash_iff, htext]
  constructor
  · intro hprefix
    rcases eq_or_prefix_of_concat_prefix (isWellNamed_iff.mp h).2 hprefix with hsame | hshort
    · exact .inl (String.toList_injective hsame)
    · exact .inr hshort
  · rintro (rfl | hshort)
    · exact ⟨id.name.toList, by simp⟩
    · exact hshort.trans (List.prefix_append _ _)

variable {f : Forest}

theorem WellFormed.ne_of_descends_parent (hf : WellFormed f) {top id p : NodeId} {n : Node}
    (hn : f.get? id = some n) (hp : n.parent = some p) (h : Descends f top p) : id ≠ top := by
  rintro rfl
  exact hf.not_descends_parent hn hp h

/-- Where a key goes on behind a slash from the key of another node, that node is met on the way
up. -/
theorem Grown.below_of_startsWith (hf : Grown {} f) {top id : NodeId} {key : String} {n : Node}
    (htop : f.key? top = some key) (hn : f.get? id = some n) :
    ∀ k, f.key? id = some k → startsWith (key ++ "/") k = true →
      Descends f top id ∧ id ≠ top := by
  refine hf.wellFormed.parent_induction (P := fun id => ∀ k, f.key? id = some k →
    startsWith (key ++ "/") k = true → Descends f top id ∧ id ≠ top) ?_ hn
  intro id n hn ih k hkey hstarts
  have hnamed := hf.wellFormed.named hn
  cases hp : n.parent with
  | none =>
      obtain rfl := Option.some.inj (hkey.symm.trans (hf.consistent.rootKey id n hn hp))
      exact absurd hstarts (not_startsWith_name hnamed key)
  | some p =>
      obtain ⟨parentKey, hparent, hchild⟩ := hf.consistent.childKey id n p hn hp
      obtain rfl := Option.some.inj (hkey.symm.trans hchild)
      have hdown : Descends f top p := by
        rcases (startsWith_childKey_iff hnamed).mp hstarts with rfl | hmore
        · rw [hf.key?_injective hparent htop]
          exact .refl
        · exact (ih p hp parentKey hparent hmore).1
      exact ⟨hdown.child hn hp, hf.wellFormed.ne_of_descends_parent hn hp hdown⟩

/-- The keys that go on behind a slash from the key of a node are those of what stands strictly
below it. -/
theorem Grown.startsWith_key?_iff_below (hf : Grown {} f) {top id : NodeId} {key : String}
    {n : Node} (htop : f.key? top = some key) (hn : f.get? id = some n) :
    (∃ k, f.key? id = some k ∧ startsWith (key ++ "/") k = true) ↔
      Descends f top id ∧ id ≠ top := by
  constructor
  · rintro ⟨k, hkey, hstarts⟩
    exact hf.below_of_startsWith htop hn k hkey hstarts
  · rintro ⟨hdown, hne⟩
    rcases hf.key?_of_descends htop hdown with hsame | ⟨rest, hrest⟩
    · exact absurd (hf.key?_injective hsame htop) hne
    · exact ⟨_, hrest, startsWith_iff.mpr ⟨rest, rfl⟩⟩

/-- A key comes before the keys of what stands below it. -/
theorem Grown.not_descends_of_keyBefore (hf : Grown {} f) {m n : Node} (h : KeyBefore f m n) :
    ¬Descends f n.id m.id := by
  obtain ⟨k, l, hk, hl, hlt⟩ := h
  intro hdown
  have hstarts : startsWith l k = true := by
    rcases hf.key?_of_descends hl hdown with hsame | ⟨rest, hrest⟩
    · obtain rfl := Option.some.inj (hk.symm.trans hsame)
      exact startsWith_iff.mpr ⟨"", String.append_empty.symm⟩
    · obtain rfl := Option.some.inj (hk.symm.trans hrest)
      exact startsWith_iff.mpr ⟨"/" ++ rest, String.append_assoc⟩
  exact not_lt_of_startsWith hstarts (Bytes.ofString_lt_iff.mp hlt)

/-- What a query for the key of a node with a slash after it has to find. -/
structure AnswersBelow (f : Forest) (top : NodeId) (found : List Node) : Prop where
  mem_iff : ∀ n, n ∈ found ↔ InTree f top n ∧ n.id ≠ top
  once : (found.map (·.id)).Nodup
  /-- No node stands before one of its ancestors. -/
  ancestorsFirst : found.Pairwise fun m n => ¬Descends f n.id m.id

/-- Whatever operations have made a forest, the key of each stored node with a slash after it finds
what stands strictly below the node, every node of it once and after its ancestors. -/
theorem query_below (h : Reached f) {id : NodeId} {n : Node} (hn : f.get? id = some n) :
    ∃ key, f.key? id = some key ∧ AnswersBelow f id (f.query (key ++ "/")) := by
  have hkey := h.grown.wellFormed.key hn
  have hordered := h.grown.pairwise_query (f.keyFor n ++ "/")
  refine ⟨_, hkey, ?_, List.pairwise_map.mpr (hordered.imp KeyBefore.id_ne), ?_⟩
  · intro m
    rw [h.grown.mem_query_iff]
    constructor
    · rintro ⟨hm, hstarts⟩
      obtain ⟨hdown, hne⟩ := (h.grown.startsWith_key?_iff_below hkey hm).mp hstarts
      exact ⟨⟨hm, hdown⟩, hne⟩
    · rintro ⟨⟨hm, hdown⟩, hne⟩
      exact ⟨hm, (h.grown.startsWith_key?_iff_below hkey hm).mpr ⟨hdown, hne⟩⟩
  · exact hordered.imp h.grown.not_descends_of_keyBefore

/-- A grandchild of `staleRoot`. -/
def laterNote : Node := { lateChild with id := ⟨"c3"⟩, parent := some ⟨"c2"⟩ }

/-- A root whose name goes on from that of `staleRoot` with something that comes before a slash. -/
def dottedRoot : Node := { staleRoot with id := ⟨"r1.c2"⟩ }

/-- Below a node stand its children and theirs, but no root with a similar name. -/
theorem query_below_dottedRoot :
    ∃ f, Reached f ∧ f.contains dottedRoot.id = true ∧
      AnswersBelow f staleRoot.id [staleChild, lateChild, laterNote] ∧
      AnswersBelow f lateChild.id [laterNote] := by
  let f := ((staleTree.place lateChild).place dottedRoot).place laterNote
  have hreached : Reached f :=
    Reached.insert laterNote (Reached.insert dottedRoot (Reached.insert lateChild
      (Reached.insert staleChild (Reached.insert staleRoot Reached.empty))))
  have hroot : f.get? staleRoot.id = some staleRoot := rfl
  have hlate : f.get? lateChild.id = some lateChild := rfl
  obtain ⟨key, hkey, hbelow⟩ := query_below hreached hroot
  obtain ⟨childKey, hchildKey, hchild⟩ := query_below hreached hlate
  obtain rfl : "r1" = key := Option.some.inj hkey
  obtain rfl : "r1/c2" = childKey := Option.some.inj hchildKey
  exact ⟨f, hreached, rfl, hbelow, hchild⟩

end AgentGovernance.Memory.Forest
