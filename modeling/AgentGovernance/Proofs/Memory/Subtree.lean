import AgentGovernance.Proofs.Memory.Query

/-!
# Queries for the names of roots

The key of a node begins with the key of each of its ancestors, and behind that stands a slash.
A text without a slash therefore ends inside the name of a root or with it, so a query for such a
text finds whole trees: those of all the roots whose names start with the text. For the name of a
root its own tree is among them. It is the only one if no other root has a name that goes on where
this one ends.
-/
namespace AgentGovernance.Memory.Forest

/-- A beginning that does not have a separator ends before the first one. -/
theorem prefix_of_prefix_append_cons {α : Type} {p as bs : List α} {c : α} (hc : c ∉ p)
    (h : p <+: as ++ c :: bs) : p <+: as := by
  rcases List.prefix_or_prefix_of_prefix h (List.prefix_append as (c :: bs)) with has | ⟨ds, rfl⟩
  · exact has
  · cases ds with
    | nil => simp
    | cons d ds =>
        rw [List.prefix_append_right_inj, List.cons_prefix_cons] at h
        exact absurd (by simp [h.1]) hc

theorem startsWith_append {start text : String} (h : startsWith start text = true)
    (rest : String) : startsWith start (text ++ rest) = true := by
  obtain ⟨more, rfl⟩ := startsWith_iff.mp h
  exact startsWith_iff.mpr ⟨more ++ rest, String.append_assoc⟩

theorem startsWith_of_append_slash {start text rest : String} (hslash : '/' ∉ start.toList)
    (h : startsWith start (text ++ "/" ++ rest) = true) : startsWith start text = true := by
  rw [startsWith, List.isPrefixOf_iff_prefix] at h ⊢
  have htext : (text ++ "/" ++ rest).toList = text.toList ++ '/' :: rest.toList := by simp
  rw [htext] at h
  exact prefix_of_prefix_append_cons hslash h

variable {f : Forest}

/-- The key of a node goes on from the keys of its ancestors. -/
theorem Grown.key?_of_descends (hf : Grown {} f) {top id : NodeId} {key : String}
    (htop : f.key? top = some key) (h : Descends f top id) :
    f.key? id = some key ∨ ∃ rest, f.key? id = some (key ++ "/" ++ rest) := by
  induction h with
  | refl => exact .inl htop
  | @child id p n _ hn hp ih =>
      obtain ⟨parentKey, hparent, hkey⟩ := hf.consistent.childKey id n p hn hp
      rw [hparent] at ih
      rw [hkey]
      rcases ih with hsame | ⟨rest, hrest⟩
      · obtain rfl := Option.some.inj hsame
        exact .inr ⟨id.name, rfl⟩
      · obtain rfl := Option.some.inj hrest
        exact .inr ⟨rest ++ "/" ++ id.name, by simp only [String.append_assoc]⟩

/-- The key of a node starts with a text that has no slash if the name of its root does. -/
theorem Grown.startsWith_key?_iff (hf : Grown {} f) {start key : String}
    (hslash : '/' ∉ start.toList) {root id : NodeId} {r : Node} (hr : f.get? root = some r)
    (hroot : r.parent = none) (hdown : Descends f root id) (hkey : f.key? id = some key) :
    startsWith start key = true ↔ startsWith start root.name = true := by
  have hkeys := hf.key?_of_descends (hf.consistent.rootKey root r hr hroot) hdown
  rw [hkey] at hkeys
  rcases hkeys with hsame | ⟨rest, hrest⟩
  · rw [Option.some.inj hsame]
  · rw [Option.some.inj hrest]
    refine ⟨startsWith_of_append_slash hslash, fun h => ?_⟩
    rw [String.append_assoc]
    exact startsWith_append h _

def IsRoot (f : Forest) (id : NodeId) : Prop := ∃ n, f.get? id = some n ∧ n.parent = none

/-- A stored node that is the root of a tree or stands below it. -/
structure InTree (f : Forest) (root : NodeId) (n : Node) : Prop where
  stored : f.get? n.id = some n
  below : Descends f root n.id

theorem IsRoot.eq_of_descends {top id : NodeId} (h : IsRoot f id) (hdown : Descends f top id) :
    top = id := by
  obtain ⟨n, hn, hroot⟩ := h
  rcases hdown.parent_cases hn with hsame | ⟨p, hp, -⟩
  · exact hsame
  · rw [hroot] at hp
    cases hp

theorem IsRoot.exists_inTree {id : NodeId} (h : IsRoot f id) (hf : WellFormed f) :
    ∃ n, n.id = id ∧ InTree f id n := by
  obtain ⟨n, hn, -⟩ := h
  obtain rfl := hf.id_eq hn
  exact ⟨n, rfl, hn, .refl⟩

theorem Grown.mem_query_iff_inTree (hf : Grown {} f) {start : String}
    (hslash : '/' ∉ start.toList) {n : Node} :
    n ∈ f.query start ↔
      ∃ root, IsRoot f root ∧ startsWith start root.name = true ∧ InTree f root n := by
  rw [hf.mem_query_iff]
  constructor
  · rintro ⟨hn, key, hkey, hstarts⟩
    obtain ⟨root, r, hr, hroot, hdown⟩ := hf.wellFormed.exists_root hn
    have hname := (hf.startsWith_key?_iff hslash hr hroot hdown hkey).mp hstarts
    exact ⟨root, ⟨r, hr, hroot⟩, hname, hn, hdown⟩
  · rintro ⟨root, ⟨r, hr, hroot⟩, hname, hn, hdown⟩
    have hkey := hf.wellFormed.key hn
    exact ⟨hn, _, hkey, (hf.startsWith_key?_iff hslash hr hroot hdown hkey).mpr hname⟩

/-- What a query for the name of a root finds. -/
structure AnswersRoot (f : Forest) (root : NodeId) (found : List Node) : Prop where
  trees : ∀ n, n ∈ found ↔
    ∃ other, IsRoot f other ∧ startsWith root.name other.name = true ∧ InTree f other n
  own : ∀ n, InTree f root n → n ∈ found
  /-- Nothing else is found unless another root has a name that goes on from this one. -/
  exact_iff : (∀ n, n ∈ found ↔ InTree f root n) ↔
    ∀ other, IsRoot f other → startsWith root.name other.name = true → other = root

/-- A query for the name of a root finds its tree, and with it the trees of the other roots whose
names start with that name. -/
theorem query_root (hf : Grown {} f) {root : NodeId} (hroot : IsRoot f root) :
    AnswersRoot f root (f.query root.name) := by
  have hslash : '/' ∉ root.name.toList := by
    obtain ⟨r, hr, -⟩ := hroot
    exact (isWellNamed_iff.mp (hf.wellFormed.named hr)).2
  have htrees : ∀ n, n ∈ f.query root.name ↔
      ∃ other, IsRoot f other ∧ startsWith root.name other.name = true ∧ InTree f other n :=
    fun n => hf.mem_query_iff_inTree hslash
  have hself : startsWith root.name root.name = true :=
    startsWith_iff.mpr ⟨"", (String.append_empty).symm⟩
  have hown : ∀ n, InTree f root n → n ∈ f.query root.name :=
    fun n hn => (htrees n).mpr ⟨root, hroot, hself, hn⟩
  refine ⟨htrees, hown, ?_, ?_⟩
  · intro hexact other hother hname
    obtain ⟨n, rfl, hn⟩ := hother.exists_inTree hf.wellFormed
    have hbelow := ((hexact n).mp ((htrees n).mpr ⟨n.id, hother, hname, hn⟩)).below
    exact (hother.eq_of_descends hbelow).symm
  · intro honly n
    refine ⟨fun hfound => ?_, hown n⟩
    obtain ⟨other, hother, hname, hn⟩ := (htrees n).mp hfound
    rwa [honly other hother hname] at hn

/-- A root whose name starts with that of `staleRoot`. -/
def tenthRoot : Node := { staleRoot with id := ⟨"r10"⟩ }

/-- A root that is found by the name of another one. -/
theorem query_root_sharedPrefix :
    ∃ f root n, Grown {} f ∧ IsRoot f root ∧ AnswersRoot f root (f.query root.name) ∧
      n ∈ f.query root.name ∧ ¬InTree f root n := by
  have htenth : staleTree.insert tenthRoot = .ok (staleTree.place tenthRoot) := rfl
  have hgrown : Grown {} (staleTree.place tenthRoot) := grown_staleTree.insert htenth
  have hfirst : IsRoot (staleTree.place tenthRoot) ⟨"r1"⟩ := ⟨staleRoot, rfl, rfl⟩
  have hother : IsRoot (staleTree.place tenthRoot) tenthRoot.id := ⟨tenthRoot, rfl, rfl⟩
  have hanswers := query_root hgrown hfirst
  refine ⟨_, _, tenthRoot, hgrown, hfirst, hanswers, ?_, ?_⟩
  · exact (hanswers.trees tenthRoot).mpr ⟨tenthRoot.id, hother, by decide, rfl, .refl⟩
  · rintro ⟨-, hbelow⟩
    exact absurd (hother.eq_of_descends hbelow) (by decide)

end AgentGovernance.Memory.Forest
