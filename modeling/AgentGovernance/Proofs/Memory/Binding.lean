import AgentGovernance.Proofs.Framing
import AgentGovernance.Proofs.Json.Rendering
import AgentGovernance.Proofs.Memory.Consistency
import AgentGovernance.Proofs.Memory.Verification
import AgentGovernance.Proofs.Time.Writing

/-!
# What the hash of a node binds

A node is hashed as a list of texts, its metadata as the text of an object. These texts determine
the node up to one thing: an absent parent is hashed like a parent with an empty id. No node has an
empty id, so no node that was placed has such a parent, and among nodes without one equal hashes
come from equal nodes or from a collision. A node is stored with its hash right; if it is altered
and the hash is not, the hash is wrong.
-/
namespace AgentGovernance.Memory

namespace Node

variable {m n : Node}

/-- The texts that the hash covers. -/
def hashTexts (n : Node) : List String :=
  [n.id.name, n.content, n.type, (encode n.metadata).compact, (n.parent.map NodeId.name).getD "",
    n.timestamp.preciseText]

theorem recomputeHash_eq (n : Node) : n.recomputeHash = .ofTexts n.hashTexts := rfl

theorem hashIsValid_iff : n.hashIsValid = true ↔ n.recomputeHash = n.hash := decide_eq_true_iff

/-- What a node can consist of: texts that fit their frames, and a stamp of the calendar. -/
structure IsProper (n : Node) : Prop where
  id : (Bytes.ofString n.id.name).length < 2 ^ 64
  content : (Bytes.ofString n.content).length < 2 ^ 64
  type : (Bytes.ofString n.type).length < 2 ^ 64
  metadata : (Bytes.ofString (encode n.metadata).compact).length < 2 ^ 64
  parent : ∀ p, n.parent = some p → (Bytes.ofString p.name).length < 2 ^ 64
  timestamp : n.timestamp.checked? = some n.timestamp

theorem IsProper.length_lt (h : n.IsProper) :
    ∀ text ∈ n.hashTexts, (Bytes.ofString text).length < 2 ^ 64 := by
  have hparent : (Bytes.ofString ((n.parent.map NodeId.name).getD "")).length < 2 ^ 64 := by
    cases hp : n.parent with
    | none => decide +kernel
    | some p => exact h.parent p hp
  have htimestamp : (Bytes.ofString n.timestamp.preciseText).length < 2 ^ 64 :=
    Instant.length_textWith_lt h.timestamp .nanoseconds (by decide)
  simp only [hashTexts, List.forall_mem_cons]
  exact ⟨h.id, h.content, h.type, h.metadata, hparent, htimestamp, List.forall_mem_nil _⟩

/-- Nodes that are alike in everything but their hashes. -/
structure Alike (m n : Node) : Prop where
  id : m.id = n.id
  content : m.content = n.content
  type : m.type = n.type
  metadata : m.metadata = n.metadata
  parent : m.parent = n.parent
  timestamp : m.timestamp = n.timestamp

theorem Alike.eq (h : m.Alike n) (hhash : m.hash = n.hash) : m = n := by
  obtain ⟨hid, hcontent, htype, hmetadata, hparent, htimestamp⟩ := h
  cases m
  cases n
  simp_all

theorem Alike.recomputeHash_eq (h : m.Alike n) : m.recomputeHash = n.recomputeHash := by
  rw [recomputeHash, h.id, h.content, h.type, h.metadata, h.parent, h.timestamp]
  rfl

/-- Only an empty id is hashed like no parent at all. -/
theorem parent_eq_of_name_eq {p q : Option NodeId} (hp : p ≠ some ⟨""⟩) (hq : q ≠ some ⟨""⟩)
    (h : (p.map NodeId.name).getD "" = (q.map NodeId.name).getD "") : p = q := by
  cases p with
  | none =>
      cases q with
      | none => rfl
      | some q => exact absurd (congrArg (fun name => some (NodeId.mk name)) h.symm) hq
  | some p =>
      cases q with
      | none => exact absurd (congrArg (fun name => some (NodeId.mk name)) h) hp
      | some q => exact congrArg some ((NodeId.mk.injEq _ _).mpr h)

theorem IsProper.alike_of_hashTexts_eq (hm : m.IsProper) (hn : n.IsProper)
    (hmp : m.parent ≠ some ⟨""⟩) (hnp : n.parent ≠ some ⟨""⟩) (h : m.hashTexts = n.hashTexts) :
    m.Alike n := by
  simp only [hashTexts, List.cons.injEq, and_true] at h
  obtain ⟨hid, hcontent, htype, hmetadata, hparent, htimestamp⟩ := h
  exact {
    id := (NodeId.mk.injEq _ _).mpr hid
    content := hcontent
    type := htype
    metadata := Json.compact_encode_injective hmetadata
    parent := parent_eq_of_name_eq hmp hnp hparent
    timestamp := Instant.textWith_injective hm.timestamp hn.timestamp htimestamp }

/-- What is hashed for two nodes differs and has one digest. -/
def Collides (m n : Node) : Prop :=
  ContentHash.Collide (ContentHash.textFrames m.hashTexts) (ContentHash.textFrames n.hashTexts)

/-- Nodes without empty parents have one hash exactly if they are alike or collide. -/
theorem recomputeHash_eq_iff (hm : m.IsProper) (hn : n.IsProper) (hmp : m.parent ≠ some ⟨""⟩)
    (hnp : n.parent ≠ some ⟨""⟩) :
    m.recomputeHash = n.recomputeHash ↔ m.Alike n ∨ m.Collides n := by
  constructor
  · intro h
    have hcases := ContentHash.eq_or_collide_of_ofTexts_eq hm.length_lt hn.length_lt h
    exact hcases.imp_left (hm.alike_of_hashTexts_eq hn hmp hnp)
  · intro h
    rcases h with halike | hcollides
    · exact halike.recomputeHash_eq
    · exact ContentHash.of_eq_iff.mpr (.inr hcollides)

/-- An altered node with the hash of a valid one is not valid, or the two collide. -/
theorem edited_invalid (hm : m.IsProper) (hn : n.IsProper) (hmp : m.parent ≠ some ⟨""⟩)
    (hnp : n.parent ≠ some ⟨""⟩) (hvalid : n.hashIsValid = true) (hhash : m.hash = n.hash)
    (hedited : m ≠ n) : m.hashIsValid = false ∨ m.Collides n := by
  cases hm' : m.hashIsValid with
  | false => exact .inl rfl
  | true =>
      have hsame : m.recomputeHash = n.recomputeHash := by
        rw [hashIsValid_iff.mp hm', hashIsValid_iff.mp hvalid, hhash]
      rcases (recomputeHash_eq_iff hm hn hmp hnp).mp hsame with halike | hcollides
      · exact absurd (halike.eq hhash) hedited
      · exact .inr hcollides

end Node

open Forest

/-- A parent is a node of the forest, and nodes have ids that are not empty. -/
theorem Forest.WellFormed.parent_ne_empty {f : Forest} (hf : WellFormed f) {id : NodeId} {n : Node}
    (hn : f.get? id = some n) : n.parent ≠ some ⟨""⟩ := by
  intro hp
  obtain ⟨m, hm⟩ := hf.parent hn hp
  exact (isWellNamed_iff.mp (hf.named hm)).1 rfl

namespace Store.Session

/-- Equal hashes of two nodes without empty parents come from nodes that are alike, or from a
collision. No node of a forest has an empty parent, and what the store holds after any calls is
valid, so a node of the store that is altered under its hash becomes invalid, or shows a
collision. -/
theorem node_hash_binds :
    (∀ m n : Node, m.IsProper → n.IsProper → m.parent ≠ some ⟨""⟩ → n.parent ≠ some ⟨""⟩ →
      (m.recomputeHash = n.recomputeHash ↔ m.Alike n ∨ m.Collides n)) ∧
    (∀ f, Reached f → ∀ id n, f.get? id = some n → n.parent ≠ some ⟨""⟩) ∧
    ∀ limits steps agent id n, (forestAfter limits steps agent).get? id = some n →
      n.parent ≠ some ⟨""⟩ ∧ n.hashIsValid = true ∧
        ∀ m : Node, m.IsProper → n.IsProper → m.parent ≠ some ⟨""⟩ → m.hash = n.hash → m ≠ n →
          m.hashIsValid = false ∨ m.Collides n := by
  refine ⟨?_, ?_, ?_⟩
  · intro m n hm hn hmp hnp
    exact Node.recomputeHash_eq_iff hm hn hmp hnp
  · intro f hf id n hn
    exact hf.grown.wellFormed.parent_ne_empty hn
  · intro limits steps agent id n hn
    have hgrown := (after_sound limits steps).owned.grown agent
    have hnp : n.parent ≠ some ⟨""⟩ := hgrown.wellFormed.parent_ne_empty hn
    have hvalid := (held_of_get? hn).hashIsValid
    refine ⟨hnp, hvalid, fun m hm hproper hmp hhash hedited => ?_⟩
    exact Node.edited_invalid hm hproper hmp hnp hvalid hhash hedited

/-- A root with one member whose value looks like the rest of an object, -/
def quoting : NewNode :=
  ⟨some ⟨"r"⟩, "goal", "note", .ofList [("a", "b\",\"c\":\"d")], none⟩

def storedRoot : Node := quoting.sealed ⟨"x"⟩ ⟨0⟩

/-- and the same root with the two members that the value looks like. -/
def unquotedRoot : Node :=
  { storedRoot with metadata := .ofList [("a", "b"), ("c", "d")] }

theorem node_hash_binds_quoted :
    (forestAfter ⟨100, none⟩ [.call (.insert ⟨⟨1⟩⟩ quoting ⟨"x"⟩ ⟨0⟩)] ⟨⟨1⟩⟩).get? ⟨"r"⟩ =
        some storedRoot ∧
      unquotedRoot.hash = storedRoot.hash ∧
      (unquotedRoot.hashIsValid = false ∨ unquotedRoot.Collides storedRoot) := by
  have hstored : (forestAfter ⟨100, none⟩ [.call (.insert ⟨⟨1⟩⟩ quoting ⟨"x"⟩ ⟨0⟩)] ⟨⟨1⟩⟩).get?
      ⟨"r"⟩ = some storedRoot := rfl
  have hproper : storedRoot.IsProper := by
    constructor
    case parent =>
      intro p hp
      cases (show none = some p from hp)
    all_goals decide +kernel
  have hproper' : unquotedRoot.IsProper := by
    constructor
    case parent =>
      intro p hp
      cases (show none = some p from hp)
    all_goals decide +kernel
  have hne : unquotedRoot ≠ storedRoot := by
    intro h
    exact absurd (congrArg Node.metadata h) (by decide)
  obtain ⟨-, -, hbinds⟩ := node_hash_binds
  obtain ⟨-, -, hedited⟩ := hbinds _ _ _ _ _ hstored
  exact ⟨hstored, rfl, hedited unquotedRoot hproper' hproper (by decide) rfl hne⟩

end Store.Session

end AgentGovernance.Memory
