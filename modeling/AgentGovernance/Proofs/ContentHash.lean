import AgentGovernance.Proofs.Framing
import AgentGovernance.Proofs.Json.Canonical

/-!
# What a content hash binds

The bytes that are hashed for a list of fields determine the list, and those that are hashed for a
JSON value determine it up to the order of members. So two hashes that are equal come from what is
equal in this sense, or the bytes that were hashed are a collision.
-/
namespace AgentGovernance.ContentHash

/-- Lists of fields are hashed as one byte string exactly if they are the same list, so two
different lists have one hash exactly if their byte strings collide. -/
theorem ofFields_binds {xs ys : List Bytes} (hx : ∀ x ∈ xs, x.length < 2 ^ 64)
    (hy : ∀ y ∈ ys, y.length < 2 ^ 64) :
    (frames xs = frames ys ↔ xs = ys) ∧
      (xs ≠ ys → (ofFields xs = ofFields ys ↔ Collide (frames xs) (frames ys))) := by
  have hframes : frames xs = frames ys ↔ xs = ys :=
    ⟨frames_injective hx hy, congrArg frames⟩
  refine ⟨hframes, fun hne => ?_⟩
  rw [ofFields, ofFields, of_eq_iff, hframes, or_iff_right hne]

/-- A field of eight zeros looks like the length of an empty field. -/
theorem ofFields_binds_lengthLike :
    (∀ x ∈ ([[], []] : List Bytes), x.length < 2 ^ 64) ∧
      (∀ y ∈ [List.replicate 8 (0 : UInt8)], y.length < 2 ^ 64) ∧
      frames [[], []] ≠ frames [List.replicate 8 0] ∧
      (ofFields [[], []] = ofFields [List.replicate 8 0] ↔
        Collide (frames [[], []]) (frames [List.replicate 8 0])) := by
  have hempty : ∀ x ∈ ([[], []] : List Bytes), x.length < 2 ^ 64 := by decide
  have hzeros : ∀ y ∈ [List.replicate 8 (0 : UInt8)], y.length < 2 ^ 64 := by decide
  have hne : ([[], []] : List Bytes) ≠ [List.replicate 8 0] := by decide
  obtain ⟨hframes, hcollide⟩ := ofFields_binds hempty hzeros
  exact ⟨hempty, hzeros, fun h => hne (hframes.mp h), hcollide hne⟩

/-- What is hashed for a JSON value. -/
def jsonBytes (v : Json) : Bytes := Bytes.ofString v.canonical.compact

/-- Values that are alike have one hash. Among values whose numbers are integers of a word others
have one only if what is hashed for them is a collision. -/
theorem ofJson_binds :
    (∀ v w : Json, v.Alike w → ofJson v = ofJson w) ∧
    ∀ v w : Json, v.IsIntegral → w.IsIntegral →
      (ofJson v = ofJson w ↔ v.Alike w ∨ Collide (jsonBytes v) (jsonBytes w)) := by
  refine ⟨fun v w h => ?_, fun v w hv hw => ?_⟩
  · rw [ofJson, ofJson, h.canonical_eq]
  · have hbytes : jsonBytes v = jsonBytes w ↔ v.Alike w := by
      rw [← Json.compact_canonical_eq_iff hv hw]
      exact ⟨Bytes.ofString_injective, congrArg Bytes.ofString⟩
    rw [← hbytes]
    exact of_eq_iff

/-- A value with members out of order and with one that is overridden, -/
def shuffled : Json :=
  .object [("b", .array [.int (-1), .object [("d", .string "x"), ("c", .string "\"")]]),
    ("a", .null), ("a", .bool true)]

/-- the same value in order, -/
def ordered : Json :=
  .object [("a", .bool true),
    ("b", .array [.int (-1), .object [("c", .string "\""), ("d", .string "x")]])]

/-- an object with a member whose value looks like the rest of an object, -/
def quoting : Json := .object [("a", .string "b\",\"c\":\"d"), ("n", .int (-0x8000000000000000))]

/-- and the object with the members that the value looks like. -/
def unquoted : Json :=
  .object [("a", .string "b"), ("c", .string "d"), ("n", .int (-0x8000000000000000))]

theorem ofJson_binds_shuffled :
    shuffled.Alike ordered ∧ ofJson shuffled = ofJson ordered ∧
      quoting.IsIntegral ∧ unquoted.IsIntegral ∧
      (ofJson quoting = ofJson unquoted ↔ Collide (jsonBytes quoting) (jsonBytes unquoted)) := by
  have halike : shuffled.Alike ordered := Json.canonical_eq_iff.mp rfl
  have hsmallest : (Json.int (-0x8000000000000000)).IsIntegral := .integer (by decide) (by decide)
  have hquoting : quoting.IsIntegral := by
    refine .object ?_
    simp only [List.forall_mem_cons]
    exact ⟨.string _, hsmallest, List.forall_mem_nil _⟩
  have hunquoted : unquoted.IsIntegral := by
    refine .object ?_
    simp only [List.forall_mem_cons]
    exact ⟨.string _, .string _, hsmallest, List.forall_mem_nil _⟩
  have hne : ¬quoting.Alike unquoted := by
    rw [← Json.canonical_eq_iff]
    decide
  obtain ⟨hsame, hbinds⟩ := ofJson_binds
  refine ⟨halike, hsame _ _ halike, hquoting, hunquoted, ?_⟩
  rw [hbinds _ _ hquoting hunquoted, or_iff_right hne]

end AgentGovernance.ContentHash
