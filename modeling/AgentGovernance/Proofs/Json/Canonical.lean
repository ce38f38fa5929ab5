import AgentGovernance.Proofs.Json.Fields
import AgentGovernance.Proofs.Json.Rendering
import AgentGovernance.Proofs.Table

/-!
# Values up to the order of members

Two values are alike if they differ only in the order of the members of their objects and in members
that a later one with the same key overrides. Alike are exactly the values with one canonical form.
Since the text of the canonical form determines it, among values whose numbers are integers of a
word exactly the alike ones have one canonical text.
-/
namespace AgentGovernance.Json

/-- Induction on how values nest. -/
@[elab_as_elim]
theorem induct {motive : Json → Prop} (null : motive .null) (bool : ∀ b, motive (.bool b))
    (number : ∀ n, motive (.number n)) (string : ∀ s, motive (.string s))
    (array : ∀ items, (∀ v ∈ items, motive v) → motive (.array items))
    (object : ∀ members, (∀ m ∈ members, motive m.2) → motive (.object members))
    (v : Json) : motive v := by
  cases v with
  | null => exact null
  | bool b => exact bool b
  | number n => exact number n
  | string s => exact string s
  | array items =>
      refine array items fun v hv => ?_
      have hitem : sizeOf v < sizeOf items := List.sizeOf_lt_of_mem hv
      exact induct null bool number string array object v
  | object members =>
      refine object members fun m hm => ?_
      have hmember : sizeOf m < sizeOf members := List.sizeOf_lt_of_mem hm
      have hparts : sizeOf m = 1 + sizeOf m.1 + sizeOf m.2 := by
        cases m
        rfl
      exact induct null bool number string array object m.2
termination_by sizeOf v
decreasing_by
  · simp only [Json.array.sizeOf_spec]
    omega
  · simp only [Json.object.sizeOf_spec]
    omega

/-- Equality up to the order in which members were given. Arrays are compared item by item, objects
key by key, and of the members with one key the last counts. -/
inductive Alike : Json → Json → Prop where
  | null : Alike .null .null
  | bool (b : Bool) : Alike (.bool b) (.bool b)
  | number (n : Number) : Alike (.number n) (.number n)
  | string (s : String) : Alike (.string s) (.string s)
  | array {vs ws : List Json} (hlength : vs.length = ws.length)
      (hitems : ∀ (i : Nat) v w, vs[i]? = some v → ws[i]? = some w → Alike v w) :
      Alike (.array vs) (.array ws)
  | object {ms ns : List (String × Json)}
      (hkeys : ∀ key, (lookup key ms).isSome = (lookup key ns).isSome)
      (hvalues : ∀ key v w, lookup key ms = some v → lookup key ns = some w → Alike v w) :
      Alike (.object ms) (.object ns)

/-! ## Canonical forms -/

theorem canonicalItems_eq_map (items : List Json) : canonicalItems items = items.map canonical := by
  induction items with
  | nil => rfl
  | cons v vs ih => rw [canonicalItems, ih, List.map_cons]

theorem canonicalMembers_eq_map (members : List (String × Json)) :
    canonicalMembers members = members.map fun m => (m.1, canonical m.2) := by
  induction members with
  | nil => rfl
  | cons m ms ih => rw [canonicalMembers, ih, List.map_cons]

theorem lookup_map (f : Json → Json) (key : String) (members : List (String × Json)) :
    lookup key (members.map fun m => (m.1, f m.2)) = (lookup key members).map f := by
  rw [lookup, lookup, ← List.map_reverse, List.find?_map, Option.map_map, Option.map_map]
  rfl

theorem find?_ofList_members (members : List (String × Json)) (key : String) :
    (Table.ofList members).find? key = lookup key members := Table.find?_ofList members key

theorem mem_of_mem_sortMembers {m : String × Json} {members : List (String × Json)}
    (h : m ∈ sortMembers members) : m ∈ members := by
  have hfind := (Table.ofList members).mem_entries_iff.mp h
  rw [find?_ofList_members] at hfind
  exact mem_of_lookup hfind

/-- Sorted members are the same exactly if the same is found under every key. -/
theorem sortMembers_eq_iff {ms ns : List (String × Json)} :
    sortMembers ms = sortMembers ns ↔ ∀ key, lookup key ms = lookup key ns := by
  constructor
  · intro h key
    have htable : Table.ofList ms = Table.ofList ns := (Table.mk.injEq _ _ _ _).mpr h
    rw [← find?_ofList_members, htable, find?_ofList_members]
  · intro h
    refine congrArg Table.entries (Table.ext_find? fun key => ?_)
    rw [find?_ofList_members, find?_ofList_members, h]

theorem canonical_array_eq_iff {vs ws : List Json} :
    canonical (.array vs) = canonical (.array ws) ↔ vs.map canonical = ws.map canonical := by
  rw [canonical, canonical, Json.array.injEq, canonicalItems_eq_map, canonicalItems_eq_map]

theorem canonical_object_eq_iff {ms ns : List (String × Json)} :
    canonical (.object ms) = canonical (.object ns) ↔
      ∀ key, (lookup key ms).map canonical = (lookup key ns).map canonical := by
  rw [canonical, canonical, Json.object.injEq, sortMembers_eq_iff]
  simp only [canonicalMembers_eq_map, lookup_map]

/-- What may be absent has one canonical form if it is absent on both sides or if what is there on
both sides has. -/
theorem map_canonical_eq_iff {x y : Option Json} :
    x.map canonical = y.map canonical ↔
      x.isSome = y.isSome ∧ ∀ v w, x = some v → y = some w → v.canonical = w.canonical := by
  cases x <;> cases y <;> simp

theorem Alike.canonical_eq {v w : Json} (h : v.Alike w) : v.canonical = w.canonical := by
  induction h with
  | null | bool | number | string => rfl
  | array hlength _ ih =>
      refine canonical_array_eq_iff.mpr (List.ext_getElem (by simpa using hlength) ?_)
      intro i _ _
      rw [List.getElem_map, List.getElem_map]
      exact ih i _ _ (List.getElem?_eq_getElem _) (List.getElem?_eq_getElem _)
  | object hkeys _ ih =>
      exact canonical_object_eq_iff.mpr fun key => map_canonical_eq_iff.mpr ⟨hkeys key, ih key⟩

theorem alike_of_canonical_eq {v w : Json} (h : v.canonical = w.canonical) : v.Alike w := by
  induction v using induct generalizing w with
  | null =>
      cases w with
      | null => exact .null
      | _ => cases h
  | bool b =>
      cases w with
      | bool c =>
          cases h
          exact .bool b
      | _ => cases h
  | number n =>
      cases w with
      | number k =>
          cases h
          exact .number n
      | _ => cases h
  | string s =>
      cases w with
      | string t =>
          cases h
          exact .string s
      | _ => cases h
  | array vs ih =>
      cases w with
      | array ws =>
          have hmap := canonical_array_eq_iff.mp h
          refine .array (by simpa using congrArg List.length hmap) fun i v w hv hw => ?_
          have hitem := congrArg (·[i]?) hmap
          simp only [List.getElem?_map] at hitem
          exact ih v (List.mem_of_getElem? hv) ((map_canonical_eq_iff.mp hitem).2 v w hv hw)
      | _ => cases h
  | object ms ih =>
      cases w with
      | object ns =>
          have hlookup := fun key => map_canonical_eq_iff.mp (canonical_object_eq_iff.mp h key)
          refine .object (fun key => (hlookup key).1) fun key v w hv hw => ?_
          exact ih (key, v) (mem_of_lookup hv) ((hlookup key).2 v w hv hw)
      | _ => cases h

/-- Exactly the values that are alike have one canonical form. -/
theorem canonical_eq_iff {v w : Json} : v.canonical = w.canonical ↔ v.Alike w :=
  ⟨alike_of_canonical_eq, Alike.canonical_eq⟩

/-! ## Canonical texts -/

theorem IsIntegral.canonical {v : Json} (hv : v.IsIntegral) : v.canonical.IsIntegral := by
  induction hv with
  | null => exact .null
  | bool b => exact .bool b
  | integer lower upper => exact .integer lower upper
  | string s => exact .string s
  | array _ ih =>
      rw [Json.canonical, canonicalItems_eq_map]
      exact .array (List.forall_mem_map.mpr ih)
  | object _ ih =>
      rw [Json.canonical, canonicalMembers_eq_map]
      refine .object fun m hm => ?_
      obtain ⟨m, hmember, rfl⟩ := List.mem_map.mp (mem_of_mem_sortMembers hm)
      exact ih m hmember

theorem compact_canonical_eq_iff {v w : Json} (hv : v.IsIntegral) (hw : w.IsIntegral) :
    v.canonical.compact = w.canonical.compact ↔ v.Alike w := by
  rw [← canonical_eq_iff]
  constructor
  · intro h
    exact hv.canonical.isReadBack.compact_injective hw.canonical.isReadBack h
  · intro h
    rw [h]

end AgentGovernance.Json
