import AgentGovernance.Json.Codec
import Mathlib.Data.List.Nodup

/-!
# Fields

A codec reads back what it wrote. A record is read field by field from the members of its object,
and since its fields have different names, each is found under its own.
-/
namespace AgentGovernance

namespace Json

theorem lookup_eq_none {name : String} {members : List (String × Json)}
    (h : ∀ m ∈ members, m.1 ≠ name) : lookup name members = none := by
  rw [lookup, List.find?_eq_none.mpr, Option.map_none]
  intro m hm
  simpa using h m (List.mem_reverse.mp hm)

theorem lookup_eq_some {name : String} {v : Json} {members : List (String × Json)}
    (hnodup : (members.map (·.1)).Nodup) (h : (name, v) ∈ members) :
    lookup name members = some v := by
  obtain ⟨before, later, rfl⟩ := List.append_of_mem h
  have hlater : ∀ m ∈ later.reverse, ¬decide (m.1 = name) = true := by
    intro m hm hname
    rw [List.map_append, List.map_cons, List.nodup_append] at hnodup
    have hnot := (List.nodup_cons.mp hnodup.2.1).1
    exact hnot (List.mem_map.mpr ⟨m, List.mem_reverse.mp hm, of_decide_eq_true hname⟩)
  rw [lookup, List.reverse_append, List.reverse_cons, List.append_assoc, List.find?_append,
    List.find?_eq_none.mpr hlater]
  simp

theorem mem_of_lookup {name : String} {v : Json} {members : List (String × Json)}
    (h : lookup name members = some v) : (name, v) ∈ members := by
  obtain ⟨⟨key, w⟩, hfind, rfl⟩ := Option.map_eq_some_iff.mp h
  have hkey : key = name := by simpa using List.find?_some hfind
  exact hkey ▸ List.mem_reverse.mp (List.mem_of_find?_eq_some hfind)

/-- The members that a record has. -/
def present (fields : List (String × Option Json)) : List (String × Json) :=
  fields.filterMap fun f => f.2.map ((f.1, ·))

theorem mem_present {name : String} {v : Json} {fields : List (String × Option Json)} :
    (name, v) ∈ present fields ↔ (name, some v) ∈ fields := by
  simp only [present, List.mem_filterMap, Option.map_eq_some_iff, Prod.mk.injEq]
  constructor
  · rintro ⟨⟨_, _⟩, hf, _, hv, rfl, rfl⟩
    exact hv ▸ hf
  · intro h
    exact ⟨_, h, v, rfl, rfl, rfl⟩

theorem nodup_present {fields : List (String × Option Json)} (h : (fields.map (·.1)).Nodup) :
    ((present fields).map (·.1)).Nodup := by
  refine h.sublist ?_
  induction fields with
  | nil => exact .slnil
  | cons f fields ih =>
      obtain ⟨name, v⟩ := f
      have ih := ih (List.nodup_cons.mp h).2
      cases v with
      | none => exact ih.cons name
      | some v => exact ih.cons_cons name

/-- A field is found under its name. -/
theorem lookup_present {name : String} {v : Option Json} {fields : List (String × Option Json)}
    (hnodup : (fields.map (·.1)).Nodup) (h : (name, v) ∈ fields) :
    lookup name (present fields) = v := by
  cases v with
  | some v => exact lookup_eq_some (nodup_present hnodup) (mem_present.mpr h)
  | none =>
      refine lookup_eq_none ?_
      rintro ⟨key, w⟩ hw rfl
      have hvalue := List.inj_on_of_nodup_map hnodup (mem_present.mp hw) h rfl
      cases hvalue

end Json

namespace Codec

variable {α : Type} [Codec α] {name : String} {members : List (String × Json)} {v : Json}

theorem required_named {a : α} (hmember : Json.lookup name members = some v)
    (hvalue : decode? v = some a) :
    required name (.named members) = some (a, .named members) := by
  simp only [required, Fields.take, hmember, hvalue, Option.map_some]

theorem optional_named {a : Option α} (hmember : Json.lookup name members = some v)
    (hvalue : decode? v = some a) : optional name (.named members) = some (a, .named members) := by
  simp only [optional, Fields.take, hmember, hvalue, Option.map_some]

theorem optional_named_none (hmember : Json.lookup name members = none) :
    optional name (.named members) = some ((none : Option α), .named members) := by
  simp only [optional, Fields.take, hmember]

theorem withDefault_named {a default : α} (hmember : Json.lookup name members = some v)
    (hvalue : decode? v = some a) :
    withDefault name default (.named members) = some (a, .named members) := by
  simp only [withDefault, Fields.take, hmember, hvalue, Option.map_some]

theorem withDefault_named_none {default : α} (hmember : Json.lookup name members = none) :
    withDefault name default (.named members) = some (default, .named members) := by
  simp only [withDefault, Fields.take, hmember]

theorem natBelow?_nat {n limit : Nat} (h : n < limit) : natBelow? limit (.nat n) = some n := by
  have hrange : 0 ≤ (n : Int) ∧ (n : Int) < (limit : Int) := by omega
  rw [Json.nat, Json.int, natBelow?, if_pos hrange, Int.toNat_natCast]

theorem decode?_encode_word (n : UInt64) : decode? (encode n) = some n := by
  have hread : natBelow? (1 <<< 64) (.nat n.toNat) = some n.toNat := natBelow?_nat n.toNat_lt
  have hdecode : decode? (encode n) = (natBelow? (1 <<< 64) (.nat n.toNat)).map UInt64.ofNat := rfl
  rw [hdecode, hread, Option.map_some, UInt64.ofNat_toNat]

theorem decode?_encode_halfWord (n : UInt32) : decode? (encode n) = some n := by
  have hread : natBelow? (1 <<< 32) (.nat n.toNat) = some n.toNat := natBelow?_nat n.toNat_lt
  have hdecode : decode? (encode n) = (natBelow? (1 <<< 32) (.nat n.toNat)).map UInt32.ofNat := rfl
  rw [hdecode, hread, Option.map_some, UInt32.ofNat_toNat]

theorem decode?_encode_list (h : ∀ a : α, decode? (encode a) = some a) (items : List α) :
    decode? (encode items) = some items := by
  have hdecode : decode? (encode items) = (items.map encode).mapM (decode? (α := α)) := rfl
  rw [hdecode]
  induction items with
  | nil => rfl
  | cons a items ih =>
      rw [List.map_cons, List.mapM_cons, h a, ih rfl]
      rfl

/-- A value that is not null is there. -/
theorem decode?_some {a : α} (hnull : v ≠ .null) (h : decode? v = some a) :
    decode? v = some (some a) := by
  have hdecode : (decode? v : Option (Option α)) = (decode? v).map some := by
    cases v with
    | null => exact absurd rfl hnull
    | bool | number | string | array | object => rfl
  rw [hdecode, h, Option.map_some]

/-- A member that is left out when there is no value. -/
theorem optional_encode {a : Option α} (hnull : ∀ a : α, encode a ≠ .null)
    (h : ∀ a : α, decode? (encode a) = some a)
    (hmember : Json.lookup name members = a.map encode) :
    optional name (.named members) = some (a, .named members) := by
  cases a with
  | none => exact optional_named_none hmember
  | some a => exact optional_named hmember (decode?_some (hnull a) (h a))

end Codec

end AgentGovernance
