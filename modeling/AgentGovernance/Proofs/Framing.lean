import AgentGovernance.ContentHash
import AgentGovernance.Proofs.Hexadecimal
import Mathlib.Algebra.Group.Nat.Defs

/-!
# Framed fields

Fields that are hashed together stand behind their lengths, so the bytes that are hashed determine
the fields as long as every length fits its eight octets. The text of a hash determines the digest.
Two equal hashes therefore come from equal fields or from two byte strings with one digest.
-/
namespace AgentGovernance

namespace Bytes

theorem bigEndian_injective {width m n : Nat} (hm : m < 256 ^ width) (hn : n < 256 ^ width)
    (h : bigEndian width m = bigEndian width n) : m = n := by
  induction width generalizing m n with
  | zero =>
      rw [Nat.pow_zero] at hm hn
      omega
  | succ width ih =>
      rw [Nat.pow_succ] at hm hn
      obtain ⟨hhigh, hlow⟩ := List.append_inj h (by simp)
      have hdiv := ih (by omega) (by omega) hhigh
      have hoctet : (UInt8.ofNat m).toNat = (UInt8.ofNat n).toNat :=
        congrArg UInt8.toNat (List.cons.inj hlow).1
      simp only [UInt8.toNat_ofNat'] at hoctet
      omega

/-- The octets that are always written and those that a number needs suffice for it. -/
theorem lt_pow_octets (width n : Nat) :
    n < 256 ^ max width (if n = 0 then 0 else n.log2 / 8 + 1) := by
  split
  next hzero =>
    rw [hzero]
    exact Nat.pow_pos (by decide)
  next =>
    have hbits : n < 2 ^ (n.log2 + 1) := Nat.lt_log2_self
    have hbase : 256 ^ (n.log2 / 8 + 1) = 2 ^ (8 * (n.log2 / 8 + 1)) := by
      rw [Nat.pow_mul]
    have hoctets : 2 ^ (n.log2 + 1) ≤ 2 ^ (8 * (n.log2 / 8 + 1)) :=
      Nat.pow_le_pow_right (by decide) (by omega)
    have hwidth : 256 ^ (n.log2 / 8 + 1) ≤ 256 ^ max width (n.log2 / 8 + 1) :=
      Nat.pow_le_pow_right (by decide) (Nat.le_max_right _ _)
    omega

theorem bigEndianAtLeast_injective {width m n : Nat}
    (h : bigEndianAtLeast width m = bigEndianAtLeast width n) : m = n := by
  have hm := lt_pow_octets width m
  have hn := lt_pow_octets width n
  have hlength := congrArg List.length h
  simp only [bigEndianAtLeast, length_bigEndian] at h hlength
  rw [← hlength] at h hn
  exact bigEndian_injective hm hn h

end Bytes

namespace ContentHash

theorem sha256_eq_of_eq {as bs : Bytes} (h : of as = of bs) :
    Sha2.sha256 as = Sha2.sha256 bs := by
  rw [of, of, ContentHash.mk.injEq] at h
  exact Hex.encode_injective h

/-- Two byte strings that differ and have one digest. -/
def Collide (as bs : Bytes) : Prop := as ≠ bs ∧ Sha2.sha256 as = Sha2.sha256 bs

theorem of_eq_iff {as bs : Bytes} : of as = of bs ↔ as = bs ∨ Collide as bs := by
  constructor
  · intro h
    by_cases heq : as = bs
    · exact .inl heq
    · exact .inr ⟨heq, sha256_eq_of_eq h⟩
  · intro h
    rcases h with rfl | ⟨-, hdigest⟩
    · rfl
    · rw [of, of, hdigest]

/-- The text of a computed hash has 64 octets. -/
theorem length_text_of (bs : Bytes) : (Bytes.ofString (of bs).text).length = 64 := by
  rw [of, Hex.length_ofString_encode, Sha2.length_sha256]

/-- A text of 64 hexadecimal digits. -/
structure IsDigest (h : ContentHash) : Prop where
  length : h.text.toList.length = 64
  digits : ∀ c ∈ h.text.toList, Hex.IsDigit c

theorem IsDigest.length_octets {h : ContentHash} (hdigest : h.IsDigest) :
    (Bytes.ofString h.text).length = 64 := by
  have hascii : ∀ c ∈ h.text.toList, c.toNat < 128 := fun c hc => (hdigest.digits c hc).toNat_lt
  rw [← Bytes.length_characters, Bytes.characters_ofString, Bytes.octets_of_forall_lt hascii,
    hdigest.length]

/-- Every hash that is computed is one. -/
theorem isDigest_of (bs : Bytes) : (of bs).IsDigest where
  length := by
    have hascii : ∀ c ∈ (of bs).text.toList, c.toNat < 128 :=
      fun c hc => (Hex.isDigit_of_mem_encode hc).toNat_lt
    rw [← length_text_of bs, ← Bytes.length_characters, Bytes.characters_ofString,
      Bytes.octets_of_forall_lt hascii]
  digits := fun _ hc => Hex.isDigit_of_mem_encode hc

theorem toList_genesis : genesis.text.toList = List.replicate 64 '0' := String.toList_ofList

theorem isDigest_genesis : genesis.IsDigest := by
  have hdigit : Hex.IsDigit '0' := by decide
  refine ⟨?_, fun c hc => ?_⟩
  · rw [toList_genesis, List.length_replicate]
  · rw [toList_genesis] at hc
    rwa [List.eq_of_mem_replicate hc]

theorem frames_injective {xs ys : List Bytes} (hx : ∀ x ∈ xs, x.length < 2 ^ 64)
    (hy : ∀ y ∈ ys, y.length < 2 ^ 64) (h : frames xs = frames ys) : xs = ys := by
  induction xs generalizing ys with
  | nil =>
      cases ys with
      | nil => rfl
      | cons y ys =>
          have hlength := congrArg List.length h
          simp only [frames, List.flatMap_nil, List.flatMap_cons, frame, List.length_nil,
            List.length_append, Bytes.length_bigEndian] at hlength
          omega
  | cons x xs ih =>
      cases ys with
      | nil =>
          have hlength := congrArg List.length h
          simp [frames, frame] at hlength
      | cons y ys =>
          have hlimit : 256 ^ 8 = 2 ^ 64 := by decide
          simp only [frames, List.flatMap_cons, frame, List.append_assoc] at h
          obtain ⟨hlengths, hbodies⟩ := List.append_inj h (by simp)
          have hlength : x.length = y.length :=
            Bytes.bigEndian_injective (hlimit ▸ hx x List.mem_cons_self)
              (hlimit ▸ hy y List.mem_cons_self) hlengths
          obtain ⟨hfirst, hrest⟩ := List.append_inj hbodies hlength
          have hfields := ih (fun z hz => hx z (List.mem_cons_of_mem _ hz))
            (fun z hz => hy z (List.mem_cons_of_mem _ hz)) hrest
          rw [hfirst, hfields]

/-- What is hashed for some texts. -/
def textFrames (texts : List String) : Bytes := frames (texts.map Bytes.ofString)

theorem ofTexts_eq (texts : List String) : ofTexts texts = of (textFrames texts) := rfl

theorem textFrames_injective {xs ys : List String}
    (hx : ∀ x ∈ xs, (Bytes.ofString x).length < 2 ^ 64)
    (hy : ∀ y ∈ ys, (Bytes.ofString y).length < 2 ^ 64) (h : textFrames xs = textFrames ys) :
    xs = ys := by
  have hoctets : xs.map Bytes.ofString = ys.map Bytes.ofString :=
    frames_injective (List.forall_mem_map.mpr hx) (List.forall_mem_map.mpr hy) h
  exact (List.map_inj_right fun _ _ => Bytes.ofString_injective).mp hoctets

/-- Lists of texts with one hash are equal, or what is hashed for them is a collision. -/
theorem eq_or_collide_of_ofTexts_eq {xs ys : List String}
    (hx : ∀ x ∈ xs, (Bytes.ofString x).length < 2 ^ 64)
    (hy : ∀ y ∈ ys, (Bytes.ofString y).length < 2 ^ 64) (h : ofTexts xs = ofTexts ys) :
    xs = ys ∨ Collide (textFrames xs) (textFrames ys) := by
  rw [ofTexts_eq, ofTexts_eq, of_eq_iff] at h
  exact h.imp_left (textFrames_injective hx hy)

end ContentHash

end AgentGovernance
