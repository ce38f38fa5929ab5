import AgentGovernance.Proofs.Utf8
import Mathlib.Algebra.Group.Nat.Defs
import Mathlib.Tactic.SplitIfs

/-!
# The order of octets

Texts are compared character by character. Comparing the octets of their UTF-8 forms gives the same
order, because the first octet of a character tells how many octets continue it, characters with
more octets are larger, and the octets of characters of one length are their numbers in groups of
six bits, the highest group first.
-/
namespace AgentGovernance.Bytes

/-- The lowest six-bit groups of a number, as octets that continue a character. -/
def continuations : Nat → Nat → Bytes
  | 0, _ => []
  | count + 1, n => continuations count (n / 64) ++ [UInt8.ofNat (n % 64 + 128)]

/-- How many octets continue the character with a number, and what its first octet is marked with. -/
def layout (n : Nat) : Nat × Nat :=
  if n ≤ 0x7f then (0, 0)
  else if n ≤ 0x7ff then (1, 192)
  else if n ≤ 0xffff then (2, 224)
  else (3, 240)

def firstOctet (n : Nat) : Nat := n / 64 ^ (layout n).1 + (layout n).2

theorem toNat_val_lt (c : Char) : c.val.toNat < 0x110000 := by
  have hvalid := c.valid
  simp only [UInt32.isValidChar, Nat.isValidChar] at hvalid
  omega

theorem utf8EncodeChar_eq (c : Char) :
    String.utf8EncodeChar c = UInt8.ofNat (firstOctet c.val.toNat) ::
      continuations (layout c.val.toNat).1 c.val.toNat := by
  have hbound := toNat_val_lt c
  simp only [String.utf8EncodeChar, firstOctet, layout]
  generalize c.val.toNat = n at *
  split
  · simp [continuations]
  · split
    · have hhigh : n / 64 % 32 = n / 64 := by omega
      simp [continuations, hhigh]
    · split
      · have hhigh : n / 4096 % 16 = n / 4096 := by omega
        simp [continuations, hhigh]
      · have hhigh : n / 262144 % 8 = n / 262144 := by omega
        simp [continuations, hhigh, Nat.div_div_eq_div_mul]

theorem firstOctet_lt {n : Nat} (h : n < 0x110000) : firstOctet n < 256 := by
  simp only [firstOctet, layout]
  split_ifs <;> simp only [Nat.reducePow] <;> omega

/-- A larger character has a larger first octet, or one that is the same and as many others. -/
theorem firstOctet_cases {m n : Nat} (h : m < n) (hn : n < 0x110000) :
    firstOctet m < firstOctet n ∨
      firstOctet m = firstOctet n ∧ (layout m).1 = (layout n).1 ∧
        m / 64 ^ (layout n).1 = n / 64 ^ (layout n).1 := by
  simp only [firstOctet, layout]
  split_ifs <;> simp only [Nat.reducePow, true_and] <;> omega

theorem ofNat_lt_ofNat {m n : Nat} (h : m < n) (hn : n < 256) : UInt8.ofNat m < UInt8.ofNat n := by
  rw [UInt8.lt_iff_toNat_lt, UInt8.toNat_ofNat', UInt8.toNat_ofNat']
  omega

/-- Numbers that agree above their lowest groups are in the order of these groups. -/
theorem continuations_append_lt {count m n : Nat} (h : m < n)
    (hsame : m / 64 ^ count = n / 64 ^ count) (as bs : Bytes) :
    continuations count m ++ as < continuations count n ++ bs := by
  induction count generalizing m n as bs with
  | zero =>
      simp only [Nat.pow_zero, Nat.div_one] at hsame
      omega
  | succ count ih =>
      rw [Nat.pow_succ', ← Nat.div_div_eq_div_mul, ← Nat.div_div_eq_div_mul] at hsame
      simp only [continuations, List.append_assoc]
      rcases Nat.lt_or_eq_of_le (Nat.div_le_div_right (c := 64) (Nat.le_of_lt h)) with hlt | heq
      · exact ih hlt hsame _ _
      · rw [heq]
        refine List.append_left_lt (List.cons_lt_cons_iff.mpr (.inl ?_))
        exact ofNat_lt_ofNat (by omega) (by omega)

/-- The octets of a smaller character come before those of a larger one, whatever follows. -/
theorem utf8EncodeChar_append_lt {c d : Char} (h : c < d) (as bs : Bytes) :
    String.utf8EncodeChar c ++ as < String.utf8EncodeChar d ++ bs := by
  have hlt : c.val.toNat < d.val.toNat := h
  have hbound := toNat_val_lt d
  rw [utf8EncodeChar_eq, utf8EncodeChar_eq, List.cons_append, List.cons_append,
    List.cons_lt_cons_iff]
  rcases firstOctet_cases hlt hbound with hfirst | ⟨hfirst, hcount, hsame⟩
  · exact .inl (ofNat_lt_ofNat hfirst (firstOctet_lt hbound))
  · rw [hfirst, hcount]
    exact .inr ⟨rfl, continuations_append_lt hlt hsame as bs⟩

theorem flatMap_utf8EncodeChar_lt {cs ds : List Char} (h : cs < ds) :
    cs.flatMap String.utf8EncodeChar < ds.flatMap String.utf8EncodeChar := by
  induction cs generalizing ds with
  | nil =>
      cases ds with
      | nil => exact absurd h (List.lt_irrefl [])
      | cons d ds =>
          rw [List.flatMap_nil, List.flatMap_cons, utf8EncodeChar_eq]
          exact List.nil_lt_cons _ _
  | cons c cs ih =>
      cases ds with
      | nil => exact absurd h (List.not_lt_nil _)
      | cons d ds =>
          rw [List.flatMap_cons, List.flatMap_cons]
          rcases List.cons_lt_cons_iff.mp h with hcd | ⟨rfl, hrest⟩
          · exact utf8EncodeChar_append_lt hcd _ _
          · exact List.append_left_lt (ih hrest)

/-- Texts are in the order of their octets. -/
theorem ofString_lt_iff {s t : String} : ofString s < ofString t ↔ s < t := by
  have hmono : ∀ {s t : String}, s < t → ofString s < ofString t := by
    intro s t h
    rw [ofString_eq_flatMap, ofString_eq_flatMap]
    exact flatMap_utf8EncodeChar_lt (String.lt_iff.mp h)
  constructor
  · intro h
    rcases Std.lt_trichotomy s t with hst | rfl | hts
    · exact hst
    · exact absurd h (List.lt_irrefl _)
    · exact absurd (hmono hts) (List.lt_asymm h)
  · exact hmono

end AgentGovernance.Bytes
