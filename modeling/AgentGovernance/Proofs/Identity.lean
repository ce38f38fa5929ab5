import AgentGovernance.Identity
import AgentGovernance.Proofs.Hexadecimal
import Mathlib.Algebra.Group.Nat.Defs

/-!
# The canonical text of a UUID

The text has 36 octets, 32 of them digits, and so determines every number of 128 bits.
-/
namespace AgentGovernance.Uuid

theorem length_hexDigits (count n : Nat) : (hexDigits count n).length = count := by
  induction count generalizing n with
  | zero => rfl
  | succ count ih => rw [hexDigits, List.length_cons, ih]

theorem hexDigits_injective {count m n : Nat} (hm : m < 16 ^ count) (hn : n < 16 ^ count)
    (h : hexDigits count m = hexDigits count n) : m = n := by
  induction count generalizing m n with
  | zero =>
      rw [Nat.pow_zero] at hm hn
      omega
  | succ count ih =>
      rw [Nat.pow_succ] at hm hn
      obtain ⟨hlast, hrest⟩ := List.cons.inj h
      have hdigit := Hex.digit_injective (m % 16) (by omega) (n % 16) (by omega) hlast
      have hdiv := ih (by omega) (by omega) hrest
      omega

/-- The five groups of a text, put together again. -/
theorem append_groups (ds : List Char) :
    ds.take 8 ++ ((ds.drop 8).take 4 ++ ((ds.drop 12).take 4 ++ ((ds.drop 16).take 4 ++
      ds.drop 20))) = ds := by
  have hgroup : ∀ n, (ds.drop n).take 4 ++ ds.drop (n + 4) = ds.drop n := by
    intro n
    rw [← List.drop_drop, List.take_append_drop]
  rw [hgroup 16, hgroup 12, hgroup 8, List.take_append_drop]

theorem text_injective {u w : Uuid} (hu : u.number < 2 ^ 128) (hw : w.number < 2 ^ 128)
    (h : u.text = w.text) : u = w := by
  have hlength : ∀ v : Uuid, (hexDigits 32 v.number).reverse.length = 32 := by
    intro v
    rw [List.length_reverse, length_hexDigits]
  have hgroups := String.ofList_injective h
  obtain ⟨hfirst, hgroups⟩ := List.append_inj hgroups (by simp [hlength])
  obtain ⟨hsecond, hgroups⟩ := List.append_inj (List.cons.inj hgroups).2 (by simp [hlength])
  obtain ⟨hthird, hgroups⟩ := List.append_inj (List.cons.inj hgroups).2 (by simp [hlength])
  obtain ⟨hfourth, hgroups⟩ := List.append_inj (List.cons.inj hgroups).2 (by simp [hlength])
  have hfifth := (List.cons.inj hgroups).2
  have hdigits : (hexDigits 32 u.number).reverse = (hexDigits 32 w.number).reverse := by
    rw [← append_groups (hexDigits 32 u.number).reverse, hfirst, hsecond, hthird, hfourth, hfifth,
      append_groups]
  have hlimit : 2 ^ 128 = 16 ^ 32 := by decide
  have hnumber : u.number = w.number :=
    hexDigits_injective (hlimit ▸ hu) (hlimit ▸ hw) (List.reverse_inj.mp hdigits)
  cases u
  cases w
  simpa using hnumber

theorem toNat_hexDigits_lt {count n : Nat} {c : Char} (h : c ∈ hexDigits count n) :
    c.toNat < 128 := by
  have hdigit : ∀ d < 16, (Hex.digit d).toNat < 128 := by decide
  induction count generalizing n with
  | zero => cases h
  | succ count ih =>
      rcases List.mem_cons.mp h with rfl | h
      · exact hdigit (n % 16) (by omega)
      · exact ih h

theorem length_text (u : Uuid) : (Bytes.ofString u.text).length = 36 := by
  have hdigits : ∀ c ∈ (hexDigits 32 u.number).reverse, c.toNat < 128 :=
    fun c hc => toNat_hexDigits_lt (List.mem_reverse.mp hc)
  have hascii : ∀ c ∈ u.text.toList, c.toNat < 128 := by
    intro c hc
    simp only [text, String.toList_ofList, List.mem_append, List.mem_cons] at hc
    rcases hc with hc | rfl | hc | rfl | hc | rfl | hc | rfl | hc
    · exact hdigits c (List.mem_of_mem_take hc)
    · decide
    · exact hdigits c (List.mem_of_mem_drop (List.mem_of_mem_take hc))
    · decide
    · exact hdigits c (List.mem_of_mem_drop (List.mem_of_mem_take hc))
    · decide
    · exact hdigits c (List.mem_of_mem_drop (List.mem_of_mem_take hc))
    · decide
    · exact hdigits c (List.mem_of_mem_drop hc)
  rw [← Bytes.length_characters, Bytes.characters_ofString, Bytes.octets_of_forall_lt hascii]
  simp [text, length_hexDigits]

end AgentGovernance.Uuid
