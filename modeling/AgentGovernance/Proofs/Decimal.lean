/-!
# Decimal numbers

The digits of a number are decimal digits, give its value again and start with a zero only for the
number zero.
-/
namespace AgentGovernance.Decimal

theorem toList_toString (n : Nat) : (toString n).toList = Nat.toDigits 10 n := Nat.toList_repr

theorem isDigit_of_mem {c : Char} {n : Nat} (h : c ∈ Nat.toDigits 10 n) :
    ('0' ≤ c && c ≤ '9') = true := by
  have hc := Nat.isDigit_of_mem_toDigits (by decide) (by decide) h
  simp only [Char.isDigit, Bool.and_eq_true, decide_eq_true_eq] at hc
  simp only [Bool.and_eq_true, decide_eq_true_eq]
  exact ⟨hc.1, hc.2⟩

theorem foldl_toDigits (n : Nat) :
    (Nat.toDigits 10 n).foldl (fun n d => n * 10 + (d.toNat - 48)) 0 = n := by
  have h := @Nat.ofDigitChars_ten_toDigits n
  simp only [Nat.ofDigitChars_eq_foldl, Nat.mul_comm 10] at h
  exact h

theorem exists_toDigits_eq_cons (n : Nat) :
    ∃ d ds, Nat.toDigits 10 n = d :: ds ∧ ('0' ≤ d && d ≤ '9') = true := by
  cases hds : Nat.toDigits 10 n with
  | nil => exact absurd hds Nat.toDigits_ne_nil
  | cons d ds => exact ⟨d, ds, rfl, isDigit_of_mem (hds ▸ List.mem_cons_self)⟩

theorem eq_zero_of_head?_toDigits {n : Nat} (h : (Nat.toDigits 10 n).head? = some '0') : n = 0 := by
  induction n using Nat.strongRecOn with
  | _ n ih =>
      rw [Nat.toDigits_eq_if (by decide)] at h
      split at h
      next hn =>
        have hdigit : Nat.digitChar n = '0' := by simpa using h
        have hvalue := Nat.toNat_digitChar_of_lt_ten hn
        rw [hdigit] at hvalue
        change 48 = 48 + n at hvalue
        omega
      next hn =>
        have hhigh : (Nat.toDigits 10 (n / 10)).head? = some '0' := by
          obtain ⟨d, ds, hds, -⟩ := exists_toDigits_eq_cons (n / 10)
          simpa [hds] using h
        have := ih (n / 10) (by omega) hhigh
        omega

end AgentGovernance.Decimal
