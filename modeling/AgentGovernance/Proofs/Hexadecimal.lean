import AgentGovernance.Proofs.Utf8

/-!
# Hexadecimal text

A text of hexadecimal digits has two octets for each octet that it was written for, and reading it
gives those back. So the text determines the octets.
-/
namespace AgentGovernance.Hex

theorem digit_injective : ∀ m < 16, ∀ n < 16, digit m = digit n → m = n := by decide

/-- A digit is one octet, and reads as the number it stands for. -/
theorem utf8_digit : ∀ n < 16, String.utf8EncodeChar (digit n) = [UInt8.ofNat (digit n).toNat] ∧
    digitValue? (UInt8.ofNat (digit n).toNat) = some n := by decide

theorem length_ofString_encode (bs : Bytes) :
    (Bytes.ofString (encode bs)).length = 2 * bs.length := by
  rw [encode, Bytes.ofString_ofList]
  induction bs with
  | nil => rfl
  | cons b bs ih =>
      have hb := b.toNat_lt
      obtain ⟨hhigh, -⟩ := utf8_digit (b.toNat / 16) (by omega)
      obtain ⟨hlow, -⟩ := utf8_digit (b.toNat % 16) (by omega)
      simp only [List.flatMap_cons, encodeOctet, List.cons_append, List.nil_append,
        List.length_cons, hhigh, hlow, ih]
      omega

theorem decodeFrom_encode (position : Nat) (bs : Bytes) :
    decodeFrom position (Bytes.ofString (encode bs)) = .ok bs := by
  rw [encode, Bytes.ofString_ofList]
  induction bs generalizing position with
  | nil => rfl
  | cons b bs ih =>
      have hb := b.toNat_lt
      obtain ⟨hhigh, hhighvalue⟩ := utf8_digit (b.toNat / 16) (by omega)
      obtain ⟨hlow, hlowvalue⟩ := utf8_digit (b.toNat % 16) (by omega)
      have hoctet : b.toNat / 16 * 16 + b.toNat % 16 = b.toNat := Nat.div_add_mod' _ _
      rw [List.flatMap_cons, encodeOctet, List.cons_append, List.cons_append, List.nil_append,
        List.flatMap_cons, List.flatMap_cons, hhigh, hlow, List.singleton_append,
        List.singleton_append, decodeFrom, hhighvalue, hlowvalue]
      simp only [ih, hoctet, UInt8.ofNat_toNat]

theorem decode_encode (bs : Bytes) : decode (encode bs) = .ok bs := by
  have heven : ¬(Bytes.ofString (encode bs)).length % 2 = 1 := by
    rw [length_ofString_encode]
    omega
  rw [decode, if_neg heven, decodeFrom_encode]

/-- A hexadecimal digit in either case. -/
def IsDigit (c : Char) : Prop :=
  ('0' ≤ c ∧ c ≤ '9') ∨ ('a' ≤ c ∧ c ≤ 'f') ∨ ('A' ≤ c ∧ c ≤ 'F')

instance (c : Char) : Decidable (IsDigit c) := inferInstanceAs (Decidable (_ ∨ _))

theorem IsDigit.toNat_lt {c : Char} (h : IsDigit c) : c.toNat < 128 := by
  rcases h with ⟨-, h⟩ | ⟨-, h⟩ | ⟨-, h⟩
  · exact Nat.lt_of_le_of_lt (show c.toNat ≤ 57 from h) (by decide)
  · exact Nat.lt_of_le_of_lt (show c.toNat ≤ 102 from h) (by decide)
  · exact Nat.lt_of_le_of_lt (show c.toNat ≤ 70 from h) (by decide)

theorem isDigit_digit : ∀ n < 16, IsDigit (digit n) := by decide

theorem isDigit_of_mem_encode {c : Char} {bs : Bytes} (h : c ∈ (encode bs).toList) : IsDigit c := by
  rw [encode, String.toList_ofList, List.mem_flatMap] at h
  obtain ⟨b, -, hc⟩ := h
  have hb := b.toNat_lt
  simp only [encodeOctet, List.mem_cons, List.not_mem_nil, or_false] at hc
  rcases hc with rfl | rfl
  · exact isDigit_digit _ (by omega)
  · exact isDigit_digit _ (by omega)

theorem encode_injective {as bs : Bytes} (h : encode as = encode bs) : as = bs := by
  have hread : decode (encode as) = decode (encode bs) := congrArg decode h
  rw [decode_encode, decode_encode] at hread
  exact Except.ok.inj hread

end AgentGovernance.Hex
