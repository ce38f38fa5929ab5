import AgentGovernance.Json.Reader
import AgentGovernance.Proofs.Decimal

/-!
# Reading what was written

The reader of JSON takes back the compact text of a string and of an integer that fits a word, a
signed one if it is negative. A value is followed by the end of the text or by a mark that no number
contains, so it is clear where its digits end.
-/
namespace AgentGovernance.Json

/-- What may come behind a value: nothing, or a mark that is not part of a number. -/
inductive Follows : List Char → Prop where
  | done : Follows []
  | comma (rest : List Char) : Follows (',' :: rest)
  | bracket (rest : List Char) : Follows (']' :: rest)
  | brace (rest : List Char) : Follows ('\x7d' :: rest)

namespace Reader

/-! ## Numbers -/

theorem isDigit_of_mem {c : Char} {n : Nat} (h : c ∈ Nat.toDigits 10 n) : isDigit c = true :=
  Decimal.isDigit_of_mem h

theorem takeWhile_isDigit {n : Nat} {rest : List Char} (h : Follows rest) :
    (Nat.toDigits 10 n ++ rest).takeWhile isDigit = Nat.toDigits 10 n := by
  rw [List.takeWhile_append_of_pos fun c hc => isDigit_of_mem hc]
  cases h <;> simp [isDigit]

theorem dropWhile_isDigit {n : Nat} {rest : List Char} (h : Follows rest) :
    (Nat.toDigits 10 n ++ rest).dropWhile isDigit = rest := by
  rw [List.dropWhile_append_of_pos fun c hc => isDigit_of_mem hc]
  cases h <;> simp [isDigit]

theorem fractionPart?_of_follows {rest : List Char} (h : Follows rest) :
    fractionPart? rest = some (none, rest) := by
  cases h <;> simp [fractionPart?]

theorem exponentPart?_of_follows {rest : List Char} (h : Follows rest) :
    exponentPart? rest = some (none, rest) := by
  cases h <;> simp [exponentPart?]

/-- The digits of a number make up its whole part, also behind a sign. -/
theorem whole_toDigits (n : Nat) :
    ¬((Nat.toDigits 10 n).isEmpty = true ∨
      ((Nat.toDigits 10 n).head? = some '0' ∧ 1 < (Nat.toDigits 10 n).length)) := by
  rintro (h | ⟨h, hlength⟩)
  · exact Nat.toDigits_ne_nil (List.isEmpty_iff.mp h)
  · rw [Decimal.eq_zero_of_head?_toDigits h] at hlength
    simp at hlength

theorem toDigits_append_ne_minus (n : Nat) (rest r : List Char) :
    Nat.toDigits 10 n ++ rest ≠ '-' :: r := by
  intro hr
  obtain ⟨d, ds, hds, hdigit⟩ := Decimal.exists_toDigits_eq_cons n
  rw [hds, List.cons_append, List.cons.injEq] at hr
  rw [hr.1] at hdigit
  exact absurd hdigit (by decide)

theorem ofDigits_toDigits (n : Nat) : ofDigits (Nat.toDigits 10 n) = n := Decimal.foldl_toDigits n

theorem number?_nat {n : Nat} {rest : List Char} (hn : n < wordLimit) (h : Follows rest) :
    number? (Nat.toDigits 10 n ++ rest) = some (.integer n, rest) := by
  rw [number?, takeWhile_isDigit h, dropWhile_isDigit h, if_neg (whole_toDigits n)]
  · simp [fractionPart?_of_follows h, exponentPart?_of_follows h, ofDigits_toDigits, hn]
  · exact toDigits_append_ne_minus n rest

theorem number?_negative {n : Nat} {rest : List Char} (hpos : 0 < n) (hn : n ≤ 1 <<< 63)
    (h : Follows rest) :
    number? ('-' :: (Nat.toDigits 10 n ++ rest)) = some (.integer (-n), rest) := by
  simp only [number?, takeWhile_isDigit h, dropWhile_isDigit h]
  rw [if_neg (whole_toDigits n)]
  simp only [fractionPart?_of_follows h, exponentPart?_of_follows h, ofDigits_toDigits,
    Option.bind_eq_bind, Option.bind_some, Option.isNone_none, not_true_eq_false, false_and,
    and_false, if_false, true_and, hpos, hn, and_self, if_true]

/-! ## Strings -/

theorem hexValue?_digit : ∀ n < 16, hexValue? (Hex.digit n) = some n := by decide

theorem unicodeEscape?_digits {n : Nat} (hn : n < 32) (rest : List Char) :
    unicodeEscape? ('0' :: '0' :: Hex.digit (n / 16) :: Hex.digit (n % 16) :: rest) =
      some (Char.ofNat n, rest) := by
  have hhigh := hexValue?_digit (n / 16) (by omega)
  have hlow := hexValue?_digit (n % 16) (by omega)
  have hzero : hexValue? '0' = some 0 := by decide
  have hvalue : ((0 * 16 + 0) * 16 + n / 16) * 16 + n % 16 = n := by omega
  simp only [unicodeEscape?, unit16?, hzero, hhigh, hlow, hvalue, Option.bind_eq_bind,
    Option.bind_some]
  rw [if_neg (by omega), if_neg (by omega)]

theorem stringBody?_shortEscape {c e : Char} (h : shortEscape? e = some c) (hu : e ≠ 'u')
    (fuel : Nat) (rest done : List Char) :
    stringBody? (fuel + 1) ('\\' :: e :: rest) done = stringBody? fuel rest (c :: done) := by
  rw [stringBody?]
  · simp [h]
  · exact hu

/-- The reader takes back one escaped character. -/
theorem stringBody?_escape (c : Char) (fuel : Nat) (rest done : List Char) :
    stringBody? (fuel + 1) (escape c ++ rest) done = stringBody? fuel rest (c :: done) := by
  unfold escape
  split
  next h =>
    subst h
    exact stringBody?_shortEscape rfl (by decide) fuel rest done
  split
  next h =>
    subst h
    exact stringBody?_shortEscape rfl (by decide) fuel rest done
  split
  next h => exact h ▸ stringBody?_shortEscape rfl (by decide) fuel rest done
  split
  next h => exact h ▸ stringBody?_shortEscape rfl (by decide) fuel rest done
  split
  next h => exact h ▸ stringBody?_shortEscape rfl (by decide) fuel rest done
  split
  next h =>
    rw [← Char.ofNat_toNat c, h]
    exact stringBody?_shortEscape rfl (by decide) fuel rest done
  split
  next h =>
    rw [← Char.ofNat_toNat c, h]
    exact stringBody?_shortEscape rfl (by decide) fuel rest done
  split
  next h => simp [stringBody?, unicodeEscape?_digits h, Char.ofNat_toNat]
  next hquote hslash _ _ _ _ _ hcontrol =>
    rw [List.singleton_append, stringBody?]
    · rw [if_neg hcontrol]
    · exact hquote
    · intro r hr
      exact absurd hr hslash
    · intro d r hr
      exact absurd hr hslash

theorem stringBody?_flatMap_escape (cs rest done : List Char) (fuel : Nat) (h : cs.length < fuel) :
    stringBody? fuel (cs.flatMap escape ++ '"' :: rest) done =
      some (String.ofList (done.reverse ++ cs), rest) := by
  induction cs generalizing done fuel with
  | nil =>
      obtain ⟨fuel, rfl⟩ := Nat.exists_eq_add_of_lt h
      simp [stringBody?]
  | cons c cs ih =>
      obtain ⟨fuel, rfl⟩ : ∃ n, fuel = n + 1 := ⟨fuel - 1, by simp at h; omega⟩
      rw [List.flatMap_cons, List.append_assoc, stringBody?_escape,
        ih _ _ (by simpa using h)]
      simp

theorem length_le_flatMap_escape (cs : List Char) : cs.length ≤ (cs.flatMap escape).length := by
  induction cs with
  | nil => simp
  | cons c cs ih =>
      have hc : 1 ≤ (escape c).length := by
        unfold escape
        repeat' split
        all_goals simp
      simp only [List.length_cons, List.flatMap_cons, List.length_append]
      omega

theorem string?_escaped (s : String) (rest : List Char) :
    string? (s.toList.flatMap escape ++ '"' :: rest) = some (s, rest) := by
  have hlength := length_le_flatMap_escape s.toList
  have hfuel : s.toList.length < (s.toList.flatMap escape ++ '"' :: rest).length + 1 := by
    rw [List.length_append]
    omega
  rw [string?, stringBody?_flatMap_escape _ _ _ _ hfuel]
  simp

/-! ## Values -/

theorem skipBlanks_cons {c : Char} (h : isBlank c = false) (cs : List Char) :
    skipBlanks (c :: cs) = c :: cs := by
  rw [skipBlanks, List.dropWhile_cons_of_neg (by simp [h])]

theorem skipBlanks_follows {rest : List Char} (h : Follows rest) : skipBlanks rest = rest := by
  cases h <;> rfl

theorem skipBlanks_quote (cs : List Char) : skipBlanks ('"' :: cs) = '"' :: cs :=
  skipBlanks_cons (by decide) cs

theorem skipBlanks_colon (cs : List Char) : skipBlanks (':' :: cs) = ':' :: cs :=
  skipBlanks_cons (by decide) cs

theorem renderString_append (s : String) (rest : List Char) :
    renderString s ++ rest = '"' :: (s.toList.flatMap escape ++ '"' :: rest) := by
  simp [renderString]

theorem value?_string (s : String) (fuel depth : Nat) (rest : List Char) :
    value? (fuel + 1) depth (renderString s ++ rest) = some (.string s, rest) := by
  simp [renderString_append, value?, skipBlanks_quote, string?_escaped]

/-- A number starts with a digit or with a sign, and neither is a blank. -/
theorem isBlank_of_isDigit_or_minus {d : Char} (h : isDigit d = true ∨ d = '-') :
    isBlank d = false := by
  rw [Bool.eq_false_iff]
  intro hb
  simp only [isBlank, Bool.or_eq_true, decide_eq_true_eq] at hb
  rcases hb with ((rfl | rfl) | rfl) | rfl <;> revert h <;> decide

theorem value?_number {d : Char} (h : isDigit d = true ∨ d = '-') (cs : List Char)
    (fuel depth : Nat) :
    value? (fuel + 1) depth (d :: cs) = (number? (d :: cs)).map fun r => (.number r.1, r.2) := by
  rw [value?, skipBlanks_cons (isBlank_of_isDigit_or_minus h)]
  split
  case h_7 =>
    cases number? (d :: cs) <;> rfl
  all_goals
    next heq =>
      obtain ⟨rfl, -⟩ := List.cons.inj heq
      exact absurd h (by decide)

theorem value?_nat {n : Nat} (hn : n < wordLimit) (fuel depth : Nat) {rest : List Char}
    (h : Follows rest) :
    value? (fuel + 1) depth (Nat.toDigits 10 n ++ rest) = some (.nat n, rest) := by
  have hnumber := number?_nat hn h
  obtain ⟨d, ds, hds, hdigit⟩ := Decimal.exists_toDigits_eq_cons n
  rw [hds, List.cons_append] at hnumber ⊢
  rw [value?_number (.inl hdigit), hnumber]
  rfl

end Reader

theorem read?_of_value? {v : Json} {cs : List Char}
    (h : Reader.value? (2 * cs.length + 2) 128 (cs ++ []) = some (v, [])) :
    read? (String.ofList cs) = some v := by
  rw [List.append_nil] at h
  rw [read?, String.toList_ofList, h]
  rfl

@[simp] theorem read?_string (s : String) : read? (Json.string s).compact = some (.string s) :=
  read?_of_value? (Reader.value?_string s _ _ [])

theorem read?_nat {n : Nat} (h : n < Reader.wordLimit) :
    read? (Json.nat n).compact = some (.nat n) := by
  have hdigits : render (.nat n) = Nat.toDigits 10 n := Decimal.toList_toString n
  rw [compact, hdigits]
  exact read?_of_value? (Reader.value?_nat h _ _ .done)

end AgentGovernance.Json
