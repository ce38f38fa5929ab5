import AgentGovernance.Json.Skim
import AgentGovernance.Proofs.Json.Reading
import AgentGovernance.Proofs.Utf8

/-!
# Skimming what was written

The octets of the compact text of an object are split into the octets of its members. The marks of
the syntax are ASCII and a string escapes its quotation marks, so the end of a string is where the
writer put it, whatever characters it holds.
-/
namespace AgentGovernance.Json

open Bytes

namespace Skim

/-- Characters that stand for themselves inside a string. -/
theorem skipString?_plain {cs : List Char} (h : ∀ c ∈ cs, c ≠ '"' ∧ c ≠ '\\' ∧ 32 ≤ c.toNat)
    (rest : List Char) : skipString? (cs ++ rest) = skipString? rest := by
  induction cs with
  | nil => rfl
  | cons c cs ih =>
      obtain ⟨hquote, hslash, hcontrol⟩ := h c List.mem_cons_self
      rw [List.cons_append, skipString?]
      · rw [if_neg (by omega), ih fun d hd => h d (List.mem_cons_of_mem _ hd)]
      · exact hquote
      · intro a b c d r hr
        exact absurd hr hslash
      · intro d r hr
        exact absurd hr hslash

theorem skipString?_shortEscape {e : Char} (h : (Reader.shortEscape? e).isSome = true)
    (hu : e ≠ 'u') (rest : List Char) : skipString? ('\\' :: e :: rest) = skipString? rest := by
  rw [skipString?]
  · rw [if_pos h]
  · intro a b c d r hr
    exact absurd hr hu

theorem skipString?_unicodeEscape {n : Nat} (hn : n < 32) (rest : List Char) :
    skipString? ('\\' :: 'u' :: '0' :: '0' :: Hex.digit (n / 16) :: Hex.digit (n % 16) :: rest) =
      skipString? rest := by
  have hhigh := Reader.hexValue?_digit (n / 16) (by omega)
  have hlow := Reader.hexValue?_digit (n % 16) (by omega)
  have hzero : Reader.hexValue? '0' = some 0 := by decide
  simp [skipString?, hzero, hhigh, hlow]

theorem escape_of_le {c : Char} (h : 128 ≤ c.toNat) : escape c = [c] := by
  unfold escape
  have hne : ∀ d : Char, d.toNat < 128 → c ≠ d := by
    intro d hd hcd
    rw [hcd] at h
    omega
  rw [if_neg (hne _ (by decide)), if_neg (hne _ (by decide)), if_neg (hne _ (by decide)),
    if_neg (hne _ (by decide)), if_neg (hne _ (by decide)), if_neg (by omega), if_neg (by omega),
    if_neg (by omega)]

theorem toNat_digit_lt : ∀ n < 16, (Hex.digit n).toNat < 128 := by decide

/-- An ASCII character is escaped with ASCII characters. -/
theorem escape_ascii {c : Char} (h : c.toNat < 128) : ∀ d ∈ escape c, d.toNat < 128 := by
  have hhigh := toNat_digit_lt (c.toNat / 16) (by omega)
  have hlow := toNat_digit_lt (c.toNat % 16) (by omega)
  unfold escape
  repeat' split
  all_goals simp [h, hhigh, hlow]

theorem skipString?_escape_ascii {c : Char} (h : c.toNat < 128) (rest : List Char) :
    skipString? (escape c ++ rest) = skipString? rest := by
  unfold escape
  split
  · exact skipString?_shortEscape rfl (by decide) rest
  split
  · exact skipString?_shortEscape rfl (by decide) rest
  split
  · exact skipString?_shortEscape rfl (by decide) rest
  split
  · exact skipString?_shortEscape rfl (by decide) rest
  split
  · exact skipString?_shortEscape rfl (by decide) rest
  split
  · exact skipString?_shortEscape rfl (by decide) rest
  split
  · exact skipString?_shortEscape rfl (by decide) rest
  split
  next hcontrol => exact skipString?_unicodeEscape hcontrol rest
  next hquote hslash _ _ _ _ _ hcontrol =>
    refine skipString?_plain (fun d hd => ?_) rest
    obtain rfl := List.mem_singleton.mp hd
    exact ⟨hquote, hslash, by omega⟩

theorem skipString?_octets_escape (c : Char) (rest : List Char) :
    skipString? (octets (escape c) ++ rest) = skipString? rest := by
  by_cases h : c.toNat < 128
  · rw [octets_of_forall_lt (escape_ascii h)]
    exact skipString?_escape_ascii h rest
  · have hge : 128 ≤ c.toNat := by omega
    rw [escape_of_le hge]
    refine skipString?_plain (fun d hd => ?_) rest
    have hd := le_toNat_of_mem_octets hge hd
    refine ⟨?_, ?_, by omega⟩
    · rintro rfl
      exact absurd hd (by decide)
    · rintro rfl
      exact absurd hd (by decide)

/-- A string ends at its closing mark. -/
theorem skipString?_octets (cs rest : List Char) :
    skipString? (octets (cs.flatMap escape) ++ '"' :: rest) = some rest := by
  induction cs with
  | nil => simp [skipString?]
  | cons c cs ih =>
      rw [List.flatMap_cons, octets_append, List.append_assoc, skipString?_octets_escape, ih]

theorem octets_renderString (s : String) :
    octets (renderString s) = '"' :: (octets (s.toList.flatMap escape) ++ ['"']) := by
  have hmark : octets ['"'] = ['"'] := octets_singleton_of_lt (by decide)
  rw [renderString, octets_cons, octets_append, hmark]
  rfl

/-- The octets of the text of a value are skipped up to their end. -/
def Skimmed (v : Json) : Prop :=
  ∀ fuel rest, Follows rest → skipValue? (fuel + 1) (octets (render v) ++ rest) = some rest

theorem skimmed_string (s : String) : Skimmed (.string s) := by
  intro fuel rest _
  have htext : octets (renderString s) ++ rest =
      '"' :: (octets (s.toList.flatMap escape) ++ '"' :: rest) := by
    rw [octets_renderString]
    simp
  simp only [render, htext, skipValue?, Reader.skipBlanks_quote]
  exact skipString?_octets s.toList rest

theorem skipValue?_digit {d : Char} (h : Reader.isDigit d = true) (cs : List Char) (fuel : Nat) :
    skipValue? (fuel + 1) (d :: cs) = skipNumber? (d :: cs) := by
  rw [skipValue?, Reader.skipBlanks_cons (Reader.isBlank_of_isDigit_or_minus (.inl h))]
  split
  case h_7 => rfl
  all_goals
    next heq =>
      obtain ⟨rfl, -⟩ := List.cons.inj heq
      exact absurd h (by decide)

theorem skipNumber?_nat (n : Nat) {rest : List Char} (h : Follows rest) :
    skipNumber? (Nat.toDigits 10 n ++ rest) = some rest := by
  rw [skipNumber?, Reader.takeWhile_isDigit h, Reader.dropWhile_isDigit h,
    if_neg (Reader.whole_toDigits n)]
  · simp [Reader.fractionPart?_of_follows h, Reader.exponentPart?_of_follows h]
  · exact Reader.toDigits_append_ne_minus n rest

theorem skimmed_nat (n : Nat) : Skimmed (.nat n) := by
  intro fuel rest h
  have hdigits : octets (render (.nat n)) = Nat.toDigits 10 n := by
    have htext : render (.nat n) = Nat.toDigits 10 n := Decimal.toList_toString n
    rw [htext]
    refine octets_of_forall_lt fun c hc => ?_
    have hdigit := Decimal.isDigit_of_mem hc
    simp only [Bool.and_eq_true, decide_eq_true_eq] at hdigit
    have hle : c.toNat ≤ 57 := hdigit.2
    omega
  have hnumber := skipNumber?_nat n h
  obtain ⟨d, ds, hds, hdigit⟩ := Decimal.exists_toDigits_eq_cons n
  rw [hds, List.cons_append] at hnumber
  rw [hdigits, hds, List.cons_append, skipValue?_digit hdigit, hnumber]

/-- The text between two places is what stands in front of the second. -/
theorem between_octets (cs rest : List Char) :
    between (octets cs ++ rest) rest = ofString (String.ofList cs) := by
  have hlength : (octets cs ++ rest).length - rest.length = (octets cs).length := by
    rw [List.length_append]
    omega
  rw [between, hlength, List.take_left, octets, map_characters, ofString_ofList]

/-- A member and its octets behind its key. -/
theorem octets_member (k : String) (v : Json) (rest : List Char) :
    octets (renderString k ++ ':' :: render v) ++ rest =
      octets (renderString k) ++ ':' :: (octets (render v) ++ rest) := by
  have hcolon : octets [':'] = [':'] := octets_singleton_of_lt (by decide)
  rw [octets_append, octets_cons ':', hcolon]
  simp

/-- The first member of a text of members. -/
theorem members?_member {k : String} {v : Json} (hv : Skimmed v) (fuel : Nat) :
    ∀ rest, Follows rest →
      members? (fuel + 1) (octets (renderString k ++ ':' :: render v) ++ rest) =
        match rest with
        | ',' :: more => (members? fuel more).map fun r => ((k, ofString v.compact) :: r.1, r.2)
        | '\x7d' :: more => some ([(k, ofString v.compact)], more)
        | _ => none := by
  intro rest h
  have hkey : octets (renderString k) ++ ':' :: (octets (render v) ++ rest) =
      '"' :: (octets (k.toList.flatMap escape) ++ '"' :: ':' :: (octets (render v) ++ rest)) := by
    rw [octets_renderString]
    simp
  have hname : (between (octets (renderString k) ++ ':' :: (octets (render v) ++ rest))
      (':' :: (octets (render v) ++ rest))).toString? >>= read? = some (.string k) := by
    have hread : read? (String.ofList (renderString k)) = some (.string k) := by
      simpa only [compact, render] using read?_string k
    rw [between_octets, toString?_ofString, Option.bind_eq_bind, Option.bind_some, hread]
  have hvalue := hv (2 * (octets (render v) ++ rest).length + 1) rest h
  have hmember : between (octets (render v) ++ rest) rest = ofString v.compact :=
    between_octets (render v) rest
  rw [octets_member, members?]
  simp only [hkey, Reader.skipBlanks_quote, skipString?_octets, Option.bind_eq_bind,
    Option.bind_some]
  rw [← hkey]
  simp only [Option.bind_eq_bind] at hname
  simp only [hname, Reader.skipBlanks_colon, hvalue, Option.bind_some, hmember,
    Reader.skipBlanks_follows h]
  cases h with
  | comma more =>
      change (members? fuel more).bind _ = (members? fuel more).map _
      cases members? fuel more <;> rfl
  | _ => rfl

/-- The members of an object and their octets. -/
def skimmed (members : List (String × Json)) : List (String × Bytes) :=
  members.map fun m => (m.1, ofString m.2.compact)

theorem members?_octets {k : String} {v : Json} {ms : List (String × Json)}
    (h : ∀ m ∈ (k, v) :: ms, Skimmed m.2) (rest : List Char) {fuel : Nat} (hfuel : ms.length < fuel) :
    members? fuel (octets (renderMembers ((k, v) :: ms)) ++ '\x7d' :: rest) =
      some (skimmed ((k, v) :: ms), rest) := by
  induction ms generalizing k v fuel with
  | nil =>
      obtain ⟨fuel, rfl⟩ : ∃ n, fuel = n + 1 := ⟨fuel - 1, by omega⟩
      rw [renderMembers, members?_member (h _ List.mem_cons_self) fuel _ (.brace rest)]
      rfl
  | cons m ms ih =>
      obtain ⟨fuel, rfl⟩ : ∃ n, fuel = n + 1 := ⟨fuel - 1, by omega⟩
      obtain ⟨l, w⟩ := m
      have hrest := ih (fun m hm => h m (List.mem_cons_of_mem _ hm)) (show ms.length < fuel by simp_all)
      have hcomma : octets [','] = [','] := octets_singleton_of_lt (by decide)
      have htext : octets (renderMembers ((k, v) :: (l, w) :: ms)) ++ '\x7d' :: rest =
          octets (renderString k ++ ':' :: render v) ++
            ',' :: (octets (renderMembers ((l, w) :: ms)) ++ '\x7d' :: rest) := by
        have hrender : renderMembers ((k, v) :: (l, w) :: ms) =
            (renderString k ++ ':' :: render v) ++ ([','] ++ renderMembers ((l, w) :: ms)) := by
          simp [renderMembers]
        rw [hrender, octets_append, octets_append [','], hcomma]
        simp
      rw [htext, members?_member (h _ List.mem_cons_self) fuel _ (.comma _)]
      simp only [hrest, Option.map_some]
      rfl

theorem length_le_octets (cs : List Char) : cs.length ≤ (octets cs).length := by
  induction cs with
  | nil => simp
  | cons c cs ih =>
      have hpos : 0 < (octets [c]).length := by
        rw [octets, length_characters, List.flatMap_singleton, List.length_pos_iff]
        exact String.utf8EncodeChar_ne_nil
      rw [octets_cons, List.length_append, List.length_cons]
      omega

theorem length_le_renderMembers (ms : List (String × Json)) :
    ms.length ≤ (renderMembers ms).length := by
  induction ms with
  | nil => simp
  | cons m ms ih =>
      obtain ⟨k, v⟩ := m
      cases ms with
      | nil =>
          simp only [renderMembers, List.length_cons, List.length_append, List.length_nil]
          omega
      | cons m ms =>
          simp only [renderMembers, List.length_cons, List.length_append] at ih ⊢
          omega

theorem octets_renderMembers_cons (m : String × Json) (ms : List (String × Json)) :
    ∃ cs, octets (renderMembers (m :: ms)) = '"' :: cs := by
  obtain ⟨k, v⟩ := m
  obtain ⟨cs, hcs⟩ : ∃ cs, renderMembers ((k, v) :: ms) = renderString k ++ cs := by
    cases ms with
    | nil => exact ⟨_, rfl⟩
    | cons m ms => exact ⟨_, rfl⟩
  rw [hcs, octets_append, octets_renderString]
  exact ⟨_, rfl⟩

end Skim

/-- Skimming takes the compact text of an object apart into the texts of its members. -/
theorem skimObject?_compact {ms : List (String × Json)} (h : ∀ m ∈ ms, Skim.Skimmed m.2) :
    skimObject? (ofString (Json.object ms).compact) = some (Skim.skimmed ms) := by
  have hopen : octets ['\x7b'] = ['\x7b'] := octets_singleton_of_lt (by decide)
  have hclose : octets ['\x7d'] = ['\x7d'] := octets_singleton_of_lt (by decide)
  have htext : (ofString (Json.object ms).compact).map (fun b => Char.ofNat b.toNat) =
      '\x7b' :: (octets (renderMembers ms) ++ ['\x7d']) := by
    have hcharacters := characters_ofString (Json.object ms).compact
    rw [compact, String.toList_ofList, render, octets_cons, hopen, octets_append, hclose]
      at hcharacters
    exact hcharacters
  rw [skimObject?, htext]
  cases ms with
  | nil => rfl
  | cons m ms =>
      obtain ⟨k, v⟩ := m
      have hfuel : ms.length <
          ('\x7b' :: (octets (renderMembers ((k, v) :: ms)) ++ ['\x7d'])).length := by
        have hmembers := Skim.length_le_renderMembers ((k, v) :: ms)
        have hoctets := Skim.length_le_octets (renderMembers ((k, v) :: ms))
        simp only [List.length_cons, List.length_append] at hmembers ⊢
        omega
      have hmembers := Skim.members?_octets h [] hfuel
      obtain ⟨cs, hcs⟩ := Skim.octets_renderMembers_cons (k, v) ms
      rw [hcs, List.cons_append] at hmembers
      simp only [Reader.skipBlanks_cons (show Reader.isBlank '\x7b' = false by decide), hcs,
        List.cons_append, Reader.skipBlanks_quote, Option.bind_eq_bind]
      change (Skim.members? _ ('"' :: (cs ++ ['\x7d']))).bind _ = _
      rw [hmembers]
      rfl

end AgentGovernance.Json
