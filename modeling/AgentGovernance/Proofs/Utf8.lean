import AgentGovernance.Bytes

/-!
# Octets of texts

The UTF-8 form of a text is the concatenation of the forms of its characters. A character below 128
is its own octet; every octet of another character is at least 128, so nothing that is looked for by
an ASCII mark is found inside it.
-/
namespace AgentGovernance.Bytes

theorem ofString_ofList (cs : List Char) :
    ofString (String.ofList cs) = cs.flatMap String.utf8EncodeChar := by
  simp [ofString, List.utf8Encode]

theorem ofString_eq_flatMap (s : String) : ofString s = s.toList.flatMap String.utf8EncodeChar := by
  rw [← ofString_ofList, String.ofList_toList]

@[simp] theorem toString?_ofString (s : String) : toString? (ofString s) = some s := by
  have hbytes : (⟨(ofString s).toArray⟩ : ByteArray) = s.toByteArray := by simp [ofString]
  rw [toString?, hbytes, String.fromUTF8?, dif_pos s.isValidUTF8]
  rfl

theorem ofString_injective {s t : String} (h : ofString s = ofString t) : s = t := by
  have hread : some s = some t := by rw [← toString?_ofString s, h, toString?_ofString]
  exact Option.some.inj hread

/-- A character has four octets at most. -/
theorem length_ofString_le (s : String) : (ofString s).length ≤ 4 * s.toList.length := by
  rw [ofString_eq_flatMap]
  induction s.toList with
  | nil => exact Nat.le_refl _
  | cons c cs ih =>
      have hc : (String.utf8EncodeChar c).length ≤ 4 := by
        rw [String.length_utf8EncodeChar]
        exact c.utf8Size_le_four
      rw [List.flatMap_cons, List.length_append, List.length_cons]
      omega

/-- Octets as the characters with their numbers. -/
def characters (bs : Bytes) : List Char := bs.map fun b => Char.ofNat b.toNat

@[simp] theorem characters_append (as bs : Bytes) :
    characters (as ++ bs) = characters as ++ characters bs := List.map_append

@[simp] theorem length_characters (bs : Bytes) : (characters bs).length = bs.length :=
  List.length_map _

theorem toNat_character (b : UInt8) : (Char.ofNat b.toNat).toNat = b.toNat := by
  have hlt := b.toNat_lt
  have hvalid : b.toNat.isValidChar := .inl (by omega)
  rw [Char.ofNat, dif_pos hvalid]
  rfl

/-- The octets can be read off their characters. -/
theorem map_characters (bs : Bytes) : (characters bs).map (fun c => UInt8.ofNat c.toNat) = bs := by
  induction bs with
  | nil => rfl
  | cons b bs ih =>
      rw [characters, List.map_cons, List.map_cons, toNat_character, UInt8.ofNat_toNat]
      exact congrArg (b :: ·) ih

/-- The octets of some characters, again as characters. -/
def octets (cs : List Char) : List Char := characters (cs.flatMap String.utf8EncodeChar)

@[simp] theorem octets_nil : octets [] = [] := rfl

@[simp] theorem octets_append (cs ds : List Char) : octets (cs ++ ds) = octets cs ++ octets ds := by
  rw [octets, List.flatMap_append, characters_append]
  rfl

theorem octets_cons (c : Char) (cs : List Char) : octets (c :: cs) = octets [c] ++ octets cs :=
  octets_append [c] cs

theorem characters_ofString (s : String) : characters (ofString s) = octets s.toList := by
  rw [ofString_eq_flatMap, octets]

theorem octets_singleton_of_lt {c : Char} (h : c.toNat < 128) : octets [c] = [c] := by
  have hle : c.val.toNat ≤ 0x7f := by
    have : c.val.toNat = c.toNat := rfl
    omega
  have hoctet : (UInt8.ofNat c.val.toNat).toNat = c.toNat := by
    rw [UInt8.toNat_ofNat']
    exact Nat.mod_eq_of_lt (show c.toNat < 2 ^ 8 by omega)
  simp only [octets, characters, List.flatMap_singleton, String.utf8EncodeChar, if_pos hle,
    List.map_cons, List.map_nil, hoctet, Char.ofNat_toNat]

/-- A text of ASCII characters is the text of its octets. -/
theorem octets_of_forall_lt {cs : List Char} (h : ∀ c ∈ cs, c.toNat < 128) : octets cs = cs := by
  induction cs with
  | nil => rfl
  | cons c cs ih =>
      rw [octets_cons, octets_singleton_of_lt (h c List.mem_cons_self),
        ih fun d hd => h d (List.mem_cons_of_mem _ hd)]
      rfl

theorem le_toNat_of_mem_octets {c d : Char} (h : 128 ≤ c.toNat) (hd : d ∈ octets [c]) :
    128 ≤ d.toNat := by
  have hge : 128 ≤ c.val.toNat := h
  simp only [octets, characters, List.flatMap_singleton, List.mem_map] at hd
  obtain ⟨b, hb, rfl⟩ := hd
  rw [toNat_character]
  simp only [String.utf8EncodeChar] at hb
  rw [if_neg (by omega)] at hb
  split at hb
  · simp only [List.mem_cons, List.not_mem_nil, or_false] at hb
    rcases hb with rfl | rfl <;> simp only [UInt8.toNat_ofNat'] <;> omega
  · split at hb
    · simp only [List.mem_cons, List.not_mem_nil, or_false] at hb
      rcases hb with rfl | rfl | rfl <;> simp only [UInt8.toNat_ofNat'] <;> omega
    · simp only [List.mem_cons, List.not_mem_nil, or_false] at hb
      rcases hb with rfl | rfl | rfl | rfl <;> simp only [UInt8.toNat_ofNat'] <;> omega

end AgentGovernance.Bytes
