import AgentGovernance.Json.Codec
import AgentGovernance.Proofs.Json.Reading

/-!
# What the text of a value determines

The reader takes back the compact text of every value whose numbers are integers of a word, however
deep the value nests, if it gets enough fuel and may go deep enough. It leaves what comes behind the
text, so two such values with one text are equal. A table of texts is written as an object whose
members are strings, in the order of the table, and its text determines it.
-/
namespace AgentGovernance.Json

open Reader

/-- Every number in the value is an integer that fits a word, signed or unsigned. -/
inductive IsIntegral : Json → Prop where
  | null : IsIntegral .null
  | bool (b : Bool) : IsIntegral (.bool b)
  | integer {n : Int} (lower : -0x8000000000000000 ≤ n) (upper : n ≤ 0xffffffffffffffff) :
      IsIntegral (.number (.integer n))
  | string (s : String) : IsIntegral (.string s)
  | array {items : List Json} (h : ∀ v ∈ items, IsIntegral v) : IsIntegral (.array items)
  | object {members : List (String × Json)} (h : ∀ m ∈ members, IsIntegral m.2) :
      IsIntegral (.object members)

/-- From some fuel and some depth on, the reader takes the text of a value back and leaves what
comes behind it. -/
def IsReadBack (v : Json) : Prop :=
  ∃ need, ∀ fuel depth rest, need ≤ fuel → need ≤ depth → Follows rest →
    value? fuel depth (render v ++ rest) = some (v, rest)

/-! ## Values without parts -/

/-- A value for which the reader calls nothing that needs fuel. -/
theorem isReadBack_of_value?_succ {v : Json}
    (h : ∀ fuel depth rest, Follows rest →
      value? (fuel + 1) depth (render v ++ rest) = some (v, rest)) : IsReadBack v := by
  refine ⟨1, fun fuel depth rest hfuel _ hrest => ?_⟩
  obtain ⟨fuel, rfl⟩ : ∃ n, fuel = n + 1 := ⟨fuel - 1, by omega⟩
  exact h fuel depth rest hrest

theorem isReadBack_null : IsReadBack .null := isReadBack_of_value?_succ fun _ _ _ _ => rfl

theorem isReadBack_bool (b : Bool) : IsReadBack (.bool b) := by
  cases b <;> exact isReadBack_of_value?_succ fun _ _ _ _ => rfl

theorem isReadBack_string (s : String) : IsReadBack (.string s) :=
  isReadBack_of_value?_succ fun fuel depth rest _ => value?_string s fuel depth rest

theorem render_negSucc (n : Nat) :
    render (.int (Int.negSucc n)) = '-' :: Nat.toDigits 10 (n + 1) := by
  have htext : render (.int (Int.negSucc n)) = ("-" ++ toString (n + 1)).toList := rfl
  rw [htext, String.toList_append, Decimal.toList_toString]
  rfl

theorem isReadBack_integer {n : Int} (lower : -0x8000000000000000 ≤ n)
    (upper : n ≤ 0xffffffffffffffff) : IsReadBack (.int n) := by
  have hword : wordLimit = 0x10000000000000000 := by decide
  have hsigned : 1 <<< 63 = 0x8000000000000000 := by decide
  refine isReadBack_of_value?_succ fun fuel depth rest hrest => ?_
  cases n with
  | ofNat n =>
      have hn : n < wordLimit := by
        rw [Int.ofNat_eq_natCast] at upper
        omega
      have htext : render (.int (Int.ofNat n)) = Nat.toDigits 10 n := Decimal.toList_toString n
      rw [htext]
      exact value?_nat hn fuel depth hrest
  | negSucc n =>
      have hn : n + 1 ≤ 1 <<< 63 := by
        rw [Int.negSucc_eq] at lower
        omega
      rw [render_negSucc, List.cons_append, value?_number (.inr rfl),
        number?_negative (Nat.succ_pos n) hn hrest]
      rfl

/-! ## Arrays -/

/-- The text of a value does not start like the end of an array. -/
theorem exists_render_eq_cons {v : Json} (hv : v.IsIntegral) :
    ∃ c cs, render v = c :: cs ∧ isBlank c = false ∧ c ≠ ']' := by
  cases hv with
  | null => exact ⟨_, _, rfl, by decide, by decide⟩
  | bool b => cases b <;> exact ⟨_, _, rfl, by decide, by decide⟩
  | @integer n _ _ =>
      cases n with
      | ofNat n =>
          obtain ⟨d, ds, hds, hdigit⟩ := Decimal.exists_toDigits_eq_cons n
          refine ⟨d, ds, (Decimal.toList_toString n).trans hds, ?_, ?_⟩
          · exact isBlank_of_isDigit_or_minus (.inl hdigit)
          · rintro rfl
            exact absurd hdigit (by decide)
      | negSucc n => exact ⟨_, _, render_negSucc n, by decide, by decide⟩
  | string s => exact ⟨_, _, rfl, by decide, by decide⟩
  | array => exact ⟨_, _, rfl, by decide, by decide⟩
  | object => exact ⟨_, _, rfl, by decide, by decide⟩

theorem renderItems_cons_append (v w : Json) (vs : List Json) (rest : List Char) :
    renderItems (v :: w :: vs) ++ ']' :: rest =
      render v ++ ',' :: (renderItems (w :: vs) ++ ']' :: rest) := by
  simp [renderItems]

/-- The items of an array are read back one after the other, each with the fuel that is left. -/
theorem items?_renderItems {v : Json} {vs : List Json} (h : ∀ u ∈ v :: vs, IsReadBack u) :
    ∃ need, ∀ fuel depth rest, need ≤ fuel → need ≤ depth →
      items? fuel depth (renderItems (v :: vs) ++ ']' :: rest) = some (v :: vs, rest) := by
  induction vs generalizing v with
  | nil =>
      obtain ⟨first, hfirst⟩ := h v List.mem_cons_self
      refine ⟨first + 1, fun fuel depth rest hfuel hdepth => ?_⟩
      obtain ⟨fuel, rfl⟩ : ∃ n, fuel = n + 1 := ⟨fuel - 1, by omega⟩
      rw [renderItems, items?, hfirst fuel depth _ (by omega) (by omega) (.bracket rest)]
      rfl
  | cons w vs ih =>
      obtain ⟨first, hfirst⟩ := h v List.mem_cons_self
      obtain ⟨others, hothers⟩ := ih fun u hu => h u (List.mem_cons_of_mem _ hu)
      refine ⟨max first others + 1, fun fuel depth rest hfuel hdepth => ?_⟩
      obtain ⟨fuel, rfl⟩ : ∃ n, fuel = n + 1 := ⟨fuel - 1, by omega⟩
      rw [renderItems_cons_append, items?, hfirst fuel depth _ (by omega) (by omega) (.comma _)]
      simp only [skipBlanks_follows (.comma _), hothers fuel depth rest (by omega) (by omega)]
      rfl

theorem value?_array {fuel depth : Nat} (hdepth : 1 < depth) {c : Char}
    (hblank : isBlank c = false) (hend : c ≠ ']') (cs : List Char) :
    value? (fuel + 1) depth ('[' :: c :: cs) =
      (items? fuel (depth - 1) (c :: cs)).map fun r => (.array r.1, r.2) := by
  have hopen : skipBlanks ('[' :: c :: cs) = '[' :: c :: cs := skipBlanks_cons (by decide) _
  rw [value?, hopen]
  simp only [if_neg (show ¬depth ≤ 1 by omega), skipBlanks_cons hblank]
  split
  next hcs => exact absurd (List.cons.inj hcs).1 hend
  next => cases items? fuel (depth - 1) (c :: cs) <;> rfl

theorem isReadBack_array {items : List Json} (hitems : ∀ v ∈ items, IsIntegral v)
    (hread : ∀ v ∈ items, IsReadBack v) : IsReadBack (.array items) := by
  cases items with
  | nil =>
      refine ⟨2, fun fuel depth rest hfuel hdepth _ => ?_⟩
      obtain ⟨fuel, rfl⟩ : ∃ n, fuel = n + 1 := ⟨fuel - 1, by omega⟩
      exact if_neg (show ¬depth ≤ 1 by omega)
  | cons v vs =>
      obtain ⟨need, hneed⟩ := items?_renderItems hread
      refine ⟨need + 2, fun fuel depth rest hfuel hdepth _ => ?_⟩
      obtain ⟨fuel, rfl⟩ : ∃ n, fuel = n + 1 := ⟨fuel - 1, by omega⟩
      obtain ⟨c, cs, hcs, hblank, hend⟩ := exists_render_eq_cons (hitems v List.mem_cons_self)
      obtain ⟨ds, hds⟩ : ∃ ds, renderItems (v :: vs) = c :: ds := by
        cases vs with
        | nil => exact ⟨cs, hcs⟩
        | cons w vs => exact ⟨_, by rw [renderItems, hcs, List.cons_append]⟩
      have htext : render (.array (v :: vs)) ++ rest =
          '[' :: (renderItems (v :: vs) ++ ']' :: rest) := by
        simp [render]
      have hvalues := hneed fuel (depth - 1) rest (by omega) (by omega)
      rw [hds, List.cons_append] at hvalues
      rw [htext, hds, List.cons_append, value?_array (by omega) hblank hend, hvalues]
      rfl

/-! ## Objects -/

theorem renderMembers_cons_append (k l : String) (v w : Json) (ms : List (String × Json))
    (rest : List Char) :
    renderMembers ((k, v) :: (l, w) :: ms) ++ '\x7d' :: rest =
      renderString k ++
        ':' :: (render v ++ ',' :: (renderMembers ((l, w) :: ms) ++ '\x7d' :: rest)) := by
  simp [renderMembers]

theorem members?_comma {k : String} {fuel depth : Nat} {v : Json} {cs rest : List Char}
    (h : value? fuel depth cs = some (v, ',' :: rest)) :
    members? (fuel + 1) depth (renderString k ++ ':' :: cs) =
      (members? fuel depth rest).map fun r => ((k, v) :: r.1, r.2) := by
  rw [renderString_append, members?]
  simp only [skipBlanks_quote, string?_escaped, skipBlanks_colon, h,
    skipBlanks_follows (.comma rest)]
  cases members? fuel depth rest <;> rfl

theorem members?_brace {k : String} {fuel depth : Nat} {v : Json} {cs rest : List Char}
    (h : value? fuel depth cs = some (v, '\x7d' :: rest)) :
    members? (fuel + 1) depth (renderString k ++ ':' :: cs) = some ([(k, v)], rest) := by
  rw [renderString_append, members?]
  simp only [skipBlanks_quote, string?_escaped, skipBlanks_colon, h,
    skipBlanks_follows (.brace rest)]

theorem members?_renderMembers {k : String} {v : Json} {ms : List (String × Json)}
    (h : ∀ m ∈ (k, v) :: ms, IsReadBack m.2) :
    ∃ need, ∀ fuel depth rest, need ≤ fuel → need ≤ depth →
      members? fuel depth (renderMembers ((k, v) :: ms) ++ '\x7d' :: rest) =
        some ((k, v) :: ms, rest) := by
  induction ms generalizing k v with
  | nil =>
      obtain ⟨first, hfirst⟩ := h (k, v) List.mem_cons_self
      refine ⟨first + 1, fun fuel depth rest hfuel hdepth => ?_⟩
      obtain ⟨fuel, rfl⟩ : ∃ n, fuel = n + 1 := ⟨fuel - 1, by omega⟩
      rw [renderMembers, List.append_assoc, List.cons_append]
      exact members?_brace (hfirst fuel depth _ (by omega) (by omega) (.brace rest))
  | cons m ms ih =>
      obtain ⟨l, w⟩ := m
      obtain ⟨first, hfirst⟩ := h (k, v) List.mem_cons_self
      obtain ⟨others, hothers⟩ := ih fun m hm => h m (List.mem_cons_of_mem _ hm)
      refine ⟨max first others + 1, fun fuel depth rest hfuel hdepth => ?_⟩
      obtain ⟨fuel, rfl⟩ : ∃ n, fuel = n + 1 := ⟨fuel - 1, by omega⟩
      rw [renderMembers_cons_append,
        members?_comma (hfirst fuel depth _ (by omega) (by omega) (.comma _)),
        hothers fuel depth rest (by omega) (by omega)]
      rfl

theorem value?_object {fuel depth : Nat} (hdepth : 1 < depth) (cs : List Char) :
    value? (fuel + 1) depth ('\x7b' :: '"' :: cs) =
      (members? fuel (depth - 1) ('"' :: cs)).map fun r => (.object r.1, r.2) := by
  have hopen : skipBlanks ('\x7b' :: '"' :: cs) = '\x7b' :: '"' :: cs :=
    skipBlanks_cons (by decide) _
  rw [value?, hopen]
  simp only [if_neg (show ¬depth ≤ 1 by omega), skipBlanks_quote]
  split
  next hcs => exact absurd (List.cons.inj hcs).1 (by decide)
  next => cases members? fuel (depth - 1) ('"' :: cs) <;> rfl

theorem isReadBack_object {members : List (String × Json)} (hread : ∀ m ∈ members, IsReadBack m.2) :
    IsReadBack (.object members) := by
  cases members with
  | nil =>
      refine ⟨2, fun fuel depth rest hfuel hdepth _ => ?_⟩
      obtain ⟨fuel, rfl⟩ : ∃ n, fuel = n + 1 := ⟨fuel - 1, by omega⟩
      exact if_neg (show ¬depth ≤ 1 by omega)
  | cons m ms =>
      obtain ⟨k, v⟩ := m
      obtain ⟨need, hneed⟩ := members?_renderMembers hread
      refine ⟨need + 2, fun fuel depth rest hfuel hdepth _ => ?_⟩
      obtain ⟨fuel, rfl⟩ : ∃ n, fuel = n + 1 := ⟨fuel - 1, by omega⟩
      obtain ⟨cs, hcs⟩ : ∃ cs, renderMembers ((k, v) :: ms) = '"' :: cs := by
        cases ms with
        | nil => exact ⟨_, rfl⟩
        | cons m ms => exact ⟨_, rfl⟩
      have htext : render (.object ((k, v) :: ms)) ++ rest =
          '\x7b' :: (renderMembers ((k, v) :: ms) ++ '\x7d' :: rest) := by
        simp [render]
      have hmembers := hneed fuel (depth - 1) rest (by omega) (by omega)
      rw [hcs, List.cons_append] at hmembers
      rw [htext, hcs, List.cons_append, value?_object (by omega), hmembers]
      rfl

/-! ## Texts determine values -/

theorem IsIntegral.isReadBack {v : Json} (hv : v.IsIntegral) : v.IsReadBack := by
  induction hv with
  | null => exact isReadBack_null
  | bool b => exact isReadBack_bool b
  | integer lower upper => exact isReadBack_integer lower upper
  | string s => exact isReadBack_string s
  | array hitems ih => exact isReadBack_array hitems ih
  | object _ ih => exact isReadBack_object ih

/-- One call of the reader with enough fuel for both values takes both back from one text. -/
theorem IsReadBack.compact_injective {v w : Json} (hv : v.IsReadBack) (hw : w.IsReadBack)
    (h : v.compact = w.compact) : v = w := by
  obtain ⟨m, hm⟩ := hv
  obtain ⟨n, hn⟩ := hw
  have hleft := hm (max m n) (max m n) [] (by omega) (by omega) .done
  have hright := hn (max m n) (max m n) [] (by omega) (by omega) .done
  rw [String.ofList_injective h, hright] at hleft
  exact (Prod.mk.inj (Option.some.inj hleft)).1.symm

theorem isReadBack_encode (t : Table String String) : IsReadBack (encode t) := by
  refine isReadBack_object fun m hm => ?_
  obtain ⟨p, -, rfl⟩ := List.mem_map.mp hm
  exact isReadBack_string p.2

/-- A table of texts can be told from its text. -/
theorem compact_encode_injective {s t : Table String String}
    (h : (encode s).compact = (encode t).compact) : s = t := by
  have hvalues := (isReadBack_encode s).compact_injective (isReadBack_encode t) h
  have hentries : s.entries = t.entries :=
    (List.map_inj_right fun _ _ hmember =>
      Prod.ext (Prod.mk.inj hmember).1 (Json.string.inj (Prod.mk.inj hmember).2)).mp
        (Json.object.inj hvalues)
  cases s
  cases t
  simpa using hentries

end AgentGovernance.Json
