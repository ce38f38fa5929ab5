import AgentGovernance.Proofs.ByteOrder
import AgentGovernance.Proofs.Memory.Consistency

/-!
# Queries

A query scans the keys in ascending order, from the first that is not before the given text up to
the first that does not start with it. The keys that start with a text are neighbours in this order,
so the scan comes upon all of them. Every key leads to a stored node and every stored node has one
key, hence a query finds each node whose key starts with the text once.
-/
namespace AgentGovernance.Memory.Forest

theorem startsWith_iff {start text : String} :
    startsWith start text = true ↔ ∃ rest, text = start ++ rest := by
  rw [startsWith, List.isPrefixOf_iff_prefix]
  constructor
  · rintro ⟨cs, hcs⟩
    refine ⟨String.ofList cs, String.toList_injective ?_⟩
    rw [String.toList_append, String.toList_ofList, hcs]
  · rintro ⟨rest, rfl⟩
    rw [String.toList_append]
    exact List.prefix_append _ _

/-! ## Scanning -/

theorem not_lt_of_startsWith {start text : String} (h : startsWith start text = true) :
    ¬text < start := by
  rw [startsWith, List.isPrefixOf_iff_prefix] at h
  rw [String.lt_iff]
  exact h.le

/-- What stands between a beginning and something that starts with it starts with it too. -/
theorem prefix_of_between {p as bs : List Char} (hp : ¬as < p) (h : as < bs) (hbs : p <+: bs) :
    p <+: as := by
  induction p generalizing as bs with
  | nil => exact List.nil_prefix
  | cons c p ih =>
      obtain ⟨rest, rfl⟩ := hbs
      cases as with
      | nil => exact absurd (List.nil_lt_cons c p) hp
      | cons d as =>
          rw [List.cons_lt_cons_iff, not_or] at hp
          rw [List.cons_append, List.cons_lt_cons_iff] at h
          obtain ⟨rfl, hrest⟩ := h.resolve_left hp.1
          have hp' : ¬as < p := fun hlt => hp.2 ⟨rfl, hlt⟩
          exact List.cons_prefix_cons.mpr ⟨rfl, ih hp' hrest (List.prefix_append p rest)⟩

theorem startsWith_of_between {start key later : String} (hkey : ¬key < start)
    (h : key < later) (hlater : startsWith start later = true) : startsWith start key = true := by
  rw [startsWith, List.isPrefixOf_iff_prefix] at hlater ⊢
  exact prefix_of_between (fun hlt => hkey (String.lt_iff.mpr hlt)) (String.lt_iff.mp h) hlater

section Scan

variable {α : Type} {start : String} {es : List (String × α)}

/-- Among keys that are not before a text, those that start with it come first. -/
theorem takeWhile_startsWith (hsorted : es.Pairwise fun d e => d.1 < e.1)
    (hfrom : ∀ e ∈ es, ¬e.1 < start) :
    es.takeWhile (fun e => startsWith start e.1) = es.filter fun e => startsWith start e.1 := by
  induction es with
  | nil => rfl
  | cons e es ih =>
      obtain ⟨hfirst, hrest⟩ := List.pairwise_cons.mp hsorted
      obtain ⟨he, hes⟩ := List.forall_mem_cons.mp hfrom
      by_cases hstarts : startsWith start e.1 = true
      · simp only [List.takeWhile_cons, List.filter_cons, hstarts, if_true, ih hrest hes]
      · simp only [List.takeWhile_cons, List.filter_cons, hstarts]
        refine (List.filter_eq_nil_iff.mpr fun d hd hlater => hstarts ?_).symm
        exact startsWith_of_between he (hfirst d hd) hlater

theorem scan_eq_filter (hsorted : es.Pairwise fun d e => d.1 < e.1) :
    (es.dropWhile (·.1 < start)).takeWhile (fun e => startsWith start e.1) =
      es.filter fun e => startsWith start e.1 := by
  induction es with
  | nil => rfl
  | cons e es ih =>
      obtain ⟨hfirst, hrest⟩ := List.pairwise_cons.mp hsorted
      by_cases hbefore : e.1 < start
      · have hstarts : ¬startsWith start e.1 = true := fun h => not_lt_of_startsWith h hbefore
        rw [List.dropWhile_cons_of_pos (by simpa using hbefore), ih hrest, List.filter_cons,
          if_neg hstarts]
      · rw [List.dropWhile_cons_of_neg (by simpa using hbefore)]
        refine takeWhile_startsWith hsorted (List.forall_mem_cons.mpr ⟨hbefore, fun d hd => ?_⟩)
        exact fun hlt => hbefore (String.lt_trans (hfirst d hd) hlt)

end Scan

/-! ## What a query finds -/

variable {f : Forest}

theorem query_eq_filterMap (f : Forest) (start : String) :
    f.query start =
      (f.keys.entries.filter fun e => startsWith start e.1).filterMap fun e => f.get? e.2 := by
  have hscan : _ = f.keys.entries.filter fun e => startsWith start e.1 :=
    scan_eq_filter f.keys.sorted
  rw [query]
  exact congrArg _ hscan

theorem Grown.mem_entries_keys_iff (h : Grown {} f) {key : String} {id : NodeId} :
    (key, id) ∈ f.keys.entries ↔ f.key? id = some key := by
  rw [Table.mem_entries_iff, h.find?_keys_iff]

theorem Grown.mem_query_iff (h : Grown {} f) {start : String} {n : Node} :
    n ∈ f.query start ↔
      f.get? n.id = some n ∧ ∃ key, f.key? n.id = some key ∧ startsWith start key = true := by
  simp only [query_eq_filterMap, List.mem_filterMap, List.mem_filter, Prod.exists,
    h.mem_entries_keys_iff]
  constructor
  · rintro ⟨key, id, ⟨hkey, hstarts⟩, hn⟩
    obtain rfl := h.wellFormed.id_eq hn
    exact ⟨hn, key, hkey, hstarts⟩
  · rintro ⟨hn, key, hkey, hstarts⟩
    exact ⟨key, n.id, ⟨hkey, hstarts⟩, hn⟩

/-- Of two nodes the key of the first is before that of the second, octet by octet. -/
def KeyBefore (f : Forest) (m n : Node) : Prop :=
  ∃ k l, f.key? m.id = some k ∧ f.key? n.id = some l ∧ Bytes.ofString k < Bytes.ofString l

theorem KeyBefore.id_ne {m n : Node} (h : KeyBefore f m n) : m.id ≠ n.id := by
  obtain ⟨k, l, hk, hl, hlt⟩ := h
  intro hid
  rw [hid, hl] at hk
  obtain rfl := Option.some.inj hk
  exact List.lt_irrefl _ hlt

theorem Grown.pairwise_query (h : Grown {} f) (start : String) :
    (f.query start).Pairwise (KeyBefore f) := by
  rw [query_eq_filterMap, List.pairwise_filterMap]
  have hsorted : f.keys.entries.Pairwise fun d e => d.1 < e.1 := f.keys.sorted
  refine (hsorted.filter _).imp_of_mem fun {d e} hd he hlt m hm n hn => ?_
  have hkey : ∀ e ∈ f.keys.entries.filter fun e => startsWith start e.1,
      ∀ n, f.get? e.2 = some n → f.key? n.id = some e.1 := by
    intro e he n hn
    rw [h.wellFormed.id_eq hn]
    exact h.mem_entries_keys_iff.mp (List.mem_filter.mp he).1
  exact ⟨d.1, e.1, hkey d hd m hm, hkey e he n hn, Bytes.ofString_lt_iff.mpr hlt⟩

/-- What a query has to answer. -/
structure Answers (f : Forest) (start : String) (found : List Node) : Prop where
  mem_iff : ∀ n, n ∈ found ↔ f.get? n.id = some n ∧ ∃ rest, f.key? n.id = some (start ++ rest)
  nodup : (found.map (·.id)).Nodup
  ordered : found.Pairwise (KeyBefore f)

/-- Whatever operations have made a forest, and whatever the text, a query finds each stored node
whose key starts with the text once and nothing else, in the order of the octets of the keys. -/
theorem reached_query (h : Reached f) (start : String) : Answers f start (f.query start) where
  mem_iff n := by
    rw [h.grown.mem_query_iff]
    refine and_congr_right fun _ => ⟨?_, ?_⟩
    · rintro ⟨key, hkey, hstarts⟩
      obtain ⟨rest, rfl⟩ := startsWith_iff.mp hstarts
      exact ⟨rest, hkey⟩
    · rintro ⟨rest, hkey⟩
      exact ⟨_, hkey, startsWith_iff.mpr ⟨rest, rfl⟩⟩
  nodup := List.pairwise_map.mpr ((h.grown.pairwise_query start).imp KeyBefore.id_ne)
  ordered := h.grown.pairwise_query start

/-- A text that ends with a slash finds the children of a node, and one that ends with the name of a
child finds that child. -/
theorem reached_query_children :
    ∃ f, Reached f ∧ Answers f "r1/" [staleChild, lateChild] ∧ Answers f "r1/c2" [lateChild] := by
  have hreached : Reached (staleTree.place lateChild) :=
    Reached.insert lateChild (Reached.insert staleChild (Reached.insert staleRoot Reached.empty))
  have hchildren : (staleTree.place lateChild).query "r1/" = [staleChild, lateChild] := by decide
  have hlate : (staleTree.place lateChild).query "r1/c2" = [lateChild] := by decide
  refine ⟨_, hreached, ?_, ?_⟩
  · rw [← hchildren]
    exact reached_query hreached "r1/"
  · rw [← hlate]
    exact reached_query hreached "r1/c2"

end AgentGovernance.Memory.Forest
