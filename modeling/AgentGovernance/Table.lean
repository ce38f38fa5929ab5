/-!
# Tables

A table is a list of entries in ascending order of their keys, so a key occurs once and two tables
with the same entries are equal. Texts are ordered by their characters, which is the order of
their UTF-8 bytes.

Each operation has one lemma that says what it does to `find?`, and `find?` finds the entries that are
in the list.
-/
namespace AgentGovernance

/-- A strict total order on the keys of a table. -/
class Key (κ : Type) where
  Before : κ → κ → Prop
  decidableBefore : ∀ a b, Decidable (Before a b)
  irrefl : ∀ a, ¬Before a a
  trans : ∀ {a b c}, Before a b → Before b c → Before a c
  connected : ∀ a b, a = b ∨ Before a b ∨ Before b a

namespace Key

instance {κ : Type} [Key κ] (a b : κ) : Decidable (Before a b) := decidableBefore a b

theorem asymm {κ : Type} [Key κ] {a b : κ} (h : Before a b) : ¬Before b a :=
  fun g => irrefl a (trans h g)

theorem eq_of_not_before {κ : Type} [Key κ] {a b : κ} (h : ¬Before a b) (g : ¬Before b a) :
    a = b := by
  rcases connected a b with e | e | e
  · exact e
  · exact absurd e h
  · exact absurd e g

instance : Key Nat where
  Before a b := a < b
  decidableBefore _ _ := inferInstance
  irrefl := Nat.lt_irrefl
  trans := Nat.lt_trans
  connected a b := by omega

instance : Key String where
  Before a b := a < b
  decidableBefore _ _ := inferInstance
  irrefl := String.lt_irrefl
  trans := String.lt_trans
  connected a b := by
    by_cases h : a < b
    · exact .inr (.inl h)
    · by_cases g : b < a
      · exact .inr (.inr g)
      · exact .inl (String.le_antisymm (String.not_lt.mp g) (String.not_lt.mp h))

/-- Orders a type by an injective view of it. -/
@[reducible] def ofView {κ ι : Type} [Key ι] (view : κ → ι)
    (injective : ∀ a b, view a = view b → a = b) :
    Key κ where
  Before a b := Before (view a) (view b)
  decidableBefore _ _ := inferInstance
  irrefl a := irrefl (view a)
  trans := trans
  connected a b := (connected (view a) (view b)).imp (injective a b) id

end Key

structure Table (κ α : Type) [Key κ] where
  entries : List (κ × α)
  sorted : entries.Pairwise fun p q => Key.Before p.1 q.1

namespace Table

variable {κ α β : Type} [Key κ]

instance [DecidableEq κ] [DecidableEq α] : DecidableEq (Table κ α) := fun s t =>
  if h : s.entries = t.entries then .isTrue (by cases s; cases t; simp_all)
  else .isFalse fun e => h (e ▸ rfl)

instance [Repr κ] [Repr α] : Repr (Table κ α) := ⟨fun t n => reprPrec t.entries n⟩

def empty : Table κ α := ⟨[], .nil⟩

instance : Inhabited (Table κ α) := ⟨empty⟩

instance : EmptyCollection (Table κ α) := ⟨empty⟩

def size (t : Table κ α) : Nat := t.entries.length

def isEmpty (t : Table κ α) : Bool := t.entries.isEmpty

def keys (t : Table κ α) : List κ := t.entries.map (·.1)

def values (t : Table κ α) : List α := t.entries.map (·.2)

/-- The value under a key in a sorted list. -/
def findEntry (k : κ) : List (κ × α) → Option α
  | [] => none
  | (j, v) :: rest =>
      if Key.Before k j then none
      else if Key.Before j k then findEntry k rest
      else some v

def find? (t : Table κ α) (k : κ) : Option α := findEntry k t.entries

def contains (t : Table κ α) (k : κ) : Bool := (t.find? k).isSome

/-- Puts an entry at its place, over the entry that had the key. -/
def insertEntry (k : κ) (v : α) : List (κ × α) → List (κ × α)
  | [] => [(k, v)]
  | (j, w) :: rest =>
      if Key.Before k j then (k, v) :: (j, w) :: rest
      else if Key.Before j k then (j, w) :: insertEntry k v rest
      else (k, v) :: rest

theorem mem_insertEntry {k : κ} {v : α} {es : List (κ × α)} {p : κ × α}
    (h : p ∈ insertEntry k v es) : p = (k, v) ∨ p ∈ es := by
  induction es with
  | nil => simpa [insertEntry] using h
  | cons e es ih =>
      obtain ⟨j, w⟩ := e
      simp only [insertEntry] at h
      split at h
      · simpa using h
      · split at h
        · rcases List.mem_cons.mp h with h | h
          · exact .inr (h ▸ List.mem_cons_self)
          · exact (ih h).imp_right (List.mem_cons_of_mem _)
        · rcases List.mem_cons.mp h with h | h
          · exact .inl h
          · exact .inr (List.mem_cons_of_mem _ h)

theorem sorted_insertEntry (k : κ) (v : α) {es : List (κ × α)}
    (h : es.Pairwise fun p q => Key.Before p.1 q.1) :
    (insertEntry k v es).Pairwise fun p q => Key.Before p.1 q.1 := by
  induction es with
  | nil => simp [insertEntry]
  | cons e es ih =>
      obtain ⟨j, w⟩ := e
      rw [List.pairwise_cons] at h
      simp only [insertEntry]
      split
      next hk =>
        refine List.pairwise_cons.mpr ⟨fun p hp => ?_, List.pairwise_cons.mpr h⟩
        rcases List.mem_cons.mp hp with rfl | hp
        · exact hk
        · exact Key.trans hk (h.1 p hp)
      next hk =>
        split
        next hj =>
          refine List.pairwise_cons.mpr ⟨fun p hp => ?_, ih h.2⟩
          rcases mem_insertEntry hp with rfl | hp
          · exact hj
          · exact h.1 p hp
        next hj =>
          obtain rfl := Key.eq_of_not_before hk hj
          exact List.pairwise_cons.mpr h

def insert (t : Table κ α) (k : κ) (v : α) : Table κ α :=
  ⟨insertEntry k v t.entries, sorted_insertEntry k v t.sorted⟩

/-- The entries of a list; of entries with one key the last. -/
def ofList (es : List (κ × α)) : Table κ α := es.foldl (fun t e => t.insert e.1 e.2) empty

def filter (keep : κ → α → Bool) (t : Table κ α) : Table κ α :=
  ⟨t.entries.filter fun p => keep p.1 p.2, t.sorted.filter _⟩

def erase [DecidableEq κ] (t : Table κ α) (k : κ) : Table κ α := t.filter fun j _ => j ≠ k

/-- Changes every value and no key. -/
def map (f : κ → α → β) (t : Table κ α) : Table κ β :=
  ⟨t.entries.map fun p => (p.1, f p.1 p.2), List.pairwise_map.mpr t.sorted⟩

@[simp] theorem find?_empty (k : κ) : (empty : Table κ α).find? k = none := rfl

theorem findEntry_insertEntry_self (k : κ) (v : α) (es : List (κ × α)) :
    findEntry k (insertEntry k v es) = some v := by
  induction es with
  | nil => simp [insertEntry, findEntry, Key.irrefl]
  | cons e es ih =>
      obtain ⟨j, w⟩ := e
      simp only [insertEntry]
      split
      · simp [findEntry, Key.irrefl]
      next hk =>
        split
        next hj => simp [findEntry, hk, hj, ih]
        next hj => simp [findEntry, Key.irrefl]

@[simp] theorem find?_insert_self (t : Table κ α) (k : κ) (v : α) :
    (t.insert k v).find? k = some v := findEntry_insertEntry_self k v t.entries

theorem findEntry_insertEntry_ne {i k : κ} (h : i ≠ k) (v : α) (es : List (κ × α))
    (hs : es.Pairwise fun p q => Key.Before p.1 q.1) :
    findEntry i (insertEntry k v es) = findEntry i es := by
  induction es with
  | nil =>
      rcases Key.connected i k with e | e | e
      · exact absurd e h
      · simp [insertEntry, findEntry, e]
      · simp [insertEntry, findEntry, e]
  | cons e es ih =>
      obtain ⟨j, w⟩ := e
      rw [List.pairwise_cons] at hs
      simp only [insertEntry]
      split
      next hk =>
        rcases Key.connected i k with e | e | e
        · exact absurd e h
        · simp [findEntry, e, Key.trans e hk]
        · simp [findEntry, e, Key.asymm e]
      next hk =>
        split
        next hj => simp only [findEntry, ih hs.2]
        next hj =>
          obtain rfl := Key.eq_of_not_before hk hj
          rcases Key.connected i k with e | e | e
          · exact absurd e h
          · simp [findEntry, e]
          · simp [findEntry, e]

theorem find?_insert_ne (t : Table κ α) {i k : κ} (h : i ≠ k) (v : α) :
    (t.insert k v).find? i = t.find? i := findEntry_insertEntry_ne h v t.entries t.sorted

theorem find?_insert [DecidableEq κ] (t : Table κ α) (i k : κ) (v : α) :
    (t.insert k v).find? i = if i = k then some v else t.find? i := by
  split
  next h => subst h; simp
  next h => exact t.find?_insert_ne h v

/-- An entry whose key comes after all the others goes to the end. -/
theorem insertEntry_of_before {k : κ} {es : List (κ × α)} (h : ∀ p ∈ es, Key.Before p.1 k) (v : α) :
    insertEntry k v es = es ++ [(k, v)] := by
  induction es with
  | nil => rfl
  | cons e es ih =>
      obtain ⟨j, w⟩ := e
      have hj := h (j, w) List.mem_cons_self
      have hes := ih fun p hp => h p (List.mem_cons_of_mem _ hp)
      rw [insertEntry, if_neg (Key.asymm hj), if_pos hj, hes]
      rfl

theorem findEntry_map (f : κ → α → β) (k : κ) (es : List (κ × α)) :
    findEntry k (es.map fun p => (p.1, f p.1 p.2)) = (findEntry k es).map (f k) := by
  induction es with
  | nil => rfl
  | cons e es ih =>
      obtain ⟨j, v⟩ := e
      simp only [List.map_cons, findEntry]
      split
      · rfl
      next hk =>
        split
        · exact ih
        next hj =>
          rw [Key.eq_of_not_before hk hj]
          rfl

@[simp] theorem find?_map (t : Table κ α) (f : κ → α → β) (k : κ) :
    (t.map f).find? k = (t.find? k).map (f k) := findEntry_map f k t.entries

theorem findEntry_eq_some_iff {k : κ} {v : α} {es : List (κ × α)}
    (hs : es.Pairwise fun p q => Key.Before p.1 q.1) :
    findEntry k es = some v ↔ (k, v) ∈ es := by
  induction es with
  | nil => simp [findEntry]
  | cons e es ih =>
      obtain ⟨j, w⟩ := e
      rw [List.pairwise_cons] at hs
      have hlater : ∀ u, (k, u) ∈ es → Key.Before j k := fun u hu => hs.1 (k, u) hu
      rw [findEntry, List.mem_cons]
      split
      next hk =>
        constructor
        · intro h
          cases h
        · rintro (h | h)
          · cases h
            exact absurd hk (Key.irrefl k)
          · exact absurd (hlater v h) (Key.asymm hk)
      next hk =>
        split
        next hj =>
          rw [ih hs.2]
          constructor
          · exact .inr
          · rintro (h | h)
            · cases h
              exact absurd hj hk
            · exact h
        next hj =>
          obtain rfl := Key.eq_of_not_before hk hj
          constructor
          · intro h
            cases h
            exact .inl rfl
          · rintro (h | h)
            · cases h
              rfl
            · exact absurd (hlater v h) hj

theorem mem_entries_iff (t : Table κ α) {k : κ} {v : α} :
    (k, v) ∈ t.entries ↔ t.find? k = some v := (findEntry_eq_some_iff t.sorted).symm

theorem mem_values_iff (t : Table κ α) {v : α} : v ∈ t.values ↔ ∃ k, t.find? k = some v := by
  simp only [values, List.mem_map, Prod.exists, exists_eq_right, mem_entries_iff]

end Table

end AgentGovernance
