import AgentGovernance.Proofs.Trace.Chain
import AgentGovernance.Proofs.Trace.Record
import AgentGovernance.Trace.Backend

/-!
# What stores keep

A store shows a list of entries when reading it by id, by range and from its end gives what the list
holds at these places. Which entries a store keeps is a relation between the store and a list; it is
lawful when a store shows what it keeps and keeps one entry more after every append of the next one.
The log and the ledger are lawful, the ledger for entries that can be written.
-/
namespace AgentGovernance.Trace

/-- What a store that keeps the entries with the ids 1, 2, … answers. -/
structure Shows {σ : Type} [Store σ] (s : σ) (es : List Entry) : Prop where
  get : ∀ id, Store.get s id = .ok (if id = 0 then none else es[id - 1]?)
  last : Store.last s = .ok es.getLast?
  range : ∀ first last, Store.range s first last = .ok ((es.take last).drop (first - 1))
  size : Store.size s = es.length

/-- A store that held some entries and now shows others in their places, except for the first few. -/
structure Replaces {σ : Type} [Store σ] (s : σ) (kept : Nat) (es shown : List Entry) : Prop where
  range : ∀ first last, Store.range s first last = .ok ((shown.take last).drop (first - 1))
  length : shown.length = es.length
  take : shown.take kept = es.take kept

theorem Shows.replaces {σ : Type} [Store σ] {s : σ} {es : List Entry} (h : Shows s es)
    (kept : Nat) : Replaces s kept es es := ⟨h.range, rfl, rfl⟩

/-- A relation between a store and its entries, for those that it accepts. -/
structure Lawful {σ : Type} [Store σ] (Keeps : σ → List Entry → Prop) (Accepts : Entry → Prop) :
    Prop where
  shows : ∀ {s es}, Keeps s es → Shows s es
  append : ∀ {s es e}, Keeps s es → e.id = es.length + 1 → Accepts e →
    ∃ t, Store.append s e = (t, .ok ()) ∧ Keeps t (es ++ [e])

/-- A store that appends every entry it accepts, whatever it shows to readers. -/
def Appends {σ : Type} [Store σ] (Keeps : σ → List Entry → Prop) (Accepts : Entry → Prop) : Prop :=
  ∀ ⦃s es e⦄, Keeps s es → e.id = es.length + 1 → Accepts e →
    ∃ t, Store.append s e = (t, .ok ()) ∧ Keeps t (es ++ [e])

theorem Lawful.appends {σ : Type} [Store σ] {Keeps : σ → List Entry → Prop}
    {Accepts : Entry → Prop} (h : Lawful Keeps Accepts) : Appends Keeps Accepts :=
  fun _ _ _ => h.append

/-- Entries whose ids count on from a number. -/
def Numbered (id : Nat) : List Entry → Prop
  | [] => True
  | e :: rest => e.id = id ∧ Numbered (id + 1) rest

theorem numbered_concat {id : Nat} {es : List Entry} {e : Entry} :
    Numbered id (es ++ [e]) ↔ Numbered id es ∧ e.id = id + es.length := by
  induction es generalizing id with
  | nil => simp [Numbered]
  | cons d es ih =>
      have hid : id + 1 + es.length = id + (es.length + 1) := by omega
      simp only [List.cons_append, Numbered, ih, List.length_cons, hid, and_assoc]

theorem lt_of_mem_numbered {id : Nat} {es : List Entry} (h : Numbered id es) {e : Entry}
    (he : e ∈ es) : e.id < id + es.length := by
  induction es generalizing id with
  | nil => cases he
  | cons d es ih =>
      obtain ⟨hid, hrest⟩ := h
      rw [List.length_cons]
      rcases List.mem_cons.mp he with rfl | he
      · omega
      · have hlt := ih hrest he
        omega

theorem nextId_of_numbered {es : List Entry} (h : Numbered 1 es) :
    nextId es.getLast? = es.length + 1 := by
  cases hlast : es.getLast? with
  | none =>
      rw [List.getLast?_eq_none_iff.mp hlast]
      rfl
  | some e =>
      obtain ⟨init, rfl⟩ := List.getLast?_eq_some_iff.mp hlast
      have hid := (numbered_concat.mp h).2
      rw [nextId, Option.elim_some, List.length_append, hid, List.length_singleton]
      omega

/-! ## The log -/

namespace Log

theorem shows (s : Log) : Shows s s.entries where
  get id := by
    cases id <;> rfl
  last := rfl
  range _ _ := rfl
  size := rfl

def Keeps (s : Log) (es : List Entry) : Prop := s.entries = es ∧ Numbered 1 es

theorem lawful : Lawful Keeps fun _ => True where
  shows h := h.1 ▸ shows _
  append := by
    rintro s es e ⟨rfl, hids⟩ hid -
    refine ⟨⟨s.entries ++ [e]⟩, ?_, rfl, numbered_concat.mpr ⟨hids, by omega⟩⟩
    have hnext : e.id = nextId s.entries.getLast? := by rw [nextId_of_numbered hids, hid]
    change s.append e = _
    rw [Log.append, if_pos hnext]

end Log

/-! ## The ledger -/

namespace Ledger

/-- The records of entries under their ids. -/
def recordsOf (es : List Entry) : List (Nat × Bytes) := es.map fun e => (e.id, writeEntry e)

/-- A ledger whose writes will all succeed. -/
structure Keeps (s : Ledger) (es : List Entry) : Prop where
  numbered : Numbered 1 es
  writable : ∀ e ∈ es, e.IsWritable
  records : s.records.entries = recordsOf es
  outcomes : s.outcomes = []

theorem map_snd_recordsOf (es : List Entry) : (recordsOf es).map (·.2) = es.map writeEntry := by
  simp only [recordsOf, List.map_map, Function.comp_def]

theorem filter_recordsOf (keep : Nat → Bool) (es : List Entry) :
    (recordsOf es).filter (fun p => keep p.1) = recordsOf (es.filter fun e => keep e.id) := by
  rw [recordsOf, List.filter_map]
  rfl

theorem findEntry_recordsOf {id : Nat} {es : List Entry} (h : Numbered id es) (k : Nat) :
    Table.findEntry k (recordsOf es) =
      if k < id then none else es[k - id]?.map writeEntry := by
  induction es generalizing id with
  | nil => simp [recordsOf, Table.findEntry]
  | cons e es ih =>
      obtain ⟨hid, hrest⟩ := h
      have hfind := ih hrest
      simp only [recordsOf, List.map_cons, Table.findEntry, Key.Before, hid]
      rcases Nat.lt_trichotomy k id with hk | rfl | hk
      · rw [if_pos hk, if_pos hk]
      · simp
      · have hstep : k - id = k - (id + 1) + 1 := by omega
        rw [if_neg (by omega), if_pos hk, if_neg (by omega), hstep, List.getElem?_cons_succ]
        change Table.findEntry k (recordsOf es) = _
        rw [hfind, if_neg (by omega)]

theorem readOptional_writeEntry {e : Option Entry} (h : ∀ d ∈ e, d.IsWritable) :
    readOptional (e.map writeEntry) = .ok e := by
  cases e with
  | none => rfl
  | some d =>
      rw [Option.map_some, readOptional, readEntry_writeEntry (h d rfl)]
      rfl

theorem mapM_readEntry {es : List Entry} (h : ∀ e ∈ es, e.IsWritable) :
    (es.map writeEntry).mapM readEntry = .ok es := by
  induction es with
  | nil => rfl
  | cons e es ih =>
      have he := readEntry_writeEntry (h e List.mem_cons_self)
      have hes := ih fun d hd => h d (List.mem_cons_of_mem _ hd)
      rw [List.map_cons, List.mapM_cons, he, hes]
      rfl

/-- Picking the ids of a range cuts out a segment. -/
theorem filter_numbered {id : Nat} {es : List Entry} (h : Numbered id es) (first last : Nat) :
    es.filter (fun e => first ≤ e.id && e.id ≤ last) =
      (es.take (last + 1 - id)).drop (first - id) := by
  induction es generalizing id with
  | nil => simp
  | cons e es ih =>
      obtain ⟨hid, hrest⟩ := h
      have hfilter := ih hrest
      by_cases hlast : last < id
      · have hnone : last + 1 - id = 0 := by omega
        have hrest : last + 1 - (id + 1) = 0 := by omega
        rw [List.filter_cons_of_neg (by simp; omega), hfilter, hnone, hrest]
        simp
      · have hkept : last + 1 - id = last + 1 - (id + 1) + 1 := by omega
        rw [hkept, List.take_succ_cons]
        by_cases hfirst : first ≤ id
        · have hdrop : first - id = 0 := by omega
          have hrest : first - (id + 1) = 0 := by omega
          rw [List.filter_cons_of_pos (by simp; omega), hfilter, hdrop, hrest]
          rfl
        · have hdrop : first - id = first - (id + 1) + 1 := by omega
          rw [List.filter_cons_of_neg (by simp; omega), hfilter, hdrop, List.drop_succ_cons]

theorem Keeps.shows {s : Ledger} {es : List Entry} (h : s.Keeps es) : Shows s es where
  get id := by
    have hfind : s.records.find? id = if id < 1 then none else es[id - 1]?.map writeEntry := by
      rw [Table.find?, h.records, findEntry_recordsOf h.numbered]
    change readOptional (s.records.find? id) = _
    rw [hfind]
    by_cases hid : id = 0
    · subst hid
      rfl
    · rw [if_neg (by omega), if_neg hid]
      exact readOptional_writeEntry fun e he => h.writable e (List.mem_of_getElem? he)
  last := by
    have hvalues : s.records.values = es.map writeEntry := by
      rw [Table.values, h.records, map_snd_recordsOf]
    change readOptional s.records.values.getLast? = _
    rw [hvalues, List.getLast?_map]
    exact readOptional_writeEntry fun e he => h.writable e (List.mem_of_getLast? he)
  range first last := by
    have hkept := filter_numbered h.numbered first last
    have hvalues : (s.records.filter fun id _ => first ≤ id && id ≤ last).values =
        ((es.take last).drop (first - 1)).map writeEntry := by
      change (s.records.entries.filter fun p => first ≤ p.1 && p.1 ≤ last).map (·.2) = _
      rw [h.records, filter_recordsOf (fun id => first ≤ id && id ≤ last), map_snd_recordsOf,
        hkept, Nat.add_sub_cancel]
    change (s.records.filter fun id _ => first ≤ id && id ≤ last).values.mapM readEntry = _
    rw [hvalues]
    refine mapM_readEntry fun e he => h.writable e ?_
    exact List.mem_of_mem_take (List.mem_of_mem_drop he)
  size := by
    change s.records.entries.length = _
    rw [h.records, recordsOf, List.length_map]

theorem Keeps.insert {s : Ledger} {es : List Entry} (h : s.Keeps es) {e : Entry}
    (hid : e.id = es.length + 1) :
    (s.records.insert e.id (writeEntry e)).entries = recordsOf (es ++ [e]) := by
  have hbefore : ∀ p ∈ recordsOf es, Key.Before p.1 e.id := by
    intro p hp
    obtain ⟨d, hd, rfl⟩ := List.mem_map.mp hp
    have hlt := lt_of_mem_numbered h.numbered hd
    change d.id < e.id
    omega
  change Table.insertEntry e.id (writeEntry e) s.records.entries = _
  rw [h.records, Table.insertEntry_of_before hbefore, recordsOf, recordsOf, List.map_append]
  rfl

theorem lawful : Lawful Keeps Entry.IsWritable where
  shows := Keeps.shows
  append := by
    intro s es e h hid he
    have hlast : s.last = .ok es.getLast? := h.shows.last
    have hnext : e.id = nextId es.getLast? := by rw [nextId_of_numbered h.numbered, hid]
    refine ⟨⟨s.records.insert e.id (writeEntry e), []⟩, ?_, ?_⟩
    · change s.append e = _
      rw [Ledger.append, hlast]
      dsimp only
      rw [if_pos hnext, write, h.outcomes]
      rfl
    · exact ⟨numbered_concat.mpr ⟨h.numbered, by omega⟩, by
        simpa [or_imp, forall_and] using ⟨h.writable, he⟩, h.insert hid, rfl⟩

end Ledger

/-! ## Either store -/

namespace Backend

theorem lawful_log : Lawful (fun (s : Backend) es => ∃ l : Log, s = .log l ∧ l.Keeps es) fun _ => True where
  shows := by
    rintro s es ⟨l, rfl, h⟩
    have hl := Log.lawful.shows h
    exact ⟨hl.get, hl.last, hl.range, hl.size⟩
  append := by
    rintro s es e ⟨l, rfl, h⟩ hid he
    obtain ⟨t, happend, ht⟩ := Log.lawful.append h hid he
    refine ⟨.log t, ?_, t, rfl, ht⟩
    change withLog (Store.append l e) = _
    rw [happend]
    rfl

theorem lawful_ledger :
    Lawful (fun (s : Backend) es => ∃ l : Ledger, s = .ledger l ∧ l.Keeps es) Entry.IsWritable where
  shows := by
    rintro s es ⟨l, rfl, h⟩
    exact ⟨h.shows.get, h.shows.last, h.shows.range, h.shows.size⟩
  append := by
    rintro s es e ⟨l, rfl, h⟩ hid he
    obtain ⟨t, happend, ht⟩ := Ledger.lawful.append h hid he
    refine ⟨.ledger t, ?_, t, rfl, ht⟩
    change withLedger (Store.append l e) = _
    rw [happend]
    rfl

end Backend

end AgentGovernance.Trace
