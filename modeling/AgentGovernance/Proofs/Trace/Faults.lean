import AgentGovernance.Proofs.Trace.Stores

/-!
# Writes that fail

A ledger may fail to write an entry in two ways. When nothing is inserted, it holds what it held.
When only flushing fails, the record is there to be read all the same although the append has
failed: the write is torn.
-/
namespace AgentGovernance.Trace

/-- Writes that fail and leave their record behind. -/
def WriteOutcome.isTorn : WriteOutcome → Bool
  | .notFlushed _ => true
  | .written | .notInserted _ => false

/-- Stores whose refused appends leave the entries that they hold as they were. Accepted appends add
their entry; a store that has no room for every entry promises this for some of them. -/
structure Atomic {σ : Type} [Store σ] (Holds : σ → List Entry → Prop) (Accepts : Entry → Prop) :
    Prop where
  last : ∀ {s es}, Holds s es → Store.last s = .ok es.getLast?
  accepted : ∀ {s es e t}, Holds s es → Accepts e → Store.append s e = (t, .ok ()) →
    Holds t (es ++ [e])
  refused : ∀ {s es e t err}, Holds s es → Store.append s e = (t, .error err) → Holds t es

namespace Log

theorem append_of_id_eq {s : Log} {e : Entry} (h : e.id = nextId s.entries.getLast?) :
    Store.append s e = (⟨s.entries ++ [e]⟩, .ok ()) := by
  change s.append e = _
  rw [Log.append, if_pos h]

theorem append_of_id_ne {s : Log} {e : Entry} (h : e.id ≠ nextId s.entries.getLast?) :
    Store.append s e = (s, .error (.outOfOrder (nextId s.entries.getLast?) e.id)) := by
  change s.append e = _
  rw [Log.append, if_neg h]

theorem atomic : Atomic (fun (s : Log) es => s.entries = es) fun _ => True where
  last := by
    intro s es h
    rw [← h]
    rfl
  accepted := by
    intro s es e t hs _ happend
    by_cases hid : e.id = nextId s.entries.getLast?
    · rw [append_of_id_eq hid] at happend
      cases happend
      rw [hs]
    · rw [append_of_id_ne hid] at happend
      cases happend
  refused := by
    intro s es e t err hs happend
    by_cases hid : e.id = nextId s.entries.getLast?
    · rw [append_of_id_eq hid] at happend
      cases happend
    · rw [append_of_id_ne hid] at happend
      cases happend
      exact hs

end Log

namespace Ledger

/-- A ledger with the records of some entries, whatever becomes of its next writes. -/
def Holds (s : Ledger) (es : List Entry) : Prop := Keeps { s with outcomes := [] } es

/-- What becomes of the next write. -/
def fate (s : Ledger) : WriteOutcome := s.outcomes.head?.getD .written

section

variable {s : Ledger} (id : Nat) (record : Bytes) {why : String}

theorem write_of_written (h : s.fate = .written) :
    s.write id record = (⟨s.records.insert id record, s.outcomes.tail⟩, .ok ()) := by
  simp only [write, ← fate.eq_1, h]

theorem write_of_notInserted (h : s.fate = .notInserted why) :
    s.write id record = (⟨s.records, s.outcomes.tail⟩, .error (.io why)) := by
  simp only [write, ← fate.eq_1, h]

/-- A torn write fails, and its record is there as if it had been put there behind the ledger. -/
theorem write_of_notFlushed (h : s.fate = .notFlushed why) :
    s.write id record =
      ({ s.overwrite id record with outcomes := s.outcomes.tail }, .error (.io why)) := by
  simp only [write, overwrite, ← fate.eq_1, h]

theorem isTorn_fate (h : ∀ outcome ∈ s.outcomes, outcome.isTorn = false) :
    s.fate.isTorn = false := by
  unfold fate
  cases hhead : s.outcomes.head? with
  | none => rfl
  | some outcome => exact h outcome (List.mem_of_mem_head? hhead)

end

namespace Holds

variable {s t : Ledger} {es : List Entry} {e : Entry}

theorem shows (h : s.Holds es) : Shows s es := by
  have hshows := Keeps.shows h
  exact ⟨hshows.get, hshows.last, hshows.range, hshows.size⟩

theorem append_of_id_eq (h : s.Holds es) (hid : e.id = es.length + 1) :
    Store.append s e = s.write e.id (writeEntry e) := by
  have hlast : s.last = .ok es.getLast? := h.shows.last
  have hnext : e.id = nextId es.getLast? := by rw [nextId_of_numbered h.numbered, hid]
  change s.append e = _
  rw [Ledger.append, hlast]
  exact if_pos hnext

theorem append_of_id_ne (h : s.Holds es) (hid : e.id ≠ es.length + 1) :
    Store.append s e = (s, .error (.outOfOrder (es.length + 1) e.id)) := by
  have hlast : s.last = .ok es.getLast? := h.shows.last
  change s.append e = _
  rw [Ledger.append, hlast]
  dsimp only
  rw [nextId_of_numbered h.numbered, if_neg hid]

/-- Records with one more entry are those of a ledger that holds it. -/
theorem insert (h : s.Holds es) (hid : e.id = es.length + 1) (he : e.IsWritable)
    (rest : List WriteOutcome) :
    Ledger.Holds ⟨s.records.insert e.id (writeEntry e), rest⟩ (es ++ [e]) where
  numbered := numbered_concat.mpr ⟨h.numbered, by omega⟩
  writable := by simpa [or_imp, forall_and] using ⟨h.writable, he⟩
  records := Keeps.insert h hid
  outcomes := rfl

theorem append_eq_ok (h : s.Holds es) (happend : Store.append s e = (t, .ok ())) :
    e.id = es.length + 1 ∧ t = ⟨s.records.insert e.id (writeEntry e), s.outcomes.tail⟩ := by
  by_cases hid : e.id = es.length + 1
  · rw [h.append_of_id_eq hid] at happend
    cases hfate : s.fate with
    | written =>
        rw [write_of_written _ _ hfate] at happend
        cases happend
        exact ⟨hid, rfl⟩
    | notInserted why =>
        rw [write_of_notInserted _ _ hfate] at happend
        cases happend
    | notFlushed why =>
        rw [write_of_notFlushed _ _ hfate] at happend
        cases happend
  · rw [h.append_of_id_ne hid] at happend
    cases happend

/-- An append that fails without a torn write changes no record. -/
theorem append_eq_error (h : s.Holds es) (hfate : s.fate.isTorn = false) {err : StoreError}
    (happend : Store.append s e = (t, .error err)) :
    t.records = s.records ∧ t.outcomes ⊆ s.outcomes := by
  by_cases hid : e.id = es.length + 1
  · rw [h.append_of_id_eq hid] at happend
    cases hcase : s.fate with
    | written =>
        rw [write_of_written _ _ hcase] at happend
        cases happend
    | notInserted why =>
        rw [write_of_notInserted _ _ hcase] at happend
        cases happend
        exact ⟨rfl, fun outcome => List.mem_of_mem_tail⟩
    | notFlushed why =>
        rw [hcase] at hfate
        cases hfate
  · rw [h.append_of_id_ne hid] at happend
    cases happend
    exact ⟨rfl, List.Subset.refl _⟩

end Holds

/-- A ledger is atomic as long as none of its writes will be torn. -/
theorem atomic :
    Atomic (fun (s : Ledger) es => s.Holds es ∧ ∀ outcome ∈ s.outcomes, outcome.isTorn = false)
      Entry.IsWritable where
  last h := h.1.shows.last
  accepted := by
    intro s es e t ⟨hs, houtcomes⟩ he happend
    obtain ⟨hid, rfl⟩ := hs.append_eq_ok happend
    constructor
    · exact hs.insert hid he _
    · exact fun outcome h => houtcomes outcome (List.mem_of_mem_tail h)
  refused := by
    intro s es e t err ⟨hs, houtcomes⟩ happend
    obtain ⟨hrecords, hrest⟩ := hs.append_eq_error (isTorn_fate houtcomes) happend
    constructor
    · unfold Ledger.Holds
      rw [hrecords]
      exact hs
    · exact fun outcome h => houtcomes outcome (hrest h)

end Ledger

end AgentGovernance.Trace
