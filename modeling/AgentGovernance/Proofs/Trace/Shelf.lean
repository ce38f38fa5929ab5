import AgentGovernance.Proofs.Framing
import AgentGovernance.Proofs.Trace.Contract

/-!
# Records under octets

A durable map knows no numbers: it keeps a record under the eight octets of its id, the most
significant first, in the order of the octets. This is the order of the ids, so such a shelf finds,
cuts out and ends with the same records as the ledger whose records it holds. The log, the ledger and
the shelf therefore answer any calls alike.
-/
namespace AgentGovernance

namespace Bytes

/-- Octets are compared from the first to the last. -/
instance : Key Bytes where
  Before as bs := as < bs
  decidableBefore _ _ := inferInstance
  irrefl := List.lt_irrefl
  trans := List.lt_trans
  connected as bs := by
    rcases Std.lt_trichotomy as bs with h | h | h
    · exact .inr (.inl h)
    · exact .inl h
    · exact .inr (.inr h)

theorem before_concat_iff {as bs : Bytes} (h : as.length = bs.length) (a b : UInt8) :
    Key.Before (as ++ [a]) (bs ++ [b]) ↔ Key.Before as bs ∨ as = bs ∧ a < b := by
  change as ++ [a] < bs ++ [b] ↔ as < bs ∨ as = bs ∧ a < b
  induction as generalizing bs with
  | nil =>
      obtain rfl := List.length_eq_zero_iff.mp h.symm
      simp [List.cons_lt_cons_iff]
  | cons x as ih =>
      cases bs with
      | nil => cases h
      | cons y bs =>
          rw [List.cons_append, List.cons_append, List.cons_lt_cons_iff, List.cons_lt_cons_iff,
            ih (Nat.succ.inj h), List.cons.injEq]
          tauto

/-- The octets of numbers are in the order of the numbers. -/
theorem before_bigEndian_iff {width m n : Nat} (hm : m < 256 ^ width) (hn : n < 256 ^ width) :
    Key.Before (bigEndian width m) (bigEndian width n) ↔ m < n := by
  induction width generalizing m n with
  | zero =>
      rw [Nat.pow_zero] at hm hn
      have hsame : m = n := by omega
      rw [hsame]
      exact iff_of_false (Key.irrefl _) (Nat.lt_irrefl n)
  | succ width ih =>
      rw [Nat.pow_succ] at hm hn
      have hhigh : bigEndian width (m / 256) = bigEndian width (n / 256) ↔ m / 256 = n / 256 :=
        ⟨bigEndian_injective (by omega) (by omega), fun h => by rw [h]⟩
      have hlow : UInt8.ofNat m < UInt8.ofNat n ↔ m % 256 < n % 256 := by
        rw [UInt8.lt_iff_toNat_lt, UInt8.toNat_ofNat', UInt8.toNat_ofNat']
      rw [bigEndian, bigEndian, before_concat_iff (by simp), ih (by omega) (by omega), hhigh, hlow]
      omega

end Bytes

namespace Table

variable {κ ι α : Type} {f : κ → ι} {k : κ} {es : List (κ × α)}

/-- The entries of a table under other keys. -/
def rekeyed (f : κ → ι) (es : List (κ × α)) : List (ι × α) := es.map fun p => (f p.1, p.2)

theorem map_snd_rekeyed (f : κ → ι) (es : List (κ × α)) :
    (rekeyed f es).map (·.2) = es.map (·.2) := by
  simp only [rekeyed, List.map_map, Function.comp_def]

theorem filter_rekeyed (keep : ι → Bool) (pick : κ → Bool)
    (h : ∀ p ∈ es, keep (f p.1) = pick p.1) :
    (rekeyed f es).filter (fun p => keep p.1) = rekeyed f (es.filter fun p => pick p.1) := by
  rw [rekeyed, List.filter_map]
  exact congrArg _ (List.filter_congr h)

variable [Key κ] [Key ι]

/-- Whether a key comes before and after the same entries under the other keys. -/
def Ranks (f : κ → ι) (k : κ) (es : List (κ × α)) : Prop :=
  ∀ p ∈ es, (Key.Before (f k) (f p.1) ↔ Key.Before k p.1) ∧
    (Key.Before (f p.1) (f k) ↔ Key.Before p.1 k)

theorem findEntry_rekeyed (h : Ranks f k es) : findEntry (f k) (rekeyed f es) = findEntry k es := by
  induction es with
  | nil => rfl
  | cons e es ih =>
      obtain ⟨hafter, hbefore⟩ := h e List.mem_cons_self
      have hes := ih fun p hp => h p (List.mem_cons_of_mem _ hp)
      obtain ⟨j, v⟩ := e
      rw [rekeyed] at hes
      simp only [rekeyed, List.map_cons, findEntry, hafter, hbefore, hes]

theorem insertEntry_rekeyed (h : Ranks f k es) (v : α) :
    insertEntry (f k) v (rekeyed f es) = rekeyed f (insertEntry k v es) := by
  induction es with
  | nil => rfl
  | cons e es ih =>
      obtain ⟨hafter, hbefore⟩ := h e List.mem_cons_self
      have hes := ih fun p hp => h p (List.mem_cons_of_mem _ hp)
      obtain ⟨j, w⟩ := e
      rw [rekeyed] at hes
      simp only [rekeyed, List.map_cons, insertEntry, hafter, hbefore, hes]
      split
      · rfl
      · split <;> rfl

end Table

namespace Trace

/-- The records of a ledger as a durable map keeps them. -/
structure Shelf where
  records : Table Bytes Bytes := ∅

namespace Shelf

/-- The key of the record with an id. -/
def key (id : Nat) : Bytes := .bigEndian 8 id

def last (s : Shelf) : Except StoreError (Option Entry) :=
  Ledger.readOptional s.records.values.getLast?

def append (s : Shelf) (e : Entry) : Shelf × Except StoreError Unit :=
  match s.last with
  | .error err => (s, .error err)
  | .ok newest =>
      if e.id = nextId newest then (⟨s.records.insert (key e.id) (Ledger.writeEntry e)⟩, .ok ())
      else (s, .error (.outOfOrder (nextId newest) e.id))

/-- Whether a key lies between those of two ids, themselves included. -/
def isBetween (first last : Nat) (k : Bytes) : Bool :=
  !decide (Key.Before k (key first)) && !decide (Key.Before (key last) k)

def range (s : Shelf) (first last : Nat) : Except StoreError (List Entry) :=
  if last < first then .ok []
  else (s.records.filter fun k _ => isBetween first last k).values.mapM Ledger.readEntry

instance : Store Shelf where
  append := append
  get s id := Ledger.readOptional (s.records.find? (key id))
  last := last
  range := range
  size s := s.records.size

theorem before_key_iff {m n : Nat} (hm : m < 2 ^ 64) (hn : n < 2 ^ 64) :
    Key.Before (key m) (key n) ↔ m < n := by
  have hlimit : 256 ^ 8 = 2 ^ 64 := by decide
  exact Bytes.before_bigEndian_iff (hlimit ▸ hm) (hlimit ▸ hn)

/-- A shelf with the records of a ledger, all under the octets of words. -/
structure Mirrors (t : Shelf) (s : Ledger) : Prop where
  entries : t.records.entries = Table.rekeyed key s.records.entries
  words : ∀ p ∈ s.records.entries, p.1 < 2 ^ 64

namespace Mirrors

variable {t : Shelf} {s : Ledger}

theorem ranks (h : t.Mirrors s) {id : Nat} (hid : id < 2 ^ 64) :
    Table.Ranks key id s.records.entries :=
  fun p hp => ⟨before_key_iff hid (h.words p hp), before_key_iff (h.words p hp) hid⟩

theorem find?_eq (h : t.Mirrors s) {id : Nat} (hid : id < 2 ^ 64) :
    t.records.find? (key id) = s.records.find? id := by
  rw [Table.find?, h.entries, Table.findEntry_rekeyed (h.ranks hid), Table.find?]

theorem last_eq (h : t.Mirrors s) : t.last = s.last := by
  rw [last, Ledger.last, Table.values, h.entries, Table.map_snd_rekeyed, Table.values]

/-- The records between two ids are the same, and a ledger finds none between reversed ids. -/
theorem range_eq (h : t.Mirrors s) {i j : Nat} (hi : i < 2 ^ 64) (hj : j < 2 ^ 64) :
    t.range i j = s.range i j := by
  have hkept : ∀ p ∈ s.records.entries, isBetween i j (key p.1) = (i ≤ p.1 && p.1 ≤ j) := by
    intro p hp
    have hfirst := before_key_iff (h.words p hp) hi
    have hlast := before_key_iff hj (h.words p hp)
    simp only [isBetween, hfirst, hlast, ← decide_not, Nat.not_lt]
  have hvalues : (t.records.filter fun k _ => isBetween i j k).values =
      (s.records.filter fun id _ => i ≤ id && id ≤ j).values := by
    simp only [Table.values, Table.filter, h.entries]
    rw [Table.filter_rekeyed (isBetween i j) (fun id => i ≤ id && id ≤ j) hkept,
      Table.map_snd_rekeyed]
  rw [range, Ledger.range, hvalues]
  split
  next hreversed =>
    have hnoneBetween : (s.records.filter fun id _ => i ≤ id && id ≤ j).values = [] := by
      simp only [Table.values, Table.filter, List.map_eq_nil_iff, List.filter_eq_nil_iff]
      intro p _
      simp
      omega
    rw [hnoneBetween]
    rfl
  next => rfl

theorem append_eq (h : t.Mirrors s) (hs : s.outcomes = []) {e : Entry} (he : e.id < 2 ^ 64) :
    Mirrors (t.append e).1 (s.append e).1 ∧ (t.append e).2 = (s.append e).2 := by
  rw [append, Ledger.append, h.last_eq]
  cases s.last with
  | error err => exact ⟨h, rfl⟩
  | ok newest =>
      dsimp only
      split
      next =>
        rw [Ledger.write, hs]
        refine ⟨⟨?_, ?_⟩, rfl⟩
        · change Table.insertEntry (key e.id) _ t.records.entries = _
          rw [h.entries, Table.insertEntry_rekeyed (h.ranks he)]
          rfl
        · intro p hp
          rcases Table.mem_insertEntry hp with rfl | hp
          · exact he
          · exact h.words p hp
      next => exact ⟨h, rfl⟩

/-- A shelf answers like the ledger whose records it holds. -/
theorem perform (h : t.Mirrors s) (hs : s.outcomes = []) {c : Call} (hfits : c.Fits) :
    Mirrors (c.perform t).1 (c.perform s).1 ∧ (c.perform t).2 = (c.perform s).2 := by
  cases c with
  | append e =>
      obtain ⟨hmirrors, hresult⟩ := h.append_eq hs (Entry.IsWritable.id_lt hfits)
      exact ⟨hmirrors, congrArg Answer.done hresult⟩
  | get id => exact ⟨h, congrArg (fun r => Answer.entry (Ledger.readOptional r)) (h.find?_eq hfits)⟩
  | last => exact ⟨h, congrArg Answer.entry h.last_eq⟩
  | range i j => exact ⟨h, congrArg Answer.entries (h.range_eq hfits.1 hfits.2)⟩
  | size =>
      refine ⟨h, congrArg Answer.count ?_⟩
      change t.records.entries.length = s.records.entries.length
      rw [h.entries, Table.rekeyed, List.length_map]

end Mirrors

def Keeps (t : Shelf) (es : List Entry) : Prop := ∃ s : Ledger, s.Keeps es ∧ t.Mirrors s

theorem implements : Implements Keeps := by
  rintro t es c ⟨s, hs, hmirrors⟩ hfits
  obtain ⟨s', hperform, hs'⟩ := Ledger.implements c hs hfits
  obtain ⟨hafter, hanswer⟩ := hmirrors.perform hs.outcomes hfits
  rw [hperform] at hafter hanswer
  exact ⟨(c.perform t).1, Prod.ext rfl hanswer, s', hs', hafter⟩

end Shelf

/-! ## All stores -/

namespace Backend

theorem perform_log (l : Log) (c : Call) :
    c.perform (Backend.log l) = (.log (c.perform l).1, (c.perform l).2) := by
  cases c <;> rfl

theorem perform_ledger (l : Ledger) (c : Call) :
    c.perform (Backend.ledger l) = (.ledger (c.perform l).1, (c.perform l).2) := by
  cases c <;> rfl

theorem implements_log :
    Implements fun (s : Backend) es => ∃ l : Log, s = .log l ∧ l.Keeps es := by
  rintro s es c ⟨l, rfl, h⟩ hfits
  obtain ⟨t, hperform, ht⟩ := Log.implements c h hfits
  exact ⟨.log t, by rw [perform_log, hperform], t, rfl, ht⟩

theorem implements_ledger :
    Implements fun (s : Backend) es => ∃ l : Ledger, s = .ledger l ∧ l.Keeps es := by
  rintro s es c ⟨l, rfl, h⟩ hfits
  obtain ⟨t, hperform, ht⟩ := Ledger.implements c h hfits
  exact ⟨.ledger t, by rw [perform_ledger, hperform], t, rfl, ht⟩

end Backend

/-- What a log that stays open, a ledger that is opened again at some steps and the durable map below
it answer to the same calls. All of them start empty. -/
structure Alike (steps : List Step) : Prop where
  ledger : answers Backend.reopen (.ledger {}) steps =
    answers Backend.reopen (.log {}) (steps.filter Step.isCall)
  shelf : answers id ({} : Shelf) steps = answers Backend.reopen (.ledger {}) steps

/-- Every store gives every call the same answer, whichever entries are appended under whichever ids
and however often the ledger is opened again. -/
theorem stores_alike {steps : List Step} (hfits : ∀ step ∈ steps, step.Fits) : Alike steps := by
  have hledger : answers Backend.reopen (.ledger {}) steps = due [] steps := by
    have hkeeps : Ledger.Keeps {} [] := ⟨trivial, by simp, rfl, rfl⟩
    exact Backend.implements_ledger.answers_eq (fun _ _ _ ⟨l, hs, hl⟩ => ⟨l, by rw [hs]; rfl, hl⟩)
      hfits ⟨{}, rfl, hkeeps⟩
  have hlog : answers Backend.reopen (.log {}) (steps.filter Step.isCall) = due [] steps := by
    rw [← due_filter]
    refine Backend.implements_log.answers_eq ?_ ?_ ⟨{}, rfl, rfl, trivial⟩
    · intro hreopen
      cases (List.mem_filter.mp hreopen).2
    · exact fun step hstep => hfits step (List.mem_of_mem_filter hstep)
  have hshelf : answers id ({} : Shelf) steps = due [] steps := by
    have hkeeps : Ledger.Keeps {} [] := ⟨trivial, by simp, rfl, rfl⟩
    have hempty : Shelf.Mirrors {} {} := ⟨rfl, fun p hp => by cases hp⟩
    exact Shelf.implements.answers_eq (fun _ _ _ h => h) hfits ⟨{}, hkeeps, hempty⟩
  exact ⟨hledger.trans hlog.symm, hshelf.trans hledger.symm⟩

/-- An entry with nothing right but perhaps its id. -/
def blank (id : Nat) (target : Option String) : Entry :=
  ⟨id, .agentSpawned, "lifecycle", target, .genesis, .genesis, .genesis, ⟨0⟩⟩

/-- Entries with the id 0, with the right ids, with one left out and with one twice; then reading
under ids and from ranges of all kinds, with the ledger opened again in between. -/
def probing : List Step :=
  [.call (.append (blank 0 none)), .call (.append (blank 1 none)),
   .call (.append (blank 3 none)), .reopen, .call (.append (blank 2 (some "a"))),
   .call (.append (blank 2 none)), .call (.get 0), .call (.get 2), .call (.get (2 ^ 64 - 1)),
   .call (.range 2 1), .call (.range 0 0), .reopen, .call (.range 0 (2 ^ 64 - 1)), .call .last,
   .call .size]

theorem stores_alike_probing :
    (∀ step ∈ probing, step.Fits) ∧ Alike probing ∧
      answers id ({} : Shelf) probing =
        [.done (.error (.outOfOrder 1 0)), .done (.ok ()), .done (.error (.outOfOrder 2 3)),
         .done (.ok ()), .done (.error (.outOfOrder 3 2)), .entry (.ok none),
         .entry (.ok (some (blank 2 (some "a")))), .entry (.ok none), .entries (.ok []),
         .entries (.ok []), .entries (.ok [blank 1 none, blank 2 (some "a")]),
         .entry (.ok (some (blank 2 (some "a")))), .count 2] := by
  have hstamp : Instant.checked? ⟨0⟩ = some ⟨0⟩ := by decide +kernel
  have hblank : ∀ id, id < 2 ^ 64 → ∀ target, (blank id target).IsWritable :=
    fun id hid target => ⟨hid, hstamp⟩
  have hfits : ∀ step ∈ probing, step.Fits := by
    simp [probing, Step.Fits, Call.Fits, hblank]
  have halike := stores_alike hfits
  exact ⟨hfits, halike, halike.shelf.trans (halike.ledger.trans rfl)⟩

end Trace
end AgentGovernance
