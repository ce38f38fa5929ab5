import AgentGovernance.Proofs.Time.Writing
import AgentGovernance.Proofs.Trace.Binding
import AgentGovernance.Proofs.Trace.Replaying
import Mathlib.Data.List.Forall2
import Mathlib.Data.List.Induction

/-!
# What the hash of a segment determines

The hash of an entry covers all its other fields, the hash before it among them. Two segments that
replay to one hash therefore agree entry by entry, from their ends back to where the shorter one
sets out, or else two of their entries show a collision. An absent target is hashed like an empty
one, so in this the entries may differ.
-/
namespace AgentGovernance

theorem EventType.ofName?_name (type : EventType) : ofName? type.name = some type := by
  cases type <;> rfl

theorem EventType.name_injective {s t : EventType} (h : s.name = t.name) : s = t := by
  have hread : ofName? s.name = ofName? t.name := congrArg ofName? h
  rw [ofName?_name, ofName?_name] at hread
  exact Option.some.inj hread

namespace Trace

namespace Entry

/-- What an entry can consist of: texts whose lengths fit their frames, and a stamp of the
calendar. -/
structure IsProper (e : Entry) : Prop where
  fits : e.Fits
  timestamp : e.timestamp.checked? = some e.timestamp

/-- Entries that are alike, with an absent target counted as an empty one. -/
structure Agrees (d e : Entry) : Prop where
  id : d.id = e.id
  type : d.type = e.type
  source : d.source = e.source
  target : d.target.getD "" = e.target.getD ""
  payloadHash : d.payloadHash = e.payloadHash
  previous : d.previous = e.previous
  hash : d.hash = e.hash
  timestamp : d.timestamp = e.timestamp

/-- Entries that are alike in all that is hashed, with an absent target counted as an empty one. -/
structure Matches (d e : Entry) : Prop where
  id : d.id = e.id
  type : d.type = e.type
  source : d.source = e.source
  target : d.target.getD "" = e.target.getD ""
  payloadHash : d.payloadHash = e.payloadHash
  previous : d.previous = e.previous
  timestamp : d.timestamp = e.timestamp

theorem Matches.agrees {d e : Entry} (h : d.Matches e) (hhash : d.hash = e.hash) : d.Agrees e :=
  { h with hash := hhash }

/-- What is hashed for an entry determines every field that is hashed. -/
theorem matches_of_hashInput_eq {d e : Entry} (hd : d.IsProper) (he : e.IsProper)
    (h : d.hashInput = e.hashInput) : d.Matches e := by
  have hfields := hashFields_eq_of_hashInput_eq hd.fits he.fits h
  simp only [hashFields, List.cons.injEq, and_true] at hfields
  obtain ⟨hid, htype, hsource, htarget, hpayload, hprevious, htimestamp⟩ := hfields
  have hstamp : d.timestamp.preciseText = e.timestamp.preciseText :=
    Bytes.ofString_injective htimestamp
  exact {
    id := Bytes.bigEndianAtLeast_injective hid
    type := EventType.name_injective (Bytes.ofString_injective htype)
    source := Bytes.ofString_injective hsource
    target := Bytes.ofString_injective htarget
    payloadHash := (ContentHash.mk.injEq _ _).mpr (Bytes.ofString_injective hpayload)
    previous := (ContentHash.mk.injEq _ _).mpr (Bytes.ofString_injective hprevious)
    timestamp := Instant.textWith_injective hd.timestamp he.timestamp hstamp }

theorem Matches.hashInput_eq {d e : Entry} (h : d.Matches e) : d.hashInput = e.hashInput := by
  rw [hashInput, hashFields, h.id, h.type, h.source, h.target, h.payloadHash, h.previous,
    h.timestamp]
  rfl

/-- Entries have one hash over their fields exactly if they match or collide. -/
theorem recomputeHash_eq_iff {d e : Entry} (hd : d.IsProper) (he : e.IsProper) :
    d.recomputeHash = e.recomputeHash ↔ d.Matches e ∨ d.Collides e := by
  rw [recomputeHash_eq, recomputeHash_eq, ContentHash.of_eq_iff]
  constructor
  · intro h
    exact h.imp_left (matches_of_hashInput_eq hd he)
  · intro h
    exact h.imp_left Matches.hashInput_eq

/-- Two entries with right hashes that have one hash agree or collide. -/
theorem agrees_or_collides {d e : Entry} (hd : d.IsProper) (he : e.IsProper)
    (hright : d.recomputeHash = d.hash) (hright' : e.recomputeHash = e.hash)
    (hhash : d.hash = e.hash) : d.Agrees e ∨ d.Collides e := by
  have hdigest : d.recomputeHash = e.recomputeHash := by rw [hright, hright', hhash]
  rcases (recomputeHash_eq_iff hd he).mp hdigest with hmatches | hcollides
  · exact .inl (hmatches.agrees hhash)
  · exact .inr hcollides

end Entry

/-! ## Hashes without ids -/

/-- Entries that are each linked to the hash before them, with right hashes, whatever their ids. -/
def HashLinked (previous : ContentHash) : List Entry → Prop
  | [] => True
  | e :: rest => e.previous = previous ∧ e.recomputeHash = e.hash ∧ HashLinked e.hash rest

theorem hashLinked_append {previous : ContentHash} {as bs : List Entry} :
    HashLinked previous (as ++ bs) ↔
      HashLinked previous as ∧ HashLinked (lastHash previous as) bs := by
  induction as generalizing previous with
  | nil => simp [HashLinked, lastHash]
  | cons e as ih => simp only [List.cons_append, HashLinked, lastHash, ih, and_assoc]

/-- Two lists of any lengths that are linked by their hashes and reach one hash agree from their ends
on, or two entries at one distance from the ends collide. The induction drops the last entries: when
they agree, the hashes before them are the ones that the rest reaches. -/
theorem HashLinked.agrees_or_collides {as bs : List Entry} {p q : ContentHash}
    (ha : HashLinked p as) (hb : HashLinked q bs) (hproper : ∀ e ∈ as ++ bs, e.IsProper)
    (hlast : lastHash p as = lastHash q bs) :
    (∀ x ∈ as.reverse.zip bs.reverse, x.1.Agrees x.2) ∨
      ∃ x ∈ as.reverse.zip bs.reverse, x.1.Collides x.2 := by
  induction as using List.reverseRecOn generalizing bs with
  | nil =>
      refine .inl fun x hx => ?_
      cases hx
  | append_singleton as d ih =>
      cases bs using List.reverseRecOn with
      | nil =>
          refine .inl fun x hx => ?_
          rw [List.reverse_nil, List.zip_nil_right] at hx
          cases hx
      | append_singleton bs e =>
          obtain ⟨has, hdprevious, hdright, -⟩ := hashLinked_append.mp ha
          obtain ⟨hbs, heprevious, heright, -⟩ := hashLinked_append.mp hb
          have hhash : d.hash = e.hash := by
            rw [lastHash_append, lastHash_append] at hlast
            exact hlast
          have hd : d.IsProper := hproper d (by simp)
          have he : e.IsProper := hproper e (by simp)
          have hzip : (as ++ [d]).reverse.zip (bs ++ [e]).reverse =
              (d, e) :: as.reverse.zip bs.reverse := by
            rw [List.reverse_concat, List.reverse_concat, List.zip_cons_cons]
          rw [hzip]
          rcases Entry.agrees_or_collides hd he hdright heright hhash with hagrees | hcollides
          · have hreached : lastHash p as = lastHash q bs := by
              rw [← hdprevious, ← heprevious, hagrees.previous]
            have hrest : ∀ c ∈ as ++ bs, c.IsProper := by
              intro c hc
              refine hproper c ?_
              rcases List.mem_append.mp hc with hc | hc <;> simp [hc]
            rcases ih has hbs hrest hreached with hall | ⟨x, hx, hcollides⟩
            · exact .inl (List.forall_mem_cons.mpr ⟨hagrees, hall⟩)
            · exact .inr ⟨x, List.mem_cons_of_mem _ hx, hcollides⟩
          · exact .inr ⟨(d, e), List.mem_cons_self, hcollides⟩

/-! ## Segments that replay -/

variable {a : Arithmetic} {id : Nat} {previous hash : ContentHash} {as bs es : List Entry}

theorem hashLinked_of_followWith (h : followWith a id previous es = some (.ok hash)) :
    HashLinked previous es ∧ lastHash previous es = hash := by
  induction es generalizing id previous with
  | nil => exact ⟨trivial, Except.ok.inj (Option.some.inj h)⟩
  | cons e es ih =>
      obtain ⟨hlinks, next, -, hrest⟩ := followWith_cons_eq_ok_iff.mp h
      obtain ⟨-, hprevious, hright⟩ := linkFault?_eq_none_iff.mp hlinks
      obtain ⟨hlinked, hlast⟩ := ih hrest
      exact ⟨⟨hprevious, hright, hlinked⟩, hlast⟩

theorem hashLinked_of_replayWith (hes : es ≠ []) (h : replayWith a es = some (.ok hash)) :
    ∃ previous, HashLinked previous es ∧ lastHash previous es = hash := by
  obtain ⟨e, rest, rfl⟩ := List.exists_cons_of_ne_nil hes
  exact ⟨_, hashLinked_of_followWith (replayWith_cons_eq_ok_iff.mp h)⟩

/-- The ids of entries whose links are followed count on, through the largest word and on from
zero. -/
theorem id_of_followWith {e : Entry} (hwords : ∀ d ∈ es ++ [e], d.id < 2 ^ 64)
    (h : followWith a id previous (es ++ [e]) = some (.ok hash)) :
    e.id = (id + es.length) % 2 ^ 64 := by
  induction es generalizing id previous with
  | nil =>
      obtain ⟨hid, -⟩ := linkFault?_eq_none_iff.mp (followWith_cons_eq_ok_iff.mp h).1
      have hword := hwords e (by simp)
      rw [← hid, List.length_nil, Nat.add_zero, Nat.mod_eq_of_lt hword]
  | cons d es ih =>
      obtain ⟨hlinks, next, hnext, hrest⟩ := followWith_cons_eq_ok_iff.mp h
      obtain ⟨hid, -⟩ := linkFault?_eq_none_iff.mp hlinks
      obtain ⟨hword, hrestWords⟩ := List.forall_mem_cons.mp hwords
      have hsucc := Arithmetic.eq_mod_of_next? (hid ▸ hword) hnext
      rw [ih hrestWords hrest, hsucc, Nat.mod_add_mod, List.length_cons]
      congr 1
      omega

/-- The last id of a segment that replays is known by its first id and its length. -/
theorem exists_id_of_replayWith (hes : es ≠ []) (hwords : ∀ d ∈ es, d.id < 2 ^ 64)
    (h : replayWith a es = some (.ok hash)) :
    ∃ i init e, es.head?.map (·.id) = some i ∧ es = init ++ [e] ∧
      e.id = (i + init.length) % 2 ^ 64 := by
  obtain ⟨first, rest, rfl⟩ := List.exists_cons_of_ne_nil hes
  obtain ⟨init, e, hinit⟩ := (List.eq_nil_or_concat' (first :: rest)).resolve_left hes
  have hfollow := replayWith_cons_eq_ok_iff.mp h
  rw [hinit] at hfollow hwords
  exact ⟨first.id, init, e, rfl, hinit, id_of_followWith hwords hfollow⟩

/-- Segments that replay and agree from their ends on are the same if they set out with the same id.
There are not more entries than words, so their ids do not come back. -/
theorem forall₂_agrees_of_replayWith {p q : ContentHash} (has : as ≠ []) (hbs : bs ≠ [])
    (ha : replayWith a as = some (.ok p)) (hb : replayWith a bs = some (.ok q))
    (hwords : ∀ e ∈ as ++ bs, e.id < 2 ^ 64) (hlengths : as.length < 2 ^ 64 ∧ bs.length < 2 ^ 64)
    (hall : ∀ x ∈ as.reverse.zip bs.reverse, x.1.Agrees x.2)
    (hhead : as.head?.map (·.id) = bs.head?.map (·.id)) : List.Forall₂ Entry.Agrees as bs := by
  have hlength : as.length = bs.length := by
    obtain ⟨i, front, d, hi, rfl, hdid⟩ :=
      exists_id_of_replayWith has (fun e he => hwords e (List.mem_append_left _ he)) ha
    obtain ⟨j, front', e, hj, rfl, heid⟩ :=
      exists_id_of_replayWith hbs (fun e he => hwords e (List.mem_append_right _ he)) hb
    obtain rfl : i = j := by
      rw [hi, hj] at hhead
      exact Option.some.inj hhead
    have hagrees : d.Agrees e := by
      rw [List.reverse_concat, List.reverse_concat, List.zip_cons_cons] at hall
      exact hall (d, e) List.mem_cons_self
    have hid := hagrees.id
    simp only [List.length_append, List.length_singleton] at hlengths ⊢
    omega
  have hreverse : List.Forall₂ Entry.Agrees as.reverse bs.reverse := by
    refine List.forall₂_iff_zip.mpr ⟨?_, fun hx => hall _ hx⟩
    rw [List.length_reverse, List.length_reverse, hlength]
  exact List.forall₂_reverse_iff.mp hreverse

/-- Two segments that replay to one hash, whether sums are checked or wrap around, agree from their
ends back to where the shorter one sets out, and they are the same segment if they set out with the
same id; or else what was hashed for two of their entries is a collision. -/
theorem replay_agrees_or_collides (has : as ≠ []) (hbs : bs ≠ [])
    (ha : replayWith a as = some (.ok hash)) (hb : replayWith a bs = some (.ok hash))
    (hproper : ∀ e ∈ as ++ bs, e.IsProper) (hwords : ∀ e ∈ as ++ bs, e.id < 2 ^ 64)
    (hlengths : as.length < 2 ^ 64 ∧ bs.length < 2 ^ 64) :
    ((∀ x ∈ as.reverse.zip bs.reverse, x.1.Agrees x.2) ∧
        (as.head?.map (·.id) = bs.head?.map (·.id) → List.Forall₂ Entry.Agrees as bs)) ∨
      ∃ x ∈ as.reverse.zip bs.reverse, x.1.Collides x.2 := by
  obtain ⟨p, hlinked, hreached⟩ := hashLinked_of_replayWith has ha
  obtain ⟨q, hlinked', hreached'⟩ := hashLinked_of_replayWith hbs hb
  have hlast : lastHash p as = lastHash q bs := hreached.trans hreached'.symm
  rcases hlinked.agrees_or_collides hlinked' hproper hlast with hall | hcollides
  · exact .inl ⟨hall, forall₂_agrees_of_replayWith has hbs ha hb hwords hlengths hall⟩
  · exact .inr hcollides

def pausedEntry : Entry :=
  .sealed 4 .agentPaused "agents" (some "a") .genesis .genesis ⟨5⟩

def resumedEntry : Entry :=
  .sealed 5 .agentResumed "agents" none .genesis pausedEntry.hash ⟨7⟩

theorem fits_resumedEntry : resumedEntry.Fits :=
  Entry.fits_of_isDigest ContentHash.isDigest_genesis (ContentHash.isDigest_of _)
    (by decide +kernel)

/-- The same entry with an empty target, which is hashed alike. -/
def emptyTargetEntry : Entry := { resumedEntry with target := some "" }

/-- A segment of two entries and its last entry alone, with an empty target in place of none. -/
theorem replay_agrees_or_collides_emptyTarget :
    replayWith .checked [pausedEntry, resumedEntry] = some (.ok resumedEntry.hash) ∧
      replayWith .checked [emptyTargetEntry] = some (.ok resumedEntry.hash) ∧
      (resumedEntry.Agrees emptyTargetEntry ∨ resumedEntry.Collides emptyTargetEntry) := by
  have hproper : ∀ e ∈ [pausedEntry, resumedEntry] ++ [emptyTargetEntry], e.IsProper := by
    intro e he
    simp only [List.cons_append, List.nil_append, List.mem_cons, List.not_mem_nil, or_false] at he
    rcases he with rfl | rfl | rfl
    · exact ⟨by decide +kernel, by decide⟩
    · exact ⟨fits_resumedEntry, by decide⟩
    · exact ⟨fits_resumedEntry, by decide⟩
  have hids : ∀ e ∈ [pausedEntry, resumedEntry] ++ [emptyTargetEntry], e.id < 2 ^ 64 - 1 := by
    intro e he
    simp only [List.cons_append, List.nil_append, List.mem_cons, List.not_mem_nil, or_false] at he
    rcases he with rfl | rfl | rfl <;> decide
  have hwords : ∀ e ∈ [pausedEntry, resumedEntry] ++ [emptyTargetEntry], e.id < 2 ^ 64 := by
    intro e he
    have hid := hids e he
    omega
  have hlong : replayWith .checked [pausedEntry, resumedEntry] = some (.ok resumedEntry.hash) := by
    have hlinked : Linked 4 .genesis [pausedEntry, resumedEntry] :=
      ⟨rfl, rfl, rfl, rfl, rfl, rfl, trivial⟩
    exact hlinked.replayWith_eq (fun _ => rfl) (fun e he => hids e (List.mem_append_left _ he)) _
  have hshort : replayWith .checked [emptyTargetEntry] = some (.ok resumedEntry.hash) := by
    have hlinked : Linked 5 pausedEntry.hash [emptyTargetEntry] := ⟨rfl, rfl, rfl, trivial⟩
    refine hlinked.replayWith_eq ?_ (fun e he => hids e (List.mem_append_right _ he)) _
    intro h
    cases h
  refine ⟨hlong, hshort, ?_⟩
  rcases replay_agrees_or_collides (List.cons_ne_nil _ _) (List.cons_ne_nil _ _) hlong hshort
    hproper hwords ⟨by decide, by decide⟩ with ⟨hagrees, -⟩ | hcollides
  · exact .inl (hagrees (resumedEntry, emptyTargetEntry) List.mem_cons_self)
  · obtain ⟨x, hx, hcollides⟩ := hcollides
    obtain rfl : x = (resumedEntry, emptyTargetEntry) := List.mem_singleton.mp hx
    exact .inr hcollides

end Trace

end AgentGovernance
