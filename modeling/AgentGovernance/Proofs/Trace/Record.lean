import AgentGovernance.Proofs.Json.Fields
import AgentGovernance.Proofs.Json.Skimming
import AgentGovernance.Proofs.Time.Reading
import AgentGovernance.Trace.Store

/-!
# Records of entries

A ledger reads back the entries it wrote. An entry can be written when its id fits a word and its
stamp lies in the calendar; its texts may hold any characters.
-/
namespace AgentGovernance

namespace Codec

theorem decode?_encode_nat {n : Nat} (h : n < 2 ^ 64) : decode? (encode n) = some n := by
  have hread : natBelow? (1 <<< 64) (.nat n) = some n := natBelow?_nat h
  exact hread

theorem decode?_encode_eventType (t : EventType) : decode? (encode t) = some t := by
  cases t <;> rfl

theorem decode?_encode_instant {t : Instant} (h : t.checked? = some t) :
    decode? (encode t) = some t :=
  Instant.parse?_textWith h .shortest

end Codec

namespace Trace

/-- What the JSON form of an entry has room for. -/
structure Entry.IsWritable (e : Entry) : Prop where
  id_lt : e.id < 2 ^ 64
  timestamp : e.timestamp.checked? = some e.timestamp

/-- The members of the JSON form of an entry. -/
def Entry.members (e : Entry) : List (String × Json) :=
  [("trace_id", encode e.id), ("event_type", encode e.type), ("source", encode e.source)] ++
    (e.target.map fun target => ("target", encode target)).toList ++
    [("payload_hash", encode e.payloadHash), ("prev_hash", encode e.previous),
      ("hash", encode e.hash), ("timestamp", encode e.timestamp)]

theorem Entry.encode_eq (e : Entry) : encode e = .object e.members := by
  obtain ⟨id, type, source, target, payloadHash, previous, hash, timestamp⟩ := e
  cases target <;> rfl

theorem Entry.lookup_members (e : Entry) :
    Json.lookup "trace_id" e.members = some (encode e.id) ∧
      Json.lookup "event_type" e.members = some (encode e.type) ∧
      Json.lookup "source" e.members = some (encode e.source) ∧
      Json.lookup "target" e.members = e.target.map encode ∧
      Json.lookup "payload_hash" e.members = some (encode e.payloadHash) ∧
      Json.lookup "prev_hash" e.members = some (encode e.previous) ∧
      Json.lookup "hash" e.members = some (encode e.hash) ∧
      Json.lookup "timestamp" e.members = some (encode e.timestamp) := by
  unfold members
  cases e.target <;> exact ⟨rfl, rfl, rfl, rfl, rfl, rfl, rfl, rfl⟩

theorem Entry.optional_target (e : Entry) :
    Codec.optional "target" (.named e.members) = some (e.target, .named e.members) := by
  obtain ⟨-, -, -, hmember, -⟩ := e.lookup_members
  cases htarget : e.target with
  | none =>
      rw [htarget] at hmember
      exact Codec.optional_named_none hmember
  | some target =>
      rw [htarget] at hmember
      exact Codec.optional_named hmember rfl

theorem Entry.decode?_members {e : Entry} (h : e.IsWritable) :
    decode? (.object e.members) = some e := by
  obtain ⟨hid, htype, hsource, -, hpayload, hprevious, hhash, htimestamp⟩ := e.lookup_members
  have hread : decode? (.object e.members) = Codec.readFields (do
      let id ← Codec.required "trace_id"
      let type ← Codec.required "event_type"
      let source ← Codec.required "source"
      let target ← Codec.optional "target"
      let payloadHash ← Codec.required "payload_hash"
      let previous ← Codec.required "prev_hash"
      let hash ← Codec.required "hash"
      let timestamp ← Codec.required "timestamp"
      return (⟨id, type, source, target, payloadHash, previous, hash, timestamp⟩ : Entry))
      (.named e.members) := rfl
  rw [hread, Codec.readFields]
  dsimp only [bind, StateT.bind]
  rw [Codec.required_named hid (Codec.decode?_encode_nat h.id_lt), Option.bind_some,
    Codec.required_named htype (Codec.decode?_encode_eventType e.type), Option.bind_some,
    Codec.required_named hsource rfl, Option.bind_some, e.optional_target, Option.bind_some,
    Codec.required_named hpayload rfl, Option.bind_some,
    Codec.required_named hprevious rfl, Option.bind_some,
    Codec.required_named hhash rfl, Option.bind_some,
    Codec.required_named htimestamp (Codec.decode?_encode_instant h.timestamp), Option.bind_some]
  rfl

theorem Entry.scalar_members (e : Entry) :
    ∀ m ∈ e.members, m.2 = .nat e.id ∨ ∃ s, m.2 = .string s := by
  intro m hm
  unfold members at hm
  simp only [List.mem_append, List.mem_cons, List.not_mem_nil, or_false, Option.mem_toList,
    Option.map_eq_some_iff] at hm
  rcases hm with ((rfl | rfl | rfl) | ⟨target, -, rfl⟩) | rfl | rfl | rfl | rfl
  · exact .inl rfl
  all_goals exact .inr ⟨_, rfl⟩

theorem Entry.skimmed_members (e : Entry) : ∀ m ∈ e.members, Json.Skim.Skimmed m.2 := by
  intro m hm
  rcases e.scalar_members m hm with h | ⟨s, h⟩
  · exact h ▸ Json.Skim.skimmed_nat e.id
  · exact h ▸ Json.Skim.skimmed_string s

theorem Entry.readBytes?_members {e : Entry} (h : e.id < 2 ^ 64) :
    ∀ m ∈ e.members, Json.readBytes? (.ofString m.2.compact) = some m.2 := by
  intro m hm
  have hread : Json.readBytes? (.ofString m.2.compact) = Json.read? m.2.compact := by
    rw [Json.readBytes?, Bytes.toString?_ofString]
    rfl
  have hlimit : e.id < Json.Reader.wordLimit := h
  rcases e.scalar_members m hm with hvalue | ⟨s, hvalue⟩
  · rw [hread, hvalue, Json.read?_nat hlimit]
  · rw [hread, hvalue, Json.read?_string]

namespace Ledger

theorem names_members (e : Entry) :
    e.members.filter (fun m => fieldNames.contains m.1) = e.members ∧
      (e.members.map (·.1)).Nodup := by
  unfold Entry.members
  cases e.target <;> exact ⟨rfl, by simp⟩

theorem mapM_readBytes? {members : List (String × Json)}
    (h : ∀ m ∈ members, Json.readBytes? (.ofString m.2.compact) = some m.2) :
    (Json.Skim.skimmed members).mapM (fun m => (Json.readBytes? m.2).map ((m.1, ·))) =
      some members := by
  induction members with
  | nil => rfl
  | cons m members ih =>
      have hm := h m List.mem_cons_self
      have hrest := ih fun m hm => h m (List.mem_cons_of_mem _ hm)
      rw [Json.Skim.skimmed, List.map_cons, List.mapM_cons, hm]
      rw [Json.Skim.skimmed] at hrest
      rw [hrest]
      rfl

/-- A ledger reads the entries it wrote. -/
theorem readEntry_writeEntry {e : Entry} (h : e.IsWritable) :
    readEntry (writeEntry e) = .ok e := by
  have hskim : Json.skimObject? (writeEntry e) = some (Json.Skim.skimmed e.members) := by
    rw [writeEntry, e.encode_eq]
    exact Json.skimObject?_compact e.skimmed_members
  have hgiven : (Json.Skim.skimmed e.members).filter (fun m => fieldNames.contains m.1) =
      Json.Skim.skimmed e.members := by
    have hnames := (names_members e).1
    rw [Json.Skim.skimmed, List.filter_map]
    exact congrArg (List.map _) hnames
  have hnodup : ((Json.Skim.skimmed e.members).map (·.1)).Nodup := by
    rw [Json.Skim.skimmed, List.map_map]
    exact (names_members e).2
  have hfields : (Json.Skim.skimmed e.members).mapM
      (fun m => (Json.readBytes? m.2).map ((m.1, ·))) = some e.members := by
    exact mapM_readBytes? (Entry.readBytes?_members h.id_lt)
  simp only [readEntry, hskim, hgiven, hnodup, hfields, decide_true, Bool.not_true,
    Bool.false_eq_true, if_false, Option.bind_eq_bind, Option.bind_some, e.decode?_members h]

end Ledger

end Trace

end AgentGovernance
