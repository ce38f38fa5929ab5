import AgentGovernance.Proofs.Framing
import AgentGovernance.Proofs.Trace.Chain
import AgentGovernance.Proofs.Utf8

/-!
# What a hash binds

The hash of an entry is computed over its framed fields. Two entries with one hash agree in their
payload hash and in the hash before them, unless what was hashed for them is a collision. Two chains
of one length that reach the same hash therefore agree in every payload hash, or one of their places
shows a collision.
-/
namespace AgentGovernance.Trace

namespace Entry

/-- What is hashed for an entry, field by field. -/
def hashFields (e : Entry) : List Bytes :=
  [Bytes.bigEndianAtLeast 8 e.id, .ofString e.type.name, .ofString e.source,
   .ofString (e.target.getD ""), .ofString e.payloadHash.text, .ofString e.previous.text,
   .ofString e.timestamp.preciseText]

def hashInput (e : Entry) : Bytes := ContentHash.frames e.hashFields

theorem recomputeHash_eq (e : Entry) : e.recomputeHash = .of e.hashInput := rfl

/-- The lengths of the hashed fields fit their frames. -/
def Fits (e : Entry) : Prop := ∀ field ∈ e.hashFields, field.length < 2 ^ 64

instance (e : Entry) : Decidable e.Fits := inferInstanceAs (Decidable (∀ field ∈ e.hashFields, _))

/-- The fields of an entry fit if its hashes are digests and the others fit. -/
theorem fits_of_isDigest {e : Entry} (hpayload : e.payloadHash.IsDigest)
    (hprevious : e.previous.IsDigest)
    (hothers : ∀ field ∈ [Bytes.bigEndianAtLeast 8 e.id, .ofString e.type.name, .ofString e.source,
      .ofString (e.target.getD ""), .ofString e.timestamp.preciseText], field.length < 2 ^ 64) :
    e.Fits := by
  have hdigest : ∀ h : ContentHash, h.IsDigest → (Bytes.ofString h.text).length < 2 ^ 64 := by
    intro h hh
    rw [hh.length_octets]
    decide
  simp only [List.forall_mem_cons] at hothers
  obtain ⟨hid, htype, hsource, htarget, htimestamp, -⟩ := hothers
  simp only [Fits, hashFields, List.forall_mem_cons]
  exact ⟨hid, htype, hsource, htarget, hdigest _ hpayload, hdigest _ hprevious, htimestamp,
    List.forall_mem_nil _⟩

/-- What is hashed for two entries differs and has one digest. -/
def Collides (d e : Entry) : Prop :=
  d.hashInput ≠ e.hashInput ∧ Sha2.sha256 d.hashInput = Sha2.sha256 e.hashInput

theorem hashFields_eq_of_hashInput_eq {d e : Entry} (hd : d.Fits) (he : e.Fits)
    (h : d.hashInput = e.hashInput) : d.hashFields = e.hashFields :=
  ContentHash.frames_injective hd he h

theorem eq_of_hashInput_eq {d e : Entry} (hd : d.Fits) (he : e.Fits)
    (h : d.hashInput = e.hashInput) : d.payloadHash = e.payloadHash ∧ d.previous = e.previous := by
  have hfields := hashFields_eq_of_hashInput_eq hd he h
  simp only [hashFields, List.cons.injEq, and_true] at hfields
  obtain ⟨-, -, -, -, hpayload, hprevious, -⟩ := hfields
  rw [ContentHash.mk.injEq, ContentHash.mk.injEq]
  exact ⟨Bytes.ofString_injective hpayload, Bytes.ofString_injective hprevious⟩

theorem eq_or_collides {d e : Entry} (hd : d.Fits) (he : e.Fits)
    (h : d.recomputeHash = e.recomputeHash) :
    d.payloadHash = e.payloadHash ∧ d.previous = e.previous ∨ d.Collides e := by
  rw [recomputeHash_eq, recomputeHash_eq, ContentHash.of_eq_iff] at h
  exact h.imp_left (eq_of_hashInput_eq hd he)

end Entry

/-- Two linked lists that reach one hash start at one hash and agree in their payload hashes, or
somewhere in them is a collision. -/
theorem Linked.eq_or_collides {as bs : List Entry} {id : Nat} {p q : ContentHash}
    (ha : Linked id p as) (hb : Linked id q bs) (hlength : as.length = bs.length)
    (hfa : ∀ e ∈ as, e.Fits) (hfb : ∀ e ∈ bs, e.Fits) (hlast : lastHash p as = lastHash q bs) :
    p = q ∧ as.map (·.payloadHash) = bs.map (·.payloadHash) ∨
      ∃ x ∈ as.zip bs, x.1.Collides x.2 := by
  induction as generalizing id p q bs with
  | nil =>
      obtain rfl : bs = [] := List.eq_nil_of_length_eq_zero hlength.symm
      exact .inl ⟨hlast, rfl⟩
  | cons d as ih =>
      cases bs with
      | nil => cases hlength
      | cons e bs =>
          obtain ⟨-, hdprevious, hdhash, has⟩ := ha
          obtain ⟨-, heprevious, hehash, hbs⟩ := hb
          have hrest := ih has hbs (Nat.succ.inj hlength)
            (fun x hx => hfa x (List.mem_cons_of_mem _ hx))
            (fun x hx => hfb x (List.mem_cons_of_mem _ hx)) hlast
          rcases hrest with ⟨hhash, hpayloads⟩ | ⟨x, hx, hcollides⟩
          · have hrecomputed : d.recomputeHash = e.recomputeHash := by rw [hdhash, hehash, hhash]
            rcases Entry.eq_or_collides (hfa d List.mem_cons_self) (hfb e List.mem_cons_self)
              hrecomputed with ⟨hpayload, hprevious⟩ | hcollides
            · refine .inl ⟨?_, ?_⟩
              · rw [← hdprevious, ← heprevious, hprevious]
              · rw [List.map_cons, List.map_cons, hpayload, hpayloads]
            · exact .inr ⟨(d, e), List.mem_cons_self, hcollides⟩
          · exact .inr ⟨x, List.mem_cons_of_mem _ hx, hcollides⟩

end AgentGovernance.Trace
