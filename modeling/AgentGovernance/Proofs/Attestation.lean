import AgentGovernance.Proof
import AgentGovernance.Proofs.Framing

/-!
# What a proof system attests, it accepts

A code travels in hexadecimal. Reading gives back the octets that were written, so a keyed code is
compared with itself when a proof is checked by the system that made it, under any key.

The parts of a signed message are separated by zero octets, and a subject may have such octets too.
The message is read from its end: a digest has 64 octets, so the last part is known by its length,
and what the tag leaves in front of it is the subject. A proof is therefore accepted for another
statement only when two different messages have one code.
-/
namespace AgentGovernance

namespace ProofSystem

/-- What the system attests it accepts again, for the statement that was attested. -/
def AcceptsOwn (proofs : ProofSystem) : Prop :=
  ∀ statement proof, proofs.attest statement = .ok proof → proofs.verify statement proof = true

theorem exists_hmac {key : Bytes} (hkey : key ≠ []) : ∃ proofs, hmac key = .ok proofs :=
  ⟨_, if_neg (by simpa using hkey)⟩

/-- A keyed proof is accepted for the statements that have the code of the one it was made for. -/
theorem hmac_attest {key : Bytes} {proofs : ProofSystem} (h : hmac key = .ok proofs)
    (s : Statement) :
    ∃ proof, proofs.attest s = .ok proof ∧
      ∀ t, proofs.verify t proof = true ↔ hmacCode key s = hmacCode key t := by
  unfold hmac at h
  split at h
  · cases h
  · cases h
    refine ⟨_, rfl, fun t => ?_⟩
    simp [Hex.decode_encode]

theorem acceptsOwn_of_hmac {key : Bytes} {proofs : ProofSystem} (h : hmac key = .ok proofs) :
    proofs.AcceptsOwn := by
  intro statement proof hproof
  obtain ⟨made, hmade, hverify⟩ := hmac_attest h statement
  obtain rfl : made = proof := Except.ok.inj (hmade.symm.trans hproof)
  exact (hverify statement).mpr rfl

end ProofSystem

namespace Statement

/-- Statements with hashes of one length have different messages. -/
theorem message_injective {s t : Statement}
    (hlength : (Bytes.ofString s.payloadHash.text).length = (Bytes.ofString t.payloadHash.text).length)
    (h : s.message = t.message) : s = t := by
  have hparts := (List.cons.inj (List.append_cancel_left h)).2
  obtain ⟨hsubject, hrest⟩ := List.append_inj' hparts (by simp [hlength])
  have hs : s.subject = t.subject := Bytes.ofString_injective hsubject
  have hp : s.payloadHash.text = t.payloadHash.text :=
    Bytes.ofString_injective (List.cons.inj hrest).2
  obtain ⟨_, ⟨_⟩⟩ := s
  obtain ⟨_, ⟨_⟩⟩ := t
  simp_all

/-- A zero octet moves from the subject into a hash of another length. -/
example : (Statement.mk "a" ⟨"b\x00c"⟩).message = (Statement.mk "a\x00b" ⟨"c"⟩).message := by decide

/-- The messages of two statements differ and have one code under the key. -/
def CodesCollide (key : Bytes) (s t : Statement) : Prop :=
  s.message ≠ t.message ∧ Sha2.hmacSha256 key s.message = Sha2.hmacSha256 key t.message

theorem hmacCode_eq_iff {key : Bytes} {s t : Statement} (hs : s.payloadHash.IsDigest)
    (ht : t.payloadHash.IsDigest) :
    ProofSystem.hmacCode key s = ProofSystem.hmacCode key t ↔ t = s ∨ CodesCollide key s t := by
  have hlength := hs.length_octets.trans ht.length_octets.symm
  constructor
  · intro h
    by_cases hmessage : s.message = t.message
    · exact .inl (message_injective hlength hmessage).symm
    · exact .inr ⟨hmessage, h⟩
  · intro h
    rcases h with rfl | ⟨-, hcode⟩
    · rfl
    · exact hcode

end Statement

namespace ProofSystem

open Statement

/-- Under every key but the empty one, a proof of a statement about a digest is accepted for this
statement, and for another one exactly if the two messages are different and have one code. -/
theorem hmac_binds {key : Bytes} (hkey : key ≠ []) :
    ∃ proofs, hmac key = .ok proofs ∧ ∀ s : Statement, s.payloadHash.IsDigest →
      ∃ proof, proofs.attest s = .ok proof ∧ proofs.verify s proof = true ∧
        ∀ t : Statement, t.payloadHash.IsDigest → t ≠ s →
          (proofs.verify t proof = true ↔ CodesCollide key s t) := by
  obtain ⟨proofs, hproofs⟩ := exists_hmac hkey
  refine ⟨proofs, hproofs, fun s hs => ?_⟩
  obtain ⟨proof, hproof, hverify⟩ := hmac_attest hproofs s
  refine ⟨proof, hproof, (hverify s).mpr rfl, fun t ht hne => ?_⟩
  rw [hverify t, hmacCode_eq_iff hs ht, or_iff_right hne]

/-- Subjects that end in zero octets, one more in the second. -/
theorem hmac_binds_zeroOctets :
    ∃ proofs proof, hmac [107] = .ok proofs ∧
      proofs.attest ⟨"p\x00", .of [1]⟩ = .ok proof ∧
      proofs.verify ⟨"p\x00", .of [1]⟩ proof = true ∧
      (proofs.verify ⟨"p\x00\x00", .of [1]⟩ proof = true →
        CodesCollide [107] ⟨"p\x00", .of [1]⟩ ⟨"p\x00\x00", .of [1]⟩) := by
  obtain ⟨proofs, hproofs, hbinds⟩ := hmac_binds (List.cons_ne_nil 107 [])
  obtain ⟨proof, hproof, hown, hothers⟩ :=
    hbinds ⟨"p\x00", .of [1]⟩ (ContentHash.isDigest_of [1])
  have hne : Statement.mk "p\x00\x00" (.of [1]) ≠ ⟨"p\x00", .of [1]⟩ := by simp
  exact ⟨proofs, proof, hproofs, hproof, hown,
    (hothers ⟨"p\x00\x00", .of [1]⟩ (ContentHash.isDigest_of [1]) hne).mp⟩

end ProofSystem

end AgentGovernance
