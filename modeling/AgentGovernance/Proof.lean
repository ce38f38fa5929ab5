import AgentGovernance.ContentHash
import AgentGovernance.Signature

/-!
# Proofs

A proof attests to a statement: that a subject has a payload with a given hash. Two schemes are
offered. HMAC proofs can be checked by the holders of the key; Ed25519 proofs carry the key that
checks them, and a proof system accepts only those that carry its own.
-/
namespace AgentGovernance

structure Statement where
  subject : String
  payloadHash : ContentHash
  deriving DecidableEq, Repr

instance : Codec Statement where
  encode s := .record [("subject", encode s.subject), ("payload_hash", encode s.payloadHash)]
  decode? := Codec.readRecord do
    let subject ← Codec.required "subject"
    let payloadHash ← Codec.required "payload_hash"
    return ⟨subject, payloadHash⟩

/-- The bytes that are signed: a tag, the subject and the hash, with zero octets between them. -/
def Statement.message (s : Statement) : Bytes :=
  Bytes.ofString "covenant.commitment.v1" ++ 0 :: (Bytes.ofString s.subject ++
    0 :: Bytes.ofString s.payloadHash.text)

structure Proof where
  scheme : String
  /-- The signature or code in hexadecimal. -/
  value : String
  /-- The public key in hexadecimal, where there is one. -/
  verifierKey : Option String
  deriving DecidableEq, Repr

instance : Codec Proof where
  encode p := .record
    [("scheme", encode p.scheme), ("value", encode p.value),
     ("verifier_key", p.verifierKey.map encode)]
  decode? := Codec.readRecord do
    let scheme ← Codec.required "scheme"
    let value ← Codec.required "value"
    let verifierKey ← Codec.optional "verifier_key"
    return ⟨scheme, value, verifierKey⟩

/-- Attests statements and checks the proofs of others. -/
structure ProofSystem where
  scheme : String
  attest : Statement → Except ProofError Proof
  verify : Statement → Proof → Bool

namespace Proof

def ed25519Scheme : String := "ed25519"

def hmacScheme : String := "hmac-sha256"

def decodeOctets (what lengthError : String) (length : Nat) (text : String) :
    Except ProofError Bytes :=
  match Hex.decode text with
  | .error e => .error ⟨"invalid " ++ what ++ " encoding: " ++ e.message⟩
  | .ok octets => if octets.length = length then .ok octets else .error ⟨lengthError⟩

/-- Checks a proof against the key it carries. -/
def verifyEd25519 (statement : Statement) (proof : Proof) : Except ProofError Unit := do
  if proof.scheme ≠ ed25519Scheme then
    throw ⟨"expected scheme " ++ ed25519Scheme ++ ", found " ++ proof.scheme⟩
  let some keyText := proof.verifierKey | throw ⟨"proof carries no verifying key"⟩
  let keyOctets ← decodeOctets "verifying key" "invalid public key length (must be 32 bytes)" 32
    keyText
  let key ← match Ed25519.VerifyingKey.ofBytes keyOctets with
    | .ok key => pure key
    | .error e => throw ⟨"invalid public key: " ++ e.message⟩
  let signature ← decodeOctets "signature" "invalid signature length (must be 64 bytes)" 64
    proof.value
  match key.verify statement.message signature with
  | .ok () => return ()
  | .error e => throw ⟨"signature verification failed: " ++ e.message⟩

end Proof

namespace ProofSystem

open Proof

/-- Ed25519 with a 32-byte secret. -/
def ed25519 (secret : Bytes) : ProofSystem :=
  let key := Hex.encode (Ed25519.publicKey secret)
  { scheme := ed25519Scheme
    attest := fun statement =>
      .ok ⟨ed25519Scheme, Hex.encode (Ed25519.sign secret statement.message), some key⟩
    verify := fun statement proof =>
      proof.verifierKey = some key && (verifyEd25519 statement proof).isOk }

def hmacCode (key : Bytes) (statement : Statement) : Bytes := Sha2.hmacSha256 key statement.message

/-- HMAC over SHA-256 with a key that is not empty. -/
def hmac (key : Bytes) : Except ProofError ProofSystem :=
  if key.isEmpty then .error ⟨"HMAC key must not be empty"⟩
  else .ok
    { scheme := hmacScheme
      attest := fun statement => .ok ⟨hmacScheme, Hex.encode (hmacCode key statement), none⟩
      verify := fun statement proof =>
        proof.scheme = hmacScheme &&
          match Hex.decode proof.value with
          | .ok code => code = hmacCode key statement
          | .error _ => false }

/-- Attests with one system and verifies with another, under the scheme of the second. -/
def paired (attester verifier : ProofSystem) : ProofSystem :=
  { verifier with attest := attester.attest }

/-- A system that cannot attest. -/
def failing (why : String) (verifier : ProofSystem) : ProofSystem :=
  { verifier with attest := fun _ => .error ⟨why⟩ }

end ProofSystem

end AgentGovernance
