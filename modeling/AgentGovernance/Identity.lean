import AgentGovernance.Bytes
import AgentGovernance.Table

/-!
# Identifiers

Agents, snapshots, executions, proposals and commitments are named by UUIDs, everything else by a
text. A UUID is its number; its canonical text has 32 lower-case hexadecimal digits in five groups.
Reading accepts the canonical grouping, bare, in braces or after `urn:uuid:`, and the 32 digits
without hyphens. Letters may be of either case.
-/
namespace AgentGovernance

structure Uuid where
  number : Nat
  deriving DecidableEq, Repr, Inhabited

namespace Uuid

/-- Hexadecimal digits, the last of them first. -/
def hexDigits : Nat → Nat → List Char
  | 0, _ => []
  | count + 1, n => Hex.digit (n % 16) :: hexDigits count (n / 16)

/-- The canonical text. -/
def text (u : Uuid) : String :=
  let ds := (hexDigits 32 u.number).reverse
  String.ofList <|
    ds.take 8 ++ '-' :: ((ds.drop 8).take 4 ++ '-' :: ((ds.drop 12).take 4 ++ '-' ::
      ((ds.drop 16).take 4 ++ '-' :: ds.drop 20)))

instance : ToString Uuid := ⟨text⟩

/-- The random-version UUID whose random bits are a counter. -/
def counted (n : Nat) : Uuid := ⟨0x00000000000040008000000000000000 + n⟩

def digitsValue? : Nat → Bytes → Option Nat
  | n, [] => some n
  | n, b :: bs => do digitsValue? (n * 16 + (← Hex.digitValue? b)) bs

def ofSimple? (bs : Bytes) : Option Uuid := (digitsValue? 0 bs).map Uuid.mk

/-- Five groups of 8, 4, 4, 4 and 12 digits. -/
def ofHyphenated? (bs : Bytes) : Option Uuid :=
  let hyphen (i : Nat) : Bool := bs.getD i 0 = 45
  if bs.length = 36 ∧ hyphen 8 ∧ hyphen 13 ∧ hyphen 18 ∧ hyphen 23 then
    ofSimple? (bs.take 8 ++ (bs.drop 9).take 4 ++ (bs.drop 14).take 4 ++ (bs.drop 19).take 4 ++
      bs.drop 24)
  else none

/-- Maps the capital letters A to Z to small ones. -/
def foldCase (b : UInt8) : UInt8 := if 65 ≤ b ∧ b ≤ 90 then b + 32 else b

def parse? (text : String) : Option Uuid :=
  let bs := Bytes.ofString text
  if bs.length = 32 then ofSimple? bs
  else if bs.length = 36 then ofHyphenated? bs
  else if bs.length = 38 ∧ bs.head? = some 123 ∧ bs.getLast? = some 125 then
    ofHyphenated? ((bs.drop 1).take 36)
  else if bs.length = 45 ∧ (bs.take 9).map foldCase = Bytes.ofString "urn:uuid:" then
    ofHyphenated? (bs.drop 9)
  else none

end Uuid

structure AgentId where
  uuid : Uuid
  deriving DecidableEq, Repr, Inhabited

structure SnapshotId where
  uuid : Uuid
  deriving DecidableEq, Repr

structure ExecutionId where
  uuid : Uuid
  deriving DecidableEq, Repr

structure ProposalId where
  uuid : Uuid
  deriving DecidableEq, Repr

structure CommitmentId where
  uuid : Uuid
  deriving DecidableEq, Repr

instance : ToString AgentId := ⟨fun i => i.uuid.text⟩
instance : ToString SnapshotId := ⟨fun i => i.uuid.text⟩
instance : ToString ProposalId := ⟨fun i => i.uuid.text⟩
instance : ToString CommitmentId := ⟨fun i => i.uuid.text⟩

structure PluginId where
  name : String
  deriving DecidableEq, Repr

/-- The handle under which an execution kernel keeps a running agent. -/
structure KernelHandle where
  name : String
  deriving DecidableEq, Repr

/-- The name under which an execution kernel keeps a snapshot. -/
structure KernelSnapshot where
  name : String
  deriving DecidableEq, Repr

structure AgreementRef where
  name : String
  deriving DecidableEq, Repr

structure VoterId where
  name : String
  deriving DecidableEq, Repr

structure NodeId where
  name : String
  deriving DecidableEq, Repr, Inhabited

instance : Key Uuid := .ofView Uuid.number fun a b h => by cases a; cases b; simp_all
instance : Key AgentId := .ofView AgentId.uuid fun a b h => by cases a; cases b; simp_all
instance : Key SnapshotId := .ofView SnapshotId.uuid fun a b h => by cases a; cases b; simp_all
instance : Key ProposalId := .ofView ProposalId.uuid fun a b h => by cases a; cases b; simp_all
instance : Key CommitmentId := .ofView CommitmentId.uuid fun a b h => by cases a; cases b; simp_all
instance : Key PluginId := .ofView PluginId.name fun a b h => by cases a; cases b; simp_all
instance : Key KernelHandle := .ofView KernelHandle.name fun a b h => by cases a; cases b; simp_all
instance : Key KernelSnapshot :=
  .ofView KernelSnapshot.name fun a b h => by cases a; cases b; simp_all
instance : Key AgreementRef := .ofView AgreementRef.name fun a b h => by cases a; cases b; simp_all
instance : Key VoterId := .ofView VoterId.name fun a b h => by cases a; cases b; simp_all
instance : Key NodeId := .ofView NodeId.name fun a b h => by cases a; cases b; simp_all

end AgentGovernance
