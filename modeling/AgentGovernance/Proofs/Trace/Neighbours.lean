import AgentGovernance.Proofs.Trace.Replaying
import Mathlib.Data.List.Infix

/-!
# Segments drawn from a chain

Somebody takes entries of a chain and puts them into a list, in any order, some of them several times
and others not at all. Such a list replays exactly if it is a run of neighbours of the chain. In any
other list there is a first entry that does not continue the run before it; there the id behind the
run was expected, and another one is found.
-/
namespace AgentGovernance

section Runs

variable {α : Type} {chain : List α}

theorem singleton_infix_of_mem {a : α} (h : a ∈ chain) : [a] <:+: chain := by
  obtain ⟨before, behind, rfl⟩ := List.append_of_mem h
  exact ⟨before, behind, by simp⟩

/-- A list of members that is no run of neighbours has a longest beginning that is one. -/
theorem exists_break {as : List α} (hdrawn : ∀ a ∈ as, a ∈ chain) (h : ¬as <:+: chain) :
    ∃ run d e rest, as = run ++ d :: e :: rest ∧ run ++ [d] <:+: chain ∧
      ¬run ++ [d, e] <:+: chain := by
  induction as using List.reverseRecOn with
  | nil => exact absurd List.nil_infix h
  | append_singleton as e ih =>
      by_cases hinit : as <:+: chain
      · cases as using List.reverseRecOn with
        | nil => exact absurd (singleton_infix_of_mem (hdrawn e (by simp))) h
        | append_singleton run d =>
            rw [List.append_assoc] at h
            exact ⟨run, d, e, [], by simp, hinit, h⟩
      · obtain ⟨run, d, c, rest, rfl, hrun, hbreak⟩ :=
          ih (fun a ha => hdrawn a (List.mem_append_left _ ha)) hinit
        exact ⟨run, d, c, rest ++ [e], by simp, hrun, hbreak⟩

end Runs

namespace Trace

variable {id : Nat} {previous : ContentHash} {chain : List Entry}

theorem Linked.id_lt (h : Linked id previous chain) {e : Entry} (he : e ∈ chain) :
    e.id < id + chain.length := by
  obtain ⟨i, hi, rfl⟩ := List.mem_iff_getElem.mp he
  have hid := (h.getElem hi).1
  omega

/-- An entry of a chain is known by its id. -/
theorem Linked.eq_of_id_eq (h : Linked id previous chain) {d e : Entry} (hd : d ∈ chain)
    (he : e ∈ chain) (hid : d.id = e.id) : d = e := by
  obtain ⟨i, hi, rfl⟩ := List.mem_iff_getElem.mp hd
  obtain ⟨j, hj, rfl⟩ := List.mem_iff_getElem.mp he
  have hdid := (h.getElem hi).1
  have heid := (h.getElem hj).1
  obtain rfl : i = j := by omega
  rfl

/-- An entry of the chain continues a run of neighbours exactly if it has the next id. -/
theorem Linked.neighbours_iff (h : Linked id previous chain) {run : List Entry} {d e : Entry}
    (hrun : run ++ [d] <:+: chain) (he : e ∈ chain) :
    run ++ [d, e] <:+: chain ↔ e.id = d.id + 1 := by
  constructor
  · intro hlonger
    obtain ⟨before, behind, rfl⟩ := hlonger
    have hlinked := (linked_append.mp (linked_append.mp h).1).2
    obtain ⟨hdid, -, -, heid, -⟩ := (linked_append.mp hlinked).2
    omega
  · intro hid
    obtain ⟨before, behind, rfl⟩ := hrun
    have hdid : d.id = id + (before ++ run).length := by
      rw [← List.append_assoc] at h
      exact (linked_append.mp (linked_append.mp h).1).2.1
    cases behind with
    | nil =>
        have hlt := h.id_lt he
        simp only [List.length_append, List.length_singleton, List.length_nil] at hlt hdid
        omega
    | cons c behind =>
        have hcid : c.id = id + (before ++ (run ++ [d])).length := (linked_append.mp h).2.1
        have hce : c = e := by
          refine h.eq_of_id_eq (by simp) he ?_
          simp only [List.length_append, List.length_singleton] at hcid hdid
          omega
        exact ⟨before, behind, by simp [hce]⟩

/-- A linked run that another entry does not continue is refused there. -/
theorem replayWith_of_break {run : List Entry} {d e : Entry} (h : Linked id previous (run ++ [d]))
    (hfirst : id = 1 → previous = .genesis) (hlt : d.id < 2 ^ 64 - 1) (hbreak : e.id ≠ d.id + 1)
    (a : Arithmetic) (rest : List Entry) :
    replayWith a (run ++ d :: e :: rest) =
      some (.error (.integrityViolation (toString (d.id + 1))
        (LinkFault.wrongId (d.id + 1) e.id).message)) := by
  have hdid : d.id = id + run.length := (linked_append.mp h).2.1
  have hnext : id + (run ++ [d]).length = d.id + 1 := by
    rw [List.length_append, List.length_singleton]
    omega
  have hfault : e.linkFault? (d.id + 1) (lastHash previous (run ++ [d])) =
      some (.wrongId (d.id + 1) e.id) := if_pos hbreak
  rw [List.append_cons, replayWith_append (by simp) h hfirst (by omega), hnext,
    followWith_cons_of_fault hfault]
  rfl

/-- A list of entries of a chain that is no run of neighbours is refused behind its longest
beginning that is one. -/
theorem Linked.replayWith_of_not_run (h : Linked 1 .genesis chain) {es : List Entry}
    (hids : ∀ e ∈ es, e.id < 2 ^ 64 - 1) (hdrawn : ∀ e ∈ es, e ∈ chain) (hbroken : ¬es <:+: chain)
    (a : Arithmetic) :
    ∃ run d e rest, es = run ++ d :: e :: rest ∧ run ++ [d] <:+: chain ∧
      ¬run ++ [d, e] <:+: chain ∧
      replayWith a es = some (.error (.integrityViolation (toString (d.id + 1))
        (LinkFault.wrongId (d.id + 1) e.id).message)) := by
  obtain ⟨run, d, e, rest, rfl, hrun, hbreak⟩ := exists_break hdrawn hbroken
  have hid : e.id ≠ d.id + 1 := by
    intro hnext
    exact hbreak ((h.neighbours_iff hrun (hdrawn e (by simp))).mpr hnext)
  obtain ⟨_, _, hlinked, hfirst⟩ := h.of_infix hrun
  have hrefused := replayWith_of_break hlinked hfirst (hids d (by simp)) hid a rest
  exact ⟨run, d, e, rest, rfl, hrun, hbreak, hrefused⟩

/-- A list of entries of a chain, in any order, with any repetitions and omissions, replays exactly
if it is a run of neighbours of the chain, and then up to the hash of its last entry. Any other list
has a longest beginning that is such a run, with an entry behind it that does not continue it, and is
refused at this entry: the id behind the run is expected there. -/
theorem replay_accepts_runs (hchain : Linked 1 .genesis chain)
    (hlength : chain.length < 2 ^ 64 - 1) {es : List Entry} (hdrawn : ∀ e ∈ es, e ∈ chain)
    (a : Arithmetic) :
    (∀ hash, replayWith a es = some (.ok hash) ↔
      es <:+: chain ∧ hash = es.getLast?.elim .genesis (·.hash)) ∧
    (¬es <:+: chain →
      ∃ run d e rest, es = run ++ d :: e :: rest ∧ run ++ [d] <:+: chain ∧
        ¬run ++ [d, e] <:+: chain ∧
        replayWith a es = some (.error (.integrityViolation (toString (d.id + 1))
          (LinkFault.wrongId (d.id + 1) e.id).message))) := by
  have hids : ∀ e ∈ es, e.id < 2 ^ 64 - 1 := by
    intro e he
    have hlt := hchain.id_lt (hdrawn e he)
    omega
  refine ⟨fun hash => ?_, fun hbroken => hchain.replayWith_of_not_run hids hdrawn hbroken a⟩
  constructor
  · intro hok
    by_cases hrun : es <:+: chain
    · rw [hchain.replayWith_infix hrun hids a] at hok
      exact ⟨hrun, (Except.ok.inj (Option.some.inj hok)).symm⟩
    · obtain ⟨_, _, _, _, -, -, -, hrefused⟩ :=
        hchain.replayWith_of_not_run hids hdrawn hrun a
      rw [hok] at hrefused
      cases hrefused
  · rintro ⟨hrun, rfl⟩
    exact hchain.replayWith_infix hrun hids a

def startEntry : Entry := .sealed 1 .agentPaused "agents" none .genesis .genesis ⟨5⟩

def middleEntry : Entry :=
  .sealed 2 .agentResumed "agents" none .genesis startEntry.hash ⟨7⟩

def endEntry : Entry :=
  .sealed 3 .agentTerminated "agents" none .genesis middleEntry.hash ⟨9⟩

/-- The end of a chain replays, and without the entry in its middle the chain does not. -/
theorem replay_accepts_runs_endEntry :
    replayWith .checked [middleEntry, endEntry] = some (.ok endEntry.hash) ∧
      replayWith .checked [startEntry, endEntry] =
        some (.error (.integrityViolation "2" "expected trace id 2, found 3")) := by
  have hchain : Linked 1 .genesis [startEntry, middleEntry, endEntry] :=
    ⟨rfl, rfl, rfl, rfl, rfl, rfl, rfl, rfl, rfl, trivial⟩
  have hrun : [middleEntry, endEntry] <:+: [startEntry, middleEntry, endEntry] :=
    ⟨[startEntry], [], rfl⟩
  have hbroken : ¬[startEntry, endEntry] <:+: [startEntry, middleEntry, endEntry] := by
    intro hrun
    have hids : [1, 3] <:+: [1, 2, 3] := hrun.map Entry.id
    exact absurd hids (by decide)
  refine ⟨?_, ?_⟩
  · have hdrawn : ∀ e ∈ [middleEntry, endEntry], e ∈ [startEntry, middleEntry, endEntry] :=
      fun e he => hrun.subset he
    exact ((replay_accepts_runs hchain (by decide) hdrawn .checked).1 _).mpr ⟨hrun, rfl⟩
  · have hdrawn : ∀ e ∈ [startEntry, endEntry], e ∈ [startEntry, middleEntry, endEntry] := by simp
    obtain ⟨run, d, e, rest, hparts, -, -, hrefused⟩ :=
      (replay_accepts_runs hchain (by decide) hdrawn .checked).2 hbroken
    cases run with
    | nil =>
        obtain ⟨rfl, rfl, -⟩ := by simpa using hparts
        exact hrefused
    | cons c run =>
        have hlength := congrArg List.length hparts
        simp at hlength
        omega

end Trace

end AgentGovernance
