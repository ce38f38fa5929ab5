import AgentGovernance.Proofs.Lifecycle.Move

/-!
# Archived agents

However calls overlap, an agent is archived exactly when its termination has been published. From
then on its record stays as it is and no event is about it. Until then it is active or paused.

Events name agents by the texts of their ids, so the invariant `Told` keeps the texts of the stored
ids apart and has every event name a stored agent; a new agent is then one that no event names.
-/
namespace AgentGovernance.Lifecycle

/-- Whether an event says that an agent has been terminated. -/
def Ends (id : AgentId) (e : Event) : Prop :=
  e.type = .agentTerminated ∧ e.target = some id.uuid.text

/-- What the agents and the events about them have to do with each other. -/
structure Told (m : Lifecycle) (es : List Event) : Prop where
  keyed : m.Keyed
  apart : ∀ id jd a b, m.agents.find? id = some a → m.agents.find? jd = some b →
    id.uuid.text = jd.uuid.text → id = jd
  named : ∀ e ∈ es, ∃ id a, m.agents.find? id = some a ∧ e.target = some id.uuid.text
  archived_iff : ∀ id a, m.agents.find? id = some a →
    (a.status = .archived ↔ ∃ e ∈ es, Ends id e)
  last : es.Pairwise fun e later => e.type = .agentTerminated → later.target ≠ e.target

namespace Told

variable {cause : Option Cause} {fresh : Option Uuid} {m m' : Lifecycle} {old new : List Event}

theorem empty : Told {} [] := by
  refine ⟨keyed_empty, ?_, ?_, ?_, .nil⟩
  · intro _ _ _ _ h
    cases h
  · intro _ h
    cases h
  · intro _ _ h
    cases h

/-- Storing an agent whose id reads unlike all others, with some events about it. -/
theorem withAgent (h : Told m old) {b : Agent}
    (hapart : ∀ id a, m.agents.find? id = some a → id.uuid.text = b.id.uuid.text → id = b.id)
    (hnamed : ∀ e ∈ new, e.target = some b.id.uuid.text)
    (harchived : b.status = .archived ↔ ∃ e ∈ old ++ new, Ends b.id e)
    (hopen : ∀ e ∈ old, ∀ later ∈ new, ¬Ends b.id e)
    (hlast : new.Pairwise fun e later => e.type = .agentTerminated → later.target ≠ e.target) :
    Told (m.withAgent b) (old ++ new) := by
  constructor
  · intro id a ha
    rcases find?_withAgent_cases ha with ⟨hid, rfl⟩ | ⟨-, ha⟩
    · exact hid.symm
    · exact h.keyed id a ha
  · intro id jd a c ha hc htext
    rcases find?_withAgent_cases ha with ⟨rfl, -⟩ | ⟨-, ha⟩ <;>
      rcases find?_withAgent_cases hc with ⟨rfl, -⟩ | ⟨-, hc⟩
    · rfl
    · exact (hapart jd c hc htext.symm).symm
    · exact hapart id a ha htext
    · exact h.apart id jd a c ha hc htext
  · intro e he
    rcases List.mem_append.mp he with he | he
    · obtain ⟨id, a, ha, htarget⟩ := h.named e he
      obtain ⟨c, hc⟩ := exists_find?_withAgent ha b
      exact ⟨id, c, hc, htarget⟩
    · exact ⟨b.id, b, find?_withAgent_self m b, hnamed e he⟩
  · intro id a ha
    rcases find?_withAgent_cases ha with ⟨rfl, rfl⟩ | ⟨hid, ha⟩
    · exact harchived
    · rw [h.archived_iff id a ha]
      constructor
      · rintro ⟨e, he, hend⟩
        exact ⟨e, List.mem_append_left new he, hend⟩
      · rintro ⟨e, he, hend⟩
        rcases List.mem_append.mp he with he | he
        · exact ⟨e, he, hend⟩
        · have htarget := hnamed e he
          rw [hend.2] at htarget
          exact absurd (hapart id a ha (Option.some.inj htarget)) hid
  · refine List.pairwise_append.mpr ⟨h.last, hlast, ?_⟩
    intro e he later hlater htype htarget
    rw [hnamed later hlater] at htarget
    exact hopen e he later hlater ⟨htype, htarget.symm⟩

theorem add (h : Told m old) {a : Agent} (hbirth : Birth cause a new)
    (hfresh : ∀ id b, m.agents.find? id = some b → a.id.uuid.text ≠ id.uuid.text) :
    Told (m.withAgent a) (old ++ new) := by
  have hunnamed : ∀ e ∈ old, ¬Ends a.id e := by
    rintro e he ⟨-, hend⟩
    obtain ⟨id, b, hb, htarget⟩ := h.named e he
    rw [hend] at htarget
    exact hfresh id b hb (Option.some.inj htarget)
  refine h.withAgent ?_ (fun e he => (hbirth.event he).1) ?_ (fun e he _ _ => hunnamed e he)
    hbirth.pairwise
  · intro id b hb htext
    exact absurd htext.symm (hfresh id b hb)
  · rw [hbirth.status_eq]
    refine iff_of_false (by decide) ?_
    rintro ⟨e, he, hend⟩
    rcases List.mem_append.mp he with he | he
    · exact hunnamed e he hend
    · exact (hbirth.event he).2 hend.1

theorem change (h : Told m old) {a b : Agent} (ha : m.agents.find? a.id = some a)
    (hchange : Change cause a b new) : Told (m.withAgent b) (old ++ new) := by
  have hid := hchange.id_eq
  have harchived := h.archived_iff a.id a ha
  refine h.withAgent ?_ ?_ ?_ ?_ hchange.pairwise
  · intro id c hc htext
    rw [hid] at htext ⊢
    exact h.apart id a.id c a hc ha htext
  · intro e he
    rw [hid]
    exact hchange.target_eq he
  · rw [hchange.archived_iff, harchived, hid]
    simp only [List.mem_append, or_and_right, exists_or]
    refine or_congr_right (exists_congr fun e => and_congr_right fun he => ?_)
    exact (and_iff_left (hchange.target_eq he)).symm
  · intro e he later hlater hend
    rw [hid] at hend
    obtain ⟨-, rfl⟩ := hchange.eq_of_archived (harchived.mpr ⟨e, he, hend⟩)
    cases hlater

theorem snapshot (h : Told m old) {a : Agent} (ha : m.agents.find? a.id = some a)
    (hopen : a.status ≠ .archived) {e : Event} (htype : e.type ≠ .agentTerminated)
    (htarget : e.target = some a.id.uuid.text) (snapshots : Table SnapshotId Snapshot) :
    Told { m with snapshots } (old ++ [e]) := by
  refine ⟨h.keyed, h.apart, ?_, ?_, ?_⟩
  · intro x hx
    rcases List.mem_append.mp hx with hx | hx
    · exact h.named x hx
    · rw [List.mem_singleton.mp hx]
      exact ⟨a.id, a, ha, htarget⟩
  · intro id b hb
    simp only [List.mem_append, or_and_right, exists_or, List.mem_singleton]
    rw [h.archived_iff id b hb]
    refine (or_iff_left ?_).symm
    rintro ⟨x, rfl, hend⟩
    exact htype hend.1
  · refine List.pairwise_append.mpr ⟨h.last, List.pairwise_singleton _ _, ?_⟩
    intro x hx later hlater hend hsame
    rw [List.mem_singleton.mp hlater, htarget] at hsame
    exact hopen ((h.archived_iff a.id a ha).mpr ⟨x, hx, hend, hsame.symm⟩)

/-- The agents and the events stay in step if the id that is drawn reads unlike those in use. -/
theorem move (h : Told m old) (hmove : Move cause fresh m m' new)
    (hfresh : ∀ id a, m.agents.find? id = some a → ∀ u, fresh = some u → u.text ≠ id.uuid.text) :
    Told m' (old ++ new) := by
  cases hmove with
  | stay => rwa [List.append_nil]
  | add hdrawn hbirth => exact h.add hbirth fun id b hb => hfresh id b hb _ hdrawn
  | change ha hchange => exact h.change ha hchange
  | snapshot _ _ ha hopen _ => exact h.snapshot ha hopen (by simp [event]) rfl _

end Told

namespace Run

theorem after_told {actions : List Action} (h : DistinctIds actions) :
    Told (after actions).manager (after actions).published := by
  induction actions using List.reverseRecOn with
  | nil => exact .empty
  | append_singleton actions a ih =>
      obtain ⟨es, hmove, hpublished⟩ := after_move actions a
      rw [hpublished]
      exact (ih h.of_append).move hmove fun id b hb u hu => h.text_ne hb hu

/-- An archived agent stays as it is. -/
theorem find?_append_of_archived {actions more : List Action}
    (h : DistinctIds (actions ++ more)) {id : AgentId} {a : Agent}
    (ha : (after actions).manager.agents.find? id = some a) (harchived : a.status = .archived) :
    (after (actions ++ more)).manager.agents.find? id = some a := by
  induction more using List.reverseRecOn with
  | nil => rwa [List.append_nil]
  | append_singleton more act ih =>
      rw [← List.append_assoc] at h ⊢
      have hkept := ih h.of_append
      obtain ⟨es, hmove, -⟩ := after_move (actions ++ more) act
      obtain ⟨b, es, hb, hchange⟩ :=
        hmove.find?_of_some hkept fun hdrawn => h.text_ne hkept hdrawn rfl
      rw [hb, (hchange.eq_of_archived harchived).1]

end Run

/-- What the published terminations say about the agents, now and later. -/
structure Final (r later : Run) : Prop where
  /-- A termination is about a stored agent. -/
  stored : ∀ e ∈ r.published, e.type = .agentTerminated →
    ∃ id a, r.manager.agents.find? id = some a ∧ Ends id e
  /-- From then on the agent is archived and stays as it is. -/
  frozen : ∀ id a, r.manager.agents.find? id = some a → (∃ e ∈ r.published, Ends id e) →
    a.status = .archived ∧ later.manager.agents.find? id = some a
  /-- No later event is about the agent, and so none ends it again. -/
  last : later.published.Pairwise fun e x => e.type = .agentTerminated → x.target ≠ e.target
  /-- Until then the agent is active or paused. -/
  living : ∀ id a, r.manager.agents.find? id = some a → (∀ e ∈ r.published, ¬Ends id e) →
    a.status = .active ∨ a.status = .paused

/-- Once its termination has been published an agent is never changed or spoken of again, whatever
calls are still under way. -/
theorem terminated_final {actions more : List Action} (h : DistinctIds (actions ++ more)) :
    Final (Run.after actions) (Run.after (actions ++ more)) := by
  have htold := Run.after_told h.of_append
  constructor
  · intro e he htype
    obtain ⟨id, a, ha, htarget⟩ := htold.named e he
    exact ⟨id, a, ha, htype, htarget⟩
  · intro id a ha hend
    have harchived := (htold.archived_iff id a ha).mpr hend
    exact ⟨harchived, Run.find?_append_of_archived h ha harchived⟩
  · exact (Run.after_told h).last
  · intro id a ha hend
    cases hstatus : a.status with
    | active => exact .inl rfl
    | paused => exact .inr rfl
    | archived =>
        obtain ⟨e, he, hends⟩ := (htold.archived_iff id a ha).mp hstatus
        exact absurd hends (hend e he)

/-- An agent is terminated while calls to execute, attach, snapshot and terminate wait. -/
def overlapping : List Action :=
  [.start (.spawn {}) 0 ⟨0⟩, .reply 0 obliging ⟨1⟩ ⟨0⟩,
   .start (.execute ⟨⟨1⟩⟩ { name := "work" }) 0 ⟨1⟩, .start (.attach ⟨⟨1⟩⟩ ⟨"plugin"⟩) 0 ⟨2⟩,
   .start (.snapshot ⟨⟨1⟩⟩) 0 ⟨3⟩, .start (.terminate ⟨⟨1⟩⟩) 0 ⟨4⟩, .start (.terminate ⟨⟨1⟩⟩) 0 ⟨5⟩,
   .reply 3 obliging ⟨2⟩ ⟨6⟩]

/-- The replies that come too late. -/
def belated : List Action :=
  [.reply 0 obliging ⟨3⟩ ⟨7⟩, .reply 0 obliging ⟨4⟩ ⟨8⟩, .reply 0 obliging ⟨5⟩ ⟨9⟩,
   .reply 0 obliging ⟨6⟩ ⟨10⟩, .start (.pause ⟨⟨1⟩⟩) 0 ⟨11⟩]

theorem terminated_final_overlapping :
    DistinctIds (overlapping ++ belated) ∧ (Run.after overlapping).pending.length = 4 ∧
      ∃ a, (Run.after (overlapping ++ belated)).manager.agents.find? ⟨⟨1⟩⟩ = some a ∧
        a.status = .archived ∧ a.executions = 0 ∧ a.plugins = [] ∧ a.updatedAt = ⟨6⟩ := by
  have hdistinct : DistinctIds (overlapping ++ belated) := by
    unfold DistinctIds
    decide +kernel
  have hfinal := terminated_final hdistinct
  obtain ⟨a, ha⟩ : ∃ a, (Run.after overlapping).manager.agents.find? ⟨⟨1⟩⟩ = some a := ⟨_, rfl⟩
  have hends : ∃ e ∈ (Run.after overlapping).published, Ends ⟨⟨1⟩⟩ e :=
    ⟨_, List.mem_of_getElem? (i := 1) rfl, rfl, rfl⟩
  obtain ⟨hstatus, hkept⟩ := hfinal.frozen _ _ ha hends
  refine ⟨hdistinct, rfl, a, hkept, hstatus, ?_⟩
  cases ha
  exact ⟨rfl, rfl, rfl⟩

end AgentGovernance.Lifecycle
