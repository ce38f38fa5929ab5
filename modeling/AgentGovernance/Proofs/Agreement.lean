import AgentGovernance.Proofs.Framing
import AgentGovernance.Proofs.Table
import AgentGovernance.Proofs.Time.Writing
import AgentGovernance.Registry

/-!
# Edited agreements

Each of the three lists of an agreement is hashed on its own, and the hash of the agreement covers
these hashes, the id and the expiry. Texts stand in frames, so none can move to another list, be
joined to its neighbour or be cut in two without changing what is hashed. An agreement that carries
the hash of an issued one is therefore that agreement, or its hash is not the one that would be
computed again, or something that is hashed for the two is a collision.

A registry keeps an agreement until another one is registered under its id or it is revoked, and
whatever happens in between, it recomputes the hash at every judgement.
-/
namespace AgentGovernance

namespace ContentHash

/-- Lists that are hashed one by one are the same if their hashes are, or two of them collide. -/
theorem eq_or_collide_of_map_ofTexts {xss yss : List (List String)}
    (hx : ∀ xs ∈ xss, ∀ x ∈ xs, (Bytes.ofString x).length < 2 ^ 64)
    (hy : ∀ ys ∈ yss, ∀ y ∈ ys, (Bytes.ofString y).length < 2 ^ 64)
    (h : xss.map ofTexts = yss.map ofTexts) :
    xss = yss ∨ ∃ p ∈ xss.zip yss, Collide (textFrames p.1) (textFrames p.2) := by
  induction xss generalizing yss with
  | nil =>
      cases yss with
      | nil => exact .inl rfl
      | cons ys yss => cases h
  | cons xs xss ih =>
      cases yss with
      | nil => cases h
      | cons ys yss =>
          obtain ⟨hfirst, hrest⟩ := List.cons.inj h
          rw [List.forall_mem_cons] at hx hy
          rcases eq_or_collide_of_ofTexts_eq hx.1 hy.1 hfirst with rfl | hcollide
          · rcases ih hx.2 hy.2 hrest with rfl | ⟨p, hp, hcollide⟩
            · exact .inl rfl
            · exact .inr ⟨p, List.mem_cons_of_mem _ hp, hcollide⟩
          · exact .inr ⟨(xs, ys), List.mem_cons_self, hcollide⟩

end ContentHash

namespace Agreement

variable {a b : Agreement}

/-- The lists that are hashed on their own. -/
def lists (a : Agreement) : List (List String) :=
  [a.ethicsRules, a.constraints.allowedActions, a.constraints.deniedActions]

/-- The texts that the hash covers. -/
def hashTexts (a : Agreement) : List String :=
  a.id.name :: ((a.lists.map ContentHash.ofTexts).map ContentHash.text ++
    [a.validUntil.offsetText])

theorem isConsistent_iff : a.isConsistent = true ↔ ContentHash.ofTexts a.hashTexts = a.hash :=
  decide_eq_true_iff

theorem isConsistent_issue (id : AgreementRef) (rules : List String)
    (constraints : AgreementConstraints) (validUntil : Instant) :
    (issue id rules constraints validUntil).isConsistent = true := isConsistent_iff.mpr rfl

/-- What an agreement can consist of: texts that fit their frames, and an expiry of the calendar. -/
structure IsProper (a : Agreement) : Prop where
  id : (Bytes.ofString a.id.name).length < 2 ^ 64
  texts : ∀ texts ∈ a.lists, ∀ text ∈ texts, (Bytes.ofString text).length < 2 ^ 64
  validUntil : a.validUntil.checked? = some a.validUntil

theorem IsProper.length_lt (h : a.IsProper) :
    ∀ text ∈ a.hashTexts, (Bytes.ofString text).length < 2 ^ 64 := by
  have hdigest : ∀ texts, (Bytes.ofString (ContentHash.ofTexts texts).text).length < 2 ^ 64 := by
    intro texts
    rw [ContentHash.ofTexts_eq, ContentHash.length_text_of]
    decide
  have huntil : (Bytes.ofString a.validUntil.offsetText).length < 2 ^ 64 :=
    Instant.length_textWith_lt h.validUntil .shortest (by decide)
  intro text htext
  simp only [hashTexts, lists, List.map_cons, List.map_nil, List.cons_append, List.nil_append,
    List.mem_cons, List.not_mem_nil, or_false] at htext
  rcases htext with rfl | rfl | rfl | rfl | rfl
  · exact h.id
  · exact hdigest _
  · exact hdigest _
  · exact hdigest _
  · exact huntil

/-- What is hashed for two agreements, or for one of their lists, differs and has one digest. -/
def Collides (a b : Agreement) : Prop :=
  ContentHash.Collide (ContentHash.textFrames a.hashTexts) (ContentHash.textFrames b.hashTexts) ∨
    ∃ p ∈ a.lists.zip b.lists,
      ContentHash.Collide (ContentHash.textFrames p.1) (ContentHash.textFrames p.2)

/-- Agreements with one hash over their contents have the same contents, or they collide. The
collision may be inside: equal hashes of two lists can come from different lists. -/
theorem IsProper.eq_or_collides (ha : a.IsProper) (hb : b.IsProper) (hhash : b.hash = a.hash)
    (h : ContentHash.ofTexts a.hashTexts = ContentHash.ofTexts b.hashTexts) :
    b = a ∨ Collides a b := by
  rcases ContentHash.eq_or_collide_of_ofTexts_eq ha.length_lt hb.length_lt h with htexts | hcollide
  · obtain ⟨hid, hrest⟩ := List.cons.inj htexts
    obtain ⟨hdigests, huntil⟩ := List.append_inj' hrest rfl
    have hmap : a.lists.map ContentHash.ofTexts = b.lists.map ContentHash.ofTexts :=
      (List.map_inj_right fun _ _ hx => (ContentHash.mk.injEq _ _).mpr hx).mp hdigests
    have hexpiry : a.validUntil = b.validUntil :=
      Instant.textWith_injective ha.validUntil hb.validUntil (List.cons.inj huntil).1
    rcases ContentHash.eq_or_collide_of_map_ofTexts ha.texts hb.texts hmap with hlists | hcollide
    · refine .inl ?_
      simp only [lists, List.cons.injEq, and_true] at hlists
      obtain ⟨hrules, hallowed, hdenied⟩ := hlists
      obtain ⟨⟨_⟩, _, _, ⟨_, _⟩, _⟩ := a
      obtain ⟨⟨_⟩, _, _, ⟨_, _⟩, _⟩ := b
      simp_all
    · exact .inr (.inr hcollide)
  · exact .inr (.inl hcollide)

/-- An agreement that was changed under the hash of an issued one is inconsistent, or it shows a
collision. -/
theorem IsProper.inconsistent_or_collides (ha : a.IsProper) (hb : b.IsProper)
    (hconsistent : a.isConsistent = true) (hhash : b.hash = a.hash) (hedited : b ≠ a) :
    b.isConsistent = false ∨ Collides a b := by
  cases hb' : b.isConsistent with
  | false => exact .inl rfl
  | true =>
      have htexts : ContentHash.ofTexts a.hashTexts = ContentHash.ofTexts b.hashTexts := by
        rw [isConsistent_iff.mp hconsistent, isConsistent_iff.mp hb', hhash]
      exact .inr ((ha.eq_or_collides hb hhash htexts).resolve_left hedited)

end Agreement

namespace Registry

variable {r : Registry} {agreement : AgreementRef}

/-! ## Registries over time -/

/-- What may happen to a registry between two judgements. -/
inductive Change where
  | register (a : Agreement)
  | revoke (agreement : AgreementRef)
  | outage (isOffline : Bool)

def change (r : Registry) : Change → Registry
  | .register a => r.register a
  | .revoke agreement => (r.revoke agreement).1
  | .outage isOffline => { r with isOffline }

/-- Whether a change replaces or removes the agreement with an id. -/
def Change.Concerns (agreement : AgreementRef) : Change → Prop
  | .register a => a.id = agreement
  | .revoke other => other = agreement
  | .outage _ => False

theorem get?_change {c : Change} (h : ¬c.Concerns agreement) :
    (r.change c).get? agreement = r.get? agreement := by
  cases c with
  | register a => exact Table.find?_insert_ne _ (Ne.symm h) _
  | revoke other =>
      have hfind := Table.find?_erase r.agreements other agreement
      rw [if_neg (Ne.symm h)] at hfind
      exact hfind
  | outage isOffline => rfl

def after (r : Registry) (changes : List Change) : Registry := changes.foldl change r

theorem get?_after {changes : List Change} (h : ∀ c ∈ changes, ¬c.Concerns agreement) :
    (r.after changes).get? agreement = r.get? agreement := by
  induction changes generalizing r with
  | nil => rfl
  | cons c changes ih =>
      rw [List.forall_mem_cons] at h
      have hfirst : (r.change c).get? agreement = r.get? agreement := get?_change h.1
      exact (ih h.2).trans hfirst

/-- An agreement stays registered while nothing concerns its id. -/
theorem get?_after_register {a : Agreement} {changes : List Change}
    (h : ∀ c ∈ changes, ¬c.Concerns a.id) : ((r.register a).after changes).get? a.id = some a := by
  rw [get?_after h]
  exact Table.find?_insert_self _ _ _

theorem judge_of_get? {a : Agreement} (honline : r.isOffline = false)
    (ha : r.get? agreement = some a) (action : String) (now : Instant) :
    r.judge agreement action now =
      if a.isConsistent then .ok (a.evaluate action now) else .error (.hashMismatch agreement) := by
  simp [judge, honline, ha]

end Registry

namespace Agreement

open Registry

/-- Once an agreement is registered, its id is judged in this way, for every action and at every
time, while the agreement is neither replaced nor revoked and the registry is online. -/
def JudgedAs (a : Agreement) (answer : String → Instant → Except PolicyError Decision) : Prop :=
  ∀ (r : Registry) (changes : List Change), (∀ c ∈ changes, ¬c.Concerns a.id) →
    ((r.register a).after changes).isOffline = false →
      ∀ action now, ((r.register a).after changes).judge a.id action now = answer action now

theorem judgedAs_evaluate {a : Agreement} (h : a.isConsistent = true) :
    a.JudgedAs fun action now => .ok (a.evaluate action now) := by
  intro r changes hchanges honline action now
  rw [judge_of_get? honline (get?_after_register hchanges), if_pos h]

theorem judgedAs_mismatch {a : Agreement} (h : a.isConsistent = false) :
    a.JudgedAs fun _ _ => .error (.hashMismatch a.id) := by
  intro r changes hchanges honline action now
  rw [judge_of_get? honline (get?_after_register hchanges), h, if_neg Bool.false_ne_true]

/-- An issued agreement is evaluated. One that differs from it and carries its hash is refused for
the mismatch, or else something that is hashed for the two is a collision. -/
theorem edited_refused {id : AgreementRef} {rules : List String}
    {constraints : AgreementConstraints} {validUntil : Instant} {edited : Agreement}
    (hissued : (issue id rules constraints validUntil).IsProper) (hproper : edited.IsProper)
    (hhash : edited.hash = (issue id rules constraints validUntil).hash) :
    ((issue id rules constraints validUntil).JudgedAs fun action now =>
        .ok ((issue id rules constraints validUntil).evaluate action now)) ∧
      (edited ≠ issue id rules constraints validUntil →
        (edited.JudgedAs fun _ _ => .error (.hashMismatch edited.id)) ∨
          Collides (issue id rules constraints validUntil) edited) := by
  have hconsistent := isConsistent_issue id rules constraints validUntil
  refine ⟨judgedAs_evaluate hconsistent, fun hedited => ?_⟩
  exact (hissued.inconsistent_or_collides hproper hconsistent hhash hedited).imp_left
    judgedAs_mismatch

/-- An agreement on one rule, and the same with the rule cut in two. -/
def unbroken : Agreement := issue ⟨"agr"⟩ ["a\nb"] ⟨["x"], []⟩ ⟨0⟩

def broken : Agreement := { unbroken with ethicsRules := ["a", "b"] }

theorem edited_refused_broken :
    (broken.JudgedAs fun _ _ => .error (.hashMismatch ⟨"agr"⟩)) ∨ Collides unbroken broken := by
  have hunbroken : unbroken.IsProper := ⟨by decide +kernel, by decide +kernel, by decide +kernel⟩
  have hbroken : broken.IsProper := ⟨by decide +kernel, by decide +kernel, by decide +kernel⟩
  have hne : broken ≠ unbroken := by
    intro h
    exact absurd (congrArg Agreement.ethicsRules h) (by decide)
  exact (edited_refused hunbroken hbroken rfl).2 hne

end Agreement

end AgentGovernance
