import AgentGovernance.Proofs.Trace.Stores

/-!
# What a store answers

What a call of a store comes to is a matter of the entries that the store keeps. A call that appends
takes the entry with the next id and refuses any other with both ids; the other calls read. A store
implements the calls if it answers each one so, and goes on keeping the right entries. The answers to
any calls in any order are then the same for every store that implements them.
-/
namespace AgentGovernance.Trace

inductive Call where
  | append (e : Entry)
  | get (id : Nat)
  | last
  | range (first last : Nat)
  | size

inductive Answer where
  | done (result : Except StoreError Unit)
  | entry (result : Except StoreError (Option Entry))
  | entries (result : Except StoreError (List Entry))
  | count (n : Nat)

namespace Call

/-- Whether the ids of a call are words and the entry that it appends can be written. -/
def Fits : Call → Prop
  | .append e => e.IsWritable
  | .get id => id < 2 ^ 64
  | .range i j => i < 2 ^ 64 ∧ j < 2 ^ 64
  | .last | .size => True

def perform {σ : Type} [Store σ] (s : σ) : Call → σ × Answer
  | .append e => let (t, result) := Store.append s e; (t, .done result)
  | .get id => (s, .entry (Store.get s id))
  | .last => (s, .entry (Store.last s))
  | .range i j => (s, .entries (Store.range s i j))
  | .size => (s, .count (Store.size s))

/-- The answer to a call where some entries are kept. -/
def answer (es : List Entry) : Call → Answer
  | .append e =>
      .done (if e.id = es.length + 1 then .ok () else .error (.outOfOrder (es.length + 1) e.id))
  | .get id => .entry (.ok (if id = 0 then none else es[id - 1]?))
  | .last => .entry (.ok es.getLast?)
  | .range i j => .entries (.ok ((es.take j).drop (i - 1)))
  | .size => .count es.length

/-- The entries that are kept after a call. -/
def kept (es : List Entry) : Call → List Entry
  | .append e => if e.id = es.length + 1 then es ++ [e] else es
  | _ => es

end Call

/-- A store answers every call as the entries that it keeps demand. -/
def Implements {σ : Type} [Store σ] (Keeps : σ → List Entry → Prop) : Prop :=
  ∀ {s es} (c : Call), Keeps s es → c.Fits →
    ∃ t, c.perform s = (t, c.answer es) ∧ Keeps t (c.kept es)

/-- A lawful store that refuses every entry but the next one implements the calls. -/
theorem Lawful.implements {σ : Type} [Store σ] {Keeps : σ → List Entry → Prop}
    {Accepts : Entry → Prop} (h : Lawful Keeps Accepts)
    (haccepts : ∀ {e : Entry}, e.IsWritable → Accepts e)
    (hrefuses : ∀ {s es} {e : Entry}, Keeps s es → e.id ≠ es.length + 1 →
      Store.append s e = (s, .error (.outOfOrder (es.length + 1) e.id))) :
    Implements Keeps := by
  intro s es c hs hfits
  cases c with
  | append e =>
      by_cases hid : e.id = es.length + 1
      · obtain ⟨t, happend, ht⟩ := h.append hs hid (haccepts hfits)
        exact ⟨t, by simp only [Call.perform, happend, Call.answer, if_pos hid],
          by rwa [Call.kept, if_pos hid]⟩
      · exact ⟨s, by simp only [Call.perform, hrefuses hs hid, Call.answer, if_neg hid],
          by rwa [Call.kept, if_neg hid]⟩
  | get id => exact ⟨s, by simp only [Call.perform, (h.shows hs).get, Call.answer], hs⟩
  | last => exact ⟨s, by simp only [Call.perform, (h.shows hs).last, Call.answer], hs⟩
  | range i j => exact ⟨s, by simp only [Call.perform, (h.shows hs).range, Call.answer], hs⟩
  | size => exact ⟨s, by simp only [Call.perform, (h.shows hs).size, Call.answer], hs⟩

theorem Log.implements : Implements Log.Keeps := by
  refine Log.lawful.implements (fun _ => trivial) ?_
  rintro s es e ⟨rfl, hids⟩ hid
  have hnext := nextId_of_numbered hids
  change s.append e = _
  rw [Log.append, hnext]
  exact if_neg hid

theorem Ledger.implements : Implements Ledger.Keeps := by
  refine Ledger.lawful.implements id ?_
  intro s es e h hid
  have hlast : s.last = .ok es.getLast? := h.shows.last
  change s.append e = _
  rw [Ledger.append, hlast]
  dsimp only
  rw [nextId_of_numbered h.numbered, if_neg hid]

/-! ## Sequences of calls -/

inductive Step where
  | call (c : Call)
  | reopen

def Step.isCall : Step → Bool
  | .call _ => true
  | .reopen => false

def Step.Fits : Step → Prop
  | .call c => c.Fits
  | .reopen => True

/-- The answers to the calls among some steps. -/
def answers {σ : Type} [Store σ] (reopen : σ → σ) (s : σ) : List Step → List Answer
  | [] => []
  | .call c :: rest => let (t, a) := c.perform s; a :: answers reopen t rest
  | .reopen :: rest => answers reopen (reopen s) rest

/-- The answers that are due to the calls among some steps. -/
def due (es : List Entry) : List Step → List Answer
  | [] => []
  | .call c :: rest => c.answer es :: due (c.kept es) rest
  | .reopen :: rest => due es rest

theorem due_filter (es : List Entry) (steps : List Step) :
    due es (steps.filter Step.isCall) = due es steps := by
  induction steps generalizing es with
  | nil => rfl
  | cons step steps ih =>
      cases step with
      | call c => exact congrArg (c.answer es :: ·) (ih (c.kept es))
      | reopen => exact ih es

theorem Implements.answers_eq {σ : Type} [Store σ] {Keeps : σ → List Entry → Prop}
    (h : Implements Keeps) {reopen : σ → σ} {steps : List Step}
    (hreopen : .reopen ∈ steps → ∀ {s es}, Keeps s es → Keeps (reopen s) es)
    (hfits : ∀ step ∈ steps, step.Fits) {s : σ} {es : List Entry} (hs : Keeps s es) :
    answers reopen s steps = due es steps := by
  induction steps generalizing s es with
  | nil => rfl
  | cons step steps ih =>
      have hrest : ∀ {t : σ} {fs : List Entry}, Keeps t fs → answers reopen t steps = due fs steps :=
        ih (fun hmem => hreopen (List.mem_cons_of_mem _ hmem))
          fun step hstep => hfits step (List.mem_cons_of_mem _ hstep)
      cases step with
      | call c =>
          obtain ⟨t, hperform, ht⟩ := h c hs (hfits (.call c) List.mem_cons_self)
          simp only [answers, hperform, due, hrest ht]
      | reopen => exact hrest (hreopen List.mem_cons_self hs)

end AgentGovernance.Trace
