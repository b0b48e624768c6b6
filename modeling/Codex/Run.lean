import Mathlib.Data.List.Induction
import Mathlib.Data.List.Basic

/-! # Runs: a system takes events one after another and can stop -/

namespace Codex.Run

open List

variable {S E : Type*} {step : S → E → Option S} {start s : S} {events : List E}

def run (step : S → E → Option S) (start : S) (events : List E) : Option S := events.foldlM step start

@[simp] lemma run_nil : run step start [] = some start := rfl

variable {bad : S → E → Prop} {more : List E}

lemma run_append : run step start (events ++ more) = some s ↔
    ∃ middle, run step start events = some middle ∧ run step middle more = some s := by
  unfold run
  rw [foldlM_append, Option.bind_eq_bind, Option.bind_eq_some_iff]

lemma run_concat : run step start (events ++ [event]) = some s ↔
    ∃ middle, run step start events = some middle ∧ step middle event = some s := by
  rw [run_append]
  have ho : ∀ middle, run step middle [event] = step middle event := by
    intro middle
    unfold run
    simp
  simp only [ho]

/-- What holds at the start and is kept by every step holds after every run. -/
lemma invariant (I : List E → S → Prop) (hs : I [] start)
    (hst : ∀ events event s s', run step start events = some s → I events s → step s event = some s' →
      I (events ++ [event]) s')
    (h : run step start events = some s) : I events s := by
  induction events using reverseRecOn generalizing s with
  | nil =>
    cases h
    exact hs
  | append_singleton events event ih =>
    obtain ⟨middle, hr, he⟩ := run_concat.mp h
    exact hst events event middle s hr (ih hr) he

/-- No event of the run is one of those, in the state in which it comes. -/
def Avoids (step : S → E → Option S) (bad : S → E → Prop) (start : S) (events : List E) : Prop :=
  ∀ before event after s, events = before ++ event :: after → run step start before = some s → ¬ bad s event

lemma avoids_nil : Avoids step bad start [] := by
  intro pre event after s heq
  simp at heq

lemma avoids_concat {bad : S → E → Prop} {event : E} (h : Avoids step bad start events)
    (hr : run step start events = some s) (hba : ¬ bad s event) : Avoids step bad start (events ++ [event]) := by
  intro pre other after s' heq hb
  rcases eq_nil_or_concat after with rfl | ⟨middle, _, rfl⟩
  · obtain ⟨rfl, hl⟩ := append_inj' heq rfl
    obtain rfl : event = other := (cons.inj hl).1
    obtain rfl := Option.some.inj (hr.symm.trans hb)
    exact hba
  · rw [concat_eq_append, ← cons_append, ← append_assoc] at heq
    exact h pre other middle s' (append_inj' heq rfl).1 hb

lemma avoids_of_append (h : Avoids step bad start (events ++ more)) : Avoids step bad start events := by
  intro pre event after s heq
  exact h pre event (after ++ more) s (by simp [heq])

lemma Avoids.cons {bad : S → E → Prop} {event : E} {events : List E} (h : Avoids step bad start (event :: events)) :
    ¬ bad start event ∧ ∀ s, step start event = some s → Avoids step bad s events := by
  refine ⟨h [] event events start rfl rfl, fun s hs pre other after s' heq hr => ?_⟩
  refine h (event :: pre) other after s' (by rw [heq, cons_append]) ?_
  simpa [run, hs] using hr

/-- What holds at the start and is lost by those events alone holds exactly after the runs without them. -/
lemma iff_avoids (J I : S → Prop) (hs : J start ∧ I start)
    (hst : ∀ s event s', J s → step s event = some s' → J s' ∧ (I s' ↔ I s ∧ ¬ bad s event))
    (h : run step start events = some s) : J s ∧ (I s ↔ Avoids step bad start events) := by
  refine invariant (fun events s => J s ∧ (I s ↔ Avoids step bad start events)) ⟨hs.1, iff_of_true hs.2 avoids_nil⟩ ?_ h
  rintro events event s s' hr ⟨ho, hi⟩ he
  obtain ⟨hn, hk⟩ := hst s event s' ho he
  refine ⟨hn, ?_⟩
  rw [hk, hi]
  constructor
  · rintro ⟨ha, hno⟩
    exact avoids_concat ha hr hno
  · intro ha
    exact ⟨avoids_of_append ha, ha events event [] s rfl hr⟩

/-- What every step but those keeps holds after every run without them. -/
lemma invariant_of_avoids (I : S → Prop) (hs : I start)
    (hst : ∀ s event s', I s → ¬ bad s event → step s event = some s' → I s')
    (h : run step start events = some s) (ha : Avoids step bad start events) : I s := by
  suffices hal : Avoids step bad start events → I s from hal ha
  refine invariant (fun events s => Avoids step bad start events → I s) (fun _ => hs) ?_ h
  intro events event s s' hr ho hn ha
  exact hst s event s' (ho (avoids_of_append ha)) (ha events event [] s rfl hr) hn

end Codex.Run
