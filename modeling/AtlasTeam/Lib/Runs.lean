import Mathlib

/-!
# All along a run

A run is a list of events, taken apart at its last one. Let `P` be what should hold after a run and `Q`
what all its events should have met. When one more event, after a run with both, keeps `P` exactly if
it meets what `Q` asks, then `P` holds all along a run exactly if `Q` holds at its end
(`always_iff`). Where `Q` asks one thing of each event and the run before it, it is an `Each`
(`always_iff_each`). What comes to hold in a run first holds after some event of it (`exists_first`).
-/

namespace Runs

variable {E : Type} {P Q : List E → Prop}

theorem forall_prefix_concat (early : List E) (event : E) :
    (∀ run, run <+: early ++ [event] → P run) ↔
      (∀ run, run <+: early → P run) ∧ P (early ++ [event]) := by
  constructor
  · intro h
    exact ⟨fun run hrun => h run (hrun.trans (List.prefix_append _ _)), h _ List.prefix_rfl⟩
  · rintro ⟨hearly, hlast⟩ run hrun
    rcases List.prefix_concat_iff.1 hrun with rfl | hrun
    · exact hlast
    · exact hearly run hrun

/-- What does not hold at the start and holds after a run began to hold at one of its events. -/
theorem exists_first {events : List E} (hstart : ¬ P []) (h : P events) :
    ∃ early event, early ++ [event] <+: events ∧ ¬ P early ∧ P (early ++ [event]) := by
  induction events using List.reverseRecOn with
  | nil => exact (hstart h).elim
  | append_singleton early event ih =>
    by_cases hearly : P early
    · obtain ⟨run, first, hrun, hfirst⟩ := ih hearly
      exact ⟨run, first, hrun.trans (List.prefix_append _ _), hfirst⟩
    · exact ⟨early, event, List.prefix_rfl, hearly, h⟩

theorem always_iff {events : List E} (hstart : P [] ∧ Q [])
    (hearlier : ∀ early event, early ++ [event] <+: events → Q (early ++ [event]) → Q early)
    (hstep : ∀ early event, early ++ [event] <+: events → P early → Q early →
      (P (early ++ [event]) ↔ Q (early ++ [event]))) :
    (∀ run, run <+: events → P run) ↔ Q events := by
  induction events using List.reverseRecOn with
  | nil =>
    constructor
    · intro _
      exact hstart.2
    · intro _ run hrun
      rw [List.prefix_nil.1 hrun]
      exact hstart.1
  | append_singleton early event ih =>
    have hprefix : early <+: early ++ [event] := List.prefix_append _ _
    have hih := ih (fun run e hrun => hearlier run e (hrun.trans hprefix))
      fun run e hrun => hstep run e (hrun.trans hprefix)
    rw [forall_prefix_concat, hih]
    constructor
    · rintro ⟨hQ, hP⟩
      exact (hstep early event List.prefix_rfl (hih.2 hQ early List.prefix_rfl) hQ).1 hP
    · intro hQ
      have hearly := hearlier early event List.prefix_rfl hQ
      exact ⟨hearly, (hstep early event List.prefix_rfl (hih.2 hearly early List.prefix_rfl) hearly).2 hQ⟩

/-- Every event meets `C` with the events before it. -/
def Each (C : List E → E → Prop) (events : List E) : Prop :=
  ∀ early event, early ++ [event] <+: events → C early event

section
variable {C : List E → E → Prop}

theorem each_nil : Each C [] := by
  intro early event h
  simp at h

theorem Each.begins {run events : List E} (h : Each C events) (hrun : run <+: events) : Each C run :=
  fun early event hevent => h early event (hevent.trans hrun)

theorem each_concat {run : List E} {event : E} : Each C (run ++ [event]) ↔ Each C run ∧ C run event := by
  constructor
  · intro h
    exact ⟨h.begins (List.prefix_append _ _), h run event List.prefix_rfl⟩
  · rintro ⟨hrun, hevent⟩ early next hnext
    rcases List.prefix_concat_iff.1 hnext with heq | hnext
    · obtain ⟨rfl, hlast⟩ := List.append_inj' heq rfl
      obtain rfl := List.singleton_inj.1 hlast
      exact hevent
    · exact hrun early next hnext

/-- Where the events before do not matter. -/
theorem each_const {D : E → Prop} {events : List E} : Each (fun _ => D) events ↔ ∀ event ∈ events, D event := by
  constructor
  · intro h event hevent
    obtain ⟨early, late, rfl⟩ := List.append_of_mem hevent
    exact h early event ⟨late, by simp⟩
  · intro h early event hevent
    exact h event (hevent.subset (by simp))

theorem each_iff_getElem {events : List E} :
    Each C events ↔ ∀ i : Fin events.length, C (events.take i) events[i] := by
  constructor
  · intro h i
    refine h _ _ ?_
    rw [Fin.getElem_fin, List.take_append_getElem]
    exact List.take_prefix _ _
  · intro h early event hevent
    have hlen : early.length < events.length := by
      have := hevent.length_le
      rw [List.length_append, List.length_singleton] at this
      omega
    have htake : events.take early.length = early :=
      (List.prefix_iff_eq_take.1 ((List.prefix_append _ _).trans hevent)).symm
    have hget : events[early.length] = event := by
      rw [← hevent.getElem (by simp)]
      simp
    have hi := h ⟨early.length, hlen⟩
    rwa [Fin.getElem_fin, htake, hget] at hi

instance [∀ early event, Decidable (C early event)] (events : List E) : Decidable (Each C events) :=
  decidable_of_iff _ each_iff_getElem.symm

theorem always_iff_each {events : List E} (hstart : P [])
    (hstep : ∀ early event, early ++ [event] <+: events → P early →
      (P (early ++ [event]) ↔ C early event)) :
    (∀ run, run <+: events → P run) ↔ Each C events := by
  refine always_iff ⟨hstart, each_nil⟩ (fun early event _ h => (each_concat.1 h).1) ?_
  intro early event hevent hP hearly
  rw [hstep early event hevent hP, each_concat]
  exact ⟨fun h => ⟨hearly, h⟩, fun h => h.2⟩

end

end Runs
