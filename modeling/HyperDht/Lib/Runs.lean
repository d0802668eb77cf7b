import Mathlib.Data.List.Induction

/-!
# Runs that are good exactly when their steps are

A machine with an invariant that a step keeps if it meets a condition, and with a property
of states that the invariant gives and that a step not meeting the condition breaks. Then
the runs with the property in every state are those whose steps all meet the condition.
-/

namespace HyperDht

variable {σ ε : Type} {step : σ → ε → σ} {I Good : σ → Prop} {Meets : σ → ε → Prop} {s : σ}

/-- Every step of a run meets the condition in the state before it. -/
def AllMeet (step : σ → ε → σ) (Meets : σ → ε → Prop) (s : σ) (events : List ε) : Prop :=
  ∀ done e, done ++ [e] <+: events → Meets (done.foldl step s) e

/-- The property holds in every state of a run, the first and the last included. -/
def AllGood (step : σ → ε → σ) (Good : σ → Prop) (s : σ) (events : List ε) : Prop :=
  ∀ done, done <+: events → Good (done.foldl step s)

theorem AllMeet.cons {e : ε} {events : List ε} (he : Meets s e)
    (h : AllMeet step Meets (step s e) events) : AllMeet step Meets s (e :: events) := by
  intro done e' hprefix
  cases done with
  | nil =>
    obtain rfl : e' = e := by simpa using hprefix
    exact he
  | cons a done =>
    obtain ⟨rfl, hrest⟩ := List.cons_prefix_cons.mp hprefix
    exact h done e' hrest

theorem allMeet_nil : AllMeet step Meets s [] :=
  fun _ _ hprefix => absurd (List.prefix_nil.mp hprefix) (by simp)

theorem allMeet_cons {e : ε} {events : List ε} :
    AllMeet step Meets s (e :: events) ↔ Meets s e ∧ AllMeet step Meets (step s e) events :=
  ⟨fun h => ⟨h [] e (List.cons_prefix_cons.mpr ⟨rfl, List.nil_prefix⟩), fun done e' hprefix =>
    h (e :: done) e' (List.cons_prefix_cons.mpr ⟨rfl, hprefix⟩)⟩, fun h => h.2.cons h.1⟩

instance AllMeet.decidable (step : σ → ε → σ) (Meets : σ → ε → Prop) [∀ s e, Decidable (Meets s e)] :
    ∀ s events, Decidable (AllMeet step Meets s events)
  | _, [] => isTrue allMeet_nil
  | s, e :: events =>
    haveI := AllMeet.decidable step Meets (step s e) events
    decidable_of_iff (Meets s e ∧ AllMeet step Meets (step s e) events) allMeet_cons.symm

theorem AllMeet.inv (hinit : I s) (hkeep : ∀ s e, I s → Meets s e → I (step s e))
    {events : List ε} (hall : AllMeet step Meets s events) : I (events.foldl step s) := by
  induction events using List.reverseRecOn with
  | nil => exact hinit
  | append_singleton events e ih =>
    have hev := ih fun done e' h => hall done e' (h.trans (List.prefix_append _ _))
    rw [List.foldl_append]
    exact hkeep _ _ hev (hall events e (List.prefix_refl _))

theorem allGood_iff_allMeet (hinit : I s)
    (hkeep : ∀ s e, I s → Meets s e → I (step s e)) (hgood : ∀ s, I s → Good s)
    (hbad : ∀ s e, I s → ¬ Meets s e → ¬ Good (step s e)) (events : List ε) :
    AllGood step Good s events ↔ AllMeet step Meets s events := by
  constructor
  · intro hall
    induction events using List.reverseRecOn with
    | nil => exact fun done e h => absurd (List.prefix_nil.mp h) (by simp)
    | append_singleton events e ih =>
      have hmeet := ih fun done h => hall done (h.trans (List.prefix_append _ _))
      intro done e' h
      rcases List.prefix_concat_iff.mp h with heq | h
      · obtain ⟨rfl, rfl⟩ := List.append_singleton_inj.mp heq
        by_contra hnot
        refine hbad _ _ (hmeet.inv hinit hkeep) hnot ?_
        have := hall _ (List.prefix_refl _)
        rwa [List.foldl_append] at this
      · exact hmeet done e' h
  · intro hall done h
    exact hgood _ (AllMeet.inv hinit hkeep fun d e hd => hall d e (hd.trans h))

end HyperDht
