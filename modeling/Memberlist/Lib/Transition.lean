import Mathlib

/-!
# Labelled transition systems: reachability, runs and invariants

A system is a step relation `step : σ → α → σ → Prop` on states `σ` with labels `α`, and a
set of initial states.  This module holds the rules the safety proofs of a system use:

* `Reach step init` — the states some run from an initial state ends in;
* `Steps step s as s'` — a run from `s` through the labels `as` to `s'`;
* `Reach.induct` — an invariant that holds initially and is kept by every step holds of every
  reachable state; `Reach.steps` — so does the end of a run from one;
* `Steps.stable` — a property every step keeps holds all along a run;
* `Steps.backward` — a property no step *creates* (if it holds after a step it held before)
  and that holds at the end of a run held at its start;
* `Reach.exists_steps_of_variant` — a variant that some step lowers wherever it is positive
  reaches zero along a run of at most its value.
-/

namespace Transition

variable {σ α : Type} (step : σ → α → σ → Prop)

/-- The states reachable from a state satisfying `init`. -/
inductive Reach (init : σ → Prop) : σ → Prop
  | base {s : σ} : init s → Reach init s
  | step {s s' : σ} {a : α} : Reach init s → step s a s' → Reach init s'

/-- A run from `s` through the labels `as` to `s'`. -/
inductive Steps : σ → List α → σ → Prop
  | nil (s : σ) : Steps s [] s
  | cons {s s' s'' : σ} {a : α} {as : List α} : step s a s' → Steps s' as s'' → Steps s (a :: as) s''

/-- A property that every step keeps. -/
def Stable (P : σ → Prop) : Prop := ∀ s a s', P s → step s a s' → P s'

variable {step}

/-- The end of a run from a reachable state is reachable. -/
theorem Reach.steps {init : σ → Prop} {s s' : σ} {as : List α} (hs : Reach step init s)
    (h : Steps step s as s') : Reach step init s' := by
  induction h with
  | nil => exact hs
  | cons hstep _ ih => exact ih (hs.step hstep)

/-- **The invariant rule.** -/
theorem Reach.induct {init : σ → Prop} (P : σ → Prop) (h₀ : ∀ s, init s → P s)
    (hstep : ∀ s a s', Reach step init s → P s → step s a s' → P s') {s : σ}
    (h : Reach step init s) : P s := by
  induction h with
  | base hi => exact h₀ _ hi
  | step hr hs ih => exact hstep _ _ _ hr ih hs

/-- A property every step keeps holds at the end of a run that starts in it. -/
theorem Steps.stable {P : σ → Prop} (hP : Stable step P) {s s' : σ} {as : List α}
    (h : Steps step s as s') (hs : P s) : P s' := by
  induction h with
  | nil => exact hs
  | cons hstep _ ih => exact ih (hP _ _ _ hs hstep)

/-- A property that no step with a label in `G` creates, and that holds at the end of a run
    through labels in `G`, held at its start. -/
theorem Steps.backward {G : α → Prop} {P : σ → Prop}
    (hP : ∀ s a s', G a → step s a s' → P s' → P s) {s s' : σ} {as : List α}
    (hG : ∀ a ∈ as, G a) (h : Steps step s as s') (hend : P s') : P s := by
  induction h with
  | nil => exact hend
  | cons hstep _ ih =>
    have hhead := hG _ List.mem_cons_self
    exact hP _ _ _ hhead hstep (ih (fun b hb => hG b (List.mem_cons_of_mem _ hb)) hend)

/-- **The variant rule.**  If from every reachable state where `V` is positive a step with a
    label in `G` lowers it, then from every reachable state a run through labels in `G`, of
    at most `V s` steps, ends where `V` is zero. -/
theorem Reach.exists_steps_of_variant {init : σ → Prop} {G : α → Prop} (V : σ → Nat)
    (hprog : ∀ s, Reach step init s → 0 < V s → ∃ a s', G a ∧ step s a s' ∧ V s' < V s)
    {s : σ} (hs : Reach step init s) :
    ∃ as s', as.length ≤ V s ∧ (∀ a ∈ as, G a) ∧ Steps step s as s' ∧ V s' = 0 := by
  -- strong induction on the variant, along the run it builds
  induction hV : V s using Nat.strong_induction_on generalizing s with
  | _ n ih =>
    rcases Nat.eq_zero_or_pos n with h0 | hpos
    · exact ⟨[], s, by simp, by simp, .nil s, hV.trans h0⟩
    · obtain ⟨a, s₁, hG, hstep, hlt⟩ := hprog s hs (hV ▸ hpos)
      obtain ⟨as, s', hlen, hGs, hrun, h0⟩ := ih (V s₁) (hV ▸ hlt) (hs.step hstep) rfl
      refine ⟨a :: as, s', ?_, ?_, .cons hstep hrun, h0⟩
      · simp only [List.length_cons]
        omega
      · intro b hb
        rcases List.mem_cons.mp hb with rfl | hb
        · exact hG
        · exact hGs b hb

end Transition
