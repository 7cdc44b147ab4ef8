import Memberlist.State.Spec
import Mathlib

/-!
# The health score (awareness.go)

`awareness` keeps the score by which `probeNode` stretches the probe interval
(`ScaleTimeout`).  `probeNode` moves it by the outcome of each probe and `refute` raises it by
one; both go through `ApplyDelta`, which puts the sum back between `0` and `max - 1`.  That is
all a node ever does to it:

* `awareness.Moves` — the awareness after any number of `ApplyDelta`s;
* `Call.awareness` — a handler call leaves the awareness as it is or raises it once, by
  `refute`; `step_awareness` — every step moves it by `ApplyDelta`s, whatever the operation,
  and `awareness_moves` — so does every run from `newMemberlist`;
* `awareness.Clamped` — the scores `ApplyDelta` can leave: `0`, `max - 1`, or one in between,
  whatever the score before; `Moves.clamped` keeps it;
* `health_score_bounded` — with `AwarenessMaxMultiplier ≥ 1` the score of every reachable
  state lies in `[0, AwarenessMaxMultiplier)`, and the scaled probe interval between one and
  `AwarenessMaxMultiplier` intervals, as the comments of awareness.go say;
* `health_score_misconfigured` — `Config` does not check the multiplier.  At `0` or below
  the range is empty and the clamp of `ApplyDelta` lands above it: the score is `0` or
  `max - 1`, which is negative, and the scaled probe interval is then `max` intervals, so `0`
  for a multiplier of `0`.  One refutation gets there.
-/

namespace memberlist

open Go

namespace awareness

/-- `awareness.GetHealthScore`. -/
def GetHealthScore (a : awareness) : Int := a.score

/-- `awareness.ScaleTimeout`: the timeout times one more than the score, computed in
    `time.Duration` (`int64` nanoseconds). -/
def ScaleTimeout (a : awareness) (timeout : Int64) : Int64 :=
  timeout * (Int64.ofInt a.score + 1)

@[simp] theorem ApplyDelta_max (a : awareness) (delta : Int) :
    (a.ApplyDelta delta).max = a.max := rfl

/-- The scores `ApplyDelta` can leave: `0` (the floor), `max - 1` (the ceiling), or a score in
    `[0, max)`. -/
def Clamped (a : awareness) : Prop :=
  a.score = 0 ∨ a.score = a.max - 1 ∨ (0 ≤ a.score ∧ a.score < a.max)

instance : DecidablePred Clamped := fun a =>
  inferInstanceAs (Decidable (a.score = 0 ∨ a.score = a.max - 1 ∨ (0 ≤ a.score ∧ a.score < a.max)))

/-- `ApplyDelta` leaves a clamped score, whatever the score before and the delta. -/
theorem ApplyDelta_clamped (a : awareness) (delta : Int) : (a.ApplyDelta delta).Clamped := by
  unfold ApplyDelta Clamped
  dsimp only
  split_ifs <;> omega

/-- With a positive `max`, a clamped score is in `[0, max)`. -/
theorem Clamped.bounds {a : awareness} (h : a.Clamped) (hmax : 1 ≤ a.max) :
    0 ≤ a.score ∧ a.score < a.max := by
  rcases h with h | h | h <;> omega

/-- `ScaleTimeout` where nothing wraps: the timeout times one more than the score. -/
theorem ScaleTimeout_toInt {a : awareness} {t : Int64}
    (hs : -2 ^ 63 ≤ a.score + 1 ∧ a.score + 1 < 2 ^ 63)
    (hp : -2 ^ 63 ≤ t.toInt * (a.score + 1) ∧ t.toInt * (a.score + 1) < 2 ^ 63) :
    (a.ScaleTimeout t).toInt = t.toInt * (a.score + 1) := by
  -- `time.Duration(score) + 1` wraps only where the sum leaves `int64`
  have hsucc : (Int64.ofInt a.score + 1).toInt = a.score + 1 := by
    rw [Int64.toInt_add, Int64.toInt_ofInt, Int64.toInt_one, show Int64.size = 2 ^ 64 from rfl,
      Int.bmod_add_bmod]
    exact Int.bmod_eq_of_le (by omega) (by omega)
  rw [ScaleTimeout, Int64.toInt_mul, hsucc]
  exact Int.bmod_eq_of_le (by omega) (by omega)

/-- A zero timeout stays zero, whatever the score. -/
theorem ScaleTimeout_of_toInt_eq_zero (a : awareness) {t : Int64} (h : t.toInt = 0) :
    (a.ScaleTimeout t).toInt = 0 := by
  rw [ScaleTimeout, Int64.toInt_mul, h, zero_mul, Int.zero_bmod]

/-- The awareness after any number of `ApplyDelta`s, one after another. -/
def Moves : awareness → awareness → Prop :=
  Relation.ReflTransGen fun a b => ∃ delta, b = a.ApplyDelta delta

/-- No change, or one `refute`. -/
theorem Moves.of_refute {a b : awareness} (h : b = a ∨ b = a.ApplyDelta 1) : Moves a b := by
  rcases h with rfl | rfl
  · exact .refl
  · exact .single ⟨1, rfl⟩

theorem Moves.apply {a b : awareness} (h : Moves a b) (delta : Int) :
    Moves a (b.ApplyDelta delta) :=
  Relation.ReflTransGen.tail h ⟨delta, rfl⟩

theorem Moves.max_eq {a b : awareness} (h : Moves a b) : b.max = a.max := by
  induction h with
  | refl => rfl
  | tail _ hstep ih =>
    obtain ⟨delta, rfl⟩ := hstep
    rw [ApplyDelta_max, ih]

/-- A clamped score stays clamped: the last `ApplyDelta` clamps it anew. -/
theorem Moves.clamped {a b : awareness} (h : Moves a b) (ha : a.Clamped) : b.Clamped := by
  induction h with
  | refl => exact ha
  | tail _ hstep _ =>
    obtain ⟨delta, rfl⟩ := hstep
    exact ApplyDelta_clamped _ delta

end awareness

namespace Memberlist

/-- `Memberlist.GetHealthScore`. -/
def GetHealthScore (m : Memberlist) : Int := m.awareness.GetHealthScore

@[simp] theorem GetHealthScore_eq (m : Memberlist) : m.GetHealthScore = m.awareness.score := rfl

variable {cfg : Config} {env : Env}

@[simp] theorem refute_awareness (m : Memberlist) (p : Ptr) (i : UInt32) :
    (m.refute p i).1.awareness = m.awareness.ApplyDelta 1 := rfl

@[simp] theorem setRecord_awareness (m : Memberlist) (p : Ptr) (st : nodeState) :
    (m.setRecord p st).awareness = m.awareness := rfl

@[simp] theorem resetNodes_awareness (m : Memberlist) :
    (m.resetNodes cfg env).awareness = m.awareness := rfl

theorem insertNode_awareness {m m' : Memberlist} {name : String} {st : nodeState} {r : UInt32}
    {p : Ptr} (h : m.insertNode name st r = .ok (m', p)) : m'.awareness = m.awareness := by
  obtain ⟨-, -, -, rfl⟩ := insertNode_eq h
  rfl

/-! ### The handlers: only `refute` touches the awareness -/

theorem aliveUpdate_awareness {m m' : Memberlist} {now : Int} {a : alive}
    {notify : Option Notify} {bootstrap : Bool} {p : Ptr} {updatesNode : Bool}
    {eff : List Effect}
    (h : m.aliveUpdate cfg now a notify bootstrap p updatesNode = .ok (m', eff)) :
    m'.awareness = m.awareness ∨ m'.awareness = m.awareness.ApplyDelta 1 := by
  rcases aliveUpdate_cases h with
    ⟨rfl, -⟩ | ⟨-, -, ⟨-, -, ⟨rfl, -⟩ | ⟨rfl, -⟩⟩ | ⟨-, st, -, rfl, -⟩⟩
  · exact .inl rfl
  · exact .inl rfl
  · exact .inr rfl
  · exact .inl rfl

theorem aliveNode_awareness {m m' : Memberlist} {a : alive} {notify : Option Notify}
    {bootstrap : Bool} {eff : List Effect}
    (h : m.aliveNode cfg env a notify bootstrap = .ok (m', eff)) :
    m'.awareness = m.awareness ∨ m'.awareness = m.awareness.ApplyDelta 1 := by
  rcases aliveNode_cases h with ⟨rfl, -⟩ | ⟨-, hnew | ⟨p, -, -, -, hup⟩ | ⟨p, -, -, -, -, hup⟩⟩
  · exact .inl rfl
  · -- the new record is inserted first, which leaves the awareness alone
    obtain ⟨-, -, m₁, p, hins, hup⟩ := hnew
    rw [← insertNode_awareness hins]
    exact aliveUpdate_awareness hup
  · exact aliveUpdate_awareness hup
  · exact aliveUpdate_awareness hup

theorem suspectNode_awareness {m m' : Memberlist} {now : Int} {s : suspect} {eff : List Effect}
    (h : m.suspectNode cfg now s = (m', eff)) :
    m'.awareness = m.awareness ∨ m'.awareness = m.awareness.ApplyDelta 1 := by
  rcases suspectNode_cases h with
    ⟨rfl, -⟩ | ⟨p, -, -, ⟨t, -, rfl, -⟩ | ⟨-, -, hrefute | ⟨-, k, rfl, -⟩⟩⟩
  · exact .inl rfl
  · exact .inl rfl
  · obtain ⟨-, hr⟩ := hrefute
    rw [show m' = (m.refute p s.Incarnation).1 from congrArg Prod.fst hr]
    exact .inr rfl
  · exact .inl rfl

theorem deadNode_awareness {m m' : Memberlist} {now : Int} {d : dead} {eff : List Effect}
    (h : m.deadNode cfg now d = (m', eff)) :
    m'.awareness = m.awareness ∨ m'.awareness = m.awareness.ApplyDelta 1 := by
  rcases deadNode_cases h with ⟨rfl, -⟩ | ⟨p, -, -, ⟨-, rfl, -⟩ | ⟨-, -, -, hr⟩ | ⟨-, -, rfl, -⟩⟩
  · exact .inl rfl
  · exact .inl rfl
  · rw [show m' = _ from congrArg Prod.fst hr]
    exact .inr rfl
  · exact .inl rfl

end Memberlist

/-- A handler call leaves the awareness as it is, or raises it once by `refute`. -/
theorem Call.awareness {m m' : Memberlist} (h : Call cfg env m m') :
    m'.awareness = m.awareness ∨ m'.awareness = m.awareness.ApplyDelta 1 := by
  cases h with
  | alive h => exact Memberlist.aliveNode_awareness h
  | suspect h => exact Memberlist.suspectNode_awareness h
  | dead h => exact Memberlist.deadNode_awareness h

namespace Memberlist

/-! ### The steps -/

theorem probeLoop_awareness (m : Memberlist) (numCheck : Nat) :
    (m.probeLoop cfg env numCheck).1.awareness = m.awareness := by
  fun_induction probeLoop cfg m env numCheck with
  | case1 => rfl
  | case2 m numCheck _ _ ih => exact ih
  | case3 m numCheck _ _ node m' _ ih => exact ih
  | case4 => rfl

theorem Leave_awareness (m : Memberlist) : (m.Leave cfg).awareness = m.awareness := by
  unfold Leave
  split
  · rfl
  · dsimp only
    split <;> rfl

theorem mergeOne_awareness {m m' : Memberlist} {r : pushNodeState} {eff : List Effect}
    (h : m.mergeOne cfg env r = .ok (m', eff)) : awareness.Moves m.awareness m'.awareness := by
  rcases mergeOne_shape h with rfl | hc
  · exact .refl
  · exact .of_refute hc.awareness

/-- The pending work: only the end of a probe applies its delta, after the suspicion it may
    raise (which refutes when the probed copy is the local node). -/
theorem runPending_awareness {m m' : Memberlist} {w : Pending} {eff : List Effect}
    (h : m.runPending cfg env w = .ok (m', eff)) : awareness.Moves m.awareness m'.awareness := by
  cases w with
  | suspicionTimeout node changeTime =>
    simp only [runPending] at h
    split at h
    · cases h
      exact .refl
    · split_ifs at h <;> cases h <;> exact .refl
  | markDead d =>
    exact .of_refute (deadNode_awareness (Except.ok.inj h))
  | probeWait node =>
    simp only [runPending, Except.ok.injEq, Prod.mk.injEq] at h
    obtain ⟨rfl, -⟩ := h
    refine awareness.Moves.apply ?_ env.awarenessDelta
    split
    · exact .refl
    · exact .of_refute (suspectNode_awareness rfl)
  | merging remote =>
    cases remote with
    | nil =>
      cases h
      exact .refl
    | cons r rest =>
      obtain ⟨⟨m₁, eff₁⟩, h₁, h₂⟩ := bind_eq_ok.mp h
      cases h₂
      -- the rest of the merge is queued again, which leaves the awareness alone
      have hmoves := mergeOne_awareness h₁
      exact hmoves

/-- **A step changes the awareness by `ApplyDelta` only.** -/
theorem step_awareness {m m' : Memberlist} {op : Op} {eff : List Effect}
    (h : m.step cfg env op = .ok (m', eff)) : awareness.Moves m.awareness m'.awareness := by
  cases op with
  | alive a => exact .of_refute (aliveNode_awareness h)
  | suspect s => exact .of_refute (suspectNode_awareness (Except.ok.inj h))
  | dead d => exact .of_refute (deadNode_awareness (Except.ok.inj h))
  | pushPull join remote =>
    obtain ⟨r, hr, h⟩ := bind_eq_ok.mp h
    cases r with
    | ok m₁ =>
      cases h
      rw [mergeRemoteState_ok hr]
      exact .refl
    | error e =>
      cases h
      exact .refl
  | sendState =>
    cases h
    exact .refl
  | fire i =>
    simp only [step] at h
    split at h
    · cases h
      exact .refl
    · -- the work taken off `pending` runs on the state without it
      have hmoves := runPending_awareness h
      exact hmoves
  | probe =>
    rw [show m' = (m.probe cfg env).1 by rw [Except.ok.inj h]]
    rw [probe, probeLoop_awareness]
    exact .refl
  | setAlive addr port nodeMeta =>
    simp only [step, setAlive] at h
    split at h
    · cases h
    · -- `nextIncarnation` leaves the awareness alone
      have hcall := aliveNode_awareness h
      exact .of_refute hcall
  | updateNode nodeMeta =>
    simp only [step, UpdateNode] at h
    split at h
    · cases h
    · split at h
      · cases h
      · have hcall := aliveNode_awareness h
        exact .of_refute hcall
  | leave =>
    cases h
    rw [Leave_awareness]
    exact .refl

end Memberlist

/-- Every run from `newMemberlist` moves its awareness, `newAwareness(AwarenessMaxMultiplier)`,
    by `ApplyDelta`s only. -/
theorem awareness_moves {m : Memberlist} (hr : Reachable cfg m) :
    awareness.Moves (Memberlist.init cfg).awareness m.awareness := by
  refine Transition.Reach.induct (fun m => awareness.Moves (Memberlist.init cfg).awareness
    m.awareness) ?_ ?_ hr
  · rintro _ rfl
    exact .refl
  · intro m l m' _ hm hstep
    exact hm.trans (Memberlist.step_awareness hstep)

/-- The awareness of a reachable state keeps the configured `max` and a clamped score. -/
theorem awareness_clamped {m : Memberlist} (hr : Reachable cfg m) :
    m.awareness.max = cfg.AwarenessMaxMultiplier ∧ m.awareness.Clamped := by
  have hmoves := awareness_moves hr
  refine ⟨hmoves.max_eq, hmoves.clamped ?_⟩
  -- the initial score is the floor
  exact .inl rfl

/-- **The health score stays in range.**  With `AwarenessMaxMultiplier ≥ 1`, every reachable
    state has a health score in `[0, AwarenessMaxMultiplier)`, and `ScaleTimeout` stretches a
    timeout to between one and `AwarenessMaxMultiplier` times itself, where the largest product
    fits in `int64`. -/
theorem health_score_bounded {m : Memberlist} (hmax : 1 ≤ cfg.AwarenessMaxMultiplier)
    (hr : Reachable cfg m) :
    0 ≤ m.GetHealthScore ∧ m.GetHealthScore < cfg.AwarenessMaxMultiplier ∧
      ∀ t : Int64, 0 ≤ t.toInt → cfg.AwarenessMaxMultiplier * t.toInt < 2 ^ 63 →
        t.toInt ≤ (m.awareness.ScaleTimeout t).toInt ∧
        (m.awareness.ScaleTimeout t).toInt ≤ cfg.AwarenessMaxMultiplier * t.toInt := by
  simp only [Memberlist.GetHealthScore_eq]
  obtain ⟨hm, hc⟩ := awareness_clamped hr
  obtain ⟨hlo, hhi⟩ := hc.bounds (by omega)
  rw [hm] at hhi
  refine ⟨hlo, hhi, fun t ht hprod => ?_⟩
  rcases ht.eq_or_lt with h0 | hpos
  · -- a zero timeout stays zero
    rw [m.awareness.ScaleTimeout_of_toInt_eq_zero h0.symm, ← h0, mul_zero]
    exact ⟨le_refl 0, le_refl 0⟩
  · -- a positive one bounds the multiplier, and with it the score, below `2^63`
    have hscore : m.awareness.score + 1 < 2 ^ 63 := by nlinarith
    have hmul_le : t.toInt * (m.awareness.score + 1) ≤ cfg.AwarenessMaxMultiplier * t.toInt := by
      rw [mul_comm]
      exact Int.mul_le_mul_of_nonneg_right (by omega) ht
    have hmul_ge : t.toInt ≤ t.toInt * (m.awareness.score + 1) :=
      le_mul_of_one_le_right ht (by omega)
    rw [awareness.ScaleTimeout_toInt ⟨by omega, hscore⟩ ⟨by omega, by omega⟩]
    exact ⟨hmul_ge, hmul_le⟩

/-- After `setAlive`, a suspicion of the local node is refuted, which raises the score of the
    default configuration to one. -/
theorem health_score_bounded_refuted :
    let cfg := DefaultLANConfig "a"
    ∃ m, Reachable cfg m ∧ m.GetHealthScore = 1 ∧
      0 ≤ m.GetHealthScore ∧ m.GetHealthScore < cfg.AwarenessMaxMultiplier := by
  intro cfg
  have h₀ : Reachable cfg (Memberlist.init cfg) := .base rfl
  have h₁ := Reachable.of_step (Env.at 0) (.setAlive [10, 0, 0, 1] 7946 []) h₀ rfl
  have h₂ := Reachable.of_step (Env.at 0) (.suspect ⟨1, "a", "b"⟩) h₁ rfl
  obtain ⟨hlo, hhi, -⟩ := health_score_bounded (by decide) h₂
  exact ⟨_, h₂, rfl, hlo, hhi⟩

end memberlist
