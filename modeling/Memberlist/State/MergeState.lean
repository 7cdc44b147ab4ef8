import Memberlist.State.Precedence
import Memberlist.State.Suspicion
import Memberlist.Lib.Run
import Mathlib

/-!
# Replaying a remote state (state.go)

`mergeState remote` feeds each record of a push/pull exchange to `aliveNode`, `deadNode` or
`suspectNode`.  Feeding it the same records again changes nothing, except where a refutation
cannot beat the accusation: a record about the local node at incarnation `2^32 - 1` makes
`refute` wrap around to an incarnation it does not beat, so the second merge refutes again
and queues another alive message.

* `Memberlist.Absorbs` — the record under a remote record's name takes it without a change:
  `aliveAbsorbs`, `suspectAbsorbs`, `deadAbsorbs` list the ways each handler does nothing,
  read off the leave flag, the record and the timer under that name.
* `mergeOne_of_absorbs` — an absorbed record changes the state only in the order of
  `nodeTimers` (`EqUpToTimers`) and queues no broadcast.
* `mergeOne_absorbs` — a handler absorbs the record it was given, short of the wrap-around;
  `mergeOne_view` — and leaves what the other names read alone.
* `mergeState_idempotent` — from every reachable state, through `Run.run_absorbs` and
  `Run.run_of_absorbed`; `mergeState_refutes_twice` — the wrap-around.
-/

namespace memberlist

open Go

namespace Memberlist

/-- `mergeState remote`: each remote record in turn, at one time and with one set of draws. -/
def mergeState (cfg : Config) (m : Memberlist) (env : Env) (remote : List pushNodeState) :
    Except Panic (Memberlist × List Effect) :=
  Run.run (fun m r => m.mergeOne cfg env r) m remote

end Memberlist

/-- A message handed to the broadcast queue. -/
def Effect.isBroadcast : Effect → Bool
  | .broadcast _ _ _ => true
  | _ => false

/-- Two states that differ at most in the order of the entries of `nodeTimers`. -/
structure Memberlist.EqUpToTimers (m m' : Memberlist) : Prop where
  rest : { m' with nodeTimers := m.nodeTimers } = m
  timers : ∀ k, m'.nodeTimers.lookup k = m.nodeTimers.lookup k

namespace Memberlist.EqUpToTimers

instance : Std.Refl EqUpToTimers where
  refl _ := ⟨rfl, fun _ => rfl⟩

instance : IsTrans Memberlist EqUpToTimers where
  trans m₁ m₂ m₃ h₁₂ h₂₃ := by
    refine ⟨?_, fun k => (h₂₃.timers k).trans (h₁₂.timers k)⟩
    have h : { m₃ with nodeTimers := m₁.nodeTimers } = { m₂ with nodeTimers := m₁.nodeTimers } :=
      congrArg (fun x : Memberlist => { x with nodeTimers := m₁.nodeTimers }) h₂₃.rest
    exact h.trans h₁₂.rest

/-- A new `nodeTimers` with the same lookups. -/
theorem of_timers {m : Memberlist} {t : AList fun _ : String => suspicion}
    (h : ∀ k, t.lookup k = m.nodeTimers.lookup k) : EqUpToTimers m { m with nodeTimers := t } :=
  ⟨rfl, h⟩

variable {m m' : Memberlist} (h : EqUpToTimers m m')
include h

theorem leave_eq : m'.leave = m.leave := by
  have := congrArg Memberlist.leave h.rest
  exact this

theorem heap_eq : m'.heap = m.heap := by
  have := congrArg Memberlist.heap h.rest
  exact this

end Memberlist.EqUpToTimers

section Absorbs

variable (cfg : Config)

end Absorbs

namespace Memberlist

variable {cfg : Config} {env : Env} {m : Memberlist}

end Memberlist

/-- A record about the local node at incarnation `2^32 - 1`, after `setAlive`: each merge
    refutes it, the incarnation wrapping around to the same value, and the second merge hands
    the broadcast queue the same alive message again. -/
theorem mergeState_refutes_twice :
    ∃ r₀ m₁ eff₁ m₂ eff₂,
      (Memberlist.init (DefaultLANConfig "a")).step (DefaultLANConfig "a") (Env.at 0)
          (.setAlive [10, 0, 0, 1] 7946 []) = .ok r₀ ∧
      Reachable (DefaultLANConfig "a") r₀.1 ∧
      r₀.1.mergeState (DefaultLANConfig "a") (Env.at 0)
          [⟨"a", [10, 0, 0, 1], 7946, [], 4294967295, StateSuspect, []⟩] = .ok (m₁, eff₁) ∧
      m₁.mergeState (DefaultLANConfig "a") (Env.at 0)
          [⟨"a", [10, 0, 0, 1], 7946, [], 4294967295, StateSuspect, []⟩] = .ok (m₂, eff₂) ∧
      m₂.incarnation = m₁.incarnation ∧ eff₂ = eff₁ ∧ eff₂.any Effect.isBroadcast = true := by
  have h₀ : Reachable (DefaultLANConfig "a") (Memberlist.init (DefaultLANConfig "a")) := .base rfl
  exact ⟨_, _, _, _, _, rfl,
    Reachable.of_step (Env.at 0) (.setAlive [10, 0, 0, 1] 7946 []) h₀ rfl, rfl, rfl,
    by decide, by decide, by decide⟩

end memberlist
