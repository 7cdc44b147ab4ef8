import Memberlist.State.Frame
import Memberlist.State.Probe

/-!
# The local node never accepts its own failure

`LocalAlive cfg m`: `nodeMap[config.Name]` exists, is in `nodes`, and is Alive.  Each handler
treats a message about the local node by refuting it, and `resetNodes` reaps only Dead or Left
records, so once the local record is registered Alive it stays so as long as the node has not
left (`localAlive_admin`, `localAlive_call`).  After `Leave`, alive messages about the local node
are ignored, so a local record that is no longer Alive never becomes Alive again
(`localLeft_admin`, `localLeft_call`).

`setAlive` need not register the local node: it goes through `aliveNode` like any alive
message, which drops it when `CIDRsAllowed` excludes the advertised address
(`setAlive_outside_CIDRsAllowed`).  `local_node_alive_until_leave` therefore starts from a
state where the local node is registered Alive.
-/

namespace memberlist

open Go

/-- `nodeMap[config.Name]` exists, is in `nodes`, and is Alive. -/
def LocalAlive (cfg : Config) (m : Memberlist) : Prop :=
  ∃ p, m.nodeMap.lookup cfg.Name = some p ∧ p ∈ m.nodes ∧ (m.heap p).State = StateAlive

/-- No record of the local node is Alive. -/
def LocalNotAlive (cfg : Config) (m : Memberlist) : Prop :=
  ∀ p, m.nodeMap.lookup cfg.Name = some p → (m.heap p).State ≠ StateAlive

theorem DeadOrLeft_of_alive {st : nodeState} (h : st.State = StateAlive) :
    st.DeadOrLeft = false := by
  simp [nodeState.DeadOrLeft, h, StateAlive, StateDead, StateLeft]

theorem reapable_of_alive {g now : Int} {st : nodeState} (h : st.State = StateAlive) :
    reapable g now st = false := by
  simp [reapable, DeadOrLeft_of_alive h]

namespace Memberlist

variable {cfg : Config} {env : Env} {m m' : Memberlist} {eff : List Effect}

/-- `aliveUpdate` leaves the record at `p` in its state or makes it Alive. -/
theorem aliveUpdate_state {now : Int} {a : alive} {notify : Option Notify} {bootstrap : Bool}
    {p : Ptr} {updatesNode : Bool}
    (h : m.aliveUpdate cfg now a notify bootstrap p updatesNode = .ok (m', eff)) :
    (m'.heap p).State = (m.heap p).State ∨ (m'.heap p).State = StateAlive := by
  rcases aliveUpdate_cases h with ⟨rfl, -⟩ |
      ⟨-, -, ⟨-, -, ⟨rfl, -⟩ | ⟨rfl, -⟩⟩ | ⟨-, st, hst, rfl, -⟩⟩
  · exact .inl rfl
  · exact .inl rfl
  · exact .inl (by simp)
  · exact .inr (by simp [(applyAlive_ok hst).2.1])

theorem aliveUpdate_leave {now : Int} {a : alive} {notify : Option Notify} {bootstrap : Bool}
    {p : Ptr} {updatesNode : Bool}
    (h : m.aliveUpdate cfg now a notify bootstrap p updatesNode = .ok (m', eff)) :
    m'.leave = m.leave := by
  rcases aliveUpdate_cases h with ⟨rfl, -⟩ |
      ⟨-, -, ⟨-, -, ⟨rfl, -⟩ | ⟨rfl, -⟩⟩ | ⟨-, st, -, rfl, -⟩⟩ <;>
    rfl

/-- No handler touches the leave flag. -/
theorem Call.leave_eq (h : Call cfg env m m') : m'.leave = m.leave := by
  cases h with
  | alive hal =>
    rcases aliveNode_cases hal with ⟨rfl, -⟩ |
        ⟨-, ⟨-, -, m₁, p, hins, hup⟩ | ⟨p, -, -, -, hup⟩ | ⟨p, -, -, -, -, hup⟩⟩
    · rfl
    · obtain ⟨-, offset, -, rfl⟩ := insertNode_eq hins
      -- the inserted state has the flag of `m`
      have h₁ := aliveUpdate_leave hup
      exact h₁
    · exact aliveUpdate_leave hup
    · exact aliveUpdate_leave hup
  | suspect hs =>
    rcases suspectNode_cases hs with ⟨rfl, -⟩ |
        ⟨p, -, -, ⟨t, -, rfl, -⟩ | ⟨-, -, ⟨-, hr⟩ | ⟨-, k, rfl, -⟩⟩⟩
    · rfl
    · rfl
    · rw [show m' = (m.refute p _).1 by rw [← hr]]
      rfl
    · rfl
  | dead hd =>
    rcases deadNode_cases hd with ⟨rfl, -⟩ | ⟨p, -, -, ⟨-, rfl, -⟩ | ⟨-, -, -, hr⟩ | ⟨-, -, rfl, -⟩⟩
    · rfl
    · rfl
    · rw [show m' = ({ m with nodeTimers := m.nodeTimers.erase _ }.refute p _).1 by rw [← hr]]
      rfl
    · rfl

end Memberlist

section Alive

variable {cfg : Config} {env : Env} {m m' : Memberlist} {eff : List Effect}

/-- The local record is as it was when a handler acted on another name. -/
theorem LocalAlive.untouched {X : String} (hl : LocalAlive cfg m) (hu : Untouched X m m')
    (hX : X ≠ cfg.Name) : LocalAlive cfg m' := by
  obtain ⟨p, hp, hpn, hst⟩ := hl
  refine ⟨p, ?_, hu.nodes p hpn, ?_⟩
  · rw [hu.lookup cfg.Name (Ne.symm hX), hp]
  · rw [hu.heap cfg.Name p (Ne.symm hX) hp, hst]

/-- Bookkeeping keeps the local record registered and Alive. -/
theorem localAlive_admin (h : Rep m) (hl : m.leave = false → LocalAlive cfg m)
    (ha : Admin cfg m m') : m'.leave = false → LocalAlive cfg m' := by
  cases ha with
  | reset env =>
    intro hleave
    obtain ⟨p, hp, -, hst⟩ := hl hleave
    -- an Alive record is not reapable
    obtain ⟨hp', hpn'⟩ := h.resetNodes_keeps cfg env hp (reapable_of_alive hst)
    exact ⟨p, hp', hpn', hst⟩
  | pending => exact hl
  | probeIndex => exact hl
  | awareness => exact hl
  | nextIncarnation => exact hl
  | leave => intro hleave; cases hleave

/-- An alive message about the local node leaves its record registered and Alive: the message
    is ignored, taken as an update of the record, or refuted. -/
theorem localAlive_aliveNode {a : alive} {notify : Option Notify} {bootstrap : Bool}
    (hl : LocalAlive cfg m) (hX : a.Node = cfg.Name)
    (hal : m.aliveNode cfg env a notify bootstrap = .ok (m', eff)) : LocalAlive cfg m' := by
  obtain ⟨p, hp, hpn, hst⟩ := hl
  rcases Memberlist.aliveNode_cases hal with ⟨rfl, -⟩ |
      ⟨-, ⟨hnone, -⟩ | ⟨p', hp', -, -, hup⟩ | ⟨p', hp', -, -, hre, -⟩⟩
  · exact ⟨p, hp, hpn, hst⟩
  · rw [hX, hp] at hnone
    cases hnone
  · -- the local record takes the update or is refuted: it stays Alive
    rw [hX, hp] at hp'
    cases hp'
    have hs := Memberlist.aliveUpdate_sameShape hup
    refine ⟨p, by rw [hs.nodeMap]; exact hp, by rw [hs.nodes]; exact hpn, ?_⟩
    rcases Memberlist.aliveUpdate_state hup with hst' | hst'
    · rw [hst', hst]
    · exact hst'
  · -- a reclaim needs a Left or Dead record
    rw [hX, hp] at hp'
    cases hp'
    rcases hre with hre | ⟨hre, -⟩ <;> rw [hst] at hre <;> cases hre

/-- A suspicion of the local node is refuted, which changes only its incarnation. -/
theorem localAlive_suspectNode {now : Int} {s : suspect} (h : Rep m) (hl : LocalAlive cfg m)
    (hX : s.Node = cfg.Name) (hsus : m.suspectNode cfg now s = (m', eff)) :
    LocalAlive cfg m' := by
  obtain ⟨p, hp, hpn, hst⟩ := hl
  have hname : (m.heap p).Node.Name = cfg.Name := h.name_eq _ p hp
  rcases Memberlist.suspectNode_cases hsus with ⟨rfl, -⟩ |
      ⟨p', hp', -, ⟨t, -, rfl, -⟩ | ⟨-, -, ⟨-, hr⟩ | ⟨hnl, -⟩⟩⟩
  · exact ⟨p, hp, hpn, hst⟩
  · exact ⟨p, hp, hpn, hst⟩
  · rw [hX, hp] at hp'
    cases hp'
    rw [show m' = (m.refute p s.Incarnation).1 by rw [← hr]]
    exact ⟨p, hp, hpn, by simp [hst]⟩
  · -- only the record of another node is marked Suspect
    rw [hX, hp] at hp'
    cases hp'
    exact absurd hname hnl

/-- A dead message about the local node is refuted as long as the node has not left. -/
theorem localAlive_deadNode {now : Int} {d : dead} (h : Rep m) (hl : LocalAlive cfg m)
    (hleave : m.leave = false) (hX : d.Node = cfg.Name) (hdead : m.deadNode cfg now d = (m', eff)) :
    LocalAlive cfg m' := by
  obtain ⟨p, hp, hpn, hst⟩ := hl
  have hname : (m.heap p).Node.Name = cfg.Name := h.name_eq _ p hp
  rcases Memberlist.deadNode_cases hdead with ⟨rfl, -⟩ |
      ⟨p', hp', -, ⟨hdl, -⟩ | ⟨-, -, -, hr⟩ | ⟨-, hnl, -⟩⟩
  · exact ⟨p, hp, hpn, hst⟩
  · rw [hX, hp] at hp'
    cases hp'
    rw [DeadOrLeft_of_alive hst] at hdl
    cases hdl
  · rw [hX, hp] at hp'
    cases hp'
    rw [show m' = ({ m with nodeTimers := m.nodeTimers.erase d.Node }.refute p
      d.Incarnation).1 by rw [← hr]]
    exact ⟨p, hp, hpn, by simp [hst]⟩
  · -- marking the local node needs it to be leaving
    rw [hX, hp] at hp'
    cases hp'
    exact absurd ⟨hname, hleave⟩ hnl

/-- A handler keeps the local record registered and Alive, as long as the node has not left. -/
theorem localAlive_call (h : Rep m) (hl : m.leave = false → LocalAlive cfg m)
    (hc : Call cfg env m m') : m'.leave = false → LocalAlive cfg m' := by
  intro hleave'
  have hleave : m.leave = false := by rw [← Memberlist.Call.leave_eq hc]; exact hleave'
  cases hc with
  | @alive a _ _ _ hal =>
    by_cases hX : a.Node = cfg.Name
    · exact localAlive_aliveNode (hl hleave) hX hal
    · exact LocalAlive.untouched (hl hleave) (aliveNode_untouched h hal) hX
  | @suspect s _ hsus =>
    by_cases hX : s.Node = cfg.Name
    · exact localAlive_suspectNode h (hl hleave) hX hsus
    · exact LocalAlive.untouched (hl hleave) (suspectNode_untouched h hsus) hX
  | @dead d _ hdead =>
    by_cases hX : d.Node = cfg.Name
    · exact localAlive_deadNode h (hl hleave) hleave hX hdead
    · exact LocalAlive.untouched (hl hleave) (deadNode_untouched h hdead) hX

end Alive

section Left

variable {cfg : Config} {env : Env} {m m' : Memberlist} {eff : List Effect}

theorem aliveIgnored_of_leave {a : alive} {verdict : Bool} (hX : a.Node = cfg.Name) :
    aliveIgnored cfg true a verdict = true := by
  simp [aliveIgnored, hX]

/-- Bookkeeping never makes the local record Alive again once the node has left. -/
theorem localLeft_admin (h : Rep m) (hl : m.leave = true ∧ LocalNotAlive cfg m)
    (ha : Admin cfg m m') : m'.leave = true ∧ LocalNotAlive cfg m' := by
  cases ha with
  | reset env =>
    refine ⟨hl.1, fun q hq => ?_⟩
    -- `resetNodes` only removes entries
    rcases h.resetNodes_lookup cfg env cfg.Name with hk | ⟨q', -, -, hnone⟩
    · rw [hk] at hq
      exact hl.2 q hq
    · rw [hnone] at hq
      cases hq
  | pending => exact hl
  | probeIndex => exact hl
  | awareness => exact hl
  | nextIncarnation => exact hl
  | leave => exact ⟨rfl, hl.2⟩

/-- No local record turns Alive when a handler acted on another name. -/
theorem LocalNotAlive.untouched {X : String} (hl : LocalNotAlive cfg m) (hu : Untouched X m m')
    (hX : X ≠ cfg.Name) : LocalNotAlive cfg m' := by
  intro q hq
  rw [hu.lookup cfg.Name (Ne.symm hX)] at hq
  rw [hu.heap cfg.Name q (Ne.symm hX) hq]
  exact hl q hq

/-- A handler never makes the local record Alive again once the node has left. -/
theorem localLeft_call (h : Rep m) (hl : m.leave = true ∧ LocalNotAlive cfg m)
    (hc : Call cfg env m m') : m'.leave = true ∧ LocalNotAlive cfg m' := by
  refine ⟨by rw [Memberlist.Call.leave_eq hc]; exact hl.1, ?_⟩
  cases hc with
  | @alive a _ _ _ hal =>
    by_cases hX : a.Node = cfg.Name
    · -- an alive message about the local node is ignored after `Leave`
      rcases Memberlist.aliveNode_cases hal with ⟨rfl, -⟩ | ⟨hig, -⟩
      · exact hl.2
      · rw [hl.1, aliveIgnored_of_leave hX] at hig
        cases hig
    · exact LocalNotAlive.untouched hl.2 (aliveNode_untouched h hal) hX
  | @suspect s _ hsus =>
    by_cases hX : s.Node = cfg.Name
    · rcases Memberlist.suspectNode_cases hsus with ⟨rfl, -⟩ |
          ⟨p, hp, -, ⟨t, -, rfl, -⟩ | ⟨-, halive, -⟩⟩
      · exact hl.2
      · exact hl.2
      · -- only an Alive record is suspected or refuted
        rw [hX] at hp
        exact absurd halive (hl.2 p hp)
    · exact LocalNotAlive.untouched hl.2 (suspectNode_untouched h hsus) hX
  | @dead d _ hdead =>
    by_cases hX : d.Node = cfg.Name
    · rcases Memberlist.deadNode_cases hdead with ⟨rfl, -⟩ |
          ⟨p, hp, -, ⟨-, rfl, -⟩ | ⟨-, -, hleave, -⟩ | ⟨-, -, rfl, -⟩⟩
      · exact hl.2
      · exact hl.2
      · rw [hl.1] at hleave
        cases hleave
      · -- the local record is marked Left or Dead
        intro q hq
        rw [hX] at hp
        have hqp : q = p := Option.some.inj (hq.symm.trans hp)
        subst hqp
        simp only [Memberlist.setRecord_heap, Function.update_self]
        split <;> decide
    · exact LocalNotAlive.untouched hl.2 (deadNode_untouched h hdead) hX

end Left

/-- The local node's own address outside `CIDRsAllowed`: `setAlive` registers nothing, and
    the state it leaves is reachable, not left, and has no local record. -/
theorem setAlive_outside_CIDRsAllowed :
    let cfg := { DefaultLANConfig "a" with CIDRsAllowed := [fun _ => false] }
    let m := { Memberlist.init cfg with incarnation := 1 }
    (Memberlist.init cfg).step cfg (Env.at 0) (.setAlive [10, 0, 0, 1] 7946 []) = .ok (m, []) ∧
      Reachable cfg m ∧ m.leave = false ∧ ¬ LocalAlive cfg m := by
  intro cfg m
  have hstep : (Memberlist.init cfg).step cfg (Env.at 0) (.setAlive [10, 0, 0, 1] 7946 []) =
      .ok (m, []) := rfl
  refine ⟨hstep, Reachable.of_step _ _ (.base rfl) hstep, rfl, ?_⟩
  rintro ⟨p, hp, -⟩
  cases hp

/-- **The local node never accepts its own failure.**  Along any run from a reachable state in
    which the local node is registered Alive and has not left, it stays registered (in
    `nodeMap` and in `nodes`) and Alive for as long as it has not left; and once it has left
    and its record is no longer Alive, no run makes that record Alive again. -/
theorem local_node_alive_until_leave {cfg : Config} {m m' : Memberlist}
    {run : List (Env × Op × List Effect)} (hreach : Reachable cfg m) (hrun : Run cfg m run m') :
    (m.leave = false → LocalAlive cfg m → m'.leave = false → LocalAlive cfg m') ∧
      (m.leave = true → LocalNotAlive cfg m → m'.leave = true ∧ LocalNotAlive cfg m') := by
  have hrep := Rep.reachable hreach
  constructor
  · intro hleave hloc
    have hstable := Rep.stable (fun m => m.leave = false → LocalAlive cfg m)
      (fun _ _ => localAlive_admin) (fun _ _ _ => localAlive_call)
    exact (Transition.Steps.stable hstable hrun ⟨hrep, fun _ => hloc⟩).2
  · intro hleave hnot
    have hstable := Rep.stable (fun m => m.leave = true ∧ LocalNotAlive cfg m)
      (fun _ _ => localLeft_admin) (fun _ _ _ => localLeft_call)
    exact (Transition.Steps.stable hstable hrun ⟨hrep, hleave, hnot⟩).2

/-- After `setAlive`, an alive message about "b" and a suspicion of the local node (which it
    refutes) keep the local node Alive. -/
theorem local_node_alive_until_leave_setAlive :
    let cfg := DefaultLANConfig "a"
    ∃ r r₁ r₂,
      (Memberlist.init cfg).step cfg (Env.at 0) (.setAlive [10, 0, 0, 1] 7946 []) = .ok r ∧
      r.1.step cfg (Env.at 1) (.alive ⟨1, "b", [10, 0, 0, 2], 7946, [], [1, 5, 2, 0, 0, 0]⟩) =
        .ok r₁ ∧
      r₁.1.step cfg (Env.at 2) (.suspect ⟨1, "a", "b"⟩) = .ok r₂ ∧
      Reachable cfg r.1 ∧ r.1.leave = false ∧ LocalAlive cfg r.1 ∧
      r₂.1.leave = false ∧ LocalAlive cfg r₂.1 := by
  intro cfg
  have h₀ : Reachable cfg (Memberlist.init cfg) := .base rfl
  have hreach := Reachable.of_step (Env.at 0) (.setAlive [10, 0, 0, 1] 7946 []) h₀ rfl
  refine ⟨_, _, _, rfl, rfl, rfl, hreach, rfl, ⟨0, rfl, by decide, rfl⟩, rfl, ?_⟩
  -- the run of the alive message and the suspicion, through the theorem
  have hrun := @local_node_alive_until_leave cfg _ _
    [(Env.at 1, .alive ⟨1, "b", [10, 0, 0, 2], 7946, [], [1, 5, 2, 0, 0, 0]⟩, _),
      (Env.at 2, .suspect ⟨1, "a", "b"⟩, _)] hreach
    (Run.cons_of_step rfl (Run.cons_of_step rfl (Transition.Steps.nil _)))
  exact hrun.1 rfl ⟨0, rfl, by decide, rfl⟩ rfl

/-- **A refutation of the largest incarnation loses.**  For every state and every record,
    `refute` stores its incarnation in the record and in the counter and broadcasts it; that
    incarnation is above the accusation exactly when the accusation is not `2^32 - 1`, past
    which `skipIncarnation` wraps to 0.  One suspicion reaches it: after `setAlive`, a
    suspicion of the local node at `2^32 - 1` leaves it at incarnation 0. -/
theorem refute_loses_to_max_incarnation (m : Memberlist) (p : Ptr) (accusedInc : UInt32) :
    ((m.refute p accusedInc).1.heap p).Incarnation = (m.refute p accusedInc).1.incarnation ∧
      (∃ a : alive, (m.refute p accusedInc).2 =
          [.broadcast (.addr (m.heap p).Node.Addr) (.alive a) none] ∧
        a.Incarnation = (m.refute p accusedInc).1.incarnation) ∧
      (accusedInc < (m.refute p accusedInc).1.incarnation ↔ accusedInc ≠ 4294967295) ∧
      ∃ r₁ r₂, (Memberlist.init (DefaultLANConfig "a")).step (DefaultLANConfig "a") (Env.at 0)
          (.setAlive [10, 0, 0, 1] 7946 []) = .ok r₁ ∧
        r₁.1.step (DefaultLANConfig "a") (Env.at 0) (.suspect ⟨4294967295, "a", "b"⟩) = .ok r₂ ∧
        Reachable (DefaultLANConfig "a") r₂.1 ∧
        (r₂.1.record "a").map (·.Incarnation) = some 0 ∧ r₂.1.incarnation = 0 := by
  have hrec : ((m.refute p accusedInc).1.heap p).Incarnation =
      (m.refute p accusedInc).1.incarnation := by
    simp
  refine ⟨hrec, ⟨_, Memberlist.refute_effects m p accusedInc, rfl⟩, ?_, ?_⟩
  · rw [Memberlist.refute_incarnation]
    exact Memberlist.lt_refuteIncarnation_iff m.incarnation accusedInc
  · -- the run: `setAlive`, then the suspicion, which the local node refutes
    have h₀ : Reachable (DefaultLANConfig "a") (Memberlist.init (DefaultLANConfig "a")) :=
      .base rfl
    have h₁ := Reachable.of_step (Env.at 0) (.setAlive [10, 0, 0, 1] 7946 []) h₀ rfl
    have h₂ := Reachable.of_step (Env.at 0) (.suspect ⟨4294967295, "a", "b"⟩) h₁ rfl
    exact ⟨_, _, rfl, rfl, h₂, by decide, by decide⟩

/-- **After `Leave`, the local record is reaped.**  `resetNodes` reaps every Dead or Left
    record older than `GossipToTheDeadTime` without sparing the local one: from every
    reachable state whose local record is reapable, the reset that a wrapping probe runs
    leaves no local record, and `LocalNode` dereferences nil.  Such a state is reached by
    `setAlive`, `Leave` (whose dead message marks the local record Left) and two probes, the
    second after `GossipToTheDeadTime`; `UpdateNode` then panics too. -/
theorem local_record_reaped_after_leave :
    (∀ (cfg : Config) (env : Env) (m : Memberlist) (p : Ptr), Reachable cfg m →
        m.nodeMap.lookup cfg.Name = some p →
        reapable cfg.GossipToTheDeadTime env.now (m.heap p) = true →
        (m.resetNodes cfg env).LocalNode cfg =
          .error ⟨"invalid memory address or nil pointer dereference"⟩) ∧
      ∃ r₁ r₂ r₃ r₄ r₅,
        (Memberlist.init (DefaultLANConfig "a")).step (DefaultLANConfig "a") (Env.at 0)
            (.setAlive [10, 0, 0, 1] 7946 []) = .ok r₁ ∧
        r₁.1.step (DefaultLANConfig "a") (Env.at 0) .leave = .ok r₂ ∧
        r₂.1.step (DefaultLANConfig "a") (Env.at 0) (.fire 0) = .ok r₃ ∧
        r₃.1.step (DefaultLANConfig "a") (Env.at 0) .probe = .ok r₄ ∧
        r₄.1.step (DefaultLANConfig "a") (Env.at 30000000001) .probe = .ok r₅ ∧
        Reachable (DefaultLANConfig "a") r₅.1 ∧ r₅.1.nodeMap.lookup "a" = none ∧
        r₅.1.LocalNode (DefaultLANConfig "a") =
          .error ⟨"invalid memory address or nil pointer dereference"⟩ ∧
        r₅.1.step (DefaultLANConfig "a") (Env.at 30000000001) (.updateNode []) =
          .error ⟨"invalid memory address or nil pointer dereference"⟩ := by
  constructor
  · intro cfg env m p hreach hp hreap
    have hnone := (Rep.reachable hreach).resetNodes_reaps cfg env hp hreap
    simp only [Memberlist.LocalNode, hnone]
  · -- the run up to the dead message `Leave` sends: the local record is Left since time 0
    have h₀ : Reachable (DefaultLANConfig "a") (Memberlist.init (DefaultLANConfig "a")) :=
      .base rfl
    obtain ⟨r₁, r₂, r₃, hs₁, hs₂, hs₃, h₃, hlen, hidx, hskip, hp, hreap⟩ :
        ∃ r₁ r₂ r₃,
          (Memberlist.init (DefaultLANConfig "a")).step (DefaultLANConfig "a") (Env.at 0)
              (.setAlive [10, 0, 0, 1] 7946 []) = .ok r₁ ∧
          r₁.1.step (DefaultLANConfig "a") (Env.at 0) .leave = .ok r₂ ∧
          r₂.1.step (DefaultLANConfig "a") (Env.at 0) (.fire 0) = .ok r₃ ∧
          Reachable (DefaultLANConfig "a") r₃.1 ∧ r₃.1.nodes.length = 1 ∧ r₃.1.probeIndex = 0 ∧
          (r₃.1.heap (r₃.1.nodes.getD 0 0)).Node.Name = "a" ∧ r₃.1.nodeMap.lookup "a" = some 0 ∧
          reapable (DefaultLANConfig "a").GossipToTheDeadTime 30000000001 (r₃.1.heap 0) = true := by
      have h₁ := Reachable.of_step (Env.at 0) (.setAlive [10, 0, 0, 1] 7946 []) h₀ rfl
      have h₂ := Reachable.of_step (Env.at 0) .leave h₁ rfl
      exact ⟨_, _, _, rfl, rfl, rfl, Reachable.of_step (Env.at 0) (.fire 0) h₂ rfl,
        by decide, by decide, by decide, by decide, by decide⟩
    -- the first probe skips the local record and stops: only the index moves
    obtain ⟨m₄, hs₄, hlen₄, hidx₄, hp₄, hreap₄⟩ : ∃ m₄ : Memberlist,
        r₃.1.step (DefaultLANConfig "a") (Env.at 0) .probe = .ok (m₄, []) ∧
        m₄.nodes.length = 1 ∧ m₄.probeIndex = 1 ∧ m₄.nodeMap.lookup "a" = some 0 ∧
        reapable (DefaultLANConfig "a").GossipToTheDeadTime 30000000001 (m₄.heap 0) = true := by
      refine ⟨{ r₃.1 with probeIndex := 1 }, ?_, hlen, rfl, hp, hreap⟩
      show Except.ok (r₃.1.probeLoop (DefaultLANConfig "a") (Env.at 0) 0) = _
      refine congrArg Except.ok
        ((Memberlist.probeLoop_skip (by omega) (by omega) (Or.inl ?_)).trans ?_)
      · rw [hidx]
        exact hskip
      · rw [hidx]
        exact Memberlist.probeLoop_done (Nat.le_of_eq hlen)
    have h₄ := Reachable.of_step (Env.at 0) .probe h₃ hs₄
    -- the second one, 30 s later, finds the index wrapped and resets the node list
    have hs₅ : m₄.step (DefaultLANConfig "a") (Env.at 30000000001) .probe =
        .ok ({ m₄.resetNodes (DefaultLANConfig "a") (Env.at 30000000001) with probeIndex := 0 },
          []) := by
      show Except.ok (m₄.probe (DefaultLANConfig "a") (Env.at 30000000001)) = _
      exact congrArg Except.ok (Memberlist.probe_wraps_spent hidx₄ (by omega)
        (fun i hi hi' => absurd hi' (by omega)))
    have h₅ := Reachable.of_step (Env.at 30000000001) .probe h₄ hs₅
    have hnone := (Rep.reachable h₄).resetNodes_reaps (DefaultLANConfig "a") (Env.at 30000000001)
      hp₄ hreap₄
    refine ⟨r₁, r₂, r₃, _, _, hs₁, hs₂, hs₃, hs₄, hs₅, h₅, hnone, ?_, ?_⟩
    · simp only [Memberlist.LocalNode]
      rw [show (DefaultLANConfig "a").Name = "a" from rfl, hnone]
    · simp only [Memberlist.step, Memberlist.UpdateNode]
      rw [show (DefaultLANConfig "a").Name = "a" from rfl, hnone]
      rfl

end memberlist
