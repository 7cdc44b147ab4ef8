import Memberlist.State.Spec
import Mathlib

/-!
# A probe tick (state.go)

`probe` walks `nodes` from `probeIndex`, skips the local record and the Dead or Left ones, and
probes the first other record it finds.  Its counter `numCheck` counts the skipped records and
also the wrap-around, which reaps and reshuffles `nodes`; the loop stops once the counter
reaches the length of the list it is looking at.

* `Probeable` — a record `probe` may probe: not the local one, neither Dead nor Left.
* `probeLoop_probes_at_most_once` — every run of the loop probes at most one record, and only a
  probeable record of `nodes`; so with no probeable record it probes nothing
  (`probe_none_probeable`).
* `probeLoop_skips`, `probe_probes_first` — when a probeable record lies at or past
  `probeIndex`, the first of them is probed.
* `probe_wraps_spent`, `probe_misses_after_wrap` — at `probeIndex = 1` with no probeable record
  past index 0, the tick reaches the wrap with its budget spent and probes nothing, whatever
  the record at index 0 is.  In a cluster of two this is every tick after the one that probed
  the other node.
-/

namespace memberlist

namespace Memberlist

/-- A record `probe` may probe: not the local node, and neither Dead nor Left. -/
def Probeable (cfg : Config) (node : nodeState) : Prop :=
  node.Node.Name ≠ cfg.Name ∧ node.DeadOrLeft = false

instance (cfg : Config) : DecidablePred (Probeable cfg) :=
  fun _ => inferInstanceAs (Decidable (_ ∧ _))

/-- The test `probe` skips a record on is the negation of `Probeable`. -/
theorem probeable_iff_not_skip (cfg : Config) (node : nodeState) :
    Probeable cfg node ↔ ¬ (node.Node.Name = cfg.Name ∨ node.DeadOrLeft) := by
  rw [Probeable, not_or, Bool.not_eq_true]

theorem skip_of_not_probeable {cfg : Config} {node : nodeState} (h : ¬ Probeable cfg node) :
    node.Node.Name = cfg.Name ∨ node.DeadOrLeft :=
  not_not.mp ((probeable_iff_not_skip cfg node).not.mp h)

section Probe

variable (cfg : Config) (env : Env)

/-- Every run of the loop either probes nothing and leaves `pending` as it is, or probes one
    probeable record of `nodes`, from a state with the same records and the same `pending`. -/
theorem probeLoop_probes_at_most_once (m : Memberlist) (numCheck : Nat) :
    (∃ m', m.probeLoop cfg env numCheck = (m', []) ∧ m'.pending = m.pending) ∨
      ∃ (m' : Memberlist) (p : Ptr), p ∈ m.nodes ∧ Probeable cfg (m.heap p) ∧ m'.heap = m.heap ∧
        m'.pending = m.pending ∧ m.probeLoop cfg env numCheck = m'.probeNode cfg (m.heap p) := by
  fun_induction probeLoop cfg m env numCheck with
  | case1 m numCheck _ => exact .inl ⟨m, rfl, rfl⟩
  | case2 m numCheck _ _ ih =>
    -- the wrap: the reset keeps the records and `pending`, and its list comes from `nodes`
    rcases ih with ⟨m', hloop, hpending⟩ | ⟨m', p, hp, hprobe, hheap, hpending, hloop⟩
    · exact .inl ⟨m', hloop, hpending⟩
    · exact .inr ⟨m', p, resetNodes_mem hp, hprobe, hheap, hpending, hloop⟩
  | case3 m numCheck _ _ node m' _ ih =>
    -- a skip moves the index only
    exact ih
  | case4 m numCheck _ hidx node m' hprobe =>
    have hmem : m.nodes.getD m.probeIndex 0 ∈ m.nodes := by
      rw [List.getD_eq_getElem _ 0 (by omega)]
      exact List.getElem_mem _
    exact .inr ⟨m', _, hmem, (probeable_iff_not_skip cfg node).mpr hprobe, rfl, rfl, rfl⟩

/-- With no probeable record in `nodes`, the tick probes nothing. -/
theorem probe_none_probeable {m : Memberlist} (h : ∀ p ∈ m.nodes, ¬ Probeable cfg (m.heap p)) :
    ∃ m', m.probe cfg env = (m', []) ∧ m'.pending = m.pending := by
  rcases probeLoop_probes_at_most_once cfg env m 0 with hnone | ⟨m', p, hp, hprobe, -⟩
  · exact hnone
  · exact absurd hprobe (h p hp)

end Probe

variable {cfg : Config} {env : Env}

/-- A run of `k` records that are not probeable, from `probeIndex` on, is skipped one by one
    while the counter stays below the length. -/
theorem probeLoop_skips :
    ∀ (k : Nat) (m : Memberlist) (numCheck : Nat), m.probeIndex + k ≤ m.nodes.length →
      numCheck + k ≤ m.nodes.length →
      (∀ i < k, ¬ Probeable cfg (m.heap (m.nodes.getD (m.probeIndex + i) 0))) →
      m.probeLoop cfg env numCheck =
        { m with probeIndex := m.probeIndex + k }.probeLoop cfg env (numCheck + k)
  | 0, _, _, _, _, _ => rfl
  | k + 1, m, numCheck, hi, hn, hskip => by
    have hfirst := skip_of_not_probeable (hskip 0 (Nat.succ_pos k))
    rw [Nat.add_zero] at hfirst
    rw [probeLoop_skip (by omega) (by omega) hfirst]
    -- the other `k`, from the next index
    have hrest : ∀ i < k, ¬ Probeable cfg (m.heap (m.nodes.getD (m.probeIndex + 1 + i) 0)) :=
      fun i hik => by
        rw [Nat.add_assoc, Nat.add_comm 1 i]
        exact hskip (i + 1) (by omega)
    rw [probeLoop_skips k { m with probeIndex := m.probeIndex + 1 } (numCheck + 1)
      (by show m.probeIndex + 1 + k ≤ m.nodes.length; omega)
      (by show numCheck + 1 + k ≤ m.nodes.length; omega) hrest]
    have hidx : m.probeIndex + 1 + k = m.probeIndex + (k + 1) := by omega
    have hcount : numCheck + 1 + k = numCheck + (k + 1) := by omega
    rw [← hidx, ← hcount]

/-- When a probeable record lies at an index `j` from `probeIndex` on, the tick probes the
    first of them. -/
theorem probe_probes_first {m : Memberlist} {j : Nat} (hij : m.probeIndex ≤ j)
    (hj : j < m.nodes.length)
    (hskip : ∀ i, m.probeIndex ≤ i → i < j → ¬ Probeable cfg (m.heap (m.nodes.getD i 0)))
    (hprobe : Probeable cfg (m.heap (m.nodes.getD j 0))) :
    m.probe cfg env =
      { m with probeIndex := j + 1 }.probeNode cfg (m.heap (m.nodes.getD j 0)) := by
  -- the records before `j` are skipped, `j - probeIndex` rounds
  rw [probe, probeLoop_skips (j - m.probeIndex) m 0 (by omega) (by omega)
    (fun i hi => hskip _ (by omega) (by omega)), show m.probeIndex + (j - m.probeIndex) = j by omega]
  -- and `j` is probed
  rw [probeLoop_probe (m := { m with probeIndex := j })
    (show 0 + (j - m.probeIndex) < m.nodes.length by omega) hj
    ((probeable_iff_not_skip cfg _).mp hprobe)]

/-- At `probeIndex = 1` with no probeable record past index 0, the records from index 1 on are
    skipped, the index wraps, and the counter has then reached the length: the tick stops
    after the reset without looking at the new list. -/
theorem probe_wraps_spent {m : Memberlist} (hidx : m.probeIndex = 1) (hlen : 1 ≤ m.nodes.length)
    (hskip : ∀ i, 1 ≤ i → i < m.nodes.length → ¬ Probeable cfg (m.heap (m.nodes.getD i 0))) :
    m.probe cfg env = ({ m.resetNodes cfg env with probeIndex := 0 }, []) := by
  rw [probe, probeLoop_skips (m.nodes.length - 1) m 0 (by omega) (by omega)
    (fun i hi => hskip _ (by omega) (by omega))]
  -- at the end of the list: the wrap spends the last unit of the budget
  rw [probeLoop_wrap (m := { m with probeIndex := m.probeIndex + (m.nodes.length - 1) })
    (show 0 + (m.nodes.length - 1) < m.nodes.length by omega)
    (show m.nodes.length ≤ m.probeIndex + (m.nodes.length - 1) by omega)]
  have hle := resetNodes_length_le cfg { m with probeIndex := m.probeIndex + (m.nodes.length - 1) } env
  refine probeLoop_done ?_
  exact Nat.le_trans hle (show m.nodes.length ≤ 0 + (m.nodes.length - 1) + 1 by omega)

end Memberlist

/-- **A tick can miss the only probeable node.**  `numCheck` counts the wrap-around as one
    more index looked at, so a tick that starts at `probeIndex = 1` and finds no probeable
    record past index 0 has spent its budget when it wraps, and stops without probing, however
    the reset orders the list.  In a cluster of the local node `a` and one other node `b`,
    which joins at index 0, the tick that probes `b` leaves the index at 1, and the next tick
    probes no one. -/
theorem probe_misses_after_wrap :
    (∀ (cfg : Config) (env : Env) (m : Memberlist), m.probeIndex = 1 → 1 ≤ m.nodes.length →
        (∀ i, 1 ≤ i → i < m.nodes.length →
          ¬ Memberlist.Probeable cfg (m.heap (m.nodes.getD i 0))) →
        m.probe cfg env = ({ m.resetNodes cfg env with probeIndex := 0 }, [])) ∧
      ∃ r₁ r₂ r₃ r₄,
        (Memberlist.init (DefaultLANConfig "a")).step (DefaultLANConfig "a") (Env.at 0)
            (.setAlive [10, 0, 0, 1] 7946 []) = .ok r₁ ∧
        r₁.1.step (DefaultLANConfig "a") (Env.at 0)
            (.alive ⟨1, "b", [10, 0, 0, 2], 7946, [], []⟩) = .ok r₂ ∧
        r₂.1.step (DefaultLANConfig "a") (Env.at 0) .probe = .ok r₃ ∧
        r₃.1.step (DefaultLANConfig "a") (Env.at 0) .probe = .ok r₄ ∧
        Reachable (DefaultLANConfig "a") r₃.1 ∧
        (∃ p ∈ r₃.1.nodes, Memberlist.Probeable (DefaultLANConfig "a") (r₃.1.heap p)) ∧
        r₃.1.pending = r₂.1.pending ++ [.probeWait (r₂.1.heap 1)] ∧
        r₄.2 = [] ∧ r₄.1.pending = r₃.1.pending := by
  refine ⟨fun cfg env m hidx hlen hskip => Memberlist.probe_wraps_spent hidx hlen hskip, ?_⟩
  -- the run: the local node `a` starts and `b` joins, in front of it
  have h₀ : Reachable (DefaultLANConfig "a") (Memberlist.init (DefaultLANConfig "a")) :=
    .base rfl
  have h₁ := Reachable.of_step (Env.at 0) (.setAlive [10, 0, 0, 1] 7946 []) h₀ rfl
  obtain ⟨r₁, r₂, hs₁, hs₂, h₂, hnodes, hidx, hb, ha⟩ : ∃ r₁ r₂,
      (Memberlist.init (DefaultLANConfig "a")).step (DefaultLANConfig "a") (Env.at 0)
          (.setAlive [10, 0, 0, 1] 7946 []) = .ok r₁ ∧
      r₁.1.step (DefaultLANConfig "a") (Env.at 0)
          (.alive ⟨1, "b", [10, 0, 0, 2], 7946, [], []⟩) = .ok r₂ ∧
      Reachable (DefaultLANConfig "a") r₂.1 ∧ r₂.1.nodes = [1, 0] ∧ r₂.1.probeIndex = 0 ∧
      Memberlist.Probeable (DefaultLANConfig "a") (r₂.1.heap 1) ∧
      (r₂.1.heap 0).Node.Name = "a" :=
    ⟨_, _, rfl, rfl,
      Reachable.of_step (Env.at 0) (.alive ⟨1, "b", [10, 0, 0, 2], 7946, [], []⟩) h₁ rfl,
      by decide, by decide, by decide, by decide⟩
  -- the first tick probes `b`, at index 0
  have hlen : r₂.1.nodes.length = 2 := by rw [hnodes]; rfl
  have hb₀ : Memberlist.Probeable (DefaultLANConfig "a") (r₂.1.heap (r₂.1.nodes.getD 0 0)) := by
    rw [hnodes]
    exact hb
  have hs₃ : r₂.1.step (DefaultLANConfig "a") (Env.at 0) .probe =
      .ok ({ r₂.1 with probeIndex := 0 + 1 }.probeNode (DefaultLANConfig "a") (r₂.1.heap 1)) := by
    have hfirst : r₂.1.probe (DefaultLANConfig "a") (Env.at 0) = _ :=
      Memberlist.probe_probes_first hidx.le (by omega) (fun i hi hi' => absurd hi' (by omega)) hb₀
    have hget : r₂.1.nodes.getD 0 0 = 1 := by rw [hnodes]; rfl
    show Except.ok (r₂.1.probe (DefaultLANConfig "a") (Env.at 0)) = _
    rw [hfirst, hget]
  have h₃ := Reachable.of_step (Env.at 0) .probe h₂ hs₃
  -- the next one starts at index 1, where `a` is, and wraps with its budget spent
  have ha₁ : ¬ Memberlist.Probeable (DefaultLANConfig "a") (r₂.1.heap (r₂.1.nodes.getD 1 0)) := by
    rw [hnodes]
    exact fun h => h.1 ha
  have hs₄ : ({ r₂.1 with probeIndex := 0 + 1 }.probeNode (DefaultLANConfig "a")
      (r₂.1.heap 1)).1.probe (DefaultLANConfig "a") (Env.at 0) = _ :=
    Memberlist.probe_wraps_spent rfl (show 1 ≤ r₂.1.nodes.length by omega)
      (fun i hi hi' => by
        have hone : i = 1 := by
          have : i < r₂.1.nodes.length := hi'
          omega
        subst hone
        exact ha₁)
  have hmem : (1 : Ptr) ∈ r₂.1.nodes := by
    rw [hnodes]
    exact List.mem_cons_self
  exact ⟨r₁, r₂, _, _, hs₁, hs₂, hs₃, congrArg Except.ok hs₄, h₃, ⟨1, hmem, hb⟩, rfl, rfl, rfl⟩

end memberlist
