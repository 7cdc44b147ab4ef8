import Memberlist.Net.AckLive
import Memberlist.Cluster.Probe
import Mathlib

/-!
# Every probe can finish, when `ackCh` has room for two messages

A run of `probeNode` at a member `X` returns after the select on its ping, the put-back of the
timer's message, the remote failure, the wait on `ackCh` and the fallback.  The wait on `ackCh`
has no timeout of its own: it ends because the run armed a timer that writes `ackCh`
(`AckState.Live`).  The put-back `ackCh <- v` has no timeout either, and only `probeNode`
receives from `ackCh`: it goes through only while the buffer has room.  Over the whole cluster,
whatever the network delivered before and in whatever order:

* `liveInv_of_reachable` — every member whose `ackCh` has room is `Live`, and no run has more
  than two messages on their way to it (`AckState.LoadInv`);
* `act_rankLe` — no event at any member raises the rank of any run;
* `exists_local_step` — when `ackCh` has room for two messages (`IndirectChecks ≥ 1`), an event
  of the member's own lowers the rank of a run that has not returned;
* `probe_run_finishes` — so `X` alone brings the run to return in at most its rank of steps,
  and nothing undoes that progress;
* `requeue_blocked` — a run whose put-back finds the buffer full stays there along every run of
  the cluster.  With room for one message only (`IndirectChecks = 0`) that state is reached
  (`requeue_blocked_reached`): the timer's message taken in the select, then the ack closure's
  message in the buffer before the put-back.
-/

namespace memberlist

/-- The events of `X`'s own goroutines and timers, which need nothing from the network. -/
def ProbeEvent.isLocal (X : String) : ProbeEvent → Bool
  | .send Y _ _ | .direct Y _ _ | .requeue Y _ | .remoteFailure Y _ _ | .indirect Y _
  | .fallback Y _ _ | .timer Y _ => decide (Y = X)
  | _ => false

namespace probeRun.WaitEnds

variable {cap : Nat} {f : probeRun → probeRun}

/-- The end of a wait keeps what the wait on `ackCh` needs. -/
theorem keepsWait (hf : probeRun.WaitEnds cap f) (p : probeRun) : p.KeepsWait (f p) := by
  cases hf with
  | direct timeout => exact p.keepsWait_direct timeout
  | requeue => exact p.keepsWait_requeue cap
  | indirect => exact p.keepsWait_indirect
  | finish didContact => exact p.keepsWait_finish didContact

/-- The end of a wait takes messages, never adds one. -/
theorem length_msgs_le (hf : probeRun.WaitEnds cap f) (p : probeRun) :
    (f p).msgs.length ≤ p.msgs.length := by
  cases hf with
  | direct timeout => exact p.length_msgs_direct_le timeout
  | requeue => exact le_of_eq (p.length_msgs_requeue cap)
  | indirect => exact p.length_msgs_indirect_le
  | finish didContact => exact le_of_eq (p.length_msgs_finish didContact)

/-- The end of a wait raises no rank. -/
theorem rank_le (hf : probeRun.WaitEnds cap f) (p : probeRun) : (f p).rank ≤ p.rank := by
  cases hf with
  | direct timeout => exact p.rank_direct_le timeout
  | requeue => exact p.rank_requeue_le cap
  | indirect => exact p.rank_indirect_le
  | finish didContact => exact p.rank_finish_le didContact

/-- A put-back that finds the buffer full ends no wait. -/
theorem eq_of_stuck (hf : probeRun.WaitEnds cap f) {p : probeRun} {v : ackMessage}
    (hph : p.phase = .requeue v) (hfull : cap ≤ p.ackCh.length) : f p = p := by
  cases hf with
  | direct timeout => simp [probeRun.direct, hph]
  | requeue => simp [probeRun.requeue, hph, Nat.not_lt.mpr hfull]
  | indirect => simp [probeRun.indirect, hph]
  | finish didContact => simp [probeRun.finish, hph]

end probeRun.WaitEnds

namespace ProbeNet

variable {N : ProbeNet} {c c' : ProbeCluster}

/-! ### A message for every wait, and at most two -/

/-- Every member whose `ackCh` has room for a message is `Live`, and no run of any member has
    more than two messages on their way to it. -/
structure LiveInv (N : ProbeNet) (c : ProbeCluster) : Prop where
  live : ∀ X, 0 < (N.pc X).chanCap → (c.node X).Live
  load : ∀ X, (c.node X).LoadInv

/-- Every handler keeps a member `Live` when its channels have room. -/
theorem Handles.live {X : String} {st s : AckState} {pkts : List Packet}
    (hh : N.Handles X st s pkts) (hcap : 0 < (N.pc X).chanCap) (ht : st.TimerInv)
    (h : st.Live) : s.Live := by
  cases hh with
  | probeStart hs => exact AckState.probeStart_live h hs
  | send ch res => exact AckState.probeSend_live h ht _ _ ch res
  | run ch hf => exact h.modifyProbe ch hf.keepsWait
  | remoteFailure ch kNodes => exact AckState.probeRemoteFailure_live h _ _ _ ch kNodes
  | handleMsg from_ m _ => exact AckState.handleMsg_live h from_ m
  | ackFn hs => exact AckState.invokeAckFn_live hcap h ht hs
  | timer t => exact AckState.fireTimer_live hcap h t
  | nack r timeout => exact AckState.nackGoroutine_live h _ _ r timeout

/-- Every handler keeps the load of every run within two. -/
theorem Handles.loadInv {X : String} {st s : AckState} {pkts : List Packet}
    (hh : N.Handles X st s pkts) (ht : st.TimerInv) (h : st.LoadInv) : s.LoadInv := by
  have hg := hh.grows
  cases hh with
  | probeStart hs => exact AckState.probeStart_loadInv h hs
  | send ch res => exact h.of_le hg (AckState.probeSend_load_le ht _ _ ch res)
  | run ch hf => exact h.of_le hg (AckState.load_modifyProbe_le ch hf.length_msgs_le)
  | remoteFailure ch kNodes =>
    exact h.of_le hg (AckState.probeRemoteFailure_load_le _ _ _ ch kNodes)
  | handleMsg from_ m hidle => exact h.of_le hg (AckState.handleMsg_load_le hidle from_ m)
  | ackFn hs => exact h.of_le hg (AckState.invokeAckFn_load_le hs)
  | timer t => exact h.of_le hg (AckState.fireTimer_load_le _ t)
  | nack r timeout => exact h.of_le hg (AckState.nackGoroutine_load_le _ _ r timeout)

theorem LiveInv.init : N.LiveInv ProbeCluster.init :=
  ⟨fun _ _ => AckState.init_live, fun _ => AckState.init_loadInv⟩

/-- Every event keeps `LiveInv`, under the timer invariant. -/
theorem act_liveInv (h : N.LiveInv c) (ht : ∀ X, (c.node X).TimerInv) {e : ProbeEvent}
    (hact : N.act c e = .ok c') : N.LiveInv c' := by
  obtain rfl | ⟨X, s, pkts, ans, hh, rfl⟩ := N.act_cases hact
  · exact h
  refine ⟨fun Y hY => ?_, c.forall_update h.load (hh.loadInv (ht X) (h.load X)) _ _⟩
  rw [ProbeCluster.update_node, Function.update_apply]
  split
  · next hYX =>
    subst hYX
    exact hh.live hY (ht Y) (h.live Y hY)
  · exact h.live Y hY

theorem liveInv_of_reachable (hr : N.Reachable c) : N.LiveInv c :=
  Transition.Reach.induct N.LiveInv (by rintro _ rfl; exact LiveInv.init)
    (fun _ _ _ hc h hstep => act_liveInv h (timers_inv hc) hstep.2) hr

/-! ### The rank of a run -/

/-- One member moves to a state in which no run has a higher rank. -/
theorem rankLe_update {X : String} {s : AckState} (hs : AckState.RankLe (c.node X) s)
    (pkts : List Packet) (ans : List Answer) (Y : String) :
    AckState.RankLe (c.node Y) ((c.update X s pkts ans).node Y) := by
  rw [ProbeCluster.update_node, Function.update_apply]
  split
  · next hYX =>
    subst hYX
    exact hs
  · exact AckState.RankLe.refl _

/-- No handler raises a rank. -/
theorem Handles.rankLe {X : String} {st s : AckState} {pkts : List Packet}
    (hh : N.Handles X st s pkts) : AckState.RankLe st s := by
  cases hh with
  | probeStart hs => exact AckState.probeStart_rankLe hs
  | send ch res => exact AckState.probeSend_rankLe _ _ ch res
  | run ch hf => exact AckState.rankLe_modifyProbe ch fun p _ => hf.rank_le p
  | remoteFailure ch kNodes => exact AckState.probeRemoteFailure_rankLe _ _ _ ch kNodes
  | handleMsg from_ m _ => exact AckState.handleMsg_rankLe from_ m
  | ackFn hs => exact AckState.invokeAckFn_rankLe hs
  | timer t => exact AckState.fireTimer_rankLe _ t
  | nack r timeout => exact AckState.nackGoroutine_rankLe _ _ r timeout

/-- **No event raises a rank**: at every member, every run is still there after any event, at a
    rank no higher. -/
theorem act_rankLe {e : ProbeEvent} (hact : N.act c e = .ok c') (Y : String) :
    AckState.RankLe (c.node Y) (c'.node Y) := by
  obtain rfl | ⟨X, s, pkts, ans, hh, rfl⟩ := N.act_cases hact
  · exact AckState.RankLe.refl _
  · exact rankLe_update hh.rankLe _ _ Y

/-- Along every run, every run of every member stays, at a rank no higher. -/
theorem steps_rankLe {es : List ProbeEvent} (hrun : Transition.Steps N.Step c es c')
    (Y : String) : AckState.RankLe (c.node Y) (c'.node Y) := by
  induction hrun with
  | nil => exact AckState.RankLe.refl _
  | cons hstep _ ih => exact (act_rankLe hstep.2 Y).trans ih

/-! ### Progress -/

/-- The rank of `X`'s run `ch`, or zero if there is none. -/
def runRank (c : ProbeCluster) (X : String) (ch : Nat) : Nat :=
  ((c.node X).probes[ch]?).elim 0 probeRun.rank

theorem runRank_eq {X : String} {ch : Nat} {p : probeRun} (hp : (c.node X).probes[ch]? = some p) :
    runRank c X ch = p.rank := by
  simp [runRank, hp]

/-- **Progress.**  A run of a member whose `ackCh` has room for two messages moves on, until it
    returns, by an event of the member itself that lowers its rank: the timer started with the
    ping, a timeout, the put-back, the remote failure, a message taken off `ackCh`, the armed
    timer when `ackCh` is empty, or the fallback. -/
theorem exists_local_step (hr : N.Reachable c) {X : String} (hX : X ∈ N.members)
    (hcap : 2 ≤ (N.pc X).chanCap) {ch : Nat} {p : probeRun}
    (hp : (c.node X).probes[ch]? = some p) (hpos : 0 < p.rank) :
    ∃ e c', e.isLocal X = true ∧ N.Step c e c' ∧
      ∃ p', (c'.node X).probes[ch]? = some p' ∧ p'.rank < p.rank := by
  have hinv := liveInv_of_reachable hr
  have hcap₁ : 0 < (N.pc X).chanCap := by omega
  -- a move of the run `ch` alone
  have hmod : ∀ f : probeRun → probeRun, ((c.node X).modifyProbe ch f).probes[ch]? = some (f p) :=
    fun f => by rw [AckState.getElem?_modifyProbe_eq' hp, if_pos rfl]
  cases hph : p.phase with
  | installing t =>
    obtain ⟨q, hq, hlt⟩ := AckState.probeSend_lowers hp hph (N.cfg X) (N.addr X) .sent
    exact ⟨.send X ch .sent, _, by simp [ProbeEvent.isLocal], ⟨hX, rfl⟩, q, by simpa using hq, hlt⟩
  | direct =>
    exact ⟨.direct X ch true, _, by simp [ProbeEvent.isLocal], ⟨hX, rfl⟩, _,
      by simpa using hmod _, p.rank_direct_lt hph⟩
  | requeue v =>
    -- the buffer holds at most one message besides the one put back
    have hroom : p.ackCh.length < (N.pc X).chanCap :=
      Nat.lt_of_not_le fun hfull => (hinv.load X).not_stuckAt hcap ⟨p, hp, hph, hfull⟩
    exact ⟨.requeue X ch, _, by simp [ProbeEvent.isLocal], ⟨hX, rfl⟩, _,
      by simpa using hmod _, p.rank_requeue_lt hph hroom⟩
  | failing =>
    obtain ⟨q, hq, hlt⟩ :=
      AckState.probeRemoteFailure_lowers hp hph (N.cfg X) (N.pc X) (N.addr X) []
    exact ⟨.remoteFailure X ch [], _, by simp [ProbeEvent.isLocal], ⟨hX, rfl⟩, q,
      by simpa using hq, hlt⟩
  | indirect =>
    by_cases hch : p.ackCh = []
    · -- nothing to take: the timer that `Live` keeps armed puts the message there
      have hmsgs : p.msgs = [] := by simp [probeRun.msgs, hch, hph, probePhase.held]
      have ha := ((hinv.live X hcap₁) ch p hp (by simp [hph, probePhase.Waits])).resolve_left
        (not_not.mpr hmsgs)
      obtain ⟨t, q, hq, hlt⟩ := ha.fireTimer_lowers hcap₁ hp hph hch
      exact ⟨.timer X t, _, by simp [ProbeEvent.isLocal], ⟨hX, rfl⟩, q, by simpa using hq, hlt⟩
    · exact ⟨.indirect X ch, _, by simp [ProbeEvent.isLocal], ⟨hX, rfl⟩, _,
        by simpa using hmod _, p.rank_indirect_lt hph hch⟩
  | fallback =>
    have hact : N.act c (.fallback X ch false) =
        .ok (c.update X ((c.node X).modifyProbe ch (probeRun.finish · false)) [] []) := by
      simp only [act, hp]
      rfl
    exact ⟨.fallback X ch false, _, by simp [ProbeEvent.isLocal], ⟨hX, hact⟩, _,
      by simpa using hmod _, p.rank_finish_lt hph false⟩
  | acked | abandoned | suspected => simp [probeRun.rank, hph] at hpos

/-- **Every probe run finishes when `ackCh` has room for two messages.**  In every reachable
    state, a run keeps its rank or lowers it along every run of the cluster, and the member's
    own goroutines and timers, with nothing from the network, bring it to return in at most its
    rank of steps. -/
theorem probe_run_finishes (hr : N.Reachable c) {X : String} (hX : X ∈ N.members)
    (hcap : 2 ≤ (N.pc X).chanCap) {ch : Nat} {p : probeRun}
    (hp : (c.node X).probes[ch]? = some p) :
    (∀ es c', Transition.Steps N.Step c es c' →
      ∃ p', (c'.node X).probes[ch]? = some p' ∧ p'.rank ≤ p.rank) ∧
    ∃ es c', es.length ≤ p.rank ∧ (∀ e ∈ es, e.isLocal X = true) ∧
      Transition.Steps N.Step c es c' ∧
      ∃ p', (c'.node X).probes[ch]? = some p' ∧ p'.phase.Done = true := by
  refine ⟨fun es c' hrun => steps_rankLe hrun X ch p hp, ?_⟩
  -- the rank of the run is a variant that the member's own events lower
  have hprog : ∀ c, N.Reachable c → 0 < runRank c X ch →
      ∃ e c', e.isLocal X = true ∧ N.Step c e c' ∧ runRank c' X ch < runRank c X ch := by
    intro c hc hpos
    cases hq : (c.node X).probes[ch]? with
    | none => simp [runRank, hq] at hpos
    | some q =>
      rw [runRank_eq hq] at hpos ⊢
      obtain ⟨e, c', he, hstep, q', hq', hlt⟩ := exists_local_step hc hX hcap hq hpos
      exact ⟨e, c', he, hstep, by rwa [runRank_eq hq']⟩
  obtain ⟨es, c', hlen, hloc, hrun, h0⟩ :=
    Transition.Reach.exists_steps_of_variant (fun c => runRank c X ch) hprog hr
  obtain ⟨p', hp', -⟩ := steps_rankLe hrun X ch p hp
  rw [runRank_eq hp] at hlen
  rw [runRank_eq hp'] at h0
  exact ⟨es, c', hlen, hloc, hrun, p', hp', probeRun.rank_eq_zero_iff.mp h0⟩

/-- `a` starts a probe of `b`: the run, yet to start its timer, can finish. -/
theorem probe_run_finishes_started :
    ∃ c p, twoMembers.Reachable c ∧ (c.node "a").probes[0]? = some p ∧ p.rank = 7 ∧
      (∀ es c', Transition.Steps twoMembers.Step c es c' →
        ∃ p', (c'.node "a").probes[0]? = some p' ∧ p'.rank ≤ p.rank) ∧
      ∃ es c', es.length ≤ p.rank ∧ (∀ e ∈ es, e.isLocal "a" = true) ∧
        Transition.Steps twoMembers.Step c es c' ∧
        ∃ p', (c'.node "a").probes[0]? = some p' ∧ p'.phase.Done = true := by
  have hr : twoMembers.Reachable _ := .step (.base rfl)
    (show twoMembers.Step _ (.probe "a" recordB) _ from ⟨by simp [AtMember, twoMembers], rfl⟩)
  obtain ⟨c, hc, hrank⟩ : ∃ c, twoMembers.Reachable c ∧
      ((c.node "a").probes[0]?).map probeRun.rank = some 7 := ⟨_, hr, by decide⟩
  obtain ⟨p, hp, hp7⟩ := Option.map_eq_some_iff.mp hrank
  exact ⟨c, p, hc, hp, hp7,
    probe_run_finishes hc (by simp [twoMembers]) (by decide) hp⟩

/-! ### A put-back that finds the buffer full -/

/-- No handler frees a run stuck in its put-back. -/
theorem Handles.stuckAt {X : String} {st s : AckState} {pkts : List Packet}
    (hh : N.Handles X st s pkts) {ch : Nat} {v : ackMessage}
    (h : st.StuckAt (N.pc X).chanCap ch v) : s.StuckAt (N.pc X).chanCap ch v := by
  cases hh with
  | probeStart hs => exact AckState.probeStart_stuckAt h hs
  | send ch' res => exact AckState.probeSend_stuckAt h _ _ ch' res
  | run ch' hf =>
    exact h.modifyProbe ch' fun p _ hph hfull => by
      rw [hf.eq_of_stuck hph hfull]
      exact ⟨hph, hfull⟩
  | remoteFailure ch' kNodes => exact AckState.probeRemoteFailure_stuckAt h _ _ _ ch' kNodes
  | handleMsg from_ m _ => exact AckState.handleMsg_stuckAt h from_ m
  | ackFn hs => exact AckState.invokeAckFn_stuckAt h hs
  | timer t => exact AckState.fireTimer_stuckAt h _ t
  | nack r timeout => exact AckState.nackGoroutine_stuckAt h _ _ r timeout

/-- No event frees a run stuck in its put-back. -/
theorem act_stuckAt {X : String} {ch : Nat} {v : ackMessage}
    (h : (c.node X).StuckAt (N.pc X).chanCap ch v) {e : ProbeEvent}
    (hact : N.act c e = .ok c') : (c'.node X).StuckAt (N.pc X).chanCap ch v := by
  obtain rfl | ⟨Y, s, pkts, ans, hh, rfl⟩ := N.act_cases hact
  · exact h
  rw [ProbeCluster.update_node, Function.update_apply]
  split
  · next hXY =>
    subst hXY
    exact hh.stuckAt h
  · exact h

/-- **A full put-back blocks for good.**  A run whose put-back `ackCh <- v` finds the buffer of
    `ackCh` full stays in that put-back, with the buffer full, along every run of the cluster:
    `probeNode` runs in the probe loop's goroutine, which then probes no one again. -/
theorem requeue_blocked {X : String} {ch : Nat} {p : probeRun} {v : ackMessage}
    (hp : (c.node X).probes[ch]? = some p) (hph : p.phase = .requeue v)
    (hfull : (N.pc X).chanCap ≤ p.ackCh.length) {es : List ProbeEvent}
    (hrun : Transition.Steps N.Step c es c') :
    ∃ p', (c'.node X).probes[ch]? = some p' ∧ p'.phase = .requeue v ∧
      (N.pc X).chanCap ≤ p'.ackCh.length := by
  have hstable : Transition.Stable N.Step fun d => (d.node X).StuckAt (N.pc X).chanCap ch v :=
    fun _ _ _ h hstep => act_stuckAt h hstep.2
  exact hrun.stable hstable ⟨p, hp, hph, hfull⟩

/-- `twoMembers` with `IndirectChecks = 0`: `ackCh` has room for one message. -/
def twoMembersOneSlot : ProbeNet :=
  { twoMembers with pc := fun _ => { ProbeConfig.default with IndirectChecks := 0 } }

/-- `a` pings `b`, and `b`'s ack arrives; the packet listener has taken the handler out when
    the timer fires.  `probeNode` takes the timer's message in the select, then the ack closure
    fills the one slot of `ackCh` before the put-back: `a`'s probe loop blocks for good. -/
theorem requeue_blocked_reached :
    ∃ c p v, twoMembersOneSlot.Reachable c ∧ (c.node "a").probes[0]? = some p ∧
      p.phase = .requeue v ∧ (twoMembersOneSlot.pc "a").chanCap ≤ p.ackCh.length ∧
      ∀ es c', Transition.Steps twoMembersOneSlot.Step c es c' →
        ∃ p', (c'.node "a").probes[0]? = some p' ∧ p'.phase = .requeue v ∧
          (twoMembersOneSlot.pc "a").chanCap ≤ p'.ackCh.length := by
  have ha : "a" ∈ twoMembersOneSlot.members := by simp [twoMembersOneSlot, twoMembers]
  have hr : twoMembersOneSlot.Reachable _ := Transition.Reach.steps (.base rfl)
    (.cons (show twoMembersOneSlot.Step _ (.probe "a" recordB) _ from ⟨ha, rfl⟩)
      (.cons (show twoMembersOneSlot.Step _ (.send "a" 0 .sent) _ from ⟨ha, rfl⟩)
        (.cons (show twoMembersOneSlot.Step _ (.deliver 0) _ from ⟨trivial, rfl⟩)
          (.cons (show twoMembersOneSlot.Step _ (.deliver 1) _ from ⟨trivial, rfl⟩)
            (.cons (show twoMembersOneSlot.Step _ (.timer "a" 0) _ from ⟨ha, rfl⟩)
              (.cons (show twoMembersOneSlot.Step _ (.direct "a" 0 false) _ from ⟨ha, rfl⟩)
                (.cons (show twoMembersOneSlot.Step _ (.ackFn "a" false) _ from ⟨ha, rfl⟩)
                  (.nil _))))))))
  obtain ⟨c, hc, hstate⟩ : ∃ c, twoMembersOneSlot.Reachable c ∧
      ((c.node "a").probes[0]?).map (fun p => (p.phase, p.ackCh.length)) =
        some (.requeue ⟨false, []⟩, 1) := ⟨_, hr, by decide⟩
  obtain ⟨p, hp, hpair⟩ := Option.map_eq_some_iff.mp hstate
  have hph : p.phase = .requeue ⟨false, []⟩ := congrArg Prod.fst hpair
  have hlen : p.ackCh.length = 1 := congrArg Prod.snd hpair
  have hfull : (twoMembersOneSlot.pc "a").chanCap ≤ p.ackCh.length := by
    rw [hlen]
    decide
  exact ⟨c, p, _, hc, hp, hph, hfull, fun es c' hrun => requeue_blocked hp hph hfull hrun⟩

end ProbeNet

end memberlist
