import Memberlist.Net.AckSpec
import Memberlist.Lib.Transition
import Mathlib

/-!
# The ping/ack exchange between members

Members run the exchange of `Net.Ack` over a network that may lose, duplicate, delay and
reorder packets: `net` is everything sent so far, and a member may receive any packet of it
addressed to it, any number of times, or never.  Timers fire, goroutines move on and TCP pings
succeed or fail in any order.  `answered` records every ping a member answered, with the
member and the address its ack went to; it is a history the statements speak of, not state of
the program.

* `ProbeNet` — the members, their configurations and advertised addresses, and the member that
  a packet sent to an address reaches; `ProbeNet.WF` — a member receives what is sent to its
  own address, and its configuration names it as the cluster does.
* `ProbeEvent`, `ProbeNet.act` — one step of one member: the start of a probe, the start of its
  timer with its ping, a wait of a probe run that ends, a packet received by a free packet
  listener, the rest of `invokeAckHandler`, a timer, a nack goroutine.  `act_cases` says once
  what a step can do: nothing, or one handler at one member (`ProbeNet.Handles`).
* `ProbeNet.Reachable` — the states of every run; `ProbeNet.ReachableNoWrap` — of the runs in
  which no member's `sequenceNum` wraps around.
* `handlers_inv`, `timers_inv` — in every reachable state the closures in each member's
  `ackHandlers` fit its goroutines and timers, so that `act_ok_of`: an event panics only at a
  negative channel size, or when `ah.timer.Stop()` finds the timer not yet stored.  A relay
  closure closes its `cancelCh` once, however often its ack arrives.
* `ack_before_timer_panics` — the second panic is real: an ack for a sequence number whose
  handler has no timer yet panics the packet listener, and once `sequenceNum` wraps around, an
  ack delayed from the first probe finds the handler of a new one
  (`ack_before_timer_panics_wrapped`).
-/

namespace memberlist

/-- The members of the exchange, their configurations and advertised addresses, and the member
    that a packet sent to an address reaches, if any. -/
structure ProbeNet where
  members : List String
  cfg : String → Config
  pc : String → ProbeConfig
  addr : String → IPPort
  owner : IPPort → Option String

/-- A member receives what is sent to its advertised address and is named as the cluster names
    it; a packet reaches members only. -/
structure ProbeNet.WF (N : ProbeNet) : Prop where
  owns : ∀ X ∈ N.members, N.owner (N.addr X) = some X
  named : ∀ X ∈ N.members, (N.cfg X).Name = X
  reaches : ∀ {d X}, N.owner d = some X → X ∈ N.members

/-- A ping some member answered: the member, the ping, and where its ack went. -/
structure Answer where
  node : String
  ping : ping
  dst : IPPort
  deriving DecidableEq, Repr

/-- The exchange at every member, everything sent so far, and every ping answered. -/
structure ProbeCluster where
  node : String → AckState
  net : List Packet
  answered : List Answer

/-- Every member new, and nothing sent. -/
def ProbeCluster.init : ProbeCluster where
  node _ := AckState.init
  net := []
  answered := []

/-- Member `X` moves to the state `s`, sends `pkts` and answers `ans`. -/
def ProbeCluster.update (c : ProbeCluster) (X : String) (s : AckState) (pkts : List Packet)
    (ans : List Answer) : ProbeCluster where
  node := Function.update c.node X s
  net := c.net ++ pkts
  answered := c.answered ++ ans

/-- One step of one member. -/
inductive ProbeEvent
  /-- `probeNode` of `X` on the record `node`, up to the unlock of `setProbeChannels` -/
  | probe (X : String) (node : nodeState)
  /-- `X`'s run `ch` starts its reaping timer and sends its ping, with the result `res` -/
  | send (X : String) (ch : Nat) (res : SendResult)
  /-- the select after the ping of `X`'s run `ch` -/
  | direct (X : String) (ch : Nat) (timeout : Bool)
  /-- the put-back `ackCh <- v` of `X`'s run `ch` -/
  | requeue (X : String) (ch : Nat)
  /-- `HANDLE_REMOTE_FAILURE` of `X`'s run `ch`, with the peers `kRandomNodes` chose -/
  | remoteFailure (X : String) (ch : Nat) (kNodes : List Node)
  /-- `v := <-ackCh` after the indirect pings of `X`'s run `ch` -/
  | indirect (X : String) (ch : Nat)
  /-- the fallback channel of `X`'s run `ch`, after a TCP ping that went through or not -/
  | fallback (X : String) (ch : Nat) (contact : Bool)
  /-- the packet `net[i]` received by the member its address reaches -/
  | deliver (i : Nat)
  /-- the packet listener of `X` finishes `invokeAckHandler`; `stopped` says whether
      `ah.timer.Stop()` stopped the timer, or found its function already started -/
  | ackFn (X : String) (stopped : Bool)
  /-- the reaping timer `t` of `X` fires -/
  | timer (X : String) (t : Nat)
  /-- the nack goroutine of `X`'s call `r` moves on -/
  | nack (X : String) (r : Nat) (timeout : Bool)

/-- The waits of a probe run that an event ends by itself, at a member whose `ackCh` has room
    for `cap` messages: the select after the ping, the put-back `ackCh <- v`, the wait on
    `ackCh` after the indirect pings, and the fallback. -/
inductive probeRun.WaitEnds (cap : Nat) : (probeRun → probeRun) → Prop
  | direct (timeout : Bool) : probeRun.WaitEnds cap (probeRun.direct · timeout)
  | requeue : probeRun.WaitEnds cap (probeRun.requeue · cap)
  | indirect : probeRun.WaitEnds cap probeRun.indirect
  | finish (didContact : Bool) : probeRun.WaitEnds cap (probeRun.finish · didContact)

/-- The end of a wait keeps the run's identity. -/
theorem probeRun.WaitEnds.ident {cap : Nat} {f : probeRun → probeRun}
    (hf : probeRun.WaitEnds cap f) (p : probeRun) : (f p).ident = p.ident := by
  cases hf with
  | direct timeout => exact p.ident_direct timeout
  | requeue => exact p.ident_requeue cap
  | indirect => exact p.ident_indirect
  | finish didContact => exact p.ident_finish didContact

/-- The end of a wait keeps whether the run installs a timer. -/
theorem probeRun.WaitEnds.installingAt {cap : Nat} {f : probeRun → probeRun}
    (hf : probeRun.WaitEnds cap f) (p : probeRun) :
    (f p).phase.installingAt = p.phase.installingAt := by
  cases hf with
  | direct timeout => exact p.installingAt_direct timeout
  | requeue => exact p.installingAt_requeue cap
  | indirect => exact p.installingAt_indirect
  | finish didContact => exact p.installingAt_finish didContact

namespace ProbeNet

variable (N : ProbeNet)

/-- The pings a member answers when a packet reaches it: one for each ack `handlePing` sends. -/
def answers (X : String) (pkt : Packet) : List Answer :=
  match pkt.msg with
  | .ping q =>
    (handlePing (N.cfg X) (N.pc X) (N.addr X) q pkt.src).map fun _ =>
      ⟨X, q, replyAddr q.SourceAddr q.SourcePort pkt.src⟩
  | _ => []

/-- The member that answers the TCP ping of `X`'s run `p`: the one a connection to the run's
    address reaches, if `sendPingAndWaitForAck` may dial it (it refuses an unnamed address when
    names are required) and the ping branch of `handleConn` there answers the ping. -/
def tcpResponder (X : String) (p : probeRun) : Option String :=
  if p.node.Node.Name = "" ∧ (N.cfg X).RequireNodeNames = true then none
  else
    match N.owner p.node.Node.ipPort with
    | some Y =>
      if AckState.Answers (N.cfg Y) (AckState.probePing (N.cfg X) (N.addr X) p.node p.seqNo) then
        some Y
      else none
    | none => none

/-- One event.  A TCP ping that reached a member that answered it counts as an answered ping
    whose ack went back to the prober. -/
def act (c : ProbeCluster) : ProbeEvent → Except Go.Panic ProbeCluster
  | .probe X node => do
    let s ← (c.node X).probeStart (N.pc X) node
    pure (c.update X s [] [])
  | .send X ch res =>
    let r := (c.node X).probeSend (N.cfg X) (N.addr X) ch res
    pure (c.update X r.1 r.2 [])
  | .direct X ch timeout =>
    pure (c.update X ((c.node X).modifyProbe ch (probeRun.direct · timeout)) [] [])
  | .requeue X ch =>
    pure (c.update X ((c.node X).modifyProbe ch (probeRun.requeue · (N.pc X).chanCap)) [] [])
  | .remoteFailure X ch kNodes =>
    let r := (c.node X).probeRemoteFailure (N.cfg X) (N.pc X) (N.addr X) ch kNodes
    pure (c.update X r.1 r.2 [])
  | .indirect X ch => pure (c.update X ((c.node X).modifyProbe ch probeRun.indirect) [] [])
  | .fallback X ch contact =>
    match (c.node X).probes[ch]? with
    | some p =>
      match (if contact = true ∧ p.tcp = true ∧ p.phase = .fallback then N.tcpResponder X p
          else none) with
      | some Y =>
        pure (c.update X ((c.node X).modifyProbe ch (probeRun.finish · true)) []
          [⟨Y, AckState.probePing (N.cfg X) (N.addr X) p.node p.seqNo, N.addr X⟩])
      | none => pure (c.update X ((c.node X).modifyProbe ch (probeRun.finish · false)) [] [])
    | none => pure c
  | .deliver i =>
    match c.net[i]? with
    | some pkt =>
      match N.owner pkt.dst with
      | some X =>
        -- the packet listener reads the next packet once `invokeAckHandler` has returned
        if (c.node X).invoking = none then
          let r := (c.node X).handleMsg (N.cfg X) (N.pc X) (N.addr X) pkt.src pkt.msg
          pure (c.update X r.1 r.2 (N.answers X pkt))
        else pure c
      | none => pure c
    | none => pure c
  | .ackFn X stopped => do
    let (s, pkts) ← (c.node X).invokeAckFn (N.cfg X) (N.pc X) (N.addr X) stopped
    pure (c.update X s pkts [])
  | .timer X t => pure (c.update X ((c.node X).fireTimer (N.pc X) t) [] [])
  | .nack X r timeout =>
    let res := (c.node X).nackGoroutine (N.cfg X) (N.addr X) r timeout
    pure (c.update X res.1 res.2 [])

/-- The member an event is at: a delivery is at the member the packet reaches. -/
def AtMember : ProbeEvent → Prop
  | .probe X _ | .send X _ _ | .direct X _ _ | .requeue X _ | .remoteFailure X _ _ | .indirect X _
  | .fallback X _ _ | .ackFn X _ | .timer X _ | .nack X _ _ => X ∈ N.members
  | .deliver _ => True

/-- A step: an event at a member that does not panic. -/
def Step (c : ProbeCluster) (e : ProbeEvent) (c' : ProbeCluster) : Prop :=
  N.AtMember e ∧ N.act c e = .ok c'

/-- A step after which no member's `sequenceNum` has gone down, that is, wrapped around. -/
def NoWrapStep (c : ProbeCluster) (e : ProbeEvent) (c' : ProbeCluster) : Prop :=
  N.Step c e c' ∧ ∀ X, (c.node X).sequenceNum.toNat ≤ (c'.node X).sequenceNum.toNat

/-- The states of every run from every member new. -/
def Reachable : ProbeCluster → Prop := Transition.Reach N.Step (· = ProbeCluster.init)

/-- The states of the runs in which no member's `sequenceNum` wraps around. -/
def ReachableNoWrap : ProbeCluster → Prop := Transition.Reach N.NoWrapStep (· = ProbeCluster.init)

/-- What an event does to the state `st` of the member `X` it is at: one handler, with the state
    it leaves and the packets it sends. -/
inductive Handles (X : String) (st : AckState) : AckState → List Packet → Prop
  | probeStart {node : nodeState} {s : AckState} :
      st.probeStart (N.pc X) node = .ok s → Handles X st s []
  | send (ch : Nat) (res : SendResult) :
      Handles X st (st.probeSend (N.cfg X) (N.addr X) ch res).1
        (st.probeSend (N.cfg X) (N.addr X) ch res).2
  | run (ch : Nat) {f : probeRun → probeRun} :
      probeRun.WaitEnds (N.pc X).chanCap f → Handles X st (st.modifyProbe ch f) []
  | remoteFailure (ch : Nat) (kNodes : List Node) :
      Handles X st (st.probeRemoteFailure (N.cfg X) (N.pc X) (N.addr X) ch kNodes).1
        (st.probeRemoteFailure (N.cfg X) (N.pc X) (N.addr X) ch kNodes).2
  | handleMsg (from_ : IPPort) (m : ProbeMsg) : st.invoking = none →
      Handles X st (st.handleMsg (N.cfg X) (N.pc X) (N.addr X) from_ m).1
        (st.handleMsg (N.cfg X) (N.pc X) (N.addr X) from_ m).2
  | ackFn {stopped : Bool} {s : AckState} {pkts : List Packet} :
      st.invokeAckFn (N.cfg X) (N.pc X) (N.addr X) stopped = .ok (s, pkts) → Handles X st s pkts
  | timer (t : Nat) : Handles X st (st.fireTimer (N.pc X) t) []
  | nack (r : Nat) (timeout : Bool) :
      Handles X st (st.nackGoroutine (N.cfg X) (N.addr X) r timeout).1
        (st.nackGoroutine (N.cfg X) (N.addr X) r timeout).2

end ProbeNet

/-! ### The handler invariant over all runs -/

namespace ProbeCluster

variable {c : ProbeCluster}

@[simp] theorem update_node (X : String) (s : AckState) (pkts : List Packet) (ans : List Answer) :
    (c.update X s pkts ans).node = Function.update c.node X s := rfl

@[simp] theorem update_net (X : String) (s : AckState) (pkts : List Packet) (ans : List Answer) :
    (c.update X s pkts ans).net = c.net ++ pkts := rfl

@[simp] theorem update_answered (X : String) (s : AckState) (pkts : List Packet)
    (ans : List Answer) : (c.update X s pkts ans).answered = c.answered ++ ans := rfl

/-- A property of every member's state that the new state of `X` has. -/
theorem forall_update {P : AckState → Prop} (h : ∀ Y, P (c.node Y)) {X : String} {s : AckState}
    (hs : P s) (pkts : List Packet) (ans : List Answer) :
    ∀ Y, P ((c.update X s pkts ans).node Y) := by
  intro Y
  rw [update_node, Function.update_apply]
  split
  · exact hs
  · exact h Y

end ProbeCluster

namespace ProbeNet

variable {N : ProbeNet} {c c' : ProbeCluster}

/-- **What an event can do**: nothing, or move the member it is at by one handler, with the
    packets the handler sends and the pings the member answers. -/
theorem act_cases {e : ProbeEvent} (hact : N.act c e = .ok c') :
    c' = c ∨ ∃ X s pkts ans, N.Handles X (c.node X) s pkts ∧ c' = c.update X s pkts ans := by
  cases e with
  | probe X node =>
    obtain ⟨s, hs, hc⟩ := Go.bind_eq_ok.mp hact
    cases hc
    exact .inr ⟨X, s, [], [], .probeStart hs, rfl⟩
  | send X ch res =>
    cases hact
    exact .inr ⟨X, _, _, [], .send ch res, rfl⟩
  | direct X ch timeout =>
    cases hact
    exact .inr ⟨X, _, [], [], .run ch (.direct timeout), rfl⟩
  | requeue X ch =>
    cases hact
    exact .inr ⟨X, _, [], [], .run ch .requeue, rfl⟩
  | remoteFailure X ch kNodes =>
    cases hact
    exact .inr ⟨X, _, _, [], .remoteFailure ch kNodes, rfl⟩
  | indirect X ch =>
    cases hact
    exact .inr ⟨X, _, [], [], .run ch .indirect, rfl⟩
  | fallback X ch contact =>
    simp only [act] at hact
    split at hact
    · -- the TCP ping answered or not
      split at hact <;> cases hact
      · exact .inr ⟨X, _, [], _, .run ch (.finish true), rfl⟩
      · exact .inr ⟨X, _, [], [], .run ch (.finish false), rfl⟩
    · cases hact
      exact .inl rfl
  | deliver i =>
    simp only [act] at hact
    split at hact
    · split at hact
      · next X _ =>
        split at hact
        · next hidle =>
          cases hact
          exact .inr ⟨X, _, _, _, .handleMsg _ _ hidle, rfl⟩
        · -- the packet listener is still in `invokeAckHandler`
          cases hact
          exact .inl rfl
      · -- a packet to no member is dropped
        cases hact
        exact .inl rfl
    · cases hact
      exact .inl rfl
  | ackFn X stopped =>
    obtain ⟨⟨s, pkts⟩, hs, hc⟩ := Go.bind_eq_ok.mp hact
    cases hc
    exact .inr ⟨X, s, pkts, [], .ackFn hs, rfl⟩
  | timer X t =>
    cases hact
    exact .inr ⟨X, _, [], [], .timer t, rfl⟩
  | nack X r timeout =>
    cases hact
    exact .inr ⟨X, _, _, [], .nack r timeout, rfl⟩

/-- Every handler keeps the handler invariant. -/
theorem Handles.inv {X : String} {st s : AckState} {pkts : List Packet}
    (hh : N.Handles X st s pkts) (h : st.Inv) : s.Inv := by
  cases hh with
  | probeStart hs => exact AckState.probeStart_inv h hs
  | send ch res => exact AckState.probeSend_inv h _ _ ch res
  | run ch hf => exact h.modifyProbe ch fun p => probeRun.seqNo_eq_of_ident (hf.ident p)
  | remoteFailure ch kNodes => exact AckState.probeRemoteFailure_inv h _ _ _ ch kNodes
  | handleMsg from_ m _ => exact AckState.handleMsg_inv h from_ m
  | ackFn hs => exact AckState.invokeAckFn_inv h hs
  | timer t => exact AckState.fireTimer_inv h _ t
  | nack r timeout => exact AckState.nackGoroutine_inv h _ _ r timeout

/-- Every handler keeps the timers fitting the handlers. -/
theorem Handles.timerInv {X : String} {st s : AckState} {pkts : List Packet}
    (hh : N.Handles X st s pkts) (h : st.TimerInv) : s.TimerInv := by
  cases hh with
  | probeStart hs => exact AckState.probeStart_timerInv h hs
  | send ch res => exact AckState.probeSend_timerInv h _ _ ch res
  | run ch hf => exact h.modifyProbe ch hf.installingAt
  | remoteFailure ch kNodes => exact AckState.probeRemoteFailure_timerInv h _ _ _ ch kNodes
  | handleMsg from_ m _ => exact AckState.handleMsg_timerInv h from_ m
  | ackFn hs => exact AckState.invokeAckFn_timerInv h hs
  | timer t => exact AckState.fireTimer_timerInv h _ t
  | nack r timeout => exact AckState.nackGoroutine_timerInv h _ _ r timeout

/-- A handler issues at most one run or call, under the next sequence number. -/
theorem Handles.issues {X : String} {st s : AckState} {pkts : List Packet}
    (hh : N.Handles X st s pkts) : st.Issues s := by
  cases hh with
  | probeStart hs => exact AckState.probeStart_issues hs
  | send ch res => exact (AckState.probeSend_keeps _ _ ch res).issues
  | run ch hf => exact (AckState.Keeps.modifyProbe hf.ident ch).issues
  | remoteFailure ch kNodes => exact (AckState.probeRemoteFailure_keeps _ _ _ ch kNodes).issues
  | handleMsg from_ m _ => exact AckState.handleMsg_issues from_ m
  | ackFn hs => exact (AckState.invokeAckFn_keeps hs).issues
  | timer t => exact (AckState.fireTimer_keeps _ t).issues
  | nack r timeout => exact (AckState.nackGoroutine_keeps _ _ r timeout).issues

/-- A handler keeps every run and call where it was. -/
theorem Handles.grows {X : String} {st s : AckState} {pkts : List Packet}
    (hh : N.Handles X st s pkts) : st.Grows s := by
  cases hh with
  | probeStart hs => exact AckState.probeStart_grows hs
  | send ch res => exact AckState.probeSend_grows _ _ ch res
  | run ch hf => exact .modifyProbe ch hf.ident fun p h => (hf.installingAt p).trans h
  | remoteFailure ch kNodes => exact AckState.probeRemoteFailure_grows _ _ _ ch kNodes
  | handleMsg from_ m _ => exact AckState.handleMsg_grows from_ m
  | ackFn hs => exact AckState.invokeAckFn_grows hs
  | timer t => exact AckState.fireTimer_grows _ t
  | nack r timeout => exact AckState.nackGoroutine_grows _ _ r timeout

/-- Every event keeps a property of every member that every handler keeps. -/
theorem act_forall {P : AckState → Prop}
    (hP : ∀ {X st s pkts}, N.Handles X st s pkts → P st → P s) (h : ∀ X, P (c.node X))
    {e : ProbeEvent} (hact : N.act c e = .ok c') : ∀ X, P (c'.node X) := by
  obtain rfl | ⟨X, s, pkts, ans, hh, rfl⟩ := N.act_cases hact
  · exact h
  · exact c.forall_update h (hP hh (h X)) _ _

/-- **The handler invariant**: in every reachable state, at every member, a probe closure
    writes the run under its own sequence number, and a relay closure belongs to the call under
    its own, whose `cancelCh` is open. -/
theorem handlers_inv (hr : N.Reachable c) : ∀ X, (c.node X).Inv :=
  Transition.Reach.induct (fun c => ∀ X, (c.node X).Inv)
    (fun _ h₀ => h₀ ▸ fun _ => AckState.init_inv)
    (fun _ _ _ _ h hstep => act_forall (fun hh => hh.inv) h hstep.2) hr

/-- In every reachable state, at every member, a handler's timer is the one installed with it,
    not started only while its run has yet to start it. -/
theorem timers_inv (hr : N.Reachable c) : ∀ X, (c.node X).TimerInv :=
  Transition.Reach.induct (fun c => ∀ X, (c.node X).TimerInv)
    (fun _ h₀ => h₀ ▸ fun _ => AckState.init_timerInv)
    (fun _ _ _ _ h hstep => act_forall (fun hh => hh.timerInv) h hstep.2) hr

/-- **An ack before the timer**: a delivered ack whose handler's timer `time.AfterFunc` has not
    yet stored makes the rest of `invokeAckHandler` panic on the nil pointer. -/
theorem ack_before_timer_panics {i : Nat} {pkt : Packet} {X : String} {a : ackResp}
    {ah : ackHandler} {τ : ackTimer} (hpkt : c.net[i]? = some pkt) (hX : N.owner pkt.dst = some X)
    (hm : pkt.msg = .ack a) (hidle : (c.node X).invoking = none)
    (hk : (c.node X).ackHandlers.lookup a.SeqNo = some ah)
    (hτ : (c.node X).timers[ah.timer]? = some τ) (hun : τ.status = .unstarted) (stopped : Bool) :
    ∃ c', N.act c (.deliver i) = .ok c' ∧
      N.act c' (.ackFn X stopped) = .error ⟨"invalid memory address or nil pointer dereference"⟩ := by
  -- the packet listener takes the handler out, with its timer index
  have hdeliver : N.act c (.deliver i) = .ok (c.update X ((c.node X).invokeAckHandler a) []
      (N.answers X pkt)) := by
    simp only [act, hpkt, hX, hidle, if_true, AckState.handleMsg, hm]
    rfl
  refine ⟨_, hdeliver, ?_⟩
  have hiv : ((c.node X).invokeAckHandler a).invoking = some ⟨ah, a.Payload⟩ := by
    rw [AckState.invokeAckHandler_of_some hk]
  have hτ' : ((c.node X).invokeAckHandler a).timers[ah.timer]? = some τ := by
    rw [AckState.invokeAckHandler_of_some hk]
    exact hτ
  simp only [act, ProbeCluster.update_node, Function.update_self]
  rw [AckState.invokeAckFn_of_unstarted hiv hτ' hun]
  rfl

/-- Two members, `a` at 10.0.0.1 and `b` at 10.0.0.2, with the default configurations. -/
def twoMembers : ProbeNet where
  members := ["a", "b"]
  cfg := DefaultLANConfig
  pc _ := ProbeConfig.default
  addr X := if X = "a" then ⟨[10, 0, 0, 1], 7946⟩ else ⟨[10, 0, 0, 2], 7946⟩
  owner d := if d = ⟨[10, 0, 0, 1], 7946⟩ then some "a"
    else if d = ⟨[10, 0, 0, 2], 7946⟩ then some "b" else none

theorem twoMembers_wf : twoMembers.WF where
  owns := by decide
  named _ _ := rfl
  reaches {d X} h := by
    simp only [twoMembers] at h
    split_ifs at h <;> simp_all [twoMembers]

/-- `a`'s record of `b`. -/
def recordB : nodeState :=
  ⟨⟨"b", [10, 0, 0, 2], 7946, [], StateAlive, 1, 5, 2, 0, 0, 0⟩, 1, StateAlive, 0⟩

/-- `probeNode` started `n` times at a member whose packet listener is free: nothing is sent,
    the sequence number moves on by `n`, and the listener stays free. -/
theorem steps_probe_replicate {X : String} (hX : X ∈ N.members)
    (hcap : 0 ≤ (N.pc X).IndirectChecks + 1) (node : nodeState) (n : Nat) :
    ∀ c : ProbeCluster, (c.node X).invoking = none →
      ∃ c', Transition.Steps N.Step c (List.replicate n (.probe X node)) c' ∧ c'.net = c.net ∧
        (c'.node X).sequenceNum.toNat = ((c.node X).sequenceNum.toNat + n) % 2 ^ 32 ∧
        (c'.node X).invoking = none := by
  induction n with
  | zero =>
    exact fun c hidle => ⟨c, .nil c, rfl, (Nat.mod_eq_of_lt (c.node X).sequenceNum.toNat_lt).symm,
      hidle⟩
  | succ n ih =>
    intro c hidle
    obtain ⟨s, hs⟩ := AckState.probeStart_ok (s := c.node X) hcap node
    obtain ⟨run, -, -, -, hs'⟩ := AckState.probeStart_spec hs
    have hact : N.act c (.probe X node) = .ok (c.update X s [] []) := by
      rw [act, hs]
      rfl
    -- one probe: a new run and its handlers, nothing sent
    have hseq : s.sequenceNum.toNat = ((c.node X).sequenceNum.toNat + 1) % 2 ^ 32 := by
      rw [hs']
      exact UInt32.toNat_add _ _
    have hinv : s.invoking = none := by rw [hs']; exact hidle
    obtain ⟨c', hrun, hnet, hseq', hidle'⟩ := ih (c.update X s [] [])
      (by simpa using hinv)
    refine ⟨c', .cons ⟨hX, hact⟩ hrun, by rw [hnet]; simp, ?_, hidle'⟩
    rw [hseq', ProbeCluster.update_node, Function.update_self, hseq]
    omega

/-- `a`'s first probe of `b` is answered; `a` then starts `2^32` more probes, and its sequence
    number comes back to that of the first.  The last probe's handler is in place, its timer not
    yet started, when `b`'s ack to the first probe arrives. -/
theorem ack_before_timer_panics_wrapped :
    ∃ c, twoMembers.Reachable c ∧ ∃ c', twoMembers.act c (.deliver 1) = .ok c' ∧
      twoMembers.act c' (.ackFn "a" true) =
        .error ⟨"invalid memory address or nil pointer dereference"⟩ := by
  have ha : "a" ∈ twoMembers.members := by simp [twoMembers]
  -- the first probe, its ping, and `b`'s ack
  obtain ⟨c₀, hr₀, hnet₀, hseq₀, hidle₀⟩ : ∃ c₀, twoMembers.Reachable c₀ ∧
      c₀.net[1]? = some ⟨⟨[10, 0, 0, 2], 7946⟩, ⟨[10, 0, 0, 1], 7946⟩, .ack ⟨1, []⟩⟩ ∧
      (c₀.node "a").sequenceNum = 1 ∧ (c₀.node "a").invoking = none :=
    ⟨_, .step (.step (.step (.base rfl)
      (show twoMembers.Step _ (.probe "a" recordB) _ from ⟨ha, rfl⟩))
      (show twoMembers.Step _ (.send "a" 0 .sent) _ from ⟨ha, rfl⟩))
      (show twoMembers.Step _ (.deliver 0) _ from ⟨trivial, rfl⟩), by decide, by decide, by decide⟩
  -- `2^32 - 1` more probes bring the sequence number round to 0
  obtain ⟨c₁, hrun, hnet₁, hseq₁, hidle₁⟩ :=
    steps_probe_replicate ha (by decide) recordB (2 ^ 32 - 1) c₀ hidle₀
  have hr₁ := hr₀.steps hrun
  -- and the last one takes 1 again, with a handler whose timer has not started
  obtain ⟨s, hs⟩ := AckState.probeStart_ok (s := c₁.node "a")
    (show (0 : Int64) ≤ (twoMembers.pc "a").IndirectChecks + 1 by decide) recordB
  obtain ⟨run, -, -, -, hs'⟩ := AckState.probeStart_spec hs
  have hseq : (c₁.node "a").sequenceNum + 1 = 1 := by
    have h0 : (c₁.node "a").sequenceNum = 0 := UInt32.toNat_inj.mp (by rw [hseq₁, hseq₀]; rfl)
    rw [h0]
    rfl
  have hact : twoMembers.act c₁ (.probe "a" recordB) = .ok (c₁.update "a" s [] []) := by
    rw [act, hs]
    rfl
  have hr₂ := hr₁.step (show twoMembers.Step _ (.probe "a" recordB) _ from ⟨ha, hact⟩)
  have hk : ((c₁.update "a" s [] []).node "a").ackHandlers.lookup 1 =
      some ⟨.probe (c₁.node "a").probes.length, (c₁.node "a").timers.length⟩ := by
    simp [hs', AckState.setProbeChannels, AckState.install, hseq]
  have hτ : ((c₁.update "a" s [] []).node "a").timers[(c₁.node "a").timers.length]? =
      some ⟨(c₁.node "a").sequenceNum + 1, some (c₁.node "a").probes.length, .unstarted⟩ := by
    simp [hs', AckState.setProbeChannels, AckState.install]
  exact ⟨_, hr₂, ack_before_timer_panics (by simpa [hnet₁] using hnet₀)
    (show twoMembers.owner _ = some "a" by decide) rfl
    (by simpa [hs', AckState.setProbeChannels, AckState.install] using hidle₁) hk hτ rfl true⟩

end ProbeNet

end memberlist
