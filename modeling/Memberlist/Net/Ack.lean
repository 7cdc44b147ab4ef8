import Memberlist.State.Basic
import Mathlib

/-!
# The ping/ack exchange (state.go, net.go)

`probeNode` pings a member and waits for its ack.  Failing that, it asks up to `IndirectChecks`
peers to ping the member for it, tries a TCP ping, and only then suspects the member.  Acks find
their way back through `ackHandlers`, a map from sequence number to the closures that
`setProbeChannels` and `setAckHandler` install, each reaped by a timer.

* `ping`, `indirectPingReq`, `ackResp`, `nackResp` — the messages of the exchange; a `Packet`
  carries one of them between two transport addresses (`IPPort`).  The rest of a compound
  packet (the suspect `probeNode` adds for a record that is not Alive, piggybacked broadcasts)
  goes to the membership handlers and is not part of this model.
* `AckState` — the fields of `Memberlist` the exchange uses (`sequenceNum`, `ackHandlers`) and
  the goroutines it starts: a `probeNode` run per probe with the contents of its `ackCh` and
  `nackCh`, the `handleIndirectPing` calls with their `cancelCh` and nack goroutine, the
  reaping timers, and the packet listener inside `invokeAckHandler`.  A closure is named by what
  it captured: the probe whose channels it writes, or the indirect request it answers.
* `nextSeqNo`, `setProbeChannels`, `setAckHandler`, `invokeAckHandler`, `invokeNackHandler`,
  `handlePing`, `handleIndirectPing` — translated from the source, cut where another goroutine
  may run: `setProbeChannels` at its unlock, before `time.AfterFunc` stores the reaping timer in
  the handler (`armTimer`), and `invokeAckHandler` at its unlock, before `ah.timer.Stop()` and
  `ah.ackFn` (`invokeAckFn`).
* `probeStart`, `probeSend`, `probeRun.direct`, `probeRun.requeue`, `probeRemoteFailure`,
  `probeRun.indirect`, `probeRun.finish` — `probeNode`, cut at its waits and blocking sends.
-/

namespace memberlist

/-- A transport address: the IP and the port that `joinHostPort` formats for the transport. -/
structure IPPort where
  ip : List UInt8
  port : UInt16
  deriving DecidableEq, Repr

/-- The transport address of `Node.FullAddress`. -/
def Node.ipPort (n : Node) : IPPort := ⟨n.Addr, n.Port⟩

/-- `ping`. -/
structure ping where
  SeqNo : UInt32
  Node : String
  SourceAddr : List UInt8
  SourcePort : UInt16
  SourceNode : String
  deriving DecidableEq, Repr

/-- `indirectPingReq`. -/
structure indirectPingReq where
  SeqNo : UInt32
  Target : List UInt8
  Port : UInt16
  Node : String
  Nack : Bool
  SourceAddr : List UInt8
  SourcePort : UInt16
  SourceNode : String
  deriving DecidableEq, Repr

/-- `ackResp`. -/
structure ackResp where
  SeqNo : UInt32
  Payload : List UInt8
  deriving DecidableEq, Repr

/-- `nackResp`. -/
structure nackResp where
  SeqNo : UInt32
  deriving DecidableEq, Repr

/-- A message of the exchange, decoded. -/
inductive ProbeMsg
  | ping (p : ping)
  | indirectPing (ind : indirectPingReq)
  | ack (a : ackResp)
  | nack (n : nackResp)
  deriving DecidableEq, Repr

/-- A packet of the exchange: the sender's address (the `from` of the receiving side), the
    destination, and the message. -/
structure Packet where
  src : IPPort
  dst : IPPort
  msg : ProbeMsg
  deriving DecidableEq, Repr

/-- The configuration fields `probeNode` and `handlePing` read beyond `Config`; `Ping` is the
    `AckPayload` of a ping delegate. -/
structure ProbeConfig where
  IndirectChecks : Int64
  DisableTcpPings : Bool
  DisableTcpPingsForNode : Option (String → Bool)
  Ping : Option (List UInt8)

/-- `DefaultLANConfig`'s values of these fields, without a ping delegate. -/
def ProbeConfig.default : ProbeConfig where
  IndirectChecks := 3
  DisableTcpPings := false
  DisableTcpPingsForNode := none
  Ping := none

/-- The capacity of a probe's `ackCh` and `nackCh`: `IndirectChecks+1`, in Go's `int`. -/
def ProbeConfig.chanCap (pc : ProbeConfig) : Nat := (pc.IndirectChecks + 1).toInt.toNat

/-- A send through `rawSendMsgPacket`, which refuses an unnamed address when names are required
    (`errNodeNamesAreRequired`); a failed send of a reply is only logged. -/
def sendTo (cfg : Config) (src dst : IPPort) (name : String) (msg : ProbeMsg) : List Packet :=
  if name = "" ∧ cfg.RequireNodeNames = true then [] else [⟨src, dst, msg⟩]

/-- Where a reply goes: the source the message names, if it names an address and a port, or
    else the sender of the packet. -/
def replyAddr (sourceAddr : List UInt8) (sourcePort : UInt16) (from_ : IPPort) : IPPort :=
  if 0 < sourceAddr.length ∧ 0 < sourcePort then ⟨sourceAddr, sourcePort⟩ else from_

/-- A send in a `select` with a `default` case: it goes through while the buffer has room, or
    to the receiver waiting on an unbuffered channel; otherwise it is dropped. -/
def offer {α : Type} (cap : Nat) (waiting : Bool) (buf : List α) (x : α) : List α :=
  if buf.length < cap ∨ (cap = 0 ∧ waiting = true ∧ buf = []) then buf ++ [x] else buf

/-- `ackMessage`, without its timestamp. -/
structure ackMessage where
  Complete : Bool
  Payload : List UInt8
  deriving DecidableEq, Repr

/-- Where a `probeNode` run is. -/
inductive probePhase
  /-- `setProbeChannels` has put the handler in place; `time.AfterFunc` has yet to start its
      reaping timer `t` -/
  | installing (t : Nat)
  /-- the ping sent: the select on `ackCh` and `ProbeTimeout` -/
  | direct
  /-- the timer's message taken off `ackCh` in that select, to be put back: `ackCh <- v` -/
  | requeue (v : ackMessage)
  /-- at `HANDLE_REMOTE_FAILURE` -/
  | failing
  /-- the indirect pings sent: `v := <-ackCh` -/
  | indirect
  /-- polling `fallbackCh` -/
  | fallback
  /-- returned after an ack, over UDP or TCP -/
  | acked
  /-- returned after a send that failed, not by the remote's fault -/
  | abandoned
  /-- returned after `suspectNode` -/
  | suspected
  deriving DecidableEq, Repr

/-- The phases in which the run is blocked receiving from `ackCh`. -/
def probePhase.receives : probePhase → Bool
  | .direct => true
  | .indirect => true
  | _ => false

/-- A `probeNode` run: the copy of the record it probes, the sequence number of its ping, the
    contents of its buffered `ackCh` and `nackCh`, the nacks it expects, whether it started a
    TCP ping, and the delta its deferred `ApplyDelta` applies. -/
structure probeRun where
  node : nodeState
  seqNo : UInt32
  ackCh : List ackMessage
  nackCh : List Unit
  expectedNacks : Nat
  tcp : Bool
  awarenessDelta : Int
  phase : probePhase
  deriving DecidableEq, Repr

/-- A `handleIndirectPing` call: the request's sequence number and target name, the address and
    name of the requester, the sequence number of the call's own ping, whether its `cancelCh`
    is closed, and whether its nack goroutine still waits. -/
structure relayRun where
  seqNo : UInt32
  node : String
  indAddr : IPPort
  sourceNode : String
  localSeqNo : UInt32
  cancelled : Bool
  nackWaiting : Bool
  deriving DecidableEq, Repr

/-- What the closures of an `ackHandler` were built by: `setProbeChannels` for the probe run
    `ch`, or `handleIndirectPing` for the call `r`. -/
inductive ackFn
  | probe (ch : Nat)
  | relay (r : Nat)
  deriving DecidableEq, Repr

/-- `ackHandler`: its closures and its reaping timer. -/
structure ackHandler where
  fn : ackFn
  timer : Nat
  deriving DecidableEq, Repr

/-- Where a reaping timer is: not yet started by `time.AfterFunc`, so that the handler's `timer`
    field is still nil; armed; or stopped or fired. -/
inductive timerStatus
  | unstarted
  | armed
  | done
  deriving DecidableEq, Repr

/-- A reaping timer: the sequence number whose handler it deletes, the probe run whose `ackCh`
    it writes (`setProbeChannels`) or none (`setAckHandler`), and where it is. -/
structure ackTimer where
  seqNo : UInt32
  probe : Option Nat
  status : timerStatus
  deriving DecidableEq, Repr

/-- The packet listener inside `invokeAckHandler`, past its unlock: the handler it took out of
    `ackHandlers`, and the ack's payload. -/
structure ackInvocation where
  ah : ackHandler
  payload : List UInt8
  deriving DecidableEq, Repr

/-- The state of the exchange at one member. -/
structure AckState where
  sequenceNum : UInt32
  ackHandlers : AList (fun _ : UInt32 => ackHandler)
  probes : List probeRun
  relays : List relayRun
  timers : List ackTimer
  invoking : Option ackInvocation

/-- A new member: sequence number 0, no handlers, no goroutines. -/
def AckState.init : AckState where
  sequenceNum := 0
  ackHandlers := ∅
  probes := []
  relays := []
  timers := []
  invoking := none

namespace AckState

variable (s : AckState)

/-- `nextSeqNo`: `atomic.AddUint32(&m.sequenceNum, 1)`. -/
def nextSeqNo : AckState × UInt32 :=
  ({ s with sequenceNum := s.sequenceNum + 1 }, s.sequenceNum + 1)

/-- The locked part of `setProbeChannels` and `setAckHandler`: a handler under `seqNo`, over any
    handler there, whose reaping timer is the next one and not yet started. -/
def install (seqNo : UInt32) (fn : ackFn) (probe : Option Nat) : AckState :=
  { s with
    ackHandlers := s.ackHandlers.insert seqNo ⟨fn, s.timers.length⟩
    timers := s.timers ++ [⟨seqNo, probe, .unstarted⟩] }

/-- `ah.timer = time.AfterFunc(timeout, …)`: the reaping timer `t` starts, and its handler's
    `timer` field holds it. -/
def armTimer (t : Nat) : AckState :=
  { s with timers := s.timers.modify t ({ · with status := .armed }) }

/-- `setProbeChannels` for the channels of the probe run `ch`, up to its unlock; the run itself
    starts the timer next (`probeSend`), and an ack may come in between. -/
def setProbeChannels (seqNo : UInt32) (ch : Nat) : AckState :=
  s.install seqNo (.probe ch) (some ch)

/-- `setAckHandler` for the relay closure of the `handleIndirectPing` call `r`.  It runs on the
    packet listener, the only goroutine that reads a handler's `timer`, so the timer is started
    before anything can look at it. -/
def setAckHandler (seqNo : UInt32) (r : Nat) : AckState :=
  (s.install seqNo (.relay r) none).armTimer s.timers.length

/-- Change the probe run `ch`. -/
def modifyProbe (ch : Nat) (f : probeRun → probeRun) : AckState :=
  { s with probes := s.probes.modify ch f }

end AckState

namespace probeRun

variable (cap : Nat) (p : probeRun)

/-- The ack closure of `setProbeChannels`: a complete ack offered to `ackCh`. -/
def offerAck (payload : List UInt8) : probeRun :=
  { p with ackCh := offer cap p.phase.receives p.ackCh ⟨true, payload⟩ }

/-- The reaping timer of `setProbeChannels`: `ackMessage{false}` offered to `ackCh`. -/
def offerTimeout : probeRun :=
  { p with ackCh := offer cap p.phase.receives p.ackCh ⟨false, []⟩ }

/-- The nack closure of `setProbeChannels`: a nack offered to `nackCh`, on which no one
    waits. -/
def offerNack : probeRun :=
  { p with nackCh := offer cap false p.nackCh () }

end probeRun

/-- Stop a reaping timer. -/
def ackTimer.disarm (τ : ackTimer) : ackTimer := { τ with status := .done }

namespace AckState

variable (cfg : Config) (pc : ProbeConfig) (self : IPPort) (s : AckState)

/-- `invokeAckHandler` up to its unlock: the handler under the ack's sequence number is looked up
    and deleted; if there was one, the packet listener goes on with it (`invokeAckFn`). -/
def invokeAckHandler (ack : ackResp) : AckState :=
  let s' := { s with ackHandlers := s.ackHandlers.erase ack.SeqNo }
  match s.ackHandlers.lookup ack.SeqNo with
  | none => s'
  | some ah => { s' with invoking := some ⟨ah, ack.Payload⟩ }

/-- The rest of `invokeAckHandler`: `ah.timer.Stop()`, which dereferences a nil pointer while
    `time.AfterFunc` has not yet stored the timer, and stops it unless its function already
    started (`stopped`); then `ah.ackFn`.  The relay closure of `handleIndirectPing` closes
    `cancelCh` and forwards the ack to the requester. -/
def invokeAckFn (stopped : Bool) : Except Go.Panic (AckState × List Packet) :=
  match s.invoking with
  | none => .ok (s, [])
  | some ⟨ah, payload⟩ =>
    let s' := { s with invoking := none }
    match s'.timers[ah.timer]? with
    | none => .ok (s', [])
    | some τ =>
      if τ.status = .unstarted then .error ⟨"invalid memory address or nil pointer dereference"⟩
      else
        let s' := if stopped then { s' with timers := s'.timers.modify ah.timer ackTimer.disarm }
          else s'
        match ah.fn with
        | .probe ch => .ok (s'.modifyProbe ch (probeRun.offerAck pc.chanCap · payload), [])
        | .relay r =>
          match s'.relays[r]? with
          | none => .ok (s', [])
          | some ρ =>
            -- `close(cancelCh)`
            if ρ.cancelled then .error ⟨"close of closed channel"⟩
            else .ok ({ s' with relays := s'.relays.set r { ρ with cancelled := true } },
              sendTo cfg self ρ.indAddr ρ.sourceNode (.ack ⟨ρ.seqNo, []⟩))

/-- `invokeNackHandler`: the nack closure of the handler under the sequence number, if it has
    one (`setAckHandler` installs none). -/
def invokeNackHandler (nack : nackResp) : AckState :=
  match s.ackHandlers.lookup nack.SeqNo with
  | some ⟨.probe ch, _⟩ => s.modifyProbe ch (probeRun.offerNack pc.chanCap)
  | _ => s

/-- The reaping timer `t` fires: it deletes the handler under its sequence number, whichever
    that is by now, and a probe's timer offers `ackMessage{false}`. -/
def fireTimer (t : Nat) : AckState :=
  match s.timers[t]? with
  | some τ =>
    if τ.status = .armed then
      let s' := { s with
        ackHandlers := s.ackHandlers.erase τ.seqNo
        timers := s.timers.modify t ackTimer.disarm }
      match τ.probe with
      | some ch => s'.modifyProbe ch (probeRun.offerTimeout pc.chanCap)
      | none => s'
    else s
  | none => s

/-- The nack goroutine of the call `r`: `timeout` takes the `time.After(ProbeTimeout)` case and
    sends the nack; otherwise it takes the `cancelCh` case, once that is closed, and returns. -/
def nackGoroutine (r : Nat) (timeout : Bool) : AckState × List Packet :=
  match s.relays[r]? with
  | some ρ =>
    if ρ.nackWaiting then
      if timeout then
        ({ s with relays := s.relays.set r { ρ with nackWaiting := false } },
          sendTo cfg self ρ.indAddr ρ.sourceNode (.nack ⟨ρ.seqNo⟩))
      else if ρ.cancelled then ({ s with relays := s.relays.set r { ρ with nackWaiting := false } }, [])
      else (s, [])
    else (s, [])
  | none => (s, [])

/-- The check of `handlePing` (and of the ping branch of `handleConn`): a ping that names
    another node is not answered. -/
def Answers (cfg : Config) (p : ping) : Prop := p.Node = "" ∨ p.Node = cfg.Name

instance (cfg : Config) (p : ping) : Decidable (Answers cfg p) :=
  inferInstanceAs (Decidable (_ ∨ _))

end AckState

/-- `handlePing`: a ping for another node is dropped; otherwise an ack with its sequence number
    goes back to the address it names, or to its sender. -/
def handlePing (cfg : Config) (pc : ProbeConfig) (self : IPPort) (p : ping) (from_ : IPPort) :
    List Packet :=
  if AckState.Answers cfg p then
    sendTo cfg self (replyAddr p.SourceAddr p.SourcePort from_) p.SourceNode
      (.ack ⟨p.SeqNo, pc.Ping.getD []⟩)
  else []

namespace AckState

variable (cfg : Config) (pc : ProbeConfig) (self : IPPort) (s : AckState)

/-- `handleIndirectPing`: ping the target under a sequence number of our own, with a handler
    that relays the ack to the requester, and a nack goroutine if the request asks for one. -/
def handleIndirectPing (ind : indirectPingReq) (from_ : IPPort) : AckState × List Packet :=
  -- for protocol versions below 2 there is no port: the configured one is used
  let ind := if cfg.ProtocolVersion < 2 ∨ ind.Port = 0 then
    { ind with Port := UInt16.ofNat cfg.BindPort } else ind
  let (s, localSeqNo) := s.nextSeqNo
  let ping : ping :=
    { SeqNo := localSeqNo, Node := ind.Node, SourceAddr := self.ip, SourcePort := self.port,
      SourceNode := cfg.Name }
  let r := s.relays.length
  let call : relayRun :=
    { seqNo := ind.SeqNo
      node := ind.Node
      indAddr := replyAddr ind.SourceAddr ind.SourcePort from_
      sourceNode := ind.SourceNode
      localSeqNo := localSeqNo
      cancelled := false
      nackWaiting := ind.Nack }
  let s := { s with relays := s.relays ++ [call] }
  (s.setAckHandler localSeqNo r, sendTo cfg self ⟨ind.Target, ind.Port⟩ ind.Node (.ping ping))

/-- `handleCommand` on a message of the exchange, which it handles at once (an ack up to the
    unlock of `invokeAckHandler`). -/
def handleMsg (from_ : IPPort) : ProbeMsg → AckState × List Packet
  | .ping p => (s, handlePing cfg pc self p from_)
  | .indirectPing ind => s.handleIndirectPing cfg self ind from_
  | .ack a => (s.invokeAckHandler a, [])
  | .nack n => (s.invokeNackHandler pc n, [])

end AckState

/-- How the send of `probeNode`'s ping ended: sent, failed in a way `failedRemote` blames on the
    remote (a write error of the transport), or failed otherwise. -/
inductive SendResult
  | sent
  | failedRemote
  | failed
  deriving DecidableEq, Repr

namespace AckState

variable (cfg : Config) (pc : ProbeConfig) (self : IPPort) (s : AckState)

/-- The ping `probeNode` sends for the run with sequence number `seqNo` on the record `node`. -/
def probePing (node : nodeState) (seqNo : UInt32) : ping :=
  { SeqNo := seqNo, Node := node.Node.Name, SourceAddr := self.ip, SourcePort := self.port,
    SourceNode := cfg.Name }

/-- `probeNode` up to the unlock of `setProbeChannels`: a sequence number, the channels
    `make(chan ackMessage, m.config.IndirectChecks+1)`, and the handlers under the number, whose
    timer the run starts next. -/
def probeStart (node : nodeState) : Except Go.Panic AckState :=
  if pc.IndirectChecks + 1 < 0 then .error ⟨"makechan: size out of range"⟩
  else
    let (s, seqNo) := s.nextSeqNo
    let ch := s.probes.length
    let run : probeRun :=
      { node := node
        seqNo := seqNo
        ackCh := []
        nackCh := []
        expectedNacks := 0
        tcp := false
        awarenessDelta := 0
        phase := .installing s.timers.length }
    .ok (({ s with probes := s.probes ++ [run] }).setProbeChannels seqNo ch)

/-- The rest of `setProbeChannels`, which starts the reaping timer, and the ping.  After a sent
    ping the awareness delta is -1 and the run waits for the ack; a send that failed by the
    remote's fault goes on at `HANDLE_REMOTE_FAILURE`, any other returns. -/
def probeSend (ch : Nat) (res : SendResult) : AckState × List Packet :=
  match s.probes[ch]? with
  | some p =>
    match p.phase with
    | .installing t =>
      let s := s.armTimer t
      if p.node.Node.Name = "" ∧ cfg.RequireNodeNames = true then
        (s.modifyProbe ch ({ · with phase := .abandoned }), [])
      else
        match res with
        | .sent =>
          (s.modifyProbe ch ({ · with awarenessDelta := -1, phase := .direct }),
            [⟨self, p.node.Node.ipPort, .ping (probePing cfg self p.node p.seqNo)⟩])
        | .failedRemote => (s.modifyProbe ch ({ · with phase := .failing }), [])
        | .failed => (s.modifyProbe ch ({ · with phase := .abandoned }), [])
    | _ => (s, [])
  | none => (s, [])

/-- `HANDLE_REMOTE_FAILURE`: an indirect ping to each of `kNodes` (the result of
    `kRandomNodes(IndirectChecks, …)`), asking a nack of those that speak protocol 4, and a TCP
    ping if they are not disabled and the member speaks protocol 3. -/
def probeRemoteFailure (ch : Nat) (kNodes : List Node) : AckState × List Packet :=
  match s.probes[ch]? with
  | some p =>
    if p.phase = .failing then
      let ind (nack : Bool) : indirectPingReq :=
        { SeqNo := p.seqNo, Target := p.node.Node.Addr, Port := p.node.Node.Port,
          Node := p.node.Node.Name, Nack := nack, SourceAddr := self.ip, SourcePort := self.port,
          SourceNode := cfg.Name }
      let disableTcpPings := pc.DisableTcpPings || pc.DisableTcpPingsForNode.any (· p.node.Node.Name)
      ({ s with probes := s.probes.set ch { p with
          expectedNacks := (kNodes.filter fun peer => decide (peer.PMax ≥ 4)).length
          tcp := !disableTcpPings && decide (p.node.Node.PMax ≥ 3)
          phase := .indirect } },
        kNodes.flatMap fun peer =>
          sendTo cfg self peer.ipPort peer.Name (.indirectPing (ind (decide (peer.PMax ≥ 4)))))
    else (s, [])
  | none => (s, [])

end AckState

/-- The awareness delta of a probe that heard nothing: the nacks expected and not received, or
    1 without a peer to nack. -/
def failureDelta (expectedNacks nackCount : Nat) : Int :=
  if expectedNacks > 0 then
    if nackCount < expectedNacks then (expectedNacks : Int) - nackCount else 0
  else 1

namespace probeRun

variable (p : probeRun)

/-- The select after the ping.  `timeout` takes the `time.After(ProbeTimeout)` case; otherwise
    a message is taken off `ackCh`: a complete ack ends the probe, the timer's message is to be
    put back. -/
def direct (timeout : Bool) : probeRun :=
  if p.phase = .direct then
    if timeout then { p with phase := .failing }
    else
      match p.ackCh with
      | v :: rest =>
        if v.Complete then { p with ackCh := rest, phase := .acked }
        else { p with ackCh := rest, phase := .requeue v }
      | [] => p
  else p

/-- `ackCh <- v`, after which the run goes on at `HANDLE_REMOTE_FAILURE`.  No one else receives
    from `ackCh`, so the send goes through only while the buffer has room. -/
def requeue (cap : Nat) : probeRun :=
  match p.phase with
  | .requeue v =>
    if p.ackCh.length < cap then { p with ackCh := p.ackCh ++ [v], phase := .failing } else p
  | _ => p

/-- `v := <-ackCh` after the indirect pings: a complete ack ends the probe, the timer's message
    sends it on to the TCP fallback. -/
def indirect : probeRun :=
  if p.phase = .indirect then
    match p.ackCh with
    | v :: rest =>
      if v.Complete then { p with ackCh := rest, phase := .acked }
      else { p with ackCh := rest, phase := .fallback }
    | [] => p
  else p

/-- The fallback channel, then the end: a TCP ping that reached the member ends the probe;
    otherwise the awareness delta comes from the nacks and the member is suspected. -/
def finish (didContact : Bool) : probeRun :=
  if p.phase = .fallback then
    if didContact then { p with phase := .acked }
    else { p with awarenessDelta := failureDelta p.expectedNacks p.nackCh.length, phase := .suspected }
  else p

end probeRun

end memberlist
