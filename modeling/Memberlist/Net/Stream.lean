import Memberlist.Net.Packet
import Memberlist.State.Rep

/-!
# The stream path (net.go)

A stream connection carries one request: an optional label header, then a message type byte,
an encrypted or compressed body if configured, and the body itself.  A push/pull request is

    [pushPullMsg] msgpack(pushPullHeader) msgpack(pushNodeState) × Nodes [user state]

* `StreamDecoder` — msgpack decoding off the stream (`codec.Decoder.Decode`), taken as a
  parameter: each call yields a value of the type asked for and the rest of the stream, or an
  error.  What is decoded is arbitrary: `pushPullHeader.Nodes` can be negative, a
  `pushNodeState.Vsn` of any length.
* `decryptRemoteState`, `readStream`, `readRemoteState`, `readUserMsg` — the readers.
  `readStream` indexes the decrypted and the decompressed body at 0 without checking that
  they are non-empty, and `readRemoteState` allocates `header.Nodes` records without checking
  its sign.
* `handleConn` — the whole request, from the label header on.  A push/pull request is the
  step `Op.sendState` followed by the step `Op.pushPull` of the node model
  (`pushPullReply_steps`), so a stream leads a reachable node to a reachable state
  (`Reachable.of_handleConn`).
* `pushPull_stream_short_vsn_panics` — a push/pull request with one Alive record whose version
  vector has one byte panics in `verifyProtocol`.
* `NetReachable` — the states a node reaches through what its goroutines handle: the messages
  of packets, streams, and its own steps.  They are reachable states of the node model
  (`NetReachable.reachable`), so whatever the network sends the node keeps the representation
  invariant of its member list (`netReachable_rep`).

Neither the limit on concurrent push/pull requests nor the delegate's handling of user state
and user messages is modelled.
-/

namespace memberlist

open Go BigEndian

/-- `pushPullHeader`. -/
structure pushPullHeader where
  Nodes : Int
  UserStateLen : Int
  Join : Bool
  deriving DecidableEq, Repr

/-- `userMsgHeader`. -/
structure userMsgHeader where
  UserMsgLen : Int
  deriving DecidableEq, Repr

/-- msgpack decoding off a stream, for each type read from one: the value and the rest of the
    stream, or the decoder's error. -/
structure StreamDecoder where
  header : List UInt8 → Except String (pushPullHeader × List UInt8)
  node : List UInt8 → Except String (pushNodeState × List UInt8)
  userMsg : List UInt8 → Except String (userMsgHeader × List UInt8)

/-- A decoder that reads the given values and consumes nothing: a concrete `StreamDecoder` to
    instantiate the theorems with. -/
def StreamDecoder.constant (h : pushPullHeader) (n : pushNodeState) (u : userMsgHeader) :
    StreamDecoder where
  header buf := .ok (h, buf)
  node buf := .ok (n, buf)
  userMsg buf := .ok (u, buf)

/-- `maxPushStateBytes`. -/
def maxPushStateBytes : Nat := 20 * 1024 * 1024

/-- `io.ReadAtLeast`'s error for a stream that ends early: `EOF` when nothing was read. -/
def shortReadError (buf : List UInt8) : String :=
  if buf = [] then "EOF" else "unexpected EOF"

/-- `decryptRemoteState bufConn streamLabel`: the length, the payload it announces, and its
    decryption with the stream header and the label as additional data. -/
def decryptRemoteState (c : Codec) (cfg : Config) (buf streamLabel : List UInt8) :
    Except Panic (Except String (List UInt8)) :=
  -- Read in enough to determine message length
  if buf.length < 4 then .ok (.error "EOF")
  else
    let moreBytes := ofListBE (buf.take 4)
    if moreBytes > maxPushStateBytes then .ok (.error "remote node state is larger than limit")
    else if buf.length < 4 + moreBytes then .ok (.error "EOF")
    else
      let cipherText := encryptMsg :: buf.take (4 + moreBytes)
      decryptPayload c.gcm cfg.keys (cipherText.drop 5) (cipherText.take 5 ++ streamLabel)

/-- `readStream conn streamLabel`: the message type and the rest of the stream, after the
    decryption and the decompression of the body. -/
def readStream (c : Codec) (cfg : Config) (streamLabel : List UInt8) :
    List UInt8 → Except Panic (Except String (UInt8 × List UInt8))
  | [] => .ok (.error "EOF")
  | msgType :: buf => do
    let r : Except String (UInt8 × List UInt8) ←
      if msgType = encryptMsg then
        if !cfg.EncryptionEnabled then
          pure (.error "remote state is encrypted and encryption is not configured")
        else do
          match ← decryptRemoteState c cfg buf streamLabel with
          | .error e => pure (.error e)
          | .ok plain => do
            -- Reset message type and bufConn
            let msgType ← index plain 0
            pure (.ok (msgType, plain.drop 1))
      else if cfg.EncryptionEnabled && cfg.GossipVerifyIncoming then
        pure (.error "encryption is configured but remote state is not encrypted")
      else pure (.ok (msgType, buf))
    match r with
    | .error e => pure (.error e)
    | .ok (msgType, buf) =>
      -- Check if we have a compressed message
      if msgType = compressMsg then
        match c.decompressPayload buf with
        | .error e => pure (.error e)
        | .ok decomp => do
          let msgType ← index decomp 0
          pure (.ok (msgType, decomp.drop 1))
      else pure (.ok (msgType, buf))

/-- The loop of `readRemoteState` that decodes `n` records off the stream. -/
def decodeNodes (dec : StreamDecoder) : Nat → List UInt8 →
    Except String (List pushNodeState × List UInt8)
  | 0, buf => .ok ([], buf)
  | n + 1, buf =>
    match dec.node buf with
    | .error e => .error e
    | .ok (node, buf) =>
      match decodeNodes dec n buf with
      | .error e => .error e
      | .ok (nodes, buf) => .ok (node :: nodes, buf)

/-- `readRemoteState bufConn dec`: the join flag, the records with their ports masked, and the
    user state. -/
def readRemoteState (cfg : Config) (dec : StreamDecoder) (buf : List UInt8) :
    Except Panic (Except String (Bool × List pushNodeState × Option (List UInt8))) :=
  match dec.header buf with
  | .error e => .ok (.error e)
  | .ok (header, buf) =>
    -- `make([]pushNodeState, header.Nodes)`
    if header.Nodes < 0 then .error ⟨"makeslice: len out of range"⟩
    else
      match decodeNodes dec header.Nodes.toNat buf with
      | .error e => .ok (.error e)
      | .ok (remoteNodes, buf) =>
        let remoteNodes := remoteNodes.map fun n => { n with Port := maskPort cfg n.Port }
        if header.UserStateLen > 0 then
          if buf.length < header.UserStateLen.toNat then .ok (.error (shortReadError buf))
          else .ok (.ok (header.Join, remoteNodes, some (buf.take header.UserStateLen.toNat)))
        else .ok (.ok (header.Join, remoteNodes, none))

/-- `readUserMsg bufConn dec`: the user message handed to the delegate, if any. -/
def readUserMsg (dec : StreamDecoder) (buf : List UInt8) : Except String (Option (List UInt8)) :=
  match dec.userMsg buf with
  | .error e => .error e
  | .ok (header, buf) =>
    if header.UserMsgLen > 0 then
      if buf.length < header.UserMsgLen.toNat then .error (shortReadError buf)
      else .ok (some (buf.take header.UserMsgLen.toNat))
    else .ok none

/-- The push/pull branch of `handleConn` once the remote state is read: `sendLocalState`
    writes the local records, then `mergeRemoteState` merges the remote ones. -/
def pushPullReply (cfg : Config) (m : Memberlist) (env : Env) (join : Bool)
    (remoteNodes : List pushNodeState) : Except Panic (Memberlist × List Effect) := do
  let eff := [Effect.state m.localState]
  match ← m.mergeRemoteState cfg env join remoteNodes with
  | .ok m' => pure (m', eff)
  | .error _ => pure (m, eff)

/-- The part of `handleConn` after the label check: `readStream`, then the request by its
    message type. -/
def handleStream (c : Codec) (dec : StreamDecoder) (cfg : Config) (m : Memberlist) (env : Env)
    (streamLabel buf : List UInt8) : Except Panic (Memberlist × List Effect) := do
  match ← readStream c cfg streamLabel buf with
  -- the error is sent back on the stream
  | .error _ => pure (m, [])
  | .ok (msgType, buf) =>
    if msgType = pushPullMsg then do
      match ← readRemoteState cfg dec buf with
      | .error _ => pure (m, [])
      | .ok (join, remoteNodes, _) => pushPullReply cfg m env join remoteNodes
    -- a user message goes to the delegate, a ping is acked
    else pure (m, [])

/-- `handleConn conn` on the bytes of the stream: the state after it and its effects, with
    `env` deciding what the environment does while the remote state is merged. -/
def handleConn (c : Codec) (dec : StreamDecoder) (cfg : Config) (m : Memberlist) (env : Env)
    (stream : List UInt8) : Except Panic (Memberlist × List Effect) :=
  match RemoveLabelHeaderFromStream stream with
  | .error _ => .ok (m, [])
  | .ok (buf, streamLabel) =>
    -- unexpected double stream label header
    if cfg.SkipInboundLabelCheck && streamLabel ≠ [] then .ok (m, [])
    else
      let streamLabel := if cfg.SkipInboundLabelCheck then cfg.Label else streamLabel
      if cfg.Label ≠ streamLabel then .ok (m, [])
      else handleStream c dec cfg m env streamLabel buf

/-! ### A push/pull request is two steps of the node -/

/-- A push/pull request that reads is the node's `Op.sendState` step followed by its
    `Op.pushPull` step on the records read. -/
theorem pushPullReply_steps (cfg : Config) (m : Memberlist) (env : Env) (join : Bool)
    (remoteNodes : List pushNodeState) :
    pushPullReply cfg m env join remoteNodes = (do
      let (m₁, eff₁) ← m.step cfg env .sendState
      let (m₂, eff₂) ← m₁.step cfg env (.pushPull join remoteNodes)
      pure (m₂, eff₁ ++ eff₂)) := by
  simp only [pushPullReply, Memberlist.step, bind, Except.bind, pure, Except.pure]
  cases m.mergeRemoteState cfg env join remoteNodes with
  | error e => rfl
  | ok r =>
    cases r with
    | error _ => rfl
    | ok m' => rfl

/-- The state after a push/pull exchange from a reachable state is reachable. -/
theorem Reachable.of_pushPullReply {cfg : Config} {m : Memberlist} {env : Env} {join : Bool}
    {remoteNodes : List pushNodeState} {r : Memberlist × List Effect} (h : Reachable cfg m)
    (hr : pushPullReply cfg m env join remoteNodes = .ok r) : Reachable cfg r.1 := by
  rw [pushPullReply_steps] at hr
  obtain ⟨⟨m₁, eff₁⟩, h₁, hr⟩ := bind_eq_ok.mp hr
  obtain ⟨⟨m₂, eff₂⟩, h₂, hr⟩ := bind_eq_ok.mp hr
  cases hr
  have hm₁ := Reachable.of_step env _ h h₁
  have hm₂ := Reachable.of_step env _ hm₁ h₂
  exact hm₂

/-- The state after a request read off a stream from a reachable state is reachable. -/
theorem Reachable.of_handleStream {c : Codec} {dec : StreamDecoder} {cfg : Config}
    {m : Memberlist} {env : Env} {streamLabel buf : List UInt8} {r : Memberlist × List Effect}
    (h : Reachable cfg m) (hr : handleStream c dec cfg m env streamLabel buf = .ok r) :
    Reachable cfg r.1 := by
  obtain ⟨read, _, hr⟩ := bind_eq_ok.mp hr
  split at hr
  · cases hr
    exact h
  split at hr
  · obtain ⟨state, _, hr⟩ := bind_eq_ok.mp hr
    split at hr
    · cases hr
      exact h
    · exact Reachable.of_pushPullReply h hr
  · cases hr
    exact h

/-- Whatever a stream holds, the state after `handleConn` from a reachable state is
    reachable: a stream can do to a node only what its own steps can. -/
theorem Reachable.of_handleConn {c : Codec} {dec : StreamDecoder} {cfg : Config} {m : Memberlist}
    {env : Env} {stream : List UInt8} {r : Memberlist × List Effect} (h : Reachable cfg m)
    (hr : handleConn c dec cfg m env stream = .ok r) : Reachable cfg r.1 := by
  unfold handleConn at hr
  split at hr
  · cases hr
    exact h
  dsimp only at hr
  -- a label that is not accepted ends the connection
  split_ifs at hr <;> first
    | exact Reachable.of_handleStream h hr
    | cases hr
      exact h

/-! ### The faults -/

/-- A header announcing a negative number of records makes `make` panic. -/
theorem readRemoteState_negative_nodes {cfg : Config} {dec : StreamDecoder}
    {buf rest : List UInt8} {header : pushPullHeader} (hdec : dec.header buf = .ok (header, rest))
    (hneg : header.Nodes < 0) :
    readRemoteState cfg dec buf = .error ⟨"makeslice: len out of range"⟩ := by
  simp only [readRemoteState, hdec, hneg, if_true]

/-- A compressed body that decompresses to nothing makes `readStream` index it past its end. -/
theorem readStream_empty_decompress {c : Codec} {cfg : Config} {streamLabel buf : List UInt8}
    (hplain : (cfg.EncryptionEnabled && cfg.GossipVerifyIncoming) = false)
    (hdec : c.decompressPayload buf = .ok []) :
    readStream c cfg streamLabel (compressMsg :: buf) = .error ⟨"index out of range"⟩ := by
  have hne : compressMsg ≠ encryptMsg := by decide
  simp only [readStream, hne, if_false, hplain, Bool.false_eq_true, hdec, index, bind,
    Except.bind, pure, Except.pure, if_true]
  rfl

/-- A push/pull request with one Alive record whose version vector has a single byte: the
    header and the record are read, and `verifyProtocol` indexes the vector past its end. -/
theorem pushPull_stream_short_vsn_panics {c : Codec} {dec : StreamDecoder}
    {enc₁ enc₂ : List UInt8} (hheader : dec.header (enc₁ ++ enc₂) = .ok (⟨1, 0, false⟩, enc₂))
    (hnode : dec.node enc₂ = .ok (⟨"b", [10, 0, 0, 2], 7946, [], 1, StateAlive, [1]⟩, [])) :
    handleConn c dec (DefaultLANConfig "a") (Memberlist.init (DefaultLANConfig "a")) (Env.at 0)
      (pushPullMsg :: (enc₁ ++ enc₂)) = .error ⟨"index out of range"⟩ := by
  have hlabel : RemoveLabelHeaderFromStream (pushPullMsg :: (enc₁ ++ enc₂)) =
      .ok (pushPullMsg :: (enc₁ ++ enc₂), []) :=
    removeLabelHeader_unlabelled _ (by simp [pushPullMsg, hasLabelMsg])
  have hskip : (DefaultLANConfig "a").SkipInboundLabelCheck = false := rfl
  have hnoLabel : (DefaultLANConfig "a").Label = [] := rfl
  have hread : readStream c (DefaultLANConfig "a") [] (pushPullMsg :: (enc₁ ++ enc₂)) =
      .ok (.ok (pushPullMsg, enc₁ ++ enc₂)) := rfl
  -- one record is decoded, and its port kept
  have hnodes : decodeNodes dec (Int.toNat 1) enc₂ =
      .ok ([⟨"b", [10, 0, 0, 2], 7946, [], 1, StateAlive, [1]⟩], []) := by
    show decodeNodes dec (0 + 1) enc₂ = _
    simp only [decodeNodes, hnode]
  have hremote : readRemoteState (DefaultLANConfig "a") dec (enc₁ ++ enc₂) =
      .ok (.ok (false, [⟨"b", [10, 0, 0, 2], 7946, [], 1, StateAlive, [1]⟩], none)) := by
    simp only [readRemoteState, hheader, hnodes]
    rfl
  simp only [handleConn, hlabel, hskip, hnoLabel, Bool.false_and, Bool.false_eq_true, if_false,
    ne_eq, not_true_eq_false, handleStream, hread, bind, Except.bind, if_true, hremote]
  -- `verifyProtocol` reads the one-byte vector of the Alive record past its end
  have hverify : verifyProtocol (Memberlist.init (DefaultLANConfig "a"))
      [⟨"b", [10, 0, 0, 2], 7946, [], 1, StateAlive, [1]⟩] = .error ⟨"index out of range"⟩ :=
    verifyProtocol_short_vsn _ (List.mem_singleton_self _) rfl (by decide) (by decide)
  simp only [pushPullReply, Memberlist.mergeRemoteState, hverify, bind, Except.bind]

theorem pushPull_stream_short_vsn_panics_constant :
    (StreamDecoder.constant ⟨1, 0, false⟩ ⟨"b", [10, 0, 0, 2], 7946, [], 1, StateAlive, [1]⟩
        ⟨0⟩).header ([] ++ []) = .ok (⟨1, 0, false⟩, []) ∧
      (StreamDecoder.constant ⟨1, 0, false⟩ ⟨"b", [10, 0, 0, 2], 7946, [], 1, StateAlive, [1]⟩
        ⟨0⟩).node [] = .ok (⟨"b", [10, 0, 0, 2], 7946, [], 1, StateAlive, [1]⟩, []) ∧
      handleConn (Codec.constant ⟨0, "", [], 0, [], []⟩ ⟨0, "", ""⟩ ⟨0, "", ""⟩)
        (StreamDecoder.constant ⟨1, 0, false⟩ ⟨"b", [10, 0, 0, 2], 7946, [], 1, StateAlive, [1]⟩
          ⟨0⟩)
        (DefaultLANConfig "a") (Memberlist.init (DefaultLANConfig "a")) (Env.at 0)
        (pushPullMsg :: ([] ++ [])) = .error ⟨"index out of range"⟩ :=
  ⟨rfl, rfl, pushPull_stream_short_vsn_panics rfl rfl⟩

/-! ### Whatever the network sends -/

/-- What a node's goroutines handle: a message `handleCommand` queued from a packet, a stream
    connection, or one of the node's own steps (its timers and its API). -/
inductive Input
  | packet (env : Env) (src : PacketSource) (msg : UInt8 × List UInt8)
  | stream (env : Env) (stream : List UInt8)
  | own (env : Env) (op : Op)

/-- The handler of an input. -/
def Memberlist.handleInput (c : Codec) (dec : StreamDecoder) (cfg : Config) (m : Memberlist) :
    Input → Except Panic (Memberlist × List Effect)
  | .packet env src msg => packetHandler c cfg m env src msg
  | .stream env stream => handleConn c dec cfg m env stream
  | .own env op => m.step cfg env op

/-- The states a node reaches from `newMemberlist` through the inputs it handles. -/
def NetReachable (c : Codec) (dec : StreamDecoder) (cfg : Config) : Memberlist → Prop :=
  Transition.Reach (fun m i m' => ∃ eff, m.handleInput c dec cfg i = .ok (m', eff))
    (· = Memberlist.init cfg)

/-- Whatever packets and streams a node receives, it reaches only states that its own steps
    reach. -/
theorem NetReachable.reachable {c : Codec} {dec : StreamDecoder} {cfg : Config}
    {m : Memberlist} (h : NetReachable c dec cfg m) : Reachable cfg m := by
  refine Transition.Reach.induct (Reachable cfg) (by rintro _ rfl; exact .base rfl) ?_ h
  rintro m i m' - hm ⟨eff, hi⟩
  -- each goroutine's handler is the node's own steps, or none
  cases i with
  | packet env src msg => exact Reachable.of_packetHandler hm hi
  | stream env stream => exact Reachable.of_handleConn hm hi
  | own env op => exact Reachable.of_step env op hm hi

/-- **Whatever the network sends, the member list stays consistent.**  From `newMemberlist`,
    through any messages of packets, any streams and any steps of its own, a node keeps each
    entry of `nodes` under its name in `nodeMap`, no two entries of one name, every record of
    `nodeMap` in `nodes`, and `numNodes` the length of `nodes`. -/
theorem netReachable_rep {c : Codec} {dec : StreamDecoder} {cfg : Config} {m : Memberlist}
    (h : NetReachable c dec cfg m) : Rep m :=
  Rep.reachable h.reachable

/-- `a` after `setAlive`, then a packet with an alive message about `b`, then a push/pull
    stream from `b` with a record of `c`, which `a` queues for merging: two records, consistently
    indexed. -/
theorem netReachable_rep_packet :
    ∃ m, NetReachable (Codec.constant ⟨1, "b", [10, 0, 0, 2], 7946, [], [1, 5, 2, 0, 0, 0]⟩
        ⟨0, "", ""⟩ ⟨0, "", ""⟩)
      (StreamDecoder.constant ⟨1, 0, false⟩
        ⟨"c", [10, 0, 0, 3], 7946, [], 1, StateAlive, [1, 5, 2, 0, 0, 0]⟩ ⟨0⟩)
      (DefaultLANConfig "a") m ∧ m.nodes.length = 2 ∧ m.pending ≠ [] ∧ Rep m := by
  have hr : NetReachable (Codec.constant ⟨1, "b", [10, 0, 0, 2], 7946, [], [1, 5, 2, 0, 0, 0]⟩
        ⟨0, "", ""⟩ ⟨0, "", ""⟩)
      (StreamDecoder.constant ⟨1, 0, false⟩
        ⟨"c", [10, 0, 0, 3], 7946, [], 1, StateAlive, [1, 5, 2, 0, 0, 0]⟩ ⟨0⟩)
      (DefaultLANConfig "a") _ :=
    .step (.step (.step (.base rfl) (a := .own (Env.at 0) (.setAlive [10, 0, 0, 1] 7946 []))
      ⟨_, rfl⟩) (a := .packet (Env.at 1) (.ip [10, 0, 0, 2]) (aliveMsg, [])) ⟨_, rfl⟩)
      (a := .stream (Env.at 2) [pushPullMsg]) ⟨_, rfl⟩
  exact ⟨_, hr, by decide, by decide, netReachable_rep hr⟩

end memberlist
