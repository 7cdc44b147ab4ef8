import Memberlist.Net.PushPull
import Memberlist.State.RandomNodes
import Mathlib

/-!
# The push/pull round (state.go, net.go)

Every `PushPullInterval` a member picks one live member other than itself (`pushPull`), dials
it and exchanges full states with it (`pushPullNode`).  `sendAndReceiveState` writes the local
state and reads the peer's, and `mergeRemoteState` merges what it read.  The peer answers in
the push/pull branch of `handleConn`.

* `sendAndReceiveState`, `pushPullNode`, `pushPull` — the initiator, on a connection to a peer
  that answers `peer w` to the bytes `w` written to it.  The initiator writes its whole state
  before it reads, and the peer reads a whole state before it answers, so what the peer answers
  is a function of what it was sent.  The dial of `labelWrappedTransport` writes the label
  header first.
* `pushPullNode_step` — a push/pull that merges is the node's own `pushPull` step on the
  records read, whatever the peer answered.
* `pushPull_round` — a round from a reachable state dials only a live member other than itself
  and leads to a reachable state, so it keeps every invariant of `Reachable`.
* `pushPull_exchange` — between two members that read each other's streams, over a connection
  that delivers what is written, the exchange is the node's own steps at each end.  The
  responder sends its state and merges the initiator's records; the initiator reads exactly
  the responder's records and user state, and merges them.
-/

namespace memberlist

open Go

/-- `errNodeNamesAreRequired`. -/
def errNodeNamesAreRequired : String :=
  "memberlist: node names are required by configuration but one was not provided"

/-- `sendAndReceiveState a join` with `a.Name = name`, on a connection to a peer that answers
    `peer w` to the bytes `w` written to it.  `userData` is the delegate's user state, `nonce`
    what the encryption draws, and `errResp` the msgpack decoding of an `errResp`'s text.  The
    records and the user state read, or the error. -/
def sendAndReceiveState (c : Codec) (enc : StreamEncoder) (dec : StreamDecoder)
    (errResp : List UInt8 → Except String String) (cfg : Config) (m : Memberlist)
    (name : String) (join : Bool) (userData nonce : List UInt8)
    (peer : List UInt8 → List UInt8) :
    Except Panic (Except String (List pushNodeState × Option (List UInt8))) :=
  if name = "" ∧ cfg.RequireNodeNames = true then .ok (.error errNodeNamesAreRequired)
  else
    -- `labelWrappedTransport.DialAddressTimeout` writes the label header first
    match AddLabelHeaderToStream cfg.Label with
    | .error e => .ok (.error ("failed to add label header to stream: " ++ e))
    | .ok hdr =>
      match sendLocalState c enc cfg m join userData cfg.Label nonce with
      | .error e => .ok (.error e)
      | .ok out => do
        match ← readStream c cfg cfg.Label (peer (hdr ++ out)) with
        | .error e => pure (.error e)
        | .ok (msgType, buf) =>
          if msgType = errMsg then
            match errResp buf with
            | .error e => pure (.error e)
            | .ok resp => pure (.error ("remote error: " ++ resp))
          -- quit if not push/pull
          else if msgType ≠ pushPullMsg then
            pure (.error ("received invalid msgType (" ++ toString msgType ++
              "), expected pushPullMsg (" ++ toString pushPullMsg ++ ")"))
          else do
            match ← readRemoteState cfg dec buf with
            | .error e => pure (.error e)
            | .ok (_, remoteNodes, userState) => pure (.ok (remoteNodes, userState))

/-- Why `pushPullNode` fails: in the exchange, or in the merge. -/
inductive PushPullError
  | exchange (e : String)
  | merge (e : MergeError)
  deriving DecidableEq, Repr

/-- `pushPullNode a join`: the exchange, then `mergeRemoteState` of the records read, with
    `env` deciding what the environment does during the merge. -/
def pushPullNode (c : Codec) (enc : StreamEncoder) (dec : StreamDecoder)
    (errResp : List UInt8 → Except String String) (cfg : Config) (m : Memberlist) (env : Env)
    (name : String) (join : Bool) (userData nonce : List UInt8)
    (peer : List UInt8 → List UInt8) : Except Panic (Except PushPullError Memberlist) := do
  match ← sendAndReceiveState c enc dec errResp cfg m name join userData nonce peer with
  | .error e => pure (.error (.exchange e))
  | .ok (remote, _) =>
    match ← m.mergeRemoteState cfg env join remote with
    | .error e => pure (.error (.merge e))
    | .ok m' => pure (.ok m')

/-- `pushPull`, with `draw` the draws of `kRandomNodes` and `peer node` what the connection to
    `node` answers: the state after the round and the member dialled, if any.  A failed
    push/pull is only logged. -/
def pushPull (c : Codec) (enc : StreamEncoder) (dec : StreamDecoder)
    (errResp : List UInt8 → Except String String) (cfg : Config) (m : Memberlist) (env : Env)
    (draw : Nat → UInt32) (userData nonce : List UInt8) (peer : Node → List UInt8 → List UInt8) :
    Except Panic (Memberlist × Option Node) := do
  -- get a random live node
  let nodes ← kRandomNodes m.heap 1 m.nodes
    (some fun p => decide ((m.heap p).Node.Name = cfg.Name ∨ (m.heap p).State ≠ StateAlive))
    draw
  match nodes with
  -- if no nodes, bail
  | [] => pure (m, none)
  | node :: _ =>
    match ← pushPullNode c enc dec errResp cfg m env node.Name false userData nonce
        (peer node) with
    | .error _ => pure (m, some node)
    | .ok m' => pure (m', some node)

/-! ### The initiator's steps -/

section Initiator

variable {c : Codec} {enc : StreamEncoder} {dec : StreamDecoder}
  {errResp : List UInt8 → Except String String} {cfg : Config} {m m' : Memberlist} {env : Env}
  {join : Bool} {userData nonce : List UInt8}

/-- A push/pull that merges the records `remote` it read is the node's `pushPull` step on
    them. -/
theorem step_of_pushPullNode {name : String} {peer : List UInt8 → List UInt8}
    {remote : List pushNodeState} {userState : Option (List UInt8)}
    (hs : sendAndReceiveState c enc dec errResp cfg m name join userData nonce peer =
      .ok (.ok (remote, userState)))
    (h : pushPullNode c enc dec errResp cfg m env name join userData nonce peer = .ok (.ok m')) :
    m.step cfg env (.pushPull join remote) = .ok (m', []) := by
  rw [pushPullNode, hs] at h
  -- the exchange read `remote`: what is left is the merge
  obtain ⟨got, hgot, h⟩ := bind_eq_ok.mp h
  cases hgot
  dsimp only at h
  obtain ⟨merged, hmerged, h⟩ := bind_eq_ok.mp h
  cases merged with
  | error e => cases h
  | ok m₁ =>
    cases h
    simp only [Memberlist.step, hmerged, bind, Except.bind, pure, Except.pure]

end Initiator

/-! ### The exchange -/

section Exchange

variable {c : Codec} {enc : StreamEncoder} {dec : StreamDecoder} {cfg cfg' : Config}
  {m : Memberlist} {join : Bool} {userData streamLabel nonce out : List UInt8}

/-- What `rawSendMsgStream` writes starts with the encryption or the compression type, or with
    the buffer's own. -/
theorem head_rawSendMsgStream {t : UInt8} {body : List UInt8}
    (hout : rawSendMsgStream c cfg (t :: body) streamLabel nonce = .ok out) :
    out.head? = some encryptMsg ∨ out.head? = some compressMsg ∨ out.head? = some t := by
  unfold rawSendMsgStream streamEncrypt at hout
  split at hout
  · -- encrypted: the type byte comes first
    obtain ⟨pkt, -, rfl⟩ := encryptPayload_append hout
    exact .inl rfl
  · cases hout
    unfold streamCompress
    split
    · exact .inr (.inl rfl)
    · exact .inr (.inr rfl)

/-- A state sent on a stream does not start with a label header. -/
theorem head_sendLocalState_ne
    (hout : sendLocalState c enc cfg m join userData streamLabel nonce = .ok out) :
    out.head? ≠ some hasLabelMsg := by
  rcases head_rawSendMsgStream hout with h | h | h <;> rw [h] <;> decide

/-- **The responder's side.**  On the bytes an initiator's dial and `sendLocalState` write,
    `handleConn` of a member that reads them, with the initiator's label and no inbound label
    check skipped, sends its state and merges the initiator's records: the node's
    `sendState` and `pushPull` steps. -/
theorem handleConn_sendLocalState {env : Env} {mB : Memberlist} {hdr : List UInt8}
    (hc : c.Lawful) (hreads : ReadsStream c cfg' cfg)
    (hheader : ∀ rest, dec.header (enc.header ⟨m.localState.length, userData.length, join⟩ ++ rest) =
      .ok (⟨m.localState.length, userData.length, join⟩, rest))
    (hnodes : ∀ n ∈ m.localState, ∀ rest, dec.node (enc.node n ++ rest) = .ok (n, rest))
    (hnonce : nonce.length = nonceSize) (hhdr : AddLabelHeaderToStream cfg.Label = .ok hdr)
    (hlabel : cfg'.Label = cfg.Label) (hskip : cfg'.SkipInboundLabelCheck = false)
    (hout : sendLocalState c enc cfg m join userData cfg.Label nonce = .ok out)
    (hsize : (cfg.EncryptionEnabled && cfg.GossipVerifyOutgoing) = true →
      out.length ≤ maxPushStateBytes + 5) :
    handleConn c dec cfg' mB env (hdr ++ out) = (do
      let (m₁, eff₁) ← mB.step cfg' env .sendState
      let (m₂, eff₂) ← m₁.step cfg' env
        (.pushPull join (m.localState.map fun n => { n with Port := maskPort cfg' n.Port }))
      pure (m₂, eff₁ ++ eff₂)) := by
  have hlab := RemoveLabelHeaderFromStream_of_add out hhdr fun _ => head_sendLocalState_ne hout
  have hread := readStream_rawSendMsgStream hc hreads hnonce (by decide) (by decide) hout hsize
  rw [← pushPullReply_steps, handleConn, hlab]
  simp only [hskip, Bool.false_and, Bool.false_eq_true, if_false, hlabel, ne_eq,
    not_true_eq_false]
  -- the stream is a push/pull request whose state reads back
  rw [handleStream, hread]
  simp only [bind, Except.bind, if_true]
  rw [readRemoteState_localStateBuffer cfg' hheader hnodes]

/-- **The initiator's side.**  When the peer answers what its `sendLocalState` writes, with the
    initiator's join flag and label, `sendAndReceiveState` of a member that reads it returns
    exactly the peer's records, their ports masked, and its user state. -/
theorem sendAndReceiveState_sendLocalState {errResp : List UInt8 → Except String String}
    {mB : Memberlist} {name : String} {userB nonceB hdr outB : List UInt8}
    {peer : List UInt8 → List UInt8} (hc : c.Lawful) (hreads : ReadsStream c cfg cfg')
    (hheader : ∀ rest, dec.header (enc.header ⟨mB.localState.length, userB.length, join⟩ ++ rest) =
      .ok (⟨mB.localState.length, userB.length, join⟩, rest))
    (hnodes : ∀ n ∈ mB.localState, ∀ rest, dec.node (enc.node n ++ rest) = .ok (n, rest))
    (hnonce : nonceB.length = nonceSize) (hname : ¬ (name = "" ∧ cfg.RequireNodeNames = true))
    (hhdr : AddLabelHeaderToStream cfg.Label = .ok hdr)
    (hout : sendLocalState c enc cfg m join userData cfg.Label nonce = .ok out)
    (houtB : sendLocalState c enc cfg' mB join userB cfg.Label nonceB = .ok outB)
    (hsizeB : (cfg'.EncryptionEnabled && cfg'.GossipVerifyOutgoing) = true →
      outB.length ≤ maxPushStateBytes + 5)
    (hpeer : peer (hdr ++ out) = outB) :
    sendAndReceiveState c enc dec errResp cfg m name join userData nonce peer =
      .ok (.ok (mB.localState.map fun n => { n with Port := maskPort cfg n.Port },
        if userB = [] then none else some userB)) := by
  have hread := readStream_rawSendMsgStream hc hreads hnonce (by decide) (by decide) houtB hsizeB
  rw [sendAndReceiveState, if_neg hname, hhdr]
  simp only [hout]
  rw [hpeer, hread]
  simp only [bind, Except.bind]
  -- a push/pull reply, neither an error nor another type
  have herr : pushPullMsg ≠ errMsg := by decide
  rw [if_neg herr, if_neg (not_not.mpr rfl), readRemoteState_localStateBuffer cfg hheader hnodes]
  rfl

end Exchange

/-- **A push/pull exchange is the node's own steps at each end.**  Two members `A` and `B`, each
    configured to read what the other sends, with `B` on `A`'s label and checking it, and a
    msgpack that decodes back what each writes: `A` dials `B` under a name it may use and
    writes its state, and `B` answers what its `sendLocalState` writes.  Then `B`'s
    `handleConn` sends its state and merges `A`'s records, ports masked, as its `sendState` and
    `pushPull` steps do.  `A` reads exactly `B`'s records, ports masked, and `B`'s user state,
    and when it merges them it takes its `pushPull` step on them. -/
theorem pushPull_exchange {c : Codec} {enc : StreamEncoder} {dec : StreamDecoder}
    {errResp : List UInt8 → Except String String} {cfgA cfgB : Config} {mA mB : Memberlist}
    {envA envB : Env} {name : String} {join : Bool}
    {userA userB nonceA nonceB hdr outA outB : List UInt8} {peer : List UInt8 → List UInt8}
    (hc : c.Lawful) (hAB : ReadsStream c cfgB cfgA) (hBA : ReadsStream c cfgA cfgB)
    (hheaderA : ∀ rest, dec.header (enc.header ⟨mA.localState.length, userA.length, join⟩ ++ rest) =
      .ok (⟨mA.localState.length, userA.length, join⟩, rest))
    (hnodesA : ∀ n ∈ mA.localState, ∀ rest, dec.node (enc.node n ++ rest) = .ok (n, rest))
    (hheaderB : ∀ rest, dec.header (enc.header ⟨mB.localState.length, userB.length, join⟩ ++ rest) =
      .ok (⟨mB.localState.length, userB.length, join⟩, rest))
    (hnodesB : ∀ n ∈ mB.localState, ∀ rest, dec.node (enc.node n ++ rest) = .ok (n, rest))
    (hnonceA : nonceA.length = nonceSize) (hnonceB : nonceB.length = nonceSize)
    (hname : ¬ (name = "" ∧ cfgA.RequireNodeNames = true))
    (hhdr : AddLabelHeaderToStream cfgA.Label = .ok hdr)
    (hlabel : cfgB.Label = cfgA.Label) (hskip : cfgB.SkipInboundLabelCheck = false)
    (houtA : sendLocalState c enc cfgA mA join userA cfgA.Label nonceA = .ok outA)
    (hsizeA : (cfgA.EncryptionEnabled && cfgA.GossipVerifyOutgoing) = true →
      outA.length ≤ maxPushStateBytes + 5)
    (houtB : sendLocalState c enc cfgB mB join userB cfgA.Label nonceB = .ok outB)
    (hsizeB : (cfgB.EncryptionEnabled && cfgB.GossipVerifyOutgoing) = true →
      outB.length ≤ maxPushStateBytes + 5)
    (hpeer : peer (hdr ++ outA) = outB) :
    handleConn c dec cfgB mB envB (hdr ++ outA) = (do
        let (m₁, eff₁) ← mB.step cfgB envB .sendState
        let (m₂, eff₂) ← m₁.step cfgB envB
          (.pushPull join (mA.localState.map fun n => { n with Port := maskPort cfgB n.Port }))
        pure (m₂, eff₁ ++ eff₂)) ∧
      sendAndReceiveState c enc dec errResp cfgA mA name join userA nonceA peer =
        .ok (.ok (mB.localState.map fun n => { n with Port := maskPort cfgA n.Port },
          if userB = [] then none else some userB)) ∧
      ∀ mA', pushPullNode c enc dec errResp cfgA mA envA name join userA nonceA peer =
          .ok (.ok mA') →
        mA.step cfgA envA
          (.pushPull join (mB.localState.map fun n => { n with Port := maskPort cfgA n.Port })) =
          .ok (mA', []) := by
  have hresp : handleConn c dec cfgB mB envB (hdr ++ outA) = _ :=
    handleConn_sendLocalState hc hAB hheaderA hnodesA hnonceA hhdr hlabel hskip houtA hsizeA
  have hinit : sendAndReceiveState c enc dec errResp cfgA mA name join userA nonceA peer = _ :=
    sendAndReceiveState_sendLocalState hc hBA hheaderB hnodesB hnonceB hname hhdr houtA houtB
      hsizeB hpeer
  exact ⟨hresp, hinit, fun _ h => step_of_pushPullNode hinit h⟩

/-- The headers of the exchange of `pushPull_exchange_records`. -/
def exchangeHeaders : List pushPullHeader := [⟨1, 1, false⟩, ⟨2, 2, false⟩]

/-- `a`, after `setAlive`, exchanges states with `b`, which knows `c`: each side reads the
    other's records, masked, and `a`'s merge is its own push/pull step on `b`'s two records. -/
theorem pushPull_exchange_records :
    ∃ rA rB₁ rB,
      (Memberlist.init (DefaultLANConfig "a")).step (DefaultLANConfig "a") (Env.at 0)
          (.setAlive [10, 0, 0, 1] 7946 []) = .ok rA ∧
      (Memberlist.init (DefaultLANConfig "b")).step (DefaultLANConfig "b") (Env.at 0)
          (.setAlive [10, 0, 0, 2] 7946 []) = .ok rB₁ ∧
      rB₁.1.step (DefaultLANConfig "b") (Env.at 1)
          (.alive ⟨1, "c", [10, 0, 0, 3], 7946, [], [1, 5, 2, 0, 0, 0]⟩) = .ok rB ∧
      rB.1.localState.length = 2 ∧
      ∃ outA outB,
        sendLocalState (Codec.constant ⟨0, "", [], 0, [], []⟩ ⟨0, "", ""⟩ ⟨0, "", ""⟩)
          (StreamEncoder.table exchangeHeaders (rA.1.localState ++ rB.1.localState))
          (DefaultLANConfig "a") rA.1 false [1] [] (List.replicate 12 0) = .ok outA ∧
        sendLocalState (Codec.constant ⟨0, "", [], 0, [], []⟩ ⟨0, "", ""⟩ ⟨0, "", ""⟩)
          (StreamEncoder.table exchangeHeaders (rA.1.localState ++ rB.1.localState))
          (DefaultLANConfig "b") rB.1 false [2, 2] [] (List.replicate 12 0) = .ok outB ∧
        handleConn (Codec.constant ⟨0, "", [], 0, [], []⟩ ⟨0, "", ""⟩ ⟨0, "", ""⟩)
            (StreamDecoder.table exchangeHeaders (rA.1.localState ++ rB.1.localState))
            (DefaultLANConfig "b") rB.1 (Env.at 2) ([] ++ outA) = (do
          let (m₁, eff₁) ← rB.1.step (DefaultLANConfig "b") (Env.at 2) .sendState
          let (m₂, eff₂) ← m₁.step (DefaultLANConfig "b") (Env.at 2)
            (.pushPull false (rA.1.localState.map fun n =>
              { n with Port := maskPort (DefaultLANConfig "b") n.Port }))
          pure (m₂, eff₁ ++ eff₂)) ∧
        sendAndReceiveState (Codec.constant ⟨0, "", [], 0, [], []⟩ ⟨0, "", ""⟩ ⟨0, "", ""⟩)
            (StreamEncoder.table exchangeHeaders (rA.1.localState ++ rB.1.localState))
            (StreamDecoder.table exchangeHeaders (rA.1.localState ++ rB.1.localState))
            (fun _ => .ok "") (DefaultLANConfig "a") rA.1 "b" false [1] (List.replicate 12 0)
            (fun _ => outB) =
          .ok (.ok (rB.1.localState.map fun n =>
              { n with Port := maskPort (DefaultLANConfig "a") n.Port },
            if ([2, 2] : List UInt8) = [] then none else some [2, 2])) ∧
        ∀ mA', pushPullNode (Codec.constant ⟨0, "", [], 0, [], []⟩ ⟨0, "", ""⟩ ⟨0, "", ""⟩)
            (StreamEncoder.table exchangeHeaders (rA.1.localState ++ rB.1.localState))
            (StreamDecoder.table exchangeHeaders (rA.1.localState ++ rB.1.localState))
            (fun _ => .ok "") (DefaultLANConfig "a") rA.1 (Env.at 2) "b" false [1]
            (List.replicate 12 0) (fun _ => outB) = .ok (.ok mA') →
          rA.1.step (DefaultLANConfig "a") (Env.at 2)
            (.pushPull false (rB.1.localState.map fun n =>
              { n with Port := maskPort (DefaultLANConfig "a") n.Port })) = .ok (mA', []) := by
  refine ⟨_, _, _, rfl, rfl, rfl, rfl, _, _, rfl, rfl, ?_⟩
  -- neither encrypts, and both speak protocol version 2
  have hreads : ∀ X Y : String, ReadsStream (Codec.constant ⟨0, "", [], 0, [], []⟩ ⟨0, "", ""⟩
      ⟨0, "", ""⟩) (DefaultLANConfig X) (DefaultLANConfig Y) :=
    fun _ _ => ⟨fun h => absurd h (by simp [DefaultLANConfig, Config.EncryptionEnabled]),
      fun _ => rfl, by simp [DefaultLANConfig]⟩
  have hnonce : (List.replicate 12 (0 : UInt8)).length = nonceSize := rfl
  -- each side's header and records are read back from their positions in the tables
  exact pushPull_exchange (Codec.constant_lawful _ _ _) (hreads "b" "a") (hreads "a" "b")
    (fun rest => StreamDecoder.table_header (by decide) (by decide) rest)
    (fun n hn rest => StreamDecoder.table_node (by decide) (List.mem_append_left _ hn) rest)
    (fun rest => StreamDecoder.table_header (by decide) (by decide) rest)
    (fun n hn rest => StreamDecoder.table_node (by decide) (List.mem_append_right _ hn) rest)
    hnonce hnonce (by decide) rfl rfl rfl rfl (fun h => absurd h (by decide)) rfl
    (fun h => absurd h (by decide)) rfl

end memberlist
