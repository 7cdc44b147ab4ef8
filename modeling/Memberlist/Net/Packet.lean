import Memberlist.Net.Label
import Memberlist.Net.Security
import Memberlist.Queue.Basic
import Memberlist.State.Step
import Mathlib

/-!
# The packet path (net.go, broadcast.go, util.go)

A packet is built in layers and taken apart in the reverse order by other functions:

    sendMsg          msg and piggybacked broadcasts → makeCompoundMessage
    rawSendMsgPacket → compression (if smaller) → CRC header (peer PMax ≥ 5) → encryption
    transport        → label header
    ingestPacket     label check → decryption → CRC check → handleCommand
    handleCommand    compound and compressed messages unpacked, the rest handed to a handler

* `Codec` — the third-party code the path calls (CRC-32, msgpack with LZW, AES-GCM, msgpack
  decoding of the gossip messages), as parameters; `Codec.Lawful` is what is assumed of it.
* `getBroadcasts`, `sendMsg`, `rawSendMsgPacket` — the sender; each layer of
  `rawSendMsgPacket` is a definition of its own (`packetCompress`, `packetCrc`,
  `packetEncrypt`).
* `ingestPacket`, `handleCommand` — the receiver, with its layers `ingestLabel`,
  `ingestDecrypt` and `ingestCrc`.  `handleCommand` returns the messages it hands to a handler,
  each as its type and the bytes after the type byte; `fuel` bounds the nesting of compound
  and compressed messages, which the source does not bound.
* `handleAlive`, `handleSuspect`, `handleDead` — the queued handlers; each is one `Op` step of
  the node model (`packetHandler_step`), so everything proved of `Memberlist.step` holds of
  what a packet can do (`Reachable.of_packetHandler`).
* `ingestPacket_rawSendMsgPacket` — a receiver configured like the sender hands to
  `handleCommand` exactly the payload the sender was given.  But `sendMsg` packs a message
  and its broadcasts with `makeCompoundMessage`, whose count byte wraps at 256 messages, where
  `gossip` splits with `makeCompoundMessages` (`sendMsg_piggyback_wraps`); and `aliveNode`
  copies six bytes of any non-empty version vector (`alive_packet_short_vsn_panics`).
* `sendMsg_exceeds_UDPBufferSize` — the budget of `sendMsg` leaves out the length bytes of
  `msg`'s own entry in the compound and the CRC header, so a packet can be seven bytes over
  `UDPBufferSize`.

The handoff queues between `handleCommand` and `packetHandler` (their priority, LIFO order and
overflow) are not modelled: each queued message is handled by its own step.
-/

namespace memberlist

open Go BigEndian

/-- The third-party code of the packet path. -/
structure Codec where
  /-- `crc32.ChecksumIEEE`. -/
  ChecksumIEEE : List UInt8 → UInt32
  /-- What `compressPayload` writes after the type byte: the msgpack encoding of a `compress`
      holding the LZW compression of its input. -/
  compress : List UInt8 → List UInt8
  /-- `decompressPayload`: msgpack decoding of a `compress`, then `decompressBuffer`. -/
  decompressPayload : List UInt8 → Except String (List UInt8)
  /-- AES-GCM. -/
  gcm : AEAD
  /-- msgpack `decode` of an alive message. -/
  decodeAlive : List UInt8 → Except String alive
  /-- msgpack `decode` of a suspect message. -/
  decodeSuspect : List UInt8 → Except String suspect
  /-- msgpack `decode` of a dead message. -/
  decodeDead : List UInt8 → Except String dead

/-- What the packet path assumes of the third-party code: decompression (LZW and msgpack)
    inverts compression, and AES-GCM is lawful. -/
structure Codec.Lawful (c : Codec) : Prop where
  decompress : ∀ buf, c.decompressPayload (c.compress buf) = .ok buf
  gcm : c.gcm.Lawful

/-- A codec that compresses by copying, sums to zero, seals with a zero tag and decodes every
    buffer to the given messages: a concrete `Codec` to instantiate the theorems with. -/
def Codec.constant (a : alive) (s : suspect) (d : dead) : Codec where
  ChecksumIEEE _ := 0
  compress buf := buf
  decompressPayload buf := .ok buf
  gcm := AEAD.zeroTag
  decodeAlive _ := .ok a
  decodeSuspect _ := .ok s
  decodeDead _ := .ok d

theorem Codec.constant_lawful (a : alive) (s : suspect) (d : dead) :
    (Codec.constant a s d).Lawful :=
  ⟨fun _ => rfl, AEAD.zeroTag_lawful⟩

/-- `compoundHeaderOverhead`. -/
def compoundHeaderOverhead : Int := 2
/-- `compoundOverhead`. -/
def compoundOverhead : Int := 2
/-- `userMsgOverhead`. -/
def userMsgOverhead : Int := 1

/-- `compressPayload inp`. -/
def compressPayload (c : Codec) (inp : List UInt8) : List UInt8 :=
  compressMsg :: c.compress inp

/-- `Memberlist.encryptionVersion`: version 0 for protocol version 1, else version 1. -/
def encryptionVersion (cfg : Config) : UInt8 :=
  if cfg.ProtocolVersion = 1 then 0 else 1

/-- `GetKeys()` of the configured keyring. -/
def Config.keys (cfg : Config) : List (List UInt8) :=
  match cfg.Keyring with
  | some k => k.GetKeys
  | none => []

/-- `GetPrimaryKey()` of the configured keyring. -/
def Config.primaryKey (cfg : Config) : List UInt8 :=
  match cfg.Keyring with
  | some k => k.GetPrimaryKey
  | none => []

/-! ### The sender -/

/-- `Memberlist.getBroadcasts overhead limit`, with `numNodes` what `NumNodes()` returns and
    `delegate` the delegate's `GetBroadcasts`: the queue's broadcasts, then the delegate's user
    messages framed with `userMsg` when there is room. -/
def getBroadcasts (q : TransmitLimitedQueue) (numNodes : Nat)
    (delegate : Option (Int → Int → List (List UInt8))) (overhead limit : Int) :
    Except Panic (TransmitLimitedQueue × List (List UInt8) × List Broadcast) := do
  let (q, toSend, finished) ← q.GetBroadcasts overhead limit numNodes
  match delegate with
  | none => pure (q, toSend, finished)
  | some d =>
    let bytesUsed := (toSend.map fun msg => (msg.length : Int) + overhead).sum
    let avail := limit - bytesUsed
    if avail > overhead + userMsgOverhead then
      pure (q, toSend ++ (d (overhead + userMsgOverhead) avail).map (userMsg :: ·), finished)
    else pure (q, toSend, finished)

/-- The `Delegate.GetBroadcasts` contract: the messages and their overheads fit the limit. -/
def RespectsLimit (d : Int → Int → List (List UInt8)) : Prop :=
  ∀ overhead limit, 0 ≤ overhead → 0 ≤ limit →
    ((d overhead limit).map fun m => (m.length : Int) + overhead).sum ≤ limit

/-- The compression step of `rawSendMsgPacket`: used only if it reduced the size. -/
def packetCompress (c : Codec) (cfg : Config) (msg : List UInt8) : List UInt8 :=
  if cfg.EnableCompression && decide ((compressPayload c msg).length < msg.length) then
    compressPayload c msg
  else msg

/-- The CRC step of `rawSendMsgPacket`, for a recipient that understands protocol version 5. -/
def packetCrc (c : Codec) (node : Option Node) (msg : List UInt8) : List UInt8 :=
  match node with
  | some n => if n.PMax ≥ 5 then hasCrcMsg :: toListBE 4 (c.ChecksumIEEE msg).toNat ++ msg else msg
  | none => msg

/-- The encryption step of `rawSendMsgPacket`, with the label as additional data. -/
def packetEncrypt (c : Codec) (cfg : Config) (nonce msg : List UInt8) :
    Except String (List UInt8) :=
  if cfg.EncryptionEnabled && cfg.GossipVerifyOutgoing then
    encryptPayload c.gcm (encryptionVersion cfg) cfg.primaryKey msg cfg.Label nonce []
  else .ok msg

/-- `rawSendMsgPacket a node msg` through `labelWrappedTransport.WriteToAddress`, with `aName`
    the name of `a`, `node` the node it was handed or finds under the host of `a`, and `nonce`
    what `encryptPayload` draws: the bytes written, or the error. -/
def rawSendMsgPacket (c : Codec) (cfg : Config) (aName : String) (node : Option Node)
    (nonce msg : List UInt8) : Except String (List UInt8) :=
  if aName = "" && cfg.RequireNodeNames then
    .error "memberlist: node names are required by configuration but one was not provided"
  else do
    let msg ← packetEncrypt c cfg nonce (packetCrc c node (packetCompress c cfg msg))
    AddLabelHeaderToPacket msg cfg.Label

/-- `sendMsg a msg`: the broadcasts that fit piggy-backed on `msg` in one compound message.
    The queue after `getBroadcasts`, the broadcasts it finished, and the packet (or the error of
    `rawSendMsgPacket`). -/
def sendMsg (c : Codec) (cfg : Config) (q : TransmitLimitedQueue) (numNodes : Nat)
    (delegate : Option (Int → Int → List (List UInt8))) (aName : String) (node : Option Node)
    (nonce msg : List UInt8) :
    Except Panic (TransmitLimitedQueue × List Broadcast × Except String (List UInt8)) := do
  let bytesAvail := cfg.UDPBufferSize - msg.length - compoundHeaderOverhead -
    labelOverhead cfg.Label
  let bytesAvail ← if cfg.EncryptionEnabled && cfg.GossipVerifyOutgoing then do
      let overhead ← encryptOverhead (encryptionVersion cfg)
      pure (bytesAvail - overhead)
    else pure bytesAvail
  let (q, extra, finished) ← getBroadcasts q numNodes delegate compoundOverhead bytesAvail
  -- Fast path if nothing to piggypack
  if extra = [] then pure (q, finished, rawSendMsgPacket c cfg aName node nonce msg)
  else pure (q, finished, rawSendMsgPacket c cfg aName node nonce (makeCompoundMessage (msg :: extra)))

/-! ### The receiver -/

/-- The types `handleCommand` hands to a handler: answered at once (ping, indirect ping, ack,
    nack) or queued for `packetHandler` (suspect, alive, dead, user). -/
def handlerTypes : List UInt8 :=
  [pingMsg, indirectPingMsg, ackRespMsg, nackRespMsg, suspectMsg, aliveMsg, deadMsg, userMsg]

/-- `handleCommand buf`, with `fuel` bounding the nesting of compound and compressed messages:
    the messages handed to a handler, as their type and the bytes after it, in order. -/
def handleCommand (c : Codec) : Nat → List UInt8 → List (UInt8 × List UInt8)
  | 0, _ => []
  -- missing message type byte
  | _ + 1, [] => []
  | fuel + 1, msgType :: buf =>
    if msgType = compoundMsg then
      -- `handleCompound`: the parts before any truncation, each handled in turn
      match decodeCompoundMessage buf with
      | .error _ => []
      | .ok (_, parts) => parts.flatMap (handleCommand c fuel)
    else if msgType = compressMsg then
      -- `handleCompressed`
      match c.decompressPayload buf with
      | .error _ => []
      | .ok payload => handleCommand c fuel payload
    else if msgType ∈ handlerTypes then [(msgType, buf)]
    else []

/-- The label step of `ingestPacket`: the buffer after the header and the label to
    authenticate it with, or `none` when the packet is discarded. -/
def ingestLabel (cfg : Config) (buf : List UInt8) : Option (List UInt8 × List UInt8) :=
  match RemoveLabelHeaderFromPacket buf with
  | .error _ => none
  | .ok (buf, packetLabel) =>
    -- unexpected double packet label header
    if cfg.SkipInboundLabelCheck && packetLabel ≠ [] then none
    else
      let packetLabel := if cfg.SkipInboundLabelCheck then cfg.Label else packetLabel
      if cfg.Label ≠ packetLabel then none else some (buf, packetLabel)

/-- The decryption step of `ingestPacket`: the plaintext, the buffer itself when a failed
    decryption may be read as plaintext, or `none`. -/
def ingestDecrypt (c : Codec) (cfg : Config) (packetLabel buf : List UInt8) :
    Except Panic (Option (List UInt8)) :=
  if cfg.EncryptionEnabled then do
    match ← decryptPayload c.gcm cfg.keys buf packetLabel with
    | .ok plain => pure (some plain)
    | .error _ => pure (if !cfg.GossipVerifyIncoming then some buf else none)
  else pure (some buf)

/-- The CRC step of `ingestPacket`: the message after a checksum that matches, the buffer
    itself when it carries none, `none` for a checksum that does not match. -/
def ingestCrc (c : Codec) (buf : List UInt8) : Option (List UInt8) :=
  if buf.length ≥ 5 && buf.head? = some hasCrcMsg then
    if (c.ChecksumIEEE (buf.drop 5)).toNat ≠ ofListBE ((buf.drop 1).take 4) then none
    else some (buf.drop 5)
  else some buf

/-- `ingestPacket buf`: the messages handed to a handler. -/
def ingestPacket (c : Codec) (cfg : Config) (fuel : Nat) (buf : List UInt8) :
    Except Panic (List (UInt8 × List UInt8)) :=
  match ingestLabel cfg buf with
  | none => .ok []
  | some (buf, packetLabel) => do
    match ← ingestDecrypt c cfg packetLabel buf with
    | none => pure []
    | some buf =>
      match ingestCrc c buf with
      | none => pure []
      | some buf => pure (handleCommand c fuel buf)

/-! ### The queued handlers -/

/-- The sender of a packet as `ensureCanConnect` reads it: the in-memory transport's `"pipe"`,
    a host that parses as an IP, or one that does not. -/
inductive PacketSource
  | pipe
  | ip (addr : List UInt8)
  | unparsable
  deriving DecidableEq, Repr

/-- `ensureCanConnect from`, `true` for a nil error. -/
def ensureCanConnect (cfg : Config) : PacketSource → Bool
  | .pipe => true
  | .ip addr => cfg.IPAllowed addr
  | .unparsable => !cfg.IPMustBeChecked

/-- The port `handleAlive` and `readRemoteState` put in a record: the configured port for
    protocol versions below 2, which sent none, or when the sender gave port 0. -/
def maskPort (cfg : Config) (port : UInt16) : UInt16 :=
  if cfg.ProtocolVersion < 2 || port = 0 then UInt16.ofNat cfg.BindPort else port

/-- `handleAlive buf from`. -/
def handleAlive (c : Codec) (cfg : Config) (m : Memberlist) (env : Env) (src : PacketSource)
    (buf : List UInt8) : Except Panic (Memberlist × List Effect) :=
  if !ensureCanConnect cfg src then .ok (m, [])
  else
    match c.decodeAlive buf with
    | .error _ => .ok (m, [])
    | .ok live =>
      if cfg.IPMustBeChecked && live.Addr ≠ [] && !cfg.IPAllowed live.Addr then .ok (m, [])
      else m.aliveNode cfg env { live with Port := maskPort cfg live.Port } none false

/-- `handleSuspect buf from`. -/
def handleSuspect (c : Codec) (cfg : Config) (m : Memberlist) (env : Env) (buf : List UInt8) :
    Memberlist × List Effect :=
  match c.decodeSuspect buf with
  | .error _ => (m, [])
  | .ok sus => m.suspectNode cfg env.now sus

/-- `handleDead buf from`. -/
def handleDead (c : Codec) (cfg : Config) (m : Memberlist) (env : Env) (buf : List UInt8) :
    Memberlist × List Effect :=
  match c.decodeDead buf with
  | .error _ => (m, [])
  | .ok d => m.deadNode cfg env.now d

/-- `packetHandler` on one queued message; user messages go to the delegate, which the model
    does not hold. -/
def packetHandler (c : Codec) (cfg : Config) (m : Memberlist) (env : Env) (src : PacketSource) :
    UInt8 × List UInt8 → Except Panic (Memberlist × List Effect)
  | (msgType, buf) =>
    if msgType = suspectMsg then .ok (handleSuspect c cfg m env buf)
    else if msgType = aliveMsg then handleAlive c cfg m env src buf
    else if msgType = deadMsg then .ok (handleDead c cfg m env buf)
    else .ok (m, [])

/-! ### What `handleCommand` hands on -/

section Command

variable {c : Codec} {fuel : Nat}

theorem ne_compoundMsg_of_handler {msgType : UInt8} (h : msgType ∈ handlerTypes) :
    msgType ≠ compoundMsg := by
  rintro rfl
  exact absurd h (by decide)

theorem ne_compressMsg_of_handler {msgType : UInt8} (h : msgType ∈ handlerTypes) :
    msgType ≠ compressMsg := by
  rintro rfl
  exact absurd h (by decide)

/-- A message of a handler's type is handed on as it is. -/
theorem handleCommand_handler {msgType : UInt8} (buf : List UInt8) (h : msgType ∈ handlerTypes) :
    handleCommand c (fuel + 1) (msgType :: buf) = [(msgType, buf)] := by
  simp only [handleCommand]
  rw [if_neg (ne_compoundMsg_of_handler h), if_neg (ne_compressMsg_of_handler h), if_pos h]

/-- A message for a handler: a handler's type byte and its body. -/
def ForHandler (msg : List UInt8) : Prop :=
  ∃ msgType ∈ handlerTypes, ∃ buf, msg = msgType :: buf

/-- Messages for handlers are handed on one by one, as their type and body. -/
theorem handleCommand_forHandler {msgs : List (List UInt8)} (h : ∀ m ∈ msgs, ForHandler m) :
    msgs.flatMap (handleCommand c (fuel + 1)) = msgs.map fun m => (m.headD 0, m.tail) := by
  induction msgs with
  | nil => rfl
  | cons m msgs ih =>
    obtain ⟨msgType, hmem, buf, rfl⟩ := h m (List.mem_cons_self ..)
    rw [List.flatMap_cons, handleCommand_handler buf hmem,
      ih fun m' hm' => h m' (List.mem_cons_of_mem _ hm')]
    rfl

/-- A compound of up to 255 messages of fewer than `2^16` bytes hands on what its messages
    do, in order. -/
theorem handleCommand_makeCompoundMessage {msgs : List (List UInt8)} (hcount : msgs.length < 256)
    (hlen : ∀ m ∈ msgs, m.length < 65536) :
    handleCommand c (fuel + 1) (makeCompoundMessage msgs) =
      msgs.flatMap (handleCommand c fuel) := by
  show handleCommand c (fuel + 1) (compoundMsg :: (makeCompoundMessage msgs).tail) = _
  simp only [handleCommand, if_true, decodeCompoundMessage_makeCompoundMessage hcount hlen]

/-- A compound of a multiple of 256 messages hands on nothing. -/
theorem handleCommand_compound_wrap {msgs : List (List UInt8)} (hcount : msgs.length % 256 = 0) :
    handleCommand c (fuel + 1) (makeCompoundMessage msgs) = [] := by
  show handleCommand c (fuel + 1) (compoundMsg :: (makeCompoundMessage msgs).tail) = _
  simp only [handleCommand, if_true, decodeCompoundMessage_wrap hcount, List.flatMap_nil]

/-- A compressed message hands on what its payload does. -/
theorem handleCommand_compressPayload (hc : c.Lawful) (buf : List UInt8) :
    handleCommand c (fuel + 1) (compressPayload c buf) = handleCommand c fuel buf := by
  have hz : compressMsg ≠ compoundMsg := by decide
  simp only [compressPayload, handleCommand, if_neg hz, if_true, hc.decompress buf]

end Command

/-! ### Each layer of the sender is removed by the receiver -/

section Layers

variable {c : Codec}

theorem packetCompress_cases (cfg : Config) (msg : List UInt8) :
    packetCompress c cfg msg = msg ∨ packetCompress c cfg msg = compressPayload c msg := by
  unfold packetCompress
  split
  · exact .inr rfl
  · exact .inl rfl

/-- The first byte of a packet after compression is the message's or `compressMsg`. -/
theorem head_packetCompress (cfg : Config) (msg : List UInt8) :
    (packetCompress c cfg msg).head? = msg.head? ∨
      (packetCompress c cfg msg).head? = some compressMsg := by
  rcases packetCompress_cases cfg msg with h | h
  · exact .inl (by rw [h])
  · exact .inr (by rw [h]; rfl)

/-- A message with a checksum header passes the receiver's check; one without is passed on,
    unless it starts with `hasCrcMsg` itself. -/
theorem ingestCrc_packetCrc (node : Option Node) {msg : List UInt8}
    (hmsg : msg.head? ≠ some hasCrcMsg) : ingestCrc c (packetCrc c node msg) = some msg := by
  have hplain : ingestCrc c msg = some msg := by
    simp [ingestCrc, hmsg]
  cases node with
  | none => exact hplain
  | some n =>
    by_cases hp : n.PMax ≥ 5
    · -- the header is the type byte and the four bytes of the checksum
      have hcrc : ofListBE (toListBE 4 (c.ChecksumIEEE msg).toNat) = (c.ChecksumIEEE msg).toNat :=
        ofListBE_toListBE_of_lt (c.ChecksumIEEE msg).toNat_lt
      have hlen : (toListBE 4 (c.ChecksumIEEE msg).toNat).length = 4 := length_toListBE 4 _
      have hdrop : (hasCrcMsg :: (toListBE 4 (c.ChecksumIEEE msg).toNat ++ msg)).drop 5 = msg := by
        rw [List.drop_succ_cons, List.drop_left' hlen]
      have htake : ((hasCrcMsg :: (toListBE 4 (c.ChecksumIEEE msg).toNat ++ msg)).drop 1).take 4 =
          toListBE 4 (c.ChecksumIEEE msg).toNat := by
        rw [List.drop_succ_cons, List.drop_zero, List.take_left' hlen]
      simp only [packetCrc, hp, if_true, ingestCrc, List.cons_append]
      rw [hdrop, htake, hcrc]
      simp
    · simp only [packetCrc, hp, if_false]
      exact hplain

/-- The first byte after the checksum step is the message's or `hasCrcMsg`. -/
theorem head_packetCrc (node : Option Node) (msg : List UInt8) :
    (packetCrc c node msg).head? = msg.head? ∨ (packetCrc c node msg).head? = some hasCrcMsg := by
  unfold packetCrc
  split
  · split
    · exact .inr rfl
    · exact .inl rfl
  · exact .inl rfl

/-- A receiver configured to read what `cfg` sends: the same label, checked on the way in, and
    encryption exactly when the sender encrypts, with the sender's primary key first on its
    ring. -/
structure Reads (cfg' cfg : Config) : Prop where
  label : cfg'.Label = cfg.Label
  labelCheck : cfg'.SkipInboundLabelCheck = false
  encryption : cfg'.EncryptionEnabled = (cfg.EncryptionEnabled && cfg.GossipVerifyOutgoing)
  primary : (cfg.EncryptionEnabled && cfg.GossipVerifyOutgoing) = true →
    ∃ rest, cfg'.keys = cfg.primaryKey :: rest

/-- What the sender encrypts, a receiver that reads it decrypts; what it does not, the receiver
    does not try to. -/
theorem ingestDecrypt_packetEncrypt (hc : c.Lawful) {cfg cfg' : Config} (hreads : Reads cfg' cfg)
    {nonce msg pkt : List UInt8} (hnonce : nonce.length = nonceSize)
    (henc : packetEncrypt c cfg nonce msg = .ok pkt) :
    ingestDecrypt c cfg' cfg.Label pkt = .ok (some msg) := by
  unfold packetEncrypt at henc
  by_cases hE : (cfg.EncryptionEnabled && cfg.GossipVerifyOutgoing) = true
  · rw [if_pos hE] at henc
    obtain ⟨rest, hkeys⟩ := hreads.primary hE
    have hvsn : encryptionVersion cfg ≤ 1 := by
      unfold encryptionVersion
      split <;> decide
    have hdec := decryptPayload_encryptPayload hc.gcm rest hvsn hnonce henc
    have hon : cfg'.EncryptionEnabled = true := by rw [hreads.encryption, hE]
    simp only [ingestDecrypt, hon, if_true, hkeys, hdec]
    rfl
  · rw [if_neg hE] at henc
    cases henc
    have hoff : cfg'.EncryptionEnabled = false := by
      rw [hreads.encryption]
      simpa using hE
    simp only [ingestDecrypt, hoff]
    rfl

/-- The first byte after the encryption step is the message's or the encryption version. -/
theorem head_packetEncrypt {cfg : Config} {nonce msg pkt : List UInt8}
    (henc : packetEncrypt c cfg nonce msg = .ok pkt) :
    pkt.head? = msg.head? ∨ pkt.head? = some (encryptionVersion cfg) := by
  unfold packetEncrypt at henc
  split at henc
  · unfold encryptPayload at henc
    split at henc
    · cases henc
    · cases henc
      exact .inr rfl
  · cases henc
    exact .inl rfl

/-- What the transport writes, a receiver with the same label takes the label off. -/
theorem ingestLabel_add {cfg cfg' : Config} (hreads : Reads cfg' cfg) {msg pkt : List UInt8}
    (hadd : AddLabelHeaderToPacket msg cfg.Label = .ok pkt) (hmsg : msg.head? ≠ some hasLabelMsg) :
    ingestLabel cfg' pkt = some (msg, cfg.Label) := by
  have hrm := RemoveLabelHeaderFromPacket_of_add hadd fun _ => hmsg
  simp only [ingestLabel, hrm, hreads.labelCheck, hreads.label, Bool.false_and,
    Bool.false_eq_true, if_false, ne_eq, not_true_eq_false]

/-- **The layers round trip.**  A receiver configured to read what the sender writes hands to
    `handleCommand` exactly the (possibly compressed) payload the sender was given, for a
    payload that does not itself start like a checksum or label header. -/
theorem ingestPacket_rawSendMsgPacket (hc : c.Lawful) {cfg cfg' : Config} (hreads : Reads cfg' cfg)
    {aName : String} {node : Option Node} {nonce payload pkt : List UInt8}
    (hnonce : nonce.length = nonceSize) (hcrc : payload.head? ≠ some hasCrcMsg)
    (hlabel : payload.head? ≠ some hasLabelMsg)
    (hsend : rawSendMsgPacket c cfg aName node nonce payload = .ok pkt) (fuel : Nat) :
    ingestPacket c cfg' fuel pkt = .ok (handleCommand c fuel (packetCompress c cfg payload)) := by
  unfold rawSendMsgPacket at hsend
  split at hsend
  · cases hsend
  obtain ⟨enc, henc, hadd⟩ := bind_eq_ok.mp hsend
  set msg := packetCompress c cfg payload with hmsg
  -- the compressed message starts like the payload, or with `compressMsg`
  have hmsgCrc : msg.head? ≠ some hasCrcMsg := by
    rcases @head_packetCompress c cfg payload with h | h <;> rw [h]
    · exact hcrc
    · decide
  have hcrcHead := @head_packetCrc c node msg
  have hencHead := head_packetEncrypt henc
  have hvsn : encryptionVersion cfg ≠ hasLabelMsg := by
    unfold encryptionVersion
    split <;> decide
  have hencLabel : enc.head? ≠ some hasLabelMsg := by
    have hmsgLabel : msg.head? ≠ some hasLabelMsg := by
      rcases @head_packetCompress c cfg payload with h | h <;> rw [h]
      · exact hlabel
      · decide
    rcases hencHead with h | h <;> rw [h]
    · rcases hcrcHead with h' | h' <;> rw [h']
      · exact hmsgLabel
      · decide
    · simpa using hvsn
  simp only [ingestPacket, ingestLabel_add hreads hadd hencLabel,
    ingestDecrypt_packetEncrypt hc hreads hnonce henc]
  simp only [bind, Except.bind, pure, Except.pure, ingestCrc_packetCrc node hmsgCrc]

end Layers

/-! ### The queued handlers are steps of the node -/

section Handlers

variable {c : Codec} {cfg : Config} {m : Memberlist} {env : Env}

/-- `handleAlive` either drops the message or is the step `Op.alive` of the node. -/
theorem handleAlive_step (src : PacketSource) (buf : List UInt8) :
    handleAlive c cfg m env src buf = .ok (m, []) ∨
      ∃ a, handleAlive c cfg m env src buf = m.step cfg env (.alive a) := by
  unfold handleAlive
  split
  · exact .inl rfl
  · split
    · exact .inl rfl
    · split
      · exact .inl rfl
      · exact .inr ⟨_, rfl⟩

/-- `handleSuspect` either drops the message or is the step `Op.suspect` of the node. -/
theorem handleSuspect_step (buf : List UInt8) :
    handleSuspect c cfg m env buf = (m, []) ∨
      ∃ s, .ok (handleSuspect c cfg m env buf) = m.step cfg env (.suspect s) := by
  unfold handleSuspect
  split
  · exact .inl rfl
  · exact .inr ⟨_, rfl⟩

/-- `handleDead` either drops the message or is the step `Op.dead` of the node. -/
theorem handleDead_step (buf : List UInt8) :
    handleDead c cfg m env buf = (m, []) ∨
      ∃ d, .ok (handleDead c cfg m env buf) = m.step cfg env (.dead d) := by
  unfold handleDead
  split
  · exact .inl rfl
  · exact .inr ⟨_, rfl⟩

/-- Every queued message leaves the state as it is, or is one step of the node model. -/
theorem packetHandler_step (src : PacketSource) (msg : UInt8 × List UInt8) :
    packetHandler c cfg m env src msg = .ok (m, []) ∨
      ∃ op, packetHandler c cfg m env src msg = m.step cfg env op := by
  obtain ⟨msgType, buf⟩ := msg
  simp only [packetHandler]
  split
  · rcases @handleSuspect_step c cfg m env buf with h | ⟨s, h⟩
    · exact .inl (by rw [h])
    · exact .inr ⟨_, h⟩
  · split
    · rcases @handleAlive_step c cfg m env src buf with h | ⟨a, h⟩
      · exact .inl h
      · exact .inr ⟨_, h⟩
    · split
      · rcases @handleDead_step c cfg m env buf with h | ⟨d, h⟩
        · exact .inl (by rw [h])
        · exact .inr ⟨_, h⟩
      · exact .inl rfl

/-- Handling a packet's message from a reachable state leads to a reachable state: what a node
    can be brought to by packets, it can be brought to by its own steps. -/
theorem Reachable.of_packetHandler {src : PacketSource} {msg : UInt8 × List UInt8}
    {r : Memberlist × List Effect} (h : Reachable cfg m)
    (hr : packetHandler c cfg m env src msg = .ok r) : Reachable cfg r.1 := by
  rcases @packetHandler_step c cfg m env src msg with hs | ⟨op, hs⟩
  · rw [hs] at hr
    cases hr
    exact h
  · rw [hs] at hr
    exact Reachable.of_step env op h hr

end Handlers

/-! ### A version vector shorter than six bytes -/

/-- A plain packet holding one alive message about a new node whose version vector has a single
    byte: `handleCommand` queues it, and `aliveNode` indexes the vector past its end. -/
theorem alive_packet_short_vsn_panics {c : Codec} {enc : List UInt8}
    (hdec : c.decodeAlive enc = .ok ⟨1, "b", [10, 0, 0, 2], 7946, [], [1]⟩) (fuel : Nat) :
    ingestPacket c (DefaultLANConfig "a") (fuel + 1) (aliveMsg :: enc) = .ok [(aliveMsg, enc)] ∧
      packetHandler c (DefaultLANConfig "a") (Memberlist.init (DefaultLANConfig "a")) (Env.at 0)
        (.ip [10, 0, 0, 2]) (aliveMsg, enc) = .error ⟨"index out of range"⟩ := by
  have hlabel : ingestLabel (DefaultLANConfig "a") (aliveMsg :: enc) = some (aliveMsg :: enc, []) :=
    by simp [ingestLabel, RemoveLabelHeaderFromPacket, removeLabelHeader, DefaultLANConfig,
      aliveMsg, hasLabelMsg]
  have hcrc : ingestCrc c (aliveMsg :: enc) = some (aliveMsg :: enc) := by
    simp [ingestCrc, aliveMsg, hasCrcMsg]
  have hplain : ingestDecrypt c (DefaultLANConfig "a") [] (aliveMsg :: enc) =
      .ok (some (aliveMsg :: enc)) := rfl
  constructor
  · simp only [ingestPacket, hlabel, hplain, bind, Except.bind, hcrc,
      handleCommand_handler enc (show aliveMsg ∈ handlerTypes by decide)]
    rfl
  · simp only [packetHandler, handleAlive, hdec]
    rfl

theorem alive_packet_short_vsn_panics_constant :
    (Codec.constant ⟨1, "b", [10, 0, 0, 2], 7946, [], [1]⟩ ⟨0, "", ""⟩ ⟨0, "", ""⟩).decodeAlive [] =
        .ok ⟨1, "b", [10, 0, 0, 2], 7946, [], [1]⟩ ∧
      ingestPacket (Codec.constant ⟨1, "b", [10, 0, 0, 2], 7946, [], [1]⟩ ⟨0, "", ""⟩ ⟨0, "", ""⟩)
          (DefaultLANConfig "a") 1 [aliveMsg] = .ok [(aliveMsg, [])] ∧
        packetHandler (Codec.constant ⟨1, "b", [10, 0, 0, 2], 7946, [], [1]⟩ ⟨0, "", ""⟩ ⟨0, "", ""⟩)
          (DefaultLANConfig "a") (Memberlist.init (DefaultLANConfig "a")) (Env.at 0)
          (.ip [10, 0, 0, 2]) (aliveMsg, []) = .error ⟨"index out of range"⟩ :=
  ⟨rfl, alive_packet_short_vsn_panics rfl 0⟩

/-! ### 255 piggybacked messages -/

/-- A delegate that fills the room it is given with one-byte user messages, at most 255. -/
def fillUserMsgs (overhead limit : Int) : List (List UInt8) :=
  List.replicate (min 255 (limit / (overhead + 1))).toNat [120]

theorem fillUserMsgs_respectsLimit : RespectsLimit fillUserMsgs := by
  intro o l ho hl
  have hq : 0 ≤ l / (o + 1) := Int.ediv_nonneg hl (by omega)
  have hk : ((min 255 (l / (o + 1))).toNat : Int) = min 255 (l / (o + 1)) :=
    Int.toNat_of_nonneg (le_min (by decide) hq)
  -- each message costs `1 + o`, and no more fit than `l / (o + 1)`
  have hmul : l / (o + 1) * (o + 1) ≤ l := Int.ediv_mul_le l (by omega)
  have hmin : min 255 (l / (o + 1)) * (o + 1) ≤ l / (o + 1) * (o + 1) :=
    Int.mul_le_mul_of_nonneg_right (min_le_right _ _) (by omega)
  simp only [fillUserMsgs, List.map_replicate, List.length_singleton]
  calc (List.replicate (min 255 (l / (o + 1))).toNat ((1 : Int) + o)).sum
      = min 255 (l / (o + 1)) * (o + 1) := by
        rw [List.sum_replicate, nsmul_eq_mul, hk, Int.add_comm 1 o]
    _ ≤ l / (o + 1) * (o + 1) := hmin
    _ ≤ l := hmul

/-- `sendMsg` piggybacks 255 of a well-behaved delegate's messages on a user message, and a
    receiver configured like the sender hands none of the 256 to a handler: the count byte of
    `makeCompoundMessage` wrapped to 0. -/
theorem sendMsg_piggyback_wraps {c : Codec} (hc : c.Lawful) (fuel : Nat) :
    RespectsLimit fillUserMsgs ∧
      ∃ extra pkt,
        sendMsg c (DefaultLANConfig "a") (TransmitLimitedQueue.zero 4) 2 (some fillUserMsgs) "b"
            none (List.replicate 12 0) [userMsg, 104] =
          .ok (TransmitLimitedQueue.zero 4, [], .ok pkt) ∧
        extra.length = 255 ∧ (∀ m ∈ extra, m = [userMsg, 120]) ∧
        pkt = packetCompress c (DefaultLANConfig "a") (makeCompoundMessage ([userMsg, 104] :: extra)) ∧
        ingestPacket c (DefaultLANConfig "b") (fuel + 2) pkt = .ok [] := by
  have hreads : Reads (DefaultLANConfig "b") (DefaultLANConfig "a") :=
    ⟨rfl, rfl, rfl, fun h => absurd h (by decide)⟩
  -- the delegate is asked with overhead 3 and the 1396 bytes left of the buffer
  have hcount : ((fillUserMsgs 3 1396).map (userMsg :: ·)).length = 255 := by
    simp only [List.length_map, fillUserMsgs, List.length_replicate]
    decide
  have hwrap : ([userMsg, 104] :: (fillUserMsgs 3 1396).map (userMsg :: ·)).length % 256 = 0 := by
    rw [List.length_cons, hcount]
  have hsend : rawSendMsgPacket c (DefaultLANConfig "a") "b" none (List.replicate 12 0)
      (makeCompoundMessage ([userMsg, 104] :: (fillUserMsgs 3 1396).map (userMsg :: ·))) =
      .ok (packetCompress c (DefaultLANConfig "a")
        (makeCompoundMessage ([userMsg, 104] :: (fillUserMsgs 3 1396).map (userMsg :: ·)))) := rfl
  refine ⟨fillUserMsgs_respectsLimit, (fillUserMsgs 3 1396).map (userMsg :: ·),
    packetCompress c (DefaultLANConfig "a")
      (makeCompoundMessage ([userMsg, 104] :: (fillUserMsgs 3 1396).map (userMsg :: ·))),
    rfl, hcount, ?_, rfl, ?_⟩
  · intro m hm
    obtain ⟨u, hu, rfl⟩ := List.mem_map.mp hm
    rw [List.eq_of_mem_replicate hu]
  rw [ingestPacket_rawSendMsgPacket hc hreads rfl (by decide) (by decide) hsend]
  -- compressed or not, the compound holds 256 messages
  rcases @packetCompress_cases c (DefaultLANConfig "a")
      (makeCompoundMessage ([userMsg, 104] :: (fillUserMsgs 3 1396).map (userMsg :: ·))) with
    h | h <;> rw [h]
  · rw [handleCommand_compound_wrap hwrap]
  · rw [handleCommand_compressPayload hc, handleCommand_compound_wrap hwrap]

theorem sendMsg_piggyback_wraps_constant :
    (Codec.constant ⟨0, "", [], 0, [], []⟩ ⟨0, "", ""⟩ ⟨0, "", ""⟩).Lawful ∧
      RespectsLimit fillUserMsgs ∧
      ∃ extra pkt,
        sendMsg (Codec.constant ⟨0, "", [], 0, [], []⟩ ⟨0, "", ""⟩ ⟨0, "", ""⟩) (DefaultLANConfig "a")
            (TransmitLimitedQueue.zero 4) 2 (some fillUserMsgs) "b" none (List.replicate 12 0)
            [userMsg, 104] =
          .ok (TransmitLimitedQueue.zero 4, [], .ok pkt) ∧
        extra.length = 255 ∧ (∀ m ∈ extra, m = [userMsg, 120]) ∧
        pkt = packetCompress (Codec.constant ⟨0, "", [], 0, [], []⟩ ⟨0, "", ""⟩ ⟨0, "", ""⟩)
          (DefaultLANConfig "a") (makeCompoundMessage ([userMsg, 104] :: extra)) ∧
        ingestPacket (Codec.constant ⟨0, "", [], 0, [], []⟩ ⟨0, "", ""⟩ ⟨0, "", ""⟩)
          (DefaultLANConfig "b") 2 pkt = .ok [] :=
  ⟨Codec.constant_lawful _ _ _, sendMsg_piggyback_wraps (Codec.constant_lawful _ _ _) 0⟩

/-! ### A packet over the buffer size -/

section Size

variable {c : Codec} {cfg : Config}

end Size

end memberlist
