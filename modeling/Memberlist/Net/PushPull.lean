import Memberlist.Net.Stream

/-!
# Sending the local state (net.go)

`sendLocalState` writes the local records and the delegate's user state in the format
`readRemoteState` reads, and `rawSendMsgStream` compresses and encrypts the buffer as
configured:

    [encryptMsg] [length: uint32] encryptPayload(…)       if encryption is on
    [compressMsg] compress(…)                             if compression is on
    [pushPullMsg] msgpack(pushPullHeader) msgpack(pushNodeState) × Nodes [user state]

The length field is `encryptedLength` of what is encrypted, and the type byte, the length
field and the stream label are the authenticated data.

* `StreamEncoder` — msgpack encoding onto the stream, a parameter like `StreamDecoder`.  The
  round trip assumes, of each value written, that decoding it off the stream gives it back
  and leaves the rest.
* `localStateBuffer`, `sendLocalState`, `rawSendMsgStream` with its layers `streamCompress`
  and `streamEncrypt`, `encryptLocalState` — the sender.
* `ReadsStream c cfg' cfg` — a peer configured to read what `cfg` sends.
* `readRemoteState_sendLocalState` — such a peer reads back the join flag, every record (with
  the bind port for a port of 0) and the user state when there is one, provided that an
  encrypted stream is within `maxPushStateBytes` past its 5-byte header.  A larger encrypted
  state is refused (`readStream_too_large`); a 20 MiB user state is one
  (`sendLocalState_too_large`).

The metric `sendLocalState` reads off `bufConn.Bytes()[1:5]` and the per-state gauges it sets
are not modelled: nothing else reads them.
-/

namespace memberlist

open Go BigEndian

/-- msgpack encoding onto a stream (`codec.Encoder.Encode`), for each type written to one. -/
structure StreamEncoder where
  header : pushPullHeader → List UInt8
  node : pushNodeState → List UInt8

/-- An encoder that writes nothing: a concrete `StreamEncoder` to instantiate the theorems
    with. -/
def StreamEncoder.empty : StreamEncoder where
  header _ := []
  node _ := []

/-- Reading back a value written as its position in a table of values. -/
def tableRead {α : Type} (tbl : List α) (what : String) : List UInt8 → Except String (α × List UInt8)
  | i :: rest =>
    match tbl[i.toNat]? with
    | some a => .ok (a, rest)
    | none => .error ("unknown " ++ what)
  | [] => .error "EOF"

/-- A value of a table of at most 256 is read back from its position. -/
theorem tableRead_idxOf {α : Type} [DecidableEq α] {tbl : List α} (hlen : tbl.length ≤ 256)
    {a : α} (ha : a ∈ tbl) (what : String) (rest : List UInt8) :
    tableRead tbl what (UInt8.ofNat (tbl.idxOf a) :: rest) = .ok (a, rest) := by
  have hlt : tbl.idxOf a < 256 := Nat.lt_of_lt_of_le (List.idxOf_lt_length_of_mem ha) hlen
  have hidx : (UInt8.ofNat (tbl.idxOf a)).toNat = tbl.idxOf a := by
    rw [UInt8.toNat_ofNat', Nat.mod_eq_of_lt hlt]
  rw [tableRead, hidx, List.getElem?_idxOf ha]

/-- An encoder that writes a header and a record as their positions in the tables `hdrs` and
    `tbl`: with `StreamDecoder.table hdrs tbl` a concrete pair that reads back what the tables
    hold. -/
def StreamEncoder.table (hdrs : List pushPullHeader) (tbl : List pushNodeState) : StreamEncoder where
  header h := [UInt8.ofNat (hdrs.idxOf h)]
  node n := [UInt8.ofNat (tbl.idxOf n)]

/-- The decoder that reads what `StreamEncoder.table hdrs tbl` writes. -/
def StreamDecoder.table (hdrs : List pushPullHeader) (tbl : List pushNodeState) : StreamDecoder where
  header := tableRead hdrs "header"
  node := tableRead tbl "record"
  userMsg buf := .ok (⟨0⟩, buf)

theorem StreamDecoder.table_header {hdrs : List pushPullHeader} {tbl : List pushNodeState}
    (hlen : hdrs.length ≤ 256) {h : pushPullHeader} (hh : h ∈ hdrs) (rest : List UInt8) :
    (StreamDecoder.table hdrs tbl).header ((StreamEncoder.table hdrs tbl).header h ++ rest) =
      .ok (h, rest) :=
  tableRead_idxOf hlen hh "header" rest

theorem StreamDecoder.table_node {hdrs : List pushPullHeader} {tbl : List pushNodeState}
    (hlen : tbl.length ≤ 256) {n : pushNodeState} (hn : n ∈ tbl) (rest : List UInt8) :
    (StreamDecoder.table hdrs tbl).node ((StreamEncoder.table hdrs tbl).node n ++ rest) =
      .ok (n, rest) :=
  tableRead_idxOf hlen hn "record" rest

/-- The buffer `sendLocalState` fills before handing it to `rawSendMsgStream`: the message
    type, the header, every record of `nodes` and the user state `userData` the delegate's
    `LocalState(join)` returns (empty without a delegate). -/
def localStateBuffer (enc : StreamEncoder) (m : Memberlist) (join : Bool)
    (userData : List UInt8) : List UInt8 :=
  pushPullMsg :: (enc.header ⟨m.localState.length, userData.length, join⟩ ++
    m.localState.flatMap enc.node ++ userData)

/-- `encryptLocalState sendBuf streamLabel`, with `nonce` what `encryptPayload` draws. -/
def encryptLocalState (c : Codec) (cfg : Config) (sendBuf streamLabel nonce : List UInt8) :
    Except String (List UInt8) :=
  let encVsn := encryptionVersion cfg
  let sizeBuf := toListBE 4 (encryptedLength encVsn sendBuf.length)
  -- Authenticated Data is: [messageType; byte] [messageLength; uint32] [stream_label; optional]
  encryptPayload c.gcm encVsn cfg.primaryKey sendBuf (encryptMsg :: sizeBuf ++ streamLabel) nonce
    (encryptMsg :: sizeBuf)

/-- The compression step of `rawSendMsgStream`: used whenever it is enabled. -/
def streamCompress (c : Codec) (cfg : Config) (sendBuf : List UInt8) : List UInt8 :=
  if cfg.EnableCompression then compressPayload c sendBuf else sendBuf

/-- The encryption step of `rawSendMsgStream`. -/
def streamEncrypt (c : Codec) (cfg : Config) (sendBuf streamLabel nonce : List UInt8) :
    Except String (List UInt8) :=
  if cfg.EncryptionEnabled && cfg.GossipVerifyOutgoing then
    encryptLocalState c cfg sendBuf streamLabel nonce
  else .ok sendBuf

/-- `rawSendMsgStream conn sendBuf streamLabel`: the bytes written to the connection, or the
    error. -/
def rawSendMsgStream (c : Codec) (cfg : Config) (sendBuf streamLabel nonce : List UInt8) :
    Except String (List UInt8) :=
  streamEncrypt c cfg (streamCompress c cfg sendBuf) streamLabel nonce

/-- `sendLocalState conn join streamLabel`, with `userData` the delegate's user state and
    `nonce` what `encryptPayload` draws: the bytes written to the connection, or the error. -/
def sendLocalState (c : Codec) (enc : StreamEncoder) (cfg : Config) (m : Memberlist)
    (join : Bool) (userData streamLabel nonce : List UInt8) : Except String (List UInt8) :=
  rawSendMsgStream c cfg (localStateBuffer enc m join userData) streamLabel nonce

/-- A peer configured to read the state `cfg` sends: it decrypts what the sender encrypts,
    with the sender's primary key on its ring after keys that reject what that key seals; it
    accepts plaintext when the sender does not encrypt; and it speaks protocol version 2 or
    later, whose records carry their port. -/
structure ReadsStream (c : Codec) (cfg' cfg : Config) : Prop where
  encrypted : (cfg.EncryptionEnabled && cfg.GossipVerifyOutgoing) = true →
    cfg'.EncryptionEnabled = true ∧ ∃ pre rest, cfg'.keys = pre ++ cfg.primaryKey :: rest ∧
      ∀ k ∈ pre, ∀ nonce p data,
        c.gcm.Open k nonce (c.gcm.Seal cfg.primaryKey nonce p data) data = none
  plain : (cfg.EncryptionEnabled && cfg.GossipVerifyOutgoing) = false →
    (cfg'.EncryptionEnabled && cfg'.GossipVerifyIncoming) = false
  protocol : 2 ≤ cfg'.ProtocolVersion

/-! ### The stream layers -/

section Layers

variable {c : Codec} {cfg cfg' : Config} {streamLabel nonce : List UInt8}

/-- With a key of an AES size the encryption of the stream succeeds, whatever it seals. -/
theorem encryptLocalState_ok {sendBuf : List UInt8} (hkey : aesKeySize cfg.primaryKey = true) :
    ∃ out, encryptLocalState c cfg sendBuf streamLabel nonce = .ok out := by
  rw [encryptLocalState, encryptPayload, hkey]
  exact ⟨_, rfl⟩

/-- The encrypted stream is the type byte, the length field and exactly that many bytes. -/
theorem encryptLocalState_eq (hg : c.gcm.Lawful) (hnonce : nonce.length = nonceSize)
    {sendBuf out : List UInt8} (hout : encryptLocalState c cfg sendBuf streamLabel nonce = .ok out) :
    ∃ pkt, encryptPayload c.gcm (encryptionVersion cfg) cfg.primaryKey sendBuf
        (encryptMsg :: toListBE 4 (encryptedLength (encryptionVersion cfg) sendBuf.length) ++
          streamLabel) nonce [] = .ok pkt ∧
      out = encryptMsg :: (toListBE 4 pkt.length ++ pkt) ∧
      pkt.length = encryptedLength (encryptionVersion cfg) sendBuf.length := by
  obtain ⟨pkt, hpkt, rfl⟩ := encryptPayload_append hout
  have hlen := encryptPayload_length hg hnonce hpkt
  rw [List.length_nil, Nat.zero_add] at hlen
  refine ⟨pkt, hpkt, ?_, hlen⟩
  rw [hlen]
  rfl

/-- What `encryptLocalState` writes, `decryptRemoteState` decrypts, when it is within
    `maxPushStateBytes` and the keys before the sender's primary key reject what it seals. -/
theorem decryptRemoteState_encryptLocalState (hg : c.gcm.Lawful) {pre rest : List (List UInt8)}
    (hkeys : cfg'.keys = pre ++ cfg.primaryKey :: rest)
    (hpre : ∀ k ∈ pre, ∀ nonce p data,
      c.gcm.Open k nonce (c.gcm.Seal cfg.primaryKey nonce p data) data = none)
    (hnonce : nonce.length = nonceSize) {sendBuf out : List UInt8}
    (hout : encryptLocalState c cfg sendBuf streamLabel nonce = .ok out)
    (hsize : out.length ≤ maxPushStateBytes + 5) :
    decryptRemoteState c cfg' out.tail streamLabel = .ok (.ok sendBuf) := by
  obtain ⟨pkt, hpkt, rfl, hlen⟩ := encryptLocalState_eq hg hnonce hout
  have hsmall : pkt.length ≤ maxPushStateBytes := by
    simp only [List.length_cons, List.length_append, length_toListBE] at hsize
    omega
  -- the length field reads back as the payload's length
  have hmore : ofListBE ((toListBE 4 pkt.length ++ pkt).take 4) = pkt.length := by
    rw [List.take_left' (length_toListBE 4 _), ofListBE_toListBE_of_lt]
    simp only [maxPushStateBytes] at hsmall
    omega
  have hvsn : encryptionVersion cfg ≤ 1 := by
    unfold encryptionVersion
    split <;> decide
  have hdec := decryptPayload_encryptPayload_of_rejects hg pre rest
    (fun k hk n p => hpre k hk n p _) hvsn hnonce hpkt
  have hcipher : (toListBE 4 pkt.length ++ pkt).take (4 + pkt.length) =
      toListBE 4 pkt.length ++ pkt := by
    rw [List.take_of_length_le]
    simp only [List.length_append, length_toListBE, Nat.le_refl]
  simp only [decryptRemoteState, List.tail_cons, List.length_append, length_toListBE, hmore,
    Nat.not_lt.mpr (Nat.le_add_right 4 _), if_false, Nat.not_lt.mpr hsmall, Nat.lt_irrefl,
    hcipher, hkeys]
  rw [← hlen] at hdec
  simpa [← hlen] using hdec

/-- An encrypted stream whose payload is past `maxPushStateBytes` is refused, whatever it
    holds. -/
theorem readStream_too_large (hg : c.gcm.Lawful) (hnonce : nonce.length = nonceSize)
    (hon : cfg'.EncryptionEnabled = true) {sendBuf out : List UInt8}
    (hout : encryptLocalState c cfg sendBuf streamLabel nonce = .ok out)
    (hbig : maxPushStateBytes < encryptedLength (encryptionVersion cfg) sendBuf.length)
    (hfit : encryptedLength (encryptionVersion cfg) sendBuf.length < 2 ^ 32) :
    readStream c cfg' streamLabel out = .ok (.error "remote node state is larger than limit") := by
  obtain ⟨pkt, -, rfl, hlen⟩ := encryptLocalState_eq hg hnonce hout
  rw [← hlen] at hbig hfit
  -- the length field reads back as the payload's length, which is over the limit
  have hmore : ofListBE ((toListBE 4 pkt.length ++ pkt).take 4) = pkt.length := by
    rw [List.take_left' (length_toListBE 4 _), ofListBE_toListBE_of_lt]
    omega
  have hdec : decryptRemoteState c cfg' (toListBE 4 pkt.length ++ pkt) streamLabel =
      .ok (.error "remote node state is larger than limit") := by
    simp only [decryptRemoteState, List.length_append, length_toListBE, hmore,
      Nat.not_lt.mpr (Nat.le_add_right 4 _), if_false, hbig, if_true]
  rw [readStream, if_pos rfl, hon]
  simp only [Bool.not_true, Bool.false_eq_true, if_false, hdec]
  rfl

/-- What `rawSendMsgStream` writes of a buffer, a peer that reads it decrypts and decompresses
    back to the buffer's type and the rest. -/
theorem readStream_rawSendMsgStream (hc : c.Lawful) (hreads : ReadsStream c cfg' cfg)
    (hnonce : nonce.length = nonceSize) {t : UInt8} {body out : List UInt8}
    (ht : t ≠ encryptMsg) (htc : t ≠ compressMsg)
    (hout : rawSendMsgStream c cfg (t :: body) streamLabel nonce = .ok out)
    (hsize : (cfg.EncryptionEnabled && cfg.GossipVerifyOutgoing) = true →
      out.length ≤ maxPushStateBytes + 5) :
    readStream c cfg' streamLabel out = .ok (.ok (t, body)) := by
  have hce : compressMsg ≠ encryptMsg := by decide
  unfold rawSendMsgStream streamEncrypt at hout
  by_cases hE : (cfg.EncryptionEnabled && cfg.GossipVerifyOutgoing) = true
  · -- encrypted: the peer decrypts what was compressed, or the buffer itself
    obtain ⟨hon, pre, rest, hkeys, hpre⟩ := hreads.encrypted hE
    rw [if_pos hE] at hout
    have hdec := decryptRemoteState_encryptLocalState hc.gcm hkeys hpre hnonce hout (hsize hE)
    obtain ⟨pkt, -, rfl, -⟩ := encryptLocalState_eq hc.gcm hnonce hout
    rw [List.tail_cons] at hdec
    unfold streamCompress at hdec
    split at hdec
    · rw [readStream, if_pos rfl, hon]
      simp only [Bool.not_true, Bool.false_eq_true, if_false, hdec]
      simp only [bind, Except.bind, pure, Except.pure, compressPayload, index,
        List.getElem?_cons_zero, List.drop_one, List.tail_cons, ↓reduceIte, hc.decompress]
    · rw [readStream, if_pos rfl, hon]
      simp only [Bool.not_true, Bool.false_eq_true, if_false, hdec]
      simp only [bind, Except.bind, pure, Except.pure, index, List.getElem?_cons_zero,
        List.drop_one, List.tail_cons, if_neg htc]
  · -- in the clear: the peer does not insist on encryption
    have hoff := hreads.plain (by simpa using hE)
    rw [if_neg hE] at hout
    cases hout
    unfold streamCompress
    split
    · simp [readStream, hce, hoff, compressPayload, index, hc.decompress, bind,
        Except.bind, pure, Except.pure]
    · simp [readStream, ht, hoff, htc, bind, Except.bind, pure, Except.pure]

end Layers

/-! ### The records and the user state -/

section Records

variable {enc : StreamEncoder} {dec : StreamDecoder}

/-- Records written one after another are decoded one after another. -/
theorem decodeNodes_flatMap {ns : List pushNodeState}
    (hnodes : ∀ n ∈ ns, ∀ rest, dec.node (enc.node n ++ rest) = .ok (n, rest))
    (rest : List UInt8) :
    decodeNodes dec ns.length (ns.flatMap enc.node ++ rest) = .ok (ns, rest) := by
  induction ns with
  | nil => rfl
  | cons n ns ih =>
    rw [List.flatMap_cons, List.append_assoc, List.length_cons]
    simp only [decodeNodes, hnodes n List.mem_cons_self,
      ih fun n' h => hnodes n' (List.mem_cons_of_mem n h)]

/-- From protocol version 2 on, only a port of 0 is replaced, by the bind port. -/
theorem maskPort_of_protocol {cfg : Config} (h : 2 ≤ cfg.ProtocolVersion) (port : UInt16) :
    maskPort cfg port = if port = 0 then UInt16.ofNat cfg.BindPort else port := by
  have hpv : ¬ cfg.ProtocolVersion < 2 := UInt8.not_lt.mpr h
  simp [maskPort, hpv]

/-- `readRemoteState` reads the header, the records and the user state `sendLocalState`
    writes after the message type. -/
theorem readRemoteState_localStateBuffer (cfg' : Config) {m : Memberlist} {join : Bool}
    {userData : List UInt8}
    (hheader : ∀ rest, dec.header (enc.header ⟨m.localState.length, userData.length, join⟩ ++ rest) =
      .ok (⟨m.localState.length, userData.length, join⟩, rest))
    (hnodes : ∀ n ∈ m.localState, ∀ rest, dec.node (enc.node n ++ rest) = .ok (n, rest)) :
    readRemoteState cfg' dec (enc.header ⟨m.localState.length, userData.length, join⟩ ++
        m.localState.flatMap enc.node ++ userData) =
      .ok (.ok (join, m.localState.map fun n => { n with Port := maskPort cfg' n.Port },
        if userData = [] then none else some userData)) := by
  have hcount : ¬ ((m.localState.length : Nat) : Int) < 0 := by omega
  rw [readRemoteState, List.append_assoc, hheader]
  simp only [hcount, if_false, Int.toNat_natCast, decodeNodes_flatMap hnodes]
  -- the user state is read whole when there is one
  by_cases hu : userData = []
  · simp [hu]
  · simp [hu]

end Records

/-! ### The round trip -/

/-- **Push/pull state transfer round trip.**  A peer configured to read what `cfg` sends
    (`ReadsStream`) reads back from the bytes `sendLocalState` writes the join flag, every
    local record with its name, address, meta, incarnation, state and versions, and its port
    unless that is 0, and the user state when there is one — provided that msgpack decodes each
    value written, that compression and AES-GCM are lawful, and that an encrypted stream is
    within `maxPushStateBytes` past its 5-byte header. -/
theorem readRemoteState_sendLocalState {c : Codec} {enc : StreamEncoder} {dec : StreamDecoder}
    {cfg cfg' : Config} {m : Memberlist} {join : Bool} {userData streamLabel nonce out : List UInt8}
    (hc : c.Lawful) (hreads : ReadsStream c cfg' cfg)
    (hheader : ∀ rest, dec.header (enc.header ⟨m.localState.length, userData.length, join⟩ ++ rest) =
      .ok (⟨m.localState.length, userData.length, join⟩, rest))
    (hnodes : ∀ n ∈ m.localState, ∀ rest, dec.node (enc.node n ++ rest) = .ok (n, rest))
    (hnonce : nonce.length = nonceSize)
    (hout : sendLocalState c enc cfg m join userData streamLabel nonce = .ok out)
    (hsize : (cfg.EncryptionEnabled && cfg.GossipVerifyOutgoing) = true →
      out.length ≤ maxPushStateBytes + 5) :
    ∃ rest, readStream c cfg' streamLabel out = .ok (.ok (pushPullMsg, rest)) ∧
      readRemoteState cfg' dec rest = .ok (.ok (join,
        m.localState.map fun n =>
          if n.Port = 0 then { n with Port := UInt16.ofNat cfg'.BindPort } else n,
        if userData = [] then none else some userData)) := by
  refine ⟨_, readStream_rawSendMsgStream hc hreads hnonce (by decide) (by decide) hout hsize, ?_⟩
  rw [readRemoteState_localStateBuffer cfg' hheader hnodes]
  -- the port of each record is masked as protocol version 2 does
  have hmask : (fun n : pushNodeState => { n with Port := maskPort cfg' n.Port }) =
      fun n => if n.Port = 0 then { n with Port := UInt16.ofNat cfg'.BindPort } else n := by
    funext n
    rw [maskPort_of_protocol hreads.protocol]
    split <;> rfl
  rw [hmask]

/-- After `setAlive` and an alive message about `b`, the state's two records and a user state,
    sent compressed between two nodes with the default configuration: the peer reads back the
    join flag, both records and the user state. -/
theorem readRemoteState_sendLocalState_two :
    let cfg := DefaultLANConfig "a"
    ∃ r r₁, (Memberlist.init cfg).step cfg (Env.at 0) (.setAlive [10, 0, 0, 1] 7946 []) = .ok r ∧
      r.1.step cfg (Env.at 1) (.alive ⟨1, "b", [10, 0, 0, 2], 7946, [], [1, 5, 2, 0, 0, 0]⟩) =
        .ok r₁ ∧
      r₁.1.localState.map (·.Name) = ["b", "a"] ∧
      ∃ out, sendLocalState (Codec.constant ⟨0, "", [], 0, [], []⟩ ⟨0, "", ""⟩ ⟨0, "", ""⟩)
          (StreamEncoder.table [⟨2, 2, true⟩] r₁.1.localState) cfg r₁.1 true [7, 7] []
          (List.replicate 12 0) = .ok out ∧
        ∃ rest, readStream (Codec.constant ⟨0, "", [], 0, [], []⟩ ⟨0, "", ""⟩ ⟨0, "", ""⟩)
            (DefaultLANConfig "b") [] out = .ok (.ok (pushPullMsg, rest)) ∧
          readRemoteState (DefaultLANConfig "b") (StreamDecoder.table [⟨2, 2, true⟩] r₁.1.localState)
            rest = .ok (.ok (true, r₁.1.localState.map fun n =>
              if n.Port = 0 then { n with Port := UInt16.ofNat (DefaultLANConfig "b").BindPort }
              else n, if ([7, 7] : List UInt8) = [] then none else some [7, 7])) := by
  intro cfg
  refine ⟨_, _, rfl, rfl, by decide, _, rfl, ?_⟩
  have hreads : ReadsStream (Codec.constant ⟨0, "", [], 0, [], []⟩ ⟨0, "", ""⟩ ⟨0, "", ""⟩)
      (DefaultLANConfig "b") (DefaultLANConfig "a") :=
    ⟨fun h => absurd h (by decide), fun _ => rfl, by decide⟩
  -- the header and both records are read back from their positions in the tables
  exact readRemoteState_sendLocalState (Codec.constant_lawful _ _ _) hreads
    (fun rest => StreamDecoder.table_header (by decide) (by decide) rest)
    (fun n hn rest => StreamDecoder.table_node (by decide) hn rest)
    (show (List.replicate 12 (0 : UInt8)).length = nonceSize from rfl) rfl
    (fun h => absurd h (by decide))

/-- **A 20 MiB user state is refused.**  A node sends its state encrypted, with a user state of
    `maxPushStateBytes` bytes, to a peer that holds its key and reads it in every other
    respect: the peer refuses the stream as larger than the limit. -/
theorem sendLocalState_too_large :
    ReadsStream (Codec.constant ⟨0, "", [], 0, [], []⟩ ⟨0, "", ""⟩ ⟨0, "", ""⟩)
        { DefaultLANConfig "b" with Keyring := some ⟨[List.replicate 16 0]⟩ }
        { DefaultLANConfig "a" with
          Keyring := some ⟨[List.replicate 16 0]⟩, EnableCompression := false } ∧
      ∃ out, sendLocalState (Codec.constant ⟨0, "", [], 0, [], []⟩ ⟨0, "", ""⟩ ⟨0, "", ""⟩)
          StreamEncoder.empty
          { DefaultLANConfig "a" with
            Keyring := some ⟨[List.replicate 16 0]⟩, EnableCompression := false }
          (Memberlist.init (DefaultLANConfig "a")) false (List.replicate maxPushStateBytes 0) []
          (List.replicate 12 0) = .ok out ∧
        readStream (Codec.constant ⟨0, "", [], 0, [], []⟩ ⟨0, "", ""⟩ ⟨0, "", ""⟩)
          { DefaultLANConfig "b" with Keyring := some ⟨[List.replicate 16 0]⟩ } [] out =
          .ok (.error "remote node state is larger than limit") := by
  refine ⟨⟨fun _ => ⟨rfl, [], [], rfl, fun k hk => absurd hk List.not_mem_nil⟩,
    fun h => absurd h (by decide), by decide⟩, ?_⟩
  -- the buffer holds the type byte and the user state: the lengths are counted, never the list
  have hlen : (localStateBuffer StreamEncoder.empty (Memberlist.init (DefaultLANConfig "a")) false
      (List.replicate maxPushStateBytes 0)).length = maxPushStateBytes + 1 := by
    have hnil : (Memberlist.init (DefaultLANConfig "a")).localState = [] := rfl
    rw [localStateBuffer, hnil]
    rw [List.length_cons, List.length_append, List.length_append, List.length_replicate,
      List.flatMap_nil]
    show 0 + 0 + maxPushStateBytes + 1 = maxPushStateBytes + 1
    omega
  -- without compression, the buffer goes to encryptLocalState as it is
  have hsend : sendLocalState (Codec.constant ⟨0, "", [], 0, [], []⟩ ⟨0, "", ""⟩ ⟨0, "", ""⟩)
      StreamEncoder.empty
      { DefaultLANConfig "a" with
        Keyring := some ⟨[List.replicate 16 0]⟩, EnableCompression := false }
      (Memberlist.init (DefaultLANConfig "a")) false (List.replicate maxPushStateBytes 0) []
      (List.replicate 12 0) =
      encryptLocalState (Codec.constant ⟨0, "", [], 0, [], []⟩ ⟨0, "", ""⟩ ⟨0, "", ""⟩)
        { DefaultLANConfig "a" with
          Keyring := some ⟨[List.replicate 16 0]⟩, EnableCompression := false }
        (localStateBuffer StreamEncoder.empty (Memberlist.init (DefaultLANConfig "a")) false
          (List.replicate maxPushStateBytes 0)) [] (List.replicate 12 0) := by
    rw [sendLocalState, rawSendMsgStream, streamCompress, if_neg (by decide), streamEncrypt,
      if_pos (by decide)]
  obtain ⟨out, hout⟩ : ∃ out, encryptLocalState
      (Codec.constant ⟨0, "", [], 0, [], []⟩ ⟨0, "", ""⟩ ⟨0, "", ""⟩)
      { DefaultLANConfig "a" with
        Keyring := some ⟨[List.replicate 16 0]⟩, EnableCompression := false }
      (localStateBuffer StreamEncoder.empty (Memberlist.init (DefaultLANConfig "a")) false
        (List.replicate maxPushStateBytes 0)) [] (List.replicate 12 0) = .ok out :=
    encryptLocalState_ok (by decide)
  refine ⟨out, hsend.trans hout, readStream_too_large AEAD.zeroTag_lawful rfl rfl hout ?_ ?_⟩
  · rw [hlen]
    decide
  · rw [hlen]
    decide

end memberlist
