import Memberlist.Net.Packet
import Memberlist.Queue.Greedy
import Memberlist.State.RandomNodes
import Mathlib

/-!
# A gossip round (state.go)

Every `GossipInterval`, `gossip` picks up to `GossipNodes` peers with `kRandomNodes` and hands
each the broadcasts `getBroadcasts` returns for it: one message in a packet of its own, more in
the compounds of `makeCompoundMessages`.  The round ends at the first peer for which there is
nothing to send.

* `gossipExclude`, `Gossipable` — the filter of the peers: a peer is not the local node, and is
  Alive, Suspect, or Dead for no longer than `GossipToTheDeadTime`
  (`gossipExclude_eq_false_iff`).
* `gossipBytesAvail`, `gossipPackets`, `gossipLoop`, `gossip` — translated from the source;
  each packet is what `rawSendMsgPacket` writes, or its error, which `gossip` logs before it
  goes on.
* `gossip_targets` — every packet goes to one of at most `GossipNodes` peers of distinct
  names, each a copy of a record that is gossipable at the time of the round.
* `makeCompoundMessages_eq` — the compounds are those of consecutive chunks of one to 255
  messages; `gossipPackets_round_trip` — so the packets for any number of messages hand a
  receiver that reads the sender exactly those messages, in order, each once.  Where
  `sendMsg` packs everything into one `makeCompoundMessage`, whose count byte wraps at 256,
  `gossip` splits.
-/

namespace memberlist

open Go

/-- The filter `gossip` hands `kRandomNodes`: true for the records it skips. -/
def gossipExclude (cfg : Config) (now : Int) (n : nodeState) : Bool :=
  if n.Node.Name = cfg.Name then true
  else if n.State = StateAlive ∨ n.State = StateSuspect then false
  else if n.State = StateDead then decide (now - n.StateChange > cfg.GossipToTheDeadTime)
  else true

/-- A record `gossip` may send to: not the local node; Alive, Suspect, or Dead for no longer
    than `GossipToTheDeadTime`. -/
def Gossipable (cfg : Config) (now : Int) (n : nodeState) : Prop :=
  n.Node.Name ≠ cfg.Name ∧ (n.State = StateAlive ∨ n.State = StateSuspect ∨
    (n.State = StateDead ∧ now - n.StateChange ≤ cfg.GossipToTheDeadTime))

theorem gossipExclude_eq_false_iff {cfg : Config} {now : Int} {n : nodeState} :
    gossipExclude cfg now n = false ↔ Gossipable cfg now n := by
  unfold gossipExclude Gossipable
  by_cases hname : n.Node.Name = cfg.Name
  · simp [hname]
  · simp only [hname, if_false, ne_eq, not_false_eq_true, true_and]
    -- Alive and Suspect are kept, Dead while recent, Left never
    by_cases hlive : n.State = StateAlive ∨ n.State = StateSuspect
    · simp only [hlive, if_true]
      rcases hlive with h | h <;> simp [h]
    · simp only [hlive, if_false]
      have hA : n.State ≠ StateAlive := fun h => hlive (.inl h)
      have hS : n.State ≠ StateSuspect := fun h => hlive (.inr h)
      by_cases hD : n.State = StateDead
      · have hDA : StateDead ≠ StateAlive := by decide
        have hDS : StateDead ≠ StateSuspect := by decide
        simp [hD, hDA, hDS]
      · simp [hD, hA, hS]

/-- The bytes `gossip` leaves for broadcasts in a packet. -/
def gossipBytesAvail (cfg : Config) : Except Panic Int := do
  let bytesAvail := cfg.UDPBufferSize - compoundHeaderOverhead - labelOverhead cfg.Label
  if cfg.EncryptionEnabled then do
    let overhead ← encryptOverhead (encryptionVersion cfg)
    pure (bytesAvail - overhead)
  else pure bytesAvail

/-- The packets `gossip` writes to `node` for the messages `msgs`: one message as it is, more
    in the compounds of `makeCompoundMessages`; the `j`-th packet draws `nonce j` if it is
    encrypted. -/
def gossipPackets (c : Codec) (cfg : Config) (node : Node) (nonce : Nat → List UInt8) :
    List (List UInt8) → List (Except String (List UInt8))
  | [msg] => [rawSendMsgPacket c cfg node.Name (some node) (nonce 0) msg]
  | msgs => (makeCompoundMessages msgs).mapIdx fun j compound =>
    rawSendMsgPacket c cfg node.Name (some node) (nonce j) compound

/-- The loop of `gossip` over its peers, the `i`-th drawing the nonces of its packets from
    `nonce i`: the queue, the broadcasts finished, and each packet with its peer. -/
def gossipLoop (c : Codec) (cfg : Config) (numNodes : Nat)
    (delegate : Option (Int → Int → List (List UInt8))) (bytesAvail : Int)
    (nonce : Nat → Nat → List UInt8) :
    Nat → List Node → TransmitLimitedQueue →
      Except Panic (TransmitLimitedQueue × List Broadcast × List (Node × Except String (List UInt8)))
  | _, [], q => .ok (q, [], [])
  | i, node :: kNodes, q => do
    let (q, msgs, finished) ← getBroadcasts q numNodes delegate compoundOverhead bytesAvail
    if msgs = [] then pure (q, finished, [])
    else
      let (q, finished', sent) ← gossipLoop c cfg numNodes delegate bytesAvail nonce (i + 1) kNodes q
      pure (q, finished ++ finished', (gossipPackets c cfg node (nonce i) msgs).map (node, ·) ++ sent)

/-- `gossip` at time `now`, with `GossipNodes` from the configuration, `draw` the draws of
    `kRandomNodes` and `nonce i j` the nonce of the `j`-th packet to the `i`-th peer. -/
def gossip (c : Codec) (cfg : Config) (GossipNodes : Int) (m : Memberlist) (now : Int)
    (q : TransmitLimitedQueue) (delegate : Option (Int → Int → List (List UInt8)))
    (draw : Nat → UInt32) (nonce : Nat → Nat → List UInt8) :
    Except Panic (TransmitLimitedQueue × List Broadcast × List (Node × Except String (List UInt8))) := do
  let kNodes ← kRandomNodes m.heap GossipNodes m.nodes
    (some fun p => gossipExclude cfg now (m.heap p)) draw
  let bytesAvail ← gossipBytesAvail cfg
  gossipLoop c cfg m.numNodes.toNat delegate bytesAvail nonce 0 kNodes q

/-! ### The peers -/

section Peers

variable {c : Codec} {cfg : Config} {numNodes : Nat}
  {delegate : Option (Int → Int → List (List UInt8))} {bytesAvail : Int}
  {nonce : Nat → Nat → List UInt8}

/-- What the loop writes: for a peer it is given, the packets of `gossipPackets` for the
    messages, not none, that a call of `getBroadcasts` returned. -/
theorem gossipLoop_sent :
    ∀ {i : Nat} {kNodes : List Node} {q q' : TransmitLimitedQueue} {fin : List Broadcast}
      {sent : List (Node × Except String (List UInt8))},
      gossipLoop c cfg numNodes delegate bytesAvail nonce i kNodes q = .ok (q', fin, sent) →
      ∀ s ∈ sent, ∃ (j : Nat) (msgs : List (List UInt8)) (q₀ q₁ : TransmitLimitedQueue)
        (fin₀ : List Broadcast),
        getBroadcasts q₀ numNodes delegate compoundOverhead bytesAvail = .ok (q₁, msgs, fin₀) ∧
        msgs ≠ [] ∧ s.1 ∈ kNodes ∧ s.2 ∈ gossipPackets c cfg s.1 (nonce j) msgs
  | _, [], _, _, _, _, h => by
    cases h
    simp
  | i, node :: kNodes, q, q', fin, sent, h => by
    obtain ⟨⟨q₁, msgs, finished⟩, hget, h⟩ := bind_eq_ok.mp h
    dsimp only at h
    split at h
    · cases h
      simp
    · next hne =>
      obtain ⟨⟨q₂, finished', sent'⟩, hrest, h⟩ := bind_eq_ok.mp h
      cases h
      intro s hs
      rcases List.mem_append.mp hs with hs | hs
      · -- a packet to this peer, for what `getBroadcasts` just returned
        obtain ⟨r, hr, rfl⟩ := List.mem_map.mp hs
        exact ⟨i, msgs, q, q₁, finished, hget, hne, List.mem_cons_self, hr⟩
      · obtain ⟨j, msgs', q₀, q₁', fin₀, hget', hne', hpeer, hmem⟩ := gossipLoop_sent hrest s hs
        exact ⟨j, msgs', q₀, q₁', fin₀, hget', hne', List.mem_cons_of_mem _ hpeer, hmem⟩

end Peers

/-- **Who gossip talks to.**  Every packet of a round goes to one of at most `GossipNodes`
    peers of distinct names, each a copy of a record that, at the time of the round, is not
    the local node and is Alive, Suspect, or Dead for no longer than `GossipToTheDeadTime`:
    never a Left record, nor one Dead for longer. -/
theorem gossip_targets {c : Codec} {cfg : Config} {GossipNodes : Int} {m : Memberlist} {now : Int}
    {q q' : TransmitLimitedQueue} {delegate : Option (Int → Int → List (List UInt8))}
    {draw : Nat → UInt32} {nonce : Nat → Nat → List UInt8} {fin : List Broadcast}
    {sent : List (Node × Except String (List UInt8))}
    (h : gossip c cfg GossipNodes m now q delegate draw nonce = .ok (q', fin, sent)) :
    ∃ kNodes : List Node, (kNodes.length : Int) ≤ GossipNodes ∧ (kNodes.map (·.Name)).Nodup ∧
      (∀ node ∈ kNodes, ∃ p ∈ m.nodes, (m.heap p).Node = node ∧ Gossipable cfg now (m.heap p)) ∧
      ∀ s ∈ sent, s.1 ∈ kNodes := by
  obtain ⟨kNodes, hk, h⟩ := bind_eq_ok.mp h
  obtain ⟨bytesAvail, -, h⟩ := bind_eq_ok.mp h
  have hc := kRandomNodes.chosen_of_ok hk
  refine ⟨kNodes, hc.le, hc.nodup, fun node hn => ?_, fun s hs => ?_⟩
  · obtain ⟨p, hp, hnode, hex⟩ := hc.mem node hn
    exact ⟨p, hp, hnode, gossipExclude_eq_false_iff.mp (by simpa using hex)⟩
  · obtain ⟨-, -, -, -, -, -, -, hpeer, -⟩ := gossipLoop_sent h s hs
    exact hpeer

/-- A record of `b`, Alive and speaking protocol version 5. -/
def gossipPeerB : nodeState :=
  ⟨⟨"b", [10, 0, 0, 2], 7946, [], StateAlive, 1, 5, 2, 0, 0, 0⟩, 1, StateAlive, 0⟩

/-- Four records: the local node `a`, `b` Alive, `c` Dead since time 0 and `d` Suspect. -/
def gossipRecords : Ptr → nodeState
  | 0 => ⟨⟨"a", [10, 0, 0, 1], 7946, [], StateAlive, 1, 5, 2, 0, 0, 0⟩, 1, StateAlive, 0⟩
  | 1 => gossipPeerB
  | 2 => ⟨⟨"c", [10, 0, 0, 3], 7946, [], StateAlive, 1, 5, 2, 0, 0, 0⟩, 1, StateDead, 0⟩
  | _ => ⟨⟨"d", [10, 0, 0, 4], 7946, [], StateAlive, 1, 5, 2, 0, 0, 0⟩, 1, StateSuspect, 0⟩

/-- The draws `0, 2, 1, 3`: the local node and `c`, dead for longer than
    `GossipToTheDeadTime` at time `10^11`, are passed over; `b` and `d` are chosen. -/
def gossipDraws (i : Nat) : UInt32 := ([0, 2, 1, 3] : List UInt32).getD i 0

/-- `a` has a user message to gossip to two of its four records: the round sends one packet to
    `b` and one to `d`. -/
theorem gossip_targets_four :
    ∃ q' fin sent, gossip (Codec.constant ⟨0, "", [], 0, [], []⟩ ⟨0, "", ""⟩ ⟨0, "", ""⟩)
        (DefaultLANConfig "a") 2
        { Memberlist.init (DefaultLANConfig "a") with nodes := [0, 1, 2, 3], heap := gossipRecords }
        100000000000 (TransmitLimitedQueue.zero 4) (some fun _ _ => [[104]]) gossipDraws
        (fun _ _ => List.replicate 12 0) = .ok (q', fin, sent) ∧
      sent.map (·.1.Name) = ["b", "d"] ∧
      ∃ kNodes : List Node, (kNodes.length : Int) ≤ 2 ∧ (kNodes.map (·.Name)).Nodup ∧
        (∀ node ∈ kNodes, ∃ p ∈ [0, 1, 2, 3], (gossipRecords p).Node = node ∧
          Gossipable (DefaultLANConfig "a") 100000000000 (gossipRecords p)) ∧
        ∀ s ∈ sent, s.1 ∈ kNodes := by
  obtain ⟨q', fin, sent, h, hnames⟩ : ∃ q' fin sent,
      gossip (Codec.constant ⟨0, "", [], 0, [], []⟩ ⟨0, "", ""⟩ ⟨0, "", ""⟩) (DefaultLANConfig "a") 2
        { Memberlist.init (DefaultLANConfig "a") with nodes := [0, 1, 2, 3], heap := gossipRecords }
        100000000000 (TransmitLimitedQueue.zero 4) (some fun _ _ => [[104]]) gossipDraws
        (fun _ _ => List.replicate 12 0) = .ok (q', fin, sent) ∧ sent.map (·.1.Name) = ["b", "d"] :=
    ⟨_, _, _, rfl, rfl⟩
  exact ⟨q', fin, sent, h, hnames, gossip_targets h⟩

/-! ### What the packets carry -/

/-- The compounds of `makeCompoundMessages` are those of consecutive chunks of one to 255
    messages. -/
theorem makeCompoundMessages_eq (msgs : List (List UInt8)) :
    ∃ chunks : List (List (List UInt8)), chunks.flatten = msgs ∧
      (∀ ch ∈ chunks, ch ≠ [] ∧ ch.length ≤ 255) ∧
      makeCompoundMessages msgs = chunks.map makeCompoundMessage := by
  fun_induction makeCompoundMessages msgs with
  | case1 msgs hlong ih =>
    -- more than 255 left: a full compound of the first 255, then the rest
    obtain ⟨chunks, hflat, hsize, heq⟩ := ih
    have hfirst : (msgs.take 255).length = 255 := List.length_take_of_le (by omega)
    refine ⟨msgs.take 255 :: chunks, ?_, ?_, ?_⟩
    · rw [List.flatten_cons, hflat, List.take_append_drop]
    · intro ch hch
      rcases List.mem_cons.mp hch with rfl | hch
      · exact ⟨List.ne_nil_of_length_pos (by omega), by omega⟩
      · exact hsize ch hch
    · rw [heq, List.map_cons]
  | case2 msgs hshort hpos =>
    refine ⟨[msgs], List.flatten_singleton, ?_, rfl⟩
    intro ch hch
    rw [List.mem_singleton] at hch
    subst hch
    exact ⟨List.ne_nil_of_length_pos hpos, by omega⟩
  | case3 msgs hshort hempty =>
    have hnil : msgs = [] := List.eq_nil_of_length_eq_zero (by omega)
    subst hnil
    exact ⟨[], rfl, fun ch hch => absurd hch List.not_mem_nil, rfl⟩

/-- A relation that holds of `f j (g a)` and `a` for every index and element relates the indexed
    image of a list to the list. -/
theorem forall₂_mapIdx_map {α β δ : Type} {R : δ → α → Prop} {g : α → β} :
    ∀ {f : Nat → β → δ} (l : List α), (∀ j, ∀ a ∈ l, R (f j (g a)) a) →
      List.Forall₂ R ((l.map g).mapIdx f) l
  | _, [], _ => .nil
  | f, a :: l, h => by
    rw [List.map_cons, List.mapIdx_cons]
    exact .cons (h 0 a List.mem_cons_self) (forall₂_mapIdx_map (f := fun i => f (i + 1)) l
      fun j b hb => h (j + 1) b (List.mem_cons_of_mem _ hb))

/-- A message for a handler starts neither like a checksum header nor like a label header. -/
theorem ForHandler.head_ne {msg : List UInt8} (h : ForHandler msg) :
    msg.head? ≠ some hasCrcMsg ∧ msg.head? ≠ some hasLabelMsg := by
  obtain ⟨t, ht, buf, rfl⟩ := h
  simp only [List.head?_cons, ne_eq, Option.some.injEq]
  constructor <;> rintro rfl <;> exact absurd ht (by decide)

section RoundTrip

variable {c : Codec} {cfg cfg' : Config}

/-- A payload that hands on `out` given two levels of nesting does so from a packet written
    to a receiver that reads the sender, with a third for the compression. -/
theorem ingestPacket_of_payload (hc : c.Lawful) (hreads : Reads cfg' cfg) {aName : String}
    {node : Option Node} {nonce payload pkt : List UInt8} (hnonce : nonce.length = nonceSize)
    (hcrc : payload.head? ≠ some hasCrcMsg) (hlabel : payload.head? ≠ some hasLabelMsg)
    (hsend : rawSendMsgPacket c cfg aName node nonce payload = .ok pkt)
    {out : List (UInt8 × List UInt8)} (hout : ∀ f, handleCommand c (f + 2) payload = out)
    (fuel : Nat) : ingestPacket c cfg' (fuel + 3) pkt = .ok out := by
  rw [ingestPacket_rawSendMsgPacket hc hreads hnonce hcrc hlabel hsend]
  rcases @packetCompress_cases c cfg payload with h | h <;> rw [h]
  · exact congrArg Except.ok (hout (fuel + 1))
  · rw [handleCommand_compressPayload hc]
    exact congrArg Except.ok (hout fuel)

/-- The compounds of any number of messages for handlers, each of fewer than `2^16` bytes,
    hand on consecutive chunks of them. -/
theorem compounds_round_trip (hc : c.Lawful) (hreads : Reads cfg' cfg) (node : Node)
    {nonce : Nat → List UInt8} (hnonce : ∀ j, (nonce j).length = nonceSize)
    {msgs : List (List UInt8)} (hmsgs : ∀ msg ∈ msgs, ForHandler msg ∧ msg.length < 65536)
    (fuel : Nat) :
    ∃ chunks : List (List (List UInt8)), chunks.flatten = msgs ∧
      List.Forall₂ (fun r chunk => ∀ pkt, r = .ok pkt →
          ingestPacket c cfg' (fuel + 3) pkt = .ok (chunk.map fun m => (m.headD 0, m.tail)))
        ((makeCompoundMessages msgs).mapIdx fun j compound =>
          rawSendMsgPacket c cfg node.Name (some node) (nonce j) compound) chunks := by
  obtain ⟨chunks, hflat, hsize, heq⟩ := makeCompoundMessages_eq msgs
  refine ⟨chunks, hflat, ?_⟩
  rw [heq]
  refine forall₂_mapIdx_map chunks fun j ch hch pkt hpkt => ?_
  -- a chunk of `msgs`: each of its messages is one of them
  have hpart : ∀ m ∈ ch, ForHandler m ∧ m.length < 65536 := fun m hm =>
    hmsgs m (hflat ▸ List.mem_flatten.mpr ⟨ch, hch, hm⟩)
  have hout : ∀ f, handleCommand c (f + 2) (makeCompoundMessage ch) =
      ch.map fun m => (m.headD 0, m.tail) := by
    intro f
    rw [handleCommand_makeCompoundMessage (by have := (hsize ch hch).2; omega)
      fun m hm => (hpart m hm).2, handleCommand_forHandler fun m hm => (hpart m hm).1]
  have hhead : (makeCompoundMessage ch).head? = some compoundMsg := rfl
  exact ingestPacket_of_payload hc hreads (hnonce j) (by rw [hhead]; decide) (by rw [hhead]; decide)
    hpkt hout fuel

/-- **Gossip packets round trip.**  For any number of messages for handlers, each of fewer
    than `2^16` bytes, the packets `gossip` writes to a peer hand a receiver that reads the
    sender consecutive chunks of the messages: every packet that was written hands on its chunk,
    and the chunks, in order, are the messages, each once. -/
theorem gossipPackets_round_trip (hc : c.Lawful) (hreads : Reads cfg' cfg) (node : Node)
    {nonce : Nat → List UInt8} (hnonce : ∀ j, (nonce j).length = nonceSize)
    {msgs : List (List UInt8)} (hmsgs : ∀ msg ∈ msgs, ForHandler msg ∧ msg.length < 65536)
    (fuel : Nat) :
    ∃ chunks : List (List (List UInt8)), chunks.flatten = msgs ∧
      List.Forall₂ (fun r chunk => ∀ pkt, r = .ok pkt →
          ingestPacket c cfg' (fuel + 3) pkt = .ok (chunk.map fun m => (m.headD 0, m.tail)))
        (gossipPackets c cfg node nonce msgs) chunks := by
  match msgs, hmsgs with
  | [], hmsgs => exact compounds_round_trip hc hreads node hnonce hmsgs fuel
  | [msg], hmsgs =>
    -- one message, sent as it is
    obtain ⟨hfor, -⟩ := hmsgs msg List.mem_cons_self
    refine ⟨[[msg]], rfl, .cons (fun pkt hpkt => ?_) .nil⟩
    have hhead := hfor.head_ne
    obtain ⟨t, ht, buf, rfl⟩ := hfor
    exact ingestPacket_of_payload hc hreads (hnonce 0) hhead.1 hhead.2 hpkt
      (fun _ => handleCommand_handler buf ht) fuel
  | a :: b :: rest, hmsgs => exact compounds_round_trip hc hreads node hnonce hmsgs fuel

end RoundTrip

/-! ### The bytes of a packet -/

namespace TransmitLimitedQueue

end TransmitLimitedQueue

section Size

variable {c : Codec} {cfg : Config}

end Size

/-- Two user messages to `b` go in one compound, which hands both on. -/
theorem gossipPackets_round_trip_two :
    (Codec.constant ⟨0, "", [], 0, [], []⟩ ⟨0, "", ""⟩ ⟨0, "", ""⟩).Lawful ∧
      Reads (DefaultLANConfig "b") (DefaultLANConfig "a") ∧
      (∀ _ : Nat, (List.replicate 12 (0 : UInt8)).length = nonceSize) ∧
      (∀ msg ∈ [[userMsg, 104], [userMsg, 105]], ForHandler msg ∧ msg.length < 65536) ∧
      ∃ chunks : List (List (List UInt8)), chunks.flatten = [[userMsg, 104], [userMsg, 105]] ∧
        List.Forall₂ (fun r chunk => ∀ pkt, r = .ok pkt →
            ingestPacket (Codec.constant ⟨0, "", [], 0, [], []⟩ ⟨0, "", ""⟩ ⟨0, "", ""⟩)
              (DefaultLANConfig "b") 3 pkt = .ok (chunk.map fun m => (m.headD 0, m.tail)))
          (gossipPackets (Codec.constant ⟨0, "", [], 0, [], []⟩ ⟨0, "", ""⟩ ⟨0, "", ""⟩)
            (DefaultLANConfig "a") gossipPeerB.Node (fun _ => List.replicate 12 0)
            [[userMsg, 104], [userMsg, 105]]) chunks := by
  have hc := Codec.constant_lawful ⟨0, "", [], 0, [], []⟩ ⟨0, "", ""⟩ ⟨0, "", ""⟩
  have hreads : Reads (DefaultLANConfig "b") (DefaultLANConfig "a") :=
    ⟨rfl, rfl, rfl, fun h => absurd h (by decide)⟩
  have hnonce : ∀ _ : Nat, (List.replicate 12 (0 : UInt8)).length = nonceSize := fun _ => rfl
  have hmsgs : ∀ msg ∈ [[userMsg, 104], [userMsg, 105]], ForHandler msg ∧ msg.length < 65536 := by
    intro msg hmsg
    simp only [List.mem_cons, List.mem_nil_iff, or_false] at hmsg
    rcases hmsg with rfl | rfl
    · exact ⟨⟨userMsg, by decide, [104], rfl⟩, by decide⟩
    · exact ⟨⟨userMsg, by decide, [105], rfl⟩, by decide⟩
  exact ⟨hc, hreads, hnonce, hmsgs,
    gossipPackets_round_trip hc hreads gossipPeerB.Node hnonce hmsgs 0⟩

end memberlist
