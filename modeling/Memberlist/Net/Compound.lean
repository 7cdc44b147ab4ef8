import Memberlist.Lib.BigEndian
import Mathlib

/-!
# Message types and compound messages (net.go, util.go)

Every packet and stream starts with a `messageType` byte.  A compound message packs several
messages into one packet:

    [compoundMsg] [count: uint8] [len₁: uint16] … [lenₙ: uint16] [msg₁] … [msgₙ]

* `makeCompoundMessage` — the packing; the count is `uint8(len(msgs))` and each length
  `uint16(len(m))`, so both wrap silently.
* `makeCompoundMessages` — packs a list into compounds of at most 255 messages each.
* `decodeCompoundMessage` — the unpacking of what follows the type byte: the number of
  truncated messages and the parts read, or an error for a missing count or length table.
* `decodeCompoundMessage_makeCompoundMessage` — up to 255 messages of fewer than `2^16` bytes
  each come back as they went in; `decodeCompoundMessage_wrap` — a multiple of 256 messages
  comes back as none at all.
* `decodeCompoundMessage_eq_error_iff`, `decodeCompoundMessage_eq_ok` — the decoder on any
  buffer, from `splitParts_spec`: the parts are the longest run of consecutive slices of the
  table's lengths that fit; `makeCompoundMessages_decode` — the compounds of any number of
  messages decode to consecutive chunks of them.
-/

namespace memberlist

open BigEndian

/-- `pingMsg`. -/
def pingMsg : UInt8 := 0
/-- `indirectPingMsg`. -/
def indirectPingMsg : UInt8 := 1
/-- `ackRespMsg`. -/
def ackRespMsg : UInt8 := 2
/-- `suspectMsg`. -/
def suspectMsg : UInt8 := 3
/-- `aliveMsg`. -/
def aliveMsg : UInt8 := 4
/-- `deadMsg`. -/
def deadMsg : UInt8 := 5
/-- `pushPullMsg`. -/
def pushPullMsg : UInt8 := 6
/-- `compoundMsg`. -/
def compoundMsg : UInt8 := 7
/-- `userMsg`. -/
def userMsg : UInt8 := 8
/-- `compressMsg`. -/
def compressMsg : UInt8 := 9
/-- `encryptMsg`. -/
def encryptMsg : UInt8 := 10
/-- `nackRespMsg`. -/
def nackRespMsg : UInt8 := 11
/-- `hasCrcMsg`. -/
def hasCrcMsg : UInt8 := 12
/-- `errMsg`. -/
def errMsg : UInt8 := 13
/-- `hasLabelMsg`, deliberately far from the encryption versions and the other types. -/
def hasLabelMsg : UInt8 := 244

/-- `makeCompoundMessage msgs`. -/
def makeCompoundMessage (msgs : List (List UInt8)) : List UInt8 :=
  [compoundMsg, UInt8.ofNat msgs.length] ++ msgs.flatMap (fun m => toListBE 2 m.length) ++
    msgs.flatten

/-- `makeCompoundMessages msgs`: compounds of 255 messages while more than 255 are left, then
    one of the rest. -/
def makeCompoundMessages (msgs : List (List UInt8)) : List (List UInt8) :=
  if msgs.length > 255 then
    makeCompoundMessage (msgs.take 255) :: makeCompoundMessages (msgs.drop 255)
  else if msgs.length > 0 then [makeCompoundMessage msgs]
  else []
termination_by msgs.length

/-- The length table: `k` big-endian `uint16`s. -/
def readLengths : Nat → List UInt8 → List Nat
  | 0, _ => []
  | k + 1, a :: b :: rest => ofListBE [a, b] :: readLengths k rest
  -- not reached: `decodeCompoundMessage` checked that the table is there
  | _ + 1, _ => []

/-- The loop that splits the messages off the rest of the buffer, from index `idx` of
    `numParts`: the number of truncated messages, and the parts before them. -/
def splitParts (numParts : Nat) : Nat → List Nat → List UInt8 → Nat × List (List UInt8)
  | _, [], _ => (0, [])
  | idx, msgLen :: lengths, buf =>
    if buf.length < msgLen then (numParts - idx, [])
    else
      let r := splitParts numParts (idx + 1) lengths (buf.drop msgLen)
      (r.1, buf.take msgLen :: r.2)

/-- `decodeCompoundMessage buf`. -/
def decodeCompoundMessage : List UInt8 → Except String (Nat × List (List UInt8))
  | [] => .error "missing compound length byte"
  | n :: buf =>
    let numParts := n.toNat
    if buf.length < numParts * 2 then .error "truncated len slice"
    else .ok (splitParts numParts 0 (readLengths numParts buf) (buf.drop (numParts * 2)))

/-! ### Round trip -/

/-- The length table of `msgs`, read back: each length modulo `2^16`. -/
theorem readLengths_table (msgs : List (List UInt8)) (rest : List UInt8) :
    readLengths msgs.length (msgs.flatMap (fun m => toListBE 2 m.length) ++ rest) =
      msgs.map fun m => m.length % 65536 := by
  induction msgs with
  | nil => rfl
  | cons m msgs ih =>
    have hm : ofListBE (toListBE 2 m.length) = m.length % 65536 := ofListBE_toListBE 2 m.length
    simp only [List.flatMap_cons, List.append_assoc, List.length_cons, List.map_cons]
    rw [← ih]
    simpa [readLengths] using hm

theorem length_table (msgs : List (List UInt8)) :
    (msgs.flatMap (fun m => toListBE 2 m.length)).length = msgs.length * 2 := by
  induction msgs with
  | nil => rfl
  | cons m msgs ih =>
    simp only [List.flatMap_cons, List.length_append, ih, length_toListBE, List.length_cons]
    omega

/-- The bodies of `msgs`, split at their lengths, are `msgs`, whatever follows them. -/
theorem splitParts_flatten (numParts idx : Nat) (msgs : List (List UInt8)) (rest : List UInt8) :
    splitParts numParts idx (msgs.map List.length) (msgs.flatten ++ rest) = (0, msgs) := by
  induction msgs generalizing idx with
  | nil => simp [splitParts]
  | cons m msgs ih =>
    have hlen : ¬ (m ++ (msgs.flatten ++ rest)).length < m.length := by simp
    simp only [List.map_cons, List.flatten_cons, List.append_assoc, splitParts, hlen,
      if_false, List.drop_left, ih, List.take_left]

/-- What follows the type byte of `makeCompoundMessage msgs` is the count byte, the table and
    the bodies. -/
theorem makeCompoundMessage_tail (msgs : List (List UInt8)) :
    (makeCompoundMessage msgs).tail =
      UInt8.ofNat msgs.length :: (msgs.flatMap (fun m => toListBE 2 m.length) ++ msgs.flatten) := by
  simp [makeCompoundMessage]

/-- Up to 255 messages of fewer than `2^16` bytes each are decoded as they were packed, with
    nothing truncated. -/
theorem decodeCompoundMessage_makeCompoundMessage {msgs : List (List UInt8)}
    (hcount : msgs.length < 256) (hlen : ∀ m ∈ msgs, m.length < 65536) :
    decodeCompoundMessage (makeCompoundMessage msgs).tail = .ok (0, msgs) := by
  have hn : (UInt8.ofNat msgs.length).toNat = msgs.length := by
    simp [Nat.mod_eq_of_lt hcount]
  have hmap : (msgs.map fun m => m.length % 65536) = msgs.map List.length :=
    List.map_congr_left fun m hm => Nat.mod_eq_of_lt (hlen m hm)
  have htable := length_table msgs
  have hsplit := splitParts_flatten msgs.length 0 msgs []
  rw [List.append_nil] at hsplit
  -- the table is all there
  have hfull : ¬ (msgs.flatMap (fun m => toListBE 2 m.length) ++ msgs.flatten).length <
      msgs.length * 2 := by
    rw [List.length_append, htable]
    omega
  rw [makeCompoundMessage_tail, decodeCompoundMessage, hn, if_neg hfull, readLengths_table, hmap,
    List.drop_left' htable, hsplit]

/-- A multiple of 256 messages is packed with the count `0`, and decoded as no message. -/
theorem decodeCompoundMessage_wrap {msgs : List (List UInt8)} (hcount : msgs.length % 256 = 0) :
    decodeCompoundMessage (makeCompoundMessage msgs).tail = .ok (0, []) := by
  have hn : (UInt8.ofNat msgs.length).toNat = 0 := by simp [hcount]
  rw [makeCompoundMessage_tail, decodeCompoundMessage, hn]
  simp [readLengths, splitParts]

/-! ### What the decoder reads -/

/-- The length table as the loop reads it: the `i`-th length is the big-endian pair at `2 i`. -/
theorem readLengths_eq_range : ∀ (n : Nat) (table : List UInt8), n * 2 ≤ table.length →
    readLengths n table = (List.range n).map fun i => ofListBE ((table.drop (2 * i)).take 2)
  | 0, _, _ => rfl
  | n + 1, a :: b :: rest, h => by
    have hrest : n * 2 ≤ rest.length := by
      simp only [List.length_cons] at h
      omega
    rw [readLengths, readLengths_eq_range n rest hrest, List.range_succ_eq_map, List.map_cons,
      List.map_map]
    -- past the first pair, the `i + 1`-th pair of the table is the `i`-th of the rest
    have hshift : ∀ i, (a :: b :: rest).drop (2 * (i + 1)) = rest.drop (2 * i) := by
      intro i
      rw [show 2 * (i + 1) = 2 * i + 1 + 1 by omega, List.drop_succ_cons, List.drop_succ_cons]
    simp [Function.comp_def, hshift]
  | n + 1, [], h | n + 1, [_], h => by
    simp only [List.length_cons, List.length_nil] at h
    omega

/-- The splitting loop takes consecutive slices of the given lengths off the body while they
    fit: the parts have the first lengths and lie one after another at the start of the body,
    and they stop only at a slice that does not fit, whose index the count of truncated messages
    gives. -/
theorem splitParts_spec (numParts : Nat) :
    ∀ (idx : Nat) (ls : List Nat) (body : List UInt8) (trunc : Nat) (parts : List (List UInt8)),
      splitParts numParts idx ls body = (trunc, parts) →
      parts.map List.length = ls.take parts.length ∧ parts.flatten <+: body ∧
        parts.length ≤ ls.length ∧
        (parts.length < ls.length → body.length < (ls.take (parts.length + 1)).sum) ∧
        trunc = if parts.length < ls.length then numParts - (idx + parts.length) else 0
  | idx, [], body, trunc, parts, h => by
    obtain ⟨rfl, rfl⟩ := Prod.mk.inj h
    simp
  | idx, l :: ls, body, trunc, parts, h => by
    rw [splitParts] at h
    split at h
    · -- the first slice does not fit: nothing is split off
      rename_i hshort
      obtain ⟨rfl, rfl⟩ := Prod.mk.inj h
      simp [hshort]
    · -- the first slice fits: it is split off, and the loop goes on with the rest
      rename_i hfits
      obtain ⟨hmap, hpre, hle, hnext, htrunc⟩ :=
        splitParts_spec numParts (idx + 1) ls (body.drop l) _ _ rfl
      obtain ⟨rfl, rfl⟩ := Prod.mk.inj h
      have htake : (body.take l).length = l := List.length_take_of_le (Nat.le_of_not_lt hfits)
      refine ⟨?_, ?_, ?_, ?_, ?_⟩
      · simp only [List.map_cons, htake, hmap, List.length_cons, List.take_succ_cons]
      · rw [List.flatten_cons]
        conv_rhs => rw [← List.take_append_drop l body]
        exact (List.prefix_append_right_inj _).mpr hpre
      · simp only [List.length_cons]
        omega
      · intro hlt
        have hlt' := hnext (by simp only [List.length_cons] at hlt; omega)
        simp only [List.length_cons, List.take_succ_cons, List.sum_cons, List.length_drop] at hlt' ⊢
        omega
      · simp only [List.length_cons, Nat.add_lt_add_iff_right] at htrunc ⊢
        rw [htrunc]
        split <;> omega

/-- The decoder fails exactly when the count byte is missing or the length table is cut short. -/
theorem decodeCompoundMessage_eq_error_iff (buf : List UInt8) :
    (∃ e, decodeCompoundMessage buf = .error e) ↔
      buf = [] ∨ buf.length - 1 < 2 * (buf.headD 0).toNat := by
  cases buf with
  | nil => simp [decodeCompoundMessage]
  | cons n buf =>
    simp only [decodeCompoundMessage, List.length_cons, Nat.add_sub_cancel, List.headD_cons,
      reduceCtorEq, false_or, Nat.mul_comm 2]
    split <;> simp_all

/-- What the decoder returns when it does not fail: with `n` the count byte and `l₁ … lₙ` the
    big-endian lengths of the table, the parts are the longest run of consecutive slices of
    lengths `l₁, l₂, …` that fit in the bytes after the table, and the count of truncated
    messages is what is left of the `n` when a slice does not fit. -/
theorem decodeCompoundMessage_eq_ok {buf : List UInt8} {trunc : Nat} {parts : List (List UInt8)}
    (h : decodeCompoundMessage buf = .ok (trunc, parts)) :
    parts.map List.length =
        ((List.range (buf.headD 0).toNat).map
          fun i => ofListBE ((buf.tail.drop (2 * i)).take 2)).take parts.length ∧
      parts.flatten <+: buf.tail.drop (2 * (buf.headD 0).toNat) ∧
      parts.length ≤ (buf.headD 0).toNat ∧
      (parts.length < (buf.headD 0).toNat →
        (buf.tail.drop (2 * (buf.headD 0).toNat)).length <
          (((List.range (buf.headD 0).toNat).map
            fun i => ofListBE ((buf.tail.drop (2 * i)).take 2)).take (parts.length + 1)).sum) ∧
      trunc = if parts.length < (buf.headD 0).toNat then (buf.headD 0).toNat - parts.length
        else 0 := by
  cases buf with
  | nil => cases h
  | cons n buf =>
    simp only [decodeCompoundMessage] at h
    split at h
    · cases h
    · rename_i htable
      have hls := readLengths_eq_range n.toNat buf (Nat.le_of_not_lt htable)
      obtain ⟨hmap, hpre, hle, hnext, htrunc⟩ := splitParts_spec n.toNat 0 _ _ _ _
        (Except.ok.inj h)
      rw [hls, List.length_map, List.length_range] at *
      simp only [List.headD_cons, List.tail_cons, Nat.zero_add, Nat.mul_comm 2] at *
      exact ⟨hmap, hpre, hle, hnext, htrunc⟩

/-- Each compound `makeCompoundMessages` packs decodes to its chunk of the messages: the
    chunks, of one to 255 messages each, are the messages in order. -/
theorem makeCompoundMessages_decode (msgs : List (List UInt8))
    (hlen : ∀ m ∈ msgs, m.length < 65536) :
    ∃ chunks : List (List (List UInt8)), chunks.flatten = msgs ∧
      (∀ c ∈ chunks, c ≠ [] ∧ c.length ≤ 255) ∧
      (makeCompoundMessages msgs).map (fun b => decodeCompoundMessage b.tail) =
        chunks.map fun c => .ok (0, c) := by
  fun_induction makeCompoundMessages msgs with
  | case1 msgs hlong ih =>
    -- more than 255 left: a full compound of the first 255, then the rest
    obtain ⟨chunks, hflat, hsize, hdec⟩ := ih fun m hm => hlen m (List.mem_of_mem_drop hm)
    have hfirst : (msgs.take 255).length = 255 := List.length_take_of_le (by omega)
    refine ⟨msgs.take 255 :: chunks, ?_, ?_, ?_⟩
    · rw [List.flatten_cons, hflat, List.take_append_drop]
    · intro c hc
      rcases List.mem_cons.mp hc with rfl | hc
      · exact ⟨List.ne_nil_of_length_pos (by omega), by omega⟩
      · exact hsize c hc
    · rw [List.map_cons, hdec, List.map_cons,
        decodeCompoundMessage_makeCompoundMessage (by omega)
          fun m hm => hlen m (List.mem_of_mem_take hm)]
  | case2 msgs hshort hpos =>
    -- one compound of the 1 to 255 messages left
    refine ⟨[msgs], List.flatten_singleton, ?_, ?_⟩
    · intro c hc
      rw [List.mem_singleton] at hc
      subst hc
      exact ⟨List.ne_nil_of_length_pos hpos, by omega⟩
    · rw [List.map_singleton, List.map_singleton,
        decodeCompoundMessage_makeCompoundMessage (by omega) hlen]
  | case3 msgs hshort hempty =>
    -- nothing left to pack
    have hnil : msgs = [] := List.eq_nil_of_length_eq_zero (by omega)
    subst hnil
    exact ⟨[], rfl, fun c hc => absurd hc List.not_mem_nil, rfl⟩

/-- The compound codec: the decoder fails exactly on a missing count byte or a short length
    table, and otherwise returns the longest run of consecutive slices of the table's lengths
    that fit, with the number of messages cut off; up to 255 messages of at most 65535 bytes
    each come back as they were packed; and any number of such messages, packed by
    `makeCompoundMessages`, come back as consecutive chunks that make up the list. -/
theorem decodeCompoundMessage_frames :
    (∀ buf : List UInt8,
      ((∃ e, decodeCompoundMessage buf = .error e) ↔
          buf = [] ∨ buf.length - 1 < 2 * (buf.headD 0).toNat) ∧
      ∀ trunc parts, decodeCompoundMessage buf = .ok (trunc, parts) →
        parts.map List.length =
            ((List.range (buf.headD 0).toNat).map
              fun i => ofListBE ((buf.tail.drop (2 * i)).take 2)).take parts.length ∧
          parts.flatten <+: buf.tail.drop (2 * (buf.headD 0).toNat) ∧
          parts.length ≤ (buf.headD 0).toNat ∧
          (parts.length < (buf.headD 0).toNat →
            (buf.tail.drop (2 * (buf.headD 0).toNat)).length <
              (((List.range (buf.headD 0).toNat).map
                fun i => ofListBE ((buf.tail.drop (2 * i)).take 2)).take (parts.length + 1)).sum) ∧
          trunc = if parts.length < (buf.headD 0).toNat then (buf.headD 0).toNat - parts.length
            else 0) ∧
    (∀ msgs : List (List UInt8), msgs.length ≤ 255 → (∀ m ∈ msgs, m.length ≤ 65535) →
      decodeCompoundMessage (makeCompoundMessage msgs).tail = .ok (0, msgs)) ∧
    (∀ msgs : List (List UInt8), (∀ m ∈ msgs, m.length ≤ 65535) →
      ∃ chunks : List (List (List UInt8)), chunks.flatten = msgs ∧
        (∀ c ∈ chunks, c ≠ [] ∧ c.length ≤ 255) ∧
        (makeCompoundMessages msgs).map (fun b => decodeCompoundMessage b.tail) =
          chunks.map fun c => .ok (0, c)) := by
  refine ⟨fun buf => ⟨decodeCompoundMessage_eq_error_iff buf,
    fun _ _ h => decodeCompoundMessage_eq_ok h⟩, ?_, ?_⟩
  · intro msgs hcount hlen
    exact decodeCompoundMessage_makeCompoundMessage (by omega) fun m hm => by
      have := hlen m hm
      omega
  · intro msgs hlen
    exact makeCompoundMessages_decode msgs fun m hm => by
      have := hlen m hm
      omega

end memberlist
