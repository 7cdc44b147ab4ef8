import Memberlist.Net.Compound
import Memberlist.Lib.Bufio

/-!
# Label headers (label.go)

A cluster label keeps clusters that share a network apart: packets and streams start with

    [hasLabelMsg] [size: uint8] [label: size bytes]

when a label is set, and the label is authenticated data of the encryption.

* `AddLabelHeaderToPacket`, `AddLabelHeaderToStream` — the header, for a label of at most
  `LabelMaxSize` bytes; nothing for the empty label.
* `removeLabelHeader` — the one parser behind `RemoveLabelHeaderFromPacket` and
  `RemoveLabelHeaderFromStream`, which differ only in the text of the truncation error; the
  latter reads the stream's bytes whole.
* `removeLabelHeader_makeLabelHeader` — a header the sender adds is removed whole, whatever
  follows it; `removeLabelHeader_unlabelled` — without a header the buffer is passed on.
* `conn.RemoveLabelHeaderFromStream` — the same function on the connection itself, as the
  source reads it: three `Peek`s of a `bufio.Reader`, then a `peekedConn` that yields what the
  reader buffered past the header before the rest of the connection.
  `conn.RemoveLabelHeaderFromStream_refines` — it gives what the parser on the bytes gives, so
  the reads of the connection it returns yield exactly the bytes after the header
  (`peekedConn.readAll_eq_content`).
-/

namespace memberlist

/-- `LabelMaxSize`. -/
def LabelMaxSize : Nat := 255

/-- `makeLabelHeader label rest`. -/
def makeLabelHeader (label rest : List UInt8) : List UInt8 :=
  [hasLabelMsg, UInt8.ofNat label.length] ++ label ++ rest

/-- `labelOverhead label`. -/
def labelOverhead (label : List UInt8) : Int :=
  if label = [] then 0 else 2 + label.length

/-- `AddLabelHeaderToPacket buf label` (the error's text drops the quoted label). -/
def AddLabelHeaderToPacket (buf label : List UInt8) : Except String (List UInt8) :=
  if label = [] then .ok buf
  else if label.length > LabelMaxSize then .error "label is too long"
  else .ok (makeLabelHeader label buf)

/-- `AddLabelHeaderToStream label`: the bytes written to the connection before the stream. -/
def AddLabelHeaderToStream (label : List UInt8) : Except String (List UInt8) :=
  AddLabelHeaderToPacket [] label

/-- The label header parser, with `truncated` the text of its truncation error: the bytes after
    the header and the label, the empty label when there is no header. -/
def removeLabelHeader (truncated : String) : List UInt8 → Except String (List UInt8 × List UInt8)
  | [] => .ok ([], [])
  | t :: rest =>
    if t ≠ hasLabelMsg then .ok (t :: rest, [])
    else
      match rest with
      | [] => .error truncated
      | size :: rest =>
        if size.toNat < 1 then .error "label header cannot be empty when present"
        else if rest.length < size.toNat then .error truncated
        else .ok (rest.drop size.toNat, rest.take size.toNat)

/-- `RemoveLabelHeaderFromPacket buf`. -/
def RemoveLabelHeaderFromPacket : List UInt8 → Except String (List UInt8 × List UInt8) :=
  removeLabelHeader "cannot decode label; packet has been truncated"

/-- `RemoveLabelHeaderFromStream conn`, on the bytes of the stream. -/
def RemoveLabelHeaderFromStream : List UInt8 → Except String (List UInt8 × List UInt8) :=
  removeLabelHeader "cannot decode label; stream has been truncated"

/-- A header of a label of 1 to 255 bytes is removed whole, and gives the label back. -/
theorem removeLabelHeader_makeLabelHeader (truncated : String) {label : List UInt8}
    (rest : List UInt8) (hne : label ≠ []) (hlen : label.length ≤ LabelMaxSize) :
    removeLabelHeader truncated (makeLabelHeader label rest) = .ok (rest, label) := by
  have hsize : (UInt8.ofNat label.length).toNat = label.length := by
    have : label.length < 256 := by unfold LabelMaxSize at hlen; omega
    simp [Nat.mod_eq_of_lt this]
  have hpos : ¬ label.length < 1 := by
    have := List.length_pos_iff.mpr hne
    omega
  show removeLabelHeader truncated (hasLabelMsg :: UInt8.ofNat label.length :: (label ++ rest)) = _
  simp [removeLabelHeader, hsize, hpos]

/-- A buffer that does not start with `hasLabelMsg` carries no label and is passed on whole. -/
theorem removeLabelHeader_unlabelled (truncated : String) {buf : List UInt8}
    (h : buf.head? ≠ some hasLabelMsg) : removeLabelHeader truncated buf = .ok (buf, []) := by
  cases buf with
  | nil => rfl
  | cons t rest =>
    have ht : t ≠ hasLabelMsg := fun heq => h (by rw [heq]; rfl)
    simp [removeLabelHeader, ht]

/-- A label of at most `LabelMaxSize` bytes adds exactly `labelOverhead` bytes to a packet. -/
theorem AddLabelHeaderToPacket_length (buf : List UInt8) {label : List UInt8}
    (hlen : label.length ≤ LabelMaxSize) :
    ∃ pkt, AddLabelHeaderToPacket buf label = .ok pkt ∧
      (pkt.length : Int) = buf.length + labelOverhead label := by
  unfold AddLabelHeaderToPacket labelOverhead
  by_cases hl : label = []
  · simp [hl]
  · rw [if_neg hl, if_neg (Nat.not_lt.mpr hlen), if_neg hl]
    refine ⟨_, rfl, ?_⟩
    simp only [makeLabelHeader, List.length_append, List.length_cons, List.length_nil]
    omega

/-- What `AddLabelHeaderToPacket` builds, `RemoveLabelHeaderFromPacket` takes apart: the buffer
    and the label come back, for a non-empty label and for a buffer that does not itself start
    with `hasLabelMsg`. -/
theorem RemoveLabelHeaderFromPacket_of_add {buf label pkt : List UInt8}
    (hadd : AddLabelHeaderToPacket buf label = .ok pkt)
    (hbuf : label = [] → buf.head? ≠ some hasLabelMsg) :
    RemoveLabelHeaderFromPacket pkt = .ok (buf, label) := by
  unfold AddLabelHeaderToPacket at hadd
  by_cases hl : label = []
  · rw [if_pos hl] at hadd
    cases hadd
    rw [hl]
    exact removeLabelHeader_unlabelled _ (hbuf hl)
  · rw [if_neg hl] at hadd
    by_cases hlong : label.length > LabelMaxSize
    · rw [if_pos hlong] at hadd
      cases hadd
    · rw [if_neg hlong] at hadd
      cases hadd
      exact removeLabelHeader_makeLabelHeader _ buf hl (by omega)

/-- What `AddLabelHeaderToStream` writes before a stream, the parser on the stream's bytes takes
    off, for a non-empty label and for a stream that does not itself start with `hasLabelMsg`. -/
theorem RemoveLabelHeaderFromStream_of_add {label hdr : List UInt8} (s : List UInt8)
    (hadd : AddLabelHeaderToStream label = .ok hdr)
    (hs : label = [] → s.head? ≠ some hasLabelMsg) :
    RemoveLabelHeaderFromStream (hdr ++ s) = .ok (s, label) := by
  unfold AddLabelHeaderToStream AddLabelHeaderToPacket at hadd
  by_cases hl : label = []
  · rw [if_pos hl] at hadd
    cases hadd
    rw [hl, List.nil_append]
    exact removeLabelHeader_unlabelled _ (hs hl)
  · rw [if_neg hl] at hadd
    by_cases hlong : label.length > LabelMaxSize
    · rw [if_pos hlong] at hadd
      cases hadd
    · rw [if_neg hlong] at hadd
      cases hadd
      have hheader : makeLabelHeader label [] ++ s = makeLabelHeader label s := by
        simp [makeLabelHeader]
      rw [hheader]
      exact removeLabelHeader_makeLabelHeader _ s hl (by omega)

/-! ### The stream, read through a connection -/

/-- `peekedConn`: the bytes peeked and not yet read, then the connection. -/
structure peekedConn where
  Peeked : List UInt8
  Conn : Go.Conn

namespace peekedConn

/-- The bytes the reads of a `peekedConn` yield. -/
def content (c : peekedConn) : List UInt8 := c.Peeked ++ c.Conn.content

/-- `c.Read(p)` with `len(p) = n`: the peeked bytes first, then the connection's. -/
def Read (c : peekedConn) (n : Nat) : Option (List UInt8 × peekedConn) :=
  if c.Peeked.length > 0 then some (c.Peeked.take n, { c with Peeked := c.Peeked.drop n })
  else (c.Conn.Read n).map fun r => (r.1, { c with Conn := r.2 })

/-- Reads into buffers of the sizes `ns` in turn, until `EOF`: the bytes they return. -/
def readAll (c : peekedConn) : List Nat → List UInt8
  | [] => []
  | n :: ns =>
    match c.Read n with
    | none => []
    | some r => r.1 ++ r.2.readAll ns

/-- A read takes the bytes it returns off the front of the content; into a buffer of `n > 0`
    bytes it returns at least one. -/
theorem Read_content {c c' : peekedConn} {n : Nat} {p : List UInt8}
    (h : c.Read n = some (p, c')) : p ++ c'.content = c.content ∧ (0 < n → p ≠ []) := by
  unfold Read at h
  split at h
  · -- from the peeked bytes
    rename_i hpos
    obtain ⟨rfl, rfl⟩ := Prod.mk.inj (Option.some.inj h)
    refine ⟨by simp [content, ← List.append_assoc], fun hn => ?_⟩
    exact List.ne_nil_of_length_pos (by rw [List.length_take]; omega)
  · -- from the connection, once the peeked bytes are read
    rename_i hnil
    obtain ⟨r, hr, hrr⟩ := Option.map_eq_some_iff.mp h
    obtain ⟨rfl, rfl⟩ := Prod.mk.inj hrr
    have hpeeked : c.Peeked = [] := List.eq_nil_of_length_eq_zero (by omega)
    obtain ⟨hcontent, -, hne⟩ := Go.Conn.Read_content hr
    exact ⟨by simp [content, hpeeked, hcontent], hne⟩

/-- A read returns `EOF` exactly when nothing is left. -/
theorem Read_eq_none_iff (c : peekedConn) (n : Nat) : c.Read n = none ↔ c.content = [] := by
  unfold Read content
  split
  · rename_i hpos
    simp only [reduceCtorEq, false_iff]
    intro hnil
    rw [(List.append_eq_nil_iff.mp hnil).1] at hpos
    exact Nat.lt_irrefl 0 hpos
  · rename_i hnil
    have hpeeked : c.Peeked = [] := List.eq_nil_of_length_eq_zero (by omega)
    rw [Option.map_eq_none_iff, Go.Conn.Read_eq_none_iff, hpeeked, List.nil_append]

/-- The reads of a `peekedConn` yield its content in order: what any reads return is a prefix of
    it, and reads into non-empty buffers, as many as there are bytes, return all of it. -/
theorem readAll_prefix (c : peekedConn) (ns : List Nat) : c.readAll ns <+: c.content := by
  induction ns generalizing c with
  | nil => exact List.nil_prefix
  | cons n ns ih =>
    rw [readAll]
    split
    · exact List.nil_prefix
    · rename_i r hr
      rw [← (Read_content hr).1]
      exact (List.prefix_append_right_inj r.1).mpr (ih r.2)

theorem readAll_eq_content (c : peekedConn) (ns : List Nat) (hpos : ∀ n ∈ ns, 0 < n)
    (hlen : c.content.length ≤ ns.length) : c.readAll ns = c.content := by
  induction ns generalizing c with
  | nil =>
    rw [List.length_nil, Nat.le_zero, List.length_eq_zero_iff] at hlen
    rw [hlen]
    rfl
  | cons n ns ih =>
    rw [readAll]
    split
    · rename_i hr
      exact ((Read_eq_none_iff c n).mp hr).symm
    · -- a read returns at least one byte, so the rest fits in the remaining reads
      rename_i r hr
      obtain ⟨hcontent, hne⟩ := Read_content hr
      have hp := List.length_pos_iff.mpr (hne (hpos n List.mem_cons_self))
      have hrest : r.2.content.length ≤ ns.length := by
        rw [← hcontent, List.length_append, List.length_cons] at hlen
        omega
      rw [ih r.2 (fun m hm => hpos m (List.mem_cons_of_mem n hm)) hrest, hcontent]

end peekedConn

/-- `newPeekedConnFromBufferedReader conn br offset`: what `br` buffered past `offset`, then the
    connection `br` reads, in the state its reads have left it. -/
def newPeekedConnFromBufferedReader (br : Go.bufio.Reader) (offset : Nat) :
    Except Go.IOError peekedConn :=
  let r := br.Peek br.Buffered
  match r.1.2 with
  | some e => .error e
  | none => .ok { Peeked := r.1.1.drop offset, Conn := r.2.rd }

/-- The connection spliced after `offset` yields the reader's content past `offset`. -/
theorem newPeekedConnFromBufferedReader_content {br : Go.bufio.Reader} (hb : br.Valid)
    {offset : Nat} (hoff : offset ≤ br.buf.length) :
    ∃ c, newPeekedConnFromBufferedReader br offset = .ok c ∧ c.content = br.content.drop offset := by
  refine ⟨⟨br.buf.drop offset, br.rd⟩, ?_, ?_⟩
  · simp only [newPeekedConnFromBufferedReader, Go.bufio.Reader.Peek_Buffered hb]
  · simp only [peekedConn.content, Go.bufio.Reader.content, List.drop_append_of_le_length hoff]

namespace conn

open Go.bufio in
/-- `RemoveLabelHeaderFromStream conn`, reading `conn` through a `bufio.Reader`: the connection
    to read the rest of the stream from, and the label.  The `conn` returned when it has nothing
    to read is the `peekedConn` that peeked nothing. -/
def RemoveLabelHeaderFromStream (conn : Go.Conn) : Except String (peekedConn × List UInt8) :=
  let br := NewReader conn
  -- first check for the type byte
  let r₁ := br.Peek 1
  match r₁.1.2 with
  | some .EOF => .ok (⟨[], r₁.2.rd⟩, [])
  | some e => .error e.Error
  | none =>
    if r₁.1.1.headD 0 ≠ hasLabelMsg then
      match newPeekedConnFromBufferedReader r₁.2 0 with
      | .error e => .error e.Error
      | .ok c => .ok (c, [])
    else
      -- we are guaranteed to get a size byte as well
      let r₂ := r₁.2.Peek 2
      match r₂.1.2 with
      | some .EOF => .error "cannot decode label; stream has been truncated"
      | some e => .error e.Error
      | none =>
        let size := (r₂.1.1.getD 1 0).toNat
        if size < 1 then .error "label header cannot be empty when present"
        else
          let r₃ := r₂.2.Peek (2 + size)
          match r₃.1.2 with
          | some .EOF => .error "cannot decode label; stream has been truncated"
          | some e => .error e.Error
          | none =>
            let label := (r₃.1.1.drop 2).take size
            match newPeekedConnFromBufferedReader r₃.2 (2 + size) with
            | .error e => .error e.Error
            | .ok c => .ok (c, label)

/-- Read through a `bufio.Reader`, the stream gives what the parser on its bytes gives: the
    same label and the same error, and a connection that yields the bytes after the header. -/
theorem RemoveLabelHeaderFromStream_refines (c : Go.Conn) :
    (RemoveLabelHeaderFromStream c).map (fun r => (r.1.content, r.2)) =
      memberlist.RemoveLabelHeaderFromStream c.content := by
  have hv₀ := Go.bufio.Reader.NewReader_valid c
  have hc₀ : (Go.bufio.NewReader c).content = c.content := List.nil_append _
  -- the type byte
  obtain ⟨b₁, hpeek₁, hc₁, hv₁, -⟩ := Go.bufio.Reader.Peek_eq hv₀ (n := 1) (by decide)
  rw [hc₀] at hpeek₁ hc₁
  unfold RemoveLabelHeaderFromStream
  simp only [hpeek₁]
  cases hcontent : c.content with
  | nil =>
    -- nothing to read: the peek meets `EOF` and the connection is handed back
    have hrd : b₁.rd.content = [] := by
      rw [hcontent] at hc₁
      exact (List.append_eq_nil_iff.mp hc₁).2
    simp [Except.map, hrd, peekedConn.content, memberlist.RemoveLabelHeaderFromStream,
      removeLabelHeader]
  | cons t rest =>
    rw [hcontent] at hc₁
    by_cases ht : t = hasLabelMsg
    · -- a header: peek the size byte
      subst ht
      obtain ⟨b₂, hpeek₂, hc₂, hv₂, -⟩ := Go.bufio.Reader.Peek_eq hv₁ (n := 2) (by decide)
      rw [hc₁] at hpeek₂ hc₂
      cases rest with
      | nil =>
        simp [hpeek₂, memberlist.RemoveLabelHeaderFromStream, removeLabelHeader, Except.map]
      | cons size rest =>
        by_cases hsize : size.toNat < 1
        · simp [hpeek₂, hsize, memberlist.RemoveLabelHeaderFromStream, removeLabelHeader,
            Except.map]
        -- the label: peek the whole header, which fits in the buffer
        have hfit : 2 + size.toNat ≤ Go.bufio.defaultBufSize := by
          have := size.toNat_lt
          unfold Go.bufio.defaultBufSize
          omega
        obtain ⟨b₃, hpeek₃, hc₃, hv₃, hlen₃⟩ := Go.bufio.Reader.Peek_eq hv₂ hfit
        rw [hc₂] at hpeek₃ hc₃ hlen₃
        by_cases hshort : rest.length < size.toNat
        · -- the stream ends inside the label
          have heof : ¬ 2 + size.toNat ≤ rest.length + 1 + 1 := by omega
          simp [hpeek₂, hsize, hpeek₃, hshort, heof, memberlist.RemoveLabelHeaderFromStream,
            removeLabelHeader, Except.map]
        · have hall : 2 + size.toNat ≤ rest.length + 1 + 1 := by omega
          have hoff : 2 + size.toNat ≤ b₃.buf.length := by
            simp only [List.length_take, List.length_cons] at hlen₃
            omega
          -- the label is what follows the two header bytes, the connection yields the rest
          have hlabel : ((hasLabelMsg :: size :: rest).take (2 + size.toNat)).drop 2 =
              rest.take size.toNat := by
            rw [Nat.add_comm]
            rfl
          have hafter : (hasLabelMsg :: size :: rest).drop (2 + size.toNat) =
              rest.drop size.toNat := by
            rw [Nat.add_comm]
            rfl
          obtain ⟨pc, hpc, hpcc⟩ := newPeekedConnFromBufferedReader_content hv₃ hoff
          rw [hc₃, hafter] at hpcc
          simp [hpeek₂, hsize, hpeek₃, hshort, hall, hlabel, hpc, hpcc,
            memberlist.RemoveLabelHeaderFromStream, removeLabelHeader, Except.map]
    · -- no header: the peeked byte is handed back with the rest
      obtain ⟨pc, hpc, hpcc⟩ := newPeekedConnFromBufferedReader_content hv₁ (Nat.zero_le _)
      rw [hc₁, List.drop_zero] at hpcc
      simp [ht, hpc, hpcc, memberlist.RemoveLabelHeaderFromStream, removeLabelHeader, Except.map]

/-- The parser that reads the stream's connection gives what the parser on its bytes gives. -/
theorem RemoveLabelHeaderFromStream_eq_ok {c : Go.Conn} {rest label : List UInt8}
    (h : memberlist.RemoveLabelHeaderFromStream c.content = .ok (rest, label)) :
    ∃ pc, RemoveLabelHeaderFromStream c = .ok (pc, label) ∧ pc.content = rest := by
  have href := RemoveLabelHeaderFromStream_refines c
  rw [h] at href
  cases hr : RemoveLabelHeaderFromStream c with
  | error e =>
    rw [hr] at href
    cases href
  | ok r =>
    rw [hr] at href
    obtain ⟨hcontent, hlabel⟩ := Prod.mk.inj (Except.ok.inj href)
    exact ⟨r.1, by rw [← hlabel], hcontent⟩

end conn

/-- Label headers round trip.  A label of 1 to `LabelMaxSize` bytes added to a packet is removed
    whole, the packet growing by exactly `labelOverhead`; the empty label adds nothing, and a
    packet that does not start with `hasLabelMsg` passes with the empty label.  A stream that
    starts with what `AddLabelHeaderToStream` writes, read through its connection, gives the
    label back and a connection whose reads yield exactly the rest of the stream. -/
theorem label_header_round_trip :
    (∀ buf label : List UInt8, 1 ≤ label.length → label.length ≤ LabelMaxSize →
      ∃ pkt, AddLabelHeaderToPacket buf label = .ok pkt ∧
        RemoveLabelHeaderFromPacket pkt = .ok (buf, label) ∧
        (pkt.length : Int) = buf.length + labelOverhead label) ∧
    (∀ buf : List UInt8, AddLabelHeaderToPacket buf [] = .ok buf ∧
      (buf.head? ≠ some hasLabelMsg → RemoveLabelHeaderFromPacket buf = .ok (buf, []))) ∧
    (∀ (label s : List UInt8) (c : Go.Conn), (label = [] → s.head? ≠ some hasLabelMsg) →
      (∃ hdr, AddLabelHeaderToStream label = .ok hdr ∧ c.content = hdr ++ s) →
      ∃ pc, conn.RemoveLabelHeaderFromStream c = .ok (pc, label) ∧ pc.content = s ∧
        ∀ ns : List Nat, (∀ n ∈ ns, 0 < n) → s.length ≤ ns.length → pc.readAll ns = s) := by
  refine ⟨?_, ?_, ?_⟩
  · -- a labelled packet
    intro buf label hpos hlen
    obtain ⟨pkt, hadd, hlength⟩ := AddLabelHeaderToPacket_length buf hlen
    have hne : label ≠ [] := List.ne_nil_of_length_pos hpos
    exact ⟨pkt, hadd, RemoveLabelHeaderFromPacket_of_add hadd fun hl => absurd hl hne, hlength⟩
  · -- the empty label
    intro buf
    exact ⟨rfl, removeLabelHeader_unlabelled _⟩
  · -- a stream, read through its connection
    intro label s c hs ⟨hdr, hadd, hcontent⟩
    have hbytes := RemoveLabelHeaderFromStream_of_add s hadd hs
    rw [← hcontent] at hbytes
    obtain ⟨pc, hpc, hpcc⟩ := conn.RemoveLabelHeaderFromStream_eq_ok hbytes
    refine ⟨pc, hpc, hpcc, fun ns hpos hns => ?_⟩
    rw [← hpcc]
    exact pc.readAll_eq_content ns hpos (hpcc ▸ hns)

end memberlist
