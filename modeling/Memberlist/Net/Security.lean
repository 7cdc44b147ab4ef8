import Memberlist.Lib.Go

/-!
# Encryption of packets and streams (security.go)

An encrypted payload is

    [vsn: 1 byte] [nonce: 12 bytes] [AES-GCM ciphertext and tag]

where version 0 pads the plaintext with PKCS7 before sealing and version 1 does not.  Only
the ciphertext is authenticated, with the label (and on streams the stream header) as
additional data: the version byte is not, so the receiver's choice to unpad rests on a byte
anyone on the path can change.

* `AEAD` — AES-GCM's `Seal` and `Open`, third-party code taken as a parameter;
  `AEAD.Lawful` is what is assumed of it: `Open` undoes `Seal` under the same key, nonce and
  data, and `Seal` adds a tag of `tagSize` bytes.  `AEAD.Authentic` (nothing else opens) is
  not needed by any theorem here; `AEAD.zeroTagChecked` has it, for the instances.
* `pkcs7encode`, `pkcs7decode` — the padding; `pkcs7decode` trusts the last byte and slices
  with it, so a last byte above the length panics.
* `encryptOverhead`, `encryptedLength`, `encryptPayload`, `decryptMessage`, `decryptPayload`.
* `encryptPayload_length`, `encryptedLength_sub_le_encryptOverhead` — the bytes written agree
  with `encryptedLength`, and that with the `encryptOverhead` the packet budgets reserve.
* `decryptPayload_encryptPayload` — what the sender encrypted under the receiver's primary
  key is decrypted back.
* `decryptPayload_version_flip_unpads` — a genuine version 1 payload with its version byte
  set to 0 is opened and unpadded: the receiver panics in `pkcs7decode` when the plaintext
  ends in a byte above its length (`decryptPayload_version_flip`), and otherwise returns a
  cut plaintext for bytes no sender wrote (`decryptPayload_accepts_flipped_version`).
-/

namespace memberlist

open Go

/-- AES-GCM as `cipher.NewGCM(aes.NewCipher(key))` provides it: `Seal` and `Open` of a text
    under a key, a nonce and additional data. -/
structure AEAD where
  Seal : List UInt8 → List UInt8 → List UInt8 → List UInt8 → List UInt8
  Open : List UInt8 → List UInt8 → List UInt8 → List UInt8 → Option (List UInt8)

/-- `versionSize`. -/
def versionSize : Nat := 1
/-- `nonceSize`. -/
def nonceSize : Nat := 12
/-- `tagSize`. -/
def tagSize : Nat := 16

/-- What GCM guarantees: `Open` undoes `Seal` under the same key, nonce and additional data,
    and `Seal` appends a tag of `tagSize` bytes. -/
structure AEAD.Lawful (g : AEAD) : Prop where
  opens : ∀ key nonce msg data, g.Open key nonce (g.Seal key nonce msg data) data = some msg
  sealLength : ∀ key nonce msg data, (g.Seal key nonce msg data).length = msg.length + tagSize

/-- What GCM's tag adds: `Open` rejects every text that is not the sealing of what it returns,
    under the same key, nonce and additional data. -/
def AEAD.Authentic (g : AEAD) : Prop :=
  ∀ key nonce ct data plain, g.Open key nonce ct data = some plain → ct = g.Seal key nonce plain data

/-- `aes.NewCipher` accepts keys of 16, 24 or 32 bytes. -/
def aesKeySize (key : List UInt8) : Bool :=
  key.length = 16 || key.length = 24 || key.length = 32
/-- `blockSize`, `aes.BlockSize`. -/
def blockSize : Nat := 16

/-- `pkcs7encode`, on the message the padding follows (the `ignore`d bytes before it are the
    version and the nonce): `more` bytes of value `more`, from 1 to `blockSize`. -/
def pkcs7encode (msg : List UInt8) (blockSize : Nat) : List UInt8 :=
  let more := blockSize - msg.length % blockSize
  msg ++ List.replicate more (UInt8.ofNat more)

/-- `pkcs7decode` (its block size argument is unused): the buffer cut by the value of its last
    byte. -/
def pkcs7decode (buf : List UInt8) : Except Panic (List UInt8) :=
  match buf.getLast? with
  | none => .error ⟨"Cannot decode a PKCS7 buffer of zero length"⟩
  | some last =>
    -- `buf[:n]` with `n = len(buf) - last` below zero
    if buf.length < last.toNat then .error ⟨"slice bounds out of range"⟩
    else .ok (buf.take (buf.length - last.toNat))

/-- `encryptOverhead vsn`. -/
def encryptOverhead (vsn : UInt8) : Except Panic Int :=
  if vsn = 0 then .ok 45
  else if vsn = 1 then .ok 29
  else .error ⟨"unsupported version"⟩

/-- `encryptedLength vsn inp`. -/
def encryptedLength (vsn : UInt8) (inp : Nat) : Nat :=
  if vsn ≥ 1 then versionSize + nonceSize + inp + tagSize
  else versionSize + nonceSize + inp + (blockSize - inp % blockSize) + tagSize

/-- `encryptPayload vsn key msg data dst`, with `nonce` the 12 bytes read from `rand.Reader`:
    `dst` with the encrypted message appended. -/
def encryptPayload (g : AEAD) (vsn : UInt8) (key msg data nonce dst : List UInt8) :
    Except String (List UInt8) :=
  if !aesKeySize key then .error "crypto/aes: invalid key size"
  else
    let src := if vsn = 0 then pkcs7encode msg blockSize else msg
    .ok (dst ++ [vsn] ++ nonce ++ g.Seal key nonce src data)

/-- `decryptMessage key msg data`. -/
def decryptMessage (g : AEAD) (key msg data : List UInt8) : Except String (List UInt8) :=
  if !aesKeySize key then .error "crypto/aes: invalid key size"
  else
    match g.Open key ((msg.drop versionSize).take nonceSize) (msg.drop (versionSize + nonceSize))
        data with
    | some plain => .ok plain
    | none => .error "cipher: message authentication failed"

/-- `decryptPayload keys msg data`: the plaintext of the first key that opens the message. -/
def decryptPayload (g : AEAD) (keys : List (List UInt8)) (msg data : List UInt8) :
    Except Panic (Except String (List UInt8)) :=
  match msg with
  | [] => .ok (.error "cannot decrypt empty payload")
  | vsn :: _ =>
    if vsn > 1 then .ok (.error "unsupported encryption version")
    else if msg.length < encryptedLength vsn 0 then .ok (.error "payload is too small to decrypt")
    else
      match keys.findSome? (fun key => (decryptMessage g key msg data).toOption) with
      | none => .ok (.error "no installed keys could decrypt the message")
      | some plain =>
        -- Remove the PKCS7 padding for vsn 0
        if vsn = 0 then Except.ok <$> pkcs7decode plain else .ok (.ok plain)

/-! ### Padding -/

/-- The padding of `pkcs7encode` is one to `blockSize` bytes. -/
theorem pkcs7_more_pos (msg : List UInt8) : 0 < blockSize - msg.length % blockSize ∧
    blockSize - msg.length % blockSize ≤ blockSize := by
  have : msg.length % blockSize < blockSize := Nat.mod_lt _ (by decide)
  omega

theorem pkcs7decode_pkcs7encode (msg : List UInt8) :
    pkcs7decode (pkcs7encode msg blockSize) = .ok msg := by
  obtain ⟨hpos, hle⟩ := pkcs7_more_pos msg
  have h16 : blockSize = 16 := rfl
  have hbyte : (UInt8.ofNat (blockSize - msg.length % blockSize)).toNat =
      blockSize - msg.length % blockSize := by
    have : blockSize - msg.length % blockSize < 256 := by omega
    simp [Nat.mod_eq_of_lt this]
  have hlast : (pkcs7encode msg blockSize).getLast? =
      some (UInt8.ofNat (blockSize - msg.length % blockSize)) := by
    obtain ⟨k, hk⟩ : ∃ k, blockSize - msg.length % blockSize = k + 1 :=
      ⟨_, (Nat.succ_pred_eq_of_pos hpos).symm⟩
    simp [pkcs7encode, hk, List.replicate_succ', List.getLast?_append]
  have hlen : (pkcs7encode msg blockSize).length =
      msg.length + (blockSize - msg.length % blockSize) := by
    simp [pkcs7encode]
  unfold pkcs7decode
  simp only [hlast, hbyte]
  rw [if_neg (by omega), hlen, Nat.add_sub_cancel]
  simp [pkcs7encode]

/-- The padded message is a whole number of blocks. -/
theorem pkcs7encode_length_mod (msg : List UInt8) :
    (pkcs7encode msg blockSize).length % blockSize = 0 := by
  have hmod : msg.length % blockSize < blockSize := Nat.mod_lt _ (by decide)
  simp only [pkcs7encode, List.length_append, List.length_replicate, blockSize] at hmod ⊢
  omega

/-! ### Sizes -/

section Sizes

variable {g : AEAD} {vsn : UInt8} {key msg data nonce dst out : List UInt8}

/-- `encryptPayload` appends exactly `encryptedLength vsn len(msg)` bytes to `dst`. -/
theorem encryptPayload_length (hg : g.Lawful) (hnonce : nonce.length = nonceSize)
    (h : encryptPayload g vsn key msg data nonce dst = .ok out) :
    out.length = dst.length + encryptedLength vsn msg.length := by
  unfold encryptPayload at h
  split at h
  · cases h
  · cases h
    simp only [List.length_append, List.length_singleton, hnonce, hg.sealLength, encryptedLength]
    by_cases h0 : vsn = 0
    · -- version 0 seals the padded message
      subst h0
      simp only [if_true, pkcs7encode, List.length_append, List.length_replicate]
      rw [if_neg (by decide)]
      simp only [versionSize]
      omega
    · have h1 : vsn ≥ 1 := by grind
      simp only [h0, h1, if_true, if_false, versionSize]
      omega

/-- `encryptPayload` appends to `dst` what it writes to an empty buffer. -/
theorem encryptPayload_append (h : encryptPayload g vsn key msg data nonce dst = .ok out) :
    ∃ pkt, encryptPayload g vsn key msg data nonce [] = .ok pkt ∧ out = dst ++ pkt := by
  unfold encryptPayload at h ⊢
  split at h
  · cases h
  · cases h
    rename_i hkey
    rw [if_neg hkey]
    exact ⟨_, rfl, by simp⟩

/-- The first byte `encryptPayload` writes after `dst` is the version. -/
theorem encryptPayload_head (h : encryptPayload g vsn key msg data nonce [] = .ok out) :
    out.head? = some vsn := by
  unfold encryptPayload at h
  split at h
  · cases h
  · cases h
    rfl

end Sizes

/-! ### Round trip and the unauthenticated version byte -/

section Decrypt

variable {g : AEAD} {key nonce msg data : List UInt8}

/-- `decryptMessage` opens what follows the version byte and the nonce, under the nonce. -/
theorem decryptMessage_cut (hnonce : nonce.length = nonceSize) (k : List UInt8) (vsn : UInt8)
    (ct : List UInt8) :
    decryptMessage g k (vsn :: (nonce ++ ct)) data =
      if !aesKeySize k then .error "crypto/aes: invalid key size"
      else match g.Open k nonce ct data with
        | some plain => .ok plain
        | none => .error "cipher: message authentication failed" := by
  have hcut : ((vsn :: (nonce ++ ct)).drop versionSize).take nonceSize = nonce := by
    simp [versionSize, ← hnonce]
  have hrest : (vsn :: (nonce ++ ct)).drop (versionSize + nonceSize) = ct := by
    rw [show versionSize + nonceSize = nonce.length + 1 by simp only [versionSize, hnonce]; omega]
    simp
  rw [decryptMessage, hcut, hrest]

/-- The nonce and ciphertext `decryptMessage` cuts from a payload are the ones sealed. -/
theorem decryptMessage_sealed (hg : g.Lawful) (hkey : aesKeySize key = true)
    (hnonce : nonce.length = nonceSize) (vsn : UInt8) (src : List UInt8) :
    decryptMessage g key (vsn :: (nonce ++ g.Seal key nonce src data)) data = .ok src := by
  rw [decryptMessage_cut hnonce, hg.opens key nonce src data]
  simp [hkey]

/-- A key that does not open the ciphertext gives no plaintext. -/
theorem decryptMessage_rejected (hnonce : nonce.length = nonceSize) {k ct : List UInt8}
    (hopen : g.Open k nonce ct data = none) (vsn : UInt8) :
    (decryptMessage g k (vsn :: (nonce ++ ct)) data).toOption = none := by
  rw [decryptMessage_cut hnonce]
  split <;> simp [hopen, Except.toOption]

/-- The sealed text of a payload of version 0 or 1 is long enough for the receiver's size
    check: version 0 pads to at least one block. -/
theorem encryptedLength_le_sealed (hg : g.Lawful) (hnonce : nonce.length = nonceSize)
    (vsn : UInt8) :
    encryptedLength vsn 0 ≤
      (vsn :: (nonce ++ g.Seal key nonce
        (if vsn = 0 then pkcs7encode msg blockSize else msg) data)).length := by
  rw [List.length_cons, List.length_append, hg.sealLength, hnonce]
  by_cases h0 : vsn = 0
  · -- version 0: the padded text is at least one block
    subst h0
    have hpad : blockSize ≤ (pkcs7encode msg blockSize).length := by
      have : msg.length % blockSize ≤ msg.length := Nat.mod_le _ _
      simp only [pkcs7encode, List.length_append, List.length_replicate]
      have := (pkcs7_more_pos msg).1
      omega
    simp only [if_true]
    show versionSize + nonceSize + 0 + (blockSize - 0 % blockSize) + tagSize ≤ _
    unfold versionSize nonceSize tagSize at *
    omega
  · have h1 : vsn ≥ 1 := by grind
    simp only [encryptedLength, h1, h0, if_true, if_false, versionSize, nonceSize, tagSize]
    omega

/-- A payload encrypted (version 0 or 1) under a key of the receiver's ring is decrypted back
    to the message, when the keys before it reject what that key seals. -/
theorem decryptPayload_encryptPayload_of_rejects (hg : g.Lawful) (pre rest : List (List UInt8))
    (hpre : ∀ k ∈ pre, ∀ nonce p, g.Open k nonce (g.Seal key nonce p data) data = none)
    {vsn : UInt8} {pkt : List UInt8} (hvsn : vsn ≤ 1) (hnonce : nonce.length = nonceSize)
    (henc : encryptPayload g vsn key msg data nonce [] = .ok pkt) :
    decryptPayload g (pre ++ key :: rest) pkt data = .ok (.ok msg) := by
  unfold encryptPayload at henc
  by_cases hkey : aesKeySize key = true
  · simp only [hkey, Bool.not_true, Bool.false_eq_true, if_false, Except.ok.injEq] at henc
    obtain rfl : pkt = vsn :: (nonce ++ g.Seal key nonce
        (if vsn = 0 then pkcs7encode msg blockSize else msg) data) := by
      rw [← henc]
      simp
    have hopen := @decryptMessage_sealed g key nonce data hg hkey hnonce vsn
      (if vsn = 0 then pkcs7encode msg blockSize else msg)
    have hlen := @encryptedLength_le_sealed g key nonce msg data hg hnonce vsn
    -- the keys before `key` give no plaintext
    have hskip : pre.findSome? (fun k => (decryptMessage g k (vsn :: (nonce ++ g.Seal key nonce
        (if vsn = 0 then pkcs7encode msg blockSize else msg) data)) data).toOption) = none :=
      List.findSome?_eq_none_iff.mpr fun k hk => decryptMessage_rejected hnonce (hpre k hk _ _) vsn
    simp only [decryptPayload]
    rw [if_neg (UInt8.not_lt.mpr hvsn), if_neg (Nat.not_lt.mpr hlen), List.findSome?_append,
      hskip, Option.none_or, List.findSome?_cons, hopen]
    simp only [Except.toOption]
    by_cases h0 : vsn = 0
    · simp only [h0, if_true, pkcs7decode_pkcs7encode]
      rfl
    · simp only [h0, if_false]
  · simp [hkey] at henc

/-- A payload encrypted (version 0 or 1) under the receiver's primary key is decrypted back
    to the message. -/
theorem decryptPayload_encryptPayload (hg : g.Lawful) (rest : List (List UInt8)) {vsn : UInt8}
    {pkt : List UInt8} (hvsn : vsn ≤ 1) (hnonce : nonce.length = nonceSize)
    (henc : encryptPayload g vsn key msg data nonce [] = .ok pkt) :
    decryptPayload g (key :: rest) pkt data = .ok (.ok msg) :=
  decryptPayload_encryptPayload_of_rejects hg [] rest (fun _ hk => absurd hk List.not_mem_nil)
    hvsn hnonce henc

/-- `pkcs7decode` panics on a buffer whose last byte is above its length. -/
theorem pkcs7decode_last_gt {buf : List UInt8} {b : UInt8} (hlast : buf.getLast? = some b)
    (hgt : buf.length < b.toNat) : pkcs7decode buf = .error ⟨"slice bounds out of range"⟩ := by
  unfold pkcs7decode
  rw [hlast]
  simp only [hgt, if_true]

/-- `pkcs7decode` cuts as many bytes as the last byte says when there are that many. -/
theorem pkcs7decode_last_le {buf : List UInt8} {b : UInt8} (hlast : buf.getLast? = some b)
    (hle : b.toNat ≤ buf.length) : pkcs7decode buf = .ok (buf.take (buf.length - b.toNat)) := by
  unfold pkcs7decode
  rw [hlast]
  simp only [Nat.not_lt.mpr hle, if_false]

/-- The version byte is not authenticated: a genuine version 1 payload of at least a block
    with its first byte set to 0 is still opened by the key that sealed it, and its plaintext
    is then unpadded as if version 0 had padded it. -/
theorem decryptPayload_version_flip_unpads (hg : g.Lawful) (rest : List (List UInt8))
    (hnonce : nonce.length = nonceSize) {pkt : List UInt8}
    (henc : encryptPayload g 1 key msg data nonce [] = .ok pkt)
    (hblock : blockSize ≤ msg.length) :
    decryptPayload g (key :: rest) (0 :: pkt.tail) data = Except.ok <$> pkcs7decode msg := by
  unfold encryptPayload at henc
  by_cases hkey : aesKeySize key = true
  · simp only [hkey, Bool.not_true, Bool.false_eq_true, if_false, Except.ok.injEq] at henc
    obtain rfl : pkt = 1 :: (nonce ++ g.Seal key nonce msg data) := by
      rw [← henc]
      simp
    have hopen := @decryptMessage_sealed g key nonce data hg hkey hnonce 0 msg
    -- the flipped payload passes the size check of version 0
    have hlen : ¬ (0 :: (nonce ++ g.Seal key nonce msg data)).length < encryptedLength 0 0 := by
      rw [List.length_cons, List.length_append, hg.sealLength, hnonce]
      simp only [encryptedLength, versionSize, nonceSize, tagSize, blockSize] at hblock ⊢
      rw [if_neg (by decide)]
      omega
    simp only [decryptPayload, List.tail_cons]
    rw [if_neg (by decide), if_neg hlen, List.findSome?_cons, hopen]
    simp only [Except.toOption, if_true]
  · simp [hkey] at henc

/-- When the plaintext of the flipped payload ends in a byte above its length, the receiver
    panics. -/
theorem decryptPayload_version_flip (hg : g.Lawful) (hnonce : nonce.length = nonceSize)
    {pkt : List UInt8} {b : UInt8} (henc : encryptPayload g 1 key msg data nonce [] = .ok pkt)
    (hblock : blockSize ≤ msg.length) (hlast : msg.getLast? = some b)
    (hgt : msg.length < b.toNat) :
    decryptPayload g [key] (0 :: pkt.tail) data = .error ⟨"slice bounds out of range"⟩ := by
  rw [decryptPayload_version_flip_unpads hg [] hnonce henc hblock, pkcs7decode_last_gt hlast hgt]
  rfl

end Decrypt

/-- A cipher that seals by appending a zero tag: a concrete lawful `AEAD` to instantiate the
    theorems with. -/
def AEAD.zeroTag : AEAD where
  Seal _ _ msg _ := msg ++ List.replicate tagSize 0
  Open _ _ ct _ := some (ct.take (ct.length - tagSize))

theorem AEAD.zeroTag_lawful : AEAD.zeroTag.Lawful where
  opens key nonce msg data := by simp [AEAD.zeroTag]
  sealLength key nonce msg data := by simp [AEAD.zeroTag]

/-- The zero-tag cipher that rejects every text not ending in its tag: lawful and authentic,
    so nothing but a sealed text opens. -/
def AEAD.zeroTagChecked : AEAD where
  Seal _ _ msg _ := msg ++ List.replicate tagSize 0
  Open _ _ ct _ :=
    if ct.drop (ct.length - tagSize) = List.replicate tagSize 0 ∧ tagSize ≤ ct.length then
      some (ct.take (ct.length - tagSize))
    else none

theorem AEAD.zeroTagChecked_lawful : AEAD.zeroTagChecked.Lawful where
  opens key nonce msg data := by simp [AEAD.zeroTagChecked]
  sealLength key nonce msg data := by simp [AEAD.zeroTagChecked]

theorem AEAD.zeroTagChecked_authentic : AEAD.zeroTagChecked.Authentic := by
  intro key nonce ct data plain h
  simp only [AEAD.zeroTagChecked] at h ⊢
  split at h
  · rename_i htag
    cases h
    -- the text is what `Open` keeps followed by the tag it checked
    rw [← htag.1, List.take_append_drop]
  · cases h

/-! ### A flipped version byte that opens -/

section Flip

variable {g : AEAD} {key msg data nonce : List UInt8}

/-- **The version byte is not authenticated.**  Take a genuine version 1 payload of a
    message of at least a block, whose length is not a whole number of blocks and whose last
    byte `b` is between 1 and its length.  With its version byte set to 0, every key list
    that starts with the sealing key decrypts it without error, to the message cut by `b`
    bytes.  No call of `encryptPayload` (any version, key, message or data, with a nonce of
    `nonceSize` bytes) produces those bytes, since a version 0 payload seals whole blocks. -/
theorem decryptPayload_accepts_flipped_version (hg : g.Lawful) (rest : List (List UInt8))
    (hnonce : nonce.length = nonceSize) {pkt : List UInt8} {b : UInt8}
    (henc : encryptPayload g 1 key msg data nonce [] = .ok pkt)
    (hblock : blockSize ≤ msg.length) (hpart : msg.length % blockSize ≠ 0)
    (hlast : msg.getLast? = some b) (hpos : 0 < b.toNat) (hle : b.toNat ≤ msg.length) :
    decryptPayload g (key :: rest) (0 :: pkt.tail) data =
        .ok (.ok (msg.take (msg.length - b.toNat))) ∧
      msg.take (msg.length - b.toNat) ≠ msg ∧
      ∀ vsn' key' msg' data' nonce', nonce'.length = nonceSize →
        encryptPayload g vsn' key' msg' data' nonce' [] ≠ .ok (0 :: pkt.tail) := by
  refine ⟨?_, ?_, ?_⟩
  · rw [decryptPayload_version_flip_unpads hg rest hnonce henc hblock,
      pkcs7decode_last_le hlast hle]
    rfl
  · intro heq
    have hlen := congrArg List.length heq
    rw [List.length_take] at hlen
    omega
  · intro vsn' key' msg' data' nonce' hnonce' henc'
    -- only version 0 starts with 0, and it seals whole blocks
    have hv : vsn' = 0 := by
      have hhead := encryptPayload_head henc'
      simp only [List.head?_cons, Option.some.injEq] at hhead
      exact hhead.symm
    subst hv
    have hlen' := encryptPayload_length hg hnonce' henc'
    have hlen := encryptPayload_length hg hnonce henc
    have hmod' : msg'.length % blockSize < blockSize := Nat.mod_lt _ (by decide)
    simp only [List.length_cons, List.length_tail, List.length_nil, encryptedLength,
      if_neg (show ¬ (0 : UInt8) ≥ 1 by decide), if_pos (show (1 : UInt8) ≥ 1 by decide),
      versionSize, nonceSize, tagSize, blockSize] at hlen hlen' hmod' hpart
    omega

/-- A seventeen-byte message ending in 1, under the authentic zero-tag cipher: the flipped
    payload decrypts to its first sixteen bytes. -/
theorem decryptPayload_accepts_flipped_version_seventeen :
    AEAD.zeroTagChecked.Authentic ∧ ∃ pkt,
      encryptPayload AEAD.zeroTagChecked 1 (List.replicate 16 0) (List.replicate 16 0 ++ [1]) []
          (List.replicate 12 0) [] = .ok pkt ∧
      decryptPayload AEAD.zeroTagChecked [List.replicate 16 0] (0 :: pkt.tail) [] =
          .ok (.ok (List.replicate 16 0)) ∧
        List.replicate 16 0 ≠ List.replicate 16 0 ++ [(1 : UInt8)] ∧
        ∀ vsn' key' msg' data' nonce', List.length nonce' = nonceSize →
          encryptPayload AEAD.zeroTagChecked vsn' key' msg' data' nonce' [] ≠ .ok (0 :: pkt.tail) :=
  ⟨AEAD.zeroTagChecked_authentic, _, rfl,
    @decryptPayload_accepts_flipped_version AEAD.zeroTagChecked (List.replicate 16 0)
      (List.replicate 16 0 ++ [1]) [] (List.replicate 12 0) AEAD.zeroTagChecked_lawful [] rfl _ 1
      rfl (by decide) (by decide) rfl (by decide) (by decide)⟩

end Flip

end memberlist
