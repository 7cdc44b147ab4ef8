import Mathlib

/-!
# A buffered reader over a connection (net, bufio)

Code that peeks at the start of a stream reads the connection through a `bufio.Reader` and then
hands what the reader buffered back to whoever reads the stream next.  What matters is that no
byte is lost or read twice on the way, whatever segments the connection delivers.

* `Go.Conn` — a connection as its reader sees it: the segments successive reads deliver before
  EOF.  None is empty: a read blocks until it has a byte or the peer has closed, as a TCP
  connection's does.  `Conn.content` is what is left to read.
* `Conn.Read c n` — a read into a buffer of `n` bytes: the next segment, or as much of it as
  fits; `none` is `0, io.EOF`.
* `bufio.Reader` — the bytes buffered and not yet consumed (`buf[r:w]`), the error a read met
  (`b.err`), and the connection; the buffer has `defaultBufSize` bytes.  `fill`, `peekFill` (the
  loop at the start of `Peek`), `Peek` and `Buffered` are translated from the standard library.
* `Reader.content` — the bytes the reader will still yield, the buffered ones first.

`Read_content` and `fill_content` say that reading loses nothing; `Reader.Valid` is what every
reader built by `NewReader` keeps (the buffer fits, and `EOF` is met only at the end of the
connection); `Peek_spec` and `Peek_eq` say what `Peek n` returns, the first `n` bytes of the
content or all of it with `EOF` when there are fewer, and that peeking consumes nothing;
`Peek_Buffered` that peeking at what is buffered reads nothing more.
-/

namespace Go

/-- The errors a read meets here: the end of the connection, and a peek past the buffer. -/
inductive IOError where
  | EOF
  | ErrBufferFull
  deriving DecidableEq, Repr

/-- `err.Error()`. -/
def IOError.Error : IOError → String
  | .EOF => "EOF"
  | .ErrBufferFull => "bufio: buffer full"

/-- A connection: the segments its reads deliver, none of them empty, before EOF. -/
structure Conn where
  segments : List (List UInt8)
  nonempty : ∀ s ∈ segments, s ≠ []

namespace Conn

/-- The bytes left to read. -/
def content (c : Conn) : List UInt8 := c.segments.flatten

/-- `c.Read(p)` with `len(p) = n`: the next segment, or as much of it as fits. -/
def Read (c : Conn) (n : Nat) : Option (List UInt8 × Conn) :=
  match hc : c.segments with
  | [] => none
  | s :: rest =>
    if hs : s.length ≤ n then
      some (s, ⟨rest, fun t ht => c.nonempty t (by rw [hc]; exact List.mem_cons_of_mem s ht)⟩)
    else
      -- the rest of the segment is left for the next read
      some (s.take n, ⟨s.drop n :: rest, by
        intro t ht
        rcases List.mem_cons.mp ht with rfl | ht
        · exact List.ne_nil_of_length_pos (by rw [List.length_drop]; omega)
        · exact c.nonempty t (by rw [hc]; exact List.mem_cons_of_mem s ht)⟩)

theorem content_eq_nil_iff (c : Conn) : c.content = [] ↔ c.segments = [] := by
  constructor
  · intro h
    cases hc : c.segments with
    | nil => rfl
    | cons s rest =>
      have hs := c.nonempty s (by rw [hc]; exact List.mem_cons_self)
      rw [content, hc, List.flatten_cons] at h
      exact absurd (List.append_eq_nil_iff.mp h).1 hs
  · intro h
    rw [content, h, List.flatten_nil]

/-- A read returns `EOF` exactly when nothing is left. -/
theorem Read_eq_none_iff (c : Conn) (n : Nat) : c.Read n = none ↔ c.content = [] := by
  rw [content_eq_nil_iff, Read]
  split
  · rename_i hc
    exact ⟨fun _ => hc, fun _ => rfl⟩
  · rename_i s rest hc
    simp only [hc, reduceCtorEq, iff_false]
    split <;> simp

/-- A read takes the bytes it returns off the front of what is left; into a buffer of `n > 0`
    bytes it returns between one and `n` of them. -/
theorem Read_content {c c' : Conn} {n : Nat} {p : List UInt8} (h : c.Read n = some (p, c')) :
    p ++ c'.content = c.content ∧ p.length ≤ n ∧ (0 < n → p ≠ []) := by
  rw [Read] at h
  split at h
  · cases h
  · rename_i s rest hc
    have hs := c.nonempty s (by rw [hc]; exact List.mem_cons_self)
    split at h
    · rename_i hle
      obtain ⟨rfl, rfl⟩ := Prod.mk.inj (Option.some.inj h)
      exact ⟨by simp [content, hc], hle, fun _ => hs⟩
    · rename_i hlt
      obtain ⟨rfl, rfl⟩ := Prod.mk.inj (Option.some.inj h)
      refine ⟨?_, by simp, fun hn => ?_⟩
      · simp only [content, hc, List.flatten_cons]
        rw [← List.append_assoc, List.take_append_drop]
      · exact List.ne_nil_of_length_pos (by rw [List.length_take]; omega)

end Conn

namespace bufio

/-- `defaultBufSize`. -/
def defaultBufSize : Nat := 4096

/-- `bufio.Reader`: the bytes buffered and not yet consumed, the error a read met, the
    connection it reads. -/
structure Reader where
  buf : List UInt8
  err : Option IOError
  rd : Conn

/-- `bufio.NewReader(rd)`. -/
def NewReader (rd : Conn) : Reader := ⟨[], none, rd⟩

namespace Reader

/-- The bytes the reader will still yield, the buffered ones first. -/
def content (b : Reader) : List UInt8 := b.buf ++ b.rd.content

/-- `b.Buffered()`. -/
def Buffered (b : Reader) : Nat := b.buf.length

/-- `b.fill()`, called with room in the buffer: one read, since a read of the connection never
    returns `0, nil`. -/
def fill (b : Reader) : Reader :=
  match b.rd.Read (defaultBufSize - b.buf.length) with
  | none => { b with err := some .EOF }
  | some (p, rd) => { b with buf := b.buf ++ p, rd := rd }

/-- What the loop of `Peek` decreases: the bytes left on the connection, and whether a read may
    still be tried. -/
def unread (b : Reader) : Nat := b.rd.content.length + if b.err = none then 1 else 0

theorem fill_content (b : Reader) : b.fill.content = b.content := by
  unfold fill
  split
  · rfl
  · rename_i p rd hr
    simp only [content, List.append_assoc, (Conn.Read_content hr).1]

/-- A fill with room in the buffer and no error yet reads a byte or meets `EOF`. -/
theorem fill_unread_lt {b : Reader} (hroom : b.buf.length < defaultBufSize) (herr : b.err = none) :
    b.fill.unread < b.unread := by
  unfold fill unread
  split
  · simp [herr]
  · rename_i p rd hr
    obtain ⟨hcontent, -, hne⟩ := Conn.Read_content hr
    have hp := List.length_pos_iff.mpr (hne (by omega))
    rw [← hcontent, List.length_append]
    simp only [herr]
    omega

/-- The loop at the start of `b.Peek(n)`: fill while fewer than `n` bytes are buffered, the
    buffer is not full and no read has failed. -/
def peekFill (n : Nat) (b : Reader) : Reader :=
  if b.buf.length < n ∧ b.buf.length < defaultBufSize ∧ b.err = none then
    peekFill n b.fill
  else b
termination_by b.unread
decreasing_by
  rename_i h
  exact fill_unread_lt h.2.1 h.2.2

/-- `b.Peek(n)`: the next `n` bytes without consuming them; fewer, with the error met, when the
    connection ends first.  `readErr` hands the error over and clears it. -/
def Peek (b : Reader) (n : Nat) : (List UInt8 × Option IOError) × Reader :=
  let b := b.peekFill n
  if n > defaultBufSize then ((b.buf, some .ErrBufferFull), b)
  else if b.buf.length < n then ((b.buf, some (b.err.getD .ErrBufferFull)), { b with err := none })
  else ((b.buf.take n, none), b)

/-- What every reader built by `NewReader` keeps: the buffer fits, and the only error met is the
    end of the connection, met only once nothing is left on it. -/
structure Valid (b : Reader) : Prop where
  fits : b.buf.length ≤ defaultBufSize
  eof : b.err = none ∨ (b.err = some .EOF ∧ b.rd.content = [])

theorem NewReader_valid (rd : Conn) : (NewReader rd).Valid :=
  ⟨Nat.zero_le _, Or.inl rfl⟩

theorem Valid.fill {b : Reader} (hb : b.Valid) (hroom : b.buf.length < defaultBufSize) :
    b.fill.Valid := by
  unfold Reader.fill
  split
  · rename_i hr
    exact ⟨hb.fits, Or.inr ⟨rfl, (Conn.Read_eq_none_iff _ _).mp hr⟩⟩
  · rename_i p rd hr
    obtain ⟨hcontent, hlen, -⟩ := Conn.Read_content hr
    refine ⟨by simp only [List.length_append]; omega, ?_⟩
    rcases hb.eof with he | ⟨he, hnil⟩
    · exact Or.inl he
    · -- at `EOF` nothing is left, so the read would have met it again
      rw [← hcontent] at hnil
      exact Or.inr ⟨he, (List.append_eq_nil_iff.mp hnil).2⟩

/-- The loop of `Peek` loses nothing, keeps `Valid`, and stops with `n` bytes buffered, or with
    the buffer full, or at the end of the connection. -/
theorem peekFill_spec (n : Nat) :
    ∀ {b : Reader}, b.Valid → (b.peekFill n).content = b.content ∧ (b.peekFill n).Valid ∧
      (n ≤ (b.peekFill n).buf.length ∨ (b.peekFill n).buf.length = defaultBufSize ∨
        (b.peekFill n).err = some .EOF) := by
  intro b hb
  induction b using peekFill.induct n with
  | case1 b h ih =>
    -- one more fill, then the rest of the loop
    obtain ⟨hc, hv, hstop⟩ := ih (hb.fill h.2.1)
    rw [peekFill, if_pos h]
    exact ⟨hc.trans (fill_content b), hv, hstop⟩
  | case2 b h =>
    rw [peekFill, if_neg h]
    refine ⟨rfl, hb, ?_⟩
    rcases hb.eof with he | ⟨he, -⟩
    · have := hb.fits
      by_cases hn : n ≤ b.buf.length
      · exact Or.inl hn
      · right; left
        by_contra hfull
        exact h ⟨by omega, by omega, he⟩
    · exact Or.inr (Or.inr he)

/-- `Peek n`, for `n` within the buffer, returns the first `n` bytes of the content, with no
    error when there are that many and `EOF` otherwise; the reader still yields the same bytes,
    and it has buffered at least what it returned. -/
theorem Peek_spec {b : Reader} (hb : b.Valid) {n : Nat} (hn : n ≤ defaultBufSize) :
    (b.Peek n).1 = (b.content.take n, if n ≤ b.content.length then none else some .EOF) ∧
      (b.Peek n).2.content = b.content ∧ (b.Peek n).2.Valid ∧
      (b.Peek n).1.1.length ≤ (b.Peek n).2.buf.length := by
  obtain ⟨hc, hv, hstop⟩ := peekFill_spec n hb
  -- the content is the buffer, then what is left on the connection
  have hcontent : (b.peekFill n).buf ++ (b.peekFill n).rd.content = b.content := hc
  simp only [Peek, if_neg (Nat.not_lt.mpr hn)]
  split
  · -- the connection ended before `n` bytes: everything is buffered and `EOF` was met
    rename_i hshort
    have heof : (b.peekFill n).err = some .EOF := by
      rcases hstop with hge | hfull | he
      · omega
      · omega
      · exact he
    have hnil : (b.peekFill n).rd.content = [] := by
      rcases hv.eof with he | ⟨-, hnil⟩
      · rw [he] at heof; cases heof
      · exact hnil
    rw [hnil, List.append_nil] at hcontent
    refine ⟨?_, ?_, ⟨hv.fits, Or.inl rfl⟩, le_refl _⟩
    · show ((b.peekFill n).buf, some ((b.peekFill n).err.getD .ErrBufferFull)) = _
      rw [heof, ← hcontent, List.take_of_length_le (by omega), if_neg (by omega)]
      rfl
    · show (b.peekFill n).buf ++ (b.peekFill n).rd.content = b.content
      rw [hnil, List.append_nil, hcontent]
  · -- `n` bytes are buffered
    rename_i hlong
    have hle : n ≤ b.content.length := by
      rw [← hcontent, List.length_append]
      omega
    refine ⟨?_, hc, hv, by simp⟩
    rw [if_pos hle, ← hcontent, List.take_append_of_le_length (by omega)]

/-- `Peek_spec` with the reader it leaves named. -/
theorem Peek_eq {b : Reader} (hb : b.Valid) {n : Nat} (hn : n ≤ defaultBufSize) :
    ∃ b', b.Peek n = ((b.content.take n, if n ≤ b.content.length then none else some .EOF), b') ∧
      b'.content = b.content ∧ b'.Valid ∧ (b.content.take n).length ≤ b'.buf.length := by
  obtain ⟨hret, hc, hv, hlen⟩ := Peek_spec hb hn
  refine ⟨(b.Peek n).2, ?_, hc, hv, ?_⟩
  · rw [← hret]
  · rw [hret] at hlen
    exact hlen

/-- Peeking at what is buffered returns it and leaves the reader as it is. -/
theorem Peek_Buffered {b : Reader} (hb : b.Valid) : b.Peek b.Buffered = ((b.buf, none), b) := by
  have hfill : b.peekFill b.buf.length = b := by
    rw [peekFill, if_neg (fun h => Nat.lt_irrefl _ h.1)]
  simp only [Peek, Buffered, hfill]
  rw [if_neg (Nat.not_lt.mpr hb.fits), if_neg (Nat.lt_irrefl _), List.take_length]

end Reader

end bufio

end Go
