import Reactor.Base
import Reactor.Lib.Vec
import Mathlib.Tactic.Common

/-!
# Buffer

The byte buffer of `Buffer.h`: a vector cut by two indices into prependable, readable and writable
bytes.

    +-------------------+------------------+------------------+
    | prependable bytes |  readable bytes  |  writable bytes  |
    +-------------------+------------------+------------------+
    0      <=      readerIndex   <=   writerIndex    <=     size

Every function comes with one lemma that says what it does to a well-formed buffer (`Wf`): that it
returns, that the result is well formed, and what its readable bytes are.  A pointer into the
buffer is its position in the vector.
-/

namespace Reactor

/-- `Buffer` -/
structure Buffer where
  buffer : Bytes
  readerIndex : ℕ
  writerIndex : ℕ
  deriving DecidableEq, Repr

/-- The outcome of `readv(2)`: an error number, or the bytes it delivered. -/
inductive ReadvResult where
  | fail (errno : ℕ)
  | read (data : Bytes)
  deriving DecidableEq, Repr

namespace Buffer

/-- `Buffer::kCheapPrepend` -/
def kCheapPrepend : ℕ := 8

/-- `Buffer::kInitialSize` -/
def kInitialSize : ℕ := 1024

/-- The size of `extrabuf` in `readFd`. -/
def kExtraBuf : ℕ := 65536

def readableBytes (b : Buffer) : ℕ := b.writerIndex - b.readerIndex

def writableBytes (b : Buffer) : ℕ := b.buffer.length - b.writerIndex

def prependableBytes (b : Buffer) : ℕ := b.readerIndex

def peek (b : Buffer) : ℕ := b.readerIndex

def beginWrite (b : Buffer) : ℕ := b.writerIndex

/-- The readable bytes. -/
def readable (b : Buffer) : Bytes := Vec.slice b.buffer b.readerIndex b.writerIndex

/-- The constructor.  The vector is `kCheapPrepend + kInitialSize` long whatever `initialSize`
is, and the assertion on `writableBytes()` fails for every other value. -/
def new (initialSize : ℕ) : Except Fault Buffer := do
  let b : Buffer := ⟨List.replicate (kCheapPrepend + kInitialSize) 0, kCheapPrepend, kCheapPrepend⟩
  check .bufferInitialSize (b.readableBytes = 0 ∧ b.writableBytes = initialSize ∧
    b.prependableBytes = kCheapPrepend)
  return b

/-- A default-constructed buffer. -/
def empty : Buffer := ⟨List.replicate (kCheapPrepend + kInitialSize) 0, kCheapPrepend, kCheapPrepend⟩

def retrieveAll (b : Buffer) : Buffer :=
  { b with readerIndex := kCheapPrepend, writerIndex := kCheapPrepend }

def retrieve (b : Buffer) (len : ℕ) : Except Fault Buffer := do
  check .retrieve (len ≤ b.readableBytes)
  if len < b.readableBytes then return { b with readerIndex := b.readerIndex + len }
  else return b.retrieveAll

def retrieveUntil (b : Buffer) (last : ℕ) : Except Fault Buffer := do
  check .retrieveUntil (b.peek ≤ last)
  check .retrieveUntil (last ≤ b.beginWrite)
  b.retrieve (last - b.peek)

def retrieveAsString (b : Buffer) (len : ℕ) : Except Fault (Bytes × Buffer) := do
  check .retrieveAsString (len ≤ b.readableBytes)
  let result := Vec.slice b.buffer b.peek (b.peek + len)
  let b ← b.retrieve len
  return (result, b)

def retrieveAllAsString (b : Buffer) : Except Fault (Bytes × Buffer) :=
  b.retrieveAsString b.readableBytes

def toStringPiece (b : Buffer) : StringPiece := ⟨b.buffer.drop b.peek, intOfSize b.readableBytes⟩

def makeSpace (b : Buffer) (len : ℕ) : Except Fault Buffer := do
  if b.writableBytes + b.prependableBytes < len + kCheapPrepend then
    return { b with buffer := Vec.resize b.buffer (b.writerIndex + len) 0 }
  else
    check .makeSpace (kCheapPrepend < b.readerIndex)
    let readable := b.readableBytes
    let moved := Vec.copyWithin b.buffer b.readerIndex kCheapPrepend (b.writerIndex - b.readerIndex)
    let b : Buffer := ⟨moved, kCheapPrepend, kCheapPrepend + readable⟩
    check .makeSpaceReadable (readable = b.readableBytes)
    return b

def ensureWritableBytes (b : Buffer) (len : ℕ) : Except Fault Buffer := do
  let b ← if b.writableBytes < len then b.makeSpace len else pure b
  check .ensureWritableBytes (len ≤ b.writableBytes)
  return b

def hasWritten (b : Buffer) (len : ℕ) : Except Fault Buffer := do
  check .hasWritten (len ≤ b.writableBytes)
  return { b with writerIndex := b.writerIndex + len }

def unwrite (b : Buffer) (len : ℕ) : Except Fault Buffer := do
  check .unwrite (len ≤ b.readableBytes)
  return { b with writerIndex := b.writerIndex - len }

/-- The caller stores bytes through the pointer `beginWrite()`. -/
def store (b : Buffer) (data : Bytes) : Buffer :=
  { b with buffer := Vec.write b.buffer b.beginWrite data }

def append (b : Buffer) (data : Bytes) : Except Fault Buffer := do
  let b ← b.ensureWritableBytes data.length
  (b.store data).hasWritten data.length

/-- `append(const StringPiece&)` -/
def appendPiece (b : Buffer) (str : StringPiece) : Except Fault Buffer := do
  b.append (← str.read)

def prepend (b : Buffer) (data : Bytes) : Except Fault Buffer := do
  check .prepend (data.length ≤ b.prependableBytes)
  let readerIndex := b.readerIndex - data.length
  return { b with buffer := Vec.write b.buffer readerIndex data, readerIndex := readerIndex }

/-- `shrink` builds a fresh buffer and swaps the two; the old vector dies with the local. -/
def shrink (b : Buffer) (reserve : ℕ) : Except Fault Buffer := do
  let other ← new kInitialSize
  let other ← other.ensureWritableBytes (b.readableBytes + reserve)
  other.appendPiece b.toStringPiece

/-- `readv(2)` may fill the writable bytes and, when these are fewer than `extrabuf` has, the
stack buffer too. -/
def readvRoom (b : Buffer) : ℕ :=
  b.writableBytes + if b.writableBytes < kExtraBuf then kExtraBuf else 0

/-- `readFd`: the number of bytes read, or the saved error number.  The kernel fills the writable
bytes first and `extrabuf` with what is left. -/
def readFd (b : Buffer) : ReadvResult → Except Fault (Except ℕ ℕ × Buffer)
  | .fail errno => return (.error errno, b)
  | .read data => do
    let writable := b.writableBytes
    let extrabuf := data.drop writable
    let b := b.store (data.take writable)
    if data.length ≤ writable then
      return (.ok data.length, { b with writerIndex := b.writerIndex + data.length })
    else
      let b ← { b with writerIndex := b.buffer.length }.append extrabuf
      return (.ok data.length, b)

/-! ## Well-formed buffers -/

/-- The index order of the class comment, and room for the prependable bytes. -/
structure Wf (b : Buffer) : Prop where
  reader_le_writer : b.readerIndex ≤ b.writerIndex
  writer_le_size : b.writerIndex ≤ b.buffer.length
  cheapPrepend_le_size : kCheapPrepend ≤ b.buffer.length

theorem Wf.length_readable {b : Buffer} (h : b.Wf) : b.readable.length = b.readableBytes :=
  Vec.length_slice h.writer_le_size

theorem new_kInitialSize : new kInitialSize = .ok empty := by
  have h : empty.readableBytes = 0 ∧ empty.writableBytes = kInitialSize ∧
      empty.prependableBytes = kCheapPrepend := by
    simp [empty, readableBytes, writableBytes, prependableBytes]
  change (check .bufferInitialSize (empty.readableBytes = 0 ∧ empty.writableBytes = kInitialSize ∧
    empty.prependableBytes = kCheapPrepend) >>= fun _ => .ok empty) = .ok empty
  rw [check_of h, ok_bind]

theorem wf_empty : empty.Wf := by
  refine ⟨le_rfl, ?_, ?_⟩ <;> simp [empty]

@[simp] theorem readable_empty : empty.readable = [] := Vec.slice_self _ _

theorem Wf.retrieveAll {b : Buffer} (h : b.Wf) : b.retrieveAll.Wf :=
  ⟨le_rfl, h.cheapPrepend_le_size, h.cheapPrepend_le_size⟩

@[simp] theorem readable_retrieveAll (b : Buffer) : b.retrieveAll.readable = [] :=
  Vec.slice_self _ _

theorem Wf.retrieve {b : Buffer} (h : b.Wf) {len : ℕ} (hl : len ≤ b.readableBytes) :
    ∃ b', b.retrieve len = .ok b' ∧ b'.Wf ∧ b'.readable = b.readable.drop len := by
  unfold Buffer.retrieve
  rw [check_of hl, ok_bind]
  have hw := h.reader_le_writer
  unfold readableBytes at hl ⊢
  split_ifs with hlt
  · refine ⟨_, rfl, ⟨?_, h.writer_le_size, h.cheapPrepend_le_size⟩, ?_⟩
    · show b.readerIndex + len ≤ b.writerIndex
      omega
    · exact (Vec.drop_slice _ _ _ _).symm
  · refine ⟨_, rfl, h.retrieveAll, ?_⟩
    rw [readable_retrieveAll, List.drop_eq_nil_of_le]
    rw [h.length_readable, readableBytes]
    omega

theorem Wf.retrieveUntil {b : Buffer} (h : b.Wf) {len : ℕ} (hl : len ≤ b.readableBytes) :
    ∃ b', b.retrieveUntil (b.peek + len) = .ok b' ∧ b'.Wf ∧ b'.readable = b.readable.drop len := by
  have hw := h.reader_le_writer
  have hend : b.peek + len ≤ b.beginWrite := by
    unfold readableBytes at hl
    unfold peek beginWrite
    omega
  unfold Buffer.retrieveUntil
  rw [check_of (Nat.le_add_right _ _), ok_bind, check_of hend, ok_bind, Nat.add_sub_cancel_left]
  exact h.retrieve hl

/-- Memory that is read at `peek()`. -/
theorem Wf.slice_peek {b : Buffer} (h : b.Wf) {len : ℕ} (hl : len ≤ b.readableBytes) :
    Vec.slice b.buffer b.peek (b.peek + len) = b.readable.take len := by
  unfold readableBytes at hl
  rw [readable, Vec.take_slice, min_eq_left (by have := h.reader_le_writer; omega)]
  rfl

theorem Wf.retrieveAsString {b : Buffer} (h : b.Wf) {len : ℕ} (hl : len ≤ b.readableBytes) :
    ∃ b', b.retrieveAsString len = .ok (b.readable.take len, b') ∧ b'.Wf ∧
      b'.readable = b.readable.drop len := by
  obtain ⟨b', hr, hwf, hread⟩ := h.retrieve hl
  unfold Buffer.retrieveAsString
  rw [check_of hl, ok_bind, hr, ok_bind, h.slice_peek hl]
  exact ⟨b', rfl, hwf, hread⟩

/-- `makeSpace` is called when the writable bytes do not suffice.  If the free bytes before and
behind the content do, then the content does not start at `kCheapPrepend` already, so the
assertion of the copying branch holds. -/
theorem Wf.makeSpace {b : Buffer} (h : b.Wf) {len : ℕ} (hl : b.writableBytes < len) :
    ∃ b', b.makeSpace len = .ok b' ∧ b'.Wf ∧ b'.readable = b.readable ∧ len ≤ b'.writableBytes := by
  obtain ⟨hrw, hws, hcs⟩ := h
  unfold Buffer.makeSpace
  split_ifs with hspace
  · -- not enough room in the vector: it grows
    have hgrow : b.buffer.length ≤ b.writerIndex + len := by
      unfold writableBytes at hl
      omega
    refine ⟨_, rfl, ⟨hrw, ?_, ?_⟩, Vec.slice_resize_of_le 0 hws hgrow, ?_⟩
    · simp only [Vec.length_resize]
      omega
    · simp only [Vec.length_resize]
      omega
    · simp only [writableBytes, Vec.length_resize]
      omega
  · -- enough room: the content moves down to `kCheapPrepend`
    have hfree : kCheapPrepend < b.readerIndex := by
      unfold writableBytes prependableBytes at hspace
      unfold writableBytes at hl
      omega
    have hend : b.readerIndex + (b.writerIndex - b.readerIndex) = b.writerIndex := by omega
    have hlen : (Vec.slice b.buffer b.readerIndex b.writerIndex).length =
        b.writerIndex - b.readerIndex := Vec.length_slice hws
    have hcopy : Vec.copyWithin b.buffer b.readerIndex kCheapPrepend
        (b.writerIndex - b.readerIndex) = Vec.write b.buffer kCheapPrepend b.readable := by
      rw [Vec.copyWithin_eq_write hfree.le (by omega), hend]
      rfl
    have hsize : (Vec.write b.buffer kCheapPrepend b.readable).length = b.buffer.length :=
      Vec.length_write (by unfold readable; omega)
    simp only [hcopy]
    rw [check_of hfree, ok_bind, check_of (by simp [readableBytes]), ok_bind]
    refine ⟨_, rfl, ⟨Nat.le_add_right _ _, ?_, ?_⟩, ?_, ?_⟩
    · simp only [readableBytes, hsize]
      omega
    · simp only [hsize]
      exact hcs
    · have hself := Vec.slice_write_self (d := b.readable) hcs
      rw [show b.readable.length = b.readableBytes from hlen] at hself
      exact hself
    · simp only [writableBytes, hsize, readableBytes]
      unfold writableBytes prependableBytes at hspace
      omega

theorem Wf.ensureWritableBytes {b : Buffer} (h : b.Wf) (len : ℕ) :
    ∃ b', b.ensureWritableBytes len = .ok b' ∧ b'.Wf ∧ b'.readable = b.readable ∧
      len ≤ b'.writableBytes := by
  unfold Buffer.ensureWritableBytes
  by_cases hl : b.writableBytes < len
  · obtain ⟨b', hb', hwf, hread, hroom⟩ := h.makeSpace hl
    rw [if_pos hl, hb', ok_bind]
    dsimp only
    rw [check_of hroom]
    exact ⟨b', rfl, hwf, hread, hroom⟩
  · have hroom : len ≤ b.writableBytes := by omega
    rw [if_neg hl, pure_bind]
    dsimp only
    rw [check_of hroom]
    exact ⟨b, rfl, h, rfl, hroom⟩

/-- The buffer after bytes were stored at `beginWrite()` and the write index moved behind them. -/
def commit (b : Buffer) (data : Bytes) : Buffer :=
  { b.store data with writerIndex := b.writerIndex + data.length }

theorem Wf.length_store {b : Buffer} (h : b.Wf) {data : Bytes}
    (hd : data.length ≤ b.writableBytes) : (b.store data).buffer.length = b.buffer.length := by
  have hws := h.writer_le_size
  unfold writableBytes at hd
  exact Vec.length_write (by unfold beginWrite; omega)

theorem Wf.commit {b : Buffer} (h : b.Wf) {data : Bytes} (hd : data.length ≤ b.writableBytes) :
    (b.commit data).Wf ∧ (b.commit data).readable = b.readable ++ data := by
  have hsize := h.length_store hd
  obtain ⟨hrw, hws, hcs⟩ := h
  unfold writableBytes at hd
  refine ⟨⟨?_, ?_, ?_⟩, ?_⟩
  · show b.readerIndex ≤ b.writerIndex + data.length
    omega
  · show b.writerIndex + data.length ≤ (b.store data).buffer.length
    omega
  · show kCheapPrepend ≤ (b.store data).buffer.length
    omega
  · have hsplit : Vec.slice (b.store data).buffer b.readerIndex b.writerIndex ++
        Vec.slice (b.store data).buffer b.writerIndex (b.writerIndex + data.length) =
        Vec.slice (b.store data).buffer b.readerIndex (b.writerIndex + data.length) :=
      Vec.slice_append_slice hrw (Nat.le_add_right _ _) (by omega)
    have hold : Vec.slice (b.store data).buffer b.readerIndex b.writerIndex = b.readable :=
      Vec.slice_write_of_le hws le_rfl
    have hnew : Vec.slice (b.store data).buffer b.writerIndex (b.writerIndex + data.length) = data :=
      Vec.slice_write_self hws
    rw [hold, hnew] at hsplit
    exact hsplit.symm

/-- Bytes stored at `beginWrite()` become readable with `hasWritten`. -/
theorem Wf.hasWritten_store {b : Buffer} (h : b.Wf) {data : Bytes}
    (hd : data.length ≤ b.writableBytes) :
    (b.store data).hasWritten data.length = .ok (b.commit data) := by
  have hroom : data.length ≤ (b.store data).writableBytes := by
    rw [writableBytes, h.length_store hd]
    exact hd
  unfold Buffer.hasWritten
  rw [check_of hroom, ok_bind]
  rfl

theorem Wf.append {b : Buffer} (h : b.Wf) (data : Bytes) :
    ∃ b', b.append data = .ok b' ∧ b'.Wf ∧ b'.readable = b.readable ++ data := by
  obtain ⟨b', hb', hwf, hread, hroom⟩ := h.ensureWritableBytes data.length
  obtain ⟨hwf', hread'⟩ := hwf.commit hroom
  unfold Buffer.append
  rw [hb', ok_bind]
  exact ⟨_, hwf.hasWritten_store hroom, hwf', by rw [hread', hread]⟩

theorem cheapPrepend_le_makeSpace {b b' : Buffer} {len : ℕ} (hok : b.makeSpace len = .ok b')
    (h : kCheapPrepend ≤ b.prependableBytes) : kCheapPrepend ≤ b'.prependableBytes := by
  unfold makeSpace at hok
  split_ifs at hok
  · obtain rfl := Except.ok.inj hok
    exact h
  · obtain ⟨-, hok⟩ := check_bind_eq_ok.1 hok
    obtain ⟨-, hok⟩ := check_bind_eq_ok.1 hok
    obtain rfl := Except.ok.inj hok
    exact le_rfl

/-- Appending leaves room for a header that comes in front. -/
theorem cheapPrepend_le_append {b b' : Buffer} {data : Bytes} (hok : b.append data = .ok b')
    (h : kCheapPrepend ≤ b.prependableBytes) : kCheapPrepend ≤ b'.prependableBytes := by
  obtain ⟨b₁, hensure, hok⟩ := bind_eq_ok.1 hok
  obtain ⟨-, hok⟩ := check_bind_eq_ok.1 hok
  obtain rfl := Except.ok.inj hok
  show kCheapPrepend ≤ b₁.prependableBytes
  unfold ensureWritableBytes at hensure
  dsimp only at hensure
  split_ifs at hensure
  · obtain ⟨b₂, hspace, hensure⟩ := bind_eq_ok.1 hensure
    obtain ⟨-, hensure⟩ := check_bind_eq_ok.1 hensure
    obtain rfl := Except.ok.inj hensure
    exact cheapPrepend_le_makeSpace hspace h
  · obtain ⟨-, hensure⟩ := check_bind_eq_ok.1 hensure
    obtain rfl := Except.ok.inj hensure
    exact h

theorem Wf.unwrite {b : Buffer} (h : b.Wf) {len : ℕ} (hl : len ≤ b.readableBytes) :
    ∃ b', b.unwrite len = .ok b' ∧ b'.Wf ∧
      b'.readable = b.readable.take (b.readable.length - len) := by
  obtain ⟨hrw, hws, hcs⟩ := h
  have hlen := Wf.length_readable ⟨hrw, hws, hcs⟩
  unfold Buffer.unwrite
  rw [check_of hl, ok_bind]
  unfold readableBytes at hl hlen
  refine ⟨_, rfl, ⟨?_, ?_, hcs⟩, ?_⟩
  · show b.readerIndex ≤ b.writerIndex - len
    omega
  · show b.writerIndex - len ≤ b.buffer.length
    omega
  · rw [hlen, readable, readable, Vec.take_slice,
      show min (b.readerIndex + (b.writerIndex - b.readerIndex - len)) b.writerIndex =
        b.writerIndex - len by omega]

theorem Wf.prepend {b : Buffer} (h : b.Wf) {data : Bytes} (hd : data.length ≤ b.prependableBytes) :
    ∃ b', b.prepend data = .ok b' ∧ b'.Wf ∧ b'.readable = data ++ b.readable := by
  obtain ⟨hrw, hws, hcs⟩ := h
  unfold Buffer.prepend
  rw [check_of hd, ok_bind]
  unfold prependableBytes at hd
  have hstart : b.readerIndex - data.length + data.length = b.readerIndex := by omega
  have hsize : (Vec.write b.buffer (b.readerIndex - data.length) data).length = b.buffer.length :=
    Vec.length_write (by omega)
  refine ⟨_, rfl, ⟨?_, ?_, ?_⟩, ?_⟩
  · show b.readerIndex - data.length ≤ b.writerIndex
    omega
  · simp only [hsize]
    exact hws
  · simp only [hsize]
    exact hcs
  · have hself := Vec.slice_write_self (v := b.buffer) (i := b.readerIndex - data.length)
      (d := data) (by omega)
    rw [hstart] at hself
    simp only [readable]
    rw [← Vec.slice_append_slice (j := b.readerIndex) (by omega) hrw (by omega), hself,
      Vec.slice_write_of_ge (by omega) (by omega)]

/-- The first readable bytes as a `StringPiece`, when an `int` holds their number. -/
theorem Wf.read_piece {b : Buffer} (h : b.Wf) {len : ℕ} (hl : len ≤ b.readableBytes)
    (hint : len < 2 ^ 31) :
    StringPiece.read ⟨b.buffer.drop b.peek, intOfSize len⟩ = .ok (b.readable.take len) := by
  have hroom : len ≤ (b.buffer.drop b.peek).length := by
    have hws := h.writer_le_size
    unfold readableBytes at hl
    rw [List.length_drop, peek]
    omega
  have hslice := h.slice_peek hl
  rw [Vec.slice, List.drop_take, Nat.add_sub_cancel_left] at hslice
  rw [intOfSize_of_lt hint, StringPiece.read_of_le hroom, hslice]

theorem Wf.read_toStringPiece {b : Buffer} (h : b.Wf) (hint : b.readableBytes < 2 ^ 31) :
    b.toStringPiece.read = .ok b.readable := by
  rw [toStringPiece, h.read_piece le_rfl hint, ← h.length_readable, List.take_length]

theorem Wf.shrink {b : Buffer} (h : b.Wf) (reserve : ℕ) (hint : b.readableBytes < 2 ^ 31) :
    ∃ b', b.shrink reserve = .ok b' ∧ b'.Wf ∧ b'.readable = b.readable := by
  obtain ⟨b₁, h₁, hwf₁, hread₁, -⟩ := wf_empty.ensureWritableBytes (b.readableBytes + reserve)
  obtain ⟨b₂, h₂, hwf₂, hread₂⟩ := hwf₁.append b.readable
  unfold Buffer.shrink appendPiece
  rw [new_kInitialSize, ok_bind, h₁, ok_bind, h.read_toStringPiece hint, ok_bind]
  refine ⟨b₂, h₂, hwf₂, ?_⟩
  rw [hread₂, hread₁, readable_empty, List.nil_append]

theorem Wf.readFd_read {b : Buffer} (h : b.Wf) (data : Bytes) :
    ∃ b', b.readFd (.read data) = .ok (.ok data.length, b') ∧ b'.Wf ∧
      b'.readable = b.readable ++ data := by
  simp only [readFd]
  split_ifs with hfit
  · -- everything went into the writable bytes
    obtain ⟨hwf, hread⟩ := h.commit hfit
    rw [List.take_of_length_le hfit]
    exact ⟨_, rfl, hwf, hread⟩
  · -- the writable bytes are full and `extrabuf` has the rest
    have hlen : (data.take b.writableBytes).length = b.writableBytes := by
      rw [List.length_take]
      omega
    obtain ⟨hwf, hread⟩ := h.commit hlen.le
    have hfull : { b.store (data.take b.writableBytes) with
        writerIndex := (b.store (data.take b.writableBytes)).buffer.length } =
        b.commit (data.take b.writableBytes) := by
      have hws := h.writer_le_size
      have hend : b.buffer.length = b.writerIndex + (data.take b.writableBytes).length := by
        rw [hlen, writableBytes]
        omega
      rw [h.length_store hlen.le, hend]
      rfl
    obtain ⟨b', hb', hwf', hread'⟩ := hwf.append (data.drop b.writableBytes)
    rw [hfull, hb', ok_bind]
    refine ⟨b', rfl, hwf', ?_⟩
    rw [hread', hread, List.append_assoc, List.take_append_drop]

/-! ## Searching -/

/-- The position of the first CR LF, as `std::search` finds it. -/
def searchCRLF : Bytes → Option ℕ
  | [] => none
  | [_] => none
  | x :: y :: rest =>
    if x = 13 ∧ y = 10 then some 0 else (searchCRLF (y :: rest)).map (· + 1)

/-- `findCRLF()`: a position in the vector. -/
def findCRLF (b : Buffer) : Option ℕ := (searchCRLF b.readable).map (b.peek + ·)

theorem searchCRLF_le {xs : Bytes} {n : ℕ} (h : searchCRLF xs = some n) : n + 2 ≤ xs.length := by
  induction xs generalizing n with
  | nil => cases h
  | cons x xs ih =>
    cases xs with
    | nil => cases h
    | cons y rest =>
      rw [searchCRLF] at h
      split_ifs at h
      · obtain rfl := Option.some.inj h
        simp
      · obtain ⟨m, hm, rfl⟩ := Option.map_eq_some_iff.1 h
        have := ih hm
        rw [List.length_cons]
        omega

/-- Bytes that arrive later do not change where the first line ends. -/
theorem searchCRLF_append {xs : Bytes} {n : ℕ} (h : searchCRLF xs = some n) (ys : Bytes) :
    searchCRLF (xs ++ ys) = some n := by
  induction xs generalizing n with
  | nil => cases h
  | cons x xs ih =>
    cases xs with
    | nil => cases h
    | cons y rest =>
      rw [searchCRLF] at h
      rw [List.cons_append, List.cons_append, searchCRLF]
      split_ifs at h ⊢
      · exact h
      · obtain ⟨m, hm, rfl⟩ := Option.map_eq_some_iff.1 h
        rw [← List.cons_append, ih hm]
        rfl

/-- The first CR LF cuts a line without one off the front. -/
theorem searchCRLF_eq_some {xs : Bytes} {n : ℕ} (h : searchCRLF xs = some n) :
    searchCRLF (xs.take n) = none ∧ xs = xs.take n ++ crlf ++ xs.drop (n + 2) := by
  induction xs generalizing n with
  | nil => cases h
  | cons x xs ih =>
    cases xs with
    | nil => cases h
    | cons y rest =>
      rw [searchCRLF] at h
      split_ifs at h with hcrlf
      · obtain rfl := Option.some.inj h
        obtain ⟨rfl, rfl⟩ := hcrlf
        exact ⟨rfl, rfl⟩
      · obtain ⟨m, hm, rfl⟩ := Option.map_eq_some_iff.1 h
        obtain ⟨hnone, hcut⟩ := ih hm
        refine ⟨?_, ?_⟩
        · cases m with
          | zero => rfl
          | succ m =>
            rw [List.take_succ_cons] at hnone
            rw [List.take_succ_cons, List.take_succ_cons, searchCRLF, if_neg hcrlf, hnone]
            rfl
        · rw [List.take_succ_cons, List.cons_append, List.cons_append, List.drop_succ_cons, ← hcut]

theorem searchCRLF_line {line : Bytes} (h : searchCRLF line = none) (rest : Bytes) :
    searchCRLF (line ++ crlf ++ rest) = some line.length := by
  induction line with
  | nil => rfl
  | cons x line ih =>
    cases line with
    | nil =>
      show searchCRLF (x :: 13 :: 10 :: rest) = some 1
      rw [searchCRLF, if_neg (by simp), searchCRLF, if_pos ⟨rfl, rfl⟩]
      rfl
    | cons y line =>
      rw [searchCRLF] at h
      split_ifs at h with hcrlf
      have hnone : searchCRLF (y :: line) = none := Option.map_eq_none_iff.1 h
      have hrest := ih hnone
      simp only [List.cons_append] at hrest ⊢
      rw [searchCRLF, if_neg hcrlf, hrest]
      rfl

theorem searchCRLF_of_notMem {line : Bytes} (h : 13 ∉ line) : searchCRLF line = none := by
  cases hn : searchCRLF line with
  | none => rfl
  | some n =>
    rw [(searchCRLF_eq_some hn).2] at h
    exact absurd (by simp [crlf, ascii]) h

theorem searchCRLF_eq_none {xs : Bytes} : searchCRLF xs = none ↔ ¬ crlf <:+: xs := by
  constructor
  · rintro hnone ⟨front, back, rfl⟩
    cases hfront : searchCRLF front with
    | none =>
      rw [searchCRLF_line hfront] at hnone
      cases hnone
    | some n =>
      rw [List.append_assoc, searchCRLF_append hfront] at hnone
      cases hnone
  · intro h
    cases hn : searchCRLF xs with
    | none => rfl
    | some n => exact absurd ⟨_, _, (searchCRLF_eq_some hn).2.symm⟩ h

/-- A text has one first line. -/
theorem line_unique {line line' rest rest' : Bytes} (h : ¬ crlf <:+: line) (h' : ¬ crlf <:+: line')
    (heq : line ++ crlf ++ rest = line' ++ crlf ++ rest') : line = line' ∧ rest = rest' := by
  rw [← searchCRLF_eq_none] at h h'
  have hlen : line.length = line'.length := by
    have hsearch := searchCRLF_line h rest
    rw [heq, searchCRLF_line h' rest'] at hsearch
    exact (Option.some.inj hsearch).symm
  rw [List.append_assoc, List.append_assoc] at heq
  obtain ⟨hline, hrest⟩ := List.append_inj heq hlen
  exact ⟨hline, List.append_cancel_left hrest⟩

/-- The line in front of the first CR LF is taken out together with it. -/
theorem Wf.retrieveLine {b : Buffer} (h : b.Wf) {n : ℕ} (hn : searchCRLF b.readable = some n) :
    ∃ b', b.retrieveUntil (b.peek + n + 2) = .ok b' ∧ b'.Wf ∧
      b'.readable = b.readable.drop (n + 2) := by
  have hle : n + 2 ≤ b.readableBytes := by
    rw [← h.length_readable]
    exact searchCRLF_le hn
  rw [Nat.add_assoc]
  exact h.retrieveUntil hle

theorem Wf.slice_line {b : Buffer} (h : b.Wf) {n : ℕ} (hn : searchCRLF b.readable = some n) :
    Vec.slice b.buffer b.peek (b.peek + n) = b.readable.take n := by
  have hle : n + 2 ≤ b.readableBytes := by
    rw [← h.length_readable]
    exact searchCRLF_le hn
  exact h.slice_peek (by omega)

end Buffer

end Reactor
