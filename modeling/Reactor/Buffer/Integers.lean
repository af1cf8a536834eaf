import Reactor.Buffer
import Reactor.Endian

/-!
# Integers in a buffer

`appendIntN`, `prependIntN`, `peekIntN` and `readIntN` of `Buffer.h`.  A signed integer goes through
the unsigned functions of `Endian.h` and through the memory of a little-endian host, in both
directions.

* `integers_round_trip`: integers of any widths that were appended are read back in order, an
  integer that was prepended is read back, and what lies in the buffer is their big-endian
  two's-complement representation.
-/

namespace Reactor

namespace Buffer

/-- `append(&x, sizeof(x))` of an integer of `k` bytes. -/
def appendMemory (b : Buffer) (k n : ℕ) : Except Fault Buffer := b.append (LittleEndian.toBytes k n)

/-- `prepend(&x, sizeof(x))` of an integer of `k` bytes. -/
def prependMemory (b : Buffer) (k n : ℕ) : Except Fault Buffer :=
  b.prepend (LittleEndian.toBytes k n)

/-- `memcpy(&x, peek(), sizeof(x))` into an integer of `k` bytes, behind its assertion. -/
def peekMemory (b : Buffer) (k : ℕ) : Except Fault ℕ := do
  check .peekInt (k ≤ b.readableBytes)
  return LittleEndian.ofBytes (Vec.slice b.buffer b.peek (b.peek + k))

def appendInt64 (b : Buffer) (x : Int64) : Except Fault Buffer :=
  let be64 := (Endian.hostToNetwork64 x.toUInt64).toInt64
  b.appendMemory 8 be64.toUInt64.toNat

def appendInt32 (b : Buffer) (x : Int32) : Except Fault Buffer :=
  let be32 := (Endian.hostToNetwork32 x.toUInt32).toInt32
  b.appendMemory 4 be32.toUInt32.toNat

def appendInt16 (b : Buffer) (x : Int16) : Except Fault Buffer :=
  let be16 := (Endian.hostToNetwork16 x.toUInt16).toInt16
  b.appendMemory 2 be16.toUInt16.toNat

def appendInt8 (b : Buffer) (x : Int8) : Except Fault Buffer := b.appendMemory 1 x.toUInt8.toNat

def peekInt64 (b : Buffer) : Except Fault Int64 := do
  let be64 := (UInt64.ofNat (← b.peekMemory 8)).toInt64
  return (Endian.networkToHost64 be64.toUInt64).toInt64

def peekInt32 (b : Buffer) : Except Fault Int32 := do
  let be32 := (UInt32.ofNat (← b.peekMemory 4)).toInt32
  return (Endian.networkToHost32 be32.toUInt32).toInt32

def peekInt16 (b : Buffer) : Except Fault Int16 := do
  let be16 := (UInt16.ofNat (← b.peekMemory 2)).toInt16
  return (Endian.networkToHost16 be16.toUInt16).toInt16

def peekInt8 (b : Buffer) : Except Fault Int8 := do
  return (UInt8.ofNat (← b.peekMemory 1)).toInt8

def retrieveInt64 (b : Buffer) : Except Fault Buffer := b.retrieve 8

def retrieveInt32 (b : Buffer) : Except Fault Buffer := b.retrieve 4

def retrieveInt16 (b : Buffer) : Except Fault Buffer := b.retrieve 2

def retrieveInt8 (b : Buffer) : Except Fault Buffer := b.retrieve 1

def readInt32 (b : Buffer) : Except Fault (Int32 × Buffer) := do
  let result ← b.peekInt32
  return (result, ← b.retrieveInt32)

def readInt16 (b : Buffer) : Except Fault (Int16 × Buffer) := do
  let result ← b.peekInt16
  return (result, ← b.retrieveInt16)

def readInt8 (b : Buffer) : Except Fault (Int8 × Buffer) := do
  let result ← b.peekInt8
  return (result, ← b.retrieveInt8)

def prependInt64 (b : Buffer) (x : Int64) : Except Fault Buffer :=
  let be64 := (Endian.hostToNetwork64 x.toUInt64).toInt64
  b.prependMemory 8 be64.toUInt64.toNat

def prependInt32 (b : Buffer) (x : Int32) : Except Fault Buffer :=
  let be32 := (Endian.hostToNetwork32 x.toUInt32).toInt32
  b.prependMemory 4 be32.toUInt32.toNat

def prependInt16 (b : Buffer) (x : Int16) : Except Fault Buffer :=
  let be16 := (Endian.hostToNetwork16 x.toUInt16).toInt16
  b.prependMemory 2 be16.toUInt16.toNat

def prependInt8 (b : Buffer) (x : Int8) : Except Fault Buffer := b.prependMemory 1 x.toUInt8.toNat

/-! ## Integers with their widths -/

/-- The widths that the buffer has functions for. -/
inductive Width where
  | w8
  | w16
  | w32
  | w64
  deriving DecidableEq, Repr

/-- The number of bytes. -/
def Width.bytes : Width → ℕ
  | .w8 => 1
  | .w16 => 2
  | .w32 => 4
  | .w64 => 8

/-- A signed integer together with its width. -/
inductive SizedInt where
  | int8 (x : Int8)
  | int16 (x : Int16)
  | int32 (x : Int32)
  | int64 (x : Int64)
  deriving DecidableEq

namespace SizedInt

def width : SizedInt → Width
  | .int8 _ => .w8
  | .int16 _ => .w16
  | .int32 _ => .w32
  | .int64 _ => .w64

def toInt : SizedInt → ℤ
  | .int8 x => x.toInt
  | .int16 x => x.toInt
  | .int32 x => x.toInt
  | .int64 x => x.toInt

/-- The big-endian two's-complement representation. -/
def bigEndian (x : SizedInt) : Bytes :=
  BigEndian.toBytes x.width.bytes (x.toInt % 2 ^ (8 * x.width.bytes)).toNat

/-- The call that appends the integer. -/
def append (b : Buffer) : SizedInt → Except Fault Buffer
  | .int8 x => b.appendInt8 x
  | .int16 x => b.appendInt16 x
  | .int32 x => b.appendInt32 x
  | .int64 x => b.appendInt64 x

/-- The call that prepends the integer. -/
def prepend (b : Buffer) : SizedInt → Except Fault Buffer
  | .int8 x => b.prependInt8 x
  | .int16 x => b.prependInt16 x
  | .int32 x => b.prependInt32 x
  | .int64 x => b.prependInt64 x

end SizedInt

/-- The call that reads an integer of a width; there is no `readInt64`. -/
def readInt (b : Buffer) : Width → Except Fault (SizedInt × Buffer)
  | .w8 => do
    let (x, b) ← b.readInt8
    return (.int8 x, b)
  | .w16 => do
    let (x, b) ← b.readInt16
    return (.int16 x, b)
  | .w32 => do
    let (x, b) ← b.readInt32
    return (.int32 x, b)
  | .w64 => do
    let x ← b.peekInt64
    return (.int64 x, ← b.retrieveInt64)

/-- Integers are appended one after the other. -/
def appendInts (b : Buffer) : List SizedInt → Except Fault Buffer
  | [] => return b
  | x :: xs => do (← x.append b).appendInts xs

/-- Integers of the given widths are read one after the other. -/
def readInts (b : Buffer) : List Width → Except Fault (List SizedInt × Buffer)
  | [] => return ([], b)
  | w :: ws => do
    let (x, b) ← b.readInt w
    let (xs, b) ← b.readInts ws
    return (x :: xs, b)

/-- Bytes are retrieved in pieces. -/
def retrieveEach (b : Buffer) : List ℕ → Except Fault Buffer
  | [] => return b
  | len :: lens => do (← b.retrieve len).retrieveEach lens

/-! ## What the calls do -/

namespace SizedInt

/-- The unsigned value of the bit pattern. -/
def bits : SizedInt → ℕ
  | .int8 x => x.toUInt8.toNat
  | .int16 x => x.toUInt16.toNat
  | .int32 x => x.toUInt32.toNat
  | .int64 x => x.toUInt64.toNat

theorem bigEndian_eq (x : SizedInt) : x.bigEndian = BigEndian.toBytes x.width.bytes x.bits := by
  unfold bigEndian
  cases x with
  | int8 x => exact congrArg _ (toNat_eq_emod x.toBitVec).symm
  | int16 x => exact congrArg _ (toNat_eq_emod x.toBitVec).symm
  | int32 x => exact congrArg _ (toNat_eq_emod x.toBitVec).symm
  | int64 x => exact congrArg _ (toNat_eq_emod x.toBitVec).symm

@[simp] theorem length_bigEndian (x : SizedInt) : x.bigEndian.length = x.width.bytes :=
  BigEndian.length_toBytes _ _

/-- The memory that `append` and `prepend` copy from. -/
def memory : SizedInt → Bytes
  | .int8 x => LittleEndian.toBytes 1 x.toUInt8.toNat
  | .int16 x => LittleEndian.toBytes 2 (Endian.hostToNetwork16 x.toUInt16).toNat
  | .int32 x => LittleEndian.toBytes 4 (Endian.hostToNetwork32 x.toUInt32).toNat
  | .int64 x => LittleEndian.toBytes 8 (Endian.hostToNetwork64 x.toUInt64).toNat

theorem memory_eq (x : SizedInt) : x.memory = x.bigEndian := by
  rw [bigEndian_eq]
  cases x with
  | int8 x => rfl
  | int16 x =>
    rw [memory, Endian.toNat_hostToNetwork16, LittleEndian.toBytes_swap]
    rfl
  | int32 x =>
    rw [memory, Endian.toNat_hostToNetwork32, LittleEndian.toBytes_swap]
    rfl
  | int64 x =>
    rw [memory, Endian.toNat_hostToNetwork64, LittleEndian.toBytes_swap]
    rfl

theorem append_eq (b : Buffer) (x : SizedInt) : x.append b = b.append x.bigEndian := by
  rw [← memory_eq]
  cases x <;> rfl

theorem prepend_eq (b : Buffer) (x : SizedInt) : x.prepend b = b.prepend x.bigEndian := by
  rw [← memory_eq]
  cases x <;> rfl

end SizedInt

theorem Wf.peekMemory {b : Buffer} (h : b.Wf) {front rest : Bytes} {k : ℕ}
    (hread : b.readable = front ++ rest) (hk : front.length = k) :
    b.peekMemory k = .ok (LittleEndian.ofBytes front) := by
  have hle : k ≤ b.readableBytes := by
    rw [← h.length_readable, hread, List.length_append]
    omega
  unfold Buffer.peekMemory
  rw [check_of hle, ok_bind, h.slice_peek hle, hread, List.take_left' hk]
  rfl

/-- Reading the integer whose representation comes first. -/
theorem Wf.readInt {b : Buffer} (h : b.Wf) {x : SizedInt} {rest : Bytes}
    (hread : b.readable = x.bigEndian ++ rest) :
    ∃ b', b.readInt x.width = .ok (x, b') ∧ b'.Wf ∧ b'.readable = rest := by
  have hle : x.width.bytes ≤ b.readableBytes := by
    rw [← h.length_readable, hread, List.length_append, x.length_bigEndian]
    omega
  obtain ⟨b', hb', hwf, hrest⟩ := h.retrieve hle
  rw [hread, List.drop_left' x.length_bigEndian] at hrest
  have hpeek := h.peekMemory hread x.length_bigEndian
  rw [x.bigEndian_eq] at hpeek
  refine ⟨b', ?_, hwf, hrest⟩
  cases x with
  | int8 x =>
    have hbyte : UInt8.ofNat (LittleEndian.ofBytes (BigEndian.toBytes 1 x.toUInt8.toNat)) =
        x.toUInt8 := by
      show UInt8.ofNat (BigEndian.ofBytes (BigEndian.toBytes 1 x.toUInt8.toNat)) = x.toUInt8
      rw [BigEndian.ofBytes_toBytes, pow_one, Nat.mod_eq_of_lt x.toUInt8.toNat_lt, UInt8.ofNat_toNat]
    show (do let (x, b) ← b.readInt8; return (SizedInt.int8 x, b) : Except Fault _) = _
    unfold readInt8 peekInt8 retrieveInt8
    rw [show b.peekMemory 1 = _ from hpeek, show b.retrieve 1 = _ from hb']
    exact congrArg (fun y : UInt8 => Except.ok (SizedInt.int8 y.toInt8, b')) hbyte
  | int16 x =>
    show (do let (x, b) ← b.readInt16; return (SizedInt.int16 x, b) : Except Fault _) = _
    unfold readInt16 peekInt16 retrieveInt16
    rw [show b.peekMemory 2 = _ from hpeek, show b.retrieve 2 = _ from hb']
    exact congrArg (fun y : UInt16 => Except.ok (SizedInt.int16 y.toInt16, b'))
      (Endian.networkToHost16_load x.toUInt16)
  | int32 x =>
    show (do let (x, b) ← b.readInt32; return (SizedInt.int32 x, b) : Except Fault _) = _
    unfold readInt32 peekInt32 retrieveInt32
    rw [show b.peekMemory 4 = _ from hpeek, show b.retrieve 4 = _ from hb']
    exact congrArg (fun y : UInt32 => Except.ok (SizedInt.int32 y.toInt32, b'))
      (Endian.networkToHost32_load x.toUInt32)
  | int64 x =>
    show (do let x ← b.peekInt64; return (SizedInt.int64 x, ← b.retrieveInt64) : Except Fault _) = _
    unfold peekInt64 retrieveInt64
    rw [show b.peekMemory 8 = _ from hpeek, show b.retrieve 8 = _ from hb']
    exact congrArg (fun y : UInt64 => Except.ok (SizedInt.int64 y.toInt64, b'))
      (Endian.networkToHost64_load x.toUInt64)

/-! ## Sequences -/

/-- The representations one behind the other. -/
def bigEndians (xs : List SizedInt) : Bytes := xs.flatMap SizedInt.bigEndian

theorem Wf.appendInts {b : Buffer} (h : b.Wf) (xs : List SizedInt) :
    ∃ b', b.appendInts xs = .ok b' ∧ b'.Wf ∧ b'.readable = b.readable ++ bigEndians xs := by
  induction xs generalizing b with
  | nil => exact ⟨b, rfl, h, (List.append_nil _).symm⟩
  | cons x xs ih =>
    obtain ⟨b₁, h₁, hwf₁, hread₁⟩ := h.append x.bigEndian
    obtain ⟨b', hb', hwf, hread⟩ := ih hwf₁
    refine ⟨b', ?_, hwf, ?_⟩
    · rw [Buffer.appendInts, x.append_eq, h₁, ok_bind]
      exact hb'
    · rw [hread, hread₁, List.append_assoc]
      rfl

theorem Wf.retrieveEach {b : Buffer} (h : b.Wf) {lens : List ℕ} (hlens : lens.sum ≤ b.readableBytes) :
    ∃ b', b.retrieveEach lens = .ok b' ∧ b'.Wf ∧ b'.readable = b.readable.drop lens.sum := by
  induction lens generalizing b with
  | nil => exact ⟨b, rfl, h, rfl⟩
  | cons len lens ih =>
    rw [List.sum_cons] at hlens ⊢
    obtain ⟨b₁, h₁, hwf₁, hread₁⟩ := h.retrieve (show len ≤ b.readableBytes by omega)
    have hleft : lens.sum ≤ b₁.readableBytes := by
      rw [← hwf₁.length_readable, hread₁, List.length_drop, h.length_readable]
      omega
    obtain ⟨b', hb', hwf, hread⟩ := ih hwf₁ hleft
    refine ⟨b', ?_, hwf, ?_⟩
    · rw [Buffer.retrieveEach, h₁, ok_bind]
      exact hb'
    · rw [hread, hread₁, List.drop_drop]

theorem Wf.readInts {b : Buffer} (h : b.Wf) {xs : List SizedInt} {rest : Bytes}
    (hread : b.readable = bigEndians xs ++ rest) :
    ∃ b', b.readInts (xs.map SizedInt.width) = .ok (xs, b') ∧ b'.Wf ∧ b'.readable = rest := by
  induction xs generalizing b with
  | nil => exact ⟨b, rfl, h, hread⟩
  | cons x xs ih =>
    rw [bigEndians, List.flatMap_cons, List.append_assoc] at hread
    obtain ⟨b₁, h₁, hwf₁, hread₁⟩ := h.readInt hread
    obtain ⟨b', hb', hwf, hrest⟩ := ih hwf₁ hread₁
    refine ⟨b', ?_, hwf, hrest⟩
    rw [List.map_cons, Buffer.readInts, h₁, ok_bind]
    dsimp only
    rw [hb', ok_bind]
    rfl

/-- Integers that are appended lie in the buffer in big-endian two's complement, and once the bytes
before them are retrieved, in any pieces, they are read back with nothing left.  An integer that is
prepended is read back, and the content is as before. -/
theorem integers_round_trip {b : Buffer} (h : b.Wf) :
    (∀ xs : List SizedInt, ∃ b₁, b.appendInts xs = .ok b₁ ∧
      b₁.readable = b.readable ++ xs.flatMap SizedInt.bigEndian ∧
      ∀ lens : List ℕ, lens.sum = b.readableBytes → ∃ b₂ b₃, b₁.retrieveEach lens = .ok b₂ ∧
        b₂.readInts (xs.map SizedInt.width) = .ok (xs, b₃) ∧ b₃.readableBytes = 0) ∧
    ∀ x : SizedInt, x.width.bytes ≤ b.prependableBytes → ∃ b₁ b₂, x.prepend b = .ok b₁ ∧
      b₁.readable = x.bigEndian ++ b.readable ∧ b₁.readInt x.width = .ok (x, b₂) ∧
      b₂.readable = b.readable := by
  constructor
  · intro xs
    obtain ⟨b₁, h₁, hwf₁, hread₁⟩ := h.appendInts xs
    refine ⟨b₁, h₁, hread₁, fun lens hlens => ?_⟩
    have hfront : b.readable.length = lens.sum := by rw [hlens, h.length_readable]
    have hle : lens.sum ≤ b₁.readableBytes := by
      rw [← hwf₁.length_readable, hread₁, List.length_append]
      omega
    obtain ⟨b₂, h₂, hwf₂, hread₂⟩ := hwf₁.retrieveEach hle
    rw [hread₁, List.drop_left' hfront, ← List.append_nil (bigEndians xs)] at hread₂
    obtain ⟨b₃, h₃, hwf₃, hread₃⟩ := hwf₂.readInts hread₂
    refine ⟨b₂, b₃, h₂, h₃, ?_⟩
    rw [← hwf₃.length_readable, hread₃, List.length_nil]
  · intro x hx
    have hroom : x.bigEndian.length ≤ b.prependableBytes := by rwa [x.length_bigEndian]
    obtain ⟨b₁, h₁, hwf₁, hread₁⟩ := h.prepend hroom
    obtain ⟨b₂, h₂, -, hread₂⟩ := hwf₁.readInt hread₁
    exact ⟨b₁, b₂, by rw [x.prepend_eq, h₁], hread₁, h₂, hread₂⟩

/-- Values that need their signs: four behind three bytes that are retrieved in two pieces, and one
that takes up all the space in front. -/
theorem integers_round_trip_signs :
    (∃ b₀ b₁ b₂ b₃, empty.append [1, 2, 3] = .ok b₀ ∧
      b₀.appendInts [.int16 (-2), .int8 (-128), .int64 (-3), .int32 2147483647] = .ok b₁ ∧
      b₁.retrieveEach [1, 2] = .ok b₂ ∧
      b₂.readInts [.w16, .w8, .w64, .w32] =
        .ok ([.int16 (-2), .int8 (-128), .int64 (-3), .int32 2147483647], b₃) ∧
      b₃.readableBytes = 0) ∧
    ∃ b₁ b₂, empty.prependInt64 (-1) = .ok b₁ ∧ b₁.readable = List.replicate 8 255 ∧
      b₁.readInt .w64 = .ok (.int64 (-1), b₂) := by
  constructor
  · obtain ⟨b₀, h₀, hwf₀, hread₀⟩ := wf_empty.append [1, 2, 3]
    have hlen : [1, 2].sum = b₀.readableBytes := by
      rw [← hwf₀.length_readable, hread₀, readable_empty]
      rfl
    obtain ⟨b₁, h₁, -, hrest⟩ := (integers_round_trip hwf₀).1
      [.int16 (-2), .int8 (-128), .int64 (-3), .int32 2147483647]
    obtain ⟨b₂, b₃, h₂, h₃, hleft⟩ := hrest [1, 2] hlen
    exact ⟨b₀, b₁, b₂, b₃, h₀, h₁, h₂, h₃, hleft⟩
  · obtain ⟨b₁, b₂, h₁, hread, h₂, -⟩ := (integers_round_trip wf_empty).2 (.int64 (-1)) le_rfl
    rw [readable_empty, List.append_nil] at hread
    refine ⟨b₁, b₂, h₁, ?_, h₂⟩
    rw [hread]
    decide +kernel

end Buffer

end Reactor
