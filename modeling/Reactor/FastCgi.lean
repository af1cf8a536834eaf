import Reactor.Buffer.Integers
import Reactor.Lib.Framing

/-!
# FastCgiCodec

The codec of the FastCGI example reads records: a header of eight bytes, the content and the padding.
The contents of the PARAMS records are collected in a stream that the empty PARAMS record has parsed
into names and values, those of the STDIN records in another.

* `feed_drains`: the codec takes the records one after the other, wherever the input is cut.
-/

namespace Reactor

/-- `FcgiType` -/
inductive FcgiType where
  | kFcgiInvalid
  | kFcgiBeginRequest
  | kFcgiAbortRequest
  | kFcgiEndRequest
  | kFcgiParams
  | kFcgiStdin
  | kFcgiStdout
  | kFcgiStderr
  | kFcgiData
  | kFcgiGetValues
  | kFcgiGetValuesResult
  deriving DecidableEq, Repr

/-- The type of a record; a number that is none is treated like the invalid type. -/
def FcgiType.ofByte (type : Byte) : FcgiType :=
  match type.toNat with
  | 1 => .kFcgiBeginRequest
  | 2 => .kFcgiAbortRequest
  | 3 => .kFcgiEndRequest
  | 4 => .kFcgiParams
  | 5 => .kFcgiStdin
  | 6 => .kFcgiStdout
  | 7 => .kFcgiStderr
  | 8 => .kFcgiData
  | 9 => .kFcgiGetValues
  | 10 => .kFcgiGetValuesResult
  | _ => .kFcgiInvalid

/-- `FcgiRole` and `FcgiConstant`, as far as they are compared with. -/
def kFcgiResponder : UInt16 := 1
def kFcgiKeepConn : Byte := 1

structure FastCgiCodec where
  gotRequest : Bool
  keepConn : Bool
  stdin : Buffer
  paramsStream : Buffer
  params : Bytes → Option Bytes

namespace FastCgiCodec

structure RecordHeader where
  version : Byte
  type : Byte
  id : UInt16
  length : UInt16
  padding : Byte
  unused : Byte
  deriving DecidableEq, Repr

def kRecordHeader : ℕ := 8

def new : FastCgiCodec := ⟨false, false, .empty, .empty, fun _ => none⟩

/-- A `uint16_t` in network order that is loaded from memory. -/
def readInt16 (p : Bytes) : UInt16 := Endian.networkToHost16 (.ofNat (LittleEndian.ofBytes p))

/-- The header that `memcpy` reads, with the two fields in the order of the host. -/
def RecordHeader.load : Bytes → Except Fault RecordHeader
  | [version, type, id, id', length, length', padding, unused] =>
    return ⟨version, type, readInt16 [id, id'], readInt16 [length, length'], padding, unused⟩
  | _ => .error .outOfBounds

/-- `total` of `parseRequest` -/
def RecordHeader.total (header : RecordHeader) : ℕ :=
  kRecordHeader + header.length.toNat + header.padding.toNat

def onBeginRequest (codec : FastCgiCodec) (header : RecordHeader) (buf : Buffer) :
    Except Fault (Bool × FastCgiCodec) := do
  check .onBeginRequest (header.length.toNat ≤ buf.readableBytes)
  check .onBeginRequest (FcgiType.ofByte header.type = .kFcgiBeginRequest)
  if kRecordHeader ≤ header.length.toNat then
    let role := readInt16 (Vec.slice buf.buffer (buf.peek + kRecordHeader) (buf.peek + kRecordHeader + 2))
    match buf.buffer[buf.peek + kRecordHeader + 2]? with
    | some flags =>
      if role = kFcgiResponder then return (true, { codec with keepConn := flags = kFcgiKeepConn })
      else return (false, codec)
    | none => .error .outOfBounds
  else return (false, codec)

/-- `readLen`: a length below 128 is taken from the stream.  For a longer one it returns what is left
of the stream, and takes nothing. -/
def readLen (codec : FastCgiCodec) : Except Fault (UInt32 × FastCgiCodec) := do
  if 1 ≤ codec.paramsStream.readableBytes then
    let byte := (← codec.paramsStream.peekInt8).toUInt8
    if byte &&& 0x80 ≠ 0 then
      if 4 ≤ codec.paramsStream.readableBytes then
        return (.ofNat (codec.paramsStream.readableBytes &&& 0x7fffffff), codec)
      else return (0xffffffff, codec)
    else
      let (len, paramsStream) ← codec.paramsStream.readInt8
      return (len.toInt32.toUInt32, { codec with paramsStream := paramsStream })
  else return (0xffffffff, codec)

/-- The loop of `parseAllParams` -/
def parseParams : ℕ → FastCgiCodec → Except Fault (Bool × FastCgiCodec)
  | 0, _ => .error .outOfFuel
  | fuel + 1, codec =>
    if 0 < codec.paramsStream.readableBytes then do
      let (nameLen, codec) ← codec.readLen
      if nameLen = 0xffffffff then return (false, codec)
      else
        let (valueLen, codec) ← codec.readLen
        if valueLen = 0xffffffff then return (false, codec)
        else if (nameLen + valueLen).toNat ≤ codec.paramsStream.readableBytes then
          let (name, paramsStream) ← codec.paramsStream.retrieveAsString nameLen.toNat
          let (value, paramsStream) ← paramsStream.retrieveAsString valueLen.toNat
          parseParams fuel { codec with
            paramsStream := paramsStream
            params := Function.update codec.params name (some value) }
        else return (false, codec)
    else return (true, codec)

/-- `parseAllParams`; a round that takes nothing from the stream is repeated for ever. -/
def parseAllParams (codec : FastCgiCodec) : Except Fault (Bool × FastCgiCodec) :=
  parseParams (codec.paramsStream.readableBytes + 1) codec

/-- `onParams`; `content` is the memory from the pointer on. -/
def onParams (codec : FastCgiCodec) (content : Bytes) (length : UInt16) :
    Except Fault (Bool × FastCgiCodec) := do
  if 0 < length then
    let paramsStream ← codec.paramsStream.append (content.take length.toNat)
    return (true, { codec with paramsStream := paramsStream })
  else codec.parseAllParams

def onStdin (codec : FastCgiCodec) (content : Bytes) (length : UInt16) : Except Fault FastCgiCodec := do
  if 0 < length then
    let stdin ← codec.stdin.append (content.take length.toNat)
    return { codec with stdin := stdin }
  else return { codec with gotRequest := true }

/-- The `switch` of `parseRequest`, which ignores what the functions return. -/
def onRecord (codec : FastCgiCodec) (header : RecordHeader) (buf : Buffer) : Except Fault FastCgiCodec := do
  let content := buf.buffer.drop (buf.peek + kRecordHeader)
  match FcgiType.ofByte header.type with
  | .kFcgiBeginRequest => return (← codec.onBeginRequest header buf).2
  | .kFcgiParams => return (← codec.onParams content header.length).2
  | .kFcgiStdin => codec.onStdin content header.length
  | _ => return codec

def parseLoop : ℕ → FastCgiCodec → Buffer → Except Fault (FastCgiCodec × Buffer)
  | 0, _, _ => .error .outOfFuel
  | fuel + 1, codec, buf =>
    if kRecordHeader ≤ buf.readableBytes then do
      let header ← RecordHeader.load (Vec.slice buf.buffer buf.peek (buf.peek + kRecordHeader))
      if header.total ≤ buf.readableBytes then
        let codec ← codec.onRecord header buf
        let buf ← buf.retrieve header.total
        parseLoop fuel codec buf
      else return (codec, buf)
    else return (codec, buf)

/-- `parseRequest`, which returns `true`; every round of its loop retrieves a header. -/
def parseRequest (codec : FastCgiCodec) (buf : Buffer) : Except Fault (FastCgiCodec × Buffer) :=
  parseLoop (buf.readableBytes + 1) codec buf

/-- The chunks come one by one, with a call of `parseRequest` after each. -/
def feed : FastCgiCodec → Buffer → List Bytes → Except Fault (FastCgiCodec × Buffer)
  | codec, buf, [] => return (codec, buf)
  | codec, buf, chunk :: chunks => do
    let buf ← buf.append chunk
    let (codec, buf) ← codec.parseRequest buf
    feed codec buf chunks

/-! ## Records -/

/-- What a record does, by its content. -/
def handle (codec : FastCgiCodec) (header : RecordHeader) (content : Bytes) : Except Fault FastCgiCodec := do
  match FcgiType.ofByte header.type with
  | .kFcgiBeginRequest =>
    if kRecordHeader ≤ header.length.toNat ∧ readInt16 (content.take 2) = kFcgiResponder then
      return { codec with keepConn := content[2]? = some kFcgiKeepConn }
    else return codec
  | .kFcgiParams => return (← codec.onParams content header.length).2
  | .kFcgiStdin => codec.onStdin content header.length
  | _ => return codec

/-- The content of the record in front. -/
def RecordHeader.content (header : RecordHeader) (bytes : Bytes) : Bytes :=
  (bytes.drop kRecordHeader).take header.length.toNat

/-- Memory that is read behind `peek()`. -/
theorem take_drop_memory {b : Buffer} (h : b.Wf) {k n : ℕ} (hle : k + n ≤ b.readableBytes) :
    (b.buffer.drop (b.peek + k)).take n = (b.readable.drop k).take n := by
  have hslice := h.slice_peek hle
  rw [← List.drop_drop, List.take_drop, List.take_drop]
  exact (congrArg (List.drop k) hslice).trans List.take_drop.symm

theorem RecordHeader.length_content {header : RecordHeader} {bytes : Bytes}
    (htotal : header.total ≤ bytes.length) : (header.content bytes).length = header.length.toNat := by
  unfold RecordHeader.total at htotal
  unfold RecordHeader.content
  rw [List.length_take, List.length_drop]
  omega

theorem onBeginRequest_eq {codec : FastCgiCodec} {header : RecordHeader} {buf : Buffer} (hwf : buf.Wf)
    (htotal : header.total ≤ buf.readableBytes) (htype : FcgiType.ofByte header.type = .kFcgiBeginRequest)
    {content : Bytes} (hcontent : content = header.content buf.readable) :
    (do return (← codec.onBeginRequest header buf).2) =
      if kRecordHeader ≤ header.length.toNat ∧ readInt16 (content.take 2) = kFcgiResponder then
        (return { codec with keepConn := content[2]? = some kFcgiKeepConn } : Except Fault FastCgiCodec)
      else return codec := by
  have hlength := RecordHeader.length_content (hwf.length_readable.symm ▸ htotal)
  unfold RecordHeader.total at htotal
  have hmemory := take_drop_memory hwf
    (show kRecordHeader + header.length.toNat ≤ buf.readableBytes by omega)
  rw [RecordHeader.content, ← hmemory] at hcontent hlength
  rw [← hcontent] at hlength
  unfold onBeginRequest
  rw [check_of (by omega), ok_bind, check_of htype, ok_bind]
  by_cases hlong : kRecordHeader ≤ header.length.toNat
  · have height : 8 ≤ header.length.toNat := hlong
    have hrole : Vec.slice buf.buffer (buf.peek + kRecordHeader) (buf.peek + kRecordHeader + 2) =
        content.take 2 := by
      rw [hcontent, List.take_take, min_eq_left (by omega), List.take_drop, Vec.slice]
    have hflags : buf.buffer[buf.peek + kRecordHeader + 2]? = content[2]? := by
      rw [hcontent, List.getElem?_take_of_lt (by omega), List.getElem?_drop]
    obtain ⟨flags, hflag⟩ : ∃ flags, content[2]? = some flags :=
      ⟨_, List.getElem?_eq_getElem (by omega)⟩
    rw [if_pos hlong]
    dsimp only
    rw [hrole, hflags, hflag]
    by_cases hresponder : readInt16 (content.take 2) = kFcgiResponder
    · rw [if_pos ⟨hlong, hresponder⟩]
      dsimp only
      rw [if_pos hresponder]
      simp only [Option.some.injEq]
      rfl
    · rw [if_neg (fun h => hresponder h.2)]
      dsimp only
      rw [if_neg hresponder]
      rfl
  · rw [if_neg hlong, if_neg (fun h => hlong h.1)]
    rfl

theorem onRecord_eq {codec : FastCgiCodec} {header : RecordHeader} {buf : Buffer} (hwf : buf.Wf)
    (htotal : header.total ≤ buf.readableBytes) :
    codec.onRecord header buf = codec.handle header (header.content buf.readable) := by
  have hle : kRecordHeader + header.length.toNat ≤ buf.readableBytes := by
    unfold RecordHeader.total at htotal
    omega
  have hcontent := take_drop_memory hwf hle
  unfold onRecord handle
  dsimp only
  cases htype : FcgiType.ofByte header.type with
  | kFcgiBeginRequest => exact onBeginRequest_eq hwf htotal htype rfl
  | kFcgiParams =>
    dsimp only
    unfold onParams
    rw [hcontent, RecordHeader.content, List.take_take, min_self]
  | kFcgiStdin =>
    dsimp only
    unfold onStdin
    rw [hcontent, RecordHeader.content, List.take_take, min_self]
  | _ => rfl

/-! ## The loop -/

theorem load_isOk {bytes : Bytes} (h : bytes.length = kRecordHeader) :
    ∃ header, RecordHeader.load bytes = .ok header := by
  match bytes, h with
  | [_, _, _, _, _, _, _, _], _ => exact ⟨_, rfl⟩

/-- A round of the loop, on the bytes that are there. -/
def step (codec : FastCgiCodec) (bytes : Bytes) : Except Fault (Option (FastCgiCodec × ℕ)) :=
  if kRecordHeader ≤ bytes.length then do
    let header ← RecordHeader.load (bytes.take kRecordHeader)
    if header.total ≤ bytes.length then
      let codec ← codec.handle header (header.content bytes)
      return some (codec, header.total)
    else return none
  else return none

theorem step_le_length {codec codec' : FastCgiCodec} {bytes : Bytes} {n : ℕ}
    (h : step codec bytes = .ok (some (codec', n))) : kRecordHeader ≤ n ∧ n ≤ bytes.length := by
  unfold step at h
  by_cases hheader : kRecordHeader ≤ bytes.length
  · rw [if_pos hheader] at h
    obtain ⟨header, -, h⟩ := bind_eq_ok.1 h
    by_cases htotal : header.total ≤ bytes.length
    · rw [if_pos htotal] at h
      obtain ⟨codec₁, -, h⟩ := bind_eq_ok.1 h
      cases h
      exact ⟨by unfold RecordHeader.total; omega, htotal⟩
    · rw [if_neg htotal] at h
      cases h
  · rw [if_neg hheader] at h
    cases h

theorem step_append {codec : FastCgiCodec} {bytes : Bytes} (more : Bytes)
    (h : step codec bytes ≠ .ok none) : step codec (bytes ++ more) = step codec bytes := by
  unfold step at h ⊢
  by_cases hheader : kRecordHeader ≤ bytes.length
  · obtain ⟨header, hload⟩ := load_isOk (List.length_take_of_le hheader)
    rw [if_pos hheader, hload, ok_bind] at h ⊢
    have htotal : header.total ≤ bytes.length := by
      by_contra hshort
      exact h (if_neg hshort)
    have hcontent : header.content (bytes ++ more) = header.content bytes := by
      unfold RecordHeader.total at htotal
      unfold RecordHeader.content
      rw [List.drop_append_of_le_length hheader, List.take_append_of_le_length]
      rw [List.length_drop]
      omega
    rw [List.take_append_of_le_length hheader, hload, ok_bind, List.length_append,
      if_pos (by omega), if_pos (by omega), if_pos htotal, hcontent]
  · exact absurd (if_neg hheader) h

/-- The codec as a reader of records. -/
def reader : Framing.Reader FastCgiCodec Byte Fault where
  step := step
  le_length := fun h => (step_le_length h).2
  step_append := step_append

open Framing

/-- A round is a step of the reader. -/
theorem parseLoop_eq {buf : Buffer} (hwf : buf.Wf) (codec : FastCgiCodec) (fuel : ℕ) :
    parseLoop (fuel + 1) codec buf = (do
      match ← step codec buf.readable with
      | some (codec, n) =>
        let buf ← buf.retrieve n
        parseLoop fuel codec buf
      | none => return (codec, buf)) := by
  rw [parseLoop]
  unfold step
  rw [hwf.length_readable]
  by_cases hheader : kRecordHeader ≤ buf.readableBytes
  · rw [if_pos hheader, if_pos hheader, hwf.slice_peek hheader]
    have hlength : (buf.readable.take kRecordHeader).length = kRecordHeader := by
      rw [List.length_take_of_le]
      rwa [hwf.length_readable]
    obtain ⟨header, hload⟩ := load_isOk hlength
    rw [hload, ok_bind, ok_bind]
    by_cases htotal : header.total ≤ buf.readableBytes
    · rw [if_pos htotal, if_pos htotal, onRecord_eq hwf htotal]
      cases codec.handle header (header.content buf.readable) <;> rfl
    · rw [if_neg htotal, if_neg htotal]
      rfl
  · rw [if_neg hheader, if_neg hheader]
    rfl

/-- The loop takes the records that are there. -/
theorem parseLoop_drains {codec codec' : FastCgiCodec} {bytes rest : Bytes}
    (h : Drains reader codec bytes codec' rest) {buf : Buffer} (hwf : buf.Wf) (hread : buf.readable = bytes)
    {fuel : ℕ} (hfuel : bytes.length < fuel) :
    ∃ buf', parseLoop fuel codec buf = .ok (codec', buf') ∧ buf'.Wf ∧ buf'.readable = rest := by
  induction h generalizing buf fuel with
  | @wait codec bytes h =>
    obtain ⟨fuel, rfl⟩ : ∃ k, fuel = k + 1 := ⟨fuel - 1, by omega⟩
    refine ⟨buf, ?_, hwf, hread⟩
    rw [parseLoop_eq hwf, hread, show step codec bytes = _ from h]
    rfl
  | @take codec bytes codec₁ n codec₂ rest h _ ih =>
    obtain ⟨fuel, rfl⟩ : ∃ k, fuel = k + 1 := ⟨fuel - 1, by omega⟩
    obtain ⟨hpos, hle⟩ := step_le_length h
    obtain ⟨buf₁, hretrieve, hwf₁, hread₁⟩ := hwf.retrieve (show n ≤ buf.readableBytes by
      rw [← hwf.length_readable, hread]
      exact hle)
    rw [hread] at hread₁
    obtain ⟨buf₂, hloop, hwf₂, hread₂⟩ := ih hwf₁ hread₁ (show (bytes.drop n).length < fuel by
      unfold kRecordHeader at hpos
      rw [List.length_drop]
      omega)
    refine ⟨buf₂, ?_, hwf₂, hread₂⟩
    rw [parseLoop_eq hwf, hread, show step codec bytes = _ from h, ok_bind]
    dsimp only
    rw [hretrieve, ok_bind]
    exact hloop

/-- The chunks of a stream give the state that the stream as a whole gives. -/
theorem feed_drains {codec codec' : FastCgiCodec} {chunks : List Bytes} {rest : Bytes} {buf : Buffer}
    (hwf : buf.Wf) (hwait : step codec buf.readable = .ok none)
    (h : Drains reader codec (buf.readable ++ chunks.flatten) codec' rest) :
    ∃ buf', feed codec buf chunks = .ok (codec', buf') ∧ buf'.Wf ∧ buf'.readable = rest := by
  induction chunks generalizing codec buf with
  | nil =>
    rw [List.flatten_nil, List.append_nil] at h
    cases h with
    | wait _ => exact ⟨buf, rfl, hwf, rfl⟩
    | take hstep _ =>
      rw [show step codec buf.readable = _ from hstep] at hwait
      cases hwait
  | cons chunk chunks ih =>
    obtain ⟨buf₁, happend, hwf₁, hread₁⟩ := hwf.append chunk
    rw [List.flatten_cons, ← List.append_assoc, ← hread₁] at h
    obtain ⟨codec₁, rest₁, hfirst, hsecond⟩ := h.split
    obtain ⟨buf₂, hloop, hwf₂, hread₂⟩ := parseLoop_drains hfirst hwf₁ rfl
      (show buf₁.readable.length < buf₁.readableBytes + 1 by rw [hwf₁.length_readable]; omega)
    rw [← hread₂] at hsecond
    obtain ⟨buf₃, hfeed, hwf₃, hread₃⟩ := ih hwf₂ (hread₂ ▸ hfirst.waits) hsecond
    refine ⟨buf₃, ?_, hwf₃, hread₃⟩
    rw [feed, happend, ok_bind, parseRequest, hloop, ok_bind]
    exact hfeed

end FastCgiCodec

end Reactor
