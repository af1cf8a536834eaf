import Reactor.FastCgi

/-!
# Responses of FastCgiCodec

`respond` turns the content of a buffer into a response: a STDOUT record around it, an empty STDOUT
record and an END_REQUEST record.  The length of a record has 16 bits, and `respond` makes one record
of the content or none: from 65536 bytes on it puts no header in front, and the peer takes the
content for records.
-/

namespace Reactor

/-- The number of a type. -/
def FcgiType.toByte : FcgiType → Byte
  | .kFcgiInvalid => 0
  | .kFcgiBeginRequest => 1
  | .kFcgiAbortRequest => 2
  | .kFcgiEndRequest => 3
  | .kFcgiParams => 4
  | .kFcgiStdin => 5
  | .kFcgiStdout => 6
  | .kFcgiStderr => 7
  | .kFcgiData => 8
  | .kFcgiGetValues => 9
  | .kFcgiGetValuesResult => 10

namespace FastCgiCodec

open Endian (hostToNetwork16)

/-- The memory of a header whose fields are in the order of the network. -/
def RecordHeader.memory (header : RecordHeader) : Bytes :=
  [header.version, header.type] ++ LittleEndian.toBytes 2 header.id.toNat ++
    LittleEndian.toBytes 2 header.length.toNat ++ [header.padding, header.unused]

def endStdout (buf : Buffer) : Except Fault Buffer :=
  let header : RecordHeader := ⟨1, FcgiType.kFcgiStdout.toByte, hostToNetwork16 1, 0, 0, 0⟩
  buf.append header.memory

def endRequest (buf : Buffer) : Except Fault Buffer := do
  let header : RecordHeader := ⟨1, FcgiType.kFcgiEndRequest.toByte, hostToNetwork16 1,
    hostToNetwork16 (.ofNat kRecordHeader), 0, 0⟩
  let buf ← buf.append header.memory
  let buf ← buf.appendInt32 0
  buf.appendInt32 0

/-- `static_cast<uint8_t>(-response->readableBytes() & 7)`, of a `size_t`. -/
def padding (readableBytes : ℕ) : Byte := (-(UInt64.ofNat readableBytes) &&& 7).toUInt8

def respond (response : Buffer) : Except Fault Buffer := do
  let response ←
    if response.readableBytes < 65536 ∧ kRecordHeader ≤ response.prependableBytes then do
      let header : RecordHeader := ⟨1, FcgiType.kFcgiStdout.toByte, hostToNetwork16 1,
        hostToNetwork16 (.ofNat response.readableBytes), padding response.readableBytes, 0⟩
      let response ← response.prepend header.memory
      response.append ((List.replicate 8 0).take header.padding.toNat)
    else pure response
  let response ← endStdout response
  endRequest response

/-! ## Records -/

/-- A record of version 1 for the request 1. -/
structure Record where
  type : FcgiType
  content : Bytes
  padding : Bytes
  unused : Byte
  content_lt : content.length < 2 ^ 16
  padding_lt : padding.length < 2 ^ 8

def Record.header (r : Record) : Bytes :=
  [1, r.type.toByte] ++ BigEndian.toBytes 2 1 ++ BigEndian.toBytes 2 r.content.length ++
    [UInt8.ofNat r.padding.length, r.unused]

def Record.bytes (r : Record) : Bytes := r.header ++ (r.content ++ r.padding)

/-- The stream is STDOUT records with this content, an empty STDOUT record and an END_REQUEST record of
eight bytes, all of them of a length that eight divides. -/
def IsResponse (content stream : Bytes) : Prop :=
  ∃ (outs : List Record) (last final : Record),
    (∀ r ∈ outs, r.type = .kFcgiStdout) ∧ (outs.map Record.content).flatten = content ∧
    last.type = .kFcgiStdout ∧ last.content = [] ∧
    final.type = .kFcgiEndRequest ∧ final.content.length = 8 ∧
    (∀ r ∈ outs ++ [last, final], r.bytes.length % 8 = 0) ∧
    stream = (outs ++ [last, final]).flatMap Record.bytes

theorem noContent_lt : ([] : Bytes).length < 2 ^ 16 := by decide

theorem noPadding_lt : ([] : Bytes).length < 2 ^ 8 := by decide

theorem eightZeros_lt : (List.replicate 8 (0 : Byte)).length < 2 ^ 16 := by decide

/-- What `endStdout` appends. -/
def stdoutEnd : Record := ⟨.kFcgiStdout, [], [], 0, noContent_lt, noPadding_lt⟩

/-- What `endRequest` appends. -/
def requestEnd : Record := ⟨.kFcgiEndRequest, List.replicate 8 0, [], 0, eightZeros_lt, noPadding_lt⟩

/-- The record around the content. -/
def stdoutRecord (content : Bytes) (h : content.length < 2 ^ 16) : Record :=
  ⟨.kFcgiStdout, content, List.replicate ((8 - content.length % 8) % 8) 0, 0, h, by
    rw [List.length_replicate]
    omega⟩

theorem bytes_stdoutRecord (content : Bytes) (h : content.length < 2 ^ 16) :
    (stdoutRecord content h).bytes =
      (stdoutRecord content h).header ++ (content ++ (stdoutRecord content h).padding) := rfl

theorem Record.length_bytes (r : Record) :
    r.bytes.length = 8 + r.content.length + r.padding.length := by
  unfold Record.bytes Record.header
  simp only [List.length_append, List.length_cons, List.length_nil, BigEndian.length_toBytes]
  omega

/-! ## What respond writes -/

theorem toNat_padding (n : ℕ) : (padding n).toNat = (8 - n % 8) % 8 := by
  have hmask : (-(UInt64.ofNat n) &&& 7).toNat = (8 - n % 8) % 8 := by
    have hand := Nat.and_two_pow_sub_one_eq_mod (-(UInt64.ofNat n)).toNat 3
    rw [UInt64.toNat_and, show (7 : UInt64).toNat = 2 ^ 3 - 1 from rfl, hand, UInt64.toNat_neg,
      UInt64.toNat_ofNat', UInt64.size]
    omega
  rw [padding, UInt64.toNat_toUInt8, hmask]
  omega

/-- Header fields in network order are stored with the high byte first. -/
theorem toBytes_hostToNetwork16 {n : ℕ} (h : n < 2 ^ 16) :
    LittleEndian.toBytes 2 (hostToNetwork16 (.ofNat n)).toNat = BigEndian.toBytes 2 n := by
  rw [Endian.toNat_hostToNetwork16, LittleEndian.toBytes_swap, UInt16.toNat_ofNat_of_lt' h]

theorem endStdout_spec {buf : Buffer} (hwf : buf.Wf) :
    ∃ buf', endStdout buf = .ok buf' ∧ buf'.Wf ∧ buf'.readable = buf.readable ++ stdoutEnd.bytes :=
  hwf.append stdoutEnd.bytes

theorem endRequest_spec {buf : Buffer} (hwf : buf.Wf) :
    ∃ buf', endRequest buf = .ok buf' ∧ buf'.Wf ∧
      buf'.readable = buf.readable ++ requestEnd.bytes := by
  obtain ⟨buf₁, h₁, hwf₁, hread₁⟩ := hwf.append requestEnd.header
  obtain ⟨buf₂, h₂, hwf₂, hread₂⟩ := hwf₁.append (Buffer.SizedInt.int32 0).bigEndian
  obtain ⟨buf₃, h₃, hwf₃, hread₃⟩ := hwf₂.append (Buffer.SizedInt.int32 0).bigEndian
  refine ⟨buf₃, ?_, hwf₃, ?_⟩
  · have hheader : RecordHeader.memory ⟨1, FcgiType.kFcgiEndRequest.toByte, hostToNetwork16 1,
        hostToNetwork16 (.ofNat kRecordHeader), 0, 0⟩ = requestEnd.header := by decide
    rw [← Buffer.SizedInt.append_eq] at h₂ h₃
    unfold endRequest
    dsimp only
    rw [hheader, h₁, ok_bind, show buf₁.appendInt32 0 = .ok buf₂ from h₂, ok_bind]
    exact h₃
  · rw [hread₃, hread₂, hread₁, List.append_assoc, List.append_assoc]
    rfl

/-- The end of every response. -/
theorem respond_end {buf : Buffer} (hwf : buf.Wf) :
    ∃ buf', (do endRequest (← endStdout buf)) = .ok buf' ∧ buf'.Wf ∧
      buf'.readable = buf.readable ++ (stdoutEnd.bytes ++ requestEnd.bytes) := by
  obtain ⟨buf₁, h₁, hwf₁, hread₁⟩ := endStdout_spec hwf
  obtain ⟨buf₂, h₂, hwf₂, hread₂⟩ := endRequest_spec hwf₁
  refine ⟨buf₂, ?_, hwf₂, ?_⟩
  · rw [h₁, ok_bind, h₂]
  · rw [hread₂, hread₁, List.append_assoc]

/-- Below 65536 bytes the content becomes one record. -/
theorem respond_short {response : Buffer} (hwf : response.Wf)
    (hroom : kRecordHeader ≤ response.prependableBytes) (hshort : response.readable.length < 2 ^ 16) :
    ∃ buf, respond response = .ok buf ∧ buf.Wf ∧
      buf.readable = (stdoutRecord response.readable hshort).bytes ++
        (stdoutEnd.bytes ++ requestEnd.bytes) := by
  have hlen : response.readableBytes = response.readable.length := hwf.length_readable.symm
  have hpad : (padding response.readableBytes).toNat = (8 - response.readable.length % 8) % 8 := by
    rw [toNat_padding, hlen]
  have hheader : RecordHeader.memory ⟨1, FcgiType.kFcgiStdout.toByte, hostToNetwork16 1,
      hostToNetwork16 (.ofNat response.readableBytes), padding response.readableBytes, 0⟩ =
      (stdoutRecord response.readable hshort).header := by
    have hpadding : padding response.readableBytes =
        UInt8.ofNat (List.replicate ((8 - response.readable.length % 8) % 8) (0 : Byte)).length := by
      rw [List.length_replicate, ← hpad, UInt8.ofNat_toNat]
    rw [RecordHeader.memory, Record.header, hpadding, hlen]
    dsimp only [stdoutRecord]
    rw [toBytes_hostToNetwork16 hshort]
    rfl
  have hzeros : (List.replicate 8 (0 : Byte)).take (padding response.readableBytes).toNat =
      (stdoutRecord response.readable hshort).padding := by
    rw [List.take_replicate, hpad]
    dsimp only [stdoutRecord]
    congr 1
    omega
  obtain ⟨buf₁, h₁, hwf₁, hread₁⟩ :=
    hwf.prepend (show (stdoutRecord response.readable hshort).header.length ≤ _ from hroom)
  obtain ⟨buf₂, h₂, hwf₂, hread₂⟩ := hwf₁.append (stdoutRecord response.readable hshort).padding
  obtain ⟨buf₃, h₃, hwf₃, hread₃⟩ := respond_end hwf₂
  refine ⟨buf₃, ?_, hwf₃, ?_⟩
  · unfold respond
    rw [if_pos ⟨by omega, hroom⟩]
    dsimp only
    rw [hheader, h₁, ok_bind, hzeros, h₂, ok_bind]
    exact h₃
  · rw [hread₃, hread₂, hread₁, bytes_stdoutRecord]
    simp only [List.append_assoc]

/-- From 65536 bytes on the content stays as it is. -/
theorem respond_long {response : Buffer} (hwf : response.Wf)
    (hlong : 65536 ≤ response.readableBytes) :
    ∃ buf, respond response = .ok buf ∧ buf.Wf ∧
      buf.readable = response.readable ++ (stdoutEnd.bytes ++ requestEnd.bytes) := by
  unfold respond
  rw [if_neg (by omega)]
  exact respond_end hwf

theorem isResponse_stdoutRecord (content : Bytes) (h : content.length < 2 ^ 16) :
    IsResponse content
      ((stdoutRecord content h).bytes ++ (stdoutEnd.bytes ++ requestEnd.bytes)) := by
  refine ⟨[stdoutRecord content h], stdoutEnd, requestEnd, ?_, ?_, rfl, rfl, rfl, rfl, ?_, ?_⟩
  · intro r hr
    obtain rfl := List.mem_singleton.1 hr
    rfl
  · simp [stdoutRecord]
  · have haligned : (stdoutRecord content h).bytes.length % 8 = 0 := by
      rw [Record.length_bytes]
      dsimp only [stdoutRecord]
      rw [List.length_replicate]
      omega
    intro r hr
    simp only [List.singleton_append, List.mem_cons, List.not_mem_nil, or_false] at hr
    rcases hr with rfl | rfl | rfl
    · exact haligned
    · decide
    · decide
  · simp

/-- Records are longer than their contents. -/
theorem length_contents_le (records : List Record) :
    (records.map Record.content).flatten.length + 8 * records.length ≤
      (records.flatMap Record.bytes).length := by
  induction records with
  | nil => simp
  | cons r records ih =>
    have hr := r.length_bytes
    simp only [List.map_cons, List.flatten_cons, List.flatMap_cons, List.length_append,
      List.length_cons]
    omega

/-- A content without a header is not the content of records. -/
theorem not_isResponse {content : Bytes} (h : content ≠ []) :
    ¬ IsResponse content (content ++ (stdoutEnd.bytes ++ requestEnd.bytes)) := by
  rintro ⟨outs, last, final, -, hcontent, -, hlast, -, hfinal, -, hstream⟩
  have hlen := congrArg List.length hstream
  have houts := length_contents_le outs
  have hl := last.length_bytes
  have hf := final.length_bytes
  have hend : (stdoutEnd.bytes ++ requestEnd.bytes).length = 24 := by decide
  rw [hcontent] at houts
  rw [hlast, List.length_nil] at hl
  simp only [List.flatMap_append, List.flatMap_cons, List.flatMap_nil, List.append_nil,
    List.length_append] at hlen hend
  have hnone : outs = [] := List.length_eq_zero_iff.1 (by omega)
  rw [hnone] at hcontent
  exact h hcontent.symm

/-- `respond` returns on every buffer with room for a header, and what it leaves is a response with
the content of the buffer exactly when that is shorter than 65536 bytes. -/
theorem respond_isResponse_iff (response : Buffer) (hwf : response.Wf)
    (hroom : 8 ≤ response.prependableBytes) :
    ∃ buf, respond response = .ok buf ∧ buf.Wf ∧
      (IsResponse response.readable buf.readable ↔ response.readableBytes < 65536) := by
  by_cases hshort : response.readableBytes < 65536
  · have hlt : response.readable.length < 2 ^ 16 := by
      rw [hwf.length_readable]
      omega
    obtain ⟨buf, hbuf, hwf', hread⟩ := respond_short hwf hroom hlt
    refine ⟨buf, hbuf, hwf', fun _ => hshort, fun _ => ?_⟩
    rw [hread]
    exact isResponse_stdoutRecord response.readable hlt
  · obtain ⟨buf, hbuf, hwf', hread⟩ := respond_long hwf (Nat.le_of_not_lt hshort)
    refine ⟨buf, hbuf, hwf', fun h => ?_, fun h => absurd h hshort⟩
    rw [hread] at h
    refine absurd h (not_isResponse fun hnil => ?_)
    have hlen := hwf.length_readable
    rw [hnil, List.length_nil] at hlen
    omega

/-- Five bytes behind the usual eight. -/
def fiveBytes : Buffer := ⟨List.replicate 8 0 ++ ascii "hello", 8, 13⟩

theorem respond_isResponse_iff_fiveBytes :
    ∃ buf, respond fiveBytes = .ok buf ∧ IsResponse (ascii "hello") buf.readable := by
  obtain ⟨buf, hbuf, -, hiff⟩ := respond_isResponse_iff fiveBytes
    ⟨by decide, by decide, by decide⟩ (by decide)
  exact ⟨buf, hbuf, hiff.2 (by decide)⟩

/-- A response of 65536 bytes is sent without a header. -/
theorem respond_not_isResponse :
    ¬ ∀ response : Buffer, response.Wf → 8 ≤ response.prependableBytes →
      ∃ buf, respond response = .ok buf ∧ IsResponse response.readable buf.readable := by
  intro h
  let response : Buffer := ⟨List.replicate (8 + 65536) 0, 8, 8 + 65536⟩
  have hsize : response.buffer.length = 8 + 65536 := List.length_replicate
  have hwf : response.Wf := ⟨by simp [response], hsize.ge, by rw [hsize]; decide⟩
  have hlong : 65536 ≤ response.readableBytes := by simp [response, Buffer.readableBytes]
  obtain ⟨buf, hbuf, hresponse⟩ := h response hwf le_rfl
  obtain ⟨buf', hbuf', -, hread⟩ := respond_long hwf hlong
  obtain rfl : buf = buf' := Except.ok.inj (hbuf.symm.trans hbuf')
  rw [hread] at hresponse
  refine not_isResponse (fun hnil => ?_) hresponse
  have hlen := hwf.length_readable
  rw [hnil, List.length_nil] at hlen
  omega

end FastCgiCodec

end Reactor
