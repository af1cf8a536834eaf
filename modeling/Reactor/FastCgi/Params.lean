import Reactor.FastCgi

/-!
# The parameters of a request

Names and values are encoded with their lengths in front: a length below 128 in one byte, a longer one
in four, with the top bit set.  `readLen` does not read the four bytes.

* `params_decode_iff_short`: lengths below 128 are decoded, however the encoding is cut into records
  and the records into chunks; the map is lost as soon as there is a longer one.
-/

namespace Reactor

namespace FastCgiCodec

/-- A length of the name-value format. -/
def encodeLen (n : ℕ) : Bytes := if n < 128 then [UInt8.ofNat n] else BigEndian.toBytes 4 (2 ^ 31 + n)

def encodePair (pair : Bytes × Bytes) : Bytes :=
  encodeLen pair.1.length ++ (encodeLen pair.2.length ++ (pair.1 ++ pair.2))

def encode (pairs : List (Bytes × Bytes)) : Bytes := pairs.flatMap encodePair

/-- A PARAMS record. -/
structure ParamsRecord where
  version : Byte
  id : UInt16
  content : Bytes
  padding : Bytes
  unused : Byte
  content_lt : content.length < 2 ^ 16
  padding_lt : padding.length < 2 ^ 8

def ParamsRecord.header (r : ParamsRecord) : Bytes :=
  [r.version, 4] ++ BigEndian.toBytes 2 r.id.toNat ++ BigEndian.toBytes 2 r.content.length ++
    [UInt8.ofNat r.padding.length, r.unused]

def ParamsRecord.bytes (r : ParamsRecord) : Bytes := r.header ++ (r.content ++ r.padding)

/-- The names and values are the map, and nothing is left of the stream. -/
def Decodes (pairs : List (Bytes × Bytes)) (chunks : List Bytes) : Prop :=
  ∃ codec buf, feed new .empty chunks = .ok (codec, buf) ∧ codec.params = (pairs.lookup ·) ∧
    codec.paramsStream.readable = []

/-- Every length is below 128. -/
def Short (pairs : List (Bytes × Bytes)) : Prop :=
  ∀ pair ∈ pairs, pair.1.length < 128 ∧ pair.2.length < 128

/-! ## Lengths -/

variable {codec : FastCgiCodec} {b : Byte} {n : ℕ} {rest : Bytes}

theorem peekInt8_cons {buf : Buffer} (hwf : buf.Wf) (hread : buf.readable = b :: rest) :
    buf.peekInt8 = .ok b.toInt8 := by
  have hmemory := hwf.peekMemory (show buf.readable = [b] ++ rest from hread) (List.length_singleton)
  have hbyte : UInt8.ofNat (LittleEndian.ofBytes [b]) = b := by
    show UInt8.ofNat (256 * 0 + b.toNat) = b
    rw [mul_zero, zero_add, UInt8.ofNat_toNat]
  unfold Buffer.peekInt8
  rw [hmemory, ok_bind, hbyte]
  rfl

theorem and_0x80_of_lt (hn : n < 128) : UInt8.ofNat n &&& 0x80 = 0 := by
  have h : ∀ n : Fin 128, UInt8.ofNat n &&& 0x80 = 0 := by decide
  exact h ⟨n, hn⟩

theorem toUInt32_of_lt (hn : n < 128) : (UInt8.ofNat n).toInt8.toInt32.toUInt32 = UInt32.ofNat n := by
  have h : ∀ n : Fin 128, (UInt8.ofNat n).toInt8.toInt32.toUInt32 = UInt32.ofNat n := by decide
  exact h ⟨n, hn⟩

/-- A length below 128 is taken from the stream. -/
theorem readLen_short (codec : FastCgiCodec) (hwf : codec.paramsStream.Wf) (hn : n < 128)
    (hread : codec.paramsStream.readable = UInt8.ofNat n :: rest) :
    ∃ stream, codec.readLen = .ok (.ofNat n, { codec with paramsStream := stream }) ∧ stream.Wf ∧
      stream.readable = rest := by
  have hle : 1 ≤ codec.paramsStream.readableBytes := by
    rw [← hwf.length_readable, hread, List.length_cons]
    omega
  obtain ⟨stream, hretrieve, hwf', hread'⟩ := hwf.retrieve hle
  rw [hread] at hread'
  refine ⟨stream, ?_, hwf', hread'⟩
  unfold readLen Buffer.readInt8 Buffer.retrieveInt8
  rw [if_pos hle, peekInt8_cons hwf hread, ok_bind, ok_bind, hretrieve, ok_bind, UInt8.toUInt8_toInt8]
  dsimp only
  rw [and_0x80_of_lt hn, if_neg (by decide), pure_bind]
  dsimp only
  rw [toUInt32_of_lt hn]
  rfl

theorem and_0x80_of_le (hn : n < 128) : UInt8.ofNat (128 + n) &&& 0x80 ≠ 0 := by
  have h : ∀ n : Fin 128, UInt8.ofNat (128 + n) &&& 0x80 ≠ 0 := by decide
  exact h ⟨n, hn⟩

/-- The four bytes of a longer length; the first one has the top bit. -/
theorem encodeLen_long (hn : 128 ≤ n) (hn' : n < 2 ^ 31) :
    ∃ b bytes, encodeLen n = b :: bytes ∧ bytes.length = 3 ∧ b &&& 0x80 ≠ 0 := by
  have hfirst : (2 ^ 31 + n) / 256 / 256 / 256 = 128 + n / 2 ^ 24 := by omega
  have hbytes : encodeLen n = UInt8.ofNat ((2 ^ 31 + n) / 256 / 256 / 256) ::
      [UInt8.ofNat ((2 ^ 31 + n) / 256 / 256), UInt8.ofNat ((2 ^ 31 + n) / 256), UInt8.ofNat (2 ^ 31 + n)] :=
    if_neg (by omega)
  rw [hfirst] at hbytes
  exact ⟨_, _, hbytes, rfl, and_0x80_of_le (by omega)⟩

/-- Of a longer one only the first byte is looked at, and the length is that of the stream. -/
theorem readLen_long (codec : FastCgiCodec) (hwf : codec.paramsStream.Wf) (hn : 128 ≤ n) (hn' : n < 2 ^ 31)
    (hread : codec.paramsStream.readable = encodeLen n ++ rest) :
    codec.readLen = .ok (.ofNat (codec.paramsStream.readable.length % 2 ^ 31), codec) := by
  obtain ⟨b, bytes, hbytes, hlength, hbit⟩ := encodeLen_long hn hn'
  rw [hbytes, List.cons_append] at hread
  have hle : 4 ≤ codec.paramsStream.readableBytes := by
    rw [← hwf.length_readable, hread, List.length_cons, List.length_append]
    omega
  unfold readLen
  rw [if_pos (by omega), peekInt8_cons hwf hread, ok_bind, UInt8.toUInt8_toInt8]
  dsimp only
  rw [if_pos hbit, if_pos hle, hwf.length_readable]
  exact congrArg (fun k => Except.ok (UInt32.ofNat k, codec))
    (Nat.and_two_pow_sub_one_eq_mod codec.paramsStream.readableBytes 31)

/-! ## Pairs -/

/-- The assignments `params_[name] = value`. -/
def insertAll (params : Bytes → Option Bytes) (pairs : List (Bytes × Bytes)) : Bytes → Option Bytes :=
  pairs.foldl (fun params pair => Function.update params pair.1 (some pair.2)) params

theorem insertAll_eq {pairs : List (Bytes × Bytes)} (hdistinct : (pairs.map Prod.fst).Nodup)
    (params : Bytes → Option Bytes) (name : Bytes) :
    insertAll params pairs name = (pairs.lookup name).or (params name) := by
  induction pairs generalizing params with
  | nil => rfl
  | cons pair pairs ih =>
    obtain ⟨key, value⟩ := pair
    rw [List.map_cons, List.nodup_cons] at hdistinct
    have hrest := ih hdistinct.2 (Function.update params key (some value))
    rw [show insertAll params ((key, value) :: pairs) =
      insertAll (Function.update params key (some value)) pairs from rfl, hrest, List.lookup_cons]
    by_cases hname : name = key
    · subst hname
      have hnone : pairs.lookup name = none := by
        rw [List.lookup_eq_none_iff]
        intro pair hmem
        rw [bne_iff_ne]
        rintro rfl
        exact hdistinct.1 (List.mem_map.2 ⟨pair, hmem, rfl⟩)
      rw [hnone, Function.update_self, beq_self_eq_true]
      rfl
    · rw [Function.update_of_ne hname, beq_false_of_ne hname]

variable {pair : Bytes × Bytes} {pairs : List (Bytes × Bytes)} {fuel : ℕ}

theorem encodeLen_of_lt (hn : n < 128) : encodeLen n = [UInt8.ofNat n] := if_pos hn

theorem toNat_ofNat_of_lt (hn : n < 2 ^ 31) : (UInt32.ofNat n).toNat = n :=
  UInt32.toNat_ofNat_of_lt' (lt_trans hn (by decide))

/-- No length is taken for the error. -/
theorem ofNat_ne_error (hn : n < 2 ^ 31) : UInt32.ofNat n ≠ 0xffffffff := by
  intro h
  have hnat := congrArg UInt32.toNat h
  rw [toNat_ofNat_of_lt hn] at hnat
  have herror : (0xffffffff : UInt32).toNat = 4294967295 := rfl
  omega

section Round

variable {codec₁ codec₂ : FastCgiCodec} {nameLen valueLen : ℕ}

/-- A round of the loop whose lengths were read, with the bytes for them. -/
theorem parseParams_pair (fuel : ℕ) (hpos : 0 < codec.paramsStream.readableBytes) {name value : Bytes}
    (hname : codec.readLen = .ok (.ofNat name.length, codec₁))
    (hvalue : codec₁.readLen = .ok (.ofNat value.length, codec₂))
    (hname' : name.length < 2 ^ 31) (hvalue' : value.length < 2 ^ 31) (hwf : codec₂.paramsStream.Wf)
    (hread : codec₂.paramsStream.readable = name ++ (value ++ rest)) :
    ∃ stream, stream.Wf ∧ stream.readable = rest ∧ parseParams (fuel + 1) codec =
      parseParams fuel { codec₂ with
        paramsStream := stream
        params := Function.update codec₂.params name (some value) } := by
  have hbytes : codec₂.paramsStream.readableBytes = name.length + (value.length + rest.length) := by
    rw [← hwf.length_readable, hread, List.length_append, List.length_append]
  have hsum : (UInt32.ofNat name.length + UInt32.ofNat value.length).toNat ≤
      codec₂.paramsStream.readableBytes := by
    rw [← UInt32.ofNat_add, UInt32.toNat_ofNat_of_lt' (show _ < 2 ^ 32 by omega)]
    omega
  obtain ⟨stream₁, hstring₁, hwf₁, hread₁⟩ := hwf.retrieveAsString
    (show name.length ≤ codec₂.paramsStream.readableBytes by omega)
  rw [hread, List.take_left] at hstring₁
  rw [hread, List.drop_left] at hread₁
  obtain ⟨stream₂, hstring₂, hwf₂, hread₂⟩ := hwf₁.retrieveAsString
    (show value.length ≤ stream₁.readableBytes by
      rw [← hwf₁.length_readable, hread₁, List.length_append]
      omega)
  rw [hread₁, List.take_left] at hstring₂
  rw [hread₁, List.drop_left] at hread₂
  refine ⟨stream₂, hwf₂, hread₂, ?_⟩
  rw [parseParams, if_pos hpos, hname, ok_bind]
  dsimp only
  rw [if_neg (ofNat_ne_error hname'), hvalue, ok_bind]
  dsimp only
  rw [if_neg (ofNat_ne_error hvalue'), if_pos hsum, toNat_ofNat_of_lt hname',
    toNat_ofNat_of_lt hvalue', hstring₁, ok_bind]
  dsimp only
  rw [hstring₂, ok_bind]

/-- A round whose lengths are more than what is left. -/
theorem parseParams_incomplete (fuel : ℕ) (hpos : 0 < codec.paramsStream.readableBytes)
    (hname : codec.readLen = .ok (.ofNat nameLen, codec₁))
    (hvalue : codec₁.readLen = .ok (.ofNat valueLen, codec₂))
    (hname' : nameLen < 2 ^ 31) (hvalue' : valueLen < 2 ^ 31)
    (hless : codec₂.paramsStream.readableBytes < nameLen + valueLen) :
    parseParams (fuel + 1) codec = .ok (false, codec₂) := by
  have hsum : ¬ (UInt32.ofNat nameLen + UInt32.ofNat valueLen).toNat ≤
      codec₂.paramsStream.readableBytes := by
    rw [← UInt32.ofNat_add, UInt32.toNat_ofNat_of_lt' (show _ < 2 ^ 32 by omega)]
    omega
  rw [parseParams, if_pos hpos, hname, ok_bind]
  dsimp only
  rw [if_neg (ofNat_ne_error hname'), hvalue, ok_bind]
  dsimp only
  rw [if_neg (ofNat_ne_error hvalue'), if_neg hsum]
  rfl

end Round

/-- A round of the loop on a short name and a short value. -/
theorem parseParams_short (fuel : ℕ) (hwf : codec.paramsStream.Wf) (hname : pair.1.length < 128)
    (hvalue : pair.2.length < 128) (hread : codec.paramsStream.readable = encodePair pair ++ rest) :
    ∃ stream, stream.Wf ∧ stream.readable = rest ∧ parseParams (fuel + 1) codec =
      parseParams fuel { codec with
        paramsStream := stream
        params := Function.update codec.params pair.1 (some pair.2) } := by
  obtain ⟨name, value⟩ := pair
  dsimp only at hname hvalue ⊢
  unfold encodePair at hread
  dsimp only at hread
  rw [encodeLen_of_lt hname, encodeLen_of_lt hvalue, List.append_assoc, List.append_assoc,
    List.append_assoc, List.singleton_append, List.singleton_append] at hread
  have hpos : 0 < codec.paramsStream.readableBytes := by
    rw [← hwf.length_readable, hread, List.length_cons]
    omega
  obtain ⟨stream₁, hlen₁, hwf₁, hread₁⟩ := readLen_short codec hwf hname hread
  obtain ⟨stream₂, hlen₂, hwf₂, hread₂⟩ :=
    readLen_short { codec with paramsStream := stream₁ } hwf₁ hvalue hread₁
  obtain ⟨stream, hwf', hread', hround⟩ :=
    parseParams_pair fuel hpos hlen₁ hlen₂ (by omega) (by omega) hwf₂ hread₂
  exact ⟨stream, hwf', hread', hround⟩

theorem length_encodePair_pos (pair : Bytes × Bytes) : 0 < (encodePair pair).length := by
  have hlen : 0 < (encodeLen pair.1.length).length := by
    unfold encodeLen
    split_ifs
    · exact Nat.one_pos
    · rw [BigEndian.length_toBytes]
      omega
  rw [encodePair, List.length_append]
  omega

/-- The loop on short names and values, with anything behind them. -/
theorem parseParams_of_short (hwf : codec.paramsStream.Wf) (hshort : Short pairs)
    (hread : codec.paramsStream.readable = encode pairs ++ rest) (hfuel : (encode pairs ++ rest).length < fuel) :
    ∃ stream fuel', stream.Wf ∧ stream.readable = rest ∧ rest.length < fuel' ∧ parseParams fuel codec =
      parseParams fuel' { codec with
        paramsStream := stream
        params := insertAll codec.params pairs } := by
  induction pairs generalizing codec fuel with
  | nil => exact ⟨codec.paramsStream, fuel, hwf, hread, hfuel, rfl⟩
  | cons pair pairs ih =>
    obtain ⟨fuel, rfl⟩ : ∃ k, fuel = k + 1 := ⟨fuel - 1, by omega⟩
    obtain ⟨hname, hvalue⟩ := hshort pair List.mem_cons_self
    rw [encode, List.flatMap_cons, List.append_assoc] at hread hfuel
    obtain ⟨stream, hwf', hread', hround⟩ := parseParams_short fuel hwf hname hvalue hread
    have hpos := length_encodePair_pos pair
    have hfuel' : (encode pairs ++ rest).length < fuel := by
      rw [List.length_append] at hfuel
      unfold encode
      omega
    obtain ⟨stream', fuel', hwf'', hread'', hfuel'', hrounds⟩ := ih
      (show Buffer.Wf { codec with
          paramsStream := stream
          params := Function.update codec.params pair.1 (some pair.2) : FastCgiCodec}.paramsStream from hwf')
      (fun pair' hmem => hshort pair' (List.mem_cons_of_mem _ hmem)) hread' hfuel'
    exact ⟨stream', fuel', hwf'', hread'', hfuel'', hround.trans hrounds⟩

/-- The short pairs in front of anything, from the beginning of `parseAllParams`. -/
theorem parseAllParams_of_short (hwf : codec.paramsStream.Wf) (hshort : Short pairs)
    (hread : codec.paramsStream.readable = encode pairs ++ rest) :
    ∃ stream fuel, stream.Wf ∧ stream.readable = rest ∧ rest.length ≤ fuel ∧ codec.parseAllParams =
      parseParams (fuel + 1) { codec with
        paramsStream := stream
        params := insertAll codec.params pairs } := by
  have hfuel : (encode pairs ++ rest).length < codec.paramsStream.readableBytes + 1 := by
    rw [← hwf.length_readable, hread]
    exact Nat.lt_succ_self _
  obtain ⟨stream, fuel, hwf', hread', hfuel', hparse⟩ := parseParams_of_short hwf hshort hread hfuel
  obtain ⟨fuel, rfl⟩ : ∃ k, fuel = k + 1 := ⟨fuel - 1, by omega⟩
  exact ⟨stream, fuel, hwf', hread', by omega, hparse⟩

/-- A long name stays in the stream. -/
theorem parseParams_long_name (codec : FastCgiCodec) (fuel : ℕ) (hwf : codec.paramsStream.Wf)
    (hlong : 128 ≤ n) (hn : n < 2 ^ 31) (hread : codec.paramsStream.readable = encodeLen n ++ rest)
    (hint : codec.paramsStream.readable.length < 2 ^ 31) :
    parseParams (fuel + 1) codec = .ok (false, codec) := by
  have hlen := readLen_long codec hwf hlong hn hread
  rw [Nat.mod_eq_of_lt hint] at hlen
  have hpos : 0 < codec.paramsStream.readableBytes := by
    obtain ⟨b, bytes, hbytes, -⟩ := encodeLen_long hlong hn
    rw [← hwf.length_readable, hread, hbytes, List.cons_append, List.length_cons]
    omega
  have hless : codec.paramsStream.readableBytes <
      codec.paramsStream.readable.length + codec.paramsStream.readable.length := by
    rw [hwf.length_readable]
    omega
  exact parseParams_incomplete fuel hpos hlen hlen hint hint hless

/-- A long value stays in the stream, unless the name is empty: then all that is left of the stream
is its value. -/
theorem parseParams_long_value (codec : FastCgiCodec) (fuel : ℕ) (hwf : codec.paramsStream.Wf)
    {name value : Bytes} (hname : name.length < 128) (hlong : 128 ≤ value.length)
    (hn : value.length < 2 ^ 31)
    (hread : codec.paramsStream.readable = encodePair (name, value) ++ rest)
    (hint : codec.paramsStream.readable.length < 2 ^ 31) :
    ∃ ok codec', parseParams (fuel + 2) codec = .ok (ok, codec') ∧ (codec'.paramsStream.readable ≠ [] ∨
      name = [] ∧ ∃ value', codec'.params [] = some value' ∧ value' ≠ value) := by
  unfold encodePair at hread
  dsimp only at hread
  rw [encodeLen_of_lt hname, List.append_assoc, List.append_assoc, List.append_assoc,
    List.singleton_append] at hread
  have hpos : 0 < codec.paramsStream.readableBytes := by
    rw [← hwf.length_readable, hread, List.length_cons]
    omega
  obtain ⟨stream, hlen, hwf', hread'⟩ := readLen_short codec hwf hname hread
  have hlen' := readLen_long { codec with paramsStream := stream } hwf' hlong hn hread'
  obtain ⟨b, bytes, hbytes, -⟩ := encodeLen_long hlong hn
  have hlonger : value.length < stream.readable.length := by
    rw [hread', hbytes, List.length_append, List.length_append, List.length_append, List.length_cons]
    omega
  have hint' : stream.readable.length < 2 ^ 31 := by
    rw [hread, List.length_cons, ← hread'] at hint
    omega
  rw [Nat.mod_eq_of_lt hint'] at hlen'
  by_cases hempty : name = []
  · subst hempty
    obtain ⟨stream', hwf'', hread'', hround⟩ := parseParams_pair (fuel + 1) hpos hlen hlen' (by decide)
      hint' hwf' (show stream.readable = [] ++ (stream.readable ++ []) by rw [List.append_nil]; rfl)
    have hend : ¬ 0 < stream'.readableBytes := by
      rw [← hwf''.length_readable, hread'', List.length_nil]
      omega
    rw [hround, parseParams, if_neg hend]
    have hself := Function.update_self ([] : Bytes) (some stream.readable) codec.params
    refine ⟨true, _, rfl, Or.inr ⟨rfl, stream.readable, hself, fun heq => ?_⟩⟩
    rw [heq] at hlonger
    omega
  · have hless : stream.readableBytes < name.length + stream.readable.length := by
      have hpos' := List.length_pos_iff.2 hempty
      rw [hwf'.length_readable]
      omega
    refine ⟨false, _, parseParams_incomplete (fuel + 1) hpos hlen hlen' (by omega) hint' hless,
      Or.inl fun hnil => ?_⟩
    dsimp only at hnil
    rw [hnil, List.length_nil] at hlonger
    omega

/-! ## Records -/

open Framing

theorem ParamsRecord.length_header (r : ParamsRecord) : r.header.length = kRecordHeader := by
  unfold ParamsRecord.header
  simp [kRecordHeader]

theorem readInt16_toBytes (hn : n < 2 ^ 16) : readInt16 (BigEndian.toBytes 2 n) = .ofNat n := by
  have hload := Endian.networkToHost16_load (.ofNat n)
  rwa [UInt16.toNat_ofNat_of_lt' hn] at hload

/-- What the codec reads of the header. -/
theorem ParamsRecord.load_header (r : ParamsRecord) : RecordHeader.load r.header =
    .ok ⟨r.version, 4, r.id, .ofNat r.content.length, .ofNat r.padding.length, r.unused⟩ := by
  have hid := readInt16_toBytes r.id.toNat_lt
  have hlength := readInt16_toBytes r.content_lt
  rw [UInt16.ofNat_toNat] at hid
  rw [← hid, ← hlength]
  rfl

/-- A record is read as a whole, and handed to `onParams`. -/
theorem step_record (codec : FastCgiCodec) (r : ParamsRecord) : step codec r.bytes = (do
    let (_, codec) ← codec.onParams r.content (.ofNat r.content.length)
    return some (codec, r.bytes.length)) := by
  have hlength : r.bytes.length = kRecordHeader + r.content.length + r.padding.length := by
    unfold ParamsRecord.bytes
    rw [List.length_append, List.length_append, r.length_header]
    omega
  have htake : r.bytes.take kRecordHeader = r.header := by
    unfold ParamsRecord.bytes
    rw [← r.length_header, List.take_left]
  have hdrop : r.bytes.drop kRecordHeader = r.content ++ r.padding := by
    unfold ParamsRecord.bytes
    rw [← r.length_header, List.drop_left]
  have hcontent := UInt16.toNat_ofNat_of_lt' r.content_lt
  have hpadding := UInt8.toNat_ofNat_of_lt' r.padding_lt
  unfold step
  rw [htake, r.load_header, if_pos (by omega), ok_bind]
  unfold RecordHeader.total RecordHeader.content
  dsimp only
  rw [hcontent, hpadding, ← hlength, if_pos le_rfl, hdrop, List.take_left]
  unfold handle
  rw [show FcgiType.ofByte 4 = .kFcgiParams from rfl]
  dsimp only
  cases codec.onParams r.content (.ofNat r.content.length) <;> rfl

/-- The contents of the records are collected. -/
theorem drains_contents {records : List ParamsRecord} (hrecords : ∀ r ∈ records, r.content ≠ [])
    (hwf : codec.paramsStream.Wf) : ∃ stream : Buffer, stream.Wf ∧
      stream.readable = codec.paramsStream.readable ++ records.flatMap (·.content) ∧
      ∀ {bytes codec' rest}, Drains reader { codec with paramsStream := stream } bytes codec' rest →
        Drains reader codec (records.flatMap (·.bytes) ++ bytes) codec' rest := by
  induction records generalizing codec with
  | nil =>
    refine ⟨codec.paramsStream, hwf, ?_, fun h => h⟩
    rw [List.flatMap_nil, List.append_nil]
  | cons r records ih =>
    obtain ⟨stream, happend, hwf', hread⟩ := hwf.append r.content
    have hpos : (0 : UInt16) < .ofNat r.content.length := by
      have hlength := List.length_pos_iff.2 (hrecords r List.mem_cons_self)
      rw [UInt16.lt_iff_toNat_lt, UInt16.toNat_ofNat_of_lt' r.content_lt]
      exact hlength
    have hstep : step codec r.bytes = .ok (some ({ codec with paramsStream := stream }, r.bytes.length)) := by
      rw [step_record]
      unfold onParams
      rw [if_pos hpos, UInt16.toNat_ofNat_of_lt' r.content_lt, List.take_length, happend]
      rfl
    obtain ⟨stream', hwf'', hread', hdrains⟩ := ih
      (fun r' hmem => hrecords r' (List.mem_cons_of_mem _ hmem))
      (show Buffer.Wf { codec with paramsStream := stream : FastCgiCodec }.paramsStream from hwf')
    refine ⟨stream', hwf'', ?_, fun h => ?_⟩
    · rw [hread']
      dsimp only
      rw [hread, List.flatMap_cons, List.append_assoc]
    · rw [List.flatMap_cons, List.append_assoc]
      exact Drains.cons hstep (hdrains h)

/-- A codec that has only collected parameters. -/
def collected (stream : Buffer) : FastCgiCodec := ⟨false, false, .empty, stream, fun _ => none⟩

/-- The chunks of the records have the collected contents parsed. -/
theorem feed_records {records : List ParamsRecord} (hrecords : ∀ r ∈ records, r.content ≠ [])
    {last : ParamsRecord} (hlast : last.content = []) {chunks : List Bytes}
    (hchunks : chunks.flatten = records.flatMap (·.bytes) ++ last.bytes) :
    ∃ stream : Buffer, stream.Wf ∧ stream.readable = records.flatMap (·.content) ∧
      ∀ {ok codec'}, parseAllParams (collected stream) = .ok (ok, codec') →
        ∃ buf, feed new .empty chunks = .ok (codec', buf) := by
  obtain ⟨stream, hwf, hread, hdrains⟩ := drains_contents hrecords
    (show new.paramsStream.Wf from Buffer.wf_empty)
  refine ⟨stream, hwf, ?_, fun {ok codec'} hparse => ?_⟩
  · rw [hread, show new.paramsStream = .empty from rfl, Buffer.readable_empty, List.nil_append]
  · have hstep : step (collected stream) last.bytes = .ok (some (codec', last.bytes.length)) := by
      rw [step_record, hlast]
      unfold onParams
      rw [if_neg (by decide), hparse]
      rfl
    have hend : Drains reader codec' [] codec' [] := .wait rfl
    have hlastDrains : Drains reader (collected stream) (last.bytes ++ []) codec' [] :=
      Drains.cons hstep hend
    have hall := hdrains hlastDrains
    rw [List.append_nil, ← hchunks, ← List.nil_append chunks.flatten, ← Buffer.readable_empty] at hall
    have hwait : step new Buffer.empty.readable = .ok none := by
      rw [Buffer.readable_empty]
      rfl
    obtain ⟨buf, hfeed, -⟩ := feed_drains Buffer.wf_empty hwait hall
    exact ⟨buf, hfeed⟩

/-- The first pair with a longer length. -/
theorem exists_long (h : ¬ Short pairs) : ∃ front pair back, pairs = front ++ pair :: back ∧
    Short front ∧ (128 ≤ pair.1.length ∨ pair.1.length < 128 ∧ 128 ≤ pair.2.length) := by
  induction pairs with
  | nil => exact absurd (fun pair hmem => (by cases hmem)) h
  | cons pair pairs ih =>
    by_cases hpair : pair.1.length < 128 ∧ pair.2.length < 128
    · have hrest : ¬ Short pairs := by
        intro hshort
        apply h
        intro pair' hmem
        rcases List.mem_cons.1 hmem with rfl | hmem
        · exact hpair
        · exact hshort pair' hmem
      obtain ⟨front, pair', back, rfl, hfront, hlong⟩ := ih hrest
      refine ⟨pair :: front, pair', back, rfl, fun pair'' hmem => ?_, hlong⟩
      rcases List.mem_cons.1 hmem with rfl | hmem
      · exact hpair
      · exact hfront pair'' hmem
    · exact ⟨[], pair, pairs, rfl, fun pair' hmem => (by cases hmem), by omega⟩

theorem decodes_of_short {stream : Buffer} (hwf : stream.Wf) (hread : stream.readable = encode pairs)
    (hdistinct : (pairs.map Prod.fst).Nodup) (hshort : Short pairs) :
    ∃ codec', parseAllParams (collected stream) = .ok (true, codec') ∧
      codec'.params = (pairs.lookup ·) ∧ codec'.paramsStream.readable = [] := by
  rw [← List.append_nil (encode pairs)] at hread
  obtain ⟨stream', fuel, hwf', hread', -, hparse⟩ := parseAllParams_of_short
    (show (collected stream).paramsStream.Wf from hwf) hshort hread
  have hend : ¬ 0 < stream'.readableBytes := by
    rw [← hwf'.length_readable, hread', List.length_nil]
    omega
  refine ⟨⟨false, false, .empty, stream', insertAll (fun _ => none) pairs⟩, ?_, ?_, hread'⟩
  · rw [hparse, parseParams, if_neg hend]
    rfl
  · funext name
    exact (insertAll_eq hdistinct _ name).trans Option.or_none

theorem not_decodes_of_long {stream : Buffer} (hwf : stream.Wf) (hread : stream.readable = encode pairs)
    (hdistinct : (pairs.map Prod.fst).Nodup)
    (hlengths : ∀ pair ∈ pairs, pair.1.length < 2 ^ 31 ∧ pair.2.length < 2 ^ 31)
    (hint : (encode pairs).length < 2 ^ 31) (hlong : ¬ Short pairs) :
    ∃ ok codec', parseAllParams (collected stream) = .ok (ok, codec') ∧
      ¬ (codec'.params = (pairs.lookup ·) ∧ codec'.paramsStream.readable = []) := by
  obtain ⟨front, ⟨name, value⟩, back, rfl, hfront, hpair⟩ := exists_long hlong
  obtain ⟨hname, hvalue⟩ := hlengths (name, value) (List.mem_append_right _ List.mem_cons_self)
  have hencode : encode (front ++ (name, value) :: back) =
      encode front ++ (encodePair (name, value) ++ encode back) := by
    unfold encode
    rw [List.flatMap_append, List.flatMap_cons]
  rw [hencode] at hread hint
  rw [List.length_append] at hint
  obtain ⟨stream', fuel, hwf', hread', hfuel, hparse⟩ := parseAllParams_of_short
    (show (collected stream).paramsStream.Wf from hwf) hfront hread
  have hint' : stream'.readable.length < 2 ^ 31 := by
    rw [hread']
    omega
  obtain ⟨fuel, rfl⟩ : ∃ k, fuel = k + 1 := by
    have hpos := length_encodePair_pos (name, value)
    rw [List.length_append] at hfuel
    exact ⟨fuel - 1, by omega⟩
  rcases hpair with hname' | ⟨hname', hvalue'⟩
  · have hread'' := hread'
    unfold encodePair at hread''
    rw [List.append_assoc] at hread''
    have hstays := parseParams_long_name
      ⟨false, false, .empty, stream', insertAll (fun _ => none) front⟩ (fuel + 1) hwf' hname' hname hread'' hint'
    refine ⟨false, _, hparse.trans hstays, fun hdecoded => ?_⟩
    have hlength := congrArg List.length (hread'.symm.trans hdecoded.2)
    have hpos := length_encodePair_pos (name, value)
    rw [List.length_append, List.length_nil] at hlength
    omega
  · obtain ⟨ok, codec', hround, hbad⟩ := parseParams_long_value
      ⟨false, false, .empty, stream', insertAll (fun _ => none) front⟩ fuel hwf' hname' hvalue' hvalue hread' hint'
    refine ⟨ok, codec', hparse.trans hround, ?_⟩
    rintro ⟨hparams, hempty⟩
    rcases hbad with hne | ⟨rfl, value', hvalue'', hne⟩
    · exact hne hempty
    · have hlookup : (front ++ ([], value) :: back).lookup [] = some value := by
        refine List.lookup_eq_some_iff.2 ⟨front, back, rfl, fun pair hmem => ?_⟩
        rw [bne_iff_ne]
        intro heq
        rw [List.map_append, List.nodup_append] at hdistinct
        exact hdistinct.2.2 [] (List.mem_map.2 ⟨pair, hmem, heq.symm⟩) [] (List.mem_map.2 ⟨_, List.mem_cons_self, rfl⟩) rfl
      rw [hparams] at hvalue''
      exact hne (Option.some.inj (hvalue''.symm.trans hlookup))

theorem short_of_decodes (hdistinct : (pairs.map Prod.fst).Nodup)
    (hlengths : ∀ pair ∈ pairs, pair.1.length < 2 ^ 31 ∧ pair.2.length < 2 ^ 31)
    (records : List ParamsRecord) (hrecords : ∀ r ∈ records, r.content ≠ [])
    (hcut : records.flatMap (·.content) = encode pairs) (last : ParamsRecord) (hlast : last.content = [])
    {chunks : List Bytes} (hchunks : chunks.flatten = records.flatMap (·.bytes) ++ last.bytes)
    (hint : (encode pairs).length < 2 ^ 31) (hdecodes : Decodes pairs chunks) : Short pairs := by
  obtain ⟨stream, hwf, hread, hfeed⟩ := feed_records hrecords hlast hchunks
  rw [hcut] at hread
  obtain ⟨codec, buf, hok, hdecoded⟩ := hdecodes
  by_contra hlong
  obtain ⟨ok, codec', hparse, hnot⟩ := not_decodes_of_long hwf hread hdistinct hlengths hint hlong
  obtain ⟨buf', hfeed⟩ := hfeed hparse
  rw [hfeed] at hok
  cases hok
  exact hnot hdecoded

/-- The parameters are decoded when every length is below 128, and for encodings of less than 2^31
bytes in no other case. -/
theorem params_decode_iff_short (hdistinct : (pairs.map Prod.fst).Nodup)
    (hlengths : ∀ pair ∈ pairs, pair.1.length < 2 ^ 31 ∧ pair.2.length < 2 ^ 31)
    (records : List ParamsRecord) (hrecords : ∀ r ∈ records, r.content ≠ [])
    (hcut : records.flatMap (·.content) = encode pairs) (last : ParamsRecord) (hlast : last.content = [])
    {chunks : List Bytes} (hchunks : chunks.flatten = records.flatMap (·.bytes) ++ last.bytes) :
    (Short pairs → Decodes pairs chunks) ∧
      ((encode pairs).length < 2 ^ 31 → Decodes pairs chunks → Short pairs) := by
  refine ⟨fun hshort => ?_, short_of_decodes hdistinct hlengths records hrecords hcut last hlast hchunks⟩
  obtain ⟨stream, hwf, hread, hfeed⟩ := feed_records hrecords hlast hchunks
  rw [hcut] at hread
  obtain ⟨codec', hparse, hparams, hstream⟩ := decodes_of_short hwf hread hdistinct hshort
  obtain ⟨buf, hfeed⟩ := hfeed hparse
  exact ⟨codec', buf, hfeed, hparams, hstream⟩

/-- A record without content, with two bytes of padding. -/
def emptyRecord : ParamsRecord := ⟨1, 1, [], [0, 0], 0, by decide, by decide⟩

theorem params_decode_iff_short_twoPairs :
    Decodes [(ascii "A", ascii "1"), (ascii "BC", [])]
      [[1, 4, 0, 1, 0, 3, 1], [0, 1, 1, 65, 0, 1, 4, 0, 1, 0, 5, 0, 0, 49, 2, 0, 66, 67],
        [1, 4, 0, 1, 0, 0, 2, 0, 0, 0]] :=
  (params_decode_iff_short (by decide) (by decide)
    [⟨1, 1, [1, 1, 65], [0], 0, by decide, by decide⟩,
      ⟨1, 1, [49, 2, 0, 66, 67], [], 0, by decide, by decide⟩]
    (by decide) (by decide) emptyRecord rfl (by decide)).1 (by unfold Short; decide)

/-- A record with a name of one byte and a value of 128 bytes. -/
def longRecord : ParamsRecord :=
  ⟨1, 1, encode [(ascii "A", List.replicate 128 97)], [], 0, by decide +kernel, by decide⟩

theorem long_value_not_decoded :
    ¬ Decodes [(ascii "A", List.replicate 128 97)] [longRecord.bytes ++ emptyRecord.bytes] := by
  intro hdecodes
  have hshort := short_of_decodes (by decide) (by decide +kernel) [longRecord] (by decide +kernel)
    (by decide +kernel) emptyRecord rfl (by decide +kernel) (by decide +kernel) hdecodes
  exact absurd (hshort _ List.mem_cons_self).2 (by decide +kernel)

end FastCgiCodec

end Reactor
