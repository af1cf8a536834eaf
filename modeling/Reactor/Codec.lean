import Reactor.Buffer
import Reactor.Endian

/-!
# LengthHeaderCodec

The codec of the chat example puts the length of a message in front of it, as an `int32_t` in network
order.  A callback that gets a message leaves the buffer alone, so what `onMessage` does is the list
of the messages it passes on, and whether it shuts the connection down.

* `messages_received`: the buffers that `send` builds for messages of at most 65536 bytes, cut into
  chunks anywhere, give back the messages, and a part of them gives the messages that are whole in it.
-/

namespace Reactor

namespace LengthHeaderCodec

def kHeaderLen : ℕ := 4

/-- The buffer that `send` passes on to the connection. -/
def send (message : StringPiece) : Except Fault Buffer := do
  let buf ← Buffer.new Buffer.kInitialSize
  let buf ← buf.append (← message.read)
  let len := message.length
  let be32 := hostToNetwork32 len
  buf.prepend be32

/-- The loop of `onMessage`: the messages, whether it called `shutdown`, and the buffer. -/
def messageLoop : ℕ → Buffer → Except Fault (List Bytes × Bool × Buffer)
  | 0, _ => .error .outOfFuel
  | fuel + 1, buf =>
    if kHeaderLen ≤ buf.readableBytes then do
      let be32 := Vec.slice buf.buffer buf.peek (buf.peek + 4)
      let len := networkToHost32 be32
      if 65536 < len ∨ len < 0 then return ([], true, buf)
      else if len.toNat + kHeaderLen ≤ buf.readableBytes then
        let buf ← buf.retrieve kHeaderLen
        let message := Vec.slice buf.buffer buf.peek (buf.peek + len.toNat)
        let buf ← buf.retrieve len.toNat
        let (messages, shutdown, buf) ← messageLoop fuel buf
        return (message :: messages, shutdown, buf)
      else return ([], false, buf)
    else return ([], false, buf)

/-- `onMessage`; every round of its loop retrieves a header. -/
def onMessage (buf : Buffer) : Except Fault (List Bytes × Bool × Buffer) :=
  messageLoop (buf.readableBytes + 1) buf

/-- The chunks come one by one, with a call of `onMessage` after each. -/
def feed : Buffer → List Bytes → Except Fault (List Bytes × Bool × Buffer)
  | buf, [] => return ([], false, buf)
  | buf, chunk :: chunks => do
    let buf ← buf.append chunk
    let (messages, shutdown, buf) ← onMessage buf
    let (messages', shutdown', buf) ← feed buf chunks
    return (messages ++ messages', shutdown || shutdown', buf)

/-- The buffers that `send` builds for the messages, one behind the other. -/
def stream : List Bytes → Except Fault Bytes
  | [] => return []
  | message :: messages => do
    let buf ← send ⟨message, message.length⟩
    return buf.readable ++ (← stream messages)

/-- The messages that are whole in the first `n` bytes of their stream. -/
def Whole (messages : List Bytes) (n : ℕ) (received : List Bytes) : Prop :=
  ∃ rest, messages = received ++ rest ∧ (∃ bytes, stream received = .ok bytes ∧ bytes.length ≤ n) ∧
    ∀ message ∈ rest.head?, ∃ bytes, stream (received ++ [message]) = .ok bytes ∧ n < bytes.length

/-! ## Frames -/

/-- A message with its header. -/
def frame (message : Bytes) : Bytes := hostToNetwork32 message.length ++ message

theorem length_frame (message : Bytes) : (frame message).length = kHeaderLen + message.length := by
  rw [frame, List.length_append, length_hostToNetwork32, kHeaderLen]

/-- The length of a message is an `int32_t` that the codec accepts. -/
def Fits (message : Bytes) : Prop := message.length ≤ 65536

theorem send_spec (message : Bytes) :
    ∃ buf, send ⟨message, message.length⟩ = .ok buf ∧ buf.readable = frame message := by
  have hread : (⟨message, message.length⟩ : StringPiece).read = .ok message := by
    rw [StringPiece.read_of_le le_rfl, List.take_length]
  obtain ⟨buf, happend, hwf, hbuf⟩ := Buffer.wf_empty.append message
  have hroom : (hostToNetwork32 message.length).length ≤ buf.prependableBytes := by
    rw [length_hostToNetwork32]
    have hcheap := Buffer.cheapPrepend_le_append happend (le_refl Buffer.kCheapPrepend)
    exact le_trans (by decide) hcheap
  obtain ⟨buf', hprepend, -, hbuf'⟩ := hwf.prepend hroom
  refine ⟨buf', ?_, ?_⟩
  · unfold send
    rw [Buffer.new_kInitialSize, ok_bind, hread, ok_bind, happend, ok_bind]
    exact hprepend
  · rw [hbuf', hbuf, Buffer.readable_empty, List.nil_append, frame]

/-- The stream is the frames of the messages. -/
theorem stream_eq (messages : List Bytes) :
    stream messages = .ok (messages.flatMap frame) := by
  induction messages with
  | nil => rfl
  | cons message messages ih =>
    obtain ⟨buf, hsend, hbuf⟩ := send_spec message
    rw [stream, hsend, ok_bind, ih, ok_bind, hbuf, List.flatMap_cons]
    rfl

/-! ## Reading frames -/

/-- The bytes do not hold the first frame of the rest yet. -/
def Short (rest : List Bytes) (bytes : Bytes) : Prop :=
  ∀ message ∈ rest.head?, bytes.length < (frame message).length

variable {messages : List Bytes} {message : Bytes} {buf : Buffer}

/-- What `onMessage` reads of the header. -/
theorem header_eq (hfits : Fits message) (hwf : buf.Wf) (hheader : 4 ≤ buf.readableBytes)
    {rest : Bytes} (hframe : buf.readable <+: frame message ++ rest) :
    networkToHost32 (Vec.slice buf.buffer buf.peek (buf.peek + 4)) = message.length := by
  have hlen : 4 ≤ buf.readable.length := by
    rw [hwf.length_readable]
    exact hheader
  have htake : buf.readable.take 4 = hostToNetwork32 message.length := by
    obtain ⟨more, hmore⟩ := hframe
    have hheader' := congrArg (List.take 4) hmore
    rw [List.take_append_of_le_length hlen, frame, List.append_assoc] at hheader'
    rw [hheader', ← length_hostToNetwork32 message.length, List.take_left]
  unfold Fits at hfits
  rw [hwf.slice_peek hheader, htake, networkToHost32_hostToNetwork32 (by omega) (by omega)]

theorem drop_frame (message after : Bytes) :
    (frame message ++ after).drop kHeaderLen = message ++ after := by
  rw [frame, List.append_assoc, kHeaderLen, ← length_hostToNetwork32 message.length, List.drop_left]

/-- The loop ends at a frame that is not there as a whole. -/
theorem messageLoop_of_short (hfits : Fits message) (hwf : buf.Wf) {rest : Bytes}
    (hframe : buf.readable <+: frame message ++ rest)
    (hshort : buf.readable.length < (frame message).length) (fuel : ℕ) :
    messageLoop (fuel + 1) buf = .ok ([], false, buf) := by
  rw [messageLoop]
  by_cases hheader : kHeaderLen ≤ buf.readableBytes
  · have hle : message.length ≤ 65536 := hfits
    rw [hwf.length_readable, length_frame] at hshort
    rw [if_pos hheader]
    dsimp only
    rw [header_eq hfits hwf hheader hframe, if_neg (by omega), Int.toNat_natCast, if_neg (by omega)]
    rfl
  · rw [if_neg hheader]
    rfl

/-- A frame that is there is passed on, and the loop goes on with what is behind it. -/
theorem messageLoop_of_whole (hfits : Fits message) (hwf : buf.Wf) {after : Bytes}
    (hread : buf.readable = frame message ++ after) :
    ∃ buf', buf'.Wf ∧ buf'.readable = after ∧ ∀ {fuel received buf''},
      messageLoop fuel buf' = .ok (received, false, buf'') →
        messageLoop (fuel + 1) buf = .ok (message :: received, false, buf'') := by
  have hle : message.length ≤ 65536 := hfits
  have hwhole : message.length + kHeaderLen ≤ buf.readableBytes := by
    rw [← hwf.length_readable, hread, List.length_append, length_frame]
    omega
  have hheader : kHeaderLen ≤ buf.readableBytes := by omega
  have hstart : buf.readable <+: frame message ++ after := ⟨[], by rw [List.append_nil, hread]⟩
  have heq := header_eq hfits hwf hheader hstart
  obtain ⟨buf₁, hretrieve, hwf₁, hread₁⟩ := hwf.retrieve hheader
  rw [hread, drop_frame] at hread₁
  have hbody : message.length ≤ buf₁.readableBytes := by
    rw [← hwf₁.length_readable, hread₁, List.length_append]
    exact Nat.le_add_right _ _
  obtain ⟨buf₂, hretrieve₂, hwf₂, hread₂⟩ := hwf₁.retrieve hbody
  rw [hread₁, List.drop_left] at hread₂
  refine ⟨buf₂, hwf₂, hread₂, fun hloop => ?_⟩
  rw [messageLoop, if_pos hheader]
  dsimp only
  rw [heq, if_neg (by omega), Int.toNat_natCast, if_pos hwhole, hretrieve, ok_bind, hretrieve₂, ok_bind,
    hloop, ok_bind, hwf₁.slice_peek hbody, hread₁, List.take_left]
  rfl

/-- The loop passes on the messages whose frames the buffer holds. -/
theorem messageLoop_spec (hfits : ∀ message ∈ messages, Fits message) (hwf : buf.Wf) {fuel : ℕ}
    (hfuel : buf.readable.length < fuel) (hframes : buf.readable <+: messages.flatMap frame) :
    ∃ received rest buf', messages = received ++ rest ∧
      messageLoop fuel buf = .ok (received, false, buf') ∧ buf'.Wf ∧
      received.flatMap frame ++ buf'.readable = buf.readable ∧ Short rest buf'.readable := by
  induction messages generalizing buf fuel with
  | nil =>
    obtain ⟨fuel, rfl⟩ : ∃ k, fuel = k + 1 := ⟨fuel - 1, by omega⟩
    have hnil : buf.readable = [] := List.prefix_nil.1 hframes
    have hempty : ¬ kHeaderLen ≤ buf.readableBytes := by
      rw [← hwf.length_readable, hnil]
      decide
    refine ⟨[], [], buf, rfl, ?_, hwf, rfl, fun message hm => (by cases hm)⟩
    rw [messageLoop, if_neg hempty]
    rfl
  | cons message messages ih =>
    obtain ⟨fuel, rfl⟩ : ∃ k, fuel = k + 1 := ⟨fuel - 1, by omega⟩
    have hmessage := hfits message List.mem_cons_self
    rw [List.flatMap_cons] at hframes
    rcases Nat.lt_or_ge buf.readable.length (frame message).length with hshort | hwhole
    · refine ⟨[], message :: messages, buf, rfl, messageLoop_of_short hmessage hwf hframes hshort fuel,
        hwf, rfl, fun m hm => ?_⟩
      obtain rfl := Option.some.inj hm
      exact hshort
    · obtain ⟨after, hafter⟩ :=
        List.prefix_of_prefix_length_le (List.prefix_append _ _) hframes hwhole
      obtain ⟨buf₁, hwf₁, hread₁, hnext⟩ := messageLoop_of_whole hmessage hwf hafter.symm
      have hfuel₁ : buf₁.readable.length < fuel := by
        rw [← hafter, List.length_append, length_frame, kHeaderLen] at hfuel
        rw [hread₁]
        omega
      have hframes₁ : buf₁.readable <+: messages.flatMap frame := by
        rw [← hafter, List.prefix_append_right_inj] at hframes
        rw [hread₁]
        exact hframes
      obtain ⟨received, rest, buf', hmessages, hloop, hwf', hread', hshort⟩ :=
        ih (fun m hm => hfits m (List.mem_cons_of_mem _ hm)) hwf₁ hfuel₁ hframes₁
      refine ⟨message :: received, rest, buf', by rw [hmessages, List.cons_append], hnext hloop, hwf',
        ?_, hshort⟩
      rw [List.flatMap_cons, List.append_assoc, hread', hread₁]
      exact hafter

theorem onMessage_spec (hfits : ∀ message ∈ messages, Fits message) (hwf : buf.Wf)
    (hframes : buf.readable <+: messages.flatMap frame) :
    ∃ received rest buf', messages = received ++ rest ∧ onMessage buf = .ok (received, false, buf') ∧
      buf'.Wf ∧ received.flatMap frame ++ buf'.readable = buf.readable ∧ Short rest buf'.readable := by
  refine messageLoop_spec hfits hwf ?_ hframes
  rw [hwf.length_readable]
  exact Nat.lt_succ_self _

/-- Where the frames are cut does not matter. -/
theorem feed_spec (hfits : ∀ message ∈ messages, Fits message) (hwf : buf.Wf)
    (hshort : Short messages buf.readable) (chunks : List Bytes)
    (hframes : buf.readable ++ chunks.flatten <+: messages.flatMap frame) :
    ∃ received rest buf', messages = received ++ rest ∧ feed buf chunks = .ok (received, false, buf') ∧
      received.flatMap frame ++ buf'.readable = buf.readable ++ chunks.flatten ∧
      Short rest buf'.readable := by
  induction chunks generalizing messages buf with
  | nil => exact ⟨[], messages, buf, rfl, rfl, by rw [List.flatten_nil, List.append_nil]; rfl, hshort⟩
  | cons chunk chunks ih =>
    obtain ⟨buf₁, happend, hwf₁, hread₁⟩ := hwf.append chunk
    rw [List.flatten_cons, ← List.append_assoc, ← hread₁] at hframes ⊢
    obtain ⟨received, rest, buf₂, hmessages, hcall, hwf₂, hread₂, hshort₂⟩ :=
      onMessage_spec hfits hwf₁ ((List.prefix_append _ _).trans hframes)
    rw [← hread₂, hmessages, List.flatMap_append, List.append_assoc,
      List.prefix_append_right_inj] at hframes
    have hrest : ∀ message ∈ rest, Fits message := fun m hm =>
      hfits m (by rw [hmessages]; exact List.mem_append_right _ hm)
    obtain ⟨received', rest', buf', hrest', hfeed, hread', hshort'⟩ := ih hrest hwf₂ hshort₂ hframes
    refine ⟨received ++ received', rest', buf', ?_, ?_, ?_, hshort'⟩
    · rw [hmessages, hrest', List.append_assoc]
    · rw [feed, happend, ok_bind, hcall, ok_bind]
      dsimp only
      rw [hfeed]
      rfl
    · rw [List.flatMap_append, List.append_assoc, hread', ← hread₂, List.append_assoc]

/-- A rest whose frames are all there is empty. -/
theorem Short.eq_nil {rest : List Bytes} {bytes : Bytes} (h : Short rest bytes)
    (hbytes : bytes = rest.flatMap frame) : rest = [] := by
  cases rest with
  | nil => rfl
  | cons message rest =>
    have hlt := h message rfl
    rw [hbytes, List.flatMap_cons, List.length_append] at hlt
    omega

theorem whole_of_short {received rest : List Bytes} {bytes : Bytes}
    (hmessages : messages = received ++ rest) (h : Short rest bytes) :
    Whole messages ((received.flatMap frame).length + bytes.length) received := by
  refine ⟨rest, hmessages, ⟨_, stream_eq received, Nat.le_add_right _ _⟩, fun message hm => ?_⟩
  refine ⟨_, stream_eq (received ++ [message]), ?_⟩
  rw [List.flatMap_append, List.length_append, List.flatMap_singleton]
  exact Nat.add_lt_add_left (h message hm) _

theorem messages_received (messages : List Bytes) (h : ∀ message ∈ messages, message.length ≤ 65536) :
    ∃ bytes, stream messages = .ok bytes ∧ ∀ chunks : List Bytes, chunks.flatten <+: bytes →
      ∃ received buf, feed Buffer.empty chunks = .ok (received, false, buf) ∧
        Whole messages chunks.flatten.length received ∧
        (chunks.flatten = bytes → received = messages ∧ buf.readable = []) := by
  refine ⟨messages.flatMap frame, stream_eq messages, fun chunks hchunks => ?_⟩
  have hshort : Short messages Buffer.empty.readable := fun message _ => by
    rw [Buffer.readable_empty, length_frame]
    exact Nat.lt_of_lt_of_le (by decide) (Nat.le_add_right _ _)
  obtain ⟨received, rest, buf, hmessages, hfeed, hread, hshort'⟩ :=
    feed_spec h Buffer.wf_empty hshort chunks (by rwa [Buffer.readable_empty, List.nil_append])
  rw [Buffer.readable_empty, List.nil_append] at hread
  refine ⟨received, buf, hfeed, ?_, fun hall => ?_⟩
  · rw [← hread, List.length_append]
    exact whole_of_short hmessages hshort'
  · rw [hall, hmessages, List.flatMap_append, List.append_cancel_left_eq] at hread
    have hnil := hshort'.eq_nil hread
    rw [hnil, List.append_nil] at hmessages
    rw [hnil] at hread
    exact ⟨hmessages.symm, hread⟩

/-- Two messages, one of them empty, in three chunks that cut a header and a body. -/
theorem messages_received_two :
    ∃ received buf, feed Buffer.empty [[0, 0], [0, 0, 0, 0, 0, 2, 104], [105]] =
      .ok (received, false, buf) ∧ received = [[], ascii "hi"] := by
  obtain ⟨bytes, hstream, hall⟩ := messages_received [[], ascii "hi"] (by decide)
  have hbytes : stream [[], ascii "hi"] = .ok [0, 0, 0, 0, 0, 0, 0, 2, 104, 105] := by decide +kernel
  obtain rfl := Except.ok.inj (hbytes.symm.trans hstream)
  obtain ⟨received, buf, hfeed, -, hwhole⟩ :=
    hall [[0, 0], [0, 0, 0, 0, 0, 2, 104], [105]] (List.prefix_refl _)
  exact ⟨received, buf, hfeed, (hwhole rfl).1⟩

end LengthHeaderCodec

end Reactor
