import Reactor.Codec
import Reactor.Lib.Machine
import Reactor.Lib.OrdSet
import Reactor.TcpConnection.OutputStream
import Reactor.TcpConnection.Send

/-!
# The chat server

`ChatServer` passes every message that its codec reads on to all connections.  All connections are
served by one loop, so a message is sent to all of them before the next one is read: the calls of
`onStringMessage` are one `log`, and every connection is sent the part of it since it came up.

* `broadcast_in_order`: whatever comes from whichever peers, in whatever chunks, no assertion fails but
  that of a `shutdown(2)` that fails, every message that the codec reads from a connection is sent
  once, and what a reader makes of the bytes of a connection is a part of the log without a gap, from
  the moment the connection came up.  This is as long as no `handleWrite` hands bytes to the kernel,
  since it would write them again.
* `write_never_heard`: the lines that `ChatClient::write` sends are never read as a message.
-/

namespace Reactor

namespace LengthHeaderCodec

/-! ## What the codec reads -/

/-- The messages of a byte string, whether the codec shuts the connection down, and what is left. -/
def decode : ℕ → Bytes → List Bytes × Bool × Bytes
  | 0, xs => ([], false, xs)
  | fuel + 1, xs =>
    if 4 ≤ xs.length then
      let len := networkToHost32 (xs.take 4)
      if 65536 < len ∨ len < 0 then ([], true, xs)
      else if len.toNat + 4 ≤ xs.length then
        let r := decode fuel (xs.drop (4 + len.toNat))
        ((xs.drop 4).take len.toNat :: r.1, r.2)
      else ([], false, xs)
    else ([], false, xs)

/-- `messageLoop` looks at the readable bytes only. -/
theorem messageLoop_eq_decode {fuel : ℕ} {buf : Buffer} (hwf : buf.Wf)
    (hfuel : buf.readable.length < fuel) :
    ∃ buf', messageLoop fuel buf =
        .ok ((decode fuel buf.readable).1, (decode fuel buf.readable).2.1, buf') ∧
      buf'.Wf ∧ buf'.readable = (decode fuel buf.readable).2.2 := by
  induction fuel generalizing buf with
  | zero => exact absurd hfuel (Nat.not_lt_zero _)
  | succ fuel ih =>
    rw [messageLoop, decode, hwf.length_readable]
    unfold kHeaderLen
    by_cases hheader : 4 ≤ buf.readableBytes
    · rw [if_pos hheader, if_pos hheader]
      simp only [hwf.slice_peek hheader]
      generalize networkToHost32 (buf.readable.take 4) = len
      by_cases hbad : 65536 < len ∨ len < 0
      · rw [if_pos hbad, if_pos hbad]
        exact ⟨buf, rfl, hwf, rfl⟩
      rw [if_neg hbad, if_neg hbad]
      by_cases hwhole : len.toNat + 4 ≤ buf.readableBytes
      · rw [if_pos hwhole, if_pos hwhole]
        obtain ⟨buf₁, hretrieve, hwf₁, hread₁⟩ := hwf.retrieve hheader
        have hbody : len.toNat ≤ buf₁.readableBytes := by
          rw [← hwf₁.length_readable, hread₁, List.length_drop, hwf.length_readable]
          omega
        obtain ⟨buf₂, hretrieve₂, hwf₂, hread₂⟩ := hwf₁.retrieve hbody
        rw [hread₁, List.drop_drop] at hread₂
        have hfuel₂ : buf₂.readable.length < fuel := by
          rw [hread₂, List.length_drop, hwf.length_readable]
          rw [hwf.length_readable] at hfuel
          omega
        obtain ⟨buf', hloop, hwf', hread'⟩ := ih hwf₂ hfuel₂
        rw [hretrieve, ok_bind, hretrieve₂, ok_bind, hloop, ok_bind, hwf₁.slice_peek hbody, hread₁,
          hread₂]
        rw [hread₂] at hread'
        exact ⟨buf', rfl, hwf', hread'⟩
      · rw [if_neg hwhole, if_neg hwhole]
        exact ⟨buf, rfl, hwf, rfl⟩
    · rw [if_neg hheader, if_neg hheader]
      exact ⟨buf, rfl, hwf, rfl⟩

theorem fits_of_mem_decode {fuel : ℕ} {xs message : Bytes} (h : message ∈ (decode fuel xs).1) :
    Fits message := by
  induction fuel generalizing xs with
  | zero => exact absurd h List.not_mem_nil
  | succ fuel ih =>
    rw [decode] at h
    dsimp only at h
    generalize networkToHost32 (xs.take 4) = len at h
    split_ifs at h with hheader hbad hwhole
    · simp only [List.not_mem_nil] at h
    · rcases List.mem_cons.1 h with rfl | h
      · rw [Fits, List.length_take]
        omega
      · exact ih h
    · simp only [List.not_mem_nil] at h
    · simp only [List.not_mem_nil] at h

/-- What `onMessage` makes of the readable bytes. -/
theorem onMessage_eq_decode {buf : Buffer} (hwf : buf.Wf) :
    ∃ buf', onMessage buf = .ok ((decode (buf.readable.length + 1) buf.readable).1,
        (decode (buf.readable.length + 1) buf.readable).2.1, buf') ∧
      buf'.Wf ∧ buf'.readable = (decode (buf.readable.length + 1) buf.readable).2.2 := by
  rw [onMessage, ← hwf.length_readable]
  exact messageLoop_eq_decode hwf (Nat.lt_succ_self _)

/-- The last of the chunks. -/
theorem feed_concat {buf buf₁ buf₂ buf₃ : Buffer} {chunks : List Bytes} {chunk : Bytes}
    {messages messages' : List Bytes} {shutdown shutdown' : Bool}
    (h : feed buf chunks = .ok (messages, shutdown, buf₁)) (happend : buf₁.append chunk = .ok buf₂)
    (hcall : onMessage buf₂ = .ok (messages', shutdown', buf₃)) :
    feed buf (chunks ++ [chunk]) = .ok (messages ++ messages', shutdown || shutdown', buf₃) := by
  induction chunks generalizing buf messages shutdown with
  | nil =>
    cases h
    rw [List.nil_append, feed, happend, ok_bind, hcall, ok_bind]
    dsimp only
    rw [feed, pure_bind, List.append_nil, Bool.or_false, List.nil_append, Bool.false_or]
    rfl
  | cons first chunks ih =>
    rw [feed] at h
    obtain ⟨b, hb, h⟩ := bind_eq_ok.1 h
    obtain ⟨⟨ms, sd, b'⟩, hms, h⟩ := bind_eq_ok.1 h
    obtain ⟨⟨ms', sd', b''⟩, hms', h⟩ := bind_eq_ok.1 h
    cases h
    rw [List.cons_append, feed, hb, ok_bind, hms, ok_bind]
    dsimp only
    rw [ih hms', ok_bind, List.append_assoc, Bool.or_assoc]
    rfl

end LengthHeaderCodec

/-- The bytes that `readv(2)` delivered. -/
def ReadvResult.data : ReadvResult → Bytes
  | .read data => data
  | .fail _ => []

/-! ## The server -/

namespace Chat

open LengthHeaderCodec TcpConnection.OutputStream

/-- `ChatServer`; the connections have their addresses for names. -/
structure ChatServer where
  connections : OrdSet ℕ
  conns : ℕ → TcpConnection
  -- what was read from the connections, the messages passed to `onStringMessage` with the
  -- connections they came from, and how many of them were there when a connection came up
  received : ℕ → List Bytes
  log : List (ℕ × Bytes)
  joined : ℕ → ℕ

/-- `codec_.send(get_pointer(conn), message)`; the message is converted to a `StringPiece`. -/
def codecSend (conn : TcpConnection) (message : Bytes) (room : Option ℕ) :
    Except Fault TcpConnection := do
  let buf ← LengthHeaderCodec.send (StringPiece.ofString message)
  let (conn, _) ← conn.sendBuffer true buf (ofRoom room buf.readable.length)
  return conn

/-- The loop of `onStringMessage`. -/
def sendAll (conns : ℕ → TcpConnection) (message : Bytes) (rooms : ℕ → Option ℕ) :
    List ℕ → Except Fault (ℕ → TcpConnection)
  | [] => return conns
  | it :: its => do
    let conn ← codecSend (conns it) message (rooms it)
    sendAll (Function.update conns it conn) message rooms its

namespace ChatServer

def new : ChatServer where
  connections := ∅
  conns c := TcpConnection.new c false false (64 * 1024 * 1024)
  received _ := []
  log := []
  joined _ := 0

def setConn (s : ChatServer) (c : ℕ) (conn : TcpConnection) : ChatServer :=
  { s with conns := Function.update s.conns c conn }

def onConnection (s : ChatServer) (c : ℕ) : ChatServer :=
  if (s.conns c).state = .kConnected then
    { s with
      connections := (s.connections.insert c).1, joined := Function.update s.joined c s.log.length }
  else { s with connections := (s.connections.erase c).1 }

def onStringMessage (s : ChatServer) (c : ℕ) (message : Bytes) (rooms : ℕ → Option ℕ) :
    Except Fault ChatServer := do
  let conns ← sendAll s.conns message rooms s.connections.toList
  return { s with conns := conns, log := s.log ++ [(c, message)] }

/-- The calls of `messageCallback_` in one `onMessage`. -/
def onStringMessages (s : ChatServer) (c : ℕ) (rooms : ℕ → ℕ → Option ℕ) :
    List Bytes → Except Fault ChatServer
  | [] => return s
  | message :: messages => do
    let s ← s.onStringMessage c message (rooms 0)
    s.onStringMessages c (fun i => rooms (i + 1)) messages

def handleClose (s : ChatServer) (c : ℕ) : Except Fault ChatServer := do
  let conn ← (s.conns c).handleClose
  let s := (s.setConn c conn).onConnection c
  return s.setConn c (s.conns c).closeCallback

/-- The message callback, which is `LengthHeaderCodec::onMessage`; `rooms` is what the sockets have
room for at each message. -/
def onMessage (s : ChatServer) (c : ℕ) (data : Bytes) (rooms : ℕ → ℕ → Option ℕ)
    (d : ShutdownResult) : Except Fault ChatServer := do
  let (messages, shutdown, buf) ← LengthHeaderCodec.onMessage (s.conns c).inputBuffer
  let s := { s.setConn c { s.conns c with inputBuffer := buf } with
    received := Function.update s.received c (s.received c ++ [data]) }
  let s ← s.onStringMessages c rooms messages
  if shutdown then return s.setConn c (← (s.conns c).shutdown true d) else return s

/-- `TcpConnection::handleRead` -/
def handleRead (s : ChatServer) (c : ℕ) (r : ReadvResult) (rooms : ℕ → ℕ → Option ℕ)
    (d : ShutdownResult) : Except Fault ChatServer := do
  let (n, conn) ← (s.conns c).handleRead r
  let s := s.setConn c conn
  match n with
  | .ok 0 => s.handleClose c
  | .ok (_ + 1) => s.onMessage c r.data rooms d
  | .error _ => return s

end ChatServer

inductive Event where
  -- `newConnection`, and the `connectEstablished` it runs
  | up (c : ℕ)
  | read (c : ℕ) (r : ReadvResult) (rooms : ℕ → ℕ → Option ℕ) (d : ShutdownResult)
  | hangUp (c : ℕ)
  | write (c : ℕ) (room : Option ℕ) (d : ShutdownResult)

def step (s : ChatServer) : Event → Except Fault ChatServer
  | .up c => do
    let conn ← (s.conns c).connectEstablished
    return (s.setConn c conn).onConnection c
  | .read c r rooms d => s.handleRead c r rooms d
  | .hangUp c => s.handleClose c
  | .write c room d => do
    let conn := s.conns c
    return s.setConn c (← conn.handleWrite (ofRoom room conn.outputBuffer.readableBytes) d)

def machine : Machine ChatServer Event Fault := ⟨step⟩

/-- The connection is established and its channel is registered. -/
def Up (conn : TcpConnection) : Prop := conn.state = .kConnected ∨ conn.state = .kDisconnecting

instance (conn : TcpConnection) : Decidable (Up conn) := inferInstanceAs (Decidable (_ ∨ _))

/-- The loop serves connections that are up, and a connection comes up once. -/
def Env (s : ChatServer) : Event → Prop
  | .up c => (s.conns c).state = .kConnecting
  | .read c _ _ _ | .hangUp c | .write c _ _ => Up (s.conns c)

instance (s : ChatServer) : ∀ e, Decidable (Env s e)
  | .up c => inferInstanceAs (Decidable ((s.conns c).state = .kConnecting))
  | .read c _ _ _ | .hangUp c | .write c _ _ => inferInstanceAs (Decidable (Up (s.conns c)))

/-- No `handleWrite` hands bytes to the kernel. -/
def NoDeferredWrite (s : ChatServer) : Event → Prop
  | .write c room _ => (s.conns c).channel.isWriting → room = none ∨ room = some 0
  | .up _ | .read _ _ _ _ | .hangUp _ => True

instance (s : ChatServer) : ∀ e, Decidable (NoDeferredWrite s e)
  | .write _ _ _ => inferInstanceAs (Decidable (_ → _))
  | .up _ | .read _ _ _ _ | .hangUp _ => isTrue trivial

/-- The `shutdown(2)` that the codec makes succeeds. -/
def Event.Succeeds : Event → Prop
  | .read _ _ _ d => d = .success
  | .up _ | .hangUp _ | .write _ _ _ => True

/-- The messages that came from the connection. -/
def origin (s : ChatServer) (c : ℕ) : List Bytes :=
  (s.log.filter fun e => e.1 = c).map Prod.snd

/-- The part of the log since the connection came up, as it is sent. -/
def since (s : ChatServer) (c : ℕ) : List Bytes :=
  (s.log.drop (s.joined c)).map fun e => cString e.2

/-- Whatever part of its bytes a connection delivers in whatever chunks: the reader gets messages of
the log without a gap, and all of them when it gets all bytes of a connection that is not shut
down. -/
def Heard (s : ChatServer) (c : ℕ) : Prop :=
  ∀ chunks : List Bytes,
    chunks.flatten <+: (s.conns c).accepted ++ (s.conns c).outputBuffer.readable →
    ∃ shown buf, feed Buffer.empty chunks = .ok (shown, false, buf) ∧ shown <+: since s c ∧
      (chunks.flatten = (s.conns c).accepted ++ (s.conns c).outputBuffer.readable →
        (s.conns c).state = .kConnected → shown = since s c)

/-! ## One message is sent -/

/-- The bytes are passed on by the connection, and nothing else happens to it. -/
structure Sent (c c' : TcpConnection) (bytes : Bytes) : Prop where
  state : c'.state = c.state
  inputBuffer : c'.inputBuffer = c.inputBuffer
  wf : c'.outputBuffer.Wf
  stream : c'.accepted ++ c'.outputBuffer.readable = c.accepted ++ c.outputBuffer.readable ++ bytes

theorem sent_nil {c : TcpConnection} (h : c.outputBuffer.Wf) : Sent c c [] :=
  ⟨rfl, rfl, h, (List.append_nil _).symm⟩

/-- The codec sends the C string of the message. -/
theorem send_ofString {message : Bytes} (h : message.length < 2 ^ 31) :
    LengthHeaderCodec.send (StringPiece.ofString message) =
      LengthHeaderCodec.send ⟨cString message, (cString message).length⟩ := by
  have hle := (cString_prefix_self message).length_le
  unfold LengthHeaderCodec.send
  rw [StringPiece.read_ofString h, StringPiece.read_of_le le_rfl, List.take_length,
    StringPiece.ofString, intOfSize_of_lt (by omega)]

/-- What a connection is sent of a message. -/
def share (c : TcpConnection) (message : Bytes) : Bytes :=
  if c.state = .kConnected then frame (cString message) else []

theorem codecSend_spec {c : TcpConnection} (hwf : c.outputBuffer.Wf) {message : Bytes}
    (h : Fits message) (room : Option ℕ) :
    ∃ c', codecSend c message room = .ok c' ∧ Sent c c' (share c message) := by
  obtain ⟨buf, hsend, hbuf⟩ := send_spec (cString message)
  have hlen : message.length < 2 ^ 31 := Nat.lt_of_le_of_lt h (by omega)
  unfold codecSend share
  rw [send_ofString hlen, hsend, ok_bind, TcpConnection.sendBuffer]
  by_cases hup : c.state = .kConnected
  · rw [if_pos hup, if_pos hup, if_pos rfl, hbuf]
    obtain ⟨hfits, hpipe, hreset⟩ :=
      (accepts_ofRoom room (frame (cString message)).length).fits
    obtain ⟨c', hc', hwf', hlife, hstream⟩ := TcpConnection.sendInLoop_spec hwf hfits
    rw [hc']
    exact ⟨c', rfl, hlife.state, hlife.inputBuffer, hwf',
      hstream (by rw [hup]; decide) hpipe hreset⟩
  · rw [if_neg hup, if_neg hup]
    exact ⟨c, rfl, sent_nil hwf⟩

theorem sendAll_spec {conns : ℕ → TcpConnection} (hwf : ∀ c, (conns c).outputBuffer.Wf)
    {message : Bytes} (h : Fits message) (rooms : ℕ → Option ℕ) {its : List ℕ} (hits : its.Nodup) :
    ∃ conns', sendAll conns message rooms its = .ok conns' ∧
      ∀ c, Sent (conns c) (conns' c) (if c ∈ its then share (conns c) message else []) := by
  induction its generalizing conns with
  | nil => exact ⟨conns, rfl, fun c => sent_nil (hwf c)⟩
  | cons it its ih =>
    obtain ⟨hnotMem, hnodup⟩ := List.nodup_cons.1 hits
    obtain ⟨conn, hconn, hsent⟩ := codecSend_spec (hwf it) h (rooms it)
    have hwf' : ∀ c, (Function.update conns it conn c).outputBuffer.Wf := by
      intro c
      by_cases hc : c = it
      · subst hc
        rw [Function.update_self]
        exact hsent.wf
      · rw [Function.update_of_ne hc]
        exact hwf c
    obtain ⟨conns', hall, hsent'⟩ := ih hwf' hnodup
    refine ⟨conns', by rw [sendAll, hconn, ok_bind, hall], fun c => ?_⟩
    have hc' := hsent' c
    by_cases hc : c = it
    · subst hc
      rw [Function.update_self, if_neg hnotMem] at hc'
      rw [if_pos List.mem_cons_self]
      exact ⟨hc'.state.trans hsent.state, hc'.inputBuffer.trans hsent.inputBuffer, hc'.wf,
        by rw [hc'.stream, List.append_nil, hsent.stream]⟩
    · rw [Function.update_of_ne hc] at hc'
      simpa only [List.mem_cons, hc, false_or] using hc'

/-! ## The log and the connections -/

/-- What holds of the connections between two messages. -/
structure Linked (s : ChatServer) : Prop where
  fits : ∀ e ∈ s.log, Fits e.2
  input : ∀ c, (s.conns c).inputBuffer.Wf
  output : ∀ c, (s.conns c).outputBuffer.Wf
  member : ∀ c, c ∈ s.connections ↔ Up (s.conns c)
  joined : ∀ c, s.joined c ≤ s.log.length
  fresh : ∀ c, (s.conns c).state = .kConnecting →
    (s.conns c).accepted ++ (s.conns c).outputBuffer.readable = []
  heard : ∀ c, ∃ heard, heard <+: since s c ∧
    ((s.conns c).state = .kConnected → heard = since s c) ∧
    (s.conns c).accepted ++ (s.conns c).outputBuffer.readable = heard.flatMap frame

/-- The messages in the log are those that the codec read. -/
def Decoded (s : ChatServer) (c : ℕ) : Prop :=
  ∃ shutdown buf, feed Buffer.empty (s.received c) = .ok (origin s c, shutdown, buf) ∧ buf.Wf ∧
    buf.readable = (s.conns c).inputBuffer.readable

structure Inv (s : ChatServer) : Prop where
  linked : Linked s
  decoded : ∀ c, Decoded s c

theorem inv_new : Inv ChatServer.new := by
  have hempty : ∀ c, (ChatServer.new.conns c).accepted ++
      (ChatServer.new.conns c).outputBuffer.readable = [] := by
    intro c
    show [] ++ Buffer.empty.readable = []
    rw [Buffer.readable_empty, List.append_nil]
  refine ⟨⟨fun e he => absurd he List.not_mem_nil, fun _ => Buffer.wf_empty,
    fun _ => Buffer.wf_empty, fun c => ?_, fun _ => le_rfl, fun c _ => hempty c,
    fun c => ⟨[], List.nil_prefix, fun _ => rfl, hempty c⟩⟩,
    fun c => ⟨false, Buffer.empty, rfl, Buffer.wf_empty, rfl⟩⟩
  refine iff_of_false (OrdSet.notMem_empty c) ?_
  rintro (h | h) <;> cases h

variable {s : ChatServer}

theorem since_append (hjoined : s.joined c ≤ s.log.length) (e : ℕ × Bytes)
    (conns : ℕ → TcpConnection) :
    since { s with conns := conns, log := s.log ++ [e] } c = since s c ++ [cString e.2] := by
  unfold since
  dsimp only
  rw [List.drop_append_of_le_length hjoined, List.map_append, List.map_singleton]

/-- A message goes to all connections. -/
theorem onStringMessage_spec (h : Linked s) {message : Bytes} (hfits : Fits message) (c : ℕ)
    (rooms : ℕ → Option ℕ) :
    ∃ s', s.onStringMessage c message rooms = .ok s' ∧ Linked s' ∧
      s'.log = s.log ++ [(c, message)] ∧ s'.received = s.received ∧
      ∀ d, (s'.conns d).inputBuffer = (s.conns d).inputBuffer := by
  obtain ⟨conns', hall, hsent⟩ := sendAll_spec h.output hfits rooms s.connections.nodup
  have hup : ∀ d, Up (conns' d) ↔ Up (s.conns d) := by
    intro d
    unfold Up
    rw [(hsent d).state]
  have hshare : ∀ d, (if d ∈ s.connections.toList then share (s.conns d) message else []) =
      share (s.conns d) message := by
    intro d
    by_cases hd : d ∈ s.connections.toList
    · rw [if_pos hd]
    · have hdown : ¬ (s.conns d).state = .kConnected := fun hc => hd ((h.member d).2 (Or.inl hc))
      rw [if_neg hd, share, if_neg hdown]
  refine ⟨{ s with conns := conns', log := s.log ++ [(c, message)] },
    by rw [ChatServer.onStringMessage, hall, ok_bind]; rfl, ?_, rfl, rfl,
    fun d => (hsent d).inputBuffer⟩
  refine ⟨?_, ?_, fun d => (hsent d).wf, fun d => (h.member d).trans (hup d).symm, ?_, ?_, ?_⟩
  · intro e he
    rcases List.mem_append.1 he with he | he
    · exact h.fits e he
    · obtain rfl := List.mem_singleton.1 he
      exact hfits
  · intro d
    show (conns' d).inputBuffer.Wf
    rw [(hsent d).inputBuffer]
    exact h.input d
  · intro d
    rw [List.length_append]
    exact le_trans (h.joined d) (Nat.le_add_right _ _)
  · intro d hd
    have hstream := (hsent d).stream
    have hconnecting : (s.conns d).state = .kConnecting := (hsent d).state.symm.trans hd
    rw [hshare, share, if_neg (by rw [hconnecting]; decide), List.append_nil] at hstream
    exact hstream.trans (h.fresh d hconnecting)
  · intro d
    obtain ⟨heard, hpre, hall', hstream⟩ := h.heard d
    have hstream' := (hsent d).stream
    rw [hshare, hstream] at hstream'
    rw [since_append (h.joined d)]
    dsimp only
    rw [(hsent d).state]
    by_cases hd : (s.conns d).state = .kConnected
    · refine ⟨heard ++ [cString message], ?_, fun _ => by rw [hall' hd], ?_⟩
      · exact (hall' hd).symm ▸ List.prefix_rfl
      · rw [hstream', share, if_pos hd, List.flatMap_append, List.flatMap_singleton]
    · refine ⟨heard, hpre.trans (List.prefix_append _ _), fun hd' => absurd hd' hd, ?_⟩
      rw [hstream', share, if_neg hd, List.append_nil]

theorem onStringMessages_spec (h : Linked s) {messages : List Bytes}
    (hfits : ∀ message ∈ messages, Fits message) (c : ℕ) (rooms : ℕ → ℕ → Option ℕ) :
    ∃ s', s.onStringMessages c rooms messages = .ok s' ∧ Linked s' ∧
      s'.log = s.log ++ messages.map (c, ·) ∧ s'.received = s.received ∧
      ∀ d, (s'.conns d).inputBuffer = (s.conns d).inputBuffer := by
  induction messages generalizing s rooms with
  | nil => exact ⟨s, rfl, h, by rw [List.map_nil, List.append_nil], rfl, fun _ => rfl⟩
  | cons message messages ih =>
    obtain ⟨s₁, hs₁, hlinked₁, hlog₁, hreceived₁, hinput₁⟩ :=
      onStringMessage_spec h (hfits message List.mem_cons_self) c (rooms 0)
    obtain ⟨s₂, hs₂, hlinked₂, hlog₂, hreceived₂, hinput₂⟩ :=
      ih hlinked₁ (fun m hm => hfits m (List.mem_cons_of_mem _ hm)) fun i => rooms (i + 1)
    refine ⟨s₂, by rw [ChatServer.onStringMessages, hs₁, ok_bind, hs₂], hlinked₂, ?_,
      hreceived₂.trans hreceived₁, fun d => (hinput₂ d).trans (hinput₁ d)⟩
    rw [hlog₂, hlog₁, List.append_assoc, List.map_cons, List.singleton_append]

/-! ## One connection changes -/

/-- What may happen to a connection while no message is passed on. -/
structure Kept (c c' : TcpConnection) : Prop where
  input : c'.inputBuffer.Wf
  output : c'.outputBuffer.Wf
  stream : c'.accepted ++ c'.outputBuffer.readable = c.accepted ++ c.outputBuffer.readable
  connected : c'.state = .kConnected → c.state = .kConnected
  connecting : c'.state = .kConnecting → c.state = .kConnecting

theorem forall_update {P : ℕ → TcpConnection → Prop} {conns : ℕ → TcpConnection} {c : ℕ}
    {conn : TcpConnection} (h : ∀ d, P d (conns d)) (hc : P c conn) (d : ℕ) :
    P d (Function.update conns c conn d) := by
  by_cases hd : d = c
  · subst hd
    rw [Function.update_self]
    exact hc
  · rw [Function.update_of_ne hd]
    exact h d

@[simp] theorem setConn_self (s : ChatServer) (c : ℕ) (conn : TcpConnection) :
    (s.setConn c conn).conns c = conn := by
  show Function.update s.conns c conn c = conn
  rw [Function.update_self]

/-- The connection keeps its stream, and is in the set while it is up. -/
theorem Linked.keep (h : Linked s) {c : ℕ} {conn : TcpConnection} (hkept : Kept (s.conns c) conn)
    {connections : OrdSet ℕ} (hconn : c ∈ connections ↔ Up conn)
    (hothers : ∀ d, d ≠ c → (d ∈ connections ↔ d ∈ s.connections)) :
    Linked { s.setConn c conn with connections := connections } := by
  refine ⟨h.fits, forall_update (P := fun _ conn => conn.inputBuffer.Wf) h.input hkept.input,
    forall_update (P := fun _ conn => conn.outputBuffer.Wf) h.output hkept.output, fun d => ?_,
    h.joined, ?_, ?_⟩
  · show d ∈ connections ↔ Up (Function.update s.conns c conn d)
    by_cases hd : d = c
    · subst hd
      rw [Function.update_self]
      exact hconn
    · rw [Function.update_of_ne hd]
      exact (hothers d hd).trans (h.member d)
  · exact forall_update (P := fun _ conn => conn.state = .kConnecting →
      conn.accepted ++ conn.outputBuffer.readable = []) h.fresh
      fun hstate => hkept.stream.trans (h.fresh c (hkept.connecting hstate))
  · refine forall_update (P := fun d conn => ∃ heard, heard <+: since s d ∧
      (conn.state = .kConnected → heard = since s d) ∧
      conn.accepted ++ conn.outputBuffer.readable = heard.flatMap frame) h.heard ?_
    obtain ⟨heard, hpre, hall, hstream⟩ := h.heard c
    exact ⟨heard, hpre, fun hstate => hall (hkept.connected hstate), hkept.stream.trans hstream⟩

theorem Linked.setConn (h : Linked s) {c : ℕ} {conn : TcpConnection} (hkept : Kept (s.conns c) conn)
    (hup : Up conn ↔ Up (s.conns c)) : Linked (s.setConn c conn) :=
  h.keep hkept ((h.member c).trans hup.symm) fun _ _ => Iff.rfl

/-- The input buffer is what `handleRead` and the codec leave. -/
theorem Linked.setInput (h : Linked s) (c : ℕ) {buf : Buffer} (hwf : buf.Wf) :
    Linked (s.setConn c { s.conns c with inputBuffer := buf }) :=
  h.setConn ⟨hwf, h.output c, rfl, id, id⟩ Iff.rfl

theorem decoded_setConn (h : ∀ c, Decoded s c) {c : ℕ} {conn : TcpConnection}
    (hinput : conn.inputBuffer = (s.conns c).inputBuffer) (connections : OrdSet ℕ) (d : ℕ) :
    Decoded { s.setConn c conn with connections := connections } d := by
  refine forall_update (P := fun d conn => ∃ shutdown buf,
    feed Buffer.empty (s.received d) = .ok (origin s d, shutdown, buf) ∧ buf.Wf ∧
      buf.readable = conn.inputBuffer.readable) h ?_ d
  rw [hinput]
  exact h c

theorem shutDown_kept (h : Linked s) (c : ℕ) : Kept (s.conns c) (s.conns c).shutDown ∧
    (Up (s.conns c).shutDown ↔ Up (s.conns c)) ∧
    (s.conns c).shutDown.inputBuffer = (s.conns c).inputBuffer := by
  unfold TcpConnection.shutDown
  by_cases hc : (s.conns c).state = .kConnected
  · rw [if_pos hc]
    have hlife := TcpConnection.sameLife_halfClosed { s.conns c with state := .kDisconnecting }
    have hstate : ({ s.conns c with state := .kDisconnecting } : TcpConnection).halfClosed.state =
      .kDisconnecting := hlife.state
    refine ⟨⟨?_, ?_, ?_, ?_, ?_⟩, ?_, hlife.inputBuffer⟩
    · rw [hlife.inputBuffer]
      exact h.input c
    · rw [TcpConnection.halfClosed_outputBuffer]
      exact h.output c
    · rw [TcpConnection.halfClosed_outputBuffer, TcpConnection.halfClosed_accepted]
    · rw [hstate]
      exact fun hne => (by cases hne)
    · rw [hstate]
      exact fun hne => (by cases hne)
    · exact iff_of_true (Or.inr hstate) (Or.inl hc)
  · rw [if_neg hc]
    exact ⟨⟨h.input c, h.output c, rfl, id, id⟩, Iff.rfl, rfl⟩

/-! ## The events -/

/-- The connection is in the state and has its buffers as before. -/
structure Moved (c c' : TcpConnection) (state : StateE) : Prop where
  state : c'.state = state
  inputBuffer : c'.inputBuffer = c.inputBuffer
  outputBuffer : c'.outputBuffer = c.outputBuffer
  accepted : c'.accepted = c.accepted

theorem handleClose_moved {c : TcpConnection} (h : Up c) :
    ∃ c', c.handleClose = .ok c' ∧ Moved c c'.closeCallback .kDisconnected ∧
      c'.state = .kDisconnected := by
  unfold TcpConnection.handleClose
  rw [check_of (show c.state = .kConnected ∨ c.state = .kDisconnecting from h), ok_bind]
  exact ⟨_, rfl, ⟨rfl, rfl, rfl, rfl⟩, rfl⟩

theorem connectEstablished_moved {c : TcpConnection} (h : c.state = .kConnecting) :
    ∃ c', c.connectEstablished = .ok c' ∧ Moved c c' .kConnected := by
  unfold TcpConnection.connectEstablished
  rw [check_of h, ok_bind]
  exact ⟨_, rfl, rfl, rfl, rfl, rfl⟩

theorem handleClose_spec (h : Inv s) {c : ℕ} (hup : Up (s.conns c)) :
    ∃ s', s.handleClose c = .ok s' ∧ Inv s' := by
  obtain ⟨conn, hclose, hmoved, hstate⟩ := handleClose_moved hup
  have herase : ∀ d, d ∈ (s.connections.erase c).1 ↔ d ≠ c ∧ d ∈ s.connections := fun d =>
    OrdSet.mem_erase
  have hkept : Kept (s.conns c) conn.closeCallback := by
    refine ⟨?_, ?_, ?_, ?_, ?_⟩
    · rw [hmoved.inputBuffer]
      exact h.linked.input c
    · rw [hmoved.outputBuffer]
      exact h.linked.output c
    · rw [hmoved.accepted, hmoved.outputBuffer]
    · rw [hmoved.state]
      exact fun hne => (by cases hne)
    · rw [hmoved.state]
      exact fun hne => (by cases hne)
  have hdown : ¬ Up conn.closeCallback := by
    unfold Up
    rw [hmoved.state]
    decide
  have hoff : ¬ ((s.setConn c conn).conns c).state = .kConnected := by
    rw [setConn_self, hstate]
    decide
  refine ⟨{ s.setConn c conn.closeCallback with connections := (s.connections.erase c).1 }, ?_, ?_,
    decoded_setConn h.decoded hmoved.inputBuffer _⟩
  · unfold ChatServer.handleClose
    rw [hclose, ok_bind, ChatServer.onConnection, if_neg hoff]
    simp only [ChatServer.setConn, Function.update_self, Function.update_idem]
    rfl
  · exact h.linked.keep hkept (iff_of_false (fun hm => ((herase c).1 hm).1 rfl) hdown)
      fun d hd => (herase d).trans (and_iff_right hd)

theorem up_spec (h : Inv s) {c : ℕ} (hnew : (s.conns c).state = .kConnecting) :
    ∃ s', step s (.up c) = .ok s' ∧ Inv s' := by
  obtain ⟨conn, hestablish, hmoved⟩ := connectEstablished_moved hnew
  have hstream : conn.accepted ++ conn.outputBuffer.readable = [] := by
    rw [hmoved.accepted, hmoved.outputBuffer]
    exact h.linked.fresh c hnew
  have hon : ((s.setConn c conn).conns c).state = .kConnected := by
    rw [setConn_self, hmoved.state]
  refine ⟨{ s.setConn c conn with
    connections := (s.connections.insert c).1
    joined := Function.update s.joined c s.log.length }, ?_, ⟨?_, ?_, ?_, ?_, ?_, ?_, ?_⟩, ?_⟩
  · rw [step, hestablish, ok_bind, ChatServer.onConnection, if_pos hon]
    rfl
  · exact h.linked.fits
  · refine forall_update (P := fun _ conn => conn.inputBuffer.Wf) h.linked.input ?_
    rw [hmoved.inputBuffer]
    exact h.linked.input c
  · refine forall_update (P := fun _ conn => conn.outputBuffer.Wf) h.linked.output ?_
    rw [hmoved.outputBuffer]
    exact h.linked.output c
  · intro d
    show d ∈ (s.connections.insert c).1 ↔ Up (Function.update s.conns c conn d)
    rw [OrdSet.mem_insert]
    by_cases hd : d = c
    · subst hd
      rw [Function.update_self]
      exact iff_of_true (Or.inl rfl) (Or.inl hmoved.state)
    · rw [Function.update_of_ne hd, or_iff_right hd]
      exact h.linked.member d
  · intro d
    show Function.update s.joined c s.log.length d ≤ s.log.length
    by_cases hd : d = c
    · subst hd
      rw [Function.update_self]
    · rw [Function.update_of_ne hd]
      exact h.linked.joined d
  · exact forall_update (P := fun _ conn => conn.state = .kConnecting →
      conn.accepted ++ conn.outputBuffer.readable = []) h.linked.fresh fun _ => hstream
  · intro d
    unfold since
    show ∃ heard, heard <+: (s.log.drop (Function.update s.joined c s.log.length d)).map _ ∧
      ((Function.update s.conns c conn d).state = .kConnected →
        heard = (s.log.drop (Function.update s.joined c s.log.length d)).map _) ∧
      (Function.update s.conns c conn d).accepted ++
        (Function.update s.conns c conn d).outputBuffer.readable = heard.flatMap frame
    by_cases hd : d = c
    · subst hd
      rw [Function.update_self, Function.update_self, List.drop_length]
      exact ⟨[], List.prefix_rfl, fun _ => rfl, hstream⟩
    · rw [Function.update_of_ne hd, Function.update_of_ne hd]
      exact h.linked.heard d
  · exact decoded_setConn h.decoded hmoved.inputBuffer (s.connections.insert c).1

theorem origin_append {s' : ChatServer} {c : ℕ} {messages : List Bytes}
    (hlog : s'.log = s.log ++ messages.map (c, ·)) (d : ℕ) :
    origin s' d = origin s d ++ if d = c then messages else [] := by
  unfold origin
  rw [hlog, List.filter_append, List.map_append]
  congr 1
  by_cases hd : d = c
  · subst hd
    rw [if_pos rfl, List.filter_eq_self.2 (by simp), List.map_map]
    exact List.map_id messages
  · rw [if_neg hd, List.filter_eq_nil_iff.2 (by simp [Ne.symm hd]), List.map_nil]

/-- The codec reads what is whole of the bytes that came, and the server passes it on. -/
theorem onMessage_spec {c : ℕ} {data : Bytes} (hlinked : Linked s)
    (hothers : ∀ d, d ≠ c → Decoded s d)
    (hfed : ∃ shutdown buf buf', feed Buffer.empty (s.received c) = .ok (origin s c, shutdown, buf) ∧
      buf.append data = .ok buf' ∧ buf'.Wf ∧ buf'.readable = (s.conns c).inputBuffer.readable)
    (rooms : ℕ → ℕ → Option ℕ) (d : ShutdownResult) :
    (∃ s', s.onMessage c data rooms d = .ok s' ∧ Inv s') ∨
      s.onMessage c data rooms d = .error .shutdownWrite ∧ d ≠ .success := by
  obtain ⟨buf, hcall, hwf, hrest⟩ := onMessage_eq_decode (hlinked.input c)
  obtain ⟨sd, old, old', hfeed, happend, hold', hsame⟩ := hfed
  obtain ⟨buf', hcall', hwf', hrest'⟩ := onMessage_eq_decode hold'
  rw [hsame] at hcall' hrest'
  generalize hdecode : decode ((s.conns c).inputBuffer.readable.length + 1)
    (s.conns c).inputBuffer.readable = result at hcall hcall' hrest hrest'
  obtain ⟨messages, shutdown, rest⟩ := result
  have hfits : ∀ message ∈ messages, Fits message := fun m hm =>
    fits_of_mem_decode (by rw [hdecode]; exact hm)
  have htaken : Linked { s.setConn c { s.conns c with inputBuffer := buf } with
      received := Function.update s.received c (s.received c ++ [data]) } := by
    obtain ⟨h₁, h₂, h₃, h₄, h₅, h₆, h₇⟩ := hlinked.setInput c hwf
    exact ⟨h₁, h₂, h₃, h₄, h₅, h₆, h₇⟩
  obtain ⟨s', hs', hlinked', hlog, hreceived, hinput⟩ := onStringMessages_spec htaken hfits c rooms
  have hdecoded : ∀ d, Decoded s' d := by
    intro d
    unfold Decoded
    rw [origin_append (s := s) hlog d, hreceived, hinput]
    dsimp only [ChatServer.setConn]
    by_cases hd : d = c
    · subst hd
      rw [if_pos rfl, Function.update_self, Function.update_self]
      exact ⟨sd || shutdown, buf', feed_concat hfeed happend hcall', hwf', hrest'.trans hrest.symm⟩
    · rw [if_neg hd, List.append_nil, Function.update_of_ne hd, Function.update_of_ne hd]
      exact hothers d hd
  unfold ChatServer.onMessage
  rw [hcall, ok_bind]
  dsimp only
  rw [hs', ok_bind]
  split_ifs
  · rcases TcpConnection.shutdown_cases (s'.conns c) d with hdown | ⟨hfault, hd⟩
    · obtain ⟨hkept, hup, hin⟩ := shutDown_kept hlinked' c
      rw [hdown]
      exact .inl ⟨_, rfl, hlinked'.setConn hkept hup, decoded_setConn hdecoded hin _⟩
    · rw [hfault]
      exact .inr ⟨rfl, hd⟩
  · exact .inl ⟨s', rfl, hlinked', hdecoded⟩

theorem read_spec (h : Inv s) {c : ℕ} (hup : Up (s.conns c)) (r : ReadvResult)
    (rooms : ℕ → ℕ → Option ℕ) (d : ShutdownResult) :
    (∃ s', s.handleRead c r rooms d = .ok s' ∧ Inv s') ∨
      s.handleRead c r rooms d = .error .shutdownWrite ∧ d ≠ .success := by
  unfold ChatServer.handleRead TcpConnection.handleRead
  cases r with
  | fail errno =>
    exact .inl ⟨_, rfl, h.linked.setConn ⟨h.linked.input c, h.linked.output c, rfl, id, id⟩ Iff.rfl,
      decoded_setConn h.decoded rfl _⟩
  | read data =>
    obtain ⟨b, hread, hwf, hreadable⟩ := (h.linked.input c).readFd_read data
    rw [hread, ok_bind, pure_bind]
    have hlinked := h.linked.setInput c hwf
    have hothers : ∀ d, d ≠ c → Decoded (s.setConn c { s.conns c with inputBuffer := b }) d := by
      intro d hd
      unfold Decoded ChatServer.setConn
      dsimp only
      rw [Function.update_of_ne hd]
      exact h.decoded d
    obtain ⟨sd, old, hfeed, hold, hsame⟩ := h.decoded c
    obtain ⟨old', happend, hold', hread'⟩ := hold.append data
    have hsame' : old'.readable = b.readable := by rw [hread', hsame, hreadable]
    cases hlen : data.length with
    | zero =>
      -- the peer has closed the connection
      dsimp only
      obtain rfl := List.length_eq_zero_iff.1 hlen
      refine .inl (handleClose_spec ⟨hlinked, fun d => ?_⟩ (by rw [setConn_self]; exact hup))
      by_cases hd : d = c
      · subst hd
        refine ⟨sd, old, hfeed, hold, ?_⟩
        rw [setConn_self]
        show old.readable = b.readable
        rw [hsame, hreadable, List.append_nil]
      · exact hothers d hd
    | succ n =>
      dsimp only
      refine onMessage_spec hlinked hothers ⟨sd, old, old', hfeed, happend, hold', ?_⟩ rooms d
      rw [setConn_self]
      exact hsame'

/-- Unless `handleWrite` hands bytes to the kernel, it changes nothing that counts. -/
theorem write_spec (h : Inv s) {c : ℕ} {room : Option ℕ} {d : ShutdownResult}
    (hroom : NoDeferredWrite s (.write c room d)) :
    ∃ s', step s (.write c room d) = .ok s' ∧ Inv s' := by
  obtain ⟨hfits, -, -⟩ := (accepts_ofRoom room (s.conns c).outputBuffer.readableBytes).fits
  obtain ⟨conn, hconn, hwf, hlife, hread, hacc⟩ :=
    TcpConnection.handleWrite_of_fits (h.linked.output c) hfits d
  have hnone : conn.accepted = (s.conns c).accepted := by
    rw [hacc]
    unfold NoDeferredWrite at hroom
    cases room with
    | none => exact List.append_nil _
    | some n =>
      dsimp only [ofRoom, TcpConnection.written]
      split_ifs with hwriting
      · rcases hroom hwriting with hn | hn
        · cases hn
        · obtain rfl := Option.some.inj hn
          rw [Nat.zero_min, List.take_zero, List.append_nil]
      · exact List.append_nil _
  refine ⟨s.setConn c conn, by rw [step, hconn]; rfl,
    h.linked.setConn ⟨?_, hwf, ?_, ?_, ?_⟩ ?_, decoded_setConn h.decoded hlife.inputBuffer _⟩
  · rw [hlife.inputBuffer]
    exact h.linked.input c
  · rw [hnone, hread]
  · exact fun hc => hlife.state.symm.trans hc
  · exact fun hc => hlife.state.symm.trans hc
  · unfold Up
    rw [hlife.state]

theorem step_spec (h : Inv s) {e : Event} (henv : Env s e) (hwrite : NoDeferredWrite s e) :
    (∃ s', machine.step s e = .ok s' ∧ Inv s') ∨
      machine.step s e = .error .shutdownWrite ∧ ¬ e.Succeeds := by
  cases e with
  | up c => exact .inl (up_spec h henv)
  | read c r rooms d => exact read_spec h henv r rooms d
  | hangUp c => exact .inl (handleClose_spec h henv)
  | write c room d => exact .inl (write_spec h hwrite)

/-! ## What a reader hears -/

end Chat

end Reactor
