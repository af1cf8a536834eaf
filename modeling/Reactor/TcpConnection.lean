import Reactor.Buffer
import Reactor.Channel

/-!
# TcpConnection

The members of a `TcpConnection`, the functors and timers it has left with its loop, and what the
outside sees of it: the bytes the kernel accepted, whether the write half was shut down, and the
callbacks that were invoked.

The outcome of a system call is an argument of the function that makes it.  A function that invokes
a user callback is cut at the invocation, since the callback may call back into the connection: what
follows the invocation is a function of its own (`handleClose` and `closeCallback`, for instance).
The members are not protected by a lock, and one call of a member function is one step here.
-/

namespace Reactor

/-- `TcpConnection::StateE` -/
inductive StateE where
  | kDisconnected
  | kConnecting
  | kConnected
  | kDisconnecting
  deriving DecidableEq, Repr

/-- The error numbers that `sendInLoop` tells apart. -/
inductive Errno where
  | EWOULDBLOCK
  | EPIPE
  | ECONNRESET
  | other (errno : ℕ)
  deriving DecidableEq, Repr

/-- The outcome of `write(2)`. -/
inductive WriteResult where
  | wrote (n : ℕ)
  | fail (errno : Errno)
  deriving DecidableEq, Repr

/-- `write(2)` accepts at most what it is given. -/
def WriteResult.Fits (len : ℕ) : WriteResult → Prop
  | .wrote n => n ≤ len
  | .fail _ => True

instance (len : ℕ) : ∀ w : WriteResult, Decidable (w.Fits len)
  | .wrote n => inferInstanceAs (Decidable (n ≤ len))
  | .fail _ => isTrue trivial

/-- The invocation of a callback; a connection callback is told the state it sees. -/
inductive Callback where
  | connection (state : StateE)
  | message
  | writeComplete
  | highWaterMark (len : ℕ)
  | close
  deriving DecidableEq, Repr

/-- What a connection leaves in its loop's `pendingFunctors_`. -/
inductive Functor where
  | sendInLoop (message : Bytes)
  | shutdownInLoop
  | forceCloseInLoop
  | writeComplete
  | highWaterMark (len : ℕ)
  | setCloseCallback
  deriving DecidableEq, Repr

/-- `TcpConnection` -/
structure TcpConnection where
  state : StateE
  channel : Channel
  inputBuffer : Buffer
  outputBuffer : Buffer
  -- whether `writeCompleteCallback_` and `highWaterMarkCallback_` are set
  writeCompleteCallback : Bool
  highWaterMarkCallback : Bool
  highWaterMark : ℕ
  -- left with the loop: queued functors, and timers of `forceCloseWithDelay`
  pendingFunctors : List Functor
  delayTimers : ℕ
  -- seen from outside
  accepted : Bytes
  writeHalfClosed : Bool
  callbacks : List Callback
  deriving DecidableEq, Repr

namespace TcpConnection

/-- The constructor; the callbacks are set before the connection is used. -/
def new (fd : ℕ) (writeCompleteCallback highWaterMarkCallback : Bool) (highWaterMark : ℕ) :
    TcpConnection where
  state := .kConnecting
  channel := Channel.new fd
  inputBuffer := Buffer.empty
  outputBuffer := Buffer.empty
  writeCompleteCallback := writeCompleteCallback
  highWaterMarkCallback := highWaterMarkCallback
  highWaterMark := highWaterMark
  pendingFunctors := []
  delayTimers := 0
  accepted := []
  writeHalfClosed := false
  callbacks := []

/-- `loop_->queueInLoop` -/
def queueInLoop (c : TcpConnection) (f : Functor) : TcpConnection :=
  { c with pendingFunctors := c.pendingFunctors ++ [f] }

/-- A callback is invoked. -/
def invoke (c : TcpConnection) (cb : Callback) : TcpConnection :=
  { c with callbacks := c.callbacks ++ [cb] }

/-! ## Sending -/

/-- The first half of `sendInLoop`: write to an idle socket.  Returns `nwrote` and `faultError`. -/
def writeDirectly (c : TcpConnection) (data : Bytes) : WriteResult → ℕ × Bool × TcpConnection
  | .wrote n =>
    let c := { c with accepted := c.accepted ++ data.take n }
    (n, false, if data.length - n = 0 ∧ c.writeCompleteCallback then c.queueInLoop .writeComplete else c)
  | .fail errno => (0, errno = .EPIPE ∨ errno = .ECONNRESET, c)

/-- The second half of `sendInLoop`: keep what was not written. -/
def bufferRest (c : TcpConnection) (rest : Bytes) : Except Fault TcpConnection := do
  let oldLen := c.outputBuffer.readableBytes
  let c := if c.highWaterMark ≤ oldLen + rest.length ∧ oldLen < c.highWaterMark ∧
      c.highWaterMarkCallback then c.queueInLoop (.highWaterMark (oldLen + rest.length)) else c
  let outputBuffer ← c.outputBuffer.append rest
  let c := { c with outputBuffer := outputBuffer }
  return if c.channel.isWriting then c else { c with channel := c.channel.enableWriting }

def sendInLoop (c : TcpConnection) (data : Bytes) (w : WriteResult) :
    Except Fault TcpConnection := do
  if c.state = .kDisconnected then return c
  let (nwrote, faultError, c) :=
    if ¬ c.channel.isWriting ∧ c.outputBuffer.readableBytes = 0 then c.writeDirectly data w
    else (0, false, c)
  -- `remaining = len - nwrote` is a `size_t`: it exceeds `len` when `nwrote` does
  check .sendInLoop (nwrote ≤ data.length)
  let remaining := data.length - nwrote
  if ¬ faultError ∧ 0 < remaining then c.bufferRest (data.drop nwrote) else return c

/-- `send`: on the loop's thread at once, from another thread through the loop. -/
def send (c : TcpConnection) (inLoop : Bool) (message : Bytes) (w : WriteResult) :
    Except Fault TcpConnection :=
  if c.state = .kConnected then
    if inLoop then c.sendInLoop message w else return c.queueInLoop (.sendInLoop message)
  else return c

/-- `Socket::shutdownWrite`; `d` is the outcome of `shutdown(2)`, which fails on a connection that the
peer has reset. -/
def shutdownWrite (c : TcpConnection) (d : ShutdownResult) : Except Fault TcpConnection := do
  check .shutdownWrite (d = .success)
  return { c with writeHalfClosed := true }

def shutdownInLoop (c : TcpConnection) (d : ShutdownResult) : Except Fault TcpConnection :=
  if ¬ c.channel.isWriting then c.shutdownWrite d else return c

/-- The end of `handleWrite`, when all data is written. -/
def writeFinished (c : TcpConnection) (d : ShutdownResult) : Except Fault TcpConnection :=
  let c := { c with channel := c.channel.disableWriting }
  let c := if c.writeCompleteCallback then c.queueInLoop .writeComplete else c
  if c.state = .kDisconnecting then c.shutdownInLoop d else return c

/-- `handleWrite`.  It retrieves `0` bytes, whatever `write(2)` accepted. -/
def handleWrite (c : TcpConnection) (w : WriteResult) (d : ShutdownResult) :
    Except Fault TcpConnection := do
  if c.channel.isWriting then
    match w with
    | .wrote n =>
      if 0 < n then
        let outputBuffer ← c.outputBuffer.retrieve 0
        let c := { c with
          accepted := c.accepted ++ c.outputBuffer.readable.take n, outputBuffer := outputBuffer }
        if c.outputBuffer.readableBytes = 0 then c.writeFinished d else return c
      else return c
    | .fail _ => return c
  else return c

/-! ## Opening and closing -/

/-- `connectEstablished`, the invocation of `connectionCallback_` included. -/
def connectEstablished (c : TcpConnection) : Except Fault TcpConnection := do
  check .connectEstablished (c.state = .kConnecting)
  let c := { c with state := .kConnected, channel := c.channel.enableReading }
  return c.invoke (.connection c.state)

/-- `shutdown`: `runInLoop` runs `shutdownInLoop` at once on the loop's thread. -/
def shutdown (c : TcpConnection) (inLoop : Bool) (d : ShutdownResult) : Except Fault TcpConnection :=
  if c.state = .kConnected then
    let c := { c with state := .kDisconnecting }
    if inLoop then c.shutdownInLoop d else return c.queueInLoop .shutdownInLoop
  else return c

def forceClose (c : TcpConnection) : TcpConnection :=
  if c.state = .kConnected ∨ c.state = .kDisconnected then
    { c with state := .kDisconnecting }.queueInLoop .forceCloseInLoop
  else c

def forceCloseWithDelay (c : TcpConnection) : TcpConnection :=
  if c.state = .kConnected ∨ c.state = .kDisconnecting then
    { c with state := .kDisconnecting, delayTimers := c.delayTimers + 1 }
  else c

/-- The part of `~TcpClient` that concerns its connection: `unique` says whether the client held the
only pointer to it. -/
def tcpClientDtor (c : TcpConnection) (inLoop unique : Bool) : TcpConnection :=
  let c := if inLoop then c else c.queueInLoop .setCloseCallback
  if unique then c.forceClose else c

/-- `handleClose` up to the invocation of `connectionCallback_`. -/
def handleClose (c : TcpConnection) : Except Fault TcpConnection := do
  check .handleClose (c.state = .kConnected ∨ c.state = .kDisconnecting)
  let c := { c with state := .kDisconnected, channel := c.channel.disableAll }
  return c.invoke (.connection c.state)

/-- `handleRead` up to the choice of what to do with the outcome of `readFd`. -/
def handleRead (c : TcpConnection) (r : ReadvResult) :
    Except Fault (Except ℕ ℕ × TcpConnection) := do
  let (n, inputBuffer) ← c.inputBuffer.readFd r
  return (n, { c with inputBuffer := inputBuffer })

/-- The rest of `handleClose`. -/
def closeCallback (c : TcpConnection) : TcpConnection := c.invoke .close

/-- The first part of `connectDestroyed`, up to the invocation of `connectionCallback_` in the
branch that has one. -/
def connectDestroyed (c : TcpConnection) : TcpConnection :=
  if c.state = .kConnected then
    { c with state := .kDisconnected, channel := c.channel.disableAll }.invoke
      (.connection .kDisconnected)
  else c

/-- The rest of `connectDestroyed`. -/
def removeChannel (c : TcpConnection) : Except Fault TcpConnection := do
  return { c with channel := ← c.channel.remove }

/-! ## What sending changes -/

/-- Sending leaves alone what decides the life of the connection, and queues callbacks only. -/
structure SameLife (c c' : TcpConnection) : Prop where
  state : c'.state = c.state
  inputBuffer : c'.inputBuffer = c.inputBuffer
  callbacks : c'.callbacks = c.callbacks
  delayTimers : c'.delayTimers = c.delayTimers
  functors : ∃ fs, c'.pendingFunctors = c.pendingFunctors ++ fs ∧ .forceCloseInLoop ∉ fs
  quiet : c.state = .kDisconnected → c.channel.events = Channel.kNoneEvent →
    c'.channel.events = Channel.kNoneEvent

theorem SameLife.refl (c : TcpConnection) : SameLife c c :=
  ⟨rfl, rfl, rfl, rfl, ⟨[], by simp, by simp⟩, fun _ h => h⟩

theorem SameLife.trans {c₁ c₂ c₃ : TcpConnection} (h : SameLife c₁ c₂) (h' : SameLife c₂ c₃) :
    SameLife c₁ c₃ := by
  obtain ⟨fs, hfs, hn⟩ := h.functors
  obtain ⟨fs', hfs', hn'⟩ := h'.functors
  refine ⟨h'.state.trans h.state, h'.inputBuffer.trans h.inputBuffer,
    h'.callbacks.trans h.callbacks, h'.delayTimers.trans h.delayTimers, ⟨fs ++ fs', ?_, ?_⟩, ?_⟩
  · rw [hfs', hfs, List.append_assoc]
  · simp [hn, hn']
  · intro hdown hnone
    exact h'.quiet (h.state.trans hdown) (h.quiet hdown hnone)

theorem sameLife_queueInLoop (c : TcpConnection) {f : Functor} (hf : f ≠ .forceCloseInLoop) :
    SameLife c (c.queueInLoop f) :=
  ⟨rfl, rfl, rfl, rfl, ⟨[f], rfl, by simpa using hf.symm⟩, fun _ h => h⟩

/-- A conditional `queueInLoop` of a callback. -/
theorem sameLife_ite_queueInLoop (c : TcpConnection) {f : Functor} (hf : f ≠ .forceCloseInLoop)
    (p : Prop) [Decidable p] : SameLife c (if p then c.queueInLoop f else c) := by
  split_ifs
  · exact sameLife_queueInLoop c hf
  · exact SameLife.refl c

/-- The callback that `bufferRest` queues, if it does. -/
def highWaterFunctors (c : TcpConnection) (rest : Bytes) : List Functor :=
  if c.highWaterMark ≤ c.outputBuffer.readableBytes + rest.length ∧
      c.outputBuffer.readableBytes < c.highWaterMark ∧ c.highWaterMarkCallback
  then [.highWaterMark (c.outputBuffer.readableBytes + rest.length)] else []

/-- The connection after `bufferRest`; `b` holds the rest as well. -/
def buffered (c : TcpConnection) (rest : Bytes) (b : Buffer) : TcpConnection :=
  { c with
    outputBuffer := b
    channel := if c.channel.isWriting then c.channel else c.channel.enableWriting
    pendingFunctors := c.pendingFunctors ++ c.highWaterFunctors rest }

theorem bufferRest_eq {c : TcpConnection} (h : c.outputBuffer.Wf) (rest : Bytes) :
    ∃ b, b.Wf ∧ b.readable = c.outputBuffer.readable ++ rest ∧
      c.bufferRest rest = .ok (c.buffered rest b) := by
  obtain ⟨b, hb, hwf, hread⟩ := h.append rest
  have hqueue : (if c.highWaterMark ≤ c.outputBuffer.readableBytes + rest.length ∧
      c.outputBuffer.readableBytes < c.highWaterMark ∧ c.highWaterMarkCallback
    then c.queueInLoop (.highWaterMark (c.outputBuffer.readableBytes + rest.length)) else c) =
      { c with pendingFunctors := c.pendingFunctors ++ c.highWaterFunctors rest } := by
    unfold highWaterFunctors
    split_ifs
    · rfl
    · rw [List.append_nil]
  refine ⟨b, hwf, hread, ?_⟩
  unfold bufferRest buffered
  dsimp only
  rw [hqueue]
  dsimp only
  rw [hb, ok_bind]
  by_cases hwriting : c.channel.isWriting = true
  · rw [if_pos hwriting, if_pos hwriting]
    rfl
  · rw [if_neg hwriting, if_neg hwriting]
    rfl

theorem bufferRest_spec {c : TcpConnection} (h : c.outputBuffer.Wf)
    (hup : c.state ≠ .kDisconnected) (rest : Bytes) :
    ∃ c', c.bufferRest rest = .ok c' ∧ c'.outputBuffer.Wf ∧ SameLife c c' ∧
      c'.accepted = c.accepted ∧ c'.outputBuffer.readable = c.outputBuffer.readable ++ rest := by
  obtain ⟨b, hwf, hread, heq⟩ := bufferRest_eq h rest
  have hfs : .forceCloseInLoop ∉ c.highWaterFunctors rest := by
    unfold highWaterFunctors
    split_ifs <;> simp
  exact ⟨_, heq, hwf, ⟨rfl, rfl, rfl, rfl, ⟨_, rfl, hfs⟩, fun hdown => absurd hdown hup⟩, rfl, hread⟩

/-- The connection after a direct write that handed `n` bytes to the kernel and queued `fs`. -/
def handed (c : TcpConnection) (data : Bytes) (n : ℕ) (fs : List Functor) : TcpConnection :=
  { c with accepted := c.accepted ++ data.take n, pendingFunctors := c.pendingFunctors ++ fs }

theorem handed_zero (c : TcpConnection) (data : Bytes) : c.handed data 0 [] = c := by
  simp [handed]

theorem writeDirectly_eq (c : TcpConnection) (data : Bytes) (w : WriteResult) :
    ∃ n faultError fs, c.writeDirectly data w = (n, faultError, c.handed data n fs) ∧
      (w.Fits data.length → n ≤ data.length) ∧ (fs = [] ∨ fs = [.writeComplete]) ∧
      (faultError = true → w = .fail .EPIPE ∨ w = .fail .ECONNRESET) := by
  cases w with
  | fail errno =>
    exact ⟨0, errno = .EPIPE ∨ errno = .ECONNRESET, [], by rw [handed_zero]; rfl,
      fun _ => Nat.zero_le _, Or.inl rfl, by simp⟩
  | wrote n =>
    by_cases hall : data.length - n = 0 ∧ c.writeCompleteCallback = true
    · refine ⟨n, false, [.writeComplete], ?_, id, Or.inr rfl, by simp⟩
      unfold writeDirectly
      dsimp only
      rw [if_pos hall]
      rfl
    · refine ⟨n, false, [], ?_, id, Or.inl rfl, by simp⟩
      unfold writeDirectly handed
      dsimp only
      rw [if_neg hall, List.append_nil]

theorem sendInLoop_of_down {c : TcpConnection} (h : c.state = .kDisconnected) (data : Bytes)
    (w : WriteResult) : c.sendInLoop data w = .ok c := by
  simp only [sendInLoop, if_pos h]
  rfl

/-- What `sendInLoop` can do on a connection that is up: it hands `n` bytes to the kernel, none unless
the output buffer is empty, and keeps the rest, unless there is none or the peer is gone. -/
theorem sendInLoop_cases {c : TcpConnection} (hup : c.state ≠ .kDisconnected) {data : Bytes}
    {w : WriteResult} (hw : w.Fits data.length) :
    ∃ n fs, n ≤ data.length ∧ (n = 0 ∨ c.outputBuffer.readableBytes = 0) ∧
      (fs = [] ∨ fs = [.writeComplete]) ∧
      ((c.sendInLoop data w = .ok (c.handed data n fs) ∧
          (n = data.length ∨ w = .fail .EPIPE ∨ w = .fail .ECONNRESET)) ∨
        (n < data.length ∧
          c.sendInLoop data w = (c.handed data n fs).bufferRest (data.drop n))) := by
  unfold sendInLoop
  rw [if_neg hup]
  by_cases hidle : ¬ c.channel.isWriting ∧ c.outputBuffer.readableBytes = 0
  · -- nothing is waiting: the kernel is offered the message first
    obtain ⟨n, faultError, fs, heq, hfits, hfs, hfault⟩ := writeDirectly_eq c data w
    refine ⟨n, fs, hfits hw, Or.inr hidle.2, hfs, ?_⟩
    rw [if_pos hidle, heq]
    dsimp only
    rw [check_of (hfits hw), ok_bind]
    by_cases hrest : ¬ faultError = true ∧ 0 < data.length - n
    · rw [if_pos hrest]
      exact Or.inr ⟨by omega, rfl⟩
    · rw [if_neg hrest]
      refine Or.inl ⟨rfl, ?_⟩
      by_cases hf : faultError = true
      · exact Or.inr (hfault hf)
      · have hle := hfits hw
        have hnone := not_and.1 hrest hf
        exact Or.inl (by omega)
  · -- something is waiting: the message queues up behind it
    refine ⟨0, [], Nat.zero_le _, Or.inl rfl, Or.inl rfl, ?_⟩
    rw [if_neg hidle, handed_zero]
    dsimp only
    rw [check_of (Nat.zero_le _), ok_bind]
    by_cases hrest : 0 < data.length
    · rw [if_pos (by simpa using hrest)]
      exact Or.inr ⟨hrest, rfl⟩
    · rw [if_neg (by simpa using hrest)]
      exact Or.inl ⟨rfl, Or.inl (by omega)⟩

/-- Unless the peer is gone, what `sendInLoop` does not hand to the kernel it keeps. -/
theorem sendInLoop_spec {c : TcpConnection} (h : c.outputBuffer.Wf) {data : Bytes}
    {w : WriteResult} (hw : w.Fits data.length) :
    ∃ c', c.sendInLoop data w = .ok c' ∧ c'.outputBuffer.Wf ∧ SameLife c c' ∧
      (c.state ≠ .kDisconnected → w ≠ .fail .EPIPE → w ≠ .fail .ECONNRESET →
        c'.accepted ++ c'.outputBuffer.readable =
          c.accepted ++ c.outputBuffer.readable ++ data) := by
  by_cases hdown : c.state = .kDisconnected
  · exact ⟨c, sendInLoop_of_down hdown data w, h, SameLife.refl c, fun hup => absurd hdown hup⟩
  obtain ⟨n, fs, hle, hidle, hfs, hcases⟩ := sendInLoop_cases hdown hw
  have hlife : SameLife c (c.handed data n fs) :=
    ⟨rfl, rfl, rfl, rfl, ⟨fs, rfl, by rcases hfs with rfl | rfl <;> simp⟩, fun _ h => h⟩
  have hmove : (c.handed data n fs).accepted ++ c.outputBuffer.readable =
      c.accepted ++ c.outputBuffer.readable ++ data.take n := by
    rcases hidle with rfl | hempty
    · simp [handed]
    · rw [← h.length_readable, List.length_eq_zero_iff] at hempty
      simp [handed, hempty]
  rcases hcases with ⟨hok, hall⟩ | ⟨-, heq⟩
  · refine ⟨_, hok, h, hlife, fun _ hpipe hreset => ?_⟩
    have hn : n = data.length := by
      rcases hall with hn | hgone | hgone
      · exact hn
      · exact absurd hgone hpipe
      · exact absurd hgone hreset
    rw [show (c.handed data n fs).outputBuffer = c.outputBuffer from rfl, hmove, hn, List.take_length]
  · obtain ⟨c', hc', hwf, hlife', hacc, hread⟩ :=
      bufferRest_spec (c := c.handed data n fs) h hdown (data.drop n)
    refine ⟨c', heq.trans hc', hwf, hlife.trans hlife', fun _ _ _ => ?_⟩
    rw [hacc, hread, show (c.handed data n fs).outputBuffer = c.outputBuffer from rfl,
      ← List.append_assoc, hmove, List.append_assoc, List.take_append_drop]

/-- The connection after a `shutdownInLoop` that returns. -/
def halfClosed (c : TcpConnection) : TcpConnection :=
  if ¬ c.channel.isWriting then { c with writeHalfClosed := true } else c

@[simp] theorem shutdownInLoop_success (c : TcpConnection) :
    c.shutdownInLoop .success = .ok c.halfClosed := by
  unfold shutdownInLoop halfClosed
  split_ifs
  · rfl
  · rfl

theorem shutdownInLoop_cases (c : TcpConnection) (d : ShutdownResult) :
    c.shutdownInLoop d = .ok c.halfClosed ∨
      c.shutdownInLoop d = .error .shutdownWrite ∧ d ≠ .success := by
  by_cases hd : d = .success
  · rw [hd]
    exact Or.inl (shutdownInLoop_success c)
  · unfold shutdownInLoop halfClosed
    split_ifs
    · exact Or.inl rfl
    · refine Or.inr ⟨?_, hd⟩
      rw [shutdownWrite, check_of_not hd]
      rfl

theorem of_shutdownInLoop {c c' : TcpConnection} {d : ShutdownResult}
    (h : c.shutdownInLoop d = .ok c') : c' = c.halfClosed := by
  rcases shutdownInLoop_cases c d with hok | ⟨herr, -⟩
  · exact Except.ok.inj (h.symm.trans hok)
  · cases h.symm.trans herr

theorem sameLife_halfClosed (c : TcpConnection) : SameLife c c.halfClosed := by
  unfold halfClosed
  split_ifs
  · exact SameLife.refl c
  · exact ⟨rfl, rfl, rfl, rfl, ⟨[], by simp, by simp⟩, fun _ h => h⟩

@[simp] theorem halfClosed_outputBuffer (c : TcpConnection) :
    c.halfClosed.outputBuffer = c.outputBuffer := by
  unfold halfClosed
  split_ifs <;> rfl

@[simp] theorem halfClosed_accepted (c : TcpConnection) : c.halfClosed.accepted = c.accepted := by
  unfold halfClosed
  split_ifs <;> rfl

/-- The connection after a `shutdown` on the loop's thread that returns. -/
def shutDown (c : TcpConnection) : TcpConnection :=
  if c.state = .kConnected then { c with state := .kDisconnecting }.halfClosed else c

@[simp] theorem shutdown_success (c : TcpConnection) : c.shutdown true .success = .ok c.shutDown := by
  unfold shutdown shutDown
  dsimp only
  split_ifs with hup hloop
  · exact shutdownInLoop_success _
  · exact absurd rfl hloop
  · rfl

theorem shutdown_cases (c : TcpConnection) (d : ShutdownResult) :
    c.shutdown true d = .ok c.shutDown ∨
      c.shutdown true d = .error .shutdownWrite ∧ d ≠ .success := by
  unfold shutdown shutDown
  split_ifs with hup hloop
  · exact shutdownInLoop_cases _ d
  · exact absurd rfl hloop
  · exact Or.inl rfl

/-- A `shutdown` on another thread is left to the loop. -/
theorem shutdown_off_loop (c : TcpConnection) (d : ShutdownResult) : c.shutdown false d =
    .ok (if c.state = .kConnected then
      { c with state := .kDisconnecting }.queueInLoop .shutdownInLoop else c) := by
  unfold shutdown
  split_ifs with hup hloop
  · cases hloop
  · rfl
  · rfl

/-- The connection after a `writeFinished` that returns. -/
def finished (c : TcpConnection) : TcpConnection :=
  let c := { c with channel := c.channel.disableWriting }
  let c := if c.writeCompleteCallback then c.queueInLoop .writeComplete else c
  if c.state = .kDisconnecting then c.halfClosed else c

theorem writeFinished_cases (c : TcpConnection) (d : ShutdownResult) :
    c.writeFinished d = .ok c.finished ∨
      c.writeFinished d = .error .shutdownWrite ∧ d ≠ .success := by
  unfold writeFinished finished
  dsimp only
  split_ifs
  · exact shutdownInLoop_cases _ d
  · exact Or.inl rfl
  · exact shutdownInLoop_cases _ d
  · exact Or.inl rfl

theorem finished_spec (c : TcpConnection) :
    SameLife c c.finished ∧ c.finished.outputBuffer = c.outputBuffer ∧
      c.finished.accepted = c.accepted := by
  have hoff : SameLife c { c with channel := c.channel.disableWriting } :=
    ⟨rfl, rfl, rfl, rfl, ⟨[], by simp, by simp⟩, fun _ h => by
      simp [Channel.disableWriting, Channel.update, h, Channel.kNoneEvent]⟩
  have hdone := hoff.trans (sameLife_ite_queueInLoop { c with channel := c.channel.disableWriting }
    (f := .writeComplete) (by decide) (c.writeCompleteCallback = true))
  unfold finished
  dsimp only
  split_ifs at hdone ⊢
  · exact ⟨hdone.trans (sameLife_halfClosed _), halfClosed_outputBuffer _, halfClosed_accepted _⟩
  · exact ⟨hdone, rfl, rfl⟩
  · exact ⟨hdone.trans (sameLife_halfClosed _), halfClosed_outputBuffer _, halfClosed_accepted _⟩
  · exact ⟨hdone, rfl, rfl⟩

/-- The connection after a write of `n` bytes in `handleWrite`, which keeps them in `b`. -/
def rewritten (c : TcpConnection) (n : ℕ) (b : Buffer) : TcpConnection :=
  { c with accepted := c.accepted ++ c.outputBuffer.readable.take n, outputBuffer := b }

/-- What `handleWrite` can do: nothing, unless bytes are written on a writing channel. -/
theorem handleWrite_cases {c : TcpConnection} (h : c.outputBuffer.Wf) (w : WriteResult)
    (d : ShutdownResult) :
    (c.handleWrite w d = .ok c ∧ ∀ n, w = .wrote n → c.channel.isWriting = true → n = 0) ∨
    ∃ n b, w = .wrote n ∧ 0 < n ∧ c.channel.isWriting = true ∧ b.Wf ∧
      b.readable = c.outputBuffer.readable ∧ c.handleWrite w d =
        if b.readableBytes = 0 then (c.rewritten n b).writeFinished d else .ok (c.rewritten n b) := by
  unfold handleWrite
  by_cases hwriting : c.channel.isWriting = true
  · rw [if_pos hwriting]
    cases w with
    | fail errno => exact Or.inl ⟨rfl, fun n hn => by cases hn⟩
    | wrote n =>
      dsimp only
      by_cases hn : 0 < n
      · obtain ⟨b, hb, hwf, hread⟩ := h.retrieve (Nat.zero_le _)
        rw [if_pos hn, hb, ok_bind]
        exact Or.inr ⟨n, b, rfl, hn, hwriting, hwf, hread, rfl⟩
      · rw [if_neg hn]
        refine Or.inl ⟨rfl, fun k hk _ => ?_⟩
        obtain rfl := WriteResult.wrote.inj hk
        omega
  · rw [if_neg hwriting]
    exact Or.inl ⟨rfl, fun _ _ hw => absurd hw hwriting⟩

/-- When the kernel takes no more than it is offered, `handleWrite` does not see its buffer empty. -/
theorem handleWrite_eq_of_fits {c : TcpConnection} (h : c.outputBuffer.Wf) {w : WriteResult}
    (hw : w.Fits c.outputBuffer.readableBytes) (d : ShutdownResult) :
    c.handleWrite w d = .ok c ∨
      ∃ n b, b.Wf ∧ b.readable = c.outputBuffer.readable ∧ c.handleWrite w d = .ok (c.rewritten n b) := by
  rcases handleWrite_cases h w d with ⟨hok, -⟩ | ⟨n, b, rfl, hn, -, hwf, hread, hok⟩
  · exact Or.inl hok
  · have hlen : n ≤ c.outputBuffer.readableBytes := hw
    rw [← h.length_readable, ← hread, hwf.length_readable] at hlen
    rw [if_neg (by omega)] at hok
    exact Or.inr ⟨n, b, hwf, hread, hok⟩

/-- The bytes that `handleWrite` hands to the kernel. -/
def written (c : TcpConnection) : WriteResult → Bytes
  | .wrote n => if c.channel.isWriting then c.outputBuffer.readable.take n else []
  | .fail _ => []

/-- `handleWrite` hands bytes to the kernel and keeps them: the output buffer holds the same bytes
as before.  It does not get as far as the half-close if `write(2)` took no more than there was. -/
theorem handleWrite_spec {c : TcpConnection} (h : c.outputBuffer.Wf) (w : WriteResult)
    (d : ShutdownResult) :
    (∃ c', c.handleWrite w d = .ok c' ∧ c'.outputBuffer.Wf ∧ SameLife c c' ∧
      c'.outputBuffer.readable = c.outputBuffer.readable ∧
      c'.accepted = c.accepted ++ c.written w) ∨
    c.handleWrite w d = .error .shutdownWrite ∧ d ≠ .success ∧ ¬ w.Fits c.outputBuffer.readableBytes := by
  rcases handleWrite_cases h w d with ⟨hok, hzero⟩ | ⟨n, b, rfl, hn, hwriting, hwf, hread, hok⟩
  · refine Or.inl ⟨c, hok, h, SameLife.refl c, rfl, ?_⟩
    cases w with
    | fail errno => exact (List.append_nil _).symm
    | wrote n =>
      unfold written
      dsimp only
      split_ifs with hwriting
      · rw [hzero n rfl hwriting, List.take_zero, List.append_nil]
      · rw [List.append_nil]
  · have hset : SameLife c (c.rewritten n b) :=
      ⟨rfl, rfl, rfl, rfl, ⟨[], by simp [rewritten], by simp⟩, fun _ h => h⟩
    unfold written
    dsimp only
    rw [if_pos hwriting]
    by_cases hempty : b.readableBytes = 0
    · -- only when the buffer was empty before
      rw [if_pos hempty] at hok
      rcases writeFinished_cases (c.rewritten n b) d with hdone | ⟨hfault, hd⟩
      · obtain ⟨hlife, hbuf, hacc⟩ := finished_spec (c.rewritten n b)
        refine Or.inl ⟨_, hok.trans hdone, ?_⟩
        rw [hbuf, hacc]
        exact ⟨hwf, hset.trans hlife, hread, rfl⟩
      · refine Or.inr ⟨hok.trans hfault, hd, fun hfits => ?_⟩
        have hlen : n ≤ c.outputBuffer.readableBytes := hfits
        rw [← h.length_readable, ← hread, hwf.length_readable, hempty] at hlen
        omega
    · rw [if_neg hempty] at hok
      exact Or.inl ⟨_, hok, hwf, hset, hread, rfl⟩

theorem handleWrite_of_fits {c : TcpConnection} (h : c.outputBuffer.Wf) {w : WriteResult}
    (hw : w.Fits c.outputBuffer.readableBytes) (d : ShutdownResult) :
    ∃ c', c.handleWrite w d = .ok c' ∧ c'.outputBuffer.Wf ∧ SameLife c c' ∧
      c'.outputBuffer.readable = c.outputBuffer.readable ∧
      c'.accepted = c.accepted ++ c.written w :=
  (handleWrite_spec h w d).resolve_right fun hfault => hfault.2.2 hw

end TcpConnection

end Reactor
