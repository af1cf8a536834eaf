import Reactor.Lib.Machine
import Reactor.TcpConnection.Send

/-!
# Sending a file to whoever connects

`download2` and `download3` send a file in chunks of `kBufSize` bytes: the first one when a connection
comes up, the next one each time the connection tells them that a chunk is written.  They differ in
who closes the `FILE`.  `download2` keeps a plain pointer in the context of the connection and closes
the file at its end and when the connection goes down; `download3` keeps a pointer that owns the file
there, and the file is closed with the connection.

* `shared_file_delivers`: whatever the kernel and the peer do, `download3` never reads a file that is
  closed, closes it once, buffers one chunk at most, and ends the stream behind the whole file only; no
  assertion fails but that of a `shutdown(2)` that fails.
* `plain_file_safe_iff`: `download2` does the same in the runs where the connection never goes down
  with a write completion queued, and where it does, the file is read after it was closed.
* `deferred_transfer_stalls`: a chunk that the kernel does not take at once is the last one that
  either of them sends.
-/

namespace Reactor

namespace FileTransfer

def kBufSize : ℕ := 64 * 1024

/-- A `FILE` that is open for reading: the bytes from its position on. -/
structure File where
  rest : Bytes
  closed : Bool
  deriving DecidableEq, Repr

/-- The `boost::any` of a connection.  The pointer is a `FILE*` in `download2`, which may be null, and
a `FilePtr` in `download3`. -/
inductive Context where
  | empty
  | file
  | null
  deriving DecidableEq, Repr

inductive Fault where
  | conn (fault : Reactor.Fault)
  | badAnyCast
  -- `fread` and `fclose` of a pointer that is null or of a file that is closed
  | fread
  | fclose
  | dtor -- `state_ == kDisconnected`
  deriving DecidableEq, Repr

/-- One connection of the server.  A connection opens the file at most once: `fp` is the file it
opened. -/
structure Transfer where
  conn : TcpConnection
  context : Context
  fp : Option File
  alive : Bool
  deriving DecidableEq, Repr

/-- A call of a function of the connection. -/
def ofConn {α : Type} : Except Reactor.Fault α → Except Fault α
  | .ok a => .ok a
  | .error e => .error (.conn e)

namespace Transfer

def fread (t : Transfer) : Except Fault (Bytes × Transfer) :=
  match t.fp with
  | some ⟨rest, false⟩ =>
    .ok (rest.take kBufSize, { t with fp := some ⟨rest.drop kBufSize, false⟩ })
  | some ⟨_, true⟩ | none => .error .fread

def fclose (t : Transfer) : Except Fault Transfer :=
  match t.fp with
  | some ⟨rest, false⟩ => .ok { t with fp := some ⟨rest, true⟩ }
  | some ⟨_, true⟩ | none => .error .fclose

/-- `conn->send(buf, nread)` -/
def send (t : Transfer) (buf : Bytes) (w : WriteResult) : Except Fault Transfer := do
  return { t with conn := ← ofConn (t.conn.sendData true buf buf.length w) }

def shutdown (t : Transfer) (d : ShutdownResult) : Except Fault Transfer := do
  return { t with conn := ← ofConn (t.conn.shutdown true d) }

/-- What both servers do when a connection comes up; the path of the file is fixed. -/
def opened (t : Transfer) (file : Option Bytes) (w : WriteResult) (d : ShutdownResult) :
    Except Fault Transfer :=
  let conn := { t.conn with highWaterMarkCallback := true, highWaterMark := kBufSize + 1 }
  let t := { t with conn := conn }
  match file with
  | some content => do
    let t := { t with context := .file, fp := some ⟨content, false⟩ }
    let (buf, t) ← t.fread
    t.send buf w
  | none => t.shutdown d

end Transfer

/-- The callbacks of a server, and what the destructor of a connection does to its context. -/
structure Program where
  onConnection : Option Bytes → Transfer → WriteResult → ShutdownResult → Except Fault Transfer
  onWriteComplete : Transfer → WriteResult → ShutdownResult → Except Fault Transfer
  dtor : Transfer → Except Fault Transfer

namespace Download2

def onConnection (file : Option Bytes) (t : Transfer) (w : WriteResult) (d : ShutdownResult) :
    Except Fault Transfer :=
  if t.conn.state = .kConnected then t.opened file w d
  else
    match t.context with
    | .file => t.fclose
    | .empty | .null => return t

def onWriteComplete (t : Transfer) (w : WriteResult) (d : ShutdownResult) : Except Fault Transfer :=
  match t.context with
  | .empty => .error .badAnyCast
  | .null => .error .fread
  | .file => do
    let (buf, t) ← t.fread
    if 0 < buf.length then t.send buf w
    else
      let t ← t.fclose
      { t with context := .null }.shutdown d

end Download2

/-- A plain pointer is dropped with the connection. -/
def download2 : Program := ⟨Download2.onConnection, Download2.onWriteComplete, fun t => return t⟩

namespace Download3

def onConnection (file : Option Bytes) (t : Transfer) (w : WriteResult) (d : ShutdownResult) :
    Except Fault Transfer :=
  if t.conn.state = .kConnected then t.opened file w d else return t

def onWriteComplete (t : Transfer) (w : WriteResult) (d : ShutdownResult) : Except Fault Transfer :=
  match t.context with
  | .empty | .null => .error .badAnyCast
  | .file => do
    let (buf, t) ← t.fread
    if 0 < buf.length then t.send buf w else t.shutdown d

/-- The last `FilePtr` closes the file. -/
def dtor (t : Transfer) : Except Fault Transfer :=
  match t.context with
  | .file => t.fclose
  | .empty | .null => return t

end Download3

def download3 : Program := ⟨Download3.onConnection, Download3.onWriteComplete, Download3.dtor⟩

/-! ## The life of a connection -/

/-- What happens to a connection that is established; `w` and `d` answer the write and the half-close
of the callback, if that makes one. -/
inductive Action where
  | handleRead (r : ReadvResult) (w : WriteResult) (d : ShutdownResult)
  | handleWrite (w : WriteResult) (d : ShutdownResult)
  | handleClose (w : WriteResult) (d : ShutdownResult)
  | functor (w : WriteResult) (d : ShutdownResult)
  -- the last pointer to the connection is gone
  | dtor
  deriving DecidableEq, Repr

section Steps

variable (P : Program) (file : Option Bytes)

/-- `handleClose`: the connection callback, then the close callback, which takes the connection out
of the server. -/
def close (t : Transfer) (w : WriteResult) (d : ShutdownResult) : Except Fault Transfer := do
  let t ← P.onConnection file { t with conn := ← ofConn t.conn.handleClose } w d
  return { t with conn := t.conn.closeCallback }

def runFunctor (t : Transfer) (w : WriteResult) (d : ShutdownResult) :
    Functor → Except Fault Transfer
  | .sendInLoop message => return { t with conn := ← ofConn (t.conn.runSendInLoop message w) }
  | .shutdownInLoop => return { t with conn := ← ofConn (t.conn.shutdownInLoop d) }
  | .forceCloseInLoop =>
    if t.conn.state = .kConnected ∨ t.conn.state = .kDisconnecting then close P file t w d
    else return t
  | .writeComplete => P.onWriteComplete { t with conn := t.conn.invoke .writeComplete } w d
  -- `onHighWaterMark` prints the length
  | .highWaterMark len => return { t with conn := t.conn.invoke (.highWaterMark len) }
  | .setCloseCallback => return t

def step (t : Transfer) : Action → Except Fault Transfer
  | .handleRead r w d => do
    let (n, conn) ← ofConn (t.conn.handleRead r)
    match n with
    | .ok 0 => close P file { t with conn := conn } w d
    -- `defaultMessageCallback`
    | .ok (_ + 1) =>
      let conn := conn.invoke .message
      return { t with conn := { conn with inputBuffer := conn.inputBuffer.retrieveAll } }
    | .error _ => return { t with conn := conn }
  | .handleWrite w d => return { t with conn := ← ofConn (t.conn.handleWrite w d) }
  | .handleClose w d => close P file t w d
  | .functor w d =>
    match t.conn.pendingFunctors with
    | [] => return t
    | f :: fs =>
      runFunctor P file { t with conn := { t.conn with pendingFunctors := fs } } w d f
  | .dtor =>
    if t.conn.state = .kDisconnected then
      return { ← P.dtor t with alive := false }
    else .error .dtor

def machine : Machine Transfer Action Fault := ⟨step P file⟩

/-- `connectEstablished`, with the connection callback of the server. -/
def start (fd : ℕ) (w : WriteResult) (d : ShutdownResult) : Except Fault Transfer := do
  let conn ← ofConn (TcpConnection.new fd true false (64 * 1024 * 1024)).connectEstablished
  P.onConnection file ⟨conn, .empty, none, true⟩ w d

end Steps

/-- What is left to read of the file. -/
def Transfer.unread (t : Transfer) : Bytes :=
  match t.fp with
  | some f => f.rest
  | none => []

/-- The answer to a write of some chunk: an error, or a part of it. -/
def AnswersChunk (w : WriteResult) (rest : Bytes) : Prop := w.Fits (rest.take kBufSize).length

instance (w : WriteResult) (rest : Bytes) : Decidable (AnswersChunk w rest) :=
  inferInstanceAs (Decidable (w.Fits _))

/-- The poller reports events on a connection that is up, `write(2)` takes part of what it is given,
and a connection is destroyed when no functor of it is left. -/
def Env (t : Transfer) : Action → Prop
  | .handleRead _ _ _ | .handleClose _ _ =>
    t.alive = true ∧ (t.conn.state = .kConnected ∨ t.conn.state = .kDisconnecting)
  | .handleWrite w _ => t.alive = true ∧ w.Fits t.conn.outputBuffer.readableBytes
  | .functor w _ => t.alive = true ∧ AnswersChunk w t.unread
  | .dtor => t.alive = true ∧ t.conn.state = .kDisconnected ∧ t.conn.pendingFunctors = []

instance (t : Transfer) : ∀ a, Decidable (Env t a)
  | .handleRead _ _ _ | .handleClose _ _ => inferInstanceAs (Decidable (_ ∧ _))
  | .handleWrite _ _ => inferInstanceAs (Decidable (_ ∧ _))
  | .functor _ _ => inferInstanceAs (Decidable (_ ∧ _))
  | .dtor => inferInstanceAs (Decidable (_ ∧ _))

/-- The `shutdown(2)` that the callback of a functor makes succeeds. -/
def Action.Succeeds : Action → Prop
  | .functor _ d => d = .success
  | .handleRead _ _ _ | .handleWrite _ _ | .handleClose _ _ | .dtor => True

/-! ## What the connection holds -/

/-- Between two chunks: what the kernel has taken, and what is left to read, is the file. -/
def Idle (content : Bytes) (c : TcpConnection) (rest : Bytes) : Prop :=
  c.outputBuffer.readable = [] ∧ c.writeHalfClosed = false ∧ c.accepted ++ rest = content

/-- A write completion is queued between two chunks only. -/
structure Inv (content : Bytes) (c : TcpConnection) (rest : Bytes) : Prop where
  output : c.outputBuffer.Wf
  input : c.inputBuffer.Wf
  small : c.outputBuffer.readableBytes ≤ kBufSize
  mark : c.highWaterMark = kBufSize + 1
  callback : c.writeCompleteCallback = true
  calm : ∀ len, Callback.highWaterMark len ∉ c.callbacks
  busy : c.channel.isWriting = true → c.outputBuffer.readable ≠ []
  stage : (c.pendingFunctors = [] ∧
      (c.writeHalfClosed = true → c.accepted = content ∧ c.outputBuffer.readable = [])) ∨
    (c.pendingFunctors = [.writeComplete] ∧ Idle content c rest)

variable {content rest rest' chunk : Bytes} {c : TcpConnection} {w : WriteResult} {t : Transfer}

/-- The first functor is taken off the queue: it is a write completion. -/
theorem Inv.pop (h : Inv content c rest) {f : Functor} {fs : List Functor}
    (hf : c.pendingFunctors = f :: fs) :
    f = .writeComplete ∧ fs = [] ∧ Idle content c rest := by
  rcases h.stage with ⟨hnil, -⟩ | ⟨hone, hidle⟩
  · rw [hnil] at hf
    cases hf
  · rw [hone] at hf
    cases hf
    exact ⟨rfl, rfl, hidle⟩

theorem Inv.invoke (h : Inv content c rest) {cb : Callback} (hcb : ∀ len, cb ≠ .highWaterMark len) :
    Inv content (c.invoke cb) rest := by
  refine ⟨h.output, h.input, h.small, h.mark, h.callback, fun len hmem => ?_, h.busy, h.stage⟩
  rcases List.mem_append.1 hmem with hold | hnew
  · exact h.calm len hold
  · exact hcb len (List.mem_singleton.1 hnew).symm

/-- Without a functor the rest of the file does not matter. -/
theorem Inv.of_nil (h : Inv content c rest) (hnil : c.pendingFunctors = []) (rest' : Bytes) :
    Inv content c rest' := by
  refine ⟨h.output, h.input, h.small, h.mark, h.callback, h.calm, h.busy, Or.inl ⟨hnil, ?_⟩⟩
  rcases h.stage with ⟨-, hhalf⟩ | ⟨hone, -⟩
  · exact hhalf
  · rw [hnil] at hone
    cases hone

theorem Idle.isWriting (h : Idle content c rest) (hinv : Inv content c rest') :
    c.channel.isWriting = false := by
  cases hw : c.channel.isWriting with
  | false => rfl
  | true => exact absurd h.1 (hinv.busy hw)

/-- The completion that runs is off the queue, and nothing else is there. -/
theorem Inv.popped (h : Inv content c rest) (hidle : Idle content c rest) :
    Inv content { c with pendingFunctors := [] } rest :=
  ⟨h.output, h.input, h.small, h.mark, h.callback, h.calm, h.busy,
    Or.inl ⟨rfl, fun hhalf => absurd hhalf (by rw [hidle.2.1]; simp)⟩⟩

/-- What becomes of a chunk on an idle connection: it is written, it is written in part, or it is
lost with the peer. -/
theorem sendData_cases (hup : c.state = .kConnected) (h : Inv content c rest)
    (hempty : c.outputBuffer.readable = []) (hw : w.Fits chunk.length) :
    c.sendData true chunk chunk.length w = .ok (c.handed chunk chunk.length [.writeComplete]) ∨
    (∃ n b, n < chunk.length ∧ b.Wf ∧ b.readable = chunk.drop n ∧
      c.sendData true chunk chunk.length w = .ok ((c.handed chunk n []).buffered (chunk.drop n) b)) ∨
    c.sendData true chunk chunk.length w = .ok c := by
  have hidle : ¬ c.channel.isWriting = true ∧ c.outputBuffer.readableBytes = 0 := by
    refine ⟨fun hwriting => h.busy hwriting hempty, ?_⟩
    rw [← h.output.length_readable, hempty]
    rfl
  have hrest : ∀ n, n < chunk.length → ∃ b, b.Wf ∧ b.readable = chunk.drop n ∧
      (c.handed chunk n []).bufferRest (chunk.drop n) =
        .ok ((c.handed chunk n []).buffered (chunk.drop n) b) := by
    intro n _
    have hwf : (c.handed chunk n []).outputBuffer.Wf := h.output
    obtain ⟨b, hb, hread, heq⟩ := TcpConnection.bufferRest_eq hwf (chunk.drop n)
    refine ⟨b, hb, ?_, heq⟩
    rw [hread, show (c.handed chunk n []).outputBuffer = c.outputBuffer from rfl, hempty,
      List.nil_append]
  have hsend : c.sendData true chunk chunk.length w = c.sendInLoop chunk w := by
    rw [TcpConnection.sendData, TcpConnection.sendPiece, if_pos hup, if_pos rfl,
      TcpConnection.sendInLoopPiece, StringPiece.read_of_le le_rfl, List.take_length, ok_bind]
  rw [hsend, TcpConnection.sendInLoop, if_neg (by rw [hup]; simp), if_pos hidle]
  cases w with
  | fail errno =>
    rw [TcpConnection.writeDirectly]
    dsimp only
    rw [check_of (Nat.zero_le _), ok_bind, Nat.sub_zero, List.drop_zero]
    split_ifs with hkeep
    · obtain ⟨b, hb, hread, heq⟩ := hrest 0 hkeep.2
      rw [TcpConnection.handed_zero, List.drop_zero] at heq
      refine Or.inr (Or.inl ⟨0, b, hkeep.2, hb, hread, ?_⟩)
      rw [TcpConnection.handed_zero, List.drop_zero, heq]
    · exact Or.inr (Or.inr rfl)
  | wrote n =>
    have hn : n ≤ chunk.length := hw
    rw [TcpConnection.writeDirectly]
    dsimp only
    rw [check_of hn, ok_bind]
    by_cases hall : n = chunk.length
    · subst hall
      rw [Nat.sub_self, if_neg (by simp), if_pos ⟨rfl, h.callback⟩]
      exact Or.inl rfl
    · obtain ⟨b, hb, hread, heq⟩ := hrest n (by omega)
      refine Or.inr (Or.inl ⟨n, b, by omega, hb, hread, ?_⟩)
      rw [if_pos ⟨by simp, by omega⟩, if_neg (by omega), ← heq]
      simp only [TcpConnection.handed, List.append_nil]

/-- One chunk stays below the high water mark. -/
theorem highWaterFunctors_eq_nil (h : Inv content c rest) (hempty : c.outputBuffer.readable = [])
    {n : ℕ} (hlen : chunk.length ≤ kBufSize) :
    (c.handed chunk n []).highWaterFunctors (chunk.drop n) = [] := by
  have hzero : c.outputBuffer.readableBytes = 0 := by
    rw [← h.output.length_readable, hempty]
    rfl
  unfold TcpConnection.highWaterFunctors TcpConnection.handed
  dsimp only
  rw [hzero, h.mark, List.length_drop, if_neg]
  omega

theorem Inv.send (h : Inv content c rest') (hnil : c.pendingFunctors = [])
    (hidle : Idle content c (chunk ++ rest)) (hlen : chunk.length ≤ kBufSize)
    (hw : w.Fits chunk.length) :
    ∃ c', c.sendData true chunk chunk.length w = .ok c' ∧ Inv content c' rest ∧
      c'.state = c.state := by
  by_cases hup : c.state = .kConnected
  · rcases sendData_cases hup h hidle.1 hw with heq | ⟨n, b, hn, hb, hread, heq⟩ | heq
    · refine ⟨_, heq, ⟨h.output, h.input, h.small, h.mark, h.callback, h.calm, h.busy, ?_⟩, rfl⟩
      refine Or.inr ⟨?_, hidle.1, hidle.2.1, ?_⟩
      · show c.pendingFunctors ++ _ = _
        rw [hnil]
        rfl
      · show c.accepted ++ chunk.take chunk.length ++ rest = content
        rw [List.take_length, List.append_assoc]
        exact hidle.2.2
    · have hdrop : (chunk.drop n).length = chunk.length - n := List.length_drop
      refine ⟨_, heq, ⟨hb, h.input, ?_, h.mark, h.callback, h.calm, fun _ => ?_, Or.inl ⟨?_, ?_⟩⟩, rfl⟩
      · show b.readableBytes ≤ kBufSize
        rw [← hb.length_readable, hread, hdrop]
        omega
      · show b.readable ≠ []
        rw [hread, ← List.length_pos_iff, hdrop]
        omega
      · show c.pendingFunctors ++ [] ++ _ = []
        rw [hnil, highWaterFunctors_eq_nil h hidle.1 hlen]
        rfl
      · intro hhalf
        exact absurd (hidle.2.1.symm.trans hhalf) (by decide)
    · exact ⟨c, heq, h.of_nil hnil rest, rfl⟩
  · refine ⟨c, ?_, h.of_nil hnil rest, rfl⟩
    rw [TcpConnection.sendData, TcpConnection.sendPiece, if_neg hup]
    rfl

/-- The end of the file: the write half is closed behind it. -/
theorem Inv.shutDown (h : Inv content c rest) (hnil : c.pendingFunctors = [])
    (hidle : Idle content c []) : Inv content c.shutDown rest := by
  have hquiet := hidle.isWriting h
  unfold TcpConnection.shutDown
  split_ifs with hup
  · unfold TcpConnection.halfClosed
    rw [if_pos (by rw [hquiet]; simp)]
    refine ⟨h.output, h.input, h.small, h.mark, h.callback, h.calm, h.busy, Or.inl ⟨hnil, fun _ => ?_⟩⟩
    exact ⟨by rw [← hidle.2.2, List.append_nil], hidle.1⟩
  · exact h

theorem shutDown_state (c : TcpConnection) :
    c.shutDown.state = if c.state = .kConnected then .kDisconnecting else c.state := by
  unfold TcpConnection.shutDown TcpConnection.halfClosed
  split_ifs <;> rfl

theorem isWriting_disableAll (ch : Channel) : ch.disableAll.isWriting = false := by
  show (Channel.kNoneEvent.has Channel.kWriteEvent) = false
  decide

theorem shutDown_pendingFunctors (c : TcpConnection) :
    c.shutDown.pendingFunctors = c.pendingFunctors := by
  unfold TcpConnection.shutDown TcpConnection.halfClosed
  split_ifs <;> rfl

theorem shutdown_spec (t : Transfer) (d : ShutdownResult) :
    t.shutdown d = .ok { t with conn := t.conn.shutDown } ∨
      t.shutdown d = .error (.conn .shutdownWrite) ∧ d ≠ .success := by
  unfold Transfer.shutdown
  rcases TcpConnection.shutdown_cases t.conn d with hok | ⟨hfault, hd⟩
  · rw [hok]
    exact Or.inl rfl
  · rw [hfault]
    exact Or.inr ⟨rfl, hd⟩

/-- A connection that goes down keeps what it has queued and buffered. -/
theorem Inv.handleClose (h : Inv content c rest)
    (hup : c.state = .kConnected ∨ c.state = .kDisconnecting) :
    ∃ c', c.handleClose = .ok c' ∧ Inv content c' rest ∧ c'.state = .kDisconnected ∧
      c'.pendingFunctors = c.pendingFunctors ∧ c'.outputBuffer = c.outputBuffer := by
  have hdown : Inv content { c with state := .kDisconnected, channel := c.channel.disableAll } rest :=
    ⟨h.output, h.input, h.small, h.mark, h.callback, h.calm,
      fun hwriting => absurd hwriting (by simp [isWriting_disableAll]), h.stage⟩
  have hcb : ∀ len, Callback.connection .kDisconnected ≠ .highWaterMark len :=
    fun len heq => by cases heq
  refine ⟨_, ?_, hdown.invoke hcb, rfl, rfl, rfl⟩
  rw [TcpConnection.handleClose, check_of hup, ok_bind]
  rfl

/-- `handleWrite` writes while a chunk is deferred, and keeps the chunk. -/
theorem Inv.handleWrite (h : Inv content c rest) (w : WriteResult) (d : ShutdownResult) :
    ∃ c', c.handleWrite w d = .ok c' ∧ Inv content c' rest ∧ c'.state = c.state ∧
      c'.pendingFunctors = c.pendingFunctors ∧ c'.writeHalfClosed = c.writeHalfClosed ∧
      c'.outputBuffer.readable = c.outputBuffer.readable := by
  rcases TcpConnection.handleWrite_cases h.output w d with
    ⟨hok, -⟩ | ⟨n, b, rfl, -, hwriting, hb, hread, hok⟩
  · exact ⟨c, hok, h, rfl, rfl, rfl, rfl⟩
  · have hne := h.busy hwriting
    have hbytes : b.readableBytes = c.outputBuffer.readableBytes := by
      rw [← hb.length_readable, hread, h.output.length_readable]
    have hrest : ¬ b.readableBytes = 0 := by
      rw [← hb.length_readable, hread, List.length_eq_zero_iff]
      exact hne
    rw [if_neg hrest] at hok
    refine ⟨_, hok, ⟨hb, h.input, ?_, h.mark, h.callback, h.calm, fun _ => ?_, ?_⟩, rfl, rfl, rfl, hread⟩
    · show b.readableBytes ≤ kBufSize
      rw [hbytes]
      exact h.small
    · show b.readable ≠ []
      rw [hread]
      exact hne
    · rcases h.stage with ⟨hnil, hhalf⟩ | ⟨-, hidle⟩
      · exact Or.inl ⟨hnil, fun hclosed => absurd (hhalf hclosed).2 hne⟩
      · exact absurd hidle.1 hne

/-- What the peer sends is read. -/
theorem Inv.handleRead (h : Inv content c rest) (data : Bytes) :
    ∃ c', c.handleRead (.read data) = .ok (.ok data.length, c') ∧ Inv content c' rest ∧
      c'.state = c.state ∧ c'.pendingFunctors = c.pendingFunctors ∧
      c'.writeHalfClosed = c.writeHalfClosed ∧ c'.outputBuffer = c.outputBuffer := by
  obtain ⟨b, hread, hwf, -⟩ := h.input.readFd_read data
  have hkeep : Inv content { c with inputBuffer := b } rest :=
    ⟨h.output, hwf, h.small, h.mark, h.callback, h.calm, h.busy, h.stage⟩
  refine ⟨_, ?_, hkeep, rfl, rfl, rfl, rfl⟩
  rw [TcpConnection.handleRead, hread, ok_bind]
  rfl

/-- What the peer sent is dropped. -/
theorem Inv.dropped (h : Inv content c rest) :
    Inv content { c.invoke .message with inputBuffer := c.inputBuffer.retrieveAll } rest := by
  have hcb : ∀ len, Callback.message ≠ .highWaterMark len := fun len heq => by cases heq
  have hinv := h.invoke hcb
  exact ⟨hinv.output, h.input.retrieveAll, hinv.small, hinv.mark, hinv.callback, hinv.calm,
    hinv.busy, hinv.stage⟩

/-! ## The callbacks -/

theorem kBufSize_pos : 0 < kBufSize := by decide

/-- The next chunk goes to an idle connection. -/
theorem send_chunk (h : Inv content t.conn rest') (hnil : t.conn.pendingFunctors = [])
    (hidle : Idle content t.conn rest) (hw : AnswersChunk w rest) :
    ∃ c', t.send (rest.take kBufSize) w = .ok { t with conn := c' } ∧
      Inv content c' (rest.drop kBufSize) ∧ c'.state = t.conn.state := by
  have hsplit : Idle content t.conn (rest.take kBufSize ++ rest.drop kBufSize) := by
    rw [List.take_append_drop]
    exact hidle
  obtain ⟨c', hc', hinv, hstate⟩ := h.send hnil hsplit (List.length_take_le _ _) hw
  refine ⟨c', ?_, hinv, hstate⟩
  rw [Transfer.send, hc']
  rfl

/-- An empty chunk is read at the end of the file only. -/
theorem rest_eq_nil (h : ¬ 0 < (rest.take kBufSize).length) : rest = [] := by
  have hpos := kBufSize_pos
  rw [List.length_take] at h
  rw [← List.length_eq_zero_iff]
  omega

/-- The connection in its first callback, with the high water mark that the callback sets. -/
def connected (fd : ℕ) : TcpConnection :=
  { TcpConnection.new fd true true (kBufSize + 1) with
    state := .kConnected
    channel := (Channel.new fd).enableReading
    callbacks := [.connection .kConnected] }

theorem isWriting_connected (fd : ℕ) : (connected fd).channel.isWriting = false := by
  show ((Channel.kNoneEvent ||| Channel.kReadEvent).has Channel.kWriteEvent) = false
  decide

theorem inv_connected (content : Bytes) (fd : ℕ) (rest : Bytes) :
    Inv content (connected fd) rest := by
  refine ⟨Buffer.wf_empty, Buffer.wf_empty, ?_, rfl, rfl, ?_, ?_, Or.inl ⟨rfl, ?_⟩⟩
  · exact Nat.zero_le _
  · intro len hmem
    cases List.mem_singleton.1 hmem
  · intro hwriting
    rw [isWriting_connected] at hwriting
    cases hwriting
  · intro hhalf
    cases hhalf

theorem idle_connected (content : Bytes) (fd : ℕ) : Idle content (connected fd) content :=
  ⟨Buffer.readable_empty, rfl, rfl⟩

/-- The connection in its first callback, as the server's constructor has it. -/
def established (fd : ℕ) : TcpConnection :=
  { connected fd with highWaterMark := 64 * 1024 * 1024, highWaterMarkCallback := false }

theorem start_eq (P : Program) (file : Option Bytes) (fd : ℕ) (w : WriteResult) (d : ShutdownResult) :
    start P file fd w d = P.onConnection file ⟨established fd, .empty, none, true⟩ w d := rfl

/-- The first callback: the first chunk is sent, or the connection is shut down. -/
theorem opened_spec (fd : ℕ) {file : Option Bytes} (hw : AnswersChunk w (file.getD []))
    (d : ShutdownResult) :
    (∃ c', Inv (file.getD []) c' ((file.getD []).drop kBufSize) ∧
      ((∃ content, file = some content ∧ c'.state = .kConnected ∧
        Transfer.opened ⟨established fd, .empty, none, true⟩ file w d =
          .ok ⟨c', .file, some ⟨content.drop kBufSize, false⟩, true⟩) ∨
      (file = none ∧ c'.pendingFunctors = [] ∧ c'.state = .kDisconnecting ∧
        Transfer.opened ⟨established fd, .empty, none, true⟩ file w d =
          .ok ⟨c', .empty, none, true⟩))) ∨
    Transfer.opened ⟨established fd, .empty, none, true⟩ file w d = .error (.conn .shutdownWrite) ∧
      d ≠ .success := by
  cases file with
  | none =>
    refine (shutdown_spec ⟨connected fd, .empty, none, true⟩ d).imp_left fun hok => ?_
    have hinv : Inv [] (connected fd).shutDown [] :=
      (inv_connected [] fd []).shutDown rfl (idle_connected [] fd)
    refine ⟨_, hinv, Or.inr ⟨rfl, ?_, ?_, hok⟩⟩
    · rw [shutDown_pendingFunctors]
      rfl
    · rw [shutDown_state]
      rfl
  | some content =>
    have hchunk := send_chunk (t := ⟨connected fd, .file, some ⟨content.drop kBufSize, false⟩, true⟩)
      (inv_connected content fd []) rfl (idle_connected content fd) hw
    obtain ⟨c', hc', hinv, hstate⟩ := hchunk
    exact Or.inl ⟨c', hinv, Or.inl ⟨content, rfl, hstate, hc'⟩⟩

/-- The connection while its write completion runs. -/
def completing (c : TcpConnection) : TcpConnection :=
  { c with pendingFunctors := [] }.invoke .writeComplete

theorem Inv.completing (h : Inv content c rest) (hidle : Idle content c rest) :
    Inv content (completing c) rest :=
  (h.popped hidle).invoke fun len heq => by cases heq

/-! ## One step of either server -/

/-- The action takes the connection down. -/
def Closes : Action → Prop
  | .handleClose _ _ => True
  | .handleRead r _ _ => r = .read []
  | .handleWrite _ _ | .functor _ _ | .dtor => False

instance : ∀ a, Decidable (Closes a)
  | .handleClose _ _ => isTrue trivial
  | .handleRead r _ _ => inferInstanceAs (Decidable (r = .read []))
  | .handleWrite _ _ | .functor _ _ | .dtor => isFalse id

variable {P : Program} {file : Option Bytes} {Q : List Functor → Prop}
  {I : Transfer → Prop} {a : Action}

/-- What an invariant of a server owes to the callbacks; `Q` is promised of the queued functors where
the connection goes down. -/
structure Keeps (P : Program) (file : Option Bytes) (Q : List Functor → Prop)
    (I : Transfer → Prop) : Prop where
  inv : ∀ t, I t → Inv (file.getD []) t.conn t.unread
  conn : ∀ t c', I t → Inv (file.getD []) c' t.unread → c'.state = t.conn.state →
    c'.pendingFunctors = t.conn.pendingFunctors → I { t with conn := c' }
  close : ∀ t w d, I t → (t.conn.state = .kConnected ∨ t.conn.state = .kDisconnecting) →
    Q t.conn.pendingFunctors →
    ∃ t', close P file t w d = .ok t' ∧ I t'
  completes : ∀ t w d, I t → t.alive = true → t.conn.pendingFunctors = [.writeComplete] →
    Idle (file.getD []) t.conn t.unread → AnswersChunk w t.unread →
    (∃ t', P.onWriteComplete { t with conn := completing t.conn } w d = .ok t' ∧ I t') ∨
      P.onWriteComplete { t with conn := completing t.conn } w d = .error (.conn .shutdownWrite) ∧
        d ≠ .success
  dtor : ∀ t, I t → t.alive = true → t.conn.state = .kDisconnected →
    t.conn.pendingFunctors = [] → ∃ t', P.dtor t = .ok t' ∧ I { t' with alive := false }

theorem Keeps.step (hP : Keeps P file Q I) (ht : I t) (hE : Env t a)
    (hq : Closes a → Q t.conn.pendingFunctors) :
    (∃ t', (machine P file).step t a = .ok t' ∧ I t') ∨
      (machine P file).step t a = .error (.conn .shutdownWrite) ∧ ¬ a.Succeeds := by
  have hinv := hP.inv t ht
  cases a with
  | handleRead r w d =>
    cases r with
    | fail errno => exact Or.inl ⟨t, rfl, ht⟩
    | read data =>
      obtain ⟨c', hread, hinv', hstate, hqueue, -⟩ := hinv.handleRead data
      have hI := hP.conn t c' ht hinv' hstate hqueue
      have hstep : (machine P file).step t (.handleRead (.read data) w d) =
          FileTransfer.step P file t (.handleRead (.read data) w d) := rfl
      rw [hstep, FileTransfer.step, hread]
      cases data with
      | nil =>
        have hup : c'.state = .kConnected ∨ c'.state = .kDisconnecting := by
          rw [hstate]
          exact hE.2
        have hQ : Q c'.pendingFunctors := by
          rw [hqueue]
          exact hq rfl
        exact Or.inl (hP.close { t with conn := c' } w d hI hup hQ)
      | cons x xs => exact Or.inl ⟨_, rfl, hP.conn t _ ht hinv'.dropped hstate hqueue⟩
  | handleWrite w d =>
    obtain ⟨c', hc', hinv', hstate, hqueue, -⟩ := hinv.handleWrite w d
    refine Or.inl ⟨{ t with conn := c' }, ?_, hP.conn t c' ht hinv' hstate hqueue⟩
    show (do return { t with conn := ← ofConn (t.conn.handleWrite w d) } : Except Fault Transfer) = _
    rw [hc']
    rfl
  | handleClose w d => exact Or.inl (hP.close t w d ht hE.2 (hq trivial))
  | functor w d =>
    have hstep : (machine P file).step t (.functor w d) =
        FileTransfer.step P file t (.functor w d) := rfl
    rw [hstep, FileTransfer.step]
    cases hqueue : t.conn.pendingFunctors with
    | nil => exact Or.inl ⟨t, rfl, ht⟩
    | cons f fs =>
      obtain ⟨rfl, rfl, hidle⟩ := hinv.pop hqueue
      exact hP.completes t w d ht hE.1 hqueue hidle hE.2
  | dtor =>
    obtain ⟨halive, hdown, hnil⟩ := hE
    obtain ⟨t', ht', hI⟩ := hP.dtor t ht halive hdown hnil
    refine Or.inl ⟨_, ?_, hI⟩
    show FileTransfer.step P file t .dtor = _
    rw [FileTransfer.step, if_pos hdown, ht']
    rfl

/-- An action that returns keeps the invariant. -/
theorem Keeps.of_step (hP : Keeps P file Q I) {t' : Transfer} (ht : I t) (hE : Env t a)
    (hq : Closes a → Q t.conn.pendingFunctors) (hok : (machine P file).step t a = .ok t') : I t' := by
  rcases hP.step ht hE hq with ⟨u, hu, hI⟩ | ⟨hfault, -⟩
  · obtain rfl := Except.ok.inj (hu.symm.trans hok)
    exact hI
  · cases hok.symm.trans hfault

/-- A connection that goes down: the invariant is owed to the connection callback only. -/
theorem close_of_onConnection {d : ShutdownResult} (h : Inv (file.getD []) t.conn t.unread)
    (hup : t.conn.state = .kConnected ∨ t.conn.state = .kDisconnecting)
    (hcb : ∀ c', c'.state = .kDisconnected → c'.pendingFunctors = t.conn.pendingFunctors →
      Inv (file.getD []) c' t.unread → ∃ t', P.onConnection file { t with conn := c' } w d = .ok t' ∧
        I { t' with conn := t'.conn.closeCallback }) :
    ∃ t', close P file t w d = .ok t' ∧ I t' := by
  obtain ⟨c', hc', hinv, hdown, hqueue, -⟩ := h.handleClose hup
  obtain ⟨t', ht', hI⟩ := hcb c' hdown hqueue hinv
  refine ⟨_, ?_, hI⟩
  rw [FileTransfer.close, hc']
  show (P.onConnection file { t with conn := c' } w d >>= _) = _
  rw [ht']
  rfl

theorem Inv.closeCallback (h : Inv content c rest) : Inv content c.closeCallback rest :=
  h.invoke fun len heq => by cases heq

/-- What both servers report: the buffer is small, and the stream ends behind the whole file. -/
def Delivers (file : Option Bytes) (t : Transfer) : Prop :=
  t.conn.outputBuffer.readableBytes ≤ kBufSize ∧
    (∀ len, Callback.highWaterMark len ∉ t.conn.callbacks) ∧
    (t.conn.writeHalfClosed = true → t.conn.accepted = file.getD [])

theorem Inv.delivers (h : Inv (file.getD []) t.conn rest) : Delivers file t := by
  refine ⟨h.small, h.calm, fun hhalf => ?_⟩
  rcases h.stage with ⟨-, hend⟩ | ⟨-, hidle⟩
  · exact (hend hhalf).1
  · exact absurd (hidle.2.1.symm.trans hhalf) (by decide)

/-! ## The pointer that owns the file -/

/-- The file of `download3` is open as long as the connection lives. -/
structure Shared (file : Option Bytes) (t : Transfer) : Prop where
  inv : Inv (file.getD []) t.conn t.unread
  held : (∃ rest, t.fp = some ⟨rest, !t.alive⟩ ∧ t.context = .file) ∨
    (t.fp = none ∧ t.context = .empty ∧ t.conn.pendingFunctors = [])

theorem Shared.conn (h : Shared file t) {c' : TcpConnection}
    (hinv : Inv (file.getD []) c' t.unread) (hqueue : c'.pendingFunctors = t.conn.pendingFunctors) :
    Shared file { t with conn := c' } := by
  refine ⟨hinv, ?_⟩
  rcases h.held with hfile | ⟨hfp, hctx, hnil⟩
  · exact Or.inl hfile
  · exact Or.inr ⟨hfp, hctx, hqueue.trans hnil⟩

theorem Shared.completes (h : Shared file t) (halive : t.alive = true)
    (hqueue : t.conn.pendingFunctors = [.writeComplete])
    (hidle : Idle (file.getD []) t.conn t.unread) (hw : AnswersChunk w t.unread)
    (d : ShutdownResult) :
    (∃ t', download3.onWriteComplete { t with conn := completing t.conn } w d = .ok t' ∧
      Shared file t') ∨
    download3.onWriteComplete { t with conn := completing t.conn } w d =
      .error (.conn .shutdownWrite) ∧ d ≠ .success := by
  have hinv := h.inv.completing hidle
  obtain ⟨conn, context, fp, alive⟩ := t
  rcases h.held with ⟨rest, hfp, hctx⟩ | ⟨-, -, hnil⟩
  · dsimp only at halive hfp hctx
    subst halive hfp hctx
    simp only [download3, Download3.onWriteComplete, Transfer.fread, Bool.not_true]
    rw [ok_bind]
    dsimp only
    split_ifs with hchunk
    · obtain ⟨c', hc', hinv', -⟩ := send_chunk
        (t := ⟨completing conn, .file, some ⟨rest.drop kBufSize, false⟩, true⟩) hinv rfl hidle hw
      exact Or.inl ⟨_, hc', hinv', Or.inl ⟨_, rfl, rfl⟩⟩
    · obtain rfl : rest = [] := rest_eq_nil hchunk
      refine (shutdown_spec _ d).imp_left fun hok => ?_
      exact ⟨_, hok, hinv.shutDown rfl hidle, Or.inl ⟨_, rfl, rfl⟩⟩
  · rw [hqueue] at hnil
    cases hnil

theorem Shared.dtor (h : Shared file t) (halive : t.alive = true)
    (hnil : t.conn.pendingFunctors = []) :
    ∃ t', download3.dtor t = .ok t' ∧ Shared file { t' with alive := false } := by
  have hinv := h.inv
  obtain ⟨conn, context, fp, alive⟩ := t
  rcases h.held with ⟨rest, hfp, hctx⟩ | ⟨hfp, hctx, -⟩
  · dsimp only at halive hfp hctx
    subst halive hfp hctx
    exact ⟨_, rfl, hinv, Or.inl ⟨rest, rfl, rfl⟩⟩
  · dsimp only at halive hfp hctx
    subst halive hfp hctx
    exact ⟨_, rfl, hinv, Or.inr ⟨rfl, rfl, hnil⟩⟩

theorem keeps_shared (file : Option Bytes) :
    Keeps download3 file (fun _ => True) (Shared file) where
  inv _ h := h.inv
  conn _ _ h hinv _ hqueue := h.conn hinv hqueue
  close t w d h hup _ := by
    refine close_of_onConnection h.inv hup fun c' hdown hqueue hinv => ?_
    refine ⟨{ t with conn := c' }, ?_, h.conn hinv.closeCallback hqueue⟩
    show Download3.onConnection file { t with conn := c' } w d = _
    rw [Download3.onConnection, if_neg (by rw [hdown]; simp)]
    rfl
  completes _ _ d h halive hqueue hidle hw := h.completes halive hqueue hidle hw d
  dtor _ h halive _ hnil := h.dtor halive hnil

theorem start_shared (fd : ℕ) (hw : AnswersChunk w (file.getD [])) (d : ShutdownResult) :
    (∃ t, start download3 file fd w d = .ok t ∧ Shared file t) ∨
      start download3 file fd w d = .error (.conn .shutdownWrite) ∧ d ≠ .success := by
  have hcb : start download3 file fd w d =
      Transfer.opened ⟨established fd, .empty, none, true⟩ file w d := start_eq download3 file fd w d
  rw [hcb]
  refine (opened_spec fd hw d).imp_left ?_
  rintro ⟨c', hinv, ⟨content, rfl, -, ht⟩ | ⟨rfl, hnil, -, ht⟩⟩
  · exact ⟨_, ht, hinv, Or.inl ⟨_, rfl, rfl⟩⟩
  · exact ⟨_, ht, hinv, Or.inr ⟨rfl, rfl, hnil⟩⟩

/-- Whatever the kernel and the peer do, `download3` never reads or closes a file that is closed, and
fails no assertion but that of a `shutdown(2)` that fails; its file is open as long as the connection
lives.  One chunk at most is buffered, and the stream ends behind the whole file only. -/
theorem shared_file_delivers (fd : ℕ) (file : Option Bytes) (w : WriteResult)
    (hw : AnswersChunk w (file.getD [])) (d : ShutdownResult) :
    (∀ f, start download3 file fd w d = .error f → f = .conn .shutdownWrite ∧ d ≠ .success) ∧
      ∀ t as, start download3 file fd w d = .ok t → (machine download3 file).Along Env t as →
        (∀ f, (machine download3 file).run t as = .error f →
          f = .conn .shutdownWrite ∧ ∃ a ∈ as, ¬ a.Succeeds) ∧
        (machine download3 file).Always
          (fun t' => Delivers file t' ∧ ∀ f ∈ t'.fp, f.closed = !t'.alive) t as := by
  rcases start_shared fd hw d with ⟨u, hu, hI⟩ | ⟨hfault, hd⟩
  · refine ⟨fun f hf => (by cases hu.symm.trans hf), fun t as ht hE => ?_⟩
    obtain rfl := Except.ok.inj (hu.symm.trans ht)
    obtain ⟨hrun, halways⟩ := Machine.fault_always_of_along
      (fun t a hI hE => (keeps_shared file).step hI hE fun _ => trivial) hI hE
    refine ⟨hrun, halways.mono fun t' hI' => ⟨hI'.inv.delivers, fun f hf => ?_⟩⟩
    rcases hI'.held with ⟨rest, hfp, -⟩ | ⟨hfp, -⟩
    · rw [hfp] at hf
      obtain rfl := Option.some.inj hf
      rfl
    · rw [hfp] at hf
      cases hf
  · refine ⟨fun f hf => ⟨(Except.error.inj (hfault.symm.trans hf)).symm, hd⟩, fun t as ht => ?_⟩
    cases hfault.symm.trans ht

/-- The first chunk is the file, the completion finds its end, and then the peer closes. -/
def threeBytes : List Action :=
  [.functor (.wrote 0) .success, .handleRead (.read []) (.wrote 0) .success, .dtor]

theorem of_mem_toOption {α : Type} {e : Except Fault α} {x : α} (h : x ∈ e.toOption) : e = .ok x := by
  cases e with
  | error f => cases h
  | ok y => exact congrArg Except.ok (Option.some.inj h)

theorem shared_file_delivers_three :
    ∃ t, start download3 (some [1, 2, 3]) 7 (.wrote 3) .success = .ok t ∧
      (machine download3 (some [1, 2, 3])).Always (fun t' => Delivers (some [1, 2, 3]) t' ∧
        ∀ f ∈ t'.fp, f.closed = !t'.alive) t threeBytes ∧
      ∃ t', (machine download3 (some [1, 2, 3])).run t threeBytes = .ok t' ∧
        t'.conn.writeHalfClosed = true ∧ t'.conn.accepted = [1, 2, 3] := by
  have hE : ∃ t ∈ (start download3 (some [1, 2, 3]) 7 (.wrote 3) .success).toOption,
      (machine download3 (some [1, 2, 3])).Along Env t threeBytes ∧
      ∃ t' ∈ ((machine download3 (some [1, 2, 3])).run t threeBytes).toOption,
        t'.conn.writeHalfClosed = true ∧ t'.conn.accepted = [1, 2, 3] := by
    decide +kernel
  obtain ⟨t, ht, hrun, t', ht', hend⟩ := hE
  have hstart := of_mem_toOption ht
  have hall := (shared_file_delivers 7 (some [1, 2, 3]) (.wrote 3) (by decide) .success).2
  exact ⟨t, hstart, (hall t threeBytes hstart hrun).2, t', of_mem_toOption ht', hend⟩

/-! ## The plain pointer -/

/-- The file of `download2` is open until the connection goes down or the end of the file is sent,
provided no write completion is queued when the connection is down. -/
structure Plain (file : Option Bytes) (t : Transfer) : Prop where
  inv : Inv (file.getD []) t.conn t.unread
  quiet : t.conn.state = .kDisconnected → t.conn.pendingFunctors = []
  held : (∃ rest, t.fp = some ⟨rest, t.conn.state = .kDisconnected⟩ ∧ t.context = .file) ∨
    ((∃ rest, t.fp = some ⟨rest, true⟩) ∧ t.context = .null ∧ t.conn.pendingFunctors = []) ∨
    (t.fp = none ∧ t.context = .empty ∧ t.conn.pendingFunctors = [])

theorem Plain.conn (h : Plain file t) {c' : TcpConnection}
    (hinv : Inv (file.getD []) c' t.unread) (hstate : c'.state = t.conn.state)
    (hqueue : c'.pendingFunctors = t.conn.pendingFunctors) : Plain file { t with conn := c' } := by
  refine ⟨hinv, fun hdown => hqueue.trans (h.quiet (hstate.symm.trans hdown)), ?_⟩
  rcases h.held with ⟨rest, hfp, hctx⟩ | ⟨hfp, hctx, hnil⟩ | ⟨hfp, hctx, hnil⟩
  · refine Or.inl ⟨rest, ?_, hctx⟩
    dsimp only
    rw [hstate]
    exact hfp
  · exact Or.inr (Or.inl ⟨hfp, hctx, hqueue.trans hnil⟩)
  · exact Or.inr (Or.inr ⟨hfp, hctx, hqueue.trans hnil⟩)

theorem Plain.completes (h : Plain file t)
    (hqueue : t.conn.pendingFunctors = [.writeComplete])
    (hidle : Idle (file.getD []) t.conn t.unread) (hw : AnswersChunk w t.unread)
    (d : ShutdownResult) :
    (∃ t', download2.onWriteComplete { t with conn := completing t.conn } w d = .ok t' ∧
      Plain file t') ∨
    download2.onWriteComplete { t with conn := completing t.conn } w d =
      .error (.conn .shutdownWrite) ∧ d ≠ .success := by
  have hinv := h.inv.completing hidle
  have hup : t.conn.state ≠ .kDisconnected := by
    intro hdown
    rw [h.quiet hdown] at hqueue
    cases hqueue
  obtain ⟨conn, context, fp, alive⟩ := t
  rcases h.held with ⟨rest, hfp, hctx⟩ | ⟨-, -, hnil⟩ | ⟨-, -, hnil⟩
  · dsimp only at hfp hctx hup
    rw [decide_eq_false hup] at hfp
    subst hfp hctx
    simp only [download2, Download2.onWriteComplete, Transfer.fread]
    rw [ok_bind]
    dsimp only
    split_ifs with hchunk
    · obtain ⟨c', hc', hinv', hstate⟩ := send_chunk
        (t := ⟨completing conn, .file, some ⟨rest.drop kBufSize, false⟩, alive⟩) hinv rfl hidle hw
      have hup' : c'.state ≠ .kDisconnected := by
        rw [hstate]
        exact hup
      refine Or.inl ⟨_, hc', hinv', fun hdown => absurd hdown hup',
        Or.inl ⟨rest.drop kBufSize, ?_, rfl⟩⟩
      rw [decide_eq_false hup']
    · obtain rfl : rest = [] := rest_eq_nil hchunk
      have hnil : (completing conn).shutDown.pendingFunctors = [] :=
        shutDown_pendingFunctors (completing conn)
      refine (shutdown_spec ⟨completing conn, .null, some ⟨[], true⟩, alive⟩ d).imp_left fun hok => ?_
      exact ⟨_, hok, hinv.shutDown rfl hidle, fun _ => hnil, Or.inr (Or.inl ⟨⟨[], rfl⟩, rfl, hnil⟩)⟩
  · rw [hqueue] at hnil
    cases hnil
  · rw [hqueue] at hnil
    cases hnil

/-- The file is closed while a write completion is queued. -/
structure Stale (file : Option Bytes) (t : Transfer) : Prop where
  inv : Inv (file.getD []) t.conn t.unread
  down : t.conn.state = .kDisconnected
  queued : t.conn.pendingFunctors ≠ []
  context : t.context = .file
  closed : ∃ rest, t.fp = some ⟨rest, true⟩

theorem Plain.close (h : Plain file t)
    (hup : t.conn.state = .kConnected ∨ t.conn.state = .kDisconnecting) (w : WriteResult)
    (d : ShutdownResult) :
    ∃ t', close download2 file t w d = .ok t' ∧
      ((t.conn.pendingFunctors = [] ∧ Plain file t') ∨
        (t.conn.pendingFunctors ≠ [] ∧ Stale file t')) := by
  have hup' : t.conn.state ≠ .kDisconnected := by
    rcases hup with hup | hup <;> rw [hup] <;> simp
  refine close_of_onConnection h.inv hup fun c' hdown hqueue hinv => ?_
  show ∃ t', Download2.onConnection file { t with conn := c' } w d = .ok t' ∧ _
  rw [Download2.onConnection, if_neg (by rw [hdown]; simp)]
  obtain ⟨conn, context, fp, alive⟩ := t
  rcases h.held with ⟨rest, hfp, hctx⟩ | ⟨hfp, hctx, hnil⟩ | ⟨hfp, hctx, hnil⟩
  · -- the file is still open
    dsimp only at hfp hctx hup' hqueue
    rw [decide_eq_false hup'] at hfp
    subst hfp hctx
    refine ⟨_, rfl, ?_⟩
    by_cases hnil : conn.pendingFunctors = []
    · refine Or.inl ⟨hnil, hinv.closeCallback, fun _ => hqueue.trans hnil, Or.inl ⟨rest, ?_, rfl⟩⟩
      show some (⟨rest, true⟩ : File) = some ⟨rest, decide (c'.state = .kDisconnected)⟩
      rw [decide_eq_true hdown]
    · refine Or.inr ⟨hnil, hinv.closeCallback, hdown, ?_, rfl, rest, rfl⟩
      show c'.pendingFunctors ≠ []
      rw [hqueue]
      exact hnil
  · dsimp only at hfp hctx hnil hqueue
    subst hctx
    exact ⟨_, rfl, Or.inl ⟨hnil, hinv.closeCallback, fun _ => hqueue.trans hnil,
      Or.inr (Or.inl ⟨hfp, rfl, hqueue.trans hnil⟩)⟩⟩
  · dsimp only at hfp hctx hnil hqueue
    subst hctx
    exact ⟨_, rfl, Or.inl ⟨hnil, hinv.closeCallback, fun _ => hqueue.trans hnil,
      Or.inr (Or.inr ⟨hfp, rfl, hqueue.trans hnil⟩)⟩⟩

theorem keeps_plain (file : Option Bytes) :
    Keeps download2 file (fun fs => fs = []) (Plain file) where
  inv _ h := h.inv
  conn _ _ h hinv hstate hqueue := h.conn hinv hstate hqueue
  close t w d h hup hnil := by
    obtain ⟨t', ht', ⟨-, hI⟩ | ⟨hne, -⟩⟩ := h.close hup w d
    · exact ⟨t', ht', hI⟩
    · exact absurd hnil hne
  completes _ _ d h _ hqueue hidle hw := h.completes hqueue hidle hw d
  dtor t h _ _ _ := ⟨t, rfl, h.inv, h.quiet, h.held⟩

theorem start_plain (fd : ℕ) (hw : AnswersChunk w (file.getD [])) (d : ShutdownResult) :
    (∃ t, start download2 file fd w d = .ok t ∧ Plain file t) ∨
      start download2 file fd w d = .error (.conn .shutdownWrite) ∧ d ≠ .success := by
  have hcb : start download2 file fd w d =
      Transfer.opened ⟨established fd, .empty, none, true⟩ file w d := start_eq download2 file fd w d
  rw [hcb]
  refine (opened_spec fd hw d).imp_left ?_
  rintro ⟨c', hinv, ⟨content, rfl, hup, ht⟩ | ⟨rfl, hnil, hup, ht⟩⟩
  · have hne : c'.state ≠ .kDisconnected := by
      rw [hup]
      simp
    refine ⟨_, ht, hinv, fun hdown => absurd hdown hne, Or.inl ⟨content.drop kBufSize, ?_, rfl⟩⟩
    rw [decide_eq_false hne]
  · exact ⟨_, ht, hinv, fun _ => hnil, Or.inr (Or.inr ⟨rfl, rfl, hnil⟩)⟩

/-- No write completion is queued where the connection goes down. -/
def Quiet (t : Transfer) (a : Action) : Prop := Closes a → t.conn.pendingFunctors = []

instance (t : Transfer) (a : Action) : Decidable (Quiet t a) :=
  inferInstanceAs (Decidable (_ → _))

theorem Plain.step_of_not_quiet (h : Plain file t) (hE : Env t a) (hq : ¬ Quiet t a) :
    ∃ t', (machine download2 file).step t a = .ok t' ∧ Stale file t' := by
  obtain ⟨hcloses, hne⟩ := Classical.not_imp.1 hq
  cases a with
  | handleRead r w d =>
    obtain rfl : r = .read [] := hcloses
    obtain ⟨c', hread, hinv, hstate, hqueue, -⟩ := h.inv.handleRead []
    have hup : c'.state = .kConnected ∨ c'.state = .kDisconnecting := by
      rw [hstate]
      exact hE.2
    obtain ⟨t', ht', ⟨hnil, -⟩ | ⟨-, hstale⟩⟩ := (h.conn hinv hstate hqueue).close hup w d
    · exact absurd (hqueue.symm.trans hnil) hne
    · refine ⟨t', ?_, hstale⟩
      show step download2 file t (.handleRead (.read []) w d) = _
      rw [step, hread]
      exact ht'
  | handleClose w d =>
    obtain ⟨t', ht', ⟨hnil, -⟩ | ⟨-, hstale⟩⟩ := h.close hE.2 w d
    · exact absurd hnil hne
    · exact ⟨t', ht', hstale⟩
  | handleWrite w d | functor w d | dtor => exact hcloses.elim

/-- The queued completion reads the closed file. -/
theorem Stale.functor (h : Stale file t) (w : WriteResult) (d : ShutdownResult) :
    (machine download2 file).step t (.functor w d) = .error .fread := by
  obtain ⟨rest, hfp⟩ := h.closed
  have hctx := h.context
  cases hqueue : t.conn.pendingFunctors with
  | nil => exact absurd hqueue h.queued
  | cons f fs =>
    obtain ⟨rfl, rfl, -⟩ := h.inv.pop hqueue
    show step download2 file t (.functor w d) = _
    rw [step, hqueue]
    simp only [runFunctor, download2, Download2.onWriteComplete, hctx, Transfer.fread, hfp]
    rfl

/-- Until the completion runs, the connection stays as it is. -/
theorem Stale.step_cases (h : Stale file t) (hE : Env t a) :
    (∃ w d, a = .functor w d) ∨
      ∃ t', (machine download2 file).step t a = .ok t' ∧ Stale file t' := by
  cases a with
  | functor w d => exact Or.inl ⟨w, d, rfl⟩
  | handleRead r w d | handleClose w d =>
    rcases hE.2 with hup | hup <;> rw [h.down] at hup <;> cases hup
  | dtor => exact absurd hE.2.2 h.queued
  | handleWrite w d =>
    obtain ⟨c', hc', hinv, hstate, hqueue, -⟩ := h.inv.handleWrite w d
    refine Or.inr ⟨{ t with conn := c' }, ?_, hinv, hstate.trans h.down, ?_, h.context, h.closed⟩
    · show step download2 file t (.handleWrite w d) = _
      rw [step, hc']
      rfl
    · rw [hqueue]
      exact h.queued

theorem Stale.run (h : Stale file t) {as : List Action} {d : ShutdownResult}
    (hE : (machine download2 file).Along Env t (as ++ [.functor w d])) :
    (machine download2 file).run t (as ++ [.functor w d]) = .error .fread := by
  induction as generalizing t with
  | nil => exact Machine.run_cons_error (h.functor w d) []
  | cons a as ih =>
    rcases h.step_cases hE.1 with ⟨v, d', rfl⟩ | ⟨t', ht', hstale⟩
    · exact Machine.run_cons_error (h.functor v d') _
    · rw [List.cons_append, Machine.run_cons_ok ht']
      exact ih hstale (hE.2 t' ht')

theorem Plain.delivers (h : Plain file t) : Delivers file t ∧
    (t.conn.state = .kDisconnected → ∀ f ∈ t.fp, f.closed = true) := by
  refine ⟨h.inv.delivers, fun hdown f hf => ?_⟩
  rcases h.held with ⟨rest, hfp, -⟩ | ⟨⟨rest, hfp⟩, -⟩ | ⟨hfp, -⟩
  · rw [hfp] at hf
    obtain rfl := Option.some.inj hf
    exact decide_eq_true hdown
  · rw [hfp] at hf
    obtain rfl := Option.some.inj hf
    rfl
  · rw [hfp] at hf
    cases hf

/-- A run that comes to a close with a write completion queued reads the closed file. -/
theorem Plain.run_of_not_quiet (h : Plain file t) {as : List Action} {d : ShutdownResult}
    (hE : (machine download2 file).Along Env t (as ++ [.functor w d]))
    (hq : ¬ (machine download2 file).Along Quiet t as) :
    (machine download2 file).run t (as ++ [.functor w d]) = .error .fread := by
  induction as generalizing t with
  | nil => exact absurd trivial hq
  | cons a as ih =>
    by_cases hqa : Quiet t a
    · rcases (keeps_plain file).step h hE.1 hqa with ⟨t', ht', hI⟩ | ⟨hfault, -⟩
      · rw [List.cons_append, Machine.run_cons_ok ht']
        exact ih hI (hE.2 t' ht') fun hrest => hq ((Machine.along_cons_ok ht').2 ⟨hqa, hrest⟩)
      · exact absurd ((Machine.along_cons_error hfault).2 hqa) hq
    · obtain ⟨t', ht', hstale⟩ := h.step_of_not_quiet hE.1 hqa
      rw [List.cons_append, Machine.run_cons_ok ht']
      exact hstale.run (hE.2 t' ht')

/-- `download2` is as safe in the runs where no write completion is queued when the connection goes
down.  In the others the completion reads the file after it was closed. -/
theorem plain_file_safe_iff (fd : ℕ) (file : Option Bytes) (w : WriteResult)
    (hw : AnswersChunk w (file.getD [])) (d : ShutdownResult) :
    (∀ f, start download2 file fd w d = .error f → f = .conn .shutdownWrite ∧ d ≠ .success) ∧
      ∀ t as v e, start download2 file fd w d = .ok t →
        (machine download2 file).Along Env t (as ++ [.functor v e]) →
        ((machine download2 file).Along Quiet t as →
          (∀ f, (machine download2 file).run t (as ++ [.functor v e]) = .error f →
            f = .conn .shutdownWrite ∧ ∃ a ∈ as ++ [.functor v e], ¬ a.Succeeds) ∧
          (machine download2 file).Always (fun t' => Delivers file t' ∧
            (t'.conn.state = .kDisconnected → ∀ f ∈ t'.fp, f.closed = true)) t
              (as ++ [.functor v e])) ∧
        (¬ (machine download2 file).Along Quiet t as →
          (machine download2 file).run t (as ++ [.functor v e]) = .error .fread) := by
  rcases start_plain fd hw d with ⟨u, hu, hI⟩ | ⟨hfault, hd⟩
  · refine ⟨fun f hf => (by cases hu.symm.trans hf), fun t as v e ht hE => ?_⟩
    obtain rfl := Except.ok.inj (hu.symm.trans ht)
    refine ⟨fun hq => ?_, hI.run_of_not_quiet hE⟩
    have hquiet : (machine download2 file).Along Quiet u (as ++ [.functor v e]) :=
      Machine.along_append.2 ⟨hq, fun s _ => ⟨fun hcloses => hcloses.elim, fun _ _ => trivial⟩⟩
    obtain ⟨hrun, halways⟩ := Machine.fault_always_of_along
      (fun t a hI hE => (keeps_plain file).step hI hE.1 hE.2) hI (Machine.along_and.2 ⟨hE, hquiet⟩)
    exact ⟨hrun, halways.mono fun t' hI' => hI'.delivers⟩
  · refine ⟨fun f hf => ⟨(Except.error.inj (hfault.symm.trans hf)).symm, hd⟩, fun t as v e ht => ?_⟩
    cases hfault.symm.trans ht

/-- The peer closes while the completion of the first chunk is queued. -/
theorem plain_file_safe_iff_closed :
    ∃ t, start download2 (some [1, 2, 3]) 7 (.wrote 3) .success = .ok t ∧
      (machine download2 (some [1, 2, 3])).run t
        [.handleRead (.read []) (.wrote 0) .success, .functor (.wrote 0) .success] =
          .error .fread := by
  have hE : ∃ t ∈ (start download2 (some [1, 2, 3]) 7 (.wrote 3) .success).toOption,
      (machine download2 (some [1, 2, 3])).Along Env t
        [.handleRead (.read []) (.wrote 0) .success, .functor (.wrote 0) .success] ∧
      ¬ (machine download2 (some [1, 2, 3])).Along Quiet t
        [.handleRead (.read []) (.wrote 0) .success] := by
    decide +kernel
  obtain ⟨t, ht, hrun, hloud⟩ := hE
  have hstart := of_mem_toOption ht
  have hall := (plain_file_safe_iff 7 (some [1, 2, 3]) (.wrote 3) (by decide) .success).2
  exact ⟨t, hstart, (hall t [.handleRead (.read []) (.wrote 0) .success] (.wrote 0) .success hstart
    hrun).2 hloud⟩

/-! ## A chunk that is deferred -/

/-- The connection's output and what is left of the file are the same. -/
def SameWork (t t' : Transfer) : Prop :=
  t'.conn.outputBuffer.readable = t.conn.outputBuffer.readable ∧ t'.unread = t.unread

theorem SameWork.trans {t₁ t₂ t₃ : Transfer} (h : SameWork t₁ t₂) (h' : SameWork t₂ t₃) :
    SameWork t₁ t₃ := ⟨h'.1.trans h.1, h'.2.trans h.2⟩

theorem fclose_sameWork {t' : Transfer} (h : t.fclose = .ok t') : SameWork t t' := by
  obtain ⟨conn, context, _ | ⟨rest, _ | _⟩, alive⟩ := t
  · cases h
  · obtain rfl := Except.ok.inj h
    exact ⟨rfl, rfl⟩
  · cases h

/-- A server that leaves the connection alone when it is down. -/
structure Idles (P : Program) (file : Option Bytes) : Prop where
  onConnection : ∀ t t' w d, t.conn.state = .kDisconnected → P.onConnection file t w d = .ok t' →
    SameWork t t'
  dtor : ∀ t t', P.dtor t = .ok t' → SameWork t t'

theorem idles_download2 (file : Option Bytes) : Idles download2 file where
  onConnection t t' w d hdown h := by
    obtain ⟨conn, context, fp, alive⟩ := t
    change Download2.onConnection file _ w d = _ at h
    rw [Download2.onConnection, if_neg (by rw [hdown]; simp)] at h
    cases context with
    | file => exact fclose_sameWork h
    | empty | null =>
      obtain rfl := Except.ok.inj h
      exact ⟨rfl, rfl⟩
  dtor t t' h := by
    obtain rfl := Except.ok.inj h
    exact ⟨rfl, rfl⟩

theorem idles_download3 (file : Option Bytes) : Idles download3 file where
  onConnection t t' w d hdown h := by
    change Download3.onConnection file t w d = _ at h
    rw [Download3.onConnection, if_neg (by rw [hdown]; simp)] at h
    obtain rfl := Except.ok.inj h
    exact ⟨rfl, rfl⟩
  dtor t t' h := by
    obtain ⟨conn, context, fp, alive⟩ := t
    cases context with
    | file => exact fclose_sameWork h
    | empty | null =>
      obtain rfl := Except.ok.inj h
      exact ⟨rfl, rfl⟩

theorem close_sameWork (hP : Idles P file) (h : Inv (file.getD []) t.conn t.unread)
    (hup : t.conn.state = .kConnected ∨ t.conn.state = .kDisconnecting) {t' : Transfer}
    {d : ShutdownResult} (hclose : close P file t w d = .ok t') : SameWork t t' := by
  obtain ⟨c', hc', -, hdown, -, hout⟩ := h.handleClose hup
  rw [close, hc'] at hclose
  obtain ⟨u, hu, hrest⟩ := bind_eq_ok.1
    (show (P.onConnection file { t with conn := c' } w d >>= _) = _ from hclose)
  obtain rfl := Except.ok.inj hrest
  have hsame := hP.onConnection _ u w d hdown hu
  refine ⟨?_, hsame.2⟩
  show u.conn.outputBuffer.readable = _
  rw [hsame.1]
  show c'.outputBuffer.readable = _
  rw [hout]

/-- While bytes are buffered no step sends, and none reads the file. -/
theorem step_sameWork (hP : Idles P file) (h : Inv (file.getD []) t.conn t.unread) (hE : Env t a)
    (hbusy : t.conn.outputBuffer.readable ≠ []) {t' : Transfer}
    (hstep : (machine P file).step t a = .ok t') : SameWork t t' := by
  change step P file t a = .ok t' at hstep
  cases a with
  | handleRead r w d =>
    cases r with
    | fail errno =>
      obtain rfl := Except.ok.inj hstep
      exact ⟨rfl, rfl⟩
    | read data =>
      obtain ⟨c', hread, hinv, hstate, -, -, hout⟩ := h.handleRead data
      have hsame : SameWork t { t with conn := c' } := by
        refine ⟨?_, rfl⟩
        show c'.outputBuffer.readable = _
        rw [hout]
      rw [step, hread] at hstep
      cases data with
      | nil =>
        have hup : c'.state = .kConnected ∨ c'.state = .kDisconnecting := by
          rw [hstate]
          exact hE.2
        have hconn : Inv (file.getD []) { t with conn := c' }.conn { t with conn := c' }.unread := hinv
        exact hsame.trans (close_sameWork hP hconn hup hstep)
      | cons x xs =>
        obtain rfl := Except.ok.inj hstep
        exact hsame
  | handleWrite w d =>
    obtain ⟨c', hc', -, -, -, -, hread⟩ := h.handleWrite w d
    rw [step, hc'] at hstep
    obtain rfl := Except.ok.inj hstep
    exact ⟨hread, rfl⟩
  | handleClose w d => exact close_sameWork hP h hE.2 hstep
  | functor w d =>
    rw [step] at hstep
    cases hqueue : t.conn.pendingFunctors with
    | nil =>
      rw [hqueue] at hstep
      obtain rfl := Except.ok.inj hstep
      exact ⟨rfl, rfl⟩
    | cons f fs => exact absurd (h.pop hqueue).2.2.1 hbusy
  | dtor =>
    rw [step, if_pos hE.2.1] at hstep
    obtain ⟨u, hu, hrest⟩ := bind_eq_ok.1 hstep
    obtain rfl := Except.ok.inj hrest
    exact hP.dtor t u hu

/-- Whatever the server, the connection keeps its invariant. -/
theorem exists_invariant (hP : P = download2 ∨ P = download3) (fd : ℕ)
    (hw : AnswersChunk w (file.getD [])) {d : ShutdownResult} (ht : start P file fd w d = .ok t) :
    ∃ I : Transfer → Prop, I t ∧ (∀ s, I s → Inv (file.getD []) s.conn s.unread) ∧
      ∀ s a s', I s → Env s a → (machine P file).step s a = .ok s' → I s' := by
  rcases hP with rfl | rfl
  · rcases start_plain fd hw d with ⟨u, hu, hplain⟩ | ⟨hfault, -⟩
    · obtain rfl := Except.ok.inj (hu.symm.trans ht)
      refine ⟨fun s => Plain file s ∨ Stale file s, Or.inl hplain, ?_, ?_⟩
      · rintro s (h | h) <;> exact h.inv
      · rintro s a s' (h | h) hE hs'
        · by_cases hq : Quiet s a
          · exact Or.inl ((keeps_plain file).of_step h hE hq hs')
          · obtain ⟨v, hv, hI⟩ := h.step_of_not_quiet hE hq
            obtain rfl := Except.ok.inj (hv.symm.trans hs')
            exact Or.inr hI
        · rcases h.step_cases hE with ⟨v, e, rfl⟩ | ⟨v, hv, hI⟩
          · rw [h.functor v e] at hs'
            cases hs'
          · obtain rfl := Except.ok.inj (hv.symm.trans hs')
            exact Or.inr hI
    · cases hfault.symm.trans ht
  · rcases start_shared fd hw d with ⟨u, hu, hshared⟩ | ⟨hfault, -⟩
    · obtain rfl := Except.ok.inj (hu.symm.trans ht)
      exact ⟨Shared file, hshared, fun s h => h.inv,
        fun s a s' h hE hs' => (keeps_shared file).of_step h hE (fun _ => trivial) hs'⟩
    · cases hfault.symm.trans ht

/-- A chunk that the kernel does not take at once is the last one: from then on the same bytes stay
buffered, no more of the file is read, and the stream does not end. -/
theorem deferred_transfer_stalls (hP : P = download2 ∨ P = download3) (fd : ℕ)
    (file : Option Bytes) (w : WriteResult) (hw : AnswersChunk w (file.getD [])) (d : ShutdownResult)
    (t : Transfer) (ht : start P file fd w d = .ok t) (as bs : List Action) (s s' : Transfer)
    (hE : (machine P file).Along Env t (as ++ bs)) (hs : (machine P file).run t as = .ok s)
    (hdeferred : s.conn.outputBuffer.readable ≠ []) (hs' : (machine P file).run s bs = .ok s') :
    s'.conn.outputBuffer.readable = s.conn.outputBuffer.readable ∧ s'.unread = s.unread ∧
      s'.conn.writeHalfClosed = false := by
  obtain ⟨I, hI, hinv, hstep⟩ := exists_invariant hP fd hw ht
  have hidles : Idles P file := by
    rcases hP with rfl | rfl
    · exact idles_download2 file
    · exact idles_download3 file
  obtain ⟨hEas, hEbs⟩ := Machine.along_append.1 hE
  have hIs := Machine.inv_of_along hstep hI hEas hs
  have hsame := Machine.inv_of_along (I := fun u => I u ∧ SameWork s u)
    (fun u a u' h hEu hu' => ⟨hstep u a u' h.1 hEu hu', h.2.trans (step_sameWork hidles (hinv u h.1) hEu
      (by rw [h.2.1]; exact hdeferred) hu')⟩) ⟨hIs, rfl, rfl⟩ (hEbs s hs) hs'
  refine ⟨hsame.2.1, hsame.2.2, ?_⟩
  rcases (hinv s' hsame.1).stage with ⟨-, hend⟩ | ⟨-, hidle⟩
  · cases hhalf : s'.conn.writeHalfClosed with
    | false => rfl
    | true => exact absurd (hsame.2.1.symm.trans (hend hhalf).2) hdeferred
  · exact hidle.2.1

/-- The kernel takes one byte of three. -/
theorem deferred_transfer_stalls_three :
    ∃ t s', start download3 (some [1, 2, 3]) 7 (.wrote 1) .success = .ok t ∧
      t.conn.outputBuffer.readable = [2, 3] ∧
      (machine download3 (some [1, 2, 3])).run t [.handleWrite (.wrote 2) .success,
        .handleWrite (.wrote 1) .success, .functor (.wrote 0) .success] = .ok s' ∧
      s'.conn.outputBuffer.readable = [2, 3] ∧ s'.conn.writeHalfClosed = false := by
  have hE : ∃ t ∈ (start download3 (some [1, 2, 3]) 7 (.wrote 1) .success).toOption,
      t.conn.outputBuffer.readable = [2, 3] ∧
      (machine download3 (some [1, 2, 3])).Along Env t [.handleWrite (.wrote 2) .success,
        .handleWrite (.wrote 1) .success, .functor (.wrote 0) .success] ∧
      ∃ s' ∈ ((machine download3 (some [1, 2, 3])).run t [.handleWrite (.wrote 2) .success,
        .handleWrite (.wrote 1) .success, .functor (.wrote 0) .success]).toOption, True := by
    decide +kernel
  obtain ⟨t, ht, hread, hrun, s', hs', -⟩ := hE
  have hstart := of_mem_toOption ht
  have hend := of_mem_toOption hs'
  have hstall := deferred_transfer_stalls (Or.inr rfl) 7 _ _ (by decide) .success t hstart [] _ t s'
    hrun rfl (by rw [hread]; simp) hend
  exact ⟨t, s', hstart, hread, hend, hstall.1.trans hread, hstall.2.2⟩

end FileTransfer

end Reactor
