import Reactor.Lib.Machine
import Reactor.TcpConnection

/-!
# The life of a connection

The machine of one established connection: channel events, user calls, queued functors, the timer of
`forceCloseWithDelay` and `connectDestroyed`.  A function that invokes a callback is interrupted
there, since the callback may call the connection again; `todo` is what the loop's thread has still
to do when it comes back.

`forceClose` acts in the states `kConnected` and `kDisconnected`, where `kConnected` and
`kDisconnecting` are meant.  Two things follow.  A connection that is down is revived by it and
closed a second time; without such a call, and without a hangup event that closes and then reads the
end of the stream, a connection dies at most once (`dies_at_most_once`).  And a connection that is
shutting down is not closed by it; a call in state `kConnected` does take effect
(`forceClose_takes_effect`).
-/

namespace Reactor

namespace TcpConnection

namespace Lifecycle

/-- What the loop's thread has still to do for the connection. -/
inductive Frame where
  | handleClose
  | closeCallback
  | handleRead (r : ReadvResult)
  | handleWrite (w : WriteResult) (d : ShutdownResult)
  | channelRemove
  deriving DecidableEq, Repr

/-- A call from user code, `inLoop` on the loop's thread. -/
inductive Call where
  | send (inLoop : Bool) (message : Bytes) (w : WriteResult)
  | shutdown (inLoop : Bool) (d : ShutdownResult)
  | forceClose
  | forceCloseWithDelay
  | tcpClientDtor (inLoop unique : Bool)
  deriving DecidableEq, Repr

inductive Action where
  | user (call : Call)
  | event (revents : Mask) (r : ReadvResult) (w : WriteResult) (d : ShutdownResult)
  | functor (w : WriteResult) (d : ShutdownResult)
  | timer
  | connectDestroyed
  | resume
  deriving DecidableEq, Repr

/-- `inCallback` holds while user code runs in a callback that the loop's thread invoked for the
connection, `executed` counts the functors that ran. -/
structure System where
  conn : TcpConnection
  todo : List Frame
  inCallback : Bool
  destroyed : Bool
  executed : ℕ
  deriving DecidableEq, Repr

def Call.exec (c : TcpConnection) : Call → Except Fault TcpConnection
  | .send inLoop message w => c.send inLoop message w
  | .shutdown inLoop d => c.shutdown inLoop d
  | .forceClose => return c.forceClose
  | .forceCloseWithDelay => return c.forceCloseWithDelay
  | .tcpClientDtor inLoop unique => return c.tcpClientDtor inLoop unique

/-- The frames of one `handleEvent`.  `handleError` only prints the error of the socket. -/
def frames (revents : Mask) (r : ReadvResult) (w : WriteResult) (d : ShutdownResult) : List Frame :=
  (Channel.handleEventWithGuard revents).filterMap fun
    | .close => some .handleClose
    | .error => none
    | .read => some (.handleRead r)
    | .write => some (.handleWrite w d)

namespace System

/-- `handleClose`, interrupted by `connectionCallback_`. -/
def handleClose (s : System) : Except Fault System := do
  return { s with
    conn := ← s.conn.handleClose, todo := .closeCallback :: s.todo, inCallback := true }

def runFrame (s : System) : Frame → Except Fault System
  | .handleClose => s.handleClose
  | .closeCallback => return { s with conn := s.conn.closeCallback, inCallback := true }
  | .handleRead r => do
    let (n, conn) ← s.conn.handleRead r
    match n with
    | .ok 0 => return { s with conn := conn, todo := .handleClose :: s.todo, inCallback := false }
    | .ok (_ + 1) => return { s with conn := conn.invoke .message, inCallback := true }
    | .error _ => return { s with conn := conn, inCallback := false }
  | .handleWrite w d => return { s with conn := ← s.conn.handleWrite w d, inCallback := false }
  | .channelRemove => return { s with conn := ← s.conn.removeChannel, inCallback := true }

def runFunctor (s : System) (w : WriteResult) (d : ShutdownResult) : Functor → Except Fault System
  | .sendInLoop message =>
    return { s with conn := ← s.conn.sendInLoop (cString message) w, inCallback := false }
  | .shutdownInLoop => return { s with conn := ← s.conn.shutdownInLoop d, inCallback := false }
  | .forceCloseInLoop =>
    if s.conn.state = .kConnected ∨ s.conn.state = .kDisconnecting then s.handleClose
    else return { s with inCallback := false }
  | .writeComplete => return { s with conn := s.conn.invoke .writeComplete, inCallback := true }
  | .highWaterMark len =>
    return { s with conn := s.conn.invoke (.highWaterMark len), inCallback := true }
  | .setCloseCallback => return { s with inCallback := false }

def step (s : System) : Action → Except Fault System
  | .user call => return { s with conn := ← call.exec s.conn }
  | .event revents r w d => return { s with todo := frames revents r w d, inCallback := false }
  | .functor w d =>
    match s.conn.pendingFunctors with
    | [] => return s
    | f :: fs =>
      let conn := { s.conn with pendingFunctors := fs }
      { s with conn := conn, executed := s.executed + 1 }.runFunctor w d f
  | .timer =>
    let conn := { s.conn with delayTimers := s.conn.delayTimers - 1 }
    return { s with conn := conn.forceClose }
  | .connectDestroyed =>
    return { s with
      conn := s.conn.connectDestroyed
      todo := .channelRemove :: s.todo
      inCallback := true
      destroyed := true }
  | .resume =>
    match s.todo with
    | [] => return s
    | f :: fs => { s with todo := fs }.runFrame f

end System

def machine : Machine System Action Fault := ⟨System.step⟩

/-- A connection right after `connectEstablished`, inside its `connectionCallback_`. -/
def start (fd : ℕ) (writeComplete highWater : Bool) (mark : ℕ) : Except Fault System := do
  return ⟨← (new fd writeComplete highWater mark).connectEstablished, [], true, false, 0⟩

/-- The kernel answers the write of a queued `sendInLoop`. -/
def AnswersFront (w : WriteResult) : List Functor → Prop
  | [] => False
  | .sendInLoop message :: _ => w.Fits (cString message).length
  | _ :: _ => True

instance (w : WriteResult) : ∀ fs, Decidable (AnswersFront w fs)
  | [] => isFalse id
  | .sendInLoop message :: _ => inferInstanceAs (Decidable (w.Fits (cString message).length))
  | .shutdownInLoop :: _ | .forceCloseInLoop :: _ | .writeComplete :: _ | .highWaterMark _ :: _
  | .setCloseCallback :: _ => isTrue trivial

/-- What the caller, the kernel and the loop may do.  A poller watches a channel as long as it has
events, and reports those and `POLLERR` and `POLLHUP`.  Functors, timers and the event of a channel
run one after another; `connectDestroyed` runs once, by itself or inside a callback. -/
def Env (s : System) : Action → Prop
  | .user (.send _ message w) => w.Fits message.length
  | .user _ => True
  | .event revents _ _ _ =>
    s.todo = [] ∧ s.conn.channel.events ≠ Channel.kNoneEvent ∧ ¬ revents.has POLLRDHUP ∧
      (revents.has POLLIN → s.conn.channel.events.has POLLIN) ∧
      (revents.has POLLPRI → s.conn.channel.events.has POLLPRI) ∧
      (revents.has POLLOUT → s.conn.channel.events.has POLLOUT)
  | .functor w _ => s.todo = [] ∧ AnswersFront w s.conn.pendingFunctors
  | .timer => s.todo = [] ∧ 0 < s.conn.delayTimers
  | .connectDestroyed => s.destroyed = false ∧ (s.todo = [] ∨ s.inCallback = true)
  | .resume => s.todo ≠ []

instance (s : System) : ∀ a, Decidable (Env s a)
  | .user (.send _ message w) => inferInstanceAs (Decidable (w.Fits message.length))
  | .user (.shutdown _ _) | .user .forceClose | .user .forceCloseWithDelay
  | .user (.tcpClientDtor _ _) => isTrue trivial
  | .event _ _ _ _ => inferInstanceAs (Decidable (_ ∧ _ ∧ ¬ _ ∧ _ ∧ _ ∧ _))
  | .functor _ _ => inferInstanceAs (Decidable (_ ∧ AnswersFront _ _))
  | .timer => inferInstanceAs (Decidable (_ ∧ _))
  | .connectDestroyed => inferInstanceAs (Decidable (_ ∧ (_ ∨ _)))
  | .resume => inferInstanceAs (Decidable (_ ≠ _))

/-- `forceClose` is not called on a connection that is down, and no event with `POLLHUP` and
`POLLPRI` but without `POLLIN` finds the end of the stream. -/
def Calm (s : System) : Action → Prop
  | .user .forceClose | .user (.tcpClientDtor _ true) | .timer => s.conn.state ≠ .kDisconnected
  | .event revents r _ _ =>
    ¬ (revents.has POLLHUP ∧ ¬ revents.has POLLIN ∧ revents.has POLLPRI ∧ r = .read [])
  | .user (.send _ _ _) | .user (.shutdown _ _) | .user .forceCloseWithDelay
  | .user (.tcpClientDtor _ false) | .functor _ _ | .connectDestroyed | .resume => True

instance (s : System) : ∀ a, Decidable (Calm s a)
  | .user .forceClose | .user (.tcpClientDtor _ true) | .timer => inferInstanceAs (Decidable (_ ≠ _))
  | .event _ _ _ _ => inferInstanceAs (Decidable (¬ (_ ∧ _ ∧ _ ∧ _)))
  | .user (.send _ _ _) | .user (.shutdown _ _) | .user .forceCloseWithDelay
  | .user (.tcpClientDtor _ false) | .functor _ _ | .connectDestroyed | .resume => isTrue trivial

/-! ## Connections between two steps -/

/-- What holds of an established connection; the fourth line says that it goes down once. -/
structure Sound (c : TcpConnection) : Prop where
  input : c.inputBuffer.Wf
  output : c.outputBuffer.Wf
  established : c.state ≠ .kConnecting
  downs : c.callbacks.count (.connection .kDisconnected) = if c.state = .kDisconnected then 1 else 0
  quiet : c.state = .kDisconnected → c.channel.events = Channel.kNoneEvent
  closing : .forceCloseInLoop ∈ c.pendingFunctors ∨ 0 < c.delayTimers → c.state ≠ .kConnected

/-- The connection goes on: it may start to shut down, but it does not go down. -/
structure Continues (c c' : TcpConnection) : Prop where
  sound : Sound c → Sound c'
  state : c'.state = c.state ∨ c.state = .kConnected ∧ c'.state = .kDisconnecting
  closes : c'.callbacks.count .close = c.callbacks.count .close
  functors : c.pendingFunctors <+: c'.pendingFunctors

theorem Continues.refl (c : TcpConnection) : Continues c c :=
  ⟨id, .inl rfl, rfl, List.prefix_rfl⟩

theorem Continues.trans {c₁ c₂ c₃ : TcpConnection} (h : Continues c₁ c₂) (h' : Continues c₂ c₃) :
    Continues c₁ c₃ := by
  refine ⟨h'.sound ∘ h.sound, ?_, h'.closes.trans h.closes, h.functors.trans h'.functors⟩
  rcases h.state with h₁ | ⟨h₁, h₂⟩ <;> rcases h'.state with h₃ | ⟨h₃, h₄⟩
  · exact .inl (h₃.trans h₁)
  · exact .inr ⟨h₁ ▸ h₃, h₄⟩
  · exact .inr ⟨h₁, h₃.trans h₂⟩
  · exact absurd (h₂.symm.trans h₃) (by decide)

theorem continues_of_sameLife {c c' : TcpConnection} (h : SameLife c c')
    (hwf : c.outputBuffer.Wf → c'.outputBuffer.Wf) : Continues c c' := by
  obtain ⟨fs, hfs, hn⟩ := h.functors
  refine ⟨fun hs => ⟨?_, hwf hs.output, ?_, ?_, ?_, ?_⟩, .inl h.state, by rw [h.callbacks], ?_⟩
  · rw [h.inputBuffer]
    exact hs.input
  · rw [h.state]
    exact hs.established
  · rw [h.callbacks, h.state]
    exact hs.downs
  · rw [h.state]
    exact fun hdown => h.quiet hdown (hs.quiet hdown)
  · rw [h.state, h.delayTimers, hfs]
    intro hc
    refine hs.closing (hc.imp_left fun hmem => ?_)
    exact (List.mem_append.1 hmem).resolve_right hn
  · rw [hfs]
    exact List.prefix_append _ _

theorem Sound.invoke {c : TcpConnection} (hs : Sound c) {cb : Callback}
    (hdown : cb ≠ .connection .kDisconnected) : Sound (c.invoke cb) := by
  refine ⟨hs.input, hs.output, hs.established, ?_, hs.quiet, hs.closing⟩
  simp only [TcpConnection.invoke, List.count_append, List.count_singleton, beq_iff_eq, if_neg hdown]
  exact hs.downs

theorem continues_invoke (c : TcpConnection) {cb : Callback} (hclose : cb ≠ .close)
    (hdown : cb ≠ .connection .kDisconnected) : Continues c (c.invoke cb) := by
  refine ⟨fun hs => hs.invoke hdown, .inl rfl, ?_, List.prefix_rfl⟩
  simp [invoke, List.count_append, hclose]

theorem continues_disconnecting (c : TcpConnection) (h : c.state = .kConnected)
    (fs : List Functor) (n : ℕ) : Continues c { c with
      state := .kDisconnecting, pendingFunctors := c.pendingFunctors ++ fs, delayTimers := n } := by
  refine ⟨fun hs => ⟨hs.input, hs.output, by simp, ?_, by simp, by simp⟩, .inr ⟨h, rfl⟩, rfl,
    List.prefix_append _ _⟩
  have := hs.downs
  simpa [h] using this

theorem continues_queueInLoop (c : TcpConnection) {f : Functor} (hf : f ≠ .forceCloseInLoop) :
    Continues c (c.queueInLoop f) :=
  continues_of_sameLife (sameLife_queueInLoop c hf) id

theorem continues_halfClosed (c : TcpConnection) : Continues c c.halfClosed :=
  continues_of_sameLife (sameLife_halfClosed c) (by simp)

theorem continues_sendInLoop {c : TcpConnection} (hs : Sound c) {message : Bytes} {w : WriteResult}
    (hw : w.Fits message.length) : ∃ c', c.sendInLoop message w = .ok c' ∧ Continues c c' := by
  obtain ⟨c', hc', hwf, hlife, -⟩ := sendInLoop_spec hs.output hw
  exact ⟨c', hc', continues_of_sameLife hlife fun _ => hwf⟩

theorem continues_handleWrite {c : TcpConnection} (hs : Sound c) (w : WriteResult)
    (d : ShutdownResult) : (∃ c', c.handleWrite w d = .ok c' ∧ Continues c c') ∨
      c.handleWrite w d = .error .shutdownWrite ∧ d ≠ .success ∧
        ¬ w.Fits c.outputBuffer.readableBytes := by
  refine (handleWrite_spec hs.output w d).imp_left ?_
  rintro ⟨c', hc', hwf, hlife, -⟩
  exact ⟨c', hc', continues_of_sameLife hlife fun _ => hwf⟩

theorem continues_shutDown (c : TcpConnection) : Continues c c.shutDown := by
  unfold shutDown
  split_ifs with hstate
  · have h := continues_disconnecting c hstate [] c.delayTimers
    rw [List.append_nil] at h
    exact h.trans (continues_halfClosed _)
  · exact Continues.refl c

theorem continues_shutdown (c : TcpConnection) (inLoop : Bool) (d : ShutdownResult) :
    (∃ c', c.shutdown inLoop d = .ok c' ∧ Continues c c') ∨
      c.shutdown inLoop d = .error .shutdownWrite ∧ d ≠ .success := by
  cases inLoop with
  | true => exact (shutdown_cases c d).imp_left fun hok => ⟨_, hok, continues_shutDown c⟩
  | false =>
    refine .inl ⟨_, shutdown_off_loop c d, ?_⟩
    split_ifs with hstate
    · have h := continues_disconnecting c hstate [] c.delayTimers
      rw [List.append_nil] at h
      exact h.trans (continues_queueInLoop _ (by decide))
    · exact Continues.refl c

/-- `forceClose` on a connection that is not down. -/
theorem continues_forceClose {c : TcpConnection} (h : c.state ≠ .kDisconnected) :
    Continues c c.forceClose := by
  unfold forceClose
  split_ifs with hstate
  · exact continues_disconnecting c (hstate.resolve_right h) _ _
  · exact Continues.refl c

theorem continues_forceCloseWithDelay (c : TcpConnection) : Continues c c.forceCloseWithDelay := by
  unfold forceCloseWithDelay
  split_ifs with hstate
  · rcases hstate with hstate | hstate
    · have h := continues_disconnecting c hstate [] (c.delayTimers + 1)
      rwa [List.append_nil] at h
    · refine ⟨fun hs => ⟨hs.input, hs.output, by simp, ?_, by simp, by simp⟩, .inl hstate.symm, rfl,
        List.prefix_rfl⟩
      simpa [hstate] using hs.downs
  · exact Continues.refl c

theorem continues_tcpClientDtor {c : TcpConnection} {inLoop unique : Bool}
    (h : unique = true → c.state ≠ .kDisconnected) :
    Continues c (c.tcpClientDtor inLoop unique) := by
  have hset : Continues c (if inLoop then c else c.queueInLoop .setCloseCallback) := by
    split_ifs
    · exact Continues.refl c
    · exact continues_queueInLoop c (by decide)
  have hstate : (if inLoop then c else c.queueInLoop .setCloseCallback).state = c.state := by
    split_ifs <;> rfl
  unfold tcpClientDtor
  dsimp only
  by_cases hu : unique = true
  · rw [if_pos hu]
    exact hset.trans (continues_forceClose (by rw [hstate]; exact h hu))
  · rw [if_neg hu]
    exact hset

theorem continues_send {c : TcpConnection} (hs : Sound c) (inLoop : Bool) {message : Bytes}
    {w : WriteResult} (hw : w.Fits message.length) :
    ∃ c', c.send inLoop message w = .ok c' ∧ Continues c c' := by
  unfold send
  split_ifs
  · exact continues_sendInLoop hs hw
  · exact ⟨_, rfl, continues_queueInLoop c (by simp)⟩
  · exact ⟨c, rfl, Continues.refl c⟩

/-- The `shutdown(2)` that a call makes succeeds. -/
def Call.Succeeds : Call → Prop
  | .shutdown _ d => d = .success
  | .send _ _ _ | .forceClose | .forceCloseWithDelay | .tcpClientDtor _ _ => True

/-- A user call returns, unless its `shutdown(2)` fails, and does not bring the connection down by
itself. -/
theorem continues_exec {s : System} (hs : Sound s.conn) {call : Call} (hE : Env s (.user call))
    (hC : Calm s (.user call)) : (∃ c', call.exec s.conn = .ok c' ∧ Continues s.conn c') ∨
      call.exec s.conn = .error .shutdownWrite ∧ ¬ call.Succeeds := by
  cases call with
  | send inLoop message w => exact .inl (continues_send hs inLoop hE)
  | shutdown inLoop d => exact continues_shutdown _ _ d
  | forceClose => exact .inl ⟨_, rfl, continues_forceClose hC⟩
  | forceCloseWithDelay => exact .inl ⟨_, rfl, continues_forceCloseWithDelay _⟩
  | tcpClientDtor inLoop unique =>
    refine .inl ⟨_, rfl, continues_tcpClientDtor fun hu => ?_⟩
    subst hu
    exact hC

theorem continues_handleRead {c : TcpConnection} (hs : Sound c) (r : ReadvResult) :
    ∃ n c', c.handleRead r = .ok (n, c') ∧ Continues c c' ∧ (n = .ok 0 → r = .read []) := by
  have hset : ∀ {b : Buffer}, b.Wf → Continues c { c with inputBuffer := b } := fun hb =>
    ⟨fun hs => ⟨hb, hs.output, hs.established, hs.downs, hs.quiet, hs.closing⟩, .inl rfl, rfl,
      List.prefix_rfl⟩
  cases r with
  | fail errno => exact ⟨_, _, rfl, hset hs.input, by simp⟩
  | read data =>
    obtain ⟨b, hb, hwf, -⟩ := hs.input.readFd_read data
    refine ⟨_, _, by rw [handleRead, hb]; rfl, hset hwf, fun h => ?_⟩
    have hlen : data.length = 0 := by simpa using h
    rw [List.length_eq_zero_iff.1 hlen]

/-! ## The machine between two steps -/

/-- The frames that close a connection, and so need it up. -/
def Frame.closing : Frame → Bool
  | .handleClose | .handleRead (.read []) => true
  | _ => false

/-- The close callbacks that were invoked or are due. -/
def System.closes (s : System) : ℕ :=
  s.conn.callbacks.count .close + s.todo.count .closeCallback

structure Inv (s : System) : Prop where
  sound : Sound s.conn
  closes : s.closes ≤ s.conn.callbacks.count (.connection .kDisconnected)
  head : ∀ f ∈ s.todo.head?, f.closing → s.conn.state ≠ .kDisconnected ∧ s.inCallback = false
  tail : ∀ f ∈ s.todo.tail, f.closing = false

/-- What a frame or an action other than a functor does. -/
structure Moves (s s' : System) : Prop where
  inv : Inv s'
  executed : s'.executed = s.executed
  functors : s.conn.pendingFunctors <+: s'.conn.pendingFunctors
  stays_down : s.conn.state = .kDisconnected → s'.conn.state = .kDisconnected
  owes : s.conn.state ≠ .kConnected →
    s'.conn.state = s.conn.state ∧ s'.closes = s.closes ∨
      s'.conn.state = .kDisconnected ∧ s'.closes = s.closes + 1

theorem Inv.not_closing {s : System} (h : Inv s) (hs : s.todo = [] ∨ s.inCallback = true) :
    ∀ f ∈ s.todo, f.closing = false := by
  intro f hf
  rcases hs with hs | hs
  · simp [hs] at hf
  · cases htodo : s.todo with
    | nil => simp [htodo] at hf
    | cons g gs =>
      rw [htodo] at hf
      rcases List.mem_cons.1 hf with rfl | hf
      · by_contra hclosing
        have := (h.head f (by simp [htodo]) (by simpa using hclosing)).2
        simp [hs] at this
      · exact h.tail f (by simpa [htodo] using hf)

/-- Frames of which none closes satisfy the two conditions on `todo`. -/
theorem Inv.of_not_closing {s : System} (hs : Sound s.conn)
    (hc : s.closes ≤ s.conn.callbacks.count (.connection .kDisconnected))
    (hn : ∀ f ∈ s.todo, f.closing = false) : Inv s := by
  refine ⟨hs, hc, fun f hf hclosing => ?_, fun f hf => hn f (List.mem_of_mem_tail hf)⟩
  rw [hn f (List.mem_of_mem_head? hf)] at hclosing
  cases hclosing

theorem Continues.down_iff {c c' : TcpConnection} (h : Continues c c') :
    c'.state = .kDisconnected ↔ c.state = .kDisconnected := by
  rcases h.state with h | ⟨h, h'⟩
  · rw [h]
  · simp [h, h']

theorem Continues.downs {c c' : TcpConnection} (h : Continues c c') (hs : Sound c) :
    c'.callbacks.count (.connection .kDisconnected) =
      c.callbacks.count (.connection .kDisconnected) := by
  rw [(h.sound hs).downs, hs.downs]
  simp only [h.down_iff]

/-- A step of a connection that goes on, whatever becomes of `todo` as long as no close callback
is forgotten. -/
theorem Continues.moves {s s' : System} (h : Continues s.conn s'.conn) (hI : Inv s)
    (hexec : s'.executed = s.executed)
    (htodo : s'.todo.count .closeCallback = s.todo.count .closeCallback)
    (hhead : ∀ f ∈ s'.todo.head?, f.closing → s'.conn.state ≠ .kDisconnected ∧ s'.inCallback = false)
    (htail : ∀ f ∈ s'.todo.tail, f.closing = false) : Moves s s' := by
  have hcloses : s'.closes = s.closes := by
    unfold System.closes
    rw [h.closes, htodo]
  refine ⟨⟨h.sound hI.sound, ?_, hhead, htail⟩, hexec, h.functors, h.down_iff.2, fun hc => ?_⟩
  · rw [hcloses, h.downs hI.sound]
    exact hI.closes
  · exact .inl ⟨h.state.resolve_right fun h' => hc h'.1, hcloses⟩

theorem Continues.moves_of_not_closing {s s' : System} (h : Continues s.conn s'.conn) (hI : Inv s)
    (hexec : s'.executed = s.executed)
    (htodo : s'.todo.count .closeCallback = s.todo.count .closeCallback)
    (hn : ∀ f ∈ s'.todo, f.closing = false) : Moves s s' := by
  refine h.moves hI hexec htodo (fun f hf hclosing => ?_) fun f hf => hn f (List.mem_of_mem_tail hf)
  rw [hn f (List.mem_of_mem_head? hf)] at hclosing
  cases hclosing

theorem moves_handleClose {s : System} (hs : Sound s.conn)
    (hc : s.closes ≤ s.conn.callbacks.count (.connection .kDisconnected))
    (hn : ∀ f ∈ s.todo, f.closing = false) (hup : s.conn.state ≠ .kDisconnected) :
    ∃ s', s.handleClose = .ok s' ∧ Moves s s' ∧ s'.conn.state = .kDisconnected := by
  have hstate : s.conn.state = .kConnected ∨ s.conn.state = .kDisconnecting := by
    have := hs.established
    cases h : s.conn.state <;> simp_all
  have hdowns := hs.downs
  rw [if_neg hup] at hdowns
  unfold System.handleClose TcpConnection.handleClose
  rw [check_of hstate, ok_bind]
  refine ⟨_, rfl, ⟨?_, rfl, List.prefix_rfl, fun _ => rfl, fun _ => .inr ⟨rfl, ?_⟩⟩, rfl⟩
  · refine Inv.of_not_closing ⟨hs.input, hs.output, by simp [invoke], ?_, fun _ => rfl, by simp [invoke]⟩
      ?_ ?_
    · simp [invoke, List.count_append, hdowns]
    · unfold System.closes at hc ⊢
      simp [invoke, List.count_append, hdowns] at hc ⊢
      omega
    · intro f hf
      rcases List.mem_cons.1 hf with rfl | hf
      · rfl
      · exact hn f hf
  · simp [System.closes, invoke, List.count_append]
    omega

/-- The loop's thread comes back to what it has to do. -/
theorem moves_resume {s : System} (hI : Inv s) (hE : Env s .resume) :
    (machine.step s .resume = .error .channelRemove ∧ .channelRemove ∈ s.todo ∧
        ¬ s.conn.channel.isNoneEvent) ∨
      (machine.step s .resume = .error .shutdownWrite ∧ ∃ w d fs, s.todo = .handleWrite w d :: fs ∧
        d ≠ .success ∧ ¬ w.Fits s.conn.outputBuffer.readableBytes) ∨
      ∃ s', machine.step s .resume = .ok s' ∧ Moves s s' := by
  obtain ⟨conn, _ | ⟨f, fs⟩, inCallback, destroyed, executed⟩ := s
  · exact absurd rfl hE
  have hs : Sound conn := hI.sound
  have htail : ∀ g ∈ fs, g.closing = false := hI.tail
  cases f with
  | handleClose =>
    obtain ⟨s', hs', hm, -⟩ := moves_handleClose (s := ⟨conn, fs, inCallback, destroyed, executed⟩)
      hs hI.closes htail (hI.head _ rfl rfl).1
    exact .inr (.inr ⟨s', hs', hm.inv, hm.executed, hm.functors, hm.stays_down, hm.owes⟩)
  | closeCallback =>
    have hcloses := hI.closes
    refine .inr (.inr ⟨_, rfl, ?_, rfl, List.prefix_rfl, id, fun _ => .inl ⟨rfl, ?_⟩⟩)
    · refine Inv.of_not_closing (hs.invoke (by decide)) ?_ htail
      simp [System.closes, closeCallback, invoke, List.count_append] at hcloses ⊢
      omega
    · simp [System.closes, closeCallback, invoke, List.count_append]
      omega
  | handleRead r =>
    obtain ⟨n, c', hc', hcont, hzero⟩ := continues_handleRead hs r
    have hstep : machine.step ⟨conn, .handleRead r :: fs, inCallback, destroyed, executed⟩ .resume =
        System.runFrame ⟨conn, fs, inCallback, destroyed, executed⟩ (.handleRead r) := rfl
    rw [hstep, System.runFrame, hc', ok_bind]
    obtain e | _ | n := n
    · exact .inr (.inr ⟨_, rfl, hcont.moves_of_not_closing hI rfl (by simp) htail⟩)
    · -- the end of the stream: `handleClose` follows at once
      obtain rfl := hzero rfl
      obtain ⟨hup, -⟩ := hI.head _ rfl rfl
      refine .inr (.inr ⟨_, rfl, hcont.moves hI rfl (by simp) (fun _ _ _ => ⟨?_, rfl⟩) htail⟩)
      exact fun hdown => hup (hcont.down_iff.1 hdown)
    · have hcb : Continues c' (c'.invoke .message) := continues_invoke c' (by decide) (by decide)
      have hcont' := hcont.trans hcb
      exact .inr (.inr ⟨_, rfl, hcont'.moves_of_not_closing hI rfl (by simp) htail⟩)
  | handleWrite w d =>
    have hstep : machine.step ⟨conn, .handleWrite w d :: fs, inCallback, destroyed, executed⟩ .resume =
        System.runFrame ⟨conn, fs, inCallback, destroyed, executed⟩ (.handleWrite w d) := rfl
    rw [hstep, System.runFrame]
    rcases continues_handleWrite hs w d with ⟨c', hc', hcont⟩ | ⟨hfault, hd, hfits⟩
    · rw [hc', ok_bind]
      exact .inr (.inr ⟨_, rfl, hcont.moves_of_not_closing hI rfl (by simp) htail⟩)
    · rw [hfault]
      exact .inr (.inl ⟨rfl, w, d, fs, rfl, hd, hfits⟩)
  | channelRemove =>
    have hstep : machine.step ⟨conn, .channelRemove :: fs, inCallback, destroyed, executed⟩ .resume =
        System.runFrame ⟨conn, fs, inCallback, destroyed, executed⟩ .channelRemove := rfl
    rw [hstep, System.runFrame, removeChannel, Channel.remove]
    by_cases hnone : conn.channel.isNoneEvent
    · rw [check_of hnone]
      refine .inr (.inr ⟨_, rfl, Continues.moves_of_not_closing ?_ hI rfl (by simp) htail⟩)
      exact ⟨fun hs => ⟨hs.input, hs.output, hs.established, hs.downs, hs.quiet, hs.closing⟩,
        .inl rfl, rfl, List.prefix_rfl⟩
    · rw [check_of_not hnone]
      exact .inl ⟨rfl, List.mem_cons_self, hnone⟩

/-- Only the first handler of a calm event may close the connection. -/
theorem frames_spec {revents : Mask} {r : ReadvResult} (w : WriteResult) (d : ShutdownResult)
    (hrdhup : ¬ revents.has POLLRDHUP)
    (hcalm : ¬ (revents.has POLLHUP ∧ ¬ revents.has POLLIN ∧ revents.has POLLPRI ∧ r = .read [])) :
    (frames revents r w d).count .closeCallback = 0 ∧
      ∀ f ∈ (frames revents r w d).tail, f.closing = false := by
  have hread : revents.has (POLLIN ||| POLLPRI ||| POLLRDHUP) =
      (revents.has POLLIN || revents.has POLLPRI) := by
    simp only [Bool.not_eq_true] at hrdhup
    rw [Mask.has_or, Mask.has_or, hrdhup, Bool.or_false]
  unfold frames Channel.handleEventWithGuard
  rw [hread]
  have hr : r ≠ .read [] → (Frame.handleRead r).closing = false := by
    intro hne
    rcases r with _ | (_ | _)
    · rfl
    · exact absurd rfl hne
    · rfl
  have hw : (Frame.handleWrite w d).closing = false := rfl
  cases hhup : revents.has POLLHUP <;> cases hin : revents.has POLLIN <;>
    cases hpri : revents.has POLLPRI <;> cases revents.has POLLOUT <;>
    cases revents.has (POLLERR ||| POLLNVAL) <;> simp_all

theorem moves_event {s : System} (hI : Inv s) {revents : Mask} {r : ReadvResult} {w : WriteResult}
    {d : ShutdownResult} (hE : Env s (.event revents r w d)) (hC : Calm s (.event revents r w d)) :
    Moves s { s with todo := frames revents r w d, inCallback := false } := by
  obtain ⟨htodo, hwatched, hrdhup, -⟩ := hE
  obtain ⟨hcount, htail⟩ := frames_spec w d hrdhup hC
  refine Continues.moves (Continues.refl _) hI rfl ?_ (fun _ _ _ => ⟨fun hdown => ?_, rfl⟩) htail
  · rw [hcount, htodo]
    rfl
  · exact hwatched (hI.sound.quiet hdown)

theorem moves_timer {s : System} (hI : Inv s) (hC : Calm s .timer) :
    Moves s { s with conn := { s.conn with delayTimers := s.conn.delayTimers - 1 }.forceClose } := by
  have hdec : Continues s.conn { s.conn with delayTimers := s.conn.delayTimers - 1 } := by
    refine ⟨fun hs => ⟨hs.input, hs.output, hs.established, hs.downs, hs.quiet, fun h => ?_⟩,
      .inl rfl, rfl, List.prefix_rfl⟩
    exact hs.closing (h.imp_right fun h => Nat.lt_of_lt_of_le h (Nat.sub_le _ _))
  have hcont := hdec.trans (continues_forceClose hC)
  refine hcont.moves hI rfl rfl (fun f hf hclosing => ?_) hI.tail
  obtain ⟨hup, hcb⟩ := hI.head f hf hclosing
  exact ⟨fun hdown => hup (hcont.down_iff.1 hdown), hcb⟩

theorem moves_user {s : System} (hI : Inv s) {call : Call} (hE : Env s (.user call))
    (hC : Calm s (.user call)) : (∃ s', machine.step s (.user call) = .ok s' ∧ Moves s s') ∨
      machine.step s (.user call) = .error .shutdownWrite ∧ ¬ call.Succeeds := by
  have hstep : machine.step s (.user call) =
      call.exec s.conn >>= fun conn => .ok { s with conn := conn } := rfl
  rw [hstep]
  rcases continues_exec hI.sound hE hC with ⟨c', hc', hcont⟩ | ⟨hfault, hd⟩
  · rw [hc', ok_bind]
    refine .inl ⟨_, rfl, hcont.moves hI rfl rfl (fun f hf hclosing => ?_) hI.tail⟩
    obtain ⟨hup, hcb⟩ := hI.head f hf hclosing
    exact ⟨fun hdown => hup (hcont.down_iff.1 hdown), hcb⟩
  · rw [hfault]
    exact .inr ⟨rfl, hd⟩

theorem moves_connectDestroyed {s : System} (hI : Inv s) (hE : Env s .connectDestroyed) :
    ∃ s', machine.step s .connectDestroyed = .ok s' ∧ Moves s s' := by
  have hs := hI.sound
  have hn : ∀ f ∈ Frame.channelRemove :: s.todo, f.closing = false := by
    intro f hf
    rcases List.mem_cons.1 hf with rfl | hf
    · rfl
    · exact hI.not_closing hE.2 f hf
  refine ⟨_, rfl, ?_⟩
  by_cases hstate : s.conn.state = .kConnected
  · -- the connection goes down here, and nobody else closes it
    have hdowns := hs.downs
    have hcloses := hI.closes
    rw [if_neg (by rw [hstate]; decide)] at hdowns
    unfold connectDestroyed
    rw [if_pos hstate]
    refine ⟨Inv.of_not_closing ⟨hs.input, hs.output, by simp [invoke], ?_, fun _ => rfl, by simp [invoke]⟩
      ?_ hn, rfl, List.prefix_rfl, fun _ => rfl, fun h => absurd hstate h⟩
    · simp [invoke, List.count_append, hdowns]
    · simp [System.closes, invoke, List.count_append, hdowns] at hcloses ⊢
      simp [hcloses]
  · unfold connectDestroyed
    rw [if_neg hstate]
    exact Continues.moves_of_not_closing (Continues.refl _) hI rfl (by simp) hn

/-- What a functor other than `forceCloseInLoop` does. -/
structure Plain (s s' : System) : Prop where
  todo : s'.todo = s.todo
  state : s'.conn.state = s.conn.state
  functors : ∃ fs, s'.conn.pendingFunctors = s.conn.pendingFunctors ++ fs ∧ .forceCloseInLoop ∉ fs

theorem moves_runFunctor {s : System} (hI : Inv s) (htodo : s.todo = []) {f : Functor}
    {w : WriteResult} (hw : ∀ message, f = .sendInLoop message → w.Fits (cString message).length)
    (d : ShutdownResult) :
    (∃ s', s.runFunctor w d f = .ok s' ∧ Moves s s' ∧
      (f = .forceCloseInLoop → s'.conn.state = .kDisconnected) ∧
      (f ≠ .forceCloseInLoop → Plain s s')) ∨
    s.runFunctor w d f = .error .shutdownWrite ∧ d ≠ .success := by
  have hn : ∀ g ∈ s.todo, g.closing = false := hI.not_closing (.inl htodo)
  have hnil : ∃ fs, s.conn.pendingFunctors = s.conn.pendingFunctors ++ fs ∧
      .forceCloseInLoop ∉ fs := ⟨[], by simp, by simp⟩
  cases f with
  | sendInLoop message =>
    obtain ⟨c', hc', hwf, hlife, -⟩ := sendInLoop_spec hI.sound.output (hw message rfl)
    have hcont := continues_of_sameLife hlife fun _ => hwf
    rw [System.runFunctor, hc', ok_bind]
    exact .inl ⟨_, rfl, hcont.moves_of_not_closing hI rfl rfl hn, by simp,
      fun _ => ⟨rfl, hlife.state, hlife.functors⟩⟩
  | shutdownInLoop =>
    have hlife := sameLife_halfClosed s.conn
    rw [System.runFunctor]
    rcases shutdownInLoop_cases s.conn d with hok | ⟨hfault, hd⟩
    · rw [hok, ok_bind]
      refine .inl ⟨_, rfl, ?_, by simp, fun _ => ⟨rfl, hlife.state, hlife.functors⟩⟩
      exact Continues.moves_of_not_closing (continues_halfClosed _) hI rfl rfl hn
    · rw [hfault]
      exact .inr ⟨rfl, hd⟩
  | forceCloseInLoop =>
    by_cases hdown : s.conn.state = .kDisconnected
    · rw [System.runFunctor, if_neg (by simp [hdown])]
      exact .inl ⟨_, rfl, Continues.moves_of_not_closing (Continues.refl _) hI rfl rfl hn,
        fun _ => hdown, fun h => absurd rfl h⟩
    · obtain ⟨s', hs', hm, hstate⟩ := moves_handleClose hI.sound hI.closes hn hdown
      have hup : s.conn.state = .kConnected ∨ s.conn.state = .kDisconnecting := by
        have := hI.sound.established
        cases h : s.conn.state <;> simp_all
      rw [System.runFunctor, if_pos hup]
      exact .inl ⟨s', hs', hm, fun _ => hstate, fun h => absurd rfl h⟩
  | writeComplete =>
    refine .inl ⟨_, rfl, ?_, by simp, fun _ => ⟨rfl, rfl, hnil⟩⟩
    exact Continues.moves_of_not_closing (continues_invoke _ (by decide) (by decide)) hI rfl rfl hn
  | highWaterMark len =>
    refine .inl ⟨_, rfl, ?_, by simp, fun _ => ⟨rfl, rfl, hnil⟩⟩
    exact Continues.moves_of_not_closing (continues_invoke _ (by simp) (by simp)) hI rfl rfl hn
  | setCloseCallback =>
    exact .inl ⟨_, rfl, Continues.moves_of_not_closing (Continues.refl _) hI rfl rfl hn, by simp,
      fun _ => ⟨rfl, rfl, hnil⟩⟩

/-- What one action does: the queue of functors only grows at its end, unless its first functor
runs. -/
structure Steps (s s' : System) : Prop where
  inv : Inv s'
  stays_down : s.conn.state = .kDisconnected → s'.conn.state = .kDisconnected
  owes : s.conn.state ≠ .kConnected →
    s'.conn.state = s.conn.state ∧ s'.closes = s.closes ∨
      s'.conn.state = .kDisconnected ∧ s'.closes = s.closes + 1
  progress : s'.executed = s.executed ∧ s.conn.pendingFunctors <+: s'.conn.pendingFunctors ∨
    ∃ f fs, s.conn.pendingFunctors = f :: fs ∧ s'.executed = s.executed + 1 ∧
      fs <+: s'.conn.pendingFunctors ∧ (f = .forceCloseInLoop → s'.conn.state = .kDisconnected)

theorem Moves.steps {s s' : System} (h : Moves s s') : Steps s s' :=
  ⟨h.inv, h.stays_down, h.owes, .inl ⟨h.executed, h.functors⟩⟩

/-- The functor in front of the queue runs. -/
theorem step_functor {s : System} (hI : Inv s) {w : WriteResult} {d : ShutdownResult}
    (hE : Env s (.functor w d)) :
    (∃ s' f fs, machine.step s (.functor w d) = .ok s' ∧ Steps s s' ∧
      s.conn.pendingFunctors = f :: fs ∧ s'.executed = s.executed + 1 ∧
      (f ≠ .forceCloseInLoop → Plain { s with conn := { s.conn with pendingFunctors := fs } } s')) ∨
    machine.step s (.functor w d) = .error .shutdownWrite ∧ d ≠ .success := by
  obtain ⟨htodo, hfront⟩ := hE
  have hs := hI.sound
  cases hpending : s.conn.pendingFunctors with
  | nil =>
    rw [hpending] at hfront
    exact hfront.elim
  | cons f fs =>
    rw [hpending] at hfront
    have hpop : Inv { s with
        conn := { s.conn with pendingFunctors := fs }, executed := s.executed + 1 } := by
      refine ⟨⟨hs.input, hs.output, hs.established, hs.downs, hs.quiet, fun h => ?_⟩,
        hI.closes, hI.head, hI.tail⟩
      exact hs.closing (h.imp_left fun h => by rw [hpending]; exact List.mem_cons_of_mem f h)
    have hw : ∀ message, f = .sendInLoop message → w.Fits (cString message).length := by
      rintro message rfl
      exact hfront
    have hstep : machine.step s (.functor w d) = System.runFunctor { s with
        conn := { s.conn with pendingFunctors := fs }, executed := s.executed + 1 } w d f := by
      show System.step s (.functor w d) = _
      rw [System.step, hpending]
    rw [hstep]
    rcases moves_runFunctor hpop htodo hw d with ⟨s', hs', hm, hforce, hplain⟩ | hfault
    · have hsteps : Steps s s' := ⟨hm.inv, hm.stays_down, hm.owes,
        .inr ⟨f, fs, hpending, hm.executed, hm.functors, hforce⟩⟩
      exact .inl ⟨s', f, fs, hs', hsteps, rfl, hm.executed, fun hf =>
        ⟨(hplain hf).todo, (hplain hf).state, (hplain hf).functors⟩⟩
    · exact .inr hfault

/-- A calm action faults only in `Channel::remove` and on a `shutdown(2)` that fails. -/
theorem step_spec {s : System} {a : Action} (hI : Inv s) (hE : Env s a) (hC : Calm s a) :
    (∃ s', machine.step s a = .ok s' ∧ Steps s s') ∨
      ∃ f, machine.step s a = .error f ∧ (f = .channelRemove ∨ f = .shutdownWrite) := by
  cases a with
  | user call =>
    rcases moves_user hI hE hC with ⟨s', hs', hm⟩ | ⟨hfault, -⟩
    · exact .inl ⟨s', hs', hm.steps⟩
    · exact .inr ⟨_, hfault, .inr rfl⟩
  | event revents r w d => exact .inl ⟨_, rfl, (moves_event hI hE hC).steps⟩
  | functor w d =>
    rcases step_functor hI hE with ⟨s', f, fs, hs', hsteps, -⟩ | ⟨hfault, -⟩
    · exact .inl ⟨s', hs', hsteps⟩
    · exact .inr ⟨_, hfault, .inr rfl⟩
  | timer => exact .inl ⟨_, rfl, (moves_timer hI hC).steps⟩
  | connectDestroyed =>
    obtain ⟨s', hs', hm⟩ := moves_connectDestroyed hI hE
    exact .inl ⟨s', hs', hm.steps⟩
  | resume =>
    rcases moves_resume hI hE with ⟨h, -⟩ | ⟨h, -⟩ | ⟨s', hs', hm⟩
    · exact .inr ⟨_, h, .inl rfl⟩
    · exact .inr ⟨_, h, .inr rfl⟩
    · exact .inl ⟨s', hs', hm.steps⟩

theorem steps_of_step {s s' : System} {a : Action} (hI : Inv s) (ha : Env s a ∧ Calm s a)
    (h : machine.step s a = .ok s') : Steps s s' := by
  rcases step_spec hI ha.1 ha.2 with ⟨t, ht, hsteps⟩ | ⟨f, hf, -⟩
  · obtain rfl : t = s' := Except.ok.inj (ht.symm.trans h)
    exact hsteps
  · cases hf.symm.trans h

theorem fault_of_step {s : System} {a : Action} {f : Fault} (hI : Inv s) (ha : Env s a ∧ Calm s a)
    (h : machine.step s a = .error f) : f = .channelRemove ∨ f = .shutdownWrite := by
  rcases step_spec hI ha.1 ha.2 with ⟨t, ht, -⟩ | ⟨f', hf, hwhich⟩
  · cases ht.symm.trans h
  · obtain rfl := Except.error.inj (hf.symm.trans h)
    exact hwhich

theorem inv_start {fd mark : ℕ} {writeComplete highWater : Bool} {s : System}
    (h : start fd writeComplete highWater mark = .ok s) : Inv s := by
  obtain rfl := Except.ok.inj h
  refine Inv.of_not_closing ⟨Buffer.wf_empty, Buffer.wf_empty, ?_, ?_, ?_, ?_⟩ ?_ ?_ <;>
    simp [invoke, new, System.closes]

/-! ## Dying once -/

/-- The assertion of `handleClose` holds, the two callbacks are invoked at most once, and the state
`kDisconnected` is final. -/
structure DiesOnce (s₀ : System) (as : List Action) : Prop where
  handleClose : machine.run s₀ as ≠ .error .handleClose
  callbacks : machine.Always (fun s => s.conn.callbacks.count (.connection .kDisconnected) ≤ 1 ∧
    s.conn.callbacks.count .close ≤ 1) s₀ as
  final : ∀ p q s t, as = p ++ q → machine.run s₀ p = .ok s → machine.run s q = .ok t →
    s.conn.state = .kDisconnected → t.conn.state = .kDisconnected

theorem dies_at_most_once (fd mark : ℕ) (writeComplete highWater : Bool) (s₀ : System)
    (h₀ : start fd writeComplete highWater mark = .ok s₀) (as : List Action)
    (hE : machine.Along Env s₀ as) (hC : machine.Along Calm s₀ as) : DiesOnce s₀ as := by
  have hI := inv_start h₀
  have hEC : machine.Along (fun s a => Env s a ∧ Calm s a) s₀ as := Machine.along_and.2 ⟨hE, hC⟩
  have hstep : ∀ s a s', Inv s → Env s a ∧ Calm s a → machine.step s a = .ok s' → Inv s' :=
    fun s a s' hs ha h => (steps_of_step hs ha h).inv
  refine ⟨fun hf => ?_, ?_, ?_⟩
  · have hwhich : Fault.handleClose = .channelRemove ∨ Fault.handleClose = .shutdownWrite :=
      Machine.fault_of_along (P := fun f => f = .channelRemove ∨ f = .shutdownWrite) hstep
        (fun s a e hs ha => fault_of_step hs ha) hI hEC hf
    rcases hwhich with h | h <;> cases h
  · refine (Machine.always_of_along hstep hI hEC).mono fun s hs => ?_
    have hdowns := hs.sound.downs
    have hcloses := hs.closes
    unfold System.closes at hcloses
    split_ifs at hdowns <;> omega
  · rintro p q s t rfl hp hq hdown
    obtain ⟨hp', hq'⟩ := Machine.along_append.1 hEC
    have hs : Inv s := Machine.inv_of_along hstep hI hp' hp
    refine (Machine.inv_of_along (I := fun s => Inv s ∧ s.conn.state = .kDisconnected)
      (fun s a s' hs ha h => ?_) ⟨hs, hdown⟩ (hq' s hp) hq).2
    have hsteps := steps_of_step hs.1 ha h
    exact ⟨hsteps.inv, hsteps.stays_down hs.2⟩

/-- An established connection. -/
def established : System :=
  ⟨({ new 7 true true 64 with
      state := .kConnected, channel := (Channel.new 7).enableReading } : TcpConnection).invoke
        (.connection .kConnected), [], true, false, 0⟩

theorem start_established : start 7 true true 64 = .ok established := rfl

/-- A connection that sends, shuts down, is closed by the peer and destroyed. -/
def peaceful : List Action :=
  [.user (.send true [1, 2, 3] (.wrote 1)), .event POLLIN (.read [9]) (.wrote 0) .success, .resume,
    .user (.shutdown true .success), .event (POLLIN ||| POLLHUP) (.read []) (.wrote 0) .success,
    .resume, .resume,
    .user (.send true [4] (.wrote 1)), .resume, .connectDestroyed, .resume]

theorem dies_at_most_once_peaceful :
    DiesOnce established peaceful ∧ (machine.run established peaceful).toOption.any
      (fun s => s.conn.state = .kDisconnected ∧ s.conn.callbacks.count .close = 1) :=
  ⟨dies_at_most_once 7 64 true true established start_established peaceful (by decide +kernel)
    (by decide +kernel), by decide +kernel⟩

/-- The peer hangs up, and the user calls `forceClose` on the connection that is down. -/
theorem dies_twice :
    ¬ ∀ (fd mark : ℕ) (writeComplete highWater : Bool) (s₀ : System) (as : List Action),
      start fd writeComplete highWater mark = .ok s₀ → machine.Along Env s₀ as →
        DiesOnce s₀ as := by
  intro h
  have hrun := (h 7 64 true true established
    [.event POLLHUP (.read []) (.wrote 0) .success, .resume, .resume, .user .forceClose,
      .functor (.wrote 0) .success, .resume] start_established (by decide +kernel)).callbacks
  revert hrun
  decide +kernel

/-! ## Forced close -/

/-- The action calls `forceClose`: directly, through `~TcpClient`, or as the timer of
`forceCloseWithDelay`. -/
def Action.forces : Action → Bool
  | .user .forceClose | .user (.tcpClientDtor _ true) | .timer => true
  | _ => false

/-- The connection is down, is not watched, and its owner was told. -/
structure Closed (s : System) : Prop where
  state : s.conn.state = .kDisconnected
  events : s.conn.channel.events = Channel.kNoneEvent
  told : .close ∈ s.conn.callbacks

/-- Once `executed` reaches `n`, a queued `forceCloseInLoop` has run. -/
structure Doomed (n : ℕ) (s : System) : Prop where
  inv : Inv s
  state : s.conn.state ≠ .kConnected
  told : s.conn.state = .kDisconnected → 0 < s.closes
  queued : s.conn.state = .kDisconnected ∨
    ∃ k, s.conn.pendingFunctors[k]? = some .forceCloseInLoop ∧ s.executed + k < n

theorem getElem?_of_prefix {fs gs : List Functor} (h : fs <+: gs) {k : ℕ} {f : Functor}
    (hk : fs[k]? = some f) : gs[k]? = some f := by
  obtain ⟨hlt, rfl⟩ := List.getElem?_eq_some_iff.1 hk
  exact List.prefix_iff_getElem?.1 h k hlt

theorem Doomed.steps {n : ℕ} {s s' : System} (h : Doomed n s) (hs : Steps s s') : Doomed n s' := by
  have howes := hs.owes h.state
  refine ⟨hs.inv, ?_, ?_, ?_⟩
  · rcases howes with ⟨hstate, -⟩ | ⟨hstate, -⟩
    · rw [hstate]
      exact h.state
    · rw [hstate]
      decide
  · intro hdown
    rcases howes with ⟨hstate, hcloses⟩ | ⟨-, hcloses⟩
    · rw [hcloses]
      exact h.told (hstate ▸ hdown)
    · omega
  · rcases h.queued with hdown | ⟨k, hk, hlt⟩
    · exact .inl (hs.stays_down hdown)
    rcases hs.progress with ⟨hexec, hpre⟩ | ⟨f, fs, hpending, hexec, hpre, hforce⟩
    · refine .inr ⟨k, getElem?_of_prefix hpre hk, ?_⟩
      omega
    · rw [hpending] at hk
      cases k with
      | zero =>
        -- the functor in front is the one that closes
        left
        exact hforce (by simpa using hk)
      | succ k =>
        refine .inr ⟨k, getElem?_of_prefix hpre (by simpa using hk), ?_⟩
        omega

theorem Doomed.closed {n : ℕ} {s : System} (h : Doomed n s) (hn : n ≤ s.executed)
    (htodo : s.todo = []) : Closed s := by
  have hdown : s.conn.state = .kDisconnected := by
    rcases h.queued with hdown | ⟨k, -, hlt⟩
    · exact hdown
    · omega
  have htold := h.told hdown
  refine ⟨hdown, h.inv.sound.quiet hdown, ?_⟩
  rw [System.closes, htodo, List.count_nil, Nat.add_zero] at htold
  exact List.count_pos_iff.1 htold

theorem calm_of_up {s : System} {a : Action} (ha : a.forces)
    (hup : s.conn.state ≠ .kDisconnected) : Calm s a := by
  cases a with
  | user call =>
    cases call with
    | tcpClientDtor inLoop unique =>
      cases unique with
      | true => exact hup
      | false => cases ha
    | forceClose => exact hup
    | send inLoop message w => cases ha
    | shutdown inLoop d => cases ha
    | forceCloseWithDelay => cases ha
  | timer => exact hup
  | event revents r w d => cases ha
  | functor w d => cases ha
  | connectDestroyed => cases ha
  | resume => cases ha

/-- `forceClose` acts on a connected connection, and not on one that is shutting down. -/
theorem forces_spec {s s₁ : System} {a : Action} (ha : a.forces)
    (h : machine.step s a = .ok s₁) :
    s₁.todo = s.todo ∧
    (s.conn.state = .kConnected → s₁.conn.state = .kDisconnecting ∧
      .forceCloseInLoop ∈ s₁.conn.pendingFunctors) ∧
    (s.conn.state = .kDisconnecting → s₁.conn.state = .kDisconnecting ∧
      (.forceCloseInLoop ∈ s₁.conn.pendingFunctors ↔
        .forceCloseInLoop ∈ s.conn.pendingFunctors)) := by
  have hforce : ∀ c : TcpConnection,
      (c.state = .kConnected → c.forceClose.state = .kDisconnecting ∧
        .forceCloseInLoop ∈ c.forceClose.pendingFunctors) ∧
      (c.state = .kDisconnecting → c.forceClose = c) := by
    intro c
    constructor
    · intro hc
      simp [forceClose, hc, queueInLoop]
    · intro hc
      simp [forceClose, hc]
  cases a with
  | user call =>
    cases call with
    | forceClose =>
      obtain rfl := Except.ok.inj h
      refine ⟨rfl, (hforce s.conn).1, fun hc => ?_⟩
      rw [(hforce s.conn).2 hc]
      exact ⟨hc, Iff.rfl⟩
    | tcpClientDtor inLoop unique =>
      cases unique with
      | false => cases ha
      | true =>
        obtain rfl := Except.ok.inj h
        cases inLoop with
        | true =>
          refine ⟨rfl, (hforce s.conn).1, fun hc => ?_⟩
          show s.conn.forceClose.state = _ ∧ (_ ∈ s.conn.forceClose.pendingFunctors ↔ _)
          rw [(hforce s.conn).2 hc]
          exact ⟨hc, Iff.rfl⟩
        | false =>
          refine ⟨rfl, (hforce (s.conn.queueInLoop .setCloseCallback)).1, fun hc => ?_⟩
          show (s.conn.queueInLoop .setCloseCallback).forceClose.state = _ ∧
            (_ ∈ (s.conn.queueInLoop .setCloseCallback).forceClose.pendingFunctors ↔ _)
          rw [(hforce (s.conn.queueInLoop .setCloseCallback)).2 hc]
          refine ⟨hc, ?_⟩
          simp [queueInLoop]
    | send inLoop message w => cases ha
    | shutdown inLoop d => cases ha
    | forceCloseWithDelay => cases ha
  | timer =>
    obtain rfl := Except.ok.inj h
    refine ⟨rfl, (hforce { s.conn with delayTimers := s.conn.delayTimers - 1 }).1, fun hc => ?_⟩
    show ({ s.conn with delayTimers := s.conn.delayTimers - 1 } : TcpConnection).forceClose.state = _
      ∧ (_ ∈ ({ s.conn with delayTimers := s.conn.delayTimers - 1 } :
        TcpConnection).forceClose.pendingFunctors ↔ _)
    rw [(hforce { s.conn with delayTimers := s.conn.delayTimers - 1 }).2 hc]
    exact ⟨hc, Iff.rfl⟩
  | event revents r w d => cases ha
  | functor w d => cases ha
  | connectDestroyed => cases ha
  | resume => cases ha

/-- However the run goes on: once the functors that are pending now have run, and the loop's thread
has come back from them, the connection is closed. -/
def TakesEffect (s : System) : Prop :=
  ∀ bs t, machine.Along Env s bs → machine.Along Calm s bs → machine.run s bs = .ok t →
    s.executed + s.conn.pendingFunctors.length ≤ t.executed → t.todo = [] → Closed t

theorem Doomed.takesEffect {s : System} (h : Doomed (s.executed + s.conn.pendingFunctors.length) s) :
    TakesEffect s := by
  intro bs t hE hC hrun hexec htodo
  have hEC : machine.Along (fun s a => Env s a ∧ Calm s a) s bs := Machine.along_and.2 ⟨hE, hC⟩
  have ht := Machine.inv_of_along (I := Doomed (s.executed + s.conn.pendingFunctors.length))
    (fun s a s' hs ha hstep => hs.steps (steps_of_step hs.inv ha hstep)) h hEC hrun
  exact ht.closed hexec htodo

/-- Without a queued `forceCloseInLoop`, the functors of a connection that is shutting down can all
run and leave it shutting down. -/
theorem exists_drained {s : System} (hI : Inv s) (htodo : s.todo = [])
    (hstate : s.conn.state = .kDisconnecting) {n : ℕ} (hn : n ≤ s.conn.pendingFunctors.length)
    (hclose : .forceCloseInLoop ∉ s.conn.pendingFunctors) :
    ∃ bs t, machine.Along Env s bs ∧ machine.Along Calm s bs ∧ machine.run s bs = .ok t ∧
      t.executed = s.executed + n ∧ t.todo = [] ∧ t.conn.state = .kDisconnecting := by
  induction n generalizing s with
  | zero => exact ⟨[], s, trivial, trivial, rfl, rfl, htodo, hstate⟩
  | succ n ih =>
    have hE : Env s (.functor (.fail .EWOULDBLOCK) .success) := by
      refine ⟨htodo, ?_⟩
      cases hpending : s.conn.pendingFunctors with
      | nil => simp [hpending] at hn
      | cons f fs => cases f <;> trivial
    obtain ⟨s', f, fs, hs', hsteps, hpending, hexec, hplain⟩ :=
      (step_functor hI hE).resolve_right fun hfault => hfault.2 rfl
    rw [hpending] at hn hclose
    obtain ⟨htodo', hstate', gs, hgs, hng⟩ := hplain (fun hf => hclose (by simp [hf]))
    dsimp only at htodo' hstate' hgs
    obtain ⟨bs, t, hE', hC', hr, ht⟩ := ih hsteps.inv (htodo'.trans htodo) (hstate'.trans hstate)
      (by rw [hgs, List.length_append]; simp at hn; omega) (by
        rw [hgs, List.mem_append]
        rintro (h | h)
        · exact hclose (List.mem_cons_of_mem _ h)
        · exact hng h)
    refine ⟨.functor (.fail .EWOULDBLOCK) .success :: bs, t, (Machine.along_cons_ok hs').2 ⟨hE, hE'⟩,
      (Machine.along_cons_ok hs').2 ⟨trivial, hC'⟩, ?_, ?_, ht.2⟩
    · rw [Machine.run_cons_ok hs', hr]
    · rw [ht.1, hexec]
      omega

/-- On every connection that is up, a forced close takes effect when the connection is connected or
a forced close is queued already; outside the handlers of the connection, only then. -/
theorem forceClose_takes_effect (fd mark : ℕ) (writeComplete highWater : Bool) (s₀ : System)
    (h₀ : start fd writeComplete highWater mark = .ok s₀) (as : List Action)
    (hE : machine.Along Env s₀ as) (hC : machine.Along Calm s₀ as) (s : System)
    (hs : machine.run s₀ as = .ok s)
    (hup : s.conn.state = .kConnected ∨ s.conn.state = .kDisconnecting) (a : Action)
    (ha : a.forces) (hEa : Env s a) (s₁ : System) (h₁ : machine.step s a = .ok s₁) :
    (s.conn.state = .kConnected ∨ .forceCloseInLoop ∈ s.conn.pendingFunctors → TakesEffect s₁) ∧
      (s.todo = [] → TakesEffect s₁ →
        s.conn.state = .kConnected ∨ .forceCloseInLoop ∈ s.conn.pendingFunctors) := by
  have hEC : machine.Along (fun s a => Env s a ∧ Calm s a) s₀ as := Machine.along_and.2 ⟨hE, hC⟩
  have hI : Inv s := Machine.inv_of_along
    (fun s a s' hs ha h => (steps_of_step hs ha h).inv) (inv_start h₀) hEC hs
  have hCa : Calm s a := calm_of_up ha (by rcases hup with h | h <;> rw [h] <;> decide)
  have hsteps := steps_of_step hI ⟨hEa, hCa⟩ h₁
  obtain ⟨htodo, hconnected, hdisconnecting⟩ := forces_spec ha h₁
  constructor
  · intro hwhen
    have hqueued : s₁.conn.state = .kDisconnecting ∧
        .forceCloseInLoop ∈ s₁.conn.pendingFunctors := by
      rcases hup with h | h
      · exact hconnected h
      · obtain ⟨hstate, hmem⟩ := hdisconnecting h
        exact ⟨hstate, hmem.2 (hwhen.resolve_left (by rw [h]; decide))⟩
    obtain ⟨hstate, hmem⟩ := hqueued
    obtain ⟨k, hk, hget⟩ := List.getElem_of_mem hmem
    refine Doomed.takesEffect ⟨hsteps.inv, by rw [hstate]; decide, by simp [hstate],
      .inr ⟨k, List.getElem?_eq_some_iff.2 ⟨hk, hget⟩, ?_⟩⟩
    omega
  · intro hidle heffect
    by_contra hno
    rw [not_or] at hno
    obtain ⟨hstate, hmem⟩ := hdisconnecting (hup.resolve_left hno.1)
    obtain ⟨bs, t, hE', hC', hr, hexec, htodo', hstate'⟩ := exists_drained hsteps.inv
      (htodo.trans hidle) hstate le_rfl (fun h => hno.2 (hmem.1 h))
    have hclosed := heffect bs t hE' hC' hr hexec.ge htodo'
    rw [hclosed.state] at hstate'
    cases hstate'

theorem forceClose_takes_effect_established :
    TakesEffect { established with conn := established.conn.forceClose } ∧
      (machine.run { established with conn := established.conn.forceClose }
        [.functor (.wrote 0) .success, .resume]).toOption.any
          (fun t => t.executed = 1 ∧ t.todo = [] ∧ .close ∈ t.conn.callbacks) :=
  ⟨(forceClose_takes_effect 7 64 true true established start_established [] trivial trivial
    established rfl (.inl rfl) (.user .forceClose) rfl trivial _ rfl).1 (.inl rfl),
    by decide +kernel⟩

/-- After `shutdown`, with no functor pending, `forceClose` leaves the connection as it is. -/
theorem forceClose_without_effect :
    ¬ ∀ (fd mark : ℕ) (writeComplete highWater : Bool) (s₀ : System) (as : List Action)
      (s : System) (a : Action) (s₁ : System),
      start fd writeComplete highWater mark = .ok s₀ → machine.Along Env s₀ as →
      machine.Along Calm s₀ as → machine.run s₀ as = .ok s →
      (s.conn.state = .kConnected ∨ s.conn.state = .kDisconnecting) → a.forces → Env s a →
      machine.step s a = .ok s₁ → TakesEffect s₁ := by
  intro h
  have heffect := h 7 64 true true established [.user (.shutdown true .success)]
    { established with conn := established.conn.shutDown } (.user .forceClose)
    { established with conn := established.conn.shutDown.forceClose } start_established
    (by decide +kernel) (by decide +kernel) rfl (.inr rfl) rfl trivial rfl
  have hclosed := heffect [] _ trivial trivial rfl (by decide +kernel) rfl
  exact absurd hclosed.state (by decide +kernel)

end Lifecycle

end TcpConnection

end Reactor
