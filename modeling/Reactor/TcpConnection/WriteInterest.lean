import Reactor.TcpConnection.HalfClose
import Reactor.TcpConnection.Lifecycle

/-!
# Write interest tracks the backlog

A connection from `connectEstablished` on: calls of the user, events of its channel and queued functors
in any order, with any outcome of `readv(2)`, `write(2)` and `shutdown(2)`.  `sendInLoop` and
`handleWrite` enable and disable the interest in writing, and nothing else touches it before the
connection goes down.

* `writing_iff_backlog`: until `handleClose` or `connectDestroyed` has run, the channel is writing
  exactly when the output buffer has something in it.
-/

namespace Reactor

namespace Channel

@[simp] theorem isWriting_enableReading (c : Channel) : c.enableReading.isWriting = c.isWriting := by
  have h : (c.events ||| kReadEvent) &&& kWriteEvent = c.events &&& kWriteEvent := by
    rw [BitVec.and_comm, BitVec.and_or_distrib_left, BitVec.and_comm kWriteEvent c.events]
    exact BitVec.or_zero
  show ((c.events ||| kReadEvent) &&& kWriteEvent != 0) = (c.events &&& kWriteEvent != 0)
  rw [h]

end Channel

namespace TcpConnection

namespace WriteInterest

open HalfClose Lifecycle

/-- A connection, its `reading_`, and whether `handleClose` or `connectDestroyed` has run. -/
structure System where
  conn : TcpConnection
  reading : Bool
  down : Bool
  deriving DecidableEq, Repr

inductive Action where
  | user (call : Call)
  | sendInLoop (data : Bytes) (w : WriteResult)
  -- called on the loop's thread or queued, `startReadInLoop` may run at any time
  | startReadInLoop
  | handleRead (r : ReadvResult)
  | handleWrite (w : WriteResult) (d : ShutdownResult)
  | handleClose
  | functor (w : WriteResult) (d : ShutdownResult)
  -- the timer of `forceCloseWithDelay`
  | timer
  | connectDestroyed
  deriving DecidableEq, Repr

namespace System

def startReadInLoop (s : System) : System :=
  if ¬ s.reading ∨ ¬ s.conn.channel.isReading then
    { s with conn := { s.conn with channel := s.conn.channel.enableReading }, reading := true }
  else s

def sendInLoop (s : System) (data : Bytes) (w : WriteResult) : Except Fault System := do
  return { s with conn := ← s.conn.sendInLoop data w }

def handleClose (s : System) : Except Fault System := do
  return { s with conn := (← s.conn.handleClose).closeCallback, down := true }

/-- `handleRead`; `handleError` only prints the error of the socket. -/
def handleRead (s : System) (r : ReadvResult) : Except Fault System := do
  let (n, conn) ← s.conn.handleRead r
  match n with
  | .ok 0 => handleClose { s with conn := conn }
  | .ok (_ + 1) => return { s with conn := conn.invoke .message }
  | .error _ => return { s with conn := conn }

def runFunctor (s : System) (w : WriteResult) (d : ShutdownResult) : Functor → Except Fault System
  | .sendInLoop message => s.sendInLoop (cString message) w
  | .shutdownInLoop => return { s with conn := ← s.conn.shutdownInLoop d }
  | .forceCloseInLoop =>
    if s.conn.state = .kConnected ∨ s.conn.state = .kDisconnecting then s.handleClose else return s
  | .writeComplete => return { s with conn := s.conn.invoke .writeComplete }
  | .highWaterMark len => return { s with conn := s.conn.invoke (.highWaterMark len) }
  | .setCloseCallback => return s

def step (s : System) : Action → Except Fault System
  | .user call => return { s with conn := ← call.exec s.conn }
  | .sendInLoop data w => s.sendInLoop data w
  | .startReadInLoop => return s.startReadInLoop
  | .handleRead r => s.handleRead r
  | .handleWrite w d => return { s with conn := ← s.conn.handleWrite w d }
  | .handleClose => s.handleClose
  | .functor w d =>
    match s.conn.pendingFunctors with
    | [] => return s
    | f :: fs => { s with conn := { s.conn with pendingFunctors := fs } }.runFunctor w d f
  | .timer => return { s with
      conn := { s.conn with delayTimers := s.conn.delayTimers - 1 }.forceClose }
  | .connectDestroyed => return { s with conn := ← s.conn.connectDestroyed.removeChannel, down := true }

end System

def machine : Machine System Action Fault := ⟨System.step⟩

/-- A connection right after `connectEstablished`. -/
def start (fd : ℕ) (writeComplete highWater : Bool) (mark : ℕ) : Except Fault System := do
  return ⟨← (new fd writeComplete highWater mark).connectEstablished, true, false⟩

/-- Until the connection goes down, it is interested in writing exactly when it has a backlog. -/
def Tracks (s : System) : Prop :=
  s.down = false → (s.conn.channel.isWriting = true ↔ 0 < s.conn.outputBuffer.readableBytes)

/-! ## What keeps the interest -/

/-- The output buffer is well formed and the channel is writing when it is not empty. -/
structure Kept (c : TcpConnection) : Prop where
  wf : c.outputBuffer.Wf
  busy : Busy c

def Inv (s : System) : Prop := s.down = false → Kept s.conn

theorem Inv.tracks {s : System} (h : Inv s) : Tracks s := by
  intro hdown
  obtain ⟨hwf, hbusy⟩ := h hdown
  rw [← hwf.length_readable, List.length_pos_iff]
  exact hbusy

variable {c c' : TcpConnection} {s s' : System}

/-- Nothing of it is in the members but the channel and the output buffer. -/
theorem Kept.of_eq (h : Kept c) (hchannel : c'.channel.isWriting = c.channel.isWriting)
    (hbuffer : c'.outputBuffer = c.outputBuffer) : Kept c' := by
  refine ⟨by rw [hbuffer]; exact h.wf, ?_⟩
  unfold Busy
  rw [hchannel, hbuffer]
  exact h.busy

/-- A call that returns was given an outcome that `write(2)` can have, or did not ask for one. -/
theorem exists_fits {data : Bytes} {w : WriteResult} (hok : c.sendInLoop data w = .ok c') :
    ∃ w' : WriteResult, w'.Fits data.length ∧ c.sendInLoop data w' = .ok c' := by
  cases w with
  | fail errno => exact ⟨.fail errno, trivial, hok⟩
  | wrote n =>
    by_cases hn : n ≤ data.length
    · exact ⟨.wrote n, hn, hok⟩
    refine ⟨.wrote 0, Nat.zero_le _, ?_⟩
    unfold TcpConnection.sendInLoop at hok ⊢
    split_ifs at hok ⊢ with hdown hidle
    · exact hok
    · obtain ⟨hle, -⟩ := check_bind_eq_ok.1 hok
      exact absurd hle hn
    · exact hok

theorem Kept.sendInLoop (h : Kept c) {data : Bytes} {w : WriteResult}
    (hok : c.sendInLoop data w = .ok c') : Kept c' := by
  by_cases hdown : c.state = .kDisconnected
  · rw [sendInLoop_of_down hdown] at hok
    obtain rfl := Except.ok.inj hok
    exact h
  obtain ⟨w', hfits, hok⟩ := exists_fits hok
  obtain ⟨c₁, hc₁, hwf, -⟩ := sendInLoop_spec h.wf hfits
  obtain ⟨c₂, hc₂, hsends⟩ := sendInLoop_sends h.wf h.busy hdown hfits
  obtain rfl := Except.ok.inj (hok.symm.trans hc₁)
  obtain rfl := Except.ok.inj (hok.symm.trans hc₂)
  exact ⟨hwf, hsends.busy⟩

theorem Kept.handleWrite (h : Kept c) {w : WriteResult} {d : ShutdownResult}
    (hok : c.handleWrite w d = .ok c') : Kept c' := by
  obtain ⟨b, accepted, hc', hwf, hread, -⟩ := handleWrite_busy h.wf h.busy w d
  obtain rfl := Except.ok.inj (hok.symm.trans hc')
  refine ⟨hwf, ?_⟩
  show c.channel.isWriting = true ↔ b.readable ≠ []
  rw [hread]
  exact h.busy

theorem Kept.halfClosed (h : Kept c) : Kept c.halfClosed := by
  refine h.of_eq ?_ (halfClosed_outputBuffer c)
  unfold TcpConnection.halfClosed
  split_ifs
  · rfl
  · rfl

theorem Kept.shutdown (h : Kept c) {inLoop : Bool} {d : ShutdownResult}
    (hok : c.shutdown inLoop d = .ok c') : Kept c' := by
  have hset : Kept { c with state := .kDisconnecting } := h.of_eq rfl rfl
  unfold TcpConnection.shutdown at hok
  dsimp only at hok
  split_ifs at hok
  · rw [of_shutdownInLoop hok]
    exact hset.halfClosed
  · obtain rfl := Except.ok.inj hok
    exact h.of_eq rfl rfl
  · obtain rfl := Except.ok.inj hok
    exact h

theorem Kept.forceClose (h : Kept c) : Kept c.forceClose := by
  unfold TcpConnection.forceClose
  split_ifs
  · exact h.of_eq rfl rfl
  · exact h

theorem Kept.exec (h : Kept c) {call : Call} (hok : call.exec c = .ok c') : Kept c' := by
  cases call with
  | send inLoop message w =>
    simp only [Call.exec, TcpConnection.send] at hok
    split_ifs at hok
    · exact h.sendInLoop hok
    · obtain rfl := Except.ok.inj hok
      exact h.of_eq rfl rfl
    · obtain rfl := Except.ok.inj hok
      exact h
  | shutdown inLoop d => exact h.shutdown hok
  | forceClose =>
    obtain rfl := Except.ok.inj hok
    exact h.forceClose
  | forceCloseWithDelay =>
    obtain rfl := Except.ok.inj hok
    unfold TcpConnection.forceCloseWithDelay
    split_ifs
    · exact h.of_eq rfl rfl
    · exact h
  | tcpClientDtor inLoop unique =>
    obtain rfl := Except.ok.inj hok
    have hqueued : Kept (if inLoop then c else c.queueInLoop .setCloseCallback) := by
      split_ifs
      · exact h
      · exact h.of_eq rfl rfl
    unfold TcpConnection.tcpClientDtor
    dsimp only
    split_ifs at hqueued ⊢
    · exact hqueued.forceClose
    · exact hqueued.forceClose
    · exact hqueued
    · exact hqueued

/-! ## The machine -/

theorem inv_of_handleClose (hok : s.handleClose = .ok s') : Inv s' := by
  obtain ⟨c', -, hok⟩ := bind_eq_ok.1 hok
  obtain rfl := Except.ok.inj hok
  exact fun hdown => (by cases hdown)

theorem Inv.sendInLoop (h : Inv s) {data : Bytes} {w : WriteResult}
    (hok : s.sendInLoop data w = .ok s') : Inv s' := by
  obtain ⟨c', hc', hok⟩ := bind_eq_ok.1 hok
  obtain rfl := Except.ok.inj hok
  exact fun hdown => (h hdown).sendInLoop hc'

theorem Inv.startReadInLoop (h : Inv s) : Inv s.startReadInLoop := by
  unfold System.startReadInLoop
  split_ifs
  · exact fun hdown => (h hdown).of_eq (Channel.isWriting_enableReading _) rfl
  · exact h

theorem Inv.handleRead (h : Inv s) {r : ReadvResult} (hok : s.handleRead r = .ok s') : Inv s' := by
  obtain ⟨⟨n, conn⟩, hread, hok⟩ := bind_eq_ok.1 hok
  obtain ⟨⟨n', b⟩, -, hread⟩ := bind_eq_ok.1 hread
  obtain ⟨rfl, rfl⟩ := Prod.mk.inj (Except.ok.inj hread)
  match n', hok with
  | .ok 0, hok => exact inv_of_handleClose hok
  | .ok (_ + 1), hok =>
    obtain rfl := Except.ok.inj hok
    exact fun hdown => (h hdown).of_eq rfl rfl
  | .error _, hok =>
    obtain rfl := Except.ok.inj hok
    exact fun hdown => (h hdown).of_eq rfl rfl

theorem Inv.runFunctor (h : Inv s) {w : WriteResult} {d : ShutdownResult} {f : Functor}
    (hok : s.runFunctor w d f = .ok s') : Inv s' := by
  cases f with
  | sendInLoop message => exact h.sendInLoop hok
  | shutdownInLoop =>
    obtain ⟨c', hc', hok⟩ := bind_eq_ok.1 hok
    obtain rfl := Except.ok.inj hok
    rw [of_shutdownInLoop hc']
    exact fun hdown => (h hdown).halfClosed
  | forceCloseInLoop =>
    simp only [System.runFunctor] at hok
    split_ifs at hok
    · exact inv_of_handleClose hok
    · obtain rfl := Except.ok.inj hok
      exact h
  | writeComplete | highWaterMark =>
    obtain rfl := Except.ok.inj hok
    exact fun hdown => (h hdown).of_eq rfl rfl
  | setCloseCallback =>
    obtain rfl := Except.ok.inj hok
    exact h

theorem Inv.step (h : Inv s) {a : Action} (hok : s.step a = .ok s') : Inv s' := by
  cases a with
  | user call =>
    obtain ⟨c', hc', hok⟩ := bind_eq_ok.1 hok
    obtain rfl := Except.ok.inj hok
    exact fun hdown => (h hdown).exec hc'
  | sendInLoop data w => exact h.sendInLoop hok
  | startReadInLoop =>
    obtain rfl := Except.ok.inj hok
    exact h.startReadInLoop
  | handleRead r => exact h.handleRead hok
  | handleWrite w d =>
    obtain ⟨c', hc', hok⟩ := bind_eq_ok.1 hok
    obtain rfl := Except.ok.inj hok
    exact fun hdown => (h hdown).handleWrite hc'
  | handleClose => exact inv_of_handleClose hok
  | functor w d =>
    simp only [System.step] at hok
    split at hok
    · obtain rfl := Except.ok.inj hok
      exact h
    · rename_i f fs hqueue
      have hpopped : Inv { s with conn := { s.conn with pendingFunctors := fs } } :=
        fun hdown => (h hdown).of_eq rfl rfl
      exact hpopped.runFunctor hok
  | timer =>
    obtain rfl := Except.ok.inj hok
    refine fun hdown => Kept.forceClose ?_
    exact (h hdown).of_eq rfl rfl
  | connectDestroyed =>
    obtain ⟨c', -, hok⟩ := bind_eq_ok.1 hok
    obtain rfl := Except.ok.inj hok
    exact fun hdown => (by cases hdown)

theorem inv_start {fd : ℕ} {writeComplete highWater : Bool} {mark : ℕ} :
    ∃ s, start fd writeComplete highWater mark = .ok s ∧ Inv s := by
  refine ⟨_, rfl, fun _ => ⟨Buffer.wf_empty, iff_of_false ?_ (not_not.2 Buffer.readable_empty)⟩⟩
  show ¬ (Channel.new fd).enableReading.isWriting = true
  rw [Channel.isWriting_enableReading]
  show ¬ (0#32 &&& POLLOUT != 0) = true
  decide

theorem writing_iff_backlog (fd : ℕ) (writeComplete highWater : Bool) (mark : ℕ) (as : List Action) :
    ∃ s, start fd writeComplete highWater mark = .ok s ∧ machine.Always Tracks s as := by
  obtain ⟨s, hs, hinv⟩ := inv_start
  exact ⟨s, hs, (Machine.always_of_step (fun _ _ _ h hok => h.step hok) hinv as).mono
    fun _ h => h.tracks⟩

end WriteInterest

end TcpConnection

end Reactor
