import Reactor.Lib.Machine
import Reactor.TcpConnection

/-!
# The output stream

What the kernel has accepted, followed by what the output buffer holds, should be the messages in
the order they were sent.  `sendInLoop` keeps this whatever `write(2)` accepts.  `handleWrite` keeps
it only when nothing was written: it retires `0` bytes, so every byte it writes stays in the buffer
and is written again.
-/

namespace Reactor

namespace TcpConnection

namespace OutputStream

/-- A connection, and the bytes of all messages passed to `sendInLoop` so far. -/
structure Stream where
  conn : TcpConnection
  sent : Bytes
  deriving DecidableEq

inductive Action where
  | sendInLoop (message : Bytes) (w : WriteResult)
  | handleWrite (w : WriteResult) (d : ShutdownResult)
  deriving DecidableEq, Repr

def Stream.step (s : Stream) : Action → Except Fault Stream
  | .sendInLoop message w => return ⟨← s.conn.sendInLoop message w, s.sent ++ message⟩
  | .handleWrite w d => return ⟨← s.conn.handleWrite w d, s.sent⟩

def machine : Machine Stream Action Fault := ⟨Stream.step⟩

/-- `write(2)` accepts part of what it is given, or would block. -/
def Accepts (len : ℕ) : WriteResult → Prop
  | .wrote n => n ≤ len
  | .fail errno => errno = .EWOULDBLOCK

instance (len : ℕ) : ∀ w, Decidable (Accepts len w)
  | .wrote n => inferInstanceAs (Decidable (n ≤ len))
  | .fail errno => inferInstanceAs (Decidable (errno = .EWOULDBLOCK))

/-- The kernel answers the write that the action makes. -/
def Env (s : Stream) : Action → Prop
  | .sendInLoop message w => Accepts message.length w
  | .handleWrite w _ => Accepts s.conn.outputBuffer.readableBytes w

instance (s : Stream) : ∀ a, Decidable (Env s a)
  | .sendInLoop message w => inferInstanceAs (Decidable (Accepts message.length w))
  | .handleWrite w _ => inferInstanceAs (Decidable (Accepts s.conn.outputBuffer.readableBytes w))

/-- A connection that has not sent anything and is not closed. -/
structure Fresh (c : TcpConnection) : Prop where
  wf : c.outputBuffer.Wf
  empty : c.outputBuffer.readable = []
  accepted : c.accepted = []
  up : c.state ≠ .kDisconnected

/-- No byte is lost, duplicated or reordered. -/
def Intact (s : Stream) : Prop := s.conn.accepted ++ s.conn.outputBuffer.readable = s.sent

instance (s : Stream) : Decidable (Intact s) := inferInstanceAs (Decidable (_ = _))

/-- The action is not a `handleWrite` on a writing channel that hands bytes to the kernel. -/
def NoDeferredWrite (s : Stream) : Action → Prop
  | .handleWrite (.wrote n) _ => s.conn.channel.isWriting → n = 0
  | .handleWrite (.fail _) _ | .sendInLoop _ _ => True

theorem Accepts.fits {len : ℕ} {w : WriteResult} (h : Accepts len w) :
    w.Fits len ∧ w ≠ .fail .EPIPE ∧ w ≠ .fail .ECONNRESET := by
  cases w with
  | wrote n => exact ⟨h, by simp, by simp⟩
  | fail errno =>
    obtain rfl : errno = .EWOULDBLOCK := h
    exact ⟨trivial, by simp, by simp⟩

/-- The answer of a kernel that takes what it has room for, or would block. -/
def ofRoom (room : Option ℕ) (len : ℕ) : WriteResult :=
  match room with
  | some n => .wrote (min n len)
  | none => .fail .EWOULDBLOCK

theorem accepts_ofRoom (room : Option ℕ) (len : ℕ) : Accepts len (ofRoom room len) := by
  cases room with
  | some n => exact Nat.min_le_right n len
  | none => rfl

theorem step_sendInLoop {s : Stream} (hwf : s.conn.outputBuffer.Wf)
    (hup : s.conn.state ≠ .kDisconnected) {message : Bytes} {w : WriteResult}
    (hw : Accepts message.length w) :
    ∃ s', machine.step s (.sendInLoop message w) = .ok s' ∧
      (s'.conn.outputBuffer.Wf ∧ s'.conn.state ≠ .kDisconnected) ∧ (Intact s → Intact s') := by
  obtain ⟨hfits, hpipe, hreset⟩ := hw.fits
  obtain ⟨c', hc', hwf', hlife, hstream⟩ := sendInLoop_spec hwf hfits
  refine ⟨⟨c', s.sent ++ message⟩, ?_, ⟨hwf', by rw [hlife.state]; exact hup⟩, fun hI => ?_⟩
  · show Stream.step s (.sendInLoop message w) = _
    rw [Stream.step, hc']
    rfl
  · show c'.accepted ++ c'.outputBuffer.readable = s.sent ++ message
    rw [hstream hup hpipe hreset, show _ = s.sent from hI]

/-- The bytes a `handleWrite` hands to the kernel make the stream too long by their number. -/
theorem step_handleWrite {s : Stream} (hwf : s.conn.outputBuffer.Wf)
    (hup : s.conn.state ≠ .kDisconnected) {w : WriteResult}
    (hw : Accepts s.conn.outputBuffer.readableBytes w) (d : ShutdownResult) :
    ∃ s', machine.step s (.handleWrite w d) = .ok s' ∧
      (s'.conn.outputBuffer.Wf ∧ s'.conn.state ≠ .kDisconnected) ∧
      (Intact s → (Intact s' ↔ NoDeferredWrite s (.handleWrite w d))) := by
  obtain ⟨c', hc', hwf', hlife, hread, hacc⟩ := handleWrite_of_fits hwf hw.fits.1 d
  refine ⟨⟨c', s.sent⟩, ?_, ⟨hwf', by rw [hlife.state]; exact hup⟩, fun hI => ?_⟩
  · show Stream.step s (.handleWrite w d) = _
    rw [Stream.step, hc']
    rfl
  unfold Intact at hI ⊢
  dsimp only
  rw [hacc, hread, ← hI]
  cases w with
  | fail errno => simp [NoDeferredWrite, written]
  | wrote n =>
    unfold written
    dsimp only
    have hn : n ≤ s.conn.outputBuffer.readable.length := by
      rw [hwf.length_readable]
      exact hw
    have hlen : (s.conn.accepted ++ (if s.conn.channel.isWriting then
        s.conn.outputBuffer.readable.take n else []) ++ s.conn.outputBuffer.readable).length =
        (s.conn.accepted ++ s.conn.outputBuffer.readable).length +
          if s.conn.channel.isWriting then n else 0 := by
      split_ifs
      · simp only [List.length_append, List.length_take]
        omega
      · simp only [List.append_nil, Nat.add_zero]
    constructor
    · intro heq hwriting
      rw [heq, if_pos hwriting] at hlen
      omega
    · intro hzero
      by_cases hwriting : s.conn.channel.isWriting
      · simp [hzero hwriting]
      · simp [hwriting]

/-- No assertion fails while messages are sent and written, and the stream is intact throughout
exactly when no `handleWrite` hands bytes to the kernel. -/
theorem output_stream_intact_iff (c : TcpConnection) (hc : Fresh c) (as : List Action)
    (hE : machine.Along Env ⟨c, []⟩ as) :
    (∃ s, machine.run ⟨c, []⟩ as = .ok s) ∧
      (machine.Always Intact ⟨c, []⟩ as ↔ machine.Along NoDeferredWrite ⟨c, []⟩ as) := by
  let J (s : Stream) : Prop := s.conn.outputBuffer.Wf ∧ s.conn.state ≠ .kDisconnected
  have hstep : ∀ s a, J s → Env s a →
      ∃ s', machine.step s a = .ok s' ∧ J s' ∧ (Intact s → (Intact s' ↔ NoDeferredWrite s a)) := by
    rintro s (⟨message, w⟩ | ⟨w, d⟩) ⟨hwf, hup⟩ hw
    · obtain ⟨s', hs', hJ, hI⟩ := step_sendInLoop hwf hup hw
      exact ⟨s', hs', hJ, fun h => ⟨fun _ => trivial, fun _ => hI h⟩⟩
    · exact step_handleWrite hwf hup hw d
  have hJ : J ⟨c, []⟩ := ⟨hc.wf, hc.up⟩
  have hI : Intact ⟨c, []⟩ := by
    show c.accepted ++ c.outputBuffer.readable = []
    rw [hc.accepted, hc.empty, List.append_nil]
  constructor
  · obtain ⟨s', hs', -⟩ := Machine.run_ok_of_along (I := J)
      (fun s a hs ha => by
        obtain ⟨s', hs', hJ', -⟩ := hstep s a hs ha
        exact ⟨s', hs', hJ'⟩) hJ hE
    exact ⟨s', hs'⟩
  · exact Machine.always_iff_along hstep hJ hI hE

/-- A connected connection with a callback for each occasion. -/
def connected : TcpConnection :=
  { new 7 true true 64 with state := .kConnected, channel := (Channel.new 7).enableReading }

theorem fresh_connected : Fresh connected :=
  ⟨Buffer.wf_empty, Buffer.readable_empty, rfl, by decide⟩

theorem output_stream_intact_iff_connected :
    machine.Always Intact ⟨connected, []⟩ [.sendInLoop [1, 2, 3] (.wrote 1),
      .handleWrite (.fail .EWOULDBLOCK) .success, .sendInLoop [4] (.wrote 0)] :=
  (output_stream_intact_iff connected fresh_connected _ (by decide +kernel)).2.2
    ⟨trivial, fun _ _ => ⟨trivial, fun _ _ => ⟨trivial, fun _ _ => trivial⟩⟩⟩

/-- The socket is full when two bytes are sent; once it drains, `handleWrite` writes both and keeps
both. -/
theorem output_stream_not_intact :
    ¬ ∀ (c : TcpConnection) (as : List Action), Fresh c → machine.Along Env ⟨c, []⟩ as →
      machine.Always Intact ⟨c, []⟩ as := by
  intro h
  have hrun := h connected [.sendInLoop [1, 2] (.fail .EWOULDBLOCK), .handleWrite (.wrote 2) .success]
    fresh_connected (by decide +kernel)
  revert hrun
  decide +kernel

end OutputStream

end TcpConnection

end Reactor
