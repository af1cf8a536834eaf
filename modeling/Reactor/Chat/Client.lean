import Reactor.Chat

/-!
# The chat client

`ChatClient::write` is called on the main thread, so the frame goes to the loop as a `std::string` and
is converted to a `StringPiece` there: it ends at its first NUL.  A length of at most 65536 has a NUL
in its first byte.

* `write_never_heard`: whatever is written, in whatever order the two threads take their steps, no
  assertion fails but that of a `shutdown(2)` that fails, and the server never reads a message from
  what the client sends.
-/

namespace Reactor

namespace Chat

open LengthHeaderCodec

/-- `ChatClient` with its connection; `connection` says whether `connection_` is set. -/
structure ChatClient where
  connection : Bool
  conn : TcpConnection

namespace ChatClient

def new : ChatClient := ⟨false, TcpConnection.new 0 false false (64 * 1024 * 1024)⟩

def onConnection (s : ChatClient) : ChatClient :=
  { s with connection := s.conn.state = .kConnected }

def write (s : ChatClient) (message : StringPiece) : Except Fault ChatClient := do
  if s.connection then
    let buf ← LengthHeaderCodec.send message
    let (conn, _) ← s.conn.sendBuffer false buf (.wrote 0)
    return { s with conn := conn }
  else return s

/-- `TcpClient::disconnect` on the main thread, which leaves the `shutdown(2)` to the loop. -/
def disconnect (s : ChatClient) : Except Fault ChatClient := do
  if s.connection then return { s with conn := ← s.conn.shutdown false .success } else return s

end ChatClient

namespace Client

/-- The next functor of the loop runs.  No callback for written data is set and the connection is
never forced to close. -/
def runFunctor (conn : TcpConnection) (w : WriteResult) (d : ShutdownResult) :
    Except Fault TcpConnection :=
  match conn.pendingFunctors with
  | .sendInLoop str :: fs => { conn with pendingFunctors := fs }.runSendInLoop str w
  | .shutdownInLoop :: fs => { conn with pendingFunctors := fs }.shutdownInLoop d
  | _ :: fs => return { conn with pendingFunctors := fs }
  | [] => return conn

inductive Event where
  | up
  | write (line : Bytes)
  | disconnect
  | functor (w : WriteResult) (d : ShutdownResult)
  | handleWrite (w : WriteResult) (d : ShutdownResult)
  | hangUp
  deriving DecidableEq

def step (s : ChatClient) : Event → Except Fault ChatClient
  | .up => return { s with conn := ← s.conn.connectEstablished }.onConnection
  | .write line => s.write (StringPiece.ofString line)
  | .disconnect => s.disconnect
  | .functor w d => return { s with conn := ← runFunctor s.conn w d }
  | .handleWrite w d => return { s with conn := ← s.conn.handleWrite w d }
  | .hangUp => return { s with conn := ← s.conn.handleClose }.onConnection

def machine : Machine ChatClient Event Fault := ⟨step⟩

/-- How much the next functor asks the kernel to write. -/
def asked (conn : TcpConnection) : ℕ :=
  match conn.pendingFunctors with
  | .sendInLoop str :: _ => (cString str).length
  | _ => 0

/-- A line and its header are shorter than 2 GiB, and the kernel takes at most what it is given. -/
def Env (s : ChatClient) : Event → Prop
  | .up => s.conn.state = .kConnecting
  | .write line => line.length + 4 < 2 ^ 31
  | .functor w _ => w.Fits (asked s.conn)
  | .handleWrite w _ => w.Fits s.conn.outputBuffer.readableBytes
  | .hangUp => Up s.conn
  | .disconnect => True

instance (s : ChatClient) : ∀ e, Decidable (Env s e)
  | .up => inferInstanceAs (Decidable (s.conn.state = .kConnecting))
  | .write line => inferInstanceAs (Decidable (line.length + 4 < 2 ^ 31))
  | .functor w _ => inferInstanceAs (Decidable (w.Fits (asked s.conn)))
  | .handleWrite w _ => inferInstanceAs (Decidable (w.Fits s.conn.outputBuffer.readableBytes))
  | .hangUp => inferInstanceAs (Decidable (Up s.conn))
  | .disconnect => isTrue trivial

/-- The `shutdown(2)` of a queued `shutdownInLoop` succeeds. -/
def Event.Succeeds : Event → Prop
  | .functor _ d => d = .success
  | .up | .write _ | .disconnect | .handleWrite _ _ | .hangUp => True

/-- In whatever chunks the server gets whatever part of the bytes, it reads no message. -/
def Unheard (s : ChatClient) : Prop :=
  ∀ chunks : List Bytes, chunks.flatten <+: s.conn.accepted →
    ∃ shutdown buf, feed Buffer.empty chunks = .ok ([], shutdown, buf)

/-! ## Bytes without NUL -/

theorem lt_networkToHost32 {xs : Bytes} (hlen : xs.length = 4) (h : 0 ∉ xs) :
    65536 < networkToHost32 xs ∨ networkToHost32 xs < 0 := by
  obtain ⟨a, b, c, d, rfl⟩ : ∃ a b c d, xs = [a, b, c, d] := by
    match xs, hlen with
    | [a, b, c, d], _ => exact ⟨a, b, c, d, rfl⟩
  have hpos : 0 < a.toNat := by
    refine Nat.pos_of_ne_zero fun hzero => h ?_
    rw [show a = 0 from UInt8.toNat_inj.1 hzero]
    exact List.mem_cons_self
  have hlt := BigEndian.ofBytes_lt [a, b, c, d]
  have hof : BigEndian.ofBytes [a, b, c, d] =
      256 * (256 * (256 * a.toNat + b.toNat) + c.toNat) + d.toNat := by
    simp only [BigEndian.ofBytes, List.foldl_cons, List.foldl_nil, Nat.mul_zero, Nat.zero_add]
  unfold networkToHost32 Int.bmod
  simp only [List.length_cons, List.length_nil] at hlt ⊢
  split_ifs <;> omega

/-- A header without NUL is no length the codec accepts. -/
theorem decode_of_no_nul {xs : Bytes} (h : 0 ∉ xs) (fuel : ℕ) :
    (decode fuel xs).1 = [] ∧ (decode fuel xs).2.2 = xs := by
  cases fuel with
  | zero => exact ⟨rfl, rfl⟩
  | succ fuel =>
    rw [decode]
    by_cases hheader : 4 ≤ xs.length
    · have hlen : (xs.take 4).length = 4 := by
        rw [List.length_take]
        omega
      have hbad := lt_networkToHost32 hlen fun hzero => h (List.mem_of_mem_take hzero)
      rw [if_pos hheader]
      simp only [if_pos hbad, and_self]
    · rw [if_neg hheader]
      exact ⟨rfl, rfl⟩

theorem feed_of_no_nul {chunks : List Bytes} (h : 0 ∉ chunks.flatten) {buf : Buffer} (hwf : buf.Wf)
    (hbuf : 0 ∉ buf.readable) :
    ∃ shutdown buf', feed buf chunks = .ok ([], shutdown, buf') := by
  induction chunks generalizing buf with
  | nil => exact ⟨false, buf, rfl⟩
  | cons chunk chunks ih =>
    rw [List.flatten_cons, List.mem_append, not_or] at h
    obtain ⟨buf₁, happend, hwf₁, hread₁⟩ := hwf.append chunk
    have hbuf₁ : 0 ∉ buf₁.readable := by
      rw [hread₁, List.mem_append, not_or]
      exact ⟨hbuf, h.1⟩
    obtain ⟨buf₂, hcall, hwf₂, hread₂⟩ := onMessage_eq_decode hwf₁
    obtain ⟨hnone, hkeep⟩ := decode_of_no_nul hbuf₁ (buf₁.readable.length + 1)
    rw [hkeep] at hread₂
    obtain ⟨shutdown, buf', hfeed⟩ := ih h.2 hwf₂ (by rw [hread₂]; exact hbuf₁)
    rw [hnone] at hcall
    refine ⟨(decode (buf₁.readable.length + 1) buf₁.readable).2.1 || shutdown, buf', ?_⟩
    rw [feed, happend, ok_bind, hcall, ok_bind]
    dsimp only
    rw [hfeed]
    rfl

/-! ## What the client sends -/

/-- No NUL is sent, and the queued messages are no longer than an `int` can tell. -/
structure Inv (s : ChatClient) : Prop where
  wf : s.conn.outputBuffer.Wf
  accepted : 0 ∉ s.conn.accepted
  buffered : 0 ∉ s.conn.outputBuffer.readable
  functors : ∀ str, .sendInLoop str ∈ s.conn.pendingFunctors → str.length < 2 ^ 31

variable {s : ChatClient} {conn : TcpConnection}

theorem no_nul_cString (str : Bytes) : 0 ∉ cString str := fun h => by
  have hne := List.mem_takeWhile_imp h
  simp at hne

/-- Nothing but the data comes into the stream. -/
theorem sendInLoop_no_nul (h : Inv s) {data : Bytes} (hdata : 0 ∉ data) {w : WriteResult}
    (hw : w.Fits data.length) :
    ∃ conn, s.conn.sendInLoop data w = .ok conn ∧ Inv { s with conn := conn } := by
  by_cases hdown : s.conn.state = .kDisconnected
  · exact ⟨s.conn, TcpConnection.sendInLoop_of_down hdown data w, h⟩
  obtain ⟨n, fs, hn, -, hfs, hcases⟩ := TcpConnection.sendInLoop_cases hdown hw
  have haccepted : 0 ∉ (s.conn.handed data n fs).accepted := by
    show 0 ∉ s.conn.accepted ++ data.take n
    rw [List.mem_append, not_or]
    exact ⟨h.accepted, fun hzero => hdata (List.mem_of_mem_take hzero)⟩
  have hfunctors : ∀ str, .sendInLoop str ∈ (s.conn.handed data n fs).pendingFunctors →
      str.length < 2 ^ 31 := by
    intro str hstr
    rcases List.mem_append.1 hstr with hstr | hstr
    · exact h.functors str hstr
    · rcases hfs with rfl | rfl
      · cases hstr
      · cases List.mem_singleton.1 hstr
  rcases hcases with ⟨hok, -⟩ | ⟨-, hok⟩
  · exact ⟨_, hok, h.wf, haccepted, h.buffered, hfunctors⟩
  · obtain ⟨b, hb, hread, heq⟩ := TcpConnection.bufferRest_eq
      (show (s.conn.handed data n fs).outputBuffer.Wf from h.wf) (data.drop n)
    refine ⟨_, hok.trans heq, hb, haccepted, ?_, fun str hstr => ?_⟩
    · show 0 ∉ b.readable
      rw [hread, List.mem_append, not_or]
      exact ⟨h.buffered, fun hzero => hdata (List.mem_of_mem_drop hzero)⟩
    · rcases List.mem_append.1 hstr with hstr | hstr
      · exact hfunctors str hstr
      · unfold TcpConnection.highWaterFunctors at hstr
        split_ifs at hstr
        · cases List.mem_singleton.1 hstr
        · cases hstr

theorem Inv.of_pop (h : Inv s) {f : Functor} {fs : List Functor}
    (hfs : s.conn.pendingFunctors = f :: fs) :
    Inv { s with conn := { s.conn with pendingFunctors := fs } } :=
  ⟨h.wf, h.accepted, h.buffered, fun str hstr => h.functors str (by
    rw [hfs]
    exact List.mem_cons_of_mem _ hstr)⟩

/-- Half-closing touches neither the stream nor the functors. -/
theorem Inv.of_halfClosed (h : Inv s) : Inv { s with conn := s.conn.halfClosed } := by
  unfold TcpConnection.halfClosed
  split_ifs
  · exact h
  · exact ⟨h.wf, h.accepted, h.buffered, h.functors⟩

theorem functor_spec (h : Inv s) {w : WriteResult} (hw : w.Fits (asked s.conn))
    (d : ShutdownResult) :
    (∃ conn, runFunctor s.conn w d = .ok conn ∧ Inv { s with conn := conn }) ∨
      runFunctor s.conn w d = .error .shutdownWrite ∧ d ≠ .success := by
  unfold runFunctor
  unfold asked at hw
  cases hfs : s.conn.pendingFunctors with
  | nil => exact .inl ⟨s.conn, rfl, h⟩
  | cons f fs =>
    have hpop := h.of_pop hfs
    rw [hfs] at hw
    cases f with
    | sendInLoop str =>
      have hstr := h.functors str (by rw [hfs]; exact List.mem_cons_self)
      obtain ⟨conn, hconn, hinv⟩ := sendInLoop_no_nul hpop (no_nul_cString str) hw
      exact .inl ⟨conn, (TcpConnection.runSendInLoop_eq hstr _ w).trans hconn, hinv⟩
    | shutdownInLoop =>
      exact (TcpConnection.shutdownInLoop_cases _ d).imp_left fun hok => ⟨_, hok, hpop.of_halfClosed⟩
    | forceCloseInLoop | writeComplete | highWaterMark _ | setCloseCallback =>
      exact .inl ⟨_, rfl, hpop⟩

/-- What the kernel takes is in the output buffer. -/
theorem handleWrite_no_nul (h : Inv s) {w : WriteResult}
    (hw : w.Fits s.conn.outputBuffer.readableBytes) (d : ShutdownResult) :
    ∃ conn, s.conn.handleWrite w d = .ok conn ∧ Inv { s with conn := conn } := by
  rcases TcpConnection.handleWrite_eq_of_fits h.wf hw d with hok | ⟨n, b, hwf, hread, hok⟩
  · exact ⟨s.conn, hok, h⟩
  · refine ⟨_, hok, hwf, ?_, ?_, h.functors⟩
    · show 0 ∉ s.conn.accepted ++ s.conn.outputBuffer.readable.take n
      rw [List.mem_append, not_or]
      exact ⟨h.accepted, fun hzero => h.buffered (List.mem_of_mem_take hzero)⟩
    · show 0 ∉ b.readable
      rw [hread]
      exact h.buffered

/-- The buffer of `send` is a proper one. -/
theorem wf_of_send {message : StringPiece} {buf : Buffer}
    (h : LengthHeaderCodec.send message = .ok buf) : buf.Wf := by
  unfold LengthHeaderCodec.send at h
  rw [Buffer.new_kInitialSize, ok_bind] at h
  obtain ⟨bytes, -, h⟩ := bind_eq_ok.1 h
  obtain ⟨b, happend, h⟩ := bind_eq_ok.1 h
  obtain ⟨b', happend', hwf, -⟩ := Buffer.wf_empty.append bytes
  obtain rfl := Except.ok.inj (happend.symm.trans happend')
  have hroom : (hostToNetwork32 message.length).length ≤ b.prependableBytes := by
    rw [length_hostToNetwork32]
    exact le_trans (by decide) (Buffer.cheapPrepend_le_append happend (le_refl Buffer.kCheapPrepend))
  obtain ⟨b'', hprepend, hwf', -⟩ := hwf.prepend hroom
  obtain rfl := Except.ok.inj (h.symm.trans hprepend)
  exact hwf'

/-- What `write` leaves with the loop is one message. -/
theorem write_no_nul (h : Inv s) {line : Bytes} (hline : line.length + 4 < 2 ^ 31) :
    ∃ s', s.write (StringPiece.ofString line) = .ok s' ∧ Inv s' := by
  unfold ChatClient.write
  cases hconnection : s.connection with
  | false => exact ⟨s, rfl, h⟩
  | true =>
    have hle := (cString_prefix_self line).length_le
    obtain ⟨buf, hsend, hbuf⟩ := send_spec (cString line)
    have hwf := wf_of_send hsend
    rw [if_pos rfl, send_ofString (by omega), hsend, ok_bind, TcpConnection.sendBuffer]
    by_cases hup : s.conn.state = .kConnected
    · obtain ⟨buf', hall, -, -⟩ := hwf.retrieveAsString le_rfl
      rw [if_pos hup, if_neg (by decide), Buffer.retrieveAllAsString, hall, ok_bind,
        ← hwf.length_readable, List.take_length, hbuf, pure_bind]
      refine ⟨_, rfl, h.wf, h.accepted, h.buffered, fun str hstr => ?_⟩
      rcases List.mem_append.1 hstr with hstr | hstr
      · exact h.functors str hstr
      · obtain rfl := Functor.sendInLoop.inj (List.mem_singleton.1 hstr)
        rw [length_frame, kHeaderLen]
        omega
    · rw [if_neg hup, pure_bind]
      exact ⟨_, rfl, h.wf, h.accepted, h.buffered, h.functors⟩

/-- The half-close is left to the loop. -/
theorem disconnect_no_nul (h : Inv s) : ∃ s', s.disconnect = .ok s' ∧ Inv s' := by
  unfold ChatClient.disconnect
  split_ifs
  · rw [TcpConnection.shutdown_off_loop, ok_bind]
    refine ⟨_, rfl, ?_⟩
    split_ifs
    · refine ⟨h.wf, h.accepted, h.buffered, fun str hstr => ?_⟩
      rcases List.mem_append.1 hstr with hstr | hstr
      · exact h.functors str hstr
      · cases List.mem_singleton.1 hstr
    · exact ⟨h.wf, h.accepted, h.buffered, h.functors⟩
  · exact ⟨s, rfl, h⟩

theorem step_no_nul (h : Inv s) {e : Event} (henv : Env s e) :
    (∃ s', machine.step s e = .ok s' ∧ Inv s') ∨
      machine.step s e = .error .shutdownWrite ∧ ¬ e.Succeeds := by
  show (∃ s', step s e = .ok s' ∧ Inv s') ∨ step s e = .error .shutdownWrite ∧ ¬ e.Succeeds
  cases e with
  | up =>
    rw [step, TcpConnection.connectEstablished,
      check_of (show s.conn.state = .kConnecting from henv), ok_bind]
    exact .inl ⟨_, rfl, h.wf, h.accepted, h.buffered, h.functors⟩
  | write line => exact .inl (write_no_nul h henv)
  | disconnect => exact .inl (disconnect_no_nul h)
  | functor w d =>
    rcases functor_spec h henv d with ⟨conn, hconn, hinv⟩ | ⟨hfault, hd⟩
    · exact .inl ⟨_, by rw [step, hconn]; rfl, hinv⟩
    · exact .inr ⟨by rw [step, hfault]; rfl, hd⟩
  | handleWrite w d =>
    obtain ⟨conn, hconn, hinv⟩ := handleWrite_no_nul h henv d
    exact .inl ⟨_, by rw [step, hconn]; rfl, hinv⟩
  | hangUp =>
    rw [step, TcpConnection.handleClose,
      check_of (show s.conn.state = .kConnected ∨ s.conn.state = .kDisconnecting from henv), ok_bind]
    exact .inl ⟨_, rfl, h.wf, h.accepted, h.buffered, h.functors⟩

theorem inv_new : Inv ChatClient.new := by
  refine ⟨Buffer.wf_empty, List.not_mem_nil, ?_, fun str hstr => absurd hstr List.not_mem_nil⟩
  show 0 ∉ Buffer.empty.readable
  rw [Buffer.readable_empty]
  exact List.not_mem_nil

theorem Inv.unheard (h : Inv s) : Unheard s := by
  intro chunks hchunks
  refine feed_of_no_nul (fun hzero => h.accepted (hchunks.subset hzero)) Buffer.wf_empty ?_
  rw [Buffer.readable_empty]
  exact List.not_mem_nil

theorem write_never_heard (es : List Event) (hE : machine.Along Env ChatClient.new es) :
    (∀ f, machine.run ChatClient.new es = .error f → f = .shutdownWrite ∧ ∃ e ∈ es, ¬ e.Succeeds) ∧
      machine.Always Unheard ChatClient.new es := by
  obtain ⟨hrun, hinv⟩ := Machine.fault_always_of_along
    (fun s e (hs : Inv s) he => step_no_nul hs he) inv_new hE
  exact ⟨hrun, hinv.mono fun s hs => hs.unheard⟩

/-- The line is written and the loop runs its functor: of the seven bytes of the frame none is sent. -/
theorem write_never_heard_hi : machine.Always Unheard ChatClient.new
    [.up, .write (ascii "hi!"), .functor (.wrote 0) .success, .write (ascii "hi?"), .disconnect,
      .functor (.wrote 0) .success, .functor (.wrote 0) .success] :=
  (write_never_heard _ (by decide +kernel)).2

end Client

end Chat

end Reactor
