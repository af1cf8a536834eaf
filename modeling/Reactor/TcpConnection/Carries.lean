import Reactor.TcpConnection.HalfClose
import Reactor.TcpConnection.OutputStream
import Reactor.TcpConnection.Send

/-!
# What a connection carries to its peer

A connection that is up, and the functors it leaves with its loop.  It `Carries` what was sent when the
bytes that the kernel has accepted, those in the output buffer and those of the queued messages are
that, one behind the other, and the write half is shut down behind all of them.  A `send` and a
`shutdown` on another thread and the functors keep this.  `handleWrite` keeps it as long as it hands no
bytes to the kernel, since it would hand them over again.
-/

namespace Reactor

namespace TcpConnection

open HalfClose (Busy messages messages_append mem_messages)
open OutputStream (Accepts ofRoom)

/-- The next functor of the loop runs. -/
def runFunctor (c : TcpConnection) (w : WriteResult) (d : ShutdownResult) :
    Except Fault TcpConnection :=
  match c.pendingFunctors with
  | [] => return c
  | f :: fs =>
    let c := { c with pendingFunctors := fs }
    match f with
    | .sendInLoop str => c.runSendInLoop str w
    | .shutdownInLoop => c.shutdownInLoop d
    | .forceCloseInLoop => do
      if c.state = .kConnected ∨ c.state = .kDisconnecting then
        return (← c.handleClose).closeCallback
      else return c
    | .writeComplete => return c.invoke .writeComplete
    | .highWaterMark len => return c.invoke (.highWaterMark len)
    | .setCloseCallback => return c

/-- How much the next functor asks the kernel to write. -/
def asked (c : TcpConnection) : ℕ :=
  match c.pendingFunctors with
  | .sendInLoop str :: _ => (cString str).length
  | _ => 0

/-- The messages that are queued behind a `shutdownInLoop`. -/
def behind (fs : List Functor) : List Bytes := messages (fs.dropWhile (· ≠ .shutdownInLoop))

structure Carries (c : TcpConnection) (sent : Bytes) : Prop where
  output : c.outputBuffer.Wf
  busy : Busy c
  up : c.state ≠ .kDisconnected
  stream : c.accepted ++ c.outputBuffer.readable ++ (messages c.pendingFunctors).flatMap cString = sent
  short : ∀ m ∈ messages c.pendingFunctors, m.length < 2 ^ 31
  unforced : .forceCloseInLoop ∉ c.pendingFunctors
  ordered : behind c.pendingFunctors = []
  connected : c.state = .kConnected →
    .shutdownInLoop ∉ c.pendingFunctors ∧ c.writeHalfClosed = false
  halfClosed : c.writeHalfClosed = true →
    c.outputBuffer.readable = [] ∧ messages c.pendingFunctors = []

variable {c c' : TcpConnection} {sent : Bytes} {fs gs : List Functor}

/-! ## The queue -/

theorem messages_dropWhile (h : messages fs = []) (p : Functor → Bool) :
    messages (fs.dropWhile p) = [] := by
  refine List.eq_nil_iff_forall_not_mem.2 fun m hm => ?_
  have hmem := mem_messages.2 ((List.dropWhile_sublist p).subset (mem_messages.1 hm))
  rw [h] at hmem
  cases hmem

theorem behind_eq_nil (h : .shutdownInLoop ∉ fs) : behind fs = [] := by
  have hall : fs.dropWhile (· ≠ .shutdownInLoop) = [] :=
    List.dropWhile_eq_nil_iff.2 fun f hf => decide_eq_true fun heq => h (heq ▸ hf)
  rw [behind, hall]
  rfl

theorem behind_shutdownInLoop (fs : List Functor) : behind (.shutdownInLoop :: fs) = messages fs := rfl

theorem behind_cons {f : Functor} (hf : f ≠ .shutdownInLoop) : behind (f :: fs) = behind fs := by
  unfold behind
  rw [List.dropWhile_cons_of_pos (by simpa using hf)]

theorem behind_tail {f : Functor} (h : behind (f :: fs) = []) : behind fs = [] := by
  by_cases hf : f = .shutdownInLoop
  · subst hf
    rw [behind_shutdownInLoop] at h
    exact messages_dropWhile h _
  · rw [behind_cons hf] at h
    exact h

/-- Nothing but messages counts at the end of the queue. -/
theorem behind_append (h : behind fs = []) (hgs : messages gs = []) : behind (fs ++ gs) = [] := by
  induction fs with
  | nil => exact messages_dropWhile hgs _
  | cons f fs ih =>
    by_cases hf : f = .shutdownInLoop
    · subst hf
      rw [behind_shutdownInLoop] at h
      rw [List.cons_append, behind_shutdownInLoop, messages_append, h, hgs]
      rfl
    · rw [List.cons_append, behind_cons hf]
      exact ih (behind_tail h)

/-! ## The start -/

/-- What `connectEstablished` makes of a new connection. -/
def established (c : TcpConnection) : TcpConnection :=
  { c with state := .kConnected, channel := c.channel.enableReading }.invoke (.connection .kConnected)

theorem connectEstablished_eq (h : c.state = .kConnecting) :
    c.connectEstablished = .ok c.established := by
  rw [connectEstablished, check_of h]
  rfl

theorem carries_established (fd : ℕ) (writeComplete highWater : Bool) (mark : ℕ) :
    Carries (new fd writeComplete highWater mark).established [] := by
  have hempty : Buffer.empty.readable = [] := Buffer.readable_empty
  refine ⟨Buffer.wf_empty, ?_, by simp [established, invoke], ?_, fun m hm => absurd hm List.not_mem_nil,
    List.not_mem_nil, rfl, fun _ => ⟨List.not_mem_nil, rfl⟩, fun h => by cases h⟩
  · unfold HalfClose.Busy
    show _ ↔ Buffer.empty.readable ≠ []
    rw [hempty]
    have hwriting : (new fd writeComplete highWater mark).established.channel.isWriting = false := by
      show (Channel.new 0).enableReading.isWriting = false
      decide
    simp [hwriting]
  · show [] ++ Buffer.empty.readable ++ [] = []
    rw [hempty]
    rfl

/-- Nothing is sent but what the kernel has accepted. -/
theorem Carries.prefix_sent (h : Carries c sent) : c.accepted <+: sent := by
  rw [← h.stream, List.append_assoc]
  exact List.prefix_append _ _

/-- A connection that is half-closed has passed everything on. -/
theorem Carries.accepted_eq (h : Carries c sent) (hhalf : c.writeHalfClosed = true) :
    c.accepted = sent := by
  obtain ⟨hread, hnone⟩ := h.halfClosed hhalf
  have hstream := h.stream
  rw [hread, hnone, List.append_nil, List.flatMap_nil, List.append_nil] at hstream
  exact hstream

/-! ## The steps -/

/-- The members that `Carries` looks at. -/
theorem Carries.of_eq (h : Carries c sent) (hbuffer : c'.outputBuffer = c.outputBuffer)
    (hchannel : c'.channel = c.channel) (hstate : c'.state = c.state)
    (haccepted : c'.accepted = c.accepted) (hfunctors : c'.pendingFunctors = c.pendingFunctors)
    (hhalf : c'.writeHalfClosed = c.writeHalfClosed) : Carries c' sent := by
  refine ⟨?_, ?_, ?_, ?_, ?_, ?_, ?_, ?_, ?_⟩
  · rw [hbuffer]
    exact h.output
  · unfold HalfClose.Busy
    rw [hbuffer, hchannel]
    exact h.busy
  · rw [hstate]
    exact h.up
  · rw [haccepted, hbuffer, hfunctors]
    exact h.stream
  · rw [hfunctors]
    exact h.short
  · rw [hfunctors]
    exact h.unforced
  · rw [hfunctors]
    exact h.ordered
  · rw [hstate, hfunctors, hhalf]
    exact h.connected
  · rw [hhalf, hbuffer, hfunctors]
    exact h.halfClosed

/-- What is queued behind the functor in front. -/
theorem Carries.tail (h : Carries c sent) {f : Functor} (hfs : c.pendingFunctors = f :: fs) :
    (∀ m ∈ messages fs, m.length < 2 ^ 31) ∧ .forceCloseInLoop ∉ fs ∧ behind fs = [] ∧
      (c.state = .kConnected → .shutdownInLoop ∉ fs ∧ c.writeHalfClosed = false) := by
  have hmem : ∀ g ∈ fs, g ∈ c.pendingFunctors := fun g hg => by
    rw [hfs]
    exact List.mem_cons_of_mem f hg
  have hordered := h.ordered
  rw [hfs] at hordered
  exact ⟨fun m hm => h.short m (mem_messages.2 (hmem _ (mem_messages.1 hm))),
    fun hg => h.unforced (hmem _ hg), behind_tail hordered,
    fun hup => ⟨fun hg => (h.connected hup).1 (hmem _ hg), (h.connected hup).2⟩⟩

/-- A functor that is not a message is taken off the queue. -/
theorem Carries.pop (h : Carries c sent) {f : Functor} (hfs : c.pendingFunctors = f :: fs)
    (hf : ∀ str, f ≠ .sendInLoop str) : Carries { c with pendingFunctors := fs } sent := by
  have hmessages : messages c.pendingFunctors = messages fs := by
    rw [hfs]
    cases f with
    | sendInLoop str => exact absurd rfl (hf str)
    | shutdownInLoop | forceCloseInLoop | writeComplete | highWaterMark _ | setCloseCallback => rfl
  obtain ⟨hshort, hunforced, hordered, hconnected⟩ := h.tail hfs
  have hstream := h.stream
  have hhalf := h.halfClosed
  rw [hmessages] at hstream hhalf
  exact ⟨h.output, h.busy, h.up, hstream, hshort, hunforced, hordered, hconnected, hhalf⟩

theorem accepted_of_sendInLoop {data : Bytes} {w : WriteResult} (hwf : c.outputBuffer.Wf)
    (hw : w.Fits data.length) (hok : c.sendInLoop data w = .ok c') : c.accepted <+: c'.accepted := by
  by_cases hup : c.state = .kDisconnected
  · rw [sendInLoop_of_down hup] at hok
    obtain rfl := Except.ok.inj hok
    exact List.prefix_rfl
  · obtain ⟨n, fs, -, -, -, ⟨heq, -⟩ | ⟨-, heq⟩⟩ := sendInLoop_cases hup hw
    · obtain rfl := Except.ok.inj (heq.symm.trans hok)
      exact List.prefix_append _ _
    · obtain ⟨b, -, -, hrest⟩ := bufferRest_eq (c := c.handed data n fs) hwf (data.drop n)
      obtain rfl := Except.ok.inj ((heq.trans hrest).symm.trans hok)
      exact List.prefix_append _ _

/-- Bytes are sent while no message is queued in front of them. -/
theorem sendInLoop_carries {data : Bytes} {w : WriteResult} (hwf : c.outputBuffer.Wf)
    (hbusy : Busy c) (hup : c.state ≠ .kDisconnected) (hhalf : c.writeHalfClosed = false)
    (hshort : ∀ m ∈ messages c.pendingFunctors, m.length < 2 ^ 31)
    (hunforced : .forceCloseInLoop ∉ c.pendingFunctors) (hordered : behind c.pendingFunctors = [])
    (hconnected : c.state = .kConnected → .shutdownInLoop ∉ c.pendingFunctors)
    (hw : Accepts data.length w) :
    ∃ c', c.sendInLoop data w = .ok c' ∧
      Carries c' (c.accepted ++ c.outputBuffer.readable ++ data ++
        (messages c.pendingFunctors).flatMap cString) ∧
      c'.state = c.state ∧ c.accepted <+: c'.accepted := by
  obtain ⟨hfits, hpipe, hreset⟩ := hw.fits
  obtain ⟨c', hok, hwf', hlife, hstream⟩ := sendInLoop_spec hwf hfits
  obtain ⟨c₂, hok₂, hsends⟩ := HalfClose.sendInLoop_sends hwf hbusy hup hfits
  obtain rfl := Except.ok.inj (hok.symm.trans hok₂)
  obtain ⟨gs, hgs, hmessages, hshutdown⟩ := hsends.functors
  obtain ⟨gs', hgs', hforce⟩ := hlife.functors
  obtain rfl := List.append_cancel_left (hgs.symm.trans hgs')
  have hsame : messages c'.pendingFunctors = messages c.pendingFunctors := by
    rw [hgs, messages_append, hmessages, List.append_nil]
  have hhalf' : c'.writeHalfClosed = false := hsends.half.trans hhalf
  refine ⟨c', hok, ⟨hwf', hsends.busy, ?_, ?_, ?_, ?_, ?_, fun hstate => ⟨?_, hhalf'⟩, fun htrue => ?_⟩,
    hlife.state, accepted_of_sendInLoop hwf hfits hok⟩
  · rw [hlife.state]
    exact hup
  · rw [hstream hup hpipe hreset, hsame]
  · rw [hsame]
    exact hshort
  · rw [hgs, List.mem_append, not_or]
    exact ⟨hunforced, hforce⟩
  · rw [hgs]
    exact behind_append hordered hmessages
  · rw [hgs, List.mem_append, not_or]
    exact ⟨hconnected (hlife.state.symm.trans hstate), hshutdown⟩
  · rw [hhalf'] at htrue
    cases htrue

/-- A `send` on another thread. -/
theorem Carries.queue (h : Carries c sent) (hup : c.state = .kConnected) {message : Bytes}
    (hshort : message.length < 2 ^ 31) (w : WriteResult) :
    ∃ c', c.send false message w = .ok c' ∧ Carries c' (sent ++ cString message) ∧
      c'.state = c.state ∧ c'.accepted = c.accepted := by
  have hmessages : messages (c.queueInLoop (.sendInLoop message)).pendingFunctors =
      messages c.pendingFunctors ++ [message] := messages_append _ _
  have hnone : .shutdownInLoop ∉ c.pendingFunctors ++ [.sendInLoop message] := by
    rw [List.mem_append, not_or]
    exact ⟨(h.connected hup).1, by simp⟩
  refine ⟨c.queueInLoop (.sendInLoop message), ?_, ⟨h.output, h.busy, h.up, ?_, ?_, ?_,
    behind_eq_nil hnone, fun _ => ⟨hnone, (h.connected hup).2⟩, fun hhalf => ?_⟩, rfl, rfl⟩
  · rw [TcpConnection.send, if_pos hup, if_neg (by decide)]
    rfl
  · rw [hmessages, List.flatMap_append, List.flatMap_singleton, ← List.append_assoc]
    exact congrArg (· ++ cString message) h.stream
  · rw [hmessages]
    intro m hm
    rcases List.mem_append.1 hm with hm | hm
    · exact h.short m hm
    · obtain rfl := List.mem_singleton.1 hm
      exact hshort
  · show .forceCloseInLoop ∉ c.pendingFunctors ++ [.sendInLoop message]
    rw [List.mem_append, not_or]
    exact ⟨h.unforced, by simp⟩
  · have htrue : c.writeHalfClosed = true := hhalf
    rw [(h.connected hup).2] at htrue
    cases htrue

/-- A `shutdown` on another thread. -/
theorem Carries.shutdown_off_loop (h : Carries c sent) (d : ShutdownResult) :
    ∃ c', c.shutdown false d = .ok c' ∧ Carries c' sent ∧ c'.state ≠ .kConnected ∧
      c'.accepted = c.accepted := by
  refine ⟨_, TcpConnection.shutdown_off_loop c d, ?_⟩
  split_ifs with hup
  · have hmessages : messages (c.pendingFunctors ++ [.shutdownInLoop]) = messages c.pendingFunctors := by
      rw [messages_append]
      exact List.append_nil _
    have hforce : .forceCloseInLoop ∉ c.pendingFunctors ++ [.shutdownInLoop] := by
      rw [List.mem_append, not_or]
      exact ⟨h.unforced, by simp⟩
    refine ⟨⟨h.output, h.busy, by simp [queueInLoop], ?_, ?_, hforce, behind_append h.ordered rfl,
      by simp [queueInLoop], fun hhalf => ?_⟩, by simp [queueInLoop], rfl⟩
    · show _ ++ (messages (c.pendingFunctors ++ [.shutdownInLoop])).flatMap cString = sent
      rw [hmessages]
      exact h.stream
    · show ∀ m ∈ messages (c.pendingFunctors ++ [.shutdownInLoop]), m.length < 2 ^ 31
      rw [hmessages]
      exact h.short
    · show c.outputBuffer.readable = [] ∧ messages (c.pendingFunctors ++ [.shutdownInLoop]) = []
      rw [hmessages]
      exact h.halfClosed hhalf
  · exact ⟨h, hup, rfl⟩

/-- The half-close finds everything written. -/
theorem Carries.halfClose (h : Carries c sent) (hup : c.state ≠ .kConnected)
    (hnone : messages c.pendingFunctors = []) :
    Carries c.halfClosed sent ∧ c.halfClosed.state = c.state := by
  unfold TcpConnection.halfClosed
  by_cases hwriting : c.channel.isWriting = true
  · rw [if_neg (not_not.2 hwriting)]
    exact ⟨h, rfl⟩
  · rw [if_pos hwriting]
    refine ⟨⟨h.output, h.busy, h.up, h.stream, h.short, h.unforced, h.ordered,
      fun hstate => absurd hstate hup, fun _ => ⟨?_, hnone⟩⟩, rfl⟩
    by_contra hne
    exact hwriting (h.busy.2 hne)

/-- The message in front of the queue is sent. -/
theorem Carries.functor_message (h : Carries c sent) {str : Bytes}
    (hfs : c.pendingFunctors = .sendInLoop str :: fs) {w : WriteResult}
    (hw : Accepts (cString str).length w) :
    ∃ c', { c with pendingFunctors := fs }.runSendInLoop str w = .ok c' ∧ Carries c' sent ∧
      c'.state = c.state ∧ c.accepted <+: c'.accepted := by
  obtain ⟨hshort, hunforced, hordered, hconnected⟩ := h.tail hfs
  have hmessages : messages c.pendingFunctors = str :: messages fs := by
    rw [hfs]
    rfl
  have hhalf : c.writeHalfClosed = false := by
    cases hhalf : c.writeHalfClosed with
    | false => rfl
    | true =>
      have hnone := (h.halfClosed hhalf).2
      rw [hmessages] at hnone
      cases hnone
  have hstr := h.short str (by rw [hmessages]; exact List.mem_cons_self)
  obtain ⟨c', hok, hcarries, hstate, haccepted⟩ := sendInLoop_carries
    (c := { c with pendingFunctors := fs }) h.output h.busy h.up hhalf hshort hunforced hordered
    (fun hup => (hconnected hup).1) hw
  refine ⟨c', (runSendInLoop_eq hstr _ w).trans hok, ?_, hstate, haccepted⟩
  have hstream := h.stream
  rw [hmessages, List.flatMap_cons, ← List.append_assoc] at hstream
  rw [← hstream]
  exact hcarries

/-- The functor in front of the queue runs. -/
theorem Carries.functor (h : Carries c sent) {w : WriteResult} (hw : Accepts c.asked w)
    (d : ShutdownResult) :
    (∃ c', c.runFunctor w d = .ok c' ∧ Carries c' sent ∧ c'.state = c.state ∧
      c.accepted <+: c'.accepted) ∨
    c.runFunctor w d = .error .shutdownWrite ∧ d ≠ .success := by
  unfold TcpConnection.runFunctor
  unfold asked at hw
  cases hfs : c.pendingFunctors with
  | nil => exact .inl ⟨c, rfl, h, rfl, List.prefix_rfl⟩
  | cons f fs =>
    rw [hfs] at hw
    cases f with
    | sendInLoop str => exact .inl (h.functor_message hfs hw)
    | shutdownInLoop =>
      have hordered := h.ordered
      have hconnected := h.connected
      rw [hfs] at hordered hconnected
      have hup : c.state ≠ .kConnected := fun hup => (hconnected hup).1 List.mem_cons_self
      obtain ⟨hcarries, hstate⟩ := (h.pop hfs (by simp)).halfClose hup hordered
      exact (shutdownInLoop_cases _ d).imp_left fun hok =>
        ⟨_, hok, hcarries, hstate, [], by rw [List.append_nil, halfClosed_accepted]⟩
    | forceCloseInLoop => exact absurd (by rw [hfs]; exact List.mem_cons_self) h.unforced
    | writeComplete | highWaterMark =>
      exact .inl ⟨_, rfl, (h.pop hfs (by simp)).of_eq rfl rfl rfl rfl rfl rfl, rfl, List.prefix_rfl⟩
    | setCloseCallback => exact .inl ⟨_, rfl, h.pop hfs (by simp), rfl, List.prefix_rfl⟩

theorem written_eq_nil {room : Option ℕ} (h : c.channel.isWriting → room = none ∨ room = some 0)
    (len : ℕ) : c.written (ofRoom room len) = [] := by
  cases room with
  | none => rfl
  | some n =>
    dsimp only [ofRoom, written]
    split_ifs with hwriting
    · rcases h hwriting with hn | hn
      · cases hn
      · obtain rfl := Option.some.inj hn
        rw [Nat.zero_min, List.take_zero]
    · rfl

/-- A `handleWrite` that hands no bytes to the kernel. -/
theorem Carries.handleWrite (h : Carries c sent) {w : WriteResult} (hw : c.written w = [])
    (d : ShutdownResult) :
    ∃ c', c.handleWrite w d = .ok c' ∧ Carries c' sent ∧ c'.state = c.state ∧
      c'.accepted = c.accepted := by
  obtain ⟨b, accepted, hok, hwf, hread, -⟩ := HalfClose.handleWrite_busy h.output h.busy w d
  obtain rfl : accepted = c.accepted := by
    rcases handleWrite_spec h.output w d with ⟨c', hok', -, -, -, hacc⟩ | ⟨hfault, -⟩
    · obtain rfl := Except.ok.inj (hok.symm.trans hok')
      rw [hw, List.append_nil] at hacc
      exact hacc
    · cases hok.symm.trans hfault
  refine ⟨_, hok, ⟨hwf, ?_, h.up, ?_, h.short, h.unforced, h.ordered, h.connected, fun hhalf => ?_⟩, rfl,
    rfl⟩
  · unfold HalfClose.Busy
    rw [hread]
    exact h.busy
  · dsimp only
    rw [hread]
    exact h.stream
  · dsimp only
    rw [hread]
    exact h.halfClosed hhalf

end TcpConnection

end Reactor
