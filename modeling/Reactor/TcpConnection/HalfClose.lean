import Reactor.Lib.Machine
import Reactor.TcpConnection

/-!
# Half-close comes after the data

Sends from the loop's thread and from others, the writes of the loop, and one `shutdown`.  A `send`
on another thread tests `state_` and queues a functor, a `shutdown` on another thread sets `state_`
and queues one, and the steps of the others may come in between.

`shutdownInLoop` asks whether the channel is writing, but not whether a `sendInLoop` is still queued.
It therefore shuts the write half down in front of data when `shutdown` runs at once on the loop's
thread while another thread's `sendInLoop` waits, or when a `send` that has seen `kConnected` queues
its functor behind `shutdownInLoop`.

* `half_close_after_data`: in runs in which `shutdownInLoop` finds no send under way, and no message
  from another thread has a NUL, all data is written before `shutdownWrite` and nothing after it.
-/

namespace Reactor

namespace TcpConnection

namespace HalfClose

/-- A connection in use by several threads. -/
structure System where
  conn : TcpConnection
  -- sends on other threads that have seen `kConnected` and have not queued their functor yet
  testing : List Bytes
  -- a `shutdown` on another thread has set `kDisconnecting` and not queued its functor yet
  shutting : Bool
  -- the messages whose `sendInLoop` has run
  sent : List Bytes
  -- the messages of the sends that had returned when `shutdown` was called
  early : Option (List Bytes)
  -- `write(2)` was called after `shutdownWrite`
  lateWrite : Bool
  deriving DecidableEq

inductive Action where
  -- on the loop's thread
  | send (message : Bytes) (w : WriteResult)
  | shutdown (d : ShutdownResult)
  | functor (w : WriteResult) (d : ShutdownResult)
  | handleWrite (w : WriteResult) (d : ShutdownResult)
  -- on other threads
  | testSend (message : Bytes)
  | queueSend (i : ℕ)
  | beginShutdown
  | queueShutdown
  deriving DecidableEq, Repr

/-- The messages that wait in the queue. -/
def messages (fs : List Functor) : List Bytes :=
  fs.filterMap fun
    | .sendInLoop message => some message
    | _ => none

/-- `sendInLoop` calls `write(2)`. -/
def sendWrites (c : TcpConnection) : Bool :=
  c.state ≠ .kDisconnected ∧ ¬ c.channel.isWriting ∧ c.outputBuffer.readableBytes = 0

namespace System

/-- A system call on the write half is late when that was shut down before. -/
def late (s : System) (writes : Bool) : Bool := s.lateWrite || s.conn.writeHalfClosed && writes

/-- `sendInLoop` runs, with `data` of the message of a `send`. -/
def sendInLoop (s : System) (message data : Bytes) (w : WriteResult) : Except Fault System := do
  let conn ← s.conn.sendInLoop data w
  return { s with
    conn := conn, sent := s.sent ++ [message], lateWrite := s.late (sendWrites s.conn) }

/-- The messages of all sends that have returned. -/
def returned (s : System) : List Bytes := s.sent ++ messages s.conn.pendingFunctors

def step (s : System) : Action → Except Fault System
  | .send message w =>
    if s.conn.state = .kConnected then s.sendInLoop message message w else return s
  | .shutdown d => return { s with conn := ← s.conn.shutdown true d, early := some s.returned }
  | .functor w d =>
    match s.conn.pendingFunctors with
    | [] => return s
    | f :: fs =>
      let s := { s with conn := { s.conn with pendingFunctors := fs } }
      match f with
      | .sendInLoop message => s.sendInLoop message (cString message) w
      | .shutdownInLoop => return { s with conn := ← s.conn.shutdownInLoop d }
      | _ => return s
  | .handleWrite w d => do
    let conn ← s.conn.handleWrite w d
    return { s with conn := conn, lateWrite := s.late s.conn.channel.isWriting }
  | .testSend message => return { s with testing := s.testing ++ [message] }
  | .queueSend i =>
    match s.testing[i]? with
    | none => return s
    | some message => return { s with
        testing := s.testing.eraseIdx i, conn := s.conn.queueInLoop (.sendInLoop message) }
  | .beginShutdown => return { s with
      conn := { s.conn with state := .kDisconnecting }, shutting := true, early := some s.returned }
  | .queueShutdown => return { s with
      conn := s.conn.queueInLoop .shutdownInLoop, shutting := false }

end System

def machine : Machine System Action Fault := ⟨System.step⟩

def init (c : TcpConnection) : System := ⟨c, [], false, [], none, false⟩

/-- A connected connection that has not sent anything. -/
structure Fresh (c : TcpConnection) : Prop where
  state : c.state = .kConnected
  wf : c.outputBuffer.Wf
  empty : c.outputBuffer.readable = []
  idle : c.channel.isWriting = false
  accepted : c.accepted = []
  functors : c.pendingFunctors = []
  open_ : c.writeHalfClosed = false

/-- `write(2)` accepts part of what it is given, or fails for a reason other than a broken
connection. -/
def Answers (len : ℕ) (w : WriteResult) : Prop :=
  w.Fits len ∧ w ≠ .fail .EPIPE ∧ w ≠ .fail .ECONNRESET

instance (len : ℕ) (w : WriteResult) : Decidable (Answers len w) :=
  inferInstanceAs (Decidable (_ ∧ _ ∧ _))

/-- The kernel answers the write of a queued `sendInLoop`. -/
def AnswersFront (w : WriteResult) : List Functor → Prop
  | .sendInLoop message :: _ => Answers (cString message).length w
  | _ => True

instance (w : WriteResult) : ∀ fs, Decidable (AnswersFront w fs)
  | [] => isTrue trivial
  | .sendInLoop message :: _ => inferInstanceAs (Decidable (Answers (cString message).length w))
  | .shutdownInLoop :: _ | .forceCloseInLoop :: _ | .writeComplete :: _ | .highWaterMark _ :: _
  | .setCloseCallback :: _ => isTrue trivial

/-- Every send sees `kConnected`, `shutdown` is called once, and the connection does not fail. -/
def Env (s : System) : Action → Prop
  | .send message w => s.conn.state = .kConnected ∧ Answers message.length w
  | .shutdown _ => s.early = none
  | .functor w _ => AnswersFront w s.conn.pendingFunctors
  | .handleWrite w _ => Answers s.conn.outputBuffer.readableBytes w
  | .testSend _ => s.conn.state = .kConnected
  | .queueSend i => i < s.testing.length
  | .beginShutdown => s.early = none
  | .queueShutdown => s.shutting = true

instance (s : System) : ∀ a, Decidable (Env s a)
  | .send _ _ => inferInstanceAs (Decidable (_ ∧ _))
  | .shutdown _ => inferInstanceAs (Decidable (_ = _))
  | .functor _ _ => inferInstanceAs (Decidable (AnswersFront _ _))
  | .handleWrite _ _ => inferInstanceAs (Decidable (Answers _ _))
  | .testSend _ => inferInstanceAs (Decidable (_ = _))
  | .queueSend _ => inferInstanceAs (Decidable (_ < _))
  | .beginShutdown => inferInstanceAs (Decidable (_ = _))
  | .queueShutdown => inferInstanceAs (Decidable (_ = _))

/-- No send is under way: none is queued among `fs`, and none is about to be. -/
def Settled (s : System) (fs : List Functor) : Prop := messages fs = [] ∧ s.testing = []

instance (s : System) (fs : List Functor) : Decidable (Settled s fs) :=
  inferInstanceAs (Decidable (_ ∧ _))

/-- If `shutdownInLoop` is in front, it finds the channel writing or no send under way. -/
def SettledFront (s : System) : List Functor → Prop
  | .shutdownInLoop :: fs => s.conn.channel.isWriting = false → Settled s fs
  | _ => True

instance (s : System) : ∀ fs, Decidable (SettledFront s fs)
  | [] => isTrue trivial
  | .shutdownInLoop :: fs =>
    inferInstanceAs (Decidable (s.conn.channel.isWriting = false → Settled s fs))
  | .sendInLoop _ :: _ | .forceCloseInLoop :: _ | .writeComplete :: _ | .highWaterMark _ :: _
  | .setCloseCallback :: _ => isTrue trivial

/-- `shutdownInLoop` finds the channel writing or no send under way, and a message from another
thread has no NUL. -/
def Ordered (s : System) : Action → Prop
  | .shutdown _ => s.conn.channel.isWriting = false → Settled s s.conn.pendingFunctors
  | .functor _ _ => SettledFront s s.conn.pendingFunctors
  | .testSend message => 0 ∉ message
  | _ => True

instance (s : System) : ∀ a, Decidable (Ordered s a)
  | .shutdown _ => inferInstanceAs
      (Decidable (s.conn.channel.isWriting = false → Settled s s.conn.pendingFunctors))
  | .functor _ _ => inferInstanceAs (Decidable (SettledFront s s.conn.pendingFunctors))
  | .testSend message => inferInstanceAs (Decidable (0 ∉ message))
  | .send _ _ | .handleWrite _ _ | .queueSend _ | .beginShutdown | .queueShutdown => isTrue trivial

/-- If the action calls `shutdown(2)`, then with success. -/
def Action.Succeeds : Action → Prop
  | .shutdown d | .functor _ d | .handleWrite _ d => d = .success
  | .send _ _ | .testSend _ | .queueSend _ | .beginShutdown | .queueShutdown => True

instance : ∀ a : Action, Decidable a.Succeeds
  | .shutdown _ | .functor _ _ | .handleWrite _ _ => inferInstanceAs (Decidable (_ = _))
  | .send _ _ | .testSend _ | .queueSend _ | .beginShutdown | .queueShutdown => isTrue trivial

/-- Every message whose `send` had returned when `shutdown` was called was written before the write
half was shut down, and nothing after that. -/
def Proper (s : System) : Prop :=
  s.lateWrite = false ∧ (s.conn.writeHalfClosed = true →
    ∃ early, s.early = some early ∧ early.flatten <+: s.conn.accepted)

/-! ## Sending -/

@[simp] theorem messages_append (fs gs : List Functor) :
    messages (fs ++ gs) = messages fs ++ messages gs :=
  List.filterMap_append

/-- The channel is writing exactly when there is something to write. -/
def Busy (c : TcpConnection) : Prop := c.channel.isWriting = true ↔ c.outputBuffer.readable ≠ []

theorem isWriting_enableWriting (x : Channel) : x.enableWriting.isWriting = true := by
  have h : (x.events ||| POLLOUT) &&& POLLOUT = POLLOUT := by
    ext i hi
    simp only [BitVec.getElem_and, BitVec.getElem_or]
    cases POLLOUT[i] <;> simp
  show ((x.events ||| POLLOUT) &&& POLLOUT != 0) = true
  rw [h]
  decide

/-- What `sendInLoop` does to the queue and the channel. -/
structure Sends (c c' : TcpConnection) : Prop where
  busy : Busy c'
  stays : c.channel.isWriting = true → c'.channel.isWriting = true
  half : c'.writeHalfClosed = c.writeHalfClosed
  functors : ∃ fs, c'.pendingFunctors = c.pendingFunctors ++ fs ∧ messages fs = [] ∧
    .shutdownInLoop ∉ fs

theorem Sends.trans {c₁ c₂ c₃ : TcpConnection} (h : Sends c₁ c₂) (h' : Sends c₂ c₃) :
    Sends c₁ c₃ := by
  obtain ⟨fs, hfs, hm, hn⟩ := h.functors
  obtain ⟨gs, hgs, hm', hn'⟩ := h'.functors
  refine ⟨h'.busy, fun hw => h'.stays (h.stays hw), h'.half.trans h.half, fs ++ gs, ?_, ?_, ?_⟩
  · rw [hgs, hfs, List.append_assoc]
  · rw [messages_append, hm, hm', List.append_nil]
  · simp [hn, hn']

/-- What is kept is put behind, and the channel is writing from then on. -/
theorem bufferRest_sends {c : TcpConnection} (hwf : c.outputBuffer.Wf) {rest : Bytes}
    (hrest : rest ≠ []) : ∃ c', c.bufferRest rest = .ok c' ∧ Sends c c' := by
  obtain ⟨b, -, hread, heq⟩ := bufferRest_eq hwf rest
  have hne : b.readable ≠ [] := by
    rw [hread]
    exact fun hnil => hrest (List.append_eq_nil_iff.1 hnil).2
  have hon : (c.buffered rest b).channel.isWriting = true := by
    unfold buffered
    dsimp only
    split_ifs with hwriting
    · exact hwriting
    · exact isWriting_enableWriting c.channel
  refine ⟨_, heq, iff_of_true hon hne, fun _ => hon, rfl, _, rfl, ?_⟩
  unfold highWaterFunctors
  split_ifs
  · exact ⟨rfl, by simp⟩
  · exact ⟨rfl, by simp⟩

theorem handed_sends {c : TcpConnection} (hbusy : Busy c) (data : Bytes) (n : ℕ) {fs : List Functor}
    (hfs : fs = [] ∨ fs = [.writeComplete]) : Sends c (c.handed data n fs) := by
  refine ⟨hbusy, id, rfl, fs, rfl, ?_⟩
  rcases hfs with rfl | rfl
  · exact ⟨rfl, by simp⟩
  · exact ⟨rfl, by simp⟩

theorem sendInLoop_sends {c : TcpConnection} (hwf : c.outputBuffer.Wf) (hbusy : Busy c)
    (hup : c.state ≠ .kDisconnected) {data : Bytes} {w : WriteResult} (hw : w.Fits data.length) :
    ∃ c', c.sendInLoop data w = .ok c' ∧ Sends c c' := by
  obtain ⟨n, fs, -, -, hfs, hcases⟩ := sendInLoop_cases hup hw
  have hsends := handed_sends hbusy data n hfs
  rcases hcases with ⟨hok, -⟩ | ⟨hlt, heq⟩
  · exact ⟨_, hok, hsends⟩
  · have hne : data.drop n ≠ [] := fun hnil => by
      have hlen := congrArg List.length hnil
      rw [List.length_drop, List.length_nil] at hlen
      omega
    obtain ⟨c', hc', hs⟩ := bufferRest_sends (c := c.handed data n fs) hwf hne
    exact ⟨c', heq.trans hc', hsends.trans hs⟩

/-- `handleWrite` never finds the output buffer empty: what it writes stays there. -/
theorem handleWrite_busy {c : TcpConnection} (hwf : c.outputBuffer.Wf) (hbusy : Busy c)
    (w : WriteResult) (d : ShutdownResult) :
    ∃ b accepted, c.handleWrite w d = .ok { c with outputBuffer := b, accepted := accepted } ∧ b.Wf ∧
      b.readable = c.outputBuffer.readable ∧
      (c.channel.isWriting = false → accepted = c.accepted) := by
  rcases handleWrite_cases hwf w d with ⟨hok, -⟩ | ⟨n, b, -, -, hwriting, hwf', hread, hok⟩
  · exact ⟨c.outputBuffer, c.accepted, hok, hwf, rfl, fun _ => rfl⟩
  · have hne : b.readableBytes ≠ 0 := by
      rw [← hwf'.length_readable, hread]
      exact fun hlen => hbusy.1 hwriting (List.length_eq_zero_iff.1 hlen)
    rw [if_neg hne] at hok
    refine ⟨b, _, hok, hwf', hread, fun hidle => ?_⟩
    rw [hidle] at hwriting
    cases hwriting

/-! ## The invariant -/

structure Inv (s : System) : Prop where
  wf : s.conn.outputBuffer.Wf
  busy : Busy s.conn
  state : s.conn.state = if s.early.isSome then .kDisconnecting else .kConnected
  -- a channel that is not writing has nothing left
  written : s.conn.channel.isWriting = false → s.conn.accepted = s.sent.flatten
  clean : ∀ m ∈ s.testing ++ messages s.conn.pendingFunctors, 0 ∉ m
  -- functors run in the order they were queued
  ahead : ∀ early, s.early = some early → early <+: s.returned
  before : s.early = none → .shutdownInLoop ∉ s.conn.pendingFunctors ∧ s.shutting = false
  closed : s.conn.writeHalfClosed = true → s.early.isSome = true ∧
    s.conn.channel.isWriting = false ∧ Settled s s.conn.pendingFunctors
  late : s.lateWrite = false

theorem Fresh.inv {c : TcpConnection} (h : Fresh c) : Inv (init c) where
  wf := h.wf
  busy := iff_of_false (by rw [show (init c).conn = c from rfl, h.idle]; decide) (not_not.2 h.empty)
  state := h.state
  written := fun _ => h.accepted
  clean := by
    show ∀ m ∈ [] ++ messages c.pendingFunctors, 0 ∉ m
    rw [h.functors]
    exact fun m hm => absurd hm List.not_mem_nil
  ahead := fun early hearly => by cases hearly
  before := fun _ => ⟨by rw [show (init c).conn = c from rfl, h.functors]; simp, rfl⟩
  closed := fun hclosed => by
    rw [show (init c).conn = c from rfl, h.open_] at hclosed
    cases hclosed
  late := rfl

variable {s : System}

theorem Inv.proper (h : Inv s) : Proper s := by
  refine ⟨h.late, fun hclosed => ?_⟩
  obtain ⟨hcalled, hidle, hnone, -⟩ := h.closed hclosed
  obtain ⟨early, hearly⟩ := Option.isSome_iff_exists.1 hcalled
  refine ⟨early, hearly, ?_⟩
  obtain ⟨rest, hrest⟩ := h.ahead early hearly
  rw [System.returned, hnone, List.append_nil] at hrest
  rw [h.written hidle, ← hrest, List.flatten_append]
  exact List.prefix_append _ _

theorem Inv.up (h : Inv s) : s.conn.state ≠ .kDisconnected := by
  rw [h.state]
  split_ifs <;> decide

/-- Before `shutdown` is called the write half is open. -/
theorem Inv.open_of_none (h : Inv s) (hnone : s.early = none) : s.conn.writeHalfClosed = false := by
  cases hclosed : s.conn.writeHalfClosed with
  | false => rfl
  | true =>
    have hcalled := (h.closed hclosed).1
    rw [hnone] at hcalled
    cases hcalled

theorem Inv.early_of_connected (h : Inv s) (hstate : s.conn.state = .kConnected) :
    s.early = none := by
  have heq := h.state
  rw [hstate] at heq
  cases hearly : s.early with
  | none => rfl
  | some early =>
    rw [hearly] at heq
    cases heq

theorem System.sendInLoop_ok {message data : Bytes} {w : WriteResult} {c' : TcpConnection}
    (h : s.conn.sendInLoop data w = .ok c') :
    s.sendInLoop message data w = .ok { s with
      conn := c', sent := s.sent ++ [message], lateWrite := s.late (sendWrites s.conn) } := by
  rw [System.sendInLoop, h]
  rfl

theorem mem_messages {m : Bytes} {fs : List Functor} : m ∈ messages fs ↔ .sendInLoop m ∈ fs := by
  rw [messages, List.mem_filterMap]
  constructor
  · rintro ⟨f, hf, heq⟩
    cases f with
    | sendInLoop message =>
      obtain rfl := Option.some.inj heq
      exact hf
    | shutdownInLoop | forceCloseInLoop | writeComplete | highWaterMark | setCloseCallback =>
      cases heq
  · exact fun hm => ⟨_, hm, rfl⟩

/-- A `sendInLoop` that runs while the write half is open.  `fs` is what waits behind it. -/
theorem Inv.sendInLoop (h : Inv s) (hopen : s.conn.writeHalfClosed = false) {message : Bytes}
    {w : WriteResult} (hw : Answers message.length w) {fs : List Functor}
    (hfs : ∀ f ∈ fs, f ∈ s.conn.pendingFunctors)
    (hret : ∀ early, s.early = some early → early <+: s.sent ++ [message] ++ messages fs) :
    ∃ s', System.sendInLoop { s with conn := { s.conn with pendingFunctors := fs } } message message w =
      .ok s' ∧ Inv s' := by
  obtain ⟨hfits, hpipe, hreset⟩ := hw
  obtain ⟨c', hc', hsends⟩ := sendInLoop_sends (c := { s.conn with pendingFunctors := fs })
    h.wf h.busy h.up hfits
  obtain ⟨c'', hc'', hwf, hlife, hstream⟩ :=
    sendInLoop_spec (c := { s.conn with pendingFunctors := fs }) h.wf hfits
  obtain rfl : c' = c'' := Except.ok.inj (hc'.symm.trans hc'')
  obtain ⟨gs, hgs, hm, hn⟩ := hsends.functors
  have hsame : messages c'.pendingFunctors = messages fs := by
    rw [hgs, messages_append, hm, List.append_nil]
  refine ⟨_, System.sendInLoop_ok hc', hwf, hsends.busy, ?_, fun hidle => ?_, fun m hmem => ?_,
    fun early hearly => ?_, fun hnone => ⟨?_, (h.before hnone).2⟩, fun hclosed => ?_, ?_⟩
  · exact hlife.state.trans h.state
  · -- the channel was idle before, so everything in front of the message is written
    have hwas : s.conn.channel.isWriting = false := by
      by_contra hon
      rw [hsends.stays (by simpa using hon)] at hidle
      cases hidle
    have hempty : s.conn.outputBuffer.readable = [] := by
      by_contra hne
      rw [h.busy.2 hne] at hwas
      cases hwas
    have hempty' : c'.outputBuffer.readable = [] := by
      by_contra hne
      rw [hsends.busy.2 hne] at hidle
      cases hidle
    have hall := hstream h.up hpipe hreset
    dsimp only at hall
    rw [hempty, hempty', List.append_nil, List.append_nil, h.written hwas] at hall
    show c'.accepted = (s.sent ++ [message]).flatten
    rw [hall, List.flatten_append, List.flatten_singleton]
  · dsimp only at hmem
    rw [hsame] at hmem
    refine h.clean m (List.mem_append.2 ((List.mem_append.1 hmem).imp_right fun hm => ?_))
    exact mem_messages.2 (hfs _ (mem_messages.1 hm))
  · show early <+: s.sent ++ [message] ++ messages c'.pendingFunctors
    rw [hsame]
    exact hret early hearly
  · show .shutdownInLoop ∉ c'.pendingFunctors
    rw [hgs, List.mem_append]
    rintro (hmem | hmem)
    · exact (h.before hnone).1 (hfs _ hmem)
    · exact hn hmem
  · rw [hsends.half] at hclosed
    exact absurd hclosed (by rw [hopen]; decide)
  · show (s.lateWrite || s.conn.writeHalfClosed && _) = false
    rw [h.late, hopen]
    rfl

/-- `shutdownInLoop` runs and returns, with the functors `fs` behind it. -/
theorem Inv.halfClosed (h : Inv s) {conn : TcpConnection} {early : List Bytes} {fs : List Functor}
    (hconn : conn = { s.conn with state := .kDisconnecting, pendingFunctors := fs })
    (hfs : ∀ f ∈ fs, f ∈ s.conn.pendingFunctors)
    (hearly : early <+: s.sent ++ messages fs)
    (hsettled : s.conn.channel.isWriting = false → Settled s fs) :
    Inv { s with conn := conn.halfClosed, early := some early } := by
  have hclean : ∀ m ∈ s.testing ++ messages fs, 0 ∉ m := fun m hmem =>
    h.clean m (List.mem_append.2 ((List.mem_append.1 hmem).imp_right fun hm =>
      mem_messages.2 (hfs _ (mem_messages.1 hm))))
  have hahead : ∀ e, some early = some e → e <+: s.sent ++ messages fs := by
    rintro e heq
    obtain rfl := Option.some.inj heq
    exact hearly
  subst hconn
  unfold TcpConnection.halfClosed
  dsimp only
  by_cases hidle : s.conn.channel.isWriting = true
  · rw [if_neg (not_not.2 hidle)]
    refine ⟨h.wf, h.busy, rfl, h.written, hclean, hahead, fun hnone => (by cases hnone), ?_, h.late⟩
    intro hclosed
    have hoff := (h.closed hclosed).2.1
    rw [hidle] at hoff
    cases hoff
  · have hoff : s.conn.channel.isWriting = false := by simpa using hidle
    rw [if_pos hidle]
    exact ⟨h.wf, h.busy, rfl, h.written, hclean, hahead, fun hnone => (by cases hnone),
      fun _ => ⟨rfl, hoff, hsettled hoff⟩, h.late⟩

theorem Inv.send (h : Inv s) {message : Bytes} {w : WriteResult} (ha : Env s (.send message w)) :
    ∃ s', machine.step s (.send message w) = .ok s' ∧ Inv s' := by
  obtain ⟨hstate, hw⟩ := ha
  have hnone := h.early_of_connected hstate
  obtain ⟨s', hs', hI⟩ := h.sendInLoop (h.open_of_none hnone) hw (fun f hf => hf)
    (fun early hearly => by rw [hnone] at hearly; cases hearly)
  refine ⟨s', ?_, hI⟩
  show s.step (.send message w) = _
  rw [System.step, if_pos hstate]
  exact hs'

theorem Inv.functor (h : Inv s) {w : WriteResult} {d : ShutdownResult} (ha : Env s (.functor w d))
    (hC : Ordered s (.functor w d)) : (∃ s', machine.step s (.functor w d) = .ok s' ∧ Inv s') ∨
      machine.step s (.functor w d) = .error .shutdownWrite ∧ d ≠ .success := by
  show (∃ s', s.step (.functor w d) = .ok s' ∧ Inv s') ∨ s.step (.functor w d) = _ ∧ _
  unfold System.step
  unfold Env at ha
  unfold Ordered at hC
  cases hfs : s.conn.pendingFunctors with
  | nil => exact Or.inl ⟨s, rfl, h⟩
  | cons f fs =>
    have hmem : ∀ g ∈ fs, g ∈ s.conn.pendingFunctors := fun g hg => by
      rw [hfs]
      exact List.mem_cons_of_mem f hg
    rw [hfs] at ha hC
    -- a functor that is neither a send nor a shutdown leaves the queue and does nothing else
    have hplain : messages [f] = [] → f ≠ .shutdownInLoop →
        Inv { s with conn := { s.conn with pendingFunctors := fs } } := by
      intro hm hf
      have hsame : messages s.conn.pendingFunctors = messages fs := by
        rw [hfs, ← List.singleton_append, messages_append, hm, List.nil_append]
      have hclean := h.clean
      have hahead := h.ahead
      have hclosed := h.closed
      unfold System.returned at hahead
      unfold Settled at hclosed
      rw [hsame] at hclean hahead hclosed
      exact ⟨h.wf, h.busy, h.state, h.written, hclean, hahead,
        fun hnone => ⟨fun hin => (h.before hnone).1 (hmem _ hin), (h.before hnone).2⟩, hclosed, h.late⟩
    cases f with
    | sendInLoop message =>
      have hclean : 0 ∉ message := h.clean message (List.mem_append_right _
        (mem_messages.2 (by rw [hfs]; exact List.mem_cons_self)))
      have hstr : cString message = message := cString_eq_self_iff.2 hclean
      have hopen : s.conn.writeHalfClosed = false := by
        by_contra hclosed
        have hnil := (h.closed (by simpa using hclosed)).2.2.1
        rw [hfs] at hnil
        cases hnil
      dsimp only
      have hw : Answers (cString message).length w := ha
      rw [hstr] at hw ⊢
      refine Or.inl (h.sendInLoop hopen hw hmem fun early hearly => ?_)
      have hprefix := h.ahead early hearly
      rw [System.returned, hfs] at hprefix
      rw [List.append_assoc]
      exact hprefix
    | shutdownInLoop =>
      have hcalled : s.early ≠ none := fun hnone => (h.before hnone).1 (by rw [hfs]; simp)
      obtain ⟨early, hearly⟩ := Option.ne_none_iff_exists'.1 hcalled
      have hstate : s.conn.state = .kDisconnecting := by
        rw [h.state, hearly]
        rfl
      have hprefix := h.ahead early hearly
      rw [System.returned, hfs] at hprefix
      have hconn : { s.conn with pendingFunctors := fs } =
          { s.conn with state := .kDisconnecting, pendingFunctors := fs } := by rw [← hstate]
      have hinv := h.halfClosed hconn hmem hprefix hC
      rw [← hearly] at hinv
      dsimp only
      rcases shutdownInLoop_cases { s.conn with pendingFunctors := fs } d with hok | ⟨hfault, hd⟩
      · rw [hok]
        exact Or.inl ⟨_, rfl, hinv⟩
      · rw [hfault]
        exact Or.inr ⟨rfl, hd⟩
    | forceCloseInLoop => exact Or.inl ⟨_, rfl, hplain rfl (by decide)⟩
    | writeComplete => exact Or.inl ⟨_, rfl, hplain rfl (by decide)⟩
    | highWaterMark len => exact Or.inl ⟨_, rfl, hplain rfl (by simp)⟩
    | setCloseCallback => exact Or.inl ⟨_, rfl, hplain rfl (by decide)⟩

theorem Inv.handleWrite (h : Inv s) (w : WriteResult) (d : ShutdownResult) :
    ∃ s', machine.step s (.handleWrite w d) = .ok s' ∧ Inv s' := by
  obtain ⟨b, accepted, hc', hwf, hread, hacc⟩ := handleWrite_busy h.wf h.busy w d
  refine ⟨{ s with
    conn := { s.conn with outputBuffer := b, accepted := accepted }
    lateWrite := s.late s.conn.channel.isWriting }, ?_, hwf, ?_, h.state, fun hidle => ?_, h.clean,
    h.ahead, h.before, h.closed, ?_⟩
  · show s.step (.handleWrite w d) = _
    rw [System.step, hc']
    rfl
  · show s.conn.channel.isWriting = true ↔ b.readable ≠ []
    rw [hread]
    exact h.busy
  · show accepted = _
    rw [hacc hidle]
    exact h.written hidle
  · show (s.lateWrite || s.conn.writeHalfClosed && s.conn.channel.isWriting) = false
    rw [h.late]
    cases hclosed : s.conn.writeHalfClosed with
    | false => rfl
    | true =>
      rw [(h.closed hclosed).2.1]
      rfl

theorem Inv.shutdown (h : Inv s) {d : ShutdownResult} (ha : Env s (.shutdown d))
    (hC : Ordered s (.shutdown d)) : (∃ s', machine.step s (.shutdown d) = .ok s' ∧ Inv s') ∨
      machine.step s (.shutdown d) = .error .shutdownWrite ∧ d ≠ .success := by
  have hstate : s.conn.state = .kConnected := by
    rw [h.state, show s.early = none from ha]
    rfl
  have hstep : machine.step s (.shutdown d) = (s.conn.shutdown true d >>= fun conn =>
      .ok { s with conn := conn, early := some s.returned }) := rfl
  have hmem : ∀ f ∈ s.conn.pendingFunctors, f ∈ s.conn.pendingFunctors := fun f hf => hf
  have hinv := h.halfClosed rfl hmem (List.prefix_refl _) hC
  rw [hstep]
  rcases shutdown_cases s.conn d with hok | ⟨hfault, hd⟩
  · rw [hok, shutDown, if_pos hstate]
    exact Or.inl ⟨_, rfl, hinv⟩
  · rw [hfault]
    exact Or.inr ⟨rfl, hd⟩

theorem Inv.testSend (h : Inv s) {message : Bytes} (ha : Env s (.testSend message))
    (hC : Ordered s (.testSend message)) :
    ∃ s', machine.step s (.testSend message) = .ok s' ∧ Inv s' := by
  refine ⟨_, rfl, h.wf, h.busy, h.state, h.written, fun m hm => ?_, h.ahead, h.before,
    fun hclosed => ?_, h.late⟩
  · rcases List.mem_append.1 hm with hm | hm
    · rcases List.mem_append.1 hm with hm | hm
      · exact h.clean m (List.mem_append_left _ hm)
      · obtain rfl := List.mem_singleton.1 hm
        exact hC
    · exact h.clean m (List.mem_append_right _ hm)
  · rw [h.open_of_none (h.early_of_connected ha)] at hclosed
    cases hclosed

theorem Inv.queueSend (h : Inv s) {i : ℕ} (ha : Env s (.queueSend i)) :
    ∃ s', machine.step s (.queueSend i) = .ok s' ∧ Inv s' := by
  have hlt : i < s.testing.length := ha
  obtain ⟨message, hget⟩ : ∃ m, s.testing[i]? = some m := ⟨_, List.getElem?_eq_getElem hlt⟩
  have hstep : machine.step s (.queueSend i) = .ok { s with
      testing := s.testing.eraseIdx i, conn := s.conn.queueInLoop (.sendInLoop message) } := by
    show s.step (.queueSend i) = _
    rw [System.step, hget]
    rfl
  refine ⟨_, hstep, h.wf, h.busy, h.state, h.written, fun m hm => ?_, fun early hearly => ?_,
    fun hnone => ⟨?_, (h.before hnone).2⟩, fun hclosed => ?_, h.late⟩
  · refine h.clean m (List.mem_append.2 ?_)
    dsimp only [queueInLoop] at hm
    rw [messages_append] at hm
    rcases List.mem_append.1 hm with hm | hm
    · exact Or.inl (List.mem_of_mem_eraseIdx hm)
    · rcases List.mem_append.1 hm with hm | hm
      · exact Or.inr hm
      · obtain rfl := List.mem_singleton.1 hm
        exact Or.inl (List.mem_of_getElem? hget)
  · obtain ⟨rest, hrest⟩ := h.ahead early hearly
    refine ⟨rest ++ [message], ?_⟩
    dsimp only [System.returned, queueInLoop]
    rw [messages_append, ← List.append_assoc, hrest, System.returned, List.append_assoc]
    rfl
  · dsimp only [queueInLoop]
    rw [List.mem_append]
    rintro (hin | hin)
    · exact (h.before hnone).1 hin
    · cases List.mem_singleton.1 hin
  · have hnil := (h.closed hclosed).2.2.2
    rw [hnil] at hlt
    exact absurd hlt (Nat.not_lt_zero i)

theorem Inv.beginShutdown (h : Inv s) (ha : Env s .beginShutdown) :
    ∃ s', machine.step s .beginShutdown = .ok s' ∧ Inv s' := by
  refine ⟨_, rfl, h.wf, h.busy, rfl, h.written, h.clean, fun early hearly => ?_,
    fun hnone => (by cases hnone), fun hclosed => ?_, h.late⟩
  · obtain rfl := Option.some.inj hearly
    exact List.prefix_refl _
  · rw [h.open_of_none ha] at hclosed
    cases hclosed

theorem Inv.queueShutdown (h : Inv s) (ha : Env s .queueShutdown) :
    ∃ s', machine.step s .queueShutdown = .ok s' ∧ Inv s' := by
  have hsame : messages (s.conn.pendingFunctors ++ [.shutdownInLoop]) =
      messages s.conn.pendingFunctors := by
    rw [messages_append]
    exact List.append_nil _
  have hclean := h.clean
  have hahead := h.ahead
  have hclosed := h.closed
  unfold System.returned at hahead
  unfold Settled at hclosed
  rw [← hsame] at hclean hahead hclosed
  refine ⟨_, rfl, h.wf, h.busy, h.state, h.written, hclean, hahead, fun hnone => ?_, hclosed, h.late⟩
  have hoff := (h.before hnone).2
  rw [show s.shutting = true from ha] at hoff
  cases hoff

theorem Inv.step (h : Inv s) {a : Action} (ha : Env s a) (hC : Ordered s a) :
    (∃ s', machine.step s a = .ok s' ∧ Inv s') ∨
      machine.step s a = .error .shutdownWrite ∧ ¬ a.Succeeds := by
  cases a with
  | send message w => exact Or.inl (h.send ha)
  | shutdown d => exact h.shutdown ha hC
  | functor w d => exact h.functor ha hC
  | handleWrite w d => exact Or.inl (h.handleWrite w d)
  | testSend message => exact Or.inl (h.testSend ha hC)
  | queueSend i => exact Or.inl (h.queueSend ha)
  | beginShutdown => exact Or.inl (h.beginShutdown ha)
  | queueShutdown => exact Or.inl (h.queueShutdown ha)

/-- In runs in which `shutdownInLoop` finds the channel writing or no send under way, and the
messages from other threads have no NUL, all that was sent before `shutdown` is written before the
write half is shut down, and nothing after that.  The one assertion that can fail is that on the
outcome of `shutdown(2)`. -/
theorem half_close_after_data {c : TcpConnection} (hc : Fresh c) (as : List Action)
    (hE : machine.Along Env (init c) as) (hC : machine.Along Ordered (init c) as) :
    (∀ f, machine.run (init c) as = .error f → f = .shutdownWrite ∧ ∃ a ∈ as, ¬ a.Succeeds) ∧
      machine.Always Proper (init c) as := by
  have hboth := Machine.along_and.2 ⟨hE, hC⟩
  obtain ⟨hfault, hI⟩ := Machine.fault_always_of_along (M := machine)
    (fun s a (hs : Inv s) ha => hs.step ha.1 ha.2) hc.inv hboth
  exact ⟨hfault, hI.mono fun s hs => hs.proper⟩

/-- A connected connection, with a `writeCompleteCallback_`. -/
def connected : TcpConnection :=
  { new 7 true false 64 with state := .kConnected, channel := (Channel.new 7).enableReading }

theorem fresh_connected : Fresh connected :=
  ⟨rfl, Buffer.wf_empty, Buffer.readable_empty, by decide, rfl, rfl, rfl⟩

/-- Another thread sends and shuts down; the loop sends in between. -/
theorem half_close_after_two_sends :
    machine.Always Proper (init connected) [.testSend [1, 2], .queueSend 0, .send [3] (.wrote 1),
      .beginShutdown, .queueShutdown, .functor (.wrote 2) .success, .functor (.wrote 0) .success,
      .functor (.wrote 0) .success] :=
  (half_close_after_data fresh_connected _ (by decide +kernel) (by decide +kernel)).2

/-- Another thread's message is still queued when the loop's thread calls `shutdown`. -/
theorem half_close_before_data :
    ¬ ∀ (c : TcpConnection) (as : List Action), Fresh c → machine.Along Env (init c) as →
      machine.Always Proper (init c) as := by
  intro h
  have hrun := h connected [.testSend [1], .queueSend 0, .shutdown .success] fresh_connected (by decide +kernel)
  obtain ⟨-, hrun⟩ := hrun
  obtain ⟨-, hrun⟩ := hrun _ rfl
  obtain ⟨-, hrun⟩ := hrun _ rfl
  obtain ⟨-, hclosed⟩ := hrun _ rfl
  obtain ⟨early, hearly, hprefix⟩ := hclosed (by decide +kernel)
  obtain rfl : [[1]] = early := Option.some.inj hearly
  have hle := hprefix.length_le
  revert hle
  decide +kernel

end HalfClose

end TcpConnection

end Reactor
