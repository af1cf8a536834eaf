import Reactor.Connector
import Reactor.Lib.Machine

/-!
# One attempt at a time

A client on its loop: user calls, events of the connecting channel and of the connection, retry
timers, and the queue.  The loop goes in rounds: it polls, handles what is active, and then runs the
functors that were queued by then.

A retry timer is not cancelled, and `stop` and the reset of the channel take effect later, so that a
`connect()` that comes while one of them is outstanding finds the connector in a state its assertions
forbid.  `state_` also stays `kConnected` when a connection ends without a retry.

* `one_attempt`: no assertion fails, and there is one attempt at most, exactly in the runs where
  `connect()` is called when the connector is disconnected and adds nothing to a retry timer that is
  outstanding, and no attempt gets under way before the channel of the last one is reset.  That
  `restart()` finds the channel reset is due to the order of the queue.
-/

namespace Reactor

namespace TcpClient

/-- Where the loop is in its round: `functors n` has `n` functors of the queue still to run. -/
inductive Phase where
  | handling
  | functors (n : ℕ)
  deriving DecidableEq, Repr

/-- `polled` says that the connection was there when the loop polled. -/
structure System where
  client : TcpClient
  phase : Phase
  polled : Bool
  deriving DecidableEq, Repr

inductive Action where
  | enableRetry
  | connect (errno : ConnectErrno)
  | disconnect
  | stop
  | forceClose
  -- the connecting channel has an event: `POLLERR`, `POLLOUT` or both
  | event (error write : Bool) (o : SocketOutcome)
  -- the connection closes in its event
  | close (errno : ConnectErrno)
  | timer (errno : ConnectErrno)
  | poll
  | handled
  | functor (errno : ConnectErrno)
  deriving DecidableEq, Repr

namespace System

def connector (s : System) : Connector := s.client.connector

def setConnector (s : System) (c : Connector) : System :=
  { s with client := { s.client with connector := c } }

/-- `handleClose` of the connection, which ends in `removeConnection`. -/
def close (s : System) (conn : ℕ) (errno : ConnectErrno) : Except Fault System := do
  return { s with client := ← s.client.removeConnection conn errno, polled := false }

def handleError (s : System) : Except Fault System := do
  return s.setConnector (← s.connector.handleError)

/-- `handleWrite`, with what `newConnectionCallback_` does. -/
def handleWrite (s : System) (o : SocketOutcome) : Except Fault System := do
  let (connected, c) ← s.connector.handleWrite o
  let s := s.setConnector c
  return if connected then { s with client := s.client.newConnection } else s

def runFunctor (s : System) (errno : ConnectErrno) : Connector.Functor → Except Fault System
  | .stopInLoop => return s.setConnector (← s.connector.stopInLoop)
  | .resetChannel => return s.setConnector s.connector.resetChannel
  | .forceCloseInLoop conn => if s.client.connection = some conn then s.close conn errno else return s

def step (s : System) : Action → Except Fault System
  | .enableRetry => return { s with client := s.client.enableRetry }
  | .connect errno => return { s with client := ← s.client.connect errno }
  | .disconnect => return { s with client := s.client.disconnect }
  | .stop => return { s with client := s.client.stop }
  | .forceClose =>
    match s.client.connection with
    | some conn => return s.setConnector (s.connector.queueInLoop (.forceCloseInLoop conn))
    | none => return s
  | .event error write o => do
    -- `handleEventWithGuard` calls the error callback first
    let s ← (if error then s.handleError else pure s)
    if write then s.handleWrite o else return s
  | .close errno =>
    match s.client.connection with
    | some conn => s.close conn errno
    | none => return s
  | .timer errno =>
    let c := { s.connector with retryTimers := s.connector.retryTimers - 1 }
    return s.setConnector (← c.startInLoop errno)
  | .poll => return { s with phase := .handling, polled := s.client.connection.isSome }
  | .handled => return { s with phase := .functors s.connector.pendingFunctors.length }
  | .functor errno =>
    match s.phase, s.connector.pendingFunctors with
    | .functors (n + 1), f :: fs =>
      let c := { s.connector with pendingFunctors := fs }
      { s with phase := .functors n }.setConnector c |>.runFunctor errno f
    | _, _ => return s

end System

def machine : Machine System Action Fault := ⟨System.step⟩

/-- A client before the first round of its loop. -/
def System.init : System := ⟨TcpClient.new, .functors 0, false⟩

/-- What happens when: events and timers while the loop handles events, the event of a connection
only if it was there when the loop polled, functors after that.  User code runs at any time. -/
def Env (s : System) : Action → Prop
  | .enableRetry | .connect _ | .disconnect | .stop => True
  | .forceClose => s.client.connection ≠ none
  | .event _ _ _ => s.phase = .handling ∧ s.connector.channel = .registered
  | .close _ => s.phase = .handling ∧ s.polled = true ∧ s.client.connection ≠ none
  | .timer _ => s.phase = .handling ∧ 0 < s.connector.retryTimers
  | .poll => s.phase = .functors 0
  | .handled => s.phase = .handling
  | .functor _ => s.phase ≠ .handling ∧ s.phase ≠ .functors 0

instance (s : System) : ∀ a, Decidable (Env s a)
  | .enableRetry | .connect _ | .disconnect | .stop => isTrue trivial
  | .forceClose => inferInstanceAs (Decidable (_ ≠ _))
  | .event _ _ _ => inferInstanceAs (Decidable (_ ∧ _))
  | .close _ => inferInstanceAs (Decidable (_ ∧ _ ∧ _))
  | .timer _ => inferInstanceAs (Decidable (_ ∧ _))
  | .poll => inferInstanceAs (Decidable (_ = _))
  | .handled => inferInstanceAs (Decidable (_ = _))
  | .functor _ => inferInstanceAs (Decidable (_ ≠ _ ∧ _ ≠ _))

/-- `connect()` finds the connector disconnected, it does not add an attempt or a timer to a timer
that is outstanding, and an attempt gets under way when the channel of the last one is reset. -/
def InOrder (s : System) : Action → Prop
  | .connect errno => s.connector.state = .kDisconnected ∧
      (errno.underWay = true ∨ errno.retried = true → s.connector.retryTimers = 0) ∧
      (errno.underWay = true → s.connector.channel = .null)
  | .timer errno => s.connector.connect_ = true → errno.underWay = true → s.connector.channel = .null
  | .enableRetry | .disconnect | .stop | .forceClose | .event _ _ _ | .close _ | .poll | .handled
  | .functor _ => True

instance (s : System) : ∀ a, Decidable (InOrder s a)
  | .connect _ => inferInstanceAs (Decidable (_ ∧ (_ → _) ∧ (_ → _)))
  | .timer _ => inferInstanceAs (Decidable (_ → _ → _))
  | .enableRetry | .disconnect | .stop | .forceClose | .event _ _ _ | .close _ | .poll | .handled
  | .functor _ => isTrue trivial

/-- Of a retry timer, a connecting channel and a connection there is one at most. -/
def OneAttempt (s : System) : Prop :=
  s.connector.retryTimers + (if s.connector.channel = .registered then 1 else 0) +
    (if s.client.connection = none then 0 else 1) ≤ 1

end TcpClient

/-! ## The connector -/

namespace Connector

/-- The channel is watched while connecting, a channel that was removed waits for its reset, and at
most one retry timer is outstanding, of a connector that is disconnected. -/
structure Inv (c : Connector) : Prop where
  registered : c.state = .kConnecting ↔ c.channel = .registered
  resets : c.pendingFunctors.count .resetChannel = if c.channel = .removed then 1 else 0
  timers : c.retryTimers ≤ 1
  waiting : 0 < c.retryTimers → c.state = .kDisconnected

variable {c : Connector}

theorem Inv.timers_eq_zero (h : Inv c) (hs : c.state ≠ .kDisconnected) : c.retryTimers = 0 := by
  by_contra ht
  exact hs (h.waiting (Nat.pos_of_ne_zero ht))

theorem Inv.retry (h : Inv c) (ht : c.retryTimers = 0) (hc : c.channel ≠ .registered) :
    Inv c.retry := by
  unfold Connector.retry
  dsimp only
  split_ifs with hconn
  · exact ⟨by simp [hc], h.resets, by simp [ht], fun _ => rfl⟩
  · exact ⟨by simp [hc], h.resets, h.timers, fun _ => rfl⟩

@[simp] theorem retry_pendingFunctors : c.retry.pendingFunctors = c.pendingFunctors := by
  unfold retry
  dsimp only
  split_ifs <;> rfl

@[simp] theorem retry_state : c.retry.state = .kDisconnected := by
  unfold retry
  dsimp only
  split_ifs <;> rfl

theorem Inv.connecting (h : Inv c) (hn : c.channel = .null) (ht : c.retryTimers = 0) :
    ∃ c', c.connecting = .ok c' ∧ Inv c' ∧ c'.pendingFunctors = c.pendingFunctors := by
  refine ⟨{ c with state := .kConnecting, channel := .registered }, ?_, ⟨?_, ?_, h.timers, ?_⟩, rfl⟩
  · unfold Connector.connecting
    dsimp only
    rw [check_of hn]
    rfl
  · exact ⟨fun _ => rfl, fun _ => rfl⟩
  · rw [h.resets, hn]
    rfl
  · intro hpos
    exact absurd ht (Nat.ne_of_gt hpos)

/-- An attempt leaves the queue as it is. -/
theorem Inv.connect (h : Inv c) (hs : c.state = .kDisconnected) {errno : ConnectErrno}
    (ht : errno.underWay = true ∨ errno.retried = true → c.retryTimers = 0)
    (hn : errno.underWay = true → c.channel = .null) :
    ∃ c', c.connect errno = .ok c' ∧ Inv c' ∧ c'.pendingFunctors = c.pendingFunctors := by
  have hc : c.channel ≠ .registered := fun hc => by simp [h.registered.2 hc] at hs
  cases errno with
  | success | EINPROGRESS | EINTR | EISCONN => exact h.connecting (hn rfl) (ht (.inl rfl))
  | EAGAIN | EADDRINUSE | EADDRNOTAVAIL | ECONNREFUSED | ENETUNREACH =>
    exact ⟨c.retry, rfl, h.retry (ht (.inr rfl)) hc, retry_pendingFunctors⟩
  | EACCES | EPERM | EAFNOSUPPORT | EALREADY | EBADF | EFAULT | ENOTSOCK | other =>
    exact ⟨c, rfl, h, rfl⟩

theorem Inv.startInLoop (h : Inv c) (errno : ConnectErrno) (hs : c.state = .kDisconnected)
    (ht : c.connect_ = true → errno.underWay = true ∨ errno.retried = true → c.retryTimers = 0)
    (hn : c.connect_ = true → errno.underWay = true → c.channel = .null) :
    ∃ c', c.startInLoop errno = .ok c' ∧ Inv c' ∧ c'.pendingFunctors = c.pendingFunctors := by
  unfold Connector.startInLoop
  rw [check_of hs, ok_bind]
  split_ifs with hconn
  · exact h.connect hs (ht hconn) (hn hconn)
  · exact ⟨c, rfl, h, rfl⟩

theorem Inv.removeAndResetChannel (h : Inv c) (hs : c.state = .kConnecting) :
    c.removeAndResetChannel = .ok ({ c with channel := .removed }.queueInLoop .resetChannel) := by
  unfold Connector.removeAndResetChannel
  rw [check_of (by rw [h.registered.1 hs]; decide)]
  rfl

/-- The attempt is over, and the connector is in one of the other states. -/
theorem Inv.over (h : Inv c) (hs : c.state = .kConnecting) (state : States)
    (hne : state ≠ .kConnecting) :
    Inv { { c with channel := .removed }.queueInLoop .resetChannel with state := state } := by
  have ht : c.retryTimers = 0 := h.timers_eq_zero (by rw [hs]; decide)
  have hcount : c.pendingFunctors.count .resetChannel = 0 := by
    rw [h.resets, h.registered.1 hs]
    rfl
  refine ⟨by simp [queueInLoop, hne], ?_, h.timers, fun hpos => absurd ht (Nat.ne_of_gt hpos)⟩
  simp [queueInLoop, hcount]

/-- What happens to the queue and the state when an attempt is given up. -/
structure GaveUp (c c' : Connector) : Prop where
  inv : Inv c'
  state : c'.state = .kDisconnected
  pendingFunctors : c'.pendingFunctors = c.pendingFunctors ++ [.resetChannel]

theorem Inv.gaveUp (h : Inv c) (hs : c.state = .kConnecting) :
    GaveUp c ({ c with channel := .removed }.queueInLoop .resetChannel).retry := by
  refine ⟨?_, retry_state, retry_pendingFunctors⟩
  have ht : c.retryTimers = 0 := h.timers_eq_zero (by rw [hs]; decide)
  exact (h.over hs .kDisconnected (by decide)).retry ht (by simp [queueInLoop])

theorem Inv.handleError (h : Inv c) (hs : c.state = .kConnecting) :
    ∃ c', c.handleError = .ok c' ∧ GaveUp c c' := by
  unfold Connector.handleError
  rw [if_pos hs, h.removeAndResetChannel hs]
  exact ⟨_, rfl, h.gaveUp hs⟩

theorem Inv.stopInLoop (h : Inv c) (hs : c.state = .kConnecting) :
    ∃ c', c.stopInLoop = .ok c' ∧ GaveUp c c' := by
  have hchannel : c.channel ≠ .null := by
    rw [h.registered.1 hs]
    decide
  unfold Connector.stopInLoop Connector.removeAndResetChannel
  rw [if_pos hs, check_of hchannel]
  exact ⟨_, rfl, h.gaveUp hs⟩

theorem Inv.handleWrite (h : Inv c) (hs : c.state = .kConnecting) (o : SocketOutcome) :
    ∃ b c', c.handleWrite o = .ok (b, c') ∧ Inv c' ∧ (b = true → c'.state = .kConnected) ∧
      c'.pendingFunctors = c.pendingFunctors ++ [.resetChannel] := by
  unfold Connector.handleWrite
  rw [if_pos hs, h.removeAndResetChannel hs, ok_bind]
  cases o with
  | error | selfConnect =>
    have hg := h.gaveUp hs
    exact ⟨false, _, rfl, hg.inv, fun hb => (by cases hb), hg.pendingFunctors⟩
  | connected => exact ⟨c.connect_, _, rfl, h.over hs .kConnected (by decide), fun _ => rfl, rfl⟩

/-! What an attempt that returns says about the state it was made in. -/

theorem of_startInLoop {c' : Connector} {errno : ConnectErrno} (h : c.startInLoop errno = .ok c') :
    c.state = .kDisconnected ∧ (c.connect_ = true → c.connect errno = .ok c') := by
  obtain ⟨hs, h'⟩ := check_bind_eq_ok.1 h
  refine ⟨hs, fun hconn => ?_⟩
  rwa [if_pos hconn] at h'

theorem of_connect_underWay {c' : Connector} {errno : ConnectErrno} (hu : errno.underWay = true)
    (h : c.connect errno = .ok c') :
    c.channel = .null ∧ c' = { c with state := .kConnecting, channel := .registered } := by
  have hconn : c.connecting = .ok c' := by
    cases errno with
    | success | EINPROGRESS | EINTR | EISCONN => exact h
    | _ => cases hu
  obtain ⟨hn, h'⟩ := check_bind_eq_ok.1 hconn
  exact ⟨hn, (Except.ok.inj h').symm⟩

theorem of_connect_retried {c' : Connector} {errno : ConnectErrno} (hr : errno.retried = true)
    (h : c.connect errno = .ok c') : c' = c.retry := by
  cases errno with
  | EAGAIN | EADDRINUSE | EADDRNOTAVAIL | ECONNREFUSED | ENETUNREACH => exact (Except.ok.inj h).symm
  | _ => cases hr

/-- The callback of a channel that was given up in the same event. -/
theorem handleWrite_of_disconnected (hs : c.state = .kDisconnected) (o : SocketOutcome) :
    c.handleWrite o = .ok (false, c) := by
  unfold handleWrite
  rw [if_neg (by rw [hs]; decide), check_of hs]
  rfl

end Connector

/-! ## The client on its loop -/

namespace TcpClient

open Connector (Functor)

/-- The reset of the channel comes before the next event of the connection. -/
def System.Awaited (s : System) : Prop :=
  match s.phase with
  | .handling => s.polled = false
  | .functors n => Functor.resetChannel ∈ s.connector.pendingFunctors.take n

/-- While a connection is up, the connector is connected, and the reset of the channel it came from is
ahead of everything that can close it: of its events and of the `forceCloseInLoop` in the queue. -/
structure Inv (s : System) : Prop where
  connector : s.connector.Inv
  ids : ∀ conn, s.client.connection = some conn ∨
    Functor.forceCloseInLoop conn ∈ s.connector.pendingFunctors → conn < s.client.nextConnId
  live : s.client.connection ≠ none → s.connector.state = .kConnected
  polled : s.polled = true → s.client.connection ≠ none
  order : ∀ conn, s.client.connection = some conn →
    s.connector.pendingFunctors.Pairwise fun f g => f = .forceCloseInLoop conn → g ≠ .resetChannel
  reset : s.client.connection ≠ none → s.connector.channel = .removed → s.Awaited

variable {s : System}

theorem awaited_handling (hp : s.phase = .handling) : s.Awaited ↔ s.polled = false := by
  simp only [System.Awaited, hp]

theorem awaited_functors {n : ℕ} (hp : s.phase = .functors n) :
    s.Awaited ↔ Functor.resetChannel ∈ s.connector.pendingFunctors.take n := by
  simp only [System.Awaited, hp]

theorem Inv.oneAttempt (h : Inv s) : OneAttempt s := by
  have ht := h.connector.timers
  unfold OneAttempt
  by_cases hpos : 0 < s.connector.retryTimers
  · have hs := h.connector.waiting hpos
    have hc : s.connector.channel ≠ .registered := fun hc => by simp [h.connector.registered.2 hc] at hs
    have hn : s.client.connection = none := by
      by_contra hn
      simp [h.live hn] at hs
    rw [if_neg hc, if_pos hn]
    omega
  · by_cases hn : s.client.connection = none
    · rw [if_pos hn]
      split_ifs <;> omega
    · have hc : s.connector.channel ≠ .registered := fun hc => by
        simpa [h.connector.registered.2 hc] using h.live hn
      rw [if_neg hc, if_neg hn]
      omega

theorem Inv.idle (h : Inv s) (hs : s.connector.state ≠ .kConnected) : s.client.connection = none := by
  by_contra hn
  exact hs (h.live hn)

theorem Inv.not_polled (h : Inv s) (hn : s.client.connection = none) : s.polled = false := by
  cases hp : s.polled with
  | false => rfl
  | true => exact absurd hn (h.polled hp)

/-- Without a connection it is the connector alone that counts. -/
theorem Inv.of_idle {s' : System} (h : Inv s) (hc : s'.connector.Inv)
    (hn : s'.client.connection = none) (hp : s'.polled = false)
    (hid : s'.client.nextConnId = s.client.nextConnId)
    (hq : s'.connector.pendingFunctors = s.connector.pendingFunctors ∨
      s'.connector.pendingFunctors = s.connector.pendingFunctors ++ [.resetChannel]) : Inv s' where
  connector := hc
  ids conn hconn := by
    have hmem : Functor.forceCloseInLoop conn ∈ s'.connector.pendingFunctors :=
      hconn.resolve_left (by simp [hn])
    rw [hid]
    refine h.ids conn (.inr ?_)
    rcases hq with hq | hq
    · rwa [hq] at hmem
    · simpa [hq] using hmem
  live hne := absurd hn hne
  polled ht := by simp [hp] at ht
  order conn hconn := by simp [hn] at hconn
  reset hne := absurd hn hne

/-- A functor that is not a reset joins the queue. -/
theorem Inv.queueInLoop (h : Inv s) {f : Functor} (hf : f ≠ .resetChannel)
    (hid : ∀ conn, f = .forceCloseInLoop conn → s.client.connection = some conn) :
    Inv (s.setConnector (s.connector.queueInLoop f)) where
  connector := by
    refine ⟨h.connector.registered, ?_, h.connector.timers, h.connector.waiting⟩
    have hcount : (s.connector.pendingFunctors ++ [f]).count .resetChannel =
        s.connector.pendingFunctors.count .resetChannel := by
      rw [List.count_append, List.count_eq_zero_of_not_mem (l := [f]) (by simpa using hf.symm),
        Nat.add_zero]
    exact hcount.trans h.connector.resets
  ids conn hconn := by
    refine h.ids conn ?_
    rcases hconn with hconn | hmem
    · exact .inl hconn
    · rcases List.mem_append.1 hmem with hmem | hmem
      · exact .inr hmem
      · exact .inl (hid conn (List.mem_singleton.1 hmem).symm)
  live := h.live
  polled := h.polled
  order conn hconn := by
    refine List.pairwise_append.2 ⟨h.order conn hconn, List.pairwise_singleton _ _, ?_⟩
    intro f' _ g hg _
    rw [List.mem_singleton.1 hg]
    exact hf
  reset hne hr := by
    have ha := h.reset hne hr
    cases hp : s.phase with
    | handling =>
      refine (awaited_handling ?_).2 ((awaited_handling hp).1 ha)
      exact hp
    | functors n =>
      refine (awaited_functors (n := n) ?_).2 ?_
      · exact hp
      change Functor.resetChannel ∈ (s.connector.pendingFunctors ++ [f]).take n
      rw [List.take_append]
      exact List.mem_append_left _ ((awaited_functors hp).1 ha)

/-- The state in which the loop runs the functor at the head of the queue. -/
def System.popped (s : System) (n : ℕ) (fs : List Functor) : System :=
  { s with phase := .functors n }.setConnector { s.connector with pendingFunctors := fs }

theorem Inv.popped (h : Inv s) {n : ℕ} {f : Functor} {fs : List Functor}
    (hp : s.phase = .functors (n + 1)) (hq : s.connector.pendingFunctors = f :: fs)
    (hf : f ≠ .resetChannel) : Inv (s.popped n fs) where
  connector := by
    refine ⟨h.connector.registered, ?_, h.connector.timers, h.connector.waiting⟩
    have hresets := h.connector.resets
    rw [hq, List.count_cons_of_ne hf] at hresets
    exact hresets
  ids conn hconn := by
    refine h.ids conn (hconn.imp_right fun hmem => ?_)
    rw [hq]
    exact List.mem_cons_of_mem f hmem
  live := h.live
  polled := h.polled
  order conn hconn := by
    have horder := h.order conn hconn
    rw [hq] at horder
    exact (List.pairwise_cons.1 horder).2
  reset hne hr := by
    have ha := (awaited_functors hp).1 (h.reset hne hr)
    rw [hq, List.take_succ_cons] at ha
    refine (awaited_functors (s := s.popped n fs) rfl).2 ?_
    exact (List.mem_cons.1 ha).resolve_left hf.symm

/-- The reset of the channel, the only one in the queue. -/
theorem Inv.resetChannel (h : Inv s) {n : ℕ} {fs : List Functor}
    (hq : s.connector.pendingFunctors = .resetChannel :: fs) :
    Inv ((s.popped n fs).setConnector (s.popped n fs).connector.resetChannel) := by
  have hresets := h.connector.resets
  rw [hq, List.count_cons_self] at hresets
  have hr : s.connector.channel = .removed := by
    by_contra hr
    simp [hr] at hresets
  have hcount : fs.count .resetChannel = 0 := by simpa [hr] using hresets
  have hs : s.connector.state ≠ .kConnecting := fun hs => by simp [h.connector.registered.1 hs] at hr
  refine ⟨⟨⟨fun hs' => absurd hs' hs, fun hc => by cases hc⟩, hcount, h.connector.timers,
    h.connector.waiting⟩, fun conn hconn => ?_, h.live, h.polled, fun conn hconn => ?_,
    fun _ hc => by cases hc⟩
  · refine h.ids conn (hconn.imp_right fun hmem => ?_)
    rw [hq]
    exact List.mem_cons_of_mem _ hmem
  · have horder := h.order conn hconn
    rw [hq] at horder
    exact (List.pairwise_cons.1 horder).2

/-- A connection that closes when the channel it came from is reset may be followed by the next
attempt at once. -/
theorem Inv.close (h : Inv s) {conn : ℕ} (hconn : s.client.connection = some conn)
    (hr : s.connector.channel ≠ .removed) (errno : ConnectErrno) :
    ∃ s', s.close conn errno = .ok s' ∧ Inv s' := by
  have hs : s.connector.state = .kConnected := h.live (by simp [hconn])
  have ht : s.connector.retryTimers = 0 := h.connector.timers_eq_zero (by rw [hs]; decide)
  have hreg : s.connector.channel ≠ .registered := fun hreg => by
    simp [h.connector.registered.2 hreg] at hs
  have hnull : s.connector.channel = .null := by
    cases hc : s.connector.channel with
    | null => rfl
    | registered => exact absurd hc hreg
    | removed => exact absurd hc hr
  unfold System.close removeConnection
  rw [check_of hconn, ok_bind]
  dsimp only
  split_ifs with hretry
  · have hinv : Connector.Inv { s.connector with
        state := .kDisconnected, retryDelayMs := Connector.kInitRetryDelayMs, connect_ := true } :=
      ⟨by simp [hreg], h.connector.resets, h.connector.timers, fun _ => rfl⟩
    obtain ⟨c', hstart, hc', hq⟩ := hinv.startInLoop errno rfl (fun _ _ => ht) (fun _ _ => hnull)
    have hrestart : s.client.connector.restart errno = .ok c' := hstart
    rw [hrestart]
    exact ⟨_, rfl, h.of_idle hc' rfl rfl rfl (.inl hq)⟩
  · exact ⟨_, rfl, h.of_idle h.connector rfl rfl rfl (.inl rfl)⟩

theorem Inv.connect (h : Inv s) {errno : ConnectErrno} (hord : InOrder s (.connect errno)) :
    ∃ s', s.step (.connect errno) = .ok s' ∧ Inv s' := by
  obtain ⟨hs, ht, hn⟩ := hord
  have hinv : Connector.Inv { s.connector with connect_ := true } :=
    ⟨h.connector.registered, h.connector.resets, h.connector.timers, h.connector.waiting⟩
  obtain ⟨c', hstart, hc', hq⟩ := hinv.startInLoop errno hs (fun _ => ht) (fun _ => hn)
  have hidle := h.idle (by rw [hs]; decide)
  refine ⟨{ s with client := { s.client with connect_ := true, connector := c' } }, ?_,
    h.of_idle hc' hidle (h.not_polled hidle) rfl (.inl hq)⟩
  have hstart' : s.client.connector.start errno = .ok c' := hstart
  simp only [System.step, TcpClient.connect, hstart']
  rfl

/-- The connector is disconnected when its timer fires, and the timer was the only one. -/
theorem Inv.timer (h : Inv s) {errno : ConnectErrno} (henv : Env s (.timer errno))
    (hord : InOrder s (.timer errno)) : ∃ s', s.step (.timer errno) = .ok s' ∧ Inv s' := by
  obtain ⟨-, hpos⟩ := henv
  have hs := h.connector.waiting hpos
  have ht : s.connector.retryTimers - 1 = 0 := by
    have := h.connector.timers
    omega
  have hinv : Connector.Inv { s.connector with retryTimers := s.connector.retryTimers - 1 } :=
    ⟨h.connector.registered, h.connector.resets, by simp [ht], fun _ => hs⟩
  obtain ⟨c', hstart, hc', hq⟩ := hinv.startInLoop errno hs (fun _ _ => ht) hord
  have hidle := h.idle (by rw [hs]; decide)
  refine ⟨s.setConnector c', ?_, h.of_idle hc' hidle (h.not_polled hidle) rfl (.inl hq)⟩
  simp only [System.step, hstart]
  rfl

/-! ## The events of the connecting channel -/

theorem Inv.gaveUp (h : Inv s) (hs : s.connector.state ≠ .kConnected) {c' : Connector}
    (hg : s.connector.GaveUp c') : Inv (s.setConnector c') := by
  have hidle := h.idle hs
  exact h.of_idle hg.inv hidle (h.not_polled hidle) rfl (.inr hg.pendingFunctors)

theorem Inv.handleError (h : Inv s) (hs : s.connector.state = .kConnecting) :
    ∃ s', s.handleError = .ok s' ∧ Inv s' ∧ s'.connector.state = .kDisconnected := by
  obtain ⟨c', hc', hg⟩ := h.connector.handleError hs
  refine ⟨s.setConnector c', ?_, h.gaveUp (by rw [hs]; decide) hg, hg.state⟩
  simp only [System.handleError, hc']
  rfl

/-- The loop is handling an event, so that the connection is not among the polled ones. -/
theorem Inv.handleWrite (h : Inv s) (hs : s.connector.state = .kConnecting)
    (hp : s.phase = .handling) (o : SocketOutcome) : ∃ s', s.handleWrite o = .ok s' ∧ Inv s' := by
  obtain ⟨b, c', hc', hinv, hstate, hq⟩ := h.connector.handleWrite hs o
  have hidle := h.idle (by rw [hs]; decide)
  have hpolled := h.not_polled hidle
  have hidle' : Inv (s.setConnector c') := h.of_idle hinv hidle hpolled rfl (.inr hq)
  cases b with
  | false =>
    refine ⟨s.setConnector c', ?_, hidle'⟩
    simp only [System.handleWrite, hc']
    rfl
  | true =>
    refine ⟨{ s.setConnector c' with client := (s.setConnector c').client.newConnection }, ?_, ?_⟩
    · simp only [System.handleWrite, hc']
      rfl
    have hids : ∀ conn, Functor.forceCloseInLoop conn ∈ c'.pendingFunctors →
        conn < s.client.nextConnId := fun conn hconn => hidle'.ids conn (.inr hconn)
    refine ⟨hinv, fun conn hconn => ?_, fun _ => hstate rfl, fun ht => ?_, fun conn hconn => ?_,
      fun _ _ => ?_⟩
    · change conn < s.client.nextConnId + 1
      rcases hconn with hconn | hconn
      · exact Option.some.inj hconn ▸ Nat.lt_succ_self _
      · exact Nat.lt_succ_of_lt (hids conn hconn)
    · rw [show s.polled = true from ht] at hpolled
      cases hpolled
    · obtain rfl : s.client.nextConnId = conn := Option.some.inj hconn
      refine List.pairwise_of_forall_mem_list fun f hf g _ hfc => ?_
      rw [hfc] at hf
      exact absurd (hids _ hf) (Nat.lt_irrefl _)
    · refine (awaited_handling ?_).2 hpolled
      exact hp

theorem Inv.event (h : Inv s) {error write : Bool} {o : SocketOutcome}
    (henv : Env s (.event error write o)) :
    ∃ s', s.step (.event error write o) = .ok s' ∧ Inv s' := by
  obtain ⟨hp, hc⟩ := henv
  have hs := h.connector.registered.2 hc
  cases error with
  | false =>
    cases write with
    | false => exact ⟨s, rfl, h⟩
    | true => exact h.handleWrite hs hp o
  | true =>
    obtain ⟨s', hs', hinv, hstate⟩ := h.handleError hs
    refine ⟨s', ?_, hinv⟩
    cases write with
    | false =>
      simp only [System.step, if_true, hs']
      rfl
    | true =>
      simp only [System.step, if_true, hs', ok_bind, System.handleWrite,
        Connector.handleWrite_of_disconnected hstate o]
      rfl

/-! ## The rounds of the loop -/

theorem Inv.poll (h : Inv s) (henv : Env s .poll) : ∃ s', s.step .poll = .ok s' ∧ Inv s' := by
  refine ⟨_, rfl, ⟨h.connector, h.ids, h.live, fun hp => ?_, h.order, fun hne hr => ?_⟩⟩
  · exact Option.isSome_iff_ne_none.1 hp
  · have ha := (awaited_functors henv).1 (h.reset hne hr)
    cases ha

theorem Inv.handled (h : Inv s) : ∃ s', s.step .handled = .ok s' ∧ Inv s' := by
  refine ⟨_, rfl, ⟨h.connector, h.ids, h.live, h.polled, h.order, fun _ hr => ?_⟩⟩
  refine (awaited_functors (n := s.connector.pendingFunctors.length) rfl).2 ?_
  change Functor.resetChannel ∈ s.connector.pendingFunctors.take s.connector.pendingFunctors.length
  rw [List.take_length]
  have hcount : s.connector.pendingFunctors.count .resetChannel = 1 := by
    rw [h.connector.resets]
    exact if_pos hr
  exact List.count_pos_iff.1 (by omega)

theorem Inv.stopInLoop (h : Inv s) (errno : ConnectErrno) :
    ∃ s', s.runFunctor errno .stopInLoop = .ok s' ∧ Inv s' := by
  simp only [System.runFunctor]
  by_cases hs : s.connector.state = .kConnecting
  · obtain ⟨c', hc', hg⟩ := h.connector.stopInLoop hs
    rw [hc']
    exact ⟨_, rfl, h.gaveUp (by rw [hs]; decide) hg⟩
  · have hstop : s.connector.stopInLoop = .ok s.connector := by
      unfold Connector.stopInLoop
      rw [if_neg hs]
      rfl
    rw [hstop]
    exact ⟨_, rfl, h⟩

/-- A connection is closed by a functor that comes after the reset of the channel. -/
theorem Inv.forceCloseInLoop (h : Inv s) {n conn : ℕ} {fs : List Functor}
    (hp : s.phase = .functors (n + 1))
    (hq : s.connector.pendingFunctors = .forceCloseInLoop conn :: fs) (errno : ConnectErrno) :
    ∃ s', (s.popped n fs).runFunctor errno (.forceCloseInLoop conn) = .ok s' ∧ Inv s' := by
  have hpop : Inv (s.popped n fs) := h.popped hp hq (by simp)
  simp only [System.runFunctor]
  split_ifs with hconn
  · refine hpop.close hconn (fun hr => ?_) errno
    have hresets := hpop.connector.resets
    rw [if_pos hr] at hresets
    have hmem : Functor.resetChannel ∈ fs :=
      List.count_pos_iff.1 (Nat.lt_of_lt_of_eq Nat.zero_lt_one hresets.symm)
    have horder := h.order conn hconn
    rw [hq] at horder
    exact (List.pairwise_cons.1 horder).1 _ hmem rfl rfl
  · exact ⟨_, rfl, hpop⟩

theorem Inv.functor (h : Inv s) {errno : ConnectErrno} :
    ∃ s', s.step (.functor errno) = .ok s' ∧ Inv s' := by
  simp only [System.step]
  split
  · next n f fs hp hq =>
    change ∃ s', (s.popped n fs).runFunctor errno f = .ok s' ∧ Inv s'
    cases f with
    | stopInLoop => exact (h.popped hp hq (by simp)).stopInLoop errno
    | resetChannel => exact ⟨_, rfl, h.resetChannel hq⟩
    | forceCloseInLoop conn => exact h.forceCloseInLoop hp hq errno
  · exact ⟨s, rfl, h⟩

/-- The connection was there when the loop polled, and by then the channel had been reset. -/
theorem Inv.closed (h : Inv s) {errno : ConnectErrno} (henv : Env s (.close errno)) :
    ∃ s', s.step (.close errno) = .ok s' ∧ Inv s' := by
  obtain ⟨hp, hpolled, hne⟩ := henv
  have hr : s.connector.channel ≠ .removed := by
    intro hr
    have ha := (awaited_handling hp).1 (h.reset hne hr)
    rw [hpolled] at ha
    cases ha
  obtain ⟨conn, hconn⟩ := Option.ne_none_iff_exists'.1 hne
  simp only [System.step, hconn]
  exact h.close hconn hr errno

theorem Inv.step (h : Inv s) {a : Action} (henv : Env s a) (hord : InOrder s a) :
    ∃ s', s.step a = .ok s' ∧ Inv s' := by
  cases a with
  | enableRetry | disconnect =>
    exact ⟨_, rfl, ⟨h.connector, h.ids, h.live, h.polled, h.order, h.reset⟩⟩
  | connect errno => exact h.connect hord
  | stop =>
    have hq := h.queueInLoop (f := .stopInLoop) (by simp) (fun conn hconn => by cases hconn)
    exact ⟨_, rfl, ⟨⟨hq.connector.registered, hq.connector.resets, hq.connector.timers,
      hq.connector.waiting⟩, hq.ids, hq.live, hq.polled, hq.order, hq.reset⟩⟩
  | forceClose =>
    obtain ⟨conn, hconn⟩ := Option.ne_none_iff_exists'.1 henv
    simp only [System.step, hconn]
    refine ⟨_, rfl, h.queueInLoop (by simp) fun conn' hconn' => ?_⟩
    rw [hconn, Connector.Functor.forceCloseInLoop.inj hconn']
  | event error write o => exact h.event henv
  | close errno => exact h.closed henv
  | timer errno => exact h.timer henv hord
  | poll => exact h.poll henv
  | handled => exact h.handled
  | functor errno => exact h.functor

/-! ## Exactly the calls in order -/

theorem inOrder_of_connect {s' : System} {errno : ConnectErrno}
    (h : s.step (.connect errno) = .ok s') (hone : OneAttempt s') : InOrder s (.connect errno) := by
  obtain ⟨t, ht, h'⟩ := bind_eq_ok.1 h
  obtain ⟨c', hstart, ht'⟩ := bind_eq_ok.1 ht
  obtain rfl := Except.ok.inj ht'
  obtain rfl := Except.ok.inj h'
  obtain ⟨hs, hconn⟩ := Connector.of_startInLoop hstart
  have hone' : c'.retryTimers + (if c'.channel = .registered then 1 else 0) ≤ 1 :=
    Nat.le_trans (Nat.le_add_right _ _) hone
  refine ⟨hs, fun hor => ?_, fun hu => (Connector.of_connect_underWay hu (hconn rfl)).1⟩
  rcases hor with hu | hr
  · obtain rfl := (Connector.of_connect_underWay hu (hconn rfl)).2
    change s.connector.retryTimers + 1 ≤ 1 at hone'
    omega
  · obtain rfl := Connector.of_connect_retried hr (hconn rfl)
    have ht : s.connector.retryTimers + 1 ≤ 1 := Nat.le_trans (Nat.le_add_right _ _) hone'
    omega

theorem inOrder_of_timer {s' : System} {errno : ConnectErrno} (h : s.step (.timer errno) = .ok s') :
    InOrder s (.timer errno) := by
  obtain ⟨c', hstart, -⟩ := bind_eq_ok.1 h
  intro hconn hu
  exact (Connector.of_connect_underWay hu ((Connector.of_startInLoop hstart).2 hconn)).1

theorem inOrder_of_step {s' : System} {a : Action} (h : s.step a = .ok s') (hone : OneAttempt s') :
    InOrder s a := by
  cases a with
  | connect errno => exact inOrder_of_connect h hone
  | timer errno => exact inOrder_of_timer h
  | _ => trivial

theorem inv_init : Inv .init where
  connector := ⟨by decide, rfl, by decide, by decide⟩
  ids conn hconn := hconn.elim (fun hc => by cases hc) (fun hc => by cases hc)
  live hne := absurd rfl hne
  polled hp := by cases hp
  order conn hconn := by cases hconn
  reset hne := absurd rfl hne

/-- No assertion fails and there is one attempt at most, throughout a run, exactly when the run is in
order. -/
theorem one_attempt (as : List Action) (henv : machine.Along Env .init as) :
    ((∃ s, machine.run .init as = .ok s) ∧ machine.Always OneAttempt .init as) ↔
      machine.Along InOrder .init as :=
  Machine.run_ok_always_iff_along (fun _ h => h.oneAttempt) (fun _ _ h => h.step)
    (fun _ _ _ _ _ => inOrder_of_step) inv_init henv

/-- A refused attempt, a retry that succeeds, and a connection that is closed by force right away and
replaced by an attempt that ends in an error and another one that is stopped. -/
def refusedAndReplaced : List Action :=
  [.enableRetry, .connect .ECONNREFUSED, .poll, .timer .EINPROGRESS, .handled, .poll,
    .event false true .connected, .forceClose, .handled, .functor .success, .functor .EINPROGRESS,
    .poll, .event true true .error, .handled, .functor .success, .poll, .timer .EINPROGRESS, .stop,
    .handled, .functor .success, .poll, .handled, .functor .success, .connect .EINTR]

theorem one_attempt_refusedAndReplaced :
    machine.Along Env .init refusedAndReplaced ∧
      (∃ s, machine.run .init refusedAndReplaced = .ok s) ∧
      machine.Always OneAttempt .init refusedAndReplaced := by
  have henv : machine.Along Env .init refusedAndReplaced := by decide +kernel
  exact ⟨henv, (one_attempt refusedAndReplaced henv).2 (by decide +kernel)⟩

/-- The assertion `f` fails in a run that the environment admits. -/
def Fails (as : List Action) (f : Fault) : Prop :=
  machine.Along Env .init as ∧ machine.run .init as = .error f

/-- `connect()` twice; `connect()` after the connection ended; `stop()` and `connect()` while a retry
timer is outstanding; and `connect()` in the round in which an attempt was given up. -/
theorem assertions_fail :
    Fails [.connect .EINPROGRESS, .connect .EINPROGRESS] .startInLoop ∧
    Fails [.connect .EINPROGRESS, .poll, .event false true .connected, .handled, .functor .success,
      .poll, .close .success, .connect .EINPROGRESS] .startInLoop ∧
    Fails [.connect .ECONNREFUSED, .stop, .connect .EINPROGRESS, .poll, .timer .EINPROGRESS]
      .startInLoop ∧
    Fails [.connect .EINPROGRESS, .poll, .event true false .error, .connect .EINPROGRESS]
      .connecting := by
  unfold Fails
  decide +kernel

end TcpClient

end Reactor
