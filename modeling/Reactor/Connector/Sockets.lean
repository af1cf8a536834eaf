import Reactor.Connector.Attempts

/-!
# The sockets of a Connector

Every attempt has a socket of its own.  It belongs to the channel while the attempt is under way; then
it is closed, or handed over to `newConnectionCallback_`.  A socket is known by the order of its
creation, since the kernel uses the numbers of closed descriptors again.

The functions are those of `Connector`, with the descriptors (`erase_step`).  Calls, events, timers
and functors come in any order.  `restart()` is called by `TcpClient::removeConnection` only, for a
connection that the connector has handed over, and then no attempt is under way
(`connected_of_connection`).

* `disposed_once`: every socket is held by the attempt that is under way, or was closed once, or was
  handed over once and not closed, and none was handed over with `connect_` false.
* `sockets_disposed`: so it is for the connector of a client, in every run of the client.
-/

namespace Reactor

namespace Connector

/-- A connector and its sockets.  `fd` is that of `channel_`, if there is one; a socket is handed over
together with what `connect_` was then. -/
structure Sockets where
  connector : Connector
  fd : ℕ
  created : ℕ
  closed : List ℕ
  passed : List (ℕ × Bool)
  deriving DecidableEq, Repr

/-- What may happen to a connector; its client also queues functors of a connection in the loop. -/
inductive Action where
  | start (errno : ConnectErrno)
  | restart (errno : ConnectErrno)
  | stop
  | forceClose (conn : ℕ)
  | handleWrite (o : SocketOutcome)
  | handleError
  | timer (errno : ConnectErrno)
  | functor
  deriving DecidableEq, Repr

namespace Sockets

def new : Sockets := ⟨Connector.new, 0, 0, [], []⟩

/-- `sockets::close` -/
def close (s : Sockets) (sockfd : ℕ) : Sockets := { s with closed := s.closed ++ [sockfd] }

def newConnectionCallback (s : Sockets) (sockfd : ℕ) : Sockets :=
  { s with passed := s.passed ++ [(sockfd, s.connector.connect_)] }

/-- `sockets::createNonblockingOrDie` -/
def createNonblockingOrDie (s : Sockets) : ℕ × Sockets := (s.created, { s with created := s.created + 1 })

def retry (s : Sockets) (sockfd : ℕ) : Sockets :=
  { s.close sockfd with connector := s.connector.retry }

def connecting (s : Sockets) (sockfd : ℕ) : Except Fault Sockets := do
  return { s with connector := ← s.connector.connecting, fd := sockfd }

def connect (s : Sockets) (errno : ConnectErrno) : Except Fault Sockets :=
  let (sockfd, s) := s.createNonblockingOrDie
  match errno with
  | .success | .EINPROGRESS | .EINTR | .EISCONN => s.connecting sockfd
  | .EAGAIN | .EADDRINUSE | .EADDRNOTAVAIL | .ECONNREFUSED | .ENETUNREACH => return s.retry sockfd
  | .EACCES | .EPERM | .EAFNOSUPPORT | .EALREADY | .EBADF | .EFAULT | .ENOTSOCK =>
    return s.close sockfd
  | .other _ => return s.close sockfd

def startInLoop (s : Sockets) (errno : ConnectErrno) : Except Fault Sockets := do
  check .startInLoop (s.connector.state = .kDisconnected)
  if s.connector.connect_ then s.connect errno else return s

def start (s : Sockets) (errno : ConnectErrno) : Except Fault Sockets :=
  { s with connector := { s.connector with connect_ := true } }.startInLoop errno

def stop (s : Sockets) : Sockets := { s with connector := s.connector.stop }

/-- `removeAndResetChannel`, which returns the descriptor of the channel. -/
def removeAndResetChannel (s : Sockets) : Except Fault (ℕ × Sockets) := do
  return (s.fd, { s with connector := ← s.connector.removeAndResetChannel })

def setState (s : Sockets) (state : States) : Sockets :=
  { s with connector := { s.connector with state := state } }

def stopInLoop (s : Sockets) : Except Fault Sockets := do
  if s.connector.state = .kConnecting then
    let (sockfd, s) ← (s.setState .kDisconnected).removeAndResetChannel
    return s.retry sockfd
  else return s

def resetChannel (s : Sockets) : Sockets := { s with connector := s.connector.resetChannel }

def handleWrite (s : Sockets) (o : SocketOutcome) : Except Fault Sockets := do
  if s.connector.state = .kConnecting then
    let (sockfd, s) ← s.removeAndResetChannel
    match o with
    | .error | .selfConnect => return s.retry sockfd
    | .connected =>
      let s := s.setState .kConnected
      if s.connector.connect_ then return s.newConnectionCallback sockfd
      else return s.close sockfd
  else
    check .connectorHandleWrite (s.connector.state = .kDisconnected)
    return s

def handleError (s : Sockets) : Except Fault Sockets := do
  if s.connector.state = .kConnecting then
    let (sockfd, s) ← s.removeAndResetChannel
    return s.retry sockfd
  else return s

def restart (s : Sockets) (errno : ConnectErrno) : Except Fault Sockets :=
  { s with connector := { s.connector with
    state := .kDisconnected
    retryDelayMs := kInitRetryDelayMs
    connect_ := true } }.startInLoop errno

def runFunctor (s : Sockets) : Functor → Except Fault Sockets
  | .stopInLoop => s.stopInLoop
  | .resetChannel => return s.resetChannel
  | .forceCloseInLoop _ => return s

def step (s : Sockets) : Action → Except Fault Sockets
  | .start errno => s.start errno
  | .restart errno => s.restart errno
  | .stop => return s.stop
  | .forceClose conn =>
    return { s with connector := s.connector.queueInLoop (.forceCloseInLoop conn) }
  | .handleWrite o => s.handleWrite o
  | .handleError => s.handleError
  | .timer errno =>
    if s.connector.retryTimers = 0 then return s
    else { s with connector := { s.connector with
      retryTimers := s.connector.retryTimers - 1 } }.startInLoop errno
  | .functor =>
    match s.connector.pendingFunctors with
    | [] => return s
    | f :: fs => { s with connector := { s.connector with pendingFunctors := fs } }.runFunctor f

def machine : Machine Sockets Action Fault := ⟨step⟩

/-! ## The specification -/

/-- The socket belongs to the attempt that is under way. -/
def Held (s : Sockets) (fd : ℕ) : Prop :=
  s.connector.state = .kConnecting ∧ s.connector.channel ≠ .null ∧ s.fd = fd

/-- Every socket has one owner at most, and has been disposed of once or is held. -/
structure Disposed (s : Sockets) : Prop where
  created : ∀ fd < s.created,
    s.Held fd ∧ s.closed.count fd = 0 ∧ (s.passed.map Prod.fst).count fd = 0 ∨
    ¬ s.Held fd ∧ s.closed.count fd = 1 ∧ (s.passed.map Prod.fst).count fd = 0 ∨
    ¬ s.Held fd ∧ s.closed.count fd = 0 ∧ (s.passed.map Prod.fst).count fd = 1
  handed : ∀ p ∈ s.passed, p.2 = true

/-- `restart()` is called when no attempt is under way. -/
def Restarts (s : Sockets) : Action → Prop
  | .restart _ => s.connector.state ≠ .kConnecting
  | .start _ | .stop | .forceClose _ | .handleWrite _ | .handleError | .timer _ | .functor => True

instance (s : Sockets) : ∀ a, Decidable (Restarts s a)
  | .restart _ => inferInstanceAs (Decidable (_ ≠ _))
  | .start _ | .stop | .forceClose _ | .handleWrite _ | .handleError | .timer _ | .functor =>
    isTrue trivial

/-! ## The balance -/

/-- How often the socket was disposed of. -/
def disposals (s : Sockets) (fd : ℕ) : ℕ := s.closed.count fd + (s.passed.map Prod.fst).count fd

/-- What is common to all moments: a channel that was removed waits for its reset, and no socket was
handed over with `connect_` false. -/
structure Kept (s : Sockets) : Prop where
  resets : s.connector.pendingFunctors.count .resetChannel =
    if s.connector.channel = .removed then 1 else 0
  handed : ∀ p ∈ s.passed, p.2 = true

/-- Between two actions: the socket of the channel is the only one that was not disposed of. -/
structure Inv (s : Sockets) : Prop extends s.Kept where
  registered : s.connector.state = .kConnecting ↔ s.connector.channel = .registered
  balance : ∀ fd, (if s.connector.channel = .registered ∧ s.fd = fd then 1 else 0) + s.disposals fd =
    if fd < s.created then 1 else 0

/-- Within an action: a socket that belongs to no channel is yet to be disposed of. -/
structure Loose (s : Sockets) (sockfd : ℕ) : Prop extends s.Kept where
  channel : s.connector.channel ≠ .registered
  balance : ∀ fd, (if sockfd = fd then 1 else 0) + s.disposals fd = if fd < s.created then 1 else 0

theorem inv_new : Inv new := by
  refine ⟨⟨rfl, fun p hp => (by cases hp)⟩, by decide, fun fd => ?_⟩
  rw [if_neg fun hh => (by cases hh.1)]
  rfl

theorem Inv.disposed {s : Sockets} (h : s.Inv) : s.Disposed := by
  refine ⟨fun fd hfd => ?_, h.handed⟩
  have hbalance := h.balance fd
  have hheld : s.Held fd ↔ s.connector.channel = .registered ∧ s.fd = fd := by
    unfold Held
    rw [h.registered]
    refine ⟨fun hh => ⟨hh.1, hh.2.2⟩, fun hh => ⟨hh.1, ?_, hh.2⟩⟩
    rw [hh.1]
    decide
  rw [if_pos hfd] at hbalance
  unfold disposals at hbalance
  rw [hheld]
  split_ifs at hbalance with hh
  · exact Or.inl ⟨hh, by omega, by omega⟩
  · rcases Nat.eq_zero_or_pos (s.closed.count fd) with hzero | hpos
    · exact Or.inr (Or.inr ⟨hh, hzero, by omega⟩)
    · exact Or.inr (Or.inl ⟨hh, by omega, by omega⟩)

variable {s s' : Sockets} {sockfd : ℕ}

@[simp] theorem disposals_close (s : Sockets) (sockfd fd : ℕ) :
    (s.close sockfd).disposals fd = (if sockfd = fd then 1 else 0) + s.disposals fd := by
  simp only [disposals, close, List.count_append, List.count_singleton, beq_iff_eq]
  omega

@[simp] theorem disposals_newConnectionCallback (s : Sockets) (sockfd fd : ℕ) :
    (s.newConnectionCallback sockfd).disposals fd = (if sockfd = fd then 1 else 0) + s.disposals fd := by
  simp only [disposals, newConnectionCallback, List.map_append, List.map_cons, List.map_nil,
    List.count_append, List.count_singleton, beq_iff_eq]
  omega

/-- Closing or handing over the socket settles the balance. -/
theorem Loose.settle (h : s.Loose sockfd) {c : Connector} (hstate : c.state ≠ .kConnecting)
    (hchannel : c.channel = s.connector.channel)
    (hqueue : c.pendingFunctors = s.connector.pendingFunctors)
    (hconnector : s'.connector = c) (hcreated : s'.created = s.created)
    (hdisposals : ∀ fd, s'.disposals fd = (if sockfd = fd then 1 else 0) + s.disposals fd)
    (hconnect : ∀ p ∈ s'.passed, p.2 = true) : s'.Inv := by
  subst hconnector
  have hnot : s'.connector.channel ≠ .registered := by
    rw [hchannel]
    exact h.channel
  refine ⟨⟨?_, hconnect⟩, ⟨fun hs => absurd hs hstate, fun hc => absurd hc hnot⟩, fun fd => ?_⟩
  · rw [hqueue, hchannel]
    exact h.resets
  · rw [if_neg fun hh => hnot hh.1, Nat.zero_add, hdisposals, hcreated]
    exact h.balance fd

theorem Loose.close (h : s.Loose sockfd) (hstate : s.connector.state ≠ .kConnecting) :
    (s.close sockfd).Inv :=
  h.settle hstate rfl rfl rfl rfl (disposals_close s sockfd) h.handed

theorem Loose.retry (h : s.Loose sockfd) : (s.retry sockfd).Inv := by
  have hretry : s.connector.retry.state ≠ .kConnecting ∧
      s.connector.retry.channel = s.connector.channel ∧
      s.connector.retry.pendingFunctors = s.connector.pendingFunctors := by
    unfold Connector.retry
    dsimp only
    split_ifs
    · exact ⟨fun h => (by cases h), rfl, rfl⟩
    · exact ⟨fun h => (by cases h), rfl, rfl⟩
  exact h.settle hretry.1 hretry.2.1 hretry.2.2 rfl rfl (disposals_close s sockfd) h.handed

theorem Loose.newConnectionCallback (h : s.Loose sockfd) (hstate : s.connector.state ≠ .kConnecting)
    (hconnect : s.connector.connect_ = true) : (s.newConnectionCallback sockfd).Inv := by
  refine h.settle hstate rfl rfl rfl rfl (disposals_newConnectionCallback s sockfd) fun p hp => ?_
  rcases List.mem_append.1 hp with hp | hp
  · exact h.handed p hp
  · obtain rfl := List.mem_singleton.1 hp
    exact hconnect

theorem Loose.connecting (h : s.Loose sockfd) (hok : s.connecting sockfd = .ok s') : s'.Inv := by
  obtain ⟨c, hc, hs'⟩ := bind_eq_ok.1 hok
  obtain rfl := Except.ok.inj hs'
  obtain ⟨hnull, hc⟩ := check_bind_eq_ok.1 hc
  obtain rfl := Except.ok.inj hc
  have hresets := h.resets
  dsimp only at hnull
  rw [hnull] at hresets
  refine ⟨⟨hresets, h.handed⟩, ⟨fun _ => rfl, fun _ => rfl⟩, fun fd => ?_⟩
  simp only [true_and]
  exact h.balance fd

/-- A fresh socket belongs to nobody. -/
theorem Inv.createNonblockingOrDie (h : s.Inv) (hstate : s.connector.state = .kDisconnected) :
    Loose { s with created := s.created + 1 } s.created := by
  have hchannel : s.connector.channel ≠ .registered := by
    rw [Ne, ← h.registered, hstate]
    decide
  refine ⟨⟨h.resets, h.handed⟩, hchannel, fun fd => ?_⟩
  have hbalance := h.balance fd
  rw [if_neg fun hh => hchannel hh.1] at hbalance
  show (if s.created = fd then 1 else 0) + s.disposals fd = if fd < s.created + 1 then 1 else 0
  split_ifs at hbalance ⊢ <;> omega

theorem Inv.connect (h : s.Inv) (hstate : s.connector.state = .kDisconnected) {errno : ConnectErrno}
    (hok : s.connect errno = .ok s') : s'.Inv := by
  have hloose := h.createNonblockingOrDie hstate
  have hne : s.connector.state ≠ .kConnecting := by
    rw [hstate]
    decide
  cases errno with
  | success | EINPROGRESS | EINTR | EISCONN => exact hloose.connecting hok
  | EAGAIN | EADDRINUSE | EADDRNOTAVAIL | ECONNREFUSED | ENETUNREACH =>
    obtain rfl := Except.ok.inj hok
    exact hloose.retry
  | EACCES | EPERM | EAFNOSUPPORT | EALREADY | EBADF | EFAULT | ENOTSOCK | other =>
    obtain rfl := Except.ok.inj hok
    exact hloose.close hne

theorem Inv.startInLoop (h : s.Inv) {errno : ConnectErrno} (hok : s.startInLoop errno = .ok s') :
    s'.Inv := by
  obtain ⟨hstate, hok⟩ := check_bind_eq_ok.1 hok
  split_ifs at hok
  · exact h.connect hstate hok
  · obtain rfl := Except.ok.inj hok
    exact h

/-- The channel of the attempt lets go of its socket. -/
theorem Inv.removeAndResetChannel (h : s.Inv) (hstate : s.connector.state = .kConnecting)
    (state : States) :
    ∃ s₁, (s.setState state).removeAndResetChannel = .ok (s.fd, s₁) ∧ s₁.Loose s.fd := by
  have hchannel := h.registered.1 hstate
  have hresets := h.resets
  rw [hchannel] at hresets
  refine ⟨{ s with connector :=
    { s.connector with state := state, channel := .removed }.queueInLoop .resetChannel }, ?_,
    ⟨⟨?_, h.handed⟩, ?_, fun fd => ?_⟩⟩
  · unfold Sockets.removeAndResetChannel Connector.removeAndResetChannel setState
    dsimp only
    rw [check_of (by rw [hchannel]; decide)]
    rfl
  · show List.count _ (s.connector.pendingFunctors ++ [Functor.resetChannel]) = _
    rw [List.count_append, hresets]
    rfl
  · show ChannelPtr.removed ≠ .registered
    decide
  · have hbalance := h.balance fd
    rw [hchannel] at hbalance
    simp only [true_and] at hbalance
    exact hbalance

theorem Inv.stopInLoop (h : s.Inv) (hok : s.stopInLoop = .ok s') : s'.Inv := by
  unfold Sockets.stopInLoop at hok
  split_ifs at hok with hstate
  · obtain ⟨s₁, hremove, hloose⟩ := h.removeAndResetChannel hstate .kDisconnected
    rw [hremove, ok_bind] at hok
    obtain rfl := Except.ok.inj hok
    exact hloose.retry
  · obtain rfl := Except.ok.inj hok
    exact h

theorem Inv.handleError (h : s.Inv) (hok : s.handleError = .ok s') : s'.Inv := by
  unfold Sockets.handleError at hok
  split_ifs at hok with hstate
  · obtain ⟨s₁, hremove, hloose⟩ := h.removeAndResetChannel hstate s.connector.state
    obtain ⟨⟨sockfd, s₂⟩, hremove', hok⟩ := bind_eq_ok.1 hok
    obtain ⟨rfl, rfl⟩ := Prod.mk.inj (Except.ok.inj (hremove'.symm.trans hremove))
    obtain rfl := Except.ok.inj hok
    exact hloose.retry
  · obtain rfl := Except.ok.inj hok
    exact h

theorem Loose.setState (h : s.Loose sockfd) (state : States) : (s.setState state).Loose sockfd :=
  ⟨⟨h.resets, h.handed⟩, h.channel, h.balance⟩

/-- The three exits of `handleWrite`: a retry, the handover, and the close after a stop. -/
theorem Inv.handleWrite (h : s.Inv) {o : SocketOutcome} (hok : s.handleWrite o = .ok s') : s'.Inv := by
  unfold Sockets.handleWrite at hok
  split_ifs at hok with hstate
  · obtain ⟨s₁, hremove, hloose⟩ := h.removeAndResetChannel hstate s.connector.state
    obtain ⟨⟨sockfd, s₂⟩, hremove', hok⟩ := bind_eq_ok.1 hok
    obtain ⟨rfl, rfl⟩ := Prod.mk.inj (Except.ok.inj (hremove'.symm.trans hremove))
    have hloose' := hloose.setState .kConnected
    have hconnected : (s₂.setState .kConnected).connector.state ≠ .kConnecting := fun hs => (by cases hs)
    cases o with
    | error | selfConnect =>
      obtain rfl := Except.ok.inj hok
      exact hloose.retry
    | connected =>
      dsimp only at hok
      split_ifs at hok with hconnect
      · obtain rfl := Except.ok.inj hok
        exact hloose'.newConnectionCallback hconnected hconnect
      · obtain rfl := Except.ok.inj hok
        exact hloose'.close hconnected
  · obtain ⟨-, hok⟩ := check_bind_eq_ok.1 hok
    obtain rfl := Except.ok.inj hok
    exact h

/-- Nothing of the balance is in the other fields of the connector. -/
theorem Inv.of_eq (h : s.Inv) (c : Connector) (hstate : c.state = s.connector.state)
    (hchannel : c.channel = s.connector.channel)
    (hqueue : c.pendingFunctors.count .resetChannel = s.connector.pendingFunctors.count .resetChannel) :
    Inv { s with connector := c } := by
  refine ⟨⟨?_, h.handed⟩, ?_, fun fd => ?_⟩
  · show c.pendingFunctors.count .resetChannel = if c.channel = .removed then 1 else 0
    rw [hqueue, hchannel]
    exact h.resets
  · show c.state = .kConnecting ↔ c.channel = .registered
    rw [hstate, hchannel]
    exact h.registered
  · show (if c.channel = .registered ∧ s.fd = fd then 1 else 0) + s.disposals fd = _
    rw [hchannel]
    exact h.balance fd

/-- The reset finds the channel removed, and is the only one. -/
theorem Inv.resetChannel (h : s.Inv) {fs : List Functor}
    (hqueue : s.connector.pendingFunctors = .resetChannel :: fs) :
    Inv (resetChannel { s with connector := { s.connector with pendingFunctors := fs } }) := by
  have hresets := h.resets
  rw [hqueue, List.count_cons_self] at hresets
  have hremoved : s.connector.channel = .removed := by
    by_contra hne
    rw [if_neg hne] at hresets
    cases hresets
  have hstate : s.connector.state ≠ .kConnecting := by
    rw [Ne, h.registered, hremoved]
    decide
  rw [if_pos hremoved] at hresets
  refine ⟨⟨Nat.succ.inj hresets, h.handed⟩, ⟨fun hs => absurd hs hstate, fun hc => (by cases hc)⟩,
    fun fd => ?_⟩
  have hbalance := h.balance fd
  rw [hremoved] at hbalance
  exact hbalance

theorem Inv.restart (h : s.Inv) (hstate : s.connector.state ≠ .kConnecting) {errno : ConnectErrno}
    (hok : s.restart errno = .ok s') : s'.Inv := by
  have hinv : Inv { s with connector := { s.connector with
      state := .kDisconnected, retryDelayMs := kInitRetryDelayMs, connect_ := true } } :=
    ⟨⟨h.resets, h.handed⟩, ⟨fun hs => (by cases hs), fun hc => absurd (h.registered.2 hc) hstate⟩,
      h.balance⟩
  exact hinv.startInLoop hok

theorem Inv.step (h : s.Inv) {a : Action} (ha : Restarts s a) (hok : s.step a = .ok s') : s'.Inv := by
  cases a with
  | start errno => exact (h.of_eq { s.connector with connect_ := true } rfl rfl rfl).startInLoop hok
  | restart errno => exact h.restart ha hok
  | stop =>
    obtain rfl := Except.ok.inj hok
    refine h.of_eq _ rfl rfl ?_
    show List.count _ (s.connector.pendingFunctors ++ [Functor.stopInLoop]) = _
    rw [List.count_append]
    rfl
  | forceClose conn =>
    obtain rfl := Except.ok.inj hok
    refine h.of_eq _ rfl rfl ?_
    show List.count _ (s.connector.pendingFunctors ++ [Functor.forceCloseInLoop conn]) = _
    rw [List.count_append]
    rfl
  | handleWrite o => exact h.handleWrite hok
  | handleError => exact h.handleError hok
  | timer errno =>
    simp only [Sockets.step] at hok
    split_ifs at hok
    · obtain rfl := Except.ok.inj hok
      exact h
    · exact (h.of_eq { s.connector with retryTimers := s.connector.retryTimers - 1 } rfl rfl
        rfl).startInLoop hok
  | functor =>
    simp only [Sockets.step] at hok
    split at hok
    · obtain rfl := Except.ok.inj hok
      exact h
    · rename_i f fs hqueue
      cases f with
      | stopInLoop =>
        refine (h.of_eq { s.connector with pendingFunctors := fs } rfl rfl ?_).stopInLoop hok
        rw [hqueue]
        rfl
      | resetChannel =>
        obtain rfl := Except.ok.inj hok
        exact h.resetChannel hqueue
      | forceCloseInLoop conn =>
        obtain rfl := Except.ok.inj hok
        refine h.of_eq _ rfl rfl ?_
        rw [hqueue]
        rfl

theorem disposed_once (as : List Action) (h : machine.Along Restarts new as) :
    machine.Always Disposed new as :=
  (Machine.always_of_along (fun _ _ _ hs ha hok => hs.step ha hok) inv_new h).mono
    fun _ hs => hs.disposed

/-- A run through the exits: refused, retried, handed over; started again and stopped while
connecting. -/
theorem disposed_once_of_run :
    machine.Along Restarts new [.start .ECONNREFUSED, .timer .EINPROGRESS, .handleWrite .connected,
      .functor, .restart .EINPROGRESS, .stop, .functor, .functor] ∧
    machine.Always Disposed new [.start .ECONNREFUSED, .timer .EINPROGRESS, .handleWrite .connected,
      .functor, .restart .EINPROGRESS, .stop, .functor, .functor] := by
  have halong : machine.Along Restarts new [.start .ECONNREFUSED, .timer .EINPROGRESS,
      .handleWrite .connected, .functor, .restart .EINPROGRESS, .stop, .functor, .functor] := by
    decide
  exact ⟨halong, disposed_once _ halong⟩

/-! ## The connector without its sockets -/

end Sockets

def runFunctor (c : Connector) : Functor → Except Fault Connector
  | .stopInLoop => c.stopInLoop
  | .resetChannel => return c.resetChannel
  | .forceCloseInLoop _ => return c

/-- The same actions on a connector. -/
def step (c : Connector) : Action → Except Fault Connector
  | .start errno => c.start errno
  | .restart errno => c.restart errno
  | .stop => return c.stop
  | .forceClose conn => return c.queueInLoop (.forceCloseInLoop conn)
  | .handleWrite o => do return (← c.handleWrite o).2
  | .handleError => c.handleError
  | .timer errno =>
    if c.retryTimers = 0 then return c
    else { c with retryTimers := c.retryTimers - 1 }.startInLoop errno
  | .functor =>
    match c.pendingFunctors with
    | [] => return c
    | f :: fs => { c with pendingFunctors := fs }.runFunctor f

theorem step_functor {c : Connector} {f : Functor} {fs : List Functor} (h : c.pendingFunctors = f :: fs) :
    c.step .functor = { c with pendingFunctors := fs }.runFunctor f := by
  rw [step, h]

namespace Sockets

theorem erase_connecting (s : Sockets) (sockfd : ℕ) :
    (s.connecting sockfd).map connector = s.connector.connecting := by
  unfold connecting
  cases s.connector.connecting with
  | error f => rfl
  | ok c => rfl

theorem erase_startInLoop (s : Sockets) (errno : ConnectErrno) :
    (s.startInLoop errno).map connector = s.connector.startInLoop errno := by
  unfold startInLoop Connector.startInLoop check
  split_ifs
  · cases errno with
    | success | EINPROGRESS | EINTR | EISCONN => exact erase_connecting _ _
    | _ => rfl
  · rfl
  · rfl
  · rfl

theorem erase_stopInLoop (s : Sockets) : s.stopInLoop.map connector = s.connector.stopInLoop := by
  unfold stopInLoop Connector.stopInLoop removeAndResetChannel setState
  dsimp only
  split_ifs
  · cases { s.connector with state := .kDisconnected }.removeAndResetChannel with
    | error f => rfl
    | ok c => rfl
  · rfl

theorem erase_handleError (s : Sockets) : s.handleError.map connector = s.connector.handleError := by
  unfold handleError Connector.handleError removeAndResetChannel
  split_ifs
  · cases s.connector.removeAndResetChannel with
    | error f => rfl
    | ok c => rfl
  · rfl

theorem erase_handleWrite (s : Sockets) (o : SocketOutcome) :
    (s.handleWrite o).map connector = (do return (← s.connector.handleWrite o).2) := by
  unfold handleWrite Connector.handleWrite removeAndResetChannel check
  split_ifs with hconnecting hdisconnected
  · cases s.connector.removeAndResetChannel with
    | error f => rfl
    | ok c =>
      cases o with
      | error | selfConnect => rfl
      | connected =>
        show Except.map connector (if c.connect_ = true then _ else _) = _
        split_ifs
        · rfl
        · rfl
  · rfl
  · rfl

theorem erase_step (s : Sockets) (a : Action) : (s.step a).map connector = s.connector.step a := by
  cases a with
  | start errno => exact erase_startInLoop _ errno
  | restart errno => exact erase_startInLoop _ errno
  | stop | forceClose conn => rfl
  | handleWrite o => exact erase_handleWrite s o
  | handleError => exact erase_handleError s
  | timer errno =>
    unfold step Connector.step
    dsimp only
    split_ifs
    · rfl
    · exact erase_startInLoop _ errno
  | functor =>
    unfold step Connector.step
    dsimp only
    cases s.connector.pendingFunctors with
    | nil => rfl
    | cons f fs =>
      cases f with
      | stopInLoop => exact erase_stopInLoop _
      | resetChannel => rfl
      | forceCloseInLoop conn => rfl

theorem exists_step {s : Sockets} {a : Action} {c : Connector} (h : s.connector.step a = .ok c) :
    ∃ s', s.step a = .ok s' ∧ s'.connector = c := by
  rw [← erase_step] at h
  cases hstep : s.step a with
  | error f =>
    rw [hstep] at h
    cases h
  | ok s' =>
    rw [hstep] at h
    exact ⟨s', rfl, Except.ok.inj h⟩

end Sockets

/-! ## The restart of a client -/

variable {c c' : Connector}

theorem handleError_of_connected (hs : c.state = .kConnected) : c.handleError = .ok c := by
  unfold handleError
  rw [if_neg (by rw [hs]; decide)]
  rfl

theorem stopInLoop_of_connected (hs : c.state = .kConnected) : c.stopInLoop = .ok c := by
  unfold stopInLoop
  rw [if_neg (by rw [hs]; decide)]
  rfl

/-- A socket that is handed over leaves the connector connected, and no other call of `handleWrite`
returns when it is. -/
theorem of_handleWrite {o : SocketOutcome} {connected : Bool}
    (h : c.handleWrite o = .ok (connected, c')) :
    c.state ≠ .kConnected ∧ (connected = true → c'.state = .kConnected) := by
  unfold handleWrite at h
  split_ifs at h with hs
  · refine ⟨by rw [hs]; decide, fun htrue => ?_⟩
    obtain ⟨c₁, -, h⟩ := bind_eq_ok.1 h
    cases o with
    | error | selfConnect =>
      obtain ⟨hfalse, -⟩ := Prod.mk.inj (Except.ok.inj h)
      rw [← hfalse] at htrue
      cases htrue
    | connected =>
      obtain ⟨-, hc'⟩ := Prod.mk.inj (Except.ok.inj h)
      rw [← hc']
  · obtain ⟨hs, h⟩ := check_bind_eq_ok.1 h
    refine ⟨by rw [hs]; decide, fun htrue => ?_⟩
    obtain ⟨hfalse, -⟩ := Prod.mk.inj (Except.ok.inj h)
    rw [← hfalse] at htrue
    cases htrue

end Connector

namespace TcpClient

/-- The client has a connection only while its connector is connected. -/
def Live (s : System) : Prop := s.client.connection ≠ none → s.connector.state = .kConnected

variable {s s' : System}

/-- An attempt that starts finds no connection. -/
theorem Live.startInLoop (h : Live s) (c : Connector) (hc : c.state = s.connector.state)
    {errno : ConnectErrno} {c' : Connector} (hok : c.startInLoop errno = .ok c') :
    s.client.connection = none := by
  by_contra hne
  obtain ⟨hs, -⟩ := check_bind_eq_ok.1 hok
  rw [hc, h hne] at hs
  cases hs

theorem Live.close {conn : ℕ} {errno : ConnectErrno} (hok : s.close conn errno = .ok s') : Live s' := by
  obtain ⟨t, ht, hok⟩ := bind_eq_ok.1 hok
  obtain rfl := Except.ok.inj hok
  obtain ⟨-, ht⟩ := check_bind_eq_ok.1 ht
  dsimp only at ht
  split_ifs at ht
  · obtain ⟨c', -, ht⟩ := bind_eq_ok.1 ht
    obtain rfl := Except.ok.inj ht
    exact fun hne => absurd rfl hne
  · obtain rfl := Except.ok.inj ht
    exact fun hne => absurd rfl hne

theorem Live.handleError (h : Live s) (hok : s.handleError = .ok s') : Live s' := by
  obtain ⟨c', hc', hok⟩ := bind_eq_ok.1 hok
  obtain rfl := Except.ok.inj hok
  intro hne
  rw [Connector.handleError_of_connected (h hne)] at hc'
  obtain rfl := Except.ok.inj hc'
  exact h hne

theorem Live.handleWrite (h : Live s) {o : SocketOutcome} (hok : s.handleWrite o = .ok s') :
    Live s' := by
  obtain ⟨⟨connected, c'⟩, hc', hok⟩ := bind_eq_ok.1 hok
  obtain rfl := Except.ok.inj hok
  obtain ⟨hs, hconnected⟩ := Connector.of_handleWrite hc'
  intro hne
  cases connected with
  | true => exact hconnected rfl
  | false => exact absurd (h hne) hs

theorem Live.event (h : Live s) {error write : Bool} {o : SocketOutcome}
    (hok : s.step (.event error write o) = .ok s') : Live s' := by
  obtain ⟨s₁, hs₁, hok⟩ := bind_eq_ok.1 hok
  have h₁ : Live s₁ := by
    cases error with
    | true => exact h.handleError hs₁
    | false =>
      obtain rfl := Except.ok.inj hs₁
      exact h
  cases write with
  | true => exact h₁.handleWrite hok
  | false =>
    obtain rfl := Except.ok.inj hok
    exact h₁

theorem Live.runFunctor (h : Live s) {errno : ConnectErrno} {f : Connector.Functor}
    (hok : s.runFunctor errno f = .ok s') : Live s' := by
  cases f with
  | stopInLoop =>
    obtain ⟨c', hc', hok⟩ := bind_eq_ok.1 hok
    obtain rfl := Except.ok.inj hok
    intro hne
    rw [Connector.stopInLoop_of_connected (h hne)] at hc'
    obtain rfl := Except.ok.inj hc'
    exact h hne
  | resetChannel =>
    obtain rfl := Except.ok.inj hok
    exact h
  | forceCloseInLoop conn =>
    simp only [System.runFunctor] at hok
    split_ifs at hok
    · exact Live.close hok
    · obtain rfl := Except.ok.inj hok
      exact h

theorem Live.step (h : Live s) {a : Action} (hok : s.step a = .ok s') : Live s' := by
  cases a with
  | enableRetry | disconnect | stop | poll | handled =>
    obtain rfl := Except.ok.inj hok
    exact h
  | connect errno =>
    obtain ⟨t, ht, hok⟩ := bind_eq_ok.1 hok
    obtain rfl := Except.ok.inj hok
    obtain ⟨c', hc', ht⟩ := bind_eq_ok.1 ht
    obtain rfl := Except.ok.inj ht
    have hnone := h.startInLoop { s.connector with connect_ := true } rfl hc'
    exact fun hne => absurd hnone hne
  | forceClose =>
    simp only [System.step] at hok
    split at hok
    · obtain rfl := Except.ok.inj hok
      exact h
    · obtain rfl := Except.ok.inj hok
      exact h
  | event error write o => exact h.event hok
  | close errno =>
    simp only [System.step] at hok
    split at hok
    · exact Live.close hok
    · obtain rfl := Except.ok.inj hok
      exact h
  | timer errno =>
    obtain ⟨c', hc', hok⟩ := bind_eq_ok.1 hok
    obtain rfl := Except.ok.inj hok
    have hnone := h.startInLoop { s.connector with retryTimers := s.connector.retryTimers - 1 } rfl hc'
    exact fun hne => absurd hnone hne
  | functor errno =>
    simp only [System.step] at hok
    split at hok
    · rename_i n f fs hphase hqueue
      have hpopped : Live (s.popped n fs) := h
      exact hpopped.runFunctor hok
    · obtain rfl := Except.ok.inj hok
      exact h

theorem live_init : Live .init := fun hne => absurd rfl hne

theorem connected_of_connection (as : List Action) : machine.Always Live .init as :=
  Machine.always_of_step (fun _ _ _ h hok => h.step hok) live_init as

/-! ## The sockets of a client -/

open Connector (Sockets)

/-- What `removeConnection` does to the connector. -/
def removes (t : TcpClient) (errno : ConnectErrno) : List Connector.Action :=
  if t.retry_ ∧ t.connect_ then [.restart errno] else []

namespace System

/-- What a functor does to the connector after it was taken from the queue. -/
def functorAsks (s : System) (errno : ConnectErrno) : Connector.Functor → List Connector.Action
  | .forceCloseInLoop conn => if s.client.connection = some conn then s.client.removes errno else []
  | .stopInLoop | .resetChannel => []

/-- What an action of the client does to its connector. -/
def asks (s : System) : Action → List Connector.Action
  | .connect errno => [.start errno]
  | .stop => [.stop]
  | .forceClose =>
    match s.client.connection with
    | some conn => [.forceClose conn]
    | none => []
  | .event error write o =>
    (if error then [.handleError] else []) ++ if write then [.handleWrite o] else []
  | .close errno =>
    match s.client.connection with
    | some _ => s.client.removes errno
    | none => []
  | .timer errno => [.timer errno]
  | .functor errno =>
    match s.phase, s.connector.pendingFunctors with
    | .functors (_ + 1), f :: _ => .functor :: s.functorAsks errno f
    | _, _ => []
  | .enableRetry | .disconnect | .poll | .handled => []

/-- What a run of the client does to its connector. -/
def asked : System → List Action → List Connector.Action
  | _, [] => []
  | s, a :: as =>
    match s.step a with
    | .ok s' => s.asks a ++ asked s' as
    | .error _ => s.asks a

end System

variable {t : Sockets}

/-- The actions on the connector lead from the sockets to some with the connector `c`, and restart it
in no attempt. -/
def Leads (t : Sockets) (bs : List Connector.Action) (ok : Connector → Prop) : Prop :=
  Sockets.machine.Along Sockets.Restarts t bs ∧
    ∀ c, ok c → ∃ t', Sockets.machine.run t bs = .ok t' ∧ t'.connector = c

theorem leads_nil {ok : Connector → Prop} (h : ∀ c, ok c → t.connector = c) : Leads t [] ok :=
  ⟨trivial, fun c hc => ⟨t, rfl, h c hc⟩⟩

theorem leads_cons {b : Connector.Action} {bs : List Connector.Action} {ok : Connector → Prop}
    (hb : Sockets.Restarts t b)
    (h : ∀ c, t.connector.step b = .ok c → ∀ t' : Sockets, t'.connector = c → Leads t' bs ok)
    (hok : ∀ c, ok c → ∃ c', t.connector.step b = .ok c') : Leads t (b :: bs) ok := by
  refine ⟨⟨hb, fun t' ht' => ?_⟩, fun c hc => ?_⟩
  · have hstep := Sockets.erase_step t b
    rw [show t.step b = .ok t' from ht'] at hstep
    exact (h _ hstep.symm t' rfl).1
  · obtain ⟨c', hc'⟩ := hok c hc
    obtain ⟨t', ht', heq⟩ := Sockets.exists_step hc'
    obtain ⟨t'', hrun, hc''⟩ := (h c' hc' t' heq).2 c hc
    exact ⟨t'', (Machine.run_cons_ok (M := Sockets.machine) ht' bs).trans hrun, hc''⟩

theorem leads_single {b : Connector.Action} {ok : Connector → Prop} (hb : Sockets.Restarts t b)
    (hok : ∀ c, ok c → t.connector.step b = .ok c) : Leads t [b] ok :=
  leads_cons hb (fun c' hc' t' ht' => leads_nil fun c hc => ht'.trans
    (Except.ok.inj (hc'.symm.trans (hok c hc)))) fun c hc => ⟨c, hok c hc⟩

theorem Live.leads_close (h : Live s) (ht : t.connector = s.connector) {conn : ℕ}
    (hconn : s.client.connection = some conn) (errno : ConnectErrno) :
    Leads t (s.client.removes errno) fun c => ∃ s', s.close conn errno = .ok s' ∧ s'.connector = c := by
  unfold removes
  split_ifs with hretry
  · refine leads_single ?_ ?_
    · show t.connector.state ≠ .kConnecting
      rw [ht, h (by rw [hconn]; exact Option.some_ne_none conn)]
      decide
    · rintro c ⟨s', hs', rfl⟩
      obtain ⟨client, hclient, hs'⟩ := bind_eq_ok.1 hs'
      obtain rfl := Except.ok.inj hs'
      obtain ⟨-, hclient⟩ := check_bind_eq_ok.1 hclient
      rw [if_pos hretry] at hclient
      obtain ⟨c', hc', hclient⟩ := bind_eq_ok.1 hclient
      obtain rfl := Except.ok.inj hclient
      rw [ht]
      exact hc'
  · refine leads_nil ?_
    rintro c ⟨s', hs', rfl⟩
    obtain ⟨client, hclient, hs'⟩ := bind_eq_ok.1 hs'
    obtain rfl := Except.ok.inj hs'
    obtain ⟨-, hclient⟩ := check_bind_eq_ok.1 hclient
    rw [if_neg hretry] at hclient
    obtain rfl := Except.ok.inj hclient
    exact ht

/-- A functor is taken from the queue, or there is none to run. -/
theorem functor_cases (s : System) (errno : ConnectErrno) :
    (∃ n f fs, s.connector.pendingFunctors = f :: fs ∧
      s.step (.functor errno) = (s.popped n fs).runFunctor errno f ∧
      s.asks (.functor errno) = .functor :: s.functorAsks errno f) ∨
    s.step (.functor errno) = .ok s ∧ s.asks (.functor errno) = [] := by
  unfold System.step System.asks
  dsimp only
  cases s.phase with
  | handling => exact Or.inr ⟨rfl, rfl⟩
  | functors n =>
    cases n with
    | zero => exact Or.inr ⟨rfl, rfl⟩
    | succ n =>
      cases s.connector.pendingFunctors with
      | nil => exact Or.inr ⟨rfl, rfl⟩
      | cons f fs => exact Or.inl ⟨n, f, fs, rfl, rfl, rfl⟩

theorem Live.leads_functor (h : Live s) (ht : t.connector = s.connector) (errno : ConnectErrno) :
    Leads t (s.asks (.functor errno)) fun c =>
      ∃ s', s.step (.functor errno) = .ok s' ∧ s'.connector = c := by
  rcases functor_cases s errno with ⟨n, f, fs, hqueue, hs, hasks⟩ | ⟨hs, hasks⟩
  · rw [hs, hasks]
    have hpopped : Live (s.popped n fs) := h
    have hstep : t.connector.step .functor = _ :=
      (congrArg (Connector.step · .functor) ht).trans (Connector.step_functor hqueue)
    cases f with
    | stopInLoop =>
      refine leads_single trivial ?_
      rintro c ⟨s', hs', rfl⟩
      obtain ⟨c', hc', hs'⟩ := bind_eq_ok.1 hs'
      obtain rfl := Except.ok.inj hs'
      exact hstep.trans hc'
    | resetChannel =>
      refine leads_single trivial ?_
      rintro c ⟨s', hs', rfl⟩
      obtain rfl := Except.ok.inj hs'
      exact hstep
    | forceCloseInLoop conn =>
      refine leads_cons trivial (fun c hc t' ht' => ?_) fun c _ => ⟨_, hstep⟩
      have ht'' : t'.connector = (s.popped n fs).connector :=
        ht'.trans (Except.ok.inj (hc.symm.trans hstep))
      by_cases hconn : s.client.connection = some conn
      · have hconn' : (s.popped n fs).client.connection = some conn := hconn
        rw [System.functorAsks, if_pos hconn, System.runFunctor, if_pos hconn']
        exact hpopped.leads_close ht'' hconn errno
      · have hconn' : (s.popped n fs).client.connection ≠ some conn := hconn
        rw [System.functorAsks, if_neg hconn, System.runFunctor, if_neg hconn']
        refine leads_nil ?_
        rintro c' ⟨s', hs', rfl⟩
        obtain rfl := Except.ok.inj hs'
        exact ht''
  · rw [hs, hasks]
    refine leads_nil ?_
    rintro c ⟨s', hs', rfl⟩
    obtain rfl := Except.ok.inj hs'
    exact ht

theorem leads_handleWrite (ht : t.connector = s.connector) (write : Bool) (o : SocketOutcome) :
    Leads t (if write then [.handleWrite o] else []) fun c =>
      ∃ s', (if write then s.handleWrite o else .ok s) = .ok s' ∧ s'.connector = c := by
  cases write with
  | false =>
    refine leads_nil ?_
    rintro c ⟨s', hs', rfl⟩
    obtain rfl := Except.ok.inj hs'
    exact ht
  | true =>
    refine leads_single trivial ?_
    rintro c ⟨s', hs', rfl⟩
    obtain ⟨⟨connected, c'⟩, hc', hs'⟩ := bind_eq_ok.1 hs'
    obtain rfl := Except.ok.inj hs'
    rw [ht]
    show (do return (← s.connector.handleWrite o).2) = _
    rw [hc']
    cases connected <;> rfl

theorem leads_event (ht : t.connector = s.connector) (error write : Bool) (o : SocketOutcome) :
    Leads t (s.asks (.event error write o)) fun c =>
      ∃ s', s.step (.event error write o) = .ok s' ∧ s'.connector = c := by
  cases error with
  | false => exact leads_handleWrite ht write o
  | true =>
    refine leads_cons trivial (fun c hc t' ht' => ?_) ?_
    · have hs₁ : s.handleError = .ok (s.setConnector c) := by
        rw [ht] at hc
        show (do return s.setConnector (← s.connector.handleError)) = _
        rw [show s.connector.handleError = .ok c from hc]
        rfl
      have hstep : s.step (.event true write o) =
          if write then (s.setConnector c).handleWrite o else .ok (s.setConnector c) := by
        show (s.handleError >>= fun s => if write then s.handleWrite o else .ok s) = _
        rw [hs₁]
        rfl
      rw [hstep]
      exact leads_handleWrite (s := s.setConnector c) ht' write o
    · rintro c ⟨s', hs', rfl⟩
      obtain ⟨s₁, hs₁, -⟩ := bind_eq_ok.1 hs'
      obtain ⟨c', hc', -⟩ := bind_eq_ok.1 hs₁
      rw [ht]
      exact ⟨c', hc'⟩

theorem Live.leads (h : Live s) (ht : t.connector = s.connector) {a : Action} (hE : Env s a) :
    Leads t (s.asks a) fun c => ∃ s', s.step a = .ok s' ∧ s'.connector = c := by
  cases a with
  | enableRetry | disconnect | poll | handled =>
    refine leads_nil ?_
    rintro c ⟨s', hs', rfl⟩
    obtain rfl := Except.ok.inj hs'
    exact ht
  | connect errno =>
    refine leads_single trivial ?_
    rintro c ⟨s', hs', rfl⟩
    obtain ⟨client, hclient, hs'⟩ := bind_eq_ok.1 hs'
    obtain rfl := Except.ok.inj hs'
    obtain ⟨c', hc', hclient⟩ := bind_eq_ok.1 hclient
    obtain rfl := Except.ok.inj hclient
    rw [ht]
    exact hc'
  | stop =>
    refine leads_single trivial ?_
    rintro c ⟨s', hs', rfl⟩
    obtain rfl := Except.ok.inj hs'
    rw [ht]
    rfl
  | forceClose =>
    simp only [System.asks, System.step]
    cases hconn : s.client.connection with
    | some conn =>
      refine leads_single trivial ?_
      rintro c ⟨s', hs', rfl⟩
      obtain rfl := Except.ok.inj hs'
      rw [ht]
      rfl
    | none => exact absurd hconn hE
  | event error write o => exact leads_event ht error write o
  | close errno =>
    simp only [System.asks, System.step]
    cases hconn : s.client.connection with
    | some conn => exact h.leads_close ht hconn errno
    | none => exact absurd hconn hE.2.2
  | timer errno =>
    refine leads_single trivial ?_
    rintro c ⟨s', hs', rfl⟩
    obtain ⟨c', hc', hs'⟩ := bind_eq_ok.1 hs'
    obtain rfl := Except.ok.inj hs'
    rw [ht, Connector.step, if_neg hE.2.ne']
    exact hc'
  | functor errno => exact h.leads_functor ht errno

theorem Live.leads_run (h : Live s) (ht : t.connector = s.connector) {as : List Action}
    (hE : machine.Along Env s as) :
    Leads t (s.asked as) fun c => ∃ s', machine.run s as = .ok s' ∧ s'.connector = c := by
  induction as generalizing s t with
  | nil =>
    refine leads_nil ?_
    rintro c ⟨s', hs', rfl⟩
    obtain rfl := Except.ok.inj hs'
    exact ht
  | cons a as ih =>
    obtain ⟨halong, hleads⟩ := h.leads ht hE.1
    cases hstep : s.step a with
    | error f =>
      have hasked : s.asked (a :: as) = s.asks a := by
        rw [System.asked, hstep]
      rw [hasked]
      refine ⟨halong, ?_⟩
      rintro c ⟨s', hs', -⟩
      rw [Machine.run_cons_error (M := machine) hstep] at hs'
      cases hs'
    | ok s₁ =>
      have hasked : s.asked (a :: as) = s.asks a ++ s₁.asked as := by
        rw [System.asked, hstep]
      obtain ⟨t₁, ht₁, hconnector⟩ := hleads _ ⟨s₁, hstep, rfl⟩
      obtain ⟨halong', hleads'⟩ := ih (h.step hstep) hconnector (hE.2 s₁ hstep)
      rw [hasked, Leads, Machine.along_append, Machine.run_append ht₁,
        Machine.run_cons_ok (M := machine) hstep]
      refine ⟨⟨halong, fun t' ht' => ?_⟩, hleads'⟩
      obtain rfl := Except.ok.inj (ht₁.symm.trans ht')
      exact halong'

/-- In every run of a client each socket is disposed of once: `restart()` comes when no attempt is under
way. -/
theorem sockets_disposed (as : List Action) (hE : machine.Along Env .init as) :
    Sockets.machine.Always Sockets.Disposed Sockets.new (System.init.asked as) ∧
      ∀ s, machine.run .init as = .ok s →
        ∃ t, Sockets.machine.run Sockets.new (System.init.asked as) = .ok t ∧
          t.connector = s.connector := by
  obtain ⟨halong, hrun⟩ := live_init.leads_run (t := Sockets.new) rfl hE
  refine ⟨?_, fun s hs => hrun _ ⟨s, hs, rfl⟩⟩
  have hinv : Sockets.machine.Always Sockets.Inv Sockets.new (System.init.asked as) :=
    Machine.always_of_along (fun _ _ _ hs ha hok => hs.step ha hok) Sockets.inv_new halong
  exact hinv.mono fun _ hs => hs.disposed

end TcpClient

end Reactor
