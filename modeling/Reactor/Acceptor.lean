import Reactor.Lib.Machine
import Reactor.TcpServer

/-!
# Acceptor

`handleRead` accepts a connection.  When the process has run out of descriptors (`EMFILE`) it means
to give up `idleFd_` for a moment, so that the connection at the head of the backlog can be accepted
and closed.  But `sockets::accept` calls `fcntl(2)` on what `accept(2)` returned before it looks at
`errno`, and on `-1` that fails with `EBADF`.  So a failing `accept(2)` is observed as `EBADF`
whatever it failed with, the branch for `EMFILE` is never taken, and the connection stays in the
backlog of a channel that remains readable.

`errno` is a member of the state: every system call that fails overwrites it.
-/

namespace Reactor

/-- The errors that `sockets::accept` tells apart. -/
inductive AcceptErrno where
  | EAGAIN
  | ECONNABORTED
  | EINTR
  | EPROTO
  | EPERM
  | EMFILE
  | EBADF
  | EFAULT
  | EINVAL
  | ENFILE
  | ENOBUFS
  | ENOMEM
  | ENOTSOCK
  | EOPNOTSUPP
  | other (errno : ℕ)
  deriving DecidableEq, Repr

/-- The outcome of `accept(2)`. -/
inductive AcceptResult where
  | accepted
  | fail (errno : AcceptErrno)
  deriving DecidableEq, Repr

/-- A connection that the kernel has established, and the address of its peer. -/
structure Pending where
  id : ℕ
  peerAddr : InetAddress
  deriving DecidableEq, Repr

/-- What an open descriptor refers to. -/
inductive File where
  | devNull
  | conn (c : Pending)
  deriving DecidableEq, Repr

/-- `Acceptor`, with `errno` and the backlog of its listening socket.  A descriptor is `none` when it
is `-1`. -/
structure Acceptor where
  errno : AcceptErrno
  backlog : List Pending
  idleFd : Option File
  -- whether `newConnectionCallback_` is set
  newConnectionCallback : Bool
  -- seen from outside: connections passed to the callback, and connections closed
  delivered : List Pending
  closed : List Pending
  deriving DecidableEq, Repr

namespace Acceptor

/-- The constructor asserts that `/dev/null` could be opened. -/
def new (errno : AcceptErrno) (backlog : List Pending) (newConnectionCallback : Bool) : Acceptor where
  errno := errno
  backlog := backlog
  idleFd := some .devNull
  newConnectionCallback := newConnectionCallback
  delivered := []
  closed := []

/-! ## System calls -/

def setErrno (p : Acceptor) (errno : AcceptErrno) : Acceptor := { p with errno := errno }

/-- `fcntl(2)` with any of the four commands used here. -/
def fcntl (p : Acceptor) : Option File → Acceptor
  | none => p.setErrno .EBADF
  | some _ => p

/-- `close(2)` -/
def close (p : Acceptor) : Option File → Acceptor
  | none => p.setErrno .EBADF
  | some .devNull => p
  | some (.conn c) => { p with closed := p.closed ++ [c] }

/-- `open("/dev/null", O_RDONLY | O_CLOEXEC)`, or the error with which it fails. -/
def openDevNull (p : Acceptor) : Option AcceptErrno → Option File × Acceptor
  | none => (some .devNull, p)
  | some errno => (none, p.setErrno errno)

/-- The error of `accept(2)` on a non-blocking socket, if it fails. -/
def failure (p : Acceptor) : AcceptResult → Option AcceptErrno
  | .accepted => if p.backlog = [] then some .EAGAIN else none
  | .fail errno => some errno

/-- `accept(2)`: the head of the backlog, or `none` for `-1`. -/
def sysAccept (p : Acceptor) (r : AcceptResult) : Option Pending × Acceptor :=
  match p.failure r, p.backlog with
  | some errno, _ => (none, p.setErrno errno)
  | none, c :: backlog => (some c, { p with backlog := backlog })
  | none, [] => (none, p)

/-! ## Accepting -/

def setNonBlockAndCloseOnExec (p : Acceptor) (sockfd : Option File) : Acceptor :=
  (((p.fcntl sockfd).fcntl sockfd).fcntl sockfd).fcntl sockfd

/-- The errors after which `sockets::accept` puts `errno` back. -/
def expected : AcceptErrno → Bool
  | .EAGAIN | .ECONNABORTED | .EINTR | .EPROTO | .EPERM | .EMFILE => true
  | _ => false

/-- `sockets::accept`.  `Socket::accept` only adds the address of the peer. -/
def accept (p : Acceptor) (r : AcceptResult) : Option Pending × Acceptor :=
  let (connfd, p) := p.sysAccept r
  let p := p.setNonBlockAndCloseOnExec (connfd.map .conn)
  if connfd = none then
    let savedErrno := p.errno
    (connfd, if expected savedErrno then p.setErrno savedErrno else p)
  else (connfd, p)

/-- The branch of `handleRead` for `EMFILE`: `again` is the outcome of its `accept(2)` and `opened`
that of its `open(2)`. -/
def dropOne (p : Acceptor) (again : AcceptResult) (opened : Option AcceptErrno) : Acceptor :=
  let p := p.close p.idleFd
  let (connfd, p) := p.sysAccept again
  let p := { p with idleFd := connfd.map .conn }
  let p := p.close p.idleFd
  let (fd, p) := p.openDevNull opened
  { p with idleFd := fd }

def handleRead (p : Acceptor) (r again : AcceptResult) (opened : Option AcceptErrno) : Acceptor :=
  let (connfd, p) := p.accept r
  match connfd with
  | some c =>
    if p.newConnectionCallback then { p with delivered := p.delivered ++ [c] }
    else p.close (some (.conn c))
  | none => if p.errno = .EMFILE then p.dropOne again opened else p

/-- What happens to the acceptor: a connection is established, another call of the process fails, or
the listening socket is readable. -/
inductive Action where
  | established (c : Pending)
  | otherCall (errno : AcceptErrno)
  | handleRead (r again : AcceptResult) (opened : Option AcceptErrno)
  deriving DecidableEq, Repr

def step (p : Acceptor) : Action → Except Fault Acceptor
  | .established c => return { p with backlog := p.backlog ++ [c] }
  | .otherCall errno => return p.setErrno errno
  | .handleRead r again opened => return p.handleRead r again opened

def machine : Machine Acceptor Action Fault := ⟨step⟩

/-- The error reaches `handleRead`; after `EMFILE`, with a connection in the backlog, one connection is
taken off it and closed; and `idleFd_` is open on `/dev/null` afterwards if it could be opened. -/
def Handled (p : Acceptor) : Action → Prop
  | .handleRead r again opened =>
    (∀ e, p.failure r = some e → (p.accept r).2.errno = e) ∧
    (p.failure r = some .EMFILE → again = .accepted → ∀ c rest, p.backlog = c :: rest →
      (p.handleRead r again opened).backlog = rest ∧
        (p.handleRead r again opened).closed = p.closed ++ [c]) ∧
    (opened = none → (p.handleRead r again opened).idleFd = some .devNull)
  | .established _ | .otherCall _ => True

/-- If `accept(2)` fails, it is with `EBADF`. -/
def OnlyBadFd (p : Acceptor) : Action → Prop
  | .handleRead r _ _ => ∀ e, p.failure r = some e → e = .EBADF
  | .established _ | .otherCall _ => True

/-! ## What a failing accept leaves -/

theorem sysAccept_of_failure {p : Acceptor} {r : AcceptResult} {e : AcceptErrno}
    (h : p.failure r = some e) : p.sysAccept r = (none, p.setErrno e) := by
  unfold sysAccept
  rw [h]

theorem sysAccept_of_success {p : Acceptor} {r : AcceptResult} (h : p.failure r = none) :
    ∃ c backlog, p.backlog = c :: backlog ∧
      p.sysAccept r = (some c, { p with backlog := backlog }) := by
  cases r with
  | fail errno => cases h
  | accepted =>
    cases hb : p.backlog with
    | nil =>
      rw [failure, if_pos hb] at h
      cases h
    | cons c backlog =>
      refine ⟨c, backlog, rfl, ?_⟩
      unfold sysAccept
      rw [h, hb]

/-- `EBADF` is not an error after which `errno` is put back, but it is there already. -/
theorem accept_of_failure {p : Acceptor} {r : AcceptResult} {e : AcceptErrno}
    (h : p.failure r = some e) : p.accept r = (none, p.setErrno .EBADF) := by
  unfold accept
  rw [sysAccept_of_failure h]
  rfl

theorem accept_of_success {p : Acceptor} {r : AcceptResult} (h : p.failure r = none) :
    ∃ c backlog, p.backlog = c :: backlog ∧ p.accept r = (some c, { p with backlog := backlog }) := by
  obtain ⟨c, backlog, hb, hsys⟩ := sysAccept_of_success h
  refine ⟨c, backlog, hb, ?_⟩
  unfold accept
  rw [hsys]
  rfl

/-- Nothing is accepted and nothing is closed. -/
theorem handleRead_of_failure {p : Acceptor} {r : AcceptResult} {e : AcceptErrno}
    (h : p.failure r = some e) (again : AcceptResult) (opened : Option AcceptErrno) :
    p.handleRead r again opened = p.setErrno .EBADF := by
  unfold handleRead
  rw [accept_of_failure h]
  rfl

/-- The branch for `EMFILE` does what it is for; it is `accept` that never leads there. -/
theorem dropOne_eq {p : Acceptor} (hidle : p.idleFd = some .devNull) {c : Pending}
    {backlog : List Pending} (hb : p.backlog = c :: backlog) :
    p.dropOne .accepted none = { p with backlog := backlog, closed := p.closed ++ [c] } := by
  have hfree : (p.close p.idleFd).failure .accepted = none := by
    rw [hidle, failure, if_neg]
    show p.backlog ≠ []
    rw [hb]
    simp
  obtain ⟨c', backlog', hb', hsys⟩ := sysAccept_of_success hfree
  rw [hidle] at hb' hsys
  obtain ⟨rfl, rfl⟩ : c = c' ∧ backlog = backlog' := List.cons.inj (hb.symm.trans hb')
  unfold dropOne
  dsimp only
  rw [hidle, hsys]
  simp only [Option.map_some, close, openDevNull]

/-! ## Whole runs -/

theorem handleRead_of_success {p : Acceptor} {r : AcceptResult} (h : p.failure r = none)
    (again : AcceptResult) (opened : Option AcceptErrno) :
    (p.handleRead r again opened).idleFd = p.idleFd := by
  obtain ⟨c, backlog, -, haccept⟩ := accept_of_success h
  unfold handleRead
  rw [haccept]
  dsimp only
  split_ifs <;> rfl

/-- `idleFd_` is never given up. -/
theorem handleRead_idleFd (p : Acceptor) (r again : AcceptResult) (opened : Option AcceptErrno) :
    (p.handleRead r again opened).idleFd = p.idleFd := by
  cases h : p.failure r with
  | none => exact handleRead_of_success h again opened
  | some e =>
    rw [handleRead_of_failure h]
    rfl

theorem step_idleFd (p : Acceptor) (a : Action) (p' : Acceptor) (hidle : p.idleFd = some .devNull)
    (hstep : machine.step p a = .ok p') : p'.idleFd = some .devNull := by
  cases a with
  | established c =>
    obtain rfl := Except.ok.inj hstep
    exact hidle
  | otherCall errno =>
    obtain rfl := Except.ok.inj hstep
    exact hidle
  | handleRead r again opened =>
    obtain rfl := Except.ok.inj hstep
    rw [handleRead_idleFd]
    exact hidle

theorem handled_iff {p : Acceptor} (hidle : p.idleFd = some .devNull) (a : Action) :
    Handled p a ↔ OnlyBadFd p a := by
  cases a with
  | established c => exact Iff.rfl
  | otherCall errno => exact Iff.rfl
  | handleRead r again opened =>
    constructor
    · rintro ⟨hobs, -, -⟩ e he
      have hseen := hobs e he
      rw [accept_of_failure he] at hseen
      exact hseen.symm
    · intro hbad
      refine ⟨?_, ?_, ?_⟩
      · intro e he
        rw [accept_of_failure he, hbad e he]
        rfl
      · intro he
        cases hbad _ he
      · intro _
        rw [handleRead_idleFd]
        exact hidle

/-- Along every run, errors are observed and handled exactly when no `accept(2)` fails with another
error than `EBADF`.  `idleFd_` stays open on `/dev/null` in any case, and a failing `accept(2)` changes
nothing but `errno`. -/
theorem accept_errors_handled_iff (errno : AcceptErrno) (backlog : List Pending) (callback : Bool)
    (as : List Action) :
    (machine.Along Handled (new errno backlog callback) as ↔
      machine.Along OnlyBadFd (new errno backlog callback) as) ∧
    machine.Always (fun p => p.idleFd = some .devNull) (new errno backlog callback) as ∧
    ∀ p r e again opened, failure p r = some e → handleRead p r again opened = setErrno p .EBADF := by
  have hfree : machine.Along (fun _ _ => True) (new errno backlog callback) as :=
    Machine.along_true _ _
  refine ⟨?_, Machine.always_of_step step_idleFd rfl as, ?_⟩
  · exact Machine.along_congr (I := fun p => p.idleFd = some .devNull)
      (fun p a p' hidle _ hstep => step_idleFd p a p' hidle hstep)
      (fun _ a hidle _ => handled_iff hidle a) rfl hfree
  · intro p r e again opened he
    exact handleRead_of_failure he again opened

/-- One connection waits and the process is out of descriptors: the connection still waits
afterwards. -/
theorem accept_errors_not_handled :
    ¬ ∀ (errno : AcceptErrno) (backlog : List Pending) (callback : Bool) (as : List Action),
      machine.Along Handled (new errno backlog callback) as := by
  intro h
  let c : Pending := ⟨1, .inet 0x7f000001 4000⟩
  obtain ⟨⟨-, hdrop, -⟩, -⟩ := h (.other 0) [c] true [.handleRead (.fail .EMFILE) .accepted none]
  have hgone := (hdrop rfl rfl c [] rfl).1
  revert hgone
  decide

end Acceptor

end Reactor
