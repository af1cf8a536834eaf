import Reactor.Base

/-!
# Connector and TcpClient

A `Connector` tries to connect until it succeeds, on sockets that it gives up after each attempt.
What it leaves with its loop are retry timers, each of which will call `startInLoop`, and functors;
among these stand the `forceCloseInLoop` of the client's connections as well, since the loop has one
queue.  The calls are those on the loop's thread, where `runInLoop` is a call.

The outcome of a system call is an argument of the function that makes it.
-/

namespace Reactor

/-- The outcome of `connect(2)`, `savedErrno`. -/
inductive ConnectErrno where
  | success
  | EINPROGRESS
  | EINTR
  | EISCONN
  | EAGAIN
  | EADDRINUSE
  | EADDRNOTAVAIL
  | ECONNREFUSED
  | ENETUNREACH
  | EACCES
  | EPERM
  | EAFNOSUPPORT
  | EALREADY
  | EBADF
  | EFAULT
  | ENOTSOCK
  | other (errno : ℕ)
  deriving DecidableEq, Repr

/-- The outcomes after which the attempt is under way. -/
def ConnectErrno.underWay : ConnectErrno → Bool
  | .success | .EINPROGRESS | .EINTR | .EISCONN => true
  | _ => false

/-- The outcomes after which the connector tries again later. -/
def ConnectErrno.retried : ConnectErrno → Bool
  | .EAGAIN | .EADDRINUSE | .EADDRNOTAVAIL | .ECONNREFUSED | .ENETUNREACH => true
  | _ => false

/-- What `handleWrite` finds out about the socket. -/
inductive SocketOutcome where
  | error
  | selfConnect
  | connected
  deriving DecidableEq, Repr

namespace Connector

inductive States where
  | kDisconnected
  | kConnecting
  | kConnected
  deriving DecidableEq, Repr

/-- `channel_`: null, watched by the poller, or removed from it and not reset yet. -/
inductive ChannelPtr where
  | null
  | registered
  | removed
  deriving DecidableEq, Repr

/-- What waits in the loop's queue. -/
inductive Functor where
  | stopInLoop
  | resetChannel
  | forceCloseInLoop (conn : ℕ)
  deriving DecidableEq, Repr

def kMaxRetryDelayMs : ℕ := 30 * 1000
def kInitRetryDelayMs : ℕ := 500

end Connector

/-- `Connector`, and what it has left with its loop. -/
structure Connector where
  connect_ : Bool
  state : Connector.States
  channel : Connector.ChannelPtr
  retryDelayMs : ℕ
  pendingFunctors : List Connector.Functor
  retryTimers : ℕ
  deriving DecidableEq, Repr

namespace Connector

def new : Connector := ⟨false, .kDisconnected, .null, kInitRetryDelayMs, [], 0⟩

def queueInLoop (c : Connector) (f : Functor) : Connector :=
  { c with pendingFunctors := c.pendingFunctors ++ [f] }

def retry (c : Connector) : Connector :=
  let c := { c with state := .kDisconnected }
  if c.connect_ then { c with
    retryTimers := c.retryTimers + 1
    retryDelayMs := min (c.retryDelayMs * 2) kMaxRetryDelayMs }
  else c

def connecting (c : Connector) : Except Fault Connector := do
  let c := { c with state := .kConnecting }
  check .connecting (c.channel = .null)
  return { c with channel := .registered }

/-- `connect`; an error that is not expected closes the socket. -/
def connect (c : Connector) : ConnectErrno → Except Fault Connector
  | .success | .EINPROGRESS | .EINTR | .EISCONN => c.connecting
  | .EAGAIN | .EADDRINUSE | .EADDRNOTAVAIL | .ECONNREFUSED | .ENETUNREACH => return c.retry
  | .EACCES | .EPERM | .EAFNOSUPPORT | .EALREADY | .EBADF | .EFAULT | .ENOTSOCK => return c
  | .other _ => return c

def startInLoop (c : Connector) (errno : ConnectErrno) : Except Fault Connector := do
  check .startInLoop (c.state = .kDisconnected)
  if c.connect_ then c.connect errno else return c

def start (c : Connector) (errno : ConnectErrno) : Except Fault Connector :=
  { c with connect_ := true }.startInLoop errno

def stop (c : Connector) : Connector := { c with connect_ := false }.queueInLoop .stopInLoop

def removeAndResetChannel (c : Connector) : Except Fault Connector := do
  check .nullPointer (c.channel ≠ .null)
  return { c with channel := .removed }.queueInLoop .resetChannel

def stopInLoop (c : Connector) : Except Fault Connector := do
  if c.state = .kConnecting then
    let c ← { c with state := .kDisconnected }.removeAndResetChannel
    return c.retry
  else return c

def resetChannel (c : Connector) : Connector := { c with channel := .null }

/-- `handleWrite`; says whether `newConnectionCallback_` is invoked. -/
def handleWrite (c : Connector) (o : SocketOutcome) : Except Fault (Bool × Connector) := do
  if c.state = .kConnecting then
    let c ← c.removeAndResetChannel
    match o with
    | .error | .selfConnect => return (false, c.retry)
    | .connected => return (c.connect_, { c with state := .kConnected })
  else
    check .connectorHandleWrite (c.state = .kDisconnected)
    return (false, c)

def handleError (c : Connector) : Except Fault Connector := do
  if c.state = .kConnecting then
    let c ← c.removeAndResetChannel
    return c.retry
  else return c

def restart (c : Connector) (errno : ConnectErrno) : Except Fault Connector :=
  { c with
    state := .kDisconnected
    retryDelayMs := kInitRetryDelayMs
    connect_ := true }.startInLoop errno

end Connector

/-- `TcpClient`; a connection is known by its `nextConnId_`. -/
structure TcpClient where
  connector : Connector
  retry_ : Bool
  connect_ : Bool
  connection : Option ℕ
  nextConnId : ℕ
  deriving DecidableEq, Repr

namespace TcpClient

def new : TcpClient := ⟨Connector.new, false, true, none, 1⟩

def enableRetry (t : TcpClient) : TcpClient := { t with retry_ := true }

def connect (t : TcpClient) (errno : ConnectErrno) : Except Fault TcpClient := do
  return { t with connect_ := true, connector := ← t.connector.start errno }

/-- `disconnect`; the half-close of the connection is its own affair, and so is the assertion on its
`shutdown(2)`. -/
def disconnect (t : TcpClient) : TcpClient := { t with connect_ := false }

def stop (t : TcpClient) : TcpClient := { t with connect_ := false, connector := t.connector.stop }

/-- `newConnection`, the `newConnectionCallback_` of the connector. -/
def newConnection (t : TcpClient) : TcpClient :=
  { t with connection := some t.nextConnId, nextConnId := t.nextConnId + 1 }

/-- `removeConnection`, the `closeCallback_` of the client's connections. -/
def removeConnection (t : TcpClient) (conn : ℕ) (errno : ConnectErrno) : Except Fault TcpClient := do
  check .removeConnection (t.connection = some conn)
  let t := { t with connection := none }
  if t.retry_ ∧ t.connect_ then return { t with connector := ← t.connector.restart errno }
  else return t

end TcpClient

end Reactor
