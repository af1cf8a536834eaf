import Reactor.HttpContext
import Reactor.Lib.Machine
import Reactor.Lib.OrdSet
import Mathlib.Data.List.Lex
import Mathlib.Order.Basic

/-!
# The publish/subscribe hub

The codec, the server and the client of the hub example.  The server keeps every subscription twice:
`Topic` has its audience, and the context of a connection has its topics.

Of a connection the server has its state, by `up` and `shutdowns`: `TcpConnection::send` does nothing
unless it is `kConnected`.  What is sent is kept in `sent`, a list of the calls of `sendInLoop`.  The
outcome of a `shutdown(2)` is an argument of the function that calls `TcpConnection::shutdown`; it is
not asked for if the half-close has to wait, which is the affair of the connection.
-/

namespace Reactor

namespace Hub

/-! ## The codec -/

/-- `ParseResult` -/
inductive ParseResult where
  | kError
  | kSuccess
  | kContinue
  deriving DecidableEq, Repr

/-- What `parseMessage` stores through its pointers. -/
structure Message where
  cmd : Bytes
  topic : Bytes
  content : Bytes
  deriving DecidableEq, Repr

/-- `findCRLF(start)`: a position in the vector. -/
def findCRLFFrom (buf : Buffer) (start : ℕ) : Except Fault (Option ℕ) := do
  check .findCRLF (buf.peek ≤ start)
  check .findCRLF (start ≤ buf.beginWrite)
  return (Buffer.searchCRLF (Vec.slice buf.buffer start buf.beginWrite)).map (start + ·)

def parseMessage (buf : Buffer) : Except Fault (ParseResult × Message × Buffer) :=
  match buf.findCRLF with
  | none => return (.kContinue, ⟨[], [], []⟩, buf)
  | some crlf =>
    match splitFirst 32 (Vec.slice buf.buffer buf.peek crlf) with
    | none => return (.kError, ⟨[], [], []⟩, buf)
    | some (cmd, topic) =>
      if cmd = ascii "pub" then do
        let start := crlf + 2
        match ← findCRLFFrom buf start with
        | some crlf =>
          let content := Vec.slice buf.buffer start crlf
          let buf ← buf.retrieveUntil (crlf + 2)
          return (.kSuccess, ⟨cmd, topic, content⟩, buf)
        | none => return (.kContinue, ⟨cmd, topic, []⟩, buf)
      else do
        let buf ← buf.retrieveUntil (crlf + 2)
        return (.kSuccess, ⟨cmd, topic, []⟩, buf)

/-! ## The server -/

/-- A `std::string` as the key of a set. -/
structure TopicName where
  text : Bytes
  deriving DecidableEq, Repr

/-- Strings are compared byte by byte. -/
instance : LinearOrder TopicName :=
  LinearOrder.lift' (fun t => t.text.map UInt8.toNat) fun t u h => by
    have htext := List.map_injective_iff.2 (fun a b => UInt8.toNat_inj.1) h
    cases t
    cases u
    exact congrArg TopicName.mk htext

/-- A `TcpConnectionPtr`. -/
abbrev Conn := ℕ

structure Topic where
  topic : Bytes
  content : Bytes
  lastPubTime : ℤ
  audiences : OrdSet Conn

/-- The constructor. -/
def Topic.new (topic : Bytes) : Topic := ⟨topic, [], 0, ∅⟩

def Topic.makeMessage (t : Topic) : Bytes :=
  ascii "pub " ++ t.topic ++ crlf ++ t.content ++ crlf

/-- `Topic::add`, and its calls of `TcpConnection::send`. -/
def Topic.add (t : Topic) (conn : Conn) : Topic × List (Conn × StringPiece) :=
  let t := { t with audiences := (t.audiences.insert conn).1 }
  (t, if 0 < t.lastPubTime then [(conn, StringPiece.ofString t.makeMessage)] else [])

def Topic.remove (t : Topic) (conn : Conn) : Topic :=
  { t with audiences := (t.audiences.erase conn).1 }

/-- `Topic::publish`, and its calls of `TcpConnection::send`. -/
def Topic.publish (t : Topic) (content : Bytes) (time : ℤ) : Topic × List (Conn × StringPiece) :=
  let t := { t with content := content, lastPubTime := time }
  let message := t.makeMessage
  (t, t.audiences.toList.map fun conn => (conn, StringPiece.ofString message))

structure PubSubServer where
  topics : TopicName → Option Topic
  -- the `ConnectionSubscription` of a connection; none is an empty `boost::any`
  context : Conn → Option (OrdSet TopicName)
  -- the connections that are up, and those that were shut down
  up : List Conn
  shutdowns : List Conn
  sent : List (Conn × Bytes)

namespace PubSubServer

def new : PubSubServer := ⟨fun _ => none, fun _ => none, [], [], []⟩

/-- The state of the connection is `kConnected`. -/
def Connected (s : PubSubServer) (conn : Conn) : Prop := conn ∈ s.up ∧ conn ∉ s.shutdowns

instance (s : PubSubServer) (conn : Conn) : Decidable (s.Connected conn) :=
  inferInstanceAs (Decidable (_ ∧ _))

/-- `TcpConnection::send(const StringPiece&)` on the loop's thread. -/
def send (s : PubSubServer) (conn : Conn) (message : StringPiece) : Except Fault PubSubServer := do
  if s.Connected conn then return { s with sent := s.sent ++ [(conn, ← message.read)] } else return s

/-- The calls of `send` one after the other. -/
def sendAll : PubSubServer → List (Conn × StringPiece) → Except Fault PubSubServer
  | s, [] => return s
  | s, (conn, message) :: calls => do (← s.send conn message).sendAll calls

/-- `TcpConnection::shutdown` on the loop's thread. -/
def shutdown (s : PubSubServer) (conn : Conn) (r : ShutdownResult) : Except Fault PubSubServer := do
  if s.Connected conn then
    check .shutdownWrite (r = .success)
    return { s with shutdowns := conn :: s.shutdowns }
  else return s

/-- `getTopic`: the topic, which is created if there is none. -/
def getTopic (s : PubSubServer) (topic : Bytes) : Topic :=
  match s.topics ⟨topic⟩ with
  | some t => t
  | none => Topic.new topic

/-- The topic is stored back. -/
def setTopic (s : PubSubServer) (topic : Bytes) (t : Topic) : PubSubServer :=
  { s with topics := Function.update s.topics ⟨topic⟩ (some t) }

/-- `any_cast` gives a null pointer if the context is empty. -/
def connSub (s : PubSubServer) (conn : Conn) : Except Fault (OrdSet TopicName) :=
  match s.context conn with
  | some connSub => .ok connSub
  | none => .error .nullPointer

def doSubscribe (s : PubSubServer) (conn : Conn) (topic : Bytes) : Except Fault PubSubServer := do
  let connSub ← s.connSub conn
  let s := { s with context := Function.update s.context conn (some (connSub.insert ⟨topic⟩).1) }
  let (t, calls) := (s.getTopic topic).add conn
  (s.setTopic topic t).sendAll calls

def doUnsubscribe (s : PubSubServer) (conn : Conn) (topic : Bytes) : Except Fault PubSubServer := do
  let s := s.setTopic topic ((s.getTopic topic).remove conn)
  let connSub ← s.connSub conn
  return { s with context := Function.update s.context conn (some (connSub.erase ⟨topic⟩).1) }

def doPublish (s : PubSubServer) (topic content : Bytes) (time : ℤ) : Except Fault PubSubServer :=
  let (t, calls) := (s.getTopic topic).publish content time
  (s.setTopic topic t).sendAll calls

/-- The loop of `onConnection` for a connection that went down.  The iterator moves on before its
element is erased; to dereference it at an element that is not there is a fault. -/
def unsubscribeAll : ℕ → PubSubServer → Conn → Option TopicName → Except Fault PubSubServer
  | 0, _, _, _ => .error .outOfFuel
  | _ + 1, s, _, none => return s
  | fuel + 1, s, conn, some topic => do
    let connSub ← s.connSub conn
    check .useAfterFree (topic ∈ connSub)
    let s' ← s.doUnsubscribe conn topic.text
    unsubscribeAll fuel s' conn (connSub.next topic)

/-- `onConnection` of a connection that is up. -/
def onConnectionUp (s : PubSubServer) (conn : Conn) : PubSubServer :=
  { s with context := Function.update s.context conn (some ∅), up := conn :: s.up }

/-- `onConnection` of a connection that is down. -/
def onConnectionDown (s : PubSubServer) (conn : Conn) : Except Fault PubSubServer := do
  let connSub ← s.connSub conn
  unsubscribeAll (connSub.size + 1) { s with up := s.up.filter (· ≠ conn) } conn connSub.first

/-- The body of the loop of `onMessage` for a message that was parsed: whether the loop goes on. -/
def onCommand (s : PubSubServer) (conn : Conn) (m : Message) (receiveTime : ℤ) (r : ShutdownResult) :
    Except Fault (Bool × PubSubServer) := do
  if m.cmd = ascii "pub" then return (true, ← s.doPublish m.topic m.content receiveTime)
  else if m.cmd = ascii "sub" then return (true, ← s.doSubscribe conn m.topic)
  else if m.cmd = ascii "unsub" then return (true, ← s.doUnsubscribe conn m.topic)
  else return (false, ← s.shutdown conn r)

/-- The loop of `onMessage`; every round that goes on takes a line. -/
def messageLoop (conn : Conn) (receiveTime : ℤ) (r : ShutdownResult) :
    ℕ → PubSubServer → Buffer → Except Fault (PubSubServer × Buffer)
  | 0, _, _ => .error .outOfFuel
  | fuel + 1, s, buf => do
    let (result, m, buf) ← parseMessage buf
    match result with
    | .kSuccess =>
      let (goesOn, s) ← s.onCommand conn m receiveTime r
      if goesOn then messageLoop conn receiveTime r fuel s buf else return (s, buf)
    | .kError => return (← s.shutdown conn r, buf)
    | .kContinue => return (s, buf)

def onMessage (s : PubSubServer) (conn : Conn) (buf : Buffer) (receiveTime : ℤ) (r : ShutdownResult) :
    Except Fault (PubSubServer × Buffer) :=
  messageLoop conn receiveTime r (buf.readableBytes + 1) s buf

/-- `timePublish`, with the formatted time. -/
def timePublish (s : PubSubServer) (now : ℤ) (formatted : Bytes) : Except Fault PubSubServer :=
  s.doPublish (ascii "utc_time") formatted now

end PubSubServer

/-! ## The client -/

/-- The calls of `PubSubClient` that send something. -/
inductive Call where
  | subscribe (topic : Bytes)
  | unsubscribe (topic : Bytes)
  | publish (topic content : Bytes)
  deriving DecidableEq, Repr

/-- The message that a call sends. -/
def Call.message : Call → Bytes
  | .subscribe topic => ascii "sub" ++ topic ++ crlf
  | .unsubscribe topic => ascii "unsbu" ++ topic ++ crlf
  | .publish topic content => ascii "pub " ++ topic ++ crlf ++ content ++ crlf

end Hub

end Reactor
