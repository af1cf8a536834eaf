import Reactor.Buffer
import Reactor.Decimal
import Reactor.MemcacheServer

/-!
# Session

A `Session` of the memcached example reads commands from its connection, works on the server's items
and sends replies.  Of the connection it sees whether it is still connected, and what was sent on it.

The tokens of a request are the runs of bytes that are not spaces; an iterator is the list of the
tokens that are left.  A token is followed by a space or a CR, where `strtoul` stops.
-/

namespace Reactor

/-- `Item::output` -/
def Item.output (it : Item) (out : Buffer) (needCas : Bool) : Except Fault Buffer := do
  let out ← out.appendPiece (.ofString (ascii "VALUE "))
  let out ← out.append (← it.key.read)
  let buf := decimal it.flags ++ ascii " " ++ decimal (it.valuelen - 2).toNat
  let buf := if needCas then buf ++ ascii " " ++ decimal it.cas else buf
  let out ← out.appendPiece (.ofString (buf ++ crlf))
  out.append (← it.value it.valueLength)

namespace Session

inductive State where
  | kNewCommand
  | kReceiveValue
  | kDiscardValue
  deriving DecidableEq, Repr

inductive Protocol where
  | kAscii
  | kBinary
  | kAuto
  deriving DecidableEq, Repr

def kLongestKeySize : ℕ := 250

end Session

/-- `Session`; `connected` and `sent` are those of `conn_`, `stopped` says that `owner_` was told to
stop. -/
structure Session where
  owner : MemcacheServer
  connected : Bool
  sent : Bytes
  stopped : Bool
  state : Session.State
  protocol : Session.Protocol
  command : Bytes
  noreply : Bool
  policy : UpdatePolicy
  currItem : Option Item
  bytesToDiscard : ℕ
  needle : Item
  outputBuf : Buffer
  bytesRead : ℕ
  requestsProcessed : ℕ

namespace Session

/-! ## Numbers -/

/-- `isspace` -/
def isspace (b : Byte) : Bool := b = 32 ∨ 9 ≤ b ∧ b ≤ 13

/-- The sign of a number, and what follows it. -/
def sign : Bytes → Bool × Bytes
  | 45 :: digits => (true, digits)
  | 43 :: digits => (false, digits)
  | digits => (false, digits)

/-- `strtoul` to base 10, if it ends where the token does. -/
def strtoul (token : Bytes) : Option ℕ :=
  let (negative, digits) := sign (token.dropWhile isspace)
  if digits ≠ [] ∧ digits.all isdigit then
    let x := ofDecimal digits
    -- `ERANGE`
    if 2 ^ 64 ≤ x then some (2 ^ 64 - 1)
    else if negative then some ((2 ^ 64 - x) % 2 ^ 64)
    else some x
  else none

/-- `Reader::read`: what it returns, `*val` and the iterator.  It returns `true` for a token that is
not a number, which it leaves where it is. -/
def read {T : Type} (cast : ℕ → T) (val : T) : List Bytes → Bool × T × List Bytes
  | [] => (false, val, [])
  | token :: first =>
    match strtoul token with
    | some x => (true, cast x, first)
    | none => (true, val, token :: first)

/-- The casts to `uint32_t`, `time_t` and `int`. -/
def toUInt32 (x : ℕ) : ℕ := x % 2 ^ 32
def toTime (x : ℕ) : ℤ := Int.bmod x (2 ^ 64)
def toInt (x : ℤ) : ℤ := Int.bmod x (2 ^ 32)

/-- `rel_exptime`: more than thirty days are a date. -/
def relExptime (startTime exptime : ℤ) : ℤ :=
  if 60 * 60 * 24 * 30 < exptime then max (toInt (exptime - startTime)) 1 else toInt exptime

/-! ## Tokens -/

/-- The tokens of a request. -/
def tokens (request : Bytes) : List Bytes := (request.splitOn 32).filter (· ≠ [])

/-- `*beg` and `++beg` -/
def next : List Bytes → Except Fault (Bytes × List Bytes)
  | [] => .error .tokenizer
  | token :: beg => .ok (token, beg)

/-- A token as a `StringPiece`. -/
def piece (token : Bytes) : StringPiece := ⟨token, token.length⟩

/-! ## Replies -/

/-- `conn_->send(data, len)` -/
def send (s : Session) (data : Bytes) : Session :=
  if s.connected then { s with sent := s.sent ++ data } else s

/-- `conn_->send(&outputBuf_)` -/
def sendOutputBuf (s : Session) : Session :=
  if s.connected then { s.send s.outputBuf.readable with outputBuf := s.outputBuf.retrieveAll } else s

/-- `conn_->shutdown()` -/
def shutdown (s : Session) : Session := { s with connected := false }

def reply (s : Session) (msg : String) : Session := if s.noreply then s else s.send (ascii msg)

def resetRequest (s : Session) : Session :=
  { s with
    command := []
    noreply := false
    policy := .kInvalid
    currItem := none
    bytesToDiscard := 0 }

/-! ## Commands -/

variable (hashRange : Bytes → ℕ)

/-- `needle_->resetKey(key)` -/
def resetNeedle (s : Session) (key : Bytes) : Except Fault Session := do
  return { s with needle := ← s.needle.resetKey hashRange (piece key) }

/-- The policy of a command.  There is none for `prepend`. -/
def policyOf (policy : UpdatePolicy) (command : Bytes) : UpdatePolicy :=
  if command = ascii "set" then .kSet
  else if command = ascii "add" then .kAdd
  else if command = ascii "replace" then .kReplace
  else if command = ascii "append" then .kPrepend
  else if command = ascii "cas" then .kCas
  else policy

/-- The numbers of a storage command. -/
structure Numbers where
  flags : ℕ
  exptime : ℤ
  bytes : ℤ
  cas : ℕ

/-- What `doUpdate` reads, and whether it was good. -/
def readNumbers (policy : UpdatePolicy) (key : Bytes) (beg : List Bytes) : Bool × Numbers :=
  let good : Bool := key.length ≤ kLongestKeySize
  let (good, flags, first) := if good then read toUInt32 0 beg else (false, 0, beg)
  let (good, exptime, first) := if good then read toTime 1 first else (false, 1, first)
  let (good, bytes, first) := if good then read (fun x => toInt x) (-1) first else (false, -1, first)
  let (good, cas, _) := if good ∧ policy = .kCas then read id 0 first else (good, 0, first)
  (good, ⟨flags, exptime, bytes, cas⟩)

/-- `doUpdate`: whether the request is finished. -/
def doUpdate (s : Session) (beg : List Bytes) : Except Fault (Bool × Session) := do
  let s := { s with policy := policyOf s.policy s.command }
  let (key, beg) ← next beg
  let (good, ⟨flags, exptime, bytes, cas⟩) := readNumbers s.policy key beg
  if ¬ good then return (true, s.reply "CLIENT_ERROR bad command line format\r\n")
  -- the data block and its CRLF, an `int`
  let len := toInt (bytes + 2)
  if 1024 * 1024 < bytes then
    let s := s.reply "SERVER_ERROR object too large for cache\r\n"
    let s ← s.resetNeedle hashRange key
    let (_, owner) := s.owner.deleteItem s.needle
    return (false, { s with
      owner := owner, bytesToDiscard := (len % 2 ^ 64).toNat, state := .kDiscardValue })
  else
    let item ← Item.new hashRange (piece key) flags (relExptime s.owner.startTime exptime) len cas
    return (false, { s with currItem := some item, state := .kReceiveValue })

def doDelete (s : Session) (beg : List Bytes) : Except Fault Session := do
  check .doDelete (s.command = ascii "delete")
  let (key, beg) ← next beg
  if kLongestKeySize < key.length then
    return s.reply "CLIENT_ERROR bad command line format\r\n"
  else if beg ≠ [] ∧ beg.head? ≠ some (ascii "0") then
    return s.reply "CLIENT_ERROR bad command line format, Usage: delete <key> [noreply]\r\n"
  else
    let s ← s.resetNeedle hashRange key
    let (deleted, owner) := s.owner.deleteItem s.needle
    let s := { s with owner := owner }
    return s.reply (if deleted then "DELETED\r\n" else "NOT_FOUND\r\n")

/-- The loop of `get` and `gets`; it says whether all keys were good. -/
def getKeys (cas : Bool) : Session → List Bytes → Except Fault (Bool × Session)
  | s, [] => return (true, s)
  | s, key :: beg => do
    if kLongestKeySize < key.length then
      return (false, s.reply "CLIENT_ERROR bad command line format\r\n")
    let s ← s.resetNeedle hashRange key
    match s.owner.getItem s.needle with
    | some item => getKeys cas { s with outputBuf := ← item.output s.outputBuf cas } beg
    | none => getKeys cas s beg

def doGet (s : Session) (beg : List Bytes) : Except Fault Session := do
  let cas := s.command = ascii "gets"
  let (good, s) ← getKeys hashRange cas s beg
  if good then
    let outputBuf ← s.outputBuf.appendPiece (.ofString (ascii "END\r\n"))
    return { s with outputBuf := outputBuf }.sendOutputBuf
  else return s

/-- The end of the request line is compared with `" noreply"`, as a piece of length `0`. -/
def checkNoreply (s : Session) (request : StringPiece) : Session × StringPiece :=
  let suffix : StringPiece := ⟨request.data.drop (request.length.toNat - 8), 0⟩
  if 8 ≤ request.length ∧ suffix.equal (.ofString (ascii " noreply")) then
    ({ s with noreply := true }, { request with length := request.length - 8 })
  else (s, request)

/-- The branches of `processRequest`. -/
def dispatch (s : Session) (beg : List Bytes) : Except Fault (Bool × Session) :=
  if s.command = ascii "set" ∨ s.command = ascii "add" ∨ s.command = ascii "replace" ∨
      s.command = ascii "append" ∨ s.command = ascii "prepend" ∨ s.command = ascii "cas" then
    s.doUpdate hashRange beg
  else if s.command = ascii "get" ∨ s.command = ascii "gets" then
    return (true, ← s.doGet hashRange beg)
  else if s.command = ascii "delete" then return (true, ← s.doDelete hashRange beg)
  else if s.command = ascii "version" then return (true, s.reply "VERSION 0.01 memcached\r\n")
  else if s.command = ascii "quit" then return (true, s.shutdown)
  else if s.command = ascii "shutdown" then return (true, { s.shutdown with stopped := true })
  else return (true, s.reply "ERROR\r\n")

/-- `processRequest`: whether the request is finished. -/
def processRequest (s : Session) (request : StringPiece) : Except Fault (Bool × Session) := do
  check .processRequest (s.command = [])
  check .processRequest (s.noreply = false)
  check .processRequest (s.policy = .kInvalid)
  check .processRequest (s.currItem = none)
  check .processRequest (s.bytesToDiscard = 0)
  let s := { s with requestsProcessed := s.requestsProcessed + 1 }
  let (s, request) := s.checkNoreply request
  match tokens (← request.read) with
  | [] => return (true, s.reply "ERROR\r\n")
  | command :: beg => dispatch hashRange { s with command := command } beg

/-! ## Messages -/

/-- The reply to a data block. -/
def storeReply (policy : UpdatePolicy) (stored existed : Bool) : String :=
  if stored then "STORED\r\n"
  else if policy = .kCas then
    if existed then "EXISTS\r\n" else "NOT_FOUND\r\n"
  else "NOT_STORED\r\n"

/-- The end of `receiveValue`, when the item is complete. -/
def finishValue (s : Session) (item : Item) : Except Fault Session := do
  let s ← (if item.endsWithCRLF then do
      let (stored, existed, owner) ← s.owner.storeItem hashRange item s.policy
      return { s with owner := owner }.reply (storeReply s.policy stored existed)
    else return s.reply "CLIENT_ERROR bad data chunk\r\n" : Except Fault Session)
  return { s.resetRequest with state := .kNewCommand }

def receiveValue (s : Session) (buf : Buffer) : Except Fault (Session × Buffer) := do
  match s.currItem with
  | none => .error .receiveValue
  | some item =>
    check .receiveValue (s.state = .kReceiveValue)
    let avail := min buf.readableBytes item.neededBytes
    let item ← item.append (Vec.slice buf.buffer buf.peek (buf.peek + avail))
    let s := { s with currItem := some item }
    let buf ← buf.retrieve avail
    if item.neededBytes = 0 then return (← s.finishValue hashRange item, buf)
    else return (s, buf)

def discardValue (s : Session) (buf : Buffer) : Except Fault (Session × Buffer) := do
  check .discardValue (s.currItem = none)
  check .discardValue (s.state = .kDiscardValue)
  if buf.readableBytes < s.bytesToDiscard then
    return ({ s with bytesToDiscard := s.bytesToDiscard - buf.readableBytes }, buf.retrieveAll)
  else
    let buf ← buf.retrieve s.bytesToDiscard
    return ({ s.resetRequest with state := .kNewCommand }, buf)

/-- The protocol of a connection that is to be found out is that of its first byte. -/
def detect (s : Session) (buf : Buffer) : Except Fault Session := do
  if s.protocol = .kAuto then
    check .sessionOnMessage (s.bytesRead = 0)
    let binary := buf.readable.head? = some 0x80
    return { s with protocol := if binary then .kBinary else .kAscii }
  else return s

/-- The loop of `onMessage`.  The branch for the binary protocol is empty. -/
def messageLoop : ℕ → Session → Buffer → Except Fault (Session × Buffer)
  | 0, _, _ => .error .outOfFuel
  | fuel + 1, s, buf =>
    if 0 < buf.readableBytes then
      match s.state with
      | .kNewCommand => do
        let s ← s.detect buf
        check .sessionOnMessage (s.protocol = .kAscii ∨ s.protocol = .kBinary)
        if s.protocol = .kBinary then messageLoop fuel s buf
        else
          match buf.findCRLF with
          | some crlf =>
            let len := intOfSize (crlf - buf.peek)
            let (done, s) ← s.processRequest hashRange ⟨buf.buffer.drop buf.peek, len⟩
            let buf ← buf.retrieveUntil (crlf + 2)
            messageLoop fuel (if done then s.resetRequest else s) buf
          | none => return (if 1024 < buf.readableBytes then s.shutdown else s, buf)
      | .kReceiveValue => do
        let (s, buf) ← s.receiveValue hashRange buf
        messageLoop fuel s buf
      | .kDiscardValue => do
        let (s, buf) ← s.discardValue buf
        messageLoop fuel s buf
    else return (s, buf)

def onMessage (s : Session) (buf : Buffer) : Except Fault (Session × Buffer) := do
  let (s', buf') ← messageLoop hashRange (buf.readableBytes + 1) s buf
  return ({ s' with bytesRead := s'.bytesRead + (buf.readableBytes - buf'.readableBytes) }, buf')

/-- The constructor. -/
def new (owner : MemcacheServer) : Except Fault Session := do
  let kLongestKey := List.replicate kLongestKeySize 120
  return {
    owner := owner
    connected := true
    sent := []
    stopped := false
    state := .kNewCommand
    protocol := .kAscii
    command := []
    noreply := false
    policy := .kInvalid
    currItem := none
    bytesToDiscard := 0
    needle := ← Item.new hashRange (.ofString kLongestKey) 0 0 2 0
    outputBuf := Buffer.empty
    bytesRead := 0
    requestsProcessed := 0 }

end Session

end Reactor
