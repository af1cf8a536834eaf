import Reactor.Decimal
import Mathlib.Logic.Function.Basic

/-!
# TcpServer

The server's own data: the name under which it keeps a connection, the pool from which it takes the
loop of a new connection, and the table `connections_`.  A `TcpConnectionPtr` is a number, in the
order of acceptance.

The name of a connection is formatted into 64 bytes.  The text of any listen address leaves room for
the ten digits of an `int` there (`connName_eq`), so that distinct ids give distinct names
(`connName_injOn`).
-/

namespace Reactor

/-! ## Addresses -/

def INET_ADDRSTRLEN : ℕ := 16
def INET6_ADDRSTRLEN : ℕ := 46

/-- `inet_ntop(3)`.  The two constants are the lengths of the longest texts, with the NUL. -/
structure InetNtop where
  inet : BitVec 32 → Bytes
  inet6 : BitVec 128 → Bytes
  length_inet : ∀ a, (inet a).length < INET_ADDRSTRLEN
  length_inet6 : ∀ a, (inet6 a).length < INET6_ADDRSTRLEN

/-- `InetAddress`: a `sockaddr_in` or a `sockaddr_in6`. -/
inductive InetAddress where
  | inet (addr : BitVec 32) (port : UInt16)
  | inet6 (addr : BitVec 128) (port : UInt16)
  deriving DecidableEq, Repr

namespace InetAddress

def port : InetAddress → UInt16
  | .inet _ port => port
  | .inet6 _ port => port

/-- `sockets::toIp` -/
def toIp (ntop : InetNtop) (size : ℕ) : InetAddress → Except Fault Bytes
  | .inet addr _ => do
    check .toIp (INET_ADDRSTRLEN ≤ size)
    return ntop.inet addr
  | .inet6 addr _ => do
    check .toIp (INET6_ADDRSTRLEN ≤ size)
    return ntop.inet6 addr

/-- `toIpPort`: `sockets::toIpPort` on a buffer of 64 bytes. -/
def toIpPort (ntop : InetNtop) (a : InetAddress) : Except Fault Bytes := do
  let size := 64
  let buf := cString (← a.toIp ntop size)
  let «end» := buf.length
  check .toIpPort («end» < size)
  return buf ++ snprintf (size - «end») (ascii ":" ++ decimal a.port.toNat)

end InetAddress

/-! ## EventLoopThreadPool -/

/-- `EventLoopThreadPool`.  Loop `0` is `baseLoop_`, and loop `i + 1` is `loops_[i]`. -/
structure EventLoopThreadPool where
  started : Bool
  numThreads : ℕ
  next : ℕ
  deriving DecidableEq, Repr

namespace EventLoopThreadPool

def new (numThreads : ℕ) : EventLoopThreadPool := ⟨false, numThreads, 0⟩

def start (p : EventLoopThreadPool) : EventLoopThreadPool := { p with started := true }

/-- `getNextLoop`: round-robin over the I/O loops, `baseLoop_` if there are none. -/
def getNextLoop (p : EventLoopThreadPool) : Except Fault (ℕ × EventLoopThreadPool) := do
  check .getNextLoop (p.started = true)
  if p.numThreads = 0 then return (0, p)
  else
    check .outOfBounds (p.next < p.numThreads)
    return (p.next + 1, { p with next := if p.numThreads ≤ p.next + 1 then 0 else p.next + 1 })

/-- The pool hands out loops. -/
structure Ready (p : EventLoopThreadPool) : Prop where
  started : p.started = true
  next : p.next < p.numThreads ∨ p.numThreads = 0

theorem ready_start (numThreads : ℕ) : (new numThreads).start.Ready := by
  refine ⟨rfl, ?_⟩
  show 0 < numThreads ∨ numThreads = 0
  omega

theorem Ready.getNextLoop {p : EventLoopThreadPool} (h : p.Ready) :
    ∃ l p', p.getNextLoop = .ok (l, p') ∧ p'.Ready := by
  unfold EventLoopThreadPool.getNextLoop
  rw [check_of h.started, ok_bind]
  by_cases hnone : p.numThreads = 0
  · rw [if_pos hnone]
    exact ⟨0, p, rfl, h⟩
  · have hnext := h.next.resolve_right hnone
    rw [if_neg hnone, check_of hnext, ok_bind]
    refine ⟨_, _, rfl, h.started, Or.inl ?_⟩
    dsimp only
    split_ifs <;> omega

end EventLoopThreadPool

/-! ## The server -/

/-- `TcpServer`, without its callbacks. -/
structure TcpServer where
  ipPort : Bytes
  name : Bytes
  threadPool : EventLoopThreadPool
  nextConnId : ℕ
  connections : Bytes → Option ℕ

namespace TcpServer

/-- The constructor, `setThreadNum` and `start`. -/
def new (ntop : InetNtop) (listenAddr : InetAddress) (name : Bytes) (numThreads : ℕ) :
    Except Fault TcpServer := do
  return {
    ipPort := ← listenAddr.toIpPort ntop
    name := name
    threadPool := (EventLoopThreadPool.new numThreads).start
    nextConnId := 1
    connections := fun _ => none }

/-- The name of the connection with an id: `snprintf` into 64 bytes, behind the server's name. -/
def connName (name ipPort : Bytes) (id : ℕ) : Bytes :=
  name ++ snprintf 64 (ascii "-" ++ cString ipPort ++ ascii "#" ++ decimal id)

/-- `newConnection` up to the call of `connectEstablished`: gives the name and the loop of the
connection `c`. -/
def newConnection (s : TcpServer) (c : ℕ) : Except Fault (Bytes × ℕ × TcpServer) := do
  let (ioLoop, threadPool) ← s.threadPool.getNextLoop
  let name := connName s.name s.ipPort s.nextConnId
  return (name, ioLoop, { s with
    threadPool := threadPool
    nextConnId := s.nextConnId + 1
    connections := Function.update s.connections name (some c) })

/-- `removeConnectionInLoop` up to the call of `queueInLoop`. -/
def removeConnectionInLoop (s : TcpServer) (name : Bytes) : Except Fault TcpServer := do
  check .removeConnectionInLoop (s.connections name ≠ none)
  return { s with connections := Function.update s.connections name none }

end TcpServer

/-! ## Names -/

/-- The `i`-th group of an IPv6 address from the right, `%x`. -/
def hexGroup (a : BitVec 128) (i : ℕ) : Bytes :=
  (Nat.toDigits 16 (a.toNat / 2 ^ (16 * i) % 2 ^ 16)).map fun c => UInt8.ofNat c.toNat

theorem length_hexGroup (a : BitVec 128) (i : ℕ) : (hexGroup a i).length ≤ 4 := by
  rw [hexGroup, List.length_map]
  exact (Nat.length_toDigits_le_iff (by decide) (by decide)).2 (Nat.mod_lt _ (by decide))

/-- The four numbers of an IPv4 address, and the eight groups of an IPv6 address that has no two
groups of zeros in a row. -/
def InetNtop.numeric : InetNtop where
  inet := fun a => decimal (a.toNat / 2 ^ 24 % 256) ++ ascii "." ++ decimal (a.toNat / 2 ^ 16 % 256) ++
    ascii "." ++ decimal (a.toNat / 2 ^ 8 % 256) ++ ascii "." ++ decimal (a.toNat % 256)
  inet6 := fun a => hexGroup a 7 ++ ascii ":" ++ hexGroup a 6 ++ ascii ":" ++ hexGroup a 5 ++
    ascii ":" ++ hexGroup a 4 ++ ascii ":" ++ hexGroup a 3 ++ ascii ":" ++ hexGroup a 2 ++
    ascii ":" ++ hexGroup a 1 ++ ascii ":" ++ hexGroup a 0
  length_inet := fun a => by
    have hbyte : ∀ n, (decimal (n % 256)).length ≤ 3 := fun n =>
      length_decimal_le (by decide) (by omega)
    have h₁ := hbyte (a.toNat / 2 ^ 24)
    have h₂ := hbyte (a.toNat / 2 ^ 16)
    have h₃ := hbyte (a.toNat / 2 ^ 8)
    have h₄ := hbyte a.toNat
    have hdot : (ascii ".").length = 1 := by decide
    simp only [List.length_append, hdot, INET_ADDRSTRLEN]
    omega
  length_inet6 := fun a => by
    have hgroup := length_hexGroup a
    have hcolon : (ascii ":").length = 1 := by decide
    simp only [List.length_append, hcolon, INET6_ADDRSTRLEN]
    have h₀ := hgroup 0
    have h₁ := hgroup 1
    have h₂ := hgroup 2
    have h₃ := hgroup 3
    have h₄ := hgroup 4
    have h₅ := hgroup 5
    have h₆ := hgroup 6
    have h₇ := hgroup 7
    omega

/-- The buffer holds the whole text: at most 45 bytes of address, the colon and five digits. -/
theorem InetAddress.length_toIpPort (ntop : InetNtop) (a : InetAddress) :
    ∃ text, a.toIpPort ntop = .ok text ∧ text.length ≤ 51 := by
  have hip : ∃ ip, a.toIp ntop 64 = .ok ip ∧ ip.length ≤ 45 := by
    cases a with
    | inet addr port =>
      have := ntop.length_inet addr
      exact ⟨ntop.inet addr, rfl, by unfold INET_ADDRSTRLEN at this; omega⟩
    | inet6 addr port =>
      have := ntop.length_inet6 addr
      exact ⟨ntop.inet6 addr, rfl, by unfold INET6_ADDRSTRLEN at this; omega⟩
  obtain ⟨ip, hip, hlen⟩ := hip
  have hcut := (cString_prefix_self ip).length_le
  have hport : (decimal a.port.toNat).length ≤ 5 :=
    length_decimal_le (by decide) (Nat.lt_of_lt_of_le a.port.toNat_lt (by decide))
  unfold toIpPort
  dsimp only
  rw [hip, ok_bind, check_of (by omega), ok_bind]
  refine ⟨_, rfl, ?_⟩
  have hcolon : (ascii ":").length = 1 := by decide
  simp only [snprintf, List.length_append, List.length_take, hcolon]
  omega

namespace TcpServer

/-- No id of an `int` is cut off. -/
theorem connName_eq {name ipPort : Bytes} {id : ℕ} (hip : ipPort.length ≤ 51) (hid : id < 2 ^ 31) :
    connName name ipPort id = name ++ (ascii "-" ++ cString ipPort ++ ascii "#" ++ decimal id) := by
  have hcut := (cString_prefix_self ipPort).length_le
  have hdec : (decimal id).length ≤ 10 :=
    length_decimal_le (by decide) (Nat.lt_of_lt_of_le hid (by decide))
  have hdash : (ascii "-").length = 1 := by decide
  have hhash : (ascii "#").length = 1 := by decide
  rw [connName, snprintf, List.take_of_length_le]
  simp only [List.length_append, hdash, hhash]
  omega

theorem connName_injOn {name ipPort : Bytes} {i j : ℕ} (hip : ipPort.length ≤ 51)
    (hi : i < 2 ^ 31) (hj : j < 2 ^ 31) (h : connName name ipPort i = connName name ipPort j) :
    i = j := by
  rw [connName_eq hip hi, connName_eq hip hj] at h
  exact decimal_injective (List.append_cancel_left (List.append_cancel_left h))

end TcpServer

end Reactor
