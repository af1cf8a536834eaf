import Mathlib.Algebra.Order.Ring.Int
import Mathlib.Data.List.TakeWhile
import Mathlib.Tactic.SplitIfs

/-!
# Faults, assertions and byte strings

The functions of the library check their contracts with `assert`.  A modelled function therefore
returns in `Except Fault`: a failed assertion stops the process, and `Fault` names the assertion.
The same type names the two other ways a function can fail to return normally: an access to memory
that is not there, and a loop that does not end within its fuel.

Byte strings are lists of bytes; `std::string` and the memory behind a `const char*` are both
modelled this way.  Sizes and positions (`size_t`) are natural numbers: memory is taken to be
unbounded, so no allocation fails and no sum of sizes wraps around.
-/

namespace Reactor

/-- The assertions of the modelled functions, and the other ways to fail. -/
inductive Fault where
  -- Buffer
  | bufferInitialSize -- `writableBytes() == initialSize`
  | retrieve -- `len <= readableBytes()`
  | retrieveUntil -- `peek() <= end`, `end <= beginWrite()`
  | retrieveAsString -- `len <= readableBytes()`
  | ensureWritableBytes -- `writableBytes() >= len`
  | hasWritten -- `len <= writableBytes()`
  | unwrite -- `len <= readableBytes()`
  | prepend -- `len <= prependableBytes()`
  | peekInt -- `readableBytes() >= sizeof(x)`
  | makeSpace -- `kCheapPrepend < readerIndex_`
  | makeSpaceReadable -- `readable == readableBytes()`
  -- Channel
  | channelRemove -- `isNoneEvent()`
  -- EPollPoller and PollPoller
  | updateChannel -- the map, the index and the entry of the channel
  | removeChannel -- the map, the index and the entry of the channel; `n == 1`
  | fillActiveChannels -- the map has the channel; `numEvents <= events_.size()`
  -- TcpConnection
  | sendInLoop -- `remaining <= len`
  | connectEstablished -- `state_ == kConnecting`
  | handleClose -- `state_ == kConnected || state_ == kDisconnecting`
  -- EventLoop
  | loop -- `!looping_`
  | eventLoopRemoveChannel -- the channel is the current one, or not an active one
  -- EventLoopThreadPool
  | getNextLoop -- `started_`
  -- TcpServer
  | removeConnectionInLoop -- `n == 1`
  -- TcpClient
  | removeConnection -- `connection_ == conn`
  -- Connector
  | startInLoop -- `state_ == kDisconnected`
  | connecting -- `!channel_`
  | connectorHandleWrite -- `state_ == kDisconnected`
  -- sockets
  | toIp -- `size >= INET_ADDRSTRLEN`, `size >= INET6_ADDRSTRLEN`
  | toIpPort -- `size > end`
  | shutdownWrite -- `::shutdown(sockfd, SHUT_WR) == 0`
  -- HttpRequest
  | setMethod -- `method_ == kInvalid`
  -- TimerQueue
  | cancelInLoop -- `timers_.size() == activeTimers_.size()`, `n == 1`
  | getExpired -- `timers_.size() == activeTimers_.size()`, `now < end->first`, `n == 1`
  | insert -- `timers_.size() == activeTimers_.size()`, `result.second`
  -- TimeZone
  | findLocaltime -- `transI != data.transitions.begin()`
  | timeZoneData -- `data_ != NULL`
  -- Item
  | item -- `valuelen_ >= 2`, `receivedBytes_ < totalLen()`
  | itemAppend -- `len <= neededBytes()`, `receivedBytes_ <= totalLen()`
  | resetKey -- `k.size() <= 250`
  -- MemcacheServer
  | storeItem -- `neededBytes() == 0`, `newItem->endsWithCRLF()`, `false`
  -- Session
  | tokenizer -- the iterator is not at its end
  | sessionOnMessage -- `bytesRead_ == 0`, `protocol_ == kAscii || protocol_ == kBinary`
  | receiveValue -- `currItem_.get()`, `state_ == kReceiveValue`, `currItem_.unique()`
  | discardValue -- `!currItem_`, `state_ == kDiscardValue`
  | processRequest -- the fields of the request are reset
  | doDelete -- `command_ == "delete"`
  -- EchoServer
  | echoContext -- `!conn->getContext().empty()`
  -- FastCgiCodec
  | onBeginRequest -- `readableBytes() >= header.length`, `header.type == kFcgiBeginRequest`
  -- Buffer::findCRLF
  | findCRLF -- `peek() <= start`, `start <= beginWrite()`
  -- not an assertion: a read outside the memory an object occupies
  | outOfBounds
  | nullPointer
  -- not an assertion: an operation on `int` whose result is not one
  | overflow
  -- not an assertion: an object is used or deleted after it was deleted
  | useAfterFree
  | doubleDelete
  -- not an assertion: a loop that does not end within its fuel
  | outOfFuel
  deriving DecidableEq, Repr

/-- `assert(p)` -/
def check (f : Fault) (p : Prop) [Decidable p] : Except Fault Unit :=
  if p then .ok () else .error f

theorem check_of {f : Fault} {p : Prop} [Decidable p] (h : p) : check f p = .ok () := if_pos h

theorem check_of_not {f : Fault} {p : Prop} [Decidable p] (h : ¬ p) : check f p = .error f :=
  if_neg h

@[simp] theorem ok_bind {ε α β : Type} (a : α) (k : α → Except ε β) :
    (Except.ok a >>= k) = k a := rfl

/-- A sequence that returns has passed its first assertion. -/
theorem check_bind_eq_ok {β : Type} {f : Fault} {p : Prop} [Decidable p] {k : Unit → Except Fault β}
    {b : β} : (check f p >>= k) = .ok b ↔ p ∧ k () = .ok b := by
  unfold check
  split_ifs with h
  · exact ⟨fun hk => ⟨h, hk⟩, fun hk => hk.2⟩
  · exact ⟨fun hk => (by cases hk), fun hk => absurd hk.1 h⟩

/-- A sequence that returns: its first part does, and so does the rest on what that gives. -/
theorem bind_eq_ok {ε α β : Type} {x : Except ε α} {k : α → Except ε β} {b : β} :
    (x >>= k) = .ok b ↔ ∃ a, x = .ok a ∧ k a = .ok b := by
  cases x with
  | error f =>
    constructor
    · intro h
      cases h
    · rintro ⟨a, h, -⟩
      cases h
  | ok a => exact ⟨fun h => ⟨a, rfl, h⟩, fun ⟨a', h, h'⟩ => by obtain rfl := Except.ok.inj h; exact h'⟩

/-- The outcome of `shutdown(2)`. -/
inductive ShutdownResult where
  | success
  | fail (errno : ℕ)
  deriving DecidableEq, Repr

/-! ## Byte strings -/

/-- A byte (`char`). -/
abbrev Byte := UInt8

/-- A byte string. -/
abbrev Bytes := List Byte

/-- The bytes of a literal of the source; all of them are ASCII. -/
def ascii (s : String) : Bytes := s.toList.map fun c => UInt8.ofNat c.toNat

/-- The end of a line. -/
def crlf : Bytes := ascii "\r\n"

/-- Lines, each with its end. -/
def render (lines : List Bytes) : Bytes := lines.flatMap (· ++ crlf)

/-- `static_cast<int>` of a `size_t`. -/
def intOfSize (n : ℕ) : ℤ := Int.bmod n (2 ^ 32)

/-- The result of an operation on `int`, where it is one. -/
def int (value : ℤ) : Except Fault ℤ :=
  if -2 ^ 31 ≤ value ∧ value < 2 ^ 31 then .ok value else .error .overflow

/-- `StringPiece`: the memory from `ptr_` on and the length `length_`, an `int`. -/
structure StringPiece where
  data : Bytes
  length : ℤ
  deriving DecidableEq, Repr

/-- The bytes a reader of the piece sees; a length that the memory does not have is an access out
of bounds. -/
def StringPiece.read (s : StringPiece) : Except Fault Bytes :=
  if 0 ≤ s.length ∧ s.length ≤ s.data.length then .ok (s.data.take s.length.toNat)
  else .error .outOfBounds

/-- `operator==` -/
def StringPiece.equal (x y : StringPiece) : Bool :=
  x.length = y.length ∧ x.data.take x.length.toNat = y.data.take x.length.toNat

/-- What `strlen` sees of the bytes of a string: those in front of the first NUL. -/
def cString (s : Bytes) : Bytes := s.takeWhile (· ≠ 0)

/-- `StringPiece(const string&)`: the length is that of the C string. -/
def StringPiece.ofString (str : Bytes) : StringPiece := ⟨str, intOfSize (cString str).length⟩

/-- `as_string` -/
def StringPiece.asString (s : StringPiece) : Except Fault Bytes := s.read

theorem intOfSize_of_lt {n : ℕ} (h : n < 2 ^ 31) : intOfSize n = n := by
  unfold intOfSize Int.bmod
  dsimp only
  split <;> omega

theorem int_of {value : ℤ} (h : -2 ^ 31 ≤ value ∧ value < 2 ^ 31) : int value = .ok value := if_pos h

@[simp] theorem render_nil : render [] = [] := rfl

theorem render_cons (line : Bytes) (lines : List Bytes) :
    render (line :: lines) = line ++ crlf ++ render lines := List.flatMap_cons

theorem render_cons_append (line : Bytes) (lines : List Bytes) (rest : Bytes) :
    render (line :: lines) ++ rest = line ++ crlf ++ (render lines ++ rest) := by
  rw [render_cons, List.append_assoc]

theorem cString_prefix_self (s : Bytes) : cString s <+: s := List.takeWhile_prefix _

theorem cString_eq_self_iff {s : Bytes} : cString s = s ↔ 0 ∉ s := by
  rw [cString, List.takeWhile_eq_self_iff]
  constructor
  · intro h hzero
    have hne := h 0 hzero
    simp at hne
  · intro h x hx
    simp only [decide_eq_true_eq]
    rintro rfl
    exact h hx

theorem StringPiece.read_of_le {data : Bytes} {n : ℕ} (h : n ≤ data.length) :
    (⟨data, n⟩ : StringPiece).read = .ok (data.take n) := by
  unfold read
  dsimp only
  rw [if_pos ⟨Int.natCast_nonneg n, by exact_mod_cast h⟩, Int.toNat_natCast]

/-- A string that is made a `StringPiece` again ends at its first NUL. -/
theorem StringPiece.read_ofString {str : Bytes} (h : str.length < 2 ^ 31) :
    (ofString str).read = .ok (cString str) := by
  have hle := (cString_prefix_self str).length_le
  rw [ofString, intOfSize_of_lt (by omega), read_of_le hle,
    ← List.prefix_iff_eq_take.1 (cString_prefix_self str)]

/-- Exactly a string without a NUL that is not too long is seen whole. -/
theorem StringPiece.read_ofString_eq_self_iff {str : Bytes} :
    (ofString str).read = .ok str ↔ 0 ∉ str ∧ str.length < 2 ^ 31 := by
  constructor
  · intro h
    have hle : (cString str).length ≤ str.length := (cString_prefix_self str).length_le
    unfold ofString read at h
    dsimp only at h
    split_ifs at h with hlength
    have hall : str.length ≤ (intOfSize (cString str).length).toNat := by
      have htake := congrArg List.length (Except.ok.inj h)
      rw [List.length_take] at htake
      omega
    have hbound : intOfSize (cString str).length < 2 ^ 31 ∧
        intOfSize (cString str).length ≤ (cString str).length := by
      unfold intOfSize Int.bmod
      dsimp only
      split <;> omega
    refine ⟨cString_eq_self_iff.1 ((cString_prefix_self str).eq_of_length_le (by omega)), by omega⟩
  · rintro ⟨hnul, hlength⟩
    rw [read_ofString hlength, cString_eq_self_iff.2 hnul]

end Reactor
