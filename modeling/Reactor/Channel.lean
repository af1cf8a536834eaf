import Reactor.Base

/-!
# Channel

A `Channel` is the interest of one descriptor in events, with the bookkeeping the pollers keep on
it.  The setters change `events`; `update` and `remove` hand the channel to the loop's poller, whose
own part is modelled with the pollers.
-/

namespace Reactor

/-- A set of `poll(2)` events, an `int` of the source. -/
abbrev Mask := BitVec 32

def POLLIN : Mask := 0x0001
def POLLPRI : Mask := 0x0002
def POLLOUT : Mask := 0x0004
def POLLERR : Mask := 0x0008
def POLLHUP : Mask := 0x0010
def POLLNVAL : Mask := 0x0020
def POLLRDHUP : Mask := 0x2000

/-- Some event of `flags` is in the mask. -/
def Mask.has (m flags : Mask) : Bool := m &&& flags != 0

theorem Mask.has_or (m a b : Mask) : m.has (a ||| b) = (m.has a || m.has b) := by
  unfold Mask.has
  rw [BitVec.and_or_distrib_left, Bool.eq_iff_iff]
  simp only [bne_iff_ne, ne_eq, BitVec.ofNat_eq_ofNat, BitVec.or_eq_zero_iff, Bool.or_eq_true]
  exact Decidable.not_and_iff_not_or_not

/-- `Channel`, without its callbacks. -/
structure Channel where
  fd : ℕ
  events : Mask
  revents : Mask
  index : ℤ
  addedToLoop : Bool
  deriving DecidableEq, Repr

namespace Channel

def kNoneEvent : Mask := 0
def kReadEvent : Mask := POLLIN ||| POLLPRI
def kWriteEvent : Mask := POLLOUT

/-- The constructor. -/
def new (fd : ℕ) : Channel := ⟨fd, 0, 0, -1, false⟩

def isNoneEvent (c : Channel) : Bool := c.events == kNoneEvent

def isWriting (c : Channel) : Bool := c.events.has kWriteEvent

def isReading (c : Channel) : Bool := c.events.has kReadEvent

/-- `update`, up to the call of the poller. -/
def update (c : Channel) : Channel := { c with addedToLoop := true }

def enableReading (c : Channel) : Channel := { c with events := c.events ||| kReadEvent }.update

def disableReading (c : Channel) : Channel := { c with events := c.events &&& ~~~kReadEvent }.update

def enableWriting (c : Channel) : Channel := { c with events := c.events ||| kWriteEvent }.update

def disableWriting (c : Channel) : Channel := { c with events := c.events &&& ~~~kWriteEvent }.update

def disableAll (c : Channel) : Channel := { c with events := kNoneEvent }.update

theorem isNoneEvent_enableReading (c : Channel) : c.enableReading.isNoneEvent = false := by
  show (c.events ||| kReadEvent == 0#32) = false
  rw [beq_eq_false_iff_ne, ne_eq, BitVec.or_eq_zero_iff]
  exact fun h => absurd h.2 (by decide)

/-- `remove`, up to the call of the poller. -/
def remove (c : Channel) : Except Fault Channel := do
  check .channelRemove c.isNoneEvent
  return { c with addedToLoop := false }

/-- The callbacks of a channel. -/
inductive Handler where
  | close
  | error
  | read
  | write
  deriving DecidableEq, Repr

/-- `handleEventWithGuard`: the callbacks it invokes, in order. -/
def handleEventWithGuard (revents : Mask) : List Handler :=
  (if revents.has POLLHUP ∧ ¬ revents.has POLLIN then [.close] else []) ++
    (if revents.has (POLLERR ||| POLLNVAL) then [.error] else []) ++
    (if revents.has (POLLIN ||| POLLPRI ||| POLLRDHUP) then [.read] else []) ++
    (if revents.has POLLOUT then [.write] else [])

end Channel

end Reactor
