import Reactor.Base
import Reactor.Lib.Machine
import Reactor.Lib.OrdSet
import Mathlib.Data.Prod.Lex
import Mathlib.Data.Set.Basic
import Mathlib.Logic.Function.Basic

/-!
# TimerQueue

The queue keeps its timers twice: in `timers_` by expiration and in `activeTimers_` by address.  A
`Timer` is an object at an address; `heap` has the objects that are alive.  Using or deleting an
object that is not alive is a fault of its own, and an address may be given out again after its
object was deleted.

`handleRead` runs callbacks, which may add and cancel timers, so it is cut into three kinds of
steps: its beginning up to the callbacks, one callback, and `reset`.  The expired timers wait in
`handling` meanwhile.

Timestamps are integers (microseconds), and no sum of them wraps around.  The timer descriptor is
modelled by what it is armed for, by whether it has expired since it was last set or read, and by
whether a poll has reported that.
-/

namespace Reactor

/-- `Timestamp`: `microSecondsSinceEpoch_` -/
abbrev Timestamp := ℤ

/-- The address of a `Timer`. -/
abbrev Addr := ℕ

def UINTPTR_MAX : Addr := 2 ^ 64 - 1

/-- `Timer` without its callback.  `interval` is `interval_` in the microseconds that `addTime` makes
of it, `passed` says whether the object was given to `addTimerInLoop`. -/
structure Timer where
  expiration : Timestamp
  interval : ℕ
  repeat_ : Bool
  sequence : ℕ
  passed : Bool
  deriving DecidableEq, Repr

def Timer.restart (t : Timer) (now : Timestamp) : Timer :=
  if t.repeat_ then { t with expiration := now + t.interval } else { t with expiration := 0 }

/-- `std::pair<Timestamp, Timer*>` -/
structure Entry where
  time : Timestamp
  timer : Addr
  deriving DecidableEq, Repr

instance : LinearOrder Entry :=
  LinearOrder.lift' (fun e => toLex (e.time, e.timer)) fun e f h => by
    cases e
    cases f
    cases h
    rfl

theorem Entry.lt_iff {e f : Entry} : e < f ↔ e.time < f.time ∨ e.time = f.time ∧ e.timer < f.timer :=
  Prod.Lex.toLex_lt_toLex

theorem Entry.time_le_of_le {e f : Entry} (h : e ≤ f) : e.time ≤ f.time := by
  rcases Prod.Lex.toLex_le_toLex.1 (h : toLex (e.time, e.timer) ≤ toLex (f.time, f.timer)) with h | h
  · exact h.le
  · exact h.1.le

/-- `std::pair<Timer*, int64_t>`, also the members of a `TimerId` -/
structure ActiveTimer where
  timer : Addr
  sequence : ℕ
  deriving DecidableEq, Repr

instance : LinearOrder ActiveTimer :=
  LinearOrder.lift' (fun p => toLex (p.timer, p.sequence)) fun p q h => by
    cases p
    cases q
    cases h
    rfl

/-- The timer descriptor: what it is armed for, whether it is readable, and whether a poll has
reported it and its `handleRead` is still to come. -/
structure Timerfd where
  armed : Option Timestamp
  readable : Bool
  dispatched : Bool
  deriving DecidableEq, Repr

/-- A `handleRead` that is under way: the expired timers, those whose callback is still to run, and
its time. -/
structure Handling where
  expired : List Entry
  todo : List Entry
  now : Timestamp
  deriving DecidableEq, Repr

/-- `TimerQueue`, with the objects it works on. -/
structure TimerQueue where
  timers : OrdSet Entry
  activeTimers : OrdSet ActiveTimer
  callingExpiredTimers : Bool
  cancelingTimers : OrdSet ActiveTimer
  timerfd : Timerfd
  heap : Addr → Option Timer
  -- `Timer::s_numCreated_`
  numCreated : ℕ
  handling : Option Handling

namespace TimerQueue

/-- The constructor. -/
def new : TimerQueue where
  timers := ∅
  activeTimers := ∅
  callingExpiredTimers := false
  cancelingTimers := ∅
  timerfd := ⟨none, false, false⟩
  heap := fun _ => none
  numCreated := 0
  handling := none

/-- A member of the object is read. -/
def deref (q : TimerQueue) (a : Addr) : Except Fault Timer :=
  match q.heap a with
  | some t => .ok t
  | none => .error .useAfterFree

def store (q : TimerQueue) (a : Addr) (t : Option Timer) : TimerQueue :=
  { q with heap := Function.update q.heap a t }

def delete (q : TimerQueue) (a : Addr) : Except Fault TimerQueue := do
  check .doubleDelete (q.heap a).isSome
  return q.store a none

/-- `timerfd_settime(2)` also forgets expirations that nobody has read. -/
def resetTimerfd (q : TimerQueue) (expiration : Timestamp) : TimerQueue :=
  { q with timerfd := { q.timerfd with armed := some expiration, readable := false } }

/-- `read(2)` takes the expirations away. -/
def readTimerfd (q : TimerQueue) : TimerQueue :=
  { q with timerfd := { q.timerfd with readable := false, dispatched := false } }

def sizesAgree (q : TimerQueue) : Prop := q.timers.size = q.activeTimers.size

instance (q : TimerQueue) : Decidable q.sizesAgree := inferInstanceAs (Decidable (_ = _))

/-- The test of `insert`: the timer expires after the first one, or is the only one. -/
def earliestChanged (q : TimerQueue) (when_ : Timestamp) : Bool :=
  match q.timers.first with
  | none => true
  | some e => e.time < when_

/-- `insert`: whether `earliestChanged`, and the queue. -/
def insert (q : TimerQueue) (timer : Addr) : Except Fault (Bool × TimerQueue) := do
  check .insert q.sizesAgree
  let t ← q.deref timer
  let earliestChanged := q.earliestChanged t.expiration
  let (timers, inserted) := q.timers.insert ⟨t.expiration, timer⟩
  check .insert inserted
  let (activeTimers, inserted) := q.activeTimers.insert ⟨timer, t.sequence⟩
  check .insert inserted
  let q := { q with timers := timers, activeTimers := activeTimers }
  check .insert q.sizesAgree
  return (earliestChanged, q)

def addTimerInLoop (q : TimerQueue) (timer : Addr) : Except Fault TimerQueue := do
  let (earliestChanged, q) ← q.insert timer
  if earliestChanged then return q.resetTimerfd (← q.deref timer).expiration
  else return q

/-- The branch of `cancelInLoop` for a timer that is active. -/
def eraseTimer (q : TimerQueue) (timer : ActiveTimer) : Except Fault TimerQueue := do
  let t ← q.deref timer.timer
  let (timers, n) := q.timers.erase ⟨t.expiration, timer.timer⟩
  check .cancelInLoop (n = 1)
  let q ← { q with timers := timers }.delete timer.timer
  return { q with activeTimers := (q.activeTimers.erase timer).1 }

/-- `cancelInLoop` between its two assertions. -/
def cancelTimer (q : TimerQueue) (timer : ActiveTimer) : Except Fault TimerQueue :=
  if timer ∈ q.activeTimers then q.eraseTimer timer
  else if q.callingExpiredTimers then
    return { q with cancelingTimers := (q.cancelingTimers.insert timer).1 }
  else return q

def cancelInLoop (q : TimerQueue) (timer : ActiveTimer) : Except Fault TimerQueue := do
  check .cancelInLoop q.sizesAgree
  let q ← q.cancelTimer timer
  check .cancelInLoop q.sizesAgree
  return q

/-- The loop of `getExpired` over `activeTimers_`. -/
def eraseActive (q : TimerQueue) : List Entry → Except Fault TimerQueue
  | [] => return q
  | e :: es => do
    let t ← q.deref e.timer
    let (activeTimers, n) := q.activeTimers.erase ⟨e.timer, t.sequence⟩
    check .getExpired (n = 1)
    { q with activeTimers := activeTimers }.eraseActive es

def getExpired (q : TimerQueue) (now : Timestamp) : Except Fault (List Entry × TimerQueue) := do
  check .getExpired q.sizesAgree
  let sentry : Entry := ⟨now, UINTPTR_MAX⟩
  let expired := q.timers.below sentry
  let rest := q.timers.fromLowerBound sentry
  check .getExpired (rest.first.all fun e => now < e.time)
  let q ← { q with timers := rest }.eraseActive expired
  check .getExpired q.sizesAgree
  return (expired, q)

/-- The loop of `reset`: a timer that repeats and was not cancelled is inserted again. -/
def resetExpired (q : TimerQueue) (now : Timestamp) : List Entry → Except Fault TimerQueue
  | [] => return q
  | e :: es => do
    let t ← q.deref e.timer
    if t.repeat_ ∧ ⟨e.timer, t.sequence⟩ ∉ q.cancelingTimers then
      let (_, q) ← (q.store e.timer (t.restart now)).insert e.timer
      q.resetExpired now es
    else
      let q ← q.delete e.timer
      q.resetExpired now es

/-- The expiration of the first timer, invalid if there is none. -/
def nextExpire (q : TimerQueue) : Except Fault Timestamp :=
  match q.timers.first with
  | none => return 0
  | some e => return (← q.deref e.timer).expiration

def reset (q : TimerQueue) (expired : List Entry) (now : Timestamp) : Except Fault TimerQueue := do
  let q ← q.resetExpired now expired
  let nextExpire ← q.nextExpire
  return if 0 < nextExpire then q.resetTimerfd nextExpire else q

/-! ## The machine -/

inductive Action where
  -- some thread creates a timer
  | newTimer (timer : Addr) (expiration : Timestamp) (interval : ℕ) (repeat_ : Bool)
  | addTimerInLoop (timer : Addr)
  | cancelInLoop (timer : ActiveTimer)
  -- the descriptor expires; a poll reports it
  | expire
  | poll
  -- `handleRead` up to the callbacks, one callback, and the end of `handleRead`
  | beginHandleRead (now : Timestamp)
  | run
  | endHandleRead
  deriving DecidableEq, Repr

def step (q : TimerQueue) : Action → Except Fault TimerQueue
  | .newTimer timer expiration interval repeat_ =>
    let t : Timer := ⟨expiration, interval, repeat_, q.numCreated + 1, false⟩
    return { q.store timer (some t) with numCreated := q.numCreated + 1 }
  | .addTimerInLoop timer =>
    (q.store timer ((q.heap timer).map fun t => { t with passed := true })).addTimerInLoop timer
  | .cancelInLoop timer => q.cancelInLoop timer
  | .expire => return { q with timerfd := { q.timerfd with armed := none, readable := true } }
  | .poll => return { q with timerfd := { q.timerfd with dispatched := true } }
  | .beginHandleRead now => do
    let (expired, q) ← q.readTimerfd.getExpired now
    return { q with
      callingExpiredTimers := true, cancelingTimers := ∅, handling := some ⟨expired, expired, now⟩ }
  | .run =>
    match q.handling with
    | some ⟨expired, e :: todo, now⟩ => do
      let _ ← q.deref e.timer
      return { q with handling := some ⟨expired, todo, now⟩ }
    | _ => return q
  | .endHandleRead =>
    match q.handling with
    | some ⟨expired, _, now⟩ =>
      { q with callingExpiredTimers := false, handling := none }.reset expired now
    | none => return q

def machine : Machine TimerQueue Action Fault := ⟨step⟩

/-- `new` gives out addresses that are free and below the sentry of `getExpired`; `addTimer` passes
its timer on once; the descriptor expires when it is armed, a poll reports it when it is readable,
and the report leads to one `handleRead`, whose parts come in order. -/
def Env (q : TimerQueue) : Action → Prop
  | .newTimer timer _ _ _ => q.heap timer = none ∧ timer < UINTPTR_MAX
  | .addTimerInLoop timer => (q.heap timer).any fun t => !t.passed
  | .cancelInLoop _ => True
  | .expire => q.timerfd.armed.isSome
  | .poll => q.handling = none ∧ q.timerfd.readable
  | .beginHandleRead now => q.handling = none ∧ q.timerfd.dispatched ∧ 0 < now
  | .run => q.handling.any fun h => h.todo ≠ []
  | .endHandleRead => q.handling.any fun h => h.todo = []

instance (q : TimerQueue) : ∀ a, Decidable (Env q a)
  | .newTimer _ _ _ _ | .poll => inferInstanceAs (Decidable (_ ∧ _))
  | .beginHandleRead _ => inferInstanceAs (Decidable (_ ∧ _ ∧ _))
  | .addTimerInLoop _ | .expire | .run | .endHandleRead => inferInstanceAs (Decidable (_ = true))
  | .cancelInLoop _ => isTrue trivial

end TimerQueue

end Reactor
