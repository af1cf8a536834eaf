import Reactor.Channel
import Reactor.Lib.Machine
import Mathlib.Data.List.Perm.Basic
import Mathlib.Logic.Function.Basic

/-!
# Poller

What the two pollers share: the channels they keep on behalf of a loop, what the kernel reports,
and the operations of `Channel` that reach a poller.  A `Channel*` is a number and the memory behind
it a function `ℕ → Channel`; distinct channels may have one descriptor.
-/

namespace Reactor

/-- `epoll_event`: the events and `data.ptr`. -/
structure EPollEvent where
  events : Mask
  ptr : ℕ
  deriving DecidableEq, Repr

/-- What the kernel knows when a poller asks: the state of every descriptor, and the order in which
`epoll_wait` returns what is ready. -/
structure Kernel where
  ready : ℤ → Mask
  order : List EPollEvent → List EPollEvent
  order_perm : ∀ l, (order l).Perm l

/-- Errors and hang-ups are reported whether they are asked for or not. -/
def Kernel.report (k : Kernel) (fd : ℤ) (events : Mask) : Mask :=
  k.ready fd &&& (events ||| (POLLERR ||| POLLHUP))

/-- `Poller`: the virtual functions.  `poll` also gives the active channels. -/
structure Poller (P : Type) where
  updateChannel : P → (ℕ → Channel) → ℕ → Except Fault (P × (ℕ → Channel))
  removeChannel : P → (ℕ → Channel) → ℕ → Except Fault (P × (ℕ → Channel))
  poll : P → (ℕ → Channel) → Kernel → Except Fault (P × (ℕ → Channel) × List ℕ)

/-- The members of `Channel` that change its events. -/
inductive Setter where
  | enableReading
  | disableReading
  | enableWriting
  | disableWriting
  | disableAll
  deriving DecidableEq, Repr

def Setter.apply : Setter → Channel → Channel
  | .enableReading => Channel.enableReading
  | .disableReading => Channel.disableReading
  | .enableWriting => Channel.enableWriting
  | .disableWriting => Channel.disableWriting
  | .disableAll => Channel.disableAll

inductive PollerAction where
  | set (op : Setter) (c : ℕ)
  | remove (c : ℕ)
  | poll (k : Kernel)

/-- The channels of a loop, its poller and `activeChannels_`. -/
structure Polled (P : Type) where
  channel : ℕ → Channel
  poller : P
  activeChannels : List ℕ

/-- Channels on the given descriptors, none of them registered. -/
def Polled.init {P : Type} (fd : ℕ → ℕ) (poller : P) : Polled P :=
  ⟨fun c => Channel.new (fd c), poller, []⟩

/-- `set_index` -/
def setIndex (channel : ℕ → Channel) (c : ℕ) (index : ℤ) : ℕ → Channel :=
  Function.update channel c { channel c with index := index }

namespace Poller

variable {P : Type} (V : Poller P)

def step (s : Polled P) : PollerAction → Except Fault (Polled P)
  | .set op c => do
    let (poller, channel) ←
      V.updateChannel s.poller (Function.update s.channel c (op.apply (s.channel c))) c
    return { s with poller := poller, channel := channel }
  | .remove c => do
    let x ← (s.channel c).remove
    let (poller, channel) ← V.removeChannel s.poller (Function.update s.channel c x) c
    return { s with poller := poller, channel := channel }
  | .poll k => do
    let (poller, channel, active) ← V.poll s.poller s.channel k
    return ⟨channel, poller, active⟩

variable {V} {s : Polled P} {p' : P} {channel' : ℕ → Channel} {f : Fault} {op : Setter} {c : ℕ}

theorem step_set_ok
    (h : V.updateChannel s.poller (Function.update s.channel c (op.apply (s.channel c))) c =
      .ok (p', channel')) :
    V.step s (.set op c) = .ok { s with poller := p', channel := channel' } := by
  rw [step, h]
  rfl

theorem step_set_error
    (h : V.updateChannel s.poller (Function.update s.channel c (op.apply (s.channel c))) c =
      .error f) :
    V.step s (.set op c) = .error f := by
  rw [step, h]
  rfl

theorem step_remove_ok (hnone : (s.channel c).isNoneEvent = true)
    (h : V.removeChannel s.poller
      (Function.update s.channel c { s.channel c with addedToLoop := false }) c =
        .ok (p', channel')) :
    V.step s (.remove c) = .ok { s with poller := p', channel := channel' } := by
  rw [step, Channel.remove, check_of hnone, ok_bind, pure_bind, h]
  rfl

theorem step_remove_error (hnone : (s.channel c).isNoneEvent = true)
    (h : V.removeChannel s.poller
      (Function.update s.channel c { s.channel c with addedToLoop := false }) c = .error f) :
    V.step s (.remove c) = .error f := by
  rw [step, Channel.remove, check_of hnone, ok_bind, pure_bind, h]
  rfl

/-- `Channel::remove` refuses a channel with events itself. -/
theorem step_remove_events (hsome : (s.channel c).isNoneEvent ≠ true) :
    V.step s (.remove c) = .error .channelRemove := by
  rw [step, Channel.remove, check_of_not hsome]
  rfl

/-- Only a poll finds active channels. -/
theorem step_activeChannels {s' : Polled P} {a : PollerAction} (h : V.step s a = .ok s')
    (ha : ∀ k, a ≠ .poll k) : s'.activeChannels = s.activeChannels := by
  cases a with
  | set op c =>
    obtain ⟨⟨p', channel'⟩, -, hs'⟩ := bind_eq_ok.1 h
    obtain rfl := Except.ok.inj hs'
    rfl
  | remove c =>
    obtain ⟨x, -, hs'⟩ := bind_eq_ok.1 h
    obtain ⟨⟨p', channel'⟩, -, hs'⟩ := bind_eq_ok.1 hs'
    obtain rfl := Except.ok.inj hs'
    rfl
  | poll k => exact absurd rfl (ha k)

theorem step_poll_ok {k : Kernel} {active : List ℕ}
    (h : V.poll s.poller s.channel k = .ok (p', channel', active)) :
    V.step s (.poll k) = .ok ⟨channel', p', active⟩ := by
  rw [step, h]
  rfl

end Poller

theorem setIndex_update (channel : ℕ → Channel) (c : ℕ) (x : Channel) (index : ℤ) :
    setIndex (Function.update channel c x) c index =
      Function.update channel c { x with index := index } := by
  rw [setIndex, Function.update_self, Function.update_idem]

theorem fd_update (channel : ℕ → Channel) {c : ℕ} {x : Channel} (hx : x.fd = (channel c).fd) :
    (fun d => (Function.update channel c x d).fd) = fun d => (channel d).fd := by
  funext d
  by_cases hd : d = c
  · subst hd
    rw [Function.update_self, hx]
  · rw [Function.update_of_ne hd]

/-! ## The setters -/

namespace Setter

variable (op : Setter) (x : Channel)

@[simp] theorem apply_fd : (op.apply x).fd = x.fd := by
  cases op <;> rfl

@[simp] theorem apply_index : (op.apply x).index = x.index := by
  cases op <;> rfl

@[simp] theorem apply_revents : (op.apply x).revents = x.revents := by
  cases op <;> rfl

/-- The events of a channel are those of `kReadEvent` and `kWriteEvent`. -/
theorem apply_events_lt {x : Channel} (h : x.events.toNat < 2 ^ 3) :
    (op.apply x).events.toNat < 2 ^ 3 := by
  cases op with
  | enableReading =>
    show (x.events ||| Channel.kReadEvent).toNat < 2 ^ 3
    rw [BitVec.toNat_or]
    exact Nat.or_lt_two_pow h (by decide)
  | enableWriting =>
    show (x.events ||| Channel.kWriteEvent).toNat < 2 ^ 3
    rw [BitVec.toNat_or]
    exact Nat.or_lt_two_pow h (by decide)
  | disableReading =>
    show (x.events &&& ~~~Channel.kReadEvent).toNat < 2 ^ 3
    rw [BitVec.toNat_and]
    exact Nat.lt_of_le_of_lt Nat.and_le_left h
  | disableWriting =>
    show (x.events &&& ~~~Channel.kWriteEvent).toNat < 2 ^ 3
    rw [BitVec.toNat_and]
    exact Nat.lt_of_le_of_lt Nat.and_le_left h
  | disableAll => exact (by decide : (0 : Mask).toNat < 2 ^ 3)

/-- What a setter makes of the events depends on the events alone. -/
theorem apply_events_congr {x y : Channel} (h : x.events = y.events) :
    (op.apply x).events = (op.apply y).events := by
  cases op <;>
    simp only [apply, Channel.enableReading, Channel.disableReading, Channel.enableWriting,
      Channel.disableWriting, Channel.disableAll, Channel.update, h]

end Setter

end Reactor
