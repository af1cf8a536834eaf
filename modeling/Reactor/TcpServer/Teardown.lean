import Reactor.Poller.Backend
import Reactor.TcpConnection
import Reactor.TcpServer.Table

/-!
# Tearing a server down

The connections of a server on their loops, each loop with its poller and the state of its event
handling, and `~TcpServer`.  The destructor runs on the accept loop's thread, at any moment at which
user code may run there; a connection of the accept loop it destroys at once, and to another loop it
sends `connectDestroyed`.  What it leaves behind still calls `removeConnection` on it: the close of a
connection on another loop, and a removal that waits in the accept loop's queue.  And
`connectDestroyed` disables the channel of a connection in state `kConnected` alone.

* `torn_down`: if every connection in the table lives on the accept loop, is up and not shutting
  down, and neither it nor the acceptor waits for its event in the current round, nothing goes wrong,
  in no later interleaving.
-/

namespace Reactor

open PollPoller (Life)

namespace TcpServer

namespace Teardown

/-- The channel of the acceptor. -/
def acceptChannel : ℕ := 0

/-- The channel of a connection. -/
def channelOf (c : ℕ) : ℕ := c + 1

/-- How far `~TcpServer` has come: `running` keeps the connections it has still to visit. -/
inductive Dtor where
  | alive
  | running (doomed : List ℕ)
  | done
  deriving DecidableEq, Repr

/-- An `EventLoop`, its queue apart. -/
structure Loop (B : Backend) where
  polled : Polled B.P
  eventHandling : Bool
  currentActiveChannel : Option ℕ

/-- The server with its connections and loops.  `closing` lists the connections whose `handleClose`
has not come to `closeCallback_` yet.  `life` follows the channels, and `left` keeps the connections
that were in `connections_` when the destructor began. -/
structure System (B : Backend) where
  table : TcpServer.System
  state : ℕ → StateE
  fd : ℕ → ℕ
  loop : ℕ → Loop B
  closing : List ℕ
  dtor : Dtor
  life : ℕ → Life
  left : List ℕ

inductive Action where
  -- the accept loop accepts a connection
  | newConnection
  -- the loop `l` runs the first functor of its queue
  | functor (l : ℕ)
  -- the loop `l` polls, turns to a channel (`none`: not one of the server), and ends the round
  | poll (l : ℕ) (k : Kernel)
  | handle (l : ℕ) (i : Option ℕ)
  | handled (l : ℕ)
  -- a hangup, the end of the stream or `forceCloseInLoop`, cut at `connectionCallback_`
  | handleClose (c : ℕ)
  | closeCallback (c : ℕ)
  -- `sendInLoop`, `handleWrite`, `startRead` and `stopRead`
  | set (c : ℕ) (op : Setter)
  | shutdown (c : ℕ)
  | forceClose (c : ℕ)
  -- `~TcpServer` begins, comes to a connection, and ends with `~Acceptor`
  | dtor
  | dtorNext (c : ℕ)
  | dtorEnd

/-- The functor is a member of the server. -/
def needsServer : Functor → Bool
  | .removeConnectionInLoop _ => true
  | .connectEstablished _ | .connectDestroyed _ => false

namespace System

variable {B : Backend}

/-- The loop that owns a channel. -/
def loopOf (s : System B) : ℕ → ℕ
  | 0 => 0
  | c + 1 => (s.table.conn c).ioLoop

def channel (s : System B) (i : ℕ) : Channel := (s.loop (s.loopOf i)).polled.channel i

/-- The connections that the destructor has still to visit. -/
def doomed (s : System B) : List ℕ :=
  match s.dtor with
  | .running doomed => doomed
  | .alive | .done => []

/-- A setter of the channel, on its loop. -/
def setChannel (s : System B) (i : ℕ) (op : Setter) : Except Fault (System B) := do
  let l := s.loopOf i
  let polled ← B.poller.step (s.loop l).polled (.set op i)
  return { s with
    loop := Function.update s.loop l { s.loop l with polled := polled }
    life := Function.update s.life i .registered }

/-- `EventLoop::removeChannel` finds no event of the channel waiting in the current round. -/
def Settled (s : System B) (i : ℕ) : Prop :=
  (s.loop (s.loopOf i)).eventHandling = true →
    (s.loop (s.loopOf i)).currentActiveChannel = some i ∨
      i ∉ (s.loop (s.loopOf i)).polled.activeChannels

instance (s : System B) (i : ℕ) : Decidable (s.Settled i) :=
  inferInstanceAs (Decidable (_ → _ ∨ _))

/-- `Channel::remove`, with `EventLoop::removeChannel` -/
def removeChannel (s : System B) (i : ℕ) : Except Fault (System B) := do
  let l := s.loopOf i
  check .channelRemove ((s.channel i).isNoneEvent = true)
  check .eventLoopRemoveChannel (s.Settled i)
  let polled ← B.poller.step (s.loop l).polled (.remove i)
  return { s with
    loop := Function.update s.loop l { s.loop l with polled := polled }
    life := Function.update s.life i .removed }

def setState (s : System B) (c : ℕ) (state : StateE) : System B :=
  { s with state := Function.update s.state c state }

def connectEstablished (s : System B) (c : ℕ) : Except Fault (System B) := do
  check .connectEstablished (s.state c = .kConnecting)
  (s.setState c .kConnected).setChannel (channelOf c) .enableReading

/-- `handleClose` up to the invocation of `connectionCallback_`. -/
def handleClose (s : System B) (c : ℕ) : Except Fault (System B) := do
  check .handleClose (s.state c = .kConnected ∨ s.state c = .kDisconnecting)
  { s.setState c .kDisconnected with closing := c :: s.closing }.setChannel (channelOf c) .disableAll

def connectDestroyed (s : System B) (c : ℕ) : Except Fault (System B) := do
  if s.state c = .kConnected then
    let s ← (s.setState c .kDisconnected).setChannel (channelOf c) .disableAll
    s.removeChannel (channelOf c)
  else s.removeChannel (channelOf c)

/-- A functor that ran for the server runs for its connection. -/
def runFunctor (s : System B) : Functor → Except Fault (System B)
  | .connectEstablished c => s.connectEstablished c
  | .removeConnectionInLoop _ => return s
  | .connectDestroyed c => s.connectDestroyed c

/-- The connections in `connections_`. -/
def members (s : System B) : List ℕ :=
  (List.range s.table.numConns).filter fun c =>
    s.table.server.connections (s.table.conn c).name = some c

def step (s : System B) : Action → Except Fault (System B)
  | .newConnection => do
    let c := s.table.numConns
    let s : System B := { s.setState c .kConnecting with table := ← s.table.step .newConnection }
    if (s.table.conn c).ioLoop = 0 then s.connectEstablished c else return s
  | .functor l =>
    match s.table.pendingFunctors l with
    | [] => return s
    | f :: _ => do
      check .useAfterFree (needsServer f = true → s.dtor = .alive)
      { s with table := ← s.table.step (.functor l) }.runFunctor f
  | .poll l k => do
    let polled ← B.poller.step (s.loop l).polled (.poll k)
    return { s with loop := Function.update s.loop l ⟨polled, true, none⟩ }
  | .handle l i =>
    let loop := { s.loop l with currentActiveChannel := i }
    return { s with loop := Function.update s.loop l loop }
  | .handled l =>
    let loop := { s.loop l with eventHandling := false, currentActiveChannel := none }
    return { s with loop := Function.update s.loop l loop }
  | .handleClose c => s.handleClose c
  | .closeCallback c => do
    check .useAfterFree (s.dtor = .alive)
    return { s with table := ← s.table.step (.close c), closing := s.closing.filter (· ≠ c) }
  | .set c op => s.setChannel (channelOf c) op
  | .shutdown c =>
    return if s.state c = .kConnected then s.setState c .kDisconnecting else s
  | .forceClose c =>
    return if s.state c = .kConnected ∨ s.state c = .kDisconnected then
      s.setState c .kDisconnecting else s
  | .dtor => return { s with dtor := .running s.members, left := s.members }
  | .dtorNext c =>
    let s := { s with dtor := .running (s.doomed.filter (· ≠ c)) }
    if (s.table.conn c).ioLoop = 0 then s.connectDestroyed c
    else return { s with
      table := s.table.queueInLoop (s.table.conn c).ioLoop (.connectDestroyed c) }
  | .dtorEnd => do
    let s ← s.setChannel acceptChannel .disableAll
    let s ← s.removeChannel acceptChannel
    return { s with dtor := .done }

end System

def machine (B : Backend) : Machine (System B) Action Fault := ⟨System.step⟩

/-- A server that was started and listens. -/
def start (B : Backend) (ntop : InetNtop) (listenAddr : InetAddress) (name : Bytes)
    (numThreads : ℕ) (fd : ℕ → ℕ) : Except Fault (System B) := do
  let s : System B := {
    table := ← TcpServer.start ntop listenAddr name numThreads
    state := fun _ => .kConnecting
    fd := fd
    loop := fun _ => ⟨Polled.init fd B.new, false, none⟩
    closing := []
    dtor := .alive
    life := fun _ => .unused
    left := [] }
  s.setChannel acceptChannel .enableReading

variable {B : Backend}

/-- The thread of the loop `l` is not inside the destructor. -/
def Free (s : System B) (l : ℕ) : Prop := l = 0 → s.dtor = .alive ∨ s.dtor = .done

instance (s : System B) (l : ℕ) : Decidable (Free s l) :=
  inferInstanceAs (Decidable (_ → _ ∨ _))

/-- The connection is known to user code. -/
def Known (s : System B) (c : ℕ) : Prop := c < s.table.numConns ∧ s.state c ≠ .kConnecting

instance (s : System B) (c : ℕ) : Decidable (Known s c) := inferInstanceAs (Decidable (_ ∧ _))

/-- A loop runs functors, polls and handles events one after another, the accept loop not while it
is in the destructor.  `accept(2)` gives a descriptor that is not in use. -/
def Env (s : System B) : Action → Prop
  | .newConnection => s.dtor = .alive ∧
      ∀ i ≤ s.table.numConns, s.life i ≠ .removed → s.fd i ≠ s.fd (channelOf s.table.numConns)
  | .functor l => Free s l ∧ (s.loop l).eventHandling = false ∧ s.table.pendingFunctors l ≠ []
  | .poll l _ => Free s l ∧ (s.loop l).eventHandling = false
  | .handle l i => Free s l ∧ (s.loop l).eventHandling = true ∧
      i.all (fun j => j ∈ (s.loop l).polled.activeChannels) = true
  | .handled l => Free s l ∧ (s.loop l).eventHandling = true
  | .handleClose c => Known s c ∧ Free s (s.table.conn c).ioLoop
  | .closeCallback c => c ∈ s.closing ∧ Free s (s.table.conn c).ioLoop
  | .set c _ => Known s c
  | .shutdown c => Known s c
  | .forceClose c => Known s c
  | .dtor => s.dtor = .alive
  | .dtorNext c => c ∈ s.doomed
  | .dtorEnd => s.dtor = .running []

instance (s : System B) : ∀ a, Decidable (Env s a)
  | .newConnection => inferInstanceAs (Decidable (_ ∧ ∀ i ≤ s.table.numConns, _ → _))
  | .functor _ => inferInstanceAs (Decidable (_ ∧ _ ∧ _))
  | .poll _ _ => inferInstanceAs (Decidable (_ ∧ _))
  | .handle _ _ => inferInstanceAs (Decidable (_ ∧ _ ∧ _))
  | .handled _ => inferInstanceAs (Decidable (_ ∧ _))
  | .handleClose _ => inferInstanceAs (Decidable (_ ∧ _))
  | .closeCallback _ => inferInstanceAs (Decidable (_ ∧ _))
  | .set c _ | .shutdown c | .forceClose c => inferInstanceAs (Decidable (Known s c))
  | .dtor => inferInstanceAs (Decidable (_ = _))
  | .dtorNext _ => inferInstanceAs (Decidable (_ ∈ _))
  | .dtorEnd => inferInstanceAs (Decidable (_ = _))

/-- The condition under which a server can be torn down.  The destructor finds the connections on
the accept loop and none of them closed, and each one that it comes to is in state `kConnected` and
has no event waiting; no event waits for the acceptor.  A connection that is down is left alone, and
the ids are those of an `int`. -/
def Safe (s : System B) : Action → Prop
  | .newConnection => s.table.numConns + 1 < 2 ^ 31
  | .set c _ => s.state c ≠ .kDisconnected
  | .forceClose c => s.state c ≠ .kDisconnected
  | .dtor => ∀ c ∈ s.members, (s.table.conn c).ioLoop = 0 ∧ s.state c ≠ .kDisconnected
  | .dtorNext c => s.state c = .kConnected ∧ s.Settled (channelOf c)
  | .dtorEnd => s.Settled acceptChannel
  | .functor _ | .poll _ _ | .handle _ _ | .handled _ | .handleClose _ | .closeCallback _
  | .shutdown _ => True

instance (s : System B) : ∀ a, Decidable (Safe s a)
  | .newConnection => inferInstanceAs (Decidable (_ < _))
  | .set _ _ | .forceClose _ => inferInstanceAs (Decidable (_ ≠ _))
  | .dtor => inferInstanceAs (Decidable (∀ c ∈ s.members, _ ∧ _))
  | .dtorNext _ => inferInstanceAs (Decidable (_ ∧ _))
  | .dtorEnd => inferInstanceAs (Decidable (s.Settled acceptChannel))
  | .functor _ | .poll _ _ | .handle _ _ | .handled _ | .handleClose _ | .closeCallback _
  | .shutdown _ => isTrue trivial

/-- The connections whose `connectDestroyed` came from the destructor and ran are down, and their
pollers do not have their channels. -/
def TornDown (s : System B) : Prop :=
  ∀ c ∈ s.left, c ∉ s.doomed →
    .connectDestroyed c ∉ s.table.pendingFunctors (s.table.conn c).ioLoop →
      s.state c = .kDisconnected ∧
        ¬ B.hasChannel (s.loop (s.table.conn c).ioLoop).polled (channelOf c)

/-! ## Channels -/

/-- The lives of the channels of the loop `l`. -/
def System.lifeOn (s : System B) (l i : ℕ) : Life := if s.loopOf i = l then s.life i else .unused

/-- The pollers' bookkeeping. -/
structure Wired (s : System B) : Prop where
  backend : ∀ l, B.Inv (s.loop l).polled (s.lifeOn l)
  fd : ∀ l i, ((s.loop l).polled.channel i).fd = s.fd i

/-- One channel changes, and nothing but its life, its events and its poller does. -/
structure Moved (s s' : System B) (i : ℕ) (life : Life) (events : Mask) : Prop where
  eq : ∃ loop, s' = { s with loop := loop, life := Function.update s.life i life }
  wired : Wired s'
  round : ∀ l, (s'.loop l).eventHandling = (s.loop l).eventHandling ∧
    (s'.loop l).currentActiveChannel = (s.loop l).currentActiveChannel ∧
    (s'.loop l).polled.activeChannels = (s.loop l).polled.activeChannels
  events : ∀ j, (s'.channel j).events = if j = i then events else (s.channel j).events

variable {s : System B} {i : ℕ}

/-- A step of the poller that owns the channel. -/
theorem moved_of_step (hw : Wired s) {polled : Polled B.P} {life : Life} {channel : ℕ → Channel}
    (hinv : B.Inv polled (Function.update (s.lifeOn (s.loopOf i)) i life))
    (hkeep : (s.loop (s.loopOf i)).polled.Keeps polled channel)
    (hactive : polled.activeChannels = (s.loop (s.loopOf i)).polled.activeChannels)
    (hother : ∀ j, j ≠ i →
      (channel j).events = ((s.loop (s.loopOf i)).polled.channel j).events) :
    Moved s { s with
      loop := Function.update s.loop (s.loopOf i) { s.loop (s.loopOf i) with polled := polled }
      life := Function.update s.life i life } i life (channel i).events := by
  refine ⟨⟨_, rfl⟩, ⟨fun l => ?_, fun l j => ?_⟩, fun l => ?_, fun j => ?_⟩
  · dsimp only
    by_cases hl : l = s.loopOf i
    · subst hl
      rw [Function.update_self]
      convert hinv using 1
      funext j
      show (if s.loopOf j = s.loopOf i then Function.update s.life i life j else .unused) =
        Function.update (s.lifeOn (s.loopOf i)) i life j
      by_cases hj : j = i
      · subst hj
        rw [if_pos rfl, Function.update_self, Function.update_self]
      · rw [Function.update_of_ne hj, Function.update_of_ne hj]
        rfl
    · rw [Function.update_of_ne hl]
      convert hw.backend l using 1
      funext j
      show (if s.loopOf j = l then Function.update s.life i life j else .unused) = s.lifeOn l j
      by_cases hj : j = i
      · subst hj
        rw [if_neg (Ne.symm hl), System.lifeOn, if_neg (Ne.symm hl)]
      · rw [Function.update_of_ne hj]
        rfl
  · dsimp only
    by_cases hl : l = s.loopOf i
    · subst hl
      rw [Function.update_self]
      dsimp only
      rw [hkeep.fd, hw.fd]
    · rw [Function.update_of_ne hl]
      exact hw.fd l j
  · dsimp only
    by_cases hl : l = s.loopOf i
    · subst hl
      rw [Function.update_self]
      exact ⟨rfl, rfl, hactive⟩
    · rw [Function.update_of_ne hl]
      exact ⟨rfl, rfl, rfl⟩
  · show ((Function.update s.loop (s.loopOf i) { s.loop (s.loopOf i) with polled := polled }
      (s.loopOf j)).polled.channel j).events = _
    by_cases hj : j = i
    · subst hj
      rw [if_pos rfl, Function.update_self]
      exact hkeep.events j
    · rw [if_neg hj]
      by_cases hl : s.loopOf j = s.loopOf i
      · rw [hl, Function.update_self]
        dsimp only
        rw [hkeep.events, hother j hj, System.channel, hl]
      · rw [Function.update_of_ne hl]
        rfl

theorem setChannel_moved (hw : Wired s) {op : Setter} (hi : s.life i ≠ .removed)
    (hnew : s.life i = .unused → (op.apply (s.channel i)).isNoneEvent = false ∧
      ∀ j, s.life j = .registered → s.fd j ≠ s.fd i) :
    ∃ s', s.setChannel i op = .ok s' ∧
      Moved s s' i .registered (op.apply (s.channel i)).events := by
  have hlife : s.lifeOn (s.loopOf i) i = s.life i := if_pos rfl
  obtain ⟨polled, hp, hinv, hkeep⟩ := @Backend.set B _ _ op i (hw.backend (s.loopOf i))
    (by rw [hlife]; exact hi) fun hunused => by
      rw [hlife] at hunused
      refine ⟨(hnew hunused).1, fun j hj => ?_⟩
      have hreg : s.life j = .registered := by
        unfold System.lifeOn at hj
        split_ifs at hj
        exact hj
      rw [hw.fd, hw.fd]
      exact (hnew hunused).2 j hreg
  have hactive := Poller.step_activeChannels hp (by simp)
  have hmoved := moved_of_step hw hinv hkeep hactive fun j hj => by rw [Function.update_of_ne hj]
  rw [Function.update_self] at hmoved
  refine ⟨_, ?_, hmoved⟩
  rw [System.setChannel, hp]
  rfl

theorem removeChannel_moved (hw : Wired s) (hi : s.life i = .registered)
    (hnone : (s.channel i).isNoneEvent = true) (hset : s.Settled i) :
    ∃ s', s.removeChannel i = .ok s' ∧ Moved s s' i .removed (s.channel i).events := by
  have hlife : s.lifeOn (s.loopOf i) i = s.life i := if_pos rfl
  obtain ⟨polled, hp, hinv, hkeep⟩ := B.remove (hw.backend (s.loopOf i)) (hlife.trans hi) hnone
  have hactive := Poller.step_activeChannels hp (by simp)
  have hmoved := moved_of_step hw hinv hkeep hactive fun _ _ => rfl
  refine ⟨_, ?_, hmoved⟩
  rw [System.removeChannel, check_of hnone, ok_bind, check_of hset, ok_bind, hp]
  rfl

/-! ## The invariant -/

/-- A connection on its way: what its state, its channel, its functors and its closing have to do
with one another.  `torn` says that the destructor has dealt with it. -/
structure OnItsWay (state : StateE) (life : Life) (none : Bool)
    (closing closed established destroyed torn : Prop) : Prop where
  connecting : state = .kConnecting ↔ life = .unused
  established : life = .unused ↔ ¬ established
  removed : life = .removed ↔ destroyed ∨ torn
  down : life = .removed → state = .kDisconnected
  quiet : state = .kDisconnected → life = .registered → none = true
  closing : closing → ¬ closed ∧ state = .kDisconnected
  closed : closed → state = .kDisconnected

def System.OnItsWay (s : System B) (c : ℕ) : Prop :=
  Teardown.OnItsWay (s.state c) (s.life (channelOf c)) (s.channel (channelOf c)).isNoneEvent
    (c ∈ s.closing) (c ∈ s.table.closed) (.connectEstablished c ∈ s.table.ran)
    (.connectDestroyed c ∈ s.table.ran) (c ∈ s.left ∧ c ∉ s.doomed)

/-- Once the destructor began, every connection is one it has left on the accept loop or has closed
before, and nothing calls the server any more. -/
structure Dead (s : System B) : Prop where
  all : ∀ c < s.table.numConns, c ∈ s.left ∨ c ∈ s.table.closed
  left : ∀ c ∈ s.left, c < s.table.numConns ∧ (s.table.conn c).ioLoop = 0 ∧ c ∉ s.table.closed
  doomed : ∀ c ∈ s.doomed, c ∈ s.left
  closing : s.closing = []
  removals : ∀ l c, .removeConnectionInLoop c ∉ s.table.pendingFunctors l

/-- What holds apart from the single connections. -/
structure Base (s : System B) : Prop extends Wired s where
  table : TcpServer.Inv s.table
  distinct : ∀ i ≤ s.table.numConns, ∀ j ≤ s.table.numConns, s.life i ≠ .removed →
    s.life j ≠ .removed → s.fd i = s.fd j → i = j
  fresh : ∀ i, s.table.numConns < i → s.life i = .unused
  accept : s.life acceptChannel = if s.dtor = .done then .removed else .registered
  closing : ∀ c ∈ s.closing, c < s.table.numConns
  alive : s.dtor = .alive → s.left = []
  dead : s.dtor ≠ .alive → Dead s

structure Inv (s : System B) : Prop extends Base s where
  conn : ∀ c < s.table.numConns, s.OnItsWay c

/-- A channel is registered for the first time under a descriptor of its own. -/
theorem Base.fd_ne (h : Base s) (hi : i ≤ s.table.numConns) (hunused : s.life i = .unused) (j : ℕ)
    (hj : s.life j = .registered) : s.fd j ≠ s.fd i := by
  intro heq
  have hle : j ≤ s.table.numConns := by
    by_contra hlt
    rw [h.fresh j (by omega)] at hj
    cases hj
  obtain rfl := h.distinct j hle i hi (by rw [hj]; decide) (by rw [hunused]; decide) heq
  rw [hunused] at hj
  cases hj

theorem Inv.tornDown (h : Inv s) : TornDown s := by
  intro c hc hdoomed _
  have hdead := h.dead fun halive => by
    rw [h.alive halive] at hc
    cases hc
  have hway := h.conn c (hdead.left c hc).1
  have hlife := hway.removed.2 (Or.inr ⟨hc, hdoomed⟩)
  refine ⟨hway.down hlife, fun hhas => ?_⟩
  have hreg : s.lifeOn (s.loopOf (channelOf c)) (channelOf c) = .registered :=
    (B.channels_iff _ (h.backend _)).1 hhas
  rw [System.lifeOn, if_pos rfl, hlife] at hreg
  cases hreg

/-! ## What the functions of a connection do -/

/-- A connection changes its state, and its channel its life and its events. -/
structure Became (s s' : System B) (c : ℕ) (state : StateE) (life : Life) (none : Bool) : Prop where
  eq : ∃ loop, s' = { s with
    loop := loop
    state := Function.update s.state c state
    life := Function.update s.life (channelOf c) life }
  wired : Wired s'
  round : ∀ l, (s'.loop l).eventHandling = (s.loop l).eventHandling ∧
    (s'.loop l).currentActiveChannel = (s.loop l).currentActiveChannel ∧
    (s'.loop l).polled.activeChannels = (s.loop l).polled.activeChannels
  none : ∀ d, (s'.channel (channelOf d)).isNoneEvent =
    if d = c then none else (s.channel (channelOf d)).isNoneEvent

variable {s' : System B} {c : ℕ} {state : StateE} {life : Life} {none : Bool}

theorem channelOf_inj {c d : ℕ} : channelOf c = channelOf d ↔ c = d := Nat.succ_inj

theorem Moved.became {events : Mask}
    (h : Moved (s.setState c state) s' (channelOf c) life events) :
    Became s s' c state life (events == Channel.kNoneEvent) := by
  obtain ⟨⟨loop, rfl⟩, hw, hround, hev⟩ := h
  refine ⟨⟨loop, rfl⟩, hw, hround, fun d => ?_⟩
  rw [Channel.isNoneEvent, hev]
  simp only [channelOf_inj]
  split_ifs
  · rfl
  · rfl

theorem Moved.became_self {events : Mask} (h : Moved s s' (channelOf c) life events) :
    Became s s' c (s.state c) life (events == Channel.kNoneEvent) := by
  refine Moved.became ?_
  have hself : s.setState c (s.state c) = s := by
    rw [System.setState, Function.update_eq_self]
  rw [hself]
  exact h

/-- The round of a loop is all that `Settled` looks at. -/
theorem settled_congr {j : ℕ} (hl : s'.loopOf j = s.loopOf j)
    (hround : ∀ l, (s'.loop l).eventHandling = (s.loop l).eventHandling ∧
      (s'.loop l).currentActiveChannel = (s.loop l).currentActiveChannel ∧
      (s'.loop l).polled.activeChannels = (s.loop l).polled.activeChannels)
    (h : s.Settled j) : s'.Settled j := by
  obtain ⟨h₁, h₂, h₃⟩ := hround (s.loopOf j)
  unfold System.Settled
  rw [hl, h₁, h₂, h₃]
  exact h

theorem connectEstablished_became (hw : Wired s) (hstate : s.state c = .kConnecting)
    (hlife : s.life (channelOf c) ≠ .removed)
    (hfd : s.life (channelOf c) = .unused → ∀ j, s.life j = .registered → s.fd j ≠ s.fd (channelOf c)) :
    ∃ s', s.connectEstablished c = .ok s' ∧ Became s s' c .kConnected .registered false := by
  have hsome := (s.channel (channelOf c)).isNoneEvent_enableReading
  obtain ⟨s', hs', hmoved⟩ := @setChannel_moved B (s.setState c .kConnected) (channelOf c)
    ⟨hw.backend, hw.fd⟩ .enableReading hlife fun hunused => ⟨hsome, hfd hunused⟩
  refine ⟨s', ?_, ?_⟩
  · rw [System.connectEstablished, check_of hstate, ok_bind]
    exact hs'
  · have hb := hmoved.became
    rw [Channel.isNoneEvent] at hsome
    exact hsome ▸ hb

theorem disableAll_became (hw : Wired s) (hlife : s.life (channelOf c) = .registered) :
    ∃ s', (s.setState c .kDisconnected).setChannel (channelOf c) .disableAll = .ok s' ∧
      Became s s' c .kDisconnected .registered true := by
  have hne : (s.setState c .kDisconnected).life (channelOf c) ≠ .removed := by
    rw [show (s.setState c .kDisconnected).life (channelOf c) = .registered from hlife]
    decide
  obtain ⟨s', hs', hmoved⟩ := setChannel_moved (s := s.setState c .kDisconnected) (i := channelOf c)
    ⟨hw.backend, hw.fd⟩ hne fun hunused => by
      rw [show (s.setState c .kDisconnected).life (channelOf c) = .registered from hlife] at hunused
      cases hunused
  exact ⟨s', hs', hmoved.became⟩

theorem handleClose_became (hw : Wired s)
    (hup : s.state c = .kConnected ∨ s.state c = .kDisconnecting)
    (hlife : s.life (channelOf c) = .registered) :
    ∃ s', s.handleClose c = .ok s' ∧
      Became { s with closing := c :: s.closing } s' c .kDisconnected .registered true := by
  obtain ⟨s', hs', hb⟩ := disableAll_became (s := { s with closing := c :: s.closing })
    ⟨hw.backend, hw.fd⟩ hlife
  refine ⟨s', ?_, hb⟩
  rw [System.handleClose, check_of hup, ok_bind]
  exact hs'

theorem connectDestroyed_became (hw : Wired s) (hlife : s.life (channelOf c) = .registered)
    (hset : s.Settled (channelOf c))
    (hstate : s.state c = .kConnected ∨
      s.state c = .kDisconnected ∧ (s.channel (channelOf c)).isNoneEvent = true) :
    ∃ s', s.connectDestroyed c = .ok s' ∧ Became s s' c .kDisconnected .removed true := by
  unfold System.connectDestroyed
  rcases hstate with hstate | ⟨hstate, hnone⟩
  · obtain ⟨s₁, hs₁, hb⟩ := disableAll_became hw hlife
    rw [if_pos hstate, hs₁, ok_bind]
    have hnone : (s₁.channel (channelOf c)).isNoneEvent = true := by
      rw [hb.none, if_pos rfl]
    have hlife₁ : s₁.life (channelOf c) = .registered := by
      obtain ⟨loop, rfl⟩ := hb.eq
      exact Function.update_self ..
    have hset₁ : s₁.Settled (channelOf c) := by
      refine settled_congr ?_ hb.round hset
      obtain ⟨loop, rfl⟩ := hb.eq
      rfl
    obtain ⟨s', hs', hmoved⟩ := removeChannel_moved hb.wired hlife₁ hnone hset₁
    refine ⟨s', hs', ?_⟩
    have hb' := hmoved.became_self
    refine ⟨?_, hb'.wired, fun l => ?_, fun d => ?_⟩
    · obtain ⟨loop, rfl⟩ := hb.eq
      obtain ⟨loop', rfl⟩ := hb'.eq
      exact ⟨loop', by simp⟩
    · obtain ⟨h₁, h₂, h₃⟩ := hb.round l
      obtain ⟨h₁', h₂', h₃'⟩ := hb'.round l
      exact ⟨h₁'.trans h₁, h₂'.trans h₂, h₃'.trans h₃⟩
    · rw [hb'.none, hb.none]
      split_ifs
      · exact hnone
      · rfl
  · obtain ⟨s', hs', hmoved⟩ := removeChannel_moved hw hlife hnone hset
    rw [if_neg (by rw [hstate]; decide)]
    refine ⟨s', hs', ?_⟩
    have hb := hmoved.became_self
    rw [hstate, show ((s.channel (channelOf c)).events == Channel.kNoneEvent) = true from hnone] at hb
    exact hb

theorem Base.became (h : Base s) (hb : Became s s' c state life none) (hc : c < s.table.numConns)
    (hlife : s.life (channelOf c) ≠ .removed) : Base s' := by
  obtain ⟨⟨loop, rfl⟩, hw, -, -⟩ := hb
  have hold : ∀ i, Function.update s.life (channelOf c) life i ≠ .removed → s.life i ≠ .removed := by
    intro i hi
    by_cases hic : i = channelOf c
    · rw [hic]
      exact hlife
    · rwa [Function.update_of_ne hic] at hi
  refine ⟨hw, h.table, fun i hi j hj hi' hj' => ?_, fun i hi => ?_, ?_, h.closing, h.alive,
    fun hdead => ?_⟩
  · exact h.distinct i hi j hj (hold i hi') (hold j hj')
  · have hne : i ≠ channelOf c := by
      rintro rfl
      exact absurd hi (Nat.not_lt.2 hc)
    exact (Function.update_of_ne hne _ _).trans (h.fresh i hi)
  · have hne : acceptChannel ≠ channelOf c := (Nat.succ_ne_zero c).symm
    show Function.update s.life (channelOf c) life acceptChannel = _
    rw [Function.update_of_ne hne]
    exact h.accept
  · obtain ⟨hall, hleft, hdoomed, hclosing, hrem⟩ := h.dead hdead
    exact ⟨hall, hleft, hdoomed, hclosing, hrem⟩

theorem Became.onItsWay {d : ℕ} (hb : Became s s' c state life none) (hd : d ≠ c)
    (h : s.OnItsWay d) : s'.OnItsWay d := by
  have hnone := hb.none d
  rw [if_neg hd] at hnone
  obtain ⟨⟨loop, rfl⟩, -, -, -⟩ := hb
  have hch : channelOf d ≠ channelOf c := fun heq => hd (channelOf_inj.1 heq)
  unfold System.OnItsWay
  rw [hnone]
  dsimp only
  rw [Function.update_of_ne hd, Function.update_of_ne hch]
  exact h

/-- One connection goes a step on its way. -/
theorem Base.inv_became (h : Base s) (hb : Became s s' c state life none)
    (hc : c < s.table.numConns) (hlife : s.life (channelOf c) ≠ .removed)
    (hother : ∀ d < s.table.numConns, d ≠ c → s.OnItsWay d)
    (hself : Teardown.OnItsWay state life none (c ∈ s.closing) (c ∈ s.table.closed)
      (.connectEstablished c ∈ s.table.ran) (.connectDestroyed c ∈ s.table.ran)
      (c ∈ s.left ∧ c ∉ s.doomed)) : Inv s' := by
  refine ⟨h.became hb hc hlife, fun d hd => ?_⟩
  have hn : s'.table.numConns = s.table.numConns := by
    obtain ⟨⟨loop, rfl⟩, -, -, -⟩ := hb
    rfl
  rw [hn] at hd
  by_cases hdc : d = c
  · subst hdc
    have hnone := hb.none d
    rw [if_pos rfl] at hnone
    obtain ⟨⟨loop, rfl⟩, -, -, -⟩ := hb
    unfold System.OnItsWay
    rw [hnone]
    dsimp only
    rw [Function.update_self, Function.update_self]
    exact hself
  · exact hb.onItsWay hdc (hother d hd hdc)

/-! ## The actions -/

/-- The table changes, and the loops of the connections stay as they are. -/
theorem Wired.setTable (h : Wired s) {t : TcpServer.System}
    (hconn : ∀ c, s.life (channelOf c) ≠ .unused → (t.conn c).ioLoop = (s.table.conn c).ioLoop) :
    Wired { s with table := t } := by
  refine ⟨fun l => ?_, h.fd⟩
  convert h.backend l using 1
  funext i
  cases i with
  | zero => rfl
  | succ c =>
    show (if (t.conn c).ioLoop = l then s.life (channelOf c) else .unused) =
      if (s.table.conn c).ioLoop = l then s.life (channelOf c) else .unused
    by_cases hunused : s.life (channelOf c) = .unused
    · rw [hunused, ite_self, ite_self]
    · rw [hconn c hunused]

/-- A removal that was issued is of a closed connection. -/
theorem closed_of_issued {t : TcpServer.System} (h : TcpServer.Inv t) {c : ℕ}
    (hc : c < t.numConns) (hpos : 0 < t.issued (.removeConnectionInLoop c)) : c ∈ t.closed := by
  by_contra hopen
  rw [h.removed c hc, if_neg hopen] at hpos
  exact Nat.lt_irrefl _ hpos

theorem closed_of_ran {t : TcpServer.System} (h : TcpServer.Inv t) {c : ℕ}
    (hran : .removeConnectionInLoop c ∈ t.ran) : c ∈ t.closed := by
  refine closed_of_issued h (h.ran _ hran) ?_
  have hpos := List.count_pos_iff.2 hran
  unfold TcpServer.System.issued
  omega

/-- A removal that waits has not run. -/
theorem closed_of_pending {t : TcpServer.System} (h : TcpServer.Inv t) {c l : ℕ}
    (hmem : .removeConnectionInLoop c ∈ t.pendingFunctors l) :
    c < t.numConns ∧ c ∈ t.closed ∧ .removeConnectionInLoop c ∉ t.ran := by
  obtain ⟨hlt, hhome⟩ := h.home l _ hmem
  have hpos := List.count_pos_iff.2 hmem
  have hclosed : c ∈ t.closed := by
    refine closed_of_issued h hlt ?_
    rw [TcpServer.System.issued, hhome]
    omega
  have hrem := h.removed c hlt
  rw [if_pos hclosed, TcpServer.System.issued, hhome] at hrem
  exact ⟨hlt, hclosed, List.count_eq_zero.1 (by omega)⟩

theorem mem_members (h : TcpServer.Inv s.table) :
    c ∈ s.members ↔ c < s.table.numConns ∧ .removeConnectionInLoop c ∉ s.table.ran := by
  unfold System.members
  rw [List.mem_filter, List.mem_range, decide_eq_true_eq, h.connections]
  constructor
  · rintro ⟨hc, -, -, hran⟩
    exact ⟨hc, hran⟩
  · rintro ⟨hc, hran⟩
    exact ⟨hc, hc, rfl, hran⟩

/-- An established connection that is not down has a registered channel. -/
theorem Inv.registered (h : Inv s) (hc : c < s.table.numConns) (hstate : s.state c ≠ .kConnecting)
    (hup : s.state c ≠ .kDisconnected) : s.life (channelOf c) = .registered := by
  have hway := h.conn c hc
  cases hlife : s.life (channelOf c) with
  | unused => exact absurd (hway.connecting.2 hlife) hstate
  | registered => rfl
  | removed => exact absurd (hway.down hlife) hup

/-- The table has the new connection, whose `connectEstablished` has not run. -/
def System.accepted (s : System B) (t : TcpServer.System) : System B :=
  { s.setState s.table.numConns .kConnecting with table := t }

/-- The connections that were there are where they were. -/
theorem Inv.accepted_old (h : Inv s) {t : TcpServer.System} (ht : TcpServer.Accepted s.table t)
    (hc : c < s.table.numConns) : (s.accepted t).OnItsWay c := by
  have hway := h.conn c hc
  unfold System.OnItsWay at hway ⊢
  have hchan : (s.accepted t).channel (channelOf c) = s.channel (channelOf c) := by
    show ((s.loop (t.conn c).ioLoop).polled.channel _) = _
    rw [ht.conn c hc]
    rfl
  have hstate : (s.accepted t).state c = s.state c := Function.update_of_ne (Nat.ne_of_lt hc) _ _
  rw [hchan, hstate]
  show Teardown.OnItsWay _ _ _ (c ∈ s.closing) (c ∈ t.closed) (.connectEstablished c ∈ t.ran)
    (.connectDestroyed c ∈ t.ran) (c ∈ s.left ∧ c ∉ s.doomed)
  rw [ht.closed, ht.mem_ran (.connectEstablished c) hc, ht.mem_ran (.connectDestroyed c) hc]
  exact hway

theorem Inv.accepted_base (h : Inv s) {t : TcpServer.System} (htable : TcpServer.Inv t)
    (ht : TcpServer.Accepted s.table t) (henv : Env s .newConnection) : Base (s.accepted t) := by
  obtain ⟨halive, hfd⟩ := henv
  have hwired : Wired { s with table := t } := by
    refine h.toWired.setTable fun c hc => ?_
    have hlt : c < s.table.numConns := by
      by_contra hge
      exact hc (h.fresh _ (Nat.lt_succ_of_le (Nat.not_lt.1 hge)))
    rw [ht.conn c hlt]
  refine ⟨⟨hwired.backend, hwired.fd⟩, htable, fun i hi j hj hi' hj' heq => ?_, fun i hi => ?_,
    h.accept, fun c hc => ?_, h.alive, fun hdead => absurd halive hdead⟩
  · have hi : i ≤ s.table.numConns + 1 := ht.numConns ▸ hi
    have hj : j ≤ s.table.numConns + 1 := ht.numConns ▸ hj
    rcases Nat.le_succ_iff.1 hi with hi | rfl <;> rcases Nat.le_succ_iff.1 hj with hj | rfl
    · exact h.distinct i hi j hj hi' hj' heq
    · exact absurd heq (hfd i hi hi')
    · exact absurd heq.symm (hfd j hj hj')
    · rfl
  · have hi : s.table.numConns + 1 < i := ht.numConns ▸ hi
    exact h.fresh i (by omega)
  · exact ht.numConns ▸ Nat.lt_succ_of_lt (h.closing c hc)

theorem Inv.newConnection (h : Inv s) (henv : Env s .newConnection) (hsafe : Safe s .newConnection) :
    ∃ s', s.step .newConnection = .ok s' ∧ Inv s' := by
  obtain ⟨t, ht, htable⟩ := h.table.newConnection hsafe
  have hacc := accepted_newConnection h.table.toCore ht
  have hbase : Base (s.accepted t) := h.accepted_base htable hacc henv
  set n := s.table.numConns with hn
  have hleft : s.left = [] := h.alive henv.1
  have hwhole : s.step .newConnection =
      if (t.conn n).ioLoop = 0 then (s.accepted t).connectEstablished n else .ok (s.accepted t) := by
    show (s.table.step .newConnection >>= _) = _
    rw [show s.table.step .newConnection = .ok t from ht]
    rfl
  have hlt : n < (s.accepted t).table.numConns := by
    rw [show (s.accepted t).table.numConns = n + 1 from hacc.numConns]
    exact Nat.lt_succ_self n
  have hclosing : n ∉ s.closing := fun hmem => Nat.lt_irrefl _ (h.closing n hmem)
  have hclosed : n ∉ t.closed := by
    rw [hacc.closed]
    exact fun hmem => Nat.lt_irrefl _ (h.table.closed n hmem)
  have hdes : .connectDestroyed n ∉ t.ran := by
    rw [hacc.established (.connectDestroyed n) rfl]
    simp
  have hstate : (s.accepted t).state n = .kConnecting := Function.update_self ..
  have hlife : (s.accepted t).life (channelOf n) = .unused := h.fresh _ (Nat.lt_succ_self n)
  rw [hwhole]
  by_cases hio : (t.conn n).ioLoop = 0
  · -- on the accept loop the connection is established at once
    rw [if_pos hio]
    have hest : .connectEstablished n ∈ t.ran := (hacc.established _ rfl).2 ⟨rfl, hio⟩
    obtain ⟨s', hs', hb⟩ := connectEstablished_became hbase.toWired hstate (by rw [hlife]; decide)
      fun hunused => hbase.fd_ne hlt hunused
    refine ⟨s', hs', hbase.inv_became hb hlt (by rw [hlife]; decide) (fun d hd hne => ?_) ?_⟩
    · have hd : d < n + 1 := hacc.numConns ▸ hd
      exact h.accepted_old hacc (by omega)
    · refine ⟨by decide, iff_of_false (by decide) (not_not.2 hest), ?_, by decide, by decide,
        fun hmem => absurd hmem hclosing, fun hmem => absurd hmem hclosed⟩
      show Life.registered = .removed ↔ .connectDestroyed n ∈ t.ran ∨ n ∈ s.left ∧ n ∉ s.doomed
      rw [hleft]
      simp [hdes]
  · rw [if_neg hio]
    refine ⟨s.accepted t, rfl, hbase, fun d hd => ?_⟩
    have hd : d < n + 1 := hacc.numConns ▸ hd
    rcases Nat.lt_succ_iff_lt_or_eq.1 hd with hd | rfl
    · exact h.accepted_old hacc hd
    · have hest : .connectEstablished n ∉ t.ran := fun hmem =>
        hio ((hacc.established _ rfl).1 hmem).2
      unfold System.OnItsWay
      rw [hstate, hlife]
      refine ⟨by decide, iff_of_true rfl hest, ?_, by decide, fun hdown => absurd hdown (by decide),
        fun hmem => absurd hmem hclosing, fun hmem => absurd hmem hclosed⟩
      show Life.unused = .removed ↔ .connectDestroyed n ∈ t.ran ∨ n ∈ s.left ∧ n ∉ s.doomed
      rw [hleft]
      simp [hdes]

/-- A functor ran for the server: nothing but its own connection is concerned. -/
theorem Inv.executed (h : Inv s) {t : TcpServer.System} {f : Functor}
    (htable : TcpServer.Inv t) (hex : Executed s.table t f)
    (hf : needsServer f = true → s.dtor = .alive) :
    Base { s with table := t } ∧
      ∀ d < s.table.numConns, (d ≠ f.conn ∨ needsServer f = true) →
        System.OnItsWay { s with table := t } d := by
  constructor
  · refine ⟨h.toWired.setTable fun c _ => by rw [hex.conn], htable, ?_, ?_, h.accept, ?_, h.alive,
      fun hdead => ?_⟩
    · rw [hex.numConns]
      exact h.distinct
    · rw [hex.numConns]
      exact h.fresh
    · rw [hex.numConns]
      exact h.closing
    · obtain ⟨hall, hleft, hdoomed, hclosing, hrem⟩ := h.dead hdead
      refine ⟨?_, ?_, hdoomed, hclosing, fun l c hmem => ?_⟩
      · rw [hex.numConns, hex.closed]
        exact hall
      · rw [hex.numConns, hex.conn, hex.closed]
        exact hleft
      · rcases hex.queued l _ hmem with hold | ⟨d, heq⟩
        · exact hrem l c hold
        · cases heq
  · intro d hd hne
    have hway := h.conn d hd
    unfold System.OnItsWay at hway ⊢
    have hchan : System.channel { s with table := t } (channelOf d) = s.channel (channelOf d) := by
      show ((s.loop (t.conn d).ioLoop).polled.channel _) = _
      rw [hex.conn]
      rfl
    have hest : .connectEstablished d ∈ t.ran ↔ .connectEstablished d ∈ s.table.ran := by
      rw [hex.ran, List.mem_append, List.mem_singleton]
      refine or_iff_left ?_
      rintro rfl
      exact hne.elim (fun hd => hd rfl) fun hneed => by cases hneed
    have hdes : .connectDestroyed d ∈ t.ran ↔ .connectDestroyed d ∈ s.table.ran := by
      rw [hex.ran, List.mem_append, List.mem_singleton]
      refine or_iff_left ?_
      rintro rfl
      exact hne.elim (fun hd => hd rfl) fun hneed => by cases hneed
    rw [hchan]
    dsimp only
    rw [hex.closed, hest, hdes]
    exact hway

/-- A connection whose `connectEstablished` waits has not begun its life. -/
theorem Inv.of_connectEstablished {l : ℕ} (h : Inv s)
    (hmem : .connectEstablished c ∈ s.table.pendingFunctors l) :
    s.life (channelOf c) = .unused ∧ s.state c = .kConnecting ∧ c ∉ s.closing ∧ c ∉ s.table.closed := by
  obtain ⟨hlt, hhome⟩ := h.table.home l _ hmem
  have hway := h.conn c hlt
  have hran : .connectEstablished c ∉ s.table.ran := by
    have hone := h.table.established c hlt
    have hpos := List.count_pos_iff.2 hmem
    rw [TcpServer.System.issued, hhome] at hone
    exact List.count_eq_zero.1 (by omega)
  have hunused := hway.established.2 hran
  have hstate := hway.connecting.2 hunused
  refine ⟨hunused, hstate, fun hc => ?_, fun hc => ?_⟩
  · have hdown := (hway.closing hc).2
    rw [hstate] at hdown
    cases hdown
  · have hdown := hway.closed hc
    rw [hstate] at hdown
    cases hdown

/-- A connection whose `connectDestroyed` waits is closed, and its channel is still registered. -/
theorem Inv.of_connectDestroyed {l : ℕ} (h : Inv s)
    (hmem : .connectDestroyed c ∈ s.table.pendingFunctors l) :
    s.life (channelOf c) = .registered ∧ s.state c = .kDisconnected ∧ c ∈ s.table.closed := by
  obtain ⟨hlt, hhome⟩ := h.table.home l _ hmem
  have hway := h.conn c hlt
  -- its removal ran, so that it was closed
  have hcount := h.table.destroyed c hlt
  have hpos := List.count_pos_iff.2 hmem
  rw [TcpServer.System.issued, hhome] at hcount
  have hclosed : c ∈ s.table.closed := closed_of_ran h.table (List.count_pos_iff.1 (by omega))
  have hrem := h.table.removed c hlt
  rw [if_pos hclosed, TcpServer.System.issued] at hrem
  have hdes : .connectDestroyed c ∉ s.table.ran := List.count_eq_zero.1 (by omega)
  have hstate := hway.closed hclosed
  have hleft : c ∉ s.left := fun hc => by
    refine ((h.dead fun halive => ?_).left c hc).2.2 hclosed
    rw [h.alive halive] at hc
    cases hc
  refine ⟨?_, hstate, hclosed⟩
  cases hlife : s.life (channelOf c) with
  | unused =>
    have hconnecting := hway.connecting.2 hlife
    rw [hstate] at hconnecting
    cases hconnecting
  | registered => rfl
  | removed => exact absurd (hway.removed.1 hlife) (not_or.2 ⟨hdes, fun hand => hleft hand.1⟩)

/-- The functor in front of the queue leaves it and runs for the server. -/
theorem executed_functor {t t' : TcpServer.System} {l : ℕ} {f : Functor}
    (ht' : (t.pop l).exec f = .ok t') : Executed t t' f := by
  have hex := executed_exec ht'
  refine ⟨hex.numConns, hex.conn, hex.closed, hex.ran, fun m g hg => ?_⟩
  refine (hex.queued m g hg).imp_left fun hg => ?_
  have hg' : g ∈ Function.update t.pendingFunctors l (t.pendingFunctors l).tail m := hg
  by_cases hm : m = l
  · subst hm
    rw [Function.update_self] at hg'
    exact List.mem_of_mem_tail hg'
  · rwa [Function.update_of_ne hm] at hg'

/-- `connectEstablished` runs for its connection. -/
theorem Inv.runEstablished {l : ℕ} (h : Inv s)
    (hmem : .connectEstablished c ∈ s.table.pendingFunctors l) {t : TcpServer.System}
    (htable : TcpServer.Inv t) (hex : Executed s.table t (.connectEstablished c)) :
    ∃ s', System.connectEstablished { s with table := t } c = .ok s' ∧ Inv s' := by
  obtain ⟨hlt, -⟩ := h.table.home l _ hmem
  obtain ⟨hunused, hstate, hclosing, hclosed⟩ := h.of_connectEstablished hmem
  obtain ⟨hbase, hother⟩ := h.executed htable hex fun hneed => by cases hneed
  have hway := h.conn c hlt
  have hne : s.life (channelOf c) ≠ .removed := by
    rw [hunused]
    decide
  have hlt' : c < t.numConns := by
    rw [hex.numConns]
    exact hlt
  obtain ⟨s', hs', hb⟩ := connectEstablished_became hbase.toWired hstate hne
    fun hu => hbase.fd_ne hlt' hu
  refine ⟨s', hs', hbase.inv_became hb hlt' hne (fun d hd hdc => ?_) ?_⟩
  · exact hother d (by rw [← hex.numConns]; exact hd) (Or.inl hdc)
  refine ⟨by decide, iff_of_false (by decide) (not_not.2 ?_), iff_of_false (by decide) fun hor => ?_,
    by decide, fun hdown => absurd hdown (by decide), fun hc => absurd hc hclosing, fun hc => ?_⟩
  · show _ ∈ t.ran
    rw [hex.ran]
    exact List.mem_append_right _ List.mem_cons_self
  · refine hne (hway.removed.2 (hor.imp_left fun hdes => ?_))
    have hdes' : .connectDestroyed c ∈ t.ran := hdes
    rw [hex.ran, List.mem_append, List.mem_singleton] at hdes'
    exact hdes'.resolve_right (by simp)
  · refine absurd ?_ hclosed
    rw [← hex.closed]
    exact hc

/-- `connectDestroyed` runs for its connection, outside of the loop's event handling. -/
theorem Inv.runDestroyed {l : ℕ} (h : Inv s) (hround : (s.loop l).eventHandling = false)
    (hmem : .connectDestroyed c ∈ s.table.pendingFunctors l) {t : TcpServer.System}
    (htable : TcpServer.Inv t) (hex : Executed s.table t (.connectDestroyed c)) :
    ∃ s', System.connectDestroyed { s with table := t } c = .ok s' ∧ Inv s' := by
  obtain ⟨hlt, hhome⟩ := h.table.home l _ hmem
  obtain ⟨hlife, hstate, hclosed⟩ := h.of_connectDestroyed hmem
  obtain ⟨hbase, hother⟩ := h.executed htable hex fun hneed => by cases hneed
  have hway := h.conn c hlt
  have hio : (t.conn c).ioLoop = l := by
    rw [hex.conn]
    exact hhome
  have hset : System.Settled { s with table := t } (channelOf c) := by
    intro hhandling
    have hhandling' : (s.loop (t.conn c).ioLoop).eventHandling = true := hhandling
    rw [hio, hround] at hhandling'
    cases hhandling'
  have hnone : (System.channel { s with table := t } (channelOf c)).isNoneEvent = true := by
    show ((s.loop (t.conn c).ioLoop).polled.channel _).isNoneEvent = true
    rw [hex.conn]
    exact hway.quiet hstate hlife
  have hlt' : c < t.numConns := by
    rw [hex.numConns]
    exact hlt
  obtain ⟨s', hs', hb⟩ := connectDestroyed_became hbase.toWired hlife hset (Or.inr ⟨hstate, hnone⟩)
  refine ⟨s', hs', hbase.inv_became hb hlt' (by rw [show _ = Life.registered from hlife]; decide)
    (fun d hd hdc => hother d (by rw [← hex.numConns]; exact hd) (Or.inl hdc)) ?_⟩
  have hdes : .connectDestroyed c ∈ t.ran := by
    rw [hex.ran]
    exact List.mem_append_right _ List.mem_cons_self
  have hest : .connectEstablished c ∈ t.ran := by
    rw [hex.ran]
    refine List.mem_append_left _ (by_contra fun hnot => ?_)
    have hunused := hway.established.2 hnot
    rw [hlife] at hunused
    cases hunused
  refine ⟨by decide, iff_of_false (by decide) (not_not.2 hest), iff_of_true rfl (Or.inl hdes),
    fun _ => rfl, fun _ _ => rfl, fun hc => ?_, fun _ => rfl⟩
  exact absurd hclosed (hway.closing hc).1

theorem Inv.functor {l : ℕ} (h : Inv s) (henv : Env s (.functor l)) :
    ∃ s', s.step (.functor l) = .ok s' ∧ Inv s' := by
  obtain ⟨-, hround, hne⟩ := henv
  obtain ⟨f, fs, hq⟩ := List.exists_cons_of_ne_nil hne
  have hmem : f ∈ s.table.pendingFunctors l := by
    rw [hq]
    exact List.mem_cons_self
  obtain ⟨t, ht, htable⟩ := h.table.exec hq
  have hex := executed_functor ht
  -- the server is there if the functor needs it
  have halive : needsServer f = true → s.dtor = .alive := by
    intro hneed
    by_contra hdead
    cases f with
    | connectEstablished c => cases hneed
    | removeConnectionInLoop c => exact (h.dead hdead).removals l c hmem
    | connectDestroyed c => cases hneed
  have hwhole : s.step (.functor l) = System.runFunctor { s with table := t } f := by
    rw [System.step, hq]
    dsimp only
    rw [check_of halive, ok_bind,
      show s.table.step (.functor l) = .ok t by rw [TcpServer.System.step, hq]; exact ht]
    rfl
  rw [hwhole]
  cases f with
  | connectEstablished c => exact h.runEstablished hmem htable hex
  | removeConnectionInLoop c =>
    obtain ⟨hbase, hother⟩ := h.executed htable hex halive
    exact ⟨_, rfl, hbase, fun d hd => hother d (by rw [← hex.numConns]; exact hd) (Or.inr rfl)⟩
  | connectDestroyed c => exact h.runDestroyed hround hmem htable hex

theorem Inv.closeCallback (h : Inv s) (henv : Env s (.closeCallback c)) :
    ∃ s', s.step (.closeCallback c) = .ok s' ∧ Inv s' := by
  obtain ⟨hmem, -⟩ := henv
  have hlt := h.closing c hmem
  have hway := h.conn c hlt
  obtain ⟨hopen, hstate⟩ := hway.closing hmem
  have halive : s.dtor = .alive := by
    by_contra hdead
    rw [(h.dead hdead).closing] at hmem
    cases hmem
  obtain ⟨t, ht, htable⟩ := h.table.close hlt hopen
  have hcl := closed_close ht
  refine ⟨{ s with table := t, closing := s.closing.filter (· ≠ c) }, ?_, ⟨?_, htable, ?_, ?_, h.accept,
    fun d hd => ?_, h.alive, fun hdead => absurd halive hdead⟩, fun d hd => ?_⟩
  · rw [System.step, check_of halive, ok_bind, show s.table.step (.close c) = .ok t from ht]
    rfl
  · have hw := h.toWired.setTable (t := t) fun d _ => by rw [hcl.conn]
    exact ⟨hw.backend, hw.fd⟩
  · rw [hcl.numConns]
    exact h.distinct
  · rw [hcl.numConns]
    exact h.fresh
  · rw [hcl.numConns]
    exact h.closing d (List.mem_of_mem_filter hd)
  · have hd' : d < s.table.numConns := hcl.numConns ▸ hd
    have hway := h.conn d hd'
    unfold System.OnItsWay at hway ⊢
    have hchan : System.channel { s with table := t, closing := s.closing.filter (· ≠ c) } (channelOf d) =
        s.channel (channelOf d) := by
      show ((s.loop (t.conn d).ioLoop).polled.channel _) = _
      rw [hcl.conn]
      rfl
    rw [hchan]
    dsimp only
    rw [hcl.closed, hcl.established, hcl.destroyed, List.mem_filter, List.mem_cons]
    refine ⟨hway.connecting, hway.established, hway.removed, hway.down, hway.quiet, ?_, ?_⟩
    · rintro ⟨hd, hne⟩
      have hne : d ≠ c := of_decide_eq_true hne
      exact ⟨not_or.2 ⟨hne, (hway.closing hd).1⟩, (hway.closing hd).2⟩
    · rintro (rfl | hd)
      · exact hstate
      · exact hway.closed hd

/-- The rounds of the loops are no part of the invariant. -/
theorem Inv.setLoop (h : Inv s) {loop : ℕ → Loop B}
    (hinv : ∀ l, B.Inv (loop l).polled (s.lifeOn l))
    (hkeep : ∀ l, (s.loop l).polled.Keeps (loop l).polled (s.loop l).polled.channel) :
    Inv { s with loop := loop } := by
  refine ⟨⟨⟨hinv, fun l i => ?_⟩, h.table, h.distinct, h.fresh, h.accept, h.closing, h.alive,
    fun hdead => ?_⟩, fun d hd => ?_⟩
  · rw [(hkeep l).fd]
    exact h.toWired.fd l i
  · obtain ⟨hall, hleft, hdoomed, hclosing, hrem⟩ := h.dead hdead
    exact ⟨hall, hleft, hdoomed, hclosing, hrem⟩
  · have hway := h.conn d hd
    unfold System.OnItsWay at hway ⊢
    have hnone : (System.channel { s with loop := loop } (channelOf d)).isNoneEvent =
        (s.channel (channelOf d)).isNoneEvent := by
      show ((loop (s.loopOf (channelOf d))).polled.channel _).isNoneEvent = _
      rw [Channel.isNoneEvent, (hkeep _).events]
      rfl
    rw [hnone]
    exact hway

theorem keeps_refl {P : Type} (p : Polled P) : p.Keeps p p.channel := ⟨fun _ => rfl, fun _ => rfl⟩

theorem Inv.setRound (h : Inv s) (l : ℕ) (eventHandling : Bool) (current : Option ℕ) :
    Inv { s with loop := Function.update s.loop l ⟨(s.loop l).polled, eventHandling, current⟩ } := by
  have hsame : ∀ m, (Function.update s.loop l
      ⟨(s.loop l).polled, eventHandling, current⟩ m).polled = (s.loop m).polled := by
    intro m
    by_cases hm : m = l
    · subst hm
      rw [Function.update_self]
    · rw [Function.update_of_ne hm]
  refine h.setLoop (fun m => ?_) fun m => ?_
  · rw [hsame]
    exact h.backend m
  · rw [hsame]
    exact keeps_refl _

theorem Inv.poll (h : Inv s) (l : ℕ) (k : Kernel) : ∃ s', s.step (.poll l k) = .ok s' ∧ Inv s' := by
  obtain ⟨polled, hp, hinv, hkeep⟩ := B.poll k (h.backend l)
  refine ⟨{ s with loop := Function.update s.loop l ⟨polled, true, .none⟩ }, ?_,
    h.setLoop (fun m => ?_) fun m => ?_⟩
  · rw [System.step, hp]
    rfl
  · by_cases hm : m = l
    · subst hm
      rw [Function.update_self]
      exact hinv
    · rw [Function.update_of_ne hm]
      exact h.backend m
  · by_cases hm : m = l
    · subst hm
      rw [Function.update_self]
      exact hkeep
    · rw [Function.update_of_ne hm]
      exact keeps_refl _

/-- Between `kConnected` and `kDisconnecting` nothing depends on the state. -/
theorem Inv.disconnecting (h : Inv s) (hc : c < s.table.numConns) (hstate : s.state c = .kConnected) :
    Inv (s.setState c .kDisconnecting) := by
  refine ⟨⟨⟨h.backend, h.toWired.fd⟩, h.table, h.distinct, h.fresh, h.accept, h.closing, h.alive,
    fun hdead => ?_⟩, fun d hd => ?_⟩
  · obtain ⟨hall, hleft, hdoomed, hclosing, hrem⟩ := h.dead hdead
    exact ⟨hall, hleft, hdoomed, hclosing, hrem⟩
  · have hway := h.conn d hd
    by_cases hdc : d = c
    · subst hdc
      have hself : (s.setState d .kDisconnecting).state d = .kDisconnecting := Function.update_self ..
      obtain ⟨h₁, h₂, h₃, h₄, h₅, h₆, h₇⟩ := hway
      rw [hstate] at h₁ h₄ h₅ h₆ h₇
      unfold System.OnItsWay
      rw [hself]
      refine ⟨iff_of_false (by decide) fun hu => absurd (h₁.2 hu) (by decide), h₂, h₃,
        fun hr => absurd (h₄ hr) (by decide), fun hd => absurd hd (by decide),
        fun hcl => absurd (h₆ hcl).2 (by decide), fun hcl => absurd (h₇ hcl) (by decide)⟩
    · have hself : (s.setState c .kDisconnecting).state d = s.state d := Function.update_of_ne hdc _ _
      unfold System.OnItsWay
      rw [hself]
      exact hway

theorem Inv.set {op : Setter} (h : Inv s) (henv : Env s (.set c op)) (hsafe : Safe s (.set c op)) :
    ∃ s', s.step (.set c op) = .ok s' ∧ Inv s' := by
  obtain ⟨hc, hstate⟩ := henv
  have hlife := h.registered hc hstate hsafe
  have hne : s.life (channelOf c) ≠ .removed := by
    rw [hlife]
    decide
  obtain ⟨s', hs', hmoved⟩ := @setChannel_moved B s (channelOf c) h.toWired op hne fun hu => by
    rw [hlife] at hu
    cases hu
  refine ⟨s', hs', h.toBase.inv_became hmoved.became_self hc hne (fun d hd _ => h.conn d hd) ?_⟩
  obtain ⟨h₁, h₂, h₃, h₄, -, h₆, h₇⟩ := h.conn c hc
  rw [hlife] at h₁ h₂ h₃ h₄
  exact ⟨h₁, h₂, h₃, h₄, fun hd => absurd hd hsafe, h₆, h₇⟩

theorem Inv.handleClose (h : Inv s) (henv : Env s (.handleClose c)) :
    (∃ s', s.step (.handleClose c) = .ok s' ∧ Inv s') ∨
      s.step (.handleClose c) = .error .handleClose := by
  obtain ⟨⟨hc, hknown⟩, hfree⟩ := henv
  by_cases hup : s.state c = .kConnected ∨ s.state c = .kDisconnecting
  · left
    have hne : s.state c ≠ .kDisconnected := by
      rcases hup with hup | hup <;> rw [hup] <;> decide
    have hway := h.conn c hc
    have hlife := h.registered hc hknown hne
    have hclosed : c ∉ s.table.closed := fun hmem => hne (hway.closed hmem)
    -- after the destructor there is no connection left to close
    have halive : s.dtor = .alive := by
      by_contra hdead
      have hd := h.dead hdead
      rcases hd.all c hc with hleft | hmem
      · have hdone := (hfree (hd.left c hleft).2.1).resolve_left hdead
        have hdoomed : c ∉ s.doomed := by
          rw [System.doomed, hdone]
          exact List.not_mem_nil
        exact hne (hway.down (hway.removed.2 (Or.inr ⟨hleft, hdoomed⟩)))
      · exact hclosed hmem
    obtain ⟨s', hs', hb⟩ := handleClose_became h.toWired hup hlife
    have hbase : Base { s with closing := c :: s.closing } := by
      refine ⟨⟨h.backend, h.toWired.fd⟩, h.table, h.distinct, h.fresh, h.accept, fun d hd => ?_, h.alive,
        fun hdead => absurd halive hdead⟩
      rcases List.mem_cons.1 hd with rfl | hd
      · exact hc
      · exact h.closing d hd
    refine ⟨s', hs', hbase.inv_became hb hc ?_ (fun d hd hdc => ?_) ?_⟩
    · rw [show _ = Life.registered from hlife]
      decide
    · obtain ⟨h₁, h₂, h₃, h₄, h₅, h₆, h₇⟩ := h.conn d hd
      exact ⟨h₁, h₂, h₃, h₄, h₅, fun hmem => h₆ ((List.mem_cons.1 hmem).resolve_left hdc), h₇⟩
    · obtain ⟨-, h₂, h₃, -, -, -, -⟩ := hway
      rw [hlife] at h₂ h₃
      exact ⟨by decide, h₂, h₃, fun _ => rfl, fun _ _ => rfl, fun _ => ⟨hclosed, rfl⟩, fun _ => rfl⟩
  · right
    show s.handleClose c = _
    rw [System.handleClose, check_of_not hup]
    rfl

theorem Inv.dtor (h : Inv s) (henv : Env s .dtor) (hsafe : Safe s .dtor) :
    ∃ s', s.step .dtor = .ok s' ∧ Inv s' := by
  have halive : s.dtor = .alive := henv
  have hleft := h.alive halive
  have hopen : ∀ c ∈ s.members, c ∉ s.table.closed ∧ c ∉ s.closing := by
    intro c hc
    have hway := h.conn c ((mem_members h.table).1 hc).1
    have hup := (hsafe c hc).2
    exact ⟨fun hmem => hup (hway.closed hmem), fun hmem => hup (hway.closing hmem).2⟩
  refine ⟨{ s with dtor := .running s.members, left := s.members }, rfl,
    ⟨⟨h.backend, h.toWired.fd⟩, h.table, h.distinct, h.fresh, ?_, h.closing,
      fun hdtor => (by cases hdtor), fun _ => ⟨fun c hc => ?_, fun c hc => ?_, fun c hc => hc, ?_, ?_⟩⟩,
    fun d hd => ?_⟩
  · have haccept := h.accept
    rw [halive] at haccept
    exact haccept
  · by_cases hran : .removeConnectionInLoop c ∈ s.table.ran
    · exact Or.inr (closed_of_ran h.table hran)
    · exact Or.inl ((mem_members h.table).2 ⟨hc, hran⟩)
  · exact ⟨((mem_members h.table).1 hc).1, (hsafe c hc).1, (hopen c hc).1⟩
  · refine List.eq_nil_iff_forall_not_mem.2 fun c hc => ?_
    have hlt := h.closing c hc
    have hnot := ((h.conn c hlt).closing hc).1
    have hmember : c ∈ s.members :=
      (mem_members h.table).2 ⟨hlt, fun hran => hnot (closed_of_ran h.table hran)⟩
    exact (hopen c hmember).2 hc
  · intro l c hmem
    obtain ⟨hlt, hclosed, hran⟩ := closed_of_pending h.table hmem
    exact (hopen c ((mem_members h.table).2 ⟨hlt, hran⟩)).1 hclosed
  · obtain ⟨h₁, h₂, h₃, h₄, h₅, h₆, h₇⟩ := h.conn d hd
    refine ⟨h₁, h₂, ?_, h₄, h₅, h₆, h₇⟩
    rw [h₃, hleft]
    simp [System.doomed]

theorem Inv.dtorNext (h : Inv s) (henv : Env s (.dtorNext c)) (hsafe : Safe s (.dtorNext c)) :
    ∃ s', s.step (.dtorNext c) = .ok s' ∧ Inv s' := by
  obtain ⟨hstate, hset⟩ := hsafe
  have hmem : c ∈ s.doomed := henv
  obtain ⟨doomed, hdtor⟩ : ∃ doomed, s.dtor = .running doomed := by
    unfold System.doomed at hmem
    cases hd : s.dtor with
    | alive => rw [hd] at hmem; cases hmem
    | running doomed => exact ⟨doomed, rfl⟩
    | done => rw [hd] at hmem; cases hmem
  have hd := h.dead (by rw [hdtor]; simp)
  obtain ⟨hc, hio, hclosed⟩ := hd.left c (hd.doomed c hmem)
  have hlife := h.registered hc (by rw [hstate]; decide) (by rw [hstate]; decide)
  set s₁ : System B := { s with dtor := .running (s.doomed.filter (· ≠ c)) } with hs₁
  have hbase : Base s₁ := by
    refine ⟨⟨h.backend, h.toWired.fd⟩, h.table, h.distinct, h.fresh, ?_, h.closing,
      fun halive => (by cases halive), fun _ => ⟨hd.all, hd.left, fun d hd' => ?_, hd.closing, hd.removals⟩⟩
    · have haccept := h.accept
      rw [hdtor] at haccept
      exact haccept
    · exact hd.doomed d (List.mem_of_mem_filter hd')
  obtain ⟨s', hs', hb⟩ := connectDestroyed_became (s := s₁) hbase.toWired hlife hset (Or.inl hstate)
  have hwhole : s.step (.dtorNext c) = s₁.connectDestroyed c := if_pos hio
  rw [hwhole]
  have hdoomed₁ : ∀ d, d ∈ s₁.doomed ↔ d ∈ s.doomed ∧ d ≠ c := by
    intro d
    show d ∈ s.doomed.filter (· ≠ c) ↔ _
    rw [List.mem_filter, decide_eq_true_eq]
  refine ⟨s', hs', hbase.inv_became hb hc (by rw [show _ = Life.registered from hlife]; decide)
    (fun d hdlt hdc => ?_) ?_⟩
  · obtain ⟨h₁, h₂, h₃, h₄, h₅, h₆, h₇⟩ := h.conn d hdlt
    refine ⟨h₁, h₂, ?_, h₄, h₅, h₆, h₇⟩
    rw [hdoomed₁, and_iff_left hdc]
    exact h₃
  · have hway := h.conn c hc
    refine ⟨by decide, iff_of_false (by decide) fun hnot => ?_,
      iff_of_true rfl (Or.inr ⟨hd.doomed c hmem, fun hin => ((hdoomed₁ c).1 hin).2 rfl⟩), fun _ => rfl,
      fun _ _ => rfl, fun hcl => ?_, fun _ => rfl⟩
    · have hu := hway.established.2 hnot
      rw [hlife] at hu
      cases hu
    · have hcl' : c ∈ s.closing := hcl
      rw [hd.closing] at hcl'
      cases hcl'

/-- A move of the acceptor's channel does not concern the connections. -/
theorem Moved.onItsWay {events : Mask} (hm : Moved s s' acceptChannel life events) {d : ℕ}
    (h : s.OnItsWay d) : s'.OnItsWay d := by
  have hne : channelOf d ≠ acceptChannel := Nat.succ_ne_zero d
  have hev := hm.events (channelOf d)
  rw [if_neg hne] at hev
  obtain ⟨⟨loop, rfl⟩, -, -, -⟩ := hm
  unfold System.OnItsWay
  rw [Channel.isNoneEvent, hev]
  dsimp only
  rw [Function.update_of_ne hne]
  exact h

theorem Inv.dtorEnd (h : Inv s) (henv : Env s .dtorEnd) (hsafe : Safe s .dtorEnd) :
    ∃ s', s.step .dtorEnd = .ok s' ∧ Inv s' := by
  have hdtor : s.dtor = .running [] := henv
  have hset : s.Settled acceptChannel := hsafe
  have hlife : s.life acceptChannel = .registered := by
    rw [h.accept, hdtor]
    rfl
  obtain ⟨s₁, hs₁, hm⟩ := @setChannel_moved B s acceptChannel h.toWired .disableAll
    (by rw [hlife]; decide) fun hu => by
      rw [hlife] at hu
      cases hu
  have hnone : (s₁.channel acceptChannel).isNoneEvent = true := by
    rw [Channel.isNoneEvent, hm.events, if_pos rfl]
    rfl
  have hlife₁ : s₁.life acceptChannel = .registered := by
    obtain ⟨⟨loop, rfl⟩, -, -, -⟩ := hm
    show Function.update s.life acceptChannel Life.registered acceptChannel = _
    rw [Function.update_self]
  have hloop : s₁.loopOf acceptChannel = s.loopOf acceptChannel := rfl
  have hset₁ : s₁.Settled acceptChannel := settled_congr hloop hm.round hset
  obtain ⟨s₂, hs₂, hm'⟩ := removeChannel_moved hm.wired hlife₁ hnone hset₁
  have hconn : ∀ d, s.OnItsWay d → s₂.OnItsWay d := fun d hd => hm'.onItsWay (hm.onItsWay hd)
  refine ⟨{ s₂ with dtor := .done }, ?_, ?_⟩
  · rw [System.step, hs₁, ok_bind, hs₂]
    rfl
  obtain ⟨⟨loop, rfl⟩, -, -, -⟩ := hm
  obtain ⟨⟨loop', rfl⟩, hw, -, -⟩ := hm'
  obtain ⟨hall, hleft, hdoomed, hclosing, hrem⟩ := h.dead (by rw [hdtor]; simp)
  have hlife₂ : ∀ i, i ≠ acceptChannel → Function.update (Function.update s.life acceptChannel .registered)
      acceptChannel .removed i = s.life i := fun i hi => by
    rw [Function.update_of_ne hi, Function.update_of_ne hi]
  refine ⟨⟨⟨hw.backend, hw.fd⟩, h.table, fun i hi j hj hi' hj' => ?_, fun i hi => ?_, ?_, h.closing,
    fun halive => (by cases halive), fun _ => ⟨hall, hleft, ?_, hclosing, hrem⟩⟩, fun d hd => ?_⟩
  · have hne : ∀ i, Function.update (Function.update s.life acceptChannel .registered) acceptChannel
        .removed i ≠ .removed → i ≠ acceptChannel := by
      rintro i hi rfl
      exact hi (Function.update_self ..)
    have hi'' : s.life i ≠ .removed := hlife₂ i (hne i hi') ▸ hi'
    have hj'' : s.life j ≠ .removed := hlife₂ j (hne j hj') ▸ hj'
    exact h.distinct i hi j hj hi'' hj''
  · exact (hlife₂ i (Nat.ne_of_gt (Nat.lt_of_le_of_lt (Nat.zero_le _) hi))).trans (h.fresh i hi)
  · show Function.update (Function.update s.life acceptChannel .registered) acceptChannel
      Life.removed acceptChannel = Life.removed
    rw [Function.update_self]
  · exact fun d hd' => absurd hd' List.not_mem_nil
  · obtain ⟨h₁, h₂, h₃, h₄, h₅, h₆, h₇⟩ := hconn d (h.conn d hd)
    refine ⟨h₁, h₂, ?_, h₄, h₅, h₆, h₇⟩
    rw [h₃]
    show _ ∨ d ∈ s.left ∧ d ∉ s.doomed ↔ _ ∨ d ∈ s.left ∧ d ∉ []
    rw [System.doomed, hdtor]

/-! ## Runs -/

theorem Inv.step (h : Inv s) {a : Action} (henv : Env s a) (hsafe : Safe s a) :
    (∃ s', (machine B).step s a = .ok s' ∧ Inv s') ∨ (machine B).step s a = .error .handleClose := by
  cases a with
  | newConnection => exact Or.inl (h.newConnection henv hsafe)
  | functor l => exact Or.inl (h.functor henv)
  | poll l k => exact Or.inl (h.poll l k)
  | handle l i => exact Or.inl ⟨_, rfl, h.setRound l _ i⟩
  | handled l => exact Or.inl ⟨_, rfl, h.setRound l false .none⟩
  | handleClose c => exact h.handleClose henv
  | closeCallback c => exact Or.inl (h.closeCallback henv)
  | set c op => exact Or.inl (h.set henv hsafe)
  | shutdown c =>
    left
    refine ⟨_, rfl, ?_⟩
    split_ifs with hstate
    · exact h.disconnecting henv.1 hstate
    · exact h
  | forceClose c =>
    left
    refine ⟨_, rfl, ?_⟩
    split_ifs with hstate
    · exact h.disconnecting henv.1 (hstate.resolve_right hsafe)
    · exact h
  | dtor => exact Or.inl (h.dtor henv hsafe)
  | dtorNext c => exact Or.inl (h.dtorNext henv hsafe)
  | dtorEnd => exact Or.inl (h.dtorEnd henv hsafe)

theorem inv_start (B : Backend) (ntop : InetNtop) (listenAddr : InetAddress) (name : Bytes)
    (numThreads : ℕ) (fd : ℕ → ℕ) :
    ∃ s, start B ntop listenAddr name numThreads fd = .ok s ∧ Inv s := by
  obtain ⟨t, ht, htable⟩ := TcpServer.inv_start ntop listenAddr name numThreads
  have hzero : t.numConns = 0 := by
    obtain ⟨server, -, hs⟩ := bind_eq_ok.1 (show (new ntop listenAddr name numThreads >>= _) = _ from ht)
    obtain rfl := Except.ok.inj hs
    rfl
  set s₀ : System B := {
    table := t
    state := fun _ => .kConnecting
    fd := fd
    loop := fun _ => ⟨Polled.init fd B.new, false, .none⟩
    closing := []
    dtor := .alive
    life := fun _ => .unused
    left := [] } with hs₀
  have hwired : Wired s₀ := by
    refine ⟨fun l => ?_, fun _ _ => rfl⟩
    convert B.init fd using 1
    funext i
    exact ite_self _
  obtain ⟨s, hs, hm⟩ := @setChannel_moved B s₀ acceptChannel hwired .enableReading
    (fun hr => by cases hr) fun _ =>
      ⟨Channel.isNoneEvent_enableReading _, fun j hj => by cases hj⟩
  refine ⟨s, ?_, ?_⟩
  · rw [start, ht]
    exact hs
  obtain ⟨⟨loop, rfl⟩, hw, -, -⟩ := hm
  refine ⟨⟨hw, htable, fun i hi j hj _ _ _ => ?_, fun i hi => ?_, ?_, fun c hc => (by cases hc),
    fun _ => rfl, fun hdead => absurd rfl hdead⟩, fun c hc => ?_⟩
  · have hi : i ≤ 0 := hzero ▸ hi
    have hj : j ≤ 0 := hzero ▸ hj
    omega
  · have hne : i ≠ acceptChannel := Nat.ne_of_gt (Nat.lt_of_le_of_lt (Nat.zero_le _) hi)
    show Function.update s₀.life acceptChannel Life.registered i = .unused
    rw [Function.update_of_ne hne]
  · show Function.update s₀.life acceptChannel Life.registered acceptChannel = .registered
    rw [Function.update_self]
  · have hc : c < 0 := hzero ▸ hc
    omega

/-- A server that is torn down under the condition of `Safe`: no assertion of `Channel::remove`,
`EventLoop::removeChannel` or the poller fails in any run, nothing is called on the server after its
destructor began, and the connections it left are down and off their pollers. -/
theorem torn_down (B : Backend) (ntop : InetNtop) (listenAddr : InetAddress) (name : Bytes)
    (numThreads : ℕ) (fd : ℕ → ℕ) :
    ∃ s, start B ntop listenAddr name numThreads fd = .ok s ∧ ∀ as, (machine B).Along Env s as →
      (machine B).Along Safe s as →
        (∀ f, (machine B).run s as = .error f → f = .handleClose) ∧
          (machine B).Always TornDown s as := by
  obtain ⟨s, hs, hinv⟩ := inv_start B ntop listenAddr name numThreads fd
  refine ⟨s, hs, fun as henv hsafe => ?_⟩
  have hboth := Machine.along_and.2 ⟨henv, hsafe⟩
  obtain ⟨hfault, hI⟩ := Machine.fault_eq_always_of_along (M := machine B)
    (fun s a (h : Inv s) ha => h.step ha.1 ha.2) hinv hboth
  exact ⟨hfault, hI.mono fun s h => h.tornDown⟩

/-- The descriptor `fd` is readable, and nothing else is ready. -/
def readable (fd : ℤ) : Kernel := ⟨fun fd' => if fd' = fd then POLLIN else 0, id, List.Perm.refl⟩

/-- A server on one loop: the first connection closes, and in the message callback of the second the
server is deleted. -/
theorem torn_down_in_callback :
    ∃ s, start .ePollPoller .numeric (.inet 0x7f000001 8080) (ascii "echo") 0 id = .ok s ∧
      (machine .ePollPoller).Always TornDown s
        [.newConnection, .newConnection, .handleClose 0, .closeCallback 0, .poll 0 (readable 2),
          .handle 0 (some 2), .dtor, .dtorNext 1, .dtorEnd, .handled 0, .functor 0] := by
  have hrun : (start .ePollPoller .numeric (.inet 0x7f000001 8080) (ascii "echo") 0 id).toOption.all
      (fun s => decide ((machine .ePollPoller).Along (fun s a => Env s a ∧ Safe s a) s
        [.newConnection, .newConnection, .handleClose 0, .closeCallback 0, .poll 0 (readable 2),
          .handle 0 (some 2), .dtor, .dtorNext 1, .dtorEnd, .handled 0, .functor 0])) = true := by
    decide +kernel
  obtain ⟨s, hs, h⟩ := torn_down .ePollPoller .numeric (.inet 0x7f000001 8080) (ascii "echo") 0 id
  rw [hs] at hrun
  obtain ⟨henv, hsafe⟩ := Machine.along_and.1 (of_decide_eq_true hrun)
  exact ⟨s, hs, (h _ henv hsafe).2⟩

/-- A run of a server on the given number of I/O loops that ends with the given fault. -/
def Fails (numThreads : ℕ) (f : Fault) : Prop :=
  ∃ s as, start .ePollPoller .numeric (.inet 0x7f000001 8080) (ascii "echo") numThreads id = .ok s ∧
    (machine .ePollPoller).Along Env s as ∧ (machine .ePollPoller).run s as = .error f

/-- A run is checked by running it. -/
theorem fails_of_run {numThreads : ℕ} (as : List Action) {f : Fault}
    (h : (start .ePollPoller .numeric (.inet 0x7f000001 8080) (ascii "echo") numThreads id).toOption.all
      (fun s => decide ((machine .ePollPoller).Along Env s as) &&
        match (machine .ePollPoller).run s as with
        | .error f' => decide (f' = f)
        | .ok _ => false) = true) : Fails numThreads f := by
  obtain ⟨s, hs, -⟩ := inv_start .ePollPoller .numeric (.inet 0x7f000001 8080) (ascii "echo")
    numThreads id
  rw [hs] at h
  simp only [Except.toOption, Option.all_some, Bool.and_eq_true, decide_eq_true_eq] at h
  obtain ⟨henv, hf⟩ := h
  refine ⟨s, as, hs, henv, ?_⟩
  rcases hrun : (machine .ePollPoller).run s as with f' | s'
  · rw [hrun] at hf
    rw [of_decide_eq_true hf]
  · rw [hrun] at hf
    cases hf

/-- Three ways in which a teardown fails: a connection that is shutting down, a connection of the
accept loop whose event waits while another channel is handled, and a connection on another loop that
closes after the destructor. -/
theorem teardown_fails :
    Fails 0 .channelRemove ∧ Fails 0 .eventLoopRemoveChannel ∧ Fails 1 .useAfterFree :=
  ⟨fails_of_run [.newConnection, .shutdown 0, .dtor, .dtorNext 0] (by decide +kernel),
    fails_of_run [.newConnection, .poll 0 (readable 1), .handle 0 .none, .dtor, .dtorNext 0]
      (by decide +kernel),
    fails_of_run [.newConnection, .functor 1, .dtor, .dtorNext 0, .handleClose 0, .closeCallback 0]
      (by decide +kernel)⟩

end Teardown

end TcpServer

end Reactor
