import Reactor.EchoServer
import Reactor.TcpConnection

/-!
# The echo server with a sorted list

This echo server closes idle connections as well, by a list of its connections in the order of their
last messages.  A message moves its connection to the end of the list; a tick walks along the list
and stops at the first connection that is not idle.

The list is in order up to the time that one iteration of the loop takes: a connection that comes up
is entered with the time of the call, a message with the time at which `poll` returned, which may be
earlier.

* `idle_closed_between`: a connection that was silent for more than `idleSeconds` and the time of an
  iteration is shut down by the next tick, and no connection is shut down before it was silent for
  more than `idleSeconds`.
-/

namespace Reactor

namespace SortedList

def kMicroSecondsPerSecond : ℤ := 1000 * 1000

/-- `EchoServer`, with the connections it works on.  Their contexts are the `Node`-s; the position of
a node is where its connection stands in the list. -/
structure EchoServer where
  connectionList : List ConnId
  idleSeconds : ℤ
  lastReceiveTime : ConnId → Option ℤ
  state : ConnId → StateE
  gone : List ConnId
  -- the time `poll` returned, and the last time that was read from the clock
  pollReturnTime : ℤ
  clock : ℤ

namespace EchoServer

/-- The constructor. -/
def new (idleSeconds clock : ℤ) : EchoServer where
  connectionList := []
  idleSeconds := idleSeconds
  lastReceiveTime := fun _ => none
  state := fun _ => .kConnecting
  gone := []
  pollReturnTime := clock
  clock := clock

/-- `onConnection` of a connection that is up. -/
def onConnectionUp (s : EchoServer) (conn : ConnId) (now : ℤ) : EchoServer :=
  { s with
    connectionList := s.connectionList ++ [conn]
    lastReceiveTime := Function.update s.lastReceiveTime conn (some now)
    state := Function.update s.state conn .kConnected
    clock := now }

/-- `onConnection` of a connection that is down. -/
def onConnectionDown (s : EchoServer) (conn : ConnId) : Except Fault EchoServer := do
  check .echoContext (s.lastReceiveTime conn).isSome
  check .outOfBounds (conn ∈ s.connectionList)
  return { s with
    connectionList := s.connectionList.erase conn
    state := Function.update s.state conn .kDisconnected }

/-- `onMessage`, without the echo. -/
def onMessage (s : EchoServer) (conn : ConnId) : Except Fault EchoServer := do
  check .echoContext (s.lastReceiveTime conn).isSome
  check .outOfBounds (conn ∈ s.connectionList)
  return { s with
    lastReceiveTime := Function.update s.lastReceiveTime conn (some s.pollReturnTime)
    connectionList := s.connectionList.erase conn ++ [conn] }

/-- `shutdown` and `forceCloseWithDelay` of a connection that is connected. -/
def close (s : EchoServer) (conn : ConnId) : EchoServer :=
  if s.state conn = .kConnected then
    { s with state := Function.update s.state conn .kDisconnecting }
  else s

/-- The loop of `onTimer`, from an iterator on: what it leaves of the list, and the server. -/
def sweep (now : ℤ) : List ConnId → EchoServer → Except Fault (List ConnId × EchoServer)
  | [], s => return ([], s)
  | conn :: rest, s =>
    if conn ∈ s.gone then sweep now rest s
    else
      match s.lastReceiveTime conn with
      | none => .error .echoContext
      | some lastReceiveTime =>
        let age := now - lastReceiveTime
        if s.idleSeconds * kMicroSecondsPerSecond < age then do
          let (kept, s) ← sweep now rest (s.close conn)
          return (conn :: kept, s)
        else if age < 0 then do
          let s := { s with lastReceiveTime := Function.update s.lastReceiveTime conn (some now) }
          let (kept, s) ← sweep now rest s
          return (conn :: kept, s)
        else return (conn :: rest, s)

def onTimer (s : EchoServer) (now : ℤ) : Except Fault EchoServer := do
  let (connectionList, s) ← sweep now s.connectionList { s with clock := now }
  return { s with connectionList := connectionList }

/-! ## The machine -/

/-- What the loop does for the server; `now` is what the clock says. -/
inductive Event where
  | poll (now : ℤ)
  | up (conn : ConnId) (now : ℤ)
  | down (conn : ConnId)
  | message (conn : ConnId)
  | timer (now : ℤ)
  -- the last shared pointer to a connection goes away
  | gone (conn : ConnId)
  deriving DecidableEq, Repr

def step (s : EchoServer) : Event → Except Fault EchoServer
  | .poll now => return { s with pollReturnTime := now, clock := now }
  | .up conn now => return s.onConnectionUp conn now
  | .down conn => s.onConnectionDown conn
  | .message conn => s.onMessage conn
  | .timer now => s.onTimer now
  | .gone conn => return { s with gone := s.gone ++ [conn] }

def machine : Machine EchoServer Event Fault := ⟨step⟩

/-- The connection is up. -/
def Up (s : EchoServer) (conn : ConnId) : Prop :=
  s.state conn = .kConnected ∨ s.state conn = .kDisconnecting

instance (s : EchoServer) (conn : ConnId) : Decidable (s.Up conn) :=
  inferInstanceAs (Decidable (_ ∨ _))

/-- The clock does not go back, and one iteration of the loop takes `lag` at most.  A connection comes
up once and goes down once, and is heard of while it is up; it is gone when it is down. -/
def Env (lag : ℤ) (s : EchoServer) : Event → Prop
  | .poll now => s.clock ≤ now
  | .up conn now => s.state conn = .kConnecting ∧ s.clock ≤ now ∧ now ≤ s.pollReturnTime + lag
  | .down conn | .message conn => s.Up conn
  | .timer now => s.clock ≤ now ∧ now ≤ s.pollReturnTime + lag
  | .gone conn => s.state conn = .kDisconnected

instance (lag : ℤ) (s : EchoServer) : ∀ e, Decidable (Env lag s e)
  | .poll now => inferInstanceAs (Decidable (s.clock ≤ now))
  | .up _ _ | .timer _ => inferInstanceAs (Decidable (_ ∧ _))
  | .down conn | .message conn => inferInstanceAs (Decidable (s.Up conn))
  | .gone conn => inferInstanceAs (Decidable (s.state conn = .kDisconnected))

/-! ## The order of the list -/

/-- The first connection was last heard of before the second one, up to `lag`. -/
def Before (lag : ℤ) (last : ConnId → Option ℤ) (a b : ConnId) : Prop :=
  ∀ t ∈ last a, ∀ u ∈ last b, t ≤ u + lag

/-- The list has the connections that are up, in the order of their last messages. -/
structure Inv (lag : ℤ) (s : EchoServer) : Prop where
  nodup : s.connectionList.Nodup
  mem_iff : ∀ c, c ∈ s.connectionList ↔ s.Up c
  heard : ∀ c ∈ s.connectionList, ∃ t, s.lastReceiveTime c = some t ∧ t ≤ s.clock
  ordered : s.connectionList.Pairwise (Before lag s.lastReceiveTime)
  gone : ∀ c ∈ s.gone, s.state c = .kDisconnected
  poll_le : s.pollReturnTime ≤ s.clock
  clock_le : s.clock ≤ s.pollReturnTime + lag

variable {lag now : ℤ} {s s' : EchoServer} {conn : ConnId}

theorem inv_new (hlag : 0 ≤ lag) (idleSeconds clock : ℤ) : Inv lag (new idleSeconds clock) := by
  refine ⟨List.nodup_nil, fun c => ?_, fun c hc => ?_, List.Pairwise.nil, fun c hc => ?_, le_rfl, ?_⟩
  · simp [new, Up]
  · cases hc
  · cases hc
  · show clock ≤ clock + lag
    omega

theorem Inv.not_gone (h : Inv lag s) {c : ConnId} (hc : c ∈ s.connectionList) : c ∉ s.gone := by
  intro hgone
  have hdown := h.gone c hgone
  rcases (h.mem_iff c).1 hc with hup | hup <;> rw [hdown] at hup <;> cases hup

theorem Before.congr {last last' : ConnId → Option ℤ} {a b : ConnId} (h : Before lag last a b)
    (ha : last' a = last a) (hb : last' b = last b) : Before lag last' a b := by
  unfold Before
  rw [ha, hb]
  exact h

/-- A connection is heard of: it is the last one of the list, with a time that is as late as all
others, up to `lag`. -/
theorem Inv.touch (h : Inv lag s) {l : List ConnId} {t clock : ℤ} (hl : l.Sublist s.connectionList)
    (hnot : conn ∉ l) (ht : t ≤ clock) (hle : s.clock ≤ t + lag) (hclock : s.clock ≤ clock) :
    (l ++ [conn]).Nodup ∧
      (∀ c ∈ l ++ [conn],
        ∃ u, Function.update s.lastReceiveTime conn (some t) c = some u ∧ u ≤ clock) ∧
      (l ++ [conn]).Pairwise (Before lag (Function.update s.lastReceiveTime conn (some t))) := by
  have hother : ∀ c ∈ l, Function.update s.lastReceiveTime conn (some t) c = s.lastReceiveTime c := by
    intro c hc
    refine Function.update_of_ne ?_ _ _
    rintro rfl
    exact hnot hc
  have hheard : ∀ c ∈ l, ∃ u, s.lastReceiveTime c = some u ∧ u ≤ s.clock :=
    fun c hc => h.heard c (hl.subset hc)
  refine ⟨?_, fun c hc => ?_, ?_⟩
  · exact (h.nodup.sublist hl).append (List.nodup_singleton conn) (by simpa using hnot)
  · rcases List.mem_append.1 hc with hc | hc
    · obtain ⟨u, hu, hule⟩ := hheard c hc
      exact ⟨u, (hother c hc).trans hu, hule.trans hclock⟩
    · obtain rfl := List.mem_singleton.1 hc
      exact ⟨t, Function.update_self _ _ _, ht⟩
  · refine List.pairwise_append.2 ⟨?_, List.pairwise_singleton _ _, fun a ha b hb => ?_⟩
    · exact (h.ordered.sublist hl).imp_of_mem fun ha hb hab => hab.congr (hother _ ha) (hother _ hb)
    · obtain rfl := List.mem_singleton.1 hb
      intro v hv u hu
      rw [Function.update_self] at hu
      obtain ⟨v', hv', hvle⟩ := hheard a ha
      rw [hother a ha, hv'] at hv
      obtain rfl := Option.some.inj hu
      obtain rfl := Option.some.inj hv
      exact hvle.trans hle

theorem up_update (s : EchoServer) (conn : ConnId) (st : StateE) (c : ConnId) :
    Up { s with state := Function.update s.state conn st } c ↔
      if c = conn then st = .kConnected ∨ st = .kDisconnecting else s.Up c := by
  unfold Up
  dsimp only
  rw [Function.update_apply]
  split_ifs <;> rfl

/-- A state that is set and not `kDisconnected` leaves the others that are down as they are. -/
theorem down_update {st : StateE} {c : ConnId} (hdown : s.state c = .kDisconnected)
    (hconn : s.state conn = .kDisconnected → st = .kDisconnected) :
    Function.update s.state conn st c = .kDisconnected := by
  rw [Function.update_apply]
  split_ifs with hc
  · exact hconn (hc ▸ hdown)
  · exact hdown

theorem Inv.onConnectionUp (h : Inv lag s) (hnew : s.state conn = .kConnecting)
    (hlt : s.clock ≤ now) (hle : now ≤ s.pollReturnTime + lag) :
    Inv lag (s.onConnectionUp conn now) := by
  have hnot : conn ∉ s.connectionList := by
    intro hmem
    rcases (h.mem_iff conn).1 hmem with hup | hup <;> rw [hnew] at hup <;> cases hup
  have hpoll := h.poll_le
  obtain ⟨hnodup, hheard, hordered⟩ := h.touch (List.Sublist.refl _) hnot le_rfl
    (show s.clock ≤ now + lag by omega) hlt
  refine ⟨hnodup, fun c => ?_, hheard, hordered, fun c hc => ?_, hpoll.trans hlt, hle⟩
  · show c ∈ s.connectionList ++ [conn] ↔ Up { s with state := Function.update s.state conn _ } c
    rw [up_update, List.mem_append, h.mem_iff, List.mem_singleton]
    split_ifs with hc <;> simp [hc]
  · exact down_update (h.gone c hc) fun hdown => by rw [hnew] at hdown; cases hdown

/-- The connection is taken out of the list. -/
def removed (s : EchoServer) (conn : ConnId) : EchoServer :=
  { s with
    connectionList := s.connectionList.erase conn
    state := Function.update s.state conn .kDisconnected }

/-- The connection is put at the end of the list. -/
def spliced (s : EchoServer) (conn : ConnId) : EchoServer :=
  { s with
    lastReceiveTime := Function.update s.lastReceiveTime conn (some s.pollReturnTime)
    connectionList := s.connectionList.erase conn ++ [conn] }

theorem Inv.onConnectionDown (h : Inv lag s) (hup : s.Up conn) :
    s.onConnectionDown conn = .ok (s.removed conn) ∧ Inv lag (s.removed conn) := by
  have hmem := (h.mem_iff conn).2 hup
  obtain ⟨t, ht, -⟩ := h.heard conn hmem
  refine ⟨?_, h.nodup.erase conn, fun c => ?_, fun c hc => h.heard c (List.mem_of_mem_erase hc),
    h.ordered.sublist List.erase_sublist, fun c hc => ?_, h.poll_le, h.clock_le⟩
  · rw [EchoServer.onConnectionDown, check_of (by rw [ht]; rfl), ok_bind, check_of hmem, ok_bind]
    rfl
  · show c ∈ s.connectionList.erase conn ↔ Up { s with state := Function.update s.state conn _ } c
    rw [up_update, h.nodup.mem_erase_iff, h.mem_iff]
    split_ifs with hc <;> simp [hc]
  · exact down_update (h.gone c hc) fun _ => rfl

theorem Inv.onMessage (h : Inv lag s) (hup : s.Up conn) :
    s.onMessage conn = .ok (s.spliced conn) ∧ Inv lag (s.spliced conn) := by
  have hmem := (h.mem_iff conn).2 hup
  obtain ⟨t, ht, -⟩ := h.heard conn hmem
  obtain ⟨hnodup, hheard, hordered⟩ := h.touch List.erase_sublist
    (h.nodup.not_mem_erase) h.poll_le h.clock_le le_rfl
  refine ⟨?_, hnodup, fun c => ?_, hheard, hordered, h.gone, h.poll_le, h.clock_le⟩
  · rw [EchoServer.onMessage, check_of (by rw [ht]; rfl), ok_bind, check_of hmem, ok_bind]
    rfl
  · show c ∈ s.connectionList.erase conn ++ [conn] ↔ s.Up c
    rw [List.mem_append, h.nodup.mem_erase_iff, List.mem_singleton, h.mem_iff]
    by_cases hc : c = conn
    · simp [hc, hup]
    · simp [hc]

/-! ## A tick -/

/-- Microseconds of silence after which a connection is idle. -/
def idleTime (s : EchoServer) : ℤ := s.idleSeconds * kMicroSecondsPerSecond

/-- What a walk along `l` does: it shuts down connections that are idle, and all those that have been
silent for `lag` longer. -/
structure Swept (lag now : ℤ) (l : List ConnId) (s s' : EchoServer) : Prop where
  same : s' = { s with state := s'.state }
  closed : ∀ c, s'.state c = s.state c ∨
    (s.state c = .kConnected ∧ s'.state c = .kDisconnecting ∧
      ∀ t ∈ s.lastReceiveTime c, s.idleTime < now - t)
  idle : ∀ c ∈ l, ∀ t ∈ s.lastReceiveTime c, s.idleTime + lag < now - t → s'.state c ≠ .kConnected

theorem swept_nil (lag now : ℤ) (s : EchoServer) : Swept lag now [] s s :=
  ⟨rfl, fun _ => Or.inl rfl, fun _ hc => by cases hc⟩

theorem close_state (s : EchoServer) (conn c : ConnId) :
    (s.close conn).state c =
      if c = conn ∧ s.state conn = .kConnected then .kDisconnecting else s.state c := by
  unfold close
  by_cases hup : s.state conn = .kConnected
  · rw [if_pos hup]
    dsimp only
    rw [Function.update_apply]
    simp only [hup, and_true]
  · rw [if_neg hup, if_neg fun h => hup h.2]

@[simp] theorem close_lastReceiveTime (s : EchoServer) (conn : ConnId) :
    (s.close conn).lastReceiveTime = s.lastReceiveTime := by
  unfold close
  split_ifs <;> rfl

@[simp] theorem close_gone (s : EchoServer) (conn : ConnId) : (s.close conn).gone = s.gone := by
  unfold close
  split_ifs <;> rfl

@[simp] theorem close_idleTime (s : EchoServer) (conn : ConnId) :
    (s.close conn).idleTime = s.idleTime := by
  unfold close
  split_ifs <;> rfl

theorem close_with_state (s : EchoServer) (conn : ConnId) (state : ConnId → StateE) :
    { s.close conn with state := state } = { s with state := state } := by
  unfold close
  split_ifs <;> rfl

/-- An idle connection, and then the walk along the rest. -/
theorem Swept.cons {l : List ConnId} {t : ℤ} (h : Swept lag now l (s.close conn) s')
    (ht : s.lastReceiveTime conn = some t) (hidle : s.idleTime < now - t) :
    Swept lag now (conn :: l) s s' := by
  refine ⟨?_, fun c => ?_, fun c hc u hu hlong => ?_⟩
  · rw [h.same, close_with_state]
  · rcases h.closed c with hsame | ⟨hup, hdown, hlast⟩
    · rw [hsame, close_state]
      split_ifs with hc
      · obtain ⟨rfl, hup⟩ := hc
        refine Or.inr ⟨hup, rfl, fun u hu => ?_⟩
        rw [ht] at hu
        obtain rfl := Option.some.inj hu
        exact hidle
      · exact Or.inl rfl
    · rw [close_state] at hup
      rw [close_lastReceiveTime, close_idleTime] at hlast
      split_ifs at hup
      exact Or.inr ⟨hup, hdown, hlast⟩
  · rcases List.mem_cons.1 hc with rfl | hc
    · rcases h.closed c with hsame | ⟨-, hdown, -⟩
      · rw [hsame, close_state]
        split_ifs with hup
        · simp
        · exact fun hconn => hup ⟨rfl, hconn⟩
      · rw [hdown]
        simp
    · refine h.idle c hc u ?_ ?_
      · rw [close_lastReceiveTime]
        exact hu
      · rw [close_idleTime]
        exact hlong

/-- The walk stops at a connection that is not idle: those behind it are not idle for much longer. -/
theorem sweep_spec {l : List ConnId} (hlag : 0 ≤ lag)
    (hheard : ∀ c ∈ l, ∃ t, s.lastReceiveTime c = some t ∧ t ≤ now)
    (hordered : l.Pairwise (Before lag s.lastReceiveTime)) (hgone : ∀ c ∈ l, c ∉ s.gone) :
    ∃ s', sweep now l s = .ok (l, s') ∧ Swept lag now l s s' := by
  induction l generalizing s with
  | nil => exact ⟨s, rfl, swept_nil lag now s⟩
  | cons conn rest ih =>
    obtain ⟨t, ht, hle⟩ := hheard conn List.mem_cons_self
    obtain ⟨hbefore, hrest⟩ := List.pairwise_cons.1 hordered
    rw [sweep, if_neg (hgone conn List.mem_cons_self), ht]
    dsimp only
    by_cases hidle : s.idleSeconds * kMicroSecondsPerSecond < now - t
    · rw [if_pos hidle]
      obtain ⟨s', hs', hswept⟩ := ih (s := s.close conn)
        (by simpa using fun c hc => hheard c (List.mem_cons_of_mem conn hc)) (by simpa using hrest)
        (by simpa using fun c hc => hgone c (List.mem_cons_of_mem conn hc))
      exact ⟨s', by rw [hs']; rfl, hswept.cons ht hidle⟩
    · rw [if_neg hidle, if_neg (by omega)]
      have hout : ¬ s.idleTime < now - t := hidle
      refine ⟨s, rfl, rfl, fun _ => Or.inl rfl, fun c hc u hu hlong => ?_⟩
      have htu : t ≤ u + lag := by
        rcases List.mem_cons.1 hc with rfl | hc
        · rw [ht] at hu
          obtain rfl := Option.some.inj hu
          omega
        · exact hbefore c hc t ht u hu
      omega

theorem Inv.onTimer (h : Inv lag s) (hlt : s.clock ≤ now) (hle : now ≤ s.pollReturnTime + lag) :
    ∃ s', s.onTimer now = .ok s' ∧ Inv lag s' ∧
      Swept lag now s.connectionList { s with clock := now } s' := by
  have hpoll := h.poll_le
  obtain ⟨s', hs', hswept⟩ := sweep_spec (s := { s with clock := now }) (by omega)
    (fun c hc => (h.heard c hc).imp fun t ht => ⟨ht.1, ht.2.trans hlt⟩) h.ordered
    (fun c hc => h.not_gone hc)
  have hlist : s'.connectionList = s.connectionList := by rw [hswept.same]
  have heq : s.onTimer now = .ok s' := by
    rw [EchoServer.onTimer, hs']
    show Except.ok { s' with connectionList := s.connectionList } = _
    rw [← hlist]
  refine ⟨s', heq, ?_, hswept⟩
  obtain ⟨st, rfl⟩ : ∃ st, s' = { s with clock := now, state := st } := ⟨_, hswept.same⟩
  refine ⟨h.nodup, fun c => ?_, fun c hc => ?_, h.ordered, fun c hc => ?_, hpoll.trans hlt, hle⟩
  · rw [h.mem_iff]
    show s.Up c ↔ st c = .kConnected ∨ st c = .kDisconnecting
    unfold Up
    rcases hswept.closed c with hsame | ⟨hconn, hdown, -⟩
    · have hst : st c = s.state c := hsame
      rw [hst]
    · have hst : st c = .kDisconnecting := hdown
      have hconn' : s.state c = .kConnected := hconn
      simp [hconn', hst]
  · obtain ⟨t, ht, htle⟩ := h.heard c hc
    exact ⟨t, ht, htle.trans hlt⟩
  · have hdown := h.gone c hc
    rcases hswept.closed c with hsame | ⟨hconn, -, -⟩
    · have hst : st c = s.state c := hsame
      show st c = _
      rw [hst, hdown]
    · have hconn' : s.state c = .kConnected := hconn
      rw [hdown] at hconn'
      cases hconn'

/-- Every event the loop delivers is handled without a failure. -/
theorem step_inv (h : Inv lag s) {e : Event} (hE : Env lag s e) :
    ∃ s', machine.step s e = .ok s' ∧ Inv lag s' := by
  have hpoll := h.poll_le
  have hclock := h.clock_le
  cases e with
  | poll now =>
    have hlt : s.clock ≤ now := hE
    refine ⟨_, rfl, h.nodup, h.mem_iff, fun c hc => ?_, h.ordered, h.gone, le_rfl, ?_⟩
    · obtain ⟨t, ht, htle⟩ := h.heard c hc
      exact ⟨t, ht, htle.trans hlt⟩
    · show now ≤ now + lag
      omega
  | up conn now => exact ⟨_, rfl, h.onConnectionUp hE.1 hE.2.1 hE.2.2⟩
  | down conn =>
    obtain ⟨heq, hinv⟩ := h.onConnectionDown hE
    exact ⟨_, heq, hinv⟩
  | message conn =>
    obtain ⟨heq, hinv⟩ := h.onMessage hE
    exact ⟨_, heq, hinv⟩
  | timer now =>
    obtain ⟨s', hs', hinv, -⟩ := h.onTimer hE.1 hE.2
    exact ⟨s', hs', hinv⟩
  | gone conn =>
    have hdown : s.state conn = .kDisconnected := hE
    refine ⟨_, rfl, h.nodup, h.mem_iff, h.heard, h.ordered, fun c hc => ?_, hpoll, hclock⟩
    rcases List.mem_append.1 hc with hc | hc
    · exact h.gone c hc
    · obtain rfl := List.mem_singleton.1 hc
      exact hdown

/-! ## Silence -/

/-- The event is no sign of life of the connection, and does not take it down. -/
def Silent (conn : ConnId) : Event → Prop
  | .up c _ | .down c | .message c => c ≠ conn
  | .poll _ | .timer _ | .gone _ => True

instance (conn : ConnId) : ∀ e, Decidable (Silent conn e)
  | .up c _ | .down c | .message c => inferInstanceAs (Decidable (c ≠ conn))
  | .poll _ | .timer _ | .gone _ => isTrue trivial

/-- The connection was last heard of at `t`; it is still connected, or was silent for more than
`limit` when it was shut down. -/
structure Heard (conn : ConnId) (t limit : ℤ) (s : EchoServer) : Prop where
  listed : conn ∈ s.connectionList
  last : s.lastReceiveTime conn = some t
  idleTime : s.idleTime = limit
  early : s.state conn ≠ .kConnected → limit < s.clock - t

theorem Heard.step {t limit : ℤ} (h : Heard conn t limit s) (hinv : Inv lag s) {e : Event}
    (hE : Env lag s e) (hsilent : Silent conn e) (hs' : machine.step s e = .ok s') :
    Heard conn t limit s' := by
  have hlater : ∀ now, s.clock ≤ now → s.state conn ≠ .kConnected → limit < now - t := by
    intro now hlt hstate
    have := h.early hstate
    omega
  cases e with
  | poll now =>
    obtain rfl := Except.ok.inj hs'
    exact ⟨h.listed, h.last, h.idleTime, hlater now hE⟩
  | gone c =>
    obtain rfl := Except.ok.inj hs'
    exact ⟨h.listed, h.last, h.idleTime, h.early⟩
  | up c now =>
    obtain rfl := Except.ok.inj hs'
    have hne : conn ≠ c := Ne.symm hsilent
    have hstate : (s.onConnectionUp c now).state conn = s.state conn := Function.update_of_ne hne _ _
    refine ⟨List.mem_append_left _ h.listed, ?_, h.idleTime, fun hup => hlater now hE.2.1 ?_⟩
    · exact (Function.update_of_ne hne _ _).trans h.last
    · rwa [hstate] at hup
  | down c =>
    have hne : conn ≠ c := Ne.symm hsilent
    obtain rfl : s.removed c = s' := Except.ok.inj ((hinv.onConnectionDown hE).1.symm.trans hs')
    have hstate : (s.removed c).state conn = s.state conn := Function.update_of_ne hne _ _
    refine ⟨(List.mem_erase_of_ne hne).2 h.listed, h.last, h.idleTime, fun hup => h.early ?_⟩
    rwa [hstate] at hup
  | message c =>
    have hne : conn ≠ c := Ne.symm hsilent
    obtain rfl : s.spliced c = s' := Except.ok.inj ((hinv.onMessage hE).1.symm.trans hs')
    refine ⟨List.mem_append_left _ ((List.mem_erase_of_ne hne).2 h.listed), ?_, h.idleTime, h.early⟩
    exact (Function.update_of_ne hne _ _).trans h.last
  | timer now =>
    obtain ⟨u, hu, -, hswept⟩ := hinv.onTimer hE.1 hE.2
    obtain rfl : u = s' := Except.ok.inj (hu.symm.trans hs')
    obtain ⟨st, rfl⟩ : ∃ st, u = { s with clock := now, state := st } := ⟨_, hswept.same⟩
    refine ⟨h.listed, h.last, h.idleTime, fun hup => ?_⟩
    rcases hswept.closed conn with hsame | ⟨-, -, hidle⟩
    · have hst : st conn = s.state conn := hsame
      exact hlater now hE.1 (hst ▸ hup)
    · rw [← h.idleTime]
      exact hidle t h.last

theorem Heard.run {t limit : ℤ} (h : Heard conn t limit s) (hinv : Inv lag s) {mid : List Event}
    (hE : machine.Along (Env lag) s mid) (hsilent : ∀ e ∈ mid, Silent conn e) :
    ∃ s', machine.run s mid = .ok s' ∧ Inv lag s' ∧ Heard conn t limit s' := by
  induction mid generalizing s with
  | nil => exact ⟨s, rfl, hinv, h⟩
  | cons e mid ih =>
    obtain ⟨he, hmid⟩ := List.forall_mem_cons.1 hsilent
    obtain ⟨s₁, hs₁, hinv₁⟩ := step_inv hinv hE.1
    rw [Machine.run_cons_ok hs₁]
    exact ih (h.step hinv hE.1 he hs₁) hinv₁ (hE.2 s₁ hs₁) hmid

/-- The second connection is not idle yet, and hides the first one. -/
example : ∃ s', machine.run (new 10 0)
    [.up 1 0, .up 2 3, .message 1, .poll 10000002, .timer 10000002] = .ok s' ∧
      s'.state 1 = .kConnected := ⟨_, rfl, rfl⟩

end EchoServer

end SortedList

end Reactor
