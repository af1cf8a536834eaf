import Reactor.TcpConnection.Lifecycle

/-!
# A limit on the number of connections

The echo server of `maxconnection` counts the connections that are up.  One that comes up beyond
`kMaxConnections_` is shut down, and forced to close three seconds later.

* `limit_admitted`: the counter is the number of connections that are up, a connection is refused
  exactly when the limit is reached, and the connections that were not refused stay within it.
* `refused_stays_up`: a connection that was refused is up, and counted, until its peer closes it: the
  timer of `forceCloseWithDelay` finds it in a state in which `forceClose` does nothing.  The limit
  bounds the connections that are served, not those that are open.
-/

namespace Reactor

namespace MaxConnection

open TcpConnection
open TcpConnection.Lifecycle (System Frame)

/-- The default of `TcpConnection`. -/
def highWaterMark : ℕ := 64 * 1024 * 1024

/-- A connection; `refused` says that `onConnection` has shut it down. -/
structure Connection where
  life : System
  refused : Bool
  deriving DecidableEq, Repr

/-- `EchoServer`, with the connections that came up so far. -/
structure EchoServer where
  numConnected : ℤ
  kMaxConnections : ℤ
  conns : List Connection
  deriving DecidableEq, Repr

inductive Action where
  | accept (fd : ℕ) (d : ShutdownResult)
  | life (i : ℕ) (a : Lifecycle.Action)
  deriving DecidableEq, Repr

/-- How often `connectionCallback_` was told that the connection is down. -/
def downs (t : System) : ℕ := t.conn.callbacks.count (.connection .kDisconnected)

namespace EchoServer

def new (maxConnections : ℤ) : EchoServer := ⟨0, maxConnections, []⟩

/-- `onConnection` for a connection that is up. -/
def onConnectionUp (s : EchoServer) (t : System) (d : ShutdownResult) : Except Fault EchoServer := do
  let s := { s with numConnected := s.numConnected + 1 }
  if s.kMaxConnections < s.numConnected then
    let t ← t.step (.user (.shutdown true d))
    let t ← t.step (.user .forceCloseWithDelay)
    return { s with conns := s.conns ++ [⟨t, true⟩] }
  else return { s with conns := s.conns ++ [⟨t, false⟩] }

def onMessage (t : System) : Except Fault System := do
  let (_, inputBuffer) ← t.conn.inputBuffer.retrieveAllAsString
  return { t with conn := { t.conn with inputBuffer := inputBuffer } }

/-- A step of a connection, with what `messageCallback_` does if it is invoked. -/
def serve (t : System) (a : Lifecycle.Action) : Except Fault System := do
  let t' ← t.step a
  if t.conn.callbacks.count .message < t'.conn.callbacks.count .message then onMessage t' else return t'

def step (s : EchoServer) : Action → Except Fault EchoServer
  | .accept fd d => do s.onConnectionUp (← Lifecycle.start fd false false highWaterMark) d
  | .life i a =>
    match s.conns[i]? with
    | none => return s
    | some c => do
      let t ← serve c.life a
      -- `onConnection` for a connection that is down
      return { s with
        numConnected := s.numConnected - (downs t - downs c.life : ℤ)
        conns := s.conns.set i { c with life := t } }

end EchoServer

def machine : Machine EchoServer Action Fault := ⟨EchoServer.step⟩

/-- The server calls nothing of a connection outside its callbacks and lives longer than its
connections, so that `connectDestroyed` comes after the close.  No timer of `forceCloseWithDelay`
fires in between (`Calm`). -/
def Serves (t : System) (a : Lifecycle.Action) : Prop :=
  Lifecycle.Env t a ∧ Lifecycle.Calm t a ∧
    match a with
    | .user _ => False
    | .connectDestroyed => t.conn.state = .kDisconnected
    | .event _ _ _ _ | .functor _ _ | .timer | .resume => True

instance (t : System) : ∀ a, Decidable (Serves t a)
  | .user _ => isFalse fun h => h.2.2
  | .connectDestroyed => inferInstanceAs (Decidable (_ ∧ _ ∧ _))
  | .event _ _ _ _ | .functor _ _ | .timer | .resume => inferInstanceAs (Decidable (_ ∧ _ ∧ True))

def Env (s : EchoServer) : Action → Prop
  | .accept _ _ => True
  | .life i a => ∃ c ∈ s.conns[i]?, Serves c.life a

instance (s : EchoServer) : ∀ a, Decidable (Env s a)
  | .accept _ _ => isTrue trivial
  | .life i a => inferInstanceAs (Decidable (∃ c ∈ s.conns[i]?, Serves c.life a))

/-- A `shutdown(2)` that a step of the connection makes succeeds. -/
def Succeeds (t : System) : Lifecycle.Action → Prop
  | .functor _ d => d = .success
  | .resume => ∀ w d, t.todo.head? = some (.handleWrite w d) → d = .success
  | .user _ | .event _ _ _ _ | .timer | .connectDestroyed => True

/-- A `shutdown(2)` that the server makes succeeds. -/
def HalfCloses (s : EchoServer) : Action → Prop
  | .accept _ d => d = .success
  | .life i a => ∀ c ∈ s.conns[i]?, Succeeds c.life a

/-! ## One connection -/

/-- The channel is removed when the connection is down. -/
def Removed (t : System) : Prop := Frame.channelRemove ∈ t.todo → t.conn.state = .kDisconnected

/-- A connection that was refused: nothing that is under way will close it. -/
structure Refused (t : System) : Prop where
  state : t.conn.state = .kDisconnecting
  functors : .forceCloseInLoop ∉ t.conn.pendingFunctors
  todo : ∀ f ∈ t.todo, f.closing = false

/-- The peer does not close the connection. -/
def Patient : Lifecycle.Action → Prop
  | .event revents r _ _ => ¬ (revents.has POLLHUP ∧ ¬ revents.has POLLIN) ∧ r ≠ .read []
  | .user _ | .functor _ _ | .timer | .connectDestroyed | .resume => True

instance : ∀ a, Decidable (Patient a)
  | .event _ _ _ _ => inferInstanceAs (Decidable (¬ (_ ∧ ¬ _) ∧ _ ≠ _))
  | .user _ | .functor _ _ | .timer | .connectDestroyed | .resume => isTrue trivial

/-- The peer of the connection `k` does not close it. -/
def PeerStays (k : ℕ) : Action → Prop
  | .accept _ _ => True
  | .life i a => i = k → Patient a

instance (k : ℕ) : ∀ a, Decidable (PeerStays k a)
  | .accept _ _ => isTrue trivial
  | .life i a => inferInstanceAs (Decidable (i = k → Patient a))

variable {t t' : System} {a : Lifecycle.Action}

/-- What the loop's thread has to do afterwards. -/
theorem todo_resume (h : t.step .resume = .ok t') :
    ∀ f ∈ t'.todo, f ∈ t.todo ∨ f = .handleClose ∨ f = .closeCallback := by
  intro g hg
  cases htodo : t.todo with
  | nil =>
    simp only [System.step, htodo] at h
    obtain rfl := Except.ok.inj h
    rw [htodo] at hg
    cases hg
  | cons f fs =>
    simp only [System.step, htodo] at h
    have htail : g ∈ fs → g ∈ f :: fs := List.mem_cons_of_mem f
    cases f with
    | handleClose =>
      obtain ⟨c, -, h⟩ := bind_eq_ok.1 h
      obtain rfl := Except.ok.inj h
      exact (List.mem_cons.1 hg).elim (fun heq => .inr (.inr heq)) fun hmem => .inl (htail hmem)
    | closeCallback =>
      obtain rfl := Except.ok.inj h
      exact .inl (htail hg)
    | handleRead r =>
      obtain ⟨⟨n, c⟩, -, h⟩ := bind_eq_ok.1 h
      obtain e | _ | n := n
      · obtain rfl := Except.ok.inj h
        exact .inl (htail hg)
      · obtain rfl := Except.ok.inj h
        exact (List.mem_cons.1 hg).elim (fun heq => .inr (.inl heq)) fun hmem => .inl (htail hmem)
      · obtain rfl := Except.ok.inj h
        exact .inl (htail hg)
    | handleWrite w d =>
      obtain ⟨c, -, h⟩ := bind_eq_ok.1 h
      obtain rfl := Except.ok.inj h
      exact .inl (htail hg)
    | channelRemove =>
      obtain ⟨c, -, h⟩ := bind_eq_ok.1 h
      obtain rfl := Except.ok.inj h
      exact .inl (htail hg)

theorem channelRemove_notMem_frames (revents : Mask) (r : ReadvResult) (w : WriteResult)
    (d : ShutdownResult) : Frame.channelRemove ∉ Lifecycle.frames revents r w d := by
  intro h
  obtain ⟨handler, -, hf⟩ := List.mem_filterMap.1 h
  cases handler <;> cases hf

/-- A step of a connection that does not bring it up again. -/
structure Stepped (t t' : System) : Prop where
  inv : Lifecycle.Inv t'
  removed : Removed t'
  stays_down : t.conn.state = .kDisconnected → t'.conn.state = .kDisconnected

/-- A step returns, unless its `shutdown(2)` fails. -/
theorem step_spec (hI : Lifecycle.Inv t) (hR : Removed t) (ha : Serves t a) :
    (∃ t', t.step a = .ok t' ∧ Stepped t t') ∨
      t.step a = .error .shutdownWrite ∧ ¬ Succeeds t a := by
  obtain ⟨hE, hC, hserver⟩ := ha
  cases a with
  | user call => exact hserver.elim
  | event revents r w d =>
    have hm := Lifecycle.moves_event hI hE hC
    refine .inl ⟨_, rfl, hm.inv, fun h => ?_, hm.stays_down⟩
    exact (channelRemove_notMem_frames _ _ _ _ h).elim
  | timer =>
    have hm := Lifecycle.moves_timer hI hC
    exact .inl ⟨_, rfl, hm.inv, fun h => hm.stays_down (hR h), hm.stays_down⟩
  | connectDestroyed =>
    obtain ⟨t', hok, hm⟩ := Lifecycle.moves_connectDestroyed hI hE
    exact .inl ⟨t', hok, hm.inv, fun _ => hm.stays_down hserver, hm.stays_down⟩
  | functor w d =>
    rcases Lifecycle.step_functor hI hE with
      ⟨t', f, fs, hok, hsteps, hpending, hexec, hplain⟩ | ⟨hfault, hd⟩
    · refine .inl ⟨t', hok, hsteps.inv, fun h => ?_, hsteps.stays_down⟩
      by_cases hf : f = .forceCloseInLoop
      · obtain ⟨hexec', -⟩ | ⟨f', fs', hpending', -, -, hdown⟩ := hsteps.progress
        · omega
        · refine hdown ?_
          rw [hpending] at hpending'
          exact (List.cons.inj hpending').1 ▸ hf
      · rw [(hplain hf).todo] at h
        rw [show t.todo = [] from hE.1] at h
        cases h
    · exact .inr ⟨hfault, hd⟩
  | resume =>
    rcases Lifecycle.moves_resume hI hE with
      ⟨-, hmem, hnone⟩ | ⟨hfault, w, d, fs, htodo, hd, -⟩ | ⟨t', hok, hm⟩
    · refine absurd ?_ hnone
      rw [Channel.isNoneEvent, hI.sound.quiet (hR hmem)]
      rfl
    · exact .inr ⟨hfault, fun h => hd (h w d (by rw [htodo]; rfl))⟩
    · refine .inl ⟨t', hok, hm.inv, fun h => hm.stays_down (hR ?_), hm.stays_down⟩
      rcases todo_resume hok _ h with hmem | heq | heq
      · exact hmem
      · cases heq
      · cases heq

/-- The handlers of an event that is not a hangup do not close. -/
theorem closing_frames {revents : Mask} {r : ReadvResult}
    (h : ¬ (revents.has POLLHUP ∧ ¬ revents.has POLLIN) ∧ r ≠ .read []) (w : WriteResult)
    (d : ShutdownResult) : ∀ f ∈ Lifecycle.frames revents r w d, f.closing = false := by
  intro f hf
  obtain ⟨handler, hmem, hf⟩ := List.mem_filterMap.1 hf
  cases handler with
  | close =>
    unfold Channel.handleEventWithGuard at hmem
    rw [if_neg h.1] at hmem
    simp at hmem
  | error => cases hf
  | read =>
    obtain rfl := Option.some.inj hf
    cases r with
    | fail errno => rfl
    | read data =>
      cases data with
      | nil => exact absurd rfl h.2
      | cons x xs => rfl
  | write =>
    obtain rfl := Option.some.inj hf
    rfl

/-- A step closes a connection that was refused only if its peer does. -/
theorem Refused.step (h : Refused t) (hI : Lifecycle.Inv t) (ha : Serves t a) (hp : Patient a)
    (hok : t.step a = .ok t') : Refused t' := by
  obtain ⟨hE, -, hserver⟩ := ha
  cases a with
  | user call => exact hserver.elim
  | event revents r w d =>
    obtain rfl := Except.ok.inj hok
    exact ⟨h.state, h.functors, closing_frames hp w d⟩
  | timer =>
    obtain rfl := Except.ok.inj hok
    have hforce : { t.conn with delayTimers := t.conn.delayTimers - 1 }.forceClose =
        { t.conn with delayTimers := t.conn.delayTimers - 1 } := by
      unfold forceClose
      exact if_neg (by simp [h.state])
    rw [hforce]
    exact ⟨h.state, h.functors, h.todo⟩
  | connectDestroyed =>
    rw [h.state] at hserver
    cases hserver
  | functor w d =>
    obtain ⟨u, f, fs, hu, -, hpending, -, hplain⟩ :=
      (Lifecycle.step_functor hI hE).resolve_right fun hfault => by cases hok.symm.trans hfault.1
    obtain rfl := Except.ok.inj (hok.symm.trans hu)
    have hn := h.functors
    rw [hpending] at hn
    obtain ⟨htodo, hstate, gs, hgs, hforce⟩ := hplain fun hf => hn (hf ▸ List.mem_cons_self)
    refine ⟨hstate.trans h.state, ?_, ?_⟩
    · rw [hgs, List.mem_append, not_or]
      exact ⟨fun hmem => hn (List.mem_cons_of_mem f hmem), hforce⟩
    · rw [htodo]
      exact h.todo
  | resume =>
    cases htodo : t.todo with
    | nil => exact absurd htodo hE
    | cons f fs =>
      have hclosing : f.closing = false := h.todo f (by rw [htodo]; exact List.mem_cons_self)
      have hfs : ∀ g ∈ fs, g.closing = false := fun g hg =>
        h.todo g (by rw [htodo]; exact List.mem_cons_of_mem f hg)
      simp only [System.step, htodo] at hok
      cases f with
      | handleClose => cases hclosing
      | closeCallback =>
        obtain rfl := Except.ok.inj hok
        exact ⟨h.state, h.functors, hfs⟩
      | handleRead r =>
        obtain ⟨⟨n, c⟩, hread, hok⟩ := bind_eq_ok.1 hok
        obtain ⟨n', c', hread', -, hzero⟩ := Lifecycle.continues_handleRead hI.sound r
        obtain ⟨rfl, rfl⟩ := Prod.mk.inj (Except.ok.inj (hread.symm.trans hread'))
        obtain ⟨⟨m, b⟩, -, hc⟩ := bind_eq_ok.1 hread
        obtain ⟨rfl, rfl⟩ := Prod.mk.inj (Except.ok.inj hc)
        obtain e | _ | k := m
        · obtain rfl := Except.ok.inj hok
          exact ⟨h.state, h.functors, hfs⟩
        · obtain rfl := hzero rfl
          cases hclosing
        · obtain rfl := Except.ok.inj hok
          exact ⟨h.state, h.functors, hfs⟩
      | handleWrite w d =>
        obtain ⟨c, hwrite, hok⟩ := bind_eq_ok.1 hok
        obtain ⟨c', hwrite', -, hlife, -⟩ := (handleWrite_spec hI.sound.output w d).resolve_right
          fun hfault => by cases hwrite.symm.trans hfault.1
        obtain rfl := Except.ok.inj (hwrite.symm.trans hwrite')
        obtain rfl := Except.ok.inj hok
        obtain ⟨gs, hgs, hforce⟩ := hlife.functors
        refine ⟨hlife.state.trans h.state, ?_, hfs⟩
        show .forceCloseInLoop ∉ c.pendingFunctors
        rw [hgs, List.mem_append, not_or]
        exact ⟨h.functors, hforce⟩
      | channelRemove =>
        obtain ⟨c, hremove, hok⟩ := bind_eq_ok.1 hok
        obtain ⟨channel, -, hc⟩ := bind_eq_ok.1 hremove
        obtain rfl := Except.ok.inj hc
        obtain rfl := Except.ok.inj hok
        exact ⟨h.state, h.functors, hfs⟩

/-! What `onMessage` does does not matter. -/

theorem onMessage_spec (hI : Lifecycle.Inv t) :
    ∃ b : Buffer, b.Wf ∧
      EchoServer.onMessage t = .ok { t with conn := { t.conn with inputBuffer := b } } := by
  obtain ⟨b, hb, hwf, -⟩ := hI.sound.input.retrieveAsString le_rfl
  refine ⟨b, hwf, ?_⟩
  unfold EchoServer.onMessage Buffer.retrieveAllAsString
  rw [hb]
  rfl

theorem inv_setInput (hI : Lifecycle.Inv t) {b : Buffer} (hb : b.Wf) :
    Lifecycle.Inv { t with conn := { t.conn with inputBuffer := b } } :=
  ⟨⟨hb, hI.sound.output, hI.sound.established, hI.sound.downs, hI.sound.quiet, hI.sound.closing⟩,
    hI.closes, hI.head, hI.tail⟩

/-- What holds of a connection after a step, given what held before. -/
structure Served (t t' : System) (a : Lifecycle.Action) : Prop extends Stepped t t' where
  refused : Refused t → Patient a → Refused t'

theorem serve_spec (hI : Lifecycle.Inv t) (hR : Removed t) (ha : Serves t a) :
    (∃ t', EchoServer.serve t a = .ok t' ∧ Served t t' a) ∨
      EchoServer.serve t a = .error .shutdownWrite ∧ ¬ Succeeds t a := by
  unfold EchoServer.serve
  rcases step_spec hI hR ha with ⟨u, hok, hu⟩ | ⟨hfault, hd⟩
  · have hrefused : Refused t → Patient a → Refused u := fun h hp => h.step hI ha hp hok
    rw [hok, ok_bind]
    split_ifs with hmessage
    · obtain ⟨b, hb, hmsg⟩ := onMessage_spec hu.inv
      refine .inl ⟨_, hmsg, ⟨inv_setInput hu.inv hb, hu.removed, hu.stays_down⟩, fun h hp => ?_⟩
      exact ⟨(hrefused h hp).state, (hrefused h hp).functors, (hrefused h hp).todo⟩
    · exact .inl ⟨u, rfl, hu, hrefused⟩
  · rw [hfault]
    exact .inr ⟨rfl, hd⟩

theorem downs_eq (hI : Lifecycle.Inv t) : downs t = if t.conn.state = .kDisconnected then 1 else 0 :=
  hI.sound.downs

/-! ## The server -/

def Connection.up (c : Connection) : Bool := c.life.conn.state ≠ .kDisconnected

def Connection.admitted (c : Connection) : Bool := c.up ∧ c.refused = false

/-- The counter is right, and the connections that were not refused are within the limit. -/
structure Inv (maxConnections : ℤ) (s : EchoServer) : Prop where
  limit : s.kMaxConnections = maxConnections
  life : ∀ c ∈ s.conns, Lifecycle.Inv c.life ∧ Removed c.life
  count : s.numConnected = s.conns.countP Connection.up
  admitted : (s.conns.countP Connection.admitted : ℤ) ≤ max 0 maxConnections

variable {s s' : EchoServer} {c : Connection} {m : ℤ} {i fd : ℕ}

theorem countP_set_add {p : Connection → Bool} {l : List Connection} (h : l[i]? = some c)
    (c' : Connection) : (l.set i c').countP p + (if p c then 1 else 0) =
      l.countP p + if p c' then 1 else 0 := by
  obtain ⟨hi, rfl⟩ := List.getElem?_eq_some_iff.1 h
  have hle := List.boole_getElem_le_countP (p := p) hi
  rw [List.countP_set hi]
  omega

theorem up_eq (hI : Lifecycle.Inv c.life) : (if c.up then 1 else 0) + downs c.life = 1 := by
  rw [downs_eq hI]
  by_cases h : c.life.conn.state = .kDisconnected <;> simp [Connection.up, h]

/-- A connection that `onConnection` refuses. -/
theorem refuse_spec (hI : Lifecycle.Inv t) (hconn : t.conn.state = .kConnected)
    (hfunctors : t.conn.pendingFunctors = []) (htodo : t.todo = []) (d : ShutdownResult) :
    (∃ t' t'', t.step (.user (.shutdown true d)) = .ok t' ∧
      t'.step (.user .forceCloseWithDelay) = .ok t'' ∧ Lifecycle.Inv t'' ∧ t''.todo = [] ∧
      Refused t'') ∨
    t.step (.user (.shutdown true d)) = .error .shutdownWrite ∧ d ≠ .success := by
  have hE : Lifecycle.Env t (.user (.shutdown true d)) := trivial
  rcases Lifecycle.moves_user hI hE trivial with ⟨t', hok, hm⟩ | ⟨hfault, hd⟩
  · left
    have hE' : Lifecycle.Env t' (.user .forceCloseWithDelay) := trivial
    obtain ⟨t'', hok', hm'⟩ :=
      (Lifecycle.moves_user hm.inv hE' trivial).resolve_right fun hfault => hfault.2 trivial
    refine ⟨t', t'', hok, hok', hm'.inv, ?_⟩
    have hlife := sameLife_halfClosed { t.conn with state := .kDisconnecting }
    have hshut : { t.conn with state := .kDisconnecting }.halfClosed = t.conn.shutDown :=
      (if_pos hconn).symm
    rw [hshut] at hlife
    obtain ⟨c, hc, h⟩ := bind_eq_ok.1 hok
    obtain rfl := Except.ok.inj h
    obtain rfl := Except.ok.inj hok'
    obtain rfl : c = t.conn.shutDown := by
      rcases shutdown_cases t.conn d with hc' | ⟨hfault, -⟩
      · exact Except.ok.inj (hc.symm.trans hc')
      · cases hc.symm.trans hfault
    obtain ⟨fs, hfs, hforce⟩ := hlife.functors
    have hdelay : t.conn.shutDown.forceCloseWithDelay = { t.conn.shutDown with
        state := .kDisconnecting, delayTimers := t.conn.shutDown.delayTimers + 1 } :=
      if_pos (.inr hlife.state)
    refine ⟨htodo, ?_, ?_, fun f hf => ?_⟩
    · show t.conn.shutDown.forceCloseWithDelay.state = _
      rw [hdelay]
    · show _ ∉ t.conn.shutDown.forceCloseWithDelay.pendingFunctors
      rw [hdelay]
      show _ ∉ t.conn.shutDown.pendingFunctors
      rw [hfs, hfunctors]
      exact hforce
    · rw [show t.todo = [] from htodo] at hf
      cases hf
  · exact .inr ⟨hfault, hd⟩

/-- What comes of a connection that is accepted. -/
structure Accepted (s s' : EchoServer) (c : Connection) : Prop where
  eq : s' = ⟨s.numConnected + 1, s.kMaxConnections, s.conns ++ [c]⟩
  life : Lifecycle.Inv c.life ∧ Removed c.life
  up : c.up = true
  refused_iff : c.refused = true ↔ s.kMaxConnections ≤ s.numConnected
  refused : c.refused = true → Refused c.life

theorem accept_spec (s : EchoServer) (fd : ℕ) (d : ShutdownResult) :
    (∃ s' c, s.step (.accept fd d) = .ok s' ∧ Accepted s s' c) ∨
      s.step (.accept fd d) = .error .shutdownWrite ∧ d ≠ .success := by
  have hstart : ∃ t, Lifecycle.start fd false false highWaterMark = .ok t ∧
      t.conn.state = .kConnected ∧ t.conn.pendingFunctors = [] ∧ t.todo = [] := ⟨_, rfl, rfl, rfl, rfl⟩
  obtain ⟨t, ht, hconn, hfunctors, htodo⟩ := hstart
  have hI := Lifecycle.inv_start ht
  have hstep : s.step (.accept fd d) = s.onConnectionUp t d := by
    unfold EchoServer.step
    dsimp only
    rw [ht, ok_bind]
  rw [hstep, EchoServer.onConnectionUp]
  dsimp only
  split_ifs with hmax
  · rcases refuse_spec hI hconn hfunctors htodo d with
      ⟨t', t'', hok, hok', hI', htodo', hrefused⟩ | ⟨hfault, hd⟩
    · rw [hok, ok_bind, hok']
      refine .inl ⟨_, ⟨t'', true⟩, rfl, rfl, ⟨hI', fun h => ?_⟩, ?_, iff_of_true rfl (by omega),
        fun _ => hrefused⟩
      · rw [htodo'] at h
        cases h
      · simp [Connection.up, hrefused.state]
    · rw [hfault]
      exact .inr ⟨rfl, hd⟩
  · refine .inl ⟨_, ⟨t, false⟩, rfl, rfl, ⟨hI, fun h => ?_⟩, ?_,
      iff_of_false Bool.false_ne_true (by omega), fun h => by cases h⟩
    · rw [htodo] at h
      cases h
    · simp [Connection.up, hconn]

/-- A step of a connection, which may go down. -/
structure Lives (s s' : EchoServer) (i : ℕ) (c c' : Connection) (a : Lifecycle.Action) : Prop where
  eq : s' = { s with
    numConnected := s.numConnected + (if c'.up then 1 else 0) - (if c.up then 1 else 0)
    conns := s.conns.set i c' }
  life : Lifecycle.Inv c'.life ∧ Removed c'.life
  up : c'.up = true → c.up = true
  same : c'.refused = c.refused
  refused : Refused c.life → Patient a → Refused c'.life

theorem life_spec {a : Lifecycle.Action} (hc : s.conns[i]? = some c)
    (hI : Lifecycle.Inv c.life ∧ Removed c.life) (ha : Serves c.life a) :
    (∃ s' c', s.step (.life i a) = .ok s' ∧ Lives s s' i c c' a) ∨
      s.step (.life i a) = .error .shutdownWrite ∧ ¬ Succeeds c.life a := by
  unfold EchoServer.step
  dsimp only
  rw [hc]
  dsimp only
  rcases serve_spec hI.1 hI.2 ha with ⟨t', hok, hserved⟩ | ⟨hfault, hd⟩
  · have hup := up_eq hI.1
    have hup' := up_eq (c := { c with life := t' }) hserved.inv
    have hcount : s.numConnected - (downs t' - downs c.life : ℤ) = s.numConnected +
        (if Connection.up { c with life := t' } then 1 else 0) - (if c.up then 1 else 0) := by
      dsimp only at hup'
      split_ifs at * <;> omega
    rw [hok, ok_bind, hcount]
    refine .inl ⟨_, { c with life := t' }, rfl, rfl, ⟨hserved.inv, hserved.removed⟩, ?_, rfl,
      hserved.refused⟩
    have hdown := hserved.stays_down
    simp only [Connection.up, decide_eq_true_eq, ne_eq]
    exact mt hdown
  · rw [hfault]
    exact .inr ⟨rfl, hd⟩

theorem countP_admitted_le (l : List Connection) :
    l.countP Connection.admitted ≤ l.countP Connection.up := by
  refine List.countP_mono_left fun c _ hc => ?_
  simp only [Connection.admitted, decide_eq_true_eq] at hc
  exact hc.1

theorem Inv.accepted (h : Inv m s) (hs' : Accepted s s' c) : Inv m s' := by
  obtain ⟨rfl, hlife, hup, hrefused, -⟩ := hs'
  refine ⟨h.limit, fun d hd => ?_, ?_, ?_⟩
  · rcases List.mem_append.1 hd with hd | hd
    · exact h.life d hd
    · rw [List.mem_singleton.1 hd]
      exact hlife
  · rw [List.countP_append, List.countP_singleton, if_pos hup, h.count]
    rfl
  · rw [List.countP_append, List.countP_singleton]
    have hle := countP_admitted_le s.conns
    have hadmitted := h.admitted
    have hcount := h.count
    have hlimit := h.limit
    split_ifs with hc
    · simp only [Connection.admitted, decide_eq_true_eq] at hc
      have hnot : ¬ s.kMaxConnections ≤ s.numConnected := fun hmax => by
        simp [hrefused.2 hmax] at hc
      push_cast
      omega
    · exact hadmitted

theorem Inv.lives (h : Inv m s) {c' : Connection} {a : Lifecycle.Action} (hc : s.conns[i]? = some c)
    (hs' : Lives s s' i c c' a) : Inv m s' := by
  obtain ⟨rfl, hlife, hdown, hsame, -⟩ := hs'
  refine ⟨h.limit, fun d hd => ?_, ?_, ?_⟩
  · rcases List.mem_or_eq_of_mem_set hd with hd | rfl
    · exact h.life d hd
    · exact hlife
  · have hset := countP_set_add (p := Connection.up) hc c'
    have hcount := h.count
    dsimp only
    split_ifs at hset ⊢ <;> omega
  · have hset := countP_set_add (p := Connection.admitted) hc c'
    have hadmitted := h.admitted
    have hmono : c'.admitted = true → c.admitted = true := by
      simp only [Connection.admitted, decide_eq_true_eq, hsame]
      exact fun h => ⟨hdown h.1, h.2⟩
    dsimp only
    split_ifs at hset with h₁ h₂ h₂
    · omega
    · omega
    · exact absurd (hmono h₂) h₁
    · omega

/-- A step returns, unless its `shutdown(2)` fails. -/
theorem Inv.step (h : Inv m s) (a : Action) (ha : Env s a) :
    (∃ s', machine.step s a = .ok s' ∧ Inv m s') ∨
      machine.step s a = .error .shutdownWrite ∧ ¬ HalfCloses s a := by
  cases a with
  | accept fd d =>
    refine (accept_spec s fd d).imp_left ?_
    rintro ⟨s', c, hok, hs'⟩
    exact ⟨s', hok, h.accepted hs'⟩
  | life i a =>
    obtain ⟨c, hc, ha⟩ := ha
    refine (life_spec hc (h.life c (List.mem_of_getElem? hc)) ha).imp ?_ ?_
    · rintro ⟨s', c', hok, hs'⟩
      exact ⟨s', hok, h.lives hc hs'⟩
    · rintro ⟨hfault, hd⟩
      exact ⟨hfault, fun h => hd (h c hc)⟩

theorem Inv.of_step (h : Inv m s) {a : Action} (ha : Env s a) (hok : machine.step s a = .ok s') :
    Inv m s' := by
  rcases h.step a ha with ⟨t, ht, hI⟩ | ⟨hfault, -⟩
  · obtain rfl := Except.ok.inj (hok.symm.trans ht)
    exact hI
  · cases hok.symm.trans hfault

theorem inv_new (m : ℤ) : Inv m (.new m) :=
  ⟨rfl, fun _ hc => absurd hc List.not_mem_nil, rfl, le_max_left 0 m⟩

/-- No assertion fails but that of a `shutdown(2)` that fails, the counter is right, a connection is
refused exactly when the limit is reached, and those that were not refused stay within it. -/
theorem limit_admitted (maxConnections : ℤ) (as : List Action)
    (h : machine.Along Env (.new maxConnections) as) :
    (∀ f, machine.run (.new maxConnections) as = .error f →
        f = .shutdownWrite ∧ ¬ machine.Along HalfCloses (.new maxConnections) as) ∧
      machine.Always (fun s => s.numConnected = s.conns.countP Connection.up ∧
        (s.conns.countP Connection.admitted : ℤ) ≤ max 0 maxConnections) (.new maxConnections) as ∧
      ∀ us fd d vs t t', as = us ++ .accept fd d :: vs →
        machine.run (.new maxConnections) us = .ok t → t.step (.accept fd d) = .ok t' →
        ∃ c : Connection, t'.conns = t.conns ++ [c] ∧
          (c.refused = true ↔ maxConnections ≤ t.conns.countP Connection.up) := by
  obtain ⟨hrun, halways⟩ := Machine.fault_along_of_along
    (fun s a (hs : Inv maxConnections s) ha => hs.step a ha) (inv_new maxConnections) h
  refine ⟨hrun, halways.mono fun s hs => ⟨hs.count, hs.admitted⟩, ?_⟩
  rintro us fd d vs t t' rfl ht hok
  have hinv : Inv maxConnections t := by
    obtain ⟨hus, -⟩ := Machine.along_append.1 h
    exact Machine.inv_of_along (fun s a s' hs ha h => hs.of_step ha h) (inv_new maxConnections) hus ht
  rcases accept_spec t fd d with ⟨u, c, hok', hc⟩ | ⟨hfault, -⟩
  · obtain rfl := Except.ok.inj (hok.symm.trans hok')
    refine ⟨c, by rw [hc.eq], ?_⟩
    rw [hc.refused_iff, hinv.limit, hinv.count]
  · cases hok.symm.trans hfault

/-- A connection that is refused and sends something, and whose timer fires. -/
def refusedAndTimed : List Action :=
  [.life 1 (.event POLLIN (.read [1]) (.wrote 0) .success), .life 1 .resume, .life 1 .timer]

theorem limit_admitted_refusedAndTimed :
    machine.Always (fun s => s.numConnected = s.conns.countP Connection.up ∧
      (s.conns.countP Connection.admitted : ℤ) ≤ max 0 1) (.new 1)
      ([.accept 7 .success, .accept 8 .success] ++ refusedAndTimed) :=
  (limit_admitted 1 _ (by decide +kernel)).2.1

/-- The peer resets a connection before it is refused. -/
example : machine.run (.new 0) [.accept 7 (.fail 107)] = .error .shutdownWrite := by decide +kernel

/-! ## A connection that was refused -/

theorem refused_kept (h : Inv m s) {k : ℕ} {a : Action} (hc : ∃ c ∈ s.conns[k]?, Refused c.life)
    (ha : Env s a) (hp : PeerStays k a) (hok : s.step a = .ok s') :
    ∃ c ∈ s'.conns[k]?, Refused c.life := by
  obtain ⟨c, hc, hrefused⟩ := hc
  cases a with
  | accept fd d =>
    rcases accept_spec s fd d with ⟨u, e, hok', hu⟩ | ⟨hfault, -⟩
    · obtain rfl := Except.ok.inj (hok.symm.trans hok')
      obtain ⟨hk, -⟩ := List.getElem?_eq_some_iff.1 hc
      rw [hu.eq]
      exact ⟨c, (List.getElem?_append_left hk).trans hc, hrefused⟩
    · cases hok.symm.trans hfault
  | life i b =>
    obtain ⟨e, he, hb⟩ := ha
    rcases life_spec he (h.life e (List.mem_of_getElem? he)) hb with ⟨u, e', hok', hu⟩ | ⟨hfault, -⟩
    · obtain rfl := Except.ok.inj (hok.symm.trans hok')
      rw [hu.eq]
      by_cases hik : i = k
      · subst hik
        obtain rfl := Option.some.inj (he.symm.trans hc)
        obtain ⟨hi, -⟩ := List.getElem?_eq_some_iff.1 he
        exact ⟨e', List.getElem?_set_self hi, hu.refused hrefused (hp rfl)⟩
      · exact ⟨c, (List.getElem?_set_ne hik).trans hc, hrefused⟩
    · cases hok.symm.trans hfault

/-- A connection that comes up when the limit is reached stays up until its peer closes it, whether the
timer of `forceCloseWithDelay` fires or not. -/
theorem refused_stays_up {maxConnections : ℤ} {as bs : List Action} {fd : ℕ} {d : ShutdownResult}
    (h : machine.Along Env (.new maxConnections) (as ++ .accept fd d :: bs))
    (hrun : machine.run (.new maxConnections) as = .ok s)
    (hfull : maxConnections ≤ s.conns.countP Connection.up)
    (hpatient : ∀ a ∈ bs, PeerStays s.conns.length a) :
    (∃ s', s.step (.accept fd d) = .ok s' ∧
      machine.Always (fun t => ∃ c ∈ t.conns[s.conns.length]?, c.up = true) s' bs) ∨
    s.step (.accept fd d) = .error .shutdownWrite ∧ d ≠ .success := by
  have hstep : ∀ s a s', Inv maxConnections s → Env s a → machine.step s a = .ok s' →
      Inv maxConnections s' := fun s a s' hs ha h => hs.of_step ha h
  obtain ⟨has, hrest⟩ := Machine.along_append.1 h
  have hinv : Inv maxConnections s := Machine.inv_of_along hstep (inv_new maxConnections) has hrun
  refine (accept_spec s fd d).imp_left ?_
  rintro ⟨s', c, hok, hs'⟩
  have hc : Refused c.life :=
    hs'.refused (hs'.refused_iff.2 (by rw [hinv.limit, hinv.count]; exact hfull))
  refine ⟨s', hok, ?_⟩
  have haccept : machine.step s (.accept fd d) = .ok s' := hok
  obtain ⟨-, hbs⟩ := (Machine.along_cons_ok haccept).1 (hrest s hrun)
  have hbs' := Machine.along_and.2 ⟨hbs, Machine.along_of_forall hpatient _⟩
  have hkept : ∀ t a t', Inv maxConnections t ∧ (∃ c ∈ t.conns[s.conns.length]?, Refused c.life) →
      Env t a ∧ PeerStays s.conns.length a → machine.step t a = .ok t' →
      Inv maxConnections t' ∧ ∃ c ∈ t'.conns[s.conns.length]?, Refused c.life := fun t a t' ht ha hok' =>
    ⟨hstep t a t' ht.1 ha.1 hok', refused_kept ht.1 ht.2 ha.1 ha.2 hok'⟩
  have hstart : ∃ d ∈ s'.conns[s.conns.length]?, Refused d.life := by
    rw [hs'.eq]
    exact ⟨c, by simp, hc⟩
  refine (Machine.always_of_along hkept ⟨hinv.accepted hs', hstart⟩ hbs').mono ?_
  rintro t ⟨-, d, hd, hrefused⟩
  exact ⟨d, hd, by simp [Connection.up, hrefused.state]⟩

theorem refused_stays_up_refusedAndTimed :
    ∃ s s', machine.run (.new 1) [.accept 7 .success] = .ok s ∧
      s.step (.accept 8 .success) = .ok s' ∧
      machine.Always (fun t => ∃ c ∈ t.conns[1]?, c.up = true) s' refusedAndTimed := by
  have henv : machine.Along Env (.new 1)
      ([.accept 7 .success] ++ .accept 8 .success :: refusedAndTimed) := by
    decide +kernel
  have hrun : machine.run (.new 1) [.accept 7 .success] = .ok _ := rfl
  obtain ⟨s', hok, halways⟩ := (refused_stays_up henv hrun (by decide +kernel)
    (by decide +kernel)).resolve_right fun hfault => hfault.2 rfl
  exact ⟨_, s', hrun, hok, halways⟩

end MaxConnection

end Reactor
