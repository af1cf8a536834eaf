import Reactor.MemcacheClient
import Reactor.TcpConnection.Carries

/-!
# The memcached benchmark: the connections

The client and the session get what the kernel has taken from the connection at the other end.  As long
as every `write(2)` takes all it is given, that is what the two have sent.

* `bench_completes`: in every such run, with the bytes of both directions cut anywhere, a client and a
  session come to an end after all requests, with one request under way at any time, and the store of
  the session is the one that the protocol says.
-/

namespace Reactor

namespace MemcacheClient

open Session
open TcpConnection.HalfClose (Busy)

variable (hashRange : Bytes → ℕ)

/-- The client and the session with the two ends of their connection. -/
structure System extends Exchange where
  clientConn : TcpConnection
  sessionConn : TcpConnection

namespace System

/-- The bytes on their way to the session. -/
def toSession (s : System) : Bytes := s.clientConn.accepted.drop s.taken

/-- The bytes on their way to the client. -/
def toClient (s : System) : Bytes := s.sessionConn.accepted.drop s.got

/-- So many bytes are passed to the message callback of the session. -/
def messageToSession (s : System) (n : ℕ) : Except Fault (Session × Buffer) :=
  (chunkMachine hashRange).step (s.session, s.sessionBuf) (s.toSession.take n)

/-- So many bytes are passed to the message callback of the client. -/
def messageToClient (s : System) (n : ℕ) : Except Fault (Client × Buffer) := do
  s.client.onMessage (← s.clientBuf.append (s.toClient.take n))

end System

inductive Event where
  -- the next functor of the client's loop
  | functor (w : WriteResult) (d : ShutdownResult)
  | session (n : ℕ) (w : WriteResult) (d : ShutdownResult)
  | client (n : ℕ) (w : WriteResult) (d : ShutdownResult)
  | sessionWrite (w : WriteResult) (d : ShutdownResult)
  | clientWrite (w : WriteResult) (d : ShutdownResult)

/-- `send`, if a message callback called it. -/
def sendNew (conn : TcpConnection) (bytes : Bytes) (w : WriteResult) : Except Fault TcpConnection :=
  if bytes = [] then return conn else conn.send true bytes w

/-- What a message callback did with its connection: it sent `bytes`, and then it shut it down or not. -/
def passOn (conn : TcpConnection) (bytes : Bytes) (shut : Bool) (w : WriteResult) (d : ShutdownResult) :
    Except Fault TcpConnection := do
  let conn ← sendNew conn bytes w
  if shut then conn.shutdown true d else return conn

def step (s : System) : Event → Except Fault System
  | .functor w d => return { s with clientConn := ← s.clientConn.runFunctor w d }
  | .session n w d => do
    let (session, buf) ← s.messageToSession hashRange n
    let bytes := session.sent.drop s.session.sent.length
    let conn ← passOn s.sessionConn bytes (! session.connected) w d
    return { s with
      session := session, sessionBuf := buf, sessionConn := conn, taken := s.taken + n }
  | .client n w d => do
    let (client, buf) ← s.messageToClient n
    let bytes := client.sent.drop s.client.sent.length
    let conn ← passOn s.clientConn bytes client.halfClosed w d
    return { s with client := client, clientBuf := buf, clientConn := conn, got := s.got + n }
  | .sessionWrite w d => return { s with sessionConn := ← s.sessionConn.handleWrite w d }
  | .clientWrite w d => return { s with clientConn := ← s.clientConn.handleWrite w d }

def machine : Machine System Event Fault := ⟨step hashRange⟩

def Env (s : System) : Event → Prop
  | .functor _ _ => s.clientConn.pendingFunctors ≠ []
  | .session n _ _ => 0 < n ∧ n ≤ s.toSession.length
  | .client n _ _ => 0 < n ∧ n ≤ s.toClient.length
  | .sessionWrite _ _ => s.sessionConn.channel.isWriting = true
  | .clientWrite _ _ => s.clientConn.channel.isWriting = true

/-- How much the event asks the kernel to write. -/
def asked (s : System) : Event → ℕ
  | .functor _ _ => s.clientConn.asked
  | .session n _ _ =>
    match s.messageToSession hashRange n with
    | .ok (session, _) => (session.sent.drop s.session.sent.length).length
    | .error _ => 0
  | .client n _ _ =>
    match s.messageToClient n with
    | .ok (client, _) => (client.sent.drop s.client.sent.length).length
    | .error _ => 0
  | .sessionWrite _ _ => s.sessionConn.outputBuffer.readableBytes
  | .clientWrite _ _ => s.clientConn.outputBuffer.readableBytes

def Event.write : Event → WriteResult
  | .functor w _ | .session _ w _ | .client _ w _ | .sessionWrite w _ | .clientWrite w _ => w

/-- The kernel takes all it is given. -/
def TakesAll (s : System) (e : Event) : Prop := e.write = .wrote (asked hashRange s e)

/-- The `shutdown(2)` that the client makes behind the last reply succeeds. -/
def Event.Succeeds : Event → Prop
  | .client _ _ d => d = .success
  | .functor _ _ | .session _ _ _ | .sessionWrite _ _ | .clientWrite _ _ => True

/-- An end of the connection, with the defaults for what is not set. -/
def connected (fd : ℕ) : TcpConnection :=
  (TcpConnection.new fd false false (64 * 1024 * 1024)).established

/-- The connection is up, and `main` has sent the first request, on a thread that is not the
connection's. -/
def start (owner : MemcacheServer) (client : Client) : Except Fault System := do
  let client ← client.sendRequest
  let clientConn ← (connected 0).send false client.sent (.wrote 0)
  let session ← Session.new hashRange owner
  return ⟨⟨client, Buffer.empty, session, Buffer.empty, 0, 0⟩, clientConn, connected 1⟩

/-! ## One end of the connection -/

/-- All that was sent is written. -/
structure Written (conn : TcpConnection) (sent : Bytes) : Prop where
  output : conn.outputBuffer.readableBytes = 0
  idle : conn.channel.isWriting = false
  callback : conn.writeCompleteCallback = false
  functors : conn.pendingFunctors = []
  accepted : conn.accepted = sent

variable {conn : TcpConnection} {sent bytes : Bytes} {d : ShutdownResult}

theorem written_connected (fd : ℕ) : Written (connected fd) [] := by
  refine ⟨rfl, ?_, rfl, rfl, rfl⟩
  show (connected 0).channel.isWriting = false
  decide

/-- The kernel takes all of it. -/
theorem sendInLoop_eq (hup : conn.state ≠ .kDisconnected) (hidle : conn.channel.isWriting = false)
    (houtput : conn.outputBuffer.readableBytes = 0) (hcallback : conn.writeCompleteCallback = false)
    (bytes : Bytes) :
    conn.sendInLoop bytes (.wrote bytes.length) =
      .ok { conn with accepted := conn.accepted ++ bytes } := by
  unfold TcpConnection.sendInLoop TcpConnection.writeDirectly
  simp [hup, hidle, houtput, hcallback, check]

/-- A message callback passes bytes to a connection that is up. -/
theorem Written.send (h : Written conn sent) (hup : conn.state = .kConnected) (bytes : Bytes) :
    ∃ conn', sendNew conn bytes (.wrote bytes.length) = .ok conn' ∧ Written conn' (sent ++ bytes) ∧
      conn'.state = .kConnected := by
  unfold sendNew
  by_cases hnone : bytes = []
  · rw [if_pos hnone, hnone, List.append_nil]
    exact ⟨conn, rfl, h, hup⟩
  · have hwrite := sendInLoop_eq (by rw [hup]; decide) h.idle h.output h.callback bytes
    rw [h.accepted] at hwrite
    rw [if_neg hnone, TcpConnection.send, if_pos hup, if_pos rfl, hwrite]
    exact ⟨_, rfl, ⟨h.output, h.idle, h.callback, h.functors, rfl⟩, hup⟩

theorem Written.passOn_open (h : Written conn sent) (hup : conn.state = .kConnected) (bytes : Bytes)
    (d : ShutdownResult) :
    ∃ conn', passOn conn bytes false (.wrote bytes.length) d = .ok conn' ∧
      Written conn' (sent ++ bytes) ∧ conn'.state = .kConnected := by
  obtain ⟨conn', hsend, hwritten, hup'⟩ := h.send hup bytes
  exact ⟨conn', by rw [passOn, hsend]; rfl, hwritten, hup'⟩

theorem Written.passOn_shut (h : Written conn sent) (hup : conn.state = .kConnected) (bytes : Bytes)
    (d : ShutdownResult) :
    (∃ conn', passOn conn bytes true (.wrote bytes.length) d = .ok conn' ∧
      Written conn' (sent ++ bytes) ∧ conn'.writeHalfClosed = true) ∨
    passOn conn bytes true (.wrote bytes.length) d = .error .shutdownWrite ∧ d ≠ .success := by
  obtain ⟨conn', hsend, hwritten, hup'⟩ := h.send hup bytes
  have hpass : passOn conn bytes true (.wrote bytes.length) d =
      { conn' with state := .kDisconnecting }.shutdownInLoop d := by
    rw [passOn, hsend, ok_bind, if_pos rfl, TcpConnection.shutdown, if_pos hup']
    rfl
  have hclosed : { conn' with state := .kDisconnecting }.halfClosed =
      { conn' with state := .kDisconnecting, writeHalfClosed := true } :=
    if_pos (by simp [hwritten.idle])
  rw [hpass]
  refine (TcpConnection.shutdownInLoop_cases _ d).imp_left fun hok => ?_
  rw [hclosed] at hok
  exact ⟨_, hok, ⟨hwritten.output, hwritten.idle, hwritten.callback, hwritten.functors,
    hwritten.accepted⟩, rfl⟩

/-- The functor of a `send` on another thread. -/
theorem Written.functor (h : Written conn []) (hup : conn.state = .kConnected) {text : Bytes}
    (htext : text.length < 2 ^ 31 ∧ 0 ∉ text) (d : ShutdownResult) :
    (conn.queueInLoop (.sendInLoop text)).asked = text.length ∧
      ∃ conn', (conn.queueInLoop (.sendInLoop text)).runFunctor (.wrote text.length) d = .ok conn' ∧
        Written conn' text ∧ conn'.state = .kConnected := by
  have hcut := cString_eq_self_iff.2 htext.2
  have hqueue : (conn.queueInLoop (.sendInLoop text)).pendingFunctors = [.sendInLoop text] := by
    show conn.pendingFunctors ++ [_] = _
    rw [h.functors]
    rfl
  have hwrite : { conn with pendingFunctors := [] }.sendInLoop text (.wrote text.length) =
      .ok { conn with pendingFunctors := [], accepted := conn.accepted ++ text } :=
    sendInLoop_eq (by rw [hup]; decide) (by exact h.idle) (by exact h.output) (by exact h.callback)
      text
  refine ⟨?_, { conn with pendingFunctors := [], accepted := conn.accepted ++ text }, ?_,
    ⟨h.output, h.idle, h.callback, rfl, ?_⟩, hup⟩
  · rw [TcpConnection.asked, hqueue]
    dsimp only
    rw [hcut]
  · rw [TcpConnection.runFunctor, hqueue]
    dsimp only
    rw [TcpConnection.runSendInLoop_eq htext.1, hcut]
    exact hwrite
  · dsimp only
    rw [h.accepted, List.nil_append]

/-! ## Both ends -/

variable {hashRange} {startTime : ℤ} {m : CasMap} {c : Client} {s s' : System}

/-- The first request waits for the client's loop. -/
structure Queued (s : System) : Prop where
  conn : ∃ conn, Written conn [] ∧ conn.state = .kConnected ∧
    s.clientConn = conn.queueInLoop (.sendInLoop s.client.sent)
  text : s.client.sent.length < 2 ^ 31 ∧ 0 ∉ s.client.sent
  unshut : s.client.halfClosed = false
  quiet : s.session.sent = []

/-- The client's end has written what was sent, and is half-closed when it was shut down. -/
structure Running (s : System) : Prop where
  conn : Written s.clientConn s.client.sent
  up : s.client.halfClosed = false → s.clientConn.state = .kConnected
  shut : s.client.halfClosed = true → s.clientConn.writeHalfClosed = true

structure Linked (hashRange : Bytes → ℕ) (startTime : ℤ) (m : CasMap) (c : Client) (s : System) :
    Prop where
  progress : Progress hashRange startTime m c s.toExchange
  bounded : Bounded s.toExchange
  sessionConn : Written s.sessionConn s.session.sent
  sessionUp : s.sessionConn.state = .kConnected
  clientConn : Queued s ∨ Running s

/-- The steps that were taken. -/
def spent (s : System) : ℕ := s.taken + s.got + if s.clientConn.pendingFunctors = [] then 1 else 0

/-- No reply is sent before the first request is. -/
theorem Linked.running (h : Linked hashRange startTime m c s)
    (hwire : s.toSession ≠ [] ∨ s.toClient ≠ []) : Running s := by
  rcases h.clientConn with hqueued | hrunning
  · obtain ⟨conn, hwritten, -, heq⟩ := hqueued.conn
    have haccepted : s.clientConn.accepted = [] := by
      rw [heq]
      exact hwritten.accepted
    rcases hwire with hwire | hwire
    · refine absurd ?_ hwire
      rw [System.toSession, haccepted]
      exact List.drop_nil
    · refine absurd ?_ hwire
      rw [System.toClient, h.sessionConn.accepted, hqueued.quiet]
      exact List.drop_nil
  · exact hrunning

theorem Linked.functor (h : Linked hashRange startTime m c s) {w : WriteResult} {d : ShutdownResult}
    (hE : Env s (.functor w d)) (hw : TakesAll hashRange s (.functor w d)) :
    ∃ s', step hashRange s (.functor w d) = .ok s' ∧ Linked hashRange startTime m c s' ∧
      spent s < spent s' := by
  rcases h.clientConn with hqueued | hrunning
  · obtain ⟨conn, hwritten, hup, heq⟩ := hqueued.conn
    obtain ⟨hasked, conn', hrun, hwritten', hup'⟩ := hwritten.functor hup hqueued.text d
    rw [← heq] at hasked hrun
    obtain rfl : w = .wrote s.client.sent.length := by
      rw [← hasked]
      exact hw
    refine ⟨{ s with clientConn := conn' }, ?_, ⟨h.progress, h.bounded, h.sessionConn, h.sessionUp,
      .inr ⟨hwritten', fun _ => hup', fun hshut => ?_⟩⟩, ?_⟩
    · rw [step, hrun]
      rfl
    · rw [hqueued.unshut] at hshut
      cases hshut
    · unfold spent
      dsimp only
      rw [if_neg hE, if_pos hwritten'.functors]
      omega
  · exact absurd hrunning.conn.functors hE

/-- What was sent before is a part of what was sent. -/
theorem append_drop {xs ys : Bytes} (h : xs <+: ys) : xs ++ ys.drop xs.length = ys :=
  List.prefix_iff_eq_append.1 h

theorem Linked.session (h : Linked hashRange startTime m c s) (hc : Proper c) (hmiss : Misses m c)
    {n : ℕ} {w : WriteResult} {d : ShutdownResult} (hE : Env s (.session n w d))
    (hw : TakesAll hashRange s (.session n w d)) :
    ∃ s', step hashRange s (.session n w d) = .ok s' ∧ Linked hashRange startTime m c s' ∧
      spent s < spent s' := by
  have hrunning := h.running (.inl (List.length_pos_iff.1 (Nat.lt_of_lt_of_le hE.1 hE.2)))
  have hwire : s.toSession = s.forSession := by
    rw [System.toSession, hrunning.conn.accepted]
    rfl
  have hoffers : s.Offers (.session n) := by
    have hE' : 0 < n ∧ n ≤ s.toSession.length := hE
    rw [hwire] at hE'
    exact hE'
  obtain ⟨t, hdeliver, hprogress, hbounded, hlt, hgrows⟩ := h.progress.step hc hmiss h.bounded hoffers
  obtain ⟨⟨session, buf⟩, hchunk, hret⟩ := bind_eq_ok.1 hdeliver
  obtain rfl := Except.ok.inj hret
  have hmessage : s.messageToSession hashRange n = .ok (session, buf) := by
    rw [System.messageToSession, hwire]
    exact hchunk
  obtain rfl : w = .wrote (session.sent.drop s.session.sent.length).length := by
    have hw' : w = .wrote (asked hashRange s (.session n w d)) := hw
    rw [hw', asked, hmessage]
  obtain ⟨conn, hpass, hwritten, hup⟩ := h.sessionConn.passOn_open h.sessionUp
    (session.sent.drop s.session.sent.length) d
  have hconnected : session.connected = true := hprogress.connected
  rw [append_drop hgrows.session] at hwritten
  refine ⟨{ s with session := session, sessionBuf := buf, sessionConn := conn, taken := s.taken + n },
    ?_, ⟨hprogress, hbounded, hwritten, hup, .inr ⟨hrunning.conn, hrunning.up, hrunning.shut⟩⟩, ?_⟩
  · rw [step, hmessage, ok_bind]
    dsimp only
    rw [hconnected, Bool.not_true, hpass]
    rfl
  · exact Nat.add_lt_add_right hlt _

/-- The message callback of the client leaves its end with the rest of the step. -/
theorem step_client {n : ℕ} {client : Client} {buf : Buffer}
    (hmessage : s.messageToClient n = .ok (client, buf)) (w : WriteResult) (d : ShutdownResult) :
    step hashRange s (.client n w d) =
      (passOn s.clientConn (client.sent.drop s.client.sent.length) client.halfClosed w d).map fun conn =>
        { s with client := client, clientBuf := buf, clientConn := conn, got := s.got + n } := by
  rw [step, hmessage, ok_bind]
  dsimp only
  cases passOn s.clientConn _ _ _ d <;> rfl

/-- What was read at the client's end is spent. -/
theorem spent_lt {t : Exchange} {clientConn sessionConn : TcpConnection}
    (hlt : s.taken + s.got < t.taken + t.got) (hbefore : s.clientConn.pendingFunctors = [])
    (hafter : clientConn.pendingFunctors = []) : spent s < spent ⟨t, clientConn, sessionConn⟩ := by
  unfold spent
  dsimp only
  rw [if_pos hbefore, if_pos hafter]
  omega

theorem Linked.client (h : Linked hashRange startTime m c s) (hc : Proper c) (hmiss : Misses m c)
    {n : ℕ} {w : WriteResult} {d : ShutdownResult} (hE : Env s (.client n w d))
    (hw : TakesAll hashRange s (.client n w d)) :
    (∃ s', step hashRange s (.client n w d) = .ok s' ∧ Linked hashRange startTime m c s' ∧
      spent s < spent s') ∨
    step hashRange s (.client n w d) = .error .shutdownWrite ∧ d ≠ .success := by
  have hrunning := h.running (.inr (List.length_pos_iff.1 (Nat.lt_of_lt_of_le hE.1 hE.2)))
  have hwire : s.toClient = s.forClient := by
    rw [System.toClient, h.sessionConn.accepted]
    rfl
  have hoffers : s.Offers (.client n) := by
    have hE' : 0 < n ∧ n ≤ s.toClient.length := hE
    rw [hwire] at hE'
    exact hE'
  have hup := hrunning.up (h.progress.open_of_offers hc hoffers)
  obtain ⟨t, hdeliver, hprogress, hbounded, hlt, hgrows⟩ := h.progress.step hc hmiss h.bounded hoffers
  obtain ⟨buffer, happend, hrest⟩ := bind_eq_ok.1 hdeliver
  obtain ⟨⟨client, buf⟩, hcall, hret⟩ := bind_eq_ok.1 hrest
  obtain rfl := Except.ok.inj hret
  have hmessage : s.messageToClient n = .ok (client, buf) := by
    rw [System.messageToClient, hwire, happend]
    exact hcall
  obtain rfl : w = .wrote (client.sent.drop s.client.sent.length).length := by
    have hw' : w = .wrote (asked hashRange s (.client n w d)) := hw
    rw [hw', asked, hmessage]
  rw [step_client hmessage]
  cases hshut : client.halfClosed with
  | false =>
    obtain ⟨conn, hpass, hwritten, hup'⟩ := hrunning.conn.passOn_open hup
      (client.sent.drop s.client.sent.length) d
    rw [append_drop hgrows.client] at hwritten
    rw [hpass]
    exact .inl ⟨_, rfl, ⟨hprogress, hbounded, h.sessionConn, h.sessionUp,
      .inr ⟨hwritten, fun _ => hup', fun htrue => (by cases hshut.symm.trans htrue)⟩⟩,
      spent_lt hlt hrunning.conn.functors hwritten.functors⟩
  | true =>
    rcases hrunning.conn.passOn_shut hup (client.sent.drop s.client.sent.length) d with
      ⟨conn, hpass, hwritten, hclosed⟩ | ⟨hfault, hd⟩
    · rw [append_drop hgrows.client] at hwritten
      rw [hpass]
      exact .inl ⟨_, rfl, ⟨hprogress, hbounded, h.sessionConn, h.sessionUp,
        .inr ⟨hwritten, fun hfalse => (by cases hshut.symm.trans hfalse), fun _ => hclosed⟩⟩,
        spent_lt hlt hrunning.conn.functors hwritten.functors⟩
    · rw [hfault]
      exact .inr ⟨rfl, hd⟩

/-- Nothing is left for the loops to write. -/
theorem Linked.not_writing (h : Linked hashRange startTime m c s) :
    s.sessionConn.channel.isWriting = false ∧ s.clientConn.channel.isWriting = false := by
  refine ⟨h.sessionConn.idle, ?_⟩
  rcases h.clientConn with hqueued | hrunning
  · obtain ⟨conn, hwritten, -, heq⟩ := hqueued.conn
    rw [heq]
    exact hwritten.idle
  · exact hrunning.conn.idle

theorem Linked.step (h : Linked hashRange startTime m c s) (hc : Proper c) (hmiss : Misses m c)
    {e : Event} (he : Env s e ∧ TakesAll hashRange s e) :
    (∃ s', (machine hashRange).step s e = .ok s' ∧ Linked hashRange startTime m c s' ∧
      spent s < spent s') ∨
    (machine hashRange).step s e = .error .shutdownWrite ∧ ¬ e.Succeeds := by
  obtain ⟨hE, hw⟩ := he
  cases e with
  | functor w d => exact .inl (h.functor hE hw)
  | session n w d => exact .inl (h.session hc hmiss hE hw)
  | client n w d => exact h.client hc hmiss hE hw
  | sessionWrite w d =>
    have hwriting : s.sessionConn.channel.isWriting = true := hE
    rw [h.not_writing.1] at hwriting
    cases hwriting
  | clientWrite w d =>
    have hwriting : s.clientConn.channel.isWriting = true := hE
    rw [h.not_writing.2] at hwriting
    cases hwriting

theorem Linked.le_work (h : Linked hashRange startTime m c s) (hc : Proper c) (hmiss : Misses m c) :
    spent s ≤ work c + 1 := by
  have hle := h.progress.le_work hc hmiss h.bounded
  unfold spent
  split_ifs <;> omega

/-- One request is under way, and the kernel or a loop has something to do. -/
def UnderWay (hashRange : Bytes → ℕ) (s : System) : Prop :=
  s.client.acked < s.client.requests ∧ s.client.send = s.client.acked + 1 ∧
    s.clientConn.state = .kConnected ∧ ∃ e, Env s e ∧ TakesAll hashRange s e

/-- All requests are answered, the connection is shut down, nothing is under way, and the session has
done what the protocol says. -/
def Complete (hashRange : Bytes → ℕ) (startTime : ℤ) (m : CasMap) (commands : List Command)
    (s : System) : Prop :=
  s.client.acked = s.client.requests ∧ s.client.send = s.client.requests ∧
    s.clientConn.writeHalfClosed = true ∧ (∀ e, ¬ Env s e) ∧
    ∃ t, (protocolMachine startTime).run ⟨[], m⟩ commands = .ok t ∧ s.sessionConn.accepted = t.sent ∧
      ∀ key : Item, key.Keyed hashRange →
        (s.session.owner.getItem key).map Item.entry = t.store.map key.keyBytes

theorem Linked.enabled (h : Linked hashRange startTime m c s) {e : Delivery} (hE : s.Offers e) :
    ∃ e, Env s e ∧ TakesAll hashRange s e := by
  rcases h.clientConn with hqueued | hrunning
  · obtain ⟨conn, hwritten, -, heq⟩ := hqueued.conn
    refine ⟨.functor (.wrote s.clientConn.asked) .success, ?_, rfl⟩
    show s.clientConn.pendingFunctors ≠ []
    rw [heq]
    exact List.append_ne_nil_of_right_ne_nil _ (List.cons_ne_nil _ _)
  · cases e with
    | session n =>
      refine ⟨.session n (.wrote (asked hashRange s (.session n (.wrote 0) .success))) .success, ?_, rfl⟩
      show 0 < n ∧ n ≤ s.toSession.length
      rw [System.toSession, hrunning.conn.accepted]
      exact hE
    | client n =>
      refine ⟨.client n (.wrote (asked hashRange s (.client n (.wrote 0) .success))) .success, ?_, rfl⟩
      show 0 < n ∧ n ≤ s.toClient.length
      rw [System.toClient, h.sessionConn.accepted]
      exact hE

theorem Linked.up (h : Linked hashRange startTime m c s) (hopen : s.client.halfClosed = false) :
    s.clientConn.state = .kConnected := by
  rcases h.clientConn with hqueued | hrunning
  · obtain ⟨conn, -, hup, heq⟩ := hqueued.conn
    rw [heq]
    exact hup
  · exact hrunning.up hopen

theorem Linked.underWay_or_complete (h : Linked hashRange startTime m c s) (hc : Proper c) :
    UnderWay hashRange s ∨ Complete hashRange startTime m (c.commands c.requests) s := by
  rcases h.progress.next hc with ⟨hacked, hsend, hopen, e, hE⟩ | hended
  · exact .inl ⟨hacked, hsend, h.up hopen, h.enabled hE⟩
  · have hclient : s.client = c.finished := hended.client
    have hshut : s.client.halfClosed = true := by
      rw [hclient]
      rfl
    have hrunning : Running s := h.clientConn.resolve_left fun hqueued => by
      rw [hqueued.unshut] at hshut
      cases hshut
    have hsession : s.toSession = [] := by
      rw [System.toSession, hrunning.conn.accepted]
      exact hended.forSession
    have htoClient : s.toClient = [] := by
      rw [System.toClient, h.sessionConn.accepted]
      exact hended.forClient
    have hnone : ∀ {n : ℕ} {bytes : Bytes}, bytes = [] → ¬ (0 < n ∧ n ≤ bytes.length) := by
      rintro n bytes rfl ⟨hpos, hle⟩
      exact absurd hle (Nat.not_le.2 hpos)
    refine .inr ⟨by rw [hclient]; rfl, by rw [hclient]; rfl, hrunning.shut hshut, fun e hE => ?_, _,
      run_commands startTime m c c.requests, h.sessionConn.accepted.trans hended.ready.sent,
      fun key hkey => hended.ready.store.getItem hkey⟩
    cases e with
    | functor w d => exact hE hrunning.conn.functors
    | session n w d => exact hnone hsession hE
    | client n w d => exact hnone htoClient hE
    | sessionWrite w d => exact absurd (h.not_writing.1.symm.trans hE) Bool.false_ne_true
    | clientWrite w d => exact absurd (h.not_writing.2.symm.trans hE) Bool.false_ne_true

/-! ## Runs -/

/-- The first request waits for the client's loop, and the session for the request. -/
theorem linked_start {owner : MemcacheServer} (hstore : MemcacheServer.Represents hashRange owner m)
    (hc : Proper c) (hpos : 0 < c.requests) (hnew : c.sendRequest = .ok (c.waiting 0)) :
    ∃ s₀, start hashRange owner c = .ok s₀ ∧ Linked hashRange owner.startTime m c s₀ ∧ spent s₀ = 0 := by
  obtain ⟨session, hsession, hready⟩ := ready_new hstore
  have htext : (c.waiting 0).sent = (c.command 0).text := texts_commands_succ c 0
  have hpaused : Paused hashRange owner.startTime session Buffer.empty
      (dialogue owner.startTime m c 0) [c.command 0] ((c.waiting 0).sent.drop 0) := by
    refine ⟨?_, Buffer.wf_empty, Or.inl Buffer.readable_empty⟩
    rw [List.drop_zero, htext, Buffer.readable_empty,
      ← List.flatMap_singleton (f := Command.text) (c.command 0)]
    exact .ready _ _ _ hready
  have hasking : Asking hashRange owner.startTime m c 0
      ⟨c.waiting 0, Buffer.empty, session, Buffer.empty, 0, 0⟩ :=
    ⟨hpos, rfl, Buffer.wf_empty, Buffer.readable_empty, hpaused, hready.sent⟩
  have hsend : (connected 0).send false (c.waiting 0).sent (.wrote 0) =
      .ok ((connected 0).queueInLoop (.sendInLoop (c.waiting 0).sent)) := rfl
  have hquiet : session.sent = [] := hready.sent
  have hwritten := written_connected 1
  rw [← hquiet] at hwritten
  refine ⟨_, bind_eq_ok.2 ⟨_, hnew, bind_eq_ok.2 ⟨_, hsend, bind_eq_ok.2 ⟨_, hsession, rfl⟩⟩⟩,
    ⟨.inl ⟨0, .inl hasking⟩, ⟨Nat.zero_le _, Nat.zero_le _⟩, hwritten, rfl, .inl ?_⟩, rfl⟩
  refine ⟨⟨connected 0, written_connected 0, rfl, rfl⟩, ?_, rfl, hquiet⟩
  dsimp only
  rw [htext]
  exact text_command hc 0

/-- A client with its session. -/
theorem bench_completes (hashRange : Bytes → ℕ) (owner : MemcacheServer) (m : CasMap) (name : Bytes)
    (op : Operation) (requests keys valuelen : ℕ) (hstore : MemcacheServer.Represents hashRange owner m)
    (hc : Proper (.new name op requests keys valuelen)) (hpos : 0 < requests)
    (hmiss : Misses m (.new name op requests keys valuelen)) :
    ∃ s₀, start hashRange owner (.new name op requests keys valuelen) = .ok s₀ ∧
      ∀ es, (machine hashRange).Along (fun s e => Env s e ∧ TakesAll hashRange s e) s₀ es →
        (∀ f, (machine hashRange).run s₀ es = .error f →
          f = .shutdownWrite ∧ ∃ e ∈ es, ¬ e.Succeeds) ∧
        ∀ s, (machine hashRange).run s₀ es = .ok s →
          es.length ≤ work (.new name op requests keys valuelen) + 1 ∧
          (UnderWay hashRange s ∨ Complete hashRange owner.startTime m
            ((Client.new name op requests keys valuelen).commands requests) s) := by
  generalize hclient : Client.new name op requests keys valuelen = c at hc hmiss ⊢
  obtain rfl : c.requests = requests := by
    rw [← hclient]
    rfl
  have hnew : c.sendRequest = .ok (c.waiting 0) := by
    rw [← hclient] at hc ⊢
    rw [sendRequest_eq hc rfl]
    exact congrArg Except.ok (by rw [Client.waiting, texts_commands_succ]; rfl)
  obtain ⟨s₀, hstart, hlinked, hzero⟩ := linked_start hstore hc hpos hnew
  have hok : ∀ s e s', Linked hashRange owner.startTime m c s → Env s e ∧ TakesAll hashRange s e →
      (machine hashRange).step s e = .ok s' →
      Linked hashRange owner.startTime m c s' ∧ spent s < spent s' := by
    intro s e s' h he hs'
    rcases h.step hc hmiss he with ⟨t, ht, hlinked', hlt⟩ | ⟨hfault, -⟩
    · obtain rfl : t = s' := Except.ok.inj (ht.symm.trans hs')
      exact ⟨hlinked', hlt⟩
    · cases hfault.symm.trans hs'
  refine ⟨s₀, hstart, fun es hE => ⟨?_, fun s hs => ?_⟩⟩
  · have hstep : ∀ s e, Linked hashRange owner.startTime m c s → Env s e ∧ TakesAll hashRange s e →
        (∃ s', (machine hashRange).step s e = .ok s' ∧ Linked hashRange owner.startTime m c s') ∨
          (machine hashRange).step s e = .error .shutdownWrite ∧ ¬ e.Succeeds := fun s e h he =>
      (h.step hc hmiss he).imp_left fun ⟨s', hs', hlinked', _⟩ => ⟨s', hs', hlinked'⟩
    exact (Machine.fault_always_of_along hstep hlinked hE).1
  · have hlinked' := Machine.inv_of_along (fun s e s' h he hs' => (hok s e s' h he hs').1) hlinked hE hs
    have hlength := Machine.length_le_of_along hok hlinked hE hs
    have hwork := hlinked'.le_work hc hmiss
    exact ⟨by omega, hlinked'.underWay_or_complete hc⟩

theorem bench_completes_three :
    ∃ s₀, start MemcacheServer.boostHashRange (.new 0) (.new (ascii "1-") .kSet 3 2 100) = .ok s₀ ∧
      ∀ es, (machine MemcacheServer.boostHashRange).Along
        (fun s e => Env s e ∧ TakesAll MemcacheServer.boostHashRange s e) s₀ es →
        (∀ f, (machine MemcacheServer.boostHashRange).run s₀ es = .error f →
          f = .shutdownWrite ∧ ∃ e ∈ es, ¬ e.Succeeds) ∧
        ∀ s, (machine MemcacheServer.boostHashRange).run s₀ es = .ok s →
          es.length ≤ work (.new (ascii "1-") .kSet 3 2 100) + 1 ∧
          (UnderWay MemcacheServer.boostHashRange s ∨ Complete MemcacheServer.boostHashRange 0 .empty
            ((Client.new (ascii "1-") .kSet 3 2 100).commands 3) s) :=
  bench_completes MemcacheServer.boostHashRange (.new 0) .empty (ascii "1-") .kSet 3 2 100
    (MemcacheServer.represents_new 0)
    ⟨by decide +kernel, by decide +kernel, by decide, by decide, by decide, rfl⟩ (by decide)
    (fun h => by cases h)

end MemcacheClient

end Reactor
