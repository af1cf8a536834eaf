import Reactor.Hub.Protocol
import Reactor.Lib.Broker

/-!
# What subscribers hear

The hub with the input buffers of its connections: any bytes come in any chunks.  What it passes on to
a connection is read by `PubSubClient::onMessage`.  The publications are plain, since a text behind a
NUL byte is not sent.

* `hub_refines_broker`: the hub is a broker with retained messages, which a connection leaves when it
  is shut down.  Whatever the peers send, no step fails but for `shutdown(2)`, and what a client makes
  of the bytes that were passed on for it, in whatever chunks they come, is what the broker lets it
  hear; no publication passes for another one.
* `subscriber_misses_nothing`: from a moment on at which a connection is subscribed and connected, and
  as long as it stays so, what it hears on the topic is what is published on it.
-/

namespace Reactor

namespace Hub

/-! ## The client -/

namespace PubSubClient

/-- The loop of `PubSubClient::onMessage`: what `subscribeCallback_` is called with, and whether
`shutdown` is. -/
def messageLoop : ℕ → Buffer → Except Fault (List (Bytes × Bytes) × Bool × Buffer)
  | 0, _ => .error .outOfFuel
  | fuel + 1, buf => do
    let (result, m, buf) ← parseMessage buf
    match result with
    | .kSuccess =>
      let (heard, shutdown, buf) ← messageLoop fuel buf
      return (if m.cmd = ascii "pub" then (m.topic, m.content) :: heard else heard, shutdown, buf)
    | .kError => return ([], true, buf)
    | .kContinue => return ([], false, buf)

def onMessage (buf : Buffer) : Except Fault (List (Bytes × Bytes) × Bool × Buffer) :=
  messageLoop (buf.readableBytes + 1) buf

/-- The chunks come one by one, with a call of `onMessage` after each. -/
def feed : Buffer → List Bytes → Except Fault (List (Bytes × Bytes) × Bool × Buffer)
  | buf, [] => return ([], false, buf)
  | buf, chunk :: chunks => do
    let buf ← buf.append chunk
    let (heard, shutdown, buf) ← onMessage buf
    let (heard', shutdown', buf) ← feed buf chunks
    return (heard ++ heard', shutdown || shutdown', buf)

end PubSubClient

/-- The bytes that were sent to a connection. -/
def PubSubServer.sentTo (s : PubSubServer) (conn : Conn) : Bytes :=
  (s.sent.filter (·.1 = conn)).flatMap Prod.snd

/-! ## The system -/

/-- The hub, and `inputBuffer_` of every connection. -/
structure System where
  hub : PubSubServer
  input : Conn → Buffer

namespace System

def new : System := ⟨.new, fun _ => Buffer.empty⟩

inductive Event where
  | up (conn : Conn)
  | down (conn : Conn)
  -- bytes come in
  | read (conn : Conn) (chunk : Bytes) (receiveTime : ℤ) (r : ShutdownResult)
  | timePublish (now : ℤ) (formatted : Bytes)
  deriving DecidableEq, Repr

def step (s : System) : Event → Except Fault System
  | .up conn => return { s with hub := s.hub.onConnectionUp conn }
  | .down conn => do return { s with hub := ← s.hub.onConnectionDown conn }
  | .read conn chunk receiveTime r => do
    let buf ← (s.input conn).append chunk
    let (hub, buf) ← s.hub.onMessage conn buf receiveTime r
    return ⟨hub, Function.update s.input conn buf⟩
  | .timePublish now formatted => do return { s with hub := ← s.hub.timePublish now formatted }

def machine : Machine System Event Fault := ⟨step⟩

/-- A connection comes up once, and is up when bytes come in or it goes down.  The clock is past the
epoch, and the text of a time is no line break. -/
def Env (s : System) : Event → Prop
  | .up conn => s.hub.context conn = none
  | .down conn => conn ∈ s.hub.up
  | .read conn _ receiveTime _ => conn ∈ s.hub.up ∧ 0 < receiveTime
  | .timePublish now formatted => 0 < now ∧ 13 ∉ formatted

instance (s : System) : ∀ e, Decidable (Env s e)
  | .up _ => inferInstanceAs (Decidable (_ = _))
  | .down _ => inferInstanceAs (Decidable (_ ∈ _))
  | .read _ _ _ _ | .timePublish _ _ => inferInstanceAs (Decidable (_ ∧ _))

/-- If the event calls `shutdown(2)`, then with success. -/
def Event.Succeeds : Event → Prop
  | .read _ _ _ r => r = .success
  | .up _ | .down _ | .timePublish _ _ => True

instance : ∀ e : Event, Decidable e.Succeeds
  | .read _ _ _ _ => inferInstanceAs (Decidable (_ = _))
  | .up _ | .down _ | .timePublish _ _ => isTrue trivial

/-! ## The broker -/

abbrev Op := Broker.Op Conn Bytes Bytes

/-- What a command asks of a broker.  It is not told of the subscriptions of a connection that was shut
down. -/
def asked (hub : PubSubServer) (conn : Conn) (m : Message) : List Op :=
  if m.cmd = ascii "pub" then [.publish m.topic m.content]
  else if hub.Connected conn then
    if m.cmd = ascii "sub" then [.subscribe conn m.topic]
    else if m.cmd = ascii "unsub" then [.unsubscribe conn m.topic]
    else []
  else []

/-- What an event asks of a broker: the commands that are parsed of what has come in.  A connection
whose line is not understood is shut down. -/
def asks (s : System) : Event → List Op
  | .up _ => []
  | .down conn => [.leave conn]
  | .read conn chunk _ _ =>
    match (s.input conn).append chunk >>= fun buf => receiveLoop (buf.readableBytes + 1) buf with
    | .ok (ms, error, _) => ms.flatMap (asked s.hub conn) ++ if error then [.leave conn] else []
    | .error _ => []
  | .timePublish _ formatted => [.publish (ascii "utc_time") formatted]

/-- A publication has no NUL byte and fits into a message. -/
def PlainOp : Op → Prop
  | .publish topic content => PubSubServer.Plain topic content
  | .subscribe _ _ | .unsubscribe _ _ | .leave _ => True

instance : ∀ op, Decidable (PlainOp op)
  | .publish _ _ => inferInstanceAs (Decidable (PubSubServer.Plain _ _))
  | .subscribe _ _ | .unsubscribe _ _ | .leave _ => isTrue trivial

/-- What the event publishes is plain. -/
def Plain (s : System) (e : Event) : Prop := ∀ op ∈ s.asks e, PlainOp op

instance (s : System) (e : Event) : Decidable (s.Plain e) :=
  inferInstanceAs (Decidable (∀ op ∈ s.asks e, _))

/-- What a run asks of a broker. -/
def operations : System → List Event → List Op
  | _, [] => []
  | s, e :: es =>
    match s.step e with
    | .ok s' => s.asks e ++ operations s' es
    | .error _ => s.asks e

end System

/-! ## Texts without a line break -/

/-- A text that fits into a line. -/
def Line (xs : Bytes) : Prop := Buffer.searchCRLF xs = none

/-- The bytes of a publication. -/
def publication (p : Bytes × Bytes) : Bytes := (Call.publish p.1 p.2).message

variable {buf : Buffer} {xs rest topic content : Bytes} {m : Message} {conn : Conn}

theorem Line.of_segment {ys : Bytes} (h : Line ys) (hsegment : xs <:+: ys) : Line xs :=
  Buffer.searchCRLF_eq_none.2 fun hcrlf => Buffer.searchCRLF_eq_none.1 h (hcrlf.trans hsegment)

theorem Line.cons {x : Byte} (h : Line xs) (hx : x ≠ 13) : Line (x :: xs) := by
  cases xs with
  | nil => rfl
  | cons y xs =>
    show Buffer.searchCRLF (x :: y :: xs) = none
    rw [Buffer.searchCRLF, if_neg fun hboth => hx hboth.1, show Buffer.searchCRLF (y :: xs) = none from h]
    rfl

/-- What is parsed has a topic and a content that fit into lines. -/
theorem line_of_parse (h : parse xs = .success m rest) : Line m.topic ∧ Line m.content := by
  unfold parse at h
  cases hn : Buffer.searchCRLF xs with
  | none =>
    rw [hn] at h
    cases h
  | some n =>
    rw [hn] at h
    dsimp only at h
    have hline : Line (xs.take n) := (Buffer.searchCRLF_eq_some hn).1
    cases hsplit : splitFirst 32 (xs.take n) with
    | none =>
      rw [hsplit] at h
      cases h
    | some p =>
      obtain ⟨cmd, topic⟩ := p
      have htopic : Line topic := by
        refine hline.of_segment ?_
        rw [(splitFirst_eq_some.1 hsplit).1]
        exact ⟨cmd ++ [32], [], by simp⟩
      rw [hsplit] at h
      dsimp only at h
      split_ifs at h with hcmd
      · cases hk : Buffer.searchCRLF (xs.drop (n + 2)) with
        | none =>
          rw [hk] at h
          cases h
        | some k =>
          rw [hk] at h
          obtain ⟨rfl, -⟩ := Parse.success.inj h
          exact ⟨htopic, (Buffer.searchCRLF_eq_some hk).1⟩
      · obtain ⟨rfl, -⟩ := Parse.success.inj h
        exact ⟨htopic, rfl⟩

/-- A publication is parsed as it was made, whatever is behind it. -/
theorem parse_publication {p : Bytes × Bytes} (hp : Line p.1 ∧ Line p.2) (rest : Bytes) :
    parse (publication p ++ rest) = .success ⟨ascii "pub", p.1, p.2⟩ rest := by
  obtain ⟨topic, content⟩ := p
  obtain ⟨htopic, hcontent⟩ := hp
  have hspace : ascii "pub " = ascii "pub" ++ [32] := by decide
  have hpub : ascii "pub" = [112, 117, 98] := by decide
  have hline : Line (ascii "pub" ++ 32 :: topic) := by
    rw [hpub]
    exact (((htopic.cons (by decide)).cons (by decide)).cons (by decide)).cons (by decide)
  have htext : publication (topic, content) ++ rest =
      (ascii "pub" ++ 32 :: topic) ++ crlf ++ (content ++ crlf ++ rest) := by
    simp only [publication, Call.message, hspace, List.append_assoc, List.cons_append, List.nil_append]
  rw [htext]
  unfold parse
  rw [Buffer.searchCRLF_line hline]
  dsimp only
  rw [List.append_assoc, List.take_left, ← List.append_assoc, List.drop_left' (by simp; rfl),
    splitFirst_eq_some.2 ⟨rfl, by decide⟩]
  dsimp only
  rw [if_pos rfl, Buffer.searchCRLF_line hcontent]
  dsimp only
  rw [List.append_assoc, List.take_left, ← List.append_assoc, List.drop_left' (by simp; rfl)]

/-! ## What the client makes of publications -/

namespace PubSubClient

variable {heard : List (Bytes × Bytes)} {future : Bytes}

/-- The loop takes the publications that are there as a whole. -/
theorem messageLoop_spec {sent : List (Bytes × Bytes)} (hlines : ∀ p ∈ sent, Line p.1 ∧ Line p.2)
    (hwf : buf.Wf) {fuel : ℕ} (hfuel : buf.readable.length < fuel)
    (hstream : buf.readable ++ future = sent.flatMap publication) :
    ∃ heard left buf', messageLoop fuel buf = .ok (heard, false, buf') ∧ buf'.Wf ∧
      sent = heard ++ left ∧ buf'.readable ++ future = left.flatMap publication ∧
      parse buf'.readable = .wait := by
  induction fuel generalizing buf sent with
  | zero => omega
  | succ fuel ih =>
    have houtcome := outcome_parse hwf
    have hall : parse (sent.flatMap publication) = .wait ∧ sent = [] ∨
        ∃ p left, sent = p :: left ∧ parse (sent.flatMap publication) =
          .success ⟨ascii "pub", p.1, p.2⟩ (left.flatMap publication) := by
      cases sent with
      | nil => exact .inl ⟨rfl, rfl⟩
      | cons p left =>
        exact .inr ⟨p, left, rfl, parse_publication (hlines p List.mem_cons_self) _⟩
    rcases parse_stable buf.readable with hwait | herror | ⟨m, rest, hlen, hsuccess⟩
    · rw [hwait] at houtcome
      obtain ⟨m, hm⟩ := houtcome
      refine ⟨[], sent, buf, ?_, hwf, rfl, hstream, hwait⟩
      rw [messageLoop, hm]
      rfl
    · have hparse := herror future
      rw [hstream] at hparse
      rcases hall with ⟨hwait, -⟩ | ⟨p, left, -, hsuccess⟩
      · cases hparse.symm.trans hwait
      · cases hparse.symm.trans hsuccess
    · have hparse := hsuccess future
      have hself := hsuccess []
      rw [hstream] at hparse
      rw [List.append_nil, List.append_nil] at hself
      rw [hself] at houtcome
      obtain ⟨buf₁, hm, hwf₁, rfl⟩ := houtcome
      rcases hall with ⟨hwait, -⟩ | ⟨p, left, rfl, hfirst⟩
      · cases hparse.symm.trans hwait
      · obtain ⟨rfl, hrest⟩ := Parse.success.inj (hparse.symm.trans hfirst)
        obtain ⟨heard, left', buf', hloop, hwf', hsent, hleft, hwait⟩ :=
          ih (fun p hp => hlines p (List.mem_cons_of_mem _ hp)) hwf₁ (by omega) hrest
        refine ⟨p :: heard, left', buf', ?_, hwf', by rw [hsent, List.cons_append], hleft, hwait⟩
        rw [messageLoop, hm, ok_bind]
        dsimp only
        rw [hloop, ok_bind]
        dsimp only
        rw [if_pos rfl]
        rfl

/-- The chunks of a stream of publications, which may end within one. -/
theorem feed_spec {sent : List (Bytes × Bytes)} (hlines : ∀ p ∈ sent, Line p.1 ∧ Line p.2)
    (hwf : buf.Wf) (hwait : parse buf.readable = .wait) {chunks : List Bytes}
    (hstream : buf.readable ++ chunks.flatten ++ future = sent.flatMap publication) :
    ∃ heard left buf', feed buf chunks = .ok (heard, false, buf') ∧ sent = heard ++ left ∧
      buf'.readable ++ future = left.flatMap publication ∧ parse buf'.readable = .wait := by
  induction chunks generalizing buf sent with
  | nil =>
    rw [List.flatten_nil, List.append_nil] at hstream
    exact ⟨[], sent, buf, rfl, rfl, hstream, hwait⟩
  | cons chunk chunks ih =>
    obtain ⟨buf₁, happend, hwf₁, hread₁⟩ := hwf.append chunk
    have hstream₁ : buf₁.readable ++ (chunks.flatten ++ future) = sent.flatMap publication := by
      rw [hread₁, ← hstream, List.flatten_cons]
      simp only [List.append_assoc]
    obtain ⟨heard, left, buf₂, hloop, hwf₂, rfl, hleft, hwait₂⟩ := messageLoop_spec hlines hwf₁
      (show buf₁.readable.length < buf₁.readableBytes + 1 by rw [hwf₁.length_readable]; omega) hstream₁
    rw [← List.append_assoc] at hleft
    obtain ⟨heard', left', buf₃, hfeed, rfl, hleft', hwait₃⟩ :=
      ih (fun p hp => hlines p (List.mem_append_right _ hp)) hwf₂ hwait₂ hleft
    refine ⟨heard ++ heard', left', buf₃, ?_, (List.append_assoc ..).symm, hleft', hwait₃⟩
    rw [feed, happend, ok_bind, onMessage, hloop, ok_bind]
    dsimp only
    rw [hfeed]
    rfl

end PubSubClient

/-! ## The hub is a broker -/

namespace PubSubServer

open Reactor.Hub.System (asked)

variable {s s' : PubSubServer} {b : Broker Conn Bytes Bytes} {sent : List (Conn × Bytes)}

/-- The hub and a broker that has been asked the same. -/
structure Follows (s : PubSubServer) (b : Broker Conn Bytes Bytes) : Prop where
  inv : Inv s
  subscriptions : ∀ conn topic,
    (conn, topic) ∈ b.subscriptions ↔ s.Subscribed conn topic ∧ s.Connected conn
  retained : ∀ topic, b.retained topic = s.retained topic
  sendable : Sendable s
  retained_line : ∀ topic content, b.retained topic = some content → Line topic ∧ Line content
  heard : ∀ conn, s.sentTo conn = (b.heard conn).flatMap publication
  heard_line : ∀ conn, ∀ p ∈ b.heard conn, Line p.1 ∧ Line p.2

theorem sentTo_append (h : s'.sent = s.sent ++ sent) (conn : Conn) :
    s'.sentTo conn = s.sentTo conn ++ (sent.filter (·.1 = conn)).flatMap Prod.snd := by
  unfold sentTo
  rw [h, List.filter_append, List.flatMap_append]

/-- A step that sends nothing, with what it does to the subscriptions. -/
theorem Follows.quiet {b' : Broker Conn Bytes Bytes} (h : Follows s b) (hinv : Inv s') (hquiet : Quiet s s')
    (hsub : ∀ conn topic, (conn, topic) ∈ b'.subscriptions ↔ s'.Subscribed conn topic ∧ s'.Connected conn)
    (hretained : b'.retained = b.retained) (hheard : b'.heard = b.heard) : Follows s' b' := by
  refine ⟨hinv, hsub, fun topic => ?_, fun topic content hkept => ?_, ?_, fun conn => ?_, ?_⟩
  · rw [hretained, hquiet.retained]
    exact h.retained topic
  · rw [hquiet.retained] at hkept
    exact h.sendable topic content hkept
  · rw [hretained]
    exact h.retained_line
  · rw [hheard, ← h.heard, sentTo, hquiet.sent]
    rfl
  · rw [hheard]
    exact h.heard_line

theorem Follows.up (h : Follows s b) (hconn : s.context conn = none) :
    Follows (s.onConnectionUp conn) b := by
  have hdown : conn ∉ s.up := fun hup => by
    have hsome := h.inv.context conn hup
    rw [hconn] at hsome
    cases hsome
  refine h.quiet (h.inv.onConnectionUp hdown) ⟨rfl, fun _ => rfl⟩ (fun c u => ?_) rfl rfl
  rw [h.subscriptions, subscribed_update (show (s.onConnectionUp conn).context =
    Function.update s.context conn (some ∅) from rfl)]
  split_ifs with hc
  · subst hc
    exact ⟨fun hold => absurd hold.1 (h.inv.down c u hdown),
      fun hmem => absurd hmem.1 (OrdSet.notMem_empty _)⟩
  · have hconnected : (s.onConnectionUp conn).Connected c ↔ s.Connected c :=
      and_congr_left' (List.mem_cons.trans (or_iff_right hc))
    rw [hconnected]

theorem Follows.down (h : Follows s b) (hconn : conn ∈ s.up) :
    ∃ s', s.onConnectionDown conn = .ok s' ∧ Follows s' (b.apply (.leave conn)) := by
  obtain ⟨connSub, hconnSub⟩ := Option.isSome_iff_exists.1 (h.inv.context conn hconn)
  have hviews : Views { s with up := s.up.filter (· ≠ conn) } :=
    ⟨h.inv.views.named, h.inv.views.iff⟩
  obtain ⟨s', hs', hinv, hshut⟩ := h.inv.onConnectionDown hconn
  obtain ⟨s₁, hs₁, -, hup, -, -, hsub⟩ := hviews.unsubscribeAll hconnSub (Nat.lt_succ_self _)
  have hall : unsubscribeAll (connSub.size + 1) { s with up := s.up.filter (· ≠ conn) } conn connSub.first =
      .ok s' := by
    unfold onConnectionDown at hs'
    rw [connSub_eq hconnSub, ok_bind] at hs'
    exact hs'
  obtain rfl := Except.ok.inj (hs₁.symm.trans hall)
  refine ⟨s₁, hs', h.quiet hinv (quiet_onConnectionDown hs') (fun c u => ?_) rfl rfl⟩
  have hconnected : c ≠ conn → (s₁.Connected c ↔ s.Connected c) := fun hc => by
    unfold Connected
    rw [hup, hshut, List.mem_filter, decide_eq_true_iff]
    simp [hc]
  rw [hsub]
  show (c, u) ∈ b.subscriptions ∧ c ≠ conn ↔ (c ≠ conn ∧ s.Subscribed c u) ∧ s₁.Connected c
  rw [h.subscriptions, and_comm, and_assoc]
  exact and_congr_right fun hc => by rw [hconnected hc]

theorem Follows.shutdown (h : Follows s b) (conn : Conn) (r : ShutdownResult) :
    (∃ s', s.shutdown conn r = .ok s' ∧ Follows s' (b.apply (.leave conn))) ∨
      s.shutdown conn r = .error .shutdownWrite ∧ r ≠ .success := by
  by_cases hconn : s.Connected conn
  · by_cases hr : r = .success
    · refine .inl ⟨{ s with shutdowns := conn :: s.shutdowns }, ?_, ?_⟩
      · unfold PubSubServer.shutdown
        rw [if_pos hconn, check_of hr]
        rfl
      · refine h.quiet (h.inv.of_eq rfl rfl rfl) ⟨rfl, fun _ => rfl⟩ (fun c u => ?_) rfl rfl
        show (c, u) ∈ b.subscriptions ∧ c ≠ conn ↔ s.Subscribed c u ∧ c ∈ s.up ∧ c ∉ conn :: s.shutdowns
        rw [h.subscriptions, List.mem_cons, not_or]
        unfold Connected
        tauto
    · refine .inr ⟨?_, hr⟩
      unfold PubSubServer.shutdown
      rw [if_pos hconn, check, if_neg hr]
      rfl
  · refine .inl ⟨s, if_neg hconn, h.quiet h.inv ⟨rfl, fun _ => rfl⟩ (fun c u => ?_) rfl rfl⟩
    show (c, u) ∈ b.subscriptions ∧ c ≠ conn ↔ _
    rw [h.subscriptions]
    refine and_iff_left_of_imp fun hboth hc => hconn ?_
    rw [← hc]
    exact hboth.2

/-- The subscribers of a topic that a publication reaches. -/
theorem Follows.mem_audience (h : Follows s b) (conn : Conn) (topic : Bytes) :
    conn ∈ (s.audience topic).toList.filter (fun conn => s.Connected conn) ↔
      (conn, topic) ∈ b.subscriptions := by
  rw [List.mem_filter, decide_eq_true_iff, h.subscriptions, ← h.inv.views.iff]
  rfl

theorem Follows.publish (h : Follows s b) (htopic : Line topic) (hcontent : Line content)
    (hplain : Plain topic content) {time : ℤ} (htime : 0 < time) :
    ∃ s', s.doPublish topic content time = .ok s' ∧ s'.up = s.up ∧ s'.shutdowns = s.shutdowns ∧
      Follows s' (b.apply (.publish topic content)) := by
  refine ⟨_, h.inv.views.doPublish_eq hplain time, rfl, rfl,
    (h.inv.setTopic topic content time).of_eq rfl rfl rfl, h.subscriptions, fun u => ?_,
    h.sendable.publish hplain time, fun u c hu => ?_, fun conn => ?_, fun conn p hp => ?_⟩
  · refine Eq.trans ?_ (retained_publish (s := s) u).symm
    show Function.update b.retained topic (some content) u = _
    by_cases hu : u = topic
    · rw [if_pos hu, hu, Function.update_self, if_pos htime]
    · rw [if_neg hu, Function.update_of_ne hu]
      exact h.retained u
  · have hlast : Function.update b.retained topic (some content) u = some c := hu
    by_cases heq : u = topic
    · rw [heq, Function.update_self] at hlast
      obtain rfl := Option.some.inj hlast
      rw [heq]
      exact ⟨htopic, hcontent⟩
    · rw [Function.update_of_ne heq] at hlast
      exact h.retained_line u c hlast
  · set reached := (s.audience topic).toList.filter fun conn => s.Connected conn with hreached
    have hcopies : ((reached.map (·, message topic content)).filter (·.1 = conn)).flatMap Prod.snd =
        (List.replicate (reached.count conn) conn).flatMap fun _ => publication (topic, content) := by
      rw [List.filter_map, List.flatMap_map, ← List.filter_eq]
      rfl
    have hmem : conn ∈ reached ↔ (conn, topic) ∈ b.subscriptions := h.mem_audience conn topic
    rw [sentTo_append rfl, hcopies, h.heard]
    by_cases hin : conn ∈ reached
    · rw [List.count_eq_one_of_mem ((s.audience topic).nodup.filter _) hin,
        Broker.heard_publish (hmem.1 hin), List.flatMap_append]
      rfl
    · rw [List.count_eq_zero.2 hin, Broker.heard_publish_of_notMem (fun hsub => hin (hmem.2 hsub))]
      exact List.append_nil _
  · by_cases hsub : (conn, topic) ∈ b.subscriptions
    · rw [Broker.heard_publish hsub] at hp
      rcases List.mem_append.1 hp with hp | hp
      · exact h.heard_line conn p hp
      · rw [List.mem_singleton.1 hp]
        exact ⟨htopic, hcontent⟩
    · rw [Broker.heard_publish_of_notMem hsub] at hp
      exact h.heard_line conn p hp

/-- A subscription is answered with the publication that is kept. -/
theorem Follows.subscribe (h : Follows s b) (hconn : s.Connected conn) (topic : Bytes) :
    ∃ s', s.doSubscribe conn topic = .ok s' ∧ s'.up = s.up ∧ s'.shutdowns = s.shutdowns ∧
      Follows s' (b.apply (.subscribe conn topic)) := by
  obtain ⟨connSub, hconnSub⟩ := Option.isSome_iff_exists.1 (h.inv.context conn hconn.1)
  have hs' := h.inv.views.doSubscribe_eq h.sendable hconnSub topic
  rw [if_pos hconn] at hs'
  have hheard : (b.apply (.subscribe conn topic)).heard = Function.update b.heard conn
      (b.heard conn ++ (b.retained topic).toList.map (topic, ·)) := rfl
  refine ⟨_, hs', rfl, rfl, (h.inv.doSubscribe hconn.1 hs').1, fun c u => ?_, fun u => ?_,
    fun u content hu => ?_, h.retained_line, fun c => ?_, fun c p hp => ?_⟩
  · refine Iff.trans ?_ (and_congr_left' (subscribed_subscribed hconnSub topic c u).symm)
    show (c, u) = (conn, topic) ∨ (c, u) ∈ b.subscriptions ↔ _ ∧ s.Connected c
    rw [Prod.mk.injEq, h.subscriptions, or_and_right]
    refine or_congr_left ⟨fun heq => ⟨heq, ?_⟩, And.left⟩
    rw [heq.1]
    exact hconn
  · exact (h.retained u).trans (retained_subscribed s conn topic connSub u).symm
  · refine h.sendable u content ?_
    rw [← hu]
    exact (retained_subscribed s conn topic connSub u).symm
  · rw [sentTo_append rfl, h.heard, hheard, ← h.retained]
    by_cases hc : c = conn
    · rw [hc, Function.update_self, List.flatMap_append]
      cases b.retained topic with
      | none => rfl
      | some content => simp [message, publication]
    · rw [Function.update_of_ne hc]
      cases b.retained topic with
      | none => exact List.append_nil _
      | some content => simp [Ne.symm hc]
  · rw [hheard] at hp
    by_cases hc : c = conn
    · rw [hc, Function.update_self] at hp
      rcases List.mem_append.1 hp with hp | hp
      · exact h.heard_line conn p hp
      · obtain ⟨content, hcontent, rfl⟩ := List.mem_map.1 hp
        exact h.retained_line topic content (Option.mem_toList.1 hcontent)
    · rw [Function.update_of_ne hc] at hp
      exact h.heard_line c p hp

theorem Follows.unsubscribe (h : Follows s b) (hconn : s.Connected conn) (topic : Bytes) :
    ∃ s', s.doUnsubscribe conn topic = .ok s' ∧ s'.up = s.up ∧ s'.shutdowns = s.shutdowns ∧
      Follows s' (b.apply (.unsubscribe conn topic)) := by
  obtain ⟨connSub, hconnSub⟩ := Option.isSome_iff_exists.1 (h.inv.context conn hconn.1)
  obtain ⟨s', hs', hinv, hup, hshut⟩ := h.inv.doUnsubscribe hconn.1 topic
  obtain ⟨s₁, hs₁, -, -, -, -, hsub⟩ := h.inv.views.doUnsubscribe hconnSub topic
  obtain rfl := Except.ok.inj (hs₁.symm.trans hs')
  refine ⟨s₁, hs', hup, hshut, h.quiet hinv (quiet_doUnsubscribe hs') (fun c u => ?_) rfl rfl⟩
  show (c, u) ∈ b.subscriptions ∧ ¬ (c, u) = (conn, topic) ↔ _
  unfold Connected
  rw [hsub, hup, hshut, h.subscriptions, Prod.mk.injEq, and_comm, and_assoc]
  rfl

/-- Nothing is sent to a connection that was shut down, whatever it subscribes to. -/
theorem Follows.subscribe_of_not_connected (h : Follows s b) (hup : conn ∈ s.up)
    (hconn : ¬ s.Connected conn) (topic : Bytes) :
    ∃ s', s.doSubscribe conn topic = .ok s' ∧ s'.up = s.up ∧ s'.shutdowns = s.shutdowns ∧ Follows s' b := by
  obtain ⟨connSub, hconnSub⟩ := Option.isSome_iff_exists.1 (h.inv.context conn hup)
  have hs' := h.inv.views.doSubscribe_eq h.sendable hconnSub topic
  rw [if_neg hconn] at hs'
  refine ⟨_, hs', rfl, rfl, h.quiet (h.inv.doSubscribe hup hs').1
    ⟨List.append_nil _, retained_subscribed s conn topic connSub⟩ (fun c u => ?_) rfl rfl⟩
  refine Iff.trans ?_ (and_congr_left' (subscribed_subscribed hconnSub topic c u).symm)
  show _ ↔ _ ∧ s.Connected c
  rw [h.subscriptions]
  refine and_congr_left fun hc => (or_iff_right ?_).symm
  rintro ⟨rfl, -⟩
  exact hconn hc

theorem Follows.unsubscribe_of_not_connected (h : Follows s b) (hup : conn ∈ s.up)
    (hconn : ¬ s.Connected conn) (topic : Bytes) :
    ∃ s', s.doUnsubscribe conn topic = .ok s' ∧ s'.up = s.up ∧ s'.shutdowns = s.shutdowns ∧
      Follows s' b := by
  obtain ⟨connSub, hconnSub⟩ := Option.isSome_iff_exists.1 (h.inv.context conn hup)
  obtain ⟨s', hs', hinv, hup', hshut⟩ := h.inv.doUnsubscribe hup topic
  obtain ⟨s₁, hs₁, -, -, -, -, hsub⟩ := h.inv.views.doUnsubscribe hconnSub topic
  obtain rfl := Except.ok.inj (hs₁.symm.trans hs')
  refine ⟨s₁, hs', hup', hshut, h.quiet hinv (quiet_doUnsubscribe hs') (fun c u => ?_) rfl rfl⟩
  have hsame : s₁.Connected c ↔ s.Connected c := by
    unfold Connected
    rw [hup', hshut]
  rw [hsub, hsame, h.subscriptions]
  refine and_congr_left fun hc => (and_iff_right ?_).symm
  rintro ⟨rfl, -⟩
  exact hconn hc

theorem Follows.command (h : Follows s b) (hconn : conn ∈ s.up) (hknown : Known m.cmd)
    (hline : Line m.topic ∧ Line m.content) (hplain : ∀ op ∈ asked s conn m, System.PlainOp op)
    {receiveTime : ℤ} (htime : 0 < receiveTime) (r : ShutdownResult) :
    ∃ s', machine.step s (.command conn m receiveTime r) = .ok s' ∧ s'.up = s.up ∧
      s'.shutdowns = s.shutdowns ∧ Follows s' (b.run (asked s conn m)) := by
  suffices hcommand : ∃ s', s.onCommand conn m receiveTime r = .ok (true, s') ∧ s'.up = s.up ∧
      s'.shutdowns = s.shutdowns ∧ Follows s' (b.run (asked s conn m)) by
    obtain ⟨s', hs', hrest⟩ := hcommand
    refine ⟨s', ?_, hrest⟩
    show (s.onCommand conn m receiveTime r >>= fun r => .ok r.2) = _
    rw [hs', ok_bind]
  unfold onCommand
  unfold asked at hplain ⊢
  by_cases hpub : m.cmd = ascii "pub"
  · rw [if_pos hpub] at hplain ⊢
    rw [if_pos hpub]
    obtain ⟨s', hs', hrest⟩ :=
      h.publish hline.1 hline.2 (hplain _ (List.mem_singleton_self _)) htime
    rw [hs']
    exact ⟨s', rfl, hrest⟩
  rw [if_neg hpub, if_neg hpub]
  by_cases hsubscribe : m.cmd = ascii "sub"
  · rw [if_pos hsubscribe, if_pos hsubscribe]
    by_cases hconnected : s.Connected conn
    · obtain ⟨s', hs', hrest⟩ := h.subscribe hconnected m.topic
      rw [hs', if_pos hconnected]
      exact ⟨s', rfl, hrest⟩
    · obtain ⟨s', hs', hrest⟩ := h.subscribe_of_not_connected hconn hconnected m.topic
      rw [hs', if_neg hconnected]
      exact ⟨s', rfl, hrest⟩
  rw [if_neg hsubscribe, if_neg hsubscribe]
  have hunsubscribe : m.cmd = ascii "unsub" := (hknown.resolve_left hpub).resolve_left hsubscribe
  rw [if_pos hunsubscribe, if_pos hunsubscribe]
  by_cases hconnected : s.Connected conn
  · obtain ⟨s', hs', hrest⟩ := h.unsubscribe hconnected m.topic
    rw [hs', if_pos hconnected]
    exact ⟨s', rfl, hrest⟩
  · obtain ⟨s', hs', hrest⟩ := h.unsubscribe_of_not_connected hconn hconnected m.topic
    rw [hs', if_neg hconnected]
    exact ⟨s', rfl, hrest⟩

theorem asked_congr (hup : s'.up = s.up) (hshut : s'.shutdowns = s.shutdowns) (conn : Conn) :
    asked s' conn = asked s conn := by
  have hconn : s'.Connected conn ↔ s.Connected conn := by
    unfold Connected
    rw [hup, hshut]
  funext m
  simp only [asked, hconn]

/-- The commands of one call of `onMessage`. -/
theorem Follows.commands (h : Follows s b) (hconn : conn ∈ s.up) (ms : List Message)
    (hknown : ∀ m ∈ ms, Known m.cmd) (hlines : ∀ m ∈ ms, Line m.topic ∧ Line m.content)
    (hplain : ∀ op ∈ ms.flatMap (asked s conn), System.PlainOp op)
    {receiveTime : ℤ} (htime : 0 < receiveTime) (r : ShutdownResult) :
    ∃ s', machine.run s (ms.map (.command conn · receiveTime r)) = .ok s' ∧
      Follows s' (b.run (ms.flatMap (asked s conn))) := by
  induction ms generalizing s b with
  | nil => exact ⟨s, rfl, h⟩
  | cons m ms ih =>
    rw [List.flatMap_cons] at hplain
    obtain ⟨s₁, hs₁, hup₁, hshut₁, h₁⟩ := h.command hconn (hknown m List.mem_cons_self)
      (hlines m List.mem_cons_self) (fun op hop => hplain op (List.mem_append_left _ hop)) htime r
    have hasked := asked_congr hup₁ hshut₁ conn
    obtain ⟨s', hs', h'⟩ := ih h₁ (by rw [hup₁]; exact hconn)
      (fun m hm => hknown m (List.mem_cons_of_mem _ hm)) (fun m hm => hlines m (List.mem_cons_of_mem _ hm))
      (fun op hop => hplain op (List.mem_append_right _ (by rw [← hasked]; exact hop)))
    refine ⟨s', ?_, ?_⟩
    · rw [List.map_cons, Machine.run_cons_ok hs₁]
      exact hs'
    · rw [hasked] at h'
      rw [List.flatMap_cons, Broker.run_append]
      exact h'

end PubSubServer

/-! ## Runs of the system -/

/-- The messages that the loop parses fit into lines. -/
theorem line_of_receiveLoop {fuel : ℕ} {ms : List Message} {error : Bool} {buf' : Buffer} (hwf : buf.Wf)
    (h : receiveLoop fuel buf = .ok (ms, error, buf')) :
    buf'.Wf ∧ ∀ m ∈ ms, Line m.topic ∧ Line m.content := by
  induction fuel generalizing buf ms error with
  | zero => cases h
  | succ fuel ih =>
    rcases receiveLoop_succ hwf with ⟨-, hloop⟩ | ⟨-, hloop⟩ | ⟨m, buf₁, hwf₁, -, hsuccess, hloop⟩
    · rw [hloop] at h
      simp only [Except.ok.injEq, Prod.mk.injEq] at h
      obtain ⟨rfl, -, rfl⟩ := h
      exact ⟨hwf, fun m hm => absurd hm List.not_mem_nil⟩
    · rw [hloop] at h
      simp only [Except.ok.injEq, Prod.mk.injEq] at h
      obtain ⟨rfl, -, rfl⟩ := h
      exact ⟨hwf, fun m hm => absurd hm List.not_mem_nil⟩
    · have hline : Line m.topic ∧ Line m.content := line_of_parse (hsuccess [])
      rw [hloop] at h
      split_ifs at h
      · obtain ⟨⟨ms', error', buf₂⟩, hrest, h⟩ := bind_eq_ok.1 h
        simp only [pure, Except.pure, Except.ok.injEq, Prod.mk.injEq] at h
        obtain ⟨rfl, rfl, rfl⟩ := h
        obtain ⟨hwf', hlines⟩ := ih hwf₁ hrest
        refine ⟨hwf', fun m' hm' => ?_⟩
        rcases List.mem_cons.1 hm' with rfl | hm'
        · exact hline
        · exact hlines m' hm'
      · simp only [pure, Except.pure, Except.ok.injEq, Prod.mk.injEq] at h
        obtain ⟨rfl, -, rfl⟩ := h
        exact ⟨hwf₁, fun m' hm' => by rw [List.mem_singleton.1 hm']; exact hline⟩

namespace System

open PubSubServer (Follows)

variable {s s' : System} {b : Broker Conn Bytes Bytes}

/-- The hub follows the broker, and the buffers are as they should be. -/
structure Agrees (s : System) (b : Broker Conn Bytes Bytes) : Prop where
  follows : Follows s.hub b
  input : ∀ conn, (s.input conn).Wf

theorem agrees_new : Agrees .new .empty := by
  refine ⟨⟨PubSubServer.inv_new, fun conn topic => ?_, fun _ => rfl, fun _ _ h => (by cases h),
    fun _ _ h => (by cases h), fun _ => rfl, fun _ _ h => (by cases h)⟩, fun _ => Buffer.wf_empty⟩
  refine ⟨fun h => h.elim, ?_⟩
  rintro ⟨⟨connSub, hcontext, -⟩, -⟩
  cases hcontext

/-- A command that is not known asks nothing. -/
theorem flatMap_asked (hub : PubSubServer) (conn : Conn) (ms : List Message) :
    (ms.filter fun m => Known m.cmd).flatMap (asked hub conn) = ms.flatMap (asked hub conn) := by
  induction ms with
  | nil => rfl
  | cons m ms ih =>
    rw [List.flatMap_cons, ← ih]
    by_cases hknown : Known m.cmd
    · rw [List.filter_cons_of_pos (by simpa using hknown), List.flatMap_cons]
    · have hnothing : asked hub conn m = [] := by
        simp only [Known, not_or] at hknown
        simp [asked, hknown]
      rw [List.filter_cons_of_neg (by simpa using hknown), hnothing, List.nil_append]

/-- What is read is handled, or the connection is to be shut down and cannot be. -/
theorem Agrees.read (h : Agrees s b) {chunk : Bytes} {receiveTime : ℤ} {r : ShutdownResult}
    (hconn : conn ∈ s.hub.up) (htime : 0 < receiveTime) (hplain : s.Plain (.read conn chunk receiveTime r)) :
    (∃ s', s.step (.read conn chunk receiveTime r) = .ok s' ∧
      Agrees s' (b.run (s.asks (.read conn chunk receiveTime r)))) ∨
    s.step (.read conn chunk receiveTime r) = .error .shutdownWrite ∧ r ≠ .success := by
  obtain ⟨buf, happend, hwf, -⟩ := (h.input conn).append chunk
  obtain ⟨ms, error, buf', hloop, hwf'⟩ := receiveLoop_total hwf
    (show buf.readable.length < buf.readableBytes + 1 by rw [hwf.length_readable]; omega)
  obtain ⟨-, hlines⟩ := line_of_receiveLoop hwf hloop
  have hasks : s.asks (.read conn chunk receiveTime r) =
      ms.flatMap (asked s.hub conn) ++ if error then [.leave conn] else [] := by
    unfold asks
    dsimp only
    rw [happend, ok_bind, hloop]
  unfold Plain at hplain
  rw [hasks] at hplain ⊢
  obtain ⟨hub₁, hrun, hfollows⟩ := h.follows.commands hconn (ms.filter fun m => Known m.cmd)
    (fun m hm => of_decide_eq_true (List.mem_filter.1 hm).2)
    (fun m hm => hlines m (List.mem_filter.1 hm).1)
    (by rw [flatMap_asked]; exact fun op hop => hplain op (List.mem_append_left _ hop)) htime r
  rw [flatMap_asked] at hfollows
  have hstep : s.step (.read conn chunk receiveTime r) = do
      let hub ← if error then hub₁.shutdown conn r else .ok hub₁
      return ⟨hub, Function.update s.input conn buf'⟩ := by
    unfold System.step
    dsimp only
    rw [happend, ok_bind, PubSubServer.onMessage, messageLoop_runs_commands hloop]
    dsimp only
    rw [hrun, ok_bind]
    cases error with
    | false => rfl
    | true => cases hub₁.shutdown conn r <;> rfl
  have hinput : ∀ c, (Function.update s.input conn buf' c).Wf := by
    intro c
    by_cases hc : c = conn
    · rw [hc, Function.update_self]
      exact hwf'
    · rw [Function.update_of_ne hc]
      exact h.input c
  rw [hstep, Broker.run_append]
  cases error with
  | false => exact .inl ⟨_, rfl, hfollows, hinput⟩
  | true =>
    rcases hfollows.shutdown conn r with ⟨hub₂, hshut, hleft⟩ | ⟨hshut, hr⟩
    · refine .inl ⟨⟨hub₂, Function.update s.input conn buf'⟩, ?_, hleft, hinput⟩
      rw [if_pos rfl, hshut]
      rfl
    · refine .inr ⟨?_, hr⟩
      rw [if_pos rfl, hshut]
      rfl

theorem Agrees.step (h : Agrees s b) {e : Event} (hE : Env s e) (hplain : s.Plain e) :
    (∃ s', s.step e = .ok s' ∧ Agrees s' (b.run (s.asks e))) ∨
      s.step e = .error .shutdownWrite ∧ ¬ e.Succeeds := by
  cases e with
  | up conn => exact .inl ⟨_, rfl, h.follows.up hE, h.input⟩
  | down conn =>
    obtain ⟨hub, hhub, hfollows⟩ := h.follows.down hE
    refine .inl ⟨{ s with hub := hub }, ?_, hfollows, h.input⟩
    unfold System.step
    dsimp only
    rw [hhub]
    rfl
  | read conn chunk receiveTime r => exact h.read hE.1 hE.2 hplain
  | timePublish now formatted =>
    have htopic : Line (ascii "utc_time") := Buffer.searchCRLF_of_notMem (by decide)
    obtain ⟨hub, hhub, -, -, hfollows⟩ := h.follows.publish htopic (Buffer.searchCRLF_of_notMem hE.2)
      (hplain _ (List.mem_singleton_self _)) hE.1
    refine .inl ⟨{ s with hub := hub }, ?_, hfollows, h.input⟩
    unfold System.step PubSubServer.timePublish
    dsimp only
    rw [hhub]
    rfl

theorem operations_cons {e : Event} (h : s.step e = .ok s') (es : List Event) :
    s.operations (e :: es) = s.asks e ++ s'.operations es := by
  rw [operations, h]

/-- The hub follows the broker along every run, up to a `shutdown(2)` that fails. -/
theorem Agrees.run (h : Agrees s b) {es : List Event} (hE : machine.Along Env s es)
    (hplain : machine.Along Plain s es) :
    (∃ s', machine.run s es = .ok s' ∧ Agrees s' (b.run (s.operations es))) ∨
      machine.run s es = .error .shutdownWrite ∧ ∃ e ∈ es, ¬ e.Succeeds := by
  induction es generalizing s b with
  | nil => exact .inl ⟨s, rfl, h⟩
  | cons e es ih =>
    rcases h.step hE.1 hplain.1 with ⟨s₁, hs₁, h₁⟩ | ⟨hs₁, hfails⟩
    · rw [operations_cons hs₁, Broker.run_append, Machine.run_cons_ok (M := machine) hs₁]
      refine (ih h₁ (hE.2 s₁ hs₁) (hplain.2 s₁ hs₁)).imp_right ?_
      rintro ⟨hfault, e', he', hfails⟩
      exact ⟨hfault, e', List.mem_cons_of_mem _ he', hfails⟩
    · exact .inr ⟨Machine.run_cons_error (M := machine) hs₁ es, e, List.mem_cons_self, hfails⟩

/-- What a client makes of what was sent, if it gets a part of it. -/
theorem feed_heard {heard : List (Bytes × Bytes)} (hlines : ∀ p ∈ heard, Line p.1 ∧ Line p.2)
    {chunks : List Bytes} (hchunks : chunks.flatten <+: heard.flatMap publication) :
    ∃ got buf, PubSubClient.feed Buffer.empty chunks = .ok (got, false, buf) ∧ got <+: heard ∧
      (chunks.flatten = heard.flatMap publication → got = heard) := by
  obtain ⟨future, hfuture⟩ := hchunks
  have hstream : Buffer.empty.readable ++ chunks.flatten ++ future = heard.flatMap publication := by
    rw [Buffer.readable_empty, List.nil_append]
    exact hfuture
  have hwait : parse Buffer.empty.readable = .wait := by
    rw [Buffer.readable_empty]
    rfl
  obtain ⟨got, left, buf, hfeed, rfl, hleft, hwait'⟩ :=
    PubSubClient.feed_spec hlines Buffer.wf_empty hwait hstream
  refine ⟨got, buf, hfeed, List.prefix_append got left, fun hall => ?_⟩
  rw [hall] at hfuture
  have hnil : future = [] := List.append_right_eq_self.1 hfuture
  rw [hnil, List.append_nil] at hleft
  cases left with
  | nil => rw [List.append_nil]
  | cons p left =>
    have hp := hlines p (List.mem_append_right got List.mem_cons_self)
    rw [hleft, List.flatMap_cons, parse_publication hp] at hwait'
    cases hwait'

/-- The hub is a broker: nothing but a `shutdown(2)` that fails makes a step fail, and every client, from
whatever part of its bytes in whatever chunks, hears what the broker lets it hear, as far as the bytes
go. -/
theorem hub_refines_broker (es : List Event) (hE : machine.Along Env .new es)
    (hplain : machine.Along Plain .new es) :
    (∀ f, machine.run .new es = .error f → f = .shutdownWrite ∧ ∃ e ∈ es, ¬ e.Succeeds) ∧
      ∀ s, machine.run .new es = .ok s → ∀ conn chunks, chunks.flatten <+: s.hub.sentTo conn →
        ∃ got buf, PubSubClient.feed Buffer.empty chunks = .ok (got, false, buf) ∧
          got <+: (Broker.empty.run (new.operations es)).heard conn ∧
          (chunks.flatten = s.hub.sentTo conn →
            got = (Broker.empty.run (new.operations es)).heard conn) := by
  rcases agrees_new.run hE hplain with ⟨s, hs, hagrees⟩ | ⟨hfault, hfails⟩
  · refine ⟨fun f hf => (by cases hs.symm.trans hf), fun s' hs' conn chunks hchunks => ?_⟩
    obtain rfl := Except.ok.inj (hs.symm.trans hs')
    rw [hagrees.follows.heard conn] at hchunks ⊢
    exact feed_heard (hagrees.follows.heard_line conn) hchunks
  · refine ⟨fun f hf => ⟨Except.error.inj (hf.symm.trans hfault), hfails⟩, fun s hs => ?_⟩
    cases hfault.symm.trans hs

/-- A connection that subscribes between two publications; the commands come in pieces, and the last
line of the other connection is not understood. -/
def firstEvents : List Event :=
  [.up 1, .read 1 (ascii "pub a\r\nx\r\nsu") 5 .success, .up 2, .read 2 (ascii "sub a\r\n") 6 .success]

def laterEvents : List Event :=
  [.read 1 (ascii "b b\r\npub a\r") 7 .success, .timePublish 8 (ascii "now"),
    .read 1 (ascii "\ny\r\nbye\r\n") 9 .success, .down 1]

theorem hub_refines_broker_sample :
    ∃ s, machine.run .new (firstEvents ++ laterEvents) = .ok s ∧
      s.hub.sentTo 2 = ascii "pub a\r\nx\r\npub a\r\ny\r\n" ∧
      ∀ chunks : List Bytes, chunks.flatten = ascii "pub a\r\nx\r\npub a\r\ny\r\n" →
        ∃ buf, PubSubClient.feed Buffer.empty chunks =
          .ok ((Broker.empty.run (new.operations (firstEvents ++ laterEvents))).heard 2, false, buf) := by
  obtain ⟨-, hall⟩ :=
    hub_refines_broker (firstEvents ++ laterEvents) (by decide +kernel) (by decide +kernel)
  have hsent : (machine.run .new (firstEvents ++ laterEvents)).toOption.map (fun s => s.hub.sentTo 2) =
      some (ascii "pub a\r\nx\r\npub a\r\ny\r\n") := by
    decide +kernel
  cases hs : machine.run .new (firstEvents ++ laterEvents) with
  | error f =>
    rw [hs] at hsent
    cases hsent
  | ok s =>
    rw [hs] at hsent
    have htext : s.hub.sentTo 2 = ascii "pub a\r\nx\r\npub a\r\ny\r\n" := Option.some.inj hsent
    refine ⟨s, rfl, htext, fun chunks hchunks => ?_⟩
    rw [← htext] at hchunks
    obtain ⟨got, buf, hfeed, -, hheard⟩ := hall s hs 2 chunks ⟨[], by rw [List.append_nil, hchunks]⟩
    rw [hheard hchunks] at hfeed
    exact ⟨buf, hfeed⟩

/-- As long as a connection is connected and its subscription stands, its client hears all publications
on the topic, once and in order. -/
theorem subscriber_misses_nothing (es es' : List Event) (hE : machine.Along Env .new (es ++ es'))
    (hplain : machine.Along Plain .new (es ++ es')) (s s' : System) (hs : machine.run .new es = .ok s)
    (hs' : machine.run s es' = .ok s') (conn : Conn) (topic : Bytes)
    (hsub : s.hub.Subscribed conn topic) (hconn : s.hub.Connected conn)
    (hspares : ∀ op ∈ s.operations es', op.Spares conn topic) :
    ∃ bytes, s'.hub.sentTo conn = s.hub.sentTo conn ++ bytes ∧
      ∀ chunks : List Bytes, chunks.flatten = bytes →
        ∃ got buf, PubSubClient.feed Buffer.empty chunks = .ok (got, false, buf) ∧
          got.filterMap (Broker.on topic) = (s.operations es').filterMap (Broker.Op.published topic) := by
  obtain ⟨hE₁, hE₂⟩ := Machine.along_append.1 hE
  obtain ⟨hplain₁, hplain₂⟩ := Machine.along_append.1 hplain
  have hagrees : Agrees s (Broker.empty.run (new.operations es)) := by
    rcases agrees_new.run hE₁ hplain₁ with ⟨t, ht, hagrees⟩ | ⟨hfault, -⟩
    · obtain rfl := Except.ok.inj (hs.symm.trans ht)
      exact hagrees
    · cases hfault.symm.trans hs
  have hagrees' : Agrees s' ((Broker.empty.run (new.operations es)).run (s.operations es')) := by
    rcases hagrees.run (hE₂ s hs) (hplain₂ s hs) with ⟨t, ht, hagrees'⟩ | ⟨hfault, -⟩
    · obtain rfl := Except.ok.inj (hs'.symm.trans ht)
      exact hagrees'
    · cases hfault.symm.trans hs'
  obtain ⟨told, htold, hon⟩ := Broker.heard_run_follows
    ((hagrees.follows.subscriptions conn topic).2 ⟨hsub, hconn⟩) hspares
  refine ⟨told.flatMap publication, ?_, fun chunks hchunks => ?_⟩
  · rw [hagrees'.follows.heard, htold, List.flatMap_append, hagrees.follows.heard]
  · have hlines : ∀ p ∈ told, Line p.1 ∧ Line p.2 := fun p hp =>
      hagrees'.follows.heard_line conn p (by rw [htold]; exact List.mem_append_right _ hp)
    obtain ⟨got, buf, hfeed, -, hall⟩ := feed_heard hlines ⟨[], by rw [List.append_nil, hchunks]⟩
    rw [hall hchunks] at hfeed
    exact ⟨told, buf, hfeed, hon⟩

theorem subscriber_misses_nothing_sample :
    ∃ s s', machine.run .new firstEvents = .ok s ∧ machine.run s laterEvents = .ok s' ∧
      ∃ bytes, s'.hub.sentTo 2 = s.hub.sentTo 2 ++ bytes ∧
        ∀ chunks : List Bytes, chunks.flatten = bytes →
          ∃ got buf, PubSubClient.feed Buffer.empty chunks = .ok (got, false, buf) ∧
            got.filterMap (Broker.on (ascii "a")) = [ascii "y"] := by
  have hstate : (machine.run .new firstEvents).toOption.any fun s =>
      (machine.run s laterEvents).toOption.isSome ∧ s.hub.Connected 2 ∧
        ((s.hub.context 2).any fun connSub => decide (⟨ascii "a"⟩ ∈ connSub)) ∧
        s.operations laterEvents = [.subscribe 1 (ascii "b"),
          .publish (ascii "utc_time") (ascii "now"), .publish (ascii "a") (ascii "y"), .leave 1,
          .leave 1] := by
    decide +kernel
  cases hs : machine.run .new firstEvents with
  | error f =>
    rw [hs] at hstate
    cases hstate
  | ok s =>
    rw [hs] at hstate
    obtain ⟨hok, hconn, hcontext, hlater⟩ := of_decide_eq_true hstate
    obtain ⟨connSub, hconnSub, hmem⟩ := (Option.any_eq_true _ _).1 hcontext
    cases hs' : machine.run s laterEvents with
    | error f =>
      rw [hs'] at hok
      cases hok
    | ok s' =>
      have hspares : ∀ op ∈ s.operations laterEvents, op.Spares 2 (ascii "a") := by
        rw [hlater]
        decide +kernel
      obtain ⟨bytes, hbytes, hfeed⟩ := subscriber_misses_nothing firstEvents laterEvents
        (by decide +kernel) (by decide +kernel) s s' hs hs' 2 (ascii "a")
        ⟨connSub, hconnSub, of_decide_eq_true hmem⟩ hconn hspares
      refine ⟨s, s', rfl, hs', bytes, hbytes, fun chunks hchunks => ?_⟩
      obtain ⟨got, buf, hgot, hon⟩ := hfeed chunks hchunks
      rw [hlater] at hon
      exact ⟨got, buf, hgot, hon.trans (by decide +kernel)⟩

end System

end Hub

end Reactor
