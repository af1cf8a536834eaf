import Reactor.Hub

/-!
# Subscriptions are kept twice

Who is in the audience of a topic and which topics a connection has subscribed to are two views of one
relation, `Subscribed`.  The two are changed by separate statements, and a connection that goes down
erases its topics while it iterates over them.

* `subscriptions_consistent`: along every run the two views agree and a connection that is down has no
  subscription.  Each publication is sent once to each subscriber exactly in the runs where none that
  has a subscriber has a NUL byte: what is behind it is not sent.
-/

namespace Reactor

namespace Hub

/-- The commands that `onMessage` knows. -/
def Known (cmd : Bytes) : Prop := cmd = ascii "pub" ∨ cmd = ascii "sub" ∨ cmd = ascii "unsub"

instance (cmd : Bytes) : Decidable (Known cmd) := inferInstanceAs (Decidable (_ ∨ _ ∨ _))

namespace PubSubServer

/-- The audience of a topic, empty if the topic was never named. -/
def audience (s : PubSubServer) (topic : Bytes) : OrdSet Conn := (s.getTopic topic).audiences

/-- The topic is in the context of the connection. -/
def Subscribed (s : PubSubServer) (conn : Conn) (topic : Bytes) : Prop :=
  ∃ connSub, s.context conn = some connSub ∧ ⟨topic⟩ ∈ connSub

/-! ## The machine -/

inductive Event where
  | up (conn : Conn)
  | down (conn : Conn)
  -- a message of the connection was parsed
  | command (conn : Conn) (m : Message) (receiveTime : ℤ) (r : ShutdownResult)
  | timePublish (now : ℤ) (formatted : Bytes)
  deriving DecidableEq, Repr

def step (s : PubSubServer) : Event → Except Fault PubSubServer
  | .up conn => return s.onConnectionUp conn
  | .down conn => s.onConnectionDown conn
  | .command conn m receiveTime r => do
    let (_, s) ← s.onCommand conn m receiveTime r
    return s
  | .timePublish now formatted => s.timePublish now formatted

def machine : Machine PubSubServer Event Fault := ⟨step⟩

/-- A connection comes up when it is not up, and is up when it sends a command or goes down. -/
def Env (s : PubSubServer) : Event → Prop
  | .up conn => conn ∉ s.up
  | .down conn => conn ∈ s.up
  | .command conn m _ _ => conn ∈ s.up ∧ Known m.cmd
  | .timePublish _ _ => True

instance (s : PubSubServer) : ∀ e, Decidable (Env s e)
  | .up _ => inferInstanceAs (Decidable (¬ _))
  | .down _ => inferInstanceAs (Decidable (_ ∈ _))
  | .command _ _ _ _ => inferInstanceAs (Decidable (_ ∧ _))
  | .timePublish _ _ => isTrue trivial

/-- The topic and the content that an event publishes. -/
def Event.published : Event → Option (Bytes × Bytes)
  | .command _ m _ _ => if m.cmd = ascii "pub" then some (m.topic, m.content) else none
  | .timePublish _ formatted => some (ascii "utc_time", formatted)
  | .up _ | .down _ => none

/-- Neither text has a NUL byte, and they fit into a message whose length is an `int`. -/
def Plain (topic content : Bytes) : Prop :=
  0 ∉ topic ∧ 0 ∉ content ∧ topic.length + content.length + 8 < 2 ^ 31

instance (topic content : Bytes) : Decidable (Plain topic content) :=
  inferInstanceAs (Decidable (_ ∧ _ ∧ _))

/-- What the event publishes, if it does, is plain. -/
def Event.Plain (e : Event) : Prop := ∀ p ∈ e.published, PubSubServer.Plain p.1 p.2

instance (e : Event) : Decidable e.Plain := inferInstanceAs (Decidable (∀ p ∈ e.published, _))

/-- What is published is plain, or nobody has subscribed to it. -/
def Whole (s : PubSubServer) (e : Event) : Prop :=
  ∀ topic content, e.published = some (topic, content) → (∃ conn, s.Subscribed conn topic) →
    Plain topic content

/-- A connection that is up is in the audiences of its topics and in no other, and one that is down
is in none. -/
def Consistent (s : PubSubServer) : Prop :=
  ∀ conn topic, (conn ∈ s.up → (conn ∈ s.audience topic ↔ s.Subscribed conn topic)) ∧
    (conn ∉ s.up → conn ∉ s.audience topic)

/-- A publication is sent once to each subscriber of the moment, and to nobody else. -/
def SentOnce (s : PubSubServer) (e : Event) : Prop :=
  ∀ topic content, e.published = some (topic, content) →
    ∃ s' sent, s.step e = .ok s' ∧ s'.sent = s.sent ++ sent ∧
      (∀ p ∈ sent, p.2 = ascii "pub " ++ topic ++ crlf ++ content ++ crlf) ∧
      (∀ conn, s.Subscribed conn topic → (sent.map Prod.fst).count conn = 1) ∧
      ∀ conn, ¬ s.Subscribed conn topic → (sent.map Prod.fst).count conn = 0

/-- The two views agree, and a topic is stored under its name. -/
structure Views (s : PubSubServer) : Prop where
  named : ∀ topic, (s.getTopic topic).topic = topic
  iff : ∀ conn topic, conn ∈ s.audience topic ↔ s.Subscribed conn topic

/-- Between two events. -/
structure Inv (s : PubSubServer) : Prop where
  views : Views s
  context : ∀ conn ∈ s.up, (s.context conn).isSome
  down : ∀ conn topic, conn ∉ s.up → ¬ s.Subscribed conn topic

variable {s s' : PubSubServer} {conn : Conn} {topic content : Bytes}

/-! ## What is sent -/

theorem send_of_connected (h : s.Connected conn) {message : StringPiece} {data : Bytes}
    (hread : message.read = .ok data) :
    s.send conn message = .ok { s with sent := s.sent ++ [(conn, data)] } := by
  unfold send
  rw [if_pos h, hread]
  rfl

theorem send_of_not_connected (h : ¬ s.Connected conn) (message : StringPiece) :
    s.send conn message = .ok s := by
  unfold send
  rw [if_neg h]
  rfl

/-- A message that can be read goes to the connections that are connected. -/
theorem sendAll_message {message : StringPiece} {data : Bytes} (hread : message.read = .ok data)
    (conns : List Conn) (s : PubSubServer) :
    s.sendAll (conns.map fun conn => (conn, message)) =
      .ok { s with sent := s.sent ++ (conns.filter fun conn => s.Connected conn).map (·, data) } := by
  induction conns generalizing s with
  | nil =>
    show Except.ok s = .ok { s with sent := s.sent ++ [] }
    rw [List.append_nil]
  | cons conn conns ih =>
    rw [List.map_cons, sendAll]
    by_cases hconn : s.Connected conn
    · rw [send_of_connected hconn hread, ok_bind, ih, List.filter_cons_of_pos (by simpa using hconn),
        List.map_cons]
      show Except.ok { s with sent := s.sent ++ [(conn, data)] ++ _ } = _
      rw [List.append_assoc]
      rfl
    · rw [send_of_not_connected hconn, ok_bind, ih, List.filter_cons_of_neg (by simpa using hconn)]

/-- What is passed on is what can be read of the messages. -/
theorem of_sendAll {calls : List (Conn × StringPiece)} (h : s.sendAll calls = .ok s') :
    ∃ sent, s' = { s with sent := s.sent ++ sent } ∧
      ∀ p ∈ sent, ∃ message, (p.1, message) ∈ calls ∧ message.read = .ok p.2 := by
  induction calls generalizing s with
  | nil =>
    obtain rfl := Except.ok.inj h
    exact ⟨[], by rw [List.append_nil], fun p hp => (by cases hp)⟩
  | cons call calls ih =>
    obtain ⟨conn, message⟩ := call
    obtain ⟨s₁, hs₁, h⟩ := bind_eq_ok.1 h
    obtain ⟨sent, rfl, hsent⟩ := ih h
    by_cases hconn : s.Connected conn
    · unfold send at hs₁
      rw [if_pos hconn] at hs₁
      obtain ⟨data, hdata, hs₁⟩ := bind_eq_ok.1 hs₁
      obtain rfl := Except.ok.inj hs₁
      refine ⟨(conn, data) :: sent, ?_, fun p hp => ?_⟩
      · show { s with sent := s.sent ++ [(conn, data)] ++ sent } = _
        rw [List.append_assoc]
        rfl
      rcases List.mem_cons.1 hp with rfl | hp
      · exact ⟨message, List.mem_cons_self, hdata⟩
      · obtain ⟨message', hmem, hread⟩ := hsent p hp
        exact ⟨message', List.mem_cons_of_mem _ hmem, hread⟩
    · rw [send_of_not_connected hconn] at hs₁
      obtain rfl := Except.ok.inj hs₁
      refine ⟨sent, rfl, fun p hp => ?_⟩
      obtain ⟨message', hmem, hread⟩ := hsent p hp
      exact ⟨message', List.mem_cons_of_mem _ hmem, hread⟩

/-- Exactly a plain publication is read as it was made. -/
theorem read_message_iff {t : Topic} :
    (StringPiece.ofString t.makeMessage).read = .ok t.makeMessage ↔ Plain t.topic t.content := by
  have hpub : (0 : Byte) ∉ ascii "pub " ∧ (0 : Byte) ∉ crlf := by decide
  have hnul : 0 ∈ t.makeMessage ↔ 0 ∈ t.topic ∨ 0 ∈ t.content := by
    simp [Topic.makeMessage, hpub.1, hpub.2]
  have hlength : t.makeMessage.length = t.topic.length + t.content.length + 8 := by
    have hlengths : (ascii "pub ").length = 4 ∧ crlf.length = 2 := by decide
    simp only [Topic.makeMessage, List.length_append, hlengths.1, hlengths.2]
    omega
  rw [StringPiece.read_ofString_eq_self_iff, hnul, hlength, not_or, and_assoc]
  rfl

/-! ## One relation, two views -/

theorem inv_new : Inv new := by
  have hnone : ∀ conn topic, ¬ new.Subscribed conn topic := by
    rintro conn topic ⟨connSub, hcontext, -⟩
    cases hcontext
  refine ⟨⟨fun _ => rfl, fun conn topic => ?_⟩, fun conn h => (by cases h),
    fun conn topic _ => hnone conn topic⟩
  exact ⟨fun h => absurd h (OrdSet.notMem_empty conn), fun h => absurd h (hnone conn topic)⟩

theorem getTopic_setTopic (s : PubSubServer) (topic u : Bytes) (t : Topic) :
    (s.setTopic topic t).getTopic u = if u = topic then t else s.getTopic u := by
  unfold getTopic setTopic
  dsimp only
  split_ifs with h
  · subst h
    rw [Function.update_self]
  · have hne : (⟨u⟩ : TopicName) ≠ ⟨topic⟩ := fun heq => h (congrArg TopicName.text heq)
    rw [Function.update_of_ne hne]

theorem subscribed_update {connSub : OrdSet TopicName} {c : Conn} {u : Bytes}
    (hs' : s'.context = Function.update s.context conn (some connSub)) :
    s'.Subscribed c u ↔ if c = conn then ⟨u⟩ ∈ connSub else s.Subscribed c u := by
  unfold Subscribed
  rw [hs']
  split_ifs with h
  · subst h
    rw [Function.update_self]
    constructor
    · rintro ⟨connSub', heq, hmem⟩
      obtain rfl := Option.some.inj heq
      exact hmem
    · intro hmem
      exact ⟨connSub, rfl, hmem⟩
  · rw [Function.update_of_ne h]

theorem connSub_eq {connSub : OrdSet TopicName} (h : s.context conn = some connSub) :
    s.connSub conn = .ok connSub := by
  unfold PubSubServer.connSub
  rw [h]

theorem subscribed_iff {connSub : OrdSet TopicName} (h : s.context conn = some connSub) :
    s.Subscribed conn topic ↔ ⟨topic⟩ ∈ connSub := by
  constructor
  · rintro ⟨connSub', heq, hmem⟩
    obtain rfl := Option.some.inj (h.symm.trans heq)
    exact hmem
  · intro hmem
    exact ⟨connSub, h, hmem⟩

/-- One topic is stored back, and the subscriptions to it alone may have changed. -/
theorem Views.of_setTopic (h : Views s) {t : Topic}
    (hs' : ∀ u, s'.getTopic u = if u = topic then t else s.getTopic u) (hname : t.topic = topic)
    (haudience : ∀ c, c ∈ t.audiences ↔ s'.Subscribed c topic)
    (hothers : ∀ c u, u ≠ topic → (s'.Subscribed c u ↔ s.Subscribed c u)) : Views s' := by
  refine ⟨fun u => ?_, fun c u => ?_⟩
  · rw [hs']
    split_ifs with hu
    · rw [hu, hname]
    · exact h.named u
  · unfold audience
    rw [hs']
    split_ifs with hu
    · rw [hu]
      exact haudience c
    · rw [hothers c u hu]
      exact h.iff c u

/-- The server when a connection subscribed, before anything is sent. -/
def subscribed (s : PubSubServer) (conn : Conn) (topic : Bytes) (connSub : OrdSet TopicName) :
    PubSubServer :=
  { s with context := Function.update s.context conn (some (connSub.insert ⟨topic⟩).1) }.setTopic topic
    ((s.getTopic topic).add conn).1

theorem doSubscribe_eq {connSub : OrdSet TopicName} (h : s.context conn = some connSub)
    (topic : Bytes) : s.doSubscribe conn topic =
      (s.subscribed conn topic connSub).sendAll ((s.getTopic topic).add conn).2 := by
  unfold doSubscribe
  rw [connSub_eq h]
  rfl

theorem subscribed_subscribed {connSub : OrdSet TopicName} (h : s.context conn = some connSub)
    (topic : Bytes) (c : Conn) (u : Bytes) :
    (s.subscribed conn topic connSub).Subscribed c u ↔ c = conn ∧ u = topic ∨ s.Subscribed c u := by
  rw [subscribed_update (show (s.subscribed conn topic connSub).context =
    Function.update s.context conn _ from rfl)]
  split_ifs with hc
  · subst hc
    rw [OrdSet.mem_insert, subscribed_iff h]
    simp
  · simp [hc]

theorem Views.subscribed (h : Views s) {connSub : OrdSet TopicName}
    (hconnSub : s.context conn = some connSub) (topic : Bytes) :
    Views (s.subscribed conn topic connSub) := by
  refine h.of_setTopic (fun u => getTopic_setTopic _ topic u _) (h.named topic) (fun c => ?_)
    fun c u hu => ?_
  · rw [subscribed_subscribed hconnSub]
    show c ∈ ((s.getTopic topic).audiences.insert conn).1 ↔ _
    rw [OrdSet.mem_insert, ← h.iff c topic]
    simp [audience]
  · rw [subscribed_subscribed hconnSub]
    simp [hu]

theorem Views.doSubscribe (h : Views s) (hs' : s.doSubscribe conn topic = .ok s') :
    Views s' ∧ s'.up = s.up ∧ s'.shutdowns = s.shutdowns ∧
      (∀ c, (s.context c).isSome → (s'.context c).isSome) ∧
      ∀ c u, s'.Subscribed c u ↔ c = conn ∧ u = topic ∨ s.Subscribed c u := by
  cases hconnSub : s.context conn with
  | none =>
    unfold PubSubServer.doSubscribe connSub at hs'
    rw [hconnSub] at hs'
    cases hs'
  | some connSub =>
    rw [doSubscribe_eq hconnSub] at hs'
    obtain ⟨sent, rfl, -⟩ := of_sendAll hs'
    have hviews := h.subscribed hconnSub topic
    refine ⟨⟨hviews.named, hviews.iff⟩, rfl, rfl, fun c hc => ?_, subscribed_subscribed hconnSub topic⟩
    show (Function.update s.context conn _ c).isSome
    by_cases hcc : c = conn
    · rw [hcc, Function.update_self]
      rfl
    · rw [Function.update_of_ne hcc]
      exact hc

theorem Views.doUnsubscribe (h : Views s) {connSub : OrdSet TopicName}
    (hconnSub : s.context conn = some connSub) (topic : Bytes) :
    ∃ s', s.doUnsubscribe conn topic = .ok s' ∧ Views s' ∧ s'.up = s.up ∧ s'.shutdowns = s.shutdowns ∧
      s'.context = Function.update s.context conn (some (connSub.erase ⟨topic⟩).1) ∧
      ∀ c u, s'.Subscribed c u ↔ ¬ (c = conn ∧ u = topic) ∧ s.Subscribed c u := by
  let s₁ := s.setTopic topic ((s.getTopic topic).remove conn)
  let s' : PubSubServer :=
    { s₁ with context := Function.update s.context conn (some (connSub.erase ⟨topic⟩).1) }
  have hsub : ∀ c u, s'.Subscribed c u ↔ ¬ (c = conn ∧ u = topic) ∧ s.Subscribed c u := by
    intro c u
    rw [subscribed_update (show s'.context = Function.update s.context conn _ from rfl)]
    split_ifs with hc
    · subst hc
      rw [OrdSet.mem_erase, subscribed_iff hconnSub]
      simp
    · simp [hc]
  refine ⟨s', ?_, ?_, rfl, rfl, rfl, hsub⟩
  · unfold PubSubServer.doUnsubscribe
    dsimp only
    rw [connSub_eq (s := s₁) hconnSub]
    rfl
  · refine h.of_setTopic (fun u => getTopic_setTopic s topic u _) (h.named topic) (fun c => ?_)
      fun c u hu => ?_
    · rw [hsub]
      show c ∈ ((s.getTopic topic).audiences.erase conn).1 ↔ _
      rw [OrdSet.mem_erase, ← h.iff c topic]
      simp [audience]
    · rw [hsub]
      simp [hu]

/-- The loop over the topics of a connection that went down, with the topics that are left. -/
theorem Views.unsubscribeAll (h : Views s) {connSub : OrdSet TopicName}
    (hconnSub : s.context conn = some connSub) {fuel : ℕ} (hfuel : connSub.size < fuel) :
    ∃ s', PubSubServer.unsubscribeAll fuel s conn connSub.first = .ok s' ∧ Views s' ∧ s'.up = s.up ∧
      s'.shutdowns = s.shutdowns ∧ (∀ c ≠ conn, s'.context c = s.context c) ∧
      ∀ c u, s'.Subscribed c u ↔ c ≠ conn ∧ s.Subscribed c u := by
  generalize hl : connSub.toList = l
  induction l generalizing s connSub fuel with
  | nil =>
    obtain ⟨fuel, rfl⟩ : ∃ k, fuel = k + 1 := ⟨fuel - 1, by omega⟩
    have hfirst : connSub.first = none := by
      rw [OrdSet.first, hl]
      rfl
    rw [hfirst]
    refine ⟨s, rfl, h, rfl, rfl, fun _ _ => rfl, fun c u => ⟨fun hsub => ⟨?_, hsub⟩, fun hsub => hsub.2⟩⟩
    rintro rfl
    have hmem := (subscribed_iff hconnSub).1 hsub
    rw [show (⟨u⟩ ∈ connSub) = (⟨u⟩ ∈ connSub.toList) from rfl, hl] at hmem
    cases hmem
  | cons topic l ih =>
    obtain ⟨fuel, rfl⟩ : ∃ k, fuel = k + 1 := ⟨fuel - 1, by omega⟩
    obtain ⟨hmem, hnext, herase⟩ := OrdSet.next_erase_first hl
    have hfirst : connSub.first = some topic := by
      rw [OrdSet.first, hl]
      rfl
    obtain ⟨s₁, hs₁, hviews, hup, hshut, hcontext, hsub⟩ := h.doUnsubscribe hconnSub topic.text
    have hconnSub₁ : s₁.context conn = some (connSub.erase topic).1 := by
      rw [hcontext, Function.update_self]
    have hsize : (connSub.erase topic).1.size < fuel := by
      rw [OrdSet.size, hl, List.length_cons] at hfuel
      rw [OrdSet.size, herase]
      omega
    have hnext₁ : (connSub.erase topic).1.first = connSub.next topic := by
      rw [hnext, OrdSet.first, herase]
    obtain ⟨s', hs', hviews', hup', hshut', hothers, hsub'⟩ := ih hviews hconnSub₁ hsize herase
    refine ⟨s', ?_, hviews', hup'.trans hup, hshut'.trans hshut, fun c hc => ?_, fun c u => ?_⟩
    · rw [hfirst, PubSubServer.unsubscribeAll, connSub_eq hconnSub, ok_bind, check_of hmem, ok_bind,
        hs₁, ok_bind, ← hnext₁]
      exact hs'
    · rw [hothers c hc, hcontext, Function.update_of_ne hc]
    · rw [hsub', hsub]
      constructor
      · rintro ⟨hc, -, hold⟩
        exact ⟨hc, hold⟩
      · rintro ⟨hc, hold⟩
        exact ⟨hc, fun hboth => hc hboth.1, hold⟩

/-! ## One event -/

theorem Inv.of_eq (h : Inv s) (htopics : s'.topics = s.topics) (hcontext : s'.context = s.context)
    (hup : s'.up = s.up) : Inv s' := by
  obtain ⟨topics, context, up, shutdowns, sent⟩ := s
  obtain ⟨topics', context', up', shutdowns', sent'⟩ := s'
  obtain rfl : topics' = topics := htopics
  obtain rfl : context' = context := hcontext
  obtain rfl : up' = up := hup
  exact ⟨⟨h.views.named, h.views.iff⟩, h.context, h.down⟩

/-- A publication changes no subscription. -/
theorem Inv.setTopic (h : Inv s) (topic content : Bytes) (time : ℤ) :
    Inv (s.setTopic topic ((s.getTopic topic).publish content time).1) :=
  ⟨h.views.of_setTopic (fun u => getTopic_setTopic s topic u _) (h.views.named topic)
    (fun c => h.views.iff c topic) fun _ _ _ => Iff.rfl, h.context, h.down⟩

theorem Inv.doPublish (h : Inv s) {time : ℤ} (hs' : s.doPublish topic content time = .ok s') :
    Inv s' ∧ s'.up = s.up ∧ s'.shutdowns = s.shutdowns := by
  obtain ⟨sent, rfl, -⟩ := of_sendAll hs'
  exact ⟨(h.setTopic topic content time).of_eq rfl rfl rfl, rfl, rfl⟩

theorem Inv.doSubscribe (h : Inv s) (hconn : conn ∈ s.up) (hs' : s.doSubscribe conn topic = .ok s') :
    Inv s' ∧ s'.up = s.up ∧ s'.shutdowns = s.shutdowns := by
  obtain ⟨hviews, hup, hshut, hsome, hsub⟩ := h.views.doSubscribe hs'
  refine ⟨⟨hviews, fun c hc => ?_, fun c u hc => ?_⟩, hup, hshut⟩
  · rw [hup] at hc
    exact hsome c (h.context c hc)
  · rw [hup] at hc
    rw [hsub]
    rintro (⟨rfl, -⟩ | hold)
    · exact hc hconn
    · exact h.down c u hc hold

theorem Inv.doUnsubscribe (h : Inv s) (hconn : conn ∈ s.up) (topic : Bytes) :
    ∃ s', s.doUnsubscribe conn topic = .ok s' ∧ Inv s' ∧ s'.up = s.up ∧ s'.shutdowns = s.shutdowns := by
  obtain ⟨connSub, hconnSub⟩ := Option.isSome_iff_exists.1 (h.context conn hconn)
  obtain ⟨s', hs', hviews, hup, hshut, hcontext, hsub⟩ := h.views.doUnsubscribe hconnSub topic
  refine ⟨s', hs', ⟨hviews, fun c hc => ?_, fun c u hc => ?_⟩, hup, hshut⟩
  · rw [hup] at hc
    rw [hcontext]
    by_cases hcc : c = conn
    · rw [hcc, Function.update_self]
      rfl
    · rw [Function.update_of_ne hcc]
      exact h.context c hc
  · rw [hup] at hc
    rw [hsub]
    exact fun hboth => h.down c u hc hboth.2

theorem Inv.shutdown (h : Inv s) {r : ShutdownResult} (hs' : s.shutdown conn r = .ok s') :
    Inv s' ∧ s'.up = s.up := by
  unfold PubSubServer.shutdown at hs'
  split_ifs at hs'
  · obtain ⟨-, hs'⟩ := check_bind_eq_ok.1 hs'
    obtain rfl := Except.ok.inj hs'
    exact ⟨h.of_eq rfl rfl rfl, rfl⟩
  · obtain rfl := Except.ok.inj hs'
    exact ⟨h, rfl⟩

/-- The loop goes on behind a known command. -/
theorem onCommand_eq (s : PubSubServer) (conn : Conn) (m : Message) (receiveTime : ℤ)
    (r : ShutdownResult) : s.onCommand conn m receiveTime r =
      s.step (.command conn m receiveTime r) >>= fun s => .ok (decide (Known m.cmd), s) := by
  unfold step onCommand
  dsimp only
  split_ifs with hpub hsubscribe hunsubscribe
  · rw [decide_eq_true (.inl hpub)]
    cases s.doPublish m.topic m.content receiveTime <;> rfl
  · rw [decide_eq_true (.inr (.inl hsubscribe))]
    cases PubSubServer.doSubscribe s conn m.topic <;> rfl
  · rw [decide_eq_true (.inr (.inr hunsubscribe))]
    cases PubSubServer.doUnsubscribe s conn m.topic <;> rfl
  · rw [decide_eq_false (by simp [Known, hpub, hsubscribe, hunsubscribe])]
    cases PubSubServer.shutdown s conn r <;> rfl

theorem step_of_not_known {m : Message} (h : ¬ Known m.cmd) (s : PubSubServer) (conn : Conn)
    (receiveTime : ℤ) (r : ShutdownResult) :
    s.step (.command conn m receiveTime r) = s.shutdown conn r := by
  simp only [Known, not_or] at h
  unfold step onCommand
  dsimp only
  rw [if_neg h.1, if_neg h.2.1, if_neg h.2.2]
  cases PubSubServer.shutdown s conn r <;> rfl

/-- The command of a connection that is up; only one that is not known shuts it down. -/
theorem Inv.onCommand (h : Inv s) (hconn : conn ∈ s.up) {m : Message} {receiveTime : ℤ}
    {r : ShutdownResult} {goesOn : Bool} (hs' : s.onCommand conn m receiveTime r = .ok (goesOn, s')) :
    Inv s' ∧ s'.up = s.up ∧ (Known m.cmd → s'.shutdowns = s.shutdowns) := by
  unfold PubSubServer.onCommand at hs'
  split_ifs at hs' with hpub hsubscribe hunsubscribe
  · obtain ⟨s₁, hs₁, hs'⟩ := bind_eq_ok.1 hs'
    obtain ⟨-, rfl⟩ := Prod.mk.inj (Except.ok.inj hs')
    obtain ⟨hinv, hup, hshut⟩ := h.doPublish hs₁
    exact ⟨hinv, hup, fun _ => hshut⟩
  · obtain ⟨s₁, hs₁, hs'⟩ := bind_eq_ok.1 hs'
    obtain ⟨-, rfl⟩ := Prod.mk.inj (Except.ok.inj hs')
    obtain ⟨hinv, hup, hshut⟩ := h.doSubscribe hconn hs₁
    exact ⟨hinv, hup, fun _ => hshut⟩
  · obtain ⟨s₁, hs₁, hs'⟩ := bind_eq_ok.1 hs'
    obtain ⟨-, rfl⟩ := Prod.mk.inj (Except.ok.inj hs')
    obtain ⟨s₂, hs₂, hinv, hup, hshut⟩ := h.doUnsubscribe hconn m.topic
    obtain rfl := Except.ok.inj (hs₂.symm.trans hs₁)
    exact ⟨hinv, hup, fun _ => hshut⟩
  · obtain ⟨s₁, hs₁, hs'⟩ := bind_eq_ok.1 hs'
    obtain ⟨-, rfl⟩ := Prod.mk.inj (Except.ok.inj hs')
    obtain ⟨hinv, hup⟩ := h.shutdown hs₁
    refine ⟨hinv, hup, fun hknown => ?_⟩
    rcases hknown with hknown | hknown | hknown
    · exact absurd hknown hpub
    · exact absurd hknown hsubscribe
    · exact absurd hknown hunsubscribe

theorem Inv.onConnectionUp (h : Inv s) (hconn : conn ∉ s.up) : Inv (s.onConnectionUp conn) := by
  have hsub : ∀ c u, (s.onConnectionUp conn).Subscribed c u ↔ s.Subscribed c u := by
    intro c u
    rw [subscribed_update (show (s.onConnectionUp conn).context =
      Function.update s.context conn (some ∅) from rfl)]
    split_ifs with hc
    · subst hc
      exact ⟨fun hmem => absurd hmem (OrdSet.notMem_empty _), fun hold => absurd hold (h.down c u hconn)⟩
    · rfl
  refine ⟨⟨h.views.named, fun c u => ?_⟩, fun c hc => ?_, fun c u hc => ?_⟩
  · rw [hsub]
    exact h.views.iff c u
  · show (Function.update s.context conn (some ∅) c).isSome
    by_cases hcc : c = conn
    · rw [hcc, Function.update_self]
      rfl
    · rw [Function.update_of_ne hcc]
      exact h.context c ((List.mem_cons.1 hc).resolve_left hcc)
  · rw [hsub]
    exact h.down c u fun hold => hc (List.mem_cons_of_mem conn hold)

theorem Inv.onConnectionDown (h : Inv s) (hconn : conn ∈ s.up) :
    ∃ s', s.onConnectionDown conn = .ok s' ∧ Inv s' ∧ s'.shutdowns = s.shutdowns := by
  obtain ⟨connSub, hconnSub⟩ := Option.isSome_iff_exists.1 (h.context conn hconn)
  have hviews : Views { s with up := s.up.filter (· ≠ conn) } := ⟨h.views.named, h.views.iff⟩
  obtain ⟨s', hs', hviews', hup, hshut, hcontext, hsub⟩ :=
    hviews.unsubscribeAll hconnSub (Nat.lt_succ_self _)
  refine ⟨s', ?_, ⟨hviews', fun c hc => ?_, fun c u hc => ?_⟩, hshut⟩
  · unfold PubSubServer.onConnectionDown
    rw [connSub_eq hconnSub, ok_bind]
    exact hs'
  · rw [hup] at hc
    obtain ⟨hc, hne⟩ := List.mem_filter.1 hc
    rw [hcontext c (of_decide_eq_true hne)]
    exact h.context c hc
  · rw [hsub]
    rintro ⟨hne, hold⟩
    refine h.down c u (fun hin => hc ?_) hold
    rw [hup]
    exact List.mem_filter.2 ⟨hin, decide_eq_true hne⟩

/-- A known command shuts no connection down. -/
theorem step_inv (h : Inv s ∧ s.shutdowns = []) {e : Event} (hE : Env s e)
    (hs' : s.step e = .ok s') : Inv s' ∧ s'.shutdowns = [] := by
  obtain ⟨hinv, hshut⟩ := h
  cases e with
  | up conn =>
    obtain rfl := Except.ok.inj hs'
    exact ⟨hinv.onConnectionUp hE, hshut⟩
  | down conn =>
    obtain ⟨s₁, hs₁, hinv', hshut'⟩ := hinv.onConnectionDown hE
    obtain rfl := Except.ok.inj (hs₁.symm.trans hs')
    exact ⟨hinv', hshut'.trans hshut⟩
  | command conn m receiveTime r =>
    obtain ⟨⟨goesOn, s₁⟩, hs₁, hs'⟩ := bind_eq_ok.1 hs'
    obtain rfl := Except.ok.inj hs'
    obtain ⟨hinv', -, hshut'⟩ := hinv.onCommand hE.1 hs₁
    exact ⟨hinv', (hshut' hE.2).trans hshut⟩
  | timePublish now formatted =>
    obtain ⟨hinv', -, hshut'⟩ := hinv.doPublish hs'
    exact ⟨hinv', hshut'.trans hshut⟩

theorem Inv.views_agree (h : Inv s) : Consistent s := by
  intro conn topic
  refine ⟨fun _ => h.views.iff conn topic, fun hdown => ?_⟩
  rw [h.views.iff]
  exact h.down conn topic hdown

/-! ## Publications -/

theorem step_of_published {e : Event} (h : e.published = some (topic, content)) :
    ∃ time, s.step e = s.doPublish topic content time := by
  cases e with
  | up conn => cases h
  | down conn => cases h
  | command conn m receiveTime r =>
    simp only [Event.published] at h
    split_ifs at h with hcmd
    obtain ⟨rfl, rfl⟩ := Prod.mk.inj (Option.some.inj h)
    refine ⟨receiveTime, ?_⟩
    show (s.onCommand conn m receiveTime r >>= fun r => .ok r.2) = _
    unfold PubSubServer.onCommand
    rw [if_pos hcmd]
    cases s.doPublish m.topic m.content receiveTime <;> rfl
  | timePublish now formatted =>
    obtain ⟨rfl, rfl⟩ := Prod.mk.inj (Option.some.inj h)
    exact ⟨now, rfl⟩

/-- The message of a publication. -/
def message (topic content : Bytes) : Bytes := (Call.publish topic content).message

/-- The calls of `send` of a publication. -/
theorem Views.publish_calls (h : Views s) (topic content : Bytes) (time : ℤ) :
    ((s.getTopic topic).publish content time).2 = (s.audience topic).toList.map fun conn =>
      (conn, StringPiece.ofString (message topic content)) := by
  have hmessage : Topic.makeMessage { s.getTopic topic with content := content, lastPubTime := time } =
      message topic content := by
    unfold Topic.makeMessage
    dsimp only
    rw [h.named]
    rfl
  unfold Topic.publish
  dsimp only
  rw [hmessage]
  rfl

theorem read_message {topic content : Bytes} (h : Plain topic content) :
    (StringPiece.ofString (message topic content)).read = .ok (message topic content) :=
  (read_message_iff (t := ⟨topic, content, 0, ∅⟩)).2 h

/-- A publication that is plain goes to the subscribers that are connected. -/
theorem Views.doPublish_eq (h : Views s) (hplain : Plain topic content) (time : ℤ) :
    s.doPublish topic content time =
      .ok { s.setTopic topic ((s.getTopic topic).publish content time).1 with
        sent := s.sent ++ ((s.audience topic).toList.filter fun conn => s.Connected conn).map
          (·, message topic content) } := by
  unfold doPublish
  dsimp only
  rw [h.publish_calls, sendAll_message (read_message hplain)]
  rfl

/-- Where no connection was shut down, all subscribers are connected. -/
theorem Inv.filter_audience (h : Inv s) (hshut : s.shutdowns = []) (topic : Bytes) :
    (s.audience topic).toList.filter (fun conn => s.Connected conn) = (s.audience topic).toList := by
  refine List.filter_eq_self.2 fun conn hconn => decide_eq_true ⟨?_, by rw [hshut]; exact List.not_mem_nil⟩
  by_contra hdown
  exact h.down conn topic hdown ((h.views.iff conn topic).1 hconn)

theorem Inv.whole_spec (h : Inv s) (hshut : s.shutdowns = [])
    (hwhole : (∃ conn, s.Subscribed conn topic) → Plain topic content) (time : ℤ) :
    ∃ s', s.doPublish topic content time = .ok s' ∧
      s'.sent = s.sent ++ (s.audience topic).toList.map (·, message topic content) := by
  by_cases hsome : ∃ conn, s.Subscribed conn topic
  · refine ⟨_, h.views.doPublish_eq (hwhole hsome) time, ?_⟩
    rw [h.filter_audience hshut]
  · have hnone : (s.audience topic).toList = [] := by
      refine List.eq_nil_iff_forall_not_mem.2 fun conn hconn => ?_
      exact hsome ⟨conn, (h.views.iff conn topic).1 hconn⟩
    refine ⟨s.setTopic topic ((s.getTopic topic).publish content time).1, ?_, ?_⟩
    · unfold PubSubServer.doPublish
      dsimp only
      rw [h.views.publish_calls, hnone]
      rfl
    · rw [hnone]
      exact (List.append_nil _).symm

theorem Inv.sentOnce_of_whole (h : Inv s) (hshut : s.shutdowns = []) {e : Event} (hwhole : Whole s e) :
    SentOnce s e := by
  intro topic content hpub
  obtain ⟨time, hstep⟩ := step_of_published (s := s) hpub
  obtain ⟨s', hs', hsent⟩ := h.whole_spec hshut (hwhole topic content hpub) time
  have hfst : ((s.audience topic).toList.map (·, message topic content)).map Prod.fst =
      (s.audience topic).toList := by
    rw [List.map_map]
    exact List.map_id _
  refine ⟨s', _, hstep.trans hs', hsent, fun p hp => ?_, fun conn hsub => ?_, fun conn hsub => ?_⟩
  · obtain ⟨conn, -, rfl⟩ := List.mem_map.1 hp
    rfl
  · rw [hfst]
    exact List.count_eq_one_of_mem (s.audience topic).nodup ((h.views.iff conn topic).2 hsub)
  · rw [hfst]
    exact List.count_eq_zero.2 fun hmem => hsub ((h.views.iff conn topic).1 hmem)

/-- What is sent of a publication is what can be read of its message. -/
theorem Inv.whole_of_sentOnce (h : Inv s) {e : Event} (honce : SentOnce s e) : Whole s e := by
  rintro topic content hpub ⟨conn, hsub⟩
  obtain ⟨s', sent, hs', hsent, hmessages, hcount, -⟩ := honce topic content hpub
  obtain ⟨time, hstep⟩ := step_of_published (s := s) hpub
  rw [hstep] at hs'
  obtain ⟨sent', rfl, hread⟩ := of_sendAll hs'
  obtain rfl : sent' = sent := List.append_cancel_left hsent
  obtain ⟨p, hp, -⟩ := List.mem_map.1 (List.count_pos_iff.1 (by rw [hcount conn hsub]; exact Nat.one_pos))
  obtain ⟨piece, hmem, hdata⟩ := hread p hp
  replace hmem : (p.1, piece) ∈ ((s.getTopic topic).publish content time).2 := hmem
  rw [h.views.publish_calls] at hmem
  obtain ⟨c, -, heq⟩ := List.mem_map.1 hmem
  obtain ⟨-, rfl⟩ := Prod.mk.inj heq
  rw [hmessages p hp] at hdata
  exact (read_message_iff (t := ⟨topic, content, 0, ∅⟩)).1 hdata

/-! ## Runs of plain publications -/

/-- What a topic keeps of its last publication. -/
def retained (s : PubSubServer) (topic : Bytes) : Option Bytes :=
  if 0 < (s.getTopic topic).lastPubTime then some (s.getTopic topic).content else none

/-- The hub keeps the publications and sends nothing. -/
structure Quiet (s s' : PubSubServer) : Prop where
  sent : s'.sent = s.sent
  retained : ∀ topic, s'.retained topic = s.retained topic

theorem Quiet.trans {s'' : PubSubServer} (h : Quiet s s') (h' : Quiet s' s'') : Quiet s s'' :=
  ⟨h'.sent.trans h.sent, fun topic => (h'.retained topic).trans (h.retained topic)⟩

/-- A topic with another audience is stored back. -/
theorem retained_setTopic {t : Topic} (hcontent : t.content = (s.getTopic topic).content)
    (htime : t.lastPubTime = (s.getTopic topic).lastPubTime) (u : Bytes) :
    (s.setTopic topic t).retained u = s.retained u := by
  unfold retained
  rw [getTopic_setTopic]
  by_cases hu : u = topic
  · rw [if_pos hu, hu, hcontent, htime]
  · rw [if_neg hu]

theorem quiet_doUnsubscribe (h : s.doUnsubscribe conn topic = .ok s') : Quiet s s' := by
  unfold doUnsubscribe at h
  obtain ⟨connSub, -, h⟩ := bind_eq_ok.1 h
  obtain rfl := Except.ok.inj h
  exact ⟨rfl, retained_setTopic (s := s) rfl rfl⟩

theorem quiet_unsubscribeAll {fuel : ℕ} {first : Option TopicName}
    (h : unsubscribeAll fuel s conn first = .ok s') : Quiet s s' := by
  induction fuel generalizing s first with
  | zero => cases h
  | succ fuel ih =>
    cases first with
    | none =>
      obtain rfl := Except.ok.inj h
      exact ⟨rfl, fun _ => rfl⟩
    | some topic =>
      rw [unsubscribeAll] at h
      obtain ⟨connSub, -, h⟩ := bind_eq_ok.1 h
      obtain ⟨-, -, h⟩ := bind_eq_ok.1 h
      obtain ⟨s₁, hs₁, h⟩ := bind_eq_ok.1 h
      exact (quiet_doUnsubscribe hs₁).trans (ih h)

theorem quiet_onConnectionDown (h : s.onConnectionDown conn = .ok s') : Quiet s s' := by
  obtain ⟨connSub, -, h⟩ := bind_eq_ok.1 h
  obtain ⟨hsent, hretained⟩ := quiet_unsubscribeAll h
  exact ⟨hsent, hretained⟩

theorem retained_subscribed (s : PubSubServer) (conn : Conn) (topic : Bytes) (connSub : OrdSet TopicName)
    (u : Bytes) : (s.subscribed conn topic connSub).retained u = s.retained u := by
  have hstored : (s.setTopic topic ((s.getTopic topic).add conn).1).retained u = s.retained u :=
    retained_setTopic (t := ((s.getTopic topic).add conn).1) rfl rfl u
  exact hstored

/-- What is kept of a publication is its content. -/
theorem retained_publish {time : ℤ} (u : Bytes) :
    (s.setTopic topic ((s.getTopic topic).publish content time).1).retained u =
      if u = topic then (if 0 < time then some content else none) else s.retained u := by
  unfold retained
  rw [getTopic_setTopic]
  by_cases hu : u = topic
  · rw [if_pos hu, if_pos hu]
    rfl
  · rw [if_neg hu, if_neg hu]

/-- What is kept of the publications is plain. -/
def Sendable (s : PubSubServer) : Prop :=
  ∀ topic content, s.retained topic = some content → Plain topic content

theorem Sendable.publish (h : Sendable s) (hplain : Plain topic content) (time : ℤ) :
    Sendable (s.setTopic topic ((s.getTopic topic).publish content time).1) := by
  intro u c hu
  rw [retained_publish] at hu
  split_ifs at hu with heq htime
  · obtain rfl := Option.some.inj hu
    rw [heq]
    exact hplain
  · exact h u c hu

/-- A subscription is answered with the publication that is kept, if the connection is connected. -/
theorem Views.doSubscribe_eq (h : Views s) (hsend : Sendable s) {connSub : OrdSet TopicName}
    (hconnSub : s.context conn = some connSub) (topic : Bytes) :
    s.doSubscribe conn topic = .ok { s.subscribed conn topic connSub with
      sent := s.sent ++ if s.Connected conn then
        (s.retained topic).toList.map fun content => (conn, message topic content) else [] } := by
  have hcalls : ((s.getTopic topic).add conn).2 = (s.retained topic).toList.flatMap fun content =>
      [conn].map fun conn => (conn, StringPiece.ofString (message topic content)) := by
    show (if 0 < (s.getTopic topic).lastPubTime then
      [(conn, StringPiece.ofString (Topic.makeMessage _))] else []) = _
    unfold retained
    split_ifs
    · show [(conn, StringPiece.ofString (ascii "pub " ++ (s.getTopic topic).topic ++ crlf ++
        (s.getTopic topic).content ++ crlf))] = _
      rw [h.named]
      rfl
    · rfl
  rw [PubSubServer.doSubscribe_eq hconnSub, hcalls]
  cases hretained : s.retained topic with
  | none =>
    show Except.ok (s.subscribed conn topic connSub) =
      .ok { s.subscribed conn topic connSub with sent := s.sent ++ if s.Connected conn then [] else [] }
    rw [ite_self, List.append_nil]
    rfl
  | some content =>
    rw [Option.toList_some, List.flatMap_singleton,
      sendAll_message (read_message (hsend topic content hretained)) [conn]]
    have hfilter : ([conn].filter fun c => (s.subscribed conn topic connSub).Connected c) =
        if s.Connected conn then [conn] else [] := by
      show (match decide (s.Connected conn) with | true => [conn] | false => []) = _
      split_ifs with hconn
      · rw [decide_eq_true hconn]
      · rw [decide_eq_false hconn]
    rw [hfilter]
    by_cases hconn : s.Connected conn
    · rw [if_pos hconn, if_pos hconn]
      rfl
    · rw [if_neg hconn, if_neg hconn]
      rfl

/-- With plain publications every step returns. -/
theorem step_ok (h : Inv s) (hsend : Sendable s) {e : Event} (hE : Env s e) (hplain : e.Plain) :
    ∃ s', s.step e = .ok s' ∧ Sendable s' := by
  cases e with
  | up conn => exact ⟨_, rfl, hsend⟩
  | down conn =>
    obtain ⟨s', hs', -⟩ := h.onConnectionDown hE
    refine ⟨s', hs', fun topic content hkept => hsend topic content ?_⟩
    rw [← (quiet_onConnectionDown hs').retained]
    exact hkept
  | timePublish now formatted =>
    have htext : Plain (ascii "utc_time") formatted := hplain _ rfl
    exact ⟨_, h.views.doPublish_eq htext now, hsend.publish htext now⟩
  | command conn m receiveTime r =>
    obtain ⟨hconn, hknown⟩ := hE
    suffices hcommand : ∃ s', s.onCommand conn m receiveTime r = .ok (true, s') ∧ Sendable s' by
      obtain ⟨s', hs', hsend'⟩ := hcommand
      refine ⟨s', ?_, hsend'⟩
      show (s.onCommand conn m receiveTime r >>= fun r => .ok r.2) = _
      rw [hs', ok_bind]
    unfold PubSubServer.onCommand
    split_ifs with hpub hsubscribe hunsubscribe
    · have htext : Plain m.topic m.content := hplain _ (if_pos hpub)
      rw [h.views.doPublish_eq htext receiveTime]
      exact ⟨_, rfl, hsend.publish htext receiveTime⟩
    · obtain ⟨connSub, hconnSub⟩ := Option.isSome_iff_exists.1 (h.context conn hconn)
      rw [h.views.doSubscribe_eq hsend hconnSub]
      refine ⟨_, rfl, fun topic content hkept => hsend topic content ?_⟩
      rw [← hkept]
      exact (retained_subscribed s conn m.topic connSub topic).symm
    · obtain ⟨s', hs', -⟩ := h.doUnsubscribe hconn m.topic
      rw [hs']
      refine ⟨s', rfl, fun topic content hkept => hsend topic content ?_⟩
      rw [← (quiet_doUnsubscribe hs').retained]
      exact hkept
    · rcases hknown with hknown | hknown | hknown
      · exact absurd hknown hpub
      · exact absurd hknown hsubscribe
      · exact absurd hknown hunsubscribe

theorem step_inv_machine : ∀ s e s', Inv s ∧ s.shutdowns = [] → Env s e → machine.step s e = .ok s' →
    Inv s' ∧ s'.shutdowns = [] :=
  fun _ _ _ h hE hs' => step_inv h hE hs'

theorem along_sentOnce_iff {events : List Event} (hE : machine.Along Env new events) :
    machine.Along SentOnce new events ↔ machine.Along Whole new events :=
  Machine.along_congr step_inv_machine
    (fun _ _ h _ => ⟨h.1.whole_of_sentOnce, h.1.sentOnce_of_whole h.2⟩) ⟨inv_new, rfl⟩ hE

theorem run_ok_of_plain {events : List Event} (hE : machine.Along Env new events)
    (hplain : ∀ e ∈ events, e.Plain) : ∃ s, machine.run new events = .ok s := by
  have hEP : machine.Along (fun s e => Env s e ∧ e.Plain) new events :=
    Machine.along_and.2 ⟨hE, Machine.along_of_forall hplain new⟩
  have hstep : ∀ s e, (Inv s ∧ s.shutdowns = []) ∧ Sendable s → Env s e ∧ e.Plain →
      ∃ s', machine.step s e = .ok s' ∧ (Inv s' ∧ s'.shutdowns = []) ∧ Sendable s' := by
    rintro s e ⟨h, hsend⟩ ⟨hE, hplain⟩
    obtain ⟨s', hs', hsend'⟩ := step_ok h.1 hsend hE hplain
    exact ⟨s', hs', step_inv h hE hs', hsend'⟩
  have hkept : Sendable new := fun _ _ h => (by cases h)
  obtain ⟨s, hs, -⟩ := Machine.run_ok_of_along hstep ⟨⟨inv_new, rfl⟩, hkept⟩ hEP
  exact ⟨s, hs⟩

/-- Every run keeps the two views of the subscriptions the same.  Each publication is sent once to each
subscriber exactly in the runs where what is published to a subscriber is plain, and a run in which
everything that is published is plain returns. -/
theorem subscriptions_consistent (events : List Event) (hE : machine.Along Env new events) :
    machine.Always Consistent new events ∧
      (machine.Along SentOnce new events ↔ machine.Along Whole new events) ∧
      ((∀ e ∈ events, e.Plain) → ∃ s, machine.run new events = .ok s) := by
  refine ⟨?_, along_sentOnce_iff hE, run_ok_of_plain hE⟩
  exact (Machine.always_of_along step_inv_machine ⟨inv_new, rfl⟩ hE).mono fun _ h => h.1.views_agree

/-- Two connections with a common topic, of which one unsubscribes and the other goes down. -/
def sampleEvents : List Event :=
  [.up 1, .up 2, .command 1 ⟨ascii "sub", ascii "a", []⟩ 5 .success,
    .command 2 ⟨ascii "sub", ascii "a", []⟩ 6 .success, .command 2 ⟨ascii "sub", ascii "b", []⟩ 7 .success,
    .command 1 ⟨ascii "pub", ascii "a", ascii "x"⟩ 8 .success,
    .command 1 ⟨ascii "unsub", ascii "a", []⟩ 9 .success, .timePublish 10 (ascii "now"), .down 2,
    .command 1 ⟨ascii "pub", ascii "a", ascii "y"⟩ 11 .success]

theorem subscriptions_consistent_sampleEvents :
    machine.Always Consistent new sampleEvents ∧ machine.Along SentOnce new sampleEvents ∧
      (machine.run new sampleEvents).toOption.map sent =
        some [(1, ascii "pub a\r\nx\r\n"), (2, ascii "pub a\r\nx\r\n")] := by
  obtain ⟨hconsistent, honce, -⟩ := subscriptions_consistent sampleEvents (by decide +kernel)
  have hplain : ∀ e ∈ sampleEvents, e.Plain := by decide +kernel
  have hwhole : machine.Along Whole new sampleEvents :=
    Machine.along_of_along (I := fun _ => True) (fun _ _ _ _ _ _ => trivial)
      (fun _ e _ he topic content hpub _ => he (topic, content) hpub) trivial
      (Machine.along_of_forall hplain new)
  exact ⟨hconsistent, honce.2 hwhole, by decide +kernel⟩

/-- A publication with a NUL byte: its subscriber gets what is in front of it, without an end. -/
theorem publication_cut :
    ¬ ∀ events, machine.Along Env new events →
      machine.Always Consistent new events ∧ machine.Along SentOnce new events := by
  intro h
  have hE : machine.Along Env new [.up 1, .command 1 ⟨ascii "sub", ascii "a", []⟩ 5 .success,
      .command 1 ⟨ascii "pub", ascii "a", [120, 0, 121]⟩ 6 .success] := by
    decide +kernel
  obtain ⟨-, hup⟩ := (along_sentOnce_iff hE).1 (h _ hE).2
  obtain ⟨-, hsub⟩ := hup _ rfl
  obtain ⟨hwhole, -⟩ := hsub _ rfl
  have hplain := hwhole (ascii "a") [120, 0, 121] rfl ⟨1, _, rfl, by decide +kernel⟩
  exact hplain.2.1 (by decide)

end PubSubServer

end Hub

end Reactor
