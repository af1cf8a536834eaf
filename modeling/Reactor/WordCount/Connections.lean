import Reactor.Lib.Machine
import Reactor.TcpConnection.Carries
import Reactor.WordCount.Receiver

/-!
# Counting words: the connections

The main threads of the senders queue the strings of their buckets on the connections to a receiver
and shut these down; the loops write them, and the receiver gets what the kernel has taken, in whatever
chunks.

* `word_count_exact`: whatever the senders' files, batches and maps, and in whatever order the threads
  and the loops take their steps, as long as no `handleWrite` hands deferred bytes to the kernel, a
  receiver writes once, when all senders are gone, and it writes the number of times that the words of
  its bucket occur in all the files, each word once.
-/

namespace Reactor

namespace WordCount

open TcpConnection (Carries)
open TcpConnection.OutputStream (ofRoom accepts_ofRoom)

/-- A receiver and the connections of its senders: the strings that the main threads have still to
pass to `send`, the senders' ends, how much the receiver has read, and which connections are up. -/
structure System where
  receiver : WordCountReceiver
  calls : ℕ → List Bytes
  conns : ℕ → TcpConnection
  taken : ℕ → ℕ
  up : ℕ → Bool

inductive Event where
  -- the next `send` of the main thread of a sender, or its `shutdown`
  | main (c : ℕ)
  | functor (c : ℕ) (room : Option ℕ) (d : ShutdownResult)
  | handleWrite (c : ℕ) (room : Option ℕ) (d : ShutdownResult)
  -- the next bytes of a connection come
  | message (c n : ℕ)
  | down (c : ℕ)
  deriving DecidableEq

namespace System

def setConn (s : System) (c : ℕ) (conn : TcpConnection) : System :=
  { s with conns := Function.update s.conns c conn }

/-- What the main thread of a sender does next with its connection. -/
def main (s : System) (c : ℕ) : Except Fault System :=
  match s.calls c with
  | [] => do return s.setConn c (← (s.conns c).shutdown false .success)
  | message :: messages => do
    let conn ← (s.conns c).send false message (.wrote 0)
    return { s.setConn c conn with calls := Function.update s.calls c messages }

end System

def step (s : System) : Event → Except Fault System
  | .main c => s.main c
  | .functor c room d => do
    let conn := s.conns c
    return s.setConn c (← conn.runFunctor (ofRoom room conn.asked) d)
  | .handleWrite c room d => do
    let conn := s.conns c
    return s.setConn c (← conn.handleWrite (ofRoom room conn.outputBuffer.readableBytes) d)
  | .message c n => do
    let data := ((s.conns c).accepted.drop (s.taken c)).take n
    return { s with
      receiver := ← s.receiver.onMessage c data, taken := Function.update s.taken c (s.taken c + n) }
  | .down c => return { s with receiver := s.receiver.onDown, up := Function.update s.up c false }

def machine : Machine System Event Fault := ⟨step⟩

/-- There are `k` senders, and all bytes come before the end of a connection. -/
def Env (k : ℕ) (s : System) : Event → Prop
  | .main c | .functor c _ _ | .handleWrite c _ _ => c < k
  | .message c n => s.up c = true ∧ 0 < n ∧ s.taken c + n ≤ (s.conns c).accepted.length
  | .down c => s.up c = true ∧ (s.conns c).writeHalfClosed = true ∧
    s.taken c = (s.conns c).accepted.length

instance (k : ℕ) (s : System) : ∀ e, Decidable (Env k s e)
  | .main _ | .functor _ _ _ | .handleWrite _ _ _ => inferInstanceAs (Decidable (_ < _))
  | .message _ _ | .down _ => inferInstanceAs (Decidable (_ ∧ _ ∧ _))

/-- No `handleWrite` hands bytes to the kernel. -/
def NoDeferredWrite (s : System) : Event → Prop
  | .handleWrite c room _ => (s.conns c).channel.isWriting → room = none ∨ room = some 0
  | .main _ | .functor _ _ _ | .message _ _ | .down _ => True

instance (s : System) : ∀ e, Decidable (NoDeferredWrite s e)
  | .handleWrite _ _ _ => inferInstanceAs (Decidable (_ → _))
  | .main _ | .functor _ _ _ | .message _ _ | .down _ => isTrue trivial

/-- The `shutdown(2)` of a queued `shutdownInLoop` succeeds. -/
def Event.Succeeds : Event → Prop
  | .functor _ _ d => d = .success
  | .main _ | .handleWrite _ _ _ | .message _ _ | .down _ => True

/-- `k` senders that are connected, with the callbacks that `SendThrottler::onConnection` sets; `calls`
are what their main threads pass to `send`. -/
def System.start (k : ℕ) (calls : ℕ → List Bytes) : System where
  receiver := .start k
  calls := calls
  conns c := (TcpConnection.new c true true (1024 * 1024)).established
  taken _ := 0
  up c := c < k

/-! ## One connection -/

/-- The connection of a sender that has `whole` to deliver. -/
structure Sends (whole : Bytes) (calls : List Bytes) (conn : TcpConnection) (taken : ℕ) : Prop where
  carries : ∃ sent, Carries conn sent ∧ sent ++ calls.flatten = whole
  messages : ∀ message ∈ calls, Whole message
  connected : calls ≠ [] → conn.state = .kConnected
  bound : taken ≤ conn.accepted.length

variable {whole : Bytes} {calls : List Bytes} {conn conn' : TcpConnection} {taken : ℕ}

theorem Sends.accepted (h : Sends whole calls conn taken) : conn.accepted <+: whole := by
  obtain ⟨sent, hcarries, rfl⟩ := h.carries
  exact hcarries.prefix_sent.trans (List.prefix_append _ _)

/-- What the kernel has is the next part of what is to be delivered. -/
theorem Sends.take_drop (h : Sends whole calls conn taken) {n : ℕ}
    (hn : taken + n ≤ conn.accepted.length) :
    (conn.accepted.drop taken).take n = (whole.drop taken).take n := by
  obtain ⟨rest, rfl⟩ := h.accepted
  rw [List.drop_append_of_le_length h.bound, List.take_append_of_le_length]
  rw [List.length_drop]
  omega

/-- A connection that is half-closed and read to its end has delivered everything. -/
theorem Sends.drop_eq_nil (h : Sends whole calls conn taken) (hhalf : conn.writeHalfClosed = true)
    (htaken : taken = conn.accepted.length) : whole.drop taken = [] := by
  obtain ⟨sent, hcarries, rfl⟩ := h.carries
  have hdown : conn.state ≠ .kConnected := fun hup => by
    rw [(hcarries.connected hup).2] at hhalf
    cases hhalf
  have hnone : calls = [] := by
    by_contra hne
    exact hdown (h.connected hne)
  rw [hnone, List.flatten_nil, List.append_nil, htaken, hcarries.accepted_eq hhalf, List.drop_length]

/-- The connection goes on carrying the same. -/
theorem Sends.carry (h : Sends whole calls conn taken) {sent : Bytes} (hcarries : Carries conn' sent)
    (hwhole : sent ++ calls.flatten = whole) (hstate : conn'.state = conn.state)
    (haccepted : conn.accepted <+: conn'.accepted) : Sends whole calls conn' taken :=
  ⟨⟨sent, hcarries, hwhole⟩, h.messages, fun hne => hstate.trans (h.connected hne),
    h.bound.trans haccepted.length_le⟩

/-- The main thread queues a string. -/
theorem Sends.send {message : Bytes} (h : Sends whole (message :: calls) conn taken) :
    ∃ conn', conn.send false message (.wrote 0) = .ok conn' ∧ Sends whole calls conn' taken := by
  obtain ⟨sent, hcarries, hwhole⟩ := h.carries
  obtain ⟨hshort, hnul⟩ := h.messages message List.mem_cons_self
  have hup := h.connected (List.cons_ne_nil message calls)
  obtain ⟨conn', hok, hcarries', hstate, haccepted⟩ := hcarries.queue hup hshort (.wrote 0)
  rw [cString_eq_self_iff.2 hnul] at hcarries'
  refine ⟨conn', hok, ⟨sent ++ message, hcarries', ?_⟩, fun m hm => h.messages m (List.mem_cons_of_mem _ hm),
    fun _ => hstate.trans hup, ?_⟩
  · rw [← hwhole, List.flatten_cons, List.append_assoc]
  · rw [haccepted]
    exact h.bound

/-- The main thread has nothing left to send. -/
theorem Sends.shutdown (h : Sends whole [] conn taken) :
    ∃ conn', conn.shutdown false .success = .ok conn' ∧ Sends whole [] conn' taken := by
  obtain ⟨sent, hcarries, hwhole⟩ := h.carries
  obtain ⟨conn', hok, hcarries', -, haccepted⟩ := hcarries.shutdown_off_loop .success
  refine ⟨conn', hok, ⟨sent, hcarries', hwhole⟩, h.messages, fun hne => absurd rfl hne, ?_⟩
  rw [haccepted]
  exact h.bound

theorem Sends.functor (h : Sends whole calls conn taken) (room : Option ℕ) (d : ShutdownResult) :
    (∃ conn', conn.runFunctor (ofRoom room conn.asked) d = .ok conn' ∧ Sends whole calls conn' taken) ∨
      conn.runFunctor (ofRoom room conn.asked) d = .error .shutdownWrite ∧ d ≠ .success := by
  obtain ⟨sent, hcarries, hwhole⟩ := h.carries
  refine (hcarries.functor (accepts_ofRoom room conn.asked) d).imp_left ?_
  rintro ⟨conn', hok, hcarries', hstate, haccepted⟩
  exact ⟨conn', hok, h.carry hcarries' hwhole hstate haccepted⟩

theorem Sends.handleWrite (h : Sends whole calls conn taken) {room : Option ℕ}
    (hroom : conn.channel.isWriting → room = none ∨ room = some 0) (len : ℕ) (d : ShutdownResult) :
    ∃ conn', conn.handleWrite (ofRoom room len) d = .ok conn' ∧ Sends whole calls conn' taken := by
  obtain ⟨sent, hcarries, hwhole⟩ := h.carries
  obtain ⟨conn', hok, hcarries', hstate, haccepted⟩ :=
    hcarries.handleWrite (TcpConnection.written_eq_nil hroom len) d
  refine ⟨conn', hok, h.carry hcarries' hwhole hstate ?_⟩
  rw [haccepted]

/-! ## All connections -/

section System

variable {k : ℕ} {recs : ℕ → WordCountMap} {s s' : System}

/-- What the receiver sees of the connections, when the records `recs` are to be delivered. -/
def seen (recs : ℕ → WordCountMap) (s : System) : Receiving :=
  ⟨s.receiver, fun c => ((recs c).flatMap line).drop (s.taken c), s.up⟩

structure Underway (k : ℕ) (recs : ℕ → WordCountMap) (s : System) : Prop where
  received : ∃ got rest, Inv k recs got rest (seen recs s)
  sends : ∀ c < k, Sends ((recs c).flatMap line) (s.calls c) (s.conns c) (s.taken c)

/-- A sender does something with its connection, of which the receiver sees nothing. -/
theorem Underway.of_sender (h : Underway k recs s) {c : ℕ} {calls : List Bytes} {conn : TcpConnection}
    (hsends : Sends ((recs c).flatMap line) calls conn (s.taken c)) :
    Underway k recs
      { s with calls := Function.update s.calls c calls, conns := Function.update s.conns c conn } := by
  refine ⟨h.received, fun d hd => ?_⟩
  dsimp only
  by_cases hdc : d = c
  · subst hdc
    rwa [Function.update_self, Function.update_self]
  · rw [Function.update_of_ne hdc, Function.update_of_ne hdc]
    exact h.sends d hd

theorem Underway.setConn (h : Underway k recs s) {c : ℕ} {conn : TcpConnection}
    (hsends : Sends ((recs c).flatMap line) (s.calls c) conn (s.taken c)) :
    Underway k recs (s.setConn c conn) := by
  have hset := h.of_sender hsends
  rw [Function.update_eq_self] at hset
  exact hset

theorem Underway.main (h : Underway k recs s) {c : ℕ} (hc : c < k) :
    ∃ s', s.main c = .ok s' ∧ Underway k recs s' := by
  have hsends := h.sends c hc
  unfold System.main
  cases hcalls : s.calls c with
  | nil =>
    rw [hcalls] at hsends
    obtain ⟨conn, hok, hsends'⟩ := hsends.shutdown
    rw [← hcalls] at hsends'
    refine ⟨s.setConn c conn, ?_, h.setConn hsends'⟩
    dsimp only
    rw [hok]
    rfl
  | cons message messages =>
    rw [hcalls] at hsends
    obtain ⟨conn, hok, hsends'⟩ := hsends.send
    refine ⟨_, ?_, h.of_sender hsends'⟩
    dsimp only
    rw [hok]
    rfl

theorem Underway.message (h : Underway k recs s) (hproper : ∀ c, ∀ e ∈ recs c, Proper e)
    (hlt : ∑ c ∈ Finset.range k, Tally.sum (fun _ => true) (recs c) < 2 ^ 63) {c n : ℕ}
    (hup : s.up c = true) (hn : s.taken c + n ≤ (s.conns c).accepted.length) :
    ∃ s', step s (.message c n) = .ok s' ∧ Underway k recs s' := by
  obtain ⟨got, rest, hinv⟩ := h.received
  have hc : c < k := hinv.up c hup
  obtain ⟨t, got', rest', hok, hinv'⟩ := message_spec hinv hproper hlt (n := n) hup
  obtain ⟨receiver, hreceiver, hret⟩ := bind_eq_ok.1 hok
  obtain rfl := Except.ok.inj hret
  rw [show ((seen recs s).wire c).take n = ((s.conns c).accepted.drop (s.taken c)).take n from
    ((h.sends c hc).take_drop hn).symm] at hreceiver
  refine ⟨{ s with receiver := receiver, taken := Function.update s.taken c (s.taken c + n) }, ?_,
    ⟨got', rest', ?_⟩, fun d hd => ?_⟩
  · rw [step, show s.receiver.onMessage c _ = .ok receiver from hreceiver]
    rfl
  · have hwire : (seen recs { s with
        receiver := receiver
        taken := Function.update s.taken c (s.taken c + n) }).wire =
        Function.update (seen recs s).wire c (((seen recs s).wire c).drop n) := by
      funext d
      by_cases hd : d = c
      · subst hd
        rw [Function.update_self]
        show List.drop (Function.update s.taken d (s.taken d + n) d) _ = List.drop n (List.drop _ _)
        rw [Function.update_self, List.drop_drop]
      · rw [Function.update_of_ne hd]
        show List.drop (Function.update s.taken c (s.taken c + n) d) _ = _
        rw [Function.update_of_ne hd]
        rfl
    rw [← hwire] at hinv'
    exact hinv'
  · dsimp only
    by_cases hdc : d = c
    · subst hdc
      rw [Function.update_self]
      exact { h.sends d hd with bound := hn }
    · rw [Function.update_of_ne hdc]
      exact h.sends d hd

theorem Underway.down (h : Underway k recs s) (hproper : ∀ c, ∀ e ∈ recs c, Proper e) {c : ℕ}
    (hup : s.up c = true) (hhalf : (s.conns c).writeHalfClosed = true)
    (htaken : s.taken c = (s.conns c).accepted.length) :
    Underway k recs { s with receiver := s.receiver.onDown, up := Function.update s.up c false } := by
  obtain ⟨got, rest, hinv⟩ := h.received
  have hwire := (h.sends c (hinv.up c hup)).drop_eq_nil hhalf htaken
  exact ⟨⟨got, rest, down_spec hinv hproper hup hwire⟩, h.sends⟩

theorem underway_step (hproper : ∀ c, ∀ e ∈ recs c, Proper e)
    (hlt : ∑ c ∈ Finset.range k, Tally.sum (fun _ => true) (recs c) < 2 ^ 63) (s : System) (e : Event)
    (h : Underway k recs s) (he : Env k s e ∧ NoDeferredWrite s e) :
    (∃ s', machine.step s e = .ok s' ∧ Underway k recs s') ∨
      machine.step s e = .error .shutdownWrite ∧ ¬ e.Succeeds := by
  show (∃ s', step s e = .ok s' ∧ Underway k recs s') ∨ step s e = .error .shutdownWrite ∧ ¬ e.Succeeds
  obtain ⟨henv, hwrite⟩ := he
  cases e with
  | main c => exact .inl (h.main henv)
  | functor c room d =>
    rcases (h.sends c henv).functor room d with ⟨conn, hok, hsends⟩ | ⟨hfault, hd⟩
    · exact .inl ⟨s.setConn c conn, by rw [step, hok]; rfl, h.setConn hsends⟩
    · exact .inr ⟨by rw [step, hfault]; rfl, hd⟩
  | handleWrite c room d =>
    obtain ⟨conn, hok, hsends⟩ := (h.sends c henv).handleWrite hwrite
      (s.conns c).outputBuffer.readableBytes d
    exact .inl ⟨s.setConn c conn, by rw [step, hok]; rfl, h.setConn hsends⟩
  | message c n => exact .inl (h.message hproper hlt henv.1 henv.2.2)
  | down c => exact .inl ⟨_, rfl, h.down hproper henv.1 henv.2.1 henv.2.2⟩

theorem underway_start (hk : 0 < k) {calls : ℕ → List Bytes}
    (hcalls : ∀ c < k, (calls c).flatten = (recs c).flatMap line ∧ ∀ message ∈ calls c, Whole message) :
    Underway k recs (.start k calls) := by
  refine ⟨⟨_, _, inv_start hk recs fun c _ => rfl⟩, fun c hc => ?_⟩
  obtain ⟨hflatten, hwhole⟩ := hcalls c hc
  exact ⟨⟨[], TcpConnection.carries_established c true true _, hflatten⟩, hwhole, fun _ => rfl,
    Nat.zero_le _⟩

end System

/-- How often the words of the bucket occur in the files, a word being known by its C string. -/
def expected (hash : Bytes → ℕ) (k n i : ℕ) (files : ℕ → List (Option Bytes)) (p : Bytes → Bool) : ℤ :=
  ∑ j ∈ Finset.range k, ((allWords (files j)).countP fun w => p (cString w) && hash w % n = i : ℕ)


theorem word_count_exact (hash : Bytes → ℕ) (cfg : ℕ → Config) (hhash : ∀ j, (cfg j).hash = hash)
    (hbatch : ∀ j, (cfg j).batchSize < 2 ^ 31) (k n i : ℕ) (hk : 0 < k) (hi : i < n)
    (files : ℕ → List (Option Bytes))
    (hwords : ∀ j, Countable (cfg j).batchSize (allWords (files j)))
    (hfew : ∑ j ∈ Finset.range k, (allWords (files j)).length < 2 ^ 63) :
    (∀ j, ∃ s, (WordCountSender.new n).processFiles (cfg j) (files j) = .ok s) ∧
      ∀ calls : ℕ → List Bytes,
        (∀ j < k, ∀ s, (WordCountSender.new n).processFiles (cfg j) (files j) = .ok s →
          calls j = (s.buckets i).sent) →
        ∀ es, machine.Along (fun s e => Env k s e ∧ NoDeferredWrite s e) (.start k calls) es →
          (∀ f, machine.run (.start k calls) es = .error f →
            f = .shutdownWrite ∧ ∃ e ∈ es, ¬ e.Succeeds) ∧
          machine.Always (fun s => Exact k (expected hash k n i files) s.receiver s.up)
            (.start k calls) es := by
  have hn : 0 < n := Nat.zero_lt_of_lt hi
  choose s records hs hcounts hsent using fun j => processFiles_spec (hbatch j) hn (hwords j)
  refine ⟨fun j => ⟨s j, hs j⟩, fun calls hcalls es hE => ?_⟩
  have hstart : ∀ j < k, (calls j).flatten = (share (cfg j) n i (records j)).flatMap line ∧
      ∀ message ∈ calls j, Whole message := by
    intro j hj
    rw [hcalls j hj (s j) (hs j)]
    exact hsent j i hi
  have hproper : ∀ j, ∀ e ∈ share (cfg j) n i (records j), Proper e := by
    intro j e he
    have hmem := (List.mem_filter.1 he).1
    have hsendable := (hcounts j).sendable (hwords j) e hmem
    obtain ⟨file, -, hword⟩ := List.mem_flatMap.1 ((hcounts j).key e hmem)
    exact ⟨not_isspace_of_mem_words hword, hsendable.nonneg, hsendable.lt⟩
  have hshare : ∀ j p, Tally.sum p (share (cfg j) n i (records j)) =
      ((allWords (files j)).countP fun w => p w && hash w % n = i : ℕ) := by
    intro j p
    rw [share, hhash, Tally.sum_filter p (fun w => hash w % n = i), (hcounts j).sum]
  have hlt : ∑ j ∈ Finset.range k, Tally.sum (fun _ => true) (share (cfg j) n i (records j)) <
      2 ^ 63 := by
    calc ∑ j ∈ Finset.range k, Tally.sum (fun _ => true) (share (cfg j) n i (records j))
        ≤ ∑ j ∈ Finset.range k, ((allWords (files j)).length : ℤ) := by
          refine Finset.sum_le_sum fun j _ => ?_
          rw [hshare]
          exact_mod_cast List.countP_le_length
      _ < 2 ^ 63 := by exact_mod_cast hfew
  have hexpected : (fun p => ∑ j ∈ Finset.range k,
      Tally.sum (fun w => p (cString w)) (share (cfg j) n i (records j))) =
      expected hash k n i files := by
    funext p
    exact Finset.sum_congr rfl fun j _ => hshare j _
  rw [← hexpected]
  obtain ⟨hrun, hinv⟩ :=
    Machine.fault_always_of_along (underway_step hproper hlt) (underway_start hk hstart) hE
  exact ⟨hrun, hinv.mono fun s hs => by
    obtain ⟨_, _, h⟩ := hs.received
    exact h.exact⟩

/-- The files of two senders. -/
def twoFiles : ℕ → List (Option Bytes)
  | 0 => [some (ascii "to be or\nnot to be  "), none]
  | 1 => [some (ascii "all")]
  | _ => []

/-- The first sender makes no batches; the words are told apart by their lengths. -/
def twoSenders (j : ℕ) : Config := ⟨if j = 0 then 0 else 100, List.length, id, fun _ => .rfl⟩

/-- What the main threads of the two senders pass to the connections to the second receiver. -/
def twoCalls (j : ℕ) : List Bytes := if j = 0 then [ascii "not\t1\r\n"] else [ascii "all\t1\r\n"]

/-- The receiver of the words of odd length gets the bytes of both senders in turns. -/
theorem word_count_exact_two :
    machine.Always (fun s => Exact 2 (expected List.length 2 2 1 twoFiles) s.receiver s.up)
      (.start 2 twoCalls)
      [.main 1, .main 0, .functor 1 (some 3) .success, .message 1 2, .functor 0 (some 7) .success,
        .handleWrite 1 none .success, .main 0, .message 0 7, .functor 0 none .success,
        .functor 0 none .success, .down 0] := by
  have hbatch : ∀ j, (twoSenders j).batchSize ≤ 100 := by
    intro j
    unfold twoSenders
    dsimp only
    split_ifs <;> decide
  have hwords : ∀ j, Countable (twoSenders j).batchSize (allWords (twoFiles j)) := by
    intro j
    match j with
    | 0 => exact ⟨by decide +kernel, by decide +kernel⟩
    | 1 => exact ⟨by decide +kernel, by decide +kernel⟩
    | j + 2 => exact ⟨fun w hw => absurd hw List.not_mem_nil, show 0 < 2 ^ 63 by decide⟩
  have hexact := word_count_exact List.length twoSenders (fun _ => rfl)
    (fun j => lt_of_le_of_lt (hbatch j) (by decide)) 2 2 1 (by decide) (by decide) twoFiles hwords
    (by decide +kernel)
  refine (hexact.2 twoCalls (fun j hj s hs => ?_) _ (by decide +kernel)).2
  have hsent : ∀ j < 2, (((WordCountSender.new 2).processFiles (twoSenders j) (twoFiles j)).map
      fun s => (s.buckets 1).sent) = .ok (twoCalls j) := by
    decide +kernel
  have hj' := hsent j hj
  rw [hs] at hj'
  exact (Except.ok.inj hj').symm

end WordCount

end Reactor
