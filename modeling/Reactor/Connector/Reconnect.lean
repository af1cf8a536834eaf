import Reactor.Connector.Attempts

/-!
# A client that keeps connecting

A client whose retry is enabled, from `connect()` on and as long as neither `disconnect()` nor `stop()`
is called.  Of a retry timer, a connecting channel and a connection exactly one is there: each of them
ends in the next one.  Only an error of `connect(2)` that `Connector::connect` does not retry ends in
nothing.

* `step_attempts`: a step keeps their number, less one for such an error.
* `keeps_connecting_iff`: the client goes on exactly as long as no attempt ends in such an error, and
  after the first one it makes no attempt any more.
* `stop_is_final`: after `stop()` no attempt is made and no connection comes up.

That a run returns is to say that no assertion of `TcpClient` or `Connector` fails.  The half-close of
a connection is not part of these runs.
-/

namespace Reactor

/-- The outcomes after which the attempt is under way or will be made again. -/
def ConnectErrno.expected (errno : ConnectErrno) : Bool := errno.underWay || errno.retried

namespace Connector

/-- The retry timers and the connecting channel. -/
def outstanding (c : Connector) : ℕ := c.retryTimers + if c.channel = .registered then 1 else 0

variable {c c' : Connector} {errno : ConnectErrno}

theorem outstanding_of_ne (h : c.channel ≠ .registered) : c.outstanding = c.retryTimers := by
  rw [outstanding, if_neg h, Nat.add_zero]

@[simp] theorem retry_connect_ : c.retry.connect_ = c.connect_ := by
  unfold retry
  dsimp only
  split_ifs <;> rfl

theorem outstanding_retry (h : c.connect_ = true) : c.retry.outstanding = c.outstanding + 1 := by
  unfold retry outstanding
  dsimp only
  rw [if_pos h]
  exact Nat.add_right_comm ..

theorem of_connect_unexpected (he : errno.expected = false) (h : c.connect errno = .ok c') :
    c' = c := by
  cases errno with
  | EACCES | EPERM | EAFNOSUPPORT | EALREADY | EBADF | EFAULT | ENOTSOCK | other =>
    exact (Except.ok.inj h).symm
  | _ => cases he

/-- An attempt adds a channel or a timer, unless it ends in an error that is not expected. -/
theorem outstanding_connect (hconn : c.connect_ = true) (h : c.connect errno = .ok c') :
    c'.connect_ = true ∧ c'.outstanding = c.outstanding + if errno.expected = true then 1 else 0 := by
  by_cases hu : errno.underWay = true
  · obtain ⟨hnull, rfl⟩ := of_connect_underWay hu h
    have hout : c.outstanding = c.retryTimers := outstanding_of_ne (by rw [hnull]; decide)
    rw [hout, if_pos (by rw [ConnectErrno.expected, hu, Bool.true_or])]
    exact ⟨hconn, rfl⟩
  by_cases hr : errno.retried = true
  · obtain rfl := of_connect_retried hr h
    rw [if_pos (by rw [ConnectErrno.expected, hr, Bool.or_true])]
    exact ⟨retry_connect_.trans hconn, outstanding_retry hconn⟩
  · have he : errno.expected = false := by simp [ConnectErrno.expected, hu, hr]
    obtain rfl := of_connect_unexpected he h
    rw [if_neg (by rw [he]; decide)]
    exact ⟨hconn, rfl⟩

theorem outstanding_startInLoop (hconn : c.connect_ = true) (h : c.startInLoop errno = .ok c') :
    c'.connect_ = true ∧ c'.outstanding = c.outstanding + if errno.expected = true then 1 else 0 :=
  outstanding_connect hconn ((of_startInLoop h).2 hconn)

/-- An attempt of a connector that was told to stop. -/
theorem startInLoop_of_stopped (hconn : c.connect_ = false) (h : c.startInLoop errno = .ok c') :
    c' = c := by
  obtain ⟨-, h⟩ := check_bind_eq_ok.1 h
  rw [if_neg (by rw [hconn]; decide)] at h
  exact (Except.ok.inj h).symm

/-- A channel whose reset is in the queue was removed. -/
theorem Inv.removed_of_mem (h : Inv c) (hmem : Functor.resetChannel ∈ c.pendingFunctors) :
    c.channel = .removed := by
  have hpos := List.count_pos_iff.2 hmem
  rw [h.resets] at hpos
  by_contra hne
  rw [if_neg hne] at hpos
  exact Nat.lt_irrefl 0 hpos

/-! ## An attempt that ends -/

/-- The attempt is given up, and made again later unless the connector was told to stop. -/
def givenUp (c : Connector) : Connector :=
  ({ c with channel := .removed }.queueInLoop .resetChannel).retry

@[simp] theorem givenUp_connect_ : c.givenUp.connect_ = c.connect_ := retry_connect_

@[simp] theorem givenUp_state : c.givenUp.state = .kDisconnected := retry_state

/-- The channel becomes a timer. -/
theorem outstanding_givenUp (hconn : c.connect_ = true) (hc : c.channel = .registered) :
    c.givenUp.outstanding = c.outstanding := by
  have hout : c.givenUp.outstanding =
      ({ c with channel := .removed }.queueInLoop .resetChannel).outstanding + 1 :=
    outstanding_retry hconn
  rw [hout, outstanding, outstanding, if_pos hc]
  rfl

theorem Inv.handleError_eq (h : Inv c) (hs : c.state = .kConnecting) :
    c.handleError = .ok c.givenUp := by
  unfold Connector.handleError
  rw [if_pos hs, h.removeAndResetChannel hs]
  rfl

theorem Inv.stopInLoop_eq (h : Inv c) :
    c.stopInLoop = .ok (if c.state = .kConnecting then c.givenUp else c) := by
  unfold Connector.stopInLoop
  split_ifs with hs
  · have hchannel : c.channel ≠ .null := by
      rw [h.registered.1 hs]
      decide
    rw [Connector.removeAndResetChannel, check_of hchannel]
    rfl
  · rfl

/-- The attempt is given up, or the connector is connected and the callback is invoked unless it was
told to stop. -/
theorem Inv.handleWrite_eq (h : Inv c) (hs : c.state = .kConnecting) (o : SocketOutcome) :
    c.handleWrite o = .ok (if o = .connected then
        (c.connect_, { { c with channel := .removed }.queueInLoop .resetChannel with state := .kConnected })
      else (false, c.givenUp)) := by
  unfold Connector.handleWrite
  rw [if_pos hs, h.removeAndResetChannel hs, ok_bind]
  cases o <;> rfl

end Connector

namespace TcpClient

open Connector (Functor)

/-- The retry timers, the connecting channel and the connection. -/
def System.attempts (s : System) : ℕ :=
  s.connector.outstanding + if s.client.connection = none then 0 else 1

/-- The errno of the `connect(2)` that a step calls, if it does. -/
def System.attempted (s : System) : Action → Option ConnectErrno
  | .connect errno => some errno
  | .timer errno => if s.connector.connect_ then some errno else none
  | .close errno =>
    if s.client.connection ≠ none ∧ s.client.retry_ ∧ s.client.connect_ then some errno else none
  | .functor errno =>
    match s.phase, s.connector.pendingFunctors with
    | .functors (_ + 1), .forceCloseInLoop conn :: _ =>
      if s.client.connection = some conn ∧ s.client.retry_ ∧ s.client.connect_ then some errno
      else none
    | _, _ => none
  | .enableRetry | .disconnect | .stop | .forceClose | .event _ _ _ | .poll | .handled => none

/-- The attempt of the step, if it makes one, is under way or will be made again. -/
def Expected (s : System) (a : Action) : Prop := ∀ errno ∈ s.attempted a, errno.expected = true

instance (s : System) (a : Action) : Decidable (Expected s a) :=
  inferInstanceAs (Decidable (∀ errno ∈ s.attempted a, errno.expected = true))

/-- The steps but for the calls that start the client or stop it. -/
def Quiet : Action → Prop
  | .connect _ | .disconnect | .stop => False
  | .enableRetry | .forceClose | .event _ _ _ | .close _ | .timer _ | .poll | .handled
  | .functor _ => True

instance : ∀ a, Decidable (Quiet a)
  | .connect _ | .disconnect | .stop => isFalse id
  | .enableRetry | .forceClose | .event _ _ _ | .close _ | .timer _ | .poll | .handled
  | .functor _ => isTrue trivial

/-- Retry is enabled, and the client was told to connect and nothing else. -/
structure Trying (s : System) : Prop where
  retry_ : s.client.retry_ = true
  connect_ : s.client.connect_ = true
  connector : s.connector.connect_ = true

variable {s s' : System} {a : Action}

theorem oneAttempt_iff : OneAttempt s ↔ s.attempts ≤ 1 := Iff.rfl

theorem expected_of_none (h : s.attempted a = none) : Expected s a := by
  intro errno he
  rw [h] at he
  cases he

theorem expected_iff {errno : ConnectErrno} (h : s.attempted a = some errno) :
    Expected s a ↔ errno.expected = true := by
  unfold Expected
  rw [h]
  exact ⟨fun hall => hall errno rfl, fun he e hmem => Option.some.inj hmem ▸ he⟩

/-- The connector alone has changed. -/
theorem Trying.setConnector (h : Trying s) {c : Connector} (hconn : c.connect_ = true)
    {n : ℕ} (hout : c.outstanding + n = s.connector.outstanding) :
    Trying (s.setConnector c) ∧ (s.setConnector c).attempts + n = s.attempts := by
  refine ⟨⟨h.retry_, h.connect_, hconn⟩, ?_⟩
  unfold System.attempts
  rw [← hout, Nat.add_right_comm]
  rfl

/-- The connection is gone, and the next attempt is made. -/
theorem Trying.close (h : Trying s) {conn : ℕ} {errno : ConnectErrno}
    (hconn : s.client.connection = some conn) (hok : s.close conn errno = .ok s') :
    Trying s' ∧ s'.attempts + (if errno.expected = true then 0 else 1) = s.attempts := by
  obtain ⟨t, ht, hok⟩ := bind_eq_ok.1 hok
  obtain rfl := Except.ok.inj hok
  unfold removeConnection at ht
  rw [check_of hconn, ok_bind] at ht
  dsimp only at ht
  rw [if_pos ⟨h.retry_, h.connect_⟩] at ht
  obtain ⟨c', hrestart, ht⟩ := bind_eq_ok.1 ht
  obtain rfl := Except.ok.inj ht
  obtain ⟨hconn', hout⟩ := Connector.outstanding_startInLoop rfl hrestart
  refine ⟨⟨h.retry_, h.connect_, hconn'⟩, ?_⟩
  have hbefore : s.attempts = s.connector.outstanding + 1 := by
    rw [System.attempts, hconn]
    rfl
  have hafter : System.attempts ⟨⟨c', s.client.retry_, s.client.connect_, none, s.client.nextConnId⟩,
      s.phase, false⟩ = s.connector.outstanding + if errno.expected = true then 1 else 0 := hout
  rw [hbefore]
  refine (congrArg (· + _) hafter).trans ?_
  split_ifs <;> rfl

theorem Trying.timer (h : Trying s) {errno : ConnectErrno} (hpos : 0 < s.connector.retryTimers)
    (hok : s.step (.timer errno) = .ok s') :
    Trying s' ∧ s'.attempts + (if errno.expected = true then 0 else 1) = s.attempts := by
  obtain ⟨c', hstart, hok⟩ := bind_eq_ok.1 hok
  obtain rfl := Except.ok.inj hok
  obtain ⟨hconn, hout⟩ := Connector.outstanding_startInLoop
    (c := { s.connector with retryTimers := s.connector.retryTimers - 1 }) h.connector hstart
  refine h.setConnector hconn ?_
  rw [hout]
  unfold Connector.outstanding
  dsimp only
  split_ifs <;> omega

/-- What an event of the connecting channel comes to. -/
theorem Inv.of_event (h : Inv s) {error write : Bool} {o : SocketOutcome}
    (henv : Env s (.event error write o)) (hok : s.step (.event error write o) = .ok s') :
    s' = s ∨ s' = s.setConnector s.connector.givenUp ∨
      ∃ c, c = { { s.connector with channel := .removed }.queueInLoop .resetChannel with
        state := .kConnected } ∧
        s' = if s.connector.connect_ then
          { s.setConnector c with client := (s.setConnector c).client.newConnection }
        else s.setConnector c := by
  have hs := h.connector.registered.2 henv.2
  have herror : s.handleError = .ok (s.setConnector s.connector.givenUp) := by
    simp only [System.handleError, h.connector.handleError_eq hs]
    rfl
  cases error with
  | true =>
    refine .inr (.inl ?_)
    simp only [System.step, if_true, herror, ok_bind] at hok
    cases write with
    | false => exact (Except.ok.inj hok).symm
    | true =>
      simp only [if_true, System.handleWrite] at hok
      rw [show (s.setConnector s.connector.givenUp).connector = s.connector.givenUp from rfl,
        Connector.handleWrite_of_disconnected Connector.givenUp_state o] at hok
      exact (Except.ok.inj hok).symm
  | false =>
    cases write with
    | false => exact .inl (Except.ok.inj hok).symm
    | true =>
      have hwrite : s.handleWrite o = .ok s' := hok
      unfold System.handleWrite at hwrite
      rw [h.connector.handleWrite_eq hs, ok_bind] at hwrite
      split_ifs at hwrite with ho
      · exact .inr (.inr ⟨_, rfl, (Except.ok.inj hwrite).symm⟩)
      · exact .inr (.inl (Except.ok.inj hwrite).symm)

/-- The attempt that has an event becomes a timer or a connection. -/
theorem Trying.event (h : Trying s) (hinv : Inv s) {error write : Bool} {o : SocketOutcome}
    (henv : Env s (.event error write o)) (hok : s.step (.event error write o) = .ok s') :
    Trying s' ∧ s'.attempts = s.attempts := by
  obtain rfl | rfl | ⟨c, hc, rfl⟩ := hinv.of_event henv hok
  · exact ⟨h, rfl⟩
  · exact h.setConnector (n := 0) (Connector.givenUp_connect_.trans h.connector)
      (Connector.outstanding_givenUp h.connector henv.2)
  · rw [if_pos h.connector]
    subst hc
    refine ⟨⟨h.retry_, h.connect_, h.connector⟩, ?_⟩
    have hidle : s.client.connection = none :=
      hinv.idle (by rw [hinv.connector.registered.2 henv.2]; decide)
    unfold System.attempts Connector.outstanding
    rw [hidle, if_pos henv.2]
    rfl

/-- The functor at the head of the queue. -/
theorem Trying.functor (h : Trying s) (hinv : Inv s) {errno : ConnectErrno}
    (hok : s.step (.functor errno) = .ok s') :
    Trying s' ∧ s'.attempts + (if Expected s (.functor errno) then 0 else 1) = s.attempts := by
  simp only [System.step] at hok
  split at hok
  · next n f fs hp hq =>
    have hpopped : Trying (s.popped n fs) := ⟨h.retry_, h.connect_, h.connector⟩
    change (s.popped n fs).runFunctor errno f = .ok s' at hok
    cases f with
    | stopInLoop =>
      rw [if_pos (expected_of_none (by simp only [System.attempted, hp, hq]))]
      have hinv' : Inv (s.popped n fs) := hinv.popped hp hq (by simp)
      simp only [System.runFunctor, hinv'.connector.stopInLoop_eq] at hok
      obtain rfl := Except.ok.inj hok
      split_ifs with hs
      · exact hpopped.setConnector (c := (s.popped n fs).connector.givenUp) (n := 0)
          (Connector.givenUp_connect_.trans h.connector)
          (Connector.outstanding_givenUp h.connector (hinv'.connector.registered.1 hs))
      · exact hpopped.setConnector (c := (s.popped n fs).connector) (n := 0) h.connector rfl
    | resetChannel =>
      rw [if_pos (expected_of_none (by simp only [System.attempted, hp, hq]))]
      obtain rfl := Except.ok.inj hok
      have hr : s.connector.channel = .removed :=
        hinv.connector.removed_of_mem (by rw [hq]; exact List.mem_cons_self)
      have hne : s.connector.channel ≠ .registered := by
        rw [hr]
        decide
      refine hpopped.setConnector (c := (s.popped n fs).connector.resetChannel) (n := 0) h.connector ?_
      exact (Connector.outstanding_of_ne (c := s.connector) hne).symm
    | forceCloseInLoop conn =>
      simp only [System.runFunctor] at hok
      split_ifs at hok with hconn
      · have hattempt : s.attempted (.functor errno) = some errno := by
          simp only [System.attempted, hp, hq]
          exact if_pos ⟨hconn, h.retry_, h.connect_⟩
        simp only [expected_iff hattempt]
        exact hpopped.close hconn hok
      · have hnone : s.attempted (.functor errno) = none := by
          simp only [System.attempted, hp, hq]
          exact if_neg fun hc => hconn hc.1
        rw [if_pos (expected_of_none hnone)]
        obtain rfl := Except.ok.inj hok
        exact ⟨hpopped, rfl⟩
  · next hidle =>
    have hnone : s.attempted (.functor errno) = none := by
      simp only [System.attempted]
      split
      · next n conn fs hp hq => exact (hidle n _ fs hp hq).elim
      · rfl
    rw [if_pos (expected_of_none hnone)]
    obtain rfl := Except.ok.inj hok
    exact ⟨h, rfl⟩

/-- A step keeps the number of attempts, less one for an attempt that is not made again. -/
theorem step_attempts (h : Trying s) (hinv : Inv s) (henv : Env s a) (hquiet : Quiet a)
    (hok : s.step a = .ok s') :
    Trying s' ∧ s'.attempts + (if Expected s a then 0 else 1) = s.attempts := by
  cases a with
  | connect errno => exact hquiet.elim
  | disconnect => exact hquiet.elim
  | stop => exact hquiet.elim
  | enableRetry =>
    obtain rfl := Except.ok.inj hok
    rw [if_pos (expected_of_none rfl)]
    exact ⟨⟨rfl, h.connect_, h.connector⟩, rfl⟩
  | forceClose =>
    rw [if_pos (expected_of_none rfl)]
    obtain ⟨conn, hconn⟩ := Option.ne_none_iff_exists'.1 henv
    simp only [System.step, hconn] at hok
    obtain rfl := Except.ok.inj hok
    exact h.setConnector (c := s.connector.queueInLoop (.forceCloseInLoop conn)) (n := 0) h.connector rfl
  | event error write o =>
    rw [if_pos (expected_of_none rfl)]
    exact h.event hinv henv hok
  | close errno =>
    obtain ⟨-, -, hne⟩ := henv
    obtain ⟨conn, hconn⟩ := Option.ne_none_iff_exists'.1 hne
    have hattempt : s.attempted (.close errno) = some errno := if_pos ⟨hne, h.retry_, h.connect_⟩
    simp only [System.step, hconn] at hok
    simp only [expected_iff hattempt]
    exact h.close hconn hok
  | timer errno =>
    have hattempt : s.attempted (.timer errno) = some errno := if_pos h.connector
    simp only [expected_iff hattempt]
    exact h.timer henv.2 hok
  | poll =>
    obtain rfl := Except.ok.inj hok
    rw [if_pos (expected_of_none rfl)]
    exact ⟨⟨h.retry_, h.connect_, h.connector⟩, rfl⟩
  | handled =>
    obtain rfl := Except.ok.inj hok
    rw [if_pos (expected_of_none rfl)]
    exact ⟨⟨h.retry_, h.connect_, h.connector⟩, rfl⟩
  | functor errno => exact h.functor hinv hok

/-! ## From `connect()` on -/

/-- With nothing outstanding there is nothing that could start an attempt. -/
theorem attempted_eq_none (henv : Env s a) (hquiet : Quiet a) (h : s.attempts = 0) :
    s.attempted a = none := by
  have hconn : s.client.connection = none := by
    by_contra hne
    rw [System.attempts, if_neg hne] at h
    cases h
  cases a with
  | connect errno => exact hquiet.elim
  | close errno => exact absurd hconn henv.2.2
  | timer errno =>
    have hpos := henv.2
    unfold System.attempts Connector.outstanding at h
    omega
  | functor errno =>
    simp only [System.attempted]
    split
    · exact if_neg (by simp [hconn])
    · rfl
  | _ => rfl

/-- What happens as long as the client goes on by itself. -/
def Undisturbed (s : System) (a : Action) : Prop := (Env s a ∧ InOrder s a) ∧ Quiet a

theorem undisturbed_step (h : Trying s ∧ Inv s) (ha : Undisturbed s a) :
    ∃ s', machine.step s a = .ok s' ∧ (Trying s' ∧ Inv s') ∧
      s'.attempts + (if Expected s a then 0 else 1) = s.attempts := by
  obtain ⟨s', hok, hinv⟩ := h.2.step ha.1.1 ha.1.2
  obtain ⟨htrying, hattempts⟩ := step_attempts h.1 h.2 ha.1.1 ha.2 hok
  exact ⟨s', hok, ⟨htrying, hinv⟩, hattempts⟩

theorem always_one_iff (h : Trying s ∧ Inv s) (hone : s.attempts = 1) {as : List Action}
    (has : machine.Along Undisturbed s as) :
    machine.Always (fun s => s.attempts = 1) s as ↔ machine.Along Expected s as := by
  have hstep : ∀ s a, Trying s ∧ Inv s → Undisturbed s a → ∃ s', machine.step s a = .ok s' ∧
      (Trying s' ∧ Inv s') ∧ (s.attempts = 1 → (s'.attempts = 1 ↔ Expected s a)) := by
    intro s a h ha
    obtain ⟨s', hok, h', hattempts⟩ := undisturbed_step h ha
    refine ⟨s', hok, h', fun hone => ?_⟩
    by_cases hexp : Expected s a
    · rw [if_pos hexp] at hattempts
      exact iff_of_true (hattempts.trans hone) hexp
    · rw [if_neg hexp] at hattempts
      exact iff_of_false (fun hone' => by omega) hexp
  exact Machine.always_iff_along hstep h hone has

/-- With nothing outstanding nothing happens any more. -/
theorem always_none (h : Trying s ∧ Inv s) (hnone : s.attempts = 0) {as : List Action}
    (has : machine.Along Undisturbed s as) :
    machine.Always (fun s => s.attempts = 0) s as ∧
      machine.Along (fun s a => s.attempted a = none) s as := by
  have hstep : ∀ s a s', (Trying s ∧ Inv s) ∧ s.attempts = 0 → Undisturbed s a →
      machine.step s a = .ok s' → (Trying s' ∧ Inv s') ∧ s'.attempts = 0 := by
    intro s a s' h ha hok
    obtain ⟨t, ht, h', hattempts⟩ := undisturbed_step h.1 ha
    obtain rfl := Except.ok.inj (hok.symm.trans ht)
    exact ⟨h', by omega⟩
  refine ⟨(Machine.always_of_along hstep ⟨h, hnone⟩ has).mono fun _ h => h.2, ?_⟩
  exact Machine.along_of_along hstep (fun s a h ha => attempted_eq_none ha.1.1 ha.2 h.2) ⟨h, hnone⟩ has

/-- A call of `connect()` that is in order starts the one attempt. -/
theorem Inv.trying_connect (h : Inv s) {errno : ConnectErrno} (hord : InOrder s (.connect errno))
    (herrno : errno.expected = true) (hok : s.step (.connect errno) = .ok s')
    (hretry : s'.client.retry_ = true) : (Trying s' ∧ Inv s') ∧ s'.attempts = 1 := by
  obtain ⟨t, ht, hinv⟩ := h.connect hord
  obtain rfl := Except.ok.inj (hok.symm.trans ht)
  obtain ⟨u, hu, hok⟩ := bind_eq_ok.1 hok
  obtain ⟨c', hstart, hu⟩ := bind_eq_ok.1 hu
  obtain rfl := Except.ok.inj hu
  obtain rfl := Except.ok.inj hok
  obtain ⟨hconn, hout⟩ :=
    Connector.outstanding_startInLoop (c := { s.connector with connect_ := true }) rfl hstart
  refine ⟨⟨⟨hretry, rfl, hconn⟩, hinv⟩, ?_⟩
  have htimers : s.connector.retryTimers = 0 := by
    refine hord.2.1 ?_
    rwa [ConnectErrno.expected, Bool.or_eq_true] at herrno
  have hchannel : s.connector.channel ≠ .registered := fun hreg => by
    simpa [h.connector.registered.2 hreg] using hord.1
  have hidle : s.client.connection = none := h.idle (by rw [hord.1]; decide)
  unfold System.attempts
  rw [show s.client.connection = none from hidle, if_pos rfl]
  refine hout.trans ?_
  rw [if_pos herrno]
  unfold Connector.outstanding
  dsimp only
  rw [if_neg hchannel, htimers]

/-- A run in order up to a call and from there on. -/
theorem of_inOrder {as as' : List Action}
    (horder : machine.Along (fun s a => Env s a ∧ InOrder s a) .init (as ++ a :: as'))
    (hrun : machine.run .init (as ++ [a]) = .ok s) :
    ∃ s₀, Inv s₀ ∧ InOrder s₀ a ∧ s₀.step a = .ok s ∧ Inv s ∧
      machine.Along (fun s a => Env s a ∧ InOrder s a) s as' := by
  have hstep : ∀ s a, Inv s → Env s a ∧ InOrder s a → ∃ s', machine.step s a = .ok s' ∧ Inv s' :=
    fun s a h ha => h.step ha.1 ha.2
  obtain ⟨s₀, hs₀, ha, hok, hrest⟩ := horder.through hrun
  have hinv : Inv s₀ := by
    obtain ⟨hbefore, -⟩ := Machine.along_append.1 horder
    exact Machine.inv_of_along (Machine.step_inv_of_exists hstep) inv_init hbefore hs₀
  exact ⟨s₀, hinv, ha.2, hok, Machine.step_inv_of_exists hstep s₀ a s hinv ha hok, hrest⟩

/-- After `connect()` a client whose retry is enabled always has one of a retry timer, a connecting
channel and a connection, exactly as long as its attempts end as expected; after the first one that
does not it is done. -/
theorem keeps_connecting_iff {as as' : List Action} {errno : ConnectErrno}
    (horder : machine.Along (fun s a => Env s a ∧ InOrder s a) .init (as ++ .connect errno :: as'))
    (hquiet : ∀ a ∈ as', Quiet a) (herrno : errno.expected = true)
    (hrun : machine.run .init (as ++ [.connect errno]) = .ok s) (hretry : s.client.retry_ = true) :
    (∃ s', machine.run s as' = .ok s') ∧
      (machine.Always (fun s => s.attempts = 1) s as' ↔ machine.Along Expected s as') ∧
      ∀ us a vs t t', as' = us ++ a :: vs → machine.run s us = .ok t → t.step a = .ok t' →
        ¬ Expected t a → machine.Always (fun s => s.attempts = 0) t' vs ∧
          machine.Along (fun s a => s.attempted a = none) t' vs := by
  obtain ⟨s₀, hinv, hord, hconnect, -, hrest⟩ := of_inOrder horder hrun
  obtain ⟨h, hone⟩ := hinv.trying_connect hord herrno hconnect hretry
  have has : machine.Along Undisturbed s as' :=
    Machine.along_and.2 ⟨hrest, Machine.along_of_forall hquiet s⟩
  have hstep : ∀ s a, Trying s ∧ Inv s → Undisturbed s a →
      ∃ s', machine.step s a = .ok s' ∧ (Trying s' ∧ Inv s') := by
    intro s a h ha
    obtain ⟨s', hok, h', -⟩ := undisturbed_step h ha
    exact ⟨s', hok, h'⟩
  obtain ⟨s', hs', -⟩ := Machine.run_ok_of_along hstep h has
  refine ⟨⟨s', hs'⟩, always_one_iff h hone has, ?_⟩
  rintro us a vs u u' rfl hu hok hexp
  obtain ⟨hus, hvs⟩ := Machine.along_append.1 has
  have hu' : Trying u ∧ Inv u := Machine.inv_of_along (Machine.step_inv_of_exists hstep) h hus hu
  obtain ⟨ha, hlast⟩ := (Machine.along_cons_ok hok).1 (hvs u hu)
  obtain ⟨v, hv, h', hattempts⟩ := undisturbed_step hu' ha
  obtain rfl := Except.ok.inj (hok.symm.trans hv)
  have hle : u.attempts ≤ 1 := oneAttempt_iff.1 hu'.2.oneAttempt
  rw [if_neg hexp] at hattempts
  exact always_none h' (by omega) hlast

/-- An attempt that is refused and made again, a connection that is lost and replaced, and an attempt
that the system forbids. -/
def lostAndDenied : List Action :=
  [.poll, .timer .EINPROGRESS, .handled, .poll, .event false true .connected, .handled,
    .functor .success, .poll, .close .ECONNREFUSED, .handled, .poll, .timer .EACCES]

theorem keeps_connecting_iff_lostAndDenied :
    machine.Along (fun s a => Env s a ∧ InOrder s a) .init
      ([.enableRetry] ++ .connect .ECONNREFUSED :: lostAndDenied) ∧
    ∃ s, machine.run .init ([.enableRetry] ++ [.connect .ECONNREFUSED]) = .ok s ∧
      ¬ machine.Always (fun s => s.attempts = 1) s lostAndDenied := by
  have horder : machine.Along (fun s a => Env s a ∧ InOrder s a) .init
      ([.enableRetry] ++ .connect .ECONNREFUSED :: lostAndDenied) := by decide +kernel
  refine ⟨horder, _, rfl, fun hone => ?_⟩
  have hexp := (keeps_connecting_iff horder (by decide +kernel) rfl rfl rfl).2.1.1 hone
  revert hexp
  decide +kernel

/-! ## From `stop()` on -/

/-- `stop()` was called; an attempt that is under way ends with `stopInLoop`. -/
structure Stopped (s : System) : Prop where
  client : s.client.connect_ = false
  connector : s.connector.connect_ = false
  connecting : s.connector.state = .kConnecting → Functor.stopInLoop ∈ s.connector.pendingFunctors

/-- What a client that was stopped leaves as it is. -/
structure Leaves (s s' : System) : Prop where
  stopped : Stopped s'
  nextConnId : s'.client.nextConnId = s.client.nextConnId
  connection : s'.client.connection = none ∨ s'.client.connection = s.client.connection

theorem Leaves.trans {t : System} (h : Leaves s s') (h' : Leaves s' t) : Leaves s t where
  stopped := h'.stopped
  nextConnId := h'.nextConnId.trans h.nextConnId
  connection := by
    rcases h'.connection with hnone | hsame
    · exact .inl hnone
    · rw [hsame]
      exact h.connection

theorem Stopped.setConnector (h : Stopped s) {c : Connector} (hconn : c.connect_ = false)
    (hc : c.state = .kConnecting → Functor.stopInLoop ∈ c.pendingFunctors) :
    Leaves s (s.setConnector c) :=
  ⟨⟨h.client, hconn, hc⟩, rfl, .inr rfl⟩

theorem Stopped.queueInLoop (h : Stopped s) (f : Functor) :
    Leaves s (s.setConnector (s.connector.queueInLoop f)) :=
  h.setConnector (c := s.connector.queueInLoop f) h.connector fun hs =>
    List.mem_append_left _ (h.connecting hs)

theorem leaves_stop (s : System) : Leaves s { s with client := s.client.stop } :=
  ⟨⟨rfl, rfl, fun _ => List.mem_append_right _ (List.mem_singleton_self _)⟩, rfl, .inr rfl⟩

/-- The connection ends, and no attempt follows. -/
theorem Stopped.close (h : Stopped s) {conn : ℕ} {errno : ConnectErrno}
    (hconn : s.client.connection = some conn) (hok : s.close conn errno = .ok s') : Leaves s s' := by
  obtain ⟨t, ht, hok⟩ := bind_eq_ok.1 hok
  obtain rfl := Except.ok.inj hok
  unfold removeConnection at ht
  rw [check_of hconn, ok_bind] at ht
  dsimp only at ht
  rw [if_neg (by simp [h.client])] at ht
  obtain rfl := Except.ok.inj ht
  exact ⟨⟨h.client, h.connector, h.connecting⟩, rfl, .inl rfl⟩

theorem Stopped.timer (h : Stopped s) {errno : ConnectErrno} (hok : s.step (.timer errno) = .ok s') :
    Leaves s s' := by
  obtain ⟨c', hstart, hok⟩ := bind_eq_ok.1 hok
  obtain rfl := Except.ok.inj hok
  obtain rfl := Connector.startInLoop_of_stopped
    (c := { s.connector with retryTimers := s.connector.retryTimers - 1 }) h.connector hstart
  exact ⟨⟨h.client, h.connector, h.connecting⟩, rfl, .inr rfl⟩

theorem Stopped.event (h : Stopped s) (hinv : Inv s) {error write : Bool} {o : SocketOutcome}
    (henv : Env s (.event error write o)) (hok : s.step (.event error write o) = .ok s') :
    Leaves s s' := by
  obtain rfl | rfl | ⟨c, hc, rfl⟩ := hinv.of_event henv hok
  · exact ⟨h, rfl, .inr rfl⟩
  · refine h.setConnector (Connector.givenUp_connect_.trans h.connector) fun hs => ?_
    rw [Connector.givenUp_state] at hs
    cases hs
  · rw [if_neg (by rw [h.connector]; decide)]
    subst hc
    exact h.setConnector h.connector fun hs => by cases hs

theorem Stopped.functor (h : Stopped s) (hinv : Inv s) {errno : ConnectErrno}
    (hok : s.step (.functor errno) = .ok s') : Leaves s s' := by
  simp only [System.step] at hok
  split at hok
  · next n f fs hp hq =>
    change (s.popped n fs).runFunctor errno f = .ok s' at hok
    by_cases hf : f = .stopInLoop
    · subst hf
      have hinv' : Inv (s.popped n fs) := hinv.popped hp hq (by simp)
      simp only [System.runFunctor, hinv'.connector.stopInLoop_eq] at hok
      obtain rfl := Except.ok.inj hok
      split_ifs with hs
      · refine ⟨⟨h.client, Connector.givenUp_connect_.trans h.connector, fun hs' => ?_⟩, rfl, .inr rfl⟩
        exact absurd hs' (by simp [System.setConnector, System.connector])
      · exact ⟨⟨h.client, h.connector, fun hs' => absurd hs' hs⟩, rfl, .inr rfl⟩
    · have hpopped : Stopped (s.popped n fs) := by
        refine ⟨h.client, h.connector, fun hs => ?_⟩
        have hmem := h.connecting hs
        rw [hq] at hmem
        exact (List.mem_cons.1 hmem).resolve_left fun heq => hf heq.symm
      cases f with
      | stopInLoop => exact absurd rfl hf
      | resetChannel =>
        obtain rfl := Except.ok.inj hok
        exact ⟨⟨hpopped.client, hpopped.connector, hpopped.connecting⟩, rfl, .inr rfl⟩
      | forceCloseInLoop conn =>
        simp only [System.runFunctor] at hok
        split_ifs at hok with hconn
        · have hclose := hpopped.close hconn hok
          exact ⟨hclose.stopped, hclose.nextConnId, hclose.connection⟩
        · obtain rfl := Except.ok.inj hok
          exact ⟨hpopped, rfl, .inr rfl⟩
  · obtain rfl := Except.ok.inj hok
    exact ⟨h, rfl, .inr rfl⟩

theorem Stopped.step (h : Stopped s) (hinv : Inv s) (henv : Env s a)
    (ha : ∀ errno, a ≠ .connect errno) (hok : s.step a = .ok s') : Leaves s s' := by
  cases a with
  | connect errno => exact absurd rfl (ha errno)
  | enableRetry | poll | handled =>
    obtain rfl := Except.ok.inj hok
    exact ⟨⟨h.client, h.connector, h.connecting⟩, rfl, .inr rfl⟩
  | disconnect =>
    obtain rfl := Except.ok.inj hok
    exact ⟨⟨rfl, h.connector, h.connecting⟩, rfl, .inr rfl⟩
  | stop =>
    obtain rfl := Except.ok.inj hok
    exact leaves_stop s
  | forceClose =>
    obtain ⟨conn, hconn⟩ := Option.ne_none_iff_exists'.1 henv
    simp only [System.step, hconn] at hok
    obtain rfl := Except.ok.inj hok
    exact h.queueInLoop _
  | event error write o => exact h.event hinv henv hok
  | close errno =>
    obtain ⟨conn, hconn⟩ := Option.ne_none_iff_exists'.1 henv.2.2
    simp only [System.step, hconn] at hok
    exact h.close hconn hok
  | timer errno => exact h.timer hok
  | functor errno => exact h.functor hinv hok

/-- A client that was stopped calls `connect(2)` no more. -/
theorem Stopped.attempted_eq_none (h : Stopped s) (ha : ∀ errno, a ≠ .connect errno) :
    s.attempted a = none := by
  cases a with
  | connect errno => exact absurd rfl (ha errno)
  | close errno => exact if_neg (by simp [h.client])
  | timer errno => exact if_neg (by simp [h.connector])
  | functor errno =>
    simp only [System.attempted]
    split
    · exact if_neg (by simp [h.client])
    · rfl
  | _ => rfl

/-- After `stop()`, and until `connect()` is called, no assertion of the client or its connector fails,
no attempt is made, no connection comes up, and once `stopInLoop` has run no attempt is under way. -/
theorem stop_is_final {as as' : List Action}
    (horder : machine.Along (fun s a => Env s a ∧ InOrder s a) .init (as ++ .stop :: as'))
    (hno : ∀ a ∈ as', ∀ errno, a ≠ .connect errno)
    (hrun : machine.run .init (as ++ [.stop]) = .ok s) :
    (∃ s', machine.run s as' = .ok s') ∧ machine.Along (fun s a => s.attempted a = none) s as' ∧
      machine.Always (fun t => t.client.nextConnId = s.client.nextConnId ∧
        (t.client.connection = none ∨ t.client.connection = s.client.connection) ∧
        (t.connector.channel = .registered → Functor.stopInLoop ∈ t.connector.pendingFunctors)) s as' := by
  obtain ⟨s₀, -, -, hstop, hinv, hrest⟩ := of_inOrder horder hrun
  have hstopped : Stopped s := by
    obtain rfl := Except.ok.inj hstop
    exact (leaves_stop s₀).stopped
  have has := Machine.along_and.2 ⟨hrest, Machine.along_of_forall hno s⟩
  have hstep : ∀ u a, Inv u ∧ Leaves s u → (Env u a ∧ InOrder u a) ∧ (∀ errno, a ≠ .connect errno) →
      ∃ u', machine.step u a = .ok u' ∧ Inv u' ∧ Leaves s u' := by
    rintro u a ⟨hu, hleaves⟩ ⟨ha, hno⟩
    obtain ⟨u', hok, hu'⟩ := hu.step ha.1 ha.2
    exact ⟨u', hok, hu', hleaves.trans (hleaves.stopped.step hu ha.1 hno hok)⟩
  have hstart : Inv s ∧ Leaves s s := ⟨hinv, hstopped, rfl, .inr rfl⟩
  obtain ⟨hrun, halways⟩ := Machine.run_ok_always_of_along hstep hstart has
  refine ⟨hrun, ?_, halways.mono fun u hu => ⟨hu.2.nextConnId, hu.2.connection, fun hreg => ?_⟩⟩
  · exact Machine.along_of_along (Machine.step_inv_of_exists hstep)
      (fun u a hu ha => hu.2.stopped.attempted_eq_none ha.2) hstart has
  · exact hu.2.stopped.connecting (hu.1.connector.registered.2 hreg)

/-- A connection that comes up while `stopInLoop` waits. -/
theorem stop_is_final_whileConnecting :
    machine.Along (fun s a => Env s a ∧ InOrder s a) .init
      ([.enableRetry, .connect .EINPROGRESS, .poll] ++
        .stop :: [.event false true .connected, .handled, .functor .success, .functor .success]) ∧
    ∃ s, machine.run .init ([.enableRetry, .connect .EINPROGRESS, .poll] ++ [.stop]) = .ok s ∧
      s.connector.channel = .registered ∧
      machine.Always (fun t => t.client.nextConnId = s.client.nextConnId) s
        [.event false true .connected, .handled, .functor .success, .functor .success] := by
  have horder : machine.Along (fun s a => Env s a ∧ InOrder s a) .init
      ([.enableRetry, .connect .EINPROGRESS, .poll] ++
        .stop :: [.event false true .connected, .handled, .functor .success, .functor .success]) := by
    decide +kernel
  refine ⟨horder, _, rfl, rfl, ?_⟩
  exact (stop_is_final horder (by simp) rfl).2.2.mono fun t ht => ht.1

end TcpClient

end Reactor
