import Reactor.EPollPoller
import Reactor.PollPoller

/-!
# Are the pollers interchangeable?

The two pollers side by side, under the same operations of the same channels and the same kernel.
They part in three places: `PollPoller` leaves a removed channel its index, so that enabling it
again fails; it refuses to remove a channel whose first registration was without events; and it
never sets `revents_`, so that a poll with any result at all is told apart by it.

* `Related`: what the two have in common as long as they have not parted.
* `interchangeable_iff`: a run does not tell them apart exactly when it avoids the three places.
* `same_channels_of_regular`: but for `revents_`, the active channels are the same in runs that avoid
  the first two places, a channel disabled twice in a row and more ready descriptors than `events_`
  has room for.
-/

namespace Reactor

/-- The same channels on the two pollers. -/
structure Pollers where
  epoll : Polled EPollPoller
  poll : Polled PollPoller

namespace Pollers

/-- Which of the two processes an assertion has stopped. -/
inductive Stopped where
  | both
  | epollOnly
  | pollOnly
  deriving DecidableEq, Repr

def init (fd : ℕ → ℕ) : Pollers :=
  ⟨Polled.init fd EPollPoller.new, Polled.init fd PollPoller.new⟩

def step (s : Pollers) (a : PollerAction) : Except Stopped Pollers :=
  match EPollPoller.poller.step s.epoll a, PollPoller.poller.step s.poll a with
  | .ok e, .ok p => .ok ⟨e, p⟩
  | .error _, .error _ => .error .both
  | .error _, .ok _ => .error .epollOnly
  | .ok _, .error _ => .error .pollOnly

def machine : Machine Pollers PollerAction Stopped := ⟨step⟩

/-- The active channels are the same, and each has the same `revents_`. -/
def Same (s : Pollers) : Prop :=
  (∀ c, c ∈ s.epoll.activeChannels ↔ c ∈ s.poll.activeChannels) ∧
    ∀ c ∈ s.epoll.activeChannels, (s.epoll.channel c).revents = (s.poll.channel c).revents

/-- No assertion stops one of the two only, and the active channels are the same throughout. -/
def Interchangeable (fd : ℕ → ℕ) (as : List PollerAction) : Prop :=
  (∀ e, machine.run (init fd) as = .error e → e = .both) ∧ machine.Always Same (init fd) as

/-- The operation keeps clear of the three places: it does not update a channel that was removed
and whose descriptor is free; it does not remove a channel whose entry in `pollfds_` is still
enabled; it does not poll while a descriptor that `epoll` watches has something to report. -/
def Clear (s : Pollers) : PollerAction → Prop
  | .set _ c => ¬ (0 ≤ (s.poll.channel c).index ∧
      s.poll.poller.channels (s.poll.channel c).fd = none)
  | .remove c => ¬ ((s.poll.channel c).isNoneEvent = true ∧ s.poll.poller.Watched s.poll.channel c)
  | .poll k => ∀ p ∈ s.epoll.poller.interest, k.report p.1 p.2.events = 0

/-! ## What the pollers have in common -/

/-- One channel, as the `epoll` process and as the `poll` process has it. -/
structure Alike (x y : Channel) : Prop where
  fd : y.fd = x.fd
  events : y.events = x.events
  events_lt : y.events.toNat < 2 ^ 3
  revents : y.revents = 0

theorem Alike.apply {x y : Channel} (h : Alike x y) (op : Setter) :
    Alike (op.apply x) (op.apply y) where
  fd := by rw [op.apply_fd, op.apply_fd, h.fd]
  events := op.apply_events_congr h.events
  events_lt := op.apply_events_lt h.events_lt
  revents := by rw [op.apply_revents, h.revents]

theorem Alike.isNoneEvent {x y : Channel} (h : Alike x y) : y.isNoneEvent = x.isNoneEvent := by
  rw [Channel.isNoneEvent, h.events]
  rfl

theorem Alike.update {f g : ℕ → Channel} (h : ∀ d, Alike (f d) (g d)) {c : ℕ} {x y : Channel}
    (hc : Alike x y) (d : ℕ) : Alike (Function.update f c x d) (Function.update g c y d) := by
  rcases eq_or_ne d c with rfl | hd
  · simpa using hc
  · simpa [hd] using h d

structure Related (s : Pollers) : Prop where
  epollWf : s.epoll.poller.Wf s.epoll.channel
  pollWf : s.poll.poller.Wf s.poll.channel
  channels : s.poll.poller.channels = s.epoll.poller.channels
  alike : ∀ c, Alike (s.epoll.channel c) (s.poll.channel c)
  watched : ∀ c, s.poll.poller.Watched s.poll.channel c →
    (s.epoll.channel c).index = EPollPoller.kAdded
  room : 0 < s.epoll.poller.eventsSize

theorem related_init (fd : ℕ → ℕ) : Related (init fd) where
  epollWf := EPollPoller.wf_new fd
  pollWf := PollPoller.wf_new _
  channels := rfl
  alike := fun _ => ⟨rfl, rfl, (by decide : (0 : Mask).toNat < 2 ^ 3), rfl⟩
  watched := fun _ h => by cases h.1
  room := (by decide : 0 < EPollPoller.kInitEventListSize)

/-- The outcome of one operation. -/
inductive Outcome (s : Pollers) (a : PollerAction) : Prop where
  | agree (s' : Pollers) (hstep : s.step a = .ok s') (hrel : Related s') (hclear : s.Clear a)
    (hactive : s'.epoll.activeChannels = s.epoll.activeChannels ∧
      s'.poll.activeChannels = s.poll.activeChannels ∨
      s'.epoll.activeChannels = [] ∧ s'.poll.activeChannels = [])
  | stop (hstep : s.step a = .error .both) (hclear : s.Clear a)
  | part (hstep : s.step a = .error .pollOnly) (hclear : ¬ s.Clear a)
  | differ (s' : Pollers) (hstep : s.step a = .ok s') (hdiff : ¬ Same s') (hclear : ¬ s.Clear a)

variable {s : Pollers}

theorem step_ok {a : PollerAction} {e : Polled EPollPoller} {p : Polled PollPoller}
    (he : EPollPoller.poller.step s.epoll a = .ok e) (hp : PollPoller.poller.step s.poll a = .ok p) :
    s.step a = .ok ⟨e, p⟩ := by
  rw [step, he, hp]

theorem step_both {a : PollerAction} {f g : Fault}
    (he : EPollPoller.poller.step s.epoll a = .error f)
    (hp : PollPoller.poller.step s.poll a = .error g) : s.step a = .error .both := by
  rw [step, he, hp]

theorem step_pollOnly {a : PollerAction} {e : Polled EPollPoller} {g : Fault}
    (he : EPollPoller.poller.step s.epoll a = .ok e)
    (hp : PollPoller.poller.step s.poll a = .error g) : s.step a = .error .pollOnly := by
  rw [step, he, hp]

/-- Both pollers take the update of a channel that is registered or new. -/
theorem Related.set_ok (h : Related s) (op : Setter) (c : ℕ)
    (hfree : s.poll.poller.channels (s.poll.channel c).fd = some c ∨
      (s.poll.channel c).index < 0 ∧ s.poll.poller.channels (s.poll.channel c).fd = none) :
    ∃ s', s.step (.set op c) = .ok s' ∧ Related s' ∧
      s'.epoll.activeChannels = s.epoll.activeChannels ∧
      s'.poll.activeChannels = s.poll.activeChannels := by
  have hxfd := op.apply_fd (s.epoll.channel c)
  have hyfd := op.apply_fd (s.poll.channel c)
  have hxidx := op.apply_index (s.epoll.channel c)
  have hyidx := op.apply_index (s.poll.channel c)
  have halike := (h.alike c).apply op
  rw [← hyfd, ← hyidx] at hfree
  have hfree' : s.epoll.poller.channels (op.apply (s.epoll.channel c)).fd = none ∨
      s.epoll.poller.channels (op.apply (s.epoll.channel c)).fd = some c := by
    rw [← h.channels, ← halike.fd]
    exact hfree.symm.imp_left And.right
  obtain ⟨e', he, hewf, hech, hesize⟩ := h.epollWf.updateChannel hxfd hxidx hfree'
  obtain ⟨p', i, hp, hpwf, hpch, hother, hself⟩ := h.pollWf.updateChannel hyfd hyidx hfree
  have hnext : (op.apply (s.poll.channel c)).index < 0 ∨
      (op.apply (s.poll.channel c)).isNoneEvent = false →
      EPollPoller.nextIndex (op.apply (s.epoll.channel c)) = EPollPoller.kAdded := by
    rintro (hneg | hsome)
    · -- a first registration adds, whatever the events are
      refine if_neg fun hall => ?_
      rcases hfree with hreg | ⟨-, hnone⟩
      · rw [hyfd] at hreg
        obtain ⟨k, -, hk, -, -⟩ := h.pollWf.entry hreg
        omega
      · have hreg := (h.epollWf.channels_iff c _).2
          ⟨rfl, by rw [← hxidx, hall.1]; exact EPollPoller.kAdded_ne_kNew⟩
        rw [← h.channels, ← hxfd, ← halike.fd, hnone] at hreg
        cases hreg
    · refine if_neg fun hall => ?_
      rw [← halike.isNoneEvent, hsome] at hall
      cases hall.2
  refine ⟨_, step_ok (Poller.step_set_ok he) (Poller.step_set_ok hp), ?_, rfl, rfl⟩
  refine ⟨hewf, hpwf, ?_, ?_, fun d hd => ?_, ?_⟩
  · show p'.channels = e'.channels
    rw [hpch, hech, h.channels, halike.fd]
  · exact Alike.update h.alike ⟨halike.fd, halike.events, halike.events_lt, halike.revents⟩
  · dsimp only at hd ⊢
    by_cases hdc : d = c
    · subst hdc
      rw [Function.update_self]
      exact hnext (hself hd)
    · rw [Function.update_of_ne hdc]
      exact h.watched d (hother d hdc hd)
  · show 0 < e'.eventsSize
    rw [hesize]
    exact h.room

theorem Related.set (h : Related s) (op : Setter) (c : ℕ) : Outcome s (.set op c) := by
  have hxfd := op.apply_fd (s.epoll.channel c)
  have hyfd := op.apply_fd (s.poll.channel c)
  have hyidx := op.apply_index (s.poll.channel c)
  have hfd := ((h.alike c).apply op).fd
  have hch : s.epoll.poller.channels (op.apply (s.epoll.channel c)).fd =
      s.poll.poller.channels (s.poll.channel c).fd := by
    rw [← h.channels, ← hfd, hyfd]
  cases hmap : s.poll.poller.channels (s.poll.channel c).fd with
  | none =>
    rw [hmap] at hch
    by_cases hneg : (s.poll.channel c).index < 0
    · obtain ⟨s', hs', hrel, hact⟩ := h.set_ok op c (Or.inr ⟨hneg, hmap⟩)
      exact .agree s' hs' hrel (fun hall => absurd hall.1 (by omega)) (Or.inl hact)
    · obtain ⟨e', he, -⟩ := h.epollWf.updateChannel hxfd (op.apply_index _) (Or.inl hch)
      have hp : s.poll.poller.updateChannel
          (Function.update s.poll.channel c (op.apply (s.poll.channel c))) c =
            .error .updateChannel :=
        PollPoller.updateChannel_fault (by rw [hyfd, hmap]; simp) (fun hlt => by omega)
      exact .part (step_pollOnly (Poller.step_set_ok he) (Poller.step_set_error hp))
        (not_not.2 ⟨by omega, hmap⟩)
  | some d =>
    have hclear : s.Clear (.set op c) := fun hall => by
      have hnone := hall.2
      rw [hmap] at hnone
      cases hnone
    by_cases hdc : d = c
    · subst hdc
      obtain ⟨s', hs', hrel, hact⟩ := h.set_ok op d (Or.inl hmap)
      exact .agree s' hs' hrel hclear (Or.inl hact)
    · -- the descriptor is taken
      rw [hmap] at hch
      have hne : some d ≠ some c := fun heq => hdc (Option.some.inj heq)
      have he := h.epollWf.updateChannel_fault hxfd (op.apply_index _) (by rw [hch]; simp)
        (by rw [hch]; exact hne)
      have hp : s.poll.poller.updateChannel
          (Function.update s.poll.channel c (op.apply (s.poll.channel c))) c =
            .error .updateChannel :=
        PollPoller.updateChannel_fault (by rw [hyfd, hmap]; exact hne)
          (fun _ => by rw [hyfd, hmap]; simp)
      exact .stop (step_both (Poller.step_set_error he) (Poller.step_set_error hp)) hclear

/-- Both pollers remove a channel whose entry is disabled. -/
theorem Related.remove_ok (h : Related s) {c : ℕ} (hnone : (s.poll.channel c).isNoneEvent = true)
    (hreg : s.poll.poller.Registered s.poll.channel c)
    (hoff : ¬ s.poll.poller.Watched s.poll.channel c) :
    ∃ s', s.step (.remove c) = .ok s' ∧ Related s' ∧
      s'.epoll.activeChannels = s.epoll.activeChannels ∧
      s'.poll.activeChannels = s.poll.activeChannels := by
  have halike := h.alike c
  have hnone' : (s.epoll.channel c).isNoneEvent = true := by
    rw [← halike.isNoneEvent]
    exact hnone
  have hreg' : s.epoll.poller.channels (s.epoll.channel c).fd = some c := by
    rw [← h.channels, ← halike.fd]
    exact hreg
  obtain ⟨e', he, hewf, hech, hesize⟩ := h.epollWf.removeChannel
    (x := { s.epoll.channel c with addedToLoop := false }) rfl rfl hreg' hnone'
  obtain ⟨p', channel', hp, hpch, hsame, hpwf, hkeep⟩ := h.pollWf.removeChannel
    (x := { s.poll.channel c with addedToLoop := false }) rfl rfl rfl hreg hnone
    (fun e hget hon => hoff ⟨hreg, e, hget, hon⟩)
  have halike' := fun d => Alike.update h.alike (c := c)
    (x := { s.epoll.channel c with addedToLoop := false, index := EPollPoller.kNew })
    (y := { s.poll.channel c with addedToLoop := false })
    ⟨halike.fd, halike.events, halike.events_lt, halike.revents⟩ d
  have hfd : ∀ d, (channel' d).fd = (s.poll.channel d).fd := fun d => by
    obtain ⟨i, hi, -⟩ := hsame d
    rw [hi]
    rcases eq_or_ne d c with rfl | hdc
    · rw [Function.update_self]
    · rw [Function.update_of_ne hdc]
  refine ⟨_, step_ok (Poller.step_remove_ok hnone' he) (Poller.step_remove_ok hnone hp), ?_, rfl, rfl⟩
  refine ⟨hewf, hpwf, ?_, fun d => ?_, fun d hd => ?_, ?_⟩
  · show p'.channels = e'.channels
    rw [hpch, hech, h.channels, halike.fd]
  · obtain ⟨i, hi, -⟩ := hsame d
    dsimp only
    rw [hi]
    exact ⟨(halike' d).fd, (halike' d).events, (halike' d).events_lt, (halike' d).revents⟩
  · obtain ⟨hregd, e, hget, hon⟩ := hd
    dsimp only at hregd hget hon ⊢
    obtain ⟨hold, heq⟩ := hkeep d hregd
    have hdc : d ≠ c := by
      rintro rfl
      rw [PollPoller.Registered, hfd, hpch, Function.update_self] at hregd
      cases hregd
    rw [Function.update_of_ne hdc]
    exact h.watched d ⟨hold, e, heq.symm.trans hget, by rw [← hfd]; exact hon⟩
  · show 0 < e'.eventsSize
    rw [hesize]
    exact h.room

theorem Related.remove (h : Related s) (c : ℕ) : Outcome s (.remove c) := by
  have halike := h.alike c
  by_cases hnone : (s.poll.channel c).isNoneEvent = true
  · have hnone' : (s.epoll.channel c).isNoneEvent = true := by
      rw [← halike.isNoneEvent]
      exact hnone
    have hmap : s.poll.poller.channels (s.poll.channel c).fd =
        s.epoll.poller.channels (s.epoll.channel c).fd := by
      rw [h.channels, halike.fd]
    by_cases hreg : s.poll.poller.Registered s.poll.channel c
    · by_cases hon : s.poll.poller.Watched s.poll.channel c
      · obtain ⟨-, e, hget, hfd⟩ := hon
        obtain ⟨e', he, -⟩ := h.epollWf.removeChannel
          (x := { s.epoll.channel c with addedToLoop := false }) rfl rfl (hmap ▸ hreg) hnone'
        have hp := h.pollWf.removeChannel_fault_of_fd
          (x := { s.poll.channel c with addedToLoop := false }) rfl rfl hreg hnone hget hfd
        exact .part (step_pollOnly (Poller.step_remove_ok hnone' he)
          (Poller.step_remove_error hnone hp)) (not_not.2 ⟨hnone, hreg, e, hget, hfd⟩)
      · obtain ⟨s', hs', hrel, hact⟩ := h.remove_ok hnone hreg hon
        exact .agree s' hs' hrel (fun hall => hon hall.2) (Or.inl hact)
    · have he : s.epoll.poller.removeChannel
          (Function.update s.epoll.channel c { s.epoll.channel c with addedToLoop := false }) c =
            .error .removeChannel := EPollPoller.removeChannel_fault (hmap ▸ hreg)
      have hp : s.poll.poller.removeChannel
          (Function.update s.poll.channel c { s.poll.channel c with addedToLoop := false }) c =
            .error .removeChannel := PollPoller.removeChannel_fault hreg
      exact .stop (step_both (Poller.step_remove_error hnone' he)
        (Poller.step_remove_error hnone hp)) (fun hall => hreg hall.2.1)
  · have hsome : (s.epoll.channel c).isNoneEvent ≠ true := by
      rw [← halike.isNoneEvent]
      exact hnone
    exact .stop (step_both (Poller.step_remove_events hsome) (Poller.step_remove_events hnone))
      (fun hall => hnone hall.1)

/-- What a poll makes of the two. -/
theorem Related.poll_ok (h : Related s) (k : Kernel) :
    ∃ s', s.step (.poll k) = .ok s' ∧ Related s' ∧
      s'.epoll.activeChannels = s.epoll.poller.activeOf k ∧
      (∀ c ∈ s'.epoll.activeChannels, (s'.epoll.channel c).revents =
        k.report (s.epoll.channel c).fd (s.epoll.channel c).events) ∧
      ∀ c, c ∈ s'.poll.activeChannels ↔ s.poll.poller.Watched s.poll.channel c ∧
        k.report (s.epoll.channel c).fd (s.epoll.channel c).events ≠ 0 := by
  obtain ⟨e', he, hewf, hech, hesize⟩ := h.epollWf.poll k
  obtain ⟨active, hp, hmem⟩ := h.pollWf.poll (fun c => (h.alike c).events_lt) k
  refine ⟨_, step_ok (Poller.step_poll_ok he) (Poller.step_poll_ok hp), ?_, rfl, ?_, fun c => ?_⟩
  · refine ⟨hewf, h.pollWf.polled k, ?_, fun c => ?_, fun c hc => ?_, ?_⟩
    · show s.poll.poller.channels = e'.channels
      rw [hech, h.channels]
    · obtain ⟨r, hr⟩ := EPollPoller.setRevents_eq k s.epoll.channel (s.epoll.poller.activeOf k) c
      have halike := h.alike c
      show Alike (EPollPoller.setRevents _ _ _ c) _
      rw [hr]
      exact ⟨halike.fd, halike.events, halike.events_lt, halike.revents⟩
    · obtain ⟨r, hr⟩ := EPollPoller.setRevents_eq k s.epoll.channel (s.epoll.poller.activeOf k) c
      obtain ⟨hreg, e, hget, hon⟩ := hc
      obtain ⟨e₀, hget₀, rfl⟩ := (PollPoller.getElem?_map_pollOne k _ _).1 hget
      show (EPollPoller.setRevents _ _ _ c).index = _
      rw [hr]
      exact h.watched c ⟨hreg, e₀, hget₀, hon⟩
    · exact Nat.lt_of_lt_of_le h.room hesize
  · intro c hc
    show (EPollPoller.setRevents _ _ _ c).revents = _
    rw [EPollPoller.setRevents, if_pos hc]
    rfl
  · rw [hmem, (h.alike c).fd, (h.alike c).events]

theorem clear_poll_iff {k : Kernel} :
    s.Clear (.poll k) ↔ s.epoll.poller.ready k = [] := by
  unfold Clear EPollPoller.ready EPollPoller.reported
  simp

theorem Related.poll (h : Related s) (k : Kernel) : Outcome s (.poll k) := by
  obtain ⟨s', hs', hrel, hact, hrev, hmem⟩ := h.poll_ok k
  by_cases hclear : s.Clear (.poll k)
  · have hready := clear_poll_iff.1 hclear
    have hquiet : ∀ c, (s.epoll.channel c).index = EPollPoller.kAdded →
        k.report (s.epoll.channel c).fd (s.epoll.channel c).events = 0 := by
      intro c hidx
      by_contra hne
      have hin := (h.epollWf.mem_ready_iff (k := k) (e := ⟨_, c⟩)).2 ⟨hidx, rfl, hne⟩
      rw [hready] at hin
      cases hin
    refine .agree s' hs' hrel hclear (Or.inr ⟨?_, ?_⟩)
    · rw [hact, List.eq_nil_iff_forall_not_mem]
      intro c hc
      obtain ⟨hidx, hne⟩ := h.epollWf.of_mem_activeOf hc
      exact hne (hquiet c hidx)
    · rw [List.eq_nil_iff_forall_not_mem]
      intro c hc
      obtain ⟨hwatched, hne⟩ := (hmem c).1 hc
      exact hne (hquiet c (h.watched c hwatched))
  · have hready : s.epoll.poller.ready k ≠ [] := fun hnil => hclear (clear_poll_iff.2 hnil)
    obtain ⟨c, hc⟩ := List.exists_mem_of_ne_nil _ (EPollPoller.activeOf_ne_nil h.room hready)
    refine .differ s' hs' (fun hsame => ?_) hclear
    -- PollPoller has not touched the channel
    have hc' : c ∈ s'.epoll.activeChannels := by rw [hact]; exact hc
    have heq := hsame.2 c hc'
    rw [hrev c hc', (hrel.alike c).revents] at heq
    exact (h.epollWf.of_mem_activeOf hc).2 heq

theorem Related.outcome (h : Related s) (a : PollerAction) : Outcome s a := by
  cases a with
  | set op c => exact h.set op c
  | remove c => exact h.remove c
  | poll k => exact h.poll k

/-! ## Whole runs -/

theorem same_of_nil (hact : s.epoll.activeChannels = [] ∧ s.poll.activeChannels = []) : Same s := by
  unfold Same
  rw [hact.1, hact.2]
  exact ⟨fun _ => Iff.rfl, fun _ hc => absurd hc List.not_mem_nil⟩

theorem Related.run_iff (h : Related s)
    (hact : s.epoll.activeChannels = [] ∧ s.poll.activeChannels = []) (as : List PollerAction) :
    ((∀ e, machine.run s as = .error e → e = .both) ∧ machine.Always Same s as) ↔
      machine.Along Clear s as := by
  induction as generalizing s with
  | nil => exact ⟨fun _ => trivial, fun _ => ⟨fun e he => (by cases he), same_of_nil hact⟩⟩
  | cons a as ih =>
    rcases h.outcome a with ⟨s', hstep, hrel, hclear, hact'⟩ | ⟨hstep, hclear⟩ | ⟨hstep, hclear⟩ |
      ⟨s', hstep, hdiff, hclear⟩
    · replace hstep : machine.step s a = .ok s' := hstep
      have hact'' : s'.epoll.activeChannels = [] ∧ s'.poll.activeChannels = [] := by
        rcases hact' with ⟨he, hp⟩ | hnil
        · rw [he, hp]
          exact hact
        · exact hnil
      have hrest := ih hrel hact''
      rw [Machine.run_cons_ok hstep, Machine.always_cons_ok hstep, Machine.along_cons_ok hstep]
      constructor
      · exact fun hall => ⟨hclear, hrest.1 ⟨hall.1, hall.2.2⟩⟩
      · exact fun hall => ⟨(hrest.2 hall.2).1, same_of_nil hact, (hrest.2 hall.2).2⟩
    · replace hstep : machine.step s a = .error .both := hstep
      rw [Machine.run_cons_error hstep, Machine.always_cons_error hstep, Machine.along_cons_error hstep]
      exact ⟨fun _ => hclear, fun _ => ⟨fun e he => (Except.error.inj he).symm, same_of_nil hact⟩⟩
    · replace hstep : machine.step s a = .error .pollOnly := hstep
      rw [Machine.run_cons_error hstep, Machine.along_cons_error hstep]
      exact ⟨fun hall => absurd (hall.1 _ rfl) (by decide), fun hall => absurd hall hclear⟩
    · replace hstep : machine.step s a = .ok s' := hstep
      rw [Machine.always_cons_ok hstep, Machine.along_cons_ok hstep]
      exact ⟨fun hall => absurd hall.2.2.start hdiff, fun hall => absurd hall.1 hclear⟩

/-- A run does not tell the pollers apart exactly when every operation of it is clear. -/
theorem interchangeable_iff (fd : ℕ → ℕ) (as : List PollerAction) :
    Interchangeable fd as ↔ machine.Along Clear (init fd) as :=
  (related_init fd).run_iff ⟨rfl, rfl⟩ as

/-- `remove` is for registered channels without events. -/
def Legal (s : Pollers) : PollerAction → Prop
  | .remove c => (s.epoll.channel c).addedToLoop = true ∧ (s.epoll.channel c).isNoneEvent = true
  | _ => True

/-- Every descriptor is readable. -/
def allReadable : Kernel := ⟨fun _ => POLLIN, id, fun _ => List.Perm.refl _⟩

/-- One channel that is readable: `PollPoller` does not say so. -/
theorem not_interchangeable :
    ¬ ∀ (fd : ℕ → ℕ) (as : List PollerAction), machine.Along Legal (init fd) as →
      Interchangeable fd as := by
  intro h
  have hall := h id [.set .enableReading 0, .poll allReadable]
    ⟨trivial, fun _ _ => ⟨trivial, fun _ _ => trivial⟩⟩
  have hclear := ((related_init id).run_iff ⟨rfl, rfl⟩ _).1 hall
  obtain ⟨s, hs, hrest⟩ : ∃ s, machine.step (init id) (.set .enableReading 0) = .ok s ∧
      s.epoll.poller.interest = [(0, ⟨Channel.kReadEvent, 0⟩)] := ⟨_, rfl, rfl⟩
  have hquiet := (hclear.2 s hs).1 (0, ⟨Channel.kReadEvent, 0⟩)
    (by rw [hrest]; exact List.mem_cons_self)
  exact absurd hquiet (by decide)

/-! ## The active channels alone -/

/-- The active channels are the same; their `revents_` may differ. -/
def SameChannels (s : Pollers) : Prop :=
  ∀ c, c ∈ s.epoll.activeChannels ↔ c ∈ s.poll.activeChannels

/-- Updates and removals are clear.  When a poll is made, `events_` has room for all that is ready,
and no channel that only `epoll` watches (one that was disabled twice in a row) has an error or a
hang-up to report. -/
def Regular (s : Pollers) : PollerAction → Prop
  | .poll k => (s.epoll.poller.ready k).length ≤ s.epoll.poller.eventsSize ∧
      ∀ c, (s.epoll.channel c).index = EPollPoller.kAdded →
        ¬ s.poll.poller.Watched s.poll.channel c →
        k.report (s.epoll.channel c).fd (s.epoll.channel c).events = 0
  | a => s.Clear a

theorem step_regular (h : Related s) (hsame : s.SameChannels) {a : PollerAction} (ha : s.Regular a) :
    (∃ s', s.step a = .ok s' ∧ Related s' ∧ s'.SameChannels) ∨ s.step a = .error .both := by
  have hclear (hc : s.Clear a) :
      (∃ s', s.step a = .ok s' ∧ Related s' ∧ s'.SameChannels) ∨ s.step a = .error .both := by
    rcases h.outcome a with ⟨s', hstep, hrel, -, hact⟩ | ⟨hstep, -⟩ | ⟨-, hnot⟩ | ⟨-, -, -, hnot⟩
    · refine Or.inl ⟨s', hstep, hrel, fun c => ?_⟩
      rcases hact with ⟨he, hp⟩ | ⟨he, hp⟩
      · rw [he, hp]
        exact hsame c
      · rw [he, hp]
    · exact Or.inr hstep
    · exact absurd hc hnot
    · exact absurd hc hnot
  cases a with
  | set op c => exact hclear ha
  | remove c => exact hclear ha
  | poll k =>
    obtain ⟨hroom, hquiet⟩ := ha
    obtain ⟨s', hs', hrel, hact, -, hmem⟩ := h.poll_ok k
    refine Or.inl ⟨s', hs', hrel, fun c => ?_⟩
    rw [hact, hmem]
    constructor
    · intro hc
      obtain ⟨hidx, hne⟩ := h.epollWf.of_mem_activeOf hc
      refine ⟨?_, hne⟩
      by_contra hnot
      exact hne (hquiet c hidx hnot)
    · rintro ⟨hwatched, hne⟩
      exact h.epollWf.mem_activeOf hroom (h.watched c hwatched) hne

/-- Regular runs stop in both processes or in none, and every poll finds the same channels. -/
theorem same_channels_of_regular (fd : ℕ → ℕ) (as : List PollerAction)
    (h : machine.Along Regular (init fd) as) :
    (∀ e, machine.run (init fd) as = .error e → e = .both) ∧
      machine.Always SameChannels (init fd) as := by
  have hinit : Related (init fd) ∧ (init fd).SameChannels := ⟨related_init fd, fun _ => Iff.rfl⟩
  obtain ⟨hfault, hI⟩ := Machine.fault_eq_always_of_along (M := machine)
    (fun s a hs ha => step_regular hs.1 hs.2 ha) hinit h
  exact ⟨hfault, hI.mono fun _ hs => hs.2⟩

end Pollers

end Reactor
