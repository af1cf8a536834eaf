import Reactor.PollPoller

/-!
# The entries of `pollfds_`

Runs in which every channel is used as the loop uses it: its first update asks for some event, it is
removed without events, and it is not used after that.  `life` follows what the run has done with
each channel, apart from what the poller believes of it.

* `consistent`: no assertion fails, the registered channels and the entries of `pollfds_` are in
  bijection through the index, and `fillActiveChannels` finds the channels whose entry has an event.
-/

namespace Reactor

namespace PollPoller

inductive Life where
  | unused
  | registered
  | removed
  deriving DecidableEq, Repr

/-- The channels on their poller, and what has become of each of them. -/
structure Tracked where
  polled : Polled PollPoller
  life : ℕ → Life

namespace Tracked

def init (fd : ℕ → ℕ) : Tracked := ⟨Polled.init fd new, fun _ => .unused⟩

/-- What an operation makes of the channels' lives. -/
def nextLife (life : ℕ → Life) : PollerAction → ℕ → Life
  | .set _ c => Function.update life c .registered
  | .remove c => Function.update life c .removed
  | .poll _ => life

def step (s : Tracked) (a : PollerAction) : Except Fault Tracked := do
  let polled ← poller.step s.polled a
  return ⟨polled, nextLife s.life a⟩

def machine : Machine Tracked PollerAction Fault := ⟨step⟩

/-- A channel's first update has events, its removal has none, and it is not used after that. -/
def Protocol (s : Tracked) : PollerAction → Prop
  | .set op c => s.life c ≠ .removed ∧
      (s.life c = .unused → (op.apply (s.polled.channel c)).isNoneEvent = false)
  | .remove c => s.life c = .registered ∧ (s.polled.channel c).isNoneEvent = true
  | .poll _ => True

instance (s : Tracked) : ∀ a, Decidable (Protocol s a)
  | .set op c => inferInstanceAs (Decidable (s.life c ≠ .removed ∧
      (s.life c = .unused → (op.apply (s.polled.channel c)).isNoneEvent = false)))
  | .remove c => inferInstanceAs (Decidable (s.life c = .registered ∧
      (s.polled.channel c).isNoneEvent = true))
  | .poll _ => isTrue trivial

end Tracked

/-- What `poll(2)` may make of the entries: it sets `revents`, to nothing where the descriptor is
negative. -/
structure PollResult (pollfds pollfds' : List PollFd) : Prop where
  length : pollfds'.length = pollfds.length
  entry : ∀ {i : ℕ} {e e'}, pollfds[i]? = some e → pollfds'[i]? = some e' →
    e'.fd = e.fd ∧ e'.events = e.events ∧ (e.fd < 0 → e'.revents = 0)

/-- The number of entries with an event. -/
def numEvents (pollfds : List PollFd) : ℕ := pollfds.countP fun e => decide (0 < e.revents.toInt)

structure Consistent (s : Tracked) : Prop where
  /-- The entry of a registered channel. -/
  entry : ∀ c, s.life c = .registered → ∃ (i : ℕ) (e : PollFd),
    (s.polled.channel c).index = i ∧ s.polled.poller.pollfds[i]? = some e ∧
    e.fd = (if (s.polled.channel c).isNoneEvent then -((s.polled.channel c).fd : ℤ) - 1
      else (s.polled.channel c).fd) ∧
    e.events.signExtend 32 = (s.polled.channel c).events
  /-- The channel of an entry. -/
  owner : ∀ i < s.polled.poller.pollfds.length,
    ∃! c, s.life c = .registered ∧ (s.polled.channel c).index = i
  channels : ∀ fd c, s.polled.poller.channels fd = some c ↔
    s.life c = .registered ∧ (s.polled.channel c).fd = fd
  fill : ∀ pollfds, PollResult s.polled.poller.pollfds pollfds → ∃ active,
    s.polled.poller.fillActiveChannels s.polled.channel pollfds (numEvents pollfds) [] =
      .ok active ∧ active.Nodup ∧
    ∀ c, c ∈ active ↔ s.life c = .registered ∧ ∃ (i : ℕ) (e : PollFd),
      (s.polled.channel c).index = i ∧ pollfds[i]? = some e ∧ 0 < e.revents.toInt

variable {p p' : PollPoller} {channel channel' : ℕ → Channel} {c d : ℕ} {x : Channel}

/-! ## fillActiveChannels -/

/-- The entry of an event and its channel. -/
theorem Wf.exists_active (h : p.Wf channel) {pollfds : List PollFd}
    (hres : PollResult p.pollfds pollfds) {i : ℕ} {e' : PollFd} (he' : pollfds[i]? = some e')
    (hpos : 0 < e'.revents.toInt) :
    ∃ c, p.Registered channel c ∧ (channel c).index = i ∧ p.channels e'.fd = some c := by
  have hlt := (List.getElem?_eq_some_iff.1 he').1
  rw [hres.length] at hlt
  have he := List.getElem?_eq_getElem hlt
  obtain ⟨hfd, -, hneg⟩ := hres.entry he he'
  have hnonneg : ¬ e'.fd < 0 := by
    rw [hfd]
    intro hlt
    rw [hneg hlt] at hpos
    exact absurd hpos (by decide)
  obtain ⟨c, hc, hidx⟩ := h.owner he
  obtain ⟨k, e, hk, hek, hent⟩ := h.entry hc
  obtain rfl : k = i := by omega
  obtain rfl := Option.some.inj (he.symm.trans hek)
  have hcfd := hent.fd_eq
  rw [← hfd, if_neg hnonneg] at hcfd
  exact ⟨c, hc, hidx, by rw [← hcfd]; exact hc⟩

/-- `fillActiveChannels` pushes the channels whose entry has an event, each once. -/
theorem Wf.fillActiveChannels (h : p.Wf channel) {pollfds : List PollFd}
    (hres : PollResult p.pollfds pollfds) :
    ∃ active, p.fillActiveChannels channel pollfds (numEvents pollfds) [] = .ok active ∧
      active.Nodup ∧ ∀ c, c ∈ active ↔ p.Registered channel c ∧ ∃ (i : ℕ) (e : PollFd),
        (channel c).index = i ∧ pollfds[i]? = some e ∧ 0 < e.revents.toInt := by
  have hfind : ∀ e ∈ pollfds, 0 < e.revents.toInt → ∃ c, p.channels e.fd = some c ∧
      (channel c).fd = e.fd := by
    intro e he hpos
    obtain ⟨i, hi⟩ := List.mem_iff_getElem?.1 he
    obtain ⟨c, -, -, hc⟩ := h.exists_active hres hi hpos
    exact ⟨c, hc, h.channels_fd hc⟩
  refine ⟨_, fillActiveChannels_eq hfind (Nat.le_refl _) [], ?_, fun c => ?_⟩
  · rw [List.nil_append, List.Nodup, List.pairwise_filterMap, List.pairwise_iff_getElem]
    intro i j hi hj hij b hb b' hb'
    split_ifs at hb hb' with hposi hposj
    obtain ⟨c, -, hci, hc⟩ := h.exists_active hres (List.getElem?_eq_getElem hi) hposi
    obtain ⟨d, -, hdj, hd⟩ := h.exists_active hres (List.getElem?_eq_getElem hj) hposj
    obtain rfl := Option.some.inj (hc.symm.trans hb)
    obtain rfl := Option.some.inj (hd.symm.trans hb')
    rintro rfl
    omega
  · rw [List.nil_append, List.mem_filterMap]
    constructor
    · rintro ⟨e, he, heq⟩
      split_ifs at heq with hpos
      obtain ⟨i, hi⟩ := List.mem_iff_getElem?.1 he
      obtain ⟨d, hd, hidx, hch⟩ := h.exists_active hres hi hpos
      obtain rfl := Option.some.inj (hch.symm.trans heq)
      exact ⟨hd, i, e, hidx, hi, hpos⟩
    · rintro ⟨hc, i, e, hidx, hi, hpos⟩
      obtain ⟨d, hd, hidx', hch⟩ := h.exists_active hres hi hpos
      obtain rfl : d = c := h.eq_of_index hd hc (hidx'.trans hidx.symm)
      exact ⟨e, List.mem_of_getElem? hi, by rw [if_pos hpos]; exact hch⟩

/-! ## Runs -/

namespace Tracked

/-- Nothing without events is watched, and the map has the channels that are registered. -/
structure Sound (s : Tracked) : Prop where
  wf : s.polled.poller.Wf s.polled.channel
  events_lt : ∀ c, (s.polled.channel c).events.toNat < 2 ^ 3
  registered : ∀ c, s.life c = .registered ↔ s.polled.poller.Registered s.polled.channel c
  unused : ∀ c, s.life c = .unused → (s.polled.channel c).index < 0
  watched : ∀ c, s.polled.poller.Watched s.polled.channel c →
    (s.polled.channel c).isNoneEvent = false

structure Inv (s : Tracked) : Prop extends Sound s where
  injective : Function.Injective fun c => (s.polled.channel c).fd

variable {s : Tracked}

theorem sound_init (fd : ℕ → ℕ) : Sound (init fd) where
  wf := wf_new _
  events_lt := fun _ => (by decide : (0 : Mask).toNat < 2 ^ 3)
  registered := fun _ => ⟨fun h => (by cases h), fun h => (by cases h)⟩
  unused := fun _ _ => (by decide : (-1 : ℤ) < 0)
  watched := fun _ h => by cases h.1

theorem Inv.entries_consistent (h : Inv s) : Consistent s where
  entry := fun c hc => by
    obtain ⟨i, e, hi, he, hent⟩ := h.wf.entry ((h.registered c).1 hc)
    have hlt := h.events_lt c
    refine ⟨i, e, hi, he, ?_, by rw [hent.events, signExtend_setWidth (by omega)]⟩
    have hon : e.fd = (s.polled.channel c).fd → (s.polled.channel c).isNoneEvent = false :=
      fun hfd => h.watched c
        ⟨(h.registered c).1 hc, e, by rw [hi, Int.toNat_natCast]; exact he, hfd⟩
    split_ifs with hnone
    · refine (hent.fd.resolve_left fun hfd => ?_).1
      rw [hon hfd] at hnone
      cases hnone
    · exact hent.fd.resolve_right fun hoff => hnone hoff.2
  owner := fun i hi => by
    obtain ⟨c, hc, hidx⟩ := h.wf.owner (List.getElem?_eq_getElem hi)
    refine ⟨c, ⟨(h.registered c).2 hc, hidx⟩, fun d hd => ?_⟩
    exact h.wf.eq_of_index ((h.registered d).1 hd.1) hc (hd.2.trans hidx.symm)
  channels := fun fd c => by
    rw [h.registered]
    constructor
    · intro hc
      have hfd := h.wf.channels_fd hc
      exact ⟨by rw [Registered, hfd]; exact hc, hfd⟩
    · rintro ⟨hc, rfl⟩
      exact hc
  fill := fun pollfds hres => by
    obtain ⟨active, hok, hnodup, hmem⟩ := h.wf.fillActiveChannels hres
    exact ⟨active, hok, hnodup, fun c => by rw [hmem, h.registered]⟩

theorem step_ok {a : PollerAction} {polled : Polled PollPoller}
    (h : poller.step s.polled a = .ok polled) :
    machine.step s a = .ok ⟨polled, nextLife s.life a⟩ := by
  show s.step a = _
  rw [step, h]
  rfl

/-- No registered channel has the descriptor of a channel that is used for the first time. -/
def Free (s : Tracked) (c : ℕ) : Prop :=
  s.life c = .unused → ∀ d, s.life d = .registered → (s.polled.channel d).fd ≠ (s.polled.channel c).fd

/-- The operation leaves the descriptors alone, and the events but for those that a setter sets. -/
structure Keeps (s s' : Tracked) (channel : ℕ → Channel) : Prop where
  fd : ∀ d, (s'.polled.channel d).fd = (s.polled.channel d).fd
  events : ∀ d, (s'.polled.channel d).events = (channel d).events

/-- The descriptor is the channel's own, or that of no registered channel. -/
theorem Sound.fd_ne (h : Sound s) {c d : ℕ} (hc : s.life c ≠ .removed) (hfree : Free s c) (hd : d ≠ c)
    (hlife : s.life d = .registered) : ((s.polled.channel d).fd : ℤ) ≠ (s.polled.channel c).fd := by
  intro heq
  cases hlc : s.life c with
  | unused => exact hfree hlc d hlife (by exact_mod_cast heq)
  | registered =>
    refine hd (((h.registered d).1 hlife).eq_of_fd ((h.registered c).1 hlc) ?_)
    exact_mod_cast heq
  | removed => exact hc hlc

/-- The map has the channel, or has never heard of it or its descriptor. -/
theorem Sound.known_or_new (h : Sound s) {c : ℕ} (hc : s.life c ≠ .removed) (hfree : Free s c) :
    s.polled.poller.channels (s.polled.channel c).fd = some c ∨
      (s.polled.channel c).index < 0 ∧ s.polled.poller.channels (s.polled.channel c).fd = none := by
  cases hlife : s.life c with
  | unused =>
    refine Or.inr ⟨h.unused c hlife, ?_⟩
    cases hd : s.polled.poller.channels (s.polled.channel c).fd with
    | none => rfl
    | some d =>
      have hfd := h.wf.channels_fd hd
      have hld : s.life d = .registered := (h.registered d).2 (by rw [Registered, hfd]; exact hd)
      refine absurd hfd (h.fd_ne hc hfree ?_ hld)
      rintro rfl
      rw [hlife] at hld
      cases hld
  | registered => exact Or.inl ((h.registered c).1 hlife)
  | removed => exact absurd hlife hc

/-- The two views of the registered channels, after both are changed for one channel. -/
theorem Sound.registered_update (h : Sound s) {c : ℕ} {life : Life} {entry : Option ℕ}
    (hother : ∀ d, d ≠ c → s.life d = .registered →
      ((s.polled.channel d).fd : ℤ) ≠ (s.polled.channel c).fd)
    (hc : life = .registered ↔ entry = some c) (hentry : ∀ d ∈ entry, d = c) (d : ℕ) :
    Function.update s.life c life d = .registered ↔
      Function.update s.polled.poller.channels ((s.polled.channel c).fd : ℤ) entry
        (s.polled.channel d).fd = some d := by
  by_cases hd : d = c
  · subst hd
    rw [Function.update_self, Function.update_self]
    exact hc
  · rw [Function.update_of_ne hd]
    by_cases heq : ((s.polled.channel d).fd : ℤ) = (s.polled.channel c).fd
    · rw [heq, Function.update_self]
      exact iff_of_false (fun hlife => hother d hd hlife heq) fun hmem => hd (hentry d hmem)
    · rw [Function.update_of_ne heq]
      exact h.registered d

theorem Sound.set (h : Sound s) {op : Setter} {c : ℕ} (ha : Protocol s (.set op c)) (hfree : Free s c) :
    ∃ s', machine.step s (.set op c) = .ok s' ∧ Sound s' ∧
      Keeps s s' (Function.update s.polled.channel c (op.apply (s.polled.channel c))) := by
  have hxfd := op.apply_fd (s.polled.channel c)
  have hxidx := op.apply_index (s.polled.channel c)
  have hreg := h.known_or_new ha.1 hfree
  rw [← hxfd, ← hxidx] at hreg
  obtain ⟨p', i, hp, hwf, hch, hwatch, hself⟩ := h.wf.updateChannel hxfd hxidx hreg
  have hfd : ∀ d, (Function.update s.polled.channel c
      { op.apply (s.polled.channel c) with index := i } d).fd = (s.polled.channel d).fd :=
    fun d => congrFun (fd_update s.polled.channel (by exact hxfd)) d
  have hev : ∀ d, (Function.update s.polled.channel c
      { op.apply (s.polled.channel c) with index := i } d).events =
        (Function.update s.polled.channel c (op.apply (s.polled.channel c)) d).events := by
    intro d
    by_cases hd : d = c
    · subst hd
      rw [Function.update_self, Function.update_self]
    · rw [Function.update_of_ne hd, Function.update_of_ne hd]
  refine ⟨_, step_ok (Poller.step_set_ok (V := poller) hp), ⟨hwf, fun d => ?_, fun d => ?_,
    fun d => ?_, fun d => ?_⟩, hfd, hev⟩
  · dsimp only
    rw [hev]
    by_cases hd : d = c
    · subst hd
      rw [Function.update_self]
      exact op.apply_events_lt (h.events_lt d)
    · rw [Function.update_of_ne hd]
      exact h.events_lt d
  · dsimp only [nextLife]
    rw [Registered, hch, hfd, hxfd]
    exact h.registered_update (fun d hd hlife => h.fd_ne ha.1 hfree hd hlife) (iff_of_true rfl rfl)
      (fun d hd => (Option.some.inj hd).symm) d
  · dsimp only [nextLife]
    by_cases hd : d = c
    · subst hd
      rw [Function.update_self]
      exact fun hlife => by cases hlife
    · rw [Function.update_of_ne hd, Function.update_of_ne hd]
      exact h.unused d
  · dsimp only
    by_cases hd : d = c
    · subst hd
      intro hw
      rw [Function.update_self]
      rcases hself hw with hneg | hsome
      · refine ha.2 ?_
        -- a channel with a negative index has no entry yet
        cases hlife : s.life d with
        | unused => rfl
        | registered =>
          obtain ⟨k, -, hk, -, -⟩ := h.wf.entry ((h.registered d).1 hlife)
          omega
        | removed => exact absurd hlife ha.1
      · exact hsome
    · intro hw
      rw [Function.update_of_ne hd]
      exact h.watched d (hwatch d hd hw)

theorem Sound.remove (h : Sound s) {c : ℕ} (ha : Protocol s (.remove c)) :
    ∃ s', machine.step s (.remove c) = .ok s' ∧ Sound s' ∧ Keeps s s' s.polled.channel := by
  obtain ⟨hlife, hnone⟩ := ha
  have hreg := (h.registered c).1 hlife
  have hoff : ¬ s.polled.poller.Watched s.polled.channel c := fun hw => by
    rw [h.watched c hw] at hnone
    cases hnone
  obtain ⟨p', channel', hp, hch, hsame, hwf, hkeep⟩ := h.wf.removeChannel
    (x := { s.polled.channel c with addedToLoop := false }) rfl rfl rfl hreg hnone
    (fun e hget hon => hoff ⟨hreg, e, hget, hon⟩)
  have hfd : ∀ d, (channel' d).fd = (s.polled.channel d).fd ∧
      (channel' d).events = (s.polled.channel d).events := fun d => by
    obtain ⟨i, hi, -⟩ := hsame d
    rw [hi]
    rcases eq_or_ne d c with rfl | hdc
    · rw [Function.update_self]
      exact ⟨rfl, rfl⟩
    · rw [Function.update_of_ne hdc]
      exact ⟨rfl, rfl⟩
  refine ⟨_, step_ok (Poller.step_remove_ok (V := poller) hnone hp), ⟨hwf, fun d => ?_, fun d => ?_,
    fun d hd => ?_, fun d hd => ?_⟩, fun d => (hfd d).1, fun d => (hfd d).2⟩
  · dsimp only
    rw [(hfd d).2]
    exact h.events_lt d
  · dsimp only [nextLife]
    rw [Registered, hch, (hfd d).1]
    refine h.registered_update (fun d hdc hd heq => hdc ?_) (iff_of_false (by decide) fun hd => by cases hd)
      (fun d hd => by cases hd) d
    exact ((h.registered d).1 hd).eq_of_fd hreg (by exact_mod_cast heq)
  · dsimp only [nextLife] at hd ⊢
    have hdc : d ≠ c := by
      rintro rfl
      rw [Function.update_self] at hd
      cases hd
    rw [Function.update_of_ne hdc] at hd
    -- only a registered channel is given another index
    obtain ⟨i, hi, hidx | hmoved⟩ := hsame d
    · rw [hi, hidx, Function.update_of_ne hdc]
      exact h.unused d hd
    · rw [(h.registered d).2 hmoved] at hd
      cases hd
  · dsimp only at hd ⊢
    obtain ⟨hd', e, he, hon⟩ := hd
    obtain ⟨hreg', hentry⟩ := hkeep d hd'
    rw [(hfd d).1] at hon
    have hold := h.watched d ⟨hreg', e, by rw [← hentry]; exact he, hon⟩
    rw [Channel.isNoneEvent, (hfd d).2]
    exact hold

theorem Sound.poll (h : Sound s) (k : Kernel) :
    ∃ s', machine.step s (.poll k) = .ok s' ∧ Sound s' ∧ Keeps s s' s.polled.channel := by
  obtain ⟨active, hp, -⟩ := h.wf.poll h.events_lt k
  refine ⟨_, step_ok (Poller.step_poll_ok (V := poller) hp), ⟨h.wf.polled k, h.events_lt,
    h.registered, h.unused, fun d hd => ?_⟩, fun _ => rfl, fun _ => rfl⟩
  obtain ⟨hreg, e, he, hon⟩ := hd
  obtain ⟨e', he', rfl⟩ := (getElem?_map_pollOne k _ _).1 he
  exact h.watched d ⟨hreg, e', he', hon⟩

theorem Inv.of_keeps (h : Inv s) {s' : Tracked} {channel : ℕ → Channel} (hs : Sound s')
    (hkeep : Keeps s s' channel) : Inv s' :=
  ⟨hs, fun d e hde => h.injective (by simpa only [hkeep.fd] using hde)⟩

theorem Inv.step (h : Inv s) {a : PollerAction} (ha : Protocol s a) :
    ∃ s', machine.step s a = .ok s' ∧ Inv s' := by
  cases a with
  | set op c =>
    have hfree : Free s c := fun hc d hd hfd => by
      obtain rfl := h.injective hfd
      rw [hc] at hd
      cases hd
    obtain ⟨s', hs', hsound, hkeep⟩ := h.toSound.set ha hfree
    exact ⟨s', hs', h.of_keeps hsound hkeep⟩
  | remove c =>
    obtain ⟨s', hs', hsound, hkeep⟩ := h.toSound.remove ha
    exact ⟨s', hs', h.of_keeps hsound hkeep⟩
  | poll k =>
    obtain ⟨s', hs', hsound, hkeep⟩ := h.toSound.poll k
    exact ⟨s', hs', h.of_keeps hsound hkeep⟩

/-- No assertion fails, and the array is consistent throughout. -/
theorem consistent {fd : ℕ → ℕ} (hfd : Function.Injective fd) (as : List PollerAction)
    (h : machine.Along Protocol (init fd) as) :
    (∃ s', machine.run (init fd) as = .ok s') ∧ machine.Always Consistent (init fd) as := by
  have hinit : Inv (init fd) := ⟨sound_init fd, hfd⟩
  obtain ⟨hr, hinv⟩ := Machine.run_ok_always_of_along (M := machine)
    (fun s a hs ha => Inv.step hs ha) hinit h
  exact ⟨hr, hinv.mono fun s hs => hs.entries_consistent⟩

/-- The last of three entries, disabled, moves to the place of the first. -/
theorem consistent_swap :
    machine.Along Protocol (init id)
        [.set .enableReading 0, .set .enableWriting 1, .set .enableReading 2, .set .disableAll 2,
          .set .disableAll 0, .remove 0, .set .enableWriting 2] ∧
      machine.Always Consistent (init id)
        [.set .enableReading 0, .set .enableWriting 1, .set .enableReading 2, .set .disableAll 2,
          .set .disableAll 0, .remove 0, .set .enableWriting 2] :=
  have h : machine.Along Protocol (init id)
      [.set .enableReading 0, .set .enableWriting 1, .set .enableReading 2, .set .disableAll 2,
        .set .disableAll 0, .remove 0, .set .enableWriting 2] := by
    decide +kernel
  ⟨h, (consistent Function.injective_id _ h).2⟩

end Tracked

end PollPoller

end Reactor
