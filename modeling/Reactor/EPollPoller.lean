import Reactor.Poller
import Mathlib.Data.List.Nodup

/-!
# EPollPoller

The epoll poller: the map `channels_`, the three-valued index of each channel, and the interest
list the kernel keeps.  `Wf` ties the three together, and every operation that passes its
assertions keeps it.
-/

namespace Reactor

/-- `EPollPoller`, with the interest list of its `epollfd_`.  Of the vector `events_` only the size
outlives a call of `poll`. -/
structure EPollPoller where
  channels : ℤ → Option ℕ
  interest : List (ℤ × EPollEvent)
  eventsSize : ℕ

namespace EPollPoller

def kNew : ℤ := -1
def kAdded : ℤ := 1
def kDeleted : ℤ := 2
def kInitEventListSize : ℕ := 26

/-- The constructor. -/
def new : EPollPoller := ⟨fun _ => none, [], kInitEventListSize⟩

inductive CtlOp where
  | add
  | mod
  | del
  deriving DecidableEq, Repr

/-- The descriptor is in the interest list. -/
def hasInterest (interest : List (ℤ × EPollEvent)) (fd : ℤ) : Prop := ∃ p ∈ interest, p.1 = fd

instance (interest : List (ℤ × EPollEvent)) (fd : ℤ) : Decidable (hasInterest interest fd) :=
  inferInstanceAs (Decidable (∃ p ∈ interest, p.1 = fd))

/-- `epoll_ctl(2)`.  It refuses to add what is there and to modify or delete what is not. -/
def epollCtl (interest : List (ℤ × EPollEvent)) (fd : ℤ) (event : EPollEvent) :
    CtlOp → List (ℤ × EPollEvent)
  | .add => if hasInterest interest fd then interest else interest ++ [(fd, event)]
  | .mod => interest.map fun p => if p.1 = fd then (fd, event) else p
  | .del => interest.filter fun p => p.1 ≠ fd

/-- `update`.  A refusal is only printed. -/
def update (p : EPollPoller) (op : CtlOp) (channel : ℕ → Channel) (c : ℕ) : EPollPoller :=
  { p with interest := epollCtl p.interest (channel c).fd ⟨(channel c).events, c⟩ op }

def updateChannel (p : EPollPoller) (channel : ℕ → Channel) (c : ℕ) :
    Except Fault (EPollPoller × (ℕ → Channel)) :=
  let index := (channel c).index
  let fd : ℤ := (channel c).fd
  if index = kNew then do
    check .updateChannel (p.channels fd = none)
    let p := { p with channels := Function.update p.channels fd (some c) }
    return (p.update .add channel c, setIndex channel c kAdded)
  else if index = kDeleted then do
    check .updateChannel (p.channels fd = some c)
    return (p.update .add channel c, setIndex channel c kAdded)
  else do
    check .updateChannel (p.channels fd = some c)
    check .updateChannel (index = kAdded)
    if (channel c).isNoneEvent then return (p.update .del channel c, setIndex channel c kDeleted)
    else return (p.update .mod channel c, channel)

def removeChannel (p : EPollPoller) (channel : ℕ → Channel) (c : ℕ) :
    Except Fault (EPollPoller × (ℕ → Channel)) := do
  let index := (channel c).index
  let fd : ℤ := (channel c).fd
  check .removeChannel (p.channels fd = some c)
  check .removeChannel (channel c).isNoneEvent
  check .removeChannel (index = kAdded ∨ index = kDeleted)
  let p := { p with channels := Function.update p.channels fd none }
  if index = kAdded then return (p.update .del channel c, setIndex channel c kNew)
  else return (p, setIndex channel c kNew)

/-- What an entry of the interest list has to report. -/
def reported (k : Kernel) (p : ℤ × EPollEvent) : Option EPollEvent :=
  let events := k.report p.1 p.2.events
  if events = 0 then none else some ⟨events, p.2.ptr⟩

/-- `epoll_wait(2)`: of what is ready, no more than there is room for. -/
def epollWait (p : EPollPoller) (k : Kernel) : List EPollEvent :=
  (k.order (p.interest.filterMap (reported k))).take p.eventsSize

/-- The loop of `fillActiveChannels`. -/
def fillLoop (p : EPollPoller) :
    List EPollEvent → (ℕ → Channel) → List ℕ → Except Fault ((ℕ → Channel) × List ℕ)
  | [], channel, active => return (channel, active)
  | e :: events, channel, active => do
    check .fillActiveChannels (p.channels (channel e.ptr).fd = some e.ptr)
    p.fillLoop events (Function.update channel e.ptr { channel e.ptr with revents := e.events })
      (active ++ [e.ptr])

def fillActiveChannels (p : EPollPoller) (events : List EPollEvent) (channel : ℕ → Channel) :
    Except Fault ((ℕ → Channel) × List ℕ) := do
  check .fillActiveChannels (events.length ≤ p.eventsSize)
  p.fillLoop events channel []

def poll (p : EPollPoller) (channel : ℕ → Channel) (k : Kernel) :
    Except Fault (EPollPoller × (ℕ → Channel) × List ℕ) :=
  let events := p.epollWait k
  if 0 < events.length then do
    let (channel, active) ← p.fillActiveChannels events channel
    if events.length = p.eventsSize then
      return ({ p with eventsSize := p.eventsSize * 2 }, channel, active)
    else return (p, channel, active)
  else return (p, channel, [])

def poller : Poller EPollPoller := ⟨updateChannel, removeChannel, poll⟩

theorem kAdded_ne_kNew : kAdded ≠ kNew := by decide
theorem kDeleted_ne_kNew : kDeleted ≠ kNew := by decide
theorem kAdded_ne_kDeleted : kAdded ≠ kDeleted := by decide

/-! ## The interest list -/

theorem mem_epollCtl_add {interest : List (ℤ × EPollEvent)} {fd : ℤ}
    (h : ¬ hasInterest interest fd) (event : EPollEvent) (fd' : ℤ) (e : EPollEvent) :
    (fd', e) ∈ epollCtl interest fd event .add ↔
      fd' ≠ fd ∧ (fd', e) ∈ interest ∨ fd' = fd ∧ e = event := by
  rw [epollCtl, if_neg h, List.mem_append, List.mem_singleton, Prod.mk.injEq]
  refine or_congr_left ⟨fun hmem => ⟨?_, hmem⟩, fun hmem => hmem.2⟩
  rintro rfl
  exact h ⟨_, hmem, rfl⟩

theorem mem_epollCtl_mod {interest : List (ℤ × EPollEvent)} {fd : ℤ}
    (h : hasInterest interest fd) (event : EPollEvent) (fd' : ℤ) (e : EPollEvent) :
    (fd', e) ∈ epollCtl interest fd event .mod ↔
      fd' ≠ fd ∧ (fd', e) ∈ interest ∨ fd' = fd ∧ e = event := by
  rw [epollCtl, List.mem_map]
  constructor
  · rintro ⟨p, hp, heq⟩
    split_ifs at heq with hfd
    · exact Or.inr ⟨(Prod.mk.inj heq).1.symm, (Prod.mk.inj heq).2.symm⟩
    · subst heq
      exact Or.inl ⟨hfd, hp⟩
  · rintro (⟨hne, hmem⟩ | ⟨rfl, rfl⟩)
    · exact ⟨_, hmem, if_neg hne⟩
    · obtain ⟨p, hp, hfd⟩ := h
      exact ⟨p, hp, if_pos hfd⟩

theorem mem_epollCtl_del (interest : List (ℤ × EPollEvent)) (fd : ℤ) (event : EPollEvent) (fd' : ℤ)
    (e : EPollEvent) :
    (fd', e) ∈ epollCtl interest fd event .del ↔ fd' ≠ fd ∧ (fd', e) ∈ interest := by
  rw [epollCtl, List.mem_filter, and_comm]
  simp

theorem nodup_epollCtl {interest : List (ℤ × EPollEvent)} (h : (interest.map Prod.fst).Nodup)
    (fd : ℤ) (event : EPollEvent) (op : CtlOp) :
    ((epollCtl interest fd event op).map Prod.fst).Nodup := by
  cases op with
  | add =>
    rw [epollCtl]
    split_ifs with hfd
    · exact h
    · rw [List.map_append, List.map_singleton]
      refine h.append (List.nodup_singleton _) ?_
      rw [List.disjoint_singleton]
      intro hmem
      obtain ⟨p, hp, heq⟩ := List.mem_map.1 hmem
      exact hfd ⟨p, hp, heq⟩
  | mod =>
    have hmap : (interest.map fun p => if p.1 = fd then (fd, event) else p).map Prod.fst =
        interest.map Prod.fst := by
      rw [List.map_map]
      refine List.map_congr_left fun p _ => ?_
      by_cases hfd : p.1 = fd
      · simp [hfd]
      · simp [hfd]
    rw [epollCtl, hmap]
    exact h
  | del => exact h.sublist (List.filter_sublist.map Prod.fst)

/-! ## Bookkeeping -/

/-- The map, the indices and the interest list agree. -/
structure Wf (p : EPollPoller) (channel : ℕ → Channel) : Prop where
  channels_iff : ∀ c fd, p.channels fd = some c ↔ (channel c).fd = fd ∧ (channel c).index ≠ kNew
  index_cases : ∀ c, (channel c).index = kNew ∨ (channel c).index = kAdded ∨
    (channel c).index = kDeleted
  interest_iff : ∀ fd e, (fd, e) ∈ p.interest ↔ (channel e.ptr).fd = fd ∧
    (channel e.ptr).index = kAdded ∧ e.events = (channel e.ptr).events
  interest_nodup : (p.interest.map Prod.fst).Nodup
  deleted_none : ∀ c, (channel c).index = kDeleted → (channel c).events = Channel.kNoneEvent

theorem nodup_update {p : EPollPoller} (h : (p.interest.map Prod.fst).Nodup) (op : CtlOp)
    (channel : ℕ → Channel) (c : ℕ) :
    ((p.update op channel c).interest.map Prod.fst).Nodup :=
  nodup_epollCtl h _ _ _

theorem wf_new (fd : ℕ → ℕ) : new.Wf fun c => Channel.new (fd c) where
  channels_iff := by simp [new, Channel.new, kNew]
  index_cases := fun _ => Or.inl rfl
  interest_iff := by simp [new, Channel.new, kAdded]
  interest_nodup := List.nodup_nil
  deleted_none := fun _ _ => rfl

variable {p p' : EPollPoller} {channel : ℕ → Channel} {c : ℕ} {x : Channel}

/-- A descriptor in the interest list is that of a registered channel. -/
theorem Wf.channels_of_interest (h : p.Wf channel) {fd : ℤ} {e : EPollEvent}
    (he : (fd, e) ∈ p.interest) : p.channels fd = some e.ptr := by
  obtain ⟨hfd, hidx, -⟩ := (h.interest_iff fd e).1 he
  exact (h.channels_iff e.ptr fd).2 ⟨hfd, by rw [hidx]; decide⟩

/-- One channel changes, and with it its descriptor's place in the map and in the interest
list. -/
theorem Wf.set (h : p.Wf channel) {y : Channel} (hfd : y.fd = (channel c).fd)
    (hfree : p.channels y.fd = none ∨ p.channels y.fd = some c)
    (hidx : y.index = kNew ∨ y.index = kAdded ∨ y.index = kDeleted)
    (hdel : y.index = kDeleted → y.events = Channel.kNoneEvent)
    (hch : p'.channels = Function.update p.channels y.fd (if y.index = kNew then none else some c))
    (hmem : ∀ fd e, (fd, e) ∈ p'.interest ↔ fd ≠ y.fd ∧ (fd, e) ∈ p.interest ∨
      y.index = kAdded ∧ fd = y.fd ∧ e = ⟨y.events, c⟩)
    (hnodup : (p'.interest.map Prod.fst).Nodup) : p'.Wf (Function.update channel c y) := by
  -- no other registered channel has the descriptor
  have hother : ∀ d, p.channels y.fd = some d → d = c := by
    intro d hd
    rcases hfree with hnone | hsome
    · rw [hnone] at hd
      cases hd
    · rw [hsome] at hd
      exact (Option.some.inj hd).symm
  refine ⟨fun d fd => ?_, ?_, fun fd e => ?_, hnodup, ?_⟩
  · rw [hch]
    by_cases hd : d = c
    · subst hd
      rw [Function.update_self]
      by_cases hf : fd = y.fd
      · subst hf
        rw [Function.update_self]
        by_cases hnew : y.index = kNew <;> simp [hnew]
      · rw [Function.update_of_ne hf, h.channels_iff, ← hfd]
        simp [Ne.symm hf]
    · rw [Function.update_of_ne hd]
      by_cases hf : fd = y.fd
      · subst hf
        rw [Function.update_self, ← h.channels_iff]
        constructor
        · intro heq
          split_ifs at heq
          exact absurd (Option.some.inj heq).symm hd
        · exact fun heq => absurd (hother d heq) hd
      · rw [Function.update_of_ne hf, h.channels_iff]
  · rw [Function.forall_update_iff channel fun _ z =>
      z.index = kNew ∨ z.index = kAdded ∨ z.index = kDeleted]
    exact ⟨hidx, fun d _ => h.index_cases d⟩
  · rw [hmem]
    by_cases hd : e.ptr = c
    · rw [hd, Function.update_self]
      constructor
      · rintro (⟨hne, he⟩ | ⟨hadd, rfl, rfl⟩)
        · obtain ⟨heq, -⟩ := (h.interest_iff fd e).1 he
          rw [hd, ← hfd] at heq
          exact absurd heq.symm hne
        · exact ⟨rfl, hadd, rfl⟩
      · rintro ⟨rfl, hadd, hev⟩
        refine Or.inr ⟨hadd, rfl, ?_⟩
        rw [← hd, ← hev]
    · rw [Function.update_of_ne hd, ← h.interest_iff]
      constructor
      · rintro (⟨-, he⟩ | ⟨-, -, rfl⟩)
        · exact he
        · exact absurd rfl hd
      · intro he
        refine Or.inl ⟨?_, he⟩
        rintro rfl
        exact hd (hother _ (h.channels_of_interest he))
  · rw [Function.forall_update_iff channel fun _ z => z.index = kDeleted → z.events = Channel.kNoneEvent]
    exact ⟨hdel, fun d _ => h.deleted_none d⟩

/-! ## The operations -/

/-- The index of a channel after an update. -/
def nextIndex (x : Channel) : ℤ := if x.index = kAdded ∧ x.isNoneEvent then kDeleted else kAdded

/-- Adding a channel that is not watched. -/
theorem Wf.update_add (h : p.Wf channel) (hfd : x.fd = (channel c).fd)
    (hfree : p.channels x.fd = none ∨ p.channels x.fd = some c)
    (hidx : (channel c).index ≠ kAdded)
    (hch : p'.channels = Function.update p.channels x.fd (some c))
    (hint : p'.interest = epollCtl p.interest x.fd ⟨x.events, c⟩ .add) :
    p'.Wf (Function.update channel c { x with index := kAdded }) := by
  have hnot : ¬ hasInterest p.interest x.fd := by
    rintro ⟨⟨fd, e⟩, he, rfl⟩
    have hptr := h.channels_of_interest he
    rcases hfree with hnone | hsome
    · rw [hnone] at hptr
      cases hptr
    · rw [hsome] at hptr
      obtain rfl := Option.some.inj hptr
      exact hidx ((h.interest_iff _ e).1 he).2.1
  refine h.set (y := { x with index := kAdded }) hfd hfree (Or.inr (Or.inl rfl)) (fun hd => ?_) hch
    (fun fd e => ?_) ?_
  · exact absurd hd kAdded_ne_kDeleted
  · rw [hint, mem_epollCtl_add hnot]
    simp
  · rw [hint]
    exact nodup_epollCtl h.interest_nodup _ _ _

theorem Wf.updateChannel (h : p.Wf channel) (hfd : x.fd = (channel c).fd)
    (hidx : x.index = (channel c).index)
    (hfree : p.channels x.fd = none ∨ p.channels x.fd = some c) :
    ∃ p', p.updateChannel (Function.update channel c x) c =
        .ok (p', Function.update channel c { x with index := nextIndex x }) ∧
      p'.Wf (Function.update channel c { x with index := nextIndex x }) ∧
      p'.channels = Function.update p.channels x.fd (some c) ∧ p'.eventsSize = p.eventsSize := by
  unfold EPollPoller.updateChannel
  dsimp only
  simp only [setIndex_update]
  rw [Function.update_self]
  have hcases := h.index_cases c
  have hsome : x.index ≠ kNew → p.channels x.fd = some c := fun hne => by
    rw [hfd]
    exact (h.channels_iff c _).2 ⟨rfl, by rw [← hidx]; exact hne⟩
  have hself : p.channels x.fd = some c → Function.update p.channels x.fd (some c) = p.channels :=
    fun hc => by rw [← hc, Function.update_eq_self]
  rw [← hidx] at hcases
  rcases hcases with hnew | hadd | hdel
  · have hnone : p.channels x.fd = none := by
      rcases hfree with hnone | hc
      · exact hnone
      · rw [hfd, h.channels_iff, ← hidx] at hc
        exact absurd hnew hc.2
    have hnext : nextIndex x = kAdded :=
      if_neg fun hall => kAdded_ne_kNew (hall.1.symm.trans hnew)
    rw [if_pos hnew, check_of hnone, ok_bind, hnext]
    refine ⟨_, rfl, h.update_add hfd hfree ?_ rfl ?_, rfl, rfl⟩
    · rw [← hidx, hnew]
      decide
    · simp only [update, Function.update_self]
  · have hc := hsome (by rw [hadd]; decide)
    have hwatched : hasInterest p.interest x.fd :=
      ⟨(x.fd, ⟨(channel c).events, c⟩), (h.interest_iff _ _).2 ⟨by rw [hfd], by rw [← hidx, hadd], rfl⟩,
        rfl⟩
    rw [if_neg (by rw [hadd]; decide), if_neg (by rw [hadd]; decide), check_of hc, ok_bind,
      check_of hadd, ok_bind]
    by_cases hnone : x.isNoneEvent = true
    · have hnext : nextIndex x = kDeleted := if_pos ⟨hadd, hnone⟩
      rw [if_pos hnone, hnext]
      refine ⟨_, rfl, ?_, (hself hc).symm, rfl⟩
      refine h.set (y := { x with index := kDeleted }) hfd hfree (Or.inr (Or.inr rfl))
        (fun _ => ?_) (hself hc).symm (fun fd e => ?_) (nodup_update h.interest_nodup _ _ _)
      · simpa [Channel.isNoneEvent] using hnone
      · simp only [update, Function.update_self]
        rw [mem_epollCtl_del]
        simp [kAdded, kDeleted]
    · have hnext : nextIndex x = kAdded := if_neg (fun hall => hnone hall.2)
      have hx : ({ x with index := kAdded } : Channel) = x := by rw [← hadd]
      rw [if_neg hnone, hnext, hx]
      refine ⟨_, rfl, ?_, (hself hc).symm, rfl⟩
      refine h.set hfd hfree (Or.inr (Or.inl hadd)) (fun hd => ?_) ?_ (fun fd e => ?_)
        (nodup_update h.interest_nodup _ _ _)
      · rw [hadd] at hd
        exact absurd hd (by decide)
      · rw [if_neg (by rw [hadd]; decide)]
        exact (hself hc).symm
      · simp only [update, Function.update_self]
        rw [mem_epollCtl_mod hwatched]
        simp [hadd]
  · have hc := hsome (by rw [hdel]; decide)
    have hnext : nextIndex x = kAdded :=
      if_neg fun hall => kAdded_ne_kDeleted (hall.1.symm.trans hdel)
    rw [if_neg (by rw [hdel]; decide), if_pos hdel, check_of hc, ok_bind, hnext]
    refine ⟨_, rfl, h.update_add hfd hfree ?_ (hself hc).symm ?_, (hself hc).symm, rfl⟩
    · rw [← hidx, hdel]
      decide
    · simp only [update, Function.update_self]

/-- The descriptor belongs to another channel. -/
theorem Wf.updateChannel_fault (h : p.Wf channel) (hfd : x.fd = (channel c).fd)
    (hidx : x.index = (channel c).index) (hnone : p.channels x.fd ≠ none)
    (hsome : p.channels x.fd ≠ some c) :
    p.updateChannel (Function.update channel c x) c = .error .updateChannel := by
  have hnew : x.index = kNew := by
    by_contra hne
    refine hsome ?_
    rw [hfd, h.channels_iff, ← hidx]
    exact ⟨rfl, hne⟩
  unfold EPollPoller.updateChannel
  dsimp only
  rw [Function.update_self, if_pos hnew, check_of_not hnone]
  rfl

theorem Wf.removeChannel (h : p.Wf channel) (hfd : x.fd = (channel c).fd)
    (hidx : x.index = (channel c).index) (hc : p.channels x.fd = some c)
    (hnone : x.isNoneEvent = true) :
    ∃ p', p.removeChannel (Function.update channel c x) c =
        .ok (p', Function.update channel c { x with index := kNew }) ∧
      p'.Wf (Function.update channel c { x with index := kNew }) ∧
      p'.channels = Function.update p.channels x.fd none ∧ p'.eventsSize = p.eventsSize := by
  have hne : x.index ≠ kNew := by
    rw [hfd, h.channels_iff, ← hidx] at hc
    exact hc.2
  have hreg : x.index = kAdded ∨ x.index = kDeleted := by
    rcases h.index_cases c with hnew | hreg
    · exact absurd (hidx.trans hnew) hne
    · rw [hidx]
      exact hreg
  unfold EPollPoller.removeChannel
  dsimp only
  simp only [setIndex_update]
  rw [Function.update_self, check_of hc, ok_bind, check_of hnone, ok_bind, check_of hreg, ok_bind]
  by_cases hadd : x.index = kAdded
  · rw [if_pos hadd]
    refine ⟨_, rfl, ?_, rfl, rfl⟩
    refine h.set (y := { x with index := kNew }) hfd (Or.inr hc) (Or.inl rfl)
      (fun hd => absurd hd.symm kDeleted_ne_kNew) rfl (fun fd e => ?_)
      (nodup_update h.interest_nodup _ _ _)
    simp only [update, Function.update_self]
    rw [mem_epollCtl_del]
    simp [kAdded, kNew]
  · rw [if_neg hadd]
    refine ⟨_, rfl, ?_, rfl, rfl⟩
    refine h.set (y := { x with index := kNew }) hfd (Or.inr hc) (Or.inl rfl)
      (fun hd => absurd hd.symm kDeleted_ne_kNew) rfl (fun fd e => ?_) h.interest_nodup
    -- a deleted channel has left the interest list already
    have hgone : (fd, e) ∈ p.interest → fd ≠ x.fd := by
      rintro he rfl
      have hptr := h.channels_of_interest he
      rw [hc] at hptr
      obtain rfl := Option.some.inj hptr
      exact hadd (hidx.trans ((h.interest_iff _ e).1 he).2.1)
    constructor
    · exact fun he => Or.inl ⟨hgone he, he⟩
    · rintro (he | ⟨hd, -⟩)
      · exact he.2
      · exact absurd hd.symm kAdded_ne_kNew

theorem removeChannel_fault (hsome : p.channels x.fd ≠ some c) :
    p.removeChannel (Function.update channel c x) c = .error .removeChannel := by
  unfold EPollPoller.removeChannel
  dsimp only
  rw [Function.update_self, check_of_not hsome]
  rfl

/-! ## Polling -/

/-- `revents_` is no part of the bookkeeping, and neither is the size of `events_`. -/
theorem Wf.congr {channel' : ℕ → Channel} (h : p.Wf channel) (hch : p'.channels = p.channels)
    (hint : p'.interest = p.interest)
    (hsame : ∀ c, ∃ r, channel' c = { channel c with revents := r }) : p'.Wf channel' := by
  have hfd : ∀ c, (channel' c).fd = (channel c).fd := fun c => by
    obtain ⟨r, hr⟩ := hsame c
    rw [hr]
  have hidx : ∀ c, (channel' c).index = (channel c).index := fun c => by
    obtain ⟨r, hr⟩ := hsame c
    rw [hr]
  have hev : ∀ c, (channel' c).events = (channel c).events := fun c => by
    obtain ⟨r, hr⟩ := hsame c
    rw [hr]
  refine ⟨?_, ?_, ?_, ?_, ?_⟩
  · simpa only [hch, hfd, hidx] using h.channels_iff
  · simpa only [hidx] using h.index_cases
  · simpa only [hint, hfd, hidx, hev] using h.interest_iff
  · rw [hint]
    exact h.interest_nodup
  · simpa only [hidx, hev] using h.deleted_none

/-- What the kernel reports for a channel that is watched. -/
def reportFor (k : Kernel) (x : Channel) : Mask := k.report x.fd x.events

/-- Every channel of the list has its `revents_` set. -/
def setRevents (k : Kernel) (channel : ℕ → Channel) (active : List ℕ) (c : ℕ) : Channel :=
  if c ∈ active then { channel c with revents := reportFor k (channel c) } else channel c

theorem setRevents_eq (k : Kernel) (channel : ℕ → Channel) (active : List ℕ) (c : ℕ) :
    ∃ r, setRevents k channel active c = { channel c with revents := r } := by
  unfold setRevents
  split_ifs
  · exact ⟨_, rfl⟩
  · exact ⟨(channel c).revents, rfl⟩

theorem fillLoop_eq {k : Kernel} {events : List EPollEvent}
    (hch : ∀ e ∈ events, p.channels (channel e.ptr).fd = some e.ptr)
    (hev : ∀ e ∈ events, e.events = reportFor k (channel e.ptr)) (active : List ℕ) :
    p.fillLoop events channel active =
      .ok (setRevents k channel (events.map EPollEvent.ptr), active ++ events.map EPollEvent.ptr) := by
  induction events generalizing channel active with
  | nil =>
    rw [List.map_nil, List.append_nil]
    rfl
  | cons e events ih =>
    let channel' := Function.update channel e.ptr { channel e.ptr with revents := e.events }
    have hsame : ∀ c, ∃ r, channel' c = { channel c with revents := r } := fun c => by
      by_cases hc : c = e.ptr
      · subst hc
        exact ⟨e.events, Function.update_self ..⟩
      · exact ⟨(channel c).revents, Function.update_of_ne hc ..⟩
    have hreport : ∀ c, reportFor k (channel' c) = reportFor k (channel c) := fun c => by
      obtain ⟨r, hr⟩ := hsame c
      rw [hr]
      rfl
    have hfd : ∀ c, (channel' c).fd = (channel c).fd := fun c => by
      obtain ⟨r, hr⟩ := hsame c
      rw [hr]
    have hch' : ∀ e' ∈ events, p.channels (channel' e'.ptr).fd = some e'.ptr := fun e' he' => by
      rw [hfd]
      exact hch e' (List.mem_cons_of_mem e he')
    have hev' : ∀ e' ∈ events, e'.events = reportFor k (channel' e'.ptr) := fun e' he' => by
      rw [hreport]
      exact hev e' (List.mem_cons_of_mem e he')
    rw [fillLoop, check_of (hch e List.mem_cons_self), ok_bind, ih hch' hev', List.map_cons,
      List.append_assoc, List.singleton_append]
    congr 2
    funext c
    unfold setRevents
    rw [hreport]
    by_cases hc : c ∈ events.map EPollEvent.ptr
    · obtain ⟨r, hr⟩ := hsame c
      rw [if_pos hc, if_pos (List.mem_cons_of_mem _ hc), hr]
    · rw [if_neg hc]
      by_cases hce : c = e.ptr
      · subst hce
        rw [if_pos List.mem_cons_self, ← hev e List.mem_cons_self]
        exact Function.update_self ..
      · rw [if_neg (by simp [hce, hc])]
        exact Function.update_of_ne hce ..

/-- The entries with something to report. -/
def ready (p : EPollPoller) (k : Kernel) : List EPollEvent := p.interest.filterMap (reported k)

theorem Wf.mem_ready_iff (h : p.Wf channel) {k : Kernel} {e : EPollEvent} :
    e ∈ p.ready k ↔ (channel e.ptr).index = kAdded ∧ e.events = reportFor k (channel e.ptr) ∧
      e.events ≠ 0 := by
  unfold ready reported
  rw [List.mem_filterMap]
  constructor
  · rintro ⟨⟨fd, e'⟩, he', heq⟩
    obtain ⟨hfd, hidx, hev⟩ := (h.interest_iff fd e').1 he'
    dsimp only at heq
    split_ifs at heq with hzero
    obtain rfl := Option.some.inj heq
    refine ⟨hidx, ?_, hzero⟩
    rw [reportFor, hfd, ← hev]
  · rintro ⟨hidx, hev, hne⟩
    refine ⟨((channel e.ptr).fd, ⟨(channel e.ptr).events, e.ptr⟩),
      (h.interest_iff _ _).2 ⟨rfl, hidx, rfl⟩, ?_⟩
    have heq : k.report (channel e.ptr).fd (channel e.ptr).events = e.events := hev.symm
    dsimp only
    rw [heq, if_neg hne]

theorem mem_ready_of_epollWait {k : Kernel} {e : EPollEvent} (he : e ∈ p.epollWait k) :
    e ∈ p.ready k :=
  (k.order_perm _).subset (List.mem_of_mem_take he)

/-- The active channels of a poll. -/
def activeOf (p : EPollPoller) (k : Kernel) : List ℕ := (p.epollWait k).map EPollEvent.ptr

theorem Wf.of_mem_activeOf (h : p.Wf channel) {k : Kernel} (hc : c ∈ p.activeOf k) :
    (channel c).index = kAdded ∧ reportFor k (channel c) ≠ 0 := by
  obtain ⟨e, he, rfl⟩ := List.mem_map.1 hc
  obtain ⟨hidx, hev, hne⟩ := h.mem_ready_iff.1 (mem_ready_of_epollWait he)
  exact ⟨hidx, by rw [← hev]; exact hne⟩

/-- With room for all of them, every channel that has something to report is active. -/
theorem Wf.mem_activeOf (h : p.Wf channel) {k : Kernel}
    (hroom : (p.ready k).length ≤ p.eventsSize) (hidx : (channel c).index = kAdded)
    (hne : reportFor k (channel c) ≠ 0) : c ∈ p.activeOf k := by
  have hready : (⟨reportFor k (channel c), c⟩ : EPollEvent) ∈ p.ready k :=
    h.mem_ready_iff.2 ⟨hidx, rfl, hne⟩
  refine List.mem_map.2 ⟨⟨reportFor k (channel c), c⟩, ?_, rfl⟩
  unfold epollWait
  rw [List.take_of_length_le]
  · exact (k.order_perm _).symm.subset hready
  · rw [(k.order_perm _).length_eq]
    exact hroom

theorem activeOf_ne_nil {k : Kernel} (hroom : 0 < p.eventsSize) (hready : p.ready k ≠ []) :
    p.activeOf k ≠ [] := by
  intro hnil
  have hlen := congrArg List.length hnil
  unfold activeOf epollWait at hlen
  rw [List.length_map, List.length_take, (k.order_perm _).length_eq] at hlen
  have hpos : 0 < (p.ready k).length := List.length_pos_iff.2 hready
  unfold ready at hpos
  simp only [List.length_nil] at hlen
  omega

theorem Wf.poll (h : p.Wf channel) (k : Kernel) :
    ∃ p', p.poll channel k = .ok (p', setRevents k channel (p.activeOf k), p.activeOf k) ∧
      p'.Wf (setRevents k channel (p.activeOf k)) ∧ p'.channels = p.channels ∧
      p.eventsSize ≤ p'.eventsSize := by
  have hfits : (p.epollWait k).length ≤ p.eventsSize := by
    unfold epollWait
    exact List.length_take_le _ _
  have hfill : p.fillActiveChannels (p.epollWait k) channel =
      .ok (setRevents k channel (p.activeOf k), p.activeOf k) := by
    rw [fillActiveChannels, check_of hfits, ok_bind, fillLoop_eq (k := k)]
    · rw [List.nil_append]
      rfl
    · intro e he
      obtain ⟨hidx, -, -⟩ := h.mem_ready_iff.1 (mem_ready_of_epollWait he)
      exact (h.channels_iff _ _).2 ⟨rfl, by rw [hidx]; exact kAdded_ne_kNew⟩
    · exact fun e he => (h.mem_ready_iff.1 (mem_ready_of_epollWait he)).2.1
  have hsame := setRevents_eq k channel (p.activeOf k)
  unfold EPollPoller.poll
  dsimp only
  by_cases hpos : 0 < (p.epollWait k).length
  · rw [if_pos hpos, hfill, ok_bind]
    dsimp only
    by_cases hfull : (p.epollWait k).length = p.eventsSize
    · rw [if_pos hfull]
      exact ⟨_, rfl, h.congr rfl rfl hsame, rfl, Nat.le_mul_of_pos_right _ (by decide)⟩
    · rw [if_neg hfull]
      exact ⟨p, rfl, h.congr rfl rfl hsame, rfl, Nat.le_refl _⟩
  · have hnil : p.activeOf k = [] := by
      rw [activeOf, List.length_eq_zero_iff.1 (Nat.eq_zero_of_not_pos hpos), List.map_nil]
    have hid : setRevents k channel (p.activeOf k) = channel := by
      funext c
      rw [setRevents, hnil, if_neg List.not_mem_nil]
    rw [if_neg hpos, hid, hnil]
    exact ⟨p, rfl, h, rfl, Nat.le_refl _⟩

end EPollPoller

end Reactor
