import Mathlib.Data.List.Chain
import Reactor.TimerQueue.Tick

/-!
# When timers fire

A `Request` is what was asked of `addTimer`: it says when its timer is due, from the times at which it
has fired.  A `History` is the queue with what was asked of it and what has fired; timers are known by
their sequence numbers, which are never given out again.

* `timers_fire_on_schedule`: along every run, with callbacks that add and cancel timers as they like, a
  timer that does not repeat fires at most once and not too early, and one that repeats fires again
  after its interval and not before.  What a `handleRead` fires is every active timer that is due,
  once, in the order in which they are due, and nothing else.
-/

namespace Reactor

namespace TimerQueue

/-- What was asked of `addTimer`. -/
structure Request where
  when_ : Timestamp
  interval : ℕ
  repeat_ : Bool
  deriving DecidableEq, Repr

namespace Request

/-- When the timer is due, after it has fired at the times `fired`. -/
def due (r : Request) (fired : List Timestamp) : Option Timestamp :=
  match fired.getLast? with
  | none => some r.when_
  | some last => if r.repeat_ then some (last + r.interval) else none

/-- The timer has fired at these times, as it was asked. -/
structure Punctual (r : Request) (fired : List Timestamp) : Prop where
  once : r.repeat_ = false → fired.length ≤ 1
  first : ∀ f ∈ fired.head?, r.when_ ≤ f
  apart : fired.IsChain fun f f' : Timestamp => f + r.interval ≤ f'

variable {r : Request} {fired : List Timestamp}

theorem punctual_nil (r : Request) : r.Punctual [] :=
  ⟨fun _ => Nat.zero_le 1, fun _ h => (by cases h), .nil⟩

/-- A timer that is due fires. -/
theorem Punctual.concat (h : r.Punctual fired) {due now : Timestamp} (hdue : r.due fired = some due)
    (hle : due ≤ now) : r.Punctual (fired ++ [now]) := by
  unfold Request.due at hdue
  cases hlast : fired.getLast? with
  | none =>
    rw [hlast] at hdue
    obtain rfl := Option.some.inj hdue
    obtain rfl := List.getLast?_eq_none_iff.1 hlast
    refine ⟨fun _ => le_rfl, fun f hf => ?_, .singleton now⟩
    obtain rfl := Option.some.inj hf
    exact hle
  | some last =>
    rw [hlast] at hdue
    dsimp only at hdue
    have hne : fired ≠ [] := by
      rintro rfl
      cases hlast
    split_ifs at hdue with hrepeat
    obtain rfl := Option.some.inj hdue
    refine ⟨fun honce => ?_, fun f hf => ?_, ?_⟩
    · rw [hrepeat] at honce
      cases honce
    · rw [List.head?_append_of_ne_nil _ hne] at hf
      exact h.first f hf
    · refine List.isChain_append.2 ⟨h.apart, .singleton now, fun f hf f' hf' => ?_⟩
      rw [hlast] at hf
      obtain rfl := Option.some.inj hf
      obtain rfl := Option.some.inj hf'
      exact hle

end Request

/-- The sequence numbers of the timers of some entries. -/
def sequences (q : TimerQueue) (es : List Entry) : List ℕ :=
  es.filterMap fun e => (q.heap e.timer).map Timer.sequence

/-- The callback that is started next: the sequence number of its timer, and the time. -/
def firing (q : TimerQueue) : Option (ℕ × Timestamp) :=
  match q.handling with
  | some ⟨_, e :: _, now⟩ => (q.heap e.timer).map fun t => (t.sequence, now)
  | _ => none

/-- The queue, what was asked of it in the order of the sequence numbers, and what has fired, before
the last `handleRead` began and by now.  `batch` is what that one has to fire. -/
structure History where
  queue : TimerQueue
  requests : List Request
  before : List (ℕ × Timestamp)
  fired : List (ℕ × Timestamp)
  batch : List ℕ

namespace History

def init : History := ⟨new, [], [], [], []⟩

def note (s : History) (q' : TimerQueue) : Action → History
  | .newTimer _ expiration interval repeat_ =>
    { s with queue := q', requests := s.requests ++ [⟨expiration, interval, repeat_⟩] }
  | .beginHandleRead _ =>
    { s with
      queue := q'
      before := s.fired
      batch := (q'.handling.map fun g => q'.sequences g.expired).getD [] }
  | .run => { s with queue := q', fired := s.fired ++ s.queue.firing.toList }
  | .addTimerInLoop _ | .cancelInLoop _ | .expire | .poll | .endHandleRead => { s with queue := q' }

def step (s : History) (a : Action) : Except Fault History := do
  return s.note (← s.queue.step a) a

def machine : Machine History Action Fault := ⟨step⟩

def Env (s : History) (a : Action) : Prop := TimerQueue.Env s.queue a

instance (s : History) (a : Action) : Decidable (Env s a) :=
  inferInstanceAs (Decidable (TimerQueue.Env _ _))

/-- The request of a timer; the first sequence number is 1. -/
def request (s : History) : ℕ → Option Request
  | 0 => none
  | n + 1 => s.requests[n]?

/-- When a timer has fired. -/
def firings (s : History) (n : ℕ) : List Timestamp :=
  (s.fired.filter (·.1 = n)).map Prod.snd

def due (s : History) (n : ℕ) : Option Timestamp := (s.request n).bind fun r => r.due (s.firings n)

/-- Every timer has fired as it was asked. -/
def Punctual (s : History) : Prop := ∀ n r, s.request n = some r → r.Punctual (s.firings n)

/-- `handleRead` has to fire the active timers that are due, earlier ones first, and fires each of
them once. -/
def Complete (s : History) : Action → Prop
  | .beginHandleRead now => ∀ s', s.step (.beginHandleRead now) = .ok s' → s'.batch.Nodup ∧
      (∀ n, n ∈ s'.batch ↔
        ∃ p ∈ s.queue.activeTimers, p.sequence = n ∧ ∃ due ∈ s.due n, due ≤ now) ∧
      s'.batch.Pairwise fun m n => ∀ d ∈ s.due m, ∀ d' ∈ s.due n, d ≤ d'
  | .endHandleRead => ∀ g ∈ s.queue.handling, s.fired = s.before ++ s.batch.map fun n => (n, g.now)
  | .newTimer _ _ _ _ | .addTimerInLoop _ | .cancelInLoop _ | .expire | .poll | .run => True

/-! ## The history between two steps -/

/-- The callback of the timer has run, and its `handleRead` has not ended. -/
def Ran (q : TimerQueue) (a : Addr) : Prop := a ∈ q.expiring ∧ ¬ Cancelling.Awaited q a

/-- A `handleRead` that is under way. -/
structure Ticking (s : History) (g : Handling) : Prop where
  due : ∀ e ∈ g.expired, ∃ t, s.queue.heap e.timer = some t ∧ t.expiration ≤ g.now
  batch : s.batch = s.queue.sequences g.expired
  fired : ∃ ran, g.expired = ran ++ g.todo ∧
    s.fired = s.before ++ (s.queue.sequences ran).map fun n => (n, g.now)

structure Inv (s : History) : Prop where
  inv : s.queue.Inv
  count : s.requests.length = s.queue.numCreated
  distinct : ∀ a b t u, s.queue.heap a = some t → s.queue.heap b = some u → t.sequence = u.sequence →
    a = b
  request : ∀ a t, s.queue.heap a = some t → ∃ r, s.request t.sequence = some r ∧
    t.interval = r.interval ∧ t.repeat_ = r.repeat_
  waiting : ∀ a t, s.queue.heap a = some t → ¬ Ran s.queue a → s.due t.sequence = some t.expiration
  ran : ∀ a t, s.queue.heap a = some t → Ran s.queue a →
    ∃ g ∈ s.queue.handling, (s.firings t.sequence).getLast? = some g.now
  fired : ∀ p ∈ s.fired, p.1 ≤ s.queue.numCreated
  punctual : s.Punctual
  ticking : ∀ g ∈ s.queue.handling, Ticking s g

theorem inv_init : Inv init :=
  ⟨inv_new, rfl, fun _ _ _ _ h => (nomatch h), fun _ _ h => (nomatch h), fun _ _ h => (nomatch h),
    fun _ _ h => (nomatch h), fun _ h => absurd h List.not_mem_nil,
    fun _ r _ => Request.punctual_nil r, fun _ h => (nomatch h)⟩

variable {s : History} {q q' : TimerQueue} {a : Addr} {now : Timestamp}

/-- Outside `handleRead` no callback has run. -/
theorem not_ran (h : q.handling = none) (a : Addr) : ¬ Ran q a := by
  rintro ⟨hin, -⟩
  rw [expiring, h] at hin
  exact absurd hin List.not_mem_nil

theorem ran_congr (h : q'.handling = q.handling) (a : Addr) : Ran q' a ↔ Ran q a := by
  unfold Ran
  rw [expiring_congr h, Cancelling.awaited_congr h]

/-- What is alive keeps its number and its expiration, and nothing comes to life. -/
structure Keeps (q q' : TimerQueue) : Prop where
  handling : q'.handling = q.handling
  numCreated : q'.numCreated = q.numCreated
  heap : ∀ a t', q'.heap a = some t' → ∃ t, q.heap a = some t ∧ t'.sequence = t.sequence ∧
    t'.expiration = t.expiration ∧ t'.interval = t.interval ∧ t'.repeat_ = t.repeat_

theorem keeps_addTimerInLoop (h : TimerQueue.step q (.addTimerInLoop a) = .ok q') : Keeps q q' := by
  have hframe := frame_addTimerInLoop (show TimerQueue.addTimerInLoop _ a = .ok q' from h)
  refine ⟨hframe.handling, hframe.numCreated, fun b t' ht' => ?_⟩
  rw [hframe.heap] at ht'
  by_cases hb : b = a
  · subst hb
    rw [store_heap_self] at ht'
    obtain ⟨t, ht, rfl⟩ := Option.map_eq_some_iff.1 ht'
    exact ⟨t, ht, rfl, rfl, rfl, rfl⟩
  · rw [store_heap_of_ne hb] at ht'
    exact ⟨t', ht', rfl, rfl, rfl, rfl⟩

theorem keeps_cancelInLoop {id : ActiveTimer} (h : q.cancelInLoop id = .ok q') : Keeps q q' := by
  rcases cancelInLoop_cases h with ⟨-, hheap, -, -, hhandling, hnum⟩ | ⟨-, -, rfl⟩ | ⟨-, -, rfl⟩
  · refine ⟨hhandling, hnum, fun b t' ht' => ?_⟩
    rw [hheap] at ht'
    have hb : b ≠ id.timer := by
      rintro rfl
      rw [Function.update_self] at ht'
      cases ht'
    rw [Function.update_of_ne hb] at ht'
    exact ⟨t', ht', rfl, rfl, rfl, rfl⟩
  · exact ⟨rfl, rfl, fun b t' ht' => ⟨t', ht', rfl, rfl, rfl, rfl⟩⟩
  · exact ⟨rfl, rfl, fun b t' ht' => ⟨t', ht', rfl, rfl, rfl, rfl⟩⟩

/-- The timers of a batch are alive. -/
theorem sequences_congr {es : List Entry}
    (h : ∀ e ∈ es, (q'.heap e.timer).map Timer.sequence = (q.heap e.timer).map Timer.sequence) :
    q'.sequences es = q.sequences es :=
  List.filterMap_congr h

/-- A step that leaves the history as it is. -/
theorem Inv.of_keeps (h : Inv s) (hq' : q'.Inv) (hk : Keeps s.queue q') :
    Inv { s with queue := q' } := by
  have halive : ∀ g ∈ s.queue.handling, ∀ e ∈ g.expired, ∃ t t', s.queue.heap e.timer = some t ∧
      q'.heap e.timer = some t' ∧ t'.sequence = t.sequence ∧ t'.expiration = t.expiration := by
    intro g hg e he
    obtain ⟨t', ht', -⟩ := hq'.rep.alive e.timer (by
      rw [expiring, hk.handling, hg]
      exact List.mem_map_of_mem he)
    obtain ⟨t, ht, hseq, hexp, -⟩ := hk.heap _ _ ht'
    exact ⟨t, t', ht, ht', hseq, hexp⟩
  have hsequences : ∀ g ∈ s.queue.handling, ∀ es ⊆ g.expired, q'.sequences es = s.queue.sequences es := by
    intro g hg es hes
    refine sequences_congr fun e he => ?_
    obtain ⟨t, t', ht, ht', hseq, -⟩ := halive g hg e (hes he)
    rw [ht, ht', Option.map_some, Option.map_some, hseq]
  refine ⟨hq', h.count.trans hk.numCreated.symm, fun a b t' u' ht' hu' hseq => ?_, fun a t' ht' => ?_,
    fun a t' ht' hran => ?_, fun a t' ht' hran => ?_, fun p hp => ?_, h.punctual, fun g hg => ?_⟩
  · obtain ⟨t, ht, htseq, -⟩ := hk.heap a t' ht'
    obtain ⟨u, hu, huseq, -⟩ := hk.heap b u' hu'
    exact h.distinct a b t u ht hu (by rw [← htseq, hseq, huseq])
  · obtain ⟨t, ht, hseq, -, hinterval, hrepeat⟩ := hk.heap a t' ht'
    obtain ⟨r, hr, hri, hrr⟩ := h.request a t ht
    exact ⟨r, by rw [hseq]; exact hr, hinterval.trans hri, hrepeat.trans hrr⟩
  · obtain ⟨t, ht, hseq, hexp, -⟩ := hk.heap a t' ht'
    rw [hseq, hexp]
    exact h.waiting a t ht fun hold => hran ((ran_congr hk.handling a).2 hold)
  · obtain ⟨t, ht, hseq, -⟩ := hk.heap a t' ht'
    obtain ⟨g, hg, hlast⟩ := h.ran a t ht ((ran_congr hk.handling a).1 hran)
    refine ⟨g, by rw [hk.handling]; exact hg, ?_⟩
    rw [hseq]
    exact hlast
  · rw [hk.numCreated]
    exact h.fired p hp
  · rw [hk.handling] at hg
    obtain ⟨hdue, hbatch, ran, hran, hfired⟩ := h.ticking g hg
    refine ⟨fun e he => ?_, ?_, ran, hran, ?_⟩
    · obtain ⟨t, t', ht, ht', -, hexp⟩ := halive g hg e he
      obtain ⟨u, hu, hle⟩ := hdue e he
      obtain rfl := Option.some.inj (ht.symm.trans hu)
      exact ⟨t', ht', by rw [hexp]; exact hle⟩
    · rw [hsequences g hg _ fun _ he => he]
      exact hbatch
    · rw [hsequences g hg _ (by rw [hran]; exact List.subset_append_left _ _)]
      exact hfired

theorem step_ok {act : Action} (h : s.queue.step act = .ok q') :
    machine.step s act = .ok (s.note q' act) := by
  show s.step act = _
  rw [step, h]
  rfl

/-- A timer that is new has a number of its own. -/
theorem Inv.sequence_le (h : Inv s) {t : Timer} (ht : s.queue.heap a = some t) :
    t.sequence ≤ s.queue.numCreated := by
  obtain ⟨r, hr, -⟩ := h.request a t ht
  rw [← h.count]
  cases hn : t.sequence with
  | zero => exact Nat.zero_le _
  | succ n =>
    rw [hn] at hr
    exact (List.getElem?_eq_some_iff.1 hr).1

/-- One more request. -/
theorem request_note {n : ℕ} {expiration : Timestamp} {interval : ℕ} {repeat_ : Bool} :
    (s.note q' (.newTimer a expiration interval repeat_)).request n =
      if n = s.requests.length + 1 then some ⟨expiration, interval, repeat_⟩ else s.request n := by
  cases n with
  | zero => rfl
  | succ n =>
    show (s.requests ++ [_])[n]? = if n + 1 = s.requests.length + 1 then _ else s.requests[n]?
    by_cases hn : n = s.requests.length
    · rw [if_pos (by rw [hn]), hn, List.getElem?_concat_length]
    · rw [if_neg fun heq => hn (Nat.succ.inj heq)]
      by_cases hlt : n < s.requests.length
      · exact List.getElem?_append_left hlt
      · rw [List.getElem?_eq_none (by rw [List.length_append, List.length_singleton]; omega),
          List.getElem?_eq_none (by omega)]

theorem Inv.newTimer (h : Inv s) {expiration : Timestamp} {interval : ℕ} {repeat_ : Bool}
    (hE : Env s (.newTimer a expiration interval repeat_)) :
    ∃ s', machine.step s (.newTimer a expiration interval repeat_) = .ok s' ∧ Inv s' := by
  obtain ⟨q', hq', hI, -, -, hhandling⟩ := step_newTimer h.inv hE
  have hnum : q'.numCreated = s.queue.numCreated + 1 := by
    obtain rfl := Except.ok.inj hq'
    rfl
  have hheap : ∀ b t, q'.heap b = some t →
      b = a ∧ t = ⟨expiration, interval, repeat_, s.queue.numCreated + 1, false⟩ ∨
        s.queue.heap b = some t := by
    obtain rfl := Except.ok.inj hq'
    intro b t hb
    by_cases hba : b = a
    · subst hba
      exact .inl ⟨rfl, Option.some.inj (hb.symm.trans (store_heap_self _))⟩
    · exact .inr ((store_heap_of_ne hba _).symm.trans hb)
  have hkept : ∀ b t, s.queue.heap b = some t → q'.heap b = some t := by
    obtain rfl := Except.ok.inj hq'
    intro b t hb
    have hba : b ≠ a := by
      rintro rfl
      rw [hE.1] at hb
      cases hb
    exact (store_heap_of_ne hba _).trans hb
  have hnew : s.firings (s.queue.numCreated + 1) = [] := by
    unfold firings
    rw [List.map_eq_nil_iff, List.filter_eq_nil_iff]
    intro p hp heq
    have hle := h.fired p hp
    rw [of_decide_eq_true heq] at hle
    exact absurd hle (Nat.not_succ_le_self _)
  have hne : ∀ b t, s.queue.heap b = some t → t.sequence ≠ s.requests.length + 1 := by
    intro b t hb heq
    have hle := h.sequence_le hb
    rw [h.count] at heq
    omega
  have hran : ∀ b, Ran q' b ↔ Ran s.queue b := ran_congr hhandling
  have hrequest : ∀ n, (s.note q' (.newTimer a expiration interval repeat_)).request n =
      if n = s.requests.length + 1 then some ⟨expiration, interval, repeat_⟩ else s.request n :=
    fun n => request_note
  refine ⟨_, step_ok hq', hI, ?_, fun b c t u hb hc hseq => ?_, fun b t hb => ?_, fun b t hb hold => ?_,
    fun b t hb hold => ?_, fun p hp => ?_, fun n r hr => ?_, fun g hg => ?_⟩
  · show (s.requests ++ [_]).length = q'.numCreated
    rw [List.length_append, h.count, hnum]
    rfl
  · rcases hheap b t hb with ⟨hba, rfl⟩ | hold <;> rcases hheap c u hc with ⟨hca, rfl⟩ | hold'
    · rw [hba, hca]
    · exact absurd (hseq.symm.trans (by rw [h.count])) (hne c u hold')
    · exact absurd (hseq.trans (by rw [h.count])) (hne b t hold)
    · exact h.distinct b c t u hold hold' hseq
  · rcases hheap b t hb with ⟨rfl, rfl⟩ | hb
    · exact ⟨_, (hrequest _).trans (if_pos (by rw [h.count])), rfl, rfl⟩
    · obtain ⟨r, hr, hrest⟩ := h.request b t hb
      exact ⟨r, (hrequest _).trans ((if_neg (hne b t hb)).trans hr), hrest⟩
  · show ((s.note q' _).request t.sequence).bind (fun r => r.due (s.firings t.sequence)) = _
    rw [hrequest]
    rcases hheap b t hb with ⟨rfl, rfl⟩ | hb
    · rw [if_pos (by rw [h.count]), hnew]
      rfl
    · rw [if_neg (hne b t hb)]
      exact h.waiting b t hb fun hran' => hold ((hran b).2 hran')
  · have hold' := (hran b).1 hold
    obtain ⟨u, hu, -⟩ := h.inv.rep.alive b hold'.1
    obtain rfl := Option.some.inj ((hkept b u hu).symm.trans hb)
    obtain ⟨g, hg, hlast⟩ := h.ran b u hu hold'
    exact ⟨g, hhandling.trans hg, hlast⟩
  · have hle := h.fired p hp
    show p.1 ≤ q'.numCreated
    omega
  · rw [hrequest] at hr
    show r.Punctual (s.firings n)
    split_ifs at hr with hn
    · rw [hn, h.count, hnew]
      exact Request.punctual_nil r
    · exact h.punctual n r hr
  · have hg' : g ∈ s.queue.handling := hhandling.symm.trans hg
    obtain ⟨hdue, hbatch, ran, hran', hfired⟩ := h.ticking g hg'
    have hsequences : ∀ es ⊆ g.expired, q'.sequences es = s.queue.sequences es := by
      refine fun es hes => sequences_congr fun e he => ?_
      obtain ⟨t, ht, -⟩ := hdue e (hes he)
      rw [ht, hkept _ _ ht]
    refine ⟨fun e he => ?_, ?_, ran, hran', ?_⟩
    · obtain ⟨t, ht, hle⟩ := hdue e he
      exact ⟨t, hkept _ _ ht, hle⟩
    · rw [show (s.note q' _).queue = q' from rfl, hsequences _ fun _ he => he]
      exact hbatch
    · rw [show (s.note q' _).queue = q' from rfl,
        hsequences _ (by rw [hran']; exact List.subset_append_left _ _)]
      exact hfired

theorem beginHandleRead_spec (h : q.Inv) (hE : TimerQueue.Env q (.beginHandleRead now)) :
    ∃ expired q', TimerQueue.machine.step q (.beginHandleRead now) = .ok q' ∧ q'.Inv ∧
      q'.heap = q.heap ∧ q'.numCreated = q.numCreated ∧ q'.handling = some ⟨expired, expired, now⟩ ∧
      (∀ e, e ∈ expired ↔ e ∈ q.timers ∧ e.time ≤ now) ∧
      expired.Pairwise fun e f => e.time ≤ f.time := by
  obtain ⟨q', hq', hI, expired, hhandling⟩ := step_beginHandleRead h hE
  obtain ⟨⟨expired', q₁⟩, hexp, hrest⟩ := bind_eq_ok.1
    (show (q.readTimerfd.getExpired now >>= fun r => _) = .ok q' from hq')
  have hframe := frame_getExpired hexp
  have hrep : Rep q.readTimerfd [] := by
    have hrep := h.rep
    rw [expiring, hE.1] at hrep
    exact hrep.congr rfl rfl rfl
  obtain rfl := Except.ok.inj hrest
  exact ⟨expired', _, hq', hI, hframe.heap, hframe.numCreated, rfl, fun e => hrep.mem_expired hexp,
    getExpired_sorted hexp⟩

theorem Inv.beginHandleRead (h : Inv s) (hE : Env s (.beginHandleRead now)) :
    ∃ s', machine.step s (.beginHandleRead now) = .ok s' ∧ Inv s' := by
  obtain ⟨expired, q', hq', hI, hheap, hnum, hhandling, hmem, -⟩ := beginHandleRead_spec h.inv hE
  have hran : ∀ a, ¬ Ran q' a := by
    intro a hran
    refine hran.2 ⟨_, hhandling, ?_⟩
    have hin := hran.1
    rw [expiring, hhandling] at hin
    exact hin
  refine ⟨_, step_ok hq', hI, h.count.trans hnum.symm, fun a b t u ht hu => ?_, fun a t ht => ?_,
    fun a t ht _ => ?_, fun a t ht hold => absurd hold (hran a), fun p hp => ?_, h.punctual,
    fun g hg => ?_⟩
  · exact h.distinct a b t u (hheap ▸ ht) (hheap ▸ hu)
  · exact h.request a t (hheap ▸ ht)
  · exact h.waiting a t (hheap ▸ ht) (not_ran hE.1 a)
  · exact (h.fired p hp).trans hnum.ge
  · obtain rfl := Option.some.inj (hhandling.symm.trans hg)
    refine ⟨fun e he => ?_, ?_, [], rfl, (List.append_nil _).symm⟩
    · obtain ⟨hin, hle⟩ := (hmem e).1 he
      obtain ⟨t, ht, -, htime, -⟩ := h.inv.rep.entry e hin
      exact ⟨t, (congrFun hheap _).trans ht, htime ▸ hle⟩
    · show (q'.handling.map fun g => q'.sequences g.expired).getD [] = _
      rw [hhandling]
      rfl

theorem run_spec (h : q.Inv) (hE : TimerQueue.Env q .run) :
    ∃ expired e todo now t, q.handling = some ⟨expired, e :: todo, now⟩ ∧ q.heap e.timer = some t ∧
      TimerQueue.machine.step q .run = .ok { q with handling := some ⟨expired, todo, now⟩ } ∧
      TimerQueue.Inv { q with handling := some ⟨expired, todo, now⟩ } := by
  obtain ⟨q', hq', hI, -⟩ := step_run h hE
  obtain ⟨g, hg, htodo⟩ := (Option.any_eq_true _ _).1 (show q.handling.any _ = true from hE)
  obtain ⟨expired, _ | ⟨e, todo⟩, now⟩ := g
  · exact absurd rfl (of_decide_eq_true htodo)
  have hstep : q.step .run = .ok q' := hq'
  unfold TimerQueue.step at hstep
  rw [hg] at hstep
  obtain ⟨t, ht, hstep⟩ := bind_eq_ok.1 hstep
  obtain rfl := Except.ok.inj hstep
  exact ⟨expired, e, todo, now, t, hg, heap_of_deref ht, hq', hI⟩

theorem Inv.run (h : Inv s) (hE : Env s .run) : ∃ s', machine.step s .run = .ok s' ∧ Inv s' := by
  obtain ⟨expired, e, todo, now, t, hg, ht, hq', hI⟩ := run_spec h.inv hE
  obtain ⟨hdue, hbatch, ran, hran, hfired⟩ := h.ticking _ hg
  have hexpiring : s.queue.expiring = expired.map Entry.timer := by
    rw [expiring, hg]
  have hnodup : (expired.map Entry.timer).Nodup := by
    rw [← hexpiring]
    exact h.inv.rep.nodup
  have hlater : e.timer ∉ todo.map Entry.timer := by
    rw [show expired = ran ++ e :: todo from hran, List.map_append, List.map_cons] at hnodup
    exact (List.nodup_cons.1 (List.nodup_append.1 hnodup).2.1).1
  have hin : e.timer ∈ expired.map Entry.timer := by
    rw [show expired = ran ++ e :: todo from hran]
    exact List.mem_map_of_mem (List.mem_append_right _ List.mem_cons_self)
  -- the first of those that wait joins those that have run
  have hrun : ∀ b, Ran { s.queue with handling := some ⟨expired, todo, now⟩ } b ↔
      Ran s.queue b ∨ b = e.timer := by
    intro b
    have hawaited : Cancelling.Awaited s.queue b ↔ b = e.timer ∨ b ∈ todo.map Entry.timer := by
      constructor
      · rintro ⟨g, hg', hmem⟩
        obtain rfl := Option.some.inj (hg.symm.trans hg')
        exact List.mem_cons.1 hmem
      · exact fun hmem => ⟨_, hg, List.mem_cons.2 hmem⟩
    constructor
    · rintro ⟨hb, hnot⟩
      by_cases hbe : b = e.timer
      · exact .inr hbe
      · refine .inl ⟨by rw [hexpiring]; exact hb, fun hold => hnot ⟨_, rfl, ?_⟩⟩
        exact (hawaited.1 hold).resolve_left hbe
    · rintro (⟨hb, hnot⟩ | rfl)
      · refine ⟨by rw [hexpiring] at hb; exact hb, ?_⟩
        rintro ⟨g, hg', hmem⟩
        obtain rfl := Option.some.inj hg'
        exact hnot (hawaited.2 (.inr hmem))
      · refine ⟨hin, ?_⟩
        rintro ⟨g, hg', hmem⟩
        obtain rfl := Option.some.inj hg'
        exact hlater hmem
  have hwaits : ¬ Ran s.queue e.timer := fun hold =>
    hold.2 ⟨_, hg, List.mem_map_of_mem List.mem_cons_self⟩
  have hfiring : s.queue.firing = some (t.sequence, now) := by
    unfold firing
    rw [hg]
    dsimp only
    rw [ht]
    rfl
  have hfirings : ∀ n, firings (s.note { s.queue with handling := some ⟨expired, todo, now⟩ } .run) n =
      s.firings n ++ if n = t.sequence then [now] else [] := by
    intro n
    show ((s.fired ++ s.queue.firing.toList).filter (·.1 = n)).map Prod.snd = _
    rw [hfiring, List.filter_append, List.map_append, Option.toList_some, List.filter_singleton]
    by_cases hn : n = t.sequence
    · subst hn
      simp [firings]
    · simp [firings, hn, Ne.symm hn]
  have hother : ∀ b u, s.queue.heap b = some u → b ≠ e.timer → u.sequence ≠ t.sequence :=
    fun b u hb hbe hseq => hbe (h.distinct b e.timer u t hb ht hseq)
  refine ⟨_, step_ok hq', hI, h.count, h.distinct, h.request, fun b u hb hnot => ?_,
    fun b u hb hold => ⟨_, rfl, ?_⟩, fun p hp => ?_, fun n r hr => ?_, fun g hg' => ?_⟩
  · obtain ⟨hnot, hbe⟩ := not_or.1 fun hold => hnot ((hrun b).2 hold)
    show (s.request u.sequence).bind (fun r => r.due (firings _ u.sequence)) = _
    rw [hfirings, if_neg (hother b u hb hbe), List.append_nil]
    exact h.waiting b u hb hnot
  · rw [hfirings]
    by_cases hbe : b = e.timer
    · obtain rfl : u = t := Option.some.inj (by rw [← hb, hbe]; exact ht)
      rw [if_pos rfl, List.getLast?_concat]
    · obtain ⟨g, hg', hlast⟩ := h.ran b u hb (((hrun b).1 hold).resolve_right hbe)
      obtain rfl := Option.some.inj (hg.symm.trans hg')
      rw [if_neg (hother b u hb hbe), List.append_nil]
      exact hlast
  · have hp' : p ∈ s.fired ++ s.queue.firing.toList := hp
    rw [hfiring] at hp'
    rcases List.mem_append.1 hp' with hp' | hp'
    · exact h.fired p hp'
    · rw [List.mem_singleton.1 hp']
      exact h.sequence_le ht
  · rw [hfirings]
    by_cases hn : n = t.sequence
    · have hdue' := h.waiting e.timer t ht hwaits
      unfold History.due at hdue'
      rw [← hn, show s.request n = some r from hr, Option.bind_some] at hdue'
      obtain ⟨u, hu, hle⟩ := hdue e (by rw [show expired = ran ++ e :: todo from hran]; simp)
      obtain rfl := Option.some.inj (ht.symm.trans hu)
      rw [if_pos hn]
      exact (h.punctual n r hr).concat hdue' hle
    · rw [if_neg hn, List.append_nil]
      exact h.punctual n r hr
  · obtain rfl := Option.some.inj hg'
    refine ⟨hdue, hbatch, ran ++ [e], by rw [List.append_assoc]; exact hran, ?_⟩
    have hsequences : s.queue.sequences (ran ++ [e]) = s.queue.sequences ran ++ [t.sequence] := by
      simp [sequences, ht]
    show s.fired ++ s.queue.firing.toList = s.before ++ (s.queue.sequences (ran ++ [e])).map _
    rw [hsequences, hfiring, hfired, List.map_append, List.append_assoc]
    rfl

/-- The end of `handleRead`: what it leaves alive, and when that expires. -/
theorem endHandleRead_spec (h : q.Inv) {g : Handling} (hg : q.handling = some g) :
    ∃ q', TimerQueue.machine.step q .endHandleRead = .ok q' ∧ q'.Inv ∧ q'.handling = none ∧
      q'.numCreated = q.numCreated ∧ ∀ b u, q'.heap b = some u →
        (b ∈ q.expiring ∧ ∃ t, q.heap b = some t ∧ t.repeat_ = true ∧
          u = { t with expiration := g.now + t.interval }) ∨ (b ∉ q.expiring ∧ q.heap b = some u) := by
  obtain ⟨q', hq', hI, hnone, -⟩ := step_endHandleRead h hg
  obtain ⟨expired, todo, now⟩ := g
  have hexpiring : q.expiring = expired.map Entry.timer := by
    rw [expiring, hg]
  have hnodup : (expired.map Entry.timer).Nodup := by
    rw [← hexpiring]
    exact h.rep.nodup
  have hstep : q.step .endHandleRead = .ok q' := hq'
  unfold TimerQueue.step at hstep
  rw [hg] at hstep
  obtain ⟨q₁, hloop, hframe⟩ := frame_reset hstep
  obtain ⟨-, -, hnum⟩ := resetExpired_same hloop
  refine ⟨q', hq', hI, hnone, hframe.numCreated.trans hnum, fun b u hu => ?_⟩
  rw [hframe.heap, heap_resetExpired hnodup hloop b] at hu
  rw [hexpiring]
  split_ifs at hu with hb
  · refine .inl ⟨hb, ?_⟩
    unfold rearmed at hu
    cases ht : q.heap b with
    | none =>
      rw [show ({ q with callingExpiredTimers := false, handling := none } : TimerQueue).heap b = _
        from ht] at hu
      cases hu
    | some t =>
      rw [show ({ q with callingExpiredTimers := false, handling := none } : TimerQueue).heap b = _
        from ht] at hu
      dsimp only at hu
      split_ifs at hu with hagain
      obtain rfl := Option.some.inj hu
      exact ⟨t, rfl, hagain.1, if_pos hagain.1⟩
  · exact .inr ⟨hb, hu⟩

theorem Inv.endHandleRead (h : Inv s) (hE : Env s .endHandleRead) :
    ∃ s', machine.step s .endHandleRead = .ok s' ∧ Inv s' := by
  obtain ⟨g, hg, htodo⟩ :=
    (Option.any_eq_true _ _).1 (show s.queue.handling.any _ = true from hE)
  obtain ⟨q', hq', hI, hnone, hnum, hheap⟩ := endHandleRead_spec h.inv hg
  have hall : ∀ b ∈ s.queue.expiring, Ran s.queue b := by
    refine fun b hb => ⟨hb, ?_⟩
    rintro ⟨g', hg', hmem⟩
    obtain rfl := Option.some.inj (hg.symm.trans hg')
    rw [of_decide_eq_true htodo] at hmem
    exact absurd hmem List.not_mem_nil
  have hold : ∀ b u, q'.heap b = some u → ∃ t, s.queue.heap b = some t ∧ u.sequence = t.sequence ∧
      u.interval = t.interval ∧ u.repeat_ = t.repeat_ := by
    intro b u hu
    rcases hheap b u hu with ⟨-, t, ht, -, rfl⟩ | ⟨-, ht⟩
    · exact ⟨t, ht, rfl, rfl, rfl⟩
    · exact ⟨u, ht, rfl, rfl, rfl⟩
  refine ⟨_, step_ok hq', hI, h.count.trans hnum.symm, fun b c u v hu hv hseq => ?_, fun b u hu => ?_,
    fun b u hu _ => ?_, fun b u _ hran => absurd hran (not_ran hnone b), fun p hp => ?_, h.punctual,
    fun g' hg' => absurd (hnone.symm.trans hg') (by simp)⟩
  · obtain ⟨t, ht, htseq, -⟩ := hold b u hu
    obtain ⟨t', ht', htseq', -⟩ := hold c v hv
    exact h.distinct b c t t' ht ht' (by rw [← htseq, hseq, htseq'])
  · obtain ⟨t, ht, hseq, hinterval, hrepeat⟩ := hold b u hu
    obtain ⟨r, hr, hri, hrr⟩ := h.request b t ht
    exact ⟨r, by rw [hseq]; exact hr, hinterval.trans hri, hrepeat.trans hrr⟩
  · rcases hheap b u hu with ⟨hb, t, ht, hrepeat, rfl⟩ | ⟨hb, ht⟩
    · obtain ⟨r, hr, hri, hrr⟩ := h.request b t ht
      obtain ⟨g', hg', hlast⟩ := h.ran b t ht (hall b hb)
      obtain rfl := Option.some.inj (hg.symm.trans hg')
      show (s.request t.sequence).bind (fun r => r.due (s.firings t.sequence)) = _
      rw [hr, Option.bind_some, Request.due, hlast]
      dsimp only
      rw [if_pos (hrr.symm.trans hrepeat), hri]
    · exact h.waiting b u ht fun hran => hb hran.1
  · exact (h.fired p hp).trans hnum.ge

theorem Inv.step (h : Inv s) {act : Action} (hE : Env s act) :
    ∃ s', machine.step s act = .ok s' ∧ Inv s' := by
  cases act with
  | newTimer timer expiration interval repeat_ => exact h.newTimer hE
  | addTimerInLoop timer =>
    obtain ⟨t, q', -, hq', hI, -⟩ := step_addTimerInLoop h.inv hE
    exact ⟨_, step_ok hq', h.of_keeps hI (keeps_addTimerInLoop hq')⟩
  | cancelInLoop id =>
    obtain ⟨q', hq', hI, -⟩ := step_cancelInLoop h.inv id
    exact ⟨_, step_ok hq', h.of_keeps hI (keeps_cancelInLoop hq')⟩
  | expire | poll =>
    exact ⟨_, rfl, h.of_keeps (h.inv.of_rep (h.inv.rep.congr rfl rfl rfl) rfl)
      ⟨rfl, rfl, fun b t ht => ⟨t, ht, rfl, rfl, rfl, rfl⟩⟩⟩
  | beginHandleRead now => exact h.beginHandleRead hE
  | run => exact h.run hE
  | endHandleRead => exact h.endHandleRead hE

/-! ## What a tick fires -/

/-- The numbers of a batch of timers that are alive. -/
theorem sequences_eq_map {es : List Entry} (f : Entry → ℕ)
    (h : ∀ e ∈ es, ∃ t, q.heap e.timer = some t ∧ t.sequence = f e) : q.sequences es = es.map f := by
  rw [← List.filterMap_eq_map]
  refine List.filterMap_congr fun e he => ?_
  obtain ⟨t, ht, hseq⟩ := h e he
  rw [ht, Option.map_some, hseq]
  rfl

theorem Inv.complete (h : Inv s) {act : Action} (hE : Env s act) : Complete s act := by
  cases act with
  | newTimer | addTimerInLoop | cancelInLoop | expire | poll | run => trivial
  | endHandleRead =>
    intro g hg
    obtain ⟨hdue, hbatch, ran, hran, hfired⟩ := h.ticking g hg
    obtain ⟨g', hg', htodo⟩ :=
      (Option.any_eq_true _ _).1 (show s.queue.handling.any _ = true from hE)
    obtain rfl := Option.some.inj (hg'.symm.trans hg)
    rw [of_decide_eq_true htodo, List.append_nil] at hran
    rw [hbatch, hran]
    exact hfired
  | beginHandleRead now =>
    intro s' hs'
    obtain ⟨expired, q', hq', hI, hheap, -, hhandling, hmem, hsorted⟩ := beginHandleRead_spec h.inv hE
    have hstep : s.step (.beginHandleRead now) = .ok (s.note q' (.beginHandleRead now)) :=
      step_ok (show s.queue.step _ = _ from hq')
    obtain rfl := Except.ok.inj (hstep.symm.trans hs')
    -- the number of the timer of an entry
    let number : Entry → ℕ := fun e => ((s.queue.heap e.timer).map Timer.sequence).getD 0
    have hentry : ∀ e ∈ expired, ∃ t, s.queue.heap e.timer = some t ∧ number e = t.sequence ∧
        ⟨e.timer, t.sequence⟩ ∈ s.queue.activeTimers ∧ s.due (number e) = some e.time := by
      intro e he
      obtain ⟨t, ht, -, htime, hactive⟩ := h.inv.rep.entry e ((hmem e).1 he).1
      have hnumber : number e = t.sequence := by
        show ((s.queue.heap e.timer).map Timer.sequence).getD 0 = _
        rw [ht]
        rfl
      refine ⟨t, ht, hnumber, hactive, ?_⟩
      rw [hnumber, h.waiting e.timer t ht (not_ran hE.1 _), htime]
    have hbatch : (s.note q' (.beginHandleRead now)).batch = expired.map number := by
      show (q'.handling.map fun g => q'.sequences g.expired).getD [] = _
      rw [hhandling]
      refine sequences_eq_map number fun e he => ?_
      obtain ⟨t, ht, hnumber, -⟩ := hentry e he
      exact ⟨t, (congrFun hheap _).trans ht, hnumber.symm⟩
    have hnodup : expired.Nodup := by
      have hall := hI.rep.nodup
      rw [expiring, hhandling] at hall
      exact hall.of_map _
    rw [hbatch]
    refine ⟨hnodup.map_on fun e he e' he' heq => ?_, fun n => ⟨fun hn => ?_, ?_⟩, ?_⟩
    · obtain ⟨t, ht, hnumber, -⟩ := hentry e he
      obtain ⟨t', ht', hnumber', -⟩ := hentry e' he'
      refine h.inv.rep.entry_eq ((hmem e).1 he).1 ((hmem e').1 he').1 ?_
      exact h.distinct _ _ t t' ht ht' (by rw [← hnumber, heq, hnumber'])
    · obtain ⟨e, he, rfl⟩ := List.mem_map.1 hn
      obtain ⟨t, -, hnumber, hactive, hdue⟩ := hentry e he
      exact ⟨_, hactive, hnumber.symm, e.time, hdue, ((hmem e).1 he).2⟩
    · rintro ⟨p, hp, rfl, due, hdue, hle⟩
      obtain ⟨t, ht, hseq, hin⟩ := h.inv.rep.active p hp
      have hexp := h.waiting p.timer t ht (not_ran hE.1 _)
      rw [hseq] at hexp
      obtain rfl := Option.some.inj (hexp.symm.trans hdue)
      refine List.mem_map.2 ⟨_, (hmem _).2 ⟨hin, hle⟩, ?_⟩
      show ((s.queue.heap p.timer).map Timer.sequence).getD 0 = _
      rw [ht, ← hseq]
      rfl
    · refine List.pairwise_map.2 (hsorted.imp_of_mem fun {e e'} he he' hle d hd d' hd' => ?_)
      obtain ⟨-, -, -, -, hdue⟩ := hentry e he
      obtain ⟨-, -, -, -, hdue'⟩ := hentry e' he'
      obtain rfl := Option.some.inj (hdue.symm.trans hd)
      obtain rfl := Option.some.inj (hdue'.symm.trans hd')
      exact hle

/-- In every run all timers fire as they were asked, and every `handleRead` fires what is due. -/
theorem timers_fire_on_schedule (as : List Action) (hE : machine.Along Env init as) :
    (∃ s, machine.run init as = .ok s) ∧ machine.Always Punctual init as ∧
      machine.Along Complete init as := by
  have hstep : ∀ s a, Inv s → Env s a → ∃ s', machine.step s a = .ok s' ∧ Inv s' :=
    fun s a hs ha => hs.step ha
  obtain ⟨hrun, hinv⟩ := Machine.run_ok_always_of_along hstep inv_init hE
  refine ⟨hrun, hinv.mono fun s hs => hs.punctual, ?_⟩
  exact Machine.along_of_along (Machine.step_inv_of_exists hstep) (fun s a hs ha => hs.complete ha)
    inv_init hE

/-- A timer that repeats and one that does not; a callback adds a third one, which is overdue. -/
def sampleActions : List Action :=
  [.newTimer 5 100 10 true, .addTimerInLoop 5, .newTimer 6 105 0 false, .addTimerInLoop 6, .expire,
    .poll, .beginHandleRead 107, .run, .newTimer 7 90 0 false, .addTimerInLoop 7, .run, .endHandleRead,
    .expire, .poll, .beginHandleRead 125, .run, .run, .endHandleRead]

theorem timers_fire_on_schedule_sample :
    machine.Always Punctual init sampleActions ∧ machine.Along Complete init sampleActions ∧
      (machine.run init sampleActions).toOption.map fired =
        some [(1, 107), (2, 107), (3, 125), (1, 125)] := by
  obtain ⟨-, hpunctual, hcomplete⟩ := timers_fire_on_schedule sampleActions (by decide +kernel)
  exact ⟨hpunctual, hcomplete, by decide +kernel⟩

end History

end TimerQueue

end Reactor
