import Reactor.TcpConnection.OutputStream

/-!
# The high-water mark

A connection whose output buffer reaches `highWaterMark_` queues `highWaterMarkCallback_` with the
number of bytes that wait.  `sendInLoop` decides this from the bytes left over by a direct write
that may be partial or fail, before it appends them.  Along every run of `sendInLoop` and
`handleWrite` the notifications are the upward crossings of the mark, one for each.  (`handleWrite`
retires no bytes, so there is at most one crossing in a run; nothing here rests on that.)
-/

namespace Reactor

namespace TcpConnection

namespace HighWater

open OutputStream (Action)

def step (c : TcpConnection) : Action → Except Fault TcpConnection
  | .sendInLoop data w => c.sendInLoop data w
  | .handleWrite w d => c.handleWrite w d

def machine : Machine TcpConnection Action Fault := ⟨step⟩

/-- `write(2)` reports no more than it was given.  `handleWrite` relies on it only for a `shutdown(2)`
that fails: it does not get as far. -/
def Env (c : TcpConnection) : Action → Prop
  | .sendInLoop data w => w.Fits data.length
  | .handleWrite w d => w.Fits c.outputBuffer.readableBytes ∨ d = .success

instance (c : TcpConnection) : ∀ a, Decidable (Env c a)
  | .sendInLoop data w => inferInstanceAs (Decidable (w.Fits data.length))
  | .handleWrite _ _ => inferInstanceAs (Decidable (_ ∨ _))

/-- A connection that is up, with `highWaterMarkCallback_` set and the mark at `H`. -/
structure Watched (H : ℕ) (c : TcpConnection) : Prop where
  wf : c.outputBuffer.Wf
  up : c.state ≠ .kDisconnected
  callback : c.highWaterMarkCallback = true
  mark : c.highWaterMark = H

/-- The bytes that wait to be written. -/
def backlog (c : TcpConnection) : ℕ := c.outputBuffer.readableBytes

/-- The argument of a queued high-water callback. -/
def highWaterLen : Functor → Option ℕ
  | .highWaterMark len => some len
  | _ => none

/-- The high-water callbacks queued between two states. -/
def notified (c c' : TcpConnection) : List ℕ :=
  (c'.pendingFunctors.drop c.pendingFunctors.length).filterMap highWaterLen

/-- The backlog was below `H` and no longer is. -/
def Crosses (H : ℕ) (c c' : TcpConnection) : Prop := backlog c < H ∧ H ≤ backlog c'

instance (H : ℕ) (c c' : TcpConnection) : Decidable (Crosses H c c') :=
  inferInstanceAs (Decidable (_ ∧ _))

/-! ## What one call queues -/

/-- Functors are only added to the queue, and the high-water ones among them have these arguments. -/
def Queues (c c' : TcpConnection) (lens : List ℕ) : Prop :=
  ∃ fs, c'.pendingFunctors = c.pendingFunctors ++ fs ∧ fs.filterMap highWaterLen = lens

theorem Queues.of_eq {c c' : TcpConnection} (h : c'.pendingFunctors = c.pendingFunctors) :
    Queues c c' [] :=
  ⟨[], by rw [h, List.append_nil], rfl⟩

theorem Queues.trans {c₁ c₂ c₃ : TcpConnection} {l l' : List ℕ} (h : Queues c₁ c₂ l)
    (h' : Queues c₂ c₃ l') : Queues c₁ c₃ (l ++ l') := by
  obtain ⟨fs, hfs, hl⟩ := h
  obtain ⟨fs', hfs', hl'⟩ := h'
  exact ⟨fs ++ fs', by rw [hfs', hfs, List.append_assoc], by rw [List.filterMap_append, hl, hl']⟩

theorem Queues.notified_eq {c c' : TcpConnection} {l : List ℕ} (h : Queues c c' l) :
    notified c c' = l := by
  obtain ⟨fs, hfs, hl⟩ := h
  rw [notified, hfs, List.drop_left, hl]

/-- The connection stays watched, and its notification is that of a crossing. -/
structure Reports (H : ℕ) (c c' : TcpConnection) : Prop where
  watched : Watched H c'
  queues : Queues c c' (if Crosses H c c' then [backlog c'] else [])

/-- Without a change of the backlog there is no crossing. -/
theorem Reports.of_quiet {H : ℕ} {c c' : TcpConnection} (hw : Watched H c')
    (hb : backlog c' = backlog c) (hq : Queues c c' []) : Reports H c c' := by
  refine ⟨hw, ?_⟩
  rw [if_neg]
  · exact hq
  · unfold Crosses
    omega

theorem bufferRest_reports {H : ℕ} {c : TcpConnection} (h : Watched H c) (rest : Bytes) :
    ∃ c', c.bufferRest rest = .ok c' ∧ Reports H c c' := by
  obtain ⟨b, hwf, hread, heq⟩ := bufferRest_eq h.wf rest
  have hlen : backlog (c.buffered rest b) = backlog c + rest.length := by
    show b.readableBytes = c.outputBuffer.readableBytes + rest.length
    rw [← hwf.length_readable, hread, List.length_append, h.wf.length_readable]
  refine ⟨_, heq, ⟨hwf, h.up, h.callback, h.mark⟩, c.highWaterFunctors rest, rfl, ?_⟩
  have hiff : Crosses H c (c.buffered rest b) ↔ backlog c < H ∧ H ≤ backlog c + rest.length := by
    rw [Crosses, hlen]
  rw [highWaterFunctors, h.mark, h.callback, hlen]
  by_cases hcross : Crosses H c (c.buffered rest b)
  · obtain ⟨hbelow, hreach⟩ := hiff.1 hcross
    rw [if_pos hcross, if_pos ⟨hreach, hbelow, rfl⟩]
    rfl
  · rw [if_neg hcross, if_neg (fun hc => hcross (hiff.2 ⟨hc.2.1, hc.1⟩))]
    rfl

/-- What happens in front of a call that reports, without a change of the backlog. -/
theorem Reports.trans_quiet {H : ℕ} {c₁ c₂ c₃ : TcpConnection} (hq : Queues c₁ c₂ [])
    (hb : backlog c₂ = backlog c₁) (h : Reports H c₂ c₃) : Reports H c₁ c₃ := by
  refine ⟨h.watched, ?_⟩
  have hall : Queues c₁ c₃ ([] ++ if Crosses H c₂ c₃ then [backlog c₃] else []) := hq.trans h.queues
  rw [List.nil_append] at hall
  simp only [Crosses, hb] at hall
  exact hall

theorem sendInLoop_reports {H : ℕ} {c : TcpConnection} (h : Watched H c) {data : Bytes}
    {w : WriteResult} (hw : w.Fits data.length) :
    ∃ c', c.sendInLoop data w = .ok c' ∧ Reports H c c' := by
  obtain ⟨n, fs, -, -, hfs, hcases⟩ := sendInLoop_cases h.up hw
  have hwatched : Watched H (c.handed data n fs) := ⟨h.wf, h.up, h.callback, h.mark⟩
  have hquiet : Queues c (c.handed data n fs) [] :=
    ⟨fs, rfl, by rcases hfs with rfl | rfl <;> rfl⟩
  rcases hcases with ⟨hok, -⟩ | ⟨-, heq⟩
  · exact ⟨_, hok, Reports.of_quiet hwatched rfl hquiet⟩
  · obtain ⟨c', hc', hrep⟩ := bufferRest_reports hwatched (data.drop n)
    exact ⟨c', heq.trans hc', Reports.trans_quiet hquiet rfl hrep⟩

theorem finished_watched {H : ℕ} {c : TcpConnection} (h : Watched H c) :
    Watched H c.finished ∧ Queues c c.finished [] := by
  unfold finished halfClosed
  dsimp only
  split_ifs
  all_goals
    first
    | exact ⟨⟨h.wf, h.up, h.callback, h.mark⟩, [.writeComplete], rfl, rfl⟩
    | exact ⟨⟨h.wf, h.up, h.callback, h.mark⟩, Queues.of_eq rfl⟩

theorem handleWrite_reports {H : ℕ} {c : TcpConnection} (h : Watched H c) {w : WriteResult}
    {d : ShutdownResult} (hE : w.Fits c.outputBuffer.readableBytes ∨ d = .success) :
    ∃ c', c.handleWrite w d = .ok c' ∧ Reports H c c' := by
  rcases handleWrite_cases h.wf w d with ⟨hok, -⟩ | ⟨n, b, rfl, hn, -, hwf, hread, hok⟩
  · exact ⟨c, hok, Reports.of_quiet h rfl (Queues.of_eq rfl)⟩
  · have hlen : b.readableBytes = backlog c := by
      rw [← hwf.length_readable, hread, h.wf.length_readable, backlog]
    have hset : Watched H (c.rewritten n b) := ⟨hwf, h.up, h.callback, h.mark⟩
    by_cases hempty : b.readableBytes = 0
    · rw [if_pos hempty] at hok
      rcases writeFinished_cases (c.rewritten n b) d with hdone | ⟨-, hd⟩
      · obtain ⟨hw, hq⟩ := finished_watched hset
        refine ⟨_, hok.trans hdone, Reports.of_quiet hw ?_ hq⟩
        rw [backlog, (finished_spec _).2.1]
        exact hlen
      · have hfits : n ≤ backlog c := hE.resolve_right hd
        omega
    · rw [if_neg hempty] at hok
      exact ⟨_, hok, Reports.of_quiet hset hlen (Queues.of_eq rfl)⟩

theorem step_reports {H : ℕ} {c : TcpConnection} {a : Action} (h : Watched H c) (ha : Env c a) :
    ∃ c', machine.step c a = .ok c' ∧ Reports H c c' := by
  cases a with
  | sendInLoop data w => exact sendInLoop_reports h ha
  | handleWrite w d => exact handleWrite_reports h ha

/-! ## Whole runs -/

theorem step_watched {H : ℕ} (c : TcpConnection) (a : Action) (h : Watched H c) (ha : Env c a) :
    ∃ c', machine.step c a = .ok c' ∧ Watched H c' := by
  obtain ⟨c', hc', hrep⟩ := step_reports h ha
  exact ⟨c', hc', hrep.watched⟩

/-- A step of a run reports, whatever the run did before. -/
theorem reports_of_run {H : ℕ} {c s s' : TcpConnection} (hc : Watched H c) {p q : List Action}
    {a : Action} (hE : machine.Along Env c (p ++ a :: q)) (hp : machine.run c p = .ok s)
    (ha : machine.step s a = .ok s') : Reports H s s' := by
  obtain ⟨hEp, hEa⟩ := Machine.along_append.1 hE
  have hs : Watched H s :=
    Machine.inv_of_along (Machine.step_inv_of_exists step_watched) hc hEp hp
  obtain ⟨t, ht, hrep⟩ := step_reports hs (hEa s hp).1
  obtain rfl : t = s' := Except.ok.inj (ht.symm.trans ha)
  exact hrep

theorem Reports.crosses {H : ℕ} {c c' : TcpConnection} (h : Reports H c c')
    (hn : notified c c' ≠ []) : Crosses H c c' := by
  by_contra hno
  rw [h.queues.notified_eq, if_neg hno] at hn
  exact hn rfl

/-- No assertion fails, and a step queues the high-water callback exactly when the backlog reaches
`H` in it, once and with the new backlog.  So the backlog is below `H` again before the next
notification, and reaches `H` with a notification only. -/
theorem high_water_crossings (H : ℕ) (c : TcpConnection) (hc : Watched H c) (as : List Action)
    (hE : machine.Along Env c as) :
    (∃ c', machine.run c as = .ok c') ∧
    (∀ p a q s s', as = p ++ a :: q → machine.run c p = .ok s → machine.step s a = .ok s' →
      s.pendingFunctors <+: s'.pendingFunctors ∧
        notified s s' = if backlog s < H ∧ H ≤ backlog s' then [backlog s'] else []) ∧
    (∀ p a m b q s₁ s₁' s₂ s₂', as = p ++ a :: (m ++ b :: q) → machine.run c p = .ok s₁ →
      machine.step s₁ a = .ok s₁' → machine.run s₁' m = .ok s₂ → machine.step s₂ b = .ok s₂' →
      notified s₁ s₁' ≠ [] → notified s₂ s₂' ≠ [] → H ≤ backlog s₁' ∧ backlog s₂ < H) ∧
    (∀ p m q s t, as = p ++ (m ++ q) → machine.run c p = .ok s → machine.run s m = .ok t →
      backlog s < H → H ≤ backlog t →
      ∃ m₁ a m₂ u u', m = m₁ ++ a :: m₂ ∧ machine.run s m₁ = .ok u ∧ machine.step u a = .ok u' ∧
        notified u u' = [backlog u']) := by
  refine ⟨?_, ?_, ?_, ?_⟩
  · obtain ⟨c', hc', -⟩ := Machine.run_ok_of_along step_watched hc hE
    exact ⟨c', hc'⟩
  · rintro p a q s s' rfl hp ha
    have hrep := reports_of_run hc hE hp ha
    obtain ⟨fs, hfs, -⟩ := hrep.queues
    exact ⟨⟨fs, hfs.symm⟩, hrep.queues.notified_eq⟩
  · rintro p a m b q s₁ s₁' s₂ s₂' rfl hp ha hm hb hn₁ hn₂
    have hrun : machine.run c (p ++ a :: m) = .ok s₂ := by
      rw [Machine.run_append hp, Machine.run_cons_ok ha, hm]
    have hE₂ : machine.Along Env c ((p ++ a :: m) ++ b :: q) := by
      rw [List.append_assoc, List.cons_append]
      exact hE
    exact ⟨((reports_of_run hc hE hp ha).crosses hn₁).2,
      ((reports_of_run hc hE₂ hrun hb).crosses hn₂).1⟩
  · rintro p m q s t rfl hp hm hs ht
    obtain ⟨m₁, a, m₂, u, u', rfl, hm₁, ha, hu, hu'⟩ :=
      Machine.exists_leaving (P := fun s => backlog s < H) hm hs (by omega)
    have hrun : machine.run c (p ++ m₁) = .ok u := by rw [Machine.run_append hp, hm₁]
    have hE' : machine.Along Env c ((p ++ m₁) ++ a :: (m₂ ++ q)) := by
      simpa only [List.append_assoc, List.cons_append] using hE
    have hrep := reports_of_run hc hE' hrun ha
    have hcross : Crosses H u u' := ⟨hu, by omega⟩
    refine ⟨m₁, a, m₂, u, u', rfl, hm₁, ha, ?_⟩
    rw [hrep.queues.notified_eq, if_pos hcross]

theorem watched_connected : Watched 64 OutputStream.connected :=
  ⟨Buffer.wf_empty, by decide, rfl, rfl⟩

/-- 40 bytes wait, then 30 more: the second message crosses the mark. -/
def twoMessages : List Action :=
  [.sendInLoop (List.replicate 50 1) (.wrote 10), .sendInLoop (List.replicate 30 2) (.wrote 0),
    .handleWrite (.wrote 5) .success]

theorem high_water_crossings_twoMessages :
    ∃ m₁ a m₂ u u', twoMessages = m₁ ++ a :: m₂ ∧
      machine.run OutputStream.connected m₁ = .ok u ∧ machine.step u a = .ok u' ∧
      notified u u' = [backlog u'] := by
  obtain ⟨⟨t, ht⟩, -, -, hreach⟩ := high_water_crossings 64 OutputStream.connected
    watched_connected twoMessages (by decide +kernel)
  have hback : ∀ t ∈ (machine.run OutputStream.connected twoMessages).toOption, 64 ≤ backlog t := by
    decide +kernel
  exact hreach [] twoMessages [] OutputStream.connected t (by simp) rfl ht (by decide)
    (hback t (by rw [ht]; rfl))

end HighWater

end TcpConnection

end Reactor
