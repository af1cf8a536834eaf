import Reactor.Buffer.Deque

/-!
# The size of a buffer

A buffer grows only when its content does not fit behind `kCheapPrepend`, but it grows relative to
`writerIndex`, the space of consumed bytes included.  That space is smaller than what is asked for,
so the vector stays below twice the largest content (`size_le_of_readable_le`).
-/

namespace Reactor

namespace Buffer

/-- The machine of the calls on one buffer. -/
def calls : Machine Buffer Op Fault :=
  ⟨fun b op => do
    let (_, b) ← op.exec b
    return b⟩

/-- The calls that do not ask for space beyond the content. -/
def Op.Moves : Op → Prop
  | .ensureWritableBytes _ | .shrink _ => False
  | _ => True

instance : ∀ op : Op, Decidable op.Moves
  | .ensureWritableBytes _ | .shrink _ => isFalse id
  | .append _ | .prepend _ | .hasWritten _ | .unwrite _ | .retrieve _ | .retrieveUntil _
  | .retrieveAll | .retrieveAsString _ | .readFd _ => isTrue trivial

/-! ## Growth in one call -/

/-- When the vector grows, there are less than `len + kCheapPrepend` free bytes in front of the
content. -/
theorem length_makeSpace {b b' : Buffer} (h : b.Wf) {len : ℕ} (hok : b.makeSpace len = .ok b') :
    b'.buffer.length = b.buffer.length ∨
      b'.buffer.length < 2 * len + b.readableBytes + kCheapPrepend := by
  obtain ⟨hrw, hws, hcs⟩ := h
  unfold makeSpace at hok
  split_ifs at hok with hspace
  · obtain rfl := Except.ok.inj hok
    right
    unfold writableBytes prependableBytes at hspace
    simp only [Vec.length_resize, readableBytes]
    omega
  · obtain ⟨hfree, hok⟩ := check_bind_eq_ok.1 hok
    obtain ⟨-, hok⟩ := check_bind_eq_ok.1 hok
    obtain rfl := Except.ok.inj hok
    left
    have hend : b.readerIndex + (b.writerIndex - b.readerIndex) = b.writerIndex := by omega
    have hlen : (Vec.slice b.buffer b.readerIndex b.writerIndex).length =
        b.writerIndex - b.readerIndex := Vec.length_slice hws
    dsimp only
    rw [Vec.copyWithin_eq_write hfree.le (by omega), hend, Vec.length_write (by omega)]

theorem length_ensureWritableBytes {b b' : Buffer} (h : b.Wf) {len : ℕ}
    (hok : b.ensureWritableBytes len = .ok b') :
    b'.buffer.length = b.buffer.length ∨
      b'.buffer.length < 2 * len + b.readableBytes + kCheapPrepend := by
  unfold ensureWritableBytes at hok
  dsimp only at hok
  split_ifs at hok
  · obtain ⟨b₁, hspace, hok⟩ := bind_eq_ok.1 hok
    obtain ⟨-, hok⟩ := check_bind_eq_ok.1 hok
    obtain rfl := Except.ok.inj hok
    exact length_makeSpace h hspace
  · obtain ⟨-, hok⟩ := check_bind_eq_ok.1 hok
    obtain rfl := Except.ok.inj hok
    exact .inl rfl

/-- An appended buffer is as large as before, or smaller than twice its content. -/
theorem length_append {b b' : Buffer} (h : b.Wf) {data : Bytes} (hok : b.append data = .ok b') :
    b'.buffer.length ≤ max b.buffer.length (2 * b'.readableBytes + kCheapPrepend) := by
  obtain ⟨b₁, hensure, hwf, hread, hroom⟩ := h.ensureWritableBytes data.length
  have hcommit : b.append data = .ok (b₁.commit data) := by
    unfold Buffer.append
    rw [hensure, ok_bind]
    exact hwf.hasWritten_store hroom
  obtain rfl := Except.ok.inj (hcommit.symm.trans hok)
  have hsize : (b₁.commit data).buffer.length = b₁.buffer.length := hwf.length_store hroom
  have hcontent : (b₁.commit data).readableBytes = b.readableBytes + data.length := by
    rw [← (hwf.commit hroom).1.length_readable, (hwf.commit hroom).2, List.length_append, hread,
      h.length_readable]
  rcases length_ensureWritableBytes h hensure with hkept | hgrown
  · rw [hsize, hkept]
    exact le_max_left _ _
  · rw [hsize, hcontent]
    refine le_max_of_le_right ?_
    omega

theorem length_readFd {b b' : Buffer} (h : b.Wf) {data : Bytes} {n : Except ℕ ℕ}
    (hok : b.readFd (.read data) = .ok (n, b')) :
    b'.buffer.length ≤ max b.buffer.length (2 * b'.readableBytes + kCheapPrepend) := by
  have hlen : (data.take b.writableBytes).length ≤ b.writableBytes := List.length_take_le _ _
  have hsize := h.length_store hlen
  simp only [readFd] at hok
  split_ifs at hok with hfit
  · obtain ⟨-, rfl⟩ := Prod.mk.inj (Except.ok.inj hok)
    exact le_max_of_le_left hsize.le
  · -- the vector is full before the rest is appended
    obtain ⟨b₁, happend, hok⟩ := bind_eq_ok.1 hok
    obtain ⟨-, rfl⟩ := Prod.mk.inj (Except.ok.inj hok)
    have hwf : Wf { b.store (data.take b.writableBytes) with
        writerIndex := (b.store (data.take b.writableBytes)).buffer.length } := by
      have hrw := h.reader_le_writer
      have hws := h.writer_le_size
      refine ⟨?_, le_rfl, ?_⟩
      · show b.readerIndex ≤ (b.store (data.take b.writableBytes)).buffer.length
        omega
      · show kCheapPrepend ≤ (b.store (data.take b.writableBytes)).buffer.length
        rw [hsize]
        exact h.cheapPrepend_le_size
    have hle := length_append hwf happend
    dsimp only at hle
    rwa [hsize] at hle

theorem buffer_retrieve {b b' : Buffer} {len : ℕ} (hok : b.retrieve len = .ok b') :
    b'.buffer = b.buffer := by
  unfold retrieve at hok
  obtain ⟨-, hok⟩ := check_bind_eq_ok.1 hok
  split_ifs at hok
  all_goals
    obtain rfl := Except.ok.inj hok
    rfl

theorem length_exec {b b' : Buffer} (h : b.Wf) {op : Op} (hpre : op.Pre b) (hmoves : op.Moves)
    {result : Option Bytes} (hok : op.exec b = .ok (result, b')) :
    b'.buffer.length ≤ max b.buffer.length (2 * b'.readableBytes + kCheapPrepend) := by
  cases op with
  | append data =>
    obtain ⟨b₁, hb₁, hok⟩ := bind_eq_ok.1 hok
    obtain ⟨-, rfl⟩ := Prod.mk.inj (Except.ok.inj hok)
    exact length_append h hb₁
  | prepend data =>
    obtain ⟨b₁, hb₁, hok⟩ := bind_eq_ok.1 hok
    obtain ⟨-, rfl⟩ := Prod.mk.inj (Except.ok.inj hok)
    obtain ⟨-, hb₁⟩ := check_bind_eq_ok.1 hb₁
    obtain rfl := Except.ok.inj hb₁
    have hpre : data.length ≤ b.readerIndex := hpre
    have hrw := h.reader_le_writer
    have hws := h.writer_le_size
    refine le_max_of_le_left ?_
    dsimp only
    rw [Vec.length_write (by omega)]
  | hasWritten data =>
    obtain ⟨b₁, hb₁, hok⟩ := bind_eq_ok.1 hok
    obtain ⟨-, rfl⟩ := Prod.mk.inj (Except.ok.inj hok)
    obtain rfl := Except.ok.inj ((h.hasWritten_store hpre).symm.trans hb₁)
    exact le_max_of_le_left (h.length_store hpre).le
  | unwrite len =>
    obtain ⟨b₁, hb₁, hok⟩ := bind_eq_ok.1 hok
    obtain ⟨-, rfl⟩ := Prod.mk.inj (Except.ok.inj hok)
    obtain ⟨-, hb₁⟩ := check_bind_eq_ok.1 hb₁
    obtain rfl := Except.ok.inj hb₁
    exact le_max_left _ _
  | retrieve len =>
    obtain ⟨b₁, hb₁, hok⟩ := bind_eq_ok.1 hok
    obtain ⟨-, rfl⟩ := Prod.mk.inj (Except.ok.inj hok)
    rw [buffer_retrieve hb₁]
    exact le_max_left _ _
  | retrieveUntil len =>
    obtain ⟨b₁, hb₁, hok⟩ := bind_eq_ok.1 hok
    obtain ⟨-, rfl⟩ := Prod.mk.inj (Except.ok.inj hok)
    obtain ⟨-, hb₁⟩ := check_bind_eq_ok.1 hb₁
    obtain ⟨-, hb₁⟩ := check_bind_eq_ok.1 hb₁
    rw [buffer_retrieve hb₁]
    exact le_max_left _ _
  | retrieveAll =>
    obtain ⟨-, rfl⟩ := Prod.mk.inj (Except.ok.inj hok)
    exact le_max_left _ _
  | retrieveAsString len =>
    obtain ⟨⟨string, b₁⟩, hb₁, hok⟩ := bind_eq_ok.1 hok
    obtain ⟨-, rfl⟩ := Prod.mk.inj (Except.ok.inj hok)
    obtain ⟨-, hb₁⟩ := check_bind_eq_ok.1 hb₁
    obtain ⟨b₂, hb₂, hb₁⟩ := bind_eq_ok.1 hb₁
    obtain ⟨-, rfl⟩ := Prod.mk.inj (Except.ok.inj hb₁)
    rw [buffer_retrieve hb₂]
    exact le_max_left _ _
  | ensureWritableBytes len => exact hmoves.elim
  | shrink reserve => exact hmoves.elim
  | readFd result =>
    obtain ⟨⟨n, b₁⟩, hb₁, hok⟩ := bind_eq_ok.1 hok
    obtain ⟨-, rfl⟩ := Prod.mk.inj (Except.ok.inj hok)
    cases result with
    | fail errno =>
      obtain ⟨-, rfl⟩ := Prod.mk.inj (Except.ok.inj hb₁)
      exact le_max_left _ _
    | read data => exact length_readFd h hb₁

/-! ## Runs -/

/-- The bound that a content of at most `M` bytes gives. -/
def sizeBound (M : ℕ) : ℕ := max (kCheapPrepend + kInitialSize) (2 * M + kCheapPrepend)

theorem calls_step {b b' : Buffer} (h : b.Wf) {op : Op} (hpre : op.Pre b)
    (hok : calls.step b op = .ok b') : op.exec b = .ok (op.result b.readable, b') ∧ b'.Wf := by
  obtain ⟨b₁, hb₁, hwf, -⟩ := h.exec hpre
  have hstep : calls.step b op = .ok b₁ := by
    show (op.exec b >>= fun x => .ok x.2) = .ok b₁
    rw [hb₁]
    rfl
  obtain rfl := Except.ok.inj (hstep.symm.trans hok)
  exact ⟨hb₁, hwf⟩

theorem always_length_le {M : ℕ} {b : Buffer} (h : b.Wf) (hsize : b.buffer.length ≤ sizeBound M)
    {ops : List Op} (hpre : calls.Along (fun b op => op.Pre b ∧ op.Moves) b ops)
    (hM : calls.Always (fun b => b.readableBytes ≤ M) b ops) :
    calls.Always (fun b => b.buffer.length ≤ sizeBound M) b ops := by
  induction ops generalizing b with
  | nil => exact hsize
  | cons op ops ih =>
    cases hstep : calls.step b op with
    | error f => exact (Machine.always_cons_error hstep).2 hsize
    | ok b' =>
      obtain ⟨⟨hop, hmoves⟩, hpre⟩ := (Machine.along_cons_ok hstep).1 hpre
      obtain ⟨-, hM⟩ := (Machine.always_cons_ok hstep).1 hM
      obtain ⟨hexec, hwf⟩ := calls_step h hop hstep
      have hle := length_exec h hop hmoves hexec
      have hcontent := hM.start
      refine (Machine.always_cons_ok hstep).2 ⟨hsize, ih hwf ?_ hpre hM⟩
      refine hle.trans (max_le hsize (le_max_of_le_right ?_))
      omega

/-- A buffer whose content never exceeds `M` bytes never has a vector beyond twice that, however
appending and retrieving alternate. -/
theorem size_le_of_readable_le (M : ℕ) (ops : List Op)
    (hpre : calls.Along (fun b op => op.Pre b ∧ op.Moves) empty ops)
    (hM : calls.Always (fun b => b.readableBytes ≤ M) empty ops) :
    calls.Always
      (fun b => b.buffer.length ≤ max (kCheapPrepend + kInitialSize) (2 * M + kCheapPrepend))
      empty ops := by
  refine always_length_le wf_empty (le_max_of_le_left ?_) hpre hM
  rw [empty, List.length_replicate]

/-- Calls at both ends of a content of at most four bytes. -/
def alternatingCalls : List Op :=
  [.append [1, 2, 3], .retrieve 2, .readFd (.read [4, 5]), .unwrite 1, .prepend [6, 7],
    .retrieveAsString 4]

theorem size_le_of_readable_le_alternatingCalls :
    calls.Always (fun b => b.buffer.length ≤ 1032) empty alternatingCalls :=
  size_le_of_readable_le 4 alternatingCalls (by decide +kernel) (by decide +kernel)

end Buffer

end Reactor
