import Reactor.TcpConnection

/-!
# The overloads of send

`send(const void*, int)`, `send(const StringPiece&)` and `send(Buffer*)` end in one `sendInLoop` of
a range of bytes.  On the loop's thread they call it at once.  On another thread the bytes are
copied into a `std::string` and bound to `sendInLoop(const StringPiece&)`; when the functor runs, the
string is converted to a `StringPiece`, whose length is that of the C string.

* `send_passes_iff`: each of the three passes on exactly the bytes it is given when it is called on
  the loop's thread or the bytes have no NUL among them, and not otherwise.
-/

namespace Reactor

namespace TcpConnection

/-- `sendInLoop(const StringPiece&)` -/
def sendInLoopPiece (c : TcpConnection) (message : StringPiece) (w : WriteResult) :
    Except Fault TcpConnection := do
  c.sendInLoop (← message.read) w

/-- The functor of a `send` from another thread. -/
def runSendInLoop (c : TcpConnection) (str : Bytes) (w : WriteResult) : Except Fault TcpConnection :=
  c.sendInLoopPiece (StringPiece.ofString str) w

/-- `send(const StringPiece&)` -/
def sendPiece (c : TcpConnection) (inLoop : Bool) (message : StringPiece) (w : WriteResult) :
    Except Fault TcpConnection :=
  if c.state = .kConnected then
    if inLoop then c.sendInLoopPiece message w
    else return c.queueInLoop (.sendInLoop (← message.asString))
  else return c

/-- `send(const void*, int)` -/
def sendData (c : TcpConnection) (inLoop : Bool) (data : Bytes) (len : ℤ) (w : WriteResult) :
    Except Fault TcpConnection :=
  c.sendPiece inLoop ⟨data, len⟩ w

/-- `send(Buffer*)` -/
def sendBuffer (c : TcpConnection) (inLoop : Bool) (buf : Buffer) (w : WriteResult) :
    Except Fault (TcpConnection × Buffer) :=
  if c.state = .kConnected then
    if inLoop then return (← c.sendInLoop buf.readable w, buf.retrieveAll)
    else do
      let (tmp, buf) ← buf.retrieveAllAsString
      return (c.queueInLoop (.sendInLoop tmp), buf)
  else return (c, buf)

/-- The call passes exactly `m` to `sendInLoop(const void*, size_t)`: at once, or by a functor,
whenever that runs. -/
def Passes (c : TcpConnection) (inLoop : Bool) (m : Bytes)
    (call : WriteResult → Except Fault TcpConnection) : Prop :=
  if inLoop then ∀ w, call w = c.sendInLoop m w
  else ∃ str, (∀ w, call w = .ok (c.queueInLoop (.sendInLoop str))) ∧
    ∀ c' w, runSendInLoop c' str w = c'.sendInLoop m w

variable {c : TcpConnection} {inLoop : Bool} {m : Bytes}

theorem runSendInLoop_eq {str : Bytes} (h : str.length < 2 ^ 31) (c : TcpConnection)
    (w : WriteResult) : c.runSendInLoop str w = c.sendInLoop (cString str) w := by
  rw [runSendInLoop, sendInLoopPiece, StringPiece.read_ofString h, ok_bind]

/-- What `sendInLoop` does tells the bytes it was given. -/
theorem sendInLoop_injective {a b : Bytes}
    (h : ∀ (c : TcpConnection) w, c.sendInLoop a w = c.sendInLoop b w) : a = b := by
  have hsent : ∀ m : Bytes, ∃ c', (new 0 false false 0).sendInLoop m (.wrote 0) = .ok c' ∧
      c'.accepted ++ c'.outputBuffer.readable = m := by
    intro m
    have hfits : WriteResult.Fits m.length (.wrote 0) := Nat.zero_le _
    obtain ⟨c', hc', -, -, hall⟩ := sendInLoop_spec (c := new 0 false false 0) Buffer.wf_empty hfits
    refine ⟨c', hc', ?_⟩
    rw [hall (by decide) (by decide) (by decide)]
    show [] ++ Buffer.empty.readable ++ m = m
    rw [Buffer.readable_empty]
    rfl
  obtain ⟨c₁, hc₁, rfl⟩ := hsent a
  obtain ⟨c₂, hc₂, rfl⟩ := hsent b
  rw [← h _ (.wrote 0), hc₁] at hc₂
  rw [Except.ok.inj hc₂]

/-- The functor passes on what it was given as long as that has no NUL. -/
theorem passes_queued_iff (hm : m.length < 2 ^ 31) {call : WriteResult → Except Fault TcpConnection}
    (hcall : ∀ w, call w = .ok (c.queueInLoop (.sendInLoop m))) :
    Passes c false m call ↔ 0 ∉ m := by
  rw [← cString_eq_self_iff, Passes, if_neg (by decide)]
  constructor
  · rintro ⟨str, hstr, hrun⟩
    have heq := (hcall (.wrote 0)).symm.trans (hstr (.wrote 0))
    have hfunctors := congrArg pendingFunctors (Except.ok.inj heq)
    obtain rfl : m = str := by simpa [queueInLoop] using hfunctors
    refine sendInLoop_injective fun c' w => ?_
    rw [← runSendInLoop_eq hm]
    exact hrun c' w
  · intro heq
    refine ⟨m, hcall, fun c' w => ?_⟩
    rw [runSendInLoop_eq hm, heq]

theorem passes_sendPiece_iff (hc : c.state = .kConnected) (hm : m.length < 2 ^ 31)
    {message : StringPiece} (hmessage : message.read = .ok m) :
    Passes c inLoop m (c.sendPiece inLoop message) ↔ inLoop = true ∨ 0 ∉ m := by
  cases inLoop with
  | true =>
    refine iff_of_true ?_ (Or.inl rfl)
    rw [Passes, if_pos rfl]
    intro w
    rw [sendPiece, if_pos hc, if_pos rfl, sendInLoopPiece, hmessage, ok_bind]
  | false =>
    have hcall : ∀ w, c.sendPiece false message w = .ok (c.queueInLoop (.sendInLoop m)) := by
      intro w
      rw [sendPiece, if_pos hc, if_neg (by decide), StringPiece.asString, hmessage, ok_bind]
      rfl
    rw [passes_queued_iff hm hcall]
    simp

theorem passes_sendBuffer_iff (hc : c.state = .kConnected) (hm : m.length < 2 ^ 31) {buf : Buffer}
    (hwf : buf.Wf) (hbuf : buf.readable = m) :
    Passes c inLoop m (fun w => (c.sendBuffer inLoop buf w).map Prod.fst) ↔
      inLoop = true ∨ 0 ∉ m := by
  cases inLoop with
  | true =>
    refine iff_of_true ?_ (Or.inl rfl)
    rw [Passes, if_pos rfl]
    intro w
    rw [sendBuffer, if_pos hc, if_pos rfl, hbuf]
    cases c.sendInLoop m w <;> rfl
  | false =>
    have hcall : ∀ w, (c.sendBuffer false buf w).map Prod.fst =
        .ok (c.queueInLoop (.sendInLoop m)) := by
      intro w
      obtain ⟨buf', hall, -, -⟩ := hwf.retrieveAsString (Nat.le_refl _)
      rw [← hwf.length_readable, List.take_length, hbuf] at hall
      rw [sendBuffer, if_pos hc, if_neg (by decide), Buffer.retrieveAllAsString,
        ← hwf.length_readable, hbuf, hall, ok_bind]
      rfl
    rw [passes_queued_iff hm hcall]
    simp

/-- Each of the overloads passes exactly the bytes it is given to `sendInLoop` if it is called on
the loop's thread or if there is no NUL among them, and only then. -/
theorem send_passes_iff (hc : c.state = .kConnected) (hm : m.length < 2 ^ 31) {data : Bytes} {len : ℤ}
    (hdata : (⟨data, len⟩ : StringPiece).read = .ok m) {message : StringPiece}
    (hmessage : message.read = .ok m) {buf : Buffer} (hwf : buf.Wf) (hbuf : buf.readable = m) :
    (Passes c inLoop m (c.sendData inLoop data len) ↔ inLoop = true ∨ 0 ∉ m) ∧
      (Passes c inLoop m (c.sendPiece inLoop message) ↔ inLoop = true ∨ 0 ∉ m) ∧
      (Passes c inLoop m (fun w => (c.sendBuffer inLoop buf w).map Prod.fst) ↔
        inLoop = true ∨ 0 ∉ m) :=
  ⟨passes_sendPiece_iff hc hm hdata, passes_sendPiece_iff hc hm hmessage,
    passes_sendBuffer_iff hc hm hwf hbuf⟩

theorem send_passes_text :
    Passes { new 7 false false 64 with state := .kConnected } false (ascii "hi")
      (sendPiece { new 7 false false 64 with state := .kConnected } false ⟨ascii "hi", 2⟩) := by
  obtain ⟨buf, -, hwf, hread⟩ := Buffer.wf_empty.append (ascii "hi")
  rw [Buffer.readable_empty, List.nil_append] at hread
  have hpiece : (⟨ascii "hi", 2⟩ : StringPiece).read = .ok (ascii "hi") := by decide +kernel
  obtain ⟨-, hiff, -⟩ := @send_passes_iff { new 7 false false 64 with state := .kConnected } false _
    rfl (by decide +kernel) _ _ hpiece _ hpiece _ hwf hread
  exact hiff.2 (Or.inr (by decide +kernel))

/-- Of three bytes with a NUL in the middle, sent from another thread, the first one arrives. -/
theorem send_cuts_at_nul :
    ¬ ∀ (c : TcpConnection) (inLoop : Bool) (m : Bytes), c.state = .kConnected →
      m.length < 2 ^ 31 → Passes c inLoop m (c.sendPiece inLoop ⟨m, m.length⟩) := by
  intro h
  have hpass := h { new 7 false false 64 with state := .kConnected } false [1, 0, 2] rfl (by decide)
  have hcases := (passes_sendPiece_iff rfl (by decide) (by decide +kernel)).1 hpass
  revert hcases
  decide

end TcpConnection

end Reactor
