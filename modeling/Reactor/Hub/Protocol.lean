import Reactor.HttpContext.Chunks
import Reactor.Hub.Subscriptions

/-!
# What the server understands of the client

The messages of `PubSubClient` come to the server in chunks, and the loop of `PubSubServer::onMessage`
parses what has come.  A message of `publish` is understood; the messages of `subscribe` and
`unsubscribe` are not, since the one lacks the space behind the command and the other misspells it too.

* `messageLoop_runs_commands`: what the server does with the bytes is to handle the commands that it
  parses.
* `understood_iff_all_publish`: the server parses the calls of the client as they were made, exactly
  when they are calls of `publish`.
-/

namespace Reactor

namespace Hub

/-- The loop of `PubSubServer::onMessage`: what it parses, and whether it ends with `kError`. -/
def receiveLoop : ℕ → Buffer → Except Fault (List Message × Bool × Buffer)
  | 0, _ => .error .outOfFuel
  | fuel + 1, buf => do
    let (result, m, buf) ← parseMessage buf
    match result with
    | .kSuccess =>
      if Known m.cmd then
        let (ms, error, buf) ← receiveLoop fuel buf
        return (m :: ms, error, buf)
      else return ([m], true, buf)
    | .kError => return ([], true, buf)
    | .kContinue => return ([], false, buf)

/-- The chunks come one by one, with a call of `onMessage` after each. -/
def feed : Buffer → List Bytes → Except Fault (List Message × Bool × Buffer)
  | buf, [] => return ([], false, buf)
  | buf, chunk :: chunks => do
    let buf ← buf.append chunk
    let (ms, error, buf) ← receiveLoop (buf.readableBytes + 1) buf
    let (ms', error', buf) ← feed buf chunks
    return (ms ++ ms', error || error', buf)

namespace Call

/-- What a call means. -/
def command : Call → Message
  | .subscribe topic => ⟨ascii "sub", topic, []⟩
  | .unsubscribe topic => ⟨ascii "unsub", topic, []⟩
  | .publish topic content => ⟨ascii "pub", topic, content⟩

/-- Topics and contents without CR and LF. -/
def Clean : Call → Prop
  | .subscribe topic | .unsubscribe topic => 13 ∉ topic ∧ 10 ∉ topic
  | .publish topic content => (13 ∉ topic ∧ 10 ∉ topic) ∧ 13 ∉ content ∧ 10 ∉ content

instance : ∀ call : Call, Decidable call.Clean
  | .subscribe _ | .unsubscribe _ => inferInstanceAs (Decidable (_ ∧ _))
  | .publish _ _ => inferInstanceAs (Decidable ((_ ∧ _) ∧ _ ∧ _))

def IsPublish : Call → Prop
  | .publish _ _ => True
  | .subscribe _ | .unsubscribe _ => False

end Call

/-- The messages of the calls one behind the other. -/
def stream (calls : List Call) : Bytes := calls.flatMap Call.message

/-- The server parses exactly the calls, in order, and never `kError`. -/
def Understood (calls : List Call) (chunks : List Bytes) : Prop :=
  ∃ buf, feed Buffer.empty chunks = .ok (calls.map Call.command, false, buf)

/-! ## What parseMessage makes of the readable bytes -/

inductive Parse where
  | error
  | wait
  | success (m : Message) (rest : Bytes)

/-- The first message of a byte string. -/
def parse (xs : Bytes) : Parse :=
  match Buffer.searchCRLF xs with
  | none => .wait
  | some n =>
    match splitFirst 32 (xs.take n) with
    | none => .error
    | some (cmd, topic) =>
      if cmd = ascii "pub" then
        match Buffer.searchCRLF (xs.drop (n + 2)) with
        | none => .wait
        | some k => .success ⟨cmd, topic, (xs.drop (n + 2)).take k⟩ ((xs.drop (n + 2)).drop (k + 2))
      else .success ⟨cmd, topic, []⟩ (xs.drop (n + 2))

/-- The outcome of `parseMessage` that `parse` says. -/
def Outcome (buf : Buffer) : Parse → Prop
  | .error => ∃ m, parseMessage buf = .ok (.kError, m, buf)
  | .wait => ∃ m, parseMessage buf = .ok (.kContinue, m, buf)
  | .success m rest =>
    ∃ buf', parseMessage buf = .ok (.kSuccess, m, buf') ∧ buf'.Wf ∧ buf'.readable = rest

variable {buf : Buffer} {xs ys rest : Bytes} {m : Message}

/-- The part of the buffer behind the first line. -/
theorem slice_behind (hwf : buf.Wf) {n k : ℕ} (hk : n + 2 + k ≤ buf.readableBytes) :
    Vec.slice buf.buffer (buf.peek + n + 2) (buf.peek + n + 2 + k) =
      (buf.readable.drop (n + 2)).take k := by
  have hrw := hwf.reader_le_writer
  unfold Buffer.readableBytes at hk
  rw [Buffer.readable, Vec.drop_slice, Vec.take_slice,
    min_eq_left (by omega), show buf.peek = buf.readerIndex from rfl, Nat.add_assoc buf.readerIndex]

theorem findCRLFFrom_eq (hwf : buf.Wf) {n : ℕ} (hn : n + 2 ≤ buf.readableBytes) :
    findCRLFFrom buf (buf.peek + n + 2) =
      .ok ((Buffer.searchCRLF (buf.readable.drop (n + 2))).map (buf.peek + n + 2 + ·)) := by
  have hrw := hwf.reader_le_writer
  have hend : buf.peek + n + 2 ≤ buf.beginWrite := by
    unfold Buffer.readableBytes at hn
    unfold Buffer.peek Buffer.beginWrite
    omega
  unfold findCRLFFrom
  rw [check_of (by omega), ok_bind, check_of hend, ok_bind, Buffer.readable, Vec.drop_slice]
  rfl

theorem outcome_parse (hwf : buf.Wf) : Outcome buf (parse buf.readable) := by
  -- the two are evaluated side by side
  have hmessage : parseMessage buf = parseMessage buf := rfl
  conv_rhs at hmessage => unfold parseMessage
  unfold parse
  cases hn : Buffer.searchCRLF buf.readable with
  | none =>
    rw [Buffer.findCRLF, hn] at hmessage
    exact ⟨⟨[], [], []⟩, hmessage⟩
  | some n =>
    have hle : n + 2 ≤ buf.readableBytes := by
      rw [← hwf.length_readable]
      exact Buffer.searchCRLF_le hn
    have hfind : buf.findCRLF = some (buf.peek + n) := by
      rw [Buffer.findCRLF, hn]
      rfl
    rw [hfind] at hmessage
    dsimp only at hmessage ⊢
    rw [hwf.slice_line hn] at hmessage
    cases hsplit : splitFirst 32 (buf.readable.take n) with
    | none =>
      rw [hsplit] at hmessage
      exact ⟨⟨[], [], []⟩, hmessage⟩
    | some p =>
      obtain ⟨cmd, topic⟩ := p
      rw [hsplit] at hmessage
      dsimp only at hmessage ⊢
      by_cases hcmd : cmd = ascii "pub"
      · rw [if_pos hcmd, findCRLFFrom_eq hwf hle] at hmessage
        rw [if_pos hcmd]
        cases hk : Buffer.searchCRLF (buf.readable.drop (n + 2)) with
        | none =>
          rw [hk] at hmessage
          exact ⟨⟨cmd, topic, []⟩, hmessage⟩
        | some k =>
          have hkle := Buffer.searchCRLF_le hk
          rw [List.length_drop, hwf.length_readable] at hkle
          obtain ⟨buf', hret, hwf', hread⟩ := hwf.retrieveUntil
            (show n + 2 + (k + 2) ≤ buf.readableBytes by omega)
          have hpos : buf.peek + n + 2 + k + 2 = buf.peek + (n + 2 + (k + 2)) := by omega
          rw [hk, Option.map_some, ok_bind] at hmessage
          dsimp only at hmessage
          rw [hpos, hret, ok_bind, slice_behind hwf (by omega)] at hmessage
          exact ⟨buf', hmessage, hwf', by rw [hread, List.drop_drop]⟩
      · obtain ⟨buf', hret, hwf', hread⟩ := hwf.retrieveLine hn
        rw [if_neg hcmd, hret, ok_bind] at hmessage
        rw [if_neg hcmd]
        exact ⟨buf', hmessage, hwf', hread⟩

/-! ## More bytes do not change what was parsed -/

/-- A message is parsed from its own bytes: what comes behind them stays behind. -/
theorem parse_stable (xs : Bytes) :
    parse xs = .wait ∨ (∀ ys, parse (xs ++ ys) = .error) ∨
      ∃ m rest, rest.length < xs.length ∧ ∀ ys, parse (xs ++ ys) = .success m (rest ++ ys) := by
  cases hn : Buffer.searchCRLF xs with
  | none =>
    left
    unfold parse
    rw [hn]
  | some n =>
    have hle := Buffer.searchCRLF_le hn
    -- the first line and what is behind it, with more bytes
    have hmore : ∀ ys, parse (xs ++ ys) = match splitFirst 32 (xs.take n) with
        | none => .error
        | some (cmd, topic) =>
          if cmd = ascii "pub" then
            match Buffer.searchCRLF (xs.drop (n + 2) ++ ys) with
            | none => .wait
            | some k => .success ⟨cmd, topic, (xs.drop (n + 2) ++ ys).take k⟩
                ((xs.drop (n + 2) ++ ys).drop (k + 2))
          else .success ⟨cmd, topic, []⟩ (xs.drop (n + 2) ++ ys) := by
      intro ys
      unfold parse
      rw [Buffer.searchCRLF_append hn]
      dsimp only
      rw [HttpContext.take_searchCRLF_append hn, HttpContext.drop_searchCRLF_append hn]
    have hself := hmore []
    simp only [List.append_nil] at hself
    cases hsplit : splitFirst 32 (xs.take n) with
    | none =>
      refine .inr (.inl fun ys => ?_)
      rw [hmore, hsplit]
    | some p =>
      obtain ⟨cmd, topic⟩ := p
      rw [hsplit] at hself
      by_cases hcmd : cmd = ascii "pub"
      · cases hk : Buffer.searchCRLF (xs.drop (n + 2)) with
        | none =>
          left
          rw [hself]
          dsimp only
          rw [if_pos hcmd, hk]
        | some k =>
          have hkle := Buffer.searchCRLF_le hk
          refine .inr (.inr ⟨⟨cmd, topic, (xs.drop (n + 2)).take k⟩,
            (xs.drop (n + 2)).drop (k + 2), ?_, fun ys => ?_⟩)
          · simp only [List.length_drop]
            omega
          · rw [hmore, hsplit]
            dsimp only
            rw [if_pos hcmd, Buffer.searchCRLF_append hk]
            dsimp only
            rw [HttpContext.take_searchCRLF_append hk, HttpContext.drop_searchCRLF_append hk]
      · refine .inr (.inr ⟨⟨cmd, topic, []⟩, xs.drop (n + 2), ?_, fun ys => ?_⟩)
        · rw [List.length_drop]
          omega
        · rw [hmore, hsplit]
          dsimp only
          rw [if_neg hcmd]

/-! ## What is parsed of a call -/

/-- The first line of a text, when it is not a publication. -/
theorem parse_line {line : Bytes} (hline : 13 ∉ line) (rest : Bytes) :
    parse (line ++ crlf ++ rest) =
      match splitFirst 32 line with
      | none => .error
      | some (cmd, topic) =>
        if cmd = ascii "pub" then
          match Buffer.searchCRLF rest with
          | none => .wait
          | some k => .success ⟨cmd, topic, rest.take k⟩ (rest.drop (k + 2))
        else .success ⟨cmd, topic, []⟩ rest := by
  unfold parse
  rw [Buffer.searchCRLF_line (Buffer.searchCRLF_of_notMem hline)]
  dsimp only
  rw [List.append_assoc, List.take_left, ← List.append_assoc, List.drop_left' (by simp; rfl)]

theorem parse_publish {topic content : Bytes} (hclean : (Call.publish topic content).Clean)
    (rest : Bytes) :
    parse ((Call.publish topic content).message ++ rest) =
      .success (Call.publish topic content).command rest := by
  obtain ⟨⟨htopic, -⟩, hcontent, -⟩ := hclean
  have hline : 13 ∉ ascii "pub" ++ 32 :: topic := by
    have hpub : 13 ∉ ascii "pub" := by decide
    simp [hpub, htopic]
  have htext : (Call.publish topic content).message ++ rest =
      (ascii "pub" ++ 32 :: topic) ++ crlf ++ (content ++ crlf ++ rest) := by
    have hspace : ascii "pub " = ascii "pub" ++ [32] := by decide
    simp only [Call.message, hspace, List.append_assoc, List.cons_append, List.nil_append]
  rw [htext, parse_line hline, splitFirst_eq_some.2 ⟨rfl, by decide⟩]
  dsimp only
  rw [if_pos rfl, Buffer.searchCRLF_line (Buffer.searchCRLF_of_notMem hcontent)]
  dsimp only
  rw [List.append_assoc, List.take_left, ← List.append_assoc, List.drop_left' (by simp; rfl)]
  rfl

/-- A line that is not a publication is refused, or parsed as it stands. -/
theorem parse_of_not_pub {line : Bytes} (hline : 13 ∉ line) (hpub : ¬ ascii "pub" <+: line)
    (rest : Bytes) :
    parse (line ++ crlf ++ rest) = .error ∨ ∃ cmd topic, line = cmd ++ 32 :: topic ∧
      parse (line ++ crlf ++ rest) = .success ⟨cmd, topic, []⟩ rest := by
  rw [parse_line hline]
  cases hsplit : splitFirst 32 line with
  | none => exact .inl rfl
  | some p =>
    obtain ⟨cmd, topic⟩ := p
    obtain ⟨heq, -⟩ := splitFirst_eq_some.1 hsplit
    have hcmd : cmd ≠ ascii "pub" := by
      rintro rfl
      exact hpub ⟨32 :: topic, heq.symm⟩
    refine .inr ⟨cmd, topic, heq, ?_⟩
    dsimp only
    rw [if_neg hcmd]

theorem parse_other {call : Call} (hclean : call.Clean) (hcall : ¬ call.IsPublish) (rest : Bytes) :
    parse (call.message ++ rest) = .error ∨ ∃ m rest', m ≠ call.command ∧
      parse (call.message ++ rest) = .success m rest' := by
  cases call with
  | publish topic content => exact absurd trivial hcall
  | subscribe topic =>
    have hline : 13 ∉ ascii "sub" ++ topic := by
      have hsub : 13 ∉ ascii "sub" := by decide
      simp [hsub, hclean.1]
    have hpub : ¬ ascii "pub" <+: ascii "sub" ++ topic := by
      rintro ⟨tail, heq⟩
      exact absurd (congrArg List.head? heq) (by simp [ascii])
    rcases parse_of_not_pub hline hpub rest with herror | ⟨cmd, topic', heq, hsuccess⟩
    · exact .inl herror
    · refine .inr ⟨_, _, fun hm => ?_, hsuccess⟩
      -- the topic has lost the space in front
      obtain ⟨rfl, rfl, -⟩ := Message.mk.inj hm
      have htopic := congrArg List.length (List.append_cancel_left heq)
      rw [List.length_cons] at htopic
      omega
  | unsubscribe topic =>
    have hline : 13 ∉ ascii "unsbu" ++ topic := by
      have hunsbu : 13 ∉ ascii "unsbu" := by decide
      simp [hunsbu, hclean.1]
    have hpub : ¬ ascii "pub" <+: ascii "unsbu" ++ topic := by
      rintro ⟨tail, heq⟩
      exact absurd (congrArg List.head? heq) (by simp [ascii])
    rcases parse_of_not_pub hline hpub rest with herror | ⟨cmd, topic', heq, hsuccess⟩
    · exact .inl herror
    · refine .inr ⟨_, _, fun hm => ?_, hsuccess⟩
      obtain ⟨rfl, rfl, -⟩ := Message.mk.inj hm
      exact absurd (congrArg (List.take 5) heq) (by simp [ascii])

/-! ## The loop -/

/-- One round of the loop. -/
theorem receiveLoop_succ (hwf : buf.Wf) :
    (parse buf.readable = .wait ∧ ∀ fuel, receiveLoop (fuel + 1) buf = .ok ([], false, buf)) ∨
    ((∀ ys, parse (buf.readable ++ ys) = .error) ∧
      ∀ fuel, receiveLoop (fuel + 1) buf = .ok ([], true, buf)) ∨
    ∃ m buf', buf'.Wf ∧ buf'.readable.length < buf.readable.length ∧
      (∀ ys, parse (buf.readable ++ ys) = .success m (buf'.readable ++ ys)) ∧
      ∀ fuel, receiveLoop (fuel + 1) buf =
        if Known m.cmd then do
          let (ms, error, buf) ← receiveLoop fuel buf'
          return (m :: ms, error, buf)
        else return ([m], true, buf') := by
  have houtcome := outcome_parse hwf
  rcases parse_stable buf.readable with hwait | herror | ⟨m, rest, hlen, hsuccess⟩
  · rw [hwait] at houtcome
    obtain ⟨m, hm⟩ := houtcome
    refine .inl ⟨hwait, fun fuel => ?_⟩
    rw [receiveLoop, hm]
    rfl
  · have hself := herror []
    rw [List.append_nil] at hself
    rw [hself] at houtcome
    obtain ⟨m, hm⟩ := houtcome
    refine .inr (.inl ⟨herror, fun fuel => ?_⟩)
    rw [receiveLoop, hm]
    rfl
  · have hself := hsuccess []
    rw [List.append_nil, List.append_nil] at hself
    rw [hself] at houtcome
    obtain ⟨buf', hm, hwf', rfl⟩ := houtcome
    refine .inr (.inr ⟨m, buf', hwf', hlen, hsuccess, fun fuel => ?_⟩)
    rw [receiveLoop, hm]
    rfl

theorem receiveLoop_total (hwf : buf.Wf) {fuel : ℕ} (hfuel : buf.readable.length < fuel) :
    ∃ ms error buf', receiveLoop fuel buf = .ok (ms, error, buf') ∧ buf'.Wf := by
  induction fuel generalizing buf with
  | zero => omega
  | succ fuel ih =>
    rcases receiveLoop_succ hwf with ⟨-, hloop⟩ | ⟨-, hloop⟩ | ⟨m, buf₁, hwf₁, hlen, -, hloop⟩
    · exact ⟨_, _, _, hloop fuel, hwf⟩
    · exact ⟨_, _, _, hloop fuel, hwf⟩
    · rw [hloop]
      split_ifs
      · obtain ⟨ms, error, buf', hrest, hwf'⟩ := ih hwf₁ (by omega)
        rw [hrest]
        exact ⟨m :: ms, error, buf', rfl, hwf'⟩
      · exact ⟨[m], true, buf₁, rfl, hwf₁⟩

/-- The loop of the server handles the commands that it knows of what `receiveLoop` parses, one by one,
and then shuts the connection down if that ends with `kError`. -/
theorem messageLoop_runs_commands {fuel : ℕ} {ms : List Message} {error : Bool} {buf' : Buffer}
    (h : receiveLoop fuel buf = .ok (ms, error, buf')) (s : PubSubServer) (conn : Conn) (receiveTime : ℤ)
    (r : ShutdownResult) :
    PubSubServer.messageLoop conn receiveTime r fuel s buf = do
      let commands := ms.filter fun m => Known m.cmd
      let s ← PubSubServer.machine.run s (commands.map (.command conn · receiveTime r))
      return (← (if error then s.shutdown conn r else .ok s), buf') := by
  induction fuel generalizing s buf ms with
  | zero => cases h
  | succ fuel ih =>
    rw [receiveLoop] at h
    obtain ⟨⟨result, m, buf₁⟩, hparse, h⟩ := bind_eq_ok.1 h
    rw [PubSubServer.messageLoop, hparse, ok_bind]
    cases result with
    | kError =>
      simp only [pure, Except.pure, Except.ok.injEq, Prod.mk.injEq] at h
      obtain ⟨rfl, rfl, rfl⟩ := h
      rfl
    | kContinue =>
      simp only [pure, Except.pure, Except.ok.injEq, Prod.mk.injEq] at h
      obtain ⟨rfl, rfl, rfl⟩ := h
      rfl
    | kSuccess =>
      dsimp only at h ⊢
      rw [PubSubServer.onCommand_eq]
      by_cases hknown : Known m.cmd
      · rw [if_pos hknown] at h
        obtain ⟨⟨ms', error', buf₂⟩, hrest, h⟩ := bind_eq_ok.1 h
        simp only [pure, Except.pure, Except.ok.injEq, Prod.mk.injEq] at h
        obtain ⟨rfl, rfl, rfl⟩ := h
        rw [List.filter_cons_of_pos (by simpa using hknown), List.map_cons, Machine.run_cons,
          show PubSubServer.machine.step = PubSubServer.step from rfl, decide_eq_true hknown]
        cases s.step (.command conn m receiveTime r) with
        | error f => rfl
        | ok s₁ => exact ih hrest s₁
      · rw [if_neg hknown] at h
        simp only [pure, Except.pure, Except.ok.injEq, Prod.mk.injEq] at h
        obtain ⟨rfl, rfl, rfl⟩ := h
        rw [List.filter_cons_of_neg (by simpa using hknown), PubSubServer.step_of_not_known hknown,
          decide_eq_false hknown]
        show _ = (if True then s.shutdown conn r else .ok s) >>= _
        rw [if_pos trivial]
        cases s.shutdown conn r <;> rfl

theorem feed_total (hwf : buf.Wf) (chunks : List Bytes) :
    ∃ ms error buf', feed buf chunks = .ok (ms, error, buf') := by
  induction chunks generalizing buf with
  | nil => exact ⟨[], false, buf, rfl⟩
  | cons chunk chunks ih =>
    obtain ⟨buf₁, happend, hwf₁, -⟩ := hwf.append chunk
    obtain ⟨ms, error, buf₂, hloop, hwf₂⟩ := receiveLoop_total hwf₁
      (show buf₁.readable.length < buf₁.readableBytes + 1 by rw [hwf₁.length_readable]; omega)
    obtain ⟨ms', error', buf₃, hfeed⟩ := ih hwf₂
    refine ⟨ms ++ ms', error || error', buf₃, ?_⟩
    rw [feed, happend, ok_bind, hloop, ok_bind]
    dsimp only
    rw [hfeed]
    rfl

/-- The calls are not understood: one of them is no publication, and there is an error or a message
that differs from its call. -/
structure Garbled (calls : List Call) (ms : List Message) (error : Bool) : Prop where
  other : ∃ call ∈ calls, ¬ call.IsPublish
  wrong : error = true ∨ ¬ ms <+: calls.map Call.command

/-- The calls up to some point are understood, and the bytes of the others are not parsed yet. -/
structure Parsed (calls : List Call) (future : Bytes) (ms : List Message) (rest : Bytes)
    (left : List Call) : Prop where
  split : ∃ done, calls = done ++ left ∧ (∀ call ∈ done, call.IsPublish) ∧ ms = done.map Call.command
  behind : rest ++ future = stream left
  wait : parse rest = .wait

variable {calls left done : List Call} {call : Call} {ms ms' : List Message} {error : Bool}
  {future : Bytes}

theorem Garbled.append (h : Garbled calls ms error) (ms' : List Message) (error' : Bool) :
    Garbled calls (ms ++ ms') (error || error') := by
  refine ⟨h.other, ?_⟩
  rcases h.wrong with rfl | hwrong
  · exact .inl rfl
  · exact .inr fun hall => hwrong ((List.prefix_append ms ms').trans hall)

/-- What was understood before does not help. -/
theorem Garbled.prepend (h : Garbled left ms error) (done : List Call) :
    Garbled (done ++ left) (done.map Call.command ++ ms) error := by
  obtain ⟨⟨call, hcall, hother⟩, hwrong⟩ := h
  refine ⟨⟨call, List.mem_append_right _ hcall, hother⟩, hwrong.imp_right fun hwrong hall => ?_⟩
  rw [List.map_append] at hall
  exact hwrong ((List.prefix_append_right_inj _).1 hall)

theorem Parsed.publish {rest : Bytes} (h : Parsed calls future ms rest left) (topic content : Bytes) :
    Parsed (.publish topic content :: calls) future ((Call.publish topic content).command :: ms) rest
      left := by
  obtain ⟨⟨done, rfl, hdone, rfl⟩, hbehind, hwait⟩ := h
  refine ⟨⟨.publish topic content :: done, rfl, fun call hcall => ?_, rfl⟩, hbehind, hwait⟩
  rcases List.mem_cons.1 hcall with rfl | hcall
  · trivial
  · exact hdone call hcall

/-- An error comes from a call that is no publication. -/
theorem exists_other_of_error (hclean : ∀ call ∈ calls, call.Clean)
    (herror : parse (stream calls) = .error) : ∃ call ∈ calls, ¬ call.IsPublish := by
  cases calls with
  | nil => cases herror
  | cons call calls =>
    refine ⟨call, List.mem_cons_self, fun hpublish => ?_⟩
    cases call with
    | publish topic content =>
      rw [stream, List.flatMap_cons, parse_publish (hclean _ List.mem_cons_self)] at herror
      cases herror
    | subscribe topic => exact hpublish
    | unsubscribe topic => exact hpublish

/-- A message that was made of another call is a wrong one. -/
theorem not_prefix_of_other (hclean : call.Clean) (hother : ¬ call.IsPublish) {m : Message} {rest : Bytes}
    (hparse : parse (stream (call :: calls)) = .success m rest) (ms : List Message) :
    ¬ m :: ms <+: (call :: calls).map Call.command := by
  intro hall
  rw [stream, List.flatMap_cons] at hparse
  rcases parse_other hclean hother (calls.flatMap Call.message) with herror | ⟨m', rest', hne, hsuccess⟩
  · cases herror.symm.trans hparse
  · obtain ⟨rfl, -⟩ := Parse.success.inj (hsuccess.symm.trans hparse)
    exact hne (List.cons_prefix_cons.1 hall).1

/-- The loop parses calls until the bytes run out or a call is garbled. -/
theorem receiveLoop_spec (hclean : ∀ call ∈ calls, call.Clean) (hwf : buf.Wf) {fuel : ℕ}
    (hfuel : buf.readable.length < fuel) (hstream : buf.readable ++ future = stream calls) :
    ∃ ms error buf', receiveLoop fuel buf = .ok (ms, error, buf') ∧ buf'.Wf ∧
      (Garbled calls ms error ∨ error = false ∧ ∃ left, Parsed calls future ms buf'.readable left) := by
  induction fuel generalizing buf calls with
  | zero => omega
  | succ fuel ih =>
    rcases receiveLoop_succ hwf with ⟨hwait, hloop⟩ | ⟨herror, hloop⟩ |
      ⟨m, buf₁, hwf₁, hlen, hsuccess, hloop⟩
    · exact ⟨_, _, _, hloop fuel, hwf, .inr ⟨rfl, calls, ⟨[], rfl, fun _ h => (by cases h), rfl⟩,
        hstream, hwait⟩⟩
    · have hparse := herror future
      rw [hstream] at hparse
      exact ⟨_, _, _, hloop fuel, hwf, .inl ⟨exists_other_of_error hclean hparse, .inl rfl⟩⟩
    · have hparse := hsuccess future
      rw [hstream] at hparse
      rw [hloop]
      cases calls with
      | nil => cases hparse
      | cons call calls =>
        have hcall := hclean call List.mem_cons_self
        by_cases hpublish : call.IsPublish
        · -- a publication is parsed, and the loop goes on behind it
          cases call with
          | subscribe topic => exact hpublish.elim
          | unsubscribe topic => exact hpublish.elim
          | publish topic content =>
            rw [stream, List.flatMap_cons, parse_publish hcall] at hparse
            obtain ⟨rfl, hbehind⟩ := Parse.success.inj hparse
            obtain ⟨ms, error, buf', hrest, hwf', hspec⟩ :=
              ih (fun c hc => hclean c (List.mem_cons_of_mem _ hc)) hwf₁ (by omega) hbehind.symm
            rw [if_pos (.inl rfl), hrest]
            refine ⟨_, error, buf', rfl, hwf', ?_⟩
            rcases hspec with hgarbled | ⟨rfl, left, hparsed⟩
            · exact .inl (hgarbled.prepend [.publish topic content])
            · exact .inr ⟨rfl, left, hparsed.publish topic content⟩
        · have hother : ∃ c ∈ call :: calls, ¬ c.IsPublish := ⟨call, List.mem_cons_self, hpublish⟩
          split_ifs
          · obtain ⟨ms, error, buf', hrest, hwf'⟩ := receiveLoop_total hwf₁
              (show buf₁.readable.length < fuel by omega)
            rw [hrest]
            exact ⟨_, error, buf', rfl, hwf',
              .inl ⟨hother, .inr (not_prefix_of_other hcall hpublish hparse ms)⟩⟩
          · exact ⟨_, true, buf₁, rfl, hwf₁, .inl ⟨hother, .inl rfl⟩⟩

/-! ## The chunks -/

/-- A whole message is not waited for. -/
theorem parse_stream_ne_wait (hclean : call.Clean) (rest : Bytes) :
    parse (call.message ++ rest) ≠ .wait := by
  intro hwait
  cases call with
  | publish topic content => cases (parse_publish hclean rest).symm.trans hwait
  | subscribe topic =>
    rcases parse_other hclean (fun h => h) rest with herror | ⟨m, rest', -, hsuccess⟩
    · cases herror.symm.trans hwait
    · cases hsuccess.symm.trans hwait
  | unsubscribe topic =>
    rcases parse_other hclean (fun h => h) rest with herror | ⟨m, rest', -, hsuccess⟩
    · cases herror.symm.trans hwait
    · cases hsuccess.symm.trans hwait

theorem feed_spec (hclean : ∀ call ∈ calls, call.Clean) (hwf : buf.Wf)
    (hwait : parse buf.readable = .wait) {chunks : List Bytes}
    (hstream : buf.readable ++ chunks.flatten = stream calls) :
    ∃ ms error buf', feed buf chunks = .ok (ms, error, buf') ∧
      (Garbled calls ms error ∨
        error = false ∧ ms = calls.map Call.command ∧ ∀ call ∈ calls, call.IsPublish) := by
  induction chunks generalizing buf calls with
  | nil =>
    rw [List.flatten_nil, List.append_nil] at hstream
    cases calls with
    | nil => exact ⟨[], false, buf, rfl, .inr ⟨rfl, rfl, fun _ h => (by cases h)⟩⟩
    | cons call calls =>
      rw [hstream, stream, List.flatMap_cons] at hwait
      exact absurd hwait (parse_stream_ne_wait (hclean call List.mem_cons_self) _)
  | cons chunk chunks ih =>
    obtain ⟨buf₁, happend, hwf₁, hread₁⟩ := hwf.append chunk
    have hstream₁ : buf₁.readable ++ chunks.flatten = stream calls := by
      rw [hread₁, List.append_assoc, ← List.flatten_cons]
      exact hstream
    obtain ⟨ms, error, buf₂, hloop, hwf₂, hspec⟩ := receiveLoop_spec hclean hwf₁
      (show buf₁.readable.length < buf₁.readableBytes + 1 by rw [hwf₁.length_readable]; omega)
      hstream₁
    have hfeed : ∀ {ms' error' buf₃}, feed buf₂ chunks = .ok (ms', error', buf₃) →
        feed buf (chunk :: chunks) = .ok (ms ++ ms', error || error', buf₃) := by
      intro ms' error' buf₃ hrest
      rw [feed, happend, ok_bind, hloop, ok_bind]
      dsimp only
      rw [hrest]
      rfl
    rcases hspec with hgarbled | ⟨rfl, left, ⟨done, rfl, hdone, rfl⟩, hbehind, hwait₂⟩
    · obtain ⟨ms', error', buf₃, hrest⟩ := feed_total hwf₂ chunks
      exact ⟨_, _, buf₃, hfeed hrest, .inl (hgarbled.append ms' error')⟩
    · obtain ⟨ms', error', buf₃, hrest, hspec⟩ :=
        ih (fun c hc => hclean c (List.mem_append_right _ hc)) hwf₂ hwait₂ hbehind
      refine ⟨_, _, buf₃, hfeed hrest, ?_⟩
      rw [Bool.false_or]
      rcases hspec with hgarbled | ⟨rfl, rfl, hleft⟩
      · exact .inl (hgarbled.prepend done)
      · refine .inr ⟨rfl, (List.map_append).symm, fun c hc => ?_⟩
        rcases List.mem_append.1 hc with hc | hc
        · exact hdone c hc
        · exact hleft c hc

/-- Whatever the chunks, the server understands the calls exactly when all of them publish. -/
theorem understood_iff_all_publish (calls : List Call) (hclean : ∀ call ∈ calls, call.Clean)
    (chunks : List Bytes) (hchunks : chunks.flatten = stream calls) :
    Understood calls chunks ↔ ∀ call ∈ calls, call.IsPublish := by
  have hstream : Buffer.empty.readable ++ chunks.flatten = stream calls := by
    rw [Buffer.readable_empty, hchunks, List.nil_append]
  have hwait : parse Buffer.empty.readable = .wait := by
    rw [Buffer.readable_empty]
    rfl
  obtain ⟨ms, error, buf, hfeed, hspec⟩ := feed_spec hclean Buffer.wf_empty hwait hstream
  constructor
  · rintro ⟨buf', hunderstood⟩
    rw [hfeed] at hunderstood
    simp only [Except.ok.injEq, Prod.mk.injEq] at hunderstood
    obtain ⟨rfl, rfl, -⟩ := hunderstood
    rcases hspec with ⟨-, hwrong⟩ | ⟨-, -, hall⟩
    · rcases hwrong with herror | hwrong
      · cases herror
      · exact absurd List.prefix_rfl hwrong
    · exact hall
  · intro hall
    rcases hspec with ⟨⟨call, hcall, hother⟩, -⟩ | ⟨rfl, rfl, -⟩
    · exact absurd (hall call hcall) hother
    · exact ⟨buf, hfeed⟩

/-- Two publications that arrive in three pieces. -/
theorem understood_iff_all_publish_two :
    Understood [.publish (ascii "a b") (ascii "x"), .publish [] []]
      [ascii "pub a b\r", ascii "\nx\r\npub", ascii " \r\n\r\n"] :=
  (understood_iff_all_publish _ (by decide) _ (by decide)).2 fun call hcall => by
    rcases List.mem_cons.1 hcall with rfl | hcall
    · trivial
    · rw [List.mem_singleton.1 hcall]
      trivial

/-- The message of `subscribe` has no space, and that of `unsubscribe` names no command. -/
theorem subscribe_not_understood :
    ¬ Understood [.subscribe (ascii "t")] [(Call.subscribe (ascii "t")).message] ∧
      ¬ Understood [.unsubscribe (ascii "a b")] [(Call.unsubscribe (ascii "a b")).message] := by
  have hsub : (feed Buffer.empty [(Call.subscribe (ascii "t")).message]).toOption.any
      (fun r => r.2.1) := by
    decide +kernel
  have hunsub : (feed Buffer.empty [(Call.unsubscribe (ascii "a b")).message]).toOption.any
      (fun r => r.2.1) := by
    decide +kernel
  constructor
  · rintro ⟨buf, hfeed⟩
    rw [hfeed] at hsub
    cases hsub
  · rintro ⟨buf, hfeed⟩
    rw [hfeed] at hunsub
    cases hunsub

end Hub

end Reactor
