import Reactor.Session.Chunks

/-!
# The memcached benchmark

`Client` stores or looks up `requests` keys, one after the other: it sends a request when the reply to
the one before has arrived, and shuts the connection down behind the last reply.  It does not look at
a reply beyond its end.

* `Progress.step`: what one has sent reaches the other, cut anywhere; then one request is under way at
  any time, and the session answers as the protocol says.
* `Progress.next`, `Progress.le_work`: something can be delivered until all requests are answered, and
  no more than the bytes of all requests and replies is.
-/

namespace Reactor

namespace MemcacheClient

open Session

inductive Operation where
  | kGet
  | kSet
  deriving DecidableEq, Repr

/-- `Client`; `sent` and `halfClosed` are those of `conn_`. -/
structure Client where
  name : Bytes
  op : Operation
  send : ℕ
  acked : ℕ
  requests : ℕ
  keys : ℕ
  valuelen : ℕ
  value : Bytes
  sent : Bytes
  halfClosed : Bool

/-- `memmem` -/
def memmem (needle : Bytes) : Bytes → Option ℕ
  | [] => if needle = [] then some 0 else none
  | b :: xs => if needle <+: b :: xs then some 0 else (memmem needle xs).map (· + 1)

namespace Client

def new (name : Bytes) (op : Operation) (requests keys valuelen : ℕ) : Client where
  name := name
  op := op
  send := 0
  acked := 0
  requests := requests
  keys := keys
  valuelen := valuelen
  value := List.replicate valuelen 97 ++ crlf
  sent := []
  halfClosed := false

def fill (c : Client) (buf : Buffer) : Except Fault (Buffer × Client) :=
  match c.op with
  | .kSet => do
    let req := snprintf 255 (ascii "set " ++ c.name ++ decimal (c.send % c.keys) ++ ascii " 42 0 " ++
      decimal c.valuelen ++ crlf)
    let buf ← buf.appendPiece (.ofString req)
    let buf ← buf.appendPiece (.ofString c.value)
    return (buf, { c with send := c.send + 1 })
  | .kGet => do
    let req := snprintf 255 (ascii "get " ++ c.name ++ decimal (c.send % c.keys) ++ crlf)
    let buf ← buf.appendPiece (.ofString req)
    return (buf, { c with send := c.send + 1 })

/-- `send()` -/
def sendRequest (c : Client) : Except Fault Client := do
  let (buf, c) ← c.fill Buffer.empty
  return if c.halfClosed then c else { c with sent := c.sent ++ buf.readable }

/-- What the loop does behind a reply. -/
def acknowledge (c : Client) : Except Fault Client :=
  let c := { c with acked := c.acked + 1 }
  if c.send < c.requests then c.sendRequest else .ok c

/-- What the loop of `onMessage` looks for: the position behind a reply. -/
def replyEnd (c : Client) (buf : Buffer) : Option ℕ :=
  match c.op with
  | .kSet => buf.findCRLF.map (· + 2)
  | .kGet => (memmem (ascii "END\r\n") buf.readable).map (buf.peek + · + 5)

/-- The loops of `onMessage`, which differ in what they look for. -/
def messageLoop : ℕ → Client → Buffer → Except Fault (Client × Buffer)
  | 0, _, _ => .error .outOfFuel
  | fuel + 1, c, buf =>
    if 0 < buf.readableBytes then
      match c.replyEnd buf with
      | some last => do
        let buf ← buf.retrieveUntil last
        messageLoop fuel (← c.acknowledge) buf
      | none => return (c, buf)
    else return (c, buf)

def onMessage (c : Client) (buf : Buffer) : Except Fault (Client × Buffer) := do
  let (c, buf) ← messageLoop (buf.readableBytes + 1) c buf
  return (if c.acked = c.requests then { c with halfClosed := true } else c, buf)

end Client

/-! ## The client and the session -/

variable (hashRange : Bytes → ℕ)

/-- A client and its session, how much of what the one has sent the other has got, and what each has
in its buffer. -/
structure Exchange where
  client : Client
  clientBuf : Buffer
  session : Session
  sessionBuf : Buffer
  taken : ℕ
  got : ℕ

namespace Exchange

/-- The bytes that the client has sent and the session has not got. -/
def forSession (s : Exchange) : Bytes := s.client.sent.drop s.taken

/-- The bytes that the session has sent and the client has not got. -/
def forClient (s : Exchange) : Bytes := s.session.sent.drop s.got

end Exchange

/-- So many bytes are delivered. -/
inductive Delivery where
  | session (n : ℕ)
  | client (n : ℕ)

def Exchange.deliver (s : Exchange) : Delivery → Except Fault Exchange
  | .session n => do
    let (session, buf) ← (chunkMachine hashRange).step (s.session, s.sessionBuf) (s.forSession.take n)
    return { s with session := session, sessionBuf := buf, taken := s.taken + n }
  | .client n => do
    let (client, buf) ← s.client.onMessage (← s.clientBuf.append (s.forClient.take n))
    return { s with client := client, clientBuf := buf, got := s.got + n }

def Exchange.Offers (s : Exchange) : Delivery → Prop
  | .session n => 0 < n ∧ n ≤ s.forSession.length
  | .client n => 0 < n ∧ n ≤ s.forClient.length

/-! ## Requests -/

/-- The options of `main` are in range, and the name makes a key. -/
structure Proper (c : Client) : Prop where
  length_name : c.name.length ≤ 200
  name : ∀ b ∈ c.name, 32 < b ∧ b ≠ 127
  keys_pos : 0 < c.keys
  keys_lt : c.keys < 2 ^ 31
  valuelen : c.valuelen ≤ 1024 * 1024
  value : c.value = List.replicate c.valuelen 97 ++ crlf

namespace Client

def key (c : Client) (i : ℕ) : Bytes := c.name ++ decimal (i % c.keys)

/-- The request that follows `i` others. -/
def command (c : Client) (i : ℕ) : Command :=
  match c.op with
  | .kSet => .update ⟨.set, c.key i, ascii "42", ascii "0", decimal c.valuelen, false,
      List.replicate c.valuelen 97⟩
  | .kGet => .get false [c.key i]

/-- The first requests. -/
def commands (c : Client) (n : ℕ) : List Command := (List.range n).map c.command

/-- The reply to a request. -/
def reply (c : Client) : Bytes :=
  match c.op with
  | .kSet => ascii "STORED\r\n"
  | .kGet => ascii "END\r\n"

end Client

variable {hashRange} {c : Client} {buf : Buffer}

theorem isDigits_decimal (n : ℕ) : IsDigits (decimal n) :=
  ⟨decimal_ne_nil n, fun _ hb => decide_eq_true (digit_of_mem_decimal hb)⟩

theorem isKey_key (h : Proper c) (i : ℕ) : IsKey (c.key i) := by
  have hlt : i % c.keys < 10 ^ 10 := by
    have hkeys := h.keys_lt
    have hmod := Nat.mod_lt i h.keys_pos
    omega
  have hdigits := length_decimal_le (by decide) hlt
  have hname := h.length_name
  refine ⟨List.append_ne_nil_of_right_ne_nil _ (decimal_ne_nil _), ?_, fun b hb => ?_⟩
  · show (c.name ++ decimal (i % c.keys)).length ≤ 250
    rw [List.length_append]
    omega
  · rcases List.mem_append.1 hb with hb | hb
    · exact h.name b hb
    · obtain ⟨hlow, hhigh⟩ := digit_of_mem_decimal hb
      refine ⟨UInt8.lt_of_lt_of_le (by decide) hlow, ?_⟩
      rintro rfl
      exact absurd hhigh (by decide)

theorem wellFormed_command (h : Proper c) (i : ℕ) : (c.command i).WellFormed := by
  have hkey := isKey_key h i
  unfold Client.command
  cases c.op with
  | kSet =>
    have hbytes : ofDecimal (decimal c.valuelen) = (List.replicate c.valuelen (97 : Byte)).length := by
      rw [ofDecimal_decimal, List.length_replicate]
    have hflags : IsDigits (ascii "42") ∧ ofDecimal (ascii "42") < 2 ^ 32 := by decide +kernel
    have hexptime : IsTime (ascii "0") := by decide +kernel
    have htoken : ∀ token ∈ Verb.set.args, IsDigits token ∧ ofDecimal token < 2 ^ 64 := by decide
    exact ⟨hkey, hflags, hexptime, ⟨isDigits_decimal _, hbytes⟩, htoken⟩
  | kGet =>
    refine ⟨List.cons_ne_nil _ _, fun key hmem => ?_⟩
    rw [List.mem_singleton.1 hmem]
    exact hkey

/-- The line of a request as `fill` writes it. -/
theorem line_command (c : Client) (i : ℕ) : (c.command i).line ++ crlf =
    match c.op with
    | .kSet => ascii "set " ++ c.name ++ decimal (i % c.keys) ++ ascii " 42 0 " ++
        decimal c.valuelen ++ crlf
    | .kGet => ascii "get " ++ c.name ++ decimal (i % c.keys) ++ crlf := by
  unfold Client.command
  cases c.op with
  | kSet =>
    have hset : ascii "set " = ascii "set" ++ [32] := by decide
    have hzero : ascii " 42 0 " = [32] ++ (ascii "42" ++ ([32] ++ (ascii "0" ++ [32]))) := by decide
    have hname : Verb.name .set = ascii "set" := rfl
    simp only [Command.line, Command.name, Command.args, Verb.args, noreplyWords, Client.key, hset, hzero,
      hname, List.intercalate_cons_cons, List.intercalate_singleton, List.append_assoc,
      if_neg Bool.false_ne_true, List.append_nil]
  | kGet =>
    have hget : ascii "get " = ascii "get" ++ [32] := by decide
    simp only [Command.line, Command.name, Command.args, Client.key, hget, List.intercalate_cons_cons,
      List.intercalate_singleton, List.append_assoc, if_neg Bool.false_ne_true]

theorem length_line (h : Proper c) (i : ℕ) : ((c.command i).line ++ crlf).length ≤ 254 := by
  have hkey : (c.name ++ decimal (i % c.keys)).length ≤ 210 := by
    have hlt : i % c.keys < 10 ^ 10 := by
      have hkeys := h.keys_lt
      have hmod := Nat.mod_lt i h.keys_pos
      omega
    have hdigits := length_decimal_le (by decide) hlt
    have hname := h.length_name
    rw [List.length_append]
    omega
  have hvaluelen : (decimal c.valuelen).length ≤ 7 := by
    have hle := h.valuelen
    exact length_decimal_le (by decide) (by omega)
  have hset : (ascii "set ").length = 4 := by decide
  have hget : (ascii "get ").length = 4 := by decide
  have hzero : (ascii " 42 0 ").length = 6 := by decide
  have hcrlf : crlf.length = 2 := rfl
  rw [List.length_append] at hkey
  rw [line_command]
  cases c.op with
  | kSet =>
    simp only [List.length_append, hset, hzero, hcrlf]
    omega
  | kGet =>
    simp only [List.length_append, hget, hcrlf]
    omega

theorem fits_command (h : Proper c) (i : ℕ) : Fits (c.command i) := by
  refine ⟨wellFormed_command h i, ?_⟩
  have hle := length_line h i
  rw [List.length_append] at hle
  omega

theorem no_nul_line (h : Proper c) (i : ℕ) : 0 ∉ (c.command i).line ++ crlf := by
  have hname : 0 ∉ c.name := fun hmem => absurd (h.name 0 hmem).1 (by decide)
  have hdigits : ∀ n, 0 ∉ decimal n := fun n hmem => absurd (digit_of_mem_decimal hmem).1 (by decide)
  have hset : 0 ∉ ascii "set " := by decide
  have hget : 0 ∉ ascii "get " := by decide
  have hzero : 0 ∉ ascii " 42 0 " := by decide
  have hcrlf : 0 ∉ crlf := by decide
  rw [line_command]
  cases c.op with
  | kSet =>
    simp only [List.mem_append, hset, hname, hdigits, hzero, hcrlf, or_self, not_false_eq_true]
  | kGet =>
    simp only [List.mem_append, hget, hname, hdigits, hcrlf, or_self, not_false_eq_true]

/-- A request as a connection takes it from another thread. -/
theorem text_command (h : Proper c) (i : ℕ) :
    (c.command i).text.length < 2 ^ 31 ∧ 0 ∉ (c.command i).text := by
  have hlength := length_line h i
  have hnul := no_nul_line h i
  have hvaluelen := h.valuelen
  have hcrlf : crlf.length = 2 := rfl
  have hend : 0 ∉ crlf := by decide
  generalize hline : (c.command i).line ++ crlf = line at hlength hnul
  unfold Command.text
  rw [hline]
  unfold Client.command
  cases c.op with
  | kSet =>
    dsimp only [Command.block]
    rw [List.length_append, List.length_append, List.length_replicate, hcrlf, List.mem_append,
      List.mem_append, List.mem_replicate, not_or, not_or]
    exact ⟨by omega, hnul, fun hmem => absurd hmem.2 (by decide), hend⟩
  | kGet =>
    dsimp only [Command.block]
    rw [List.append_nil]
    exact ⟨by omega, hnul⟩

/-- Text without a NUL byte is appended as it is. -/
theorem appendPiece_text (hwf : buf.Wf) {text : Bytes} (hlength : text.length < 2 ^ 31)
    (hnul : 0 ∉ text) :
    ∃ buf', buf.appendPiece (.ofString text) = .ok buf' ∧ buf'.Wf ∧
      buf'.readable = buf.readable ++ text := by
  obtain ⟨buf', happend, hwf', hread⟩ := hwf.append text
  refine ⟨buf', ?_, hwf', hread⟩
  rw [Buffer.appendPiece, StringPiece.read_ofString hlength, cString_eq_self_iff.2 hnul, ok_bind]
  exact happend

/-- The next request is sent. -/
theorem sendRequest_eq (h : Proper c) (hopen : c.halfClosed = false) :
    c.sendRequest = .ok { c with
      send := c.send + 1
      sent := c.sent ++ (c.command c.send).text } := by
  have hlength := length_line h c.send
  have hnul := no_nul_line h c.send
  have hline := line_command c c.send
  obtain ⟨b₁, hb₁, hwf₁, hread₁⟩ := appendPiece_text Buffer.wf_empty
    (Nat.lt_of_le_of_lt hlength (by decide)) hnul
  rw [Buffer.readable_empty, List.nil_append] at hread₁
  have hcut : snprintf 255 ((c.command c.send).line ++ crlf) = (c.command c.send).line ++ crlf :=
    List.take_of_length_le hlength
  unfold Client.sendRequest Client.fill
  cases hop : c.op with
  | kSet =>
    rw [hop] at hline
    have hvalue : 0 ∉ c.value := by
      rw [h.value, List.mem_append, List.mem_replicate]
      rintro (⟨-, hmem⟩ | hmem)
      · exact absurd hmem (by decide)
      · exact absurd hmem (by decide)
    have hle : c.value.length < 2 ^ 31 := by
      have hvaluelen := h.valuelen
      have hcrlf : crlf.length = 2 := rfl
      rw [h.value, List.length_append, List.length_replicate, hcrlf]
      omega
    obtain ⟨b₂, hb₂, hwf₂, hread₂⟩ := appendPiece_text hwf₁ hle hvalue
    have htext : (c.command c.send).text = b₂.readable := by
      rw [hread₂, hread₁, h.value, Command.text]
      unfold Client.command
      rw [hop]
      rfl
    dsimp only at hline ⊢
    rw [← hline, hcut, hb₁, ok_bind, hb₂, ok_bind, pure_bind, htext]
    dsimp only
    rw [if_neg (by rw [hopen]; decide)]
    rfl
  | kGet =>
    rw [hop] at hline
    have htext : (c.command c.send).text = b₁.readable := by
      rw [hread₁, Command.text]
      unfold Client.command
      rw [hop]
      exact List.append_nil _
    dsimp only at hline ⊢
    rw [← hline, hcut, hb₁, ok_bind, pure_bind, htext]
    dsimp only
    rw [if_neg (by rw [hopen]; decide)]
    rfl

/-! ## Replies -/

theorem replyEnd_whole (hread : buf.readable = c.reply) :
    c.replyEnd buf = some (buf.peek + c.reply.length) := by
  have hset : Buffer.searchCRLF (ascii "STORED\r\n") = some 6 := by decide +kernel
  have hget : memmem (ascii "END\r\n") (ascii "END\r\n") = some 0 := by decide +kernel
  unfold Client.reply at hread ⊢
  unfold Client.replyEnd
  cases hop : c.op with
  | kSet =>
    rw [hop] at hread
    dsimp only at hread ⊢
    rw [Buffer.findCRLF, hread, hset]
    rfl
  | kGet =>
    rw [hop] at hread
    dsimp only at hread ⊢
    rw [hread, hget]
    rfl

theorem replyEnd_part (hread : buf.readable <+: c.reply) (hless : buf.readable.length < c.reply.length) :
    c.replyEnd buf = none := by
  have hset : ∀ n < 8, Buffer.searchCRLF ((ascii "STORED\r\n").take n) = none := by decide +kernel
  have hget : ∀ n < 5, memmem (ascii "END\r\n") ((ascii "END\r\n").take n) = none := by decide +kernel
  have htake := List.prefix_iff_eq_take.1 hread
  unfold Client.reply at htake hless
  unfold Client.replyEnd
  cases hop : c.op with
  | kSet =>
    rw [hop] at htake hless
    dsimp only at htake hless ⊢
    rw [Buffer.findCRLF, htake, hset _ hless]
    rfl
  | kGet =>
    rw [hop] at htake hless
    dsimp only at htake hless ⊢
    rw [htake, hget _ hless]
    rfl

theorem reply_ne_nil (c : Client) : c.reply ≠ [] := by
  unfold Client.reply
  cases c.op <;> decide

/-- A part of a reply is left in the buffer. -/
theorem onMessage_part (hread : buf.readable <+: c.reply)
    (hless : buf.readable.length < c.reply.length) (hmore : c.acked ≠ c.requests) :
    c.onMessage buf = .ok (c, buf) := by
  have hloop : Client.messageLoop (buf.readableBytes + 1) c buf = .ok (c, buf) := by
    rw [Client.messageLoop, replyEnd_part hread hless]
    exact ite_self _
  unfold Client.onMessage
  rw [hloop, ok_bind]
  dsimp only
  rw [if_neg hmore]
  rfl

/-- The client that has sent `k + 1` requests and has `k` replies. -/
def Client.waiting (c : Client) (k : ℕ) : Client :=
  { c with send := k + 1, acked := k, sent := texts (c.commands (k + 1)), halfClosed := false }

/-- The client that has all replies. -/
def Client.finished (c : Client) : Client :=
  { c with
    send := c.requests
    acked := c.requests
    sent := texts (c.commands c.requests)
    halfClosed := true }

theorem Proper.waiting (h : Proper c) (k : ℕ) : Proper (c.waiting k) :=
  ⟨h.length_name, h.name, h.keys_pos, h.keys_lt, h.valuelen, h.value⟩

theorem texts_commands_succ (c : Client) (n : ℕ) :
    texts (c.commands (n + 1)) = texts (c.commands n) ++ (c.command n).text := by
  unfold texts Client.commands
  rw [List.range_succ, List.map_append, List.flatMap_append]
  exact congrArg (_ ++ ·) (List.flatMap_singleton ..)

theorem acknowledge_waiting (h : Proper c) {k : ℕ} (hk : k < c.requests) :
    (c.waiting k).acknowledge =
      .ok (if k + 1 < c.requests then c.waiting (k + 1) else { c.finished with halfClosed := false }) := by
  unfold Client.acknowledge
  dsimp only
  by_cases hmore : k + 1 < c.requests
  · have hsend := sendRequest_eq (c := { c.waiting k with acked := k + 1 })
      ⟨h.length_name, h.name, h.keys_pos, h.keys_lt, h.valuelen, h.value⟩ rfl
    have hnext : c.waiting (k + 1) = { c.waiting k with
        acked := k + 1
        send := k + 1 + 1
        sent := texts (c.commands (k + 1)) ++ (c.command (k + 1)).text } := by
      rw [← texts_commands_succ]
      rfl
    rw [if_pos (by exact hmore), if_pos hmore, hnext]
    exact hsend
  · have hlast : k + 1 = c.requests := by omega
    have hend : { c.waiting k with acked := k + 1 } = { c.finished with halfClosed := false } := by
      unfold Client.finished Client.waiting
      rw [hlast]
    rw [if_neg (by exact hmore), if_neg hmore, ← hend]
    rfl

/-- A reply is there: the next request is sent, or the connection is shut down. -/
theorem onMessage_whole (h : Proper c) {k : ℕ} (hk : k < c.requests) (hwf : buf.Wf)
    (hread : buf.readable = c.reply) :
    ∃ buf', (c.waiting k).onMessage buf =
        .ok (if k + 1 < c.requests then c.waiting (k + 1) else c.finished, buf') ∧
      buf'.Wf ∧ buf'.readable = [] := by
  have hlength : c.reply.length = buf.readableBytes := by
    rw [← hwf.length_readable, hread]
  have hpos : 0 < buf.readableBytes := by
    rw [← hlength]
    exact List.length_pos_iff.2 (reply_ne_nil c)
  obtain ⟨buf', hretrieve, hwf', hread'⟩ := hwf.retrieveUntil (Nat.le_refl buf.readableBytes)
  rw [← hwf.length_readable, List.drop_length] at hread'
  have hempty : buf'.readableBytes = 0 := by
    rw [← hwf'.length_readable, hread']
    rfl
  have hend : (c.waiting k).replyEnd buf = some (buf.peek + buf.readableBytes) := by
    rw [← hlength]
    exact replyEnd_whole hread
  have hdone : ∀ (c' : Client) (fuel : ℕ), 0 < fuel →
      Client.messageLoop fuel c' buf' = .ok (c', buf') := by
    intro c' fuel hfuel
    obtain ⟨fuel, rfl⟩ : ∃ n, fuel = n + 1 := ⟨fuel - 1, by omega⟩
    rw [Client.messageLoop, if_neg (by omega)]
    rfl
  refine ⟨buf', ?_, hwf', hread'⟩
  unfold Client.onMessage
  rw [Client.messageLoop, if_pos hpos, hend]
  dsimp only
  rw [hretrieve, ok_bind, acknowledge_waiting h hk, ok_bind, hdone _ _ hpos, ok_bind]
  by_cases hmore : k + 1 < c.requests
  · rw [if_pos hmore, if_pos hmore, if_neg (by exact Nat.ne_of_lt hmore)]
    rfl
  · rw [if_neg hmore, if_neg hmore, if_pos (by exact rfl)]
    rfl

/-! ## What the session answers -/

/-- The dialogue after so many requests. -/
def dialogue (startTime : ℤ) (m : CasMap) (c : Client) : ℕ → Dialogue
  | 0 => ⟨[], m⟩
  | k + 1 => (dialogue startTime m c k).next startTime (c.command k)

/-- What is looked up is not there. -/
def Misses (m : CasMap) (c : Client) : Prop := c.op = .kGet → ∀ i, m.map (c.key i) = none

variable {startTime : ℤ} {m : CasMap}

theorem serve_command (h : Proper c) (hmiss : Misses m c) (i : ℕ) :
    ((c.command i).serve startTime m).1 = c.reply ∧
      (c.op = .kGet → ((c.command i).serve startTime m).2 = m) := by
  unfold Client.command Client.reply
  cases hop : c.op with
  | kSet =>
    have hsmall : ¬ 1024 * 1024 < (List.replicate c.valuelen (97 : Byte)).length := by
      rw [List.length_replicate]
      exact Nat.not_lt.2 h.valuelen
    refine ⟨?_, fun hget => (by cases hget)⟩
    dsimp only [Command.serve, unlessNoreply, Update.serve]
    rw [if_neg Bool.false_ne_true, if_neg hsmall, if_pos (by rfl)]
  | kGet =>
    dsimp only [Command.serve]
    rw [List.flatMap_singleton, hmiss hop i]
    exact ⟨rfl, fun _ => rfl⟩

theorem served_command (h : Proper c) {t : Dialogue} (hmiss : Misses t.store c) (i : ℕ) :
    Served t (c.command i) := by
  have hlength := length_line h i
  rw [List.length_append] at hlength
  refine ⟨by omega, ?_⟩
  unfold Client.command
  cases hop : c.op with
  | kSet =>
    have hvaluelen := h.valuelen
    refine ⟨rfl, ?_, fun _ => ⟨by simp, fun happend => (by cases happend)⟩⟩
    rw [List.length_replicate]
    omega
  | kGet =>
    intro key hkey
    rw [List.mem_singleton.1 hkey]
    exact hmiss hop i

theorem misses_dialogue (h : Proper c) (hmiss : Misses m c) (k : ℕ) :
    Misses (dialogue startTime m c k).store c := by
  induction k with
  | zero => exact hmiss
  | succ k ih =>
    intro hop i
    have hstore : ((c.command k).serve startTime (dialogue startTime m c k).store).2 =
        (dialogue startTime m c k).store := (serve_command h ih k).2 hop
    show ((c.command k).serve startTime (dialogue startTime m c k).store).2.map (c.key i) = none
    rw [hstore]
    exact ih hop i

theorem sent_dialogue_succ (h : Proper c) (hmiss : Misses m c) (k : ℕ) :
    (dialogue startTime m c (k + 1)).sent = (dialogue startTime m c k).sent ++ c.reply :=
  congrArg (_ ++ ·) (serve_command h (misses_dialogue h hmiss k) k).1

theorem length_dialogue (h : Proper c) (hmiss : Misses m c) (k : ℕ) :
    (dialogue startTime m c k).sent.length = k * c.reply.length := by
  induction k with
  | zero => exact (Nat.zero_mul _).symm
  | succ k ih => rw [sent_dialogue_succ h hmiss, List.length_append, ih, Nat.succ_mul]

theorem run_commands (startTime : ℤ) (m : CasMap) (c : Client) (k : ℕ) :
    (protocolMachine startTime).run ⟨[], m⟩ (c.commands k) = .ok (dialogue startTime m c k) := by
  induction k with
  | zero => rfl
  | succ k ih =>
    unfold Client.commands at ih ⊢
    rw [List.range_succ, List.map_append, Machine.run_append ih]
    rfl

/-- A session that has nothing to answer. -/
theorem idle_of_stage {s : Session} {t : Dialogue} {todo : Bytes}
    (h : Stage hashRange startTime s t [] todo) : todo = [] ∧ Ready hashRange startTime s t := by
  cases h with
  | ready _ _ _ h => exact ⟨rfl, h⟩

theorem sent_of_stage {s : Session} {t : Dialogue} {cs : List Command} {todo : Bytes}
    (h : Stage hashRange startTime s t cs todo)
    (hsmall : ∀ u, Command.update u ∈ cs → u.data.length ≤ 1024 * 1024) : s.sent = t.sent := by
  cases h with
  | ready _ _ _ h => exact h.sent
  | receiving s _ u cs received _ h => exact h.sent
  | discarding s _ u cs skipped _ h hlarge =>
    exact absurd (hsmall u List.mem_cons_self) (Nat.not_le.2 hlarge)

theorem small_command (h : Proper c) (i : ℕ) :
    ∀ u, Command.update u ∈ [c.command i] → u.data.length ≤ 1024 * 1024 := by
  intro u hu
  have heq := List.mem_singleton.1 hu
  unfold Client.command at heq
  cases hop : c.op with
  | kSet =>
    rw [hop] at heq
    obtain rfl := Command.update.inj heq
    rw [List.length_replicate]
    exact h.valuelen
  | kGet =>
    rw [hop] at heq
    cases heq

/-! ## One request at a time -/

/-- The request `k` is on its way to the session. -/
structure Asking (hashRange : Bytes → ℕ) (startTime : ℤ) (m : CasMap) (c : Client) (k : ℕ)
    (s : Exchange) : Prop where
  lt : k < c.requests
  client : s.client = c.waiting k
  clientBuf : s.clientBuf.Wf
  empty : s.clientBuf.readable = []
  paused : Paused hashRange startTime s.session s.sessionBuf (dialogue startTime m c k) [c.command k]
    s.forSession
  forClient : s.forClient = []

/-- The reply to the request `k` is on its way to the client. -/
structure Answering (hashRange : Bytes → ℕ) (startTime : ℤ) (m : CasMap) (c : Client) (k : ℕ)
    (s : Exchange) : Prop where
  lt : k < c.requests
  client : s.client = c.waiting k
  clientBuf : s.clientBuf.Wf
  ready : Ready hashRange startTime s.session (dialogue startTime m c (k + 1))
  sessionBuf : s.sessionBuf.Wf ∧ s.sessionBuf.readable = []
  forSession : s.forSession = []
  reply : s.clientBuf.readable ++ s.forClient = c.reply
  more : s.forClient ≠ []

structure Ended (hashRange : Bytes → ℕ) (startTime : ℤ) (m : CasMap) (c : Client) (s : Exchange) :
    Prop where
  client : s.client = c.finished
  ready : Ready hashRange startTime s.session (dialogue startTime m c c.requests)
  forSession : s.forSession = []
  forClient : s.forClient = []

def Progress (hashRange : Bytes → ℕ) (startTime : ℤ) (m : CasMap) (c : Client) (s : Exchange) : Prop :=
  (∃ k, Asking hashRange startTime m c k s ∨ Answering hashRange startTime m c k s) ∨
    Ended hashRange startTime m c s

/-- No more is delivered than was sent. -/
structure Bounded (s : Exchange) : Prop where
  taken : s.taken ≤ s.client.sent.length
  got : s.got ≤ s.session.sent.length

/-- What is sent stays sent. -/
structure Grows (s s' : Exchange) : Prop where
  client : s.client.sent <+: s'.client.sent
  session : s.session.sent <+: s'.session.sent

variable {s s' : Exchange} {k n : ℕ}

theorem Asking.deliver (h : Asking hashRange startTime m c k s) (hc : Proper c) (hmiss : Misses m c)
    (hb : Bounded s) (hE : s.Offers (.session n)) :
    ∃ s', s.deliver hashRange (.session n) = .ok s' ∧ Progress hashRange startTime m c s' ∧ Bounded s' ∧
      s'.taken = s.taken + n ∧ s'.got = s.got ∧ Grows s s' := by
  have hsent : s.session.sent = (dialogue startTime m c k).sent :=
    sent_of_stage h.paused.stage (small_command hc k)
  have hserved : (protocolMachine startTime).Along Served (dialogue startTime m c k) [c.command k] :=
    ⟨served_command hc (misses_dialogue hc hmiss k) k, fun _ _ => trivial⟩
  have hfits : ∀ c' ∈ [c.command k], Fits c' := fun c' hc' => by
    rw [List.mem_singleton.1 hc']
    exact fits_command hc k
  have hpaused := h.paused
  rw [← List.take_append_drop n s.forSession] at hpaused
  obtain ⟨session, buf, done, cs, t, hstep, hcs, hrun, hpaused'⟩ := hpaused.chunk hfits hserved
  have hto : s.client.sent.drop (s.taken + n) = s.forSession.drop n := List.drop_drop.symm
  have htaken : s.taken + n ≤ s.client.sent.length := by
    have hle := hE.2
    unfold Exchange.forSession at hle
    rw [List.length_drop] at hle
    have := hb.taken
    omega
  refine ⟨{ s with session := session, sessionBuf := buf, taken := s.taken + n },
    bind_eq_ok.2 ⟨_, hstep, rfl⟩, ?_⟩
  have hgot : s.got ≤ (dialogue startTime m c k).sent.length := by
    rw [← hsent]
    exact hb.got
  have hall : (dialogue startTime m c k).sent.drop s.got = [] := by
    rw [← hsent]
    exact h.forClient
  cases done with
  | nil =>
    -- The request is not complete.
    obtain rfl : [c.command k] = cs := hcs
    obtain rfl : dialogue startTime m c k = t := Except.ok.inj hrun
    have hsent' : session.sent = (dialogue startTime m c k).sent :=
      sent_of_stage hpaused'.stage (small_command hc k)
    have hsame : s.session.sent = session.sent := hsent.trans hsent'.symm
    rw [← hto] at hpaused'
    rw [← hsent'] at hgot hall
    exact ⟨Or.inl ⟨k, Or.inl ⟨h.lt, h.client, h.clientBuf, h.empty, hpaused', hall⟩⟩,
      ⟨htaken, hgot⟩, rfl, rfl, List.prefix_rfl, ⟨[], by rw [hsame, List.append_nil]⟩⟩
  | cons first done =>
    -- The request is complete, and answered.
    obtain ⟨rfl, hnil⟩ := List.cons.inj hcs
    obtain ⟨rfl, rfl⟩ := List.append_eq_nil_iff.1 hnil.symm
    obtain rfl : dialogue startTime m c (k + 1) = t := Except.ok.inj hrun
    obtain ⟨hempty, hready⟩ := idle_of_stage hpaused'.stage
    obtain ⟨hbuf, hwire⟩ := List.append_eq_nil_iff.1 hempty
    have hsent' : session.sent = (dialogue startTime m c k).sent ++ c.reply :=
      hready.sent.trans (sent_dialogue_succ hc hmiss k)
    have hreply : session.sent.drop s.got = c.reply := by
      rw [hsent', List.drop_append_of_le_length hgot, hall, List.nil_append]
    have hgot' : s.got ≤ session.sent.length := by
      rw [hsent', List.length_append]
      omega
    refine ⟨Or.inl ⟨k, Or.inr ⟨h.lt, h.client, h.clientBuf, hready, ⟨hpaused'.wf, hbuf⟩, hto.trans hwire,
      ?_, ?_⟩⟩, ⟨htaken, hgot'⟩, rfl, rfl, List.prefix_rfl, ⟨c.reply, ?_⟩⟩
    · rw [h.empty]
      exact hreply
    · show session.sent.drop s.got ≠ []
      rw [hreply]
      exact reply_ne_nil c
    · rw [hsent]
      exact hsent'.symm

/-- All requests are at the session. -/
theorem Answering.taken_eq (h : Answering hashRange startTime m c k s) (hb : Bounded s) :
    s.taken = (c.waiting k).sent.length := by
  have hle := List.drop_eq_nil_iff.1 h.forSession
  have hbound := hb.taken
  rw [h.client] at hle hbound
  omega

/-- A part of the reply is left in the buffer. -/
theorem Answering.part (h : Answering hashRange startTime m c k s) (hb : Bounded s) (hwf : buf.Wf)
    (hcut : buf.readable ++ s.forClient.drop n = c.reply) (hpart : n < s.forClient.length)
    (hgot : s.got + n ≤ s.session.sent.length) :
    s.client.onMessage buf = .ok (s.client, buf) ∧
      Answering hashRange startTime m c k { s with clientBuf := buf, got := s.got + n } ∧
      Bounded { s with clientBuf := buf, got := s.got + n } := by
  have hto : s.session.sent.drop (s.got + n) = s.forClient.drop n := List.drop_drop.symm
  have hmore : s.forClient.drop n ≠ [] := fun hnil => by
    have hle := List.drop_eq_nil_iff.1 hnil
    omega
  have hless : buf.readable.length < c.reply.length := by
    rw [← hcut, List.length_append]
    have hpos := List.length_pos_iff.2 hmore
    omega
  refine ⟨?_, ⟨h.lt, h.client, hwf, h.ready, h.sessionBuf, h.forSession, ?_, ?_⟩, hb.taken, hgot⟩
  · rw [h.client]
    exact onMessage_part ⟨_, hcut⟩ hless (Nat.ne_of_lt h.lt)
  · exact (congrArg (_ ++ ·) hto).trans hcut
  · exact fun hnil => hmore (hto.symm.trans hnil)

/-- The client has the reply and sends the next request. -/
theorem Answering.ask (h : Answering hashRange startTime m c k s) (hb : Bounded s)
    (hmore : k + 1 < c.requests) (hwf : buf.Wf) (hempty : buf.readable = [])
    (hnil : s.forClient.drop n = []) (hgot : s.got + n ≤ s.session.sent.length) :
    Asking hashRange startTime m c (k + 1)
        { s with client := c.waiting (k + 1), clientBuf := buf, got := s.got + n } ∧
      Bounded { s with client := c.waiting (k + 1), clientBuf := buf, got := s.got + n } ∧
      s.client.sent <+: (c.waiting (k + 1)).sent := by
  have htaken := h.taken_eq hb
  have hto : s.session.sent.drop (s.got + n) = s.forClient.drop n := List.drop_drop.symm
  have hnew : (c.waiting (k + 1)).sent = (c.waiting k).sent ++ (c.command (k + 1)).text :=
    texts_commands_succ c (k + 1)
  have hrest : (c.waiting (k + 1)).sent.drop s.taken = (c.command (k + 1)).text := by
    rw [hnew, htaken, List.drop_left]
  have hpaused : Paused hashRange startTime s.session s.sessionBuf (dialogue startTime m c (k + 1))
      [c.command (k + 1)] ((c.waiting (k + 1)).sent.drop s.taken) := by
    refine ⟨?_, h.sessionBuf.1, Or.inl h.sessionBuf.2⟩
    rw [hrest, h.sessionBuf.2, ← List.flatMap_singleton (f := Command.text) (c.command (k + 1))]
    exact .ready _ _ _ h.ready
  refine ⟨⟨hmore, rfl, hwf, hempty, hpaused, hto.trans hnil⟩, ⟨?_, hgot⟩,
    ⟨(c.command (k + 1)).text, ?_⟩⟩
  · show s.taken ≤ (c.waiting (k + 1)).sent.length
    rw [htaken, hnew, List.length_append]
    omega
  · rw [h.client]
    exact hnew.symm

/-- The client has the last reply. -/
theorem Answering.finish (h : Answering hashRange startTime m c k s) (hb : Bounded s)
    (hlast : ¬ k + 1 < c.requests) (hnil : s.forClient.drop n = [])
    (hgot : s.got + n ≤ s.session.sent.length) :
    Ended hashRange startTime m c { s with client := c.finished, clientBuf := buf, got := s.got + n } ∧
      Bounded { s with client := c.finished, clientBuf := buf, got := s.got + n } ∧
      s.client.sent <+: c.finished.sent := by
  have htaken := h.taken_eq hb
  have hto : s.session.sent.drop (s.got + n) = s.forClient.drop n := List.drop_drop.symm
  have hrequests : k + 1 = c.requests := by
    have hlt := h.lt
    omega
  have hsame : c.finished.sent = (c.waiting k).sent := by
    show texts (c.commands c.requests) = texts (c.commands (k + 1))
    rw [hrequests]
  have hready := h.ready
  rw [hrequests] at hready
  refine ⟨⟨rfl, hready, ?_, hto.trans hnil⟩, ⟨?_, hgot⟩, ⟨[], ?_⟩⟩
  · show c.finished.sent.drop s.taken = []
    rw [hsame, htaken, List.drop_length]
  · show s.taken ≤ c.finished.sent.length
    rw [hsame, htaken]
  · rw [h.client, List.append_nil]
    exact hsame.symm

theorem Answering.deliver (h : Answering hashRange startTime m c k s) (hc : Proper c)
    (hb : Bounded s) (hE : s.Offers (.client n)) :
    ∃ s', s.deliver hashRange (.client n) = .ok s' ∧ Progress hashRange startTime m c s' ∧ Bounded s' ∧
      s'.taken = s.taken ∧ s'.got = s.got + n ∧ Grows s s' := by
  obtain ⟨buf, happend, hwf, hread⟩ := h.clientBuf.append (s.forClient.take n)
  have hgot : s.got + n ≤ s.session.sent.length := by
    have hle := hE.2
    unfold Exchange.forClient at hle
    rw [List.length_drop] at hle
    have := hb.got
    omega
  have hcut : buf.readable ++ s.forClient.drop n = c.reply := by
    rw [hread, List.append_assoc, List.take_append_drop]
    exact h.reply
  by_cases hpart : n < s.forClient.length
  · -- The reply is not complete.
    obtain ⟨hmessage, hanswering, hbounded⟩ := h.part hb hwf hcut hpart hgot
    exact ⟨_, bind_eq_ok.2 ⟨buf, happend, bind_eq_ok.2 ⟨_, hmessage, rfl⟩⟩,
      Or.inl ⟨k, Or.inr hanswering⟩, hbounded, rfl, rfl, List.prefix_rfl, List.prefix_rfl⟩
  · -- The reply is complete.
    have hnil : s.forClient.drop n = [] := List.drop_eq_nil_iff.2 (by omega)
    rw [hnil, List.append_nil] at hcut
    obtain ⟨buf', hmessage, hwf', hempty⟩ := onMessage_whole hc h.lt hwf hcut
    rw [← h.client] at hmessage
    refine ⟨_, bind_eq_ok.2 ⟨buf, happend, bind_eq_ok.2 ⟨_, hmessage, rfl⟩⟩, ?_⟩
    by_cases hmore : k + 1 < c.requests
    · rw [if_pos hmore]
      obtain ⟨hasking, hbounded, hgrows⟩ := h.ask hb hmore hwf' hempty hnil hgot
      exact ⟨Or.inl ⟨k + 1, Or.inl hasking⟩, hbounded, rfl, rfl, hgrows, List.prefix_rfl⟩
    · rw [if_neg hmore]
      obtain ⟨hended, hbounded, hgrows⟩ := h.finish hb hmore hnil hgot
      exact ⟨Or.inr hended, hbounded, rfl, rfl, hgrows, List.prefix_rfl⟩

/-! ## Runs -/

theorem Progress.step {e : Delivery} (h : Progress hashRange startTime m c s) (hc : Proper c)
    (hmiss : Misses m c) (hb : Bounded s) (hE : s.Offers e) :
    ∃ s', s.deliver hashRange e = .ok s' ∧ Progress hashRange startTime m c s' ∧ Bounded s' ∧
      s.taken + s.got < s'.taken + s'.got ∧ Grows s s' := by
  have hnone : ∀ {n : ℕ} {bytes : Bytes}, bytes = [] → 0 < n → ¬ n ≤ bytes.length := by
    rintro n bytes rfl hpos hle
    exact absurd hle (Nat.not_le.2 hpos)
  cases e with
  | session n =>
    rcases h with ⟨k, hasking | hanswering⟩ | hended
    · obtain ⟨s', hs', hprogress, hbounded, htaken, hgot, hgrows⟩ := hasking.deliver hc hmiss hb hE
      exact ⟨s', hs', hprogress, hbounded, by have := hE.1; omega, hgrows⟩
    · exact absurd hE.2 (hnone hanswering.forSession hE.1)
    · exact absurd hE.2 (hnone hended.forSession hE.1)
  | client n =>
    rcases h with ⟨k, hasking | hanswering⟩ | hended
    · exact absurd hE.2 (hnone hasking.forClient hE.1)
    · obtain ⟨s', hs', hprogress, hbounded, htaken, hgot, hgrows⟩ := hanswering.deliver hc hb hE
      exact ⟨s', hs', hprogress, hbounded, by have := hE.1; omega, hgrows⟩
    · exact absurd hE.2 (hnone hended.forClient hE.1)

/-- The bytes of all requests and of all replies. -/
def work (c : Client) : ℕ := (texts (c.commands c.requests)).length + c.requests * c.reply.length

theorem length_texts_le (c : Client) {n n' : ℕ} (h : n ≤ n') :
    (texts (c.commands n)).length ≤ (texts (c.commands n')).length := by
  induction h with
  | refl => exact le_rfl
  | step _ ih =>
    rw [texts_commands_succ, List.length_append]
    omega

/-- What both have sent. -/
theorem Progress.sent (h : Progress hashRange startTime m c s) (hc : Proper c) (hmiss : Misses m c) :
    ∃ i ≤ c.requests, ∃ j ≤ c.requests, s.client.sent = texts (c.commands i) ∧
      s.session.sent.length = j * c.reply.length := by
  have hlength (k : ℕ) : (dialogue startTime m c k).sent.length = k * c.reply.length :=
    length_dialogue hc hmiss k
  rcases h with ⟨k, h | h⟩ | h
  · refine ⟨k + 1, h.lt, k, h.lt.le, by rw [h.client]; rfl, ?_⟩
    rw [sent_of_stage h.paused.stage (small_command hc k), hlength]
  · refine ⟨k + 1, h.lt, k + 1, h.lt, by rw [h.client]; rfl, ?_⟩
    rw [h.ready.sent, hlength]
  · refine ⟨c.requests, le_rfl, c.requests, le_rfl, by rw [h.client]; rfl, ?_⟩
    rw [h.ready.sent, hlength]

theorem Progress.le_work (h : Progress hashRange startTime m c s) (hc : Proper c) (hmiss : Misses m c)
    (hb : Bounded s) : s.taken + s.got ≤ work c := by
  obtain ⟨i, hi, j, hj, hclient, hsession⟩ := h.sent hc hmiss
  have htaken := hb.taken
  have hgot := hb.got
  rw [hclient] at htaken
  rw [hsession] at hgot
  exact Nat.add_le_add (htaken.trans (length_texts_le c hi))
    (hgot.trans (Nat.mul_le_mul_right _ hj))

/-- There is always something to deliver, until all is done. -/
theorem Asking.forSession_ne_nil (h : Asking hashRange startTime m c k s) (hc : Proper c) :
    s.forSession ≠ [] := by
  intro hnil
  have hpaused := h.paused
  rw [hnil] at hpaused
  have hfits : ∀ c' ∈ [c.command k], Fits c' := fun c' hc' => by
    rw [List.mem_singleton.1 hc']
    exact fits_command hc k
  exact List.cons_ne_nil _ _ (hpaused.ready hfits).1

/-- One request is under way, or the client has all replies. -/
theorem Progress.next (h : Progress hashRange startTime m c s) (hc : Proper c) :
    (s.client.acked < s.client.requests ∧ s.client.send = s.client.acked + 1 ∧
      s.client.halfClosed = false ∧ ∃ e, s.Offers e) ∨ Ended hashRange startTime m c s := by
  have hone : ∀ k < c.requests, s.client = c.waiting k → s.client.acked < s.client.requests ∧
      s.client.send = s.client.acked + 1 ∧ s.client.halfClosed = false := by
    intro k hk heq
    rw [heq]
    exact ⟨hk, rfl, rfl⟩
  rcases h with ⟨k, h | h⟩ | h
  · obtain ⟨hacked, hsend, hopen⟩ := hone k h.lt h.client
    exact .inl ⟨hacked, hsend, hopen, .session 1, Nat.one_pos,
      List.length_pos_iff.2 (h.forSession_ne_nil hc)⟩
  · obtain ⟨hacked, hsend, hopen⟩ := hone k h.lt h.client
    exact .inl ⟨hacked, hsend, hopen, .client 1, Nat.one_pos, List.length_pos_iff.2 h.more⟩
  · exact .inr h

/-- The client does not shut down while something is on its way to it. -/
theorem Progress.open_of_offers (h : Progress hashRange startTime m c s) (hc : Proper c)
    (hE : s.Offers (.client n)) : s.client.halfClosed = false := by
  rcases h.next hc with ⟨-, -, hopen, -⟩ | hended
  · exact hopen
  · have hle := hE.2
    rw [hended.forClient, List.length_nil] at hle
    exact absurd hle (Nat.not_le.2 hE.1)

theorem connected_of_stage {s : Session} {t : Dialogue} {cs : List Command} {todo : Bytes}
    (h : Stage hashRange startTime s t cs todo) : s.connected = true := by
  cases h with
  | ready _ _ _ h => exact h.connected
  | receiving s _ u cs received _ h => exact h.connected
  | discarding s _ u cs skipped _ h => exact h.connected

/-- No request makes the session shut its connection down. -/
theorem Progress.connected (h : Progress hashRange startTime m c s) : s.session.connected = true := by
  rcases h with ⟨k, h | h⟩ | h
  · exact connected_of_stage h.paused.stage
  · exact h.ready.connected
  · exact h.ready.connected

end MemcacheClient

end Reactor
