import Reactor.HttpContext.Chunks
import Reactor.HttpServer

/-!
# Pipelined requests

The peer sends requests one behind another, without waiting for the answers.  `onMessage` parses and
dispatches one request per call, so that requests that are complete already wait for a later chunk;
when none comes they are not answered.

* `answered_iff`: every request has been answered after the last chunk exactly when at no time more
  requests are incomplete than there are chunks still to come.
-/

namespace Reactor

namespace HttpRequest

/-- The request without the time it came. -/
def untimed (r : HttpRequest) : HttpRequest := { r with receiveTime := 0 }

theorem setMethod_untimed (r : HttpRequest) (m : Bytes) :
    r.untimed.setMethod m = (r.setMethod m).map fun p => (p.1, p.2.untimed) := by
  unfold setMethod
  by_cases h : r.method = .kInvalid
  · have h' : r.untimed.method = .kInvalid := h
    rw [check_of h, check_of h', ok_bind, ok_bind]
    rfl
  · have h' : ¬ r.untimed.method = .kInvalid := h
    rw [check_of_not h, check_of_not h']
    rfl

theorem setTarget_untimed (r : HttpRequest) (target : Bytes) :
    r.untimed.setTarget target = (r.setTarget target).untimed := by
  unfold setTarget
  cases splitFirst 63 target <;> rfl

theorem setProtocol_untimed (r : HttpRequest) (protocol : Bytes) :
    r.untimed.setProtocol protocol =
      ((r.setProtocol protocol).1, (r.setProtocol protocol).2.untimed) := by
  unfold setProtocol
  split_ifs <;> rfl

theorem processRequestLine_untimed (r : HttpRequest) (line : Bytes) :
    r.untimed.processRequestLine line =
      (r.processRequestLine line).map fun p => (p.1, p.2.untimed) := by
  unfold processRequestLine
  cases splitFirst 32 line with
  | none => rfl
  | some p =>
    obtain ⟨method, rest⟩ := p
    dsimp only
    rw [setMethod_untimed]
    rcases r.setMethod method with f | ⟨known, r'⟩
    · rfl
    · rw [ok_bind]
      show (if known = true then _ else _ : Except Fault (Bool × HttpRequest)) = _
      dsimp only
      split_ifs with hknown
      · cases splitFirst 32 rest with
        | none => rfl
        | some q =>
          obtain ⟨target, protocol⟩ := q
          dsimp only
          rw [setTarget_untimed, setProtocol_untimed]
          rfl
      · rfl

end HttpRequest

namespace HttpContext

def untimed (ctx : HttpContext) : HttpContext := { ctx with request := ctx.request.untimed }

/-- Parsing does not look at the clock. -/
theorem Parses.untimed {receiveTime : ℤ} {ctx ctx' : HttpContext} {xs rest : Bytes} {ok : Bool}
    (h : Parses receiveTime ctx xs ok ctx' rest) :
    Parses 0 ctx.untimed xs ok ctx'.untimed rest := by
  have hproc : ∀ {r r' : HttpRequest} {line ok}, r.processRequestLine line = .ok (ok, r') →
      r.untimed.processRequestLine line = .ok (ok, r'.untimed) := by
    intro r r' line ok h
    rw [HttpRequest.processRequestLine_untimed, h]
    rfl
  induction h with
  | noLine hstate hn => exact .noLine hstate hn
  | @badLine ctx xs n r hstate hn hline =>
    exact Parses.badLine (show ctx.untimed.state = _ from hstate) hn (hproc hline)
  | @line ctx xs n r ok ctx' rest hstate hn hline _ ih =>
    exact Parses.line (show ctx.untimed.state = _ from hstate) hn (hproc hline) ih
  | noHeader hstate hn => exact .noHeader hstate hn
  | @header ctx xs n field value ok ctx' rest hstate hn hcolon _ ih =>
    exact Parses.header (show ctx.untimed.state = _ from hstate) hn hcolon ih
  | @done ctx xs n hstate hn hcolon =>
    exact Parses.done (show ctx.untimed.state = _ from hstate) hn hcolon

/-- The bytes continue what the context has read of the request `ys`. -/
def Resumes (ctx : HttpContext) (xs ys : Bytes) : Prop :=
  ∀ zs ok ctx' rest, Parses 0 ctx (xs ++ zs) ok ctx' rest → Parses 0 new (ys ++ zs) ok ctx' rest

theorem resumes_new (xs : Bytes) : Resumes new xs xs := fun _ _ _ _ h => h

theorem Parses.resumes {ctx : HttpContext} {xs rest : Bytes} (h : Parses 0 new xs true ctx rest)
    (hmore : ctx.gotAll = false) : Resumes ctx rest xs :=
  fun _ _ _ _ h' => h.append_wait rfl hmore h'

/-- The request that the bytes are, if `parseRequest` accepts them and takes all of them. -/
def parseWhole (xs : Bytes) : Option HttpRequest :=
  match (do let buf ← Buffer.empty.append xs; new.parseRequest buf 0 : Except Fault _) with
  | .ok (true, ctx, buf) => if ctx.gotAll ∧ buf.readable = [] then some ctx.request else none
  | _ => none

theorem parses_of_parseWhole {xs : Bytes} {req : HttpRequest} (h : parseWhole xs = some req) :
    Parses 0 new xs true ⟨.kGotAll, req⟩ [] := by
  obtain ⟨buf, happ, hwf, hread⟩ := Buffer.wf_empty.append xs
  rw [Buffer.readable_empty, List.nil_append] at hread
  obtain ⟨ok, ctx, rest, hparse⟩ := fit_new.exists_parses 0 xs
  obtain ⟨buf', hcall, -, hrest⟩ := Parses.parseRequest (by rw [hread]; exact hparse) hwf
  unfold parseWhole at h
  rw [happ, ok_bind, hcall] at h
  cases ok with
  | false => cases h
  | true =>
    dsimp only at h
    split_ifs at h with hall
    obtain ⟨hgot, hnil⟩ := hall
    obtain rfl := Option.some.inj h
    rw [hnil] at hrest
    subst hrest
    have hstate : ctx.state = .kGotAll := by simpa [gotAll] using hgot
    rw [← hstate]
    exact hparse

end HttpContext

namespace Reply

def untimed : Reply → Reply
  | .badRequest => .badRequest
  | .onRequest req => .onRequest req.untimed

end Reply

namespace HttpServer

open HttpContext

/-- How many of the requests end within the first `n` bytes. -/
def completed : List Bytes → ℕ → ℕ
  | [], _ => 0
  | r :: rs, n => if r.length ≤ n then completed rs (n - r.length) + 1 else 0

/-- The bytes of the chunks. -/
def bytes (chunks : List Chunk) : Bytes := (chunks.map Chunk.data).flatten

/-- The answers to the requests. -/
def answers (rs : List Bytes) : List Reply := rs.filterMap fun r => (parseWhole r).map .onRequest

/-- The connection has received `ys` of the requests that are not answered. -/
structure Serves (s : HttpServer) (ys : Bytes) : Prop where
  wf : s.inputBuffer.Wf
  fit : s.context.Fit
  resumes : Resumes s.context.untimed s.inputBuffer.readable ys

theorem serves_init : Serves init [] :=
  ⟨Buffer.wf_empty, fit_new, by
    show Resumes new Buffer.empty.readable []
    rw [Buffer.readable_empty]
    exact resumes_new []⟩

/-! ## One chunk -/

/-- One call of `onMessage`, by what it makes of the bytes received so far. -/
theorem Serves.deliver {s : HttpServer} {ys : Bytes} (h : Serves s ys) (c : Chunk) :
    ∃ ok ctx rest, Parses 0 new (ys ++ c.data) ok ctx rest ∧ (ok = true →
      ∃ s', machine.step s c = .ok s' ∧
        (ctx.gotAll = true → Serves s' rest ∧ s'.replies.map Reply.untimed =
          s.replies.map Reply.untimed ++ [.onRequest ctx.request]) ∧
        (ctx.gotAll = false → Serves s' (ys ++ c.data) ∧ s'.replies = s.replies)) := by
  obtain ⟨buf, happ, hwf, hread⟩ := h.wf.append c.data
  obtain ⟨ok, ctx, rest, hparse⟩ := h.fit.exists_parses c.receiveTime buf.readable
  obtain ⟨buf', hcall, hwf', hrest⟩ := hparse.parseRequest hwf
  have hwhole : Parses 0 new (ys ++ c.data) ok ctx.untimed rest := by
    have hpu := hparse.untimed
    rw [hread] at hpu
    exact h.resumes _ _ _ _ hpu
  refine ⟨ok, ctx.untimed, rest, hwhole, ?_⟩
  rintro rfl
  have hstep : machine.step s c = (if ctx.gotAll then
      (.ok ⟨ctx.reset, buf', s.replies ++ [.onRequest ctx.request]⟩ : Except Fault HttpServer)
      else .ok ⟨ctx, buf', s.replies⟩) := by
    show s.deliver c = _
    unfold HttpServer.deliver onMessage
    rw [happ, ok_bind]
    dsimp only
    rw [hcall, ok_bind]
    rfl
  subst hrest
  cases hgot : ctx.gotAll with
  | true =>
    rw [hgot, if_pos rfl] at hstep
    refine ⟨_, hstep, fun _ => ⟨⟨hwf', fit_new, resumes_new _⟩, ?_⟩, fun hno => ?_⟩
    · rw [List.map_append]
      rfl
    · have hyes : ctx.untimed.gotAll = true := hgot
      rw [hyes] at hno
      cases hno
  | false =>
    have hno : ctx.untimed.gotAll = false := hgot
    rw [hgot, if_neg (by decide)] at hstep
    refine ⟨_, hstep, fun hyes => ?_, fun _ =>
      ⟨⟨hwf', hparse.fit h.fit rfl hgot, hwhole.resumes hno⟩, rfl⟩⟩
    rw [hno] at hyes
    cases hyes

/-- With the chunk the first request is complete. -/
theorem Serves.deliver_complete {s : HttpServer} {ys r w : Bytes} {c : Chunk} {req : HttpRequest}
    (h : Serves s ys) (hr : parseWhole r = some req) (hw : ys ++ c.data = r ++ w) :
    ∃ s', machine.step s c = .ok s' ∧ Serves s' w ∧
      s'.replies.map Reply.untimed = s.replies.map Reply.untimed ++ [.onRequest req] := by
  obtain ⟨ok, ctx, rest, hparse, hnext⟩ := h.deliver c
  have hreq := (parses_of_parseWhole hr).append_done (Or.inr rfl) w
  rw [← hw, List.nil_append] at hreq
  obtain ⟨rfl, rfl, rfl⟩ := hparse.unique hreq
  obtain ⟨s', hs', hdone, -⟩ := hnext rfl
  exact ⟨s', hs', hdone rfl⟩

/-- The bytes so far are no whole request. -/
def Partial (xs : Bytes) : Prop := xs = [] ∨ ∃ v, v ≠ [] ∧ (parseWhole (xs ++ v)).isSome = true

theorem Partial.parses {xs rest : Bytes} {ok : Bool} {ctx : HttpContext} (h : Partial xs)
    (hparse : Parses 0 new xs ok ctx rest) : ok = true ∧ ctx.gotAll = false := by
  rcases h with rfl | ⟨v, hv, hsome⟩
  · obtain ⟨rfl, rfl, -⟩ := hparse.unique (.noLine rfl rfl)
    exact ⟨rfl, rfl⟩
  · obtain ⟨req, hreq⟩ := Option.isSome_iff_exists.1 hsome
    have hwhole := parses_of_parseWhole hreq
    -- a call that were done with the bytes so far would leave the others
    by_contra hnot
    have hdone : ok = false ∨ ctx.gotAll = true := by
      cases ok with
      | false => exact Or.inl rfl
      | true => exact Or.inr (by simpa using hnot)
    obtain ⟨-, -, hrest⟩ := (hparse.append_done hdone v).unique hwhole
    exact hv (List.append_eq_nil_iff.1 hrest).2

theorem Serves.deliver_partial {s : HttpServer} {ys : Bytes} {c : Chunk} (h : Serves s ys)
    (hpart : Partial (ys ++ c.data)) :
    ∃ s', machine.step s c = .ok s' ∧ Serves s' (ys ++ c.data) ∧ s'.replies = s.replies := by
  obtain ⟨ok, ctx, rest, hparse, hnext⟩ := h.deliver c
  obtain ⟨rfl, hmore⟩ := hpart.parses hparse
  obtain ⟨s', hs', -, hwait⟩ := hnext rfl
  exact ⟨s', hs', hwait hmore⟩

/-! ## A whole connection -/

/-- At no time are more of the requests incomplete than there are chunks to come. -/
def Keeps (rs : List Bytes) (received : ℕ) (chunks : List Chunk) : Prop :=
  rs.length ≤ chunks.length ∧ ∀ i ≤ chunks.length, 0 < i →
    rs.length ≤ completed rs (received + (bytes (chunks.take i)).length) + (chunks.length - i)

theorem bytes_cons (c : Chunk) (chunks : List Chunk) : bytes (c :: chunks) = c.data ++ bytes chunks :=
  rfl

theorem keeps_complete {r : Bytes} {rs : List Bytes} {received left : ℕ} {c : Chunk}
    (hlen : received + c.data.length = r.length + left) (chunks : List Chunk) :
    Keeps (r :: rs) received (c :: chunks) ↔ Keeps rs left chunks := by
  have hcount : ∀ n, completed (r :: rs) (r.length + n) = completed rs n + 1 := fun n => by
    rw [completed, if_pos (Nat.le_add_right _ _), Nat.add_sub_cancel_left]
  have hsucc : ∀ i, received + (bytes ((c :: chunks).take (i + 1))).length =
      r.length + (left + (bytes (chunks.take i)).length) := fun i => by
    rw [List.take_succ_cons, bytes_cons, List.length_append]
    omega
  unfold Keeps
  rw [List.length_cons, List.length_cons]
  constructor
  · rintro ⟨hle, hall⟩
    refine ⟨by omega, fun i hi hpos => ?_⟩
    have hi' := hall (i + 1) (by omega) (Nat.succ_pos i)
    rw [hsucc, hcount] at hi'
    omega
  · rintro ⟨hle, hall⟩
    refine ⟨by omega, fun i hi hpos => ?_⟩
    obtain ⟨i, rfl⟩ : ∃ j, i = j + 1 := ⟨i - 1, by omega⟩
    rw [hsucc, hcount]
    rcases Nat.eq_zero_or_pos i with rfl | hi0
    · omega
    · have hi' := hall i (by omega) hi0
      omega

theorem keeps_partial {r : Bytes} {rs : List Bytes} {received : ℕ} {c : Chunk}
    (hlt : received + c.data.length < r.length) (chunks : List Chunk) :
    Keeps (r :: rs) received (c :: chunks) ↔
      Keeps (r :: rs) (received + c.data.length) chunks := by
  have hnone : completed (r :: rs) (received + c.data.length) = 0 := by
    rw [completed, if_neg (by omega)]
  have hsucc : ∀ i, received + (bytes ((c :: chunks).take (i + 1))).length =
      received + c.data.length + (bytes (chunks.take i)).length := fun i => by
    rw [List.take_succ_cons, bytes_cons, List.length_append]
    omega
  unfold Keeps
  rw [List.length_cons, List.length_cons]
  constructor
  · rintro ⟨hle, hall⟩
    have hone := hall 1 (by omega) Nat.one_pos
    have hzero : received + c.data.length + (bytes (chunks.take 0)).length =
        received + c.data.length := by rw [List.take_zero]; rfl
    rw [hsucc 0, hzero, hnone] at hone
    refine ⟨by omega, fun i hi hpos => ?_⟩
    have hi' := hall (i + 1) (by omega) (Nat.succ_pos i)
    rw [hsucc] at hi'
    omega
  · rintro ⟨hle, hall⟩
    refine ⟨by omega, fun i hi hpos => ?_⟩
    obtain ⟨i, rfl⟩ : ∃ j, i = j + 1 := ⟨i - 1, by omega⟩
    rw [hsucc]
    rcases Nat.eq_zero_or_pos i with rfl | hi0
    · omega
    · have hi' := hall i (by omega) hi0
      omega

theorem answers_cons {r : Bytes} {req : HttpRequest} (hr : parseWhole r = some req)
    (rs : List Bytes) : answers (r :: rs) = .onRequest req :: answers rs := by
  rw [answers, List.filterMap_cons_some (by rw [hr]; rfl)]
  rfl

theorem answers_append (rs rs' : List Bytes) : answers (rs ++ rs') = answers rs ++ answers rs' :=
  List.filterMap_append

theorem answers_eq_nil {rs : List Bytes} (hrs : ∀ r ∈ rs, (parseWhole r).isSome = true) :
    answers rs = [] ↔ rs = [] := by
  refine ⟨fun hnil => ?_, fun hnil => by rw [hnil]; rfl⟩
  cases rs with
  | nil => rfl
  | cons r rs =>
    obtain ⟨req, hreq⟩ := Option.isSome_iff_exists.1 (hrs r List.mem_cons_self)
    rw [answers_cons hreq] at hnil
    cases hnil

/-- A chunk completes the first of the requests, or leaves it incomplete. -/
theorem Serves.run {s : HttpServer} {ys : Bytes} (h : Serves s ys) {rs : List Bytes}
    (hrs : ∀ r ∈ rs, (parseWhole r).isSome = true) {chunks : List Chunk}
    (hcut : ys ++ bytes chunks = rs.flatten) :
    ∃ s' done todo, machine.run s chunks = .ok s' ∧ rs = done ++ todo ∧
      s'.replies.map Reply.untimed = s.replies.map Reply.untimed ++ answers done ∧
      (todo = [] ↔ Keeps rs ys.length chunks) := by
  induction chunks generalizing s ys rs with
  | nil =>
    refine ⟨s, [], rs, rfl, rfl, by rw [show answers [] = [] from rfl, List.append_nil], ?_⟩
    constructor
    · rintro rfl
      exact ⟨Nat.le_refl _, fun i _ _ => Nat.zero_le _⟩
    · exact fun hk => List.length_eq_zero_iff.1 (Nat.le_zero.1 hk.1)
  | cons c chunks ih =>
    rw [bytes_cons, ← List.append_assoc] at hcut
    cases rs with
    | nil =>
      have hnil := List.append_eq_nil_iff.1 hcut
      obtain ⟨s', hs', hserves, hrep⟩ := h.deliver_partial (c := c) (Or.inl hnil.1)
      obtain ⟨t, done, todo, ht, hsplit, hans, -⟩ := ih hserves hrs hcut
      obtain ⟨rfl, rfl⟩ := List.append_eq_nil_iff.1 hsplit.symm
      refine ⟨t, [], [], by rw [Machine.run_cons_ok hs']; exact ht, rfl, by rw [hans, hrep], ?_⟩
      exact iff_of_true rfl ⟨Nat.zero_le _, fun i _ _ => Nat.zero_le _⟩
    | cons r rs =>
      obtain ⟨req, hreq⟩ := Option.isSome_iff_exists.1 (hrs r List.mem_cons_self)
      rw [List.flatten_cons] at hcut
      by_cases hle : r.length ≤ (ys ++ c.data).length
      · -- the first request is complete
        obtain ⟨w, hw⟩ := List.prefix_of_prefix_length_le (List.prefix_append r rs.flatten)
          ⟨_, hcut⟩ hle
        obtain ⟨s', hs', hserves, hrep⟩ := h.deliver_complete hreq hw.symm
        have hcut' : w ++ bytes chunks = rs.flatten := by
          rw [← hw, List.append_assoc] at hcut
          exact List.append_cancel_left hcut
        obtain ⟨t, done, todo, ht, hsplit, hans, hiff⟩ :=
          ih hserves (fun r hr => hrs r (List.mem_cons_of_mem _ hr)) hcut'
        refine ⟨t, r :: done, todo, by rw [Machine.run_cons_ok hs']; exact ht,
          by rw [hsplit, List.cons_append], ?_, ?_⟩
        · rw [hans, hrep, answers_cons hreq, List.append_assoc]
          rfl
        · rw [hiff, keeps_complete]
          have hlen := congrArg List.length hw
          rw [List.length_append, List.length_append] at hlen
          exact hlen.symm
      · obtain ⟨v, hv⟩ := List.prefix_of_prefix_length_le ⟨_, hcut⟩
          (List.prefix_append r rs.flatten) (by omega)
        have hne : v ≠ [] := by
          rintro rfl
          rw [List.append_nil] at hv
          rw [hv] at hle
          exact hle (Nat.le_refl _)
        have hpart : Partial (ys ++ c.data) := Or.inr ⟨v, hne, by rw [hv, hreq]; rfl⟩
        obtain ⟨s', hs', hserves, hrep⟩ := h.deliver_partial hpart
        obtain ⟨t, done, todo, ht, hsplit, hans, hiff⟩ := ih hserves hrs hcut
        refine ⟨t, done, todo, by rw [Machine.run_cons_ok hs']; exact ht, hsplit,
          by rw [hans, hrep], ?_⟩
        rw [List.length_append] at hle hiff
        rw [hiff, keeps_partial (by omega)]

theorem completed_zero {rs : List Bytes} (hrs : ∀ r ∈ rs, (parseWhole r).isSome = true) :
    completed rs 0 = 0 := by
  cases rs with
  | nil => rfl
  | cons r rs =>
    have hne : r ≠ [] := by
      rintro rfl
      have hsome := hrs [] List.mem_cons_self
      revert hsome
      decide +kernel
    have hpos := List.length_pos_iff.2 hne
    rw [completed, if_neg (by omega)]

/-- The requests are answered, each once and in order, exactly when for every number `i` of chunks
no more requests are incomplete after the first `i` of them than there are chunks to come. -/
theorem answered_iff {rs : List Bytes} (hrs : ∀ r ∈ rs, (parseWhole r).isSome = true)
    {chunks : List Chunk} (hcut : bytes chunks = rs.flatten) :
    ∃ s, machine.run init chunks = .ok s ∧ (s.replies.map Reply.untimed = answers rs ↔
      ∀ i ≤ chunks.length,
        rs.length - completed rs (bytes (chunks.take i)).length ≤ chunks.length - i) := by
  have hall : [] ++ bytes chunks = rs.flatten := hcut
  obtain ⟨s, done, todo, hs, rfl, hans, hiff⟩ := serves_init.run hrs hall
  refine ⟨s, hs, ?_⟩
  have htodo : s.replies.map Reply.untimed = answers (done ++ todo) ↔ todo = [] := by
    rw [hans, answers_append, ← answers_eq_nil (fun r hr => hrs r (List.mem_append_right _ hr))]
    constructor
    · intro heq
      exact (List.append_right_eq_self.1 heq.symm)
    · intro hnil
      rw [hnil, List.append_nil]
      rfl
  rw [htodo, hiff]
  unfold Keeps
  rw [List.length_nil]
  constructor
  · rintro ⟨hle, hall⟩ i hi
    rcases Nat.eq_zero_or_pos i with rfl | hpos
    · rw [Nat.sub_zero]
      exact (Nat.sub_le _ _).trans hle
    · have hi' := hall i hi hpos
      rw [Nat.zero_add] at hi'
      omega
  · intro hall
    constructor
    · have h0 := hall 0 (Nat.zero_le _)
      rw [List.take_zero, show bytes [] = [] from rfl, List.length_nil, completed_zero hrs] at h0
      omega
    · intro i hi _
      have hi' := hall i hi
      rw [Nat.zero_add]
      omega

/-- Two requests, the second of which ends in a chunk of its own. -/
theorem answered_two_chunks :
    ∃ s, machine.run init [⟨ascii "GET /a HTTP/1.1\r\n\r\nGET /b HT", 0⟩,
        ⟨ascii "TP/1.1\r\n\r\n", 1⟩] = .ok s ∧
      s.replies.map Reply.untimed =
        answers [ascii "GET /a HTTP/1.1\r\n\r\n", ascii "GET /b HTTP/1.1\r\n\r\n"] := by
  have hcut : bytes [⟨ascii "GET /a HTTP/1.1\r\n\r\nGET /b HT", 0⟩, ⟨ascii "TP/1.1\r\n\r\n", 1⟩] =
      [ascii "GET /a HTTP/1.1\r\n\r\n", ascii "GET /b HTTP/1.1\r\n\r\n"].flatten := by
    decide +kernel
  obtain ⟨s, hs, hiff⟩ := answered_iff (by decide +kernel) hcut
  exact ⟨s, hs, hiff.2 (by decide +kernel)⟩

/-- Two requests in one chunk: the second is not answered. -/
theorem unanswered_in_one_chunk :
    ¬ ∀ (rs : List Bytes) (chunks : List Chunk), (∀ r ∈ rs, (parseWhole r).isSome = true) →
      bytes chunks = rs.flatten → ∃ s, machine.run init chunks = .ok s ∧
        s.replies.map Reply.untimed = answers rs := by
  intro h
  obtain ⟨s, hs, hall⟩ := h [ascii "GET /a HTTP/1.1\r\n\r\n", ascii "GET /b HTTP/1.1\r\n\r\n"]
    [⟨ascii "GET /a HTTP/1.1\r\n\r\nGET /b HTTP/1.1\r\n\r\n", 0⟩] (by decide +kernel)
    (by decide +kernel)
  have hone : ((machine.run init
      [⟨ascii "GET /a HTTP/1.1\r\n\r\nGET /b HTTP/1.1\r\n\r\n", 0⟩]).toOption.map
        fun s => s.replies.length) = some 1 := by decide +kernel
  have htwo : (answers [ascii "GET /a HTTP/1.1\r\n\r\n",
      ascii "GET /b HTTP/1.1\r\n\r\n"]).length = 2 := by decide +kernel
  rw [hs] at hone
  rw [← hall, List.length_map] at htwo
  have hone' : s.replies.length = 1 := Option.some.inj hone
  omega

end HttpServer

end Reactor
