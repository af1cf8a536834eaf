import Reactor.Session.Safety

/-!
# Commands in pieces

A command may arrive in any pieces.  Between two calls of `onMessage` the session is in one of three
stages (`Stage`): it waits for the line of a command, of which the buffer may have a part, for the
rest of a data block, or for the rest of a data block that it throws away.  In the last two stages
the buffer is empty.

* `answers_in_pieces`: commands that are all served are answered as the protocol says however their
  bytes are cut into chunks, provided that no line is 1024 bytes long or longer: a part of such a line
  may shut the connection down.
-/

namespace Reactor

namespace Session

open MemcacheServer

variable {hashRange : Bytes → ℕ} {startTime : ℤ} {s : Session} {t : Dialogue} {buf : Buffer}
  {u : Update} {c : Command} {cs : List Command} {wire todo : Bytes}

/-- The texts of some commands. -/
def texts (cs : List Command) : Bytes := cs.flatMap Command.text

/-- The item of a storage command of whose data block `received` has arrived. -/
def Update.partItem (hashRange : Bytes → ℕ) (startTime : ℤ) (u : Update) (received : Bytes) : Item :=
  .filled hashRange u.key (ofDecimal u.flags) (relExptime startTime (timeOf u.exptime))
    (u.data.length + 2) u.verb.token received

/-- The session while a data block is thrown away; it has been answered. -/
def skipping (s : Session) (u : Update) (bytesToDiscard : ℕ) : Session :=
  { s with
    command := u.verb.name
    policy := policyOf .kInvalid u.verb.name
    bytesToDiscard := bytesToDiscard
    state := .kDiscardValue }

/-- The session has answered as far as `t` and has `cs` to answer, of which it has not yet taken the
bytes `todo`. -/
inductive Stage (hashRange : Bytes → ℕ) (startTime : ℤ) :
    Session → Dialogue → List Command → Bytes → Prop where
  | ready (s : Session) (t : Dialogue) (cs : List Command) (h : Ready hashRange startTime s t) :
      Stage hashRange startTime s t cs (texts cs)
  | receiving (s : Session) (t : Dialogue) (u : Update) (cs : List Command) (received todo : Bytes)
      (h : Ready hashRange startTime s t) (hsmall : u.data.length ≤ 1024 * 1024)
      (hless : received.length < u.data.length + 2)
      (htodo : received ++ todo = u.data ++ crlf ++ texts cs) :
      Stage hashRange startTime (s.receiving u (u.partItem hashRange startTime received)) t
        (.update u :: cs) todo
  | discarding (s : Session) (t : Dialogue) (u : Update) (cs : List Command) (skipped todo : Bytes)
      (h : Ready hashRange startTime s (t.next startTime (.update u)))
      (hlarge : 1024 * 1024 < u.data.length) (hless : skipped.length < u.data.length + 2)
      (htodo : skipped ++ todo = u.data ++ crlf ++ texts cs) :
      Stage hashRange startTime (s.skipping u (u.data.length + 2 - skipped.length)) t
        (.update u :: cs) todo

/-- What a command needs to be answered in pieces as well. -/
structure Fits (c : Command) : Prop where
  wellFormed : c.WellFormed
  short : c.line.length < 1024

/-- The loop stops: the buffer is empty, or has a part of a line. -/
def Waits (s : Session) (buf : Buffer) : Prop :=
  buf.readable = [] ∨ (s.state = .kNewCommand ∧ Buffer.searchCRLF buf.readable = none)

/-- The loop gets as far as the bytes go. -/
def Settles (hashRange : Bytes → ℕ) (startTime : ℤ) (s : Session) (buf : Buffer) (t : Dialogue)
    (cs : List Command) (wire : Bytes) (fuel : ℕ) : Prop :=
  ∃ s' buf' done cs' t', messageLoop hashRange fuel s buf = .ok (s', buf') ∧ cs = done ++ cs' ∧
    (protocolMachine startTime).run t done = .ok t' ∧
    Stage hashRange startTime s' t' cs' (buf'.readable ++ wire) ∧ buf'.Wf ∧ Waits s' buf'

theorem settles_of_waits {fuel : ℕ} (h : Stage hashRange startTime s t cs (buf.readable ++ wire))
    (hbuf : buf.Wf) (hwaits : Waits s buf)
    (hloop : messageLoop hashRange fuel s buf = .ok (s, buf)) :
    Settles hashRange startTime s buf t cs wire fuel :=
  ⟨s, buf, [], cs, t, hloop, rfl, rfl, h, hbuf, hwaits⟩

theorem messageLoop_empty (hbuf : buf.Wf) (hempty : buf.readable = []) (fuel : ℕ) :
    messageLoop hashRange (fuel + 1) s buf = .ok (s, buf) := by
  have hzero : buf.readableBytes = 0 := by
    rw [← hbuf.length_readable, hempty]
    rfl
  rw [messageLoop, if_neg (by omega)]
  rfl

/-- A command is finished, and the loop goes on. -/
theorem Settles.next {fuel k : ℕ} {s' : Session} {buf' : Buffer}
    (h : Settles hashRange startTime s' buf' (t.next startTime c) cs wire fuel)
    (hloop : messageLoop hashRange (fuel + k) s buf = messageLoop hashRange fuel s' buf') :
    Settles hashRange startTime s buf t (c :: cs) wire (fuel + k) := by
  obtain ⟨s₂, buf₂, done, cs', t', hrun, rfl, hprotocol, hrest⟩ := h
  refine ⟨s₂, buf₂, c :: done, cs', t', hloop.trans hrun, rfl, ?_, hrest⟩
  have hstep : (protocolMachine startTime).step t c = .ok (t.next startTime c) := rfl
  rw [Machine.run_cons_ok hstep]
  exact hprotocol

/-- A part of a command is taken, and the loop goes on. -/
theorem Settles.same {fuel k : ℕ} {s' : Session} {buf' : Buffer}
    (h : Settles hashRange startTime s' buf' t cs wire fuel)
    (hloop : messageLoop hashRange (fuel + k) s buf = messageLoop hashRange fuel s' buf') :
    Settles hashRange startTime s buf t cs wire (fuel + k) := by
  obtain ⟨s₂, buf₂, done, cs', t', hrun, hrest⟩ := h
  exact ⟨s₂, buf₂, done, cs', t', hloop.trans hrun, hrest⟩

/-! ## Data blocks in pieces -/

/-- The data block is complete: the item is stored and answered. -/
theorem Ready.finish (h : Ready hashRange startTime s t) (hu : u.WellFormed)
    (hserved : Served t (.update u)) (hsmall : u.data.length ≤ 1024 * 1024) :
    ∃ s', (s.receiving u (u.item hashRange startTime)).finishValue hashRange
        (u.item hashRange startTime) = .ok s' ∧
      Ready hashRange startTime s' (t.next startTime (.update u)) := by
  obtain ⟨-, hnoreply, -, hverb⟩ := hserved
  obtain ⟨hprepend, happend⟩ := hverb hsmall
  have hkey : u.key.length ≤ 250 := hu.key.2.1
  obtain ⟨stored, existed, owner, hstore, hresult, howner⟩ := h.store.follows
    (h.valid (by omega) hprepend fun hverb old hold => (happend hverb old hold).2)
  have hcrlf : (u.item hashRange startTime).endsWithCRLF = true := Item.endsWithCRLF_full (by omega)
  have hserve := serve_of_call hsmall hprepend
    (fun hverb old hold => (happend hverb old hold).1) hresult
  have hnext : t.next startTime (.update u) = ⟨t.sent ++ (u.serve startTime t.store).1,
      (u.serve startTime t.store).2⟩ := by
    rw [Dialogue.next, Command.serve, hnoreply]
    rfl
  rw [hnext, hserve]
  refine ⟨_, finishValue_eq (by exact h.connected) (by exact h.noreply) hcrlf (by exact hstore), ?_⟩
  exact ⟨h.connected, rfl, h.protocol, rfl, rfl, rfl, rfl, rfl, h.needle, h.outputBuf, h.output,
    (storeItem_startTime hstore).trans h.startTime, howner, congrArg (· ++ _) h.sent⟩

/-- As much as there is of a data block is put into the item. -/
theorem receiveValue_part (hashRange : Bytes → ℕ) (startTime : ℤ) (s : Session) {received : Bytes}
    (hsmall : u.key.length + (u.data.length + 2) < 2 ^ 31)
    (hless : received.length < u.data.length + 2) (hbuf : buf.Wf) {avail : ℕ}
    (havail : avail = min buf.readableBytes (u.data.length + 2 - received.length)) :
    ∃ buf', buf'.Wf ∧ buf'.readable = buf.readable.drop avail ∧
      (s.receiving u (u.partItem hashRange startTime received)).receiveValue hashRange buf = (do
        let item := u.partItem hashRange startTime (received ++ buf.readable.take avail)
        let s := s.receiving u item
        if u.data.length + 2 - (received.length + avail) = 0 then
          return (← s.finishValue hashRange item, buf')
        else return (s, buf')) := by
  have hle : avail ≤ buf.readableBytes := by omega
  have htake : (buf.readable.take avail).length = avail := by
    rw [List.length_take_of_le]
    rwa [hbuf.length_readable]
  have hlength : (received ++ buf.readable.take avail).length = received.length + avail := by
    rw [List.length_append, htake]
  have hneeded : (u.partItem hashRange startTime received).neededBytes =
      u.data.length + 2 - received.length := Item.neededBytes_filled hsmall (by omega)
  have hneeded' : (u.partItem hashRange startTime (received ++ buf.readable.take avail)).neededBytes =
      u.data.length + 2 - (received.length + avail) := by
    rw [← hlength]
    exact Item.neededBytes_filled hsmall (by omega)
  have happend : (u.partItem hashRange startTime received).append (buf.readable.take avail) =
      .ok (u.partItem hashRange startTime (received ++ buf.readable.take avail)) :=
    Item.append_filled hsmall (by omega)
  obtain ⟨buf', hretrieve, hwf, hrest⟩ := hbuf.retrieve hle
  refine ⟨buf', hwf, hrest, ?_⟩
  dsimp only [receiving, receiveValue]
  rw [check_of rfl, ok_bind, hneeded, ← havail, hbuf.slice_peek hle, happend, ok_bind, hretrieve,
    ok_bind, hneeded']

theorem messageLoop_receiving {s s' : Session} {buf' : Buffer} (hpos : 0 < buf.readableBytes)
    (hstate : s.state = .kReceiveValue) (hreceive : s.receiveValue hashRange buf = .ok (s', buf'))
    (fuel : ℕ) : messageLoop hashRange (fuel + 1) s buf = messageLoop hashRange fuel s' buf' := by
  rw [messageLoop, if_pos hpos, hstate]
  dsimp only
  rw [hreceive]
  rfl

theorem messageLoop_discarding {s s' : Session} {buf' : Buffer} (hpos : 0 < buf.readableBytes)
    (hstate : s.state = .kDiscardValue) (hdiscard : s.discardValue buf = .ok (s', buf'))
    (fuel : ℕ) : messageLoop hashRange (fuel + 1) s buf = messageLoop hashRange fuel s' buf' := by
  rw [messageLoop, if_pos hpos, hstate]
  dsimp only
  rw [hdiscard]
  rfl

/-! ## Whole calls -/

/-- What is known of the calls on shorter buffers. -/
def Shorter (hashRange : Bytes → ℕ) (startTime : ℤ) (wire : Bytes) (n : ℕ) : Prop :=
  ∀ (s : Session) (buf : Buffer) (t : Dialogue) (cs : List Command) (fuel : ℕ),
    buf.readable.length < n → Stage hashRange startTime s t cs (buf.readable ++ wire) →
    (∀ c ∈ cs, Fits c) → (protocolMachine startTime).Along Served t cs → buf.Wf →
    buf.readableBytes < fuel → Settles hashRange startTime s buf t cs wire fuel

/-- A line that is not there as a whole is a short one. -/
theorem messageLoop_partLine (h : Ready hashRange startTime s t)
    (hnone : Buffer.searchCRLF buf.readable = none) (hshort : buf.readableBytes ≤ 1024) (fuel : ℕ) :
    messageLoop hashRange (fuel + 1) s buf = .ok (s, buf) := by
  have hdetect : s.detect buf = .ok s := by
    unfold detect
    rw [h.protocol]
    rfl
  have hfind : buf.findCRLF = none := by
    rw [Buffer.findCRLF, hnone]
    rfl
  by_cases hpos : 0 < buf.readableBytes
  · rw [messageLoop, if_pos hpos, h.state]
    dsimp only
    rw [hdetect, ok_bind, check_of (Or.inl h.protocol), ok_bind, h.protocol, if_neg (by decide), hfind]
    dsimp only
    rw [if_neg (by omega)]
    rfl
  · rw [messageLoop, if_neg hpos]
    rfl

/-- The part of the first line that is in the buffer. -/
theorem partLine_le (hfits : Fits c) (htexts : buf.readable ++ wire = texts (c :: cs))
    (hnone : Buffer.searchCRLF buf.readable = none) : buf.readable.length ≤ c.line.length + 1 := by
  by_contra hlong
  have hline : texts (c :: cs) = c.line ++ crlf ++ (c.block ++ texts cs) := by
    rw [texts, List.flatMap_cons, Command.text, List.append_assoc]
    rfl
  have hlength : (c.line ++ crlf).length = c.line.length + 2 := List.length_append
  obtain ⟨more, hmore⟩ : ∃ more, buf.readable = c.line ++ crlf ++ more := by
    have hline' : c.line ++ crlf <+: texts (c :: cs) := ⟨_, hline.symm⟩
    have hread : buf.readable <+: texts (c :: cs) := ⟨wire, htexts⟩
    obtain ⟨more, hmore⟩ := List.prefix_of_prefix_length_le hline' hread (by omega)
    exact ⟨more, hmore.symm⟩
  rw [hmore, searchCRLF_line_text hfits.wellFormed] at hnone
  cases hnone

/-- The line of the first command, and what is behind it in the buffer. -/
theorem wholeLine {n : ℕ} (hfits : Fits c) (htexts : buf.readable ++ wire = texts (c :: cs))
    (hsome : Buffer.searchCRLF buf.readable = some n) :
    ∃ rest, buf.readable = c.line ++ crlf ++ rest ∧ rest ++ wire = c.block ++ texts cs := by
  have hline : texts (c :: cs) = c.line ++ crlf ++ (c.block ++ texts cs) := by
    rw [texts, List.flatMap_cons, Command.text, List.append_assoc]
    rfl
  have hn : n = c.line.length := by
    have hall := Buffer.searchCRLF_append hsome wire
    rw [htexts, hline, searchCRLF_line_text hfits.wellFormed] at hall
    exact (Option.some.inj hall).symm
  obtain ⟨-, hsplit⟩ := Buffer.searchCRLF_eq_some hsome
  have hle := Buffer.searchCRLF_le hsome
  have hlen : (buf.readable.take n).length = c.line.length := by
    rw [List.length_take_of_le (by omega), hn]
  rw [hline, hsplit, List.append_assoc, List.append_assoc, List.append_assoc] at htexts
  obtain ⟨htake, hrest⟩ := List.append_inj htexts hlen
  refine ⟨buf.readable.drop (n + 2), ?_, (List.append_inj hrest rfl).2⟩
  rw [← htake]
  exact hsplit

/-- A command without a data block. -/
theorem settles_reached (ih : Shorter hashRange startTime wire buf.readable.length)
    {rest : Bytes} (hreach : Reaches hashRange startTime s buf (t.next startTime c) rest)
    (hrest : rest ++ wire = texts cs) (hless : rest.length < buf.readable.length)
    (hfits : ∀ c ∈ cs, Fits c)
    (hserved : (protocolMachine startTime).Along Served (t.next startTime c) cs) {fuel : ℕ}
    (hfuel : buf.readableBytes < fuel) :
    Settles hashRange startTime s buf t (c :: cs) wire fuel := by
  obtain ⟨steps, s', buf', hsteps, h', hbuf', hread', hloop⟩ := hreach
  obtain ⟨fuel, rfl⟩ : ∃ n, fuel = n + steps := ⟨fuel - steps, by omega⟩
  have hbytes : buf'.readableBytes = rest.length := by
    rw [← hbuf'.length_readable, hread']
  have hstage : Stage hashRange startTime s' (t.next startTime c) cs (buf'.readable ++ wire) := by
    rw [hread', hrest]
    exact .ready s' _ cs h'
  refine Settles.next (ih s' buf' _ cs fuel ?_ hstage hfits hserved hbuf' (by omega)) (hloop fuel)
  rw [hread']
  exact hless

/-- The line of a storage command whose data block is to be stored. -/
theorem settles_update_small (ih : Shorter hashRange startTime wire buf.readable.length)
    (h : Ready hashRange startTime s t) {rest : Bytes}
    (hread : buf.readable = (Command.update u).line ++ crlf ++ rest)
    (hrest : rest ++ wire = u.data ++ crlf ++ texts cs) (hsmall : u.data.length ≤ 1024 * 1024)
    (hfits : ∀ c ∈ .update u :: cs, Fits c)
    (hserved : (protocolMachine startTime).Along Served t (.update u :: cs)) (hbuf : buf.Wf)
    {fuel : ℕ} (hfuel : buf.readableBytes < fuel) :
    Settles hashRange startTime s buf t (.update u :: cs) wire fuel := by
  have hu : (Command.update u).WellFormed := (hfits _ List.mem_cons_self).wellFormed
  obtain ⟨fuel, rfl⟩ : ∃ n, fuel = n + 1 := ⟨fuel - 1, by omega⟩
  obtain ⟨buf', hbuf', hread', hline⟩ := h.line hu hserved.1.1 hbuf hread
  have hdispatch : (s.begun u.verb.name).dispatch hashRange (Command.update u).args =
      .ok (false, s.receiving u (u.emptyItem hashRange startTime)) := by
    rw [dispatch_update]
    exact doUpdate_small hu hsmall h.policy h.startTime _
  have hshorter : buf'.readable.length < buf.readable.length := by
    rw [hread', hread, List.length_append, List.length_append]
    exact Nat.lt_add_of_pos_left (Nat.add_pos_right _ (by decide))
  have hstage : Stage hashRange startTime (s.receiving u (u.emptyItem hashRange startTime)) t
      (.update u :: cs) (buf'.readable ++ wire) := by
    rw [hread']
    exact .receiving s t u cs [] _ h hsmall (Nat.succ_pos _) hrest
  have hbytes : buf'.readableBytes < fuel := by
    rw [← hbuf'.length_readable]
    rw [← hbuf.length_readable] at hfuel
    omega
  exact Settles.same (ih _ buf' t _ fuel hshorter hstage hfits hserved hbuf' hbytes)
    (hline hdispatch fuel)

/-- The line of a storage command whose data block is too large. -/
theorem settles_update_large (ih : Shorter hashRange startTime wire buf.readable.length)
    (h : Ready hashRange startTime s t) {rest : Bytes}
    (hread : buf.readable = (Command.update u).line ++ crlf ++ rest)
    (hrest : rest ++ wire = u.data ++ crlf ++ texts cs) (hlarge : 1024 * 1024 < u.data.length)
    (hfits : ∀ c ∈ .update u :: cs, Fits c)
    (hserved : (protocolMachine startTime).Along Served t (.update u :: cs)) (hbuf : buf.Wf)
    {fuel : ℕ} (hfuel : buf.readableBytes < fuel) :
    Settles hashRange startTime s buf t (.update u :: cs) wire fuel := by
  have hu : (Command.update u).WellFormed := (hfits _ List.mem_cons_self).wellFormed
  obtain ⟨hlength, hnoreply, hfit, -⟩ := hserved.1
  obtain ⟨fuel, rfl⟩ : ∃ n, fuel = n + 1 := ⟨fuel - 1, by omega⟩
  obtain ⟨buf', hbuf', hread', hline⟩ := h.line hu hlength hbuf hread
  obtain ⟨needle, hneedle, hstore, hdispatch⟩ :=
    h.doUpdate_large hu hlarge hfit (noreplyWords u.noreply)
  rw [← dispatch_update] at hdispatch
  have hshorter : buf'.readable.length < buf.readable.length := by
    rw [hread', hread, List.length_append, List.length_append]
    exact Nat.lt_add_of_pos_left (Nat.add_pos_right _ (by decide))
  have hnext : t.next startTime (.update u) =
      ⟨t.sent ++ ascii "SERVER_ERROR object too large for cache\r\n", remove t.store u.key⟩ := by
    rw [Dialogue.next, Command.serve, hnoreply, Update.serve, if_pos hlarge]
    rfl
  have hready : Ready hashRange startTime { s with
      requestsProcessed := s.requestsProcessed + 1
      sent := s.sent ++ ascii "SERVER_ERROR object too large for cache\r\n"
      needle := needle
      owner := (s.owner.deleteItem needle).2 } (t.next startTime (.update u)) := by
    rw [hnext]
    exact ⟨h.connected, h.state, h.protocol, h.command, h.noreply, h.policy, h.currItem,
      h.bytesToDiscard, hneedle, h.outputBuf, h.output, h.startTime, hstore, congrArg (· ++ _) h.sent⟩
  have hstage : Stage hashRange startTime (s.discarding u needle) t (.update u :: cs)
      (buf'.readable ++ wire) := by
    rw [hread']
    exact .discarding _ t u cs [] _ hready hlarge (Nat.succ_pos _) hrest
  have hbytes : buf'.readableBytes < fuel := by
    rw [← hbuf'.length_readable]
    rw [← hbuf.length_readable] at hfuel
    omega
  exact Settles.same (ih _ buf' t _ fuel hshorter hstage hfits hserved hbuf' hbytes)
    (hline hdispatch fuel)

theorem settles_ready (ih : Shorter hashRange startTime wire buf.readable.length)
    (h : Ready hashRange startTime s t) (htexts : buf.readable ++ wire = texts cs)
    (hfits : ∀ c ∈ cs, Fits c) (hserved : (protocolMachine startTime).Along Served t cs)
    (hbuf : buf.Wf) {fuel : ℕ} (hfuel : buf.readableBytes < fuel) :
    Settles hashRange startTime s buf t cs wire fuel := by
  have hstage : Stage hashRange startTime s t cs (buf.readable ++ wire) := by
    rw [htexts]
    exact .ready s t cs h
  obtain ⟨fuel, rfl⟩ : ∃ n, fuel = n + 1 := ⟨fuel - 1, by omega⟩
  cases cs with
  | nil =>
    have hempty : buf.readable = [] := (List.append_eq_nil_iff.1 htexts).1
    exact settles_of_waits hstage hbuf (Or.inl hempty) (messageLoop_empty hbuf hempty fuel)
  | cons c cs =>
    obtain ⟨hc, hcs⟩ := List.forall_mem_cons.1 hfits
    have hstep : (protocolMachine startTime).step t c = .ok (t.next startTime c) := rfl
    obtain ⟨hservedc, hservedcs⟩ := (Machine.along_cons_ok hstep).1 hserved
    cases hsearch : Buffer.searchCRLF buf.readable with
    | none =>
      have hshort := partLine_le hc htexts hsearch
      have hlt := hc.short
      rw [hbuf.length_readable] at hshort
      exact settles_of_waits hstage hbuf (Or.inr ⟨h.state, hsearch⟩)
        (messageLoop_partLine h hsearch (by omega) fuel)
    | some n =>
      obtain ⟨rest, hread, hrest⟩ := wholeLine hc htexts hsearch
      have hle : rest.length < buf.readable.length := by
        rw [hread, List.length_append, List.length_append]
        exact Nat.lt_add_of_pos_left (Nat.add_pos_right _ (by decide))
      cases c with
      | update u =>
        by_cases hsmall : u.data.length ≤ 1024 * 1024
        · exact settles_update_small ih h hread hrest hsmall hfits hserved hbuf hfuel
        · exact settles_update_large ih h hread hrest (Nat.lt_of_not_le hsmall) hfits hserved hbuf hfuel
      | get cas keys =>
        have htext : buf.readable = (Command.get cas keys).text ++ rest := by
          rw [hread, Command.text, Command.block, List.append_nil]
        exact settles_reached ih (h.reaches hc.wellFormed hservedc hbuf htext) hrest hle hcs hservedcs
          hfuel
      | delete key noreply =>
        have htext : buf.readable = (Command.delete key noreply).text ++ rest := by
          rw [hread, Command.text, Command.block, List.append_nil]
        exact settles_reached ih (h.reaches hc.wellFormed hservedc hbuf htext) hrest hle hcs hservedcs
          hfuel

/-- The part of a data block that is in the buffer, when all that is missing is there. -/
theorem block_complete {block rest done : Bytes} (hdone : done.length ≤ block.length)
    (hall : block.length - done.length ≤ buf.readable.length)
    (htodo : done ++ (buf.readable ++ wire) = block ++ rest) :
    done ++ buf.readable.take (block.length - done.length) = block ∧
      buf.readable.drop (block.length - done.length) ++ wire = rest := by
  rw [← List.take_append_drop (block.length - done.length) buf.readable, List.append_assoc,
    ← List.append_assoc] at htodo
  refine List.append_inj htodo ?_
  rw [List.length_append, List.length_take_of_le hall]
  omega

theorem settles_receiving (ih : Shorter hashRange startTime wire buf.readable.length)
    (h : Ready hashRange startTime s t) {received : Bytes} (hsmall : u.data.length ≤ 1024 * 1024)
    (hless : received.length < u.data.length + 2)
    (htodo : received ++ (buf.readable ++ wire) = u.data ++ crlf ++ texts cs)
    (hfits : ∀ c ∈ .update u :: cs, Fits c)
    (hserved : (protocolMachine startTime).Along Served t (.update u :: cs)) (hbuf : buf.Wf)
    {fuel : ℕ} (hfuel : buf.readableBytes < fuel) :
    Settles hashRange startTime (s.receiving u (u.partItem hashRange startTime received)) buf t
      (.update u :: cs) wire fuel := by
  obtain ⟨fuel, rfl⟩ : ∃ n, fuel = n + 1 := ⟨fuel - 1, by omega⟩
  have hu : u.WellFormed := (hfits _ List.mem_cons_self).wellFormed
  have hkey : u.key.length ≤ 250 := hu.key.2.1
  have hcrlf : (u.data ++ crlf).length = u.data.length + 2 := List.length_append
  have hlength := hbuf.length_readable
  have hstep : (protocolMachine startTime).step t (.update u) = .ok (t.next startTime (.update u)) := rfl
  obtain ⟨buf', hbuf', hread', hreceive⟩ := receiveValue_part hashRange startTime s
    (by omega) hless hbuf rfl
  by_cases hempty : buf.readable = []
  · exact settles_of_waits (.receiving s t u cs received _ h hsmall hless htodo) hbuf (Or.inl hempty)
      (messageLoop_empty hbuf hempty fuel)
  have hpos : 0 < buf.readableBytes := by
    rw [← hlength]
    exact List.length_pos_iff.2 hempty
  have hstate : ∀ item, (s.receiving u item).state = .kReceiveValue := fun _ => rfl
  by_cases hpart : buf.readableBytes < u.data.length + 2 - received.length
  · -- The block is not complete: the item takes all there is.
    have havail : min buf.readableBytes (u.data.length + 2 - received.length) = buf.readableBytes := by
      omega
    rw [havail] at hread' hreceive
    rw [← hlength, List.drop_length] at hread'
    rw [if_neg (by omega), ← hlength, List.take_length] at hreceive
    have hstage : Stage hashRange startTime
        (s.receiving u (u.partItem hashRange startTime (received ++ buf.readable))) t
        (.update u :: cs) (buf'.readable ++ wire) := by
      rw [hread']
      refine .receiving s t u cs (received ++ buf.readable) _ h hsmall ?_ ?_
      · rw [List.length_append]
        omega
      · rw [← htodo, List.append_assoc]
        rfl
    have hbytes : buf'.readableBytes = 0 := by
      rw [← hbuf'.length_readable, hread']
      rfl
    refine Settles.same (k := 1) (ih _ buf' t _ fuel ?_ hstage hfits hserved hbuf' (by omega))
      (messageLoop_receiving hpos (hstate _) hreceive fuel)
    rw [hread', hlength]
    exact hpos
  · -- The block is complete: the item is stored.
    have havail : min buf.readableBytes (u.data.length + 2 - received.length) =
        u.data.length + 2 - received.length := by
      omega
    obtain ⟨hblock, hrest⟩ := block_complete (by omega) (by omega) htodo
    rw [hcrlf] at hblock hrest
    rw [havail, hblock, if_pos (by omega)] at hreceive
    rw [havail] at hread'
    obtain ⟨s', hfinish, h'⟩ := h.finish hu hserved.1 hsmall
    have hreceived : (s.receiving u (u.partItem hashRange startTime received)).receiveValue hashRange buf =
        .ok (s', buf') := by
      rw [hreceive]
      exact bind_eq_ok.2 ⟨s', hfinish, rfl⟩
    have hstage : Stage hashRange startTime s' (t.next startTime (.update u)) cs
        (buf'.readable ++ wire) := by
      rw [hread', hrest]
      exact .ready s' _ cs h'
    have hshorter : buf'.readable.length < buf.readable.length := by
      rw [hread', List.length_drop]
      omega
    have hbytes : buf'.readableBytes < fuel := by
      rw [← hbuf'.length_readable]
      omega
    exact Settles.next (k := 1) (ih s' buf' _ cs fuel hshorter hstage (List.forall_mem_cons.1 hfits).2
      ((Machine.along_cons_ok hstep).1 hserved).2 hbuf' hbytes)
      (messageLoop_receiving hpos (hstate _) hreceived fuel)

theorem settles_discarding (ih : Shorter hashRange startTime wire buf.readable.length)
    (h : Ready hashRange startTime s (t.next startTime (.update u)))
    (hlarge : 1024 * 1024 < u.data.length) {skipped : Bytes}
    (hless : skipped.length < u.data.length + 2)
    (htodo : skipped ++ (buf.readable ++ wire) = u.data ++ crlf ++ texts cs)
    (hfits : ∀ c ∈ .update u :: cs, Fits c)
    (hserved : (protocolMachine startTime).Along Served t (.update u :: cs)) (hbuf : buf.Wf)
    {fuel : ℕ} (hfuel : buf.readableBytes < fuel) :
    Settles hashRange startTime (s.skipping u (u.data.length + 2 - skipped.length)) buf t
      (.update u :: cs) wire fuel := by
  obtain ⟨fuel, rfl⟩ : ∃ n, fuel = n + 1 := ⟨fuel - 1, by omega⟩
  have hcrlf : (u.data ++ crlf).length = u.data.length + 2 := List.length_append
  have hlength := hbuf.length_readable
  have hstep : (protocolMachine startTime).step t (.update u) = .ok (t.next startTime (.update u)) := rfl
  have hstate : ∀ n, (s.skipping u n).state = .kDiscardValue := fun _ => rfl
  have hbytes : ∀ n, (s.skipping u n).bytesToDiscard = n := fun _ => rfl
  have hitem : ∀ n, (s.skipping u n).currItem = none := fun _ => h.currItem
  by_cases hempty : buf.readable = []
  · exact settles_of_waits (.discarding s t u cs skipped _ h hlarge hless htodo) hbuf (Or.inl hempty)
      (messageLoop_empty hbuf hempty fuel)
  have hpos : 0 < buf.readableBytes := by
    rw [← hlength]
    exact List.length_pos_iff.2 hempty
  by_cases hpart : buf.readableBytes < u.data.length + 2 - skipped.length
  · -- All there is is thrown away.
    have hdiscard : (s.skipping u (u.data.length + 2 - skipped.length)).discardValue buf =
        .ok (s.skipping u (u.data.length + 2 - (skipped ++ buf.readable).length), buf.retrieveAll) := by
      rw [discardValue, check_of (hitem _), ok_bind, check_of (hstate _), ok_bind, hbytes, if_pos hpart,
        List.length_append, hlength, ← Nat.sub_sub]
      rfl
    have hstage : Stage hashRange startTime
        (s.skipping u (u.data.length + 2 - (skipped ++ buf.readable).length)) t (.update u :: cs)
        (buf.retrieveAll.readable ++ wire) := by
      rw [Buffer.readable_retrieveAll]
      refine .discarding s t u cs (skipped ++ buf.readable) _ h hlarge ?_ ?_
      · rw [List.length_append]
        omega
      · rw [← htodo, List.append_assoc]
        rfl
    have hzero : buf.retrieveAll.readableBytes = 0 := by
      rw [← hbuf.retrieveAll.length_readable, Buffer.readable_retrieveAll]
      rfl
    refine Settles.same (k := 1) (ih _ buf.retrieveAll t _ fuel ?_ hstage hfits hserved
      hbuf.retrieveAll (by omega)) (messageLoop_discarding hpos (hstate _) hdiscard fuel)
    rw [Buffer.readable_retrieveAll, hlength]
    exact hpos
  · -- What is left of the block is thrown away.
    obtain ⟨-, hrest⟩ := block_complete (by omega) (by omega) htodo
    rw [hcrlf] at hrest
    obtain ⟨buf', hretrieve, hbuf', hread'⟩ :=
      hbuf.retrieve (by omega : u.data.length + 2 - skipped.length ≤ buf.readableBytes)
    have hdiscard : (s.skipping u (u.data.length + 2 - skipped.length)).discardValue buf =
        .ok ({ s.resetRequest with state := .kNewCommand }, buf') := by
      rw [discardValue, check_of (hitem _), ok_bind, check_of (hstate _), ok_bind, hbytes, if_neg hpart,
        hretrieve]
      rfl
    have h' : Ready hashRange startTime { s.resetRequest with state := .kNewCommand }
        (t.next startTime (.update u)) :=
      ⟨h.connected, rfl, h.protocol, rfl, rfl, rfl, rfl, rfl, h.needle, h.outputBuf, h.output,
        h.startTime, h.store, h.sent⟩
    have hstage : Stage hashRange startTime { s.resetRequest with state := .kNewCommand }
        (t.next startTime (.update u)) cs (buf'.readable ++ wire) := by
      rw [hread', hrest]
      exact .ready _ _ cs h'
    have hshorter : buf'.readable.length < buf.readable.length := by
      rw [hread', List.length_drop]
      omega
    have hfuel' : buf'.readableBytes < fuel := by
      rw [← hbuf'.length_readable]
      omega
    exact Settles.next (k := 1) (ih _ buf' _ cs fuel hshorter hstage (List.forall_mem_cons.1 hfits).2
      ((Machine.along_cons_ok hstep).1 hserved).2 hbuf' hfuel')
      (messageLoop_discarding hpos (hstate _) hdiscard fuel)

/-- The loop gets as far as the bytes go, whatever the stage. -/
theorem settles (hashRange : Bytes → ℕ) (startTime : ℤ) (wire : Bytes) (n : ℕ) :
    Shorter hashRange startTime wire n := by
  induction n with
  | zero => exact fun _ _ _ _ _ hlt => absurd hlt (Nat.not_lt_zero _)
  | succ n ih =>
    intro s buf t cs fuel hlt hstage hfits hserved hbuf hfuel
    have ih' : Shorter hashRange startTime wire buf.readable.length :=
      fun s' buf' t' cs' fuel' hlt' => ih s' buf' t' cs' fuel' (by omega)
    generalize htodo : buf.readable ++ wire = todo at hstage
    cases hstage with
    | ready _ _ _ h => exact settles_ready ih' h htodo hfits hserved hbuf hfuel
    | receiving s _ u cs received _ h hsmall hless hblock =>
      rw [← htodo] at hblock
      exact settles_receiving ih' h hsmall hless hblock hfits hserved hbuf hfuel
    | discarding s _ u cs skipped _ h hlarge hless hblock =>
      rw [← htodo] at hblock
      exact settles_discarding ih' h hlarge hless hblock hfits hserved hbuf hfuel

/-! ## Runs -/

/-- The count of the bytes that were read does not matter. -/
theorem Stage.counted (h : Stage hashRange startTime s t cs todo) (n : ℕ) :
    Stage hashRange startTime { s with bytesRead := n } t cs todo := by
  have hready : ∀ {s : Session} {t : Dialogue}, Ready hashRange startTime s t →
      Ready hashRange startTime { s with bytesRead := n } t := fun h =>
    ⟨h.connected, h.state, h.protocol, h.command, h.noreply, h.policy, h.currItem, h.bytesToDiscard,
      h.needle, h.outputBuf, h.output, h.startTime, h.store, h.sent⟩
  cases h with
  | ready _ _ _ h => exact .ready _ t cs (hready h)
  | receiving s _ u cs received _ h hsmall hless hblock =>
    exact .receiving { s with bytesRead := n } t u cs received _ (hready h) hsmall hless hblock
  | discarding s _ u cs skipped _ h hlarge hless hblock =>
    exact .discarding { s with bytesRead := n } t u cs skipped _ (hready h) hlarge hless hblock

/-- Between two calls of `onMessage` that have taken all they can. -/
structure Paused (hashRange : Bytes → ℕ) (startTime : ℤ) (s : Session) (buf : Buffer) (t : Dialogue)
    (cs : List Command) (wire : Bytes) : Prop where
  stage : Stage hashRange startTime s t cs (buf.readable ++ wire)
  wf : buf.Wf
  waits : Waits s buf

/-- A chunk finishes some commands. -/
theorem Paused.chunk {chunk : Bytes} (h : Paused hashRange startTime s buf t cs (chunk ++ wire))
    (hfits : ∀ c ∈ cs, Fits c) (hserved : (protocolMachine startTime).Along Served t cs) :
    ∃ s' buf' done cs' t', (chunkMachine hashRange).step (s, buf) chunk = .ok (s', buf') ∧
      cs = done ++ cs' ∧ (protocolMachine startTime).run t done = .ok t' ∧
      Paused hashRange startTime s' buf' t' cs' wire := by
  obtain ⟨buf₁, happend, hbuf₁, hread₁⟩ := h.wf.append chunk
  have hstage := h.stage
  rw [← List.append_assoc, ← hread₁] at hstage
  obtain ⟨s', buf', done, cs', t', hloop, hcs, hrun, hstage', hbuf', hwaits⟩ :=
    settles hashRange startTime wire _ s buf₁ t cs _ (Nat.lt_succ_self _) hstage hfits hserved hbuf₁
      (Nat.lt_succ_self _)
  refine ⟨{ s' with bytesRead := s'.bytesRead + (buf₁.readableBytes - buf'.readableBytes) }, buf', done,
    cs', t', ?_, hcs, hrun, hstage'.counted _, hbuf', hwaits⟩
  exact bind_eq_ok.2 ⟨buf₁, happend, bind_eq_ok.2 ⟨_, hloop, rfl⟩⟩

theorem Paused.run {chunks : List Bytes}
    (h : Paused hashRange startTime s buf t cs (chunks.flatten ++ wire)) (hfits : ∀ c ∈ cs, Fits c)
    (hserved : (protocolMachine startTime).Along Served t cs) :
    ∃ s' buf' done cs' t', (chunkMachine hashRange).run (s, buf) chunks = .ok (s', buf') ∧
      cs = done ++ cs' ∧ (protocolMachine startTime).run t done = .ok t' ∧
      Paused hashRange startTime s' buf' t' cs' wire := by
  induction chunks generalizing s buf t cs with
  | nil => exact ⟨s, buf, [], cs, t, rfl, rfl, rfl, h⟩
  | cons chunk chunks ih =>
    rw [List.flatten_cons, List.append_assoc] at h
    obtain ⟨s₁, buf₁, done, cs₁, t₁, hstep, rfl, hrun, h₁⟩ := h.chunk hfits hserved
    obtain ⟨s', buf', done', cs', t', hsteps, rfl, hrun', h'⟩ :=
      ih h₁ (fun c hc => hfits c (List.mem_append_right _ hc))
        ((Machine.along_append.1 hserved).2 t₁ hrun)
    exact ⟨s', buf', done ++ done', cs', t', (Machine.run_cons_ok hstep chunks).trans hsteps,
      (List.append_assoc ..).symm, (Machine.run_append hrun done').trans hrun', h'⟩

/-- When all bytes have arrived, all commands are answered. -/
theorem Paused.ready (h : Paused hashRange startTime s buf t cs []) (hfits : ∀ c ∈ cs, Fits c) :
    cs = [] ∧ buf.readable = [] ∧ Ready hashRange startTime s t := by
  obtain ⟨hstage, hbuf, hwaits⟩ := h
  generalize htodo : buf.readable ++ [] = todo at hstage
  rw [List.append_nil] at htodo
  have hmissing : ∀ {done block rest : Bytes}, buf.readable = [] → done ++ todo = block ++ rest →
      ¬ done.length < block.length := by
    intro done block rest hempty heq hlt
    rw [← htodo, hempty, List.append_nil] at heq
    rw [heq, List.length_append] at hlt
    omega
  cases hstage with
  | ready _ _ _ h =>
    cases cs with
    | nil => exact ⟨rfl, htodo, h⟩
    | cons c cs =>
      have hsearch : Buffer.searchCRLF buf.readable = some c.line.length := by
        rw [htodo, texts, List.flatMap_cons, Command.text, List.append_assoc]
        exact searchCRLF_line_text (hfits c List.mem_cons_self).wellFormed _
      rcases hwaits with hempty | ⟨-, hnone⟩
      · rw [hempty] at hsearch
        cases hsearch
      · rw [hsearch] at hnone
        cases hnone
  | receiving s _ u cs received _ h hsmall hless hblock =>
    rcases hwaits with hempty | ⟨hstate, -⟩
    · exact absurd (by rwa [List.length_append]) (hmissing hempty hblock)
    · cases hstate
  | discarding s _ u cs skipped _ h hlarge hless hblock =>
    rcases hwaits with hempty | ⟨hstate, -⟩
    · exact absurd (by rwa [List.length_append]) (hmissing hempty hblock)
    · cases hstate

/-- Commands that arrive in any pieces are answered as the protocol says. -/
theorem answers_in_pieces (hashRange : Bytes → ℕ) (owner : MemcacheServer) (m : CasMap)
    (commands : List Command) (chunks : List Bytes) (hstore : Represents hashRange owner m)
    (hfits : ∀ c ∈ commands, Fits c)
    (hserved : (protocolMachine owner.startTime).Along Served ⟨[], m⟩ commands)
    (hchunks : chunks.flatten = commands.flatMap Command.text) :
    ∃ s₀ s buf t, Session.new hashRange owner = .ok s₀ ∧
      (chunkMachine hashRange).run (s₀, Buffer.empty) chunks = .ok (s, buf) ∧
      (protocolMachine owner.startTime).run ⟨[], m⟩ commands = .ok t ∧
      s.sent = t.sent ∧ s.state = .kNewCommand ∧ buf.readable = [] ∧
      ∀ key : Item, key.Keyed hashRange →
        (s.owner.getItem key).map Item.entry = t.store.map key.keyBytes := by
  obtain ⟨s₀, hnew, h₀⟩ := ready_new hstore
  have hpaused : Paused hashRange owner.startTime s₀ Buffer.empty ⟨[], m⟩ commands
      (chunks.flatten ++ []) := by
    refine ⟨?_, Buffer.wf_empty, Or.inl Buffer.readable_empty⟩
    rw [Buffer.readable_empty, List.append_nil, hchunks]
    exact .ready s₀ _ commands h₀
  obtain ⟨s, buf, done, cs, t, hrun, rfl, hprotocol, h⟩ := hpaused.run hfits hserved
  obtain ⟨rfl, hempty, hready⟩ := h.ready fun c hc => hfits c (List.mem_append_right _ hc)
  rw [List.append_nil]
  exact ⟨s₀, s, buf, t, hnew, hrun, hprotocol, hready.sent, hready.state, hempty,
    fun key hkey => hready.store.getItem hkey⟩

instance (c : Command) : Decidable (Fits c) :=
  decidable_of_iff (c.WellFormed ∧ c.line.length < 1024)
    ⟨fun h => ⟨h.1, h.2⟩, fun h => ⟨h.wellFormed, h.short⟩⟩

/-- Cut in the middle of a data block, of a line and of a CRLF. -/
theorem answers_in_pieces_four : ∃ s₀ s buf t, Session.new boostHashRange (.new 0) = .ok s₀ ∧
    (chunkMachine boostHashRange).run (s₀, Buffer.empty)
      [ascii "set k 7 -1 2\r\n\r", ascii "\n\r\nget", ascii " l\r", ascii "\ndelete k\r\n"] =
        .ok (s, buf) ∧
    (protocolMachine 0).run ⟨[], .empty⟩
      [.update ⟨.set, ascii "k", ascii "7", ascii "-1", ascii "2", false, crlf⟩,
        .get false [ascii "l"], .delete (ascii "k") false] = .ok t ∧
    s.sent = t.sent ∧ s.state = .kNewCommand ∧ buf.readable = [] ∧
    ∀ key : Item, key.Keyed boostHashRange →
      (s.owner.getItem key).map Item.entry = t.store.map key.keyBytes :=
  answers_in_pieces boostHashRange (.new 0) .empty _ _ (represents_new 0) (by decide +kernel)
    (by decide +kernel) (by decide +kernel)

end Session

end Reactor
