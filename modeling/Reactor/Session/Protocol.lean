import Reactor.MemcacheServer.Tokens
import Reactor.Session.Commands

/-!
# A session against the text protocol

Between two commands a session is `Ready`: its fields are reset, and its store represents that of the
protocol.  A command takes it from one such state to the next (`Ready.reaches`) if the command is
`Served`.

* `Served` leaves out what the session gets wrong: `noreply`, which it never sees; a hit of `get`,
  where a space is missing; `prepend`, which has no policy; `append`, which puts the new data in front.
* `conforms_of_served`: commands that are all served are answered as the protocol says.
-/

namespace Reactor

namespace Session

open MemcacheServer

/-- The commands that the session serves as the protocol says. -/
def Served (t : Dialogue) (c : Command) : Prop :=
  c.line.length < 2 ^ 31 ∧
    match c with
    | .update u => u.noreply = false ∧ u.data.length + 2 < 2 ^ 31 ∧
        (u.data.length ≤ 1024 * 1024 → u.verb ≠ .prepend ∧ (u.verb = .append →
          ∀ old ∈ t.store.map u.key, old.value ++ u.data = u.data ++ old.value ∧
            u.key.length + u.data.length + old.value.length + 2 < 2 ^ 31))
    | .get _ keys => ∀ key ∈ keys, t.store.map key = none
    | .delete _ noreply => noreply = false

instance (t : Dialogue) : ∀ c, Decidable (Served t c)
  | .update _ => inferInstanceAs (Decidable (_ ∧ _ ∧ _ ∧ (_ → _ ∧ (_ → ∀ old ∈ _, _))))
  | .get _ _ => inferInstanceAs (Decidable (_ ∧ ∀ key ∈ _, _ = _))
  | .delete _ _ => inferInstanceAs (Decidable (_ ∧ _ = _))

variable (hashRange : Bytes → ℕ)

/-- Every chunk arrives as a whole, and is a list of whole commands. -/
def machine : Machine (Session × Buffer) (List Command) Fault :=
  ⟨fun (s, buf) chunk => do s.onMessage hashRange (← buf.append (chunk.flatMap Command.text))⟩

/-- A new session sends what the protocol says, and leaves the store of the protocol. -/
def Conforms (owner : MemcacheServer) (m : CasMap) (chunks : List (List Command)) : Prop :=
  ∃ s₀ s buf t, Session.new hashRange owner = .ok s₀ ∧
    (machine hashRange).run (s₀, Buffer.empty) chunks = .ok (s, buf) ∧
    (protocolMachine owner.startTime).run ⟨[], m⟩ chunks.flatten = .ok t ∧
    s.sent = t.sent ∧
    ∀ key : Item, key.Keyed hashRange →
      (s.owner.getItem key).map Item.entry = t.store.map key.keyBytes

/-- A session between two commands. -/
structure Ready (startTime : ℤ) (s : Session) (t : Dialogue) : Prop where
  connected : s.connected = true
  state : s.state = .kNewCommand
  protocol : s.protocol = .kAscii
  command : s.command = []
  noreply : s.noreply = false
  policy : s.policy = .kInvalid
  currItem : s.currItem = none
  bytesToDiscard : s.bytesToDiscard = 0
  needle : s.needle.Needle
  outputBuf : s.outputBuf.Wf
  output : s.outputBuf.readable = []
  startTime : s.owner.startTime = startTime
  store : Represents hashRange s.owner t.store
  sent : s.sent = t.sent

variable {hashRange} {startTime : ℤ} {s : Session} {t : Dialogue} {buf : Buffer} {rest : Bytes}
  {c : Command}

/-! ## Lines -/

/-- A piece of length `0` is not `" noreply"`. -/
theorem checkNoreply_eq (s : Session) (request : StringPiece) :
    s.checkNoreply request = (s, request) := by
  unfold checkNoreply
  refine if_neg fun h => ?_
  have hlength : (0 : ℤ) = (StringPiece.ofString (ascii " noreply")).length :=
    (of_decide_eq_true h.2).1
  exact absurd hlength (by decide)

/-- The session with a request under way. -/
def begun (s : Session) (name : Bytes) : Session :=
  { s with requestsProcessed := s.requestsProcessed + 1, command := name }

theorem Ready.processRequest (h : Ready hashRange startTime s t) (hc : c.WellFormed)
    {request : StringPiece} (hrequest : request.read = .ok c.line) :
    s.processRequest hashRange request = (s.begun c.name).dispatch hashRange c.args := by
  unfold Session.processRequest
  rw [check_of h.command, ok_bind, check_of h.noreply, ok_bind, check_of h.policy, ok_bind,
    check_of h.currItem, ok_bind, check_of h.bytesToDiscard, ok_bind]
  dsimp only
  rw [checkNoreply_eq]
  dsimp only
  rw [hrequest, ok_bind, tokens_line hc]
  rfl

/-- The line of a command is taken out of the buffer, and the command is started. -/
theorem Ready.line (h : Ready hashRange startTime s t) (hc : c.WellFormed)
    (hlength : c.line.length < 2 ^ 31) (hbuf : buf.Wf)
    (hread : buf.readable = c.line ++ crlf ++ rest) :
    ∃ buf', buf'.Wf ∧ buf'.readable = rest ∧
      ∀ {done s'}, (s.begun c.name).dispatch hashRange c.args = .ok (done, s') →
        ∀ fuel, messageLoop hashRange (fuel + 1) s buf =
          messageLoop hashRange fuel (if done then s'.resetRequest else s') buf' := by
  have hsearch : Buffer.searchCRLF buf.readable = some c.line.length := by
    rw [hread]
    exact searchCRLF_line_text hc rest
  have hle : c.line.length + 2 ≤ buf.readableBytes := by
    rw [← hbuf.length_readable]
    exact Buffer.searchCRLF_le hsearch
  have hfind : buf.findCRLF = some (buf.peek + c.line.length) := by
    rw [Buffer.findCRLF, hsearch]
    rfl
  have hpiece : StringPiece.read ⟨buf.buffer.drop buf.peek, intOfSize c.line.length⟩ = .ok c.line := by
    rw [hbuf.read_piece (by omega) hlength, hread, List.append_assoc, List.take_left]
  obtain ⟨buf', hretrieve, hwf, hrest⟩ := hbuf.retrieveLine hsearch
  refine ⟨buf', hwf, ?_, ?_⟩
  · have hcrlf : (c.line ++ crlf).length = c.line.length + 2 := List.length_append
    rw [hrest, hread, ← hcrlf, List.drop_left]
  · intro done s' hdispatch fuel
    have hdetect : s.detect buf = .ok s := by
      unfold detect
      rw [h.protocol]
      rfl
    rw [messageLoop, if_pos (by omega), h.state]
    dsimp only
    rw [hdetect, ok_bind, check_of (Or.inl h.protocol), ok_bind, h.protocol, if_neg (by decide), hfind]
    dsimp only
    rw [Nat.add_sub_cancel_left, h.processRequest hc hpiece, hdispatch, ok_bind]
    dsimp only
    rw [hretrieve, ok_bind]

/-! ## Storage commands -/

theorem dispatch_update (verb : Verb) (beg : List Bytes) :
    (s.begun verb.name).dispatch hashRange beg = (s.begun verb.name).doUpdate hashRange beg := by
  refine if_pos ?_
  show verb.name = _ ∨ verb.name = _ ∨ verb.name = _ ∨ verb.name = _ ∨ verb.name = _ ∨ verb.name = _
  cases verb with
  | set | add | replace | append | prepend => decide
  | cas token => exact Or.inr (Or.inr (Or.inr (Or.inr (Or.inr rfl))))

/-- The numbers of a storage command are read as they were written. -/
theorem readNumbers_eq {u : Update} (hu : u.WellFormed) (hfit : u.data.length + 2 < 2 ^ 31)
    (more : List Bytes) :
    readNumbers (policyOf .kInvalid u.verb.name) u.key
      (u.flags :: u.exptime :: u.bytes :: (u.verb.args ++ more)) =
      (true, ⟨ofDecimal u.flags, timeOf u.exptime, u.data.length, u.verb.token⟩) := by
  have hflags := hu.flags.2
  have hbytes := hu.bytes.2
  have huint : toUInt32 (ofDecimal u.flags) = ofDecimal u.flags := Nat.mod_eq_of_lt hflags
  have hint : toInt (ofDecimal u.bytes) = u.data.length := by
    rw [hbytes]
    exact Item.bmod_of_lt (by omega) (by omega)
  have hread : ∀ val first, read (fun x => toInt x) val (u.bytes :: first) =
      (true, toInt (ofDecimal u.bytes), first) := read_digits hu.bytes.1 (by omega)
  simp only [readNumbers, decide_eq_true hu.key.2.1, if_true,
    read_digits hu.flags.1 (Nat.lt_trans hflags (by decide)), read_time hu.exptime, hread, huint, hint,
    true_and]
  cases hverb : u.verb with
  | set | add | replace | append | prepend => rfl
  | cas token =>
    have htoken := hu.token token (by rw [hverb]; exact List.mem_singleton_self token)
    have hpolicy : policyOf .kInvalid (Verb.cas token).name = .kCas := by
      exact (by decide : policyOf .kInvalid (ascii "cas") = .kCas)
    simp only [hpolicy, if_true, Verb.args, List.singleton_append, read_digits htoken.1 htoken.2]
    rfl

theorem read_piece (key : Bytes) : (piece key).read = .ok key := by
  rw [piece, StringPiece.read_of_le le_rfl, List.take_length]

/-- The item of a storage command. -/
def Update.item (hashRange : Bytes → ℕ) (startTime : ℤ) (u : Update) : Item :=
  .full hashRange u.key (ofDecimal u.flags) (relExptime startTime (timeOf u.exptime)) u.data
    u.verb.token

/-- The same item before its data block arrives. -/
def Update.emptyItem (hashRange : Bytes → ℕ) (startTime : ℤ) (u : Update) : Item :=
  .filled hashRange u.key (ofDecimal u.flags) (relExptime startTime (timeOf u.exptime))
    (u.data.length + 2) u.verb.token []

/-- The session while the data block of a command arrives. -/
def receiving (s : Session) (u : Update) (item : Item) : Session :=
  { s.begun u.verb.name with
    policy := policyOf .kInvalid u.verb.name
    currItem := some item
    state := .kReceiveValue }

variable {u : Update}

/-- A storage command whose data block is small enough starts an item. -/
theorem doUpdate_small (hu : u.WellFormed) (hsmall : u.data.length ≤ 1024 * 1024)
    (hpolicy : s.policy = .kInvalid) (hstart : s.owner.startTime = startTime) (more : List Bytes) :
    (s.begun u.verb.name).doUpdate hashRange
      (u.key :: u.flags :: u.exptime :: u.bytes :: (u.verb.args ++ more)) =
      .ok (false, s.receiving u (u.emptyItem hashRange startTime)) := by
  have hkey : u.key.length ≤ 250 := hu.key.2.1
  have hlen : toInt ((u.data.length : ℤ) + 2) = (u.data.length + 2 : ℕ) :=
    Item.bmod_of_lt (by omega) (by omega)
  unfold doUpdate
  rw [next, ok_bind]
  simp only [begun, hpolicy, hstart, readNumbers_eq hu (by omega)]
  rw [if_neg (by simp), if_neg (by omega), hlen,
    Item.new_eq_filled (by omega) (by omega) (read_piece u.key) rfl]
  rfl

theorem reply_eq (hconnected : s.connected = true) (hnoreply : s.noreply = false) (msg : String) :
    s.reply msg = { s with sent := s.sent ++ ascii msg } := by
  unfold reply send
  rw [hnoreply, hconnected]
  rfl

/-- The data block arrives as a whole. -/
theorem messageLoop_value {s' : Session} (hsmall : u.key.length + u.data.length + 2 < 2 ^ 31)
    (hbuf : buf.Wf) (hread : buf.readable = u.data ++ crlf ++ rest)
    (hfinish : (s.receiving u (u.item hashRange startTime)).finishValue hashRange
      (u.item hashRange startTime) = .ok s') :
    ∃ buf', buf'.Wf ∧ buf'.readable = rest ∧
      ∀ fuel, messageLoop hashRange (fuel + 1) (s.receiving u (u.emptyItem hashRange startTime)) buf =
        messageLoop hashRange fuel s' buf' := by
  have hcrlf : (u.data ++ crlf).length = u.data.length + 2 := List.length_append
  have hbytes : buf.readableBytes = u.data.length + 2 + rest.length := by
    rw [← hbuf.length_readable, hread, List.length_append, hcrlf]
  have hneeded : (u.emptyItem hashRange startTime).neededBytes = u.data.length + 2 :=
    Item.neededBytes_filled (by omega) (Nat.zero_le _)
  have havail : min buf.readableBytes (u.data.length + 2) = u.data.length + 2 := by omega
  have hslice : Vec.slice buf.buffer buf.peek (buf.peek + (u.data.length + 2)) = u.data ++ crlf := by
    rw [hbuf.slice_peek (by omega), hread, ← hcrlf, List.take_left]
  have happend : (u.emptyItem hashRange startTime).append (u.data ++ crlf) =
      .ok (u.item hashRange startTime) :=
    Item.append_filled (by omega) (by rw [hcrlf]; exact Nat.le_of_eq (Nat.zero_add _))
  have hfull : (u.item hashRange startTime).neededBytes = 0 := Item.neededBytes_full hsmall
  obtain ⟨buf', hretrieve, hwf, hrest⟩ :=
    hbuf.retrieve (by omega : u.data.length + 2 ≤ buf.readableBytes)
  have hreceive : (s.receiving u (u.emptyItem hashRange startTime)).receiveValue hashRange buf =
      .ok (s', buf') := by
    dsimp only [receiving, receiveValue]
    rw [check_of rfl, ok_bind, hneeded, havail, hslice, happend, ok_bind, hretrieve, ok_bind,
      if_pos hfull]
    exact bind_eq_ok.2 ⟨s', hfinish, rfl⟩
  refine ⟨buf', hwf, by rw [hrest, hread, ← hcrlf, List.drop_left], fun fuel => ?_⟩
  have hstate : (s.receiving u (u.emptyItem hashRange startTime)).state = .kReceiveValue := rfl
  rw [messageLoop, if_pos (by omega), hstate]
  dsimp only
  rw [hreceive]
  rfl

theorem finishValue_eq {item : Item} {stored existed : Bool} {owner : MemcacheServer}
    (hconnected : s.connected = true) (hnoreply : s.noreply = false)
    (hcrlf : item.endsWithCRLF = true)
    (hstore : s.owner.storeItem hashRange item s.policy = .ok (stored, existed, owner)) :
    s.finishValue hashRange item = .ok { s with
      owner := owner
      sent := s.sent ++ ascii (storeReply s.policy stored existed)
      state := .kNewCommand
      command := []
      noreply := false
      policy := .kInvalid
      currItem := none
      bytesToDiscard := 0 } := by
  unfold finishValue
  rw [if_pos hcrlf, hstore, ok_bind]
  dsimp only
  rw [reply_eq (by exact hconnected) (by exact hnoreply)]
  rfl

/-- The loop gets through some commands: they are taken out of the buffer, and the session is ready
again. -/
def Reaches (hashRange : Bytes → ℕ) (startTime : ℤ) (s : Session) (buf : Buffer) (t' : Dialogue)
    (rest : Bytes) : Prop :=
  ∃ steps s' buf', steps + rest.length ≤ buf.readableBytes ∧ Ready hashRange startTime s' t' ∧
    buf'.Wf ∧ buf'.readable = rest ∧
    ∀ fuel, messageLoop hashRange (fuel + steps) s buf = messageLoop hashRange fuel s' buf'

theorem policyOf_name {verb : Verb} (happend : verb ≠ .append) (hprepend : verb ≠ .prepend) :
    policyOf .kInvalid verb.name = verb.policy := by
  cases verb with
  | set | add | replace => decide
  | append => exact absurd rfl happend
  | prepend => exact absurd rfl hprepend
  | cas token => exact (by decide : policyOf .kInvalid (ascii "cas") = .kCas)

theorem storeReply_refusal (verb : Verb) (existed : Bool) :
    ascii (storeReply (policyOf .kInvalid verb.name) false existed) = verb.refusal existed := by
  cases verb with
  | set | add | replace | append | prepend => rfl
  | cas token =>
    cases existed with
    | false => rfl
    | true => rfl

theorem keyBytes_item : (u.item hashRange startTime).keyBytes = u.key := Item.keyBytes_full

theorem entry_item : (u.item hashRange startTime).entry = u.entry startTime := entry_full

/-- The map cannot tell the policy of the session from that of the command. -/
theorem call_policyOf {m : CasMap} (hprepend : u.verb ≠ .prepend)
    (happend : u.verb = .append → ∀ old ∈ m.map u.key, old.value ++ u.data = u.data ++ old.value) :
    m.call (.store (u.item hashRange startTime) (policyOf .kInvalid u.verb.name)) =
      m.call (.store (u.item hashRange startTime) u.verb.policy) := by
  by_cases hverb : u.verb = .append
  · have hpolicy : policyOf .kInvalid (Verb.append).name = .kPrepend := by decide
    rw [hverb, hpolicy]
    cases hold : m.map u.key with
    | none =>
      rw [CasMap.call_rejects (by rw [keyBytes_item, CasMap.accepts, hold]; rfl),
        CasMap.call_rejects (by rw [keyBytes_item, Verb.policy, CasMap.accepts, hold]; rfl)]
    | some old =>
      have hcommute := happend hverb old hold
      rw [CasMap.call_accepts (by rw [keyBytes_item, CasMap.accepts, hold]; rfl),
        CasMap.call_accepts (by rw [keyBytes_item, Verb.policy, CasMap.accepts, hold]; rfl),
        keyBytes_item, entry_item, hold]
      simp only [Verb.policy, CasMap.combine, Update.entry, hcommute]
  · rw [policyOf_name hverb hprepend]

/-- The protocol does with a storage command what the map does with its item. -/
theorem serve_of_call {m : CasMap} {stored existed : Bool} (hsmall : u.data.length ≤ 1024 * 1024)
    (hprepend : u.verb ≠ .prepend)
    (happend : u.verb = .append → ∀ old ∈ m.map u.key, old.value ++ u.data = u.data ++ old.value)
    (hresult : (m.call (.store (u.item hashRange startTime) (policyOf .kInvalid u.verb.name))).1 =
      .stored stored existed) :
    u.serve startTime m = (ascii (storeReply (policyOf .kInvalid u.verb.name) stored existed),
      (m.call (.store (u.item hashRange startTime) (policyOf .kInvalid u.verb.name))).2) := by
  have hcas : (u.item hashRange startTime).cas = u.verb.token := rfl
  rw [call_policyOf hprepend happend] at hresult ⊢
  unfold Update.serve
  rw [if_neg (by omega)]
  by_cases haccepts : m.accepts u.verb.policy u.key u.verb.token = true
  · rw [CasMap.call_accepts (by rw [keyBytes_item, hcas]; exact haccepts)] at hresult ⊢
    obtain ⟨rfl, -⟩ := Result.stored.inj hresult
    rw [if_pos haccepts, keyBytes_item, entry_item]
    rfl
  · rw [Bool.not_eq_true] at haccepts
    rw [CasMap.call_rejects (by rw [keyBytes_item, hcas]; exact haccepts)] at hresult ⊢
    obtain ⟨rfl, rfl⟩ := Result.stored.inj hresult
    rw [haccepts, if_neg (by decide), storeReply_refusal, keyBytes_item]

theorem policyOf_ne_kInvalid {verb : Verb} (hprepend : verb ≠ .prepend) :
    policyOf .kInvalid verb.name ≠ .kInvalid := by
  by_cases happend : verb = .append
  · rw [happend]
    decide
  · rw [policyOf_name happend hprepend]
    cases verb <;> exact fun h => (by cases h)

theorem eq_append_of_policyOf {verb : Verb} (hprepend : verb ≠ .prepend)
    (hpolicy : policyOf .kInvalid verb.name = .kAppend ∨ policyOf .kInvalid verb.name = .kPrepend) :
    verb = .append := by
  by_contra happend
  rw [policyOf_name happend hprepend] at hpolicy
  cases verb with
  | append => exact happend rfl
  | prepend => exact hprepend rfl
  | set | add | replace | cas => rcases hpolicy with hpolicy | hpolicy <;> cases hpolicy

/-- The item of a served command may be stored. -/
theorem Ready.valid (h : Ready hashRange startTime s t)
    (hsmall : u.key.length + u.data.length + 2 < 2 ^ 31) (hprepend : u.verb ≠ .prepend)
    (happend : u.verb = .append → ∀ old ∈ t.store.map u.key,
      u.key.length + u.data.length + old.value.length + 2 < 2 ^ 31) :
    Valid hashRange s.owner
      (.store (u.item hashRange startTime) (policyOf .kInvalid u.verb.name)) := by
  have hcomplete : (u.item hashRange startTime).Complete hashRange := Item.complete_full hsmall
  refine ⟨hcomplete, policyOf_ne_kInvalid hprepend, fun hpolicy old hold => ?_⟩
  have hget := h.store.getItem hcomplete.toKeyed
  rw [hold, keyBytes_item] at hget
  have hfit := happend (eq_append_of_policyOf hprepend hpolicy) _ hget.symm
  rw [Option.mem_def, MemcacheServer.getItem, h.store.find_items hcomplete.toKeyed] at hold
  have hlength := (h.store.lookup_some hold).1.length_payload
  have hpayload : old.entry.value = old.payload := rfl
  rw [hpayload] at hfit
  rw [Update.item, Item.full_eq]
  dsimp only
  omega

/-- Every command has a line. -/
theorem two_le_text (hbuf : buf.Wf) (hread : buf.readable = c.text ++ rest) :
    2 + rest.length ≤ buf.readableBytes := by
  have htext : 2 ≤ c.text.length := by
    rw [Command.text, List.length_append, List.length_append]
    exact Nat.le_trans (Nat.le_add_left 2 _) (Nat.le_add_right _ _)
  rw [← hbuf.length_readable, hread, List.length_append]
  omega

theorem Ready.update_small (h : Ready hashRange startTime s t) (hu : u.WellFormed)
    (hserved : Served t (.update u)) (hsmall : u.data.length ≤ 1024 * 1024) (hbuf : buf.Wf)
    (hread : buf.readable = (Command.update u).text ++ rest) :
    Reaches hashRange startTime s buf (t.next startTime (.update u)) rest := by
  obtain ⟨hlength, hnoreply, -, hverb⟩ := hserved
  obtain ⟨hprepend, happend⟩ := hverb hsmall
  have hkey : u.key.length ≤ 250 := hu.key.2.1
  have htext : buf.readable = (Command.update u).line ++ crlf ++ (u.data ++ crlf ++ rest) := by
    rw [hread, Command.text, Command.block, List.append_assoc]
  obtain ⟨buf₁, hbuf₁, hread₁, hline⟩ := h.line (c := .update u) hu hlength hbuf htext
  have hdispatch : (s.begun u.verb.name).dispatch hashRange (Command.update u).args =
      .ok (false, s.receiving u (u.emptyItem hashRange startTime)) := by
    rw [dispatch_update]
    exact doUpdate_small hu hsmall h.policy h.startTime _
  obtain ⟨stored, existed, owner, hstore, hresult, howner⟩ := h.store.follows
    (h.valid (by omega) hprepend fun hverb old hold => (happend hverb old hold).2)
  have hcrlf : (u.item hashRange startTime).endsWithCRLF = true := Item.endsWithCRLF_full (by omega)
  obtain ⟨buf₂, hbuf₂, hread₂, hvalue⟩ := messageLoop_value (by omega) hbuf₁ hread₁
    (finishValue_eq (by exact h.connected) (by exact h.noreply) hcrlf (by exact hstore))
  have hserve := serve_of_call hsmall hprepend
    (fun hverb old hold => (happend hverb old hold).1) hresult
  have hnext : t.next startTime (.update u) = ⟨t.sent ++ (u.serve startTime t.store).1,
      (u.serve startTime t.store).2⟩ := by
    rw [Dialogue.next, Command.serve, hnoreply]
    rfl
  rw [hnext, hserve]
  refine ⟨2, _, buf₂, two_le_text hbuf hread, ?_, hbuf₂, hread₂,
    fun fuel => (hline hdispatch (fuel + 1)).trans (hvalue fuel)⟩
  exact ⟨h.connected, rfl, h.protocol, rfl, rfl, rfl, rfl, rfl, h.needle, h.outputBuf, h.output,
    (storeItem_startTime hstore).trans h.startTime, howner, congrArg (· ++ _) h.sent⟩

/-- The session while a data block is thrown away. -/
def discarding (s : Session) (u : Update) (needle : Item) : Session :=
  { s.begun u.verb.name with
    policy := policyOf .kInvalid u.verb.name
    sent := s.sent ++ ascii "SERVER_ERROR object too large for cache\r\n"
    needle := needle
    owner := (s.owner.deleteItem needle).2
    bytesToDiscard := u.data.length + 2
    state := .kDiscardValue }

/-- A data block that is too large is announced: what is stored under the key is deleted. -/
theorem Ready.doUpdate_large (h : Ready hashRange startTime s t) (hu : u.WellFormed)
    (hlarge : 1024 * 1024 < u.data.length) (hfit : u.data.length + 2 < 2 ^ 31) (more : List Bytes) :
    ∃ needle : Item, needle.Needle ∧
      Represents hashRange (s.owner.deleteItem needle).2 (remove t.store u.key) ∧
      (s.begun u.verb.name).doUpdate hashRange
        (u.key :: u.flags :: u.exptime :: u.bytes :: (u.verb.args ++ more)) =
        .ok (false, s.discarding u needle) := by
  obtain ⟨needle, hreset, hneedle, hkeyed, hbytes⟩ :=
    h.needle.resetKey (read_piece u.key) rfl hu.key.2.1
  have hlen : (toInt ((u.data.length : ℤ) + 2) % 2 ^ 64).toNat = u.data.length + 2 := by
    have hint : toInt ((u.data.length : ℤ) + 2) = (u.data.length + 2 : ℕ) :=
      Item.bmod_of_lt (by omega) (by omega)
    rw [hint]
    omega
  refine ⟨needle, hneedle, ?_, ?_⟩
  · have hdelete := (h.store.delete hkeyed).2
    rw [hbytes] at hdelete
    exact hdelete
  · unfold doUpdate
    rw [next, ok_bind]
    simp only [begun, h.policy, readNumbers_eq hu hfit]
    rw [if_neg (by simp), if_pos (by omega), reply_eq (by exact h.connected) (by exact h.noreply)]
    unfold resetNeedle
    dsimp only
    rw [hreset, hlen]
    rfl

/-- The data block is thrown away. -/
theorem messageLoop_discard {n : ℕ} (hstate : s.state = .kDiscardValue) (hitem : s.currItem = none)
    (hdiscard : s.bytesToDiscard = n) (hpos : 0 < n) (hbuf : buf.Wf) {data : Bytes}
    (hdata : data.length = n) (hread : buf.readable = data ++ rest) :
    ∃ buf', buf'.Wf ∧ buf'.readable = rest ∧ ∀ fuel, messageLoop hashRange (fuel + 1) s buf =
      messageLoop hashRange fuel { s.resetRequest with state := .kNewCommand } buf' := by
  have hbytes : buf.readableBytes = n + rest.length := by
    rw [← hbuf.length_readable, hread, List.length_append, hdata]
  obtain ⟨buf', hretrieve, hwf, hrest⟩ := hbuf.retrieve (by omega : n ≤ buf.readableBytes)
  have hvalue : s.discardValue buf =
      .ok ({ s.resetRequest with state := .kNewCommand }, buf') := by
    unfold discardValue
    rw [check_of hitem, ok_bind, check_of hstate, ok_bind, hdiscard, if_neg (by omega), hretrieve]
    rfl
  refine ⟨buf', hwf, by rw [hrest, hread, ← hdata, List.drop_left], fun fuel => ?_⟩
  rw [messageLoop, if_pos (by omega), hstate]
  dsimp only
  rw [hvalue]
  rfl

theorem Ready.update_large (h : Ready hashRange startTime s t) (hu : u.WellFormed)
    (hserved : Served t (.update u)) (hlarge : 1024 * 1024 < u.data.length) (hbuf : buf.Wf)
    (hread : buf.readable = (Command.update u).text ++ rest) :
    Reaches hashRange startTime s buf (t.next startTime (.update u)) rest := by
  obtain ⟨hlength, hnoreply, hfit, -⟩ := hserved
  have htext : buf.readable = (Command.update u).line ++ crlf ++ (u.data ++ crlf ++ rest) := by
    rw [hread, Command.text, Command.block, List.append_assoc]
  obtain ⟨buf₁, hbuf₁, hread₁, hline⟩ := h.line (c := .update u) hu hlength hbuf htext
  obtain ⟨needle, hneedle, hstore, hdispatch⟩ :=
    h.doUpdate_large hu hlarge hfit (noreplyWords u.noreply)
  rw [← dispatch_update] at hdispatch
  obtain ⟨buf₂, hbuf₂, hread₂, hdiscard⟩ := messageLoop_discard (s := s.discarding u needle) rfl
    h.currItem rfl (Nat.succ_pos _) hbuf₁ List.length_append hread₁
  have hnext : t.next startTime (.update u) =
      ⟨t.sent ++ ascii "SERVER_ERROR object too large for cache\r\n", remove t.store u.key⟩ := by
    rw [Dialogue.next, Command.serve, hnoreply, Update.serve, if_pos hlarge]
    rfl
  rw [hnext]
  refine ⟨2, _, buf₂, two_le_text hbuf hread, ?_, hbuf₂, hread₂,
    fun fuel => (hline hdispatch (fuel + 1)).trans (hdiscard fuel)⟩
  exact ⟨h.connected, rfl, h.protocol, rfl, rfl, rfl, rfl, rfl, hneedle, h.outputBuf, h.output,
    h.startTime, hstore, congrArg (· ++ _) h.sent⟩

/-! ## The other commands -/

/-- A command without a data block. -/
theorem Ready.one_line (h : Ready hashRange startTime s t) (hc : c.WellFormed)
    (hlength : c.line.length < 2 ^ 31) (hblock : c.block = []) (hbuf : buf.Wf)
    (hread : buf.readable = c.text ++ rest) {s' : Session} {t' : Dialogue}
    (hdispatch : (s.begun c.name).dispatch hashRange c.args = .ok (true, s'))
    (hready : Ready hashRange startTime s'.resetRequest t') :
    Reaches hashRange startTime s buf t' rest := by
  have htwo := two_le_text hbuf hread
  have htext : buf.readable = c.line ++ crlf ++ rest := by
    rw [hread, Command.text, hblock, List.append_nil]
  obtain ⟨buf', hbuf', hread', hline⟩ := h.line hc hlength hbuf htext
  exact ⟨1, _, buf', by omega, hready, hbuf', hread', hline hdispatch⟩

/-- None of the keys is there. -/
theorem getKeys_absent {m : CasMap} (hstore : Represents hashRange s.owner m)
    (hneedle : s.needle.Needle) (cas : Bool) {keys : List Bytes} (hkeys : ∀ key ∈ keys, IsKey key)
    (habsent : ∀ key ∈ keys, m.map key = none) :
    ∃ needle : Item, needle.Needle ∧
      getKeys hashRange cas s keys = .ok (true, { s with needle := needle }) := by
  induction keys generalizing s with
  | nil => exact ⟨s.needle, hneedle, rfl⟩
  | cons key keys ih =>
    have hlong := (hkeys key List.mem_cons_self).2.1
    obtain ⟨needle₁, hreset, hneedle₁, hkeyed, hbytes⟩ := hneedle.resetKey (read_piece key) rfl hlong
    obtain ⟨needle₂, hneedle₂, hrest⟩ := ih (s := { s with needle := needle₁ }) hstore hneedle₁
      (fun k hk => hkeys k (List.mem_cons_of_mem key hk))
      (fun k hk => habsent k (List.mem_cons_of_mem key hk))
    have hget : s.owner.getItem needle₁ = none := by
      rw [← Option.map_eq_none_iff, hstore.getItem hkeyed, hbytes, habsent key List.mem_cons_self]
    refine ⟨needle₂, hneedle₂, ?_⟩
    rw [getKeys, if_neg (by omega), resetNeedle, hreset]
    simp only [ok_bind, pure_bind, hget]
    exact hrest

theorem dispatch_get {name : Bytes} (hname : name = ascii "get" ∨ name = ascii "gets")
    (beg : List Bytes) : (s.begun name).dispatch hashRange beg = (do
      return (true, ← (s.begun name).doGet hashRange beg)) := by
  have hcommand : (s.begun name).command = name := rfl
  unfold dispatch
  rw [hcommand, if_neg ?_, if_pos hname]
  rcases hname with rfl | rfl
  · decide
  · decide

theorem name_get (cas : Bool) (keys : List Bytes) :
    (Command.get cas keys).name = ascii "get" ∨ (Command.get cas keys).name = ascii "gets" := by
  cases cas with
  | false => exact Or.inl rfl
  | true => exact Or.inr rfl

theorem dispatch_delete (beg : List Bytes) : (s.begun (ascii "delete")).dispatch hashRange beg = (do
    return (true, ← (s.begun (ascii "delete")).doDelete hashRange beg)) := by
  have hcommand : (s.begun (ascii "delete")).command = ascii "delete" := rfl
  unfold dispatch
  rw [hcommand, if_neg (by decide), if_neg (by decide), if_pos rfl]

/-- `get` and `gets` find nothing. -/
theorem Ready.doGet (h : Ready hashRange startTime s t) (name : Bytes) {keys : List Bytes}
    (hkeys : ∀ key ∈ keys, IsKey key) (habsent : ∀ key ∈ keys, t.store.map key = none) :
    ∃ needle out, needle.Needle ∧ out.Wf ∧ out.readable = [] ∧
      (s.begun name).doGet hashRange keys = .ok { s.begun name with
        needle := needle
        sent := s.sent ++ ascii "END\r\n"
        outputBuf := out } := by
  obtain ⟨needle, hneedle, hget⟩ := getKeys_absent (s := s.begun name) h.store h.needle
    ((s.begun name).command = ascii "gets") hkeys habsent
  obtain ⟨out, happend, hout, hreadable⟩ := h.outputBuf.append (ascii "END\r\n")
  rw [h.output, List.nil_append] at hreadable
  have hend : (StringPiece.ofString (ascii "END\r\n")).read = .ok (ascii "END\r\n") := by decide
  refine ⟨needle, out.retrieveAll, hneedle, hout.retrieveAll, Buffer.readable_retrieveAll out, ?_⟩
  unfold Session.doGet
  dsimp only
  rw [hget, ok_bind]
  dsimp only
  rw [if_pos rfl, Buffer.appendPiece, hend, ok_bind]
  dsimp only [begun]
  rw [happend, ok_bind, sendOutputBuf, if_pos h.connected, send, if_pos h.connected, hreadable]
  rfl

theorem Ready.get (h : Ready hashRange startTime s t) {cas : Bool} {keys : List Bytes}
    (hc : (Command.get cas keys).WellFormed) (hserved : Served t (.get cas keys)) (hbuf : buf.Wf)
    (hread : buf.readable = (Command.get cas keys).text ++ rest) :
    Reaches hashRange startTime s buf (t.next startTime (.get cas keys)) rest := by
  obtain ⟨hlength, habsent⟩ := hserved
  obtain ⟨needle, out, hneedle, hout, hreadable, hget⟩ :=
    h.doGet (Command.get cas keys).name hc.2 habsent
  have hhits : keys.flatMap (fun key => ((t.store.map key).map (hit cas key)).getD []) = [] := by
    refine List.flatMap_eq_nil_iff.2 fun key hkey => ?_
    rw [habsent key hkey]
    rfl
  have hnext : t.next startTime (.get cas keys) = ⟨t.sent ++ ascii "END\r\n", t.store⟩ := by
    rw [Dialogue.next, Command.serve, hhits]
    rfl
  rw [hnext]
  refine h.one_line hc hlength rfl hbuf hread
    ((dispatch_get (name_get cas keys) keys).trans (bind_eq_ok.2 ⟨_, hget, rfl⟩)) ?_
  exact ⟨h.connected, h.state, h.protocol, rfl, rfl, rfl, rfl, rfl, hneedle, hout, hreadable,
    h.startTime, h.store, congrArg (· ++ _) h.sent⟩

theorem Ready.doDelete (h : Ready hashRange startTime s t) {key : Bytes} (hkey : IsKey key) :
    ∃ needle : Item, needle.Needle ∧
      Represents hashRange (s.owner.deleteItem needle).2 (remove t.store key) ∧
      (s.begun (ascii "delete")).doDelete hashRange [key] = .ok { s.begun (ascii "delete") with
        needle := needle
        owner := (s.owner.deleteItem needle).2
        sent := s.sent ++
          ascii (if (t.store.map key).isSome then "DELETED\r\n" else "NOT_FOUND\r\n") } := by
  obtain ⟨needle, hreset, hneedle, hkeyed, hbytes⟩ := h.needle.resetKey (read_piece key) rfl hkey.2.1
  obtain ⟨hdeleted, hstore⟩ := h.store.delete hkeyed
  rw [hbytes] at hdeleted hstore
  refine ⟨needle, hneedle, hstore, ?_⟩
  unfold Session.doDelete
  rw [check_of (by exact rfl), ok_bind, next, ok_bind]
  dsimp only
  rw [if_neg (Nat.not_lt.2 hkey.2.1), if_neg (fun hbeg => hbeg.1 rfl), resetNeedle]
  dsimp only [begun]
  rw [hreset]
  simp only [ok_bind, pure_bind, hdeleted]
  rw [reply_eq (by exact h.connected) (by exact h.noreply)]
  rfl

theorem Ready.delete (h : Ready hashRange startTime s t) {key : Bytes} {noreply : Bool}
    (hc : (Command.delete key noreply).WellFormed) (hserved : Served t (.delete key noreply))
    (hbuf : buf.Wf) (hread : buf.readable = (Command.delete key noreply).text ++ rest) :
    Reaches hashRange startTime s buf (t.next startTime (.delete key noreply)) rest := by
  obtain ⟨hlength, hnoreply⟩ := hserved
  obtain ⟨needle, hneedle, hstore, hdelete⟩ := h.doDelete hc
  have hargs : (Command.delete key noreply).args = [key] := by
    rw [hnoreply]
    rfl
  have hdispatch := (dispatch_delete [key]).trans (bind_eq_ok.2 ⟨_, hdelete, rfl⟩)
  rw [← hargs] at hdispatch
  have hnext : t.next startTime (.delete key noreply) =
      ⟨t.sent ++ ascii (if (t.store.map key).isSome then "DELETED\r\n" else "NOT_FOUND\r\n"),
        remove t.store key⟩ := by
    rw [Dialogue.next, Command.serve, hnoreply, apply_ite ascii]
    rfl
  rw [hnext]
  refine h.one_line hc hlength rfl hbuf hread hdispatch ?_
  exact ⟨h.connected, h.state, h.protocol, rfl, rfl, rfl, rfl, rfl, hneedle, h.outputBuf, h.output,
    h.startTime, hstore, congrArg (· ++ _) h.sent⟩

/-! ## Whole runs -/

theorem Ready.reaches (h : Ready hashRange startTime s t) (hc : c.WellFormed) (hserved : Served t c)
    (hbuf : buf.Wf) (hread : buf.readable = c.text ++ rest) :
    Reaches hashRange startTime s buf (t.next startTime c) rest := by
  cases c with
  | update u =>
    by_cases hsmall : u.data.length ≤ 1024 * 1024
    · exact h.update_small hc hserved hsmall hbuf hread
    · exact h.update_large hc hserved (Nat.lt_of_not_le hsmall) hbuf hread
  | get cas keys => exact h.get hc hserved hbuf hread
  | delete key noreply => exact h.delete hc hserved hbuf hread

/-- All commands of a chunk. -/
theorem Ready.commands (h : Ready hashRange startTime s t) {commands : List Command}
    (hwf : ∀ c ∈ commands, c.WellFormed)
    (hserved : (protocolMachine startTime).Along Served t commands) (hbuf : buf.Wf)
    (hread : buf.readable = commands.flatMap Command.text) :
    ∃ t', (protocolMachine startTime).run t commands = .ok t' ∧
      Reaches hashRange startTime s buf t' [] := by
  induction commands generalizing s t buf with
  | nil => exact ⟨t, rfl, 0, s, buf, Nat.zero_le _, h, hbuf, hread, fun _ => rfl⟩
  | cons c commands ih =>
    have hstep : (protocolMachine startTime).step t c = .ok (t.next startTime c) := rfl
    obtain ⟨hc, hcs⟩ := (Machine.along_cons_ok hstep).1 hserved
    rw [List.flatMap_cons] at hread
    obtain ⟨steps, s₁, buf₁, hsteps, h₁, hbuf₁, hread₁, hloop⟩ :=
      h.reaches (hwf c List.mem_cons_self) hc hbuf hread
    obtain ⟨t', hrun, steps', s', buf', hsteps', h', hbuf', hread', hloop'⟩ :=
      ih h₁ (fun x hx => hwf x (List.mem_cons_of_mem c hx)) hcs hbuf₁ hread₁
    rw [← hread₁, hbuf₁.length_readable] at hsteps
    refine ⟨t', (Machine.run_cons_ok hstep commands).trans hrun, steps' + steps, s', buf', ?_, h',
      hbuf', hread', fun fuel => ?_⟩
    · rw [List.length_nil] at hsteps' ⊢
      omega
    · rw [← Nat.add_assoc, hloop, hloop']

/-- A chunk is answered by one call of `onMessage`, which leaves the buffer empty. -/
theorem Ready.chunk (h : Ready hashRange startTime s t) {chunk : List Command}
    (hwf : ∀ c ∈ chunk, c.WellFormed) (hserved : (protocolMachine startTime).Along Served t chunk)
    (hbuf : buf.Wf) (hempty : buf.readable = []) :
    ∃ t' s' buf', (protocolMachine startTime).run t chunk = .ok t' ∧
      (machine hashRange).step (s, buf) chunk = .ok (s', buf') ∧
      Ready hashRange startTime s' t' ∧ buf'.Wf ∧ buf'.readable = [] := by
  obtain ⟨buf₁, happend, hbuf₁, hread₁⟩ := hbuf.append (chunk.flatMap Command.text)
  rw [hempty, List.nil_append] at hread₁
  obtain ⟨t', hrun, steps, s', buf', hsteps, h', hbuf', hread', hloop⟩ :=
    h.commands hwf hserved hbuf₁ hread₁
  have hbytes : buf'.readableBytes = 0 := by
    rw [← hbuf'.length_readable, hread', List.length_nil]
  rw [List.length_nil] at hsteps
  have hmessage : messageLoop hashRange (buf₁.readableBytes + 1) s buf₁ = .ok (s', buf') := by
    have hfuel : buf₁.readableBytes + 1 = buf₁.readableBytes - steps + 1 + steps := by omega
    rw [hfuel, hloop, messageLoop, if_neg (by omega)]
    rfl
  refine ⟨t', { s' with bytesRead := s'.bytesRead + (buf₁.readableBytes - buf'.readableBytes) }, buf',
    hrun, ?_, ?_, hbuf', hread'⟩
  · exact bind_eq_ok.2 ⟨buf₁, happend, bind_eq_ok.2 ⟨_, hmessage, rfl⟩⟩
  · exact ⟨h'.connected, h'.state, h'.protocol, h'.command, h'.noreply, h'.policy, h'.currItem,
      h'.bytesToDiscard, h'.needle, h'.outputBuf, h'.output, h'.startTime, h'.store, h'.sent⟩

theorem Ready.run (h : Ready hashRange startTime s t) {chunks : List (List Command)}
    (hwf : ∀ c ∈ chunks.flatten, c.WellFormed)
    (hserved : (protocolMachine startTime).Along Served t chunks.flatten)
    (hbuf : buf.Wf) (hempty : buf.readable = []) :
    ∃ t' s' buf', (protocolMachine startTime).run t chunks.flatten = .ok t' ∧
      (machine hashRange).run (s, buf) chunks = .ok (s', buf') ∧ Ready hashRange startTime s' t' := by
  induction chunks generalizing s t buf with
  | nil => exact ⟨t, s, buf, rfl, rfl, h⟩
  | cons chunk chunks ih =>
    rw [List.flatten_cons] at hwf hserved ⊢
    obtain ⟨hfirst, hrest⟩ := Machine.along_append.1 hserved
    obtain ⟨t₁, s₁, buf₁, hrun₁, hstep, h₁, hbuf₁, hempty₁⟩ :=
      h.chunk (fun c hc => hwf c (List.mem_append_left _ hc)) hfirst hbuf hempty
    obtain ⟨t', s', buf', hrun, hruns, h'⟩ :=
      ih h₁ (fun c hc => hwf c (List.mem_append_right _ hc)) (hrest t₁ hrun₁) hbuf₁ hempty₁
    exact ⟨t', s', buf', (Machine.run_append hrun₁ _).trans hrun,
      (Machine.run_cons_ok hstep chunks).trans hruns, h'⟩

theorem ready_new {owner : MemcacheServer} {m : CasMap} (hstore : Represents hashRange owner m) :
    ∃ s, Session.new hashRange owner = .ok s ∧ Ready hashRange owner.startTime s ⟨[], m⟩ := by
  have hlength : (List.replicate kLongestKeySize (120 : Byte)).length = 250 := List.length_replicate
  have hnew : Item.new hashRange (.ofString (List.replicate kLongestKeySize 120)) 0 0 2 0 =
      .ok (.filled hashRange (List.replicate kLongestKeySize 120) 0 0 2 0 []) :=
    Item.new_eq_filled (by omega) le_rfl (by decide +kernel) (by decide +kernel)
  have hneedle : (Item.filled hashRange (List.replicate kLongestKeySize 120) 0 0 2 0 []).Needle := by
    refine ⟨?_, rfl⟩
    rw [Item.filled]
    dsimp only
    rw [List.length_append, List.length_append, hlength]
    rfl
  refine ⟨_, bind_eq_ok.2 ⟨_, hnew, rfl⟩, ?_⟩
  exact ⟨rfl, rfl, rfl, rfl, rfl, rfl, rfl, rfl, hneedle, Buffer.wf_empty, Buffer.readable_empty, rfl,
    hstore, rfl⟩

/-- Commands that are all served are answered as the protocol says. -/
theorem conforms_of_served (hashRange : Bytes → ℕ) (owner : MemcacheServer) (m : CasMap)
    (chunks : List (List Command)) (hstore : Represents hashRange owner m)
    (hwf : ∀ c ∈ chunks.flatten, c.WellFormed)
    (hserved : (protocolMachine owner.startTime).Along Served ⟨[], m⟩ chunks.flatten) :
    Conforms hashRange owner m chunks := by
  obtain ⟨s₀, hnew, h₀⟩ := ready_new hstore
  obtain ⟨t, s, buf, hprotocol, hrun, h⟩ :=
    h₀.run hwf hserved Buffer.wf_empty Buffer.readable_empty
  exact ⟨s₀, s, buf, t, hnew, hrun, hprotocol, h.sent, fun key hkey => h.store.getItem hkey⟩

/-- A value is stored twice, looked for, and deleted. -/
def servedChunks : List (List Command) :=
  [[.update ⟨.set, ascii "k", ascii "7", ascii "-1", ascii "2", false, crlf⟩,
      .update ⟨.append, ascii "k", ascii "0", ascii "0", ascii "2", false, crlf⟩],
    [.get true [ascii "l"],
      .update ⟨.cas (ascii "2"), ascii "k", ascii "0", ascii "0", ascii "0", false, []⟩,
      .update ⟨.add, ascii "k", ascii "0", ascii "0", ascii "1", false, ascii "a"⟩,
      .delete (ascii "k") false]]

theorem conforms_of_served_twoChunks :
    (∀ c ∈ servedChunks.flatten, c.WellFormed) ∧
      (protocolMachine 0).Along Served ⟨[], .empty⟩ servedChunks.flatten ∧
      Conforms boostHashRange (.new 0) .empty servedChunks := by
  have hwf : ∀ c ∈ servedChunks.flatten, c.WellFormed := by decide +kernel
  have hserved : (protocolMachine 0).Along Served ⟨[], .empty⟩ servedChunks.flatten := by decide +kernel
  exact ⟨hwf, hserved, conforms_of_served boostHashRange (.new 0) .empty servedChunks
    (represents_new 0) hwf hserved⟩

/-! ## Where the session goes its own way -/

/-- What can be seen of a session: what it has sent, and what is stored under a key. -/
def observe (hashRange : Bytes → ℕ) (owner : MemcacheServer) (key : Item)
    (chunks : List (List Command)) : Except Fault (Bytes × Option CasMap.Entry) := do
  let s ← Session.new hashRange owner
  let (s, _) ← (machine hashRange).run (s, Buffer.empty) chunks
  return (s.sent, (s.owner.getItem key).map Item.entry)

/-- The same of the protocol. -/
def expected (owner : MemcacheServer) (m : CasMap) (key : Bytes) (chunks : List (List Command)) :
    Except Fault (Bytes × Option CasMap.Entry) := do
  let t ← (protocolMachine owner.startTime).run ⟨[], m⟩ chunks.flatten
  return (t.sent, t.store.map key)

theorem Conforms.observe {owner : MemcacheServer} {m : CasMap} {chunks : List (List Command)}
    (h : Conforms hashRange owner m chunks) {key : Item} (hkey : key.Keyed hashRange) :
    observe hashRange owner key chunks = expected owner m key.keyBytes chunks := by
  obtain ⟨s₀, s, buf, t, hnew, hrun, hprotocol, hsent, hstore⟩ := h
  unfold Session.observe expected
  rw [hnew, ok_bind, hrun, ok_bind, hprotocol, ok_bind]
  dsimp only
  rw [hsent, hstore key hkey]

def setK (noreply : Bool) : Command :=
  .update ⟨.set, ascii "k", ascii "0", ascii "0", ascii "1", noreply, ascii "a"⟩

/-- A hit of `get`, a command that ends in `noreply`, and `append` and `prepend` to a value. -/
def failingChunks : List (List (List Command)) :=
  [[[setK false], [.get false [ascii "k"]]],
    [[setK true]],
    [[setK false], [.update ⟨.append, ascii "k", ascii "0", ascii "0", ascii "1", false, ascii "b"⟩]],
    [[setK false], [.update ⟨.prepend, ascii "k", ascii "0", ascii "0", ascii "1", false, ascii "b"⟩]]]

theorem not_conforms :
    (∀ chunks ∈ failingChunks, ∀ c ∈ chunks.flatten, c.WellFormed) ∧
      ∀ chunks ∈ failingChunks, ¬ Conforms boostHashRange (.new 0) .empty chunks := by
  have hkey : (Item.full boostHashRange (ascii "k") 0 0 [] 0).Keyed boostHashRange := by decide +kernel
  have hdiffer : ∀ chunks ∈ failingChunks,
      observe boostHashRange (.new 0) (.full boostHashRange (ascii "k") 0 0 [] 0) chunks ≠
        expected (.new 0) .empty (ascii "k") chunks := by
    decide +kernel
  refine ⟨by decide +kernel, fun chunks hchunks h => hdiffer chunks hchunks ?_⟩
  rw [h.observe hkey, Item.keyBytes_full]

end Session

end Reactor
