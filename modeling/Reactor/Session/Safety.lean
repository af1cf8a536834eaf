import Reactor.Session.Turns

/-!
# A session does not fail

Between its turns a session is `Sound`: its fields are those of its state, and its store is in order.
A turn that is `Safe` takes it to another such state and makes the buffer shorter, or ends the call
(`Sound.turn`).

* `safe_runs_do_not_fail`: chunks whose turns are all safe are handled to their end, and a storage
  command with a field that is not a decimal number is answered by an error line.
-/

namespace Reactor

/-- The flags of the entries are `uint32_t`s. -/
def CasMap.FlagsFit (m : CasMap) : Prop := ∀ key, ∀ e ∈ m.map key, e.flags < 2 ^ 32

namespace Session

open MemcacheServer

variable (hashRange : Bytes → ℕ)

/-- The store represents a map. -/
def Stores (owner : MemcacheServer) : Prop :=
  ∃ m, Represents hashRange owner m ∧ m.Bounded ∧ m.FlagsFit

/-- What holds of a session whatever its state. -/
structure Steady (s : Session) : Prop where
  protocol : s.protocol = .kAscii
  noreply : s.noreply = false
  needle : s.needle.Needle
  outputBuf : s.outputBuf.Wf
  store : Stores hashRange s.owner

/-- An item of which something is still to come. -/
def Arriving (item : Item) : Prop :=
  ∃ key flags exptime valuelen cas received,
    item = .filled hashRange key flags exptime valuelen cas received ∧
      key.length + valuelen < 2 ^ 31 ∧ 2 ≤ valuelen ∧ received.length < valuelen ∧ flags < 2 ^ 32

/-- The fields of the request, by the state. -/
def Request (s : Session) : Prop :=
  match s.state with
  | .kNewCommand => s.command = [] ∧ s.policy = .kInvalid ∧ s.currItem = none ∧ s.bytesToDiscard = 0
  | .kReceiveValue => ∃ item, s.currItem = some item ∧ Arriving hashRange item
  | .kDiscardValue => s.currItem = none ∧ 0 < s.bytesToDiscard

/-- A session between two turns. -/
structure Sound (s : Session) : Prop extends Steady hashRange s where
  request : Request hashRange s

variable {hashRange} {s : Session} {buf : Buffer}

/-! ## The store -/

/-- What is stored keeps the flags it was made with. -/
theorem flagsFit_call {m : CasMap} (h : m.FlagsFit) (c : Call)
    (hc : ∀ item policy, c = .store item policy → item.flags < 2 ^ 32) : (m.call c).2.FlagsFit := by
  intro key e he
  cases c with
  | store item policy =>
    cases haccepts : m.accepts policy item.keyBytes item.cas with
    | true =>
      rw [CasMap.call_accepts haccepts] at he
      simp only [CasMap.put, Function.update_apply] at he
      split_ifs at he
      · obtain rfl := Option.some.inj he
        have hflags : item.entry.flags < 2 ^ 32 := hc item policy rfl
        cases hold : m.map item.keyBytes with
        | none => cases policy <;> exact hflags
        | some old =>
          have holdFlags := h _ old hold
          cases policy with
          | kAppend | kPrepend => exact holdFlags
          | _ => exact hflags
      · exact h key e he
    | false =>
      rw [CasMap.call_rejects haccepts] at he
      exact h key e he
  | get key' => exact h key e he
  | delete key' =>
    simp only [CasMap.call, Function.update_apply] at he
    split_ifs at he
    · cases he
    · exact h key e he

theorem Stores.delete {owner : MemcacheServer} (h : Stores hashRange owner) {key : Item}
    (hkey : key.Keyed hashRange) : Stores hashRange (owner.deleteItem key).2 := by
  obtain ⟨m, hm, hbounded, hflags⟩ := h
  exact ⟨_, (hm.delete hkey).2, hbounded.call (.delete key),
    flagsFit_call hflags (.delete key) (fun _ _ h => (by cases h))⟩

theorem Stores.storeItem {owner : MemcacheServer} (h : Stores hashRange owner) {item : Item}
    {policy : UpdatePolicy} (hvalid : Valid hashRange owner (.store item policy))
    (hflags : item.flags < 2 ^ 32) : ∃ stored existed owner',
      owner.storeItem hashRange item policy = .ok (stored, existed, owner') ∧ Stores hashRange owner' := by
  obtain ⟨m, hm, hbounded, hfit⟩ := h
  obtain ⟨stored, existed, owner', hstore, -, hm'⟩ := hm.follows hvalid
  refine ⟨stored, existed, owner', hstore, _, hm', hbounded.call _, flagsFit_call hfit _ ?_⟩
  intro item' policy' heq
  obtain ⟨rfl, -⟩ := Call.store.inj heq
  exact hflags

/-- An item that is found can be written out. -/
theorem Stores.getItem {owner : MemcacheServer} (h : Stores hashRange owner) {key item : Item}
    (hkey : key.Keyed hashRange) (hitem : owner.getItem key = some item) :
    item.Complete hashRange ∧ item.flags < 2 ^ 32 ∧ item.cas ≤ owner.cas := by
  obtain ⟨m, hm, hbounded, hfit⟩ := h
  have hentry := hm.getItem hkey
  rw [hitem, Option.map_some] at hentry
  rw [MemcacheServer.getItem, hm.find_items hkey] at hitem
  refine ⟨(hm.lookup_some hitem).1, hfit _ _ hentry.symm, ?_⟩
  rw [hm.cas]
  exact hbounded _ _ hentry.symm

/-! ## Output -/

theorem appendPiece_ok {out : Buffer} (h : out.Wf) {text : Bytes} (hlength : text.length < 2 ^ 31) :
    ∃ out', out.appendPiece (.ofString text) = .ok out' ∧ out'.Wf := by
  obtain ⟨out', happend, hwf, -⟩ := h.append (cString text)
  refine ⟨out', ?_, hwf⟩
  rw [Buffer.appendPiece, StringPiece.read_ofString hlength, ok_bind, happend]

/-- What `output` writes between the key and the value. -/
theorem length_numbers {flags len cas : ℕ} (hflags : flags < 2 ^ 32) (hlen : len < 2 ^ 31)
    (hcas : cas < 2 ^ 63) (needCas : Bool) :
    ((if needCas then decimal flags ++ ascii " " ++ decimal len ++ ascii " " ++ decimal cas
      else decimal flags ++ ascii " " ++ decimal len) ++ crlf).length < 2 ^ 31 := by
  have hflags' : (decimal flags).length ≤ 10 := length_decimal_le (by decide) (by omega)
  have hlen' : (decimal len).length ≤ 10 := length_decimal_le (by decide) (by omega)
  have hcas' : (decimal cas).length ≤ 19 := length_decimal_le (by decide) (by omega)
  have hspace : (ascii " ").length = 1 := rfl
  have hcrlf : crlf.length = 2 := rfl
  split_ifs
  · simp only [List.length_append, hspace, hcrlf]
    omega
  · simp only [List.length_append, hspace, hcrlf]
    omega

theorem output_ok {item : Item} (hitem : item.Complete hashRange) (hflags : item.flags < 2 ^ 32)
    (hcas : item.cas < 2 ^ 63) {out : Buffer} (h : out.Wf) (needCas : Bool) :
    ∃ out', item.output out needCas = .ok out' ∧ out'.Wf := by
  have hsmall : item.keyBytes.length + item.payload.length + 2 < 2 ^ 31 := by
    have hkey := hitem.length_keyBytes
    have hpayload := hitem.length_payload
    have hint := hitem.small
    omega
  have hkey : item.key.read = .ok item.keyBytes := by
    conv_lhs => rw [hitem.eq_full]
    exact Item.read_key_full
  have hvalue : ∃ value, item.value item.valueLength = .ok value := by
    rw [hitem.eq_full, Item.valueLength_full hsmall, Item.value_full le_rfl]
    exact ⟨_, rfl⟩
  obtain ⟨value, hvalue⟩ := hvalue
  have hint := hitem.small
  have hkeylen := hitem.keylen
  obtain ⟨out₁, hout₁, hwf₁⟩ := appendPiece_ok h (show (ascii "VALUE ").length < 2 ^ 31 by decide)
  obtain ⟨out₂, hout₂, hwf₂, -⟩ := hwf₁.append item.keyBytes
  obtain ⟨out₃, hout₃, hwf₃⟩ := appendPiece_ok hwf₂
    (length_numbers hflags (show (item.valuelen - 2).toNat < 2 ^ 31 by omega) hcas needCas)
  obtain ⟨out₄, hout₄, hwf₄, -⟩ := hwf₃.append value
  refine ⟨out₄, ?_, hwf₄⟩
  unfold Item.output
  rw [hout₁, ok_bind, hkey, ok_bind, hout₂, ok_bind]
  dsimp only
  rw [hout₃, ok_bind, hvalue, ok_bind, hout₄]

/-! ## The commands of one line -/

/-- A session that has done what a line asked for. -/
structure Idle (hashRange : Bytes → ℕ) (s : Session) : Prop extends Steady hashRange s where
  state : s.state = .kNewCommand

theorem Idle.resetRequest (h : Idle hashRange s) : Sound hashRange s.resetRequest := by
  refine ⟨⟨h.protocol, rfl, h.needle, h.outputBuf, h.store⟩, ?_⟩
  unfold Request
  rw [show s.resetRequest.state = .kNewCommand from h.state]
  exact ⟨rfl, rfl, rfl, rfl⟩

theorem send_fields (s : Session) (data : Bytes) :
    s.send data = { s with sent := if s.connected then s.sent ++ data else s.sent } := by
  unfold send
  split_ifs <;> rfl

theorem reply_fields (hnoreply : s.noreply = false) (msg : String) : s.reply msg =
    { s with sent := if s.connected then s.sent ++ ascii msg else s.sent } := by
  unfold reply
  rw [if_neg (by rw [hnoreply]; decide), send_fields]

theorem Idle.reply (h : Idle hashRange s) (msg : String) : Idle hashRange (s.reply msg) := by
  rw [reply_fields h.noreply]
  exact ⟨⟨h.protocol, h.noreply, h.needle, h.outputBuf, h.store⟩, h.state⟩

theorem Idle.resetNeedle (h : Idle hashRange s) {key : Bytes} (hkey : key.length ≤ kLongestKeySize) :
    ∃ needle, s.resetNeedle hashRange key = .ok { s with needle := needle } ∧
      needle.Keyed hashRange ∧ Idle hashRange { s with needle := needle } := by
  obtain ⟨needle, hreset, hneedle, hkeyed, -⟩ := h.needle.resetKey (read_piece key) rfl hkey
  refine ⟨needle, ?_, hkeyed, ⟨h.protocol, h.noreply, hneedle, h.outputBuf, h.store⟩, h.state⟩
  rw [Session.resetNeedle, hreset]
  rfl

theorem Idle.getKeys (h : Idle hashRange s) (hcas : s.owner.cas < 2 ^ 63) (cas : Bool) (keys : List Bytes) :
    ∃ good s', getKeys hashRange cas s keys = .ok (good, s') ∧ Idle hashRange s' := by
  induction keys generalizing s with
  | nil => exact ⟨true, s, rfl, h⟩
  | cons key keys ih =>
    rw [Session.getKeys]
    by_cases hlong : kLongestKeySize < key.length
    · rw [if_pos hlong]
      exact ⟨false, _, rfl, h.reply _⟩
    · obtain ⟨needle, hreset, hkeyed, hidle⟩ := h.resetNeedle (Nat.le_of_not_lt hlong)
      rw [if_neg hlong, hreset, ok_bind]
      cases hitem : s.owner.getItem needle with
      | none => exact ih hidle hcas
      | some item =>
        obtain ⟨hcomplete, hflags, hle⟩ := h.store.getItem hkeyed hitem
        obtain ⟨out, hout, hwf⟩ := output_ok hcomplete hflags (by omega) h.outputBuf cas
        dsimp only
        rw [hout, ok_bind]
        exact ih ⟨⟨h.protocol, h.noreply, hidle.needle, hwf, h.store⟩, h.state⟩ hcas

theorem Idle.doGet (h : Idle hashRange s) (hcas : s.owner.cas < 2 ^ 63) (keys : List Bytes) :
    ∃ s', s.doGet hashRange keys = .ok s' ∧ Idle hashRange s' := by
  obtain ⟨good, s₁, hkeys, h₁⟩ := h.getKeys hcas (s.command = ascii "gets") keys
  unfold Session.doGet
  dsimp only
  rw [hkeys, ok_bind]
  dsimp only
  cases good with
  | false => exact ⟨s₁, rfl, h₁⟩
  | true =>
    obtain ⟨out, hout, hwf⟩ := appendPiece_ok h₁.outputBuf (show (ascii "END\r\n").length < 2 ^ 31 by decide)
    rw [if_pos rfl, hout, ok_bind]
    refine ⟨_, rfl, ?_⟩
    unfold sendOutputBuf
    rw [send_fields]
    split_ifs
    · exact ⟨⟨h₁.protocol, h₁.noreply, h₁.needle, hwf.retrieveAll, h₁.store⟩, h₁.state⟩
    · exact ⟨⟨h₁.protocol, h₁.noreply, h₁.needle, hwf, h₁.store⟩, h₁.state⟩

theorem Idle.doDelete (h : Idle hashRange s) (hcommand : s.command = ascii "delete") (key : Bytes)
    (beg : List Bytes) : ∃ s', s.doDelete hashRange (key :: beg) = .ok s' ∧ Idle hashRange s' := by
  unfold Session.doDelete
  rw [check_of hcommand, ok_bind, next, ok_bind]
  dsimp only
  by_cases hlong : kLongestKeySize < key.length
  · rw [if_pos hlong]
    exact ⟨_, rfl, h.reply _⟩
  · rw [if_neg hlong]
    split_ifs
    · exact ⟨_, rfl, h.reply _⟩
    · obtain ⟨needle, hreset, hkeyed, hidle⟩ := h.resetNeedle (Nat.le_of_not_lt hlong)
      rw [hreset, ok_bind]
      refine ⟨_, rfl, Idle.reply ?_ _⟩
      exact ⟨⟨h.protocol, h.noreply, hidle.needle, h.outputBuf, h.store.delete hkeyed⟩, h.state⟩

/-! ## Numbers -/

/-- A number with its sign begins behind the spaces. -/
theorem IsDecimal.dropWhile {field : Bytes} (h : IsDecimal field) : field.dropWhile isspace = field := by
  unfold IsDecimal at h
  cases field with
  | nil => rfl
  | cons b digits =>
    refine dropWhile_isspace ?_ digits
    by_cases hminus : b = 45
    · subst hminus
      decide
    by_cases hplus : b = 43
    · subst hplus
      decide
    have hsign : sign (b :: digits) = (false, b :: digits) := by
      unfold sign
      split
      · rename_i heq
        exact absurd (List.cons.inj heq).1 hminus
      · rename_i heq
        exact absurd (List.cons.inj heq).1 hplus
      · rfl
    rw [hsign] at h
    exact h.lt b List.mem_cons_self

/-- A decimal number is read, whatever its size. -/
theorem IsDecimal.strtoul {field : Bytes} (h : IsDecimal field) : ∃ x, Session.strtoul field = some x := by
  unfold Session.strtoul
  rw [h.dropWhile]
  unfold IsDecimal at h
  dsimp only
  rw [if_pos ⟨h.1, List.all_eq_true.2 h.2⟩]
  split_ifs
  · exact ⟨_, rfl⟩
  · exact ⟨_, rfl⟩
  · exact ⟨_, rfl⟩

/-- The number of a decimal field. -/
def number (field : Bytes) : ℕ := (strtoul field).getD 0

theorem IsDecimal.read {T : Type} {field : Bytes} (h : IsDecimal field) (cast : ℕ → T) (val : T)
    (first : List Bytes) : Session.read cast val (field :: first) = (true, cast (number field), first) := by
  obtain ⟨x, hx⟩ := h.strtoul
  rw [read_eq hx, number, hx]
  rfl

theorem read_nil {T : Type} (cast : ℕ → T) (val : T) : Session.read cast val [] = (false, val, []) := rfl

/-- The number of the fields that `doUpdate` reads. -/
def neededFields (policy : UpdatePolicy) : ℕ := if policy = .kCas then 4 else 3

/-- What is read of a line whose fields are decimal numbers as far as they are there. -/
theorem readNumbers_cases {policy : UpdatePolicy} {key : Bytes} {fields : List Bytes}
    (hkey : key.length ≤ kLongestKeySize) (hfields : ∀ field ∈ fields.take (neededFields policy), IsDecimal field) :
    (fields.length < neededFields policy ∧ (readNumbers policy key fields).1 = false) ∨
      (neededFields policy ≤ fields.length ∧ ∃ flags exptime bytes more cas,
        fields = flags :: exptime :: bytes :: more ∧ readNumbers policy key fields =
          (true, ⟨toUInt32 (number flags), toTime (number exptime), toInt (number bytes), cas⟩)) := by
  have hthree : 3 ≤ neededFields policy := by
    unfold neededFields
    split_ifs <;> omega
  obtain ⟨more, hneeded⟩ : ∃ k, neededFields policy = k + 3 := ⟨neededFields policy - 3, by omega⟩
  rw [hneeded] at hfields ⊢
  unfold readNumbers
  rw [decide_eq_true hkey]
  match fields, hfields with
  | [], _ => exact Or.inl ⟨Nat.succ_pos _, rfl⟩
  | [flags], hfields =>
    refine Or.inl ⟨by rw [List.length_singleton]; omega, ?_⟩
    simp [(hfields flags (by simp)).read, read_nil]
  | [flags, exptime], hfields =>
    refine Or.inl ⟨by simp, ?_⟩
    simp [(hfields flags (by simp)).read, (hfields exptime (by simp)).read, read_nil]
  | flags :: exptime :: bytes :: rest, hfields =>
    have hread : ∀ val first, Session.read (fun x => toInt x) val (bytes :: first) =
        (true, toInt (number bytes), first) := (hfields bytes (by simp)).read _
    simp only [(hfields flags (by simp)).read, (hfields exptime (by simp)).read, hread, if_true, true_and]
    by_cases hcas : policy = .kCas
    · rw [neededFields, if_pos hcas] at hneeded
      obtain rfl : more = 1 := by omega
      rw [if_pos hcas]
      cases rest with
      | nil => exact Or.inl ⟨by simp, rfl⟩
      | cons token rest =>
        rw [(hfields token (by simp)).read]
        exact Or.inr ⟨by simp, flags, exptime, bytes, token :: rest, _, rfl, rfl⟩
    · rw [neededFields, if_neg hcas] at hneeded
      obtain rfl : more = 0 := by omega
      rw [if_neg hcas]
      exact Or.inr ⟨by simp, flags, exptime, bytes, rest, _, rfl, rfl⟩

theorem readNumbers_longKey (policy : UpdatePolicy) {key : Bytes} (hkey : ¬ key.length ≤ kLongestKeySize)
    (fields : List Bytes) : (readNumbers policy key fields).1 = false := by
  unfold readNumbers
  rw [decide_eq_false hkey]
  simp

/-- The policy of a command asks for the fields that the command has. -/
theorem neededFields_policyOf (command : Bytes) :
    neededFields (policyOf .kInvalid command) = fieldCount command := by
  unfold neededFields fieldCount
  by_cases hcas : command = ascii "cas"
  · subst hcas
    decide
  · have hpolicy : policyOf .kInvalid command ≠ .kCas := by
      unfold policyOf
      rw [if_neg hcas]
      split_ifs <;> exact fun h => (by cases h)
    rw [if_neg hpolicy, if_neg hcas]

/-! ## Storage commands -/

variable {key : Bytes} {fields : List Bytes}

/-- The line is refused if the numbers could not be read. -/
theorem doUpdate_bad (hbad : (readNumbers (policyOf s.policy s.command) key fields).1 = false) :
    s.doUpdate hashRange (key :: fields) = .ok (true,
      { s with policy := policyOf s.policy s.command }.reply "CLIENT_ERROR bad command line format\r\n") := by
  unfold doUpdate
  rw [next, ok_bind]
  dsimp only
  generalize readNumbers (policyOf s.policy s.command) key fields = numbers at hbad
  obtain ⟨good, flags, exptime, bytes, cas⟩ := numbers
  dsimp only at hbad ⊢
  rw [hbad, if_pos (by decide)]
  rfl

/-- A data block that is too long is announced. -/
theorem Idle.doUpdate_large (h : Idle hashRange s) (hitem : s.currItem = none)
    (hkey : key.length ≤ kLongestKeySize) {flags : ℕ} {exptime bytes : ℤ} {cas : ℕ}
    (hnumbers : readNumbers (policyOf s.policy s.command) key fields = (true, ⟨flags, exptime, bytes, cas⟩))
    (hlarge : 1024 * 1024 < bytes) (hint : bytes < 2 ^ 31) :
    ∃ s', s.doUpdate hashRange (key :: fields) = .ok (false, s') ∧ Sound hashRange s' := by
  have hidle : Idle hashRange { s with policy := policyOf s.policy s.command } :=
    ⟨⟨h.protocol, h.noreply, h.needle, h.outputBuf, h.store⟩, h.state⟩
  obtain ⟨needle, hreset, hkeyed, h'⟩ :=
    (hidle.reply "SERVER_ERROR object too large for cache\r\n").resetNeedle hkey
  have hpos : 0 < (toInt (bytes + 2) % 2 ^ 64).toNat := by
    unfold toInt Int.bmod
    dsimp only
    split_ifs <;> omega
  unfold Session.doUpdate
  rw [next, ok_bind]
  dsimp only
  rw [hnumbers]
  dsimp only
  rw [if_neg (by decide), if_pos hlarge, hreset, ok_bind]
  refine ⟨_, rfl, ⟨h'.protocol, h'.noreply, h'.needle, h'.outputBuf, h'.store.delete hkeyed⟩, ?_⟩
  refine ⟨?_, hpos⟩
  show (Session.reply _ _).currItem = none
  rw [reply_fields hidle.noreply]
  exact hitem

/-- An item is made for a data block that is not. -/
theorem Idle.doUpdate_small (h : Idle hashRange s)
    (hkey : key.length ≤ kLongestKeySize) {flags : ℕ} {exptime bytes : ℤ} {cas : ℕ}
    (hnumbers : readNumbers (policyOf s.policy s.command) key fields = (true, ⟨flags, exptime, bytes, cas⟩))
    (hsmall : ¬ 1024 * 1024 < bytes) (hpos : 0 ≤ bytes) (hflags : flags < 2 ^ 32) :
    ∃ s', s.doUpdate hashRange (key :: fields) = .ok (false, s') ∧ Sound hashRange s' := by
  have hlong : key.length ≤ 250 := hkey
  have hlen : toInt (bytes + 2) = (bytes.toNat + 2 : ℕ) := by
    unfold toInt Int.bmod
    dsimp only
    split_ifs <;> omega
  unfold Session.doUpdate
  rw [next, ok_bind]
  dsimp only
  rw [hnumbers]
  dsimp only
  rw [if_neg (by decide), if_neg hsmall, hlen,
    Item.new_eq_filled (by omega) (by omega) (read_piece key) rfl, ok_bind]
  refine ⟨_, rfl, ⟨h.protocol, h.noreply, h.needle, h.outputBuf, h.store⟩, _, rfl, ?_⟩
  exact ⟨key, flags, _, bytes.toNat + 2, cas, [], rfl, by omega, by omega, Nat.succ_pos _, hflags⟩

/-- A storage command is refused, or its data block comes next. -/
theorem Idle.doUpdate (h : Idle hashRange s) (hpolicy : s.policy = .kInvalid) (hitem : s.currItem = none)
    (hsafe : key.length ≤ kLongestKeySize → SafeFields s.command fields) :
    ∃ done s', s.doUpdate hashRange (key :: fields) = .ok (done, s') ∧
      Sound hashRange (if done then s'.resetRequest else s') := by
  have hidle : Idle hashRange { s with policy := policyOf s.policy s.command } :=
    ⟨⟨h.protocol, h.noreply, h.needle, h.outputBuf, h.store⟩, h.state⟩
  have hrefused : (readNumbers (policyOf s.policy s.command) key fields).1 = false →
      ∃ done s', s.doUpdate hashRange (key :: fields) = .ok (done, s') ∧
        Sound hashRange (if done then s'.resetRequest else s') :=
    fun hbad => ⟨true, _, doUpdate_bad hbad, (hidle.reply _).resetRequest⟩
  by_cases hkey : key.length ≤ kLongestKeySize
  · obtain ⟨hdecimal, hlength⟩ := hsafe hkey
    rw [← neededFields_policyOf, ← hpolicy] at hdecimal hlength
    rcases readNumbers_cases hkey hdecimal with ⟨-, hbad⟩ |
      ⟨hall, flags, exptime, bytes, more, cas, rfl, hnumbers⟩
    · exact hrefused hbad
    · have hpos : 0 ≤ toInt (number bytes) := hlength hall bytes rfl
      have hint : toInt (number bytes) < 2 ^ 31 := by
        have hlt := Int.bmod_lt (x := number bytes) (m := 2 ^ 32) (by decide)
        unfold toInt
        omega
      have hflags : toUInt32 (number flags) < 2 ^ 32 := Nat.mod_lt _ (by decide)
      by_cases hlarge : 1024 * 1024 < toInt (number bytes)
      · obtain ⟨s', hupdate, hsound⟩ := h.doUpdate_large hitem hkey hnumbers hlarge hint
        exact ⟨false, s', hupdate, hsound⟩
      · obtain ⟨s', hupdate, hsound⟩ := h.doUpdate_small hkey hnumbers hlarge hpos hflags
        exact ⟨false, s', hupdate, hsound⟩
  · exact hrefused (readNumbers_longKey _ hkey fields)

/-- A safe line with a field that is missing, or not a decimal number, is not good. -/
theorem readNumbers_bad {command : Bytes}
    (hsafe : key.length ≤ kLongestKeySize → SafeFields command fields)
    (hnot : ¬ DecimalFields command fields) :
    (readNumbers (policyOf .kInvalid command) key fields).1 = false := by
  by_cases hkey : key.length ≤ kLongestKeySize
  · obtain ⟨hdecimal, -⟩ := hsafe hkey
    rw [DecimalFields, ← neededFields_policyOf] at hnot
    rw [← neededFields_policyOf] at hdecimal
    rcases readNumbers_cases hkey hdecimal with ⟨-, hbad⟩ | ⟨hall, -⟩
    · exact hbad
    · exact absurd ⟨hall, hdecimal⟩ hnot
  · exact readNumbers_longKey _ hkey fields

/-! ## Lines -/

theorem dispatch_storage (h : IsStorage s.command) (beg : List Bytes) :
    s.dispatch hashRange beg = s.doUpdate hashRange beg := if_pos h

theorem Idle.dispatch (h : Idle hashRange s) (hpolicy : s.policy = .kInvalid) (hitem : s.currItem = none)
    (hcas : s.owner.cas < 2 ^ 63) {beg : List Bytes} (hsafe : SafeWords (s.command :: beg)) :
    ∃ done s', s.dispatch hashRange beg = .ok (done, s') ∧
      Sound hashRange (if done then s'.resetRequest else s') := by
  by_cases hstorage : IsStorage s.command
  · rw [dispatch_storage hstorage]
    cases beg with
    | nil => exact absurd hstorage hsafe.1
    | cons key fields => exact h.doUpdate hpolicy hitem (hsafe hstorage)
  · rw [show s.dispatch hashRange beg = _ from if_neg hstorage]
    split_ifs with hget hdelete
    · obtain ⟨s', hdoGet, h'⟩ := h.doGet hcas beg
      rw [hdoGet, ok_bind]
      exact ⟨true, s', rfl, h'.resetRequest⟩
    · cases beg with
      | nil => exact absurd hdelete hsafe.2
      | cons key beg =>
        obtain ⟨s', hdoDelete, h'⟩ := h.doDelete hdelete key beg
        rw [hdoDelete, ok_bind]
        exact ⟨true, s', rfl, h'.resetRequest⟩
    · exact ⟨true, _, rfl, (h.reply _).resetRequest⟩
    · exact ⟨true, _, rfl, Idle.resetRequest
        ⟨⟨h.protocol, h.noreply, h.needle, h.outputBuf, h.store⟩, h.state⟩⟩
    · exact ⟨true, _, rfl, Idle.resetRequest
        ⟨⟨h.protocol, h.noreply, h.needle, h.outputBuf, h.store⟩, h.state⟩⟩
    · exact ⟨true, _, rfl, (h.reply _).resetRequest⟩

/-- The request of a session that waits for a line is reset. -/
theorem Sound.reset (h : Sound hashRange s) (hstate : s.state = .kNewCommand) :
    s.command = [] ∧ s.policy = .kInvalid ∧ s.currItem = none ∧ s.bytesToDiscard = 0 := by
  have hrequest := h.request
  unfold Request at hrequest
  rw [hstate] at hrequest
  exact hrequest

theorem Sound.resetRequest_eq (h : Sound hashRange s) (hstate : s.state = .kNewCommand) :
    s.resetRequest = s := by
  obtain ⟨hcommand, hpolicy, hitem, hdiscard⟩ := h.reset hstate
  have hnoreply := h.noreply
  cases s
  dsimp only at hcommand hpolicy hitem hdiscard hnoreply
  subst hcommand hpolicy hitem hdiscard hnoreply
  rfl

/-- What is done with the words of a line. -/
def handleWords (hashRange : Bytes → ℕ) (s : Session) : List Bytes → Except Fault (Bool × Session)
  | [] => return (true, { s with requestsProcessed := s.requestsProcessed + 1 }.reply "ERROR\r\n")
  | command :: beg => (s.begun command).dispatch hashRange beg

/-- The assertions of `processRequest` hold. -/
theorem Sound.processRequest (h : Sound hashRange s) (hstate : s.state = .kNewCommand)
    {request : StringPiece} {line : Bytes} (hrequest : request.read = .ok line) :
    s.processRequest hashRange request = s.handleWords hashRange (tokens line) := by
  obtain ⟨hcommand, hpolicy, hitem, hdiscard⟩ := h.reset hstate
  unfold Session.processRequest
  rw [check_of hcommand, ok_bind, check_of h.noreply, ok_bind, check_of hpolicy, ok_bind,
    check_of hitem, ok_bind, check_of hdiscard, ok_bind]
  dsimp only
  rw [checkNoreply_eq]
  dsimp only
  rw [hrequest, ok_bind]
  cases tokens line <;> rfl

/-- A line is taken out of the buffer. -/
theorem Sound.turn_line (h : Sound hashRange s) (hstate : s.state = .kNewCommand) (hbuf : buf.Wf) {n : ℕ}
    (hsearch : Buffer.searchCRLF buf.readable = some n) (hlength : (buf.readable.take n).length < 2 ^ 31) :
    ∃ buf', buf'.Wf ∧ buf'.readableBytes < buf.readableBytes ∧ ∀ {done s'},
      s.handleWords hashRange (tokens (buf.readable.take n)) = .ok (done, s') →
      turn hashRange s buf = .ok (if done then s'.resetRequest else s', buf', true) := by
  have hle := Buffer.searchCRLF_le hsearch
  rw [List.length_take_of_le (by omega)] at hlength
  rw [hbuf.length_readable] at hle
  have hfind : buf.findCRLF = some (buf.peek + n) := by
    rw [Buffer.findCRLF, hsearch]
    rfl
  have hpiece := hbuf.read_piece (show n ≤ buf.readableBytes by omega) hlength
  obtain ⟨buf', hretrieve, hwf, hrest⟩ := hbuf.retrieveLine hsearch
  refine ⟨buf', hwf, ?_, fun {done s'} hdispatch => ?_⟩
  · rw [← hwf.length_readable, hrest, List.length_drop, hbuf.length_readable]
    omega
  · rw [turn_newCommand hashRange hstate h.protocol, hfind]
    dsimp only
    rw [Nat.add_sub_cancel_left, h.processRequest hstate hpiece, hdispatch, ok_bind]
    dsimp only
    rw [hretrieve, ok_bind]
    rfl

theorem Sound.idle (h : Sound hashRange s) (hstate : s.state = .kNewCommand) (command : Bytes) :
    Idle hashRange (s.begun command) :=
  ⟨⟨h.protocol, h.noreply, h.needle, h.outputBuf, h.store⟩, hstate⟩

theorem Sound.handleWords (h : Sound hashRange s) (hstate : s.state = .kNewCommand)
    (hcas : s.owner.cas < 2 ^ 63) {words : List Bytes} (hsafe : SafeWords words) :
    ∃ done s', s.handleWords hashRange words = .ok (done, s') ∧
      Sound hashRange (if done then s'.resetRequest else s') := by
  obtain ⟨-, hpolicy, hitem, -⟩ := h.reset hstate
  cases words with
  | nil =>
    refine ⟨true, _, rfl, (Idle.reply ?_ _).resetRequest⟩
    exact ⟨⟨h.protocol, h.noreply, h.needle, h.outputBuf, h.store⟩, hstate⟩
  | cons command beg => exact (h.idle hstate command).dispatch hpolicy hitem hcas hsafe

/-- A turn leads on: to a sound session, and a shorter buffer unless the call ends. -/
def Proceeds (hashRange : Bytes → ℕ) (s : Session) (buf : Buffer) : Prop :=
  ∃ s' buf' more, turn hashRange s buf = .ok (s', buf', more) ∧ Sound hashRange s' ∧ buf'.Wf ∧
    (more = true → buf'.readableBytes < buf.readableBytes)

theorem Sound.turn_command (h : Sound hashRange s) (hstate : s.state = .kNewCommand) (hbuf : buf.Wf)
    (hsafe : Safe s buf) : Proceeds hashRange s buf := by
  unfold Safe at hsafe
  rw [hstate] at hsafe
  obtain ⟨hcas, hline⟩ := hsafe
  cases hsearch : Buffer.searchCRLF buf.readable with
  | none =>
    have hfind : buf.findCRLF = none := by
      rw [Buffer.findCRLF, hsearch]
      rfl
    refine ⟨if 1024 < buf.readableBytes then s.shutdown else s, buf, false, ?_, ?_, hbuf, fun hmore => ?_⟩
    · rw [turn_newCommand hashRange hstate h.protocol, hfind]
      rfl
    · split_ifs
      · exact ⟨⟨h.protocol, h.noreply, h.needle, h.outputBuf, h.store⟩, h.request⟩
      · exact h
    · cases hmore
  | some n =>
    obtain ⟨hlength, hwords⟩ := hline n hsearch
    obtain ⟨buf', hwf, hshorter, hturn⟩ := h.turn_line hstate hbuf hsearch hlength
    obtain ⟨done, s', hhandle, hsound⟩ := h.handleWords hstate hcas hwords
    exact ⟨_, buf', true, hturn hhandle, hsound, hwf, fun _ => hshorter⟩

/-- A storage command without its numbers is refused. -/
theorem Sound.answers (h : Sound hashRange s) (hbuf : buf.Wf) (hsafe : Safe s buf) :
    Answers hashRange s buf := by
  intro hstate n hsearch command key fields htokens hstorage hnot
  unfold Safe at hsafe
  rw [hstate] at hsafe
  obtain ⟨-, hpolicy, -⟩ := h.reset hstate
  obtain ⟨hlength, hwords⟩ := hsafe.2 n hsearch
  rw [htokens] at hwords
  obtain ⟨buf', -, -, hturn⟩ := h.turn_line hstate hbuf hsearch hlength
  have hbad : (readNumbers (policyOf (s.begun command).policy (s.begun command).command) key fields).1 =
      false := by
    show (readNumbers (policyOf s.policy command) key fields).1 = false
    rw [hpolicy]
    exact readNumbers_bad (hwords hstorage) hnot
  have hhandle : s.handleWords hashRange (command :: key :: fields) = _ :=
    (dispatch_storage hstorage _).trans (doUpdate_bad hbad)
  rw [htokens] at hturn
  refine ⟨buf', (hturn hhandle).trans ?_⟩
  -- nothing is left of the request but the answer and the count
  have hreset : ∀ sent, ({ s with
      sent := sent
      requestsProcessed := s.requestsProcessed + 1 } : Session).resetRequest = { s with
      sent := sent
      requestsProcessed := s.requestsProcessed + 1 } := fun sent =>
    Sound.resetRequest_eq ⟨⟨h.protocol, h.noreply, h.needle, h.outputBuf, h.store⟩, h.request⟩ hstate
  rw [if_pos rfl, reply_fields (by exact h.noreply), ← hreset]
  rfl

/-! ## Data blocks -/

variable {flags cas valuelen : ℕ} {exptime : ℤ} {received : Bytes}

/-- The bytes that have arrived of an item. -/
theorem take_filled : (Item.filled hashRange key flags exptime valuelen cas received).data.take
    (Item.filled hashRange key flags exptime valuelen cas received).receivedBytes.toNat = key ++ received := by
  unfold Item.filled
  dsimp only
  rw [Int.toNat_natCast, List.take_left]

/-- An item that has arrived ends in CRLF exactly if its bytes do. -/
theorem endsWithCRLF_filled (hsmall : key.length + valuelen < 2 ^ 31)
    (hall : received.length = valuelen) :
    (Item.filled hashRange key flags exptime valuelen cas received).endsWithCRLF = true ↔
      crlf <:+ key ++ received := by
  have hlength : (key ++ received).length = key.length + valuelen := by
    rw [List.length_append, hall]
  have htotal : ((key.length : ℤ) + valuelen).toNat = (key ++ received).length := by omega
  unfold Item.endsWithCRLF
  rw [decide_eq_true_eq, Item.totalLen_filled hsmall, htotal, List.suffix_iff_eq_drop]
  unfold Item.filled
  dsimp only
  rw [hall, Nat.sub_self, List.replicate_zero, List.append_nil, Vec.slice, List.take_length, hlength]
  constructor
  · rintro ⟨-, hslice⟩
    exact hslice.symm
  · intro hslice
    exact ⟨by push_cast; rfl, hslice.symm⟩

/-- Such an item has a value in front of its CRLF. -/
theorem exists_full (hvalue : 2 ≤ valuelen) (hall : received.length = valuelen)
    (hcrlf : crlf <:+ key ++ received) : ∃ value,
      Item.filled hashRange key flags exptime valuelen cas received =
        .full hashRange key flags exptime value cas ∧ value.length + 2 = valuelen := by
  obtain ⟨value, rfl⟩ := List.suffix_of_suffix_length_le hcrlf (List.suffix_append key received)
    (show crlf.length ≤ received.length by rw [hall]; exact hvalue)
  have hlength : (value ++ crlf).length = value.length + 2 := List.length_append
  rw [hlength] at hall
  exact ⟨value, by rw [Item.full, hall], hall⟩

theorem keyBytes_filled : (Item.filled hashRange key flags exptime valuelen cas received).keyBytes = key := by
  unfold Item.filled Item.keyBytes
  dsimp only
  rw [Int.toNat_natCast, List.append_assoc, List.take_left]

theorem keyed_filled : (Item.filled hashRange key flags exptime valuelen cas received).Keyed hashRange := by
  refine ⟨⟨Int.natCast_nonneg _, ?_⟩, ?_⟩
  · unfold Item.filled
    simp only [List.length_append]
    omega
  · rw [keyBytes_filled]
    rfl

/-- The store is asked for the key only. -/
theorem Stores.getItem_filled {owner : MemcacheServer} (h : Stores hashRange owner) (received' : Bytes) :
    owner.getItem (.filled hashRange key flags exptime valuelen cas received') =
      owner.getItem (.filled hashRange key flags exptime valuelen cas received) := by
  obtain ⟨m, hm, -⟩ := h
  rw [MemcacheServer.getItem, MemcacheServer.getItem, hm.find_items keyed_filled,
    hm.find_items keyed_filled, keyBytes_filled, keyBytes_filled]

/-- The end of a data block. -/
theorem Steady.finishValue (h : Steady hashRange s) (hsmall : key.length + valuelen < 2 ^ 31)
    (hall : received.length = valuelen) (hflags : flags < 2 ^ 32)
    (hsafe : crlf <:+ key ++ received → Valid hashRange s.owner
      (.store (.filled hashRange key flags exptime valuelen cas received) s.policy)) :
    ∃ s', s.finishValue hashRange (.filled hashRange key flags exptime valuelen cas received) = .ok s' ∧
      Sound hashRange s' := by
  unfold Session.finishValue
  by_cases hcrlf : crlf <:+ key ++ received
  · obtain ⟨stored, existed, owner, hstore, howner⟩ := h.store.storeItem (hsafe hcrlf) hflags
    rw [if_pos ((endsWithCRLF_filled hsmall hall).2 hcrlf), hstore, ok_bind]
    dsimp only
    rw [reply_fields (by exact h.noreply)]
    exact ⟨_, rfl, ⟨h.protocol, rfl, h.needle, h.outputBuf, howner⟩, rfl, rfl, rfl, rfl⟩
  · rw [if_neg (fun hends => hcrlf ((endsWithCRLF_filled hsmall hall).1 hends)),
      reply_fields h.noreply]
    exact ⟨_, rfl, ⟨h.protocol, rfl, h.needle, h.outputBuf, h.store⟩, rfl, rfl, rfl, rfl⟩

/-- A safe data block may be stored when it has arrived. -/
theorem SafeBlock.valid (h : SafeBlock s buf (.filled hashRange key flags exptime valuelen cas received))
    (hstore : Stores hashRange s.owner) (hsmall : key.length + valuelen < 2 ^ 31) (hvalue : 2 ≤ valuelen)
    (hless : received.length < valuelen) (hfits : valuelen - received.length ≤ buf.readableBytes)
    {arrived : Bytes} (harrived : arrived = received ++ buf.readable.take (valuelen - received.length))
    (hall : arrived.length = valuelen) (hcrlf : crlf <:+ key ++ arrived) :
    Valid hashRange s.owner
      (.store (.filled hashRange key flags exptime valuelen cas arrived) s.policy) := by
  have hneeded : (Item.filled hashRange key flags exptime valuelen cas received).neededBytes =
      valuelen - received.length := Item.neededBytes_filled hsmall (by omega)
  have hblock : block (.filled hashRange key flags exptime valuelen cas received) buf = key ++ arrived := by
    rw [block, take_filled, hneeded, harrived, List.append_assoc]
  obtain ⟨hpolicy, hfit⟩ := h (by rw [hneeded]; exact hfits) (by rw [hblock]; exact hcrlf)
  refine ⟨?_, hpolicy, fun hconcat old hold => ?_⟩
  · obtain ⟨value, hfull, hlength⟩ := exists_full hvalue hall hcrlf
    rw [hfull]
    exact Item.complete_full (by omega)
  · rw [hstore.getItem_filled arrived] at hold
    exact hfit hconcat old hold

/-- As much as there is of a data block is put into its item. -/
theorem receiveValue_eq (hstate : s.state = .kReceiveValue)
    (hitem : s.currItem = some (.filled hashRange key flags exptime valuelen cas received))
    (hsmall : key.length + valuelen < 2 ^ 31) (hless : received.length < valuelen) (hbuf : buf.Wf)
    {avail : ℕ} (havail : avail = min buf.readableBytes (valuelen - received.length)) {arrived : Bytes}
    (harrived : arrived = received ++ buf.readable.take avail) :
    ∃ buf', buf'.Wf ∧ buf'.readableBytes = buf.readableBytes - avail ∧
      s.receiveValue hashRange buf = (do
        let item := Item.filled hashRange key flags exptime valuelen cas arrived
        let s := { s with currItem := some item }
        if valuelen - arrived.length = 0 then return (← s.finishValue hashRange item, buf')
        else return (s, buf')) := by
  have hle : avail ≤ buf.readableBytes := by omega
  have htake : (buf.readable.take avail).length = avail := by
    rw [List.length_take_of_le]
    rwa [hbuf.length_readable]
  have hlength : arrived.length = received.length + avail := by
    rw [harrived, List.length_append, htake]
  have hneeded : (Item.filled hashRange key flags exptime valuelen cas received).neededBytes =
      valuelen - received.length := Item.neededBytes_filled hsmall (by omega)
  have hneeded' : (Item.filled hashRange key flags exptime valuelen cas arrived).neededBytes =
      valuelen - arrived.length := Item.neededBytes_filled hsmall (by omega)
  have happend : (Item.filled hashRange key flags exptime valuelen cas received).append
      (buf.readable.take avail) = .ok (.filled hashRange key flags exptime valuelen cas arrived) := by
    rw [harrived]
    exact Item.append_filled hsmall (by omega)
  obtain ⟨buf', hretrieve, hwf, hrest⟩ := hbuf.retrieve hle
  refine ⟨buf', hwf, ?_, ?_⟩
  · rw [← hwf.length_readable, hrest, List.length_drop, hbuf.length_readable]
  · unfold receiveValue
    rw [hitem]
    dsimp only
    rw [check_of hstate, ok_bind, hneeded, ← havail, hbuf.slice_peek hle, happend, ok_bind, hretrieve,
      ok_bind, hneeded']

theorem Sound.turn_receive (h : Sound hashRange s) (hstate : s.state = .kReceiveValue) (hbuf : buf.Wf)
    (hpos : 0 < buf.readableBytes) (hsafe : Safe s buf) : Proceeds hashRange s buf := by
  have hrequest := h.request
  unfold Request at hrequest
  rw [hstate] at hrequest
  obtain ⟨item, hitem, key, flags, exptime, valuelen, cas, received, rfl, hsmall, hvalue, hless, hflags⟩ :=
    hrequest
  unfold Safe at hsafe
  rw [hstate] at hsafe
  obtain ⟨avail, havail⟩ : ∃ n, n = min buf.readableBytes (valuelen - received.length) := ⟨_, rfl⟩
  obtain ⟨arrived, harrived⟩ : ∃ xs, xs = received ++ buf.readable.take avail := ⟨_, rfl⟩
  have hlength : arrived.length = received.length + avail := by
    rw [harrived, List.length_append, List.length_take_of_le]
    rw [hbuf.length_readable]
    omega
  obtain ⟨buf', hwf, hbytes, hreceive⟩ := receiveValue_eq hstate hitem hsmall hless hbuf havail harrived
  have hsteady : Steady hashRange { s with
      currItem := some (.filled hashRange key flags exptime valuelen cas arrived) } :=
    ⟨h.protocol, h.noreply, h.needle, h.outputBuf, h.store⟩
  unfold Proceeds
  rw [turn_receiveValue hashRange hstate, hreceive]
  dsimp only
  by_cases hall : valuelen - arrived.length = 0
  · have hblock : crlf <:+ key ++ arrived → Valid hashRange s.owner
        (.store (.filled hashRange key flags exptime valuelen cas arrived) s.policy) := by
      rw [show avail = valuelen - received.length by omega] at harrived
      exact (hsafe _ hitem).valid h.store hsmall hvalue hless (by omega) harrived (by omega)
    obtain ⟨s', hfinish, hsound⟩ := hsteady.finishValue hsmall (by omega) hflags hblock
    rw [if_pos hall, hfinish, ok_bind]
    exact ⟨s', buf', true, rfl, hsound, hwf, fun _ => by omega⟩
  · rw [if_neg hall]
    refine ⟨_, buf', true, rfl, ⟨hsteady, ?_⟩, hwf, fun _ => by omega⟩
    unfold Request
    dsimp only
    rw [hstate]
    exact ⟨_, rfl, key, flags, exptime, valuelen, cas, arrived, rfl, hsmall, hvalue, by omega, hflags⟩

theorem Sound.turn_discard (h : Sound hashRange s) (hstate : s.state = .kDiscardValue) (hbuf : buf.Wf)
    (hpos : 0 < buf.readableBytes) : Proceeds hashRange s buf := by
  have hrequest := h.request
  unfold Request at hrequest
  rw [hstate] at hrequest
  obtain ⟨hitem, hdiscard⟩ := hrequest
  unfold Proceeds
  rw [turn_discardValue hashRange hstate, discardValue, check_of hitem, ok_bind, check_of hstate, ok_bind]
  by_cases hmore : buf.readableBytes < s.bytesToDiscard
  · rw [if_pos hmore]
    refine ⟨_, _, true, rfl, ⟨⟨h.protocol, h.noreply, h.needle, h.outputBuf, h.store⟩, ?_⟩,
      hbuf.retrieveAll, fun _ => ?_⟩
    · unfold Request
      dsimp only
      rw [hstate]
      exact ⟨hitem, Nat.sub_pos_of_lt hmore⟩
    · rw [← hbuf.retrieveAll.length_readable, Buffer.readable_retrieveAll, List.length_nil]
      exact hpos
  · obtain ⟨buf', hretrieve, hwf, hrest⟩ := hbuf.retrieve (Nat.le_of_not_lt hmore)
    rw [if_neg hmore, hretrieve, ok_bind]
    refine ⟨_, buf', true, rfl, ⟨⟨h.protocol, rfl, h.needle, h.outputBuf, h.store⟩, rfl, rfl, rfl, rfl⟩,
      hwf, fun _ => ?_⟩
    rw [← hwf.length_readable, hrest, List.length_drop, hbuf.length_readable]
    omega

/-! ## Calls and runs -/

theorem Sound.turn (h : Sound hashRange s) (hbuf : buf.Wf) (hpos : 0 < buf.readableBytes)
    (hsafe : Safe s buf) : Proceeds hashRange s buf := by
  cases hstate : s.state with
  | kNewCommand => exact h.turn_command hstate hbuf hsafe
  | kReceiveValue => exact h.turn_receive hstate hbuf hpos hsafe
  | kDiscardValue => exact h.turn_discard hstate hbuf hpos

/-- Every turn makes the buffer shorter, so the loop ends. -/
theorem Sound.messageLoop {fuel : ℕ} (h : Sound hashRange s) (hbuf : buf.Wf)
    (hfuel : buf.readableBytes < fuel) (hsafe : AlongLoop hashRange Safe fuel s buf) :
    (∃ s' buf', messageLoop hashRange fuel s buf = .ok (s', buf') ∧ Sound hashRange s' ∧ buf'.Wf) ∧
      AlongLoop hashRange (Answers hashRange) fuel s buf := by
  induction fuel generalizing s buf with
  | zero => omega
  | succ fuel ih =>
    rw [messageLoop_eq]
    by_cases hpos : 0 < buf.readableBytes
    · obtain ⟨hturnSafe, hrest⟩ := hsafe hpos
      obtain ⟨s', buf', more, hturn, h', hbuf', hshorter⟩ := h.turn hbuf hpos hturnSafe
      rw [if_pos hpos, hturn, ok_bind]
      dsimp only
      rw [hturn] at hrest
      cases more with
      | false =>
        refine ⟨⟨s', buf', rfl, h', hbuf'⟩, fun _ => ⟨h.answers hbuf hturnSafe, ?_⟩⟩
        rw [hturn]
        trivial
      | true =>
        have hless := hshorter rfl
        obtain ⟨hloop, hanswers⟩ := ih h' hbuf' (by omega) hrest
        refine ⟨hloop, fun _ => ⟨h.answers hbuf hturnSafe, ?_⟩⟩
        rw [hturn]
        exact hanswers
    · rw [if_neg hpos]
      exact ⟨⟨s, buf, rfl, h, hbuf⟩, fun hpos' => absurd hpos' hpos⟩

/-- A chunk is handled to its end. -/
theorem Sound.chunk (h : Sound hashRange s) (hbuf : buf.Wf) {chunk : Bytes}
    (hsafe : AlongTurns hashRange Safe (s, buf) chunk) :
    (∃ s' buf', (chunkMachine hashRange).step (s, buf) chunk = .ok (s', buf') ∧ Sound hashRange s' ∧ buf'.Wf) ∧
      AlongTurns hashRange (Answers hashRange) (s, buf) chunk := by
  obtain ⟨buf₁, happend, hbuf₁, -⟩ := hbuf.append chunk
  unfold AlongTurns at hsafe ⊢
  dsimp only at hsafe ⊢
  rw [happend] at hsafe ⊢
  obtain ⟨⟨s', buf', hloop, h', hbuf'⟩, hanswers⟩ := h.messageLoop hbuf₁ (Nat.lt_succ_self _) hsafe
  refine ⟨⟨{ s' with bytesRead := s'.bytesRead + (buf₁.readableBytes - buf'.readableBytes) }, buf', ?_,
    ⟨⟨h'.protocol, h'.noreply, h'.needle, h'.outputBuf, h'.store⟩, h'.request⟩, hbuf'⟩, hanswers⟩
  exact bind_eq_ok.2 ⟨buf₁, happend, bind_eq_ok.2 ⟨_, hloop, rfl⟩⟩

theorem sound_new {owner : MemcacheServer} (hstore : Stores hashRange owner) :
    ∃ s, Session.new hashRange owner = .ok s ∧ Sound hashRange s := by
  obtain ⟨m, hm, hbounded, hflags⟩ := hstore
  obtain ⟨s, hnew, h⟩ := ready_new hm
  refine ⟨s, hnew, ⟨h.protocol, h.noreply, h.needle, h.outputBuf, m, h.store, hbounded, hflags⟩, ?_⟩
  unfold Request
  rw [h.state]
  exact ⟨h.command, h.policy, h.currItem, h.bytesToDiscard⟩

/-- A run whose turns are all safe gets to its end, and in each of its turns a storage command with a
field that is not a decimal number is answered by an error line. -/
theorem safe_runs_do_not_fail (hashRange : Bytes → ℕ) {owner : MemcacheServer}
    (hstore : Stores hashRange owner) :
    ∃ s₀, Session.new hashRange owner = .ok s₀ ∧ ∀ chunks : List Bytes,
      (chunkMachine hashRange).Along (AlongTurns hashRange Safe) (s₀, Buffer.empty) chunks →
      (∃ s buf, (chunkMachine hashRange).run (s₀, Buffer.empty) chunks = .ok (s, buf)) ∧
        (chunkMachine hashRange).Along (AlongTurns hashRange (Answers hashRange))
          (s₀, Buffer.empty) chunks := by
  obtain ⟨s₀, hnew, h₀⟩ := sound_new hstore
  refine ⟨s₀, hnew, fun chunks hsafe => ?_⟩
  have hstep : ∀ (t : Session × Buffer) chunk, Sound hashRange t.1 ∧ t.2.Wf →
      AlongTurns hashRange Safe t chunk → ∃ t', (chunkMachine hashRange).step t chunk = .ok t' ∧
        Sound hashRange t'.1 ∧ t'.2.Wf := by
    rintro ⟨s, buf⟩ chunk ⟨h, hbuf⟩ hchunk
    obtain ⟨⟨s', buf', hok, h', hbuf'⟩, -⟩ := h.chunk hbuf hchunk
    exact ⟨(s', buf'), hok, h', hbuf'⟩
  have hstart : Sound hashRange s₀ ∧ Buffer.empty.Wf := ⟨h₀, Buffer.wf_empty⟩
  constructor
  · obtain ⟨⟨s, buf⟩, hrun, -⟩ := Machine.run_ok_of_along hstep hstart hsafe
    exact ⟨s, buf, hrun⟩
  · refine Machine.along_of_along (Machine.step_inv_of_exists hstep) ?_ hstart hsafe
    rintro ⟨s, buf⟩ chunk ⟨h, hbuf⟩ hchunk
    exact (h.chunk hbuf hchunk).2

theorem stores_new (startTime : ℤ) : Stores hashRange (.new startTime) :=
  ⟨.empty, represents_new startTime, fun _ _ h => (by cases h), fun _ _ h => (by cases h)⟩

/-- A value arrives in two pieces; then a line without a length, and the value is asked for. -/
def twoPieces : List Bytes :=
  [ascii "set k 0 0 1\r\na", ascii "\r\nset k 0\r\nget k\r\n"]

theorem safe_runs_do_not_fail_twoPieces : ∃ s₀, Session.new boostHashRange (.new 0) = .ok s₀ ∧
    (chunkMachine boostHashRange).Along (AlongTurns boostHashRange Safe) (s₀, Buffer.empty) twoPieces ∧
      ∃ s buf, (chunkMachine boostHashRange).run (s₀, Buffer.empty) twoPieces = .ok (s, buf) := by
  obtain ⟨s₀, hnew, hrun⟩ := safe_runs_do_not_fail boostHashRange (stores_new 0)
  have hsafe : ∀ s ∈ (Session.new boostHashRange (.new 0)).toOption,
      (chunkMachine boostHashRange).Along (AlongTurns boostHashRange Safe) (s, Buffer.empty) twoPieces := by
    decide +kernel
  have hsafe₀ := hsafe s₀ (by rw [hnew]; rfl)
  exact ⟨s₀, hnew, hsafe₀, (hrun twoPieces hsafe₀).1⟩

/-- What a new session sends in answer to a chunk, or how it fails. -/
def outcome (chunk : Bytes) : Except Fault Bytes := do
  let s ← Session.new boostHashRange (.new 0)
  let (s, _) ← (chunkMachine boostHashRange).run (s, Buffer.empty) [chunk]
  return s.sent

/-- A length that is not a number, a command without a key and a value to be prepended abort the
session; a token that is not a number passes for a token. -/
theorem fields_unread_fail :
    outcome (ascii "set k 0 0 x\r\n") = .error .item ∧
      outcome (ascii "set\r\n") = .error .tokenizer ∧
      outcome (ascii "prepend k 0 0 1\r\na\r\n") = .error .storeItem ∧
      outcome (ascii "cas k 0 0 1 x\r\na\r\n") = .ok (ascii "NOT_FOUND\r\n") := by
  decide +kernel

end Session

end Reactor
