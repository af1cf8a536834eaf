import Reactor.MemcacheServer.Tokens
import Reactor.Session.Protocol

/-!
# The turns of a session

`onMessage` takes turns while the buffer is not empty: in a turn it handles a line, or receives or
discards a part of a data block.  `AlongLoop` says that the turns of a call meet a condition.
`Safe` is the condition under which a turn does not fail:

* a line is shorter than 2^31 bytes; a storage command has a key and decimal numbers, its length is
  not negative as an `int`, and `delete` has a key;
* a data block that ends in CRLF does not belong to `prepend`, and joined to a stored value it is
  shorter than 2^31 bytes.
-/

namespace Reactor

namespace Session

open MemcacheServer

/-! ## Turns -/

variable (hashRange : Bytes → ℕ)

/-- The body of the loop of `onMessage`; the last result says whether the loop goes on. -/
def turn (s : Session) (buf : Buffer) : Except Fault (Session × Buffer × Bool) :=
  match s.state with
  | .kNewCommand => do
    let s ← s.detect buf
    check .sessionOnMessage (s.protocol = .kAscii ∨ s.protocol = .kBinary)
    if s.protocol = .kBinary then return (s, buf, true)
    else
      match buf.findCRLF with
      | some crlf =>
        let len := intOfSize (crlf - buf.peek)
        let (done, s) ← s.processRequest hashRange ⟨buf.buffer.drop buf.peek, len⟩
        let buf ← buf.retrieveUntil (crlf + 2)
        return (if done then s.resetRequest else s, buf, true)
      | none => return (if 1024 < buf.readableBytes then s.shutdown else s, buf, false)
  | .kReceiveValue => do
    let (s, buf) ← s.receiveValue hashRange buf
    return (s, buf, true)
  | .kDiscardValue => do
    let (s, buf) ← s.discardValue buf
    return (s, buf, true)

/-- The protocol is detected once. -/
theorem turn_newCommand {s : Session} (hstate : s.state = .kNewCommand) (hprotocol : s.protocol = .kAscii)
    (buf : Buffer) : turn hashRange s buf =
      match buf.findCRLF with
      | some crlf => do
        let len := intOfSize (crlf - buf.peek)
        let (done, s) ← s.processRequest hashRange ⟨buf.buffer.drop buf.peek, len⟩
        let buf ← buf.retrieveUntil (crlf + 2)
        return (if done then s.resetRequest else s, buf, true)
      | none => return (if 1024 < buf.readableBytes then s.shutdown else s, buf, false) := by
  have hdetect : s.detect buf = .ok s := by
    unfold detect
    rw [hprotocol]
    rfl
  unfold turn
  rw [hstate]
  dsimp only
  rw [hdetect, ok_bind, check_of (Or.inl hprotocol), ok_bind, hprotocol, if_neg (by decide)]

theorem turn_receiveValue {s : Session} (hstate : s.state = .kReceiveValue) (buf : Buffer) :
    turn hashRange s buf = (do
      let (s, buf) ← s.receiveValue hashRange buf
      return (s, buf, true)) := by
  unfold turn
  rw [hstate]

theorem turn_discardValue {s : Session} (hstate : s.state = .kDiscardValue) (buf : Buffer) :
    turn hashRange s buf = (do
      let (s, buf) ← s.discardValue buf
      return (s, buf, true)) := by
  unfold turn
  rw [hstate]

theorem messageLoop_eq (s : Session) (buf : Buffer) (fuel : ℕ) :
    messageLoop hashRange (fuel + 1) s buf =
      if 0 < buf.readableBytes then do
        let (s, buf, more) ← turn hashRange s buf
        if more then messageLoop hashRange fuel s buf else return (s, buf)
      else return (s, buf) := by
  rw [messageLoop]
  unfold turn
  by_cases hpos : 0 < buf.readableBytes
  · rw [if_pos hpos, if_pos hpos]
    cases s.state with
    | kNewCommand =>
      dsimp only
      rw [bind_assoc]
      congr 1
      funext s
      rw [bind_assoc]
      congr 1
      funext _
      by_cases hbinary : s.protocol = .kBinary
      · rw [if_pos hbinary, if_pos hbinary]
        rfl
      · rw [if_neg hbinary, if_neg hbinary]
        cases buf.findCRLF with
        | none => rfl
        | some crlf =>
          dsimp only
          rw [bind_assoc]
          congr 1
          funext t
          rw [bind_assoc]
          congr 1
    | kReceiveValue =>
      dsimp only
      cases s.receiveValue hashRange buf <;> rfl
    | kDiscardValue =>
      dsimp only
      cases s.discardValue buf <;> rfl
  · rw [if_neg hpos, if_neg hpos]

/-- The condition holds before every turn. -/
def AlongLoop (C : Session → Buffer → Prop) : ℕ → Session → Buffer → Prop
  | 0, _, _ => True
  | fuel + 1, s, buf => 0 < buf.readableBytes → C s buf ∧
      match turn hashRange s buf with
      | .ok (s', buf', true) => AlongLoop C fuel s' buf'
      | _ => True

/-- Chunks arrive, with a call of `onMessage` after each. -/
def chunkMachine : Machine (Session × Buffer) Bytes Fault :=
  ⟨fun (s, buf) chunk => do s.onMessage hashRange (← buf.append chunk)⟩

/-- The condition holds before every turn that a chunk gives rise to. -/
def AlongTurns (C : Session → Buffer → Prop) (t : Session × Buffer) (chunk : Bytes) : Prop :=
  match t.2.append chunk with
  | .ok buf => AlongLoop hashRange C (buf.readableBytes + 1) t.1 buf
  | .error _ => True

/-! ## Conditions -/

/-- The commands that `processRequest` hands to `doUpdate`. -/
def IsStorage (command : Bytes) : Prop :=
  command = ascii "set" ∨ command = ascii "add" ∨ command = ascii "replace" ∨
    command = ascii "append" ∨ command = ascii "prepend" ∨ command = ascii "cas"

/-- The flags, the time and the length, and for `cas` the token. -/
def fieldCount (command : Bytes) : ℕ := if command = ascii "cas" then 4 else 3

/-- Digits, with a sign in front or without. -/
def IsDecimal (field : Bytes) : Prop := IsDigits (sign field).2

/-- The fields of a storage command are there, and decimal numbers. -/
def DecimalFields (command : Bytes) (fields : List Bytes) : Prop :=
  fieldCount command ≤ fields.length ∧ ∀ field ∈ fields.take (fieldCount command), IsDecimal field

/-- The length of a data block as an `int`. -/
def bytesOf (field : Bytes) : ℤ := toInt ((strtoul field).getD 0 : ℕ)

/-- Those fields that are there are decimal numbers, and if all are, the length is not negative. -/
def SafeFields (command : Bytes) (fields : List Bytes) : Prop :=
  (∀ field ∈ fields.take (fieldCount command), IsDecimal field) ∧
    (fieldCount command ≤ fields.length → ∀ bytes ∈ fields[2]?, 0 ≤ bytesOf bytes)

def SafeWords : List Bytes → Prop
  | [] => True
  | [command] => ¬ IsStorage command ∧ command ≠ ascii "delete"
  | command :: key :: fields =>
    IsStorage command → key.length ≤ kLongestKeySize → SafeFields command fields

def SafeLine (line : Bytes) : Prop := line.length < 2 ^ 31 ∧ SafeWords (tokens line)

/-- The key and the data block that the buffer completes. -/
def block (item : Item) (buf : Buffer) : Bytes :=
  item.data.take item.receivedBytes.toNat ++ buf.readable.take item.neededBytes

def SafeBlock (s : Session) (buf : Buffer) (item : Item) : Prop :=
  item.neededBytes ≤ buf.readableBytes → crlf <:+ block item buf →
    s.policy ≠ .kInvalid ∧ (s.policy = .kAppend ∨ s.policy = .kPrepend →
      ∀ old ∈ s.owner.getItem item, item.keylen + item.valuelen + old.valuelen - 2 < 2 ^ 31)

/-- The session does not fail in its next turn.  The counter of the stores has not left its 64 bits. -/
def Safe (s : Session) (buf : Buffer) : Prop :=
  match s.state with
  | .kNewCommand => s.owner.cas < 2 ^ 63 ∧ ∀ n ∈ Buffer.searchCRLF buf.readable,
      SafeLine (buf.readable.take n)
  | .kReceiveValue => ∀ item ∈ s.currItem, SafeBlock s buf item
  | .kDiscardValue => True

/-- A storage command with a field that is missing or not a decimal number is answered by an error
line, and leaves the store and the session as they are. -/
def Answers (s : Session) (buf : Buffer) : Prop :=
  s.state = .kNewCommand → ∀ n ∈ Buffer.searchCRLF buf.readable, ∀ command key fields,
    tokens (buf.readable.take n) = command :: key :: fields → IsStorage command →
    ¬ DecimalFields command fields →
    ∃ buf', turn hashRange s buf = .ok ({ s with
      sent := if s.connected then s.sent ++ ascii "CLIENT_ERROR bad command line format\r\n" else s.sent
      requestsProcessed := s.requestsProcessed + 1 }, buf', true)

instance (command : Bytes) : Decidable (IsStorage command) :=
  inferInstanceAs (Decidable (_ ∨ _ ∨ _ ∨ _ ∨ _ ∨ _))

instance (field : Bytes) : Decidable (IsDecimal field) := inferInstanceAs (Decidable (IsDigits _))

instance (command : Bytes) (fields : List Bytes) : Decidable (SafeFields command fields) :=
  inferInstanceAs (Decidable ((∀ field ∈ _, IsDecimal field) ∧ (_ → ∀ bytes ∈ _, _ ≤ _)))

instance : ∀ words, Decidable (SafeWords words)
  | [] => inferInstanceAs (Decidable True)
  | [_] => inferInstanceAs (Decidable (¬ _ ∧ _ ≠ _))
  | _ :: _ :: _ => inferInstanceAs (Decidable (_ → _ → _))

instance (line : Bytes) : Decidable (SafeLine line) := inferInstanceAs (Decidable (_ ∧ _))

instance (s : Session) (buf : Buffer) (item : Item) : Decidable (SafeBlock s buf item) :=
  inferInstanceAs (Decidable (_ → _ → _ ∧ (_ ∨ _ → ∀ old ∈ _, _ < _)))

instance (s : Session) (buf : Buffer) : Decidable (Safe s buf) :=
  match h : s.state with
  | .kNewCommand => decidable_of_iff (s.owner.cas < 2 ^ 63 ∧
      ∀ n ∈ Buffer.searchCRLF buf.readable, SafeLine (buf.readable.take n)) (by rw [Safe, h])
  | .kReceiveValue => decidable_of_iff (∀ item ∈ s.currItem, SafeBlock s buf item) (by rw [Safe, h])
  | .kDiscardValue => decidable_of_iff True (by rw [Safe, h])

/-- The turns of a concrete call are checked by taking them. -/
instance decidableAlongLoop (C : Session → Buffer → Prop) [∀ s buf, Decidable (C s buf)] :
    ∀ fuel s buf, Decidable (AlongLoop hashRange C fuel s buf)
  | 0, _, _ => inferInstanceAs (Decidable True)
  | fuel + 1, s, buf =>
    have : Decidable (match turn hashRange s buf with
        | .ok (s', buf', true) => AlongLoop hashRange C fuel s' buf'
        | _ => True) :=
      match turn hashRange s buf with
      | .ok (s', buf', true) => decidableAlongLoop C fuel s' buf'
      | .ok (_, _, false) => inferInstanceAs (Decidable True)
      | .error _ => inferInstanceAs (Decidable True)
    inferInstanceAs (Decidable (_ → C s buf ∧ _))

instance decidableAlongTurns (C : Session → Buffer → Prop) [∀ s buf, Decidable (C s buf)]
    (t : Session × Buffer) (chunk : Bytes) : Decidable (AlongTurns hashRange C t chunk) :=
  match h : t.2.append chunk with
  | .ok buf => decidable_of_iff (AlongLoop hashRange C (buf.readableBytes + 1) t.1 buf)
      (by rw [AlongTurns, h])
  | .error _ => decidable_of_iff True (by rw [AlongTurns, h])

end Session

end Reactor
