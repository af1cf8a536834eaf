import Reactor.Lib.Machine
import Reactor.MemcacheServer.Store
import Reactor.Session

/-!
# The text protocol

The commands of a client, their texts, and what a server that follows the protocol does with them:
the reply and the store afterwards (`Command.serve`).  A session reads the words of a line
(`tokens_line`) and the numbers among them (`strtoul_digits`, `read_time`) as they were written.
-/

namespace Reactor

namespace Session

/-- The storage commands; `cas` has a token. -/
inductive Verb where
  | set
  | add
  | replace
  | append
  | prepend
  | cas (token : Bytes)
  deriving DecidableEq, Repr

namespace Verb

def name : Verb → Bytes
  | .set => ascii "set"
  | .add => ascii "add"
  | .replace => ascii "replace"
  | .append => ascii "append"
  | .prepend => ascii "prepend"
  | .cas _ => ascii "cas"

def policy : Verb → UpdatePolicy
  | .set => .kSet
  | .add => .kAdd
  | .replace => .kReplace
  | .append => .kAppend
  | .prepend => .kPrepend
  | .cas _ => .kCas

/-- The words behind the length. -/
def args : Verb → List Bytes
  | .cas token => [token]
  | _ => []

def token : Verb → ℕ
  | .cas token => ofDecimal token
  | _ => 0

/-- The reply when nothing is stored. -/
def refusal (verb : Verb) (existed : Bool) : Bytes :=
  match verb with
  | .cas _ => if existed then ascii "EXISTS\r\n" else ascii "NOT_FOUND\r\n"
  | _ => ascii "NOT_STORED\r\n"

end Verb

/-- A storage command: its words and its data block. -/
structure Update where
  verb : Verb
  key : Bytes
  flags : Bytes
  exptime : Bytes
  bytes : Bytes
  noreply : Bool
  data : Bytes
  deriving DecidableEq, Repr

/-- The commands; `get true` is `gets`. -/
inductive Command where
  | update (u : Update)
  | get (cas : Bool) (keys : List Bytes)
  | delete (key : Bytes) (noreply : Bool)
  deriving DecidableEq, Repr

/-! ## Texts -/

def noreplyWords (noreply : Bool) : List Bytes := if noreply then [ascii "noreply"] else []

namespace Command

def name : Command → Bytes
  | .update u => u.verb.name
  | .get cas _ => if cas then ascii "gets" else ascii "get"
  | .delete _ _ => ascii "delete"

def args : Command → List Bytes
  | .update u =>
    u.key :: u.flags :: u.exptime :: u.bytes :: (u.verb.args ++ noreplyWords u.noreply)
  | .get _ keys => keys
  | .delete key noreply => key :: noreplyWords noreply

def line (c : Command) : Bytes := [32].intercalate (c.name :: c.args)

/-- The data block. -/
def block : Command → Bytes
  | .update u => u.data ++ crlf
  | .get _ _ | .delete _ _ => []

def text (c : Command) : Bytes := c.line ++ crlf ++ c.block

end Command

/-- A key has no spaces and no control characters. -/
def IsKey (key : Bytes) : Prop :=
  key ≠ [] ∧ key.length ≤ kLongestKeySize ∧ ∀ b ∈ key, 32 < b ∧ b ≠ 127

def IsDigits (text : Bytes) : Prop := text ≠ [] ∧ ∀ b ∈ text, isdigit b = true

/-- A number without its sign. -/
def magnitude : Bytes → Bytes
  | 45 :: digits => digits
  | digits => digits

/-- A number that may be negative. -/
def timeOf : Bytes → ℤ
  | 45 :: digits => -ofDecimal digits
  | digits => ofDecimal digits

def IsTime (text : Bytes) : Prop :=
  IsDigits (magnitude text) ∧ -2 ^ 63 ≤ timeOf text ∧ timeOf text < 2 ^ 63

/-- The flags are a `uint32_t`, the time a `time_t`, the token a `uint64_t`, and the length is that of
the data block. -/
structure Update.WellFormed (u : Update) : Prop where
  key : IsKey u.key
  flags : IsDigits u.flags ∧ ofDecimal u.flags < 2 ^ 32
  exptime : IsTime u.exptime
  bytes : IsDigits u.bytes ∧ ofDecimal u.bytes = u.data.length
  token : ∀ token ∈ u.verb.args, IsDigits token ∧ ofDecimal token < 2 ^ 64

def Command.WellFormed : Command → Prop
  | .update u => u.WellFormed
  | .get _ keys => keys ≠ [] ∧ ∀ key ∈ keys, IsKey key
  | .delete key _ => IsKey key

instance (key : Bytes) : Decidable (IsKey key) := inferInstanceAs (Decidable (_ ∧ _ ∧ _))

instance (text : Bytes) : Decidable (IsDigits text) := inferInstanceAs (Decidable (_ ∧ _))

instance (text : Bytes) : Decidable (IsTime text) := inferInstanceAs (Decidable (_ ∧ _ ∧ _))

instance (u : Update) : Decidable u.WellFormed :=
  decidable_of_iff (IsKey u.key ∧ (IsDigits u.flags ∧ ofDecimal u.flags < 2 ^ 32) ∧
      IsTime u.exptime ∧ (IsDigits u.bytes ∧ ofDecimal u.bytes = u.data.length) ∧
      ∀ token ∈ u.verb.args, IsDigits token ∧ ofDecimal token < 2 ^ 64)
    ⟨fun h => ⟨h.1, h.2.1, h.2.2.1, h.2.2.2.1, h.2.2.2.2⟩,
      fun h => ⟨h.key, h.flags, h.exptime, h.bytes, h.token⟩⟩

instance : ∀ c : Command, Decidable c.WellFormed
  | .update u => inferInstanceAs (Decidable u.WellFormed)
  | .get _ _ => inferInstanceAs (Decidable (_ ∧ _))
  | .delete key _ => inferInstanceAs (Decidable (IsKey key))

/-! ## Meaning -/

/-- A key is taken out of the map. -/
def remove (m : CasMap) (key : Bytes) : CasMap := { m with map := Function.update m.map key none }

/-- What is stored. -/
def Update.entry (startTime : ℤ) (u : Update) : CasMap.Entry :=
  ⟨ofDecimal u.flags, relExptime startTime (timeOf u.exptime), u.data, u.verb.token⟩

/-- The effect of a storage command; an object of more than a megabyte is not stored, and what was
stored under its key is gone. -/
def Update.serve (startTime : ℤ) (m : CasMap) (u : Update) : Bytes × CasMap :=
  if 1024 * 1024 < u.data.length then
    (ascii "SERVER_ERROR object too large for cache\r\n", remove m u.key)
  else if m.accepts u.verb.policy u.key u.verb.token then
    (ascii "STORED\r\n",
      m.put u.key (CasMap.combine u.verb.policy (m.map u.key) (u.entry startTime)))
  else (u.verb.refusal (m.map u.key).isSome, m)

/-- A hit of `get` and `gets`. -/
def hit (cas : Bool) (key : Bytes) (e : CasMap.Entry) : Bytes :=
  ascii "VALUE " ++ key ++ ascii " " ++ decimal e.flags ++ ascii " " ++ decimal e.value.length ++
    (if cas then ascii " " ++ decimal e.cas else []) ++ crlf ++ e.value ++ crlf

def unlessNoreply (noreply : Bool) (reply : Bytes) : Bytes := if noreply then [] else reply

/-- The reply to a command, and the store afterwards. -/
def Command.serve (startTime : ℤ) (m : CasMap) : Command → Bytes × CasMap
  | .update u => (unlessNoreply u.noreply (u.serve startTime m).1, (u.serve startTime m).2)
  | .get cas keys =>
    (keys.flatMap (fun key => ((m.map key).map (hit cas key)).getD []) ++ ascii "END\r\n", m)
  | .delete key noreply =>
    (unlessNoreply noreply
      (if (m.map key).isSome then ascii "DELETED\r\n" else ascii "NOT_FOUND\r\n"), remove m key)

/-- What a client has been sent, and the store. -/
structure Dialogue where
  sent : Bytes
  store : CasMap

def Dialogue.next (startTime : ℤ) (t : Dialogue) (c : Command) : Dialogue :=
  ⟨t.sent ++ (c.serve startTime t.store).1, (c.serve startTime t.store).2⟩

/-- The protocol, one command at a time. -/
def protocolMachine (startTime : ℤ) : Machine Dialogue Command Fault :=
  ⟨fun t c => .ok (t.next startTime c)⟩

/-! ## Words -/

/-- A word is not empty and has no space and no CR. -/
def IsWord (word : Bytes) : Prop := word ≠ [] ∧ 32 ∉ word ∧ 13 ∉ word

instance (word : Bytes) : Decidable (IsWord word) := inferInstanceAs (Decidable (_ ∧ _ ∧ _))

theorem tokens_intercalate {words : List Bytes} (hne : words ≠ []) (h : ∀ word ∈ words, IsWord word) :
    tokens ([32].intercalate words) = words := by
  unfold tokens
  rw [List.splitOn_intercalate 32 (fun word hword => (h word hword).2.1) hne, List.filter_eq_self]
  intro word hword
  exact decide_eq_true (h word hword).1

theorem notMem_intercalate {words : List Bytes} (h : ∀ word ∈ words, IsWord word) :
    13 ∉ [32].intercalate words := by
  induction words with
  | nil => exact List.not_mem_nil
  | cons word words ih =>
    have hword : 13 ∉ word := (h word List.mem_cons_self).2.2
    cases words with
    | nil =>
      rw [List.intercalate_singleton]
      exact hword
    | cons next words =>
      rw [List.intercalate_cons_cons, List.append_assoc, List.mem_append, List.mem_append]
      rintro (hmem | hmem | hmem)
      · exact hword hmem
      · simp at hmem
      · exact ih (fun w hw => h w (List.mem_cons_of_mem word hw)) hmem

theorem isWord_of_lt {word : Bytes} (hne : word ≠ []) (h : ∀ b ∈ word, 32 < b) : IsWord word :=
  ⟨hne, fun hmem => absurd (h 32 hmem) (by decide), fun hmem => absurd (h 13 hmem) (by decide)⟩

theorem IsKey.isWord {key : Bytes} (h : IsKey key) : IsWord key :=
  isWord_of_lt h.1 fun b hb => (h.2.2 b hb).1

theorem IsDigits.lt {text : Bytes} (h : IsDigits text) : ∀ b ∈ text, 32 < b := by
  intro b hb
  have hdigit := of_decide_eq_true (h.2 b hb)
  exact UInt8.lt_of_lt_of_le (by decide : (32 : Byte) < 48) hdigit.1

theorem IsDigits.isWord {text : Bytes} (h : IsDigits text) : IsWord text := isWord_of_lt h.1 h.lt

theorem magnitude_of_ne {b : Byte} (hb : b ≠ 45) (digits : Bytes) :
    magnitude (b :: digits) = b :: digits ∧ timeOf (b :: digits) = ofDecimal (b :: digits) := by
  unfold magnitude timeOf
  constructor
  · split
    · rename_i heq
      exact absurd (List.cons.inj heq).1 hb
    · rfl
  · split
    · rename_i heq
      exact absurd (List.cons.inj heq).1 hb
    · rfl

theorem IsTime.isWord {text : Bytes} (h : IsTime text) : IsWord text := by
  cases text with
  | nil => exact absurd rfl h.1.1
  | cons b digits =>
    refine isWord_of_lt (List.cons_ne_nil _ _) fun x hx => ?_
    by_cases hb : b = 45
    · subst hb
      rcases List.mem_cons.1 hx with rfl | hx
      · decide
      · exact h.1.lt x hx
    · have hdigits := h.1
      rw [(magnitude_of_ne hb digits).1] at hdigits
      exact hdigits.lt x hx

theorem isWord_verb (verb : Verb) : IsWord verb.name := by
  cases verb with
  | set | add | replace | append | prepend => decide
  | cas token => exact (by decide : IsWord (ascii "cas"))

theorem isWord_name (c : Command) : IsWord c.name := by
  cases c with
  | update u => exact isWord_verb u.verb
  | get cas keys =>
    cases cas with
    | false => exact (by decide : IsWord (ascii "get"))
    | true => exact (by decide : IsWord (ascii "gets"))
  | delete key noreply => exact (by decide : IsWord (ascii "delete"))

theorem isWord_noreplyWords (noreply : Bool) : ∀ word ∈ noreplyWords noreply, IsWord word := by
  cases noreply <;> decide

/-- The words of a command. -/
theorem Command.WellFormed.isWord {c : Command} (h : c.WellFormed) :
    ∀ word ∈ c.name :: c.args, IsWord word := by
  intro word hword
  rcases List.mem_cons.1 hword with rfl | hword
  · exact isWord_name c
  · cases c with
    | update u =>
      have hu : u.WellFormed := h
      simp only [Command.args, List.mem_cons, List.mem_append] at hword
      rcases hword with rfl | rfl | rfl | rfl | hword | hword
      · exact hu.key.isWord
      · exact hu.flags.1.isWord
      · exact hu.exptime.isWord
      · exact hu.bytes.1.isWord
      · exact (hu.token word hword).1.isWord
      · exact isWord_noreplyWords u.noreply word hword
    | get cas keys => exact (h.2 word hword).isWord
    | delete key noreply =>
      rcases List.mem_cons.1 hword with rfl | hword
      · exact IsKey.isWord h
      · exact isWord_noreplyWords noreply word hword

theorem tokens_line {c : Command} (h : c.WellFormed) : tokens c.line = c.name :: c.args :=
  tokens_intercalate (List.cons_ne_nil _ _) h.isWord

theorem searchCRLF_line_text {c : Command} (h : c.WellFormed) (rest : Bytes) :
    Buffer.searchCRLF (c.line ++ crlf ++ rest) = some c.line.length :=
  Buffer.searchCRLF_line (Buffer.searchCRLF_of_notMem (notMem_intercalate h.isWord)) rest

/-! ## Numbers -/

theorem dropWhile_isspace {b : Byte} (hb : 32 < b) (rest : Bytes) :
    (b :: rest).dropWhile isspace = b :: rest := by
  have hspace : isspace b = false := by
    refine decide_eq_false ?_
    rintro (rfl | ⟨-, hle⟩)
    · exact absurd hb (by decide)
    · exact absurd (UInt8.lt_of_lt_of_le hb hle) (by decide)
  rw [List.dropWhile_cons_of_neg (by rw [hspace]; decide)]

theorem strtoul_digits {text : Bytes} (h : IsDigits text) (hlt : ofDecimal text < 2 ^ 64) :
    strtoul text = some (ofDecimal text) := by
  cases text with
  | nil => exact absurd rfl h.1
  | cons b digits =>
    have hdigit := of_decide_eq_true (h.2 b List.mem_cons_self)
    have hsign : sign (b :: digits) = (false, b :: digits) := by
      unfold sign
      split
      · rename_i heq
        obtain ⟨rfl, -⟩ := List.cons.inj heq
        exact absurd hdigit.1 (by decide)
      · rename_i heq
        obtain ⟨rfl, -⟩ := List.cons.inj heq
        exact absurd hdigit.1 (by decide)
      · rfl
    unfold strtoul
    rw [dropWhile_isspace (h.lt b List.mem_cons_self), hsign]
    dsimp only
    rw [if_pos ⟨h.1, List.all_eq_true.2 h.2⟩, if_neg (by omega), if_neg (by decide)]

theorem strtoul_negative {digits : Bytes} (h : IsDigits digits) (hlt : ofDecimal digits < 2 ^ 64) :
    strtoul (45 :: digits) = some ((2 ^ 64 - ofDecimal digits) % 2 ^ 64) := by
  unfold strtoul
  have hsign : sign (45 :: digits) = (true, digits) := rfl
  rw [dropWhile_isspace (by decide), hsign]
  dsimp only
  rw [if_pos ⟨h.1, List.all_eq_true.2 h.2⟩, if_neg (by omega), if_pos rfl]

theorem read_eq {T : Type} {cast : ℕ → T} {token : Bytes} {x : ℕ} (h : strtoul token = some x) (val : T)
    (first : List Bytes) : read cast val (token :: first) = (true, cast x, first) := by
  unfold read
  dsimp only
  rw [h]

theorem read_digits {T : Type} {cast : ℕ → T} {text : Bytes} (h : IsDigits text)
    (hlt : ofDecimal text < 2 ^ 64) (val : T) (first : List Bytes) :
    read cast val (text :: first) = (true, cast (ofDecimal text), first) :=
  read_eq (strtoul_digits h hlt) val first

theorem read_time {text : Bytes} (h : IsTime text) (val : ℤ) (first : List Bytes) :
    read toTime val (text :: first) = (true, timeOf text, first) := by
  obtain ⟨hdigits, hlow, hhigh⟩ := h
  cases text with
  | nil => exact absurd rfl hdigits.1
  | cons b digits =>
    by_cases hb : b = 45
    · subst hb
      have hmagnitude : magnitude (45 :: digits) = digits := rfl
      have htime : timeOf (45 :: digits) = -ofDecimal digits := rfl
      rw [hmagnitude] at hdigits
      rw [htime] at hlow
      have hcast : toTime ((2 ^ 64 - ofDecimal digits) % 2 ^ 64) = -ofDecimal digits := by
        unfold toTime Int.bmod
        dsimp only
        split_ifs <;> omega
      rw [read_eq (strtoul_negative hdigits (by omega)), hcast, htime]
    · obtain ⟨hmagnitude, htime⟩ := magnitude_of_ne hb digits
      rw [hmagnitude] at hdigits
      rw [htime] at hhigh
      have hcast : toTime (ofDecimal (b :: digits)) = ofDecimal (b :: digits) := by
        unfold toTime Int.bmod
        dsimp only
        split_ifs <;> omega
      rw [read_digits hdigits (by omega), hcast, htime]

end Session

end Reactor
