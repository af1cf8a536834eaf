import Reactor.TimeZone
import Reactor.Lib.Vec

/-!
# Zone files

`readTimeZoneFile` fills the data of a zone from a file step by step.  When the file ends too early a
`logic_error` is thrown and caught again, and the data stays as it is then.  The function returns
`true` in any case, also when there is no file.

* `sound_iff`: a zone from a file is usable, or not valid, exactly when the file is a zone file
  whose indices are in range.
-/

namespace Reactor

namespace TimeZone

/-- How reading stops: by an exception, which leaves the data behind that was read, or for good. -/
inductive Stop where
  | logicError (data : Data)
  | fault (f : Fault)

/-- `File`: the bytes of a file and the position in it. -/
structure File where
  content : Bytes
  pos : ℕ

/-- The big-endian number of four bytes, as an `int32_t`. -/
def be32 (b : Bytes) : ℤ := Int.bmod (b.foldl (fun n x => 256 * n + x.toNat) 0 : ℕ) (2 ^ 32)

namespace File

/-- `readBytes`.  The buffer on the stack has `n` bytes; there is none with a negative number. -/
def readBytes (f : File) (n : ℤ) (data : Data) : Except Stop (Bytes × File) :=
  if n < 0 then .error (.fault .outOfBounds)
  else if f.pos + n.toNat ≤ f.content.length then
    .ok (Vec.slice f.content f.pos (f.pos + n.toNat), { f with pos := f.pos + n.toNat })
  else .error (.logicError data)

/-- `readInt32` -/
def readInt32 (f : File) (data : Data) : Except Stop (ℤ × File) := do
  let (x, f) ← f.readBytes 4 data
  return (be32 x, f)

/-- `readUInt8` -/
def readUInt8 (f : File) (data : Data) : Except Stop (ℕ × File) := do
  let (x, f) ← f.readBytes 1 data
  return ((x.headD 0).toNat, f)

end File

/-- The loops over the transition times and over their types. -/
def readMany {α : Type} (read : File → Data → Except Stop (α × File)) (data : Data) :
    ℕ → File → Except Stop (List α × File)
  | 0, f => return ([], f)
  | n + 1, f => do
    let (x, f) ← read f data
    let (xs, f) ← readMany read data n f
    return (x :: xs, f)

/-- The loop over the local time types: every type that is read is in the data. -/
def readLocaltimes : ℕ → File → Data → Except Stop (Data × File)
  | 0, f, data => return (data, f)
  | n + 1, f, data => do
    let (gmtoff, f) ← f.readInt32 data
    let (isdst, f) ← f.readUInt8 data
    let (abbrind, f) ← f.readUInt8 data
    readLocaltimes n f { data with
      localtimes := data.localtimes ++ [⟨gmtoff, isdst ≠ 0, abbrind⟩] }

/-- The loop that joins the times and the types of the transitions. -/
def addTransitions : List (ℤ × ℕ) → Data → Except Stop Data
  | [], data => return data
  | (gmttime, localIdx) :: rest, data =>
    match data.localtimes[localIdx]? with
    | none => .error (.fault .outOfBounds)
    | some l => addTransitions rest { data with
        transitions := data.transitions ++ [⟨gmttime, gmttime + l.gmtOffset, localIdx⟩] }

/-- What follows the header, with the three numbers of the header that are used. -/
def readBlocks (timecnt typecnt charcnt : ℤ) (f : File) (data : Data) : Except Stop Data :=
  -- `trans.reserve(timecnt)` throws a `length_error`
  if timecnt < 0 then .error (.logicError data)
  else do
    let (gmttimes, f) ← readMany File.readInt32 data timecnt.toNat f
    let (localtimes, f) ← readMany File.readUInt8 data timecnt.toNat f
    let (data, f) ← readLocaltimes typecnt.toNat f data
    let data ← addTransitions (gmttimes.zip localtimes) data
    let (abbreviation, _) ← f.readBytes charcnt data
    return { data with abbreviation := abbreviation }

/-- The body of the `try` in `readTimeZoneFile`. -/
def readData (f : File) (data : Data) : Except Stop Data := do
  let (head, f) ← f.readBytes 4 data
  if head ≠ ascii "TZif" then .error (.logicError data)
  else
    let (_version, f) ← f.readBytes 1 data
    let (_, f) ← f.readBytes 15 data
    let (_isgmtcnt, f) ← f.readInt32 data
    let (_isstdcnt, f) ← f.readInt32 data
    let (_leapcnt, f) ← f.readInt32 data
    let (timecnt, f) ← f.readInt32 data
    let (typecnt, f) ← f.readInt32 data
    let (charcnt, f) ← f.readInt32 data
    readBlocks timecnt typecnt charcnt f data

/-- `readTimeZoneFile`, of a file that may not be there. -/
def readTimeZoneFile (zonefile : Option Bytes) (data : Data) : Except Fault (Bool × Data) :=
  match zonefile with
  | none => return (true, data)
  | some content =>
    match readData ⟨content, 0⟩ data with
    | .ok data => return (true, data)
    | .error (.logicError data) => return (true, data)
    | .error (.fault f) => .error f

end TimeZone

/-- `TimeZone`: the pointer `data_`. -/
structure TimeZone where
  data : Option TimeZone.Data

namespace TimeZone

/-- `TimeZone::TimeZone(const char*)` -/
def new (zonefile : Option Bytes) : Except Fault TimeZone := do
  let (ok, data) ← readTimeZoneFile zonefile ⟨[], [], []⟩
  return ⟨if ok then some data else none⟩

def valid (tz : TimeZone) : Bool := tz.data.isSome

def toLocalTime (cal : Calendar) (tz : TimeZone) (seconds : ℤ) : Except Fault Tm :=
  match tz.data with
  | none => .error .timeZoneData
  | some data => data.toLocalTime cal seconds

def fromLocalTime (cal : Calendar) (tz : TimeZone) (localTm : Tm) : Except Fault ℤ :=
  match tz.data with
  | none => .error .timeZoneData
  | some data => data.fromLocalTime cal localTm

/-! ## The specification -/

/-- The data has a type, all its indices are in range, and so is whatever the two conversions read. -/
structure Usable (tz : TimeZone) : Prop where
  data : ∃ data, tz.data = some data ∧ data.localtimes ≠ [] ∧
    (∀ transition ∈ data.transitions, transition.localtimeIdx < data.localtimes.length) ∧
    ∀ l ∈ data.localtimes, l.arrbIdx < data.abbreviation.length
  toLocalTime : ∀ cal seconds, ∃ tm, tz.toLocalTime cal seconds = .ok tm
  fromLocalTime : ∀ cal tm, ∃ seconds, tz.fromLocalTime cal tm = .ok seconds

/-- There is no file, or an exception ends the reading. -/
def ReadFails (zonefile : Option Bytes) : Prop :=
  match zonefile with
  | none => True
  | some content => ∃ data, readData ⟨content, 0⟩ ⟨[], [], []⟩ = .error (.logicError data)

/-- The zone is usable if it is valid, and not valid if the reading fails. -/
def Sound (zonefile : Option Bytes) : Prop :=
  ∃ tz, new zonefile = .ok tz ∧ (tz.valid = true → tz.Usable) ∧ (ReadFails zonefile → tz.valid = false)

/-- The number at a position of the file. -/
def int32At (content : Bytes) (pos : ℕ) : ℤ := be32 (Vec.slice content pos (pos + 4))

/-- The byte at a position of the file. -/
def uint8At (content : Bytes) (pos : ℕ) : ℕ := ((Vec.slice content pos (pos + 1)).headD 0).toNat

/-- The header tells how many times, types and characters follow, they are all there, every time has
a type, and every type a name. -/
structure ZoneFile (content : Bytes) : Prop where
  magic : content.take 4 = ascii "TZif"
  timecnt : 0 ≤ int32At content 32
  typecnt : 1 ≤ int32At content 36
  length : 44 + 5 * int32At content 32 + 6 * int32At content 36 + int32At content 40 ≤ content.length
  types : ∀ i < (int32At content 32).toNat,
    uint8At content (44 + 4 * (int32At content 32).toNat + i) < int32At content 36
  names : ∀ i < (int32At content 36).toNat,
    uint8At content (44 + 5 * (int32At content 32).toNat + 6 * i + 5) < int32At content 40

/-! ## Reading -/

theorem File.readBytes_eq_ok {f f' : File} {n : ℤ} {data : Data} {x : Bytes} :
    f.readBytes n data = .ok (x, f') ↔ 0 ≤ n ∧ f.pos + n.toNat ≤ f.content.length ∧
      Vec.slice f.content f.pos (f.pos + n.toNat) = x ∧ ⟨f.content, f.pos + n.toNat⟩ = f' := by
  unfold File.readBytes
  split_ifs with hneg hlen
  · exact ⟨fun h => (by cases h), fun h => absurd h.1 (by omega)⟩
  · simp only [Except.ok.injEq, Prod.mk.injEq]
    exact ⟨fun h => ⟨by omega, hlen, h⟩, fun h => h.2.2⟩
  · exact ⟨fun h => (by cases h), fun h => absurd h.2.1 hlen⟩

theorem File.readBytes_natCast_eq_ok (n : ℕ) {f f' : File} {data : Data} {x : Bytes} :
    f.readBytes n data = .ok (x, f') ↔ f.pos + n ≤ f.content.length ∧
      Vec.slice f.content f.pos (f.pos + n) = x ∧ ⟨f.content, f.pos + n⟩ = f' := by
  rw [File.readBytes_eq_ok, Int.toNat_natCast]
  exact ⟨fun h => h.2, fun h => ⟨Int.natCast_nonneg n, h⟩⟩

/-- A number of `width` bytes is read with its value, if the file has that many more. -/
def Reads {α : Type} (width : ℕ) (value : Bytes → ℕ → α) (read : File → Data → Except Stop (α × File)) :
    Prop :=
  ∀ f data x f', read f data = .ok (x, f') ↔
    f.pos + width ≤ f.content.length ∧ value f.content f.pos = x ∧ ⟨f.content, f.pos + width⟩ = f'

theorem reads_readInt32 : Reads 4 int32At File.readInt32 := by
  intro f data x f'
  unfold File.readInt32
  rw [bind_eq_ok]
  constructor
  · rintro ⟨⟨b, f₁⟩, hread, heq⟩
    obtain ⟨hlen, rfl, rfl⟩ := (File.readBytes_natCast_eq_ok 4).1 hread
    obtain ⟨rfl, rfl⟩ := Prod.mk.inj (Except.ok.inj heq)
    exact ⟨hlen, rfl, rfl⟩
  · rintro ⟨hlen, rfl, rfl⟩
    exact ⟨_, (File.readBytes_natCast_eq_ok 4).2 ⟨hlen, rfl, rfl⟩, rfl⟩

theorem reads_readUInt8 : Reads 1 uint8At File.readUInt8 := by
  intro f data x f'
  unfold File.readUInt8
  rw [bind_eq_ok]
  constructor
  · rintro ⟨⟨b, f₁⟩, hread, heq⟩
    obtain ⟨hlen, rfl, rfl⟩ := (File.readBytes_natCast_eq_ok 1).1 hread
    obtain ⟨rfl, rfl⟩ := Prod.mk.inj (Except.ok.inj heq)
    exact ⟨hlen, rfl, rfl⟩
  · rintro ⟨hlen, rfl, rfl⟩
    exact ⟨_, (File.readBytes_natCast_eq_ok 1).2 ⟨hlen, rfl, rfl⟩, rfl⟩

/-- The values at every `width` bytes. -/
def valuesAt {α : Type} (width : ℕ) (value : Bytes → ℕ → α) (content : Bytes) (pos n : ℕ) : List α :=
  (List.range n).map fun i => value content (pos + width * i)

theorem valuesAt_succ {α : Type} (width : ℕ) (value : Bytes → ℕ → α) (content : Bytes) (pos n : ℕ) :
    valuesAt width value content pos (n + 1) =
      value content pos :: valuesAt width value content (pos + width) n := by
  unfold valuesAt
  rw [List.range_succ_eq_map, List.map_cons, List.map_map]
  refine congrArg₂ List.cons (by rw [Nat.mul_zero, Nat.add_zero]) (List.map_congr_left fun i _ => ?_)
  rw [Function.comp_apply, Nat.succ_eq_add_one, Nat.mul_add, Nat.mul_one]
  congr 1
  omega

theorem readMany_eq_ok {α : Type} {width : ℕ} {value : Bytes → ℕ → α}
    {read : File → Data → Except Stop (α × File)} (h : Reads width value read) {data : Data} {n : ℕ}
    {f f' : File} (hpos : f.pos ≤ f.content.length) {xs : List α} :
    readMany read data n f = .ok (xs, f') ↔ f.pos + width * n ≤ f.content.length ∧
      valuesAt width value f.content f.pos n = xs ∧ ⟨f.content, f.pos + width * n⟩ = f' := by
  induction n generalizing f f' xs with
  | zero =>
    rw [readMany]
    refine ⟨fun heq => ?_, ?_⟩
    · obtain ⟨rfl, rfl⟩ := Prod.mk.inj (Except.ok.inj heq)
      exact ⟨hpos, rfl, rfl⟩
    · rintro ⟨-, rfl, rfl⟩
      rfl
  | succ n ih =>
    have hstep : f.pos + width + width * n = f.pos + width * (n + 1) := by
      rw [Nat.mul_add, Nat.mul_one]
      omega
    rw [readMany, bind_eq_ok, valuesAt_succ]
    constructor
    · rintro ⟨⟨x, f₁⟩, hread, hrest⟩
      obtain ⟨hlen, rfl, rfl⟩ := (h _ _ _ _).1 hread
      obtain ⟨⟨xs', f₂⟩, hmany, heq⟩ := bind_eq_ok.1 hrest
      obtain ⟨hlen', rfl, rfl⟩ := (ih hlen).1 hmany
      obtain ⟨rfl, rfl⟩ := Prod.mk.inj (Except.ok.inj heq)
      dsimp only at hlen' ⊢
      rw [hstep] at hlen' ⊢
      exact ⟨hlen', rfl, rfl⟩
    · rintro ⟨hlen, rfl, rfl⟩
      have hlen₁ : f.pos + width ≤ f.content.length := by omega
      refine ⟨_, (h _ _ _ _).2 ⟨hlen₁, rfl, rfl⟩, bind_eq_ok.2 ⟨_, (ih hlen₁).2 ⟨?_, rfl, rfl⟩, ?_⟩⟩
      · dsimp only
        omega
      · dsimp only
        rw [hstep]
        rfl

/-- The type at a position of the file. -/
def localtimeAt (content : Bytes) (pos : ℕ) : Localtime :=
  ⟨int32At content pos, uint8At content (pos + 4) ≠ 0, uint8At content (pos + 5)⟩

theorem readLocaltimes_eq_ok {n : ℕ} {f f' : File} {data data' : Data}
    (hpos : f.pos ≤ f.content.length) :
    readLocaltimes n f data = .ok (data', f') ↔ f.pos + 6 * n ≤ f.content.length ∧
      { data with
        localtimes := data.localtimes ++ valuesAt 6 localtimeAt f.content f.pos n } = data' ∧
      ⟨f.content, f.pos + 6 * n⟩ = f' := by
  induction n generalizing f f' data with
  | zero =>
    rw [readLocaltimes]
    refine ⟨fun heq => ?_, ?_⟩
    · obtain ⟨rfl, rfl⟩ := Prod.mk.inj (Except.ok.inj heq)
      exact ⟨hpos, by rw [valuesAt, List.range_zero, List.map_nil, List.append_nil], rfl⟩
    · rintro ⟨-, rfl, rfl⟩
      rw [valuesAt, List.range_zero, List.map_nil, List.append_nil]
      rfl
  | succ n ih =>
    have hstep : f.pos + 4 + 1 + 1 + 6 * n = f.pos + 6 * (n + 1) := by omega
    have hvalues : data.localtimes ++ [localtimeAt f.content f.pos] ++
        valuesAt 6 localtimeAt f.content (f.pos + 4 + 1 + 1) n =
          data.localtimes ++ valuesAt 6 localtimeAt f.content f.pos (n + 1) := by
      rw [valuesAt_succ, List.append_assoc]
      rfl
    rw [readLocaltimes, bind_eq_ok]
    constructor
    · rintro ⟨⟨gmtoff, f₁⟩, hgmtoff, hrest⟩
      obtain ⟨hlen₁, rfl, rfl⟩ := (reads_readInt32 _ _ _ _).1 hgmtoff
      obtain ⟨⟨isdst, f₂⟩, hisdst, hrest⟩ := bind_eq_ok.1 hrest
      obtain ⟨hlen₂, rfl, rfl⟩ := (reads_readUInt8 _ _ _ _).1 hisdst
      obtain ⟨⟨abbrind, f₃⟩, habbrind, hrest⟩ := bind_eq_ok.1 hrest
      obtain ⟨hlen₃, rfl, rfl⟩ := (reads_readUInt8 _ _ _ _).1 habbrind
      obtain ⟨hlen, rfl, rfl⟩ := (ih hlen₃).1 hrest
      dsimp only at hlen ⊢
      rw [hstep] at hlen ⊢
      exact ⟨hlen, by rw [← hvalues]; rfl, rfl⟩
    · rintro ⟨hlen, rfl, rfl⟩
      have hlen₁ : f.pos + 4 ≤ f.content.length := by omega
      have hlen₂ : f.pos + 4 + 1 ≤ f.content.length := by omega
      have hlen₃ : f.pos + 4 + 1 + 1 ≤ f.content.length := by omega
      refine ⟨_, (reads_readInt32 _ _ _ _).2 ⟨hlen₁, rfl, rfl⟩, bind_eq_ok.2
        ⟨_, (reads_readUInt8 _ _ _ _).2 ⟨hlen₂, rfl, rfl⟩, bind_eq_ok.2
          ⟨_, (reads_readUInt8 _ _ _ _).2 ⟨hlen₃, rfl, rfl⟩, (ih hlen₃).2 ⟨?_, ?_, ?_⟩⟩⟩⟩
      · dsimp only
        omega
      · rw [← hvalues]
        rfl
      · dsimp only
        rw [hstep]

theorem addTransitions_of_lt {l : List (ℤ × ℕ)} {data : Data}
    (h : ∀ p ∈ l, p.2 < data.localtimes.length) : ∃ data', addTransitions l data = .ok data' := by
  induction l generalizing data with
  | nil => exact ⟨data, rfl⟩
  | cons p l ih =>
    obtain ⟨gmttime, localIdx⟩ := p
    have hlt : localIdx < data.localtimes.length := h _ List.mem_cons_self
    rw [addTransitions, List.getElem?_eq_getElem hlt]
    exact ih fun q hq => h q (List.mem_cons_of_mem _ hq)

/-- Only the transitions change, and their indices are among the ones that were read. -/
theorem addTransitions_spec {l : List (ℤ × ℕ)} {data data' : Data}
    (h : addTransitions l data = .ok data') : (∀ p ∈ l, p.2 < data.localtimes.length) ∧
      data'.localtimes = data.localtimes ∧ ∀ transition ∈ data'.transitions,
        transition ∈ data.transitions ∨ transition.localtimeIdx < data.localtimes.length := by
  induction l generalizing data with
  | nil =>
    obtain rfl : data = data' := Except.ok.inj h
    exact ⟨fun p hp => (by cases hp), rfl, fun transition htransition => Or.inl htransition⟩
  | cons p l ih =>
    obtain ⟨gmttime, localIdx⟩ := p
    rw [addTransitions] at h
    cases hget : data.localtimes[localIdx]? with
    | none =>
      rw [hget] at h
      cases h
    | some local₀ =>
      rw [hget] at h
      obtain ⟨hlt, -⟩ := List.getElem?_eq_some_iff.1 hget
      obtain ⟨hrest, hlocal, htrans⟩ := ih h
      refine ⟨?_, hlocal, fun transition htransition => ?_⟩
      · intro q hq
        rcases List.mem_cons.1 hq with rfl | hq
        · exact hlt
        · exact hrest q hq
      · rcases htrans transition htransition with hmem | hidx
        · rcases List.mem_append.1 hmem with hmem | hmem
          · exact Or.inl hmem
          · obtain rfl := List.mem_singleton.1 hmem
            exact Or.inr hlt
        · exact Or.inr hidx

/-- The part behind the header is read with success exactly when the numbers are not negative, the
bytes are there, and every transition has a type. -/
theorem readBlocks_eq_ok {times types chars : ℤ} {f : File} (hpos : f.pos ≤ f.content.length)
    {data' : Data} :
    readBlocks times types chars f ⟨[], [], []⟩ = .ok data' ↔ 0 ≤ times ∧ 0 ≤ chars ∧
      f.pos + 4 * times.toNat + 1 * times.toNat + 6 * types.toNat + chars.toNat ≤ f.content.length ∧
      ∃ data, addTransitions ((valuesAt 4 int32At f.content f.pos times.toNat).zip
            (valuesAt 1 uint8At f.content (f.pos + 4 * times.toNat) times.toNat))
          ⟨[], valuesAt 6 localtimeAt f.content (f.pos + 4 * times.toNat + 1 * times.toNat) types.toNat,
            []⟩ = .ok data ∧
        ⟨data.transitions, data.localtimes, Vec.slice f.content
          (f.pos + 4 * times.toNat + 1 * times.toNat + 6 * types.toNat)
          (f.pos + 4 * times.toNat + 1 * times.toNat + 6 * types.toNat + chars.toNat)⟩ = data' := by
  unfold readBlocks
  split_ifs with hneg
  · exact ⟨fun h => (by cases h), fun h => absurd h.1 (by omega)⟩
  constructor
  · intro h
    obtain ⟨⟨gmttimes, f₁⟩, hread₁, h⟩ := bind_eq_ok.1 h
    obtain ⟨hlen₁, rfl, rfl⟩ := (readMany_eq_ok reads_readInt32 hpos).1 hread₁
    obtain ⟨⟨localtimes, f₂⟩, hread₂, h⟩ := bind_eq_ok.1 h
    obtain ⟨hlen₂, rfl, rfl⟩ := (readMany_eq_ok reads_readUInt8 (by exact hlen₁)).1 hread₂
    obtain ⟨⟨data₃, f₃⟩, hread₃, h⟩ := bind_eq_ok.1 h
    obtain ⟨hlen₃, rfl, rfl⟩ := (readLocaltimes_eq_ok (by exact hlen₂)).1 hread₃
    obtain ⟨data₄, hadd, h⟩ := bind_eq_ok.1 h
    obtain ⟨⟨abbreviation, f₅⟩, hread₅, h⟩ := bind_eq_ok.1 h
    obtain ⟨hchars, hlen₅, rfl, rfl⟩ := File.readBytes_eq_ok.1 hread₅
    exact ⟨by omega, hchars, hlen₅, data₄, hadd, Except.ok.inj h⟩
  · rintro ⟨-, hchars, hlen, data, hadd, rfl⟩
    refine bind_eq_ok.2 ⟨_, (readMany_eq_ok reads_readInt32 hpos).2 ⟨by omega, rfl, rfl⟩, ?_⟩
    refine bind_eq_ok.2 ⟨_, (readMany_eq_ok reads_readUInt8 ?_).2 ⟨?_, rfl, rfl⟩, ?_⟩
    · dsimp only
      omega
    · dsimp only
      omega
    refine bind_eq_ok.2 ⟨_, (readLocaltimes_eq_ok ?_).2 ⟨?_, rfl, rfl⟩, ?_⟩
    · dsimp only
      omega
    · dsimp only
      omega
    exact bind_eq_ok.2 ⟨data, hadd, bind_eq_ok.2
      ⟨_, File.readBytes_eq_ok.2 ⟨hchars, hlen, rfl, rfl⟩, rfl⟩⟩

theorem readData_eq_ok {content : Bytes} {data data' : Data} :
    readData ⟨content, 0⟩ data = .ok data' ↔ 44 ≤ content.length ∧ content.take 4 = ascii "TZif" ∧
      readBlocks (int32At content 32) (int32At content 36) (int32At content 40) ⟨content, 44⟩ data =
        .ok data' := by
  have hhead : Vec.slice content 0 4 = content.take 4 := List.drop_zero
  unfold readData
  constructor
  · intro h
    obtain ⟨⟨head, f₁⟩, hread₁, h⟩ := bind_eq_ok.1 h
    obtain ⟨-, rfl, rfl⟩ := (File.readBytes_natCast_eq_ok 4).1 hread₁
    dsimp only at h
    split_ifs at h with hmagic
    obtain ⟨⟨version, f₂⟩, hread₂, h⟩ := bind_eq_ok.1 h
    obtain ⟨-, -, rfl⟩ := (File.readBytes_natCast_eq_ok 1).1 hread₂
    obtain ⟨⟨reserved, f₃⟩, hread₃, h⟩ := bind_eq_ok.1 h
    obtain ⟨-, -, rfl⟩ := (File.readBytes_natCast_eq_ok 15).1 hread₃
    obtain ⟨⟨isgmtcnt, f₄⟩, hread₄, h⟩ := bind_eq_ok.1 h
    obtain ⟨-, -, rfl⟩ := (reads_readInt32 _ _ _ _).1 hread₄
    obtain ⟨⟨isstdcnt, f₅⟩, hread₅, h⟩ := bind_eq_ok.1 h
    obtain ⟨-, -, rfl⟩ := (reads_readInt32 _ _ _ _).1 hread₅
    obtain ⟨⟨leapcnt, f₆⟩, hread₆, h⟩ := bind_eq_ok.1 h
    obtain ⟨-, -, rfl⟩ := (reads_readInt32 _ _ _ _).1 hread₆
    obtain ⟨⟨times, f₇⟩, hread₇, h⟩ := bind_eq_ok.1 h
    obtain ⟨-, rfl, rfl⟩ := (reads_readInt32 _ _ _ _).1 hread₇
    obtain ⟨⟨types, f₈⟩, hread₈, h⟩ := bind_eq_ok.1 h
    obtain ⟨-, rfl, rfl⟩ := (reads_readInt32 _ _ _ _).1 hread₈
    obtain ⟨⟨chars, f₉⟩, hread₉, h⟩ := bind_eq_ok.1 h
    obtain ⟨hlen, rfl, rfl⟩ := (reads_readInt32 _ _ _ _).1 hread₉
    rw [not_ne_iff] at hmagic
    simp only [Nat.zero_add, Nat.reduceAdd] at hlen h
    exact ⟨hlen, hhead.symm.trans hmagic, h⟩
  · rintro ⟨hlen, hmagic, h⟩
    refine bind_eq_ok.2 ⟨_, (File.readBytes_natCast_eq_ok 4).2 ⟨by dsimp only; omega, rfl, rfl⟩, ?_⟩
    dsimp only
    rw [if_neg (not_ne_iff.2 (hhead.trans hmagic))]
    refine bind_eq_ok.2 ⟨_, (File.readBytes_natCast_eq_ok 1).2 ⟨by dsimp only; omega, rfl, rfl⟩, ?_⟩
    refine bind_eq_ok.2 ⟨_, (File.readBytes_natCast_eq_ok 15).2 ⟨by dsimp only; omega, rfl, rfl⟩, ?_⟩
    refine bind_eq_ok.2 ⟨_, (reads_readInt32 _ _ _ _).2 ⟨by dsimp only; omega, rfl, rfl⟩, ?_⟩
    refine bind_eq_ok.2 ⟨_, (reads_readInt32 _ _ _ _).2 ⟨by dsimp only; omega, rfl, rfl⟩, ?_⟩
    refine bind_eq_ok.2 ⟨_, (reads_readInt32 _ _ _ _).2 ⟨by dsimp only; omega, rfl, rfl⟩, ?_⟩
    refine bind_eq_ok.2 ⟨_, (reads_readInt32 _ _ _ _).2 ⟨by dsimp only; omega, rfl, rfl⟩, ?_⟩
    refine bind_eq_ok.2 ⟨_, (reads_readInt32 _ _ _ _).2 ⟨by dsimp only; omega, rfl, rfl⟩, ?_⟩
    refine bind_eq_ok.2 ⟨_, (reads_readInt32 _ _ _ _).2 ⟨by dsimp only; omega, rfl, rfl⟩, ?_⟩
    simp only [Nat.zero_add, Nat.reduceAdd]
    exact h

theorem forall_mem_valuesAt {α : Type} {width : ℕ} {value : Bytes → ℕ → α} {content : Bytes}
    {pos n : ℕ} {p : α → Prop} : (∀ x ∈ valuesAt width value content pos n, p x) ↔
      ∀ i < n, p (value content (pos + width * i)) := by
  simp only [valuesAt, List.forall_mem_map, List.mem_range]

theorem length_valuesAt {α : Type} (width : ℕ) (value : Bytes → ℕ → α) (content : Bytes) (pos n : ℕ) :
    (valuesAt width value content pos n).length = n := by
  rw [valuesAt, List.length_map, List.length_range]

/-- A bound on the second elements of pairs is one on the second list. -/
theorem forall_mem_zip {α β : Type} {xs : List α} {ys : List β} (h : ys.length = xs.length)
    (p : β → Prop) : (∀ q ∈ xs.zip ys, p q.2) ↔ ∀ y ∈ ys, p y := by
  have hsnd : (xs.zip ys).map Prod.snd = ys := List.map_snd_zip h.le
  constructor
  · intro hall y hy
    rw [← hsnd] at hy
    obtain ⟨q, hq, rfl⟩ := List.mem_map.1 hy
    exact hall q hq
  · intro hall q hq
    refine hall q.2 ?_
    rw [← hsnd]
    exact List.mem_map_of_mem hq

/-! ## Using a zone -/

/-- The indices of the data are in range. -/
structure Data.InRange (data : Data) : Prop extends data.Indexed where
  names : ∀ l ∈ data.localtimes, l.arrbIdx < data.abbreviation.length

theorem Data.InRange.toLocalTime {data : Data} (h : data.InRange) (cal : Calendar) (seconds : ℤ) :
    ∃ tm, data.toLocalTime cal seconds = .ok tm := by
  obtain ⟨l, hl, hfind⟩ := findLocaltime_ok h.toIndexed ⟨seconds, 0, 0⟩ ⟨true⟩
  unfold Data.toLocalTime
  dsimp only
  rw [hfind, ok_bind, check_of (h.names l hl).le]
  exact ⟨_, rfl⟩

theorem Data.InRange.fromLocalTime {data : Data} (h : data.InRange) (cal : Calendar) (tm : Tm) :
    ∃ seconds, data.fromLocalTime cal tm = .ok seconds := by
  obtain ⟨l, -, hfind⟩ := findLocaltime_ok h.toIndexed ⟨0, cal.timegm tm.toCivil, 0⟩ ⟨false⟩
  obtain ⟨tryTm, htry⟩ := h.toLocalTime cal (cal.timegm tm.toCivil - l.gmtOffset)
  unfold Data.fromLocalTime
  dsimp only
  rw [hfind, ok_bind]
  split_ifs
  · rw [htry, ok_bind]
    split_ifs
    · exact ⟨_, rfl⟩
    · exact ⟨_, rfl⟩
  · exact ⟨_, rfl⟩

theorem usable_iff {data : Data} : Usable ⟨some data⟩ ↔ data.InRange := by
  constructor
  · rintro ⟨⟨data', hdata, hne, htrans, hnames⟩, -, -⟩
    obtain rfl := Option.some.inj hdata
    exact ⟨⟨hne, htrans⟩, hnames⟩
  · intro h
    exact ⟨⟨data, rfl, h.localtimes, h.transitions, h.names⟩, fun cal => h.toLocalTime cal,
      fun cal => h.fromLocalTime cal⟩

/-- The types of the transitions are bounded. -/
theorem forall_types_iff {content : Bytes} {pos n m : ℕ} :
    (∀ p ∈ (valuesAt 4 int32At content pos n).zip (valuesAt 1 uint8At content (pos + 4 * n) n),
      p.2 < m) ↔ ∀ i < n, uint8At content (pos + 4 * n + i) < m := by
  have hlength : (valuesAt 1 uint8At content (pos + 4 * n) n).length =
      (valuesAt 4 int32At content pos n).length := by
    rw [length_valuesAt, length_valuesAt]
  rw [forall_mem_zip hlength (· < m), forall_mem_valuesAt]
  simp only [Nat.one_mul]

/-- The positions of the names are bounded. -/
theorem forall_names_iff {content : Bytes} {pos n m : ℕ} :
    (∀ l ∈ valuesAt 6 localtimeAt content pos n, l.arrbIdx < m) ↔
      ∀ i < n, uint8At content (pos + 6 * i + 5) < m := forall_mem_valuesAt

/-- The blocks behind the header give data with indices in range. -/
theorem exists_readBlocks_iff {content : Bytes} {pos : ℕ} {times types chars : ℤ}
    (hpos : pos ≤ content.length) :
    (∃ data, readBlocks times types chars ⟨content, pos⟩ ⟨[], [], []⟩ = .ok data ∧ data.InRange) ↔
      0 ≤ times ∧ 1 ≤ types ∧ pos + 5 * times + 6 * types + chars ≤ content.length ∧
      (∀ i < times.toNat, uint8At content (pos + 4 * times.toNat + i) < types) ∧
      ∀ i < types.toNat, uint8At content (pos + 5 * times.toNat + 6 * i + 5) < chars := by
  have hlength : (valuesAt 6 localtimeAt content (pos + 4 * times.toNat + 1 * times.toNat)
      types.toNat).length = types.toNat := length_valuesAt _ _ _ _ _
  have hname : pos + 4 * times.toNat + 1 * times.toNat = pos + 5 * times.toNat := by omega
  constructor
  · rintro ⟨data', hblocks, hrange⟩
    obtain ⟨htimes, hchars, hlen, data, hadd, rfl⟩ := (readBlocks_eq_ok (by exact hpos)).1 hblocks
    obtain ⟨htypes, hlocal, -⟩ := addTransitions_spec hadd
    have hnames := hrange.names
    have hne : 0 < data.localtimes.length := List.length_pos_of_ne_nil hrange.localtimes
    dsimp only at hlen htypes hlocal hnames
    rw [hlocal, hlength] at hne
    rw [hlength, forall_types_iff] at htypes
    rw [hlocal, Vec.length_slice hlen, Nat.add_sub_cancel_left, forall_names_iff, hname] at hnames
    refine ⟨htimes, by omega, by omega, fun i hi => ?_, fun i hi => ?_⟩
    · have htype := htypes i hi
      omega
    · have hlt := hnames i hi
      omega
  · rintro ⟨htimes, htypes, hlen, hidx, hnames⟩
    have hfirst := hnames 0 (by omega)
    have hadd : ∃ data, addTransitions ((valuesAt 4 int32At content pos times.toNat).zip
        (valuesAt 1 uint8At content (pos + 4 * times.toNat) times.toNat))
        ⟨[], valuesAt 6 localtimeAt content (pos + 4 * times.toNat + 1 * times.toNat) types.toNat,
          []⟩ = .ok data := by
      refine addTransitions_of_lt ?_
      dsimp only
      rw [hlength, forall_types_iff]
      intro i hi
      have htype := hidx i hi
      omega
    obtain ⟨data, hadd⟩ := hadd
    obtain ⟨-, hlocal, htrans⟩ := addTransitions_spec hadd
    have hfit : pos + 4 * times.toNat + 1 * times.toNat + 6 * types.toNat + chars.toNat ≤
        content.length := by omega
    refine ⟨_, (readBlocks_eq_ok (by exact hpos)).2 ⟨htimes, by omega, hfit, data, hadd, rfl⟩,
      ⟨⟨?_, ?_⟩, ?_⟩⟩
    · dsimp only
      rw [hlocal, ← List.length_pos_iff, hlength]
      omega
    · intro transition htransition
      dsimp only at hlocal htransition ⊢
      rw [hlocal]
      exact (htrans transition htransition).resolve_left List.not_mem_nil
    · dsimp only at hlocal ⊢
      rw [hlocal, Vec.length_slice hfit, Nat.add_sub_cancel_left, forall_names_iff, hname]
      intro i hi
      have hlt := hnames i hi
      omega

/-- A zone file is read, and gives data with indices in range. -/
theorem zoneFile_iff {content : Bytes} :
    ZoneFile content ↔ ∃ data, readData ⟨content, 0⟩ ⟨[], [], []⟩ = .ok data ∧ data.InRange := by
  constructor
  · intro h
    have hname := h.names 0 (by have := h.typecnt; omega)
    have hheader : 44 ≤ content.length := by
      have := h.length
      have := h.timecnt
      have := h.typecnt
      omega
    obtain ⟨data, hblocks, hrange⟩ := (exists_readBlocks_iff hheader).2
      ⟨h.timecnt, h.typecnt, h.length, h.types, h.names⟩
    exact ⟨data, readData_eq_ok.2 ⟨hheader, h.magic, hblocks⟩, hrange⟩
  · rintro ⟨data, hread, hrange⟩
    obtain ⟨hheader, hmagic, hblocks⟩ := readData_eq_ok.1 hread
    obtain ⟨htimes, htypes, hlen, hidx, hnames⟩ :=
      (exists_readBlocks_iff hheader).1 ⟨data, hblocks, hrange⟩
    exact ⟨hmagic, htimes, htypes, hlen, hidx, hnames⟩

/-- The constructor never resets the pointer. -/
theorem valid_of_new {zonefile : Option Bytes} {tz : TimeZone} (h : new zonefile = .ok tz) :
    ∃ data, tz = ⟨some data⟩ := by
  obtain ⟨⟨ok, data⟩, hread, htz⟩ := bind_eq_ok.1 h
  obtain rfl : ok = true := by
    unfold readTimeZoneFile at hread
    split at hread
    · exact (Prod.mk.inj (Except.ok.inj hread)).1.symm
    · split at hread
      · exact (Prod.mk.inj (Except.ok.inj hread)).1.symm
      · exact (Prod.mk.inj (Except.ok.inj hread)).1.symm
      · cases hread
  exact ⟨data, (Except.ok.inj htz).symm⟩

theorem sound_iff (zonefile : Option Bytes) :
    Sound zonefile ↔ ∃ content, zonefile = some content ∧ ZoneFile content := by
  constructor
  · rintro ⟨tz, hnew, husable, hfails⟩
    obtain ⟨data, rfl⟩ := valid_of_new hnew
    have hok : ¬ ReadFails zonefile := fun h => (by cases hfails h)
    cases zonefile with
    | none => exact absurd trivial hok
    | some content =>
      refine ⟨content, rfl, zoneFile_iff.2 ⟨data, ?_, usable_iff.1 (husable rfl)⟩⟩
      obtain ⟨⟨ok, data'⟩, hread, htz⟩ := bind_eq_ok.1 hnew
      unfold readTimeZoneFile at hread
      dsimp only at hread
      cases hdata : readData ⟨content, 0⟩ ⟨[], [], []⟩ with
      | ok data'' =>
        rw [hdata] at hread
        obtain ⟨rfl, rfl⟩ := Prod.mk.inj (Except.ok.inj hread)
        obtain ⟨rfl⟩ : data'' = data := Option.some.inj (TimeZone.mk.inj (Except.ok.inj htz))
        rfl
      | error stop =>
        cases stop with
        | logicError data'' => exact absurd ⟨data'', hdata⟩ hok
        | fault f =>
          rw [hdata] at hread
          cases hread
  · rintro ⟨content, rfl, hfile⟩
    obtain ⟨data, hread, hrange⟩ := zoneFile_iff.1 hfile
    have hnew : new (some content) = .ok ⟨some data⟩ := by
      unfold new readTimeZoneFile
      dsimp only
      rw [hread]
      rfl
    refine ⟨⟨some data⟩, hnew, fun _ => usable_iff.2 hrange, ?_⟩
    rintro ⟨data', hfails⟩
    rw [hread] at hfails
    cases hfails

/-- The file of UTC: one type and no transition. -/
def utc : Bytes :=
  ascii "TZif" ++ List.replicate 35 0 ++ [1, 0, 0, 0, 4] ++ List.replicate 6 0 ++ ascii "UTC\x00"

example : ZoneFile utc := ⟨by decide, by decide, by decide, by decide, by decide, by decide⟩

/-- A zone from a file that is not there is valid, and has no type. -/
theorem missing_file_not_sound : ¬ Sound none := by
  rintro ⟨tz, hnew, -, hfails⟩
  obtain ⟨data, rfl⟩ := valid_of_new hnew
  cases hfails trivial

end TimeZone

end Reactor
