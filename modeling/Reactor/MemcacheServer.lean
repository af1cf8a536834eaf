import Reactor.Base
import Reactor.Lib.Vec

/-!
# Item and MemcacheServer

The store of the memcached example.  An `Item` keeps key and value in one array, and the value ends
in the CRLF of its data block.  The server keeps its items in `kShards` sets, by the hash of their
keys; a function that works on a set holds the lock of that set, so its call is one step here.

The hash function is not part of the repository: `hashRange` is a parameter.  Memory that `malloc`
returns is taken to be filled with zeros, which nobody reads.
-/

namespace Reactor

/-- `Item::UpdatePolicy` -/
inductive UpdatePolicy where
  | kInvalid
  | kSet
  | kAdd
  | kReplace
  | kAppend
  | kPrepend
  | kCas
  deriving DecidableEq, Repr

/-- `Item` -/
structure Item where
  keylen : ℤ
  flags : ℕ
  relExptime : ℤ
  valuelen : ℤ
  receivedBytes : ℤ
  cas : ℕ
  hash : ℕ
  data : Bytes
  deriving DecidableEq, Repr

namespace Item

variable (hashRange : Bytes → ℕ)

def key (it : Item) : StringPiece := ⟨it.data, it.keylen⟩

/-- `len` bytes of memory from `value()` on. -/
def value (it : Item) (len : ℕ) : Except Fault Bytes := do
  check .outOfBounds (0 ≤ it.keylen ∧ it.keylen.toNat + len ≤ it.data.length)
  return Vec.slice it.data it.keylen.toNat (it.keylen.toNat + len)

/-- `valueLength`, an `int` made a `size_t`. -/
def valueLength (it : Item) : ℕ := (it.valuelen % 2 ^ 64).toNat

def setCas (it : Item) (cas : ℕ) : Item := { it with cas := cas }

/-- `totalLen`, a sum of `int`s. -/
def totalLen (it : Item) : ℤ := Int.bmod (it.keylen + it.valuelen) (2 ^ 32)

/-- `neededBytes`, an `int` made a `size_t`. -/
def neededBytes (it : Item) : ℕ := ((it.totalLen - it.receivedBytes) % 2 ^ 64).toNat

def append (it : Item) (data : Bytes) : Except Fault Item := do
  check .itemAppend (data.length ≤ it.neededBytes)
  check .outOfBounds (0 ≤ it.receivedBytes ∧
    it.receivedBytes.toNat + data.length ≤ it.data.length)
  let it := { it with
    data := Vec.write it.data it.receivedBytes.toNat data
    receivedBytes := it.receivedBytes + intOfSize data.length }
  check .itemAppend (it.receivedBytes ≤ it.totalLen)
  return it

def endsWithCRLF (it : Item) : Bool :=
  it.receivedBytes = it.totalLen ∧ Vec.slice it.data (it.totalLen.toNat - 2) it.totalLen.toNat = crlf

/-- The constructor. -/
def new (keyArg : StringPiece) (flags : ℕ) (exptime valuelen : ℤ) (cas : ℕ) : Except Fault Item := do
  let bytes ← keyArg.read
  let it : Item := ⟨keyArg.length, flags, exptime, valuelen, 0, cas, hashRange bytes, []⟩
  let it := { it with data := List.replicate it.totalLen.toNat 0 }
  check .item (2 ≤ it.valuelen)
  check .item (it.receivedBytes < it.totalLen)
  it.append bytes

def resetKey (it : Item) (k : StringPiece) : Except Fault Item := do
  check .resetKey (k.length ≤ 250)
  let bytes ← k.read
  let it ← { it with keylen := k.length, receivedBytes := 0 }.append bytes
  return { it with hash := hashRange bytes }

/-- What the functors `Hash` and `Equal` tell a set about two items. -/
def equal (x y : Item) : Bool := x.hash = y.hash ∧ x.key.equal y.key

end Item

/-- `ItemMap`, an unordered set. -/
abbrev ItemMap := List Item

namespace ItemMap

def find (items : ItemMap) (x : Item) : Option Item := List.find? x.equal items

def insert (items : ItemMap) (x : Item) : ItemMap := if (items.find x).isSome then items else x :: items

def erase (items : ItemMap) (x : Item) : ItemMap := List.filter (fun y => ¬ x.equal y) items

end ItemMap

def MemcacheServer.kShards : ℕ := 4096

/-- `MemcacheServer`, and `g_cas`. -/
structure MemcacheServer where
  shards : Fin MemcacheServer.kShards → ItemMap
  cas : ℕ
  startTime : ℤ

namespace MemcacheServer

def new (startTime : ℤ) : MemcacheServer := ⟨fun _ => [], 0, startTime⟩

/-- The index of the shard of a hash. -/
def shard (hash : ℕ) : Fin kShards := ⟨hash % kShards, Nat.mod_lt _ (by decide)⟩

def items (s : MemcacheServer) (x : Item) : ItemMap := s.shards (shard x.hash)

def setItems (s : MemcacheServer) (x : Item) (items : ItemMap) : MemcacheServer :=
  { s with shards := Function.update s.shards (shard x.hash) items }

/-- `g_cas.incrementAndGet()` -/
def incrementAndGet (s : MemcacheServer) : ℕ × MemcacheServer := (s.cas + 1, { s with cas := s.cas + 1 })

variable (hashRange : Bytes → ℕ)

/-- The item that takes the place of the old one after `append` and `prepend`. -/
def concatItem (item oldItem : Item) (policy : UpdatePolicy) (cas : ℕ) : Except Fault Item := do
  let newLen := intOfSize (item.valueLength + oldItem.valueLength - 2)
  let newItem ← Item.new hashRange item.key oldItem.flags oldItem.relExptime newLen cas
  let (first, second) := if policy = .kAppend then (oldItem, item) else (item, oldItem)
  let newItem ← newItem.append (← first.value (first.valueLength - 2))
  let newItem ← newItem.append (← second.value second.valueLength)
  check .storeItem (newItem.neededBytes = 0)
  check .storeItem newItem.endsWithCRLF
  return newItem

/-- `storeItem`: the result, `*exists`, and the server. -/
def storeItem (s : MemcacheServer) (item : Item) (policy : UpdatePolicy) :
    Except Fault (Bool × Bool × MemcacheServer) := do
  check .storeItem (item.neededBytes = 0)
  let items := s.items item
  let it := items.find item
  match policy with
  | .kSet =>
    let (cas, s) := s.incrementAndGet
    let items := if it.isSome then items.erase item else items
    return (true, it.isSome, s.setItems item (items.insert (item.setCas cas)))
  | .kAdd =>
    if it.isSome then return (false, it.isSome, s)
    let (cas, s) := s.incrementAndGet
    return (true, it.isSome, s.setItems item (items.insert (item.setCas cas)))
  | .kReplace =>
    if it.isSome then
      let (cas, s) := s.incrementAndGet
      return (true, it.isSome, s.setItems item ((items.erase item).insert (item.setCas cas)))
    else return (false, it.isSome, s)
  | .kAppend | .kPrepend =>
    match it with
    | some oldItem =>
      let (cas, s) := s.incrementAndGet
      let newItem ← concatItem hashRange item oldItem policy cas
      return (true, it.isSome, s.setItems item ((items.erase oldItem).insert newItem))
    | none => return (false, it.isSome, s)
  | .kCas =>
    match it with
    | some oldItem =>
      if oldItem.cas = item.cas then
        let (cas, s) := s.incrementAndGet
        return (true, it.isSome, s.setItems item ((items.erase oldItem).insert (item.setCas cas)))
      else return (false, it.isSome, s)
    | none => return (false, it.isSome, s)
  | .kInvalid => .error .storeItem

def getItem (s : MemcacheServer) (key : Item) : Option Item := (s.items key).find key

/-- `deleteItem`; `erase` says how many items it has taken away. -/
def deleteItem (s : MemcacheServer) (key : Item) : Bool × MemcacheServer :=
  let items := s.items key
  (List.countP key.equal items = 1, s.setItems key (items.erase key))

end MemcacheServer

end Reactor
