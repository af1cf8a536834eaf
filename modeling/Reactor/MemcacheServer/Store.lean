import Mathlib.Data.List.Find
import Reactor.Lib.Machine
import Reactor.Lib.Sharded
import Reactor.MemcacheServer.Items

/-!
# The store refines a map with CAS tokens

`CasMap` is what the store is for: a map from keys to entries, and a counter from which every store
takes its token.  The server has the entries in its shards (`Represents`), and no call tells the two
apart (`Represents.call`).
-/

namespace Reactor

/-- What is stored under a key; `value` is without the CRLF. -/
structure CasMap.Entry where
  flags : ℕ
  exptime : ℤ
  value : Bytes
  cas : ℕ
  deriving DecidableEq, Repr

def Item.entry (it : Item) : CasMap.Entry := ⟨it.flags, it.relExptime, it.payload, it.cas⟩

namespace MemcacheServer

inductive Call where
  | store (item : Item) (policy : UpdatePolicy)
  | get (key : Item)
  | delete (key : Item)
  deriving DecidableEq, Repr

/-- What a caller learns; `existed` is `*exists`. -/
inductive Result where
  | stored (ok existed : Bool)
  | got (entry : Option CasMap.Entry)
  | deleted (ok : Bool)
  deriving DecidableEq, Repr

/-- The item that a call gets. -/
def Call.item : Call → Item
  | .store item _ => item
  | .get key => key
  | .delete key => key

/-- The call has no effect. -/
def Result.failed : Result → Bool
  | .stored ok _ => !ok
  | .got _ => true
  | .deleted ok => !ok

variable (hashRange : Bytes → ℕ)

def call (s : MemcacheServer) : Call → Except Fault (Result × MemcacheServer)
  | .store item policy => do
    let (ok, existed, s) ← s.storeItem hashRange item policy
    return (.stored ok existed, s)
  | .get key => return (.got ((s.getItem key).map Item.entry), s)
  | .delete key => return (.deleted (s.deleteItem key).1, (s.deleteItem key).2)

end MemcacheServer

/-! ## The map -/

/-- A map with CAS tokens. -/
structure CasMap where
  map : Bytes → Option CasMap.Entry
  cas : ℕ

namespace CasMap

open MemcacheServer

def empty : CasMap := ⟨fun _ => none, 0⟩

/-- A store is carried out: always, if the key is absent, if it is present, or if it is present with
the token. -/
def accepts (m : CasMap) (policy : UpdatePolicy) (key : Bytes) (cas : ℕ) : Bool :=
  match policy with
  | .kInvalid => false
  | .kSet => true
  | .kAdd => (m.map key).isNone
  | .kReplace | .kAppend | .kPrepend => (m.map key).isSome
  | .kCas => (m.map key).any fun old => old.cas = cas

/-- What is stored: `append` and `prepend` keep everything of the old entry but its value. -/
def combine (policy : UpdatePolicy) (old : Option Entry) (new : Entry) : Entry :=
  match policy, old with
  | .kAppend, some old => { old with value := old.value ++ new.value }
  | .kPrepend, some old => { old with value := new.value ++ old.value }
  | _, _ => new

/-- The entry gets the next token. -/
def put (m : CasMap) (key : Bytes) (e : Entry) : CasMap :=
  ⟨Function.update m.map key (some { e with cas := m.cas + 1 }), m.cas + 1⟩

def call (m : CasMap) : Call → Result × CasMap
  | .store item policy =>
    let old := m.map item.keyBytes
    if m.accepts policy item.keyBytes item.cas then
      (.stored true old.isSome, m.put item.keyBytes (combine policy old item.entry))
    else (.stored false old.isSome, m)
  | .get key => (.got (m.map key.keyBytes), m)
  | .delete key => (.deleted (m.map key.keyBytes).isSome,
      { m with map := Function.update m.map key.keyBytes none })

theorem call_accepts {m : CasMap} {item : Item} {policy : UpdatePolicy}
    (h : m.accepts policy item.keyBytes item.cas = true) :
    m.call (.store item policy) = (.stored true (m.map item.keyBytes).isSome,
      m.put item.keyBytes (combine policy (m.map item.keyBytes) item.entry)) := if_pos h

theorem call_rejects {m : CasMap} {item : Item} {policy : UpdatePolicy}
    (h : m.accepts policy item.keyBytes item.cas = false) :
    m.call (.store item policy) = (.stored false (m.map item.keyBytes).isSome, m) :=
  if_neg (by rw [h]; decide)

end CasMap

namespace MemcacheServer

open Item

/-! ## The relation -/

variable (hashRange : Bytes → ℕ)

/-- The shard of a key. -/
def keyShard (key : Bytes) : Fin kShards := shard (hashRange key)

/-- The item that is stored under a key. -/
def lookup (s : MemcacheServer) (key : Bytes) : Option Item :=
  Sharded.lookup keyBytes (keyShard hashRange) s.shards key

/-- Every item stands in the shard of its key, and every key once, and what is stored under a key is
what the map has. -/
structure Represents (s : MemcacheServer) (m : CasMap) : Prop where
  placed : Sharded.Placed keyBytes (keyShard hashRange) s.shards
  complete : ∀ i, ∀ x ∈ s.shards i, x.Complete hashRange
  entries : ∀ key, (s.lookup hashRange key).map Item.entry = m.map key
  cas : s.cas = m.cas

variable {hashRange} {s : MemcacheServer} {m : CasMap} {x y : Item}

theorem represents_new (startTime : ℤ) : Represents hashRange (new startTime) CasMap.empty :=
  ⟨Sharded.placed_empty, fun _ _ hx => (by cases hx), fun _ => rfl, rfl⟩

/-- The sets go by the key. -/
theorem equal_iff (hx : x.Keyed hashRange) (hy : y.Keyed hashRange) :
    x.equal y = true ↔ y.keyBytes = x.keyBytes := by
  have hlen : ∀ z : Item, z.Keyed hashRange → (z.keyBytes.length : ℤ) = z.keylen := fun z hz => by
    have hkeylen := hz.keylen
    rw [keyBytes, List.length_take]
    omega
  unfold equal StringPiece.equal Item.key
  rw [decide_eq_true_eq, decide_eq_true_eq]
  dsimp only
  constructor
  · rintro ⟨-, hkeylen, hbytes⟩
    rw [keyBytes, keyBytes, hbytes, hkeylen]
  · intro hkey
    have hkeylen : x.keylen = y.keylen := by rw [← hlen x hx, ← hlen y hy, hkey]
    refine ⟨by rw [hx.hash, hy.hash, hkey], hkeylen, ?_⟩
    rw [keyBytes, keyBytes, hkeylen] at hkey
    rw [hkeylen, hkey]

theorem Represents.equal_eq (h : Represents hashRange s m) (hx : x.Keyed hashRange) {i : Fin kShards}
    (hy : y ∈ s.shards i) : x.equal y = decide (y.keyBytes = x.keyBytes) := by
  rw [Bool.eq_iff_iff, equal_iff hx (h.complete i y hy).toKeyed, decide_eq_true_eq]

theorem shard_hash (hx : x.Keyed hashRange) : shard x.hash = keyShard hashRange x.keyBytes := by
  rw [keyShard, hx.hash]

theorem items_eq (hx : x.Keyed hashRange) : s.items x = s.shards (keyShard hashRange x.keyBytes) := by
  rw [items, shard_hash hx]

theorem Represents.find_items (h : Represents hashRange s m) (hx : x.Keyed hashRange) :
    (s.items x).find x = s.lookup hashRange x.keyBytes := by
  rw [items_eq hx]
  exact List.find?_congr fun y hy => h.equal_eq hx hy

theorem Represents.erase_items (h : Represents hashRange s m) (hx : x.Keyed hashRange) :
    (s.items x).erase x =
      (s.shards (keyShard hashRange x.keyBytes)).filter fun y => y.keyBytes ≠ x.keyBytes := by
  rw [items_eq hx]
  refine List.filter_congr fun y hy => ?_
  rw [h.equal_eq hx hy]
  simp

/-- An item takes the place of the one with its key. -/
theorem Represents.insert (h : Represents hashRange s m) (hx : x.Keyed hashRange)
    (hy : y.Complete hashRange) (hkey : y.keyBytes = x.keyBytes) {e : CasMap.Entry}
    (hentry : y.entry = { e with cas := m.cas + 1 }) {items : ItemMap}
    (hitems : items =
      (s.shards (keyShard hashRange x.keyBytes)).filter fun z => z.keyBytes ≠ x.keyBytes) :
    Represents hashRange (s.incrementAndGet.2.setItems x (items.insert y)) (m.put x.keyBytes e) := by
  have hnone : items.find y = none := by
    unfold ItemMap.find
    rw [List.find?_eq_none]
    intro z hz hequal
    rw [hitems, List.mem_filter] at hz
    rw [equal_iff hy.toKeyed (h.complete _ z hz.1).toKeyed, hkey] at hequal
    simp [hequal] at hz
  have hshards : (s.incrementAndGet.2.setItems x (items.insert y)).shards =
      Sharded.put keyBytes (keyShard hashRange) s.shards y := by
    unfold ItemMap.insert setItems
    rw [hnone, hitems, shard_hash hx, Sharded.put, hkey]
    rfl
  refine ⟨?_, fun i z hz => ?_, fun key => ?_, ?_⟩
  · rw [hshards]
    exact h.placed.put y
  · rw [hshards, Sharded.put] at hz
    by_cases hi : i = keyShard hashRange y.keyBytes
    · rw [hi, Function.update_self] at hz
      rcases List.mem_cons.1 hz with rfl | hz
      · exact hy
      · exact h.complete _ z (List.mem_of_mem_filter hz)
    · rw [Function.update_of_ne hi] at hz
      exact h.complete i z hz
  · rw [lookup, hshards, Sharded.lookup_put, CasMap.put]
    dsimp only
    rw [Function.update_apply, hkey]
    split_ifs
    · rw [Option.map_some, hentry]
    · exact h.entries key
  · show s.cas + 1 = m.cas + 1
    rw [h.cas]

theorem Represents.delete (h : Represents hashRange s m) (hx : x.Keyed hashRange) :
    (s.deleteItem x).1 = (m.map x.keyBytes).isSome ∧ Represents hashRange (s.deleteItem x).2
      { m with map := Function.update m.map x.keyBytes none } := by
  have hshards : (s.deleteItem x).2.shards =
      Sharded.remove keyBytes (keyShard hashRange) s.shards x.keyBytes := by
    unfold deleteItem setItems
    dsimp only
    rw [h.erase_items hx, shard_hash hx, Sharded.remove]
  have hcount : List.countP x.equal (s.items x) =
      (s.shards (keyShard hashRange x.keyBytes)).countP fun y => y.keyBytes = x.keyBytes := by
    rw [items_eq hx]
    exact List.countP_congr fun y hy => by rw [h.equal_eq hx hy]
  refine ⟨?_, ?_, fun i z hz => ?_, fun key => ?_, h.cas⟩
  · unfold deleteItem
    dsimp only
    rw [Bool.eq_iff_iff, decide_eq_true_eq, hcount, Sharded.countP_eq_one h.placed, ← h.entries,
      Option.isSome_map]
    rfl
  · rw [hshards]
    exact h.placed.remove _
  · rw [hshards, Sharded.remove] at hz
    by_cases hi : i = keyShard hashRange x.keyBytes
    · rw [hi, Function.update_self] at hz
      exact h.complete _ z (List.mem_of_mem_filter hz)
    · rw [Function.update_of_ne hi] at hz
      exact h.complete i z hz
  · rw [lookup, hshards, Sharded.lookup_remove]
    dsimp only
    rw [Function.update_apply]
    split_ifs
    · rfl
    · exact h.entries key

/-! ## Storing -/

theorem entry_full {key value : Bytes} {flags cas : ℕ} {exptime : ℤ} :
    (full hashRange key flags exptime value cas).entry = ⟨flags, exptime, value, cas⟩ := by
  unfold Item.entry
  rw [payload_full]
  rfl

theorem Represents.lookup_some (h : Represents hashRange s m) {key : Bytes}
    (hy : s.lookup hashRange key = some y) : y.Complete hashRange ∧ y.keyBytes = key := by
  obtain ⟨hmem, hkey⟩ := (Sharded.lookup_eq_some h.placed).1 hy
  exact ⟨h.complete _ y hmem, hkey⟩

/-- A call may be made: the item is complete, or can be looked for, and the lengths stay below
`2 ^ 31`. -/
def Valid (hashRange : Bytes → ℕ) (s : MemcacheServer) : Call → Prop
  | .store item policy => item.Complete hashRange ∧ policy ≠ .kInvalid ∧
      (policy = .kAppend ∨ policy = .kPrepend → ∀ old ∈ s.getItem item,
        item.keylen + item.valuelen + old.valuelen - 2 < 2 ^ 31)
  | .get key | .delete key => key.Keyed hashRange

instance (s : MemcacheServer) : ∀ c, Decidable (Valid hashRange s c)
  | .store _ _ => inferInstanceAs (Decidable (_ ∧ _ ≠ _ ∧ (_ ∨ _ → ∀ old ∈ _, _ < _)))
  | .get key => inferInstanceAs (Decidable (key.Keyed hashRange))
  | .delete key => inferInstanceAs (Decidable (key.Keyed hashRange))

/-- The server answers a store as the map does, and keeps on representing it. -/
def Follows (hashRange : Bytes → ℕ) (s : MemcacheServer) (m : CasMap) (item : Item)
    (policy : UpdatePolicy) : Prop :=
  ∃ ok existed s', s.storeItem hashRange item policy = .ok (ok, existed, s') ∧
    (m.call (.store item policy)).1 = .stored ok existed ∧
    Represents hashRange s' (m.call (.store item policy)).2

theorem Complete.setCas {item : Item} (h : item.Complete hashRange) (cas : ℕ) :
    (item.setCas cas).Complete hashRange :=
  ⟨⟨h.keylen, h.hash⟩, h.valuelen, h.small, h.size, h.crlf⟩

variable {item old : Item} {policy : UpdatePolicy}

/-- The item itself is stored. -/
theorem Represents.insert_setCas (h : Represents hashRange s m) (hitem : item.Complete hashRange)
    {items : ItemMap} (hitems : items =
      (s.shards (keyShard hashRange item.keyBytes)).filter fun z => z.keyBytes ≠ item.keyBytes) :
    Represents hashRange (s.incrementAndGet.2.setItems item (items.insert (item.setCas (s.cas + 1))))
      (m.put item.keyBytes item.entry) := by
  have hcomplete := Complete.setCas hitem (s.cas + 1)
  refine h.insert hitem.toKeyed hcomplete rfl ?_ hitems
  rw [h.cas]
  rfl

theorem Complete.neededBytes (h : item.Complete hashRange) : item.neededBytes = 0 := by
  have hcrlf := h.crlf
  unfold endsWithCRLF at hcrlf
  rw [decide_eq_true_eq] at hcrlf
  rw [Item.neededBytes, hcrlf.1, Int.sub_self]
  rfl

theorem Represents.storeItem_absent (h : Represents hashRange s m) (hitem : item.Complete hashRange)
    (hpolicy : policy ≠ .kInvalid) (hnone : s.lookup hashRange item.keyBytes = none) :
    Follows hashRange s m item policy := by
  have hmap : m.map item.keyBytes = none := by
    rw [← h.entries, hnone]
    rfl
  have hitems : s.items item =
      (s.shards (keyShard hashRange item.keyBytes)).filter fun z => z.keyBytes ≠ item.keyBytes := by
    rw [items_eq hitem.toKeyed]
    exact (Sharded.filter_of_lookup_eq_none hnone).symm
  have hinsert := h.insert_setCas hitem hitems
  unfold Follows MemcacheServer.storeItem
  rw [check_of (Complete.neededBytes hitem), ok_bind]
  dsimp only
  rw [h.find_items hitem.toKeyed, hnone]
  cases policy with
  | kInvalid => exact absurd rfl hpolicy
  | kSet =>
    rw [CasMap.call_accepts rfl, hmap]
    exact ⟨_, _, _, rfl, rfl, hinsert⟩
  | kAdd =>
    rw [CasMap.call_accepts (by rw [CasMap.accepts, hmap]; rfl), hmap]
    exact ⟨_, _, _, rfl, rfl, hinsert⟩
  | kReplace | kAppend | kPrepend | kCas =>
    rw [CasMap.call_rejects (by rw [CasMap.accepts, hmap]; rfl), hmap]
    exact ⟨_, _, _, rfl, rfl, h⟩

/-- The old value and the new one are put together. -/
theorem Represents.insert_concat (h : Represents hashRange s m) (hitem : item.Complete hashRange)
    (hold : old.Complete hashRange) (hfit : item.keylen + item.valuelen + old.valuelen - 2 < 2 ^ 31)
    {items : ItemMap} (hitems : items =
      (s.shards (keyShard hashRange item.keyBytes)).filter fun z => z.keyBytes ≠ item.keyBytes)
    (hpolicy : policy = .kAppend ∨ policy = .kPrepend) :
    ∃ newItem, concatItem hashRange item old policy (s.cas + 1) = .ok newItem ∧
      Represents hashRange (s.incrementAndGet.2.setItems item (items.insert newItem))
        (m.put item.keyBytes (CasMap.combine policy (some old.entry) item.entry)) := by
  have hlen := hitem.length_keyBytes
  have hlenv := hitem.length_payload
  have hlenv' := hold.length_payload
  have hsmall := hold.small
  have hlen' := hold.length_keyBytes
  have hconcat : concatItem hashRange item old policy (s.cas + 1) =
      .ok (full hashRange item.keyBytes old.flags old.relExptime
        (if policy = .kAppend then old.payload ++ item.payload else item.payload ++ old.payload)
        (s.cas + 1)) := by
    conv_lhs => rw [hitem.eq_full, hold.eq_full]
    exact concatItem_full (by omega) (by omega) policy
  refine ⟨_, hconcat, h.insert hitem.toKeyed (complete_full ?_) keyBytes_full ?_ hitems⟩
  · split_ifs
    · rw [List.length_append]
      omega
    · rw [List.length_append]
      omega
  · rw [entry_full, h.cas]
    rcases hpolicy with rfl | rfl
    · rfl
    · rfl

theorem Represents.storeItem_present (h : Represents hashRange s m) (hitem : item.Complete hashRange)
    (hpolicy : policy ≠ .kInvalid) (hsome : s.lookup hashRange item.keyBytes = some old)
    (hfit : policy = .kAppend ∨ policy = .kPrepend →
      item.keylen + item.valuelen + old.valuelen - 2 < 2 ^ 31) :
    Follows hashRange s m item policy := by
  obtain ⟨hold, hkey⟩ := h.lookup_some hsome
  have hmap : m.map item.keyBytes = some old.entry := by
    rw [← h.entries, hsome]
    rfl
  have hitems := h.erase_items hitem.toKeyed
  have hitems' : (s.items item).erase old =
      (s.shards (keyShard hashRange item.keyBytes)).filter fun z => z.keyBytes ≠ item.keyBytes := by
    have hsame : s.items item = s.items old := by
      rw [items_eq hitem.toKeyed, items_eq hold.toKeyed, hkey]
    rw [hsame, h.erase_items hold.toKeyed, hkey]
  unfold Follows MemcacheServer.storeItem
  rw [check_of (Complete.neededBytes hitem), ok_bind]
  dsimp only
  rw [h.find_items hitem.toKeyed, hsome]
  cases policy with
  | kInvalid => exact absurd rfl hpolicy
  | kSet =>
    rw [CasMap.call_accepts rfl, hmap]
    exact ⟨_, _, _, rfl, rfl, h.insert_setCas hitem hitems⟩
  | kAdd =>
    rw [CasMap.call_rejects (by rw [CasMap.accepts, hmap]; rfl), hmap]
    exact ⟨_, _, _, rfl, rfl, h⟩
  | kReplace =>
    rw [CasMap.call_accepts (by rw [CasMap.accepts, hmap]; rfl), hmap]
    exact ⟨_, _, _, rfl, rfl, h.insert_setCas hitem hitems⟩
  | kAppend =>
    obtain ⟨newItem, hconcat, hinsert⟩ :=
      h.insert_concat hitem hold (hfit (Or.inl rfl)) hitems' (Or.inl rfl)
    rw [CasMap.call_accepts (by rw [CasMap.accepts, hmap]; rfl), hmap]
    exact ⟨_, _, _, bind_eq_ok.2 ⟨newItem, hconcat, rfl⟩, rfl, hinsert⟩
  | kPrepend =>
    obtain ⟨newItem, hconcat, hinsert⟩ :=
      h.insert_concat hitem hold (hfit (Or.inr rfl)) hitems' (Or.inr rfl)
    rw [CasMap.call_accepts (by rw [CasMap.accepts, hmap]; rfl), hmap]
    exact ⟨_, _, _, bind_eq_ok.2 ⟨newItem, hconcat, rfl⟩, rfl, hinsert⟩
  | kCas =>
    dsimp only
    split_ifs with hcas
    · rw [CasMap.call_accepts (by rw [CasMap.accepts, hmap]; exact decide_eq_true hcas), hmap]
      exact ⟨_, _, _, rfl, rfl, h.insert_setCas hitem hitems'⟩
    · rw [CasMap.call_rejects (by rw [CasMap.accepts, hmap]; exact decide_eq_false hcas), hmap]
      exact ⟨_, _, _, rfl, rfl, h⟩

/-- Nothing changes the start time. -/
theorem storeItem_startTime {s s' : MemcacheServer} {item : Item} {policy : UpdatePolicy}
    {ok existed : Bool} (h : s.storeItem hashRange item policy = .ok (ok, existed, s')) :
    s'.startTime = s.startTime := by
  obtain ⟨-, h⟩ := check_bind_eq_ok.1 h
  cases policy with
  | kInvalid => cases h
  | kSet =>
    dsimp only at h
    cases h
    rfl
  | kAdd | kReplace =>
    dsimp only at h
    split_ifs at h
    · cases h
      rfl
    · cases h
      rfl
  | kAppend | kPrepend =>
    dsimp only at h
    split at h
    · obtain ⟨newItem, -, h⟩ := bind_eq_ok.1 h
      cases h
      rfl
    · cases h
      rfl
  | kCas =>
    dsimp only at h
    split at h
    · split_ifs at h
      · cases h
        rfl
      · cases h
        rfl
    · cases h
      rfl

theorem Represents.getItem (h : Represents hashRange s m) (hx : x.Keyed hashRange) :
    (s.getItem x).map Item.entry = m.map x.keyBytes := by
  rw [MemcacheServer.getItem, h.find_items hx, h.entries]

theorem Represents.follows (h : Represents hashRange s m)
    (hvalid : Valid hashRange s (.store item policy)) : Follows hashRange s m item policy := by
  obtain ⟨hitem, hpolicy, hfit⟩ := hvalid
  cases hlookup : s.lookup hashRange item.keyBytes with
  | none => exact h.storeItem_absent hitem hpolicy hlookup
  | some old =>
    refine h.storeItem_present hitem hpolicy hlookup fun hp => hfit hp old ?_
    rw [MemcacheServer.getItem, h.find_items hitem.toKeyed, hlookup]
    rfl

/-- Every call of the server follows the map. -/
theorem Represents.call (h : Represents hashRange s m) {c : Call} (hc : Valid hashRange s c) :
    ∃ s', s.call hashRange c = .ok ((m.call c).1, s') ∧ Represents hashRange s' (m.call c).2 := by
  cases c with
  | store item policy =>
    obtain ⟨ok, existed, s', hstore, hresult, hs'⟩ := h.follows hc
    refine ⟨s', ?_, hs'⟩
    rw [hresult]
    exact bind_eq_ok.2 ⟨_, hstore, rfl⟩
  | get key =>
    refine ⟨s, ?_, h⟩
    rw [MemcacheServer.call, h.getItem hc]
    rfl
  | delete key =>
    obtain ⟨hok, hs'⟩ := h.delete hc
    refine ⟨_, ?_, hs'⟩
    rw [MemcacheServer.call, hok]
    rfl

end MemcacheServer

end Reactor
