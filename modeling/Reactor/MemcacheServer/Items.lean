import Reactor.MemcacheServer

/-!
# Items

An item that the constructor has made and `append` has filled is known by its key and the bytes that
have arrived (`filled`); one that has arrived completely, by its key and its value (`full`).  The CRLF
at the end of a value is spliced out when two values are put together (`concatItem_full`).
-/

namespace Reactor

namespace Item

variable (hashRange : Bytes → ℕ)

/-- The bytes of the key. -/
def keyBytes (it : Item) : Bytes := it.data.take it.keylen.toNat

/-- The bytes of the value, without the CRLF. -/
def payload (it : Item) : Bytes :=
  Vec.slice it.data it.keylen.toNat (it.keylen + it.valuelen - 2).toNat

/-- An item that a set can be asked for: the hash is that of the key. -/
structure Keyed (it : Item) : Prop where
  keylen : 0 ≤ it.keylen ∧ it.keylen ≤ it.data.length
  hash : it.hash = hashRange it.keyBytes

/-- An item that is received, ends in CRLF, and whose lengths an `int` can hold. -/
structure Complete (it : Item) : Prop extends it.Keyed hashRange where
  valuelen : 2 ≤ it.valuelen
  small : it.keylen + it.valuelen < 2 ^ 31
  size : it.data.length = it.keylen + it.valuelen
  crlf : it.endsWithCRLF = true

instance (it : Item) : Decidable (it.Keyed hashRange) :=
  decidable_of_iff ((0 ≤ it.keylen ∧ it.keylen ≤ it.data.length) ∧ it.hash = hashRange it.keyBytes)
    ⟨fun h => ⟨h.1, h.2⟩, fun h => ⟨h.keylen, h.hash⟩⟩

instance (it : Item) : Decidable (it.Complete hashRange) :=
  decidable_of_iff (it.Keyed hashRange ∧ 2 ≤ it.valuelen ∧ it.keylen + it.valuelen < 2 ^ 31 ∧
      it.data.length = it.keylen + it.valuelen ∧ it.endsWithCRLF = true)
    ⟨fun h => ⟨h.1, h.2.1, h.2.2.1, h.2.2.2.1, h.2.2.2.2⟩,
      fun h => ⟨h.toKeyed, h.valuelen, h.small, h.size, h.crlf⟩⟩

/-- An item of which `received` has arrived of the value. -/
def filled (key : Bytes) (flags : ℕ) (exptime : ℤ) (valuelen : ℕ) (cas : ℕ) (received : Bytes) : Item where
  keylen := key.length
  flags := flags
  relExptime := exptime
  valuelen := valuelen
  receivedBytes := (key ++ received).length
  cas := cas
  hash := hashRange key
  data := key ++ received ++ List.replicate (valuelen - received.length) 0

/-- An item with the value and its CRLF. -/
def full (key : Bytes) (flags : ℕ) (exptime : ℤ) (value : Bytes) (cas : ℕ) : Item :=
  filled hashRange key flags exptime (value.length + 2) cas (value ++ crlf)

variable {hashRange} {key value received : Bytes} {flags cas : ℕ} {exptime : ℤ} {valuelen : ℕ}

theorem bmod_of_lt {n : ℤ} (hlow : 0 ≤ n) (hhigh : n < 2 ^ 31) : Int.bmod n (2 ^ 32) = n := by
  unfold Int.bmod
  dsimp only
  split_ifs <;> omega

theorem totalLen_filled (hsmall : key.length + valuelen < 2 ^ 31) :
    (filled hashRange key flags exptime valuelen cas received).totalLen = key.length + valuelen :=
  bmod_of_lt (n := (key.length : ℤ) + valuelen) (by omega) (by omega)

theorem neededBytes_filled (hsmall : key.length + valuelen < 2 ^ 31) (h : received.length ≤ valuelen) :
    (filled hashRange key flags exptime valuelen cas received).neededBytes =
      valuelen - received.length := by
  unfold neededBytes
  rw [totalLen_filled hsmall, filled]
  simp only [List.length_append]
  omega

theorem append_eq {it : Item} {data : Bytes} (hneeded : data.length ≤ it.neededBytes)
    (hroom : 0 ≤ it.receivedBytes ∧ it.receivedBytes.toNat + data.length ≤ it.data.length)
    (hint : data.length < 2 ^ 31) (htotal : it.receivedBytes + data.length ≤ it.totalLen) :
    it.append data = .ok { it with
      data := Vec.write it.data it.receivedBytes.toNat data
      receivedBytes := it.receivedBytes + data.length } := by
  unfold append
  rw [check_of hneeded, ok_bind, check_of hroom, ok_bind]
  dsimp only
  rw [intOfSize_of_lt hint, check_of (by exact htotal), ok_bind]
  rfl

/-- More of the value arrives. -/
theorem append_filled (hsmall : key.length + valuelen < 2 ^ 31) {data : Bytes}
    (h : received.length + data.length ≤ valuelen) :
    (filled hashRange key flags exptime valuelen cas received).append data =
      .ok (filled hashRange key flags exptime valuelen cas (received ++ data)) := by
  have hwrite : Vec.write (key ++ received ++ List.replicate (valuelen - received.length) 0)
      (key ++ received).length data =
      key ++ (received ++ data) ++ List.replicate (valuelen - (received ++ data).length) 0 := by
    unfold Vec.write
    rw [List.take_left, ← List.drop_drop, List.drop_left, List.drop_replicate, List.length_append,
      Nat.sub_sub, List.append_assoc key received]
  have hnum : ((key ++ received).length : ℤ) + data.length = (key ++ (received ++ data)).length := by
    simp only [List.length_append]
    push_cast
    omega
  rw [append_eq (by rw [neededBytes_filled hsmall (by omega)]; omega) ?_ (by omega)
    (by rw [totalLen_filled hsmall, filled]; simp only [List.length_append]; omega)]
  · unfold filled
    simp only [Int.toNat_natCast, hwrite, hnum]
  · unfold filled
    simp only [List.length_append, List.length_replicate]
    omega

theorem new_eq_filled (hsmall : key.length + valuelen < 2 ^ 31) (hvalue : 2 ≤ valuelen)
    {keyArg : StringPiece} (hkey : keyArg.read = .ok key) (hlength : keyArg.length = key.length) :
    new hashRange keyArg flags exptime valuelen cas =
      .ok (filled hashRange key flags exptime valuelen cas []) := by
  have hbmod : Int.bmod ((key.length : ℤ) + valuelen) (2 ^ 32) = key.length + valuelen :=
    bmod_of_lt (by omega) (by omega)
  have htotal : ((key.length : ℤ) + valuelen).toNat = key.length + valuelen := by omega
  unfold new
  rw [hkey, ok_bind, hlength]
  simp only [totalLen, hbmod, htotal]
  rw [check_of (by omega), ok_bind, check_of (by omega), ok_bind, append_eq]
  · unfold filled Vec.write
    simp
  · simp only [neededBytes, totalLen, hbmod]
    omega
  · simp only [List.length_replicate]
    omega
  · omega
  · simp only [totalLen, hbmod]
    omega

/-! ### Complete items -/

theorem full_eq : full hashRange key flags exptime value cas = ⟨key.length, flags, exptime,
    (value.length + 2 : ℕ), (key ++ (value ++ crlf)).length, cas, hashRange key,
    key ++ (value ++ crlf)⟩ := by
  have hcrlf : (value ++ crlf).length = value.length + 2 := List.length_append
  unfold full filled
  rw [hcrlf, Nat.sub_self, List.replicate_zero, List.append_nil]

@[simp] theorem keyBytes_full : (full hashRange key flags exptime value cas).keyBytes = key := by
  rw [full_eq, keyBytes, Int.toNat_natCast]
  exact List.take_left

@[simp] theorem payload_full : (full hashRange key flags exptime value cas).payload = value := by
  have hend : ((key.length : ℤ) + (value.length + 2 : ℕ) - 2).toNat = key.length + value.length := by
    omega
  rw [full_eq, payload, Int.toNat_natCast, hend, Vec.slice, ← List.append_assoc,
    ← List.length_append, List.take_left, List.drop_left]

theorem totalLen_full (hsmall : key.length + value.length + 2 < 2 ^ 31) :
    (full hashRange key flags exptime value cas).totalLen = (key ++ (value ++ crlf)).length := by
  have hcrlf : (key ++ (value ++ crlf)).length = key.length + (value.length + 2) := by
    simp only [List.length_append]
    rfl
  rw [full, totalLen_filled (by omega), hcrlf]
  push_cast
  rfl

theorem endsWithCRLF_full (hsmall : key.length + value.length + 2 < 2 ^ 31) :
    (full hashRange key flags exptime value cas).endsWithCRLF = true := by
  have hlen : (key ++ (value ++ crlf)).length - 2 = (key ++ value).length := by
    simp only [List.length_append]
    rfl
  unfold endsWithCRLF
  rw [decide_eq_true_eq, totalLen_full hsmall, Int.toNat_natCast, full_eq]
  refine ⟨rfl, ?_⟩
  rw [hlen, Vec.slice, List.take_length, ← List.append_assoc, List.drop_left]

theorem complete_full (hsmall : key.length + value.length + 2 < 2 ^ 31) :
    (full hashRange key flags exptime value cas).Complete hashRange := by
  have hlen : (key ++ (value ++ crlf)).length = key.length + (value.length + 2) := by
    simp only [List.length_append]
    rfl
  refine ⟨⟨?_, ?_⟩, ?_, ?_, ?_, endsWithCRLF_full hsmall⟩
  · rw [full_eq]
    dsimp only
    omega
  · rw [keyBytes_full, full_eq]
  · rw [full_eq]
    dsimp only
    omega
  · rw [full_eq]
    dsimp only
    omega
  · rw [full_eq]
    dsimp only
    omega

theorem Complete.length_keyBytes {it : Item} (h : it.Complete hashRange) :
    (it.keyBytes.length : ℤ) = it.keylen := by
  have hkeylen := h.keylen
  rw [keyBytes, List.length_take]
  omega

theorem Complete.totalLen {it : Item} (h : it.Complete hashRange) :
    it.totalLen = it.keylen + it.valuelen := by
  have hkeylen := h.keylen.1
  have hvaluelen := h.valuelen
  exact bmod_of_lt (by omega) h.small

/-- The array of a complete item. -/
theorem Complete.data {it : Item} (h : it.Complete hashRange) :
    it.data = it.keyBytes ++ (it.payload ++ Reactor.crlf) := by
  have hcrlf := h.crlf
  unfold endsWithCRLF at hcrlf
  rw [decide_eq_true_eq, h.totalLen] at hcrlf
  have hkeylen := h.keylen
  have hvaluelen := h.valuelen
  have hsize := h.size
  have hstop : (it.keylen + it.valuelen - 2).toNat = (it.keylen + it.valuelen).toNat - 2 := by omega
  have hlast : it.data.length = (it.keylen + it.valuelen).toNat := by omega
  rw [← hcrlf.2, payload, hstop, Vec.slice_append_slice (by omega) (by omega) (by omega), ← hlast,
    Vec.slice, List.take_length, keyBytes, List.take_append_drop]

theorem Complete.length_payload {it : Item} (h : it.Complete hashRange) :
    (it.payload.length : ℤ) = it.valuelen - 2 := by
  have hlen := congrArg List.length h.data
  have hsize := h.size
  have hkey := h.length_keyBytes
  have htwo : Reactor.crlf.length = 2 := rfl
  simp only [List.length_append] at hlen
  omega

theorem Complete.eq_full {it : Item} (h : it.Complete hashRange) :
    it = full hashRange it.keyBytes it.flags it.relExptime it.payload it.cas := by
  have hcrlf := h.crlf
  unfold endsWithCRLF at hcrlf
  rw [decide_eq_true_eq, h.totalLen] at hcrlf
  have hvaluelen : it.valuelen = (it.payload.length + 2 : ℕ) := by
    have hpayload := h.length_payload
    omega
  rw [full_eq, ← h.data, h.length_keyBytes, ← hvaluelen, ← h.hash, h.size, ← hcrlf.1]

/-! ### Concatenation -/

theorem read_key_full : (full hashRange key flags exptime value cas).key.read = .ok key := by
  have hsize : key.length ≤ (key ++ (value ++ crlf)).length := by
    rw [List.length_append]
    omega
  rw [full_eq, Item.key, StringPiece.read_of_le hsize, List.take_left]

theorem valueLength_full (hsmall : key.length + value.length + 2 < 2 ^ 31) :
    (full hashRange key flags exptime value cas).valueLength = value.length + 2 := by
  rw [full_eq, valueLength]
  dsimp only
  omega

theorem length_key_full : (full hashRange key flags exptime value cas).key.length = key.length := by
  rw [full_eq, Item.key]

theorem neededBytes_full (hsmall : key.length + value.length + 2 < 2 ^ 31) :
    (full hashRange key flags exptime value cas).neededBytes = 0 := by
  have hcrlf : (value ++ crlf).length = value.length + 2 := List.length_append
  rw [full, neededBytes_filled (by omega) (by omega), hcrlf, Nat.sub_self]

/-- Memory behind the key. -/
theorem value_full {len : ℕ} (hlen : len ≤ value.length + 2) :
    (full hashRange key flags exptime value cas).value len = .ok ((value ++ crlf).take len) := by
  have hsize : (key ++ (value ++ crlf)).length = key.length + (value.length + 2) := by
    simp only [List.length_append]
    rfl
  rw [full_eq, Item.value]
  dsimp only
  rw [check_of (by omega), ok_bind, Int.toNat_natCast, Vec.slice, List.take_length_add_append,
    List.drop_left]
  rfl

/-! ### The item that sets are asked for -/

/-- An item with room for the longest key. -/
structure Needle (it : Item) : Prop where
  size : it.data.length = 252
  valuelen : it.valuelen = 2

theorem Needle.resetKey {it : Item} (h : it.Needle) {k : StringPiece} (hkey : k.read = .ok key)
    (hlength : k.length = key.length) (hlong : key.length ≤ 250) :
    ∃ it', it.resetKey hashRange k = .ok it' ∧ it'.Needle ∧ it'.Keyed hashRange ∧ it'.keyBytes = key := by
  have hbmod : Int.bmod ((key.length : ℤ) + 2) (2 ^ 32) = key.length + 2 :=
    bmod_of_lt (by omega) (by omega)
  have hsize := h.size
  have hwrite : (Vec.write it.data (0 : ℤ).toNat key).take (key.length : ℤ).toNat = key := by
    unfold Vec.write
    rw [Int.toNat_natCast]
    simp
  have hlen : (Vec.write it.data (0 : ℤ).toNat key).length = 252 := by
    rw [Vec.length_write (by omega), h.size]
  unfold Item.resetKey
  rw [check_of (by omega), ok_bind, hkey, ok_bind, hlength, append_eq]
  · refine ⟨_, rfl, ⟨hlen, h.valuelen⟩, ⟨⟨Int.natCast_nonneg _, ?_⟩, ?_⟩, hwrite⟩
    · show (key.length : ℤ) ≤ (Vec.write it.data (0 : ℤ).toNat key).length
      rw [hlen]
      omega
    · show hashRange key = hashRange (List.take _ _)
      rw [hwrite]
  · simp only [neededBytes, totalLen, h.valuelen, hbmod]
    omega
  · dsimp only
    omega
  · omega
  · simp only [totalLen, h.valuelen, hbmod]
    omega

end Item

namespace MemcacheServer

open Item

variable {hashRange : Bytes → ℕ} {key value : Bytes} {flags cas : ℕ} {exptime : ℤ}

/-- Two values are put into a fresh item. -/
theorem fill_full {first second : Bytes} {len : ℕ} (hlen : len = (first ++ second).length + 2)
    (hsmall : key.length + len < 2 ^ 31) :
    (do
      let newItem ← (filled hashRange key flags exptime len cas []).append first
      let newItem ← newItem.append (second ++ crlf)
      check .storeItem (newItem.neededBytes = 0)
      check .storeItem newItem.endsWithCRLF
      return newItem) = .ok (full hashRange key flags exptime (first ++ second) cas) := by
  have hcrlf : (second ++ crlf).length = second.length + 2 := List.length_append
  have happend : (first ++ second).length = first.length + second.length := List.length_append
  have hfull : filled hashRange key flags exptime len cas ([] ++ first ++ (second ++ crlf)) =
      full hashRange key flags exptime (first ++ second) cas := by
    rw [full, hlen, List.nil_append, List.append_assoc]
  rw [append_filled hsmall (by rw [List.length_nil]; omega), ok_bind,
    append_filled hsmall (by rw [List.nil_append]; omega), ok_bind, hfull,
    check_of (neededBytes_full (by omega)), ok_bind, check_of (endsWithCRLF_full (by omega)), ok_bind]
  rfl

/-- The first of the values loses its CRLF. -/
theorem concatItem_full {key' value' : Bytes} {flags' cas' newCas : ℕ} {exptime' : ℤ}
    (hsmall : key.length + value.length + value'.length + 2 < 2 ^ 31)
    (hold : key'.length + value'.length + 2 < 2 ^ 31) (policy : UpdatePolicy) :
    concatItem hashRange (full hashRange key flags exptime value cas)
      (full hashRange key' flags' exptime' value' cas') policy newCas =
      .ok (full hashRange key flags' exptime'
        (if policy = .kAppend then value' ++ value else value ++ value') newCas) := by
  have hnew : intOfSize (value.length + 2 + (value'.length + 2) - 2) =
      ((value.length + value'.length + 2 : ℕ) : ℤ) := by
    rw [intOfSize_of_lt (by omega)]
    omega
  have hfirst : ∀ v : Bytes, (v ++ crlf).take (v.length + 2 - 2) = v := fun _ => List.take_left
  have hsecond : ∀ v : Bytes, (v ++ crlf).take (v.length + 2) = v ++ crlf := fun v => by
    have hcrlf : (v ++ crlf).length = v.length + 2 := List.length_append
    rw [← hcrlf, List.take_length]
  unfold concatItem
  rw [valueLength_full (by omega), valueLength_full hold, hnew]
  dsimp only
  rw [new_eq_filled (by omega) (by omega) read_key_full length_key_full, ok_bind]
  split_ifs with hpolicy
  · dsimp only
    rw [valueLength_full hold, valueLength_full (by omega), value_full (by omega), ok_bind, hfirst,
      value_full le_rfl]
    simp only [ok_bind, hsecond]
    exact fill_full (by rw [List.length_append]; omega) (by omega)
  · dsimp only
    rw [valueLength_full (by omega), valueLength_full hold, value_full (by omega), ok_bind, hfirst,
      value_full le_rfl]
    simp only [ok_bind, hsecond]
    exact fill_full (by rw [List.length_append]) (by omega)

end MemcacheServer

end Reactor
