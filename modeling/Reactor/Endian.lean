import Reactor.Base
import Reactor.Lib.BigEndian

/-!
# Network byte order

`Endian.h` swaps the bytes of an integer so that it lies in memory with its most significant byte
first.  An integer in network order is the list of its bytes in memory, or, in `Endian`, the integer
that a little-endian host has with these bytes; `hostToNetwork32_eq` says that the two agree.
-/

namespace Reactor

/-- `hostToNetwork32` of an `int32_t`. -/
def hostToNetwork32 (host32 : ℤ) : Bytes := BigEndian.toBytes 4 (host32 % 2 ^ 32).toNat

/-- `networkToHost32`, converted to `int32_t`. -/
def networkToHost32 (net32 : Bytes) : ℤ := Int.bmod (BigEndian.ofBytes net32) (2 ^ 32)

@[simp] theorem length_hostToNetwork32 (x : ℤ) : (hostToNetwork32 x).length = 4 :=
  BigEndian.length_toBytes _ _

theorem networkToHost32_hostToNetwork32 {x : ℤ} (hlow : -2 ^ 31 ≤ x) (hhigh : x < 2 ^ 31) :
    networkToHost32 (hostToNetwork32 x) = x := by
  have hpow : 256 ^ 4 = 2 ^ 32 := by norm_num
  have hlt : (x % 2 ^ 32).toNat < 2 ^ 32 := by omega
  unfold networkToHost32 hostToNetwork32
  rw [BigEndian.ofBytes_toBytes, hpow, Nat.mod_eq_of_lt hlt, Int.toNat_of_nonneg (by omega)]
  unfold Int.bmod
  dsimp only
  split_ifs <;> omega

/-! ## Swapped integers -/

namespace Endian

/-- `htobe64` on a little-endian host. -/
def hostToNetwork64 (host64 : UInt64) : UInt64 := .ofNat (LittleEndian.swap 8 host64.toNat)

/-- `htobe32` on a little-endian host. -/
def hostToNetwork32 (host32 : UInt32) : UInt32 := .ofNat (LittleEndian.swap 4 host32.toNat)

/-- `htobe16` on a little-endian host. -/
def hostToNetwork16 (host16 : UInt16) : UInt16 := .ofNat (LittleEndian.swap 2 host16.toNat)

/-- `be64toh` on a little-endian host. -/
def networkToHost64 (net64 : UInt64) : UInt64 := .ofNat (LittleEndian.swap 8 net64.toNat)

/-- `be32toh` on a little-endian host. -/
def networkToHost32 (net32 : UInt32) : UInt32 := .ofNat (LittleEndian.swap 4 net32.toNat)

/-- `be16toh` on a little-endian host. -/
def networkToHost16 (net16 : UInt16) : UInt16 := .ofNat (LittleEndian.swap 2 net16.toNat)

theorem toNat_hostToNetwork64 (x : UInt64) :
    (hostToNetwork64 x).toNat = LittleEndian.swap 8 x.toNat :=
  UInt64.toNat_ofNat_of_lt (LittleEndian.swap_lt 8 _)

theorem toNat_hostToNetwork32 (x : UInt32) :
    (hostToNetwork32 x).toNat = LittleEndian.swap 4 x.toNat :=
  UInt32.toNat_ofNat_of_lt (LittleEndian.swap_lt 4 _)

theorem toNat_hostToNetwork16 (x : UInt16) :
    (hostToNetwork16 x).toNat = LittleEndian.swap 2 x.toNat :=
  UInt16.toNat_ofNat_of_lt (LittleEndian.swap_lt 2 _)

/-- The swap undoes a load of bytes in network order. -/
theorem networkToHost64_load (x : UInt64) :
    networkToHost64 (.ofNat (LittleEndian.ofBytes (BigEndian.toBytes 8 x.toNat))) = x := by
  rw [networkToHost64,
    UInt64.toNat_ofNat_of_lt' (LittleEndian.ofBytes_lt (BigEndian.length_toBytes 8 _)),
    LittleEndian.swap_ofBytes_toBytes x.toNat_lt, UInt64.ofNat_toNat]

theorem networkToHost32_load (x : UInt32) :
    networkToHost32 (.ofNat (LittleEndian.ofBytes (BigEndian.toBytes 4 x.toNat))) = x := by
  rw [networkToHost32,
    UInt32.toNat_ofNat_of_lt' (LittleEndian.ofBytes_lt (BigEndian.length_toBytes 4 _)),
    LittleEndian.swap_ofBytes_toBytes x.toNat_lt, UInt32.ofNat_toNat]

theorem networkToHost16_load (x : UInt16) :
    networkToHost16 (.ofNat (LittleEndian.ofBytes (BigEndian.toBytes 2 x.toNat))) = x := by
  rw [networkToHost16,
    UInt16.toNat_ofNat_of_lt' (LittleEndian.ofBytes_lt (BigEndian.length_toBytes 2 _)),
    LittleEndian.swap_ofBytes_toBytes x.toNat_lt, UInt16.ofNat_toNat]

end Endian

/-- The unsigned value of a signed bit pattern. -/
theorem toNat_eq_emod {w : ℕ} (x : BitVec w) : x.toNat = (x.toInt % 2 ^ w).toNat := by
  have hlt : (x.toNat : ℤ) < 2 ^ w := by
    exact_mod_cast x.isLt
  have hbmod := Int.bmod_emod (x := x.toNat) (m := 2 ^ w)
  push_cast at hbmod
  rw [BitVec.toInt_eq_toNat_bmod, hbmod, Int.emod_eq_of_lt (by omega) hlt, Int.toNat_natCast]

theorem hostToNetwork32_eq (x : Int32) :
    hostToNetwork32 x.toInt = LittleEndian.toBytes 4 (Endian.hostToNetwork32 x.toUInt32).toNat := by
  rw [Endian.toNat_hostToNetwork32, LittleEndian.toBytes_swap, hostToNetwork32]
  exact congrArg _ (toNat_eq_emod x.toBitVec).symm

end Reactor
