import Mathlib.Data.List.Induction
import Mathlib.Tactic.Ring

/-!
# Numbers as bytes

A natural number as a number of bytes, the most significant one first, and back; the same with the
least significant one first; and the change from one order to the other (`swap`).
-/

namespace BigEndian

/-- The last `k` bytes of a number. -/
def toBytes : ℕ → ℕ → List UInt8
  | 0, _ => []
  | k + 1, n => toBytes k (n / 256) ++ [UInt8.ofNat n]

/-- The number of a list of bytes. -/
def ofBytes (bytes : List UInt8) : ℕ := bytes.foldl (fun n x => 256 * n + x.toNat) 0

@[simp] theorem length_toBytes (k n : ℕ) : (toBytes k n).length = k := by
  induction k generalizing n with
  | zero => rfl
  | succ k ih => rw [toBytes, List.length_append, ih, List.length_singleton]

theorem ofBytes_concat (bytes : List UInt8) (x : UInt8) :
    ofBytes (bytes ++ [x]) = 256 * ofBytes bytes + x.toNat := by
  unfold ofBytes
  rw [List.foldl_append, List.foldl_cons, List.foldl_nil]

theorem ofBytes_toBytes (k n : ℕ) : ofBytes (toBytes k n) = n % 256 ^ k := by
  induction k generalizing n with
  | zero => rw [pow_zero, Nat.mod_one, toBytes, ofBytes, List.foldl_nil]
  | succ k ih =>
    rw [toBytes, ofBytes_concat, ih, pow_succ', Nat.mod_mul, UInt8.toNat_ofNat']
    ring

theorem ofBytes_lt (bytes : List UInt8) : ofBytes bytes < 256 ^ bytes.length := by
  induction bytes using List.reverseRecOn with
  | nil => simp [ofBytes]
  | append_singleton bytes x ih =>
    have hx := x.toNat_lt
    rw [ofBytes_concat, List.length_append, List.length_singleton, pow_succ']
    omega

theorem toBytes_ofBytes (bytes : List UInt8) : toBytes bytes.length (ofBytes bytes) = bytes := by
  induction bytes using List.reverseRecOn with
  | nil => rfl
  | append_singleton bytes x ih =>
    have hx := x.toNat_lt
    have hlast : UInt8.ofNat (256 * ofBytes bytes + x.toNat) = x := by
      apply UInt8.toNat_inj.1
      rw [UInt8.toNat_ofNat']
      omega
    rw [ofBytes_concat, List.length_append, List.length_singleton, toBytes, hlast,
      show (256 * ofBytes bytes + x.toNat) / 256 = ofBytes bytes by omega, ih]

end BigEndian

namespace LittleEndian

/-- The last `k` bytes of a number, the least significant one first. -/
def toBytes (k n : ℕ) : List UInt8 := (BigEndian.toBytes k n).reverse

/-- The number of a list of bytes, the least significant one first. -/
def ofBytes (bytes : List UInt8) : ℕ := BigEndian.ofBytes bytes.reverse

/-- A number of `k` bytes with its bytes in the opposite order. -/
def swap (k n : ℕ) : ℕ := BigEndian.ofBytes (toBytes k n)

@[simp] theorem length_toBytes (k n : ℕ) : (toBytes k n).length = k := by
  rw [toBytes, List.length_reverse, BigEndian.length_toBytes]

theorem swap_lt (k n : ℕ) : swap k n < 256 ^ k := by
  have h := BigEndian.ofBytes_lt (toBytes k n)
  rw [length_toBytes] at h
  exact h

theorem toBytes_swap (k n : ℕ) : toBytes k (swap k n) = BigEndian.toBytes k n := by
  have h := BigEndian.toBytes_ofBytes (toBytes k n)
  rw [length_toBytes] at h
  rw [toBytes, swap, h, toBytes, List.reverse_reverse]

theorem swap_ofBytes {k : ℕ} {bytes : List UInt8} (h : bytes.length = k) :
    swap k (ofBytes bytes) = BigEndian.ofBytes bytes := by
  have hbytes := BigEndian.toBytes_ofBytes bytes.reverse
  rw [List.length_reverse, h] at hbytes
  rw [swap, toBytes, ofBytes, hbytes, List.reverse_reverse]

theorem ofBytes_lt {k : ℕ} {bytes : List UInt8} (h : bytes.length = k) :
    ofBytes bytes < 256 ^ k := by
  have hlt := BigEndian.ofBytes_lt bytes.reverse
  rw [List.length_reverse, h] at hlt
  exact hlt

/-- A number that was written most significant byte first and is read least significant byte
first has to be swapped. -/
theorem swap_ofBytes_toBytes {k n : ℕ} (h : n < 256 ^ k) :
    swap k (ofBytes (BigEndian.toBytes k n)) = n := by
  rw [swap_ofBytes (BigEndian.length_toBytes k n), BigEndian.ofBytes_toBytes, Nat.mod_eq_of_lt h]

end LittleEndian
