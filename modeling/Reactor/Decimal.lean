import Reactor.Base

/-!
# Numbers in text

`snprintf` writes a number in decimal digits, and a reader of the text computes its value again
(`ofDecimal_decimal`).
-/

namespace Reactor

/-- `%d` and `%u` of a number that is not negative. -/
def decimal (n : ℕ) : Bytes := (Nat.toDigits 10 n).map fun c => UInt8.ofNat c.toNat

/-- `isdigit` -/
def isdigit (b : Byte) : Bool := 48 ≤ b ∧ b ≤ 57

/-- The value of a string of digits. -/
def ofDecimal (digits : Bytes) : ℕ := digits.foldl (fun n b => 10 * n + (b.toNat - 48)) 0

/-- What `snprintf` leaves in a buffer of `size` bytes, the terminating NUL apart. -/
def snprintf (size : ℕ) (text : Bytes) : Bytes := text.take (size - 1)

theorem toNat_of_mem_toDigits {n : ℕ} {c : Char} (h : c ∈ Nat.toDigits 10 n) :
    (UInt8.ofNat c.toNat).toNat = c.toNat := by
  have hdigit := Nat.isDigit_of_mem_toDigits (by decide) (by decide) h
  have hle := (Char.isDigit_iff_toNat.1 hdigit).2
  exact UInt8.toNat_ofNat_of_lt' (Nat.lt_of_le_of_lt hle (by decide))

theorem ofDecimal_decimal (n : ℕ) : ofDecimal (decimal n) = n := by
  have hdigits : ∀ (l : List Char) (init : ℕ), (∀ c ∈ l, (UInt8.ofNat c.toNat).toNat = c.toNat) →
      (l.map fun c => UInt8.ofNat c.toNat).foldl (fun n b => 10 * n + (b.toNat - 48)) init =
        Nat.ofDigitChars 10 l init := by
    intro l
    induction l with
    | nil =>
      intro init _
      rw [Nat.ofDigitChars_nil]
      rfl
    | cons c l ih =>
      intro init h
      rw [List.map_cons, List.foldl_cons, h c List.mem_cons_self,
        ih _ fun c' hc' => h c' (List.mem_cons_of_mem c hc'), Nat.ofDigitChars_cons]
      rfl
  rw [ofDecimal, decimal, hdigits _ 0 fun c hc => toNat_of_mem_toDigits hc,
    Nat.ofDigitChars_ten_toDigits]

theorem decimal_injective : Function.Injective decimal :=
  Function.LeftInverse.injective ofDecimal_decimal

theorem digit_of_mem_decimal {n : ℕ} {b : Byte} (h : b ∈ decimal n) : 48 ≤ b ∧ b ≤ 57 := by
  obtain ⟨c, hc, rfl⟩ := List.mem_map.1 h
  have hdigit := Nat.isDigit_of_mem_toDigits (by decide) (by decide) hc
  have hrange := Char.isDigit_iff_toNat.1 hdigit
  rw [UInt8.le_iff_toNat_le, UInt8.le_iff_toNat_le, toNat_of_mem_toDigits hc]
  exact hrange

theorem decimal_ne_nil (n : ℕ) : decimal n ≠ [] := by
  rw [decimal, Ne, List.map_eq_nil_iff]
  exact Nat.toDigits_ne_nil

theorem length_decimal_le {n k : ℕ} (hk : 0 < k) (h : n < 10 ^ k) : (decimal n).length ≤ k := by
  rw [decimal, List.length_map]
  exact (Nat.length_toDigits_le_iff (by decide) hk).2 h

end Reactor
