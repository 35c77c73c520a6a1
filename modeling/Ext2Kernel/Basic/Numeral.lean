import Mathlib.Data.Nat.Digits.Lemmas

set_option autoImplicit false

/-! # Numerals

A numeral is a list of digits, the most significant one first. The canonical numeral of a number
has no leading zero, except that of zero itself, which is the digit 0.
-/

namespace Numeral

/-- The digits `ds` are the canonical numeral of `n` to the base `r`. -/
structure IsNumeral (r : Nat) (ds : List Nat) (n : Nat) : Prop where
  nonempty : ds ≠ []
  lt : ∀ d ∈ ds, d < r
  value : Nat.ofDigits r ds.reverse = n
  head : ds.head? = some 0 → n = 0 ∧ ds = [0]

/-- The canonical numeral of `n` to the base `r`. -/
def numeral (r n : Nat) : List Nat := if n = 0 then [0] else (Nat.digits r n).reverse

section

variable {r n k : Nat}

theorem numeral_of_ne_zero (hn : n ≠ 0) : numeral r n = (Nat.digits r n).reverse := if_neg hn

theorem numeral_lt (hr : 1 < r) : ∀ d ∈ numeral r n, d < r := by
  intro d hd
  by_cases hn : n = 0
  · rw [hn] at hd
    have hzero : d = 0 := List.mem_singleton.mp hd
    omega
  · rw [numeral_of_ne_zero hn, List.mem_reverse] at hd
    exact Nat.digits_lt_base hr hd

theorem numeral_value : Nat.ofDigits r (numeral r n).reverse = n := by
  by_cases hn : n = 0
  · rw [hn]
    exact Nat.ofDigits_singleton
  · rw [numeral_of_ne_zero hn, List.reverse_reverse]
    exact Nat.ofDigits_digits r n

theorem isNumeral_numeral (hr : 1 < r) (n : Nat) : IsNumeral r (numeral r n) n := by
  refine ⟨?_, numeral_lt hr, numeral_value, fun hhead => ?_⟩
  · by_cases hn : n = 0
    · rw [hn]
      exact List.cons_ne_nil 0 []
    · rw [numeral_of_ne_zero hn]
      simpa [Nat.digits_eq_nil_iff_eq_zero] using hn
  · by_cases hn : n = 0
    · rw [hn]
      exact ⟨rfl, rfl⟩
    · rw [numeral_of_ne_zero hn, List.head?_reverse] at hhead
      have hlast := Nat.getLast_digit_ne_zero r hn
      rw [List.getLast?_eq_some_getLast (Nat.digits_ne_nil_iff_ne_zero.mpr hn)] at hhead
      exact absurd (Option.some.inj hhead) hlast

/-- A number below `r ^ k` takes at most `k` digits. -/
theorem numeral_length_le (hr : 1 < r) (hk : 0 < k) (hn : n < r ^ k) :
    (numeral r n).length ≤ k := by
  by_cases hzero : n = 0
  · rw [hzero]
    exact hk
  · rw [numeral_of_ne_zero hzero, List.length_reverse]
    exact (Nat.digits_length_le_iff hr n).mpr hn

/-- Zeros in front of a numeral do not change its value. -/
theorem ofDigits_padded (ds : List Nat) (k : Nat) :
    Nat.ofDigits r (List.replicate k 0 ++ ds).reverse = Nat.ofDigits r ds.reverse := by
  rw [List.reverse_append, List.reverse_replicate, Nat.ofDigits_append_replicate_zero]

end

end Numeral
