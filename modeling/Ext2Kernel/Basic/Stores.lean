import Ext2Kernel.Basic.ByteMem
import Mathlib.Logic.Function.Basic

set_option autoImplicit false

/-! # Byte stores

A routine that fills a buffer stores one byte after the other, at addresses `loc 0`, `loc 1`
and so on. `storeBytes` is the memory after `n` such stores. Addresses that are pairwise
different hold what was stored at them, and no other address has changed.
-/

namespace ByteMem

/-- Store `f 0`, …, `f (n - 1)` at the addresses `loc 0`, …, `loc (n - 1)`, in this order. -/
def storeBytes (m : Mem) (loc : Nat → Nat) (f : Nat → UInt8) : Nat → Mem
  | 0 => m
  | n + 1 => Function.update (storeBytes m loc f n) (loc n) (f n)

/-- Other addresses keep their bytes. -/
theorem storeBytes_out (m : Mem) (loc : Nat → Nat) (f : Nat → UInt8) {n x : Nat}
    (h : ∀ k < n, loc k ≠ x) : storeBytes m loc f n x = m x := by
  induction n with
  | zero => rfl
  | succ n ih =>
      show Function.update (storeBytes m loc f n) (loc n) (f n) x = m x
      rw [Function.update_of_ne (Ne.symm (h n (Nat.lt_succ_self n)))]
      exact ih fun k hk => h k (Nat.lt_succ_of_lt hk)

/-- What was stored is there, as long as no address occurs twice. -/
theorem storeBytes_in (m : Mem) (loc : Nat → Nat) (f : Nat → UInt8) {n k : Nat} (hk : k < n)
    (hinj : ∀ j < n, loc j = loc k → j = k) : storeBytes m loc f n (loc k) = f k := by
  induction n with
  | zero => omega
  | succ n ih =>
      show Function.update (storeBytes m loc f n) (loc n) (f n) (loc k) = f k
      by_cases heq : loc n = loc k
      · rw [hinj n (Nat.lt_succ_self n) heq, Function.update_self]
      · have hlt : k < n := by
          have hne : k ≠ n := fun h => heq (by rw [h])
          omega
        rw [Function.update_of_ne (Ne.symm heq)]
        exact ih hlt fun j hj => hinj j (Nat.lt_succ_of_lt hj)

theorem storeBytes_congr (m : Mem) (loc : Nat → Nat) {f g : Nat → UInt8} {n : Nat}
    (h : ∀ k < n, f k = g k) : storeBytes m loc f n = storeBytes m loc g n := by
  induction n with
  | zero => rfl
  | succ n ih =>
      show Function.update (storeBytes m loc f n) (loc n) (f n) = _
      rw [ih fun k hk => h k (Nat.lt_succ_of_lt hk), h n (Nat.lt_succ_self n)]
      rfl

/-- Filling a buffer once more replaces what the first stores left there. -/
theorem storeBytes_storeBytes (m : Mem) (loc : Nat → Nat) (f g : Nat → UInt8) {n k : Nat}
    (hk : k ≤ n) (hinj : ∀ i < n, ∀ j < n, loc i = loc j → i = j) :
    storeBytes (storeBytes m loc f n) loc g k
      = storeBytes m loc (fun i => if i < k then g i else f i) n := by
  funext x
  by_cases hx : ∃ i, i < n ∧ loc i = x
  · obtain ⟨i, hi, rfl⟩ := hx
    rw [storeBytes_in m loc _ hi fun j hj => hinj j hj i hi]
    by_cases hik : i < k
    · rw [if_pos hik]
      exact storeBytes_in _ loc g hik fun j hj => hinj j (by omega) i hi
    · rw [if_neg hik, storeBytes_out _ loc g fun j hj h => hik (by
        have := hinj j (by omega) i hi h
        omega)]
      exact storeBytes_in m loc f hi fun j hj => hinj j hj i hi
  · have hout : ∀ i < n, loc i ≠ x := fun i hi h => hx ⟨i, hi, h⟩
    rw [storeBytes_out m loc _ hout, storeBytes_out _ loc g fun i hi => hout i (by omega),
      storeBytes_out m loc f hout]

end ByteMem
