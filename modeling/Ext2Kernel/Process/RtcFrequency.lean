import Ext2Kernel.Process.DescriptorCalls

set_option autoImplicit false

/-! # RTC frequencies

`_sys_write_rtc` passes the frequency to `power_of_two` before it looks at the sign. The loop
of `power_of_two` is left at 1 or when the remainder of a division by 2 is 1. C's division
truncates: the remainder of an odd negative number is -1, and the halves of a negative number
end at 0, which is its own half. So the loop never ends for a negative frequency
(`powerOfTwoLoop_neg`), and the call is right for every other one.
-/

namespace Ext2Kernel

open ByteMem

/-! ## The loop of `power_of_two` -/

/-- The loop of `power_of_two` comes to an end. -/
def PowerOfTwoEnds (num : Int) : Prop := num = 0 ∨ ∃ fuel, powerOfTwoLoop fuel num ≠ none

/-- No number of rounds is enough for a number that is not positive. -/
theorem powerOfTwoLoop_neg {num : Int} (h : num ≤ 0) (fuel : Nat) :
    powerOfTwoLoop fuel num = none := by
  induction fuel generalizing num with
  | zero => rfl
  | succ fuel ih =>
      have hrem : num.tmod 2 ≤ 0 := by
        have hneg : num.tmod 2 = -((-num).tmod 2) := by rw [Int.neg_tmod, Int.neg_neg]
        have hpos : 0 ≤ (-num).tmod 2 := Int.tmod_nonneg 2 (by omega)
        omega
      have hhalf : num.tdiv 2 ≤ 0 := by
        have hneg : num.tdiv 2 = -((-num).tdiv 2) := by rw [Int.neg_tdiv, Int.neg_neg]
        have hpos : 0 ≤ (-num).tdiv 2 := Int.tdiv_nonneg (by omega) (by omega)
        omega
      unfold powerOfTwoLoop
      rw [if_neg (by omega), if_neg (by omega)]
      exact ih hhalf

/-- A positive number below `2 ^ fuel` is decided in `fuel` rounds. -/
theorem powerOfTwoLoop_ends {num : Int} {fuel : Nat} (hpos : 0 < num)
    (hlt : num < ((2 ^ fuel : Nat) : Int)) :
    powerOfTwoLoop fuel num = some 0 ∨ powerOfTwoLoop fuel num = some 1 := by
  induction fuel generalizing num with
  | zero =>
      rw [Nat.pow_zero] at hlt
      omega
  | succ fuel ih =>
      rw [Nat.pow_succ] at hlt
      unfold powerOfTwoLoop
      by_cases hone : num = 1
      · rw [if_pos hone]
        exact Or.inl rfl
      · rw [if_neg hone]
        by_cases hodd : num.tmod 2 = 1
        · rw [if_pos hodd]
          exact Or.inr rfl
        · rw [if_neg hodd, Int.tdiv_eq_ediv_of_nonneg (by omega)]
          exact ih (by omega) (by omega)

/-- A power of two is accepted, whenever the loop ends. -/
theorem powerOfTwoLoop_accepts {i fuel : Nat} {r : Int}
    (h : powerOfTwoLoop fuel ((2 ^ i : Nat) : Int) = some r) : r = 0 := by
  induction i generalizing fuel with
  | zero =>
      cases fuel with
      | zero => cases h
      | succ fuel => exact (Option.some.inj h).symm
  | succ i ih =>
      cases fuel with
      | zero => cases h
      | succ fuel =>
          have hpos : 0 < 2 ^ i := Nat.pos_of_ne_zero (by simp)
          have hdouble : ((2 ^ (i + 1) : Nat) : Int) = 2 * ((2 ^ i : Nat) : Int) := by
            rw [Nat.pow_succ, Int.natCast_mul]
            omega
          unfold powerOfTwoLoop at h
          rw [hdouble, if_neg (by omega), Int.tmod_eq_emod_of_nonneg (by omega),
            if_neg (by omega), Int.tdiv_eq_ediv_of_nonneg (by omega),
            Int.mul_ediv_cancel_left _ (by decide)] at h
          exact ih h

/-- A positive power of two. -/
def IsPowerOfTwo (num : Int) : Prop := ∃ i : Nat, num = ((2 ^ i : Nat) : Int)

theorem IsPowerOfTwo.pos {num : Int} (h : IsPowerOfTwo num) : 0 < num := by
  obtain ⟨i, rfl⟩ := h
  have hpos : 0 < 2 ^ i := Nat.pos_of_ne_zero (by simp)
  omega

/-- **`power_of_two`** on the numbers its loop ends for. -/
theorem powerOfTwo_spec {num : Int} (hnonneg : 0 ≤ num) (hlt : num < 2147483648) :
    (powerOfTwo num = some 0 ∧ IsPowerOfTwo num) ∨
      (powerOfTwo num = some 1 ∧ ¬ IsPowerOfTwo num) := by
  unfold powerOfTwo
  by_cases hz : num = 0
  · rw [if_pos hz]
    exact Or.inr ⟨rfl, fun h => by have := h.pos; omega⟩
  · have hbound : (2147483648 : Int) ≤ ((2 ^ 33 : Nat) : Int) := by decide
    rw [if_neg hz]
    rcases powerOfTwoLoop_ends (by omega) (show num < ((2 ^ 33 : Nat) : Int) by omega) with h | h
    · exact Or.inl ⟨h, Kernel.powerOfTwoLoop_pow (by omega) h⟩
    · refine Or.inr ⟨h, ?_⟩
      rintro ⟨i, rfl⟩
      cases powerOfTwoLoop_accepts h

/-! ## `_sys_write_rtc` -/

namespace Kernel

/-- What writing the frequency in `m` should do to the running process `p`: the call ends; for
a power of two it returns 0 and sets both fields to the quotient of the highest frequency, and
for any other number it returns -1 and changes nothing. -/
structure SetsFrequency (k : Kernel) (p : Slot) (m : Mem) : Prop where
  ends : PowerOfTwoEnds (asInt32 (word m 0))
  power : IsPowerOfTwo (asInt32 (word m 0)) →
    0 < min (asInt32 (word m 0)) MAX_INTERRUPT_FREQUENCY ∧
    ∃ count : Nat, (count : Int)
        = MAX_INTERRUPT_FREQUENCY / min (asInt32 (word m 0)) MAX_INTERRUPT_FREQUENCY ∧
      k.sysWriteRtc (some m) 4 = some (0, k.modifyPcb p fun b =>
        { b with rtcInterruptDivider := count, rtcCounter := count })
  other : ¬ IsPowerOfTwo (asInt32 (word m 0)) → k.sysWriteRtc (some m) 4 = some (-1, k)

/-- **The frequencies `_sys_write_rtc` is right for** are those that are not negative. -/
theorem setsFrequency_iff {k : Kernel} {p : Slot} (hp : k.cur = some p) (m : Mem) :
    k.SetsFrequency p m ↔ 0 ≤ asInt32 (word m 0) := by
  have hlt : asInt32 (word m 0) < 2147483648 := by
    unfold asInt32
    split <;> omega
  generalize hf : asInt32 (word m 0) = frequency at *
  constructor
  · intro h
    by_contra hneg
    rcases hf ▸ h.ends with hz | ⟨fuel, hfuel⟩
    · omega
    · exact hfuel (powerOfTwoLoop_neg (by omega) fuel)
  · intro hnonneg
    have hspec := powerOfTwo_spec hnonneg hlt
    refine ⟨?_, fun hpow => ?_, fun hpow => ?_⟩
    · rw [hf]
      by_cases hz : frequency = 0
      · exact Or.inl hz
      · refine Or.inr ⟨33, fun h => ?_⟩
        unfold powerOfTwo at hspec
        rw [if_neg hz, h] at hspec
        rcases hspec with ⟨h, _⟩ | ⟨h, _⟩ <;> cases h
    · rw [hf] at hpow ⊢
      have hpos := hpow.pos
      have hmin : 0 < min frequency MAX_INTERRUPT_FREQUENCY := by
        unfold MAX_INTERRUPT_FREQUENCY
        omega
      have hquot : 0 ≤ MAX_INTERRUPT_FREQUENCY / min frequency MAX_INTERRUPT_FREQUENCY :=
        Int.ediv_nonneg (by decide) (Int.le_of_lt hmin)
      refine ⟨hmin, _, Int.toNat_of_nonneg hquot, ?_⟩
      rcases hspec with ⟨h, _⟩ | ⟨_, hnot⟩
      · unfold sysWriteRtc
        dsimp only
        rw [if_neg (by decide), hf, h, Option.bind_some, if_neg (by omega)]
        unfold modifyCur
        rw [hp]
        rfl
      · exact absurd hpow hnot
    · rw [hf] at hpow
      rcases hspec with ⟨_, hyes⟩ | ⟨h, _⟩
      · exact absurd hyes hpow
      · unfold sysWriteRtc
        dsimp only
        rw [if_neg (by decide), hf, h, Option.bind_some, if_pos (Or.inl (by decide))]

theorem setsFrequency_iff_sample : ∃ k, Reachable sampleImage k ∧ k.cur = some 0 ∧
    ∀ m, k.SetsFrequency 0 m ↔ 0 ≤ asInt32 (word m 0) := by
  obtain ⟨k, hreach, hcur, _⟩ := sampleImage_new_shell
  exact ⟨k, hreach, hcur, setsFrequency_iff hcur⟩

/-- The frequency -1: the loop runs forever. -/
theorem negative_frequency : ¬ ∀ (fs : FileSys) (k : Kernel) (p : Slot) (m : Mem),
    Reachable fs k → k.cur = some p → k.SetsFrequency p m := by
  intro hall
  obtain ⟨k, hreach, hcur, _⟩ := sampleImage_new_shell
  have hsets := hall sampleImage k 0 (fun _ => 255) hreach hcur
  have hneg : asInt32 (word (fun _ => 255) 0) = -1 := by decide
  rcases hneg ▸ hsets.ends with hz | ⟨fuel, hfuel⟩
  · cases hz
  · exact hfuel (powerOfTwoLoop_neg (by decide) fuel)

end Kernel

end Ext2Kernel
