import Ext2Kernel.Basic.CString

set_option autoImplicit false

/-! # The library of the user programs

The string functions of `ece391support.c` on the memory of a program. A loop over a string has a
bound on its rounds and the result `none` while it is still running.
-/

namespace Ext2Kernel

namespace Programs

open ByteMem

/-- The size of the buffers of the programs. -/
def BUFSIZE : Nat := 1024

/-! ## The functions -/

def ece391Strlen (rounds : Nat) (m : Mem) (s : Nat) : Option Nat :=
  scanWhile (fun b => decide (b ≠ 0)) (fun i => m (s + i)) rounds 0

/-- `while ('\\0' != (*dst++ = *src++))`. -/
def ece391Strcpy : Nat → Mem → Nat → Nat → Option Mem
  | 0, _, _, _ => none
  | rounds + 1, m, dst, src =>
      let m' := Function.update m dst (m src)
      if m src ≠ 0 then ece391Strcpy rounds m' (dst + 1) (src + 1) else some m'

/-- `ece391_fdputs`: the bytes that it hands to `ece391_write`. -/
def ece391Fdputs (rounds : Nat) (m : Mem) (s : Nat) : Option (List UInt8) :=
  (ece391Strlen rounds m s).map fun n => (List.range n).map fun i => m (s + i)

def ece391Strcmp : Nat → Mem → Nat → Mem → Nat → Option Int
  | 0, _, _, _, _ => none
  | rounds + 1, m₁, s₁, m₂, s₂ =>
      if m₁ s₁ = m₂ s₂ then
        if m₁ s₁ = 0 then some 0 else ece391Strcmp rounds m₁ (s₁ + 1) m₂ (s₂ + 1)
      else some ((m₁ s₁).toNat - (m₂ s₂).toNat)

/-- `ece391_strncmp`; the decrement of `n` and the test for its end are the recursion. -/
def ece391Strncmp (m₁ : Mem) (s₁ : Nat) (m₂ : Mem) (s₂ : Nat) : Nat → Int
  | 0 => 0
  | n + 1 =>
      if m₁ s₁ = m₂ s₂ then
        if m₁ s₁ = 0 then 0 else ece391Strncmp m₁ (s₁ + 1) m₂ (s₂ + 1) n
      else (m₁ s₁).toNat - (m₂ s₂).toNat

/-! ## What they do to strings -/

section

variable {m : Mem} {a rounds : Nat} {l : List UInt8}

theorem ece391Strlen_eq (h : IsString m a l) (hr : l.length < rounds) :
    ece391Strlen rounds m a = some l.length :=
  h.scanWhile (Nat.zero_le _) hr

theorem ece391Fdputs_eq (h : IsString m a l) (hr : l.length < rounds) :
    ece391Fdputs rounds m a = some l := by
  unfold ece391Fdputs
  rw [ece391Strlen_eq h hr, Option.map_some, h.map_range]

/-- A byte in front of a block. -/
theorem overlay_cons (m : Mem) (a n : Nat) (b : UInt8) (l : List UInt8) :
    overlay (Function.update m a b) (a + 1) n (ofList l)
      = overlay m a (n + 1) (ofList (b :: l)) := by
  funext x
  by_cases hin : a + 1 ≤ x ∧ x < a + 1 + n
  · obtain ⟨i, rfl⟩ : ∃ i, x = a + (i + 1) := ⟨x - a - 1, by omega⟩
    rw [overlay_in _ _ hin.1 hin.2, overlay_add _ _ (by omega)]
    have hplace : a + (i + 1) - (a + 1) = i := by omega
    rw [hplace]
    rfl
  · rw [overlay_out _ _ (by omega)]
    by_cases hx : x = a
    · rw [hx, Function.update_self, overlay_in _ _ (Nat.le_refl a) (by omega), Nat.sub_self]
      rfl
    · rw [Function.update_of_ne hx, overlay_out _ _ (by omega)]

/-- **`ece391_strcpy`** copies a string downwards, also over itself. -/
theorem ece391Strcpy_eq {dst src : Nat} (h : IsString m src l) (hdst : dst ≤ src)
    (hr : l.length < rounds) :
    ece391Strcpy rounds m dst src = some (overlay m dst (l.length + 1) (ofList l)) := by
  induction l generalizing m dst src rounds with
  | nil =>
      obtain ⟨rounds, rfl⟩ : ∃ n, rounds = n + 1 := ⟨rounds - 1, by omega⟩
      have hnul : m src = 0 := h.nul
      unfold ece391Strcpy
      rw [hnul, if_neg (not_not.mpr rfl)]
      have hone := overlay_cons m dst 0 0 []
      rw [overlay_zero, ← List.nil_append [(0 : UInt8)], ofList_append_nul] at hone
      exact congrArg some hone
  | cons b l ih =>
      obtain ⟨rounds, rfl⟩ : ∃ n, rounds = n + 1 := ⟨rounds - 1, by omega⟩
      have hb : m src = b := h.bytes 0 (Nat.zero_le _)
      have hne : b ≠ 0 := h.nonzero b List.mem_cons_self
      have htail : IsString (Function.update m dst b) (src + 1) l := by
        apply h.tail.congr
        intro i _
        exact Function.update_of_ne (by omega) ..
      rw [List.length_cons] at hr
      unfold ece391Strcpy
      rw [hb, if_pos hne, ih htail (by omega) (by omega), overlay_cons]
      rfl

theorem toNat_sub_ne_zero {b c : UInt8} (h : b ≠ c) : (b.toNat : Int) - c.toNat ≠ 0 := by
  intro hzero
  have hval : b.toNat = c.toNat := by omega
  exact h (UInt8.toNat_inj.mp hval)

/-- **`ece391_strcmp`** tells whether two strings are equal. -/
theorem ece391Strcmp_spec {m₂ : Mem} {s₁ s₂ : Nat} {l₂ : List UInt8} (h : IsString m s₁ l)
    (h₂ : IsString m₂ s₂ l₂) (hr : l.length < rounds) :
    ∃ v, ece391Strcmp rounds m s₁ m₂ s₂ = some v ∧ (v = 0 ↔ l = l₂) := by
  induction l generalizing l₂ s₁ s₂ rounds with
  | nil =>
      obtain ⟨rounds, rfl⟩ : ∃ n, rounds = n + 1 := ⟨rounds - 1, by omega⟩
      have hnul : m s₁ = 0 := h.nul
      unfold ece391Strcmp
      rw [hnul]
      cases l₂ with
      | nil =>
          have hnul₂ : m₂ s₂ = 0 := h₂.nul
          rw [hnul₂, if_pos rfl, if_pos rfl]
          exact ⟨0, rfl, iff_of_true rfl rfl⟩
      | cons c l₂ =>
          have hne : m₂ s₂ ≠ 0 := h₂.byte_ne (Nat.succ_pos _)
          rw [if_neg hne.symm]
          exact ⟨_, rfl, iff_of_false (toNat_sub_ne_zero hne.symm) (List.cons_ne_nil c l₂).symm⟩
  | cons b l ih =>
      obtain ⟨rounds, rfl⟩ : ∃ n, rounds = n + 1 := ⟨rounds - 1, by omega⟩
      have hb : m s₁ = b := h.bytes 0 (Nat.zero_le _)
      have hne : b ≠ 0 := h.nonzero b List.mem_cons_self
      rw [List.length_cons] at hr
      unfold ece391Strcmp
      rw [hb]
      cases l₂ with
      | nil =>
          have hnul₂ : m₂ s₂ = 0 := h₂.nul
          rw [hnul₂, if_neg hne]
          exact ⟨_, rfl, iff_of_false (toNat_sub_ne_zero hne) (List.cons_ne_nil b l)⟩
      | cons c l₂ =>
          have hc : m₂ s₂ = c := h₂.bytes 0 (Nat.zero_le _)
          rw [hc]
          by_cases heq : b = c
          · subst heq
            have hrest : l.length < rounds := Nat.lt_of_succ_lt_succ hr
            obtain ⟨v, hv, hiff⟩ := ih h.tail h₂.tail hrest
            rw [if_pos rfl, if_neg hne]
            exact ⟨v, hv, hiff.trans (List.cons_inj_right b).symm⟩
          · rw [if_neg heq]
            exact ⟨_, rfl, iff_of_false (toNat_sub_ne_zero heq)
              fun h => heq (List.cons_eq_cons.mp h).1⟩

/-- **`ece391_strncmp`** with the whole length of a string finds it equal exactly if its bytes
are there. -/
theorem ece391Strncmp_eq_zero_iff {m₂ : Mem} {s₁ s₂ : Nat} (h : IsString m₂ s₂ l) :
    ece391Strncmp m s₁ m₂ s₂ l.length = 0 ↔ ∀ i < l.length, m (s₁ + i) = ofList l i := by
  induction l generalizing s₁ s₂ with
  | nil =>
      constructor
      · intro _ i hi
        exact absurd hi (Nat.not_lt_zero i)
      · intro _
        rfl
  | cons b l ih =>
      have hb : m₂ s₂ = b := h.bytes 0 (Nat.zero_le _)
      have hne : b ≠ 0 := h.nonzero b List.mem_cons_self
      rw [List.length_cons]
      unfold ece391Strncmp
      rw [hb]
      by_cases heq : m s₁ = b
      · rw [if_pos heq, if_neg (by rw [heq]; exact hne), ih h.tail]
        constructor
        · intro hrest i hi
          cases i with
          | zero => exact heq
          | succ i =>
              rw [Nat.add_comm i 1, ← Nat.add_assoc, Nat.add_comm 1 i]
              exact hrest i (Nat.lt_of_succ_lt_succ hi)
        · intro hall i hi
          rw [Nat.add_assoc, Nat.add_comm 1 i]
          exact hall (i + 1) (Nat.succ_lt_succ hi)
      · rw [if_neg heq]
        constructor
        · intro hzero
          exact absurd hzero (toNat_sub_ne_zero heq)
        · intro hall
          exact absurd (hall 0 (Nat.succ_pos _)) heq

end

end Programs

end Ext2Kernel
