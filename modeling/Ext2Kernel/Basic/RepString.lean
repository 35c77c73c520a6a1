import Ext2Kernel.Basic.ByteMem
import Mathlib.Algebra.Ring.Nat
import Mathlib.Logic.Function.Iterate

set_option autoImplicit false

/-! # String instructions

The repeated string instructions of the processor, `rep stos` and `rep movs`, on a memory with
32-bit addresses. One instruction stores or copies a cell of `w` bytes and moves its pointers up
or down by `w`; the `rep` prefix is the iterate. `stos_iterate`, `movs_iterate_up` and
`movs_iterate_down` give the block that a repetition leaves. A copy reads what it has written
itself when the two blocks overlap, so that each direction is right on one side only.
-/

namespace RepString

open ByteMem

/-- The number of addresses. -/
abbrev top : Nat := 4294967296

/-! ## Blocks next to each other -/

/-- Two blocks, the second right behind the first. -/
theorem overlay_append (m : Mem) (a n k : Nat) (f : Mem) :
    overlay (overlay m a n f) (a + n) k (fun i => f (n + i)) = overlay m a (n + k) f := by
  funext x
  by_cases hx : a ≤ x ∧ x < a + (n + k)
  · rw [overlay_in m f hx.1 hx.2]
    by_cases hback : a + n ≤ x
    · rw [overlay_in _ _ hback (by omega)]
      exact congrArg f (by omega)
    · rw [overlay_out _ _ (by omega), overlay_in m f hx.1 (by omega)]
  · rw [overlay_out m f (by omega), overlay_out _ _ (by omega), overlay_out _ _ (by omega)]

/-- Two blocks, the second right before the first. -/
theorem overlay_prepend (m : Mem) (a n k : Nat) (f : Mem) :
    overlay (overlay m (a + k) n (fun i => f (k + i))) a k f = overlay m a (k + n) f := by
  funext x
  by_cases hx : a ≤ x ∧ x < a + (k + n)
  · rw [overlay_in m f hx.1 hx.2]
    by_cases hfront : x < a + k
    · rw [overlay_in _ _ hx.1 hfront]
    · rw [overlay_out _ _ (by omega), overlay_in _ _ (by omega) (by omega)]
      exact congrArg f (by omega)
  · rw [overlay_out m f (by omega), overlay_out _ _ (by omega), overlay_out _ _ (by omega)]

/-- A block depends on its own bytes only. -/
theorem overlay_congr (m : Mem) (a : Nat) {n : Nat} {f g : Mem} (h : ∀ i < n, f i = g i) :
    overlay m a n f = overlay m a n g := by
  funext x
  by_cases hx : a ≤ x ∧ x < a + n
  · rw [overlay_in m f hx.1 hx.2, overlay_in m g hx.1 hx.2, h _ (by omega)]
  · rw [overlay_out m f (by omega), overlay_out m g (by omega)]

/-! ## The instructions -/

/-- The memory and the two pointers. -/
structure Regs where
  mem : Mem
  esi : Nat
  edi : Nat

/-- Byte `i` of a register, the lowest first. -/
def byteOf (eax i : Nat) : UInt8 := UInt8.ofNat (eax / 256 ^ i)

/-- Move a pointer by `w` bytes: down when the direction flag is set. -/
def advance (df : Bool) (w a : Nat) : Nat := if df then (a + top - w) % top else (a + w) % top

/-- The address before `a`. -/
def below (a : Nat) : Nat := (a + top - 1) % top

/-- `stos`: store the low `w` bytes of `eax`. -/
def stos (df : Bool) (w eax : Nat) (r : Regs) : Regs :=
  { r with mem := overlay r.mem r.edi w (byteOf eax), edi := advance df w r.edi }

/-- `movs`: copy `w` bytes, read before they are stored. -/
def movs (df : Bool) (w : Nat) (r : Regs) : Regs where
  mem := overlay r.mem r.edi w fun i => r.mem (r.esi + i)
  esi := advance df w r.esi
  edi := advance df w r.edi

/-! ## Repetitions -/

section

variable {m : Mem} {src dst n w : Nat}

/-- **`rep stos`** fills a block with copies of the cell. -/
theorem stos_iterate (eax : Nat) (hw : 0 < w) (hdst : dst < top) (h : dst + n * w ≤ top) :
    (stos false w eax)^[n] ⟨m, src, dst⟩ =
      { mem := overlay m dst (n * w) fun i => byteOf eax (i % w)
        esi := src
        edi := (dst + n * w) % top } := by
  induction n with
  | zero =>
      rw [Nat.zero_mul, overlay_zero, Nat.add_zero, Nat.mod_eq_of_lt hdst]
      rfl
  | succ n ih =>
      rw [Nat.succ_mul] at h
      have hplace : (dst + n * w) % top = dst + n * w := Nat.mod_eq_of_lt (by omega)
      have hcell : overlay (overlay m dst (n * w) fun i => byteOf eax (i % w))
          (dst + n * w) w (byteOf eax)
          = overlay m dst (n * w + w) fun i => byteOf eax (i % w) := by
        rw [← overlay_append]
        refine overlay_congr _ _ fun i hi => ?_
        rw [Nat.mul_comm, Nat.mul_add_mod, Nat.mod_eq_of_lt hi]
      rw [Function.iterate_succ_apply', ih (by omega), hplace, Nat.succ_mul]
      unfold stos advance
      rw [hcell, if_neg Bool.false_ne_true, Nat.add_assoc]

/-- **`rep movs` upwards** copies a block that does not begin below its destination, or ends
before it. -/
theorem movs_iterate_up (hw : 0 < w) (hdst : dst < top) (hsrc : src < top)
    (hdstEnd : dst + n * w ≤ top) (hsrcEnd : src + n * w ≤ top)
    (hside : dst ≤ src ∨ src + n * w ≤ dst) :
    (movs false w)^[n] ⟨m, src, dst⟩ =
      { mem := overlay m dst (n * w) fun i => m (src + i)
        esi := (src + n * w) % top
        edi := (dst + n * w) % top } := by
  induction n with
  | zero =>
      rw [Nat.zero_mul, overlay_zero, Nat.add_zero, Nat.add_zero, Nat.mod_eq_of_lt hdst,
        Nat.mod_eq_of_lt hsrc]
      rfl
  | succ n ih =>
      rw [Nat.succ_mul] at hdstEnd hsrcEnd hside
      have hd : (dst + n * w) % top = dst + n * w := Nat.mod_eq_of_lt (by omega)
      have hs : (src + n * w) % top = src + n * w := Nat.mod_eq_of_lt (by omega)
      -- the cell that is read next has not been written yet
      have hcell : overlay (overlay m dst (n * w) fun i => m (src + i)) (dst + n * w) w
          (fun i => overlay m dst (n * w) (fun i => m (src + i)) (src + n * w + i))
          = overlay m dst (n * w + w) fun i => m (src + i) := by
        rw [← overlay_append]
        refine overlay_congr _ _ fun i hi => ?_
        rw [overlay_out _ _ (by omega), Nat.add_assoc]
      rw [Function.iterate_succ_apply', ih (by omega) (by omega) (by omega), hd, hs,
        Nat.succ_mul]
      unfold movs advance
      rw [hcell, if_neg Bool.false_ne_true, if_neg Bool.false_ne_true, Nat.add_assoc,
        Nat.add_assoc]

theorem advance_down (a : Nat) : advance true 1 a = below a := if_pos rfl

theorem below_succ {a : Nat} (h : a < top) : below (a + 1) = a := by
  have hsum : a + 1 + top - 1 = a + top := by omega
  unfold below
  rw [hsum, Nat.add_mod_right, Nat.mod_eq_of_lt h]

/-- **`rep movsb` downwards**, with the pointers on the last bytes of the two blocks, copies a
block that does not begin above its destination, or ends before it. -/
theorem movs_iterate_down (hdst : dst + n ≤ top)
    (hsrc : src + n ≤ top) (hside : src ≤ dst ∨ dst + n ≤ src) :
    (movs true 1)^[n] ⟨m, below (src + n), below (dst + n)⟩ =
      { mem := overlay m dst n fun i => m (src + i)
        esi := below src
        edi := below dst } := by
  induction n generalizing src dst with
  | zero =>
      rw [overlay_zero]
      rfl
  | succ n ih =>
      -- all but the first byte of the block have been copied
      have hrest := @ih (src + 1) (dst + 1) (by omega) (by omega) (by omega)
      rw [Nat.add_assoc, Nat.add_assoc, Nat.add_comm 1 n] at hrest
      rw [Function.iterate_succ_apply', hrest, below_succ (by omega), below_succ (by omega)]
      have hbyte : overlay (overlay m (dst + 1) n fun i => m (src + 1 + i)) dst 1
          (fun i => overlay m (dst + 1) n (fun i => m (src + 1 + i)) (src + i))
          = overlay m dst (n + 1) fun i => m (src + i) := by
        rw [Nat.add_comm n 1, ← overlay_prepend]
        have hread : ∀ i < 1, overlay m (dst + 1) n (fun i => m (src + 1 + i)) (src + i)
            = m (src + i) := by
          intro i hi
          exact overlay_out _ _ (by omega)
        rw [overlay_congr _ _ hread]
        simp only [Nat.add_assoc]
      unfold movs
      rw [hbyte, advance_down, advance_down]

end

end RepString
