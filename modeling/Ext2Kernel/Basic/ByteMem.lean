import Mathlib.Data.List.Basic
import Mathlib.Tactic.Common

set_option autoImplicit false

/-! # Byte memories

A memory is a function from addresses to bytes. `overlay` is the effect of every block
store (`memset`, `memcpy`): the bytes of an interval are replaced. Strings and buffers that
are passed by pointer are lists, read through `ofList`, which continues a list with NUL
bytes.
-/

namespace ByteMem

abbrev Mem := Nat → UInt8

/-- Replace the `n` bytes from address `a` on by the first `n` bytes of `f`. -/
def overlay (m : Mem) (a n : Nat) (f : Mem) : Mem :=
  fun x => if a ≤ x ∧ x < a + n then f (x - a) else m x

theorem overlay_in (m : Mem) {a n x : Nat} (f : Mem) (h₁ : a ≤ x) (h₂ : x < a + n) :
    overlay m a n f x = f (x - a) := if_pos ⟨h₁, h₂⟩

theorem overlay_out (m : Mem) {a n x : Nat} (f : Mem) (h : x < a ∨ a + n ≤ x) :
    overlay m a n f x = m x := if_neg (by omega)

/-- Byte `i` of the overlaid block. -/
theorem overlay_add (m : Mem) {a n i : Nat} (f : Mem) (h : i < n) :
    overlay m a n f (a + i) = f i := by
  rw [overlay_in m f (Nat.le_add_right a i) (Nat.add_lt_add_left h a), Nat.add_sub_cancel_left]

@[simp] theorem overlay_zero (m : Mem) (a : Nat) (f : Mem) : overlay m a 0 f = m := by
  funext x
  exact overlay_out m f (by omega)

/-- A block store changes nothing exactly if it finds the bytes it stores. -/
theorem overlay_eq_self_iff {m : Mem} {a n : Nat} {f : Mem} :
    overlay m a n f = m ↔ ∀ i < n, m (a + i) = f i := by
  constructor
  · intro h i hi
    rw [← congrFun h (a + i), overlay_in m f (by omega) (by omega), Nat.add_sub_cancel_left]
  · intro h
    funext x
    by_cases hx : a ≤ x ∧ x < a + n
    · rw [overlay_in m f hx.1 hx.2, ← h (x - a) (by omega), Nat.add_sub_cancel' hx.1]
    · exact overlay_out m f (by omega)

/-- At least `m` of the first `n` bytes are passed over: a scan that stops at the first byte
without `p`. -/
theorem le_length_takeWhile (f : Mem) (p : UInt8 → Bool) {n m : Nat} :
    m ≤ (((List.range n).map f).takeWhile p).length ↔ m ≤ n ∧ ∀ i < m, p (f i) = true := by
  induction n generalizing f m with
  | zero => simp +contextual
  | succ n ih =>
      rw [List.range_succ_eq_map, List.map_cons, List.map_map, List.takeWhile_cons]
      cases m with
      | zero => simp
      | succ m =>
          split
          · rename_i h₀
            rw [List.length_cons, Nat.succ_le_succ_iff, ih, Nat.succ_le_succ_iff]
            refine and_congr_right fun _ => ⟨fun h i hi => ?_, fun h i hi => h (i + 1) (by omega)⟩
            cases i with
            | zero => exact h₀
            | succ i => exact h i (by omega)
          · rename_i h₀
            exact iff_of_false (by simp) fun h => h₀ (h.2 0 (by omega))

/-- The memory that starts with the bytes `l` and continues with NULs. -/
def ofList (l : List UInt8) : Mem := fun i => l.getD i 0

/-- The bytes of an ASCII string. -/
def ascii (s : String) : List UInt8 := s.toList.map fun c => UInt8.ofNat c.toNat

/-- The 32-bit little-endian word at address `a`. -/
def word (m : Mem) (a : Nat) : Nat :=
  (m a).toNat + 256 * (m (a + 1)).toNat + 65536 * (m (a + 2)).toNat
    + 16777216 * (m (a + 3)).toNat

/-- The signed value of a 32-bit word. -/
def asInt32 (n : Nat) : Int :=
  if n % 4294967296 < 2147483648 then (n % 4294967296 : Nat)
  else (n % 4294967296 : Nat) - 4294967296

theorem asInt32_of_lt {n : Nat} (h : n < 2147483648) : asInt32 n = n := by
  have hmod : n % 4294967296 = n := Nat.mod_eq_of_lt (by omega)
  unfold asInt32
  rw [hmod, if_pos h]

/-- The signed value of a byte. -/
def asInt8 (b : UInt8) : Int := if b.toNat < 128 then b.toNat else b.toNat - 256

theorem asInt8_inj {a b : UInt8} (h : asInt8 a = asInt8 b) : a = b := by
  have ha := a.toNat_lt
  have hb := b.toNat_lt
  apply UInt8.toNat_inj.mp
  unfold asInt8 at h
  split at h <;> split at h <;> omega

end ByteMem
