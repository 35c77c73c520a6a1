import Ext2Kernel.Basic.RepString

set_option autoImplicit false

/-! # Block operations

The assembly of `memset`, `memset_word`, `memset_dword`, `memcpy` and `memmove` of `lib.c`. The
state is the memory with the direction flag, which `memmove` leaves set when it copies downwards.
Every routine is shown to be one block store, and `runCalls_mem` puts them in a row: a routine
works whatever the flag says that the one before has left.
-/

namespace Ext2Kernel

namespace Lib

open ByteMem RepString

/-! ## The routines -/

/-- The memory and the direction flag. -/
structure BlockState where
  mem : Mem
  df : Bool

/-- The pattern that `memset` hands to its assembly in `eax`. -/
def memsetPattern (c : UInt32) : UInt32 :=
  let c := c &&& 0xFF
  c <<< 24 ||| c <<< 16 ||| c <<< 8 ||| c

/-- The loops at `.memset_top` and `.memcpy_top`, with what is left in `ecx`: single bytes until
the destination is aligned. The pointers are moved by `addl`, so that the direction flag does not
matter. -/
def blockTop (byte : Regs → Regs) : Nat → Regs → Nat × Regs
  | 0, r => (0, r)
  | ecx + 1, r => if r.edi % 4 = 0 then (ecx + 1, r) else blockTop byte ecx (byte r)

/-- From `.memset_aligned` or `.memcpy_aligned` on: `cld`, the double words, and single bytes for
the rest in `edx`. -/
def blockAligned (byte dword : Regs → Regs) (ecx : Nat) (r : Regs) : Regs :=
  byte^[ecx % 4] (dword^[ecx / 4] r)

/-- The assembly of `memset` and `memcpy`. The `cld` is not reached when the bytes are used up
before the destination is aligned. -/
def blockRoutine (byte dword : Regs → Regs) (n : Nat) (df : Bool) (r : Regs) : BlockState :=
  let p := blockTop byte n r
  if p.1 = 0 then ⟨p.2.mem, df⟩ else ⟨(blockAligned byte dword p.1 p.2).mem, false⟩

def memset (s : Nat) (c : UInt32) (n : Nat) (st : BlockState) : BlockState :=
  let eax := (memsetPattern c).toNat
  blockRoutine (stos false 1 eax) (stos false 4 eax) n st.df ⟨st.mem, 0, s⟩

/-- `cld; rep stos` with cells of `w` bytes. -/
def memsetCells (w s : Nat) (c : UInt32) (n : Nat) (st : BlockState) : BlockState :=
  ⟨((stos false w c.toNat)^[n] ⟨st.mem, 0, s⟩).mem, false⟩

def memsetWord (s : Nat) (c : UInt32) (n : Nat) (st : BlockState) : BlockState :=
  memsetCells 2 s c n st

def memsetDword (s : Nat) (c : UInt32) (n : Nat) (st : BlockState) : BlockState :=
  memsetCells 4 s c n st

def memcpy (dest src n : Nat) (st : BlockState) : BlockState :=
  blockRoutine (movs false 1) (movs false 4) n st.df ⟨st.mem, src, dest⟩

/-- The comparison is `cmp %edi, %esi; jae`. There is no `cld` behind the `std`. -/
def memmove (dest src n : Nat) (st : BlockState) : BlockState :=
  if dest ≤ src then ⟨((movs false 1)^[n] ⟨st.mem, src, dest⟩).mem, false⟩
  else
    -- `leal -1(%esi, %ecx), %esi` and `leal -1(%edi, %ecx), %edi`
    ⟨((movs true 1)^[n] ⟨st.mem, below (src + n), below (dest + n)⟩).mem, true⟩

/-! ## Double words as bytes -/

section

variable {byte dword : Regs → Regs}

/-- How far an address is from the next aligned one. -/
def gap (a : Nat) : Nat := (4 - a % 4) % 4

theorem blockTop_eq (hstep : ∀ r, (byte r).edi = advance false 1 r.edi) (n : Nat) (r : Regs) :
    blockTop byte n r = (n - gap r.edi, byte^[min n (gap r.edi)] r) := by
  induction n generalizing r with
  | zero => rw [Nat.zero_sub, Nat.zero_min, Function.iterate_zero_apply, blockTop]
  | succ n ih =>
      unfold blockTop
      by_cases haligned : r.edi % 4 = 0
      · have hgap : gap r.edi = 0 := by
          unfold gap
          rw [haligned]
        rw [if_pos haligned, hgap]
        rfl
      · have hgap : gap r.edi = gap (byte r).edi + 1 := by
          rw [hstep]
          unfold gap advance top
          rw [if_neg Bool.false_ne_true]
          omega
        rw [if_neg haligned, ih, hgap, Nat.add_sub_add_right, Nat.add_min_add_right,
          Function.iterate_succ_apply]

/-- **The routine stores or copies byte by byte** if a row of double words comes to the same as
the row of their bytes. -/
theorem blockRoutine_eq (hstep : ∀ r, (byte r).edi = advance false 1 r.edi) {n : Nat} {r : Regs}
    (hdword : ∀ k q, k + q * 4 ≤ n → 0 < q →
      dword^[q] (byte^[k] r) = byte^[q * 4] (byte^[k] r)) (df : Bool) :
    blockRoutine byte dword n df r =
      ⟨(byte^[n] r).mem, df && decide (n ≤ gap r.edi)⟩ := by
  unfold blockRoutine
  rw [blockTop_eq hstep]
  dsimp only
  by_cases hshort : n ≤ gap r.edi
  · rw [if_pos (Nat.sub_eq_zero_of_le hshort), Nat.min_eq_left hshort, decide_eq_true hshort,
      Bool.and_true]
  · have hall : blockAligned byte dword (n - gap r.edi) (byte^[gap r.edi] r) = byte^[n] r := by
      have hrow : dword^[(n - gap r.edi) / 4] (byte^[gap r.edi] r)
          = byte^[(n - gap r.edi) / 4 * 4] (byte^[gap r.edi] r) := by
        rcases Nat.eq_zero_or_pos ((n - gap r.edi) / 4) with hzero | hpos
        · rw [hzero]
          rfl
        · exact hdword _ _ (by omega) hpos
      unfold blockAligned
      rw [hrow, ← Function.iterate_add_apply, ← Function.iterate_add_apply]
      congr 1
      omega
    rw [if_neg (by omega), Nat.min_eq_right (by omega), hall, decide_eq_false hshort,
      Bool.and_false]

end

/-! ## Filling -/

/-- Every byte of the pattern is the low byte of `c`. -/
theorem byteOf_memsetPattern (c : UInt32) {i : Nat} (hi : i < 4) :
    byteOf (memsetPattern c).toNat i = c.toUInt8 := by
  have hbytes : ∀ b : Fin 256, ∀ i : Fin 4,
      byteOf (memsetPattern (UInt32.ofNat b)).toNat i = UInt8.ofNat b := by
    decide +kernel
  have hlow : memsetPattern c = memsetPattern (UInt32.ofNat c.toUInt8.toNat) := by
    have hmask : UInt32.ofNat c.toUInt8.toNat &&& 0xFF = c &&& 0xFF := by
      apply UInt32.toNat_inj.mp
      simp [Nat.and_two_pow_sub_one_eq_mod _ 8]
    unfold memsetPattern
    rw [hmask]
  rw [hlow, hbytes ⟨c.toUInt8.toNat, c.toUInt8.toNat_lt⟩ ⟨i, hi⟩]
  exact UInt8.ofNat_toNat

section

variable {m : Mem} {df : Bool} {n : Nat}

/-- A row of cells of the pattern, from any point of a block. -/
theorem stos_row (c : UInt32) {w esi edi : Nat} (hw : 0 < w) (hcell : w ≤ 4) (hedi : edi < top)
    (h : edi + n * w ≤ top) :
    (stos false w (memsetPattern c).toNat)^[n] ⟨m, esi, edi⟩ =
      ⟨overlay m edi (n * w) fun _ => c.toUInt8, esi, (edi + n * w) % top⟩ := by
  rw [stos_iterate _ hw hedi h]
  congr 2
  funext i
  exact byteOf_memsetPattern c (Nat.lt_of_lt_of_le (Nat.mod_lt i hw) hcell)

/-- **`memset`** stores the low byte of `c` into every byte of the block, at any alignment and for
any length. -/
theorem memset_eq {s : Nat} (h : s + n ≤ top) (c : UInt32) :
    memset s c n ⟨m, df⟩ =
      ⟨overlay m s n fun _ => c.toUInt8, df && decide (n ≤ gap s)⟩ := by
  rcases Nat.eq_zero_or_pos n with rfl | hn
  · rw [overlay_zero, decide_eq_true (Nat.zero_le _), Bool.and_true]
    rfl
  · have hrow : ∀ k ≤ n, (stos false 1 (memsetPattern c).toNat)^[k] ⟨m, 0, s⟩ =
        ⟨overlay m s k fun _ => c.toUInt8, 0, (s + k) % top⟩ := by
      intro k hk
      rw [stos_row c Nat.one_pos (by omega) (by omega) (by omega), Nat.mul_one]
    unfold memset
    rw [blockRoutine_eq (fun _ => rfl), hrow n (Nat.le_refl n)]
    intro k q hq hpos
    have hedi : (s + k) % top = s + k := Nat.mod_eq_of_lt (by omega)
    rw [hrow k (by omega), hedi, stos_row c (by omega) (Nat.le_refl 4) (by omega) (by omega),
      stos_row c Nat.one_pos (by omega) (by omega) (by omega), Nat.mul_one]

/-- A row of cells, each the low bytes of `c`. -/
theorem memsetCells_eq {w s : Nat} (hw : 0 < w) (h : s + n * w ≤ top) (c : UInt32) :
    memsetCells w s c n ⟨m, df⟩ =
      ⟨overlay m s (n * w) fun i => byteOf c.toNat (i % w), false⟩ := by
  unfold memsetCells
  rcases Nat.eq_zero_or_pos n with rfl | hn
  · rw [Nat.zero_mul, overlay_zero]
    rfl
  · have hs : s < top := Nat.lt_of_lt_of_le (Nat.lt_add_of_pos_right (Nat.mul_pos hn hw)) h
    rw [stos_iterate _ hw hs h]

/-! ## Copying -/

variable {dest src : Nat}

/-- **`memcpy`** copies the block, at any alignment and for any length, if it does not begin
below its destination or ends before it. -/
theorem memcpy_eq (hdest : dest + n ≤ top) (hsrc : src + n ≤ top)
    (hside : dest ≤ src ∨ src + n ≤ dest) :
    memcpy dest src n ⟨m, df⟩ =
      ⟨overlay m dest n fun i => m (src + i), df && decide (n ≤ gap dest)⟩ := by
  rcases Nat.eq_zero_or_pos n with rfl | hn
  · rw [overlay_zero, decide_eq_true (Nat.zero_le _), Bool.and_true]
    rfl
  · have hrow : ∀ k ≤ n, (movs false 1)^[k] ⟨m, src, dest⟩ =
        ⟨overlay m dest k fun i => m (src + i), (src + k) % top, (dest + k) % top⟩ := by
      intro k hk
      rw [movs_iterate_up Nat.one_pos (by omega) (by omega) (by omega) (by omega) (by omega),
        Nat.mul_one]
    unfold memcpy
    rw [blockRoutine_eq (fun _ => rfl), hrow n (Nat.le_refl n)]
    intro k q hq hpos
    have hedi : (dest + k) % top = dest + k := Nat.mod_eq_of_lt (by omega)
    have hesi : (src + k) % top = src + k := Nat.mod_eq_of_lt (by omega)
    rw [hrow k (by omega), hedi, hesi,
      movs_iterate_up (by omega) (by omega) (by omega) (by omega) (by omega) (by omega),
      movs_iterate_up Nat.one_pos (by omega) (by omega) (by omega) (by omega) (by omega),
      Nat.mul_one]

/-- **`memmove`** copies the block, however the two blocks lie. The direction flag is set
afterwards if it has copied downwards. -/
theorem memmove_eq (hdest : dest + n ≤ top) (hsrc : src + n ≤ top) :
    memmove dest src n ⟨m, df⟩ =
      ⟨overlay m dest n fun i => m (src + i), decide (src < dest)⟩ := by
  unfold memmove
  by_cases hup : dest ≤ src
  · rw [if_pos hup, decide_eq_false (Nat.not_lt.mpr hup)]
    rcases Nat.eq_zero_or_pos n with rfl | hn
    · rw [overlay_zero]
      rfl
    · rw [movs_iterate_up Nat.one_pos (by omega) (by omega) (by omega) (by omega) (by omega),
        Nat.mul_one]
  · have hdown := movs_iterate_down (m := m) hdest hsrc (by omega)
    rw [if_neg hup, decide_eq_true (Nat.lt_of_not_le hup), hdown]

end

/-! ## Routines in a row -/

/-- A call of one of the routines, by one part of the kernel or another. -/
inductive BlockCall where
  | memset (s : Nat) (c : UInt32) (n : Nat)
  | memsetWord (s : Nat) (c : UInt32) (n : Nat)
  | memsetDword (s : Nat) (c : UInt32) (n : Nat)
  | memcpy (dest src n : Nat)
  | memmove (dest src n : Nat)

namespace BlockCall

/-- What the routine does to the state. -/
def run : BlockCall → BlockState → BlockState
  | memset s c n => Lib.memset s c n
  | memsetWord s c n => Lib.memsetWord s c n
  | memsetDword s c n => Lib.memsetDword s c n
  | memcpy dest src n => Lib.memcpy dest src n
  | memmove dest src n => Lib.memmove dest src n

/-- The blocks fit into the address space, and `memcpy` does not run into its own source. -/
def Fits : BlockCall → Prop
  | memset s _ n => s + n ≤ top
  | memsetWord s _ n => s + n * 2 ≤ top
  | memsetDword s _ n => s + n * 4 ≤ top
  | memcpy dest src n =>
      dest + n ≤ top ∧ src + n ≤ top ∧ (dest ≤ src ∨ src + n ≤ dest)
  | memmove dest src n => dest + n ≤ top ∧ src + n ≤ top

/-- The block store that the routine is for. -/
def store : BlockCall → Mem → Mem
  | memset s c n, m => overlay m s n fun _ => c.toUInt8
  | memsetWord s c n, m => overlay m s (n * 2) fun i => byteOf c.toNat (i % 2)
  | memsetDword s c n, m => overlay m s (n * 4) fun i => byteOf c.toNat (i % 4)
  | memcpy dest src n, m => overlay m dest n fun i => m (src + i)
  | memmove dest src n, m => overlay m dest n fun i => m (src + i)

/-- One call, whatever the direction flag says. -/
theorem run_mem {call : BlockCall} (h : call.Fits) (st : BlockState) :
    (call.run st).mem = call.store st.mem := by
  cases call with
  | memset s c n => exact congrArg BlockState.mem (memset_eq h c)
  | memsetWord s c n => exact congrArg BlockState.mem (memsetCells_eq Nat.two_pos h c)
  | memsetDword s c n => exact congrArg BlockState.mem (memsetCells_eq (Nat.succ_pos 3) h c)
  | memcpy dest src n => exact congrArg BlockState.mem (memcpy_eq h.1 h.2.1 h.2.2)
  | memmove dest src n => exact congrArg BlockState.mem (memmove_eq h.1 h.2)

end BlockCall

/-- The calls in a row. -/
def runCalls (calls : List BlockCall) (st : BlockState) : BlockState :=
  calls.foldl (fun st call => call.run st) st

/-- **A row of calls** is the row of its block stores, from either state of the direction flag. -/
theorem runCalls_mem {calls : List BlockCall} (h : ∀ call ∈ calls, call.Fits) (st : BlockState) :
    (runCalls calls st).mem = calls.foldl (fun m call => call.store m) st.mem := by
  induction calls generalizing st with
  | nil => rfl
  | cons call calls ih =>
      have hcall := BlockCall.run_mem (h call List.mem_cons_self) st
      have hrest := ih (fun c hc => h c (List.mem_cons_of_mem _ hc)) (call.run st)
      rw [hcall] at hrest
      exact hrest

/-- A `memmove` downwards, which leaves the flag set, and a `memset` behind it. -/
theorem runCalls_memmove_memset :
    (runCalls [.memmove 4098 4096 8, .memset 4100 0 5] ⟨UInt8.ofNat, false⟩).mem
      = overlay (overlay UInt8.ofNat 4098 8 fun i => UInt8.ofNat (4096 + i)) 4100 5 fun _ => 0 :=
  have hfits : ∀ call ∈ [BlockCall.memmove 4098 4096 8, .memset 4100 0 5], call.Fits := by
    intro call hcall
    rcases List.mem_pair.mp hcall with rfl | rfl
    · exact ⟨by decide, by decide⟩
    · exact (by decide : 4100 + 5 ≤ top)
  runCalls_mem hfits ⟨UInt8.ofNat, false⟩

end Lib

end Ext2Kernel
