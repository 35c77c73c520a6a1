import Ext2Kernel.FileSys.Image

set_option autoImplicit false

/-! # `read_data`

The block walk of `filesys.c`. `readDataLoop` is the loop of the source, with its raw pointer
`data_cur` and the block number that is re-derived only when the pointer difference is a
multiple of the block size and bytes remain. `readData_eq` shows that it delivers the bytes
of a per-byte address translation (`FileSys.byteAt`), from the offset on, up to one position
past the last byte of the file: the loop tests `bytes_read + offset > length`.
-/

namespace Ext2Kernel

open ByteMem

/-- What a data-returning call leaves behind: its return value and the bytes it stores, from
`buf[0]` on. -/
structure Transfer where
  ret : Int
  stored : List UInt8
  deriving DecidableEq

/-- The `while (length != 0)` loop of `read_data`: the bytes it copies. -/
def readDataLoop (fs : FileSys) (inode offset : Nat) : Nat → Nat → Nat → Nat → List UInt8
  | 0, _, _, _ => []
  | length + 1, bytesRead, dataBlockNum, dataCur =>
      if addr (bytesRead + offset) > fs.fileLength inode then []
      else
        let dataCur' := addr (dataCur + 1)
        if ((dataCur' : Int) - fs.dataBlocks) % BLOCK_SIZE = 0 ∧ length > 0 then
          fs.mem dataCur :: readDataLoop fs inode offset length (bytesRead + 1) (dataBlockNum + 1)
            (addr (fs.dataBlocks + BLOCK_SIZE * fs.datablockNum inode (dataBlockNum + 1)))
        else
          fs.mem dataCur ::
            readDataLoop fs inode offset length (bytesRead + 1) dataBlockNum dataCur'

/-- The bytes `read_data` copies for a valid inode. -/
def readDataBytes (fs : FileSys) (inode offset length : Nat) : List UInt8 :=
  readDataLoop fs inode offset length 0 (offset / BLOCK_SIZE)
    (addr (fs.dataBlocks + BLOCK_SIZE * fs.datablockNum inode (offset / BLOCK_SIZE)
      + offset % BLOCK_SIZE))

/-- `read_data(inode, offset, buf, length)`. The buffer is cleared before the copy, so all
`length` bytes are stored. -/
def readData (fs : FileSys) (inode offset : Nat) (bufNull : Bool) (length : Nat) : Transfer :=
  if inode ≥ DIR_ENTRIES ∨ bufNull then ⟨-1, []⟩
  else
    let bytes := readDataBytes fs inode offset length
    ⟨asInt32 bytes.length, bytes ++ List.replicate (length - bytes.length) 0⟩

/-! ## The per-byte address translation -/

/-- The address of position `q` of a file. -/
def FileSys.byteAddr (fs : FileSys) (inode q : Nat) : Nat :=
  addr (fs.dataBlocks + BLOCK_SIZE * fs.datablockNum inode (q / BLOCK_SIZE) + q % BLOCK_SIZE)

/-- The byte at position `q` of a file. -/
def FileSys.byteAt (fs : FileSys) (inode q : Nat) : UInt8 := fs.mem (fs.byteAddr inode q)

/-- How many bytes a read at `offset` returns: the loop stops one position past the end. -/
def FileSys.avail (fs : FileSys) (inode offset length : Nat) : Nat :=
  min length (fs.fileLength inode + 1 - offset)

theorem FileSys.avail_end (fs : FileSys) {inode q : Nat} (n : Nat) (h : fs.fileLength inode < q) :
    fs.avail inode q n = 0 := by
  unfold FileSys.avail
  omega

theorem FileSys.avail_succ (fs : FileSys) {inode q : Nat} (n : Nat) (h : q ≤ fs.fileLength inode) :
    fs.avail inode q (n + 1) = fs.avail inode (q + 1) n + 1 := by
  unfold FileSys.avail
  omega

/-- The pointer test of the loop finds exactly the ends of blocks. -/
theorem byteAddr_block_end (fs : FileSys) (inode q : Nat) :
    ((addr (fs.byteAddr inode q + 1) : Int) - fs.dataBlocks) % BLOCK_SIZE = 0
      ↔ (q + 1) % BLOCK_SIZE = 0 := by
  unfold FileSys.byteAddr addr BLOCK_SIZE
  generalize fs.datablockNum inode (q / 4096) = num
  generalize fs.dataBlocks = base
  omega

/-- Inside a block the pointer moves on by one. -/
theorem byteAddr_succ (fs : FileSys) (inode q : Nat) (h : (q + 1) % BLOCK_SIZE ≠ 0) :
    addr (fs.byteAddr inode q + 1) = fs.byteAddr inode (q + 1) := by
  have hdiv : (q + 1) / BLOCK_SIZE = q / BLOCK_SIZE := by unfold BLOCK_SIZE at *; omega
  have hmod : (q + 1) % BLOCK_SIZE = q % BLOCK_SIZE + 1 := by unfold BLOCK_SIZE at *; omega
  unfold FileSys.byteAddr addr
  rw [hdiv, hmod]
  omega

/-- At the end of a block the pointer is re-derived from the next block number. -/
theorem byteAddr_next_block (fs : FileSys) (inode q : Nat) (h : (q + 1) % BLOCK_SIZE = 0) :
    q / BLOCK_SIZE + 1 = (q + 1) / BLOCK_SIZE ∧
    addr (fs.dataBlocks + BLOCK_SIZE * fs.datablockNum inode (q / BLOCK_SIZE + 1))
      = fs.byteAddr inode (q + 1) := by
  have hdiv : q / BLOCK_SIZE + 1 = (q + 1) / BLOCK_SIZE := by unfold BLOCK_SIZE at *; omega
  refine ⟨hdiv, ?_⟩
  unfold FileSys.byteAddr
  rw [← hdiv, h]
  exact congrArg addr (Nat.add_zero _).symm

/-- The loop invariant: at position `q = bytes_read + offset`, the block number is `q / 4096`
and the pointer is the address of `q`. -/
theorem readDataLoop_eq (fs : FileSys) (inode offset : Nat)
    (hl : fs.fileLength inode + 1 < 4294967296) : ∀ (n bytesRead : Nat),
    bytesRead + offset < 4294967296 →
    readDataLoop fs inode offset n bytesRead ((bytesRead + offset) / BLOCK_SIZE)
        (fs.byteAddr inode (bytesRead + offset))
      = (List.range (fs.avail inode (bytesRead + offset) n)).map
          fun i => fs.byteAt inode (bytesRead + offset + i)
  | 0, _, _ => by simp [readDataLoop, FileSys.avail]
  | n + 1, bytesRead, hlt => by
      unfold readDataLoop
      have haddr : addr (bytesRead + offset) = bytesRead + offset := Nat.mod_eq_of_lt hlt
      rw [haddr]
      by_cases hend : bytesRead + offset > fs.fileLength inode
      · rw [if_pos hend, fs.avail_end _ hend]
        rfl
      · rw [if_neg hend]
        have hq : bytesRead + 1 + offset = bytesRead + offset + 1 := by omega
        have hs := fs.avail_succ n (Nat.le_of_not_lt hend)
        rw [← hq] at hs
        have hrhs : (List.range (fs.avail inode (bytesRead + offset) (n + 1))).map
              (fun i => fs.byteAt inode (bytesRead + offset + i))
            = fs.mem (fs.byteAddr inode (bytesRead + offset)) ::
                (List.range (fs.avail inode (bytesRead + 1 + offset) n)).map
                  (fun i => fs.byteAt inode (bytesRead + 1 + offset + i)) := by
          rw [hs, List.range_succ_eq_map, List.map_cons, List.map_map]
          congr 1
          refine List.map_congr_left fun i _ => ?_
          show fs.byteAt inode (bytesRead + offset + (i + 1)) = _
          rw [hq, Nat.add_assoc _ 1 i, Nat.add_comm 1 i]
        rw [hrhs]
        -- Past the last requested byte the pointer is no longer read, so its value there
        -- does not matter.
        by_cases hn : n = 0
        · subst hn
          rw [if_neg (by omega)]
          simp [readDataLoop, FileSys.avail]
        · have ih := readDataLoop_eq fs inode offset hl n (bytesRead + 1) (by omega)
          rw [hq] at ih ⊢
          by_cases hblk : (bytesRead + offset + 1) % BLOCK_SIZE = 0
          · obtain ⟨hnum, hcur⟩ := byteAddr_next_block fs inode (bytesRead + offset) hblk
            rw [if_pos ⟨(byteAddr_block_end fs inode _).mpr hblk, Nat.pos_of_ne_zero hn⟩,
              hcur, hnum, ih]
          · have hnum : (bytesRead + offset) / BLOCK_SIZE
                = (bytesRead + offset + 1) / BLOCK_SIZE := by
              unfold BLOCK_SIZE at *
              omega
            rw [if_neg (fun h => hblk ((byteAddr_block_end fs inode _).mp h.1)),
              byteAddr_succ fs inode _ hblk, hnum, ih]

/-- **`read_data` is the per-byte translation.** It copies the bytes at positions
`offset, offset + 1, …`, as many as `avail` says. -/
theorem readDataBytes_eq (fs : FileSys) (inode offset n : Nat)
    (hl : fs.fileLength inode + 1 < 4294967296) (h : offset < 4294967296) :
    readDataBytes fs inode offset n
      = (List.range (fs.avail inode offset n)).map fun i => fs.byteAt inode (offset + i) := by
  have := readDataLoop_eq fs inode offset hl n 0 (by omega)
  simpa [readDataBytes, FileSys.byteAddr] using this

theorem readDataBytes_length (fs : FileSys) (inode offset n : Nat)
    (hl : fs.fileLength inode + 1 < 4294967296) (h : offset < 4294967296) :
    (readDataBytes fs inode offset n).length = fs.avail inode offset n := by
  rw [readDataBytes_eq fs inode offset n hl h, List.length_map, List.length_range]

/-- The loop never copies more than was asked for. -/
theorem readDataLoop_length_le (fs : FileSys) (inode offset : Nat) :
    ∀ (n bytesRead num cur : Nat),
      (readDataLoop fs inode offset n bytesRead num cur).length ≤ n
  | 0, _, _, _ => Nat.le_refl 0
  | n + 1, bytesRead, num, cur => by
      unfold readDataLoop
      split
      · exact Nat.zero_le _
      · dsimp only
        split <;> exact Nat.succ_le_succ (readDataLoop_length_le fs inode offset n _ _ _)

/-- A read of a valid inode stores the bytes it copies, and NULs behind them. -/
theorem readData_valid (fs : FileSys) {inode : Nat} (offset length : Nat)
    (h : inode < DIR_ENTRIES) :
    readData fs inode offset false length
      = ⟨asInt32 (readDataBytes fs inode offset length).length,
          readDataBytes fs inode offset length ++
            List.replicate (length - (readDataBytes fs inode offset length).length) 0⟩ :=
  if_neg (by simpa using h)

/-- It fills the buffer. -/
theorem readData_stored_length (fs : FileSys) {inode : Nat} (offset length : Nat)
    (h : inode < DIR_ENTRIES) : (readData fs inode offset false length).stored.length = length := by
  have hle : (readDataBytes fs inode offset length).length ≤ length := readDataLoop_length_le ..
  rw [readData_valid fs offset length h, List.length_append, List.length_replicate,
    Nat.add_sub_cancel' hle]

/-- The buffer then holds the bytes of the file, as many as the read returns. -/
theorem readData_stored_byte (fs : FileSys) {inode offset length i : Nat}
    (h : inode < DIR_ENTRIES) (hl : fs.fileLength inode + 1 < 4294967296)
    (ho : offset < 4294967296) (hi : i < fs.avail inode offset length) :
    ofList (readData fs inode offset false length).stored i = fs.byteAt inode (offset + i) := by
  rw [readData_valid fs offset length h, readDataBytes_eq fs inode offset length hl ho]
  unfold ofList
  rw [List.getD_eq_getElem?_getD, List.getElem?_append_left (by simpa using hi)]
  simp [hi]

end Ext2Kernel
