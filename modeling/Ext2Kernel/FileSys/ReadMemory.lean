import Ext2Kernel.Basic.Stores
import Ext2Kernel.FileSys.ReadData

set_option autoImplicit false

/-! # `read_data` in one memory

`readData` reads an image that nobody stores into and returns the bytes for the buffer. In the
kernel the image and the buffer lie in one memory, which `read_data` clears and fills while
it walks the blocks. `readDataMem` is the function on this memory: the length and the block
numbers of the inode are looked up again in every round.

The two agree when the buffer is apart from what the read looks at (`readDataMem_eq`). With
the layout of `filesys_init` and block numbers inside the image, that gives each byte of the
buffer (`readData_delivers`).
-/

namespace Ext2Kernel

open ByteMem

/-! ## The function on memory -/

/-- The address of `buf[k]`. -/
def bufAddr (buf k : Nat) : Nat := addr (buf + k)

/-- `memset(s, c, n)`. -/
def memset (m : Mem) (s : Nat) (c : UInt8) (n : Nat) : Mem :=
  storeBytes m (bufAddr s) (fun _ => c) n

/-- The `while (length != 0)` loop of `read_data` from memory `m` on: the final `bytes_read`
and the memory. The index `i` of the buffer counts the same as `bytes_read`. The pointers
`inode_head` and `data_blocks` are those of `fs`. -/
def readDataMemLoop (fs : FileSys) (inode offset buf : Nat) :
    Nat → Nat → Nat → Nat → Mem → Nat × Mem
  | 0, bytesRead, _, _, m => (bytesRead, m)
  | length + 1, bytesRead, dataBlockNum, dataCur, m =>
      if addr (bytesRead + offset) > word m (fs.inodeAddr inode) then (bytesRead, m)
      else
        let m' := Function.update m (bufAddr buf bytesRead) (m dataCur)
        let dataCur' := addr (dataCur + 1)
        if ((dataCur' : Int) - fs.dataBlocks) % BLOCK_SIZE = 0 ∧ length > 0 then
          readDataMemLoop fs inode offset buf length (bytesRead + 1) (dataBlockNum + 1)
            (addr (fs.dataBlocks + BLOCK_SIZE *
              word m' (addr (fs.inodeAddr inode + 4 + 4 * (dataBlockNum + 1))))) m'
        else
          readDataMemLoop fs inode offset buf length (bytesRead + 1) dataBlockNum dataCur' m'

/-- `read_data(inode, offset, buf, length)` in the memory of `fs`. -/
def readDataMem (fs : FileSys) (inode offset buf length : Nat) : Int × Mem :=
  if inode ≥ DIR_ENTRIES ∨ addr buf = 0 then (-1, fs.mem)
  else
    let m := memset fs.mem buf 0 length
    let r := readDataMemLoop fs inode offset buf length 0 (offset / BLOCK_SIZE)
      (addr (fs.dataBlocks + BLOCK_SIZE *
        word m (addr (fs.inodeAddr inode + 4 + 4 * (offset / BLOCK_SIZE)))
        + offset % BLOCK_SIZE)) m
    (asInt32 r.1, r.2)

/-! ## Buffers apart from the image -/

theorem bufAddr_inj {buf n i j : Nat} (hn : n < 4294967296) (hi : i < n) (hj : j < n)
    (h : bufAddr buf i = bufAddr buf j) : i = j := by
  unfold bufAddr addr at h
  omega

theorem word_congr {m m' : Mem} {a : Nat} (h : ∀ i < 4, m' (a + i) = m (a + i)) :
    word m' a = word m a := by
  have h₀ : m' a = m a := h 0 (by omega)
  unfold word
  rw [h₀, h 1 (by omega), h 2 (by omega), h 3 (by omega)]

/-- The buffer shares no address with the block of the inode and the bytes a read can reach. -/
structure ReadApart (fs : FileSys) (inode buf n : Nat) : Prop where
  block : ∀ k < n, ∀ i < BLOCK_SIZE, bufAddr buf k ≠ fs.inodeAddr inode + i
  bytes : ∀ k < n, ∀ q ≤ fs.fileLength inode, bufAddr buf k ≠ fs.byteAddr inode q
  inside : fs.inodeAddr inode + BLOCK_SIZE ≤ 4294967296

/-- Memory that differs from the image at most inside the buffer. -/
def SameOutside (fs : FileSys) (buf n : Nat) (m : Mem) : Prop :=
  ∀ x, (∀ k < n, bufAddr buf k ≠ x) → m x = fs.mem x

theorem storeBytes_sameOutside {fs : FileSys} {buf n : Nat} {m : Mem} (f : Nat → UInt8)
    {k : Nat} (hk : k ≤ n) (h : SameOutside fs buf n m) :
    SameOutside fs buf n (storeBytes m (bufAddr buf) f k) := by
  intro x hx
  rw [storeBytes_out m _ f fun i hi => hx i (by omega)]
  exact h x hx

/-- The length is still the one of the image. -/
theorem ReadApart.length {fs : FileSys} {inode buf n : Nat} {m : Mem}
    (h : ReadApart fs inode buf n) (hm : SameOutside fs buf n m) :
    word m (fs.inodeAddr inode) = fs.fileLength inode := by
  refine word_congr fun i hi => hm _ fun k hk => h.block k hk i ?_
  unfold BLOCK_SIZE
  omega

/-- The block numbers are still those of the image. -/
theorem ReadApart.datablockNum {fs : FileSys} {inode buf n i : Nat} {m : Mem}
    (h : ReadApart fs inode buf n) (hm : SameOutside fs buf n m) (hi : i < INODE_SIZE) :
    word m (addr (fs.inodeAddr inode + 4 + 4 * i)) = fs.datablockNum inode i := by
  have hin := h.inside
  have hwrap : addr (fs.inodeAddr inode + 4 + 4 * i) = fs.inodeAddr inode + (4 + 4 * i) := by
    unfold addr INODE_SIZE BLOCK_SIZE at *
    omega
  unfold FileSys.datablockNum
  rw [hwrap]
  refine word_congr fun j hj => hm _ fun k hk => ?_
  rw [Nat.add_assoc]
  refine h.block k hk _ ?_
  unfold INODE_SIZE BLOCK_SIZE at *
  omega

/-- The data bytes are still those of the image. -/
theorem ReadApart.byteAt {fs : FileSys} {inode buf n q : Nat} {m : Mem}
    (h : ReadApart fs inode buf n) (hm : SameOutside fs buf n m)
    (hq : q ≤ fs.fileLength inode) : m (fs.byteAddr inode q) = fs.byteAt inode q :=
  hm _ fun k hk => h.bytes k hk q hq

/-! ## The loop -/

/-- The loop invariant: after `bytes_read` rounds the first bytes of the buffer are those of
the file from `offset` on, `q = bytes_read + offset` is the position, `q / 4096` the block
number and the pointer is the address of `q`. -/
theorem readDataMemLoop_eq {fs : FileSys} {inode offset buf n : Nat} {m : Mem}
    (hapart : ReadApart fs inode buf n) (hm : SameOutside fs buf n m)
    (hlen : fs.fileLength inode + 1 < INODE_SIZE * BLOCK_SIZE) :
    ∀ (rest bytesRead : Nat), bytesRead + rest ≤ n → bytesRead + offset < 4294967296 →
      let g := fun k => fs.byteAt inode (offset + k)
      readDataMemLoop fs inode offset buf rest bytesRead ((bytesRead + offset) / BLOCK_SIZE)
          (fs.byteAddr inode (bytesRead + offset)) (storeBytes m (bufAddr buf) g bytesRead)
        = (bytesRead + fs.avail inode (bytesRead + offset) rest,
            storeBytes m (bufAddr buf) g
              (bytesRead + fs.avail inode (bytesRead + offset) rest))
  | 0, bytesRead, _, _ => by
      have hz : fs.avail inode (bytesRead + offset) 0 = 0 := Nat.zero_min _
      intro g
      rw [hz]
      rfl
  | rest + 1, bytesRead, hle, hlt => by
      intro g
      have haddr : addr (bytesRead + offset) = bytesRead + offset := Nat.mod_eq_of_lt hlt
      have hcur := storeBytes_sameOutside g (show bytesRead ≤ n by omega) hm
      have hnext : SameOutside fs buf n (storeBytes m (bufAddr buf) g (bytesRead + 1)) :=
        storeBytes_sameOutside g (by omega) hm
      unfold readDataMemLoop
      rw [hapart.length hcur, haddr]
      by_cases hend : bytesRead + offset > fs.fileLength inode
      · rw [if_pos hend, fs.avail_end _ hend]
        rfl
      · have hq : bytesRead + 1 + offset = bytesRead + offset + 1 := by omega
        have hs : bytesRead + fs.avail inode (bytesRead + offset) (rest + 1)
            = bytesRead + 1 + fs.avail inode (bytesRead + 1 + offset) rest := by
          rw [fs.avail_succ rest (Nat.le_of_not_lt hend), hq]
          omega
        have hbyte : Function.update (storeBytes m (bufAddr buf) g bytesRead)
              (bufAddr buf bytesRead) (storeBytes m (bufAddr buf) g bytesRead
                (fs.byteAddr inode (bytesRead + offset)))
            = storeBytes m (bufAddr buf) g (bytesRead + 1) := by
          rw [hapart.byteAt hcur (by omega), Nat.add_comm bytesRead offset]
          rfl
        have ih := @readDataMemLoop_eq fs inode offset buf n m hapart hm hlen rest (bytesRead + 1)
          (by omega) (by
            unfold INODE_SIZE BLOCK_SIZE at hlen
            omega)
        rw [if_neg hend, hs, hbyte]
        -- After the last requested byte the pointer is no longer read.
        by_cases hrest : rest = 0
        · subst hrest
          rw [if_neg (by omega)]
          exact ih
        · dsimp only at ih ⊢
          rw [hq] at ih ⊢
          by_cases hblk : (bytesRead + offset + 1) % BLOCK_SIZE = 0
          · obtain ⟨hnum, hptr⟩ := byteAddr_next_block fs inode (bytesRead + offset) hblk
            have hindex : (bytesRead + offset) / BLOCK_SIZE + 1 < INODE_SIZE := by
              unfold INODE_SIZE BLOCK_SIZE at *
              omega
            rw [if_pos ⟨(byteAddr_block_end fs inode _).mpr hblk, Nat.pos_of_ne_zero hrest⟩,
              hapart.datablockNum hnext hindex, hptr, hnum, ih]
          · have hnum : (bytesRead + offset) / BLOCK_SIZE
                = (bytesRead + offset + 1) / BLOCK_SIZE := by
              unfold BLOCK_SIZE at *
              omega
            rw [if_neg (fun h => hblk ((byteAddr_block_end fs inode _).mp h.1)),
              byteAddr_succ fs inode _ hblk, hnum, ih]

/-- **The memory after `read_data`**: the buffer is cleared, and then filled with the bytes
of the file from `offset` on, as many as there are. -/
theorem readDataMem_fill {fs : FileSys} {inode offset buf n : Nat} (hinode : inode < DIR_ENTRIES)
    (hbuf : addr buf ≠ 0) (hapart : ReadApart fs inode buf n)
    (hlen : fs.fileLength inode + 1 < INODE_SIZE * BLOCK_SIZE)
    (hoffset : offset ≤ fs.fileLength inode + 1) :
    readDataMem fs inode offset buf n
      = (asInt32 (fs.avail inode offset n),
          storeBytes (memset fs.mem buf 0 n) (bufAddr buf)
            (fun k => fs.byteAt inode (offset + k)) (fs.avail inode offset n)) := by
  have hm : SameOutside fs buf n (memset fs.mem buf 0 n) :=
    storeBytes_sameOutside (fun _ => 0) (Nat.le_refl n) fun _ _ => rfl
  have hindex : offset / BLOCK_SIZE < INODE_SIZE := by
    unfold INODE_SIZE BLOCK_SIZE at *
    omega
  have hloop := @readDataMemLoop_eq fs inode offset buf n _ hapart hm hlen n 0 (by omega) (by
    unfold INODE_SIZE BLOCK_SIZE at hlen
    omega)
  have hok : ¬ (inode ≥ DIR_ENTRIES ∨ addr buf = 0) := fun h =>
    h.elim (fun hge => absurd hinode (Nat.not_lt.mpr hge)) hbuf
  unfold readDataMem
  dsimp only at hloop ⊢
  rw [if_neg hok, hapart.datablockNum hm hindex]
  rw [Nat.zero_add, Nat.zero_add] at hloop
  exact congrArg (fun r : Nat × Mem => (asInt32 r.1, r.2)) hloop

/-- `readDataMem` stores what `readData` returns. -/
theorem readDataMem_eq {fs : FileSys} {inode offset buf n : Nat} (hinode : inode < DIR_ENTRIES)
    (hbuf : addr buf ≠ 0) (hapart : ReadApart fs inode buf n) (hn : n < 4294967296)
    (hlen : fs.fileLength inode + 1 < INODE_SIZE * BLOCK_SIZE)
    (hoffset : offset ≤ fs.fileLength inode + 1) :
    readDataMem fs inode offset buf n
      = ((readData fs inode offset false n).ret,
          storeBytes fs.mem (bufAddr buf) (ofList (readData fs inode offset false n).stored)
            n) := by
  have hl : fs.fileLength inode + 1 < 4294967296 := by
    unfold INODE_SIZE BLOCK_SIZE at hlen
    omega
  have hle : fs.avail inode offset n ≤ n := Nat.min_le_left _ _
  rw [readDataMem_fill hinode hbuf hapart hlen hoffset, readData_valid fs offset n hinode,
    readDataBytes_length fs inode offset n hl (by omega)]
  dsimp only
  unfold memset
  rw [storeBytes_storeBytes fs.mem (bufAddr buf) (fun _ => 0) _ hle
    fun i hi j hj h => bufAddr_inj hn hi hj h]
  refine congrArg (Prod.mk _) (storeBytes_congr fs.mem (bufAddr buf) fun k hk => ?_)
  rw [readDataBytes_eq fs inode offset n hl (by omega)]
  simp only [ofList, List.getD_eq_getElem?_getD]
  by_cases hlt : k < fs.avail inode offset n
  · rw [if_pos hlt, List.getElem?_append_left (by simpa using hlt)]
    simp [hlt]
  · rw [if_neg hlt, List.getElem?_append_right (by simpa using hlt), List.getElem?_replicate]
    split <;> rfl

/-! ## The layout of `filesys_init` -/

/-- Where byte `pos` of data block `num` lies: the data blocks follow the boot block and the
inodes. -/
def FileSys.blockAddr (fs : FileSys) (num pos : Nat) : Nat :=
  fs.modStart + BLOCK_SIZE * (1 + fs.inodes + num) + pos

/-- The end of the last data block. -/
def FileSys.imageEnd (fs : FileSys) : Nat := fs.blockAddr fs.datablocks 0

/-- The addresses of the image, and of the inode's block should it lie behind the image. -/
def FileSys.Occupies (fs : FileSys) (inode x : Nat) : Prop :=
  (fs.modStart ≤ x ∧ x < fs.imageEnd) ∨
    (fs.inodeAddr inode ≤ x ∧ x < fs.inodeAddr inode + BLOCK_SIZE)

/-- Position `q` of a file lies at position `q % 4096` of its block `q / 4096`. -/
theorem FileSys.byteAddr_eq {fs : FileSys} (hfits : fs.imageEnd ≤ 2147483648) {inode q : Nat}
    (hblock : fs.datablockNum inode (q / BLOCK_SIZE) < fs.datablocks) :
    fs.byteAddr inode q
      = fs.blockAddr (fs.datablockNum inode (q / BLOCK_SIZE)) (q % BLOCK_SIZE) := by
  unfold FileSys.byteAddr FileSys.dataBlocks FileSys.inodeHead FileSys.imageEnd
    FileSys.blockAddr addr at *
  generalize fs.datablockNum inode (q / BLOCK_SIZE) = num at *
  unfold BLOCK_SIZE at *
  omega

/-- A buffer outside the image is apart from what a read of the image looks at. -/
theorem FileSys.readApart {fs : FileSys} (hfits : fs.imageEnd ≤ 2147483648)
    {inode buf n : Nat} (hinode : inode < DIR_ENTRIES)
    (hblocks : ∀ i ≤ fs.fileLength inode / BLOCK_SIZE, fs.datablockNum inode i < fs.datablocks)
    (hbuf : ∀ k < n, ¬ fs.Occupies inode (bufAddr buf k)) : ReadApart fs inode buf n where
  block := by
    intro k hk i hi heq
    refine hbuf k hk (Or.inr ?_)
    omega
  bytes := by
    intro k hk q hq heq
    have hblock := hblocks (q / BLOCK_SIZE) (Nat.div_le_div_right hq)
    have haddr := fs.byteAddr_eq hfits hblock
    have hmod : q % BLOCK_SIZE < BLOCK_SIZE := Nat.mod_lt _ (by decide)
    refine hbuf k hk (Or.inl ?_)
    rw [heq, haddr]
    unfold FileSys.imageEnd FileSys.blockAddr BLOCK_SIZE at *
    omega
  inside := by
    unfold FileSys.inodeAddr FileSys.inodeHead FileSys.imageEnd FileSys.blockAddr addr
      DIR_ENTRIES BLOCK_SIZE at *
    omega

/-! ## What a read delivers -/

/-- **`read_data` delivers the right bytes.** If it returns `r`, then the first `r` bytes of
the buffer are those of the file from `offset` on, each from its place in its data block; the
rest of the buffer is zero, and no other byte of the memory has changed. -/
theorem readData_delivers {fs : FileSys} {inode offset buf n r : Nat}
    (hfits : fs.imageEnd ≤ 2147483648) (hinode : inode < DIR_ENTRIES)
    (hlen : fs.fileLength inode ≤ INODE_SIZE * BLOCK_SIZE - 2)
    (hblocks : ∀ i ≤ fs.fileLength inode / BLOCK_SIZE, fs.datablockNum inode i < fs.datablocks)
    (hbuf : ∀ k < n, ¬ fs.Occupies inode (bufAddr buf k))
    (hoffset : offset ≤ fs.fileLength inode + 1) (hn : n < 4294967296)
    (hret : (readDataMem fs inode offset buf n).1 = (r : Nat)) :
    (∀ k < r, (readDataMem fs inode offset buf n).2 (bufAddr buf k)
      = fs.mem (fs.blockAddr (fs.datablockNum inode ((offset + k) / BLOCK_SIZE))
          ((offset + k) % BLOCK_SIZE))) ∧
    (∀ k < n, r ≤ k → (readDataMem fs inode offset buf n).2 (bufAddr buf k) = 0) ∧
    ∀ x, (∀ k < n, bufAddr buf k ≠ x) →
      (readDataMem fs inode offset buf n).2 x = fs.mem x := by
  have hapart := fs.readApart hfits hinode hblocks hbuf
  have hshort : fs.fileLength inode + 1 < INODE_SIZE * BLOCK_SIZE := by
    unfold INODE_SIZE BLOCK_SIZE at *
    omega
  have hnull : addr buf ≠ 0 := by
    intro h
    unfold readDataMem at hret
    rw [if_pos (Or.inr h)] at hret
    dsimp only at hret
    omega
  have hle : fs.avail inode offset n ≤ n := Nat.min_le_left _ _
  have hfill := readDataMem_fill hinode hnull hapart hshort hoffset
  have hr : r = fs.avail inode offset n := by
    rw [hfill] at hret
    dsimp only at hret
    rw [asInt32_of_lt (by
      unfold FileSys.avail INODE_SIZE BLOCK_SIZE at *
      omega)] at hret
    omega
  have hinj : ∀ {i j : Nat}, i < n → j < n → bufAddr buf i = bufAddr buf j → i = j :=
    fun hi hj h => bufAddr_inj hn hi hj h
  rw [hfill, ← hr]
  dsimp only
  refine ⟨fun k hk => ?_, fun k hk hrk => ?_, fun x hx => ?_⟩
  · have hpos : offset + k ≤ fs.fileLength inode := by
      unfold FileSys.avail at hr
      omega
    rw [storeBytes_in _ _ _ hk fun j hj h => hinj (by omega) (by omega) h,
      ← fs.byteAddr_eq hfits (hblocks _ (Nat.div_le_div_right hpos))]
    rfl
  · rw [storeBytes_out _ _ _ fun j hj h => absurd (hinj (by omega) hk h) (by omega)]
    exact storeBytes_in _ _ _ hk fun j hj h => hinj hj hk h
  · rw [storeBytes_out _ _ _ fun k hk => hx k (by omega)]
    exact storeBytes_out _ _ _ hx

/-- The small image with one data block. -/
def blockImage : FileSys :=
  { sampleImage with mem := Function.update sampleImage.mem 8 1 }

theorem readData_delivers_shell :
    (∀ k < 4, (readDataMem blockImage 0 0 20000 6).2 (bufAddr 20000 k)
      = blockImage.mem (blockImage.blockAddr (blockImage.datablockNum 0 ((0 + k) / BLOCK_SIZE))
          ((0 + k) % BLOCK_SIZE))) ∧
    (∀ k < 6, 4 ≤ k → (readDataMem blockImage 0 0 20000 6).2 (bufAddr 20000 k) = 0) ∧
    ∀ x, (∀ k < 6, bufAddr 20000 k ≠ x) →
      (readDataMem blockImage 0 0 20000 6).2 x = blockImage.mem x := by
  refine readData_delivers (by decide +kernel) (by decide) (by decide +kernel) ?_ ?_
    (by decide) (by decide) (by decide +kernel)
  · intro i hi
    have hz : i = 0 := Nat.le_zero.mp hi
    subst hz
    decide +kernel
  · intro k hk
    unfold FileSys.Occupies
    have hend : blockImage.imageEnd = 16384 := by decide +kernel
    have hblock : blockImage.inodeAddr 0 = 4096 := by decide +kernel
    rw [hend, hblock]
    unfold bufAddr addr BLOCK_SIZE
    omega

end Ext2Kernel
