import Ext2Kernel.FileSys.ReadData

set_option autoImplicit false

/-! # The end of a file

What `read_data` touches: the entries of `datablock_nums` it uses and the file positions it
fetches. `readDataTrace` is the loop once more, with the list of these accesses as its result;
`readDataBytes_eq_fetched` says that it fetches exactly the bytes the loop copies.

A file of `length` bytes has the positions below `length` and uses the first
`ceil(length / 4096)` entries. The loop breaks only when `bytes_read + offset > length`, one
position late, and the first entry is looked up before the position is tested at all.
`readData_stops_iff` says for which requests this shows.
-/

namespace Ext2Kernel

open ByteMem

/-! ## Well-formed images -/

/-- How many blocks a file of `length` bytes occupies. -/
def blockCount (length : Nat) : Nat := (length + BLOCK_SIZE - 1) / BLOCK_SIZE

/-- Every inode has a length the format allows, and its blocks are in the image. -/
structure FileSys.WellFormed (fs : FileSys) : Prop where
  length_le : ∀ inode < fs.inodes, fs.fileLength inode ≤ INODE_SIZE * BLOCK_SIZE
  block_lt : ∀ inode < fs.inodes, ∀ i < blockCount (fs.fileLength inode),
    fs.datablockNum inode i < fs.datablocks

/-! ## The accesses of a read -/

/-- One access: an entry of `datablock_nums`, or a data byte by its position in the file and
the address it is fetched from. -/
inductive Access where
  | entry (index : Nat)
  | byte (position address : Nat)
  deriving DecidableEq

/-- The loop of `read_data`, listing what it accesses. -/
def readDataLoopTrace (fs : FileSys) (inode offset : Nat) : Nat → Nat → Nat → Nat → List Access
  | 0, _, _, _ => []
  | length + 1, bytesRead, dataBlockNum, dataCur =>
      if addr (bytesRead + offset) > fs.fileLength inode then []
      else
        let dataCur' := addr (dataCur + 1)
        if ((dataCur' : Int) - fs.dataBlocks) % BLOCK_SIZE = 0 ∧ length > 0 then
          .byte (bytesRead + offset) dataCur :: .entry (dataBlockNum + 1) ::
            readDataLoopTrace fs inode offset length (bytesRead + 1) (dataBlockNum + 1)
              (addr (fs.dataBlocks + BLOCK_SIZE * fs.datablockNum inode (dataBlockNum + 1)))
        else
          .byte (bytesRead + offset) dataCur ::
            readDataLoopTrace fs inode offset length (bytesRead + 1) dataBlockNum dataCur'

/-- The accesses of `read_data`. The entry of the first block is looked up before the loop. -/
def readDataTrace (fs : FileSys) (inode offset length : Nat) : List Access :=
  if inode ≥ DIR_ENTRIES then []
  else
    .entry (offset / BLOCK_SIZE) ::
      readDataLoopTrace fs inode offset length 0 (offset / BLOCK_SIZE)
        (addr (fs.dataBlocks + BLOCK_SIZE * fs.datablockNum inode (offset / BLOCK_SIZE)
          + offset % BLOCK_SIZE))

/-- The data byte an access fetches. -/
def FileSys.fetched (fs : FileSys) : Access → Option UInt8
  | .entry _ => none
  | .byte _ address => some (fs.mem address)

theorem readDataLoop_eq_fetched (fs : FileSys) (inode offset : Nat) :
    ∀ (n bytesRead num cur : Nat), readDataLoop fs inode offset n bytesRead num cur
      = (readDataLoopTrace fs inode offset n bytesRead num cur).filterMap fs.fetched
  | 0, _, _, _ => rfl
  | n + 1, bytesRead, num, cur => by
      have ih := readDataLoop_eq_fetched fs inode offset n (bytesRead + 1)
      unfold readDataLoop readDataLoopTrace
      dsimp only
      split
      · rfl
      · split <;> (rw [ih]; rfl)

/-- The bytes `read_data` copies are those of its trace. -/
theorem readDataBytes_eq_fetched (fs : FileSys) {inode : Nat} (offset n : Nat)
    (hi : inode < DIR_ENTRIES) :
    readDataBytes fs inode offset n
      = (readDataTrace fs inode offset n).filterMap fs.fetched := by
  unfold readDataBytes readDataTrace
  rw [if_neg (Nat.not_le.mpr hi), readDataLoop_eq_fetched]
  rfl

/-! ## What stays inside a file -/

/-- An access that stays inside a file of `length` bytes. -/
def Access.Inside (length : Nat) : Access → Prop
  | .entry index => index < blockCount length
  | .byte position _ => position < length

/-- A read that stops at the end of the file: it returns the bytes that are left, as many as
were asked for, and touches nothing behind them. -/
def StopsAtEnd (fs : FileSys) (inode offset n : Nat) : Prop :=
  (readData fs inode offset false n).ret
      = (if offset < fs.fileLength inode then ((min n (fs.fileLength inode - offset) : Nat) : Int)
         else 0) ∧
    ∀ a ∈ readDataTrace fs inode offset n, a.Inside (fs.fileLength inode)

/-- The block of a position below the end is one of the file's. -/
theorem div_lt_blockCount {q length : Nat} (h : q < length) :
    q / BLOCK_SIZE < blockCount length := by
  unfold blockCount BLOCK_SIZE
  omega

/-- A request that ends inside the file keeps every access of the loop inside. The next block
is looked up only when more bytes are wanted, so its first position is below the end too. -/
theorem readDataLoopTrace_inside (fs : FileSys) (inode offset : Nat) :
    ∀ (n bytesRead : Nat), bytesRead + offset + n ≤ fs.fileLength inode →
      ∀ a ∈ readDataLoopTrace fs inode offset n bytesRead ((bytesRead + offset) / BLOCK_SIZE)
        (fs.byteAddr inode (bytesRead + offset)), a.Inside (fs.fileLength inode)
  | 0, _, _ => by simp [readDataLoopTrace]
  | n + 1, bytesRead, hle => by
      have hq : bytesRead + 1 + offset = bytesRead + offset + 1 := by omega
      have ih := readDataLoopTrace_inside fs inode offset n (bytesRead + 1) (by omega)
      rw [hq] at ih
      have hbyte : ∀ address, (Access.byte (bytesRead + offset) address).Inside
          (fs.fileLength inode) := fun _ => by show bytesRead + offset < _; omega
      unfold readDataLoopTrace
      split
      · simp
      · dsimp only
        by_cases hblk : (bytesRead + offset + 1) % BLOCK_SIZE = 0
        · obtain ⟨hnum, hcur⟩ := byteAddr_next_block fs inode (bytesRead + offset) hblk
          rw [hcur, hnum]
          split
          · rename_i hmore
            have hentry : (Access.entry ((bytesRead + offset + 1) / BLOCK_SIZE)).Inside
                (fs.fileLength inode) := by
              apply div_lt_blockCount
              omega
            simp only [List.mem_cons, forall_eq_or_imp]
            exact ⟨hbyte _, hentry, ih⟩
          · rename_i hlast
            -- The last requested byte ends a block: the loop is over.
            have hn : n = 0 := by
              by_contra hne
              exact hlast ⟨(byteAddr_block_end fs inode _).mpr hblk, Nat.pos_of_ne_zero hne⟩
            subst hn
            simp only [readDataLoopTrace, List.mem_cons, List.not_mem_nil, or_false, forall_eq]
            exact hbyte _
        · have hnum : (bytesRead + offset) / BLOCK_SIZE
              = (bytesRead + offset + 1) / BLOCK_SIZE := by
            unfold BLOCK_SIZE at *; omega
          rw [if_neg (fun h => hblk ((byteAddr_block_end fs inode _).mp h.1)),
            byteAddr_succ fs inode _ hblk, hnum]
          simp only [List.mem_cons, forall_eq_or_imp]
          exact ⟨hbyte _, ih⟩

/-- Behind the last position the loop breaks at once. -/
theorem readDataLoopTrace_past (fs : FileSys) (inode : Nat) {offset : Nat} (n num cur : Nat)
    (h : fs.fileLength inode < addr offset) :
    readDataLoopTrace fs inode offset n 0 num cur = [] := by
  cases n with
  | zero => rfl
  | succ n =>
      unfold readDataLoopTrace
      rw [Nat.zero_add, if_pos h]

/-- The requests for which `read_data` does stop at the end: inside the file those that do not
reach past the end; at the end only the empty one, and one position behind it any, as long as
the position looked up first is not in a block the file does not have. -/
def EndsInside (length offset n : Nat) : Prop :=
  (offset < length ∧ offset + n ≤ length) ∨
  (offset = length ∧ n = 0 ∧ length % BLOCK_SIZE ≠ 0) ∨
  (offset = length + 1 ∧ length % BLOCK_SIZE ≠ 0 ∧ (length + 1) % BLOCK_SIZE ≠ 0)

section

variable {fs : FileSys} {inode offset n : Nat}

/-- The return value of a read from a position of the file or just behind it. -/
theorem readData_ret (hi : inode < DIR_ENTRIES)
    (hl : fs.fileLength inode ≤ INODE_SIZE * BLOCK_SIZE) (ho : offset ≤ fs.fileLength inode + 1) :
    (readData fs inode offset false n).ret = ((fs.avail inode offset n : Nat) : Int) := by
  have hl' : fs.fileLength inode ≤ 4190208 := hl
  have havail : fs.avail inode offset n ≤ fs.fileLength inode + 1 := by
    unfold FileSys.avail
    omega
  rw [readData_valid fs offset n hi]
  dsimp only
  rw [readDataBytes_length fs inode offset n (by omega) (by omega), asInt32_of_lt (by omega)]

/-- The first block is one the file has. -/
theorem first_block_iff (length : Nat) (ho : offset ≤ length + 1) :
    offset / BLOCK_SIZE < blockCount length ↔
      offset < length ∨ (offset = length ∧ length % BLOCK_SIZE ≠ 0) ∨
        (offset = length + 1 ∧ length % BLOCK_SIZE ≠ 0 ∧ (length + 1) % BLOCK_SIZE ≠ 0) := by
  unfold blockCount BLOCK_SIZE
  omega

/-- **`read_data` stops at the end of a file for exactly these requests.** -/
theorem readData_stops_iff (hwf : fs.WellFormed) (hinode : inode < fs.inodes)
    (ho : offset ≤ fs.fileLength inode + 1) :
    StopsAtEnd fs inode offset n ↔
      inode < DIR_ENTRIES ∧ EndsInside (fs.fileLength inode) offset n := by
  have hl := hwf.length_le inode hinode
  constructor
  · rintro ⟨hret, hinside⟩
    have hi : inode < DIR_ENTRIES := by
      by_contra hge
      rw [show readData fs inode offset false n = ⟨-1, []⟩ from
        if_pos (Or.inl (Nat.le_of_not_lt hge))] at hret
      dsimp only at hret
      split at hret <;> omega
    have hfirst : offset / BLOCK_SIZE < blockCount (fs.fileLength inode) := by
      unfold readDataTrace at hinside
      rw [if_neg (Nat.not_le.mpr hi)] at hinside
      exact hinside (.entry (offset / BLOCK_SIZE)) List.mem_cons_self
    rw [first_block_iff _ ho] at hfirst
    rw [readData_ret hi hl ho] at hret
    unfold FileSys.avail at hret
    refine ⟨hi, ?_⟩
    unfold EndsInside
    split at hret <;> omega
  · rintro ⟨hi, hends⟩
    have hlen : fs.fileLength inode ≤ 4190208 := hl
    refine ⟨?_, ?_⟩
    · rw [readData_ret hi hl ho]
      unfold EndsInside at hends
      unfold FileSys.avail
      split <;> omega
    · have hfirst : offset / BLOCK_SIZE < blockCount (fs.fileLength inode) := by
        rw [first_block_iff _ ho]
        unfold EndsInside at hends
        omega
      unfold readDataTrace
      rw [if_neg (Nat.not_le.mpr hi)]
      simp only [List.mem_cons, forall_eq_or_imp]
      refine ⟨hfirst, ?_⟩
      by_cases hpast : offset = fs.fileLength inode + 1
      · have haddr : addr offset = offset := Nat.mod_eq_of_lt (by omega)
        rw [readDataLoopTrace_past fs inode n _ _ (by rw [haddr]; omega)]
        simp
      · have hle : 0 + offset + n ≤ fs.fileLength inode := by
          unfold EndsInside at hends
          omega
        have := readDataLoopTrace_inside fs inode offset n 0 hle
        rw [Nat.zero_add] at this
        exact this

end

/-! ## One file of three bytes -/

/-- One inode and one data block; the file holds `abc`. -/
def threeByteImage : FileSys where
  modStart := 0
  mem := fun a =>
    if a = 4 then 1
    else if a = 8 then 1
    else if a = 4096 then 3
    else if 8192 ≤ a then ofList [0x61, 0x62, 0x63] (a - 8192)
    else 0

theorem threeByteImage_wellFormed : threeByteImage.WellFormed where
  length_le := by decide +kernel
  block_lt := by decide +kernel

theorem readData_stops_threeBytes :
    threeByteImage.WellFormed ∧ StopsAtEnd threeByteImage 0 1 2 :=
  ⟨threeByteImage_wellFormed,
    (readData_stops_iff threeByteImage_wellFormed (by decide +kernel) (by decide +kernel)).mpr
      ⟨by decide, Or.inl (by decide +kernel)⟩⟩

/-- Four bytes asked of three: the read returns 4. -/
theorem readData_runs_past_end : ¬ ∀ fs : FileSys, fs.WellFormed → ∀ inode < fs.inodes,
    ∀ offset ≤ fs.fileLength inode + 1, ∀ n, StopsAtEnd fs inode offset n := by
  intro hall
  obtain ⟨hret, _⟩ := hall threeByteImage threeByteImage_wellFormed 0 (by decide +kernel) 0
    (by decide +kernel) 4
  exact absurd hret (by decide +kernel)

end Ext2Kernel
