import Ext2Kernel.Process.DescriptorCalls

set_option autoImplicit false

/-! # Reading what has been opened

`sys_open` takes the inode number from the directory entry and does not look at it. `read_data`
refuses inode numbers from `DIR_ENTRIES` on, the length of the directory table, whatever the
number of inodes of the image is. So an image with more inodes has files that open and cannot
be read, and an image with fewer has numbers that are read although no inode is behind them.
-/

namespace Ext2Kernel

open ByteMem

/-- The regular files of the directory have inodes of the image. -/
def FileSys.RegularInodes (fs : FileSys) : Prop :=
  ∀ i < fs.entries, ∀ d, readDentryByIndex fs i = some d → d.fileType = FILE_TYPE →
    d.inode < fs.inodes

/-! ## The test of `read_data` -/

/-- A valid inode is never answered with -1: at most `n` bytes are copied. -/
theorem readData_ret_nonneg (fs : FileSys) {inode n : Nat} (offset : Nat)
    (hi : inode < DIR_ENTRIES) (hn : n < 2147483648) :
    0 ≤ (readData fs inode offset false n).ret := by
  have hle : (readDataBytes fs inode offset n).length ≤ n := readDataLoop_length_le ..
  rw [readData_valid fs offset n hi]
  dsimp only
  rw [asInt32_of_lt (by omega)]
  exact Int.natCast_nonneg _

theorem readData_invalid (fs : FileSys) {inode : Nat} (offset : Nat) (bufNull : Bool) (n : Nat)
    (hi : DIR_ENTRIES ≤ inode) : readData fs inode offset bufNull n = ⟨-1, []⟩ :=
  if_pos (Or.inl hi)

/-- Every number from `inodes` on is refused exactly if there are at least as many inodes as
entries of the table. -/
theorem readData_refuses_iff (fs : FileSys) :
    (∀ inode, fs.inodes ≤ inode → ∀ offset bufNull n,
      (readData fs inode offset bufNull n).ret = -1) ↔ DIR_ENTRIES ≤ fs.inodes := by
  constructor
  · intro h
    by_contra hlt
    have hret := h fs.inodes (Nat.le_refl _) 0 false 0
    have hnonneg := readData_ret_nonneg fs 0 (Nat.lt_of_not_le hlt) (show 0 < 2147483648 by omega)
    omega
  · intro h inode hinode offset bufNull n
    rw [readData_invalid fs offset bufNull n (Nat.le_trans h hinode)]

namespace Kernel

/-! ## Reading a descriptor -/

/-- A read of an open descriptor for a regular file, in any state. -/
theorem sysRead_openFile (fs : FileSys) {k : Kernel} {p : Slot} {i : Fin 8} {f : FileDesc}
    (stack : Mem) {nbytes : Int} (hcur : k.cur = some p) (hf : (k.pcb p).fileDescArray i = f)
    (hops : f.fileOpsTable = some .file) (hopen : f.IsOpen) (hn : 0 < nbytes) :
    ∃ k', k.sysRead fs stack i.val false nbytes
      = some (.done (readData fs f.inode f.filePosition false nbytes.toNat), k') := by
  subst hf
  have hfd : OpenFd (k.pcb p) i.val := by
    refine ⟨by omega, by omega, ?_⟩
    rw [fdIdx_natCast]
    exact hopen
  rw [sysRead_open fs stack hcur hfd hn, fdIdx_natCast, hops, Option.bind_some]
  unfold readOp sysReadFile
  dsimp only
  split
  · exact ⟨_, rfl⟩
  · exact ⟨_, rfl⟩

/-- What `sys_open` leaves in the table for a regular file. -/
theorem sysOpen_file {fs : FileSys} {k k' : Kernel} {p : Slot} {name : List UInt8} {d : Dentry}
    {fd : Int} (hcur : k.cur = some p) (hd : readDentryByName fs (some name) = some d)
    (htype : d.fileType = FILE_TYPE) (hopen : k.sysOpen fs (some name) = some (fd, k'))
    (hfd : fd ≠ -1) : ∃ i : Fin 8, fd = i.val ∧ k'.cur = some p ∧
      (k'.pcb p).fileDescArray i = ⟨some .file, d.inode, 0, 1⟩ := by
  have hf : openedDesc d = some ⟨some .file, d.inode, 0, 1⟩ := by
    unfold openedDesc
    rw [htype]
    rfl
  unfold sysOpen at hopen
  rw [hcur, Option.bind_some] at hopen
  split at hopen
  · cases hopen
    exact absurd rfl hfd
  · rename_i i _
    rw [hd] at hopen
    dsimp only [Option.getD_some] at hopen
    obtain ⟨k₁, hk₁, hsets⟩ := openType_sets hcur hd hf i
    rw [hk₁] at hopen
    cases hopen
    refine ⟨i, rfl, hsets.cur.trans hcur, ?_⟩
    rw [hsets.table, Function.update_self]

/-! ## What opens can be read -/

/-- The opening check and the reading check agree on descriptor `fd`, which process `p` has
been given in state `k`. -/
structure Readable (fs : FileSys) (k : Kernel) (p : Slot) (fd : Int) : Prop where
  /-- As long as the descriptor is open for the same inode, no read returns -1, at whatever
  position. -/
  reads : ∀ (k₂ : Kernel) (stack : Mem) (nbytes : Int), k₂.cur = some p →
    ((k₂.pcb p).fileDescArray (fdIdx fd)).fileOpsTable
      = ((k.pcb p).fileDescArray (fdIdx fd)).fileOpsTable →
    ((k₂.pcb p).fileDescArray (fdIdx fd)).inode = ((k.pcb p).fileDescArray (fdIdx fd)).inode →
    ((k₂.pcb p).fileDescArray (fdIdx fd)).IsOpen → 0 < nbytes → nbytes < 2147483648 →
    ∃ r k₃, k₂.sysRead fs stack fd false nbytes = some (.done r, k₃) ∧ r.ret ≠ -1
  /-- Numbers behind the inodes of the image are refused. -/
  refuses : ∀ inode, fs.inodes ≤ inode → ∀ offset bufNull n,
    (readData fs inode offset bufNull n).ret = -1

/-- **The two checks agree exactly for a file whose inode number is below `DIR_ENTRIES`, in an
image with at least `DIR_ENTRIES` inodes.** -/
theorem opened_readable_iff {fs : FileSys} {k k' : Kernel} {p : Slot} {name : List UInt8}
    {d : Dentry} {fd : Int} (hcur : k.cur = some p)
    (hd : readDentryByName fs (some name) = some d) (htype : d.fileType = FILE_TYPE)
    (hopen : k.sysOpen fs (some name) = some (fd, k')) (hfd : fd ≠ -1) :
    Readable fs k' p fd ↔ d.inode < DIR_ENTRIES ∧ DIR_ENTRIES ≤ fs.inodes := by
  obtain ⟨i, rfl, hcur', hdesc⟩ := sysOpen_file hcur hd htype hopen hfd
  constructor
  · intro hread
    refine ⟨?_, (readData_refuses_iff fs).mp hread.refuses⟩
    by_contra hge
    have hopen' : ((k'.pcb p).fileDescArray (fdIdx i.val)).IsOpen := by
      rw [fdIdx_natCast, hdesc]
      exact Nat.one_ne_zero
    -- the read right after the call already fails
    obtain ⟨r, k₃, hr, hret⟩ := hread.reads k' (fun _ => 0) 1 hcur' rfl rfl hopen' (by omega)
      (by omega)
    rw [fdIdx_natCast] at hopen'
    obtain ⟨k₄, hk₄⟩ := sysRead_openFile fs (fun _ => 0) hcur' rfl (by rw [hdesc]) hopen'
      (show (0 : Int) < 1 by omega)
    rw [hk₄, hdesc, readData_invalid fs _ _ _ (Nat.le_of_not_lt hge)] at hr
    cases hr
    exact hret rfl
  · rintro ⟨hinode, hinodes⟩
    refine ⟨?_, (readData_refuses_iff fs).mpr hinodes⟩
    intro k₂ stack nbytes hcur₂ hops hsame hopen₂ hpos hlt
    rw [fdIdx_natCast, hdesc] at hops hsame
    rw [fdIdx_natCast] at hopen₂
    obtain ⟨k₃, hk₃⟩ := sysRead_openFile fs stack hcur₂ rfl hops hopen₂ hpos
    refine ⟨_, k₃, hk₃, ?_⟩
    have hnonneg := readData_ret_nonneg fs (n := nbytes.toNat)
      ((k₂.pcb p).fileDescArray i).filePosition (show d.inode < DIR_ENTRIES from hinode) (by omega)
    rw [← show ((k₂.pcb p).fileDescArray i).inode = d.inode from hsame] at hnonneg
    omega

/-- The first shell opens `big`; the small image has two inodes. -/
theorem opened_readable_iff_big : ∃ (k k' : Kernel) (fd : Int) (d : Dentry),
    Reachable sampleImage k ∧ k.sysOpen sampleImage (some (ascii "big")) = some (fd, k') ∧
    (Readable sampleImage k' 0 fd ↔
      d.inode < DIR_ENTRIES ∧ DIR_ENTRIES ≤ sampleImage.inodes) := by
  have hd : readDentryByName sampleImage (some (ascii "big"))
      = some (sampleDentry (ascii "big") 1) := by decide +kernel
  obtain ⟨k, k', i, hreach, hcur, hk', _⟩ := sampleImage_open hd rfl
  exact ⟨k, k', _, _, hreach, hk', opened_readable_iff hcur hd rfl hk' (by omega)⟩

/-- The small image with 64 inodes, the last of which belongs to `big`. -/
def manyInodesImage : FileSys where
  modStart := 0
  mem := fun a =>
    if a = 4 then 64
    else if a = 228 then 63
    else if 266240 ≤ a then ofList [0x7F, 0x45, 0x4C, 0x46] (a - 266240)
    else if 8192 ≤ a then 0
    else sampleImage.mem a

/-- In that image `big` opens, and no read of it succeeds. -/
theorem last_inode_unreadable :
    ¬ ∀ (fs : FileSys) (k k' : Kernel) (p : Slot) (name : List UInt8) (d : Dentry) (fd : Int),
      fs.RegularInodes → Reachable fs k → k.cur = some p →
      readDentryByName fs (some name) = some d → d.fileType = FILE_TYPE →
      k.sysOpen fs (some name) = some (fd, k') → fd ≠ -1 → Readable fs k' p fd := by
  intro hall
  have hinodes : manyInodesImage.RegularInodes := by
    have hentries : ∀ i < 4, (readDentryByIndex manyInodesImage i).map (fun d =>
        decide (d.fileType = FILE_TYPE → d.inode < manyInodesImage.inodes)) = some true := by
      decide +kernel
    intro i hi d hd
    have hi₄ := hentries i hi
    rw [hd] at hi₄
    exact of_decide_eq_true (Option.some.inj hi₄)
  have hview : (step manyInodesImage (boot zeroMemory) (.pit zeroFrame)).map
      (fun k => decide (k.cur = some 0 ∧ freeFd (k.pcb 0) = some 2)) = some true := by
    decide +kernel
  obtain ⟨k, hk, hcur, hfree⟩ := StepSystem.exists_of_map_decide hview
  have hd : readDentryByName manyInodesImage (some (ascii "big"))
      = some (sampleDentry (ascii "big") 63) := by decide +kernel
  obtain ⟨k', hk', hsets⟩ := openType_sets hcur hd (show openedDesc _ = some _ from rfl) 2
  have hopen : k.sysOpen manyInodesImage (some (ascii "big")) = some (2, k') := by
    unfold sysOpen
    rw [hcur, Option.bind_some, hfree, hd]
    dsimp only [Option.getD_some]
    rw [hk']
    rfl
  have hread := hall manyInodesImage k k' 0 (ascii "big") _ 2 hinodes
    ⟨zeroMemory, (StepSystem.Reachable.refl _).trans_step hk⟩ hcur hd rfl hopen (by decide)
  have hdesc : (k'.pcb 0).fileDescArray 2 = ⟨some .file, 63, 0, 1⟩ := by
    rw [hsets.table, Function.update_self]
    rfl
  obtain ⟨r, k₃, hr, hret⟩ := hread.reads k' (fun _ => 0) 1 (hsets.cur.trans hcur) rfl rfl
    (by rw [show fdIdx 2 = 2 from rfl, hdesc]; exact Nat.one_ne_zero) (by omega) (by omega)
  obtain ⟨k₄, hk₄⟩ := sysRead_openFile manyInodesImage (fun _ => 0)
    (hsets.cur.trans hcur) hdesc rfl Nat.one_ne_zero (show (0 : Int) < 1 by omega)
  have hr₂ := hk₄.symm.trans hr
  cases hr₂
  exact hret rfl

end Kernel

end Ext2Kernel
