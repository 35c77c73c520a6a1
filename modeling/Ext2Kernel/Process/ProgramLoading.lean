import Ext2Kernel.Process.ExecutableCheck
import Ext2Kernel.Process.TreeRuns

set_option autoImplicit false

/-! # Program loading

What a successful `sys_execute` does to user memory and to the entry point of the new process.
The loader clears as many bytes from `PROGRAM_IMAGE` on as the file has, and copies the file
there. `PROGRAM_IMAGE` lies 288KB into the user page, so that a file longer than the rest of the
page is stored into the page behind it: the video page at 132MB, if a `vidmap` has left it
mapped.
-/

namespace Ext2Kernel

open ByteMem

/-! ## The stores of the loader -/

/-- The stores of `_execute_user_program_loader`, by their virtual address. -/
def userProgramLoaderStores (fs : FileSys) (progName : List UInt8) :
    Option (List (Nat × UInt8)) :=
  let inode := sysOpenFile fs progName
  (readDentryByName fs (some progName)).map fun d =>
    let programSize := fs.fileLength d.inode
    storesFrom PROGRAM_IMAGE (List.replicate programSize 0)
      ++ readDataStores fs inode 0 PROGRAM_IMAGE programSize

/-- The stores of the loader for the file `d`. -/
def fileStores (fs : FileSys) (d : Dentry) : List (Nat × UInt8) :=
  storesFrom PROGRAM_IMAGE (List.replicate (fs.fileLength d.inode) 0)
    ++ readDataStores fs d.inode 0 PROGRAM_IMAGE (fs.fileLength d.inode)

theorem userProgramLoaderStores_eq {fs : FileSys} {progName : List UInt8} {d : Dentry}
    (h : readDentryByName fs (some progName) = some d) :
    userProgramLoaderStores fs progName = some (fileStores fs d) := by
  unfold userProgramLoaderStores
  rw [sysOpenFile_eq h, h]
  rfl

/-- All stores are to the addresses the length of the file gives. -/
theorem mem_fileStores {fs : FileSys} {d : Dentry} {s : Nat × UInt8} (h : s ∈ fileStores fs d) :
    PROGRAM_IMAGE ≤ s.1 ∧ s.1 < PROGRAM_IMAGE + fs.fileLength d.inode := by
  rcases List.mem_append.mp h with h | h
  · have := mem_storesFrom h
    rwa [List.length_replicate] at this
  · exact mem_readDataStores h

/-- Each of these addresses is stored to. -/
theorem exists_fileStores (fs : FileSys) (d : Dentry) {i : Nat}
    (h : i < fs.fileLength d.inode) : ∃ s ∈ fileStores fs d, s.1 = PROGRAM_IMAGE + i := by
  obtain ⟨s, hs, heq⟩ := exists_storesFrom (k := PROGRAM_IMAGE) (j := i)
    (l := List.replicate (fs.fileLength d.inode) (0 : UInt8)) (by rwa [List.length_replicate])
  exact ⟨s, List.mem_append_left _ hs, heq⟩

/-- The stores fill user memory with what the read returns. -/
theorem storeAll_fileStores {fs : FileSys} {d : Dentry} (hinode : d.inode < DIR_ENTRIES)
    (u : Mem) :
    storeAll (fileStores fs d) u
      = overlay u PROGRAM_IMAGE
          (readData fs d.inode 0 false (fs.fileLength d.inode)).stored.length
          (ofList (readData fs d.inode 0 false (fs.fileLength d.inode)).stored) := by
  unfold fileStores
  rw [storeAll_append, storeAll_storesFrom, storeAll_readDataStores,
    readData_stored_length fs 0 _ hinode, List.length_replicate]
  funext x
  by_cases hin : PROGRAM_IMAGE ≤ x ∧ x < PROGRAM_IMAGE + fs.fileLength d.inode
  · rw [overlay_in _ _ hin.1 hin.2, overlay_in _ _ hin.1 hin.2]
  · rw [overlay_out _ _ (by omega), overlay_out _ _ (by omega), overlay_out _ _ (by omega)]

/-- A read of the whole file delivers its bytes. -/
theorem readData_whole {fs : FileSys} {inode : Nat} (hinode : inode < DIR_ENTRIES)
    (hlen : fs.fileLength inode + 1 < 4294967296) {n i : Nat} (hn : i < n)
    (hi : i < fs.fileLength inode) :
    ofList (readData fs inode 0 false n).stored i = fs.byteAt inode i := by
  have havail : i < fs.avail inode 0 n := by
    unfold FileSys.avail
    omega
  have hbyte := readData_stored_byte fs hinode hlen (by decide) havail
  rwa [Nat.zero_add] at hbyte

/-- After the check the header row holds the file, as far as both reach. -/
theorem headerRow_byte {fs : FileSys} {name : List UInt8} {d : Dentry}
    (hd : HoldsExecutable fs name d) (hlen : fs.fileLength d.inode + 1 < 4294967296)
    (header : Mem) (term : Terminal) {i : Nat} (hi : i < fs.fileLength d.inode)
    (hblock : i < BLOCK_SIZE) :
    (executeExecutableCheck fs header term name).2 (HEADER_INFO * term.val + i)
      = fs.byteAt d.inode i := by
  have hstored := readData_stored_length fs 0 BLOCK_SIZE hd.inode
  unfold executeExecutableCheck
  rw [hd.found]
  dsimp only
  rw [if_neg (by rw [hd.fileType]; exact fun h => h rfl)]
  dsimp only
  rw [overlay_add _ _ (by omega)]
  exact readData_whole hd.inode hlen hblock hi

namespace Kernel

/-! ## A call that enters a program -/

/-- A loader that succeeds: the file fits the mapped memory, and besides user memory only the
video memory can have changed. -/
theorem executeUserProgramLoader_loaded {fs : FileSys} {k k' : Kernel} {name image : List UInt8}
    {d : Dentry} (hd : readDentryByName fs (some name) = some d)
    (h : k.executeUserProgramLoader fs name = some (.loaded image, k')) :
    image = (readData fs d.inode 0 false (fs.fileLength d.inode)).stored ∧
      PROGRAM_IMAGE + fs.fileLength d.inode ≤ k.mappedEnd ∧
      ∃ v, k' = { k with console := { k.console with video := v } } := by
  unfold executeUserProgramLoader at h
  rw [hd, sysOpenFile_eq hd, Option.map_some, Option.some.injEq] at h
  by_cases hfit : PROGRAM_IMAGE + fs.fileLength d.inode > k.mappedEnd
  · rw [if_pos hfit] at h
    cases h
  · rw [if_neg hfit] at h
    by_cases hret : (readData fs d.inode 0 false (fs.fileLength d.inode)).ret = -1
    · rw [if_pos hret] at h
      cases h
    · rw [if_neg hret] at h
      cases h
      exact ⟨rfl, Nat.le_of_not_lt hfit, storeVidmap_eq k _⟩

/-- The new process gets the entry point that the header row holds. -/
theorem executeContextSwitch_eip {k k₁ : Kernel} {arg : List UInt8} {term : Terminal} {p : Slot}
    (h : k.executeCreatePCB arg term = some k₁) (hp : k.processNum = p) :
    k₁.entryPoint term = k.entryPoint term ∧
      ((k₁.executeContextSwitch term p).pcb p).eip = k.entryPoint term ∧
      (k₁.executeContextSwitch term p).curPcbPtr term = some p := by
  unfold executeCreatePCB at h
  split at h
  · cases h
    refine ⟨rfl, ?_, ?_⟩
    · unfold executeContextSwitch
      rw [modifyPcb_self]
      rfl
    · subst hp
      exact Function.update_self ..
  · cases h

/-- What a successful call did: the file passed the check and fitted the mapped memory, and the
entry point comes from the header row as the check has filled it. -/
structure EnteredProgram (fs : FileSys) (fr : Frame) (k k' : Kernel) (progName : List UInt8)
    (d : Dentry) (eip : Nat) (image : List UInt8) (p : Slot) : Prop where
  file : HoldsExecutable fs (fr.progMem progName) d
  fits : PROGRAM_IMAGE + fs.fileLength d.inode ≤ k.mappedEnd
  image : image = (readData fs d.inode 0 false (fs.fileLength d.inode)).stored
  cur : k'.curPcbPtr k.execTerm = some p
  entry : eip = word (executeExecutableCheck fs k.bufExecutableHeader k.execTerm
    (fr.progMem progName)).2 (HEADER_INFO * k.execTerm.val + 24)
  pcb : (k'.pcb p).eip = eip

theorem launch_enteredProgram {fs : FileSys} {fr : Frame} {k k' : Kernel}
    {progName arg image : List UInt8} {header : Mem} {d : Dentry} {p : Slot} {eip : Nat}
    (hd : HoldsExecutable fs (fr.progMem progName) d)
    (h : (k.prepared fr arg header).launch fs fr k.execTerm progName arg p
      = some (.enter eip image, k')) :
    PROGRAM_IMAGE + fs.fileLength d.inode ≤ k.mappedEnd ∧
      image = (readData fs d.inode 0 false (fs.fileLength d.inode)).stored ∧
      k'.curPcbPtr k.execTerm = some p ∧
      eip = word header (HEADER_INFO * k.execTerm.val + 24) ∧ (k'.pcb p).eip = eip := by
  unfold launch at h
  dsimp only at h
  cases hload : ((k.prepared fr arg header).claimed p).executeUserProgramLoader fs
      (fr.progMem progName) with
  | none =>
      unfold claimed at hload
      rw [hload] at h
      cases h
  | some r =>
      obtain ⟨r, k₂⟩ := r
      have hload' := hload
      unfold claimed at hload'
      rw [hload'] at h
      cases r with
      | failed => cases h
      | fault => cases h
      | loaded image' =>
          dsimp only at h
          obtain ⟨k₄, hcreate, heq⟩ := Option.map_eq_some_iff.mp h
          obtain ⟨himage, hfit, v, hk₂⟩ := executeUserProgramLoader_loaded hd.found hload
          rw [claimed_mappedEnd] at hfit
          -- The loader has changed no kernel variable but the video memory.
          subst hk₂
          obtain ⟨hentry, heip, hcur⟩ := executeContextSwitch_eip hcreate rfl
          cases heq
          rw [hentry]
          exact ⟨hfit, himage, hcur, rfl, heip⟩

theorem sysExecute_enteredProgram {fs : FileSys} {fr : Frame} {command : Option (List UInt8)}
    {k k' : Kernel} {progName arg image : List UInt8} {eip : Nat}
    (hparse : executeParseArgs command = .ok progName arg)
    (h : k.sysExecute fs fr command = some (.enter eip image, k')) :
    ∃ d p, EnteredProgram fs fr k k' progName d eip image p := by
  unfold sysExecute at h
  dsimp only at h
  rw [hparse] at h
  dsimp only at h
  split at h
  · cases h
  · rw [executeParsed_eq] at h
    dsimp only at h
    split at h
    · rename_i hcheck
      obtain ⟨d, hd⟩ := (executeExecutableCheck_iff ..).mp hcheck
      split at h
      · cases h
      · rename_i p _
        obtain ⟨hfit, himage, hcur, hentry, hpcb⟩ := launch_enteredProgram hd h
        exact ⟨d, p, hd, hfit, himage, hcur, hentry, hpcb⟩
    · cases h

section

variable {fs : FileSys} {fr : Frame} {k k' : Kernel} {progName image : List UInt8} {d : Dentry}
  {eip : Nat} {p : Slot}

/-- A file that could be loaded is far from the end of the address space. -/
theorem EnteredProgram.length_lt (h : EnteredProgram fs fr k k' progName d eip image p) :
    fs.fileLength d.inode + 1 < 4294967296 := by
  have hfits := h.fits
  have hend : k.mappedEnd ≤ USER_END + PAGE_4KB := by
    unfold mappedEnd
    split <;> omega
  unfold USER_END PAGE_4KB PROGRAM_IMAGE at *
  omega

/-- The stores of the loader leave the file at `PROGRAM_IMAGE`. -/
theorem EnteredProgram.stored_byte (h : EnteredProgram fs fr k k' progName d eip image p)
    (u : Mem) {i : Nat} (hi : i < fs.fileLength d.inode) :
    storeAll (fileStores fs d) u (PROGRAM_IMAGE + i) = fs.byteAt d.inode i := by
  have hstored := readData_stored_length fs 0 (fs.fileLength d.inode) h.file.inode
  rw [storeAll_fileStores h.file.inode, overlay_add _ _ (by omega)]
  exact readData_whole h.file.inode h.length_lt hi hi

/-- The entry point is the word at byte 24 of the file. -/
theorem EnteredProgram.entry_word (h : EnteredProgram fs fr k k' progName d eip image p)
    (hheader : 28 ≤ fs.fileLength d.inode) : eip = word (fs.byteAt d.inode) 24 := by
  have hbyte : ∀ j < 4, (executeExecutableCheck fs k.bufExecutableHeader k.execTerm
      (fr.progMem progName)).2 (HEADER_INFO * k.execTerm.val + 24 + j)
        = fs.byteAt d.inode (24 + j) := by
    intro j hj
    rw [Nat.add_assoc]
    exact headerRow_byte h.file h.length_lt _ _ (by omega) (by unfold BLOCK_SIZE; omega)
  have h₀ := hbyte 0 (by omega)
  rw [Nat.add_zero] at h₀
  rw [h.entry]
  unfold word
  rw [h₀, hbyte 1 (by omega), hbyte 2 (by omega), hbyte 3 (by omega)]

end

/-- **Exact and confined loading** of the file `d`: the file lies at `PROGRAM_IMAGE`, the new
process starts at the entry point of the file, and no user byte outside the user page of the
process is stored to. -/
structure LoadsProgram (fs : FileSys) (k k' : Kernel) (name : List UInt8) (d : Dentry)
    (eip : Nat) (image : List UInt8) : Prop where
  stores : ∃ stores, userProgramLoaderStores fs name = some stores ∧
    (∀ u, storeAll stores u = overlay u PROGRAM_IMAGE image.length (ofList image)) ∧
    (∀ u, ∀ i < fs.fileLength d.inode, storeAll stores u (PROGRAM_IMAGE + i)
      = fs.byteAt d.inode i) ∧
    ∀ s ∈ stores, USER_START ≤ s.1 ∧ s.1 < USER_END
  entry : ∃ p, k'.curPcbPtr k.execTerm = some p ∧ (k'.pcb p).eip = eip ∧
    eip = word (fs.byteAt d.inode) 24

theorem programImage_le : USER_START ≤ PROGRAM_IMAGE := by decide

/-- **Loading is exact and confined exactly for the files that end below 132MB**, that is, for
files of at most 3899392 bytes. A longer file is loaded only if the video page is mapped, and
then its end is stored there. -/
theorem loadsProgram_iff {fs : FileSys} {fr : Frame} {command : Option (List UInt8)}
    {k k' : Kernel} {progName arg image : List UInt8} {eip : Nat} {d : Dentry}
    (hparse : executeParseArgs command = .ok progName arg)
    (hfound : readDentryByName fs (some (fr.progMem progName)) = some d)
    (hheader : 28 ≤ fs.fileLength d.inode)
    (h : k.sysExecute fs fr command = some (.enter eip image, k')) :
    LoadsProgram fs k k' (fr.progMem progName) d eip image ↔
      PROGRAM_IMAGE + fs.fileLength d.inode ≤ USER_END := by
  obtain ⟨d', p, hp⟩ := sysExecute_enteredProgram hparse h
  obtain rfl : d' = d := Option.some.inj (hp.file.found.symm.trans hfound)
  have hstores := userProgramLoaderStores_eq hfound
  constructor
  · intro hloads
    obtain ⟨stores, heq, -, -, hconfined⟩ := hloads.stores
    rw [hstores, Option.some.injEq] at heq
    subst heq
    -- the last byte of the file
    obtain ⟨s, hs, hlast⟩ := exists_fileStores fs d'
      (i := fs.fileLength d'.inode - 1) (by omega)
    have := (hconfined s hs).2
    omega
  · intro hfit
    refine ⟨⟨_, hstores, ?_, fun u i hi => hp.stored_byte u hi, ?_⟩, p, hp.cur, hp.pcb,
      hp.entry_word hheader⟩
    · intro u
      rw [storeAll_fileStores hp.file.inode, hp.image]
    · intro s hs
      have hmem := mem_fileStores hs
      exact ⟨Nat.le_trans programImage_le hmem.1, by omega⟩

/-! ## Two programs -/

/-- The small image with another length of `big`, by the second and third byte of it. -/
def resizedImage (b₁ b₂ : UInt8) : FileSys :=
  { sampleImage with
    mem := fun a => if a = 8193 then b₁ else if a = 8194 then b₂ else sampleImage.mem a }

/-- `big` is executed as soon as it is known to be executable and to fit. -/
theorem resizedImage_enters {b₁ b₂ : UInt8} {k : Kernel} {p : Slot}
    (hbig : HoldsExecutable (resizedImage b₁ b₂) (ascii "big") (sampleDentry (ascii "big") 1))
    (hfit : PROGRAM_IMAGE + (resizedImage b₁ b₂).fileLength 1 ≤ k.mappedEnd)
    (hp : k.firstFree = some p) :
    ∃ eip image k', k.sysExecute (resizedImage b₁ b₂) zeroFrame (some (ascii "big"))
      = some (.enter eip image, k') := by
  have hexec : HoldsExecutable (resizedImage b₁ b₂) (zeroFrame.progMem (ascii "big"))
      (sampleDentry (ascii "big") 1) := by
    rw [progMem_big]
    exact hbig
  exact sysExecute_enters executeParseArgs_big (by decide) hexec hfit hp

/-- A `big` of one block, executed at boot. -/
theorem loadsProgram_iff_page : ∃ eip image k',
    (boot zeroMemory).sysExecute (resizedImage 0x10 0) zeroFrame (some (ascii "big"))
      = some (.enter eip image, k') ∧
    (LoadsProgram (resizedImage 0x10 0) (boot zeroMemory) k' (zeroFrame.progMem (ascii "big"))
        (sampleDentry (ascii "big") 1) eip image ↔
      PROGRAM_IMAGE + (resizedImage 0x10 0).fileLength 1 ≤ USER_END) := by
  have hbig : HoldsExecutable (resizedImage 0x10 0) (ascii "big")
      (sampleDentry (ascii "big") 1) :=
    ⟨by decide +kernel, rfl, by decide, by decide +kernel⟩
  obtain ⟨eip, image, k', hk'⟩ := resizedImage_enters (k := boot zeroMemory) (p := 0) hbig
    (Nat.le_trans (by decide +kernel) (mappedEnd_ge _)) (by decide +kernel)
  refine ⟨eip, image, k', hk', loadsProgram_iff executeParseArgs_big ?_ (by decide +kernel) hk'⟩
  rw [progMem_big]
  exact hbig.found

/-- A `big` that ends with the video page, executed by a shell that has mapped it. -/
theorem big_runs_into_video_page :
    ¬ ∀ (fs : FileSys) (fr : Frame) (command : List UInt8) (k k' : Kernel)
      (progName arg image : List UInt8) (eip : Nat) (d : Dentry), Reachable fs k →
      executeParseArgs (some command) = .ok progName arg →
      HoldsExecutable fs (fr.progMem progName) d →
      28 ≤ fs.fileLength d.inode → fs.fileLength d.inode ≤ INODE_SIZE * BLOCK_SIZE →
      k.sysExecute fs fr (some command) = some (.enter eip image, k') →
      LoadsProgram fs k k' (fr.progMem progName) d eip image := by
  intro hall
  have hview : (StepSystem.run (step (resizedImage 0x90 0x3B)) (boot zeroMemory)
      [.pit zeroFrame, .vidmap USER_START]).map
        (fun k => decide (k.vidmapPresent = true ∧ k.firstFree = some 1)) = some true := by
    decide +kernel
  obtain ⟨k, hk, hvid, hp⟩ := StepSystem.exists_of_map_decide hview
  have hbig : HoldsExecutable (resizedImage 0x90 0x3B) (ascii "big")
      (sampleDentry (ascii "big") 1) :=
    ⟨by decide +kernel, rfl, by decide, by decide +kernel⟩
  have hlength : (resizedImage 0x90 0x3B).fileLength 1 = 3903488 := by decide +kernel
  have hend : k.mappedEnd = USER_END + PAGE_4KB := if_pos hvid
  obtain ⟨eip, image, k', hk'⟩ := resizedImage_enters hbig
    (by rw [hlength, hend]; decide) hp
  have hloads := hall _ zeroFrame (ascii "big") k k' (ascii "big") [] image eip _
    ⟨zeroMemory, _, hk⟩ executeParseArgs_big (by rw [progMem_big]; exact hbig)
    (by rw [show (sampleDentry (ascii "big") 1).inode = 1 from rfl, hlength]; decide)
    (by rw [show (sampleDentry (ascii "big") 1).inode = 1 from rfl, hlength]; decide) hk'
  obtain ⟨stores, heq, -, -, hconfined⟩ := hloads.stores
  rw [progMem_big, userProgramLoaderStores_eq hbig.found, Option.some.injEq] at heq
  subst heq
  -- the first byte behind the user page
  obtain ⟨s, hs, hpast⟩ := exists_fileStores (resizedImage 0x90 0x3B)
    (sampleDentry (ascii "big") 1) (i := USER_END - PROGRAM_IMAGE)
    (by rw [show (sampleDentry (ascii "big") 1).inode = 1 from rfl, hlength]; decide)
  have hlt := (hconfined s hs).2
  rw [hpast] at hlt
  exact absurd hlt (by decide)

end Kernel

end Ext2Kernel
