import Ext2Kernel.Process.Execute
import Mathlib.Data.List.TakeWhile

set_option autoImplicit false

/-! # What `sys_execute` does

The specification the rest of the development uses instead of the definition. A call that
returns has failed before it took a process number (`Returned`): once the executable check
has passed, the loader finds the same file again and cannot report an error. Otherwise the
call has taken a free process number and either entered the new program (`Entered`) or met a
page fault while loading it (`Faulted`).
-/

namespace Ext2Kernel

open ByteMem

/-! ## The executable check and the loader -/

/-- `name` names the regular file `d`, which starts with the ELF constant. -/
structure HoldsExecutable (fs : FileSys) (name : List UInt8) (d : Dentry) : Prop where
  found : readDentryByName fs (some name) = some d
  fileType : d.fileType = FILE_TYPE
  inode : d.inode < DIR_ENTRIES
  magic : (readDataBytes fs d.inode 0 BLOCK_SIZE).take 4 = elfMagic

/-- The header row holds byte `i` of the file, or a NUL behind its end. -/
theorem headerByte (fs : FileSys) (header : Mem) (row : Nat) {inode i : Nat}
    (hinode : inode < DIR_ENTRIES) (hi : i < 4) :
    let stored := (readData fs inode 0 false BLOCK_SIZE).stored
    overlay (overlay header row 4 fun _ => 0) row stored.length (ofList stored) (row + i)
      = (readDataBytes fs inode 0 BLOCK_SIZE).getD i 0 := by
  intro stored
  have hstored : stored = _ := congrArg Transfer.stored (readData_valid fs 0 BLOCK_SIZE hinode)
  have hlen : stored.length = BLOCK_SIZE := readData_stored_length fs 0 BLOCK_SIZE hinode
  have hb : 4 ≤ BLOCK_SIZE := by decide
  rw [overlay_in _ _ (by omega) (by omega), Nat.add_sub_cancel_left, hstored]
  simp only [ofList, List.getD_eq_getElem?_getD]
  by_cases hlt : i < (readDataBytes fs inode 0 BLOCK_SIZE).length
  · rw [List.getElem?_append_left hlt]
  · rw [List.getElem?_append_right (by omega), List.getElem?_eq_none (by omega : _ ≤ i)]
    simp only [List.getElem?_replicate]
    split <;> rfl

/-- **The executable check** passes exactly the regular files that start with the ELF
constant. `read_data` refuses an invalid inode and leaves the four cleared bytes, which are
not the constant. -/
theorem executeExecutableCheck_iff (fs : FileSys) (header : Mem) (term : Terminal)
    (name : List UInt8) :
    (executeExecutableCheck fs header term name).1 = true ↔ ∃ d, HoldsExecutable fs name d := by
  have hmagic : ∀ i < 4, ofList elfMagic i ≠ 0 := by decide
  unfold executeExecutableCheck
  dsimp only
  constructor
  · intro h
    split at h
    · cases h
    · rename_i d hd
      split at h
      · cases h
      · rename_i htype
        rw [decide_eq_true_eq] at h
        have hagree := agree_of_strncmp _ _ h
        have hinode : d.inode < DIR_ENTRIES := by
          by_contra hinode
          have hr : readData fs d.inode 0 false BLOCK_SIZE = ⟨-1, []⟩ :=
            if_pos (Or.inl (Nat.le_of_not_lt hinode))
          have h₀ := hagree 0 (by omega) (by omega) (by omega)
          rw [hr, List.length_nil, overlay_zero, overlay_in _ _ (by omega) (by omega)] at h₀
          exact hmagic 0 (by omega) h₀
        have hbyte : ∀ i < 4,
            ofList elfMagic i = (readDataBytes fs d.inode 0 BLOCK_SIZE).getD i 0 := by
          intro i hi
          rw [← headerByte fs header (HEADER_INFO * term.val) hinode hi]
          exact hagree i (by omega) (by omega) fun m _ hm => hmagic m (by omega)
        refine ⟨d, hd, not_not.mp htype, hinode, ?_⟩
        generalize readDataBytes fs d.inode 0 BLOCK_SIZE = bytes at hbyte
        have h₃ := hbyte 3 (by omega)
        match bytes, hbyte, h₃ with
        | a₀ :: a₁ :: a₂ :: a₃ :: rest, hbyte, _ =>
            have h₀ : _ = a₀ := hbyte 0 (by omega)
            have h₁ : _ = a₁ := hbyte 1 (by omega)
            have h₂ : _ = a₂ := hbyte 2 (by omega)
            have h₃ : _ = a₃ := hbyte 3 (by omega)
            rw [← h₀, ← h₁, ← h₂, ← h₃]
            rfl
  · rintro ⟨d, hd⟩
    simp only [hd.found, hd.fileType, ne_eq, not_true_eq_false, if_false]
    rw [decide_eq_true_eq]
    refine strncmp_of_agree 4 0 fun i _ hi => ?_
    rw [headerByte fs header (HEADER_INFO * term.val) hd.inode (by omega), ← hd.magic]
    simp only [ofList, List.getD_eq_getElem?_getD]
    rw [List.getElem?_take_of_lt (by omega)]

/-- The loader's own copy of the name names the same file. -/
theorem sysOpenFile_eq {fs : FileSys} {name : List UInt8} {d : Dentry}
    (h : readDentryByName fs (some name) = some d) : sysOpenFile fs name = d.inode := by
  have hlen : (name.takeWhile (· ≠ 0)).length ≤ FILENAME_LEN := readDentryByName_strlen h
  have hcopy : readDentryByName fs (some ((name.takeWhile (· ≠ 0)).take FILENAME_LEN))
      = some d := by
    rw [List.take_of_length_le hlen, ← h]
    exact readDentryByName_congr fs List.takeWhile_idem
  unfold sysOpenFile
  rw [hcopy]

/-- A read that asks for less than 2GB of a valid inode succeeds. -/
theorem readData_ret_ne (fs : FileSys) {inode : Nat} (offset : Nat) {n : Nat}
    (hi : inode < DIR_ENTRIES) (hn : n < 2147483648) :
    (readData fs inode offset false n).ret ≠ -1 := by
  have hlen : (readDataBytes fs inode offset n).length ≤ n := readDataLoop_length_le ..
  unfold readData
  rw [if_neg (by simpa using hi)]
  show asInt32 _ ≠ -1
  rw [asInt32_of_lt (by omega)]
  omega

namespace Kernel

theorem storeVidmap_eq (k : Kernel) (bytes : List UInt8) :
    ∃ v, k.storeVidmap bytes = { k with console := { k.console with video := v } } := by
  unfold storeVidmap
  split
  · exact ⟨_, rfl⟩
  · exact ⟨k.console.video, rfl⟩

theorem storeVidmap_nil (k : Kernel) : k.storeVidmap [] = k := by
  unfold storeVidmap
  split
  · rw [List.length_nil, overlay_zero]
  · rfl

/-- The loader on a file with a valid inode: it faults exactly if the file does not fit the
mapped memory, and else loads it; besides user memory only the video memory can change. -/
theorem executeUserProgramLoader_cases {fs : FileSys} {k : Kernel} {name : List UInt8}
    {d : Dentry} (hd : readDentryByName fs (some name) = some d) (hi : d.inode < DIR_ENTRIES) :
    ∃ v, let k' := { k with console := { k.console with video := v } }
      (k.mappedEnd < PROGRAM_IMAGE + fs.fileLength d.inode ∧
        k.executeUserProgramLoader fs name = some (.fault, k')) ∨
      (PROGRAM_IMAGE + fs.fileLength d.inode ≤ k.mappedEnd ∧
        ∃ image, k.executeUserProgramLoader fs name = some (.loaded image, k')) := by
  unfold executeUserProgramLoader
  rw [hd, sysOpenFile_eq hd]
  by_cases hfit : k.mappedEnd < PROGRAM_IMAGE + fs.fileLength d.inode
  · obtain ⟨v, hv⟩ := k.storeVidmap_eq (List.replicate PAGE_4KB 0)
    by_cases hp : k.vidmapPresent
    · exact ⟨v, Or.inl ⟨hfit, by simp [hfit, hp, hv]⟩⟩
    · exact ⟨k.console.video, Or.inl ⟨hfit, by simp [hfit, hp]⟩⟩
  · have hsize : fs.fileLength d.inode < 2147483648 := by
      have hend : k.mappedEnd ≤ USER_END + PAGE_4KB := by
        unfold mappedEnd; split <;> omega
      unfold USER_END PAGE_4KB PROGRAM_IMAGE at *
      omega
    have hret := readData_ret_ne fs 0 hi hsize
    obtain ⟨v, hv⟩ := k.storeVidmap_eq
      ((readData fs d.inode 0 false (fs.fileLength d.inode)).stored.drop
        (USER_END - PROGRAM_IMAGE))
    refine ⟨v, Or.inr ⟨Nat.le_of_not_lt hfit,
      (readData fs d.inode 0 false (fs.fileLength d.inode)).stored, ?_⟩⟩
    simp [hfit, hret, hv]

/-! ## The three outcomes -/

/-- The page directory entry of the user page of process `p`. -/
def userPage (p : Slot) : PageEntry :=
  ⟨.phys (MB_8 + MB_4 * p.val), PAGE_SIZE ||| USER ||| PRESENT ||| READ_WRITE⟩

/-- The task state segment with the kernel stack of process `p`. -/
def kernelStack (p : Slot) : Tss := ⟨KERNEL_DS, MB_8 - KB_8 * p.val - 4⟩

theorem programPaging_userPage (k : Kernel) (p : Slot) :
    (k.programPaging (p.val * MB_4 + MB_8)).pageDirectory SYS_VIRTUAL_MEM = userPage p := by
  have hpage := Function.update_self SYS_VIRTUAL_MEM (userPage p) k.pageDirectory
  rw [Nat.mul_comm, Nat.add_comm]
  exact hpage

/-- What a call of `sys_execute` leaves alone, whatever its outcome. -/
structure ExecuteFrame (k k' : Kernel) : Prop where
  visible : k'.visibleTerminal = k.visibleTerminal
  process : k'.processTerminal = k.processTerminal
  term : ∀ t, t ≠ k.execTerm → k'.console.term t = k.console.term t
  argFlag : ∀ t, t ≠ k.execTerm → k'.argFlag t = k.argFlag t
  errorFlag : ∀ t, t ≠ k.execTerm → k'.errorFlag t = k.errorFlag t
  pitFlag : k'.pitFlag = k.pitFlag
  readDirFlag : k'.readDirFlag = k.readDirFlag
  pageTableVidmap : k'.pageTableVidmap = k.pageTableVidmap
  pageDirectory : ∀ i, i ≠ SYS_VIRTUAL_MEM → k'.pageDirectory i = k.pageDirectory i

/-- A call that returned: no process was made. -/
structure Returned (k : Kernel) (fr : Frame) (k' : Kernel) : Prop extends ExecuteFrame k k' where
  cur : k'.curPcbPtr = k.curPcbPtr
  active : k'.activeProcesses = k.activeProcesses
  pcb : k'.pcb = k.pcb ∨ k'.pcb = (k.saveFrame k.execTerm fr).pcb
  page : k'.pageDirectory = k.pageDirectory
  tss : k'.tss = k.tss
  video : k'.console.video = k.console.video

/-- A call that entered process `p`. -/
structure Entered (k : Kernel) (fr : Frame) (k' : Kernel) (p : Slot) : Prop
    extends ExecuteFrame k k' where
  first : k.firstFree = some p
  cur : k'.curPcbPtr = Function.update k.curPcbPtr k.execTerm (some p)
  active : k'.activeProcesses = Function.update k.activeProcesses p 1
  pcb : ∃ arg eip, k'.pcb = Function.update (k.saveFrame k.execTerm fr).pcb p
    { newPcb ((k.saveFrame k.execTerm fr).pcb p) arg (k.curPcbPtr k.execTerm) p with eip := eip }
  page : k'.pageDirectory SYS_VIRTUAL_MEM = userPage p
  tss : k'.tss = kernelStack p

/-- A call that met a page fault while it loaded the program of process `p`. -/
structure Faulted (k : Kernel) (fr : Frame) (k' : Kernel) (p : Slot) : Prop
    extends ExecuteFrame k k' where
  first : k.firstFree = some p
  cur : k'.curPcbPtr = k.curPcbPtr
  active : k'.activeProcesses = Function.update k.activeProcesses p 1
  pcb : k'.pcb = (k.saveFrame k.execTerm fr).pcb
  page : k'.pageDirectory SYS_VIRTUAL_MEM = userPage p
  tss : k'.tss = k.tss

/-- What `sys_execute` does, by its result. -/
def ExecuteSpec (k : Kernel) (fr : Frame) (r : ExecResult) (k' : Kernel) : Prop :=
  match r with
  | .ret v => v = -1 ∧ Returned k fr k'
  | .enter _ _ => ∃ p, Entered k fr k' p
  | .fault => ∃ p, Faulted k fr k' p

theorem firstFree_eq_some {k : Kernel} {p : Slot} (h : k.firstFree = some p) :
    k.activeProcesses p ≠ 1 := by
  have := List.find?_some h
  simpa using this

/-- Saving the registers changes nothing but a PCB. -/
theorem saveFrame_eq (k : Kernel) (t : Terminal) (fr : Frame) :
    k.saveFrame t fr = { k with pcb := (k.saveFrame t fr).pcb } := by
  unfold saveFrame
  split <;> rfl

theorem saveFrame_pcb_congr (k₁ k₂ : Kernel) (t : Terminal) (fr : Frame)
    (hc : k₁.curPcbPtr = k₂.curPcbPtr) (hp : k₁.pcb = k₂.pcb) :
    (k₁.saveFrame t fr).pcb = (k₂.saveFrame t fr).pcb := by
  unfold saveFrame modifyPcb
  rw [hc]
  split <;> simp only [hp]

/-- The state in which `sys_execute` looks for a process number. -/
def prepared (k : Kernel) (fr : Frame) (arg : List UInt8) (header : Mem) : Kernel :=
  { k with
    processNum := 0
    errorFlag := Function.update k.errorFlag k.execTerm false
    argFlag := Function.update k.argFlag k.execTerm (decide (arg ≠ []))
    pcb := (k.saveFrame k.execTerm fr).pcb
    bufExecutableHeader := header }

theorem prepared_frame (k : Kernel) (fr : Frame) (arg : List UInt8) (header : Mem) :
    ExecuteFrame k (k.prepared fr arg header) where
  visible := rfl
  process := rfl
  term _ _ := rfl
  argFlag _ ht := Function.update_of_ne ht ..
  errorFlag _ ht := Function.update_of_ne ht ..
  pitFlag := rfl
  readDirFlag := rfl
  pageTableVidmap := rfl
  pageDirectory _ _ := rfl

theorem executeParsed_eq (fs : FileSys) (fr : Frame) (k : Kernel) (progName arg : List UInt8) :
    executeParsed fs fr { k with processNum := 0 } progName arg =
      let check := executeExecutableCheck fs k.bufExecutableHeader k.execTerm
        (fr.progMem progName)
      let k₂ := k.prepared fr arg check.2
      if check.1 then
        match k.firstFree with
        | none => some (.ret (-1), { k₂ with
            console := { k.console with tooManyShellsFlag := true } })
        | some p => k₂.launch fs fr k.execTerm progName arg p
      else some (.ret (-1), k₂) := by
  have hs : (setFlags { k with processNum := 0 } k.execTerm arg).saveFrame k.execTerm fr
      = k.prepared fr arg k.bufExecutableHeader := by
    have hc := saveFrame_pcb_congr (setFlags { k with processNum := 0 } k.execTerm arg) k
      k.execTerm fr rfl rfl
    rw [saveFrame_eq, hc]
    rfl
  have ht : execTerm { k with processNum := 0 } = k.execTerm := rfl
  unfold executeParsed
  simp only [ht, hs]
  rfl

/-- The state in which the loader starts: process number `p` is taken and its user page
mapped. -/
def claimed (k : Kernel) (p : Slot) : Kernel :=
  { k with
    processNum := p
    activeProcesses := Function.update k.activeProcesses p 1 }.programPaging (p.val * MB_4 + MB_8)

theorem claimed_page (k : Kernel) (p : Slot) :
    (k.claimed p).pageDirectory SYS_VIRTUAL_MEM = userPage p :=
  programPaging_userPage _ p

theorem claimed_pageDirectory_ne (k : Kernel) (p : Slot) {i : Nat} (h : i ≠ SYS_VIRTUAL_MEM) :
    (k.claimed p).pageDirectory i = k.pageDirectory i :=
  Function.update_of_ne h ..

/-- Making the PCB of process `p` and switching to it. -/
theorem executeCreatePCB_contextSwitch {k k₁ : Kernel} {arg : List UInt8} {term : Terminal}
    {p : Slot} (hp : k.processNum = p) (h : k.executeCreatePCB arg term = some k₁) :
    ∃ argument eip, k₁.executeContextSwitch term p = { k with
      curPcbPtr := Function.update k.curPcbPtr term (some p)
      pcb := Function.update k.pcb p
        { newPcb (k.pcb p) argument (k.curPcbPtr term) p with eip := eip }
      tss := kernelStack p } := by
  unfold executeCreatePCB at h
  split at h
  · rename_i harg
    cases h
    refine ⟨⟨arg, harg⟩, k.entryPoint term, ?_⟩
    simp only [executeContextSwitch, modifyPcb, setTss, hp, Function.update_self,
      Function.update_idem]
    rfl
  · cases h

/-- `sys_execute` from the state `prepared` on, when process number `p` is free. -/
theorem launch_spec {fs : FileSys} {fr : Frame} {k k' : Kernel} {progName arg : List UInt8}
    {header : Mem} {p : Slot} {d : Dentry} {r : ExecResult}
    (hd : readDentryByName fs (some (fr.progMem progName)) = some d)
    (hi : d.inode < DIR_ENTRIES) (hfirst : k.firstFree = some p)
    (h : (k.prepared fr arg header).launch fs fr k.execTerm progName arg p = some (r, k')) :
    ExecuteSpec k fr r k' := by
  have hframe := k.prepared_frame fr arg header
  obtain ⟨v, ⟨_, hload⟩ | ⟨_, image, hload⟩⟩ :=
    executeUserProgramLoader_cases (k := (k.prepared fr arg header).claimed p) hd hi
  · unfold launch at h
    simp only [claimed] at hload
    simp only [hload, Option.some.injEq, Prod.mk.injEq] at h
    obtain ⟨rfl, rfl⟩ := h
    exact ⟨p, {
      visible := rfl, process := rfl, term := fun _ _ => rfl
      argFlag := hframe.argFlag, errorFlag := hframe.errorFlag
      pitFlag := rfl, readDirFlag := rfl, pageTableVidmap := rfl
      pageDirectory := fun i hne => claimed_pageDirectory_ne k p hne
      first := hfirst, cur := rfl, active := rfl, pcb := rfl
      page := claimed_page k p, tss := rfl }⟩
  · unfold launch at h
    simp only [claimed] at hload
    simp only [hload, Option.map_eq_some_iff, Prod.mk.injEq] at h
    obtain ⟨k₄, hcreate, rfl, rfl⟩ := h
    obtain ⟨argument, eip, heq⟩ := executeCreatePCB_contextSwitch rfl hcreate
    have heq' : executeContextSwitch k₄ k.execTerm p = _ := heq
    rw [heq']
    exact ⟨p, {
      visible := rfl, process := rfl, term := fun t ht => Function.update_of_ne ht ..
      argFlag := hframe.argFlag, errorFlag := hframe.errorFlag
      pitFlag := rfl, readDirFlag := rfl, pageTableVidmap := rfl
      pageDirectory := fun i hne => claimed_pageDirectory_ne k p hne
      first := hfirst, cur := rfl, active := rfl, pcb := ⟨argument, eip, rfl⟩
      page := claimed_page k p, tss := rfl }⟩

/-- **Specification of `sys_execute`.** -/
theorem sysExecute_spec {fs : FileSys} {fr : Frame} {command : Option (List UInt8)}
    {k k' : Kernel} {r : ExecResult} (h : k.sysExecute fs fr command = some (r, k')) :
    ExecuteSpec k fr r k' := by
  unfold sysExecute at h
  dsimp only at h
  split at h
  · cases h
    exact ⟨rfl, {
      visible := rfl, process := rfl, term := fun _ _ => rfl, argFlag := fun _ _ => rfl
      errorFlag := fun _ _ => rfl, pitFlag := rfl, readDirFlag := rfl, pageTableVidmap := rfl
      pageDirectory := fun _ _ => rfl, cur := rfl, active := rfl, pcb := Or.inl rfl
      page := rfl, tss := rfl, video := rfl }⟩
  · rename_i progName arg _
    split at h
    · cases h
    · rw [executeParsed_eq] at h
      dsimp only at h
      split at h
      · rename_i hcheck
        obtain ⟨d, hd⟩ := (executeExecutableCheck_iff ..).mp hcheck
        split at h
        · cases h
          exact ⟨rfl, { k.prepared_frame fr arg (executeExecutableCheck fs
              k.bufExecutableHeader k.execTerm (fr.progMem progName)).2 with
            cur := rfl, active := rfl, pcb := Or.inr rfl, page := rfl, tss := rfl
            video := rfl }⟩
        · rename_i p hp
          exact launch_spec hd.found hd.inode hp h
      · cases h
        exact ⟨rfl, { k.prepared_frame fr arg _ with
          cur := rfl, active := rfl, pcb := Or.inr rfl, page := rfl, tss := rfl
          video := rfl }⟩

end Kernel

/-! ## When a call is defined and when it succeeds -/

/-- The call stays inside C and inside the mapped user memory: the argument does not overrun
`arg`, and if the call gets as far as making a process, the argument leaves room for its
terminator and the file fits the memory mapped from `PROGRAM_IMAGE` on. -/
def ExecuteSafe (fs : FileSys) (fr : Frame) (k : Kernel) (command : Option (List UInt8)) : Prop :=
  ∀ progName arg, executeParseArgs command = .ok progName arg →
    arg.length ≤ KEYBOARD_BUFFER_SIZE ∧
    ∀ d, HoldsExecutable fs (fr.progMem progName) d → k.firstFree ≠ none →
      arg.length < KEYBOARD_BUFFER_SIZE ∧ PROGRAM_IMAGE + fs.fileLength d.inode ≤ k.mappedEnd

namespace Kernel

theorem mappedEnd_ge (k : Kernel) : USER_END ≤ k.mappedEnd := by
  unfold mappedEnd
  split <;> omega

theorem claimed_mappedEnd (k : Kernel) (fr : Frame) (arg : List UInt8) (header : Mem)
    (p : Slot) : ((k.prepared fr arg header).claimed p).mappedEnd = k.mappedEnd := by
  have hne : USER_END / MB_4 ≠ SYS_VIRTUAL_MEM := by decide
  unfold mappedEnd vidmapPresent
  rw [claimed_pageDirectory_ne _ _ hne]
  rfl

/-- The end of a call that makes process `p`: the fault, or the new process if the argument
has room. -/
theorem launch_cases {fs : FileSys} {fr : Frame} (k : Kernel) {progName : List UInt8}
    (arg : List UInt8) (header : Mem) (p : Slot) {d : Dentry}
    (hd : HoldsExecutable fs (fr.progMem progName) d) :
    (k.mappedEnd < PROGRAM_IMAGE + fs.fileLength d.inode →
      ∃ k', (k.prepared fr arg header).launch fs fr k.execTerm progName arg p
        = some (.fault, k')) ∧
    (PROGRAM_IMAGE + fs.fileLength d.inode ≤ k.mappedEnd → arg.length < KEYBOARD_BUFFER_SIZE →
      ∃ eip image k', (k.prepared fr arg header).launch fs fr k.execTerm progName arg p
        = some (.enter eip image, k')) ∧
    (PROGRAM_IMAGE + fs.fileLength d.inode ≤ k.mappedEnd → ¬ arg.length < KEYBOARD_BUFFER_SIZE →
      (k.prepared fr arg header).launch fs fr k.execTerm progName arg p = none) := by
  have hend := k.claimed_mappedEnd fr arg header p
  obtain ⟨v, ⟨hbig, hload⟩ | ⟨hfit, image, hload⟩⟩ := executeUserProgramLoader_cases
    (k := (k.prepared fr arg header).claimed p) hd.found hd.inode
  · refine ⟨fun _ => ?_, fun h => by omega, fun h => by omega⟩
    simp only [claimed] at hload
    simp only [launch, hload]
    exact ⟨_, rfl⟩
  · simp only [claimed] at hload
    refine ⟨fun h => by omega, fun _ harg => ?_, fun _ harg => ?_⟩
    · simp only [launch, hload, executeCreatePCB, dif_pos harg, Option.map_some]
      exact ⟨_, _, _, rfl⟩
    · simp only [launch, hload, executeCreatePCB, dif_neg harg, Option.map_none]

/-- **A call of `sys_execute` is defined and does not fault exactly when it is safe.** -/
theorem sysExecute_safe_iff (fs : FileSys) (fr : Frame) (k : Kernel)
    (command : Option (List UInt8)) :
    (∃ r k', k.sysExecute fs fr command = some (r, k') ∧ r ≠ .fault)
      ↔ ExecuteSafe fs fr k command := by
  unfold ExecuteSafe sysExecute
  dsimp only
  cases hparse : executeParseArgs command with
  | bad => exact ⟨fun _ _ _ h => (by cases h), fun _ => ⟨_, _, rfl, by simp⟩⟩
  | ok progName arg =>
      have hone : (∀ n a, Parsed.ok progName arg = .ok n a → a.length ≤ KEYBOARD_BUFFER_SIZE ∧
          ∀ d, HoldsExecutable fs (fr.progMem n) d → k.firstFree ≠ none →
            a.length < KEYBOARD_BUFFER_SIZE ∧ PROGRAM_IMAGE + fs.fileLength d.inode ≤ k.mappedEnd)
          ↔ arg.length ≤ KEYBOARD_BUFFER_SIZE ∧
            ∀ d, HoldsExecutable fs (fr.progMem progName) d → k.firstFree ≠ none →
              arg.length < KEYBOARD_BUFFER_SIZE ∧
                PROGRAM_IMAGE + fs.fileLength d.inode ≤ k.mappedEnd :=
        ⟨fun h => h _ _ rfl, fun h n a heq => by cases heq; exact h⟩
      rw [hone]
      dsimp only
      by_cases hlen : arg.length > KEYBOARD_BUFFER_SIZE
      · rw [if_pos hlen]
        simp only [reduceCtorEq, false_and, exists_false, false_iff]
        exact fun h => absurd h.1 (by omega)
      · rw [if_neg hlen, executeParsed_eq]
        dsimp only
        by_cases hcheck : ∃ d, HoldsExecutable fs (fr.progMem progName) d
        · rw [if_pos ((executeExecutableCheck_iff ..).mpr hcheck)]
          obtain ⟨d, hd⟩ := hcheck
          cases hfree : k.firstFree with
          | none => exact ⟨fun _ => ⟨by omega, fun _ _ h => absurd rfl h⟩,
              fun _ => ⟨_, _, rfl, by simp⟩⟩
          | some p =>
              dsimp only
              obtain ⟨hfault, henter, hnone⟩ := launch_cases k arg
                (executeExecutableCheck fs k.bufExecutableHeader k.execTerm
                  (fr.progMem progName)).2 p hd
              constructor
              · rintro ⟨r, k', hr, hne⟩
                refine ⟨by omega, fun d' hd' _ => ?_⟩
                obtain rfl : d' = d := Option.some.inj (hd'.found.symm.trans hd.found)
                by_cases hfit : PROGRAM_IMAGE + fs.fileLength d'.inode ≤ k.mappedEnd
                · refine ⟨?_, hfit⟩
                  by_contra harg
                  rw [hnone hfit harg] at hr
                  cases hr
                · obtain ⟨k₁, hk₁⟩ := hfault (Nat.lt_of_not_le hfit)
                  rw [hk₁] at hr
                  cases hr
                  exact absurd rfl hne
              · rintro ⟨_, h⟩
                obtain ⟨harg, hfit⟩ := h d hd (by simp)
                obtain ⟨eip, image, k', hk'⟩ := henter hfit harg
                exact ⟨_, _, hk', by simp⟩
        · rw [if_neg fun h => hcheck ((executeExecutableCheck_iff ..).mp h)]
          exact ⟨fun _ => ⟨by omega, fun d hd => absurd ⟨d, hd⟩ hcheck⟩,
            fun _ => ⟨_, _, rfl, by simp⟩⟩

/-- An executable is entered as soon as a process number is free. -/
theorem sysExecute_enters {fs : FileSys} {fr : Frame} {command : Option (List UInt8)}
    {k : Kernel} {progName arg : List UInt8} {d : Dentry} {p : Slot}
    (hparse : executeParseArgs command = .ok progName arg)
    (hlen : arg.length < KEYBOARD_BUFFER_SIZE)
    (hexec : HoldsExecutable fs (fr.progMem progName) d)
    (hfit : PROGRAM_IMAGE + fs.fileLength d.inode ≤ k.mappedEnd) (hp : k.firstFree = some p) :
    ∃ eip image k', k.sysExecute fs fr command = some (.enter eip image, k') := by
  unfold sysExecute
  simp only [hparse]
  rw [if_neg (by omega), executeParsed_eq]
  dsimp only
  rw [if_pos ((executeExecutableCheck_iff ..).mpr ⟨d, hexec⟩), hp]
  exact (launch_cases k arg _ p hexec).2.1 hfit hlen

/-- A file that does not fit is claimed a process number for and then faults. -/
theorem sysExecute_faults {fs : FileSys} {fr : Frame} {command : Option (List UInt8)}
    {k : Kernel} {progName arg : List UInt8} {d : Dentry} {p : Slot}
    (hparse : executeParseArgs command = .ok progName arg)
    (hlen : arg.length ≤ KEYBOARD_BUFFER_SIZE)
    (hexec : HoldsExecutable fs (fr.progMem progName) d)
    (hbig : k.mappedEnd < PROGRAM_IMAGE + fs.fileLength d.inode) (hp : k.firstFree = some p) :
    ∃ k', k.sysExecute fs fr command = some (.fault, k') := by
  unfold sysExecute
  simp only [hparse]
  rw [if_neg (by omega), executeParsed_eq]
  dsimp only
  rw [if_pos ((executeExecutableCheck_iff ..).mpr ⟨d, hexec⟩), hp]
  exact (launch_cases k arg _ p hexec).1 hbig

end Kernel

end Ext2Kernel
