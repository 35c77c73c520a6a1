import Ext2Kernel.Basic.PageTables
import Ext2Kernel.Process.UserPointers

set_option autoImplicit false

/-! # The paging structures as words

The arrays of `paging.h` as the words that the processor reads, with the functions of `paging.c`
as their stores. `Encodes` relates them to the entries of the kernel state: what `paging_init`
leaves encodes the state at boot, and every later call keeps the two in step. `walk_eq_addressMap`
is the address map that the processor finds in them after any calls.
-/

namespace Ext2Kernel

open Kernel PageTables

def NUMBER_OF_ENTRIES : Nat := 1024
def SIZE_OF_PAGE : Nat := 4096
def VIDEO_OFFSET : Nat := VIDEO / 4096

/-! ## The arrays -/

/-- `page_directory`, `page_table` and `page_table_vidmap`. -/
structure PagingArrays where
  pageDirectory : Nat → Nat
  pageTable : Nat → Nat
  pageTableVidmap : Nat → Nat

/-- Where the linker has put the three arrays, which are aligned to pages. -/
structure Placement where
  pageDirectory : Nat
  pageTable : Nat
  pageTableVidmap : Nat
  aligned : 4096 ∣ pageDirectory ∧ 4096 ∣ pageTable ∧ 4096 ∣ pageTableVidmap
  apart : pageDirectory ≠ pageTable ∧ pageDirectory ≠ pageTableVidmap ∧
    pageTable ≠ pageTableVidmap

namespace PagingArrays

/-- `READ_WRITE & ~PRESENT`. -/
def absent : Nat := READ_WRITE

/-- One round of the loop of `paging_init`. -/
def initEntry (arrays : PagingArrays) (i : Nat) : PagingArrays where
  pageDirectory := Function.update arrays.pageDirectory i absent
  pageTable := Function.update arrays.pageTable i (i * SIZE_OF_PAGE ||| absent)
  pageTableVidmap := Function.update arrays.pageTableVidmap i absent

/-- `page_table[i] |= (READ_WRITE | PRESENT)`. -/
def showPage (arrays : PagingArrays) (i : Nat) : PagingArrays :=
  { arrays with
    pageTable := Function.update arrays.pageTable i
      (arrays.pageTable i ||| (READ_WRITE ||| PRESENT)) }

/-- `paging_init` behind its loop. -/
def mapKernel (place : Placement) (arrays : PagingArrays) : PagingArrays :=
  let a := { arrays with
    pageDirectory := Function.update arrays.pageDirectory 0
      (place.pageTable ||| (READ_WRITE ||| PRESENT)) }
  let a := (((a.showPage VIDEO_OFFSET).showPage (VIDEO_OFFSET + 1)).showPage
    (VIDEO_OFFSET + 2)).showPage (VIDEO_OFFSET + 3)
  { a with
    pageDirectory := Function.update a.pageDirectory 1
      ((KERNEL_START ||| PAGE_SIZE ||| READ_WRITE ||| PRESENT) ||| GLOBAL_BIT) }

/-- `paging_init`. -/
def pagingInit (place : Placement) (arrays : PagingArrays) : PagingArrays :=
  ((List.range NUMBER_OF_ENTRIES).foldl initEntry arrays).mapKernel place

/-- `program_paging`. -/
def programPaging (arrays : PagingArrays) (physicalAddress : Nat) : PagingArrays :=
  { arrays with
    pageDirectory := Function.update arrays.pageDirectory SYS_VIRTUAL_MEM
      (physicalAddress ||| (PAGE_SIZE ||| USER ||| PRESENT ||| READ_WRITE)) }

/-- `vidmap_paging_modify`. -/
def vidmapPagingModify (place : Placement) (arrays : PagingArrays) (terminalAddress : Nat) :
    PagingArrays :=
  { arrays with
    pageDirectory := Function.update arrays.pageDirectory (USER_END / MB_4)
      (place.pageTableVidmap ||| (READ_WRITE ||| PRESENT ||| USER))
    pageTableVidmap := Function.update arrays.pageTableVidmap 0
      (terminalAddress ||| (READ_WRITE ||| PRESENT ||| USER)) }

/-- `vidmap_paging`. -/
def vidmapPaging (place : Placement) (arrays : PagingArrays) : PagingArrays :=
  arrays.vidmapPagingModify place VIDEO

end PagingArrays

/-- Physical memory as words: the three arrays at their places, and the rest. -/
def Placement.word (place : Placement) (arrays : PagingArrays) (rest : Nat → Nat) (a : Nat) : Nat :=
  if place.pageDirectory ≤ a ∧ a < place.pageDirectory + 4096 then
    arrays.pageDirectory ((a - place.pageDirectory) / 4)
  else if place.pageTable ≤ a ∧ a < place.pageTable + 4096 then
    arrays.pageTable ((a - place.pageTable) / 4)
  else if place.pageTableVidmap ≤ a ∧ a < place.pageTableVidmap + 4096 then
    arrays.pageTableVidmap ((a - place.pageTableVidmap) / 4)
  else rest a

section

variable {place : Placement} {arrays : PagingArrays} {rest : Nat → Nat} {i : Nat}

theorem Placement.word_directory (h : i < 1024) :
    place.word arrays rest (place.pageDirectory + 4 * i) = arrays.pageDirectory i := by
  unfold word
  rw [if_pos (by omega)]
  exact congrArg _ (by omega)

theorem Placement.word_table (h : i < 1024) :
    place.word arrays rest (place.pageTable + 4 * i) = arrays.pageTable i := by
  have haligned := place.aligned
  have hapart := place.apart
  unfold word
  rw [if_neg (by omega), if_pos (by omega)]
  exact congrArg _ (by omega)

theorem Placement.word_vidmap (h : i < 1024) :
    place.word arrays rest (place.pageTableVidmap + 4 * i) = arrays.pageTableVidmap i := by
  have haligned := place.aligned
  have hapart := place.apart
  unfold word
  rw [if_neg (by omega), if_neg (by omega), if_pos (by omega)]
  exact congrArg _ (by omega)

end

/-! ## What the arrays encode -/

/-- The paging part of the kernel state. -/
structure Paging where
  directory : Nat → PageEntry
  vidmap : Nat → PageEntry

def Kernel.paging (k : Kernel) : Paging := ⟨k.pageDirectory, k.pageTableVidmap⟩

/-- The address that an entry points to. -/
def Placement.address (place : Placement) : PageBase → Nat
  | .phys address => address
  | .pageTable => place.pageTable
  | .pageTableVidmap => place.pageTableVidmap

def Placement.encode (place : Placement) (e : PageEntry) : Nat :=
  entry (place.address e.base) e.flags

/-- The words of `page_table` once paging is set up. -/
def pageTableWord (i : Nat) : Nat :=
  entry (i * SIZE_OF_PAGE) (if pageTablePresent i then READ_WRITE ||| PRESENT else READ_WRITE)

/-- The arrays hold the entries of the kernel state. -/
structure Encodes (place : Placement) (arrays : PagingArrays) (pg : Paging) : Prop where
  directory : ∀ i < 1024, arrays.pageDirectory i = place.encode (pg.directory i)
  table : ∀ i < 1024, arrays.pageTable i = pageTableWord i
  vidmap : ∀ i < 1024, arrays.pageTableVidmap i = place.encode (pg.vidmap i)

/-- The entries below `n` are those that the loop of `paging_init` stores. -/
structure Emptied (n : Nat) (arrays : PagingArrays) : Prop where
  directory : ∀ i < n, arrays.pageDirectory i = READ_WRITE
  table : ∀ i < n, arrays.pageTable i = entry (i * SIZE_OF_PAGE) READ_WRITE
  vidmap : ∀ i < n, arrays.pageTableVidmap i = READ_WRITE

theorem Emptied.initEntry {n : Nat} {arrays : PagingArrays} (h : Emptied n arrays) :
    Emptied (n + 1) (arrays.initEntry n) := by
  have hcases : ∀ (f : Nat → Nat) (v : Nat) (g : Nat → Nat), (∀ i < n, f i = g i) → v = g n →
      ∀ i < n + 1, Function.update f n v i = g i := by
    intro f v g hold hnew i hi
    by_cases hn : i = n
    · rw [hn, Function.update_self, hnew]
    · rw [Function.update_of_ne hn, hold i (by omega)]
  constructor
  · exact hcases _ _ (fun _ => READ_WRITE) h.directory rfl
  · exact hcases _ _ (fun i => entry (i * SIZE_OF_PAGE) READ_WRITE) h.table rfl
  · exact hcases _ _ (fun _ => READ_WRITE) h.vidmap rfl

theorem emptied_foldl (arrays : PagingArrays) (n : Nat) :
    Emptied n ((List.range n).foldl PagingArrays.initEntry arrays) := by
  induction n with
  | zero => constructor <;> exact fun i hi => absurd hi (Nat.not_lt_zero i)
  | succ n ih =>
      rw [List.range_succ, List.foldl_append]
      exact ih.initEntry

/-- The pages of video memory and of the terminal buffers are shown, one after the other. -/
theorem showPage_pageTable (arrays : PagingArrays) (j i : Nat) :
    (arrays.showPage j).pageTable i =
      if i = j then arrays.pageTable i ||| (READ_WRITE ||| PRESENT) else arrays.pageTable i := by
  unfold PagingArrays.showPage
  by_cases h : i = j
  · rw [if_pos h, h]
    exact Function.update_self ..
  · rw [if_neg h]
    exact Function.update_of_ne h ..

theorem Emptied.mapKernel {arrays : PagingArrays} (h : Emptied 1024 arrays) (place : Placement)
    (m : BootMemory) : Encodes place (arrays.mapKernel place) (boot m).paging where
  directory i hi := by
    unfold PagingArrays.mapKernel Placement.encode Kernel.paging boot
    dsimp only
    have hempty : READ_WRITE = entry 0 READ_WRITE := (Nat.zero_or _).symm
    by_cases h₁ : i = 1
    · subst h₁
      rw [Function.update_self, if_neg Nat.one_ne_zero, if_pos rfl]
      exact (by decide : KERNEL_START ||| PAGE_SIZE ||| READ_WRITE ||| PRESENT ||| GLOBAL_BIT
        = entry KERNEL_START (PAGE_SIZE ||| READ_WRITE ||| PRESENT ||| GLOBAL_BIT))
    · rw [Function.update_of_ne h₁]
      by_cases h₀ : i = 0
      · subst h₀
        rw [if_pos rfl]
        exact Function.update_self 0 _ arrays.pageDirectory
      · rw [if_neg h₀, if_neg h₁]
        exact (Function.update_of_ne h₀ ..).trans ((h.directory i hi).trans hempty)
  table i hi := by
    have hshown : entry (i * SIZE_OF_PAGE) READ_WRITE ||| (READ_WRITE ||| PRESENT)
        = entry (i * SIZE_OF_PAGE) (READ_WRITE ||| PRESENT) := by
      unfold entry
      rw [Nat.or_assoc]
      rfl
    show ((((PagingArrays.showPage _ VIDEO_OFFSET).showPage (VIDEO_OFFSET + 1)).showPage
      (VIDEO_OFFSET + 2)).showPage (VIDEO_OFFSET + 3)).pageTable i = _
    rw [showPage_pageTable, showPage_pageTable, showPage_pageTable, showPage_pageTable]
    dsimp only
    rw [h.table i hi]
    have hfour : pageTablePresent i = true ↔ i = VIDEO_OFFSET ∨ i = VIDEO_OFFSET + 1 ∨
        i = VIDEO_OFFSET + 2 ∨ i = VIDEO_OFFSET + 3 := by
      unfold pageTablePresent VIDEO_OFFSET VIDEO PAGE_4KB
      rw [Bool.and_eq_true, decide_eq_true_eq, decide_eq_true_eq]
      omega
    unfold pageTableWord
    by_cases hpage : pageTablePresent i = true
    · have hone := hfour.mp hpage
      rw [if_pos hpage]
      split_ifs <;> first | exact hshown | omega
    · have hnone := mt hfour.mpr hpage
      rw [if_neg hpage]
      split_ifs <;> first | rfl | omega
  vidmap i hi := (h.vidmap i hi).trans (Nat.zero_or _).symm

/-- **`paging_init`** leaves what the state at boot says, whatever the arrays held before. -/
theorem pagingInit_encodes (place : Placement) (arrays : PagingArrays) (m : BootMemory) :
    Encodes place (arrays.pagingInit place) (boot m).paging :=
  (emptied_foldl arrays 1024).mapKernel place m

/-! ## The calls after boot -/

/-- The calls of the kernel: the page of a process, and the screen that the page at 132MB shows,
video memory or the buffer of a terminal. -/
inductive PagingCall
  | program (p : Slot)
  | vidmap
  | vidmapModify (screen : Option Terminal)

namespace PagingCall

/-- The argument of `vidmap_paging_modify`. -/
def screenFrame : Option Terminal → Nat
  | none => VIDEO
  | some t => videoBuf t

/-- The stores of a call. -/
def store (place : Placement) (arrays : PagingArrays) : PagingCall → PagingArrays
  | program p => arrays.programPaging (p.val * MB_4 + MB_8)
  | vidmap => arrays.vidmapPaging place
  | vidmapModify screen => arrays.vidmapPagingModify place (screenFrame screen)

/-- The entry of the process `p`. -/
def setProgram (pg : Paging) (p : Slot) : Paging :=
  { pg with directory := Function.update pg.directory SYS_VIRTUAL_MEM (userPage p) }

/-- The entries of the page at 132MB. -/
def setScreen (pg : Paging) (frame : Nat) : Paging where
  directory := Function.update pg.directory (USER_END / MB_4)
    ⟨.pageTableVidmap, READ_WRITE ||| PRESENT ||| USER⟩
  vidmap := Function.update pg.vidmap 0 ⟨.phys frame, READ_WRITE ||| PRESENT ||| USER⟩

/-- The entries that a call sets. -/
def apply (pg : Paging) : PagingCall → Paging
  | program p => setProgram pg p
  | vidmap => setScreen pg VIDEO
  | vidmapModify screen => setScreen pg (screenFrame screen)

end PagingCall

/-- An update on both sides of an encoding. -/
theorem update_encodes {place : Placement} {w : Nat → Nat} {f : Nat → PageEntry}
    (h : ∀ i < 1024, w i = place.encode (f i)) {j v : Nat} {e : PageEntry}
    (hv : v = place.encode e) :
    ∀ i < 1024, Function.update w j v i = place.encode (Function.update f j e i) := by
  intro i hi
  by_cases hj : i = j
  · rw [hj, Function.update_self, Function.update_self, hv]
  · rw [Function.update_of_ne hj, Function.update_of_ne hj, h i hi]

theorem Encodes.program {place : Placement} {arrays : PagingArrays} {pg : Paging}
    (h : Encodes place arrays pg) (p : Slot) :
    Encodes place (arrays.programPaging (p.val * MB_4 + MB_8)) (PagingCall.setProgram pg p) where
  directory := by
    have hentry : p.val * MB_4 + MB_8 ||| (PAGE_SIZE ||| USER ||| PRESENT ||| READ_WRITE)
        = place.encode (userPage p) := by
      rw [Nat.mul_comm, Nat.add_comm]
      rfl
    exact update_encodes h.directory hentry
  table := h.table
  vidmap := h.vidmap

theorem Encodes.screen {place : Placement} {arrays : PagingArrays} {pg : Paging}
    (h : Encodes place arrays pg) (frame : Nat) :
    Encodes place (arrays.vidmapPagingModify place frame) (PagingCall.setScreen pg frame) where
  directory := update_encodes h.directory rfl
  table := h.table
  vidmap := update_encodes h.vidmap rfl

/-- One call keeps the arrays and the entries in step. -/
theorem Encodes.call {place : Placement} {arrays : PagingArrays} {pg : Paging}
    (h : Encodes place arrays pg) (call : PagingCall) :
    Encodes place (call.store place arrays) (call.apply pg) := by
  cases call with
  | program p => exact h.program p
  | vidmap => exact h.screen VIDEO
  | vidmapModify screen => exact h.screen (PagingCall.screenFrame screen)

theorem Encodes.calls {place : Placement} {arrays : PagingArrays} {pg : Paging}
    (h : Encodes place arrays pg) (calls : List PagingCall) :
    Encodes place (calls.foldl (PagingCall.store place) arrays)
      (calls.foldl PagingCall.apply pg) := by
  induction calls generalizing arrays pg with
  | nil => exact h
  | cons call calls ih => exact ih (h.call call)

/-! ## The address map -/

/-- The directory has the kernel in its first two entries, and only the two user entries may
have been set besides; the page at 132MB is there once its table is. -/
structure Paging.Arranged (pg : Paging) : Prop where
  low : pg.directory 0 = ⟨.pageTable, READ_WRITE ||| PRESENT⟩
  kernel : pg.directory 1 =
    ⟨.phys KERNEL_START, PAGE_SIZE ||| READ_WRITE ||| PRESENT ||| GLOBAL_BIT⟩
  user : pg.directory SYS_VIRTUAL_MEM = ⟨.phys 0, READ_WRITE⟩ ∨
    ∃ p, pg.directory SYS_VIRTUAL_MEM = userPage p
  video : pg.directory (USER_END / MB_4) = ⟨.phys 0, READ_WRITE⟩ ∨
    pg.directory (USER_END / MB_4) = ⟨.pageTableVidmap, READ_WRITE ||| PRESENT ||| USER⟩ ∧
      ∃ screen, pg.vidmap 0 =
        ⟨.phys (PagingCall.screenFrame screen), READ_WRITE ||| PRESENT ||| USER⟩
  others : ∀ i, 2 ≤ i → i ≠ SYS_VIRTUAL_MEM → i ≠ USER_END / MB_4 →
    pg.directory i = ⟨.phys 0, READ_WRITE⟩
  tail : ∀ i, i ≠ 0 → pg.vidmap i = ⟨.phys 0, READ_WRITE⟩

theorem arranged_boot (m : BootMemory) : (boot m).paging.Arranged where
  low := rfl
  kernel := rfl
  user := Or.inl rfl
  video := Or.inl rfl
  others i hi _ _ := by
    show (if i = 0 then _ else if i = 1 then _ else _) = _
    rw [if_neg (by omega), if_neg (by omega)]
  tail _ _ := rfl

theorem Paging.Arranged.program {pg : Paging} (h : pg.Arranged) (p : Slot) :
    (PagingCall.setProgram pg p).Arranged where
  low := h.low
  kernel := h.kernel
  user := by
    refine Or.inr ⟨p, ?_⟩
    simp only [PagingCall.setProgram, Function.update_self]
  video := h.video
  others i h₂ hu hv := (Function.update_of_ne hu ..).trans (h.others i h₂ hu hv)
  tail := h.tail

theorem Paging.Arranged.screen {pg : Paging} (h : pg.Arranged) (screen : Option Terminal) :
    (PagingCall.setScreen pg (PagingCall.screenFrame screen)).Arranged where
  low := h.low
  kernel := h.kernel
  user := h.user
  video := by
    refine Or.inr ⟨?_, screen, ?_⟩
    · simp only [PagingCall.setScreen, Function.update_self]
    · simp only [PagingCall.setScreen, Function.update_self]
  others i h₂ hu hv := (Function.update_of_ne hv ..).trans (h.others i h₂ hu hv)
  tail i hi := (Function.update_of_ne hi ..).trans (h.tail i hi)

theorem Paging.Arranged.call {pg : Paging} (h : pg.Arranged) (call : PagingCall) :
    (call.apply pg).Arranged := by
  cases call with
  | program p => exact h.program p
  | vidmap => exact h.screen none
  | vidmapModify screen => exact h.screen screen

theorem Paging.Arranged.calls {pg : Paging} (h : pg.Arranged) (calls : List PagingCall) :
    (calls.foldl PagingCall.apply pg).Arranged := by
  induction calls generalizing pg with
  | nil => exact h
  | cons call calls ih => exact ih (h.call call)

/-- The frame of the user page. -/
def Paging.userFrame (pg : Paging) : Option Nat :=
  match (pg.directory SYS_VIRTUAL_MEM).base with
  | .phys frame => if (pg.directory SYS_VIRTUAL_MEM).flags.testBit 0 then some frame else none
  | _ => none

/-- The frame that the page at 132MB shows. -/
def Paging.videoFrame (pg : Paging) : Option Nat :=
  match (pg.vidmap 0).base with
  | .phys frame =>
      if (pg.directory (USER_END / MB_4)).flags.testBit 0 then some frame else none
  | _ => none

theorem Paging.userFrame_absent {pg : Paging}
    (h : pg.directory SYS_VIRTUAL_MEM = ⟨.phys 0, READ_WRITE⟩) : pg.userFrame = none := by
  unfold userFrame
  rw [h]
  exact if_neg (by decide)

theorem Paging.userFrame_page {pg : Paging} {p : Slot}
    (h : pg.directory SYS_VIRTUAL_MEM = userPage p) :
    pg.userFrame = some (MB_8 + MB_4 * p.val) := by
  unfold userFrame
  rw [h]
  exact if_pos (by decide : (PAGE_SIZE ||| USER ||| PRESENT ||| READ_WRITE).testBit 0 = true)

theorem Paging.videoFrame_absent {pg : Paging}
    (h : pg.directory (USER_END / MB_4) = ⟨.phys 0, READ_WRITE⟩) : pg.videoFrame = none := by
  unfold videoFrame
  rw [h]
  split
  · exact if_neg (by decide : ¬READ_WRITE.testBit 0 = true)
  · rfl

theorem Paging.videoFrame_page {pg : Paging} {base : PageBase} {frame flags : Nat}
    (h : pg.directory (USER_END / MB_4) = ⟨base, READ_WRITE ||| PRESENT ||| USER⟩)
    (hpage : pg.vidmap 0 = ⟨.phys frame, flags⟩) : pg.videoFrame = some frame := by
  unfold videoFrame
  rw [h, hpage]
  exact if_pos (by decide : (READ_WRITE ||| PRESENT ||| USER).testBit 0 = true)

/-- What the addresses mean: video memory with the three terminal buffers and the 4MB of the
kernel, for the kernel alone; the 4MB of the process; and the page at 132MB. -/
def Paging.addressMap (pg : Paging) (user : Bool) (a : Nat) : Option Nat :=
  if VIDEO ≤ a ∧ a < VIDEO + 4 * SIZE_OF_PAGE then (if user then none else some a)
  else if KERNEL_START ≤ a ∧ a < MB_8 then (if user then none else some a)
  else if USER_START ≤ a ∧ a < USER_END then pg.userFrame.map (· + (a - USER_START))
  else if USER_END ≤ a ∧ a < USER_END + SIZE_OF_PAGE then
    pg.videoFrame.map (· + (a - USER_END))
  else none

section

variable {place : Placement} {arrays : PagingArrays} {rest : Nat → Nat} {pg : Paging} {a : Nat}

/-- The directory entry that the processor reads. -/
theorem Encodes.pde (h : Encodes place arrays pg) (rest : Nat → Nat) {i flags : Nat}
    {base : PageBase} (hi : a / 4194304 = i) (hlt : i < 1024)
    (he : pg.directory i = ⟨base, flags⟩) :
    place.word arrays rest (place.pageDirectory + 4 * (a / 4194304))
      = entry (place.address base) flags := by
  rw [hi, Placement.word_directory hlt, h.directory i hlt, he]
  rfl

/-- The entries of the kernel deny user accesses. -/
theorem grants_kernel (acc : AccessMode) : grants acc (READ_WRITE ||| PRESENT) = !acc.user := by
  obtain ⟨user, write⟩ := acc
  cases user <;> cases write <;> rfl

theorem grants_large_kernel (acc : AccessMode) :
    grants acc (PAGE_SIZE ||| READ_WRITE ||| PRESENT ||| GLOBAL_BIT) = !acc.user := by
  obtain ⟨user, write⟩ := acc
  cases user <;> cases write <;> rfl

theorem grants_user (acc : AccessMode) : grants acc (READ_WRITE ||| PRESENT ||| USER) = true := by
  obtain ⟨user, write⟩ := acc
  cases user <;> cases write <;> rfl

theorem grants_large_user (acc : AccessMode) :
    grants acc (PAGE_SIZE ||| USER ||| PRESENT ||| READ_WRITE) = true := by
  obtain ⟨user, write⟩ := acc
  cases user <;> cases write <;> rfl

theorem grants_absent (acc : AccessMode) : grants acc READ_WRITE = false := by
  obtain ⟨user, write⟩ := acc
  cases user <;> cases write <;> rfl

/-- The first 4MB: a page of the table is there if it is one of the four. -/
theorem walk_low (h : Encodes place arrays pg) (harranged : pg.Arranged) (acc : AccessMode)
    (ha : a / 4194304 = 0) :
    walk (place.word arrays rest) place.pageDirectory acc a =
      if pageTablePresent (a / 4096) then (if acc.user then none else some a) else none := by
  have hpde := h.pde rest ha (by decide) harranged.low
  have hpage : a / 4096 % 1024 = a / 4096 := Nat.mod_eq_of_lt (by omega)
  have hpte : place.word arrays rest (place.pageTable + 4 * (a / 4096 % 1024))
      = pageTableWord (a / 4096) := by
    rw [hpage, Placement.word_table (by omega), h.table _ (by omega)]
  have haddress : a / 4096 * 4096 + a % 4096 = a := Nat.div_add_mod' a 4096
  unfold pageTableWord SIZE_OF_PAGE at hpte
  rw [walk_small hpde place.aligned.2.1 (by decide) rfl hpte (Nat.dvd_mul_left ..)
    (by split <;> decide), haddress, grants_kernel]
  split
  · rw [grants_kernel]
    cases acc.user <;> rfl
  · rw [grants_absent, Bool.and_false]
    rfl

/-- The 4MB of the kernel. -/
theorem walk_kernel (h : Encodes place arrays pg) (harranged : pg.Arranged) (acc : AccessMode)
    (ha : a / 4194304 = 1) :
    walk (place.word arrays rest) place.pageDirectory acc a =
      if acc.user then none else some a := by
  have hpde : _ = entry KERNEL_START _ := h.pde rest ha (by decide) harranged.kernel
  have haddress : KERNEL_START + a % 4194304 = a := by
    unfold KERNEL_START
    omega
  rw [walk_large hpde (by decide) (by decide) (by decide), haddress, grants_large_kernel]
  cases acc.user <;> rfl

/-- The 4MB of the process. -/
theorem walk_user (h : Encodes place arrays pg) (harranged : pg.Arranged) (acc : AccessMode)
    (ha : a / 4194304 = SYS_VIRTUAL_MEM) :
    walk (place.word arrays rest) place.pageDirectory acc a =
      pg.userFrame.map (· + (a - USER_START)) := by
  rcases harranged.user with habsent | ⟨p, hp⟩
  · have hpde : _ = entry 0 READ_WRITE := h.pde rest ha (by decide) habsent
    rw [walk_unmapped hpde (by decide) (by decide), Paging.userFrame_absent habsent]
    rfl
  · have hpde : _ = entry (MB_8 + MB_4 * p.val) _ := h.pde rest ha (by decide) hp
    have hlarge : 4194304 ∣ MB_8 + MB_4 * p.val := by
      unfold MB_8 MB_4
      omega
    have hoffset : a % 4194304 = a - USER_START := by
      unfold SYS_VIRTUAL_MEM at ha
      unfold USER_START
      omega
    rw [walk_large hpde hlarge (by decide) (by decide), grants_large_user, if_pos rfl,
      Paging.userFrame_page hp, hoffset]
    rfl

theorem screenFrame_aligned (screen : Option Terminal) :
    4096 ∣ PagingCall.screenFrame screen := by
  unfold PagingCall.screenFrame videoBuf VIDEO PAGE_4KB
  cases screen with
  | none => decide
  | some t => dsimp only; omega

/-- The page at 132MB, and nothing behind it. -/
theorem walk_video (h : Encodes place arrays pg) (harranged : pg.Arranged) (acc : AccessMode)
    (ha : a / 4194304 = USER_END / MB_4) :
    walk (place.word arrays rest) place.pageDirectory acc a =
      if a < USER_END + SIZE_OF_PAGE then pg.videoFrame.map (· + (a - USER_END)) else none := by
  have hindex : a / 4194304 = 33 := ha
  rcases harranged.video with habsent | ⟨htable, screen, hscreen⟩
  · have hpde : _ = entry 0 READ_WRITE := h.pde rest ha (by decide) habsent
    rw [walk_unmapped hpde (by decide) (by decide), Paging.videoFrame_absent habsent]
    split <;> rfl
  · have hpde := h.pde rest ha (by decide) htable
    have hpte : place.word arrays rest (place.pageTableVidmap + 4 * (a / 4096 % 1024))
        = place.encode (pg.vidmap (a / 4096 % 1024)) := by
      rw [Placement.word_vidmap (by omega), h.vidmap _ (by omega)]
    by_cases hfirst : a < USER_END + SIZE_OF_PAGE
    · have hzero : a / 4096 % 1024 = 0 := by
        unfold USER_END SIZE_OF_PAGE at hfirst
        omega
      have hoffset : a % 4096 = a - USER_END := by
        unfold USER_END SIZE_OF_PAGE at *
        omega
      rw [show pg.vidmap (a / 4096 % 1024) = _ by rw [hzero, hscreen]] at hpte
      have hpte' : _ = entry (PagingCall.screenFrame screen) (READ_WRITE ||| PRESENT ||| USER) :=
        hpte
      rw [walk_small hpde place.aligned.2.2 (by decide) rfl hpte' (screenFrame_aligned screen)
        (by decide), grants_user, Bool.and_self, if_pos rfl, if_pos hfirst, hoffset,
        Paging.videoFrame_page htable hscreen]
      rfl
    · have hne : a / 4096 % 1024 ≠ 0 := by
        unfold USER_END SIZE_OF_PAGE at hfirst
        omega
      rw [harranged.tail _ hne] at hpte
      have hpte' : _ = entry 0 READ_WRITE := hpte
      rw [walk_small hpde place.aligned.2.2 (by decide) rfl hpte' (by decide) (by decide),
        if_neg hfirst, grants_absent, Bool.and_false]
      rfl

/-- An address in none of the five directory entries. -/
theorem walk_nothing (h : Encodes place arrays pg) (harranged : pg.Arranged) (acc : AccessMode)
    (ha : a < 4294967296) (hlow : 2 ≤ a / 4194304) (huser : a / 4194304 ≠ SYS_VIRTUAL_MEM)
    (hvideo : a / 4194304 ≠ USER_END / MB_4) :
    walk (place.word arrays rest) place.pageDirectory acc a = none := by
  have habsent := harranged.others _ hlow huser hvideo
  have hpde : _ = entry 0 READ_WRITE := h.pde rest rfl (by omega) habsent
  exact walk_unmapped hpde (by decide) (by decide)

/-- **The address map.** The processor finds in the arrays what the entries say, for every
address and every access. -/
theorem walk_eq_addressMap (h : Encodes place arrays pg) (harranged : pg.Arranged)
    (acc : AccessMode) (ha : a < 4294967296) :
    walk (place.word arrays rest) place.pageDirectory acc a = pg.addressMap acc.user a := by
  have hconst : VIDEO = 753664 ∧ SIZE_OF_PAGE = 4096 ∧ KERNEL_START = 4194304 ∧ MB_8 = 8388608 ∧
      USER_START = 134217728 ∧ USER_END = 138412032 ∧ SYS_VIRTUAL_MEM = 32 ∧
      USER_END / MB_4 = 33 := by decide
  unfold Paging.addressMap
  by_cases hlow : a / 4194304 = 0
  · have hfour : pageTablePresent (a / 4096) = true ↔
        VIDEO ≤ a ∧ a < VIDEO + 4 * SIZE_OF_PAGE := by
      unfold pageTablePresent VIDEO PAGE_4KB SIZE_OF_PAGE
      rw [Bool.and_eq_true, decide_eq_true_eq, decide_eq_true_eq]
      omega
    rw [walk_low h harranged acc hlow]
    by_cases hvideo : VIDEO ≤ a ∧ a < VIDEO + 4 * SIZE_OF_PAGE
    · rw [if_pos (hfour.mpr hvideo), if_pos hvideo]
    · rw [if_neg (mt hfour.mp hvideo), if_neg hvideo, if_neg (by omega), if_neg (by omega),
        if_neg (by omega)]
  · rw [if_neg (by omega)]
    by_cases hkernel : a / 4194304 = 1
    · have hin : KERNEL_START ≤ a ∧ a < MB_8 := by omega
      rw [walk_kernel h harranged acc hkernel, if_pos hin]
    · rw [if_neg (by omega)]
      by_cases huser : a / 4194304 = SYS_VIRTUAL_MEM
      · rw [walk_user h harranged acc huser, if_pos (by omega)]
      · rw [if_neg (by omega)]
        by_cases hvideo : a / 4194304 = USER_END / MB_4
        · rw [walk_video h harranged acc hvideo]
          by_cases hfirst : a < USER_END + SIZE_OF_PAGE
          · rw [if_pos hfirst, if_pos (by omega)]
          · rw [if_neg hfirst, if_neg (by omega)]
        · rw [if_neg (by omega)]
          exact walk_nothing h harranged acc ha (by omega) huser hvideo

end

end Ext2Kernel
