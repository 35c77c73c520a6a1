import Ext2Kernel.Console.Screen
import Ext2Kernel.FileSys.Image

set_option autoImplicit false

/-! # The state of the kernel

The process control blocks of `PCB.h`, the variables of `multiprocessing.c` and
`syscall_handlers.c`, the paging structures and the task state segment, together with the
console. `Kernel.boot` is the state when `entry` lets scheduling start.

A PCB lies at a fixed address below 8MB, one for each process number. The model names the
PCB memory by the process number, its *slot*, and a pointer to a PCB is `none` (NULL) or a
slot.
-/

namespace Ext2Kernel

open ByteMem

/-! ## Constants -/

def MIN_FD_IDX : Nat := 2
def MAX_FD_IDX : Nat := 7
def MB_4 : Nat := 4194304
def MB_8 : Nat := 8388608
def KB_8 : Nat := 8192
def USER_START : Nat := 134217728
def USER_END : Nat := 138412032
def PROGRAM_IMAGE : Nat := 0x08048000
def SYS_VIRTUAL_MEM : Nat := 0x20
def VIDEO : Nat := 0xB8000
def KERNEL_START : Nat := 0x400000
def KERNEL_DS : Nat := 0x18
def HEADER_INFO : Nat := 40
def PRESENT : Nat := 0x1
def READ_WRITE : Nat := 0x2
def USER : Nat := 0x4
def PAGE_SIZE : Nat := 0x80
def GLOBAL_BIT : Nat := 0x100

abbrev Slot := Fin 6

instance neZeroSlots : @NeZero Nat Zero.ofOfNat0 6 := @Nat.instNeZeroSucc 5

instance neZeroDescriptors : @NeZero Nat Zero.ofOfNat0 8 := @Nat.instNeZeroSucc 7

/-- `video_buf[t]`. -/
def videoBuf (t : Terminal) : Nat := VIDEO + PAGE_4KB * (t.val + 1)

/-! ## Process control blocks -/

/-- The five operation tables. -/
inductive FileOps
  | rtc | file | dir | stdIn | stdOut
  deriving DecidableEq

structure FileDesc where
  fileOpsTable : Option FileOps
  inode : Nat
  filePosition : Nat
  flags : Nat
  deriving DecidableEq

/-- The contents of `argument_array`: a string that fits its 128 bytes with the terminator;
the bytes behind it are NUL. -/
structure ArgumentArray where
  chars : List UInt8
  terminated : chars.length < KEYBOARD_BUFFER_SIZE

structure Pcb where
  fileDescArray : Fin 8 → FileDesc
  argumentArray : ArgumentArray
  parentPcb : Option Slot
  processId : Slot
  ebp : Nat
  esp : Nat
  eip : Nat
  vidmapTerminal : Nat
  rtcInterruptDivider : Nat
  rtcCounter : Nat

/-- Zeroed PCB memory. -/
def Pcb.zero : Pcb where
  fileDescArray := fun _ => ⟨none, 0, 0, 0⟩
  argumentArray := ⟨[], by decide⟩
  parentPcb := none
  processId := 0
  ebp := 0
  esp := 0
  eip := 0
  vidmapTerminal := 0
  rtcInterruptDivider := 0
  rtcCounter := 0

/-! ## Paging -/

/-- What a page directory or page table entry points to: a physical address or one of the
two page tables of the kernel. -/
inductive PageBase
  | phys (address : Nat)
  | pageTable
  | pageTableVidmap
  deriving DecidableEq

structure PageEntry where
  base : PageBase
  flags : Nat
  deriving DecidableEq

/-- The fields of the task state segment the kernel sets after boot. -/
structure Tss where
  ss0 : Nat
  esp0 : Nat
  deriving DecidableEq

/-! ## The kernel -/

structure Kernel where
  console : Console
  pitFlag : Bool
  curPcbPtr : Terminal → Option Slot
  pcb : Slot → Pcb
  activeProcesses : Slot → Nat
  processNum : Slot
  argFlag : Terminal → Bool
  errorFlag : Terminal → Bool
  readDirFlag : Terminal → Nat
  /-- `buf_executable_header`, row `t` from `HEADER_INFO * t` on, and the memory behind it. -/
  bufExecutableHeader : Mem
  pageDirectory : Nat → PageEntry
  pageTableVidmap : Nat → PageEntry
  tss : Tss

namespace Kernel

abbrev visibleTerminal (k : Kernel) : Terminal := k.console.visibleTerminal

abbrev processTerminal (k : Kernel) : Terminal := k.console.processTerminal

/-- `cur_pcb_ptr[process_terminal]`. -/
def cur (k : Kernel) : Option Slot := k.curPcbPtr k.processTerminal

/-- Change one PCB. -/
def modifyPcb (k : Kernel) (p : Slot) (f : Pcb → Pcb) : Kernel :=
  { k with pcb := Function.update k.pcb p (f (k.pcb p)) }

/-- `program_paging`. -/
def programPaging (k : Kernel) (physicalAddress : Nat) : Kernel :=
  { k with
    pageDirectory := Function.update k.pageDirectory SYS_VIRTUAL_MEM
      ⟨.phys physicalAddress, PAGE_SIZE ||| USER ||| PRESENT ||| READ_WRITE⟩ }

/-- `vidmap_paging_modify`. -/
def vidmapPagingModify (k : Kernel) (terminalAddress : Nat) : Kernel :=
  { k with
    pageDirectory := Function.update k.pageDirectory (USER_END / MB_4)
      ⟨.pageTableVidmap, READ_WRITE ||| PRESENT ||| USER⟩
    pageTableVidmap := Function.update k.pageTableVidmap 0
      ⟨.phys terminalAddress, READ_WRITE ||| PRESENT ||| USER⟩ }

/-- `vidmap_paging`. -/
def vidmapPaging (k : Kernel) : Kernel := k.vidmapPagingModify VIDEO

/-- The stack switch to the kernel stack of process `p`. -/
def setTss (k : Kernel) (p : Slot) : Kernel :=
  { k with tss := ⟨KERNEL_DS, MB_8 - KB_8 * p.val - 4⟩ }

end Kernel

/-- What the memory of the machine holds at boot outside the variables of the kernel: the
bytes behind two arrays, and video memory. -/
structure BootMemory where
  behindScancodes : Mem
  behindKeyboard : UInt8
  video : Mem

/-- The state when `entry` has set `pit_flag`: the screen cleared, no process, PCB memory
zero, paging as `paging_init` leaves it. -/
def Kernel.boot (m : BootMemory) : Kernel where
  console :=
    { visibleTerminal := 0
      processTerminal := 0
      term := fun _ => TermState.boot
      video := fun a =>
        if a < 2 * (NUM_ROWS * NUM_COLS) then (if a % 2 = 0 then 0 else ATTRIB) else m.video a
      notInPrevCmdFlag := true
      putcToVisibleFlag := false
      tooManyShellsFlag := false
      behindScancodes := m.behindScancodes
      behindKeyboard := m.behindKeyboard }
  pitFlag := true
  curPcbPtr := fun _ => none
  pcb := fun _ => Pcb.zero
  activeProcesses := fun _ => 0
  processNum := 0
  argFlag := fun _ => true
  errorFlag := fun _ => false
  readDirFlag := fun _ => 0
  bufExecutableHeader := fun _ => 0
  pageDirectory := fun i =>
    if i = 0 then ⟨.pageTable, READ_WRITE ||| PRESENT⟩
    else if i = 1 then ⟨.phys KERNEL_START, PAGE_SIZE ||| READ_WRITE ||| PRESENT ||| GLOBAL_BIT⟩
    else ⟨.phys 0, READ_WRITE⟩
  pageTableVidmap := fun _ => ⟨.phys 0, READ_WRITE⟩
  tss := ⟨KERNEL_DS, 0x800000⟩

end Ext2Kernel
