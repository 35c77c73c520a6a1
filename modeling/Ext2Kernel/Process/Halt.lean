import Ext2Kernel.Process.Files

set_option autoImplicit false

/-! # `sys_halt`, exceptions and scheduling

The places that end a process or hand the processor to another one. Where the source goes on
to use a current process that does not exist, the result is `none`.
-/

namespace Ext2Kernel

open ByteMem

/-- The command line of the calls `sys_execute("shell")`. -/
def shellCommand : List UInt8 := ascii "shell"

def errorMessages : List String :=
  ["Dividing by zero is illegal in thirteen countries.", "Debug exception.",
    "Non-maskable interrupt exception.", "Breakpoint exception.",
    "Into detected overflow exception.", "Out of bounds exception.", "Invalid opcode.",
    "No coprocessor exception.", "Double fault exception.", "Coprocessor segment overrun.",
    "Bad TSS.", "Segment not present.", "Stack fault.", "General protection fault.",
    "Page fault.", "Unknown interrupt!!!!!!!!", "Coprocessor fault.", "Alignment check.",
    "Machine check.", "SMD floating point exception."]

/-- What `exception_handler` prints. -/
def exceptionText (index : Fin 20) : List UInt8 :=
  ascii "EXCEPTION " ++ ascii (toString index.val) ++ ascii ": "
    ++ ascii (errorMessages.getD index.val "") ++ ascii "\n"

namespace Kernel

/-! ## `sys_halt` -/

/-- The closing loop of `sys_halt`, over the descriptors in `fds`. -/
def closeAll : List Nat → Kernel → Option Kernel
  | [], k => some k
  | i :: fds, k =>
      k.cur.bind fun p =>
        if ((k.pcb p).fileDescArray (Fin.ofNat 8 i)).flags ≠ 0 then
          (k.sysClose i).bind fun r => closeAll fds r.2
        else closeAll fds k

/-- How `sys_halt` ends: in a fresh shell, or in the `execute` of the parent with a return
value in `eax` and its saved stack. -/
inductive HaltResult
  | enter (eip : Nat) (image : List UInt8)
  | resume (eax : Nat) (esp ebp : Nat)

/-- The end of `sys_halt`, when the parent `q` has become current. -/
def returnToParent (k : Kernel) (q : Slot) : Kernel :=
  let t := k.processTerminal
  let k₁ := k.programPaging ((k.pcb q).processId.val * MB_4 + MB_8)
  let c := k₁.console.modify t fun s => { s with shellFlag := true }
  let c' := if (c.term t).typingDuringProgFlag then
      (c.putc 10).modify t fun s => { s with typingDuringProgFlag := false }
    else c
  { k₁ with console := c' }.setTss (k.pcb q).processId

/-- The middle of `sys_halt`: the process `p` gives up its number and the parent becomes
current. -/
def dropProcess (k : Kernel) (p : Slot) : Kernel :=
  let b := k.pcb p
  ({ k with
      pcb := Function.update k.pcb p { b with vidmapTerminal := 0 }
      activeProcesses := Function.update k.activeProcesses b.processId 0
      curPcbPtr := Function.update k.curPcbPtr k.processTerminal b.parentPcb
    }).vidmapPagingModify VIDEO

/-- `sys_halt`. A process without a parent is replaced by a new shell. -/
def sysHalt (fs : FileSys) (fr : Frame) (status : UInt8) (k : Kernel) :
    Option (HaltResult × Kernel) :=
  (closeAll [2, 3, 4, 5, 6, 7]
      { k with console := { k.console with tooManyShellsFlag := false } }).bind fun k₁ =>
    k₁.cur.bind fun p =>
      let k₂ := k₁.dropProcess p
      match k₂.cur with
      | none =>
          match k₂.sysExecute fs fr (some shellCommand) with
          | some (.enter eip image, k₃) => some (.enter eip image, k₃)
          | _ => none
      | some q =>
          some (.resume ((asInt8 status) % 4294967296).toNat (k₂.pcb q).esp (k₂.pcb q).ebp,
            k₂.returnToParent q)

/-- `exception_handler`. -/
def exceptionHandler (fs : FileSys) (fr : Frame) (index : Fin 20) (k : Kernel) :
    Option (HaltResult × Kernel) :=
  let t := k.processTerminal
  sysHalt fs fr (UInt8.ofNat index.val)
    { k with
      errorFlag := Function.update k.errorFlag t true
      console := k.console.putcs (exceptionText index) }

def PAGE_FAULT : Fin 20 := 14

/-- `sys_execute` as a system call: a page fault in the loader ends the calling process. -/
def executeCall (fs : FileSys) (fr : Frame) (command : Option (List UInt8)) (k : Kernel) :
    Option (ExecResult × Kernel) :=
  match k.sysExecute fs fr command with
  | some (.fault, k') => (k'.exceptionHandler fs fr PAGE_FAULT).map fun r => (.fault, r.2)
  | r => r

/-! ## `scheduling` -/

/-- `process_terminal = (process_terminal + 1) % 3`. -/
def nextTerminal (k : Kernel) : Kernel :=
  { k with console := { k.console with processTerminal := k.processTerminal + 1 } }

/-- The end of `scheduling`, when the terminal scheduled next runs the process `p`. -/
def switchTo (k : Kernel) (p : Slot) : Kernel :=
  let k₁ := (k.programPaging ((k.pcb p).processId.val * MB_4 + MB_8)).setTss (k.pcb p).processId
  if (k.pcb p).vidmapTerminal = 1 ∧ k.processTerminal = k.visibleTerminal then
    k₁.vidmapPagingModify VIDEO
  else if (k.pcb p).vidmapTerminal = 1 then k₁.vidmapPagingModify (videoBuf k.processTerminal)
  else k₁

/-- `scheduling`. -/
def scheduling (fs : FileSys) (fr : Frame) (k : Kernel) : Option Kernel :=
  if k.pitFlag then
    let k₁ := (k.saveFrame k.processTerminal fr).nextTerminal
    match k₁.cur with
    | none =>
        match k₁.sysExecute fs fr (some shellCommand) with
        | some (.ret _, k₂) => some k₂
        | some (.enter _ _, k₂) => some k₂
        | _ => none
    | some p => some (k₁.switchTo p)
  else some k

end Kernel

end Ext2Kernel
