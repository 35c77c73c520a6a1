import Ext2Kernel.Process.State
import Ext2Kernel.FileSys.ReadData

set_option autoImplicit false

/-! # `sys_execute`

The system call and its helpers, in the order of the source. Three things can happen:
the call returns -1, it enters the new program (its `iret` does not come back), or the loader
runs off the mapped user pages and the processor raises a page fault (`ExecResult`).

The result is `none` where the source leaves C: `_execute_parse_args` copies an argument of
more than 128 characters past the end of `arg`, and `_execute_create_PCB` takes `strlen` of an
`arg` that 128 characters have filled without a terminator.
-/

namespace Ext2Kernel

open ByteMem

/-- What a call finds in the machine: the stack registers its inline assembly stores, and
the byte that follows `prog_name` on the stack, which `strlen` looks at when a name fills all
32 bytes. -/
structure Frame where
  esp : Nat
  ebp : Nat
  afterProgName : UInt8

/-! ## `_execute_parse_args` -/

/-- The result of `_execute_parse_args`: -1, or the program name cut to 32 characters and the
argument (empty for the return value -2). -/
inductive Parsed
  | bad
  | ok (progName arg : List UInt8)
  deriving DecidableEq

/-- A character of the program name. -/
def nameChar (b : UInt8) : Bool := b ≠ 32 && b ≠ 0 && b ≠ 10

/-- `_execute_parse_args` on the bytes from `command` on; `none` is the NULL pointer. -/
def executeParseArgs : Option (List UInt8) → Parsed
  | none => .bad
  | some command =>
      -- moves past NUL characters, at most 127 of them
      if (command.takeWhile (· = 0)).length ≥ KEYBOARD_BUFFER_SIZE then .bad
      else
        -- skips spaces in front of the program name
        let cs := (command.dropWhile (· = 0)).dropWhile (· = 32)
        if cs.headD 0 = 0 ∨ cs.headD 0 = 10 then .bad
        else
          let name := cs.takeWhile nameChar
          -- skips what is left of the name and the spaces in front of the argument
          let rest := (cs.dropWhile nameChar).dropWhile (· = 32)
          .ok (name.take FILENAME_LEN) (rest.takeWhile (· ≠ 0))

/-- The memory at `prog_name`: a name of 32 characters has no terminator of its own. -/
def Frame.progMem (fr : Frame) (progName : List UInt8) : List UInt8 :=
  if progName.length < FILENAME_LEN then progName else progName ++ [fr.afterProgName]

/-! ## `_execute_executable_check` -/

def elfMagic : List UInt8 := [0x7F, 0x45, 0x4C, 0x46]

/-- `_execute_executable_check` with the row of `term` as buffer: whether the file passes,
and the header memory afterwards. `read_data` is asked for 4096 bytes, whatever the size of
the row. -/
def executeExecutableCheck (fs : FileSys) (header : Mem) (term : Terminal)
    (progName : List UInt8) : Bool × Mem :=
  let row := HEADER_INFO * term.val
  let h₀ := overlay header row 4 fun _ => 0
  match readDentryByName fs (some progName) with
  | none => (false, h₀)
  | some d =>
      if d.fileType ≠ FILE_TYPE then (false, h₀)
      else
        let r := readData fs d.inode 0 false BLOCK_SIZE
        let h₁ := overlay h₀ row r.stored.length (ofList r.stored)
        (strncmp (ofList elfMagic) (fun i => h₁ (row + i)) 4 0 = 0, h₁)

/-! ## `_execute_user_program_loader` -/

/-- `_sys_open_file`: the inode of the file, or -1 as the unsigned value its callers store.
The local copy holds at most 32 characters. -/
def sysOpenFile (fs : FileSys) (filename : List UInt8) : Nat :=
  match readDentryByName fs (some ((filename.takeWhile (· ≠ 0)).take FILENAME_LEN)) with
  | some d => d.inode
  | none => 4294967295

inductive LoadResult
  | failed
  | fault
  | loaded (image : List UInt8)

namespace Kernel

/-- Is the 4KB page at 132MB mapped? -/
def vidmapPresent (k : Kernel) : Bool :=
  (k.pageDirectory (USER_END / MB_4)).flags % 2 = 1 && (k.pageTableVidmap 0).flags % 2 = 1

/-- The end of the user memory that is mapped without a gap from 128MB on. -/
def mappedEnd (k : Kernel) : Nat := if k.vidmapPresent then USER_END + PAGE_4KB else USER_END

/-- Store bytes through the page at 132MB. -/
def storeVidmap (k : Kernel) (bytes : List UInt8) : Kernel :=
  match (k.pageTableVidmap 0).base with
  | .phys a =>
      { k with console := { k.console with
          video := overlay k.console.video (a - VIDEO) bytes.length (ofList bytes) } }
  | _ => k

/-- `_execute_user_program_loader`. An image that does not fit below 132MB runs into the
video page if that is mapped, and else into unmapped memory. -/
def executeUserProgramLoader (fs : FileSys) (progName : List UInt8) (k : Kernel) :
    Option (LoadResult × Kernel) :=
  let inode := sysOpenFile fs progName
  (readDentryByName fs (some progName)).map fun d =>
    let programSize := fs.fileLength d.inode
    if PROGRAM_IMAGE + programSize > k.mappedEnd then
      (.fault, if k.vidmapPresent then k.storeVidmap (List.replicate PAGE_4KB 0) else k)
    else
      let r := readData fs inode 0 false programSize
      if r.ret = -1 then
        (.failed, k.storeVidmap (List.replicate (PROGRAM_IMAGE + programSize - USER_END) 0))
      else (.loaded r.stored, k.storeVidmap (r.stored.drop (USER_END - PROGRAM_IMAGE)))

/-! ## `_execute_create_PCB` and `_execute_context_switch` -/

/-- The PCB of a new process; the descriptors from 2 on and the saved registers are those of
the last process in the slot. -/
def newPcb (old : Pcb) (argument : ArgumentArray) (parent : Option Slot) (p : Slot) : Pcb :=
  { old with
    parentPcb := parent
    processId := p
    fileDescArray := Function.update (Function.update old.fileDescArray
      0 ⟨some .stdIn, 0, 0, 1⟩) 1 ⟨some .stdOut, 0, 0, 1⟩
    vidmapTerminal := 0
    rtcCounter := 0
    rtcInterruptDivider := 0
    argumentArray := argument }

/-- `cur_pcb_ptr[term] = _execute_create_PCB(arg, term)`. -/
def executeCreatePCB (k : Kernel) (arg : List UInt8) (term : Terminal) : Option Kernel :=
  if h : arg.length < KEYBOARD_BUFFER_SIZE then
    let p := k.processNum
    some { k with
      pcb := Function.update k.pcb p (newPcb (k.pcb p) ⟨arg, h⟩ (k.curPcbPtr term) p)
      curPcbPtr := Function.update k.curPcbPtr term (some p) }
  else none

/-- The entry point in the header row of `term`, bytes 24 to 27. -/
def entryPoint (k : Kernel) (term : Terminal) : Nat :=
  word k.bufExecutableHeader (HEADER_INFO * term.val + 24)

/-- `_execute_context_switch`, up to its `iret`, for the process `p = cur_pcb_ptr[term]`. -/
def executeContextSwitch (k : Kernel) (term : Terminal) (p : Slot) : Kernel :=
  (k.setTss (k.pcb p).processId).modifyPcb p fun b => { b with eip := k.entryPoint term }

/-! ## `sys_execute` -/

inductive ExecResult
  | ret (value : Int)
  | enter (eip : Nat) (image : List UInt8)
  | fault

/-- The call ran into a page fault. -/
def ExecResult.isFault : ExecResult → Bool
  | .fault => true
  | _ => false

/-- The terminal of the new process: the visible one, unless the terminal being scheduled is
empty. -/
def execTerm (k : Kernel) : Terminal :=
  if k.cur = none then k.processTerminal else k.visibleTerminal

/-- The flags of a parsed command. -/
def setFlags (k : Kernel) (term : Terminal) (arg : List UInt8) : Kernel :=
  { k with
    errorFlag := Function.update k.errorFlag term false
    argFlag := Function.update k.argFlag term (decide (arg ≠ [])) }

/-- Save `esp` and `ebp` in the current PCB of `term`, if there is one. -/
def saveFrame (k : Kernel) (term : Terminal) (fr : Frame) : Kernel :=
  match k.curPcbPtr term with
  | some p => k.modifyPcb p fun b => { b with esp := fr.esp, ebp := fr.ebp }
  | none => k

/-- The first process number that is not in use. -/
def firstFree (k : Kernel) : Option Slot :=
  (List.finRange 6).find? fun i => k.activeProcesses i ≠ 1

/-- Does `sys_execute` take the program for a shell? -/
def shellName (progName : List UInt8) : Bool :=
  strncmp (ofList progName) (ofList (ascii "shell")) 5 0 = 0

/-- `sys_execute` once a process number is found. -/
def launch (fs : FileSys) (fr : Frame) (k : Kernel) (term : Terminal)
    (progName arg : List UInt8) (p : Slot) : Option (ExecResult × Kernel) :=
  let k₁ := { k with
    processNum := p
    activeProcesses := Function.update k.activeProcesses p 1 }.programPaging (p.val * MB_4 + MB_8)
  match k₁.executeUserProgramLoader fs (fr.progMem progName) with
  | none => none
  | some (.failed, k₂) => some (.ret (-1), k₂)
  | some (.fault, k₂) => some (.fault, k₂)
  | some (.loaded image, k₂) =>
      let k₃ := { k₂ with
        console := k₂.console.modify term fun s => { s with shellFlag := shellName progName } }
      (k₃.executeCreatePCB arg term).map fun k₄ =>
        (.enter (k₄.entryPoint term) image, k₄.executeContextSwitch term p)

/-- `sys_execute` after parsing. -/
def executeParsed (fs : FileSys) (fr : Frame) (k : Kernel) (progName arg : List UInt8) :
    Option (ExecResult × Kernel) :=
  let term := k.execTerm
  let k₁ := (k.setFlags term arg).saveFrame term fr
  let check := executeExecutableCheck fs k₁.bufExecutableHeader term (fr.progMem progName)
  let k₂ := { k₁ with bufExecutableHeader := check.2 }
  if check.1 then
    match k₂.firstFree with
    | none => some (.ret (-1), { k₂ with
        console := { k₂.console with tooManyShellsFlag := true } })
    | some p => k₂.launch fs fr term progName arg p
  else some (.ret (-1), k₂)

/-- `sys_execute`. -/
def sysExecute (fs : FileSys) (fr : Frame) (command : Option (List UInt8)) (k : Kernel) :
    Option (ExecResult × Kernel) :=
  let k₀ := { k with processNum := 0 }
  match executeParseArgs command with
  | .bad => some (.ret (-1), k₀)
  | .ok progName arg =>
      if arg.length > KEYBOARD_BUFFER_SIZE then none
      else executeParsed fs fr k₀ progName arg

end Kernel

end Ext2Kernel
