import Ext2Kernel.Process.Execute
import Ext2Kernel.Console.TerminalRead

set_option autoImplicit false

/-! # Descriptors

`sys_open`, `sys_close`, `sys_read`, `sys_write` and the operations behind the five tables,
`sys_getargs`, `sys_vidmap` and `rtc_interrupt`. All of them work on the PCB
`cur_pcb_ptr[process_terminal]`; a call without one dereferences NULL and has the result
`none`.

The two reads that wait for an interrupt end their first part with `ReadOutcome.waitTerminal`
or `.waitRtc`; `readTerminalFinish` and `readRtcFinish` are the second parts.
-/

namespace Ext2Kernel

open ByteMem

def MAX_INTERRUPT_FREQUENCY : Int := 512

/-! ## Library functions -/

/-- The loop of `power_of_two`, `fuel` rounds of it; `none` when it is still running. -/
def powerOfTwoLoop : Nat → Int → Option Int
  | 0, _ => none
  | fuel + 1, num =>
      if num = 1 then some 0
      else if num.tmod 2 = 1 then some 1
      else powerOfTwoLoop fuel (num.tdiv 2)

/-- `power_of_two`. A 32-bit number that has been halved 32 times is 0 and stays 0, so that a
loop still running after 33 rounds does not end. -/
def powerOfTwo (num : Int) : Option Int :=
  if num = 0 then some 1 else powerOfTwoLoop 33 num

/-- The bytes `strncpy` stores: the string, cut or padded to `n`. -/
def strncpy (src : Mem) (n : Nat) : List UInt8 :=
  let l := ((List.range n).map src).takeWhile (· ≠ 0)
  l ++ List.replicate (n - l.length) 0

/-- Mark a descriptor as closed. -/
def FileDesc.close (d : FileDesc) : FileDesc := { d with flags := 0 }

/-- `file_desc_array[i].flags = 0`. -/
def Pcb.closeFd (b : Pcb) (i : Fin 8) : Pcb :=
  { b with fileDescArray := Function.update b.fileDescArray i (b.fileDescArray i).close }

namespace Kernel

/-! ## RTC -/

/-- Change the PCB of the running process. -/
def modifyCur (k : Kernel) (f : Pcb → Pcb) : Option Kernel :=
  k.cur.map fun p => k.modifyPcb p f

/-- `_sys_write_rtc`; the buffer is `none` for NULL. A loop that does not end gives `none`. -/
def sysWriteRtc (k : Kernel) (buf : Option Mem) (nbytes : Int) : Option (Int × Kernel) :=
  match buf with
  | none => some (-1, k)
  | some m =>
      if nbytes ≠ 4 then some (-1, k)
      else
        let frequency := asInt32 (word m 0)
        (powerOfTwo frequency).bind fun r =>
          if r ≠ 0 ∨ frequency < 0 then some (-1, k)
          else
            let count := (MAX_INTERRUPT_FREQUENCY / min frequency MAX_INTERRUPT_FREQUENCY).toNat
            (k.modifyCur fun b => { b with rtcInterruptDivider := count, rtcCounter := count }).map
              fun k' => (0, k')

/-- `_sys_open_rtc`: a frequency of 2 Hz. -/
def sysOpenRtc (k : Kernel) : Option Kernel :=
  (k.sysWriteRtc (some (ofList [2, 0, 0, 0])) 4).map fun r => r.2

/-- Reload the counter of the running process. -/
def reloadCounter (k : Kernel) : Option Kernel :=
  k.modifyCur fun b => { b with rtcCounter := b.rtcInterruptDivider }

/-- `_sys_read_rtc` after its wait loop, which is left when the counter is 0. -/
def readRtcFinish (k : Kernel) : Option Kernel :=
  match k.cur with
  | some p => if (k.pcb p).rtcCounter = 0 then k.reloadCounter else none
  | none => none

/-- One of the three lines of `rtc_interrupt`. -/
def rtcTick (k : Kernel) (t : Terminal) : Kernel :=
  match k.curPcbPtr t with
  | some p =>
      if (k.pcb p).rtcCounter > 0 then
        k.modifyPcb p fun b => { b with rtcCounter := b.rtcCounter - 1 }
      else k
  | none => k

/-- `rtc_interrupt`. -/
def rtcInterrupt (k : Kernel) : Kernel := ((k.rtcTick 0).rtcTick 1).rtcTick 2

/-! ## Files and directories -/

/-- `_sys_read_file` on descriptor `fd` of process `p`. -/
def sysReadFile (fs : FileSys) (k : Kernel) (p : Slot) (fd : Fin 8) (nbytes : Nat) :
    Transfer × Kernel :=
  let d := (k.pcb p).fileDescArray fd
  let r := readData fs d.inode d.filePosition false nbytes
  if r.ret > 0 then
    (r, k.modifyPcb p fun b => { b with
      fileDescArray := Function.update b.fileDescArray fd
        { d with filePosition := (d.filePosition + r.ret.toNat) % 4294967296 } })
  else (r, k)

/-- `_sys_read_directory`. The position is a variable of the terminal, not of the descriptor.
An index past the directory leaves the local dentry as the stack had it (`stack`). -/
def sysReadDirectory (fs : FileSys) (k : Kernel) (stack : Mem) : Transfer × Kernel :=
  let t := k.processTerminal
  if k.readDirFlag t ≥ fs.entries then
    (⟨0, []⟩, { k with readDirFlag := Function.update k.readDirFlag t 0 })
  else
    let name := match readDentryByIndex fs (k.readDirFlag t) with
      | some d => ofList d.fileName
      | none => stack
    (⟨FILENAME_LEN, strncpy name FILENAME_LEN⟩,
      { k with readDirFlag := Function.update k.readDirFlag t (k.readDirFlag t + 1) })

/-! ## The system calls -/

/-- The descriptor index of a checked `fd`. -/
def fdIdx (fd : Int) : Fin 8 := Fin.ofNat 8 fd.toNat

/-- What the `close` functions of the tables return. -/
def closeResult : FileOps → Int
  | .rtc | .file | .dir => 0
  | .stdIn | .stdOut => -1

/-- `sys_close`. -/
def sysClose (k : Kernel) (fd : Int) : Option (Int × Kernel) :=
  if fd < MIN_FD_IDX ∨ fd > MAX_FD_IDX then some (-1, k)
  else
    k.cur.bind fun p =>
      let d := (k.pcb p).fileDescArray (fdIdx fd)
      if d.flags = 0 then some (-1, k)
      else
        d.fileOpsTable.map fun ops =>
          (closeResult ops, k.modifyPcb p fun b => b.closeFd (fdIdx fd))

/-- The first descriptor from 2 on whose flag is not 1. -/
def freeFd (b : Pcb) : Option (Fin 8) :=
  ([2, 3, 4, 5, 6, 7] : List (Fin 8)).find? fun i => (b.fileDescArray i).flags ≠ 1

/-- Install a descriptor in the PCB of the running process. -/
def installFd (k : Kernel) (i : Fin 8) (ops : FileOps) (inode : Nat) : Option Kernel :=
  k.modifyCur fun b => { b with
    fileDescArray := Function.update b.fileDescArray i ⟨some ops, inode, 0, 1⟩ }

/-- The type switch of `sys_open`; `none` is the `default` branch. -/
def openType (fs : FileSys) (k : Kernel) (filename : List UInt8) (i : Fin 8) (fileType : Nat) :
    Option (Option Kernel) :=
  if fileType = RTC_TYPE then some (k.sysOpenRtc.bind fun k' => k'.installFd i .rtc 0)
  else if fileType = DIRECTORY_TYPE then some (k.installFd i .dir 0)
  else if fileType = FILE_TYPE then some (k.installFd i .file (sysOpenFile fs filename))
  else none

/-- `sys_open`. -/
def sysOpen (fs : FileSys) (k : Kernel) (filename : Option (List UInt8)) :
    Option (Int × Kernel) :=
  k.cur.bind fun p =>
    match freeFd (k.pcb p) with
    | none => some (-1, k)
    | some i =>
        match readDentryByName fs filename with
        | none => some (-1, k)
        | some d =>
            match k.openType fs (filename.getD []) i d.fileType with
            | none => some (-1, k)
            | some r => r.map fun k' => ((i.val : Int), k')

inductive ReadOutcome
  | done (r : Transfer)
  | waitTerminal (nbytes : Nat)
  | waitRtc

/-- The `read` functions of the tables. -/
def readOp (fs : FileSys) (k : Kernel) (stack : Mem) (p : Slot) (fd : Fin 8) (nbytes : Int) :
    FileOps → Option (ReadOutcome × Kernel)
  | .stdIn => k.console.readTerminalStart.map fun c =>
      (.waitTerminal (Console.clipBytes nbytes), { k with console := c })
  | .stdOut => some (.done ⟨-1, []⟩, k)
  | .rtc => k.reloadCounter.map fun k' => (.waitRtc, k')
  | .file =>
      let r := k.sysReadFile fs p fd nbytes.toNat
      some (.done r.1, r.2)
  | .dir =>
      let r := k.sysReadDirectory fs stack
      some (.done r.1, r.2)

/-- `sys_read`, up to its return or its wait loop. -/
def sysRead (fs : FileSys) (k : Kernel) (stack : Mem) (fd : Int) (bufNull : Bool) (nbytes : Int) :
    Option (ReadOutcome × Kernel) :=
  if nbytes ≤ 0 ∨ bufNull ∨ fd < 0 ∨ fd > MAX_FD_IDX then some (.done ⟨-1, []⟩, k)
  else
    k.cur.bind fun p =>
      let d := (k.pcb p).fileDescArray (fdIdx fd)
      if d.flags = 0 then some (.done ⟨-1, []⟩, k)
      else d.fileOpsTable.bind (k.readOp fs stack p (fdIdx fd) nbytes)

/-- `_sys_read_terminal` after its wait loop, which is left when the flag is 0. -/
def readTerminalFinish (k : Kernel) (nbytes : Nat) : Option Transfer :=
  if (k.console.term k.processTerminal).sysReadFlag then none
  else some (k.console.readTerminalCopy nbytes)

/-- The `write` functions of the tables. -/
def writeOp (k : Kernel) (buf : Mem) (nbytes : Int) : FileOps → Option (Int × Kernel)
  | .rtc => k.sysWriteRtc (some buf) nbytes
  | .file | .dir | .stdIn => some (-1, k)
  | .stdOut =>
      let r := k.console.sysWriteTerminal buf nbytes
      some (r.2, { k with console := r.1 })

/-- `sys_write`; `none` is a NULL buffer. -/
def sysWrite (k : Kernel) (fd : Int) (buf : Option Mem) (nbytes : Int) : Option (Int × Kernel) :=
  match buf with
  | none => some (-1, k)
  | some m =>
      if nbytes ≤ 0 ∨ fd < 0 ∨ fd > MAX_FD_IDX then some (-1, k)
      else
        k.cur.bind fun p =>
          let d := (k.pcb p).fileDescArray (fdIdx fd)
          if d.flags = 0 then some (-1, k)
          else d.fileOpsTable.bind (k.writeOp m nbytes)

/-- `sys_getargs`: clears 128 bytes, whatever `nbytes` is. -/
def sysGetargs (k : Kernel) : Option Transfer :=
  if k.argFlag k.processTerminal then
    k.cur.map fun p =>
      let s := (k.pcb p).argumentArray.chars.takeWhile (· ≠ 0)
      ⟨0, s ++ List.replicate (KEYBOARD_BUFFER_SIZE - s.length) 0⟩
  else some ⟨-1, []⟩

/-- The word that `sys_vidmap` stores through its pointer: the address 132MB. -/
def vidmapWord : List UInt8 := [0x00, 0x00, 0x40, 0x08]

/-- `sys_vidmap`. The bytes of the word that come to lie behind 132MB are stored through the page
that the call has just mapped there. -/
def sysVidmap (k : Kernel) (screenStart : Nat) : Option (Int × Kernel) :=
  if screenStart < USER_START ∨ screenStart ≥ USER_END then some (-1, k)
  else
    let k₁ := if k.visibleTerminal = k.processTerminal then k.vidmapPaging
      else k.vidmapPagingModify (videoBuf k.processTerminal)
    let k₂ := k₁.storeVidmap (vidmapWord.drop (USER_END - screenStart))
    (k₂.modifyCur fun b => { b with vidmapTerminal := 1 }).map fun k' => (0, k')

end Kernel

end Ext2Kernel
