import Ext2Kernel.Process.Halt
import Ext2Kernel.Basic.StepSystem

set_option autoImplicit false

/-! # The kernel as a step system

The events are the system calls of the running process, the exceptions it raises, its stores
through the video pointer, and the interrupts. `step` gives the state after an event, and
`none` where the source has no defined behaviour: a NULL dereference, a store outside the
object it is meant for, or a loop that does not end.

System calls run with interrupts disabled and are single events, except for the two reads
that wait; their second parts are the events `resumeTerminal` and `resumeRtc`. An event may
come in any state, so that the runs of the model include all those of the machine.

The bytes that a read and `getargs` store in the memory of a process are no part of the state, so
that their events carry no pointer. `Process/PointerStores` gives these calls their pointers: with
one into the memory of the process a call does what `step` says (`storeStep_of_user`), and with
another one it stores where the pages are mapped, up to the PCBs of the kernel.
-/

namespace Ext2Kernel

open ByteMem

inductive Event
  | execute (fr : Frame) (command : Option (List UInt8))
  | halt (fr : Frame) (status : UInt8)
  | exception (fr : Frame) (index : Fin 20)
  | pit (fr : Frame)
  | rtc
  | keyboard (scancode : UInt8)
  | switch (terminalNum : Int)
  | open (filename : Option (List UInt8))
  | close (fd : Int)
  | read (stack : Mem) (fd : Int) (bufNull : Bool) (nbytes : Int)
  | resumeTerminal (nbytes : Nat)
  | resumeRtc
  | write (fd : Int) (buf : Option Mem) (nbytes : Int)
  | getargs
  | vidmap (screenStart : Nat)
  | draw (offset : Nat) (byte : UInt8)

/-! ### Events as conditions see them

The conditions on runs single out keys, switches, the two parts of a read and executes, and treat
all other events alike. -/

namespace Event

def isOther : Event → Bool
  | .keyboard _ | .switch _ | .read _ _ _ _ | .resumeTerminal _ | .execute _ _ => false
  | _ => true

inductive View : Event → Type
  | keyboard (scancode : UInt8) : View (.keyboard scancode)
  | switch (terminalNum : Int) : View (.switch terminalNum)
  | read (stack : Mem) (fd : Int) (bufNull : Bool) (nbytes : Int) :
      View (.read stack fd bufNull nbytes)
  | resumeTerminal (nbytes : Nat) : View (.resumeTerminal nbytes)
  | execute (fr : Frame) (command : Option (List UInt8)) : View (.execute fr command)
  | other {e : Event} (h : e.isOther = true) : View e

def view : ∀ e : Event, View e
  | .keyboard scancode => .keyboard scancode
  | .switch terminalNum => .switch terminalNum
  | .read stack fd bufNull nbytes => .read stack fd bufNull nbytes
  | .resumeTerminal nbytes => .resumeTerminal nbytes
  | .execute fr command => .execute fr command
  | .halt _ _ | .exception _ _ | .pit _ | .rtc | .open _ | .close _ | .resumeRtc | .write _ _ _
  | .getargs | .vidmap _ | .draw _ _ => .other rfl

end Event

namespace Kernel

/-- A store of the running process through the page at 132MB. -/
def drawByte (k : Kernel) (offset : Nat) (byte : UInt8) : Option Kernel :=
  match (k.pageTableVidmap 0).base with
  | .phys a =>
      if k.vidmapPresent ∧ offset < PAGE_4KB then
        some { k with console := { k.console with
          video := Function.update k.console.video (a - VIDEO + offset) byte } }
      else none
  | _ => none

def step (fs : FileSys) (k : Kernel) : Event → Option Kernel
  | .execute fr command => (k.executeCall fs fr command).map fun r => r.2
  | .halt fr status => (k.sysHalt fs fr status).map fun r => r.2
  | .exception fr index => (k.exceptionHandler fs fr index).map fun r => r.2
  | .pit fr => k.scheduling fs fr
  | .rtc => some k.rtcInterrupt
  | .keyboard scancode =>
      (k.console.keyboardInterrupt scancode).map fun c => { k with console := c }
  | .switch n => some { k with console := k.console.switchTerminal n }
  | .open filename => (k.sysOpen fs filename).map fun r => r.2
  | .close fd => (k.sysClose fd).map fun r => r.2
  | .read stack fd bufNull nbytes => (k.sysRead fs stack fd bufNull nbytes).map fun r => r.2
  | .resumeTerminal nbytes => (k.readTerminalFinish nbytes).map fun _ => k
  | .resumeRtc => k.readRtcFinish
  | .write fd buf nbytes => (k.sysWrite fd buf nbytes).map fun r => r.2
  | .getargs => k.sysGetargs.map fun _ => k
  | .vidmap screenStart => (k.sysVidmap screenStart).map fun r => r.2
  | .draw offset byte => k.drawByte offset byte

/-- The states the kernel reaches from boot with the image `fs`. -/
def Reachable (fs : FileSys) (k : Kernel) : Prop :=
  ∃ m, StepSystem.Reachable (step fs) (boot m) k

end Kernel

end Ext2Kernel
