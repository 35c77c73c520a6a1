import Ext2Kernel.Process.Nesting

set_option autoImplicit false

/-! # The exit status

What the `execute` of a parent returns when its child has ended. The shell takes -1 for a
command that was not started, 256 for a program ended by an exception, and else the status
the program halted with. `sys_halt` takes the status as a signed byte, and
`exception_handler` calls it with the number of the exception, so that the value is the one
the shell expects exactly for a status below 128.
-/

namespace Ext2Kernel

open ByteMem LinkedStacks Kernel

/-- The status that event `e` hands to `sys_halt`. -/
def Event.status : Event → UInt8
  | .halt _ status => status
  | .exception _ index => UInt8.ofNat index.val
  | _ => UInt8.ofNat PAGE_FAULT.val

/-- `(uint32_t)status`, as `sys_halt` puts it into `eax`. -/
def statusEax (status : UInt8) : Nat := (asInt8 status % 4294967296).toNat

namespace Kernel

/-! ## The end of a process -/

/-- How event `e`, which ends the running process, goes on: a page fault in the loader
raises an exception, too. -/
def ending (fs : FileSys) (k : Kernel) : Event → Option (HaltResult × Kernel)
  | .halt fr status => k.sysHalt fs fr status
  | .exception fr index => k.exceptionHandler fs fr index
  | .execute fr command =>
      match k.sysExecute fs fr command with
      | some (.fault, k') => k'.exceptionHandler fs fr PAGE_FAULT
      | _ => none
  | _ => none

/-- Above its parent a process ends in the `execute` of the parent. -/
theorem Nested.returns (fs : FileSys) (fr : Frame) (status : UInt8) {t : Terminal} {n p : Slot}
    {b : Pcb} {k : Kernel} (h : Nested t n p b k) (hcur : k.cur = some n) :
    ∃ k', k.sysHalt fs fr status = some (.resume (statusEax status) b.esp b.ebp, k') := by
  obtain ⟨_, hparent, _, hpn⟩ := h.running hcur
  obtain ⟨S, _, _, hS, _, hb⟩ := h
  rw [sysHalt_of_afterPop hcur (hS.top_live hcur).hasOps]
  unfold afterPop
  rw [popped_cur, hparent, ← hb]
  dsimp only
  rw [popped_pcb_ne k hpn]
  exact ⟨_, rfl⟩

/-! ## The value the parent gets -/

end Kernel

end Ext2Kernel
