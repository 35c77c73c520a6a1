import Ext2Kernel.Process.Arguments

set_option autoImplicit false

/-! # Failing calls of `sys_execute`

What a call of `sys_execute` that returns -1 leaves behind. No process number is taken and no
page mapped before the last check that can fail, so the process table, the paging structures
and the task state segment are as before; `shell_flag` is set only for a program that is
entered. But `arg_flag` is set as soon as the command is parsed, and nothing takes it back. So
the call leaves no trace exactly if the flag already was what the command asks for
(`failed_execute_unchanged_iff`).
-/

namespace Ext2Kernel

open ByteMem

namespace Kernel

/-- What a process and the scheduler can see of the kernel is the same. -/
structure Unchanged (k k' : Kernel) : Prop where
  active : k'.activeProcesses = k.activeProcesses
  cur : k'.curPcbPtr = k.curPcbPtr
  descriptors : ∀ p, (k'.pcb p).fileDescArray = (k.pcb p).fileDescArray
  arguments : ∀ p, (k'.pcb p).argumentArray = (k.pcb p).argumentArray
  links : ∀ p, (k'.pcb p).parentPcb = (k.pcb p).parentPcb
  processId : ∀ p, (k'.pcb p).processId = (k.pcb p).processId
  page : k'.pageDirectory = k.pageDirectory
  tss : k'.tss = k.tss
  argFlag : k'.argFlag = k.argFlag
  shellFlag : ∀ t, (k'.console.term t).shellFlag = (k.console.term t).shellFlag
  getargs : k'.sysGetargs = k.sysGetargs

/-- `sys_getargs` reads the flag of the terminal and the argument of the process. -/
theorem sysGetargs_congr {k k' : Kernel} (hprocess : k'.processTerminal = k.processTerminal)
    (hcur : k'.curPcbPtr = k.curPcbPtr) (hflag : k'.argFlag = k.argFlag)
    (harg : ∀ p, (k'.pcb p).argumentArray = (k.pcb p).argumentArray) :
    k'.sysGetargs = k.sysGetargs := by
  have hsame : k'.cur = k.cur := by
    unfold cur
    rw [hcur, hprocess]
  unfold sysGetargs
  rw [hprocess, hflag, hsame]
  simp only [harg]

/-- Saving the registers changes no other field of a PCB. -/
theorem saveFrame_pcb (k : Kernel) (t : Terminal) (fr : Frame) (p : Slot) :
    ∃ esp ebp, (k.saveFrame t fr).pcb p = { k.pcb p with esp := esp, ebp := ebp } := by
  unfold saveFrame
  split
  · rename_i q _
    by_cases hpq : p = q
    · subst hpq
      exact ⟨fr.esp, fr.ebp, Function.update_self ..⟩
    · exact ⟨(k.pcb p).esp, (k.pcb p).ebp, Function.update_of_ne hpq ..⟩
  · exact ⟨(k.pcb p).esp, (k.pcb p).ebp, rfl⟩

theorem Returned.pcb_fields {k k' : Kernel} {fr : Frame} (h : Returned k fr k') (p : Slot) :
    ∃ esp ebp, k'.pcb p = { k.pcb p with esp := esp, ebp := ebp } := by
  rcases h.pcb with heq | heq
  · exact ⟨(k.pcb p).esp, (k.pcb p).ebp, by rw [heq]⟩
  · rw [heq]
    exact k.saveFrame_pcb k.execTerm fr p

/-- A call that got as far as making a process does not return. -/
theorem launch_not_ret {fs : FileSys} {fr : Frame} {k k' : Kernel} {progName arg : List UInt8}
    {header : Mem} {p : Slot} {d : Dentry} {v : Int}
    (hd : HoldsExecutable fs (fr.progMem progName) d) :
    (k.prepared fr arg header).launch fs fr k.execTerm progName arg p ≠ some (.ret v, k') := by
  intro h
  obtain ⟨hfault, henter, hnone⟩ := launch_cases k arg header p hd
  by_cases hfit : PROGRAM_IMAGE + fs.fileLength d.inode ≤ k.mappedEnd
  · by_cases harg : arg.length < KEYBOARD_BUFFER_SIZE
    · obtain ⟨eip, image, k₁, hk₁⟩ := henter hfit harg
      rw [hk₁] at h
      cases h
    · rw [hnone hfit harg] at h
      cases h
  · obtain ⟨k₁, hk₁⟩ := hfault (Nat.lt_of_not_le hfit)
    rw [hk₁] at h
    cases h

/-- A call that returns leaves the terminals alone. -/
theorem sysExecute_ret_term {fs : FileSys} {fr : Frame} {command : Option (List UInt8)}
    {k k' : Kernel} {v : Int} (h : k.sysExecute fs fr command = some (.ret v, k')) :
    k'.console.term = k.console.term := by
  unfold sysExecute at h
  dsimp only at h
  cases hparse : executeParseArgs command with
  | bad =>
      rw [hparse] at h
      cases h
      rfl
  | ok progName arg =>
      rw [hparse] at h
      dsimp only at h
      split at h
      · cases h
      · rw [executeParsed_eq] at h
        dsimp only at h
        split at h
        · rename_i hcheck
          obtain ⟨d, hd⟩ := (executeExecutableCheck_iff ..).mp hcheck
          cases hfree : k.firstFree with
          | none =>
              rw [hfree] at h
              cases h
              rfl
          | some p =>
              rw [hfree] at h
              exact absurd h (launch_not_ret hd)
        · cases h
          rfl

/-- If nothing has changed, the flag already was what the command asks for. -/
theorem Unchanged.argFlag_eq {fs : FileSys} {fr : Frame} {command : Option (List UInt8)}
    {k k' : Kernel} {r : ExecResult} {progName arg : List UInt8} (hsame : Unchanged k k')
    (h : k.sysExecute fs fr command = some (r, k'))
    (hparse : executeParseArgs command = .ok progName arg) :
    k.argFlag k.execTerm = decide (arg ≠ []) := by
  have hflag := sysExecute_argument h
  rw [hparse] at hflag
  have hset := congrFun hflag.1 k.execTerm
  rw [hsame.argFlag, Function.update_self] at hset
  exact hset

/-- **A failing `sys_execute` leaves the kernel as it was** exactly if the command has no
program name, or the flag of its terminal already says whether it has an argument. -/
theorem failed_execute_unchanged_iff {fs : FileSys} {fr : Frame} {command : Option (List UInt8)}
    {k k' : Kernel} (h : k.sysExecute fs fr command = some (.ret (-1), k')) :
    Unchanged k k' ↔ ∀ progName arg, executeParseArgs command = .ok progName arg →
      k.argFlag k.execTerm = decide (arg ≠ []) := by
  constructor
  · intro hsame progName arg hparse
    exact hsame.argFlag_eq h hparse
  · intro hold
    obtain ⟨_, hret⟩ := sysExecute_spec h
    have hflag := sysExecute_argument h
    have hargFlag : k'.argFlag = k.argFlag := by
      cases hparse : executeParseArgs command with
      | bad =>
          rw [hparse] at hflag
          exact hflag.1
      | ok progName arg =>
          rw [hparse] at hflag
          rw [hflag.1, ← hold progName arg hparse, Function.update_eq_self]
    have hargs : ∀ p, (k'.pcb p).argumentArray = (k.pcb p).argumentArray := by
      intro p
      obtain ⟨esp, ebp, hp⟩ := hret.pcb_fields p
      rw [hp]
    refine {
      active := hret.active, cur := hret.cur, arguments := hargs, page := hret.page
      tss := hret.tss, argFlag := hargFlag
      descriptors := fun p => ?_, links := fun p => ?_, processId := fun p => ?_
      shellFlag := fun t => by rw [sysExecute_ret_term h]
      getargs := sysGetargs_congr hret.process hret.cur hargFlag hargs }
    all_goals
      obtain ⟨esp, ebp, hp⟩ := hret.pcb_fields p
      rw [hp]

/-- Does a call return -1? -/
def ExecResult.failed : ExecResult → Bool
  | .ret v => v = -1
  | .enter _ _ | .fault => false

theorem ExecResult.failed_eq {r : ExecResult} (h : r.failed = true) : r = .ret (-1) := by
  cases r with
  | ret v => rw [of_decide_eq_true h]
  | enter eip image => cases h
  | fault => cases h

/-- The shell on the visible terminal has no argument and executes `nofile x`. -/
theorem nofile_fails : ∃ k k', Reachable sampleImage k ∧
    k.sysExecute sampleImage zeroFrame (some (ascii "nofile x")) = some (.ret (-1), k') ∧
    k.argFlag k.execTerm = false := by
  have hview : (StepSystem.run (step sampleImage) (boot zeroMemory)
      [.pit zeroFrame, .switch 1]).bind (fun k =>
        (k.sysExecute sampleImage zeroFrame (some (ascii "nofile x"))).map fun r =>
          decide (r.1.failed = true ∧ k.argFlag k.execTerm = false)) = some true := by
    decide +kernel
  obtain ⟨k, hk, hcall⟩ := Option.bind_eq_some_iff.mp hview
  obtain ⟨⟨r, k'⟩, hr, hfailed, hflag⟩ := StepSystem.exists_of_map_decide hcall
  rw [show r = .ret (-1) from ExecResult.failed_eq hfailed] at hr
  exact ⟨k, k', ⟨zeroMemory, _, hk⟩, hr, hflag⟩

theorem failed_execute_unchanged_iff_nofile : ∃ k k', Reachable sampleImage k ∧
    k.sysExecute sampleImage zeroFrame (some (ascii "nofile x")) = some (.ret (-1), k') ∧
    (Unchanged k k' ↔ ∀ progName arg,
      executeParseArgs (some (ascii "nofile x")) = .ok progName arg →
      k.argFlag k.execTerm = decide (arg ≠ [])) := by
  obtain ⟨k, k', hreach, h, _⟩ := nofile_fails
  exact ⟨k, k', hreach, h, failed_execute_unchanged_iff h⟩

/-- The failing call has set the flag: afterwards the shell seems to have an argument. -/
theorem failed_execute_sets_flag : ¬ ∀ (fs : FileSys) (fr : Frame)
    (command : Option (List UInt8)) (k k' : Kernel), Reachable fs k →
      k.sysExecute fs fr command = some (.ret (-1), k') → Unchanged k k' := by
  intro hall
  obtain ⟨k, k', hreach, h, hflag⟩ := nofile_fails
  have hparse : executeParseArgs (some (ascii "nofile x")) = .ok (ascii "nofile") (ascii "x") := by
    decide
  have hset := (hall sampleImage zeroFrame _ k k' hreach h).argFlag_eq h hparse
  rw [hflag] at hset
  exact absurd hset (by decide)

end Kernel

end Ext2Kernel
