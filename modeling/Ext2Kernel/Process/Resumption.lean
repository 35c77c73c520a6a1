import Ext2Kernel.Process.TreeRuns

set_option autoImplicit false

/-! # Which process the scheduler resumes

Every process has an 8KB kernel stack. A process that does not run has its stack pointer in
its PCB; `scheduling` goes on with the stack pointer of the process it switches to, and so with
the code of the process on whose stack that lies. In a run in which programs are executed from
the visible terminal only, and no tick finds an empty terminal while all process numbers are
taken, this is always the current process of the terminal that is scheduled
(`scheduling_resumes_current`). A tick that cannot start a shell returns to the interrupted
code with no current process at all.
-/

namespace Ext2Kernel

open ByteMem LinkedStacks Kernel

/-! ## Kernel stacks -/

/-- The address `esp` is on the kernel stack of process `p`. -/
def StackOf (p : Slot) (esp : Nat) : Prop :=
  MB_8 ≤ esp + KB_8 * (p.val + 1) ∧ esp + KB_8 * p.val < MB_8

/-- The stacks do not overlap: a stack pointer belongs to one process. -/
theorem StackOf.unique {p q : Slot} {esp : Nat} (hp : StackOf p esp) (hq : StackOf q esp) :
    p = q := by
  unfold StackOf KB_8 MB_8 at *
  exact Fin.ext (by omega)

theorem stackOf_kernelStack (p : Slot) : StackOf p (kernelStack p).esp0 := by
  have hp := p.isLt
  unfold StackOf kernelStack MB_8 KB_8
  dsimp only
  omega

/-- The registers of a call or an interrupt are on the stack the processor takes from the
TSS. -/
def Frame.OnStack (fr : Frame) (tss : Tss) : Prop :=
  fr.esp ≤ tss.esp0 ∧ tss.esp0 + 4 ≤ fr.esp + KB_8

theorem Frame.OnStack.stackOf {fr : Frame} {p : Slot} (h : fr.OnStack (kernelStack p)) :
    StackOf p fr.esp := by
  have hp := p.isLt
  unfold Frame.OnStack kernelStack at h
  unfold StackOf
  unfold MB_8 KB_8 at *
  dsimp only at h
  omega

namespace Kernel

/-! ## How `scheduling` goes on -/

/-- The stack pointer the processor has after `scheduling`: that of the process switched to,
the empty stack of a new shell, or that of the interrupted code when it returns. -/
def resumedEsp (fs : FileSys) (fr : Frame) (k : Kernel) : Option Nat :=
  if k.pitFlag then
    match (k.scheduled fr).cur with
    | some p => some ((k.scheduled fr).pcb p).esp
    | none =>
        match (k.scheduled fr).sysExecute fs fr (some shellCommand) with
        | some (.enter _ _, k') => some k'.tss.esp0
        | some (.ret _, _) => some fr.esp
        | _ => none
  else some fr.esp

/-- After a tick in state `k` there is a current process, and its code goes on. -/
def ResumesCurrent (fs : FileSys) (fr : Frame) (k : Kernel) : Prop :=
  ∃ k' p esp, k.scheduling fs fr = some k' ∧ k'.cur = some p ∧
    k.resumedEsp fs fr = some esp ∧ StackOf p esp

/-! ## The invariant -/

/-- The TSS names the stack of the running process, and the other processes have their own
stack pointers in their PCBs. -/
structure Contexts (k : Kernel) (S : Stacks) : Prop extends Sound k S where
  pit : k.cur = none → k.pitFlag = true
  running : ∀ p, k.cur = some p → k.tss = kernelStack p
  saved : ∀ t, ∀ p ∈ S t, k.cur ≠ some p → StackOf p (k.pcb p).esp

theorem boot_contexts (m : BootMemory) : Contexts (boot m) fun _ => [] where
  toSound := boot_sound m
  pit _ := rfl
  running _ h := by cases h
  saved _ _ h := by cases h

theorem saveFrame_esp (k : Kernel) (t : Terminal) (fr : Frame) (p : Slot) :
    ((k.saveFrame t fr).pcb p).esp = if k.curPcbPtr t = some p then fr.esp else (k.pcb p).esp := by
  unfold saveFrame
  split
  · rename_i q hq
    rw [hq]
    by_cases hp : p = q
    · rw [hp, if_pos rfl, modifyPcb_self]
    · rw [if_neg fun h => hp (Option.some.inj h).symm, modifyPcb_ne _ _ hp]
  · rename_i hnone
    rw [hnone]
    rfl

/-- All processes have their own stack pointers in their PCBs. -/
def AllSaved (k : Kernel) (S : Stacks) : Prop := ∀ t, ∀ p ∈ S t, StackOf p (k.pcb p).esp

/-- A process saves its own stack pointer when it saves its registers. -/
theorem Contexts.saveFrame {k : Kernel} {S : Stacks} (h : Contexts k S) {fr : Frame}
    (hfr : k.cur ≠ none → fr.OnStack k.tss) :
    AllSaved (k.saveFrame k.processTerminal fr) S := by
  intro t p hp
  rw [saveFrame_esp]
  by_cases hcur : k.curPcbPtr k.processTerminal = some p
  · rw [if_pos hcur]
    have hstack := hfr (by rw [show k.cur = some p from hcur]; simp)
    rw [h.running p hcur] at hstack
    exact hstack.stackOf
  · rw [if_neg hcur]
    exact h.saved t p hp hcur

/-- Entering a process on the scheduled terminal. -/
theorem Entered.contexts {k k' : Kernel} {S : Stacks} {fr : Frame} {n : Slot} (hS : Sound k S)
    (h : Entered k fr k' n) (hterm : k.execTerm = k.processTerminal)
    (hsaved : AllSaved (k.saveFrame k.processTerminal fr) S) :
    k'.cur = some n ∧ ∃ S', Contexts k' S' := by
  have hcur : k'.cur = some n := by
    unfold Kernel.cur
    rw [h.cur, h.process, hterm, Function.update_self]
  obtain ⟨m, hstill, m', hpush, rfl⟩ := h.trace
  have hm := Does.sound (a := .still) hstill hS
  have hm' := Does.sound (a := .push k.execTerm n) hpush hm
  refine ⟨hcur, _, { hm' with pit := ?_, running := ?_, saved := ?_ }⟩
  · intro hnone
    rw [hcur] at hnone
    cases hnone
  · intro p hp
    obtain rfl : n = p := Option.some.inj (hcur.symm.trans hp)
    exact h.tss
  · intro t p hp hne
    obtain ⟨arg, eip, hpcb⟩ := h.pcb
    have hpn : p ≠ n := by
      rintro rfl
      exact hne hcur
    rcases mem_push.mp hp with ⟨_, rfl⟩ | hmem
    · exact absurd rfl hpn
    · rw [hpcb, Function.update_of_ne hpn, hterm]
      exact hsaved t p hmem

/-! ## Ticks -/

/-- The state in which `scheduling` has moved on keeps the processes. -/
theorem Contexts.scheduled {k : Kernel} {S : Stacks} (h : Contexts k S) (fr : Frame)
    (hfr : k.cur ≠ none → fr.OnStack k.tss) :
    Sound (k.scheduled fr) S ∧ AllSaved (k.scheduled fr) S := by
  have hstill := still_scheduled k fr
  exact ⟨Does.sound (a := .still) hstill h.toSound, h.saveFrame hfr⟩

theorem scheduled_console (k : Kernel) (fr : Frame) :
    (k.scheduled fr).console = { k.console with processTerminal := k.processTerminal + 1 } := by
  unfold Kernel.scheduled nextTerminal
  rw [saveFrame_eq]

theorem scheduling_of_cur (fs : FileSys) {k : Kernel} {fr : Frame} {p : Slot}
    (hpit : k.pitFlag = true) (hcur : (k.scheduled fr).cur = some p) :
    k.scheduling fs fr = some ((k.scheduled fr).switchTo p) ∧
      k.resumedEsp fs fr = some ((k.scheduled fr).pcb p).esp := by
  constructor
  · unfold Kernel.scheduled at *
    unfold scheduling
    rw [if_pos hpit]
    dsimp only
    rw [hcur]
  · unfold resumedEsp
    rw [if_pos hpit, hcur]

theorem scheduling_of_enter {fs : FileSys} {k k' : Kernel} {fr : Frame} {eip : Nat}
    {image : List UInt8} (hpit : k.pitFlag = true) (hcur : (k.scheduled fr).cur = none)
    (hexec : (k.scheduled fr).sysExecute fs fr (some shellCommand)
      = some (.enter eip image, k')) :
    k.scheduling fs fr = some k' ∧ k.resumedEsp fs fr = some k'.tss.esp0 := by
  constructor
  · unfold Kernel.scheduled at *
    unfold scheduling
    rw [if_pos hpit]
    dsimp only
    rw [hcur]
    dsimp only
    rw [hexec]
  · unfold resumedEsp
    rw [if_pos hpit, hcur]
    dsimp only
    rw [hexec]

/-- A tick that switches to the current process of the next terminal. -/
theorem Contexts.tick_switch {fs : FileSys} {k : Kernel} {S : Stacks} {fr : Frame} {p : Slot}
    (h : Contexts k S) (hfr : fr.OnStack k.tss) (hpit : k.pitFlag = true)
    (hcur : (k.scheduled fr).cur = some p) :
    ResumesCurrent fs fr k ∧
      ∀ k', k.scheduling fs fr = some k' → k'.cur ≠ none ∧ ∃ S', Contexts k' S' := by
  obtain ⟨hsound, hsaved⟩ := h.scheduled fr fun _ => hfr
  obtain ⟨hsched, hesp⟩ := scheduling_of_cur fs hpit hcur
  have hsw := switchTo_switched (k.scheduled fr) p
  have hmem := hsound.chains.top_mem hcur
  have hp : ((k.scheduled fr).switchTo p).cur = some p := by
    unfold Kernel.cur processTerminal
    rw [hsw.cur, hsw.console]
    exact hcur
  refine ⟨⟨_, p, _, hsched, hp, hesp, hsaved _ p hmem⟩, ?_⟩
  intro k' hk'
  obtain rfl : (k.scheduled fr).switchTo p = k' := Option.some.inj (hsched.symm.trans hk')
  have hstill : Still (k.scheduled fr) ((k.scheduled fr).switchTo p) :=
    .of_eq hsw.cur hsw.active hsw.pcb
  refine ⟨by rw [hp]; simp, S,
    { Does.sound (a := .still) hstill hsound with pit := ?_, running := ?_, saved := ?_ }⟩
  · intro hnone
    rw [hp] at hnone
    cases hnone
  · intro q hq
    obtain rfl : p = q := Option.some.inj (hp.symm.trans hq)
    rw [hsw.tss, hsound.top_id hcur]
  · intro t q hq _
    rw [hsw.pcb]
    exact hsaved t q hq

/-- A tick that starts a shell on an empty terminal. -/
theorem Contexts.tick_shell {fs : FileSys} (hshell : HoldsShell fs) {k : Kernel} {S : Stacks}
    {fr : Frame} (h : Contexts k S) (hfr : fr.OnStack k.tss) (hpit : k.pitFlag = true)
    (hcur : (k.scheduled fr).cur = none) (hfree : k.firstFree ≠ none) :
    ResumesCurrent fs fr k ∧
      ∀ k', k.scheduling fs fr = some k' → k'.cur ≠ none ∧ ∃ S', Contexts k' S' := by
  obtain ⟨hsound, hsaved⟩ := h.scheduled fr fun _ => hfr
  have hactive : (k.scheduled fr).activeProcesses = k.activeProcesses :=
    (still_saveFrame k k.processTerminal fr).active
  obtain ⟨n, hn⟩ := Option.ne_none_iff_exists'.mp hfree
  have hn' : (k.scheduled fr).firstFree = some n := by
    unfold firstFree
    rw [hactive]
    exact hn
  obtain ⟨eip, image, k', hexec⟩ := hshell.enters fr hn'
  obtain ⟨hsched, hesp⟩ := scheduling_of_enter hpit hcur hexec
  obtain ⟨p, hp⟩ : ∃ p, Entered (k.scheduled fr) fr k' p := sysExecute_spec hexec
  have hterm : (k.scheduled fr).execTerm = (k.scheduled fr).processTerminal := if_pos hcur
  -- The terminal is empty, so that nothing is saved a second time.
  have hagain : AllSaved ((k.scheduled fr).saveFrame (k.scheduled fr).processTerminal fr) S := by
    intro t q hq
    have hempty : (k.scheduled fr).curPcbPtr (k.scheduled fr).processTerminal = none := hcur
    rw [saveFrame_esp, hempty, if_neg (by simp)]
    exact hsaved t q hq
  obtain ⟨hk', hctx⟩ := hp.contexts hsound hterm hagain
  refine ⟨⟨k', p, _, hsched, hk', hesp, ?_⟩, ?_⟩
  · rw [hp.tss]
    exact stackOf_kernelStack p
  · intro k'' hk''
    obtain rfl : k' = k'' := Option.some.inj (hsched.symm.trans hk'')
    exact ⟨by rw [hk']; simp, hctx⟩

/-- A tick that finds a process, or a process number for a shell, resumes the current
process. -/
theorem Contexts.tick {fs : FileSys} (hshell : HoldsShell fs) {k : Kernel} {S : Stacks}
    {fr : Frame} (h : Contexts k S) (hfr : fr.OnStack k.tss)
    (hfree : k.curPcbPtr (k.processTerminal + 1) = none → k.firstFree ≠ none) :
    ResumesCurrent fs fr k ∧
      ∀ k', k.scheduling fs fr = some k' → k'.cur ≠ none ∧ ∃ S', Contexts k' S' := by
  by_cases hpit : k.pitFlag = true
  · cases hcur : (k.scheduled fr).cur with
    | some p => exact h.tick_switch hfr hpit hcur
    | none =>
        refine h.tick_shell hshell hfr hpit hcur (hfree ?_)
        have hcurPtr : (k.scheduled fr).curPcbPtr = k.curPcbPtr := (still_scheduled k fr).cur
        unfold Kernel.cur processTerminal at hcur
        rw [scheduled_console, hcurPtr] at hcur
        exact hcur
  · -- Before `entry` is done the tick returns to the interrupted process.
    have hsched : k.scheduling fs fr = some k := if_neg hpit
    obtain ⟨p, hp⟩ := Option.ne_none_iff_exists'.mp fun hnone => hpit (h.pit hnone)
    have hstack : fr.OnStack (kernelStack p) := by
      rw [← h.running p hp]
      exact hfr
    refine ⟨⟨k, p, fr.esp, hsched, hp, if_neg hpit, hstack.stackOf⟩, ?_⟩
    intro k' hk'
    obtain rfl : k = k' := Option.some.inj (hsched.symm.trans hk')
    exact ⟨by rw [hp]; simp, S, h⟩

/-! ## Executes and halts -/

/-- When the running process is taken off, every other process has its stack pointer in its
PCB. -/
theorem Contexts.popped {k : Kernel} {S : Stacks} (h : Contexts k S) {p : Slot}
    (hp : k.cur = some p) :
    Sound (k.popped p) (pop k.processTerminal S) ∧
      AllSaved (k.popped p) (pop k.processTerminal S) := by
  have hpop := pop_popped hp
  refine ⟨Does.sound (a := .pop k.processTerminal p) hpop h.toSound, fun t q hq => ?_⟩
  have hne : q ≠ p := ((mem_pop_iff h.chains h.separate hpop.top).mp ⟨t, hq⟩).1
  rw [popped_pcb_ne _ hne]
  refine h.saved t q (mem_of_mem_pop hq) fun hcur => hne ?_
  exact Option.some.inj (hcur.symm.trans hp)

theorem Contexts.halt {fs : FileSys} {k k' : Kernel} {S : Stacks} {fr : Frame} {status : UInt8}
    {r : HaltResult} (h : Contexts k S) (hh : k.sysHalt fs fr status = some (r, k')) :
    k'.cur ≠ none ∧ ∃ S', Contexts k' S' := by
  obtain ⟨p, hp, ⟨q, hq, hres⟩ | ⟨hnone, n, hent⟩⟩ := sysHalt_spec hh
  · obtain ⟨hsound, hsaved⟩ := h.popped hp
    have hparent : (k.popped p).cur = some q := (popped_cur k p).trans hq
    have hcur : k'.cur = some q := by
      unfold Kernel.cur
      rw [hres.process, hres.cur]
      exact hparent
    have hstill : Still (k.popped p) k' := .of_eq hres.cur hres.active hres.pcb
    refine ⟨by rw [hcur]; simp, _,
      { Does.sound (a := .still) hstill hsound with pit := ?_, running := ?_, saved := ?_ }⟩
    · intro hnone
      rw [hcur] at hnone
      cases hnone
    · intro q' hq'
      obtain rfl : q = q' := Option.some.inj (hcur.symm.trans hq')
      rw [hres.tss, hsound.top_id hparent]
    · intro t q' hq' _
      rw [hres.pcb]
      exact hsaved t q' hq'
  · obtain ⟨hsound, hsaved⟩ := h.popped hp
    have hempty : (k.popped p).cur = none := (popped_cur k p).trans hnone
    have hagain : AllSaved ((k.popped p).saveFrame (k.popped p).processTerminal fr)
        (pop k.processTerminal S) := by
      intro t q hq
      have hptr : (k.popped p).curPcbPtr (k.popped p).processTerminal = none := hempty
      rw [saveFrame_esp, hptr, if_neg (by simp)]
      exact hsaved t q hq
    obtain ⟨hcur, hctx⟩ := hent.contexts hsound (if_pos hempty) hagain
    exact ⟨by rw [hcur]; simp, hctx⟩

theorem Contexts.raised {k : Kernel} {S : Stacks} (h : Contexts k S) (index : Fin 20) :
    Contexts (k.raised index) S := by
  have hcur := k.raised_cur index
  refine { Does.sound (a := .still) (still_raised k index) h.toSound with
    pit := ?_, running := ?_, saved := ?_ }
  · rw [hcur, raised_pitFlag]
    exact h.pit
  · rw [hcur, raised_tss]
    exact h.running
  · rw [hcur, raised_pcb]
    exact h.saved

theorem Contexts.exception {fs : FileSys} {k k' : Kernel} {S : Stacks} {fr : Frame}
    {index : Fin 20} {r : HaltResult} (h : Contexts k S)
    (hh : k.exceptionHandler fs fr index = some (r, k')) :
    k'.cur ≠ none ∧ ∃ S', Contexts k' S' := by
  rw [exceptionHandler_eq] at hh
  exact (h.raised index).halt hh

/-- A command that does not parse changes nothing that matters here. -/
theorem sysExecute_bad (fs : FileSys) (fr : Frame) {command : Option (List UInt8)}
    (h : executeParseArgs command = .bad) (k : Kernel) :
    k.sysExecute fs fr command = some (.ret (-1), { k with processNum := 0 }) := by
  unfold sysExecute
  rw [h]

theorem Returned.contexts {k k' : Kernel} {S : Stacks} {fr : Frame} (hS : Contexts k S)
    (h : Returned k fr k') (hterm : k.execTerm = k.processTerminal) : Contexts k' S := by
  have hcur : k'.cur = k.cur := by
    unfold Kernel.cur
    rw [h.cur, h.process]
  refine { Does.sound (a := .still) h.still hS.toSound with
    pit := ?_, running := ?_, saved := ?_ }
  · rw [hcur, h.pitFlag]
    exact hS.pit
  · rw [hcur, h.tss]
    exact hS.running
  · rw [hcur]
    intro t p hp hne
    rcases h.pcb with heq | heq
    · rw [heq]
      exact hS.saved t p hp hne
    · rw [heq, saveFrame_esp, hterm,
        if_neg (show ¬ k.curPcbPtr k.processTerminal = some p from hne)]
      exact hS.saved t p hp hne

theorem Faulted.contexts {k k' : Kernel} {S : Stacks} {fr : Frame} {n : Slot}
    (hS : Contexts k S) (h : Faulted k fr k' n) (hterm : k.execTerm = k.processTerminal) :
    Contexts k' S := by
  have hcur : k'.cur = k.cur := by
    unfold Kernel.cur
    rw [h.cur, h.process]
  obtain ⟨m, hstill, m', hclaim, rfl⟩ := h.trace
  have hm := Does.sound (a := .still) hstill hS.toSound
  refine { Does.sound (a := .claim n) hclaim hm with pit := ?_, running := ?_, saved := ?_ }
  · rw [hcur, h.pitFlag]
    exact hS.pit
  · rw [hcur, h.tss]
    exact hS.running
  · rw [hcur]
    intro t p hp hne
    rw [h.pcb, saveFrame_esp, hterm,
      if_neg (show ¬ k.curPcbPtr k.processTerminal = some p from hne)]
    exact hS.saved t p hp hne

/-- A call of `sys_execute` from the visible terminal. -/
theorem Contexts.execute {fs : FileSys} {k k' : Kernel} {S : Stacks} {fr : Frame}
    {command : Option (List UInt8)} {r : ExecResult} (h : Contexts k S) (hrun : k.cur ≠ none)
    (hfr : fr.OnStack k.tss) (hv : k.visibleTerminal = k.processTerminal)
    (hh : k.executeCall fs fr command = some (r, k')) :
    k'.cur ≠ none ∧ ∃ S', Contexts k' S' := by
  have hterm : k.execTerm = k.processTerminal := by
    unfold execTerm
    rw [hv, ite_self]
  rcases executeCall_spec hh with ⟨hexec, hne⟩ | ⟨_, k₁, x, hexec, hexc⟩
  · have hspec := sysExecute_spec hexec
    cases r with
    | ret v =>
        have hcur : k'.cur = k.cur := by
          unfold Kernel.cur
          rw [hspec.2.cur, hspec.2.process]
        exact ⟨by rw [hcur]; exact hrun, S, hspec.2.contexts h hterm⟩
    | enter eip image =>
        obtain ⟨n, hn⟩ := hspec
        obtain ⟨hcur, hctx⟩ := hn.contexts h.toSound hterm (h.saveFrame fun _ => hfr)
        exact ⟨by rw [hcur]; simp, hctx⟩
    | fault => exact absurd rfl hne
  · obtain ⟨n, hn⟩ := sysExecute_spec hexec
    exact (hn.contexts h hterm).exception hexc

/-! ## Runs -/

/-- The events of the runs considered here: executes, halts and exceptions of a running
process, ticks and terminal switches, with the registers on the kernel stack in use. -/
def SchedulerEvent (k : Kernel) : Event → Prop
  | .execute fr _ => k.cur ≠ none ∧ fr.OnStack k.tss
  | .halt _ _ => k.cur ≠ none
  | .exception _ _ => k.cur ≠ none
  | .pit fr => fr.OnStack k.tss
  | .switch _ => True
  | _ => False

/-- Programs are executed from the visible terminal, and a tick that finds an empty terminal
finds a process number for its shell. -/
def SchedulerSafe (k : Kernel) : Event → Prop
  | .execute _ command =>
      executeParseArgs command = .bad ∨ k.visibleTerminal = k.processTerminal
  | .pit _ => k.curPcbPtr (k.processTerminal + 1) = none → k.firstFree ≠ none
  | _ => True

instance (k : Kernel) (e : Event) : Decidable (SchedulerEvent k e) :=
  match e with
  | .execute fr _ => inferInstanceAs
      (Decidable (k.cur ≠ none ∧ (fr.esp ≤ k.tss.esp0 ∧ k.tss.esp0 + 4 ≤ fr.esp + KB_8)))
  | .halt _ _ | .exception _ _ => inferInstanceAs (Decidable (k.cur ≠ none))
  | .pit fr => inferInstanceAs
      (Decidable (fr.esp ≤ k.tss.esp0 ∧ k.tss.esp0 + 4 ≤ fr.esp + KB_8))
  | .switch _ => isTrue trivial
  | .rtc | .keyboard _ | .open _ | .close _ | .read _ _ _ _ | .resumeTerminal _ | .resumeRtc
  | .write _ _ _ | .getargs | .vidmap _ | .draw _ _ => isFalse id

/-- One event keeps the invariant. -/
theorem step_contexts {fs : FileSys} (hshell : HoldsShell fs) {k k' : Kernel} {e : Event}
    (hk : ∃ S, Contexts k S) (he : SchedulerEvent k e) (hsafe : SchedulerSafe k e)
    (h : step fs k e = some k') : ∃ S, Contexts k' S := by
  obtain ⟨S, hS⟩ := hk
  cases e with
  | execute fr command =>
      obtain ⟨⟨r, k₁⟩, hr, rfl⟩ := Option.map_eq_some_iff.mp h
      rcases hsafe with hbad | hv
      · have hret := sysExecute_bad fs fr hbad k
        have hcall : k.executeCall fs fr command
            = some (.ret (-1), { k with processNum := 0 }) := by
          unfold executeCall
          rw [hret]
        rw [hcall] at hr
        cases hr
        have hstill : Still k { k with processNum := 0 } := .of_eq rfl rfl rfl
        exact ⟨S, { Does.sound (a := .still) hstill hS.toSound with
          pit := hS.pit, running := hS.running, saved := hS.saved }⟩
      · exact (hS.execute he.1 he.2 hv hr).2
  | halt fr status =>
      obtain ⟨⟨r, k₁⟩, hr, rfl⟩ := Option.map_eq_some_iff.mp h
      exact (hS.halt hr).2
  | exception fr index =>
      obtain ⟨⟨r, k₁⟩, hr, rfl⟩ := Option.map_eq_some_iff.mp h
      exact (hS.exception hr).2
  | pit fr => exact ((hS.tick hshell he hsafe).2 k' h).2
  | switch n =>
      cases h
      have hprocess : (k.console.switchTerminal n).processTerminal = k.processTerminal := by
        unfold Console.switchTerminal
        split <;> rfl
      have hcur : ({ k with console := k.console.switchTerminal n } : Kernel).cur = k.cur := by
        unfold Kernel.cur
        rw [show ({ k with console := k.console.switchTerminal n } : Kernel).processTerminal
          = k.processTerminal from hprocess]
      refine ⟨S, { Does.sound (a := .still) (still_console k _) hS.toSound with
        pit := ?_, running := ?_, saved := ?_ }⟩
      · rw [hcur]; exact hS.pit
      · rw [hcur]; exact hS.running
      · rw [hcur]; exact hS.saved
  | _ => exact he.elim

/-- **The scheduler resumes the current process.** In every run from boot in which programs
are executed from the visible terminal only and every tick that finds an empty terminal finds
a process number for its shell, after every tick the scheduled terminal has a current process,
and the code that goes on is that of this process. -/
theorem scheduling_resumes_current {fs : FileSys} (hshell : HoldsShell fs) {m : BootMemory}
    {es : List Event} {k : Kernel} {fr : Frame}
    (hev : StepSystem.Guarded (step fs) SchedulerEvent (boot m) es)
    (hsafe : StepSystem.Guarded (step fs) SchedulerSafe (boot m) es)
    (hrun : StepSystem.run (step fs) (boot m) es = some k)
    (hfr : SchedulerEvent k (.pit fr)) (hlast : SchedulerSafe k (.pit fr)) :
    ResumesCurrent fs fr k := by
  have hboth : StepSystem.Guarded (step fs) (fun k e => SchedulerEvent k e ∧ SchedulerSafe k e)
      (boot m) es := hev.and hsafe
  obtain ⟨S, hS⟩ := StepSystem.run_invariant_of_guarded (P := fun k => ∃ S, Contexts k S)
    (fun _ _ _ hk he hs => step_contexts hshell hk he.1 he.2 hs) hboth hrun ⟨_, boot_contexts m⟩
  exact (hS.tick hshell hfr hlast).1

/-- A frame on the kernel stack of process number `p`. -/
def sampleFrame (p : Nat) : Frame := ⟨MB_8 - KB_8 * p - 100, MB_8 - KB_8 * p - 100, 0⟩

/-- On the small image: two ticks start two shells. -/
theorem scheduling_resumes_current_sample : ∃ k,
    StepSystem.run (step sampleImage) (boot zeroMemory) [.pit (sampleFrame 0)] = some k ∧
      ResumesCurrent sampleImage (sampleFrame 0) k := by
  obtain ⟨k, hk⟩ := Option.isSome_iff_exists.mp (show (StepSystem.run (step sampleImage)
    (boot zeroMemory) [.pit (sampleFrame 0)]).isSome = true by decide +kernel)
  have hstate : (StepSystem.run (step sampleImage) (boot zeroMemory) [.pit (sampleFrame 0)]).map
      (fun k => (k.tss.esp0, k.firstFree)) = some (MB_8 - 4, some 1) := by decide +kernel
  rw [hk] at hstate
  obtain ⟨htss, hfree⟩ := Prod.mk.inj (Option.some.inj hstate)
  have hev : StepSystem.Guarded (step sampleImage) SchedulerEvent (boot zeroMemory)
      [.pit (sampleFrame 0)] := by decide +kernel
  refine ⟨k, hk, scheduling_resumes_current sampleImage_holdsShell hev
    ⟨fun _ => by decide, fun _ _ => trivial⟩ hk ?_ ?_⟩
  · show _ ≤ k.tss.esp0 ∧ k.tss.esp0 + 4 ≤ _
    rw [htss]
    decide
  · intro _
    rw [hfree]
    simp

/-- On the small image: the shell of terminal 1 executes five more shells before terminal 2 has
been scheduled. The next tick finds terminal 2 empty and all process numbers taken, and returns
with no current process. -/
theorem tick_without_process : ¬ ∀ (fs : FileSys) (m : BootMemory) (es : List Event) (k : Kernel)
    (fr : Frame), StepSystem.Guarded (step fs) SchedulerEvent (boot m) es →
      StepSystem.run (step fs) (boot m) es = some k → SchedulerEvent k (.pit fr) →
      ResumesCurrent fs fr k := by
  intro hall
  let es : List Event := [.pit (sampleFrame 0), .switch 1,
    .execute (sampleFrame 0) (some shellCommand), .execute (sampleFrame 1) (some shellCommand),
    .execute (sampleFrame 2) (some shellCommand), .execute (sampleFrame 3) (some shellCommand),
    .execute (sampleFrame 4) (some shellCommand)]
  obtain ⟨k, hk⟩ := Option.isSome_iff_exists.mp (show (StepSystem.run (step sampleImage)
    (boot zeroMemory) es).isSome = true by decide +kernel)
  have htss : (StepSystem.run (step sampleImage) (boot zeroMemory) es).map
      (fun k => k.tss.esp0) = some (MB_8 - KB_8 * 5 - 4) := by decide +kernel
  have hafter : ((StepSystem.run (step sampleImage) (boot zeroMemory) es).bind
      fun k => k.scheduling sampleImage (sampleFrame 5)).map (fun k => k.cur) = some none := by
    decide +kernel
  rw [hk] at htss hafter
  obtain ⟨k', p, esp, hsched, hcur, _⟩ := hall sampleImage zeroMemory es k (sampleFrame 5)
    (by decide +kernel) hk (by
      show _ ≤ k.tss.esp0 ∧ k.tss.esp0 + 4 ≤ _
      rw [show k.tss.esp0 = MB_8 - KB_8 * 5 - 4 from Option.some.inj htss]
      decide)
  rw [Option.bind_some, hsched] at hafter
  rw [show k'.cur = none from Option.some.inj hafter] at hcur
  cases hcur

end Kernel

end Ext2Kernel
