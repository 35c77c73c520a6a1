import Ext2Kernel.Process.TreeRuns

set_option autoImplicit false

/-! # Address spaces

The page directory entry of the user page and the kernel stack in the TSS are set at three
places from different variables: when a process is entered, when a process halts, and when a
terminal is scheduled. Once every terminal has a process, the two agree with the process that
runs next, after every event.
-/

namespace Ext2Kernel

open Kernel

namespace Kernel

/-- The user page and the kernel stack are those of process number `p`. -/
structure Mapped (k : Kernel) (p : Slot) : Prop where
  page : (k.pageDirectory SYS_VIRTUAL_MEM).base = .phys (MB_8 + MB_4 * p.val)
  stack : k.tss.esp0 = MB_8 - KB_8 * p.val - 4

theorem Mapped.of_eq {k : Kernel} {p : Slot}
    (hpage : k.pageDirectory SYS_VIRTUAL_MEM = userPage p) (htss : k.tss = kernelStack p) :
    Mapped k p := ⟨by rw [hpage]; rfl, by rw [htss]; rfl⟩

/-- Neither the user page nor the kernel stack is that of another number. -/
theorem Mapped.alone {k : Kernel} {p q : Slot} (h : Mapped k p) (hne : q ≠ p) :
    (k.pageDirectory SYS_VIRTUAL_MEM).base ≠ .phys (MB_8 + MB_4 * q.val)
      ∧ k.tss.esp0 ≠ MB_8 - KB_8 * q.val - 4 := by
  have hval : q.val ≠ p.val := fun heq => hne (Fin.ext heq)
  have hp := p.isLt
  have hq := q.isLt
  rw [h.page, h.stack]
  unfold MB_8 MB_4 KB_8
  refine ⟨fun heq => ?_, by omega⟩
  have := PageBase.phys.inj heq
  omega

/-- Every terminal has a current process. -/
def AllCurrent (k : Kernel) : Prop := ∀ t, k.curPcbPtr t ≠ none

/-- The mapping is that of the process that runs next. -/
def Agrees (k : Kernel) : Prop := ∀ p, k.cur = some p → Mapped k (k.pcb p).processId

/-- Every terminal has a process, and the mapping is that of the running one. -/
structure Serving (k : Kernel) : Prop where
  all : AllCurrent k
  agrees : Agrees k

/-! ## The three places -/

theorem saveFrame_processId (k : Kernel) (t : Terminal) (fr : Frame) (p : Slot) :
    ((k.saveFrame t fr).pcb p).processId = (k.pcb p).processId := by
  unfold saveFrame
  split
  · rename_i q _
    by_cases hp : p = q
    · subst hp
      rw [modifyPcb_self]
    · rw [modifyPcb_ne _ _ hp]
  · rfl

theorem Returned.serving {k k' : Kernel} {fr : Frame} (h : Returned k fr k') (hk : Serving k) :
    Serving k' where
  all t := by rw [h.cur]; exact hk.all t
  agrees p hp := by
    have hcur : k.cur = some p := by
      unfold Kernel.cur at hp ⊢
      rw [← h.cur, ← h.process]
      exact hp
    have hid : (k'.pcb p).processId = (k.pcb p).processId := by
      rcases h.pcb with hpcb | hpcb
      · rw [hpcb]
      · rw [hpcb, saveFrame_processId]
    have hm := hk.agrees p hcur
    rw [hid]
    exact ⟨by rw [h.page]; exact hm.page, by rw [h.tss]; exact hm.stack⟩

/-- Entering a process on the scheduled terminal sets both fields for it. -/
theorem Entered.serving {k k' : Kernel} {fr : Frame} {n : Slot} (h : Entered k fr k' n)
    (hterm : k.execTerm = k.processTerminal)
    (hall : ∀ t, t ≠ k.processTerminal → k.curPcbPtr t ≠ none) : Serving k' where
  all t := by
    rw [h.cur, hterm]
    by_cases ht : t = k.processTerminal
    · rw [ht, Function.update_self]
      simp
    · rw [Function.update_of_ne ht]
      exact hall t ht
  agrees p hp := by
    obtain rfl : n = p := by
      unfold Kernel.cur at hp
      rw [h.cur, h.process, hterm, Function.update_self] at hp
      exact Option.some.inj hp
    obtain ⟨arg, eip, hpcb⟩ := h.pcb
    have hid : (k'.pcb n).processId = n := by
      rw [hpcb, Function.update_self]
      rfl
    rw [hid]
    exact .of_eq h.page h.tss

theorem sysHalt_serving {fs : FileSys} {fr : Frame} {status : UInt8} {k k' : Kernel}
    {r : HaltResult} (hall : AllCurrent k) (h : k.sysHalt fs fr status = some (r, k')) :
    Serving k' := by
  obtain ⟨p, hp, hcase⟩ := sysHalt_spec h
  have hothers : ∀ t, t ≠ k.processTerminal → (k.popped p).curPcbPtr t ≠ none := by
    intro t ht
    rw [(pop_popped hp).cur, Function.update_of_ne ht]
    exact hall t
  rcases hcase with ⟨q, hq, hres⟩ | ⟨hnone, n, hent⟩
  · have hcur : k'.cur = some q := by
      unfold cur
      rw [hres.process, hres.cur]
      exact (popped_cur k p).trans hq
    refine ⟨fun t => ?_, fun q' hq' => ?_⟩
    · rw [hres.cur]
      by_cases ht : t = k.processTerminal
      · rw [ht, (pop_popped hp).cur, Function.update_self, hq]
        simp
      · exact hothers t ht
    · obtain rfl : q = q' := Option.some.inj (hcur.symm.trans hq')
      rw [hres.pcb]
      exact .of_eq hres.page hres.tss
  · exact hent.serving (if_pos ((popped_cur k p).trans hnone)) hothers

theorem exceptionHandler_serving {fs : FileSys} {fr : Frame} {index : Fin 20} {k k' : Kernel}
    {r : HaltResult} (hall : AllCurrent k) (h : k.exceptionHandler fs fr index = some (r, k')) :
    Serving k' := by
  rw [exceptionHandler_eq] at h
  refine sysHalt_serving (fun t => ?_) h
  rw [(still_raised k index).cur]
  exact hall t

theorem executeCall_serving {fs : FileSys} {fr : Frame} {command : Option (List UInt8)}
    {k k' : Kernel} {r : ExecResult} (hk : Serving k)
    (hv : k.visibleTerminal = k.processTerminal)
    (h : k.executeCall fs fr command = some (r, k')) : Serving k' := by
  have hterm : k.execTerm = k.processTerminal := by
    unfold execTerm
    rw [hv, ite_self]
  rcases executeCall_spec h with ⟨hexec, hne⟩ | ⟨_, k₁, x, hexec, hexc⟩
  · have hspec := sysExecute_spec hexec
    cases r with
    | ret v => exact hspec.2.serving hk
    | enter eip image =>
        obtain ⟨n, hn⟩ := hspec
        exact hn.serving hterm fun t _ => hk.all t
    | fault => exact absurd rfl hne
  · obtain ⟨n, hn⟩ := sysExecute_spec hexec
    refine exceptionHandler_serving (fun t => ?_) hexc
    rw [hn.cur]
    exact hk.all t

theorem scheduling_serving {fs : FileSys} {fr : Frame} {k k' : Kernel} (hk : Serving k)
    (h : k.scheduling fs fr = some k') : Serving k' := by
  have hcurPtr : (k.scheduled fr).curPcbPtr = k.curPcbPtr := (still_scheduled k fr).cur
  rcases scheduling_spec h with ⟨_, rfl⟩ | ⟨p, hp, hsw⟩ | ⟨hnone, _⟩
  · exact hk
  · have hcur : k'.cur = some p := by
      unfold cur processTerminal
      rw [hsw.cur, hsw.console]
      exact hp
    refine ⟨fun t => ?_, fun q hq => ?_⟩
    · rw [hsw.cur, hcurPtr]
      exact hk.all t
    · obtain rfl : p = q := Option.some.inj (hcur.symm.trans hq)
      rw [hsw.pcb]
      exact .of_eq hsw.page hsw.tss
  · unfold cur at hnone
    rw [hcurPtr] at hnone
    exact absurd hnone (hk.all _)

/-! ## Runs -/

/-- The events of the runs considered here: executes by the process of the visible terminal,
halts, exceptions, ticks and switches. -/
def ServingEvent (k : Kernel) : Event → Prop
  | .execute _ _ => k.visibleTerminal = k.processTerminal
  | .halt _ _ => True
  | .exception _ _ => True
  | .pit _ => True
  | .switch _ => True
  | _ => False

theorem step_serving {fs : FileSys} {k k' : Kernel} {e : Event} (hk : Serving k)
    (he : ServingEvent k e) (h : step fs k e = some k') : Serving k' := by
  cases e with
  | execute fr command =>
      obtain ⟨⟨r, k₁⟩, hr, rfl⟩ := Option.map_eq_some_iff.mp h
      exact executeCall_serving hk he hr
  | halt fr status =>
      obtain ⟨⟨r, k₁⟩, hr, rfl⟩ := Option.map_eq_some_iff.mp h
      exact sysHalt_serving hk.all hr
  | exception fr index =>
      obtain ⟨⟨r, k₁⟩, hr, rfl⟩ := Option.map_eq_some_iff.mp h
      exact exceptionHandler_serving hk.all hr
  | pit fr => exact scheduling_serving hk h
  | switch n =>
      cases h
      have hprocess : (k.console.switchTerminal n).processTerminal = k.processTerminal := by
        unfold Console.switchTerminal
        split <;> rfl
      refine ⟨hk.all, fun p hp => ?_⟩
      have hcur : k.cur = some p := by
        unfold cur
        rw [← hprocess]
        exact hp
      have hm := hk.agrees p hcur
      exact ⟨hm.page, hm.stack⟩
  | _ => exact he.elim

/-- The argument of an execute leaves room for its terminator. -/
def ShortEvent : Event → Prop
  | .execute _ command => ∀ progName arg, executeParseArgs command = .ok progName arg →
      arg.length < KEYBOARD_BUFFER_SIZE
  | _ => True

/-- A call with a short argument is defined: it returns, enters the program or faults. -/
theorem sysExecute_defined (fs : FileSys) (fr : Frame) {command : Option (List UInt8)}
    (k : Kernel) (hshort : ∀ progName arg, executeParseArgs command = .ok progName arg →
      arg.length < KEYBOARD_BUFFER_SIZE) :
    ∃ r k', k.sysExecute fs fr command = some (r, k') := by
  by_cases hsafe : ExecuteSafe fs fr k command
  · obtain ⟨r, k', hr, _⟩ := (sysExecute_safe_iff ..).mpr hsafe
    exact ⟨r, k', hr⟩
  · -- With a short argument the call can only be unsafe because the file does not fit.
    unfold ExecuteSafe at hsafe
    push Not at hsafe
    obtain ⟨progName, arg, hparse, hunsafe⟩ := hsafe
    have hlen := hshort progName arg hparse
    obtain ⟨d, hd, hfree, hbig⟩ := hunsafe (Nat.le_of_lt hlen)
    obtain ⟨p, hp⟩ := Option.ne_none_iff_exists'.mp hfree
    obtain ⟨k', hk'⟩ := sysExecute_faults hparse (Nat.le_of_lt hlen) hd (hbig hlen) hp
    exact ⟨_, k', hk'⟩

theorem executeCall_defined {fs : FileSys} (hshell : HoldsShell fs) {fr : Frame}
    {command : Option (List UInt8)} {k : Kernel} {S : Stacks} (hS : Sound k S)
    (hall : AllCurrent k) (hshort : ShortEvent (.execute fr command)) :
    ∃ x, k.executeCall fs fr command = some x := by
  obtain ⟨r, k₁, hr⟩ := sysExecute_defined fs fr k hshort
  by_cases hne : r = .fault
  · subst hne
    obtain ⟨n, hn⟩ := sysExecute_spec hr
    obtain ⟨S₁, hS₁⟩ := hn.trace.sound ⟨S, hS⟩
    have hcur : k₁.cur ≠ none := by
      unfold cur
      rw [hn.cur]
      exact hall _
    obtain ⟨x, hx⟩ := exceptionHandler_defined hshell fr PAGE_FAULT hS₁ hcur
    unfold executeCall
    rw [hr]
    exact ⟨_, Option.map_eq_some_iff.mpr ⟨x, hx, rfl⟩⟩
  · exact ⟨_, executeCall_of_ne_fault hr hne⟩

theorem ServingEvent.defined {fs : FileSys} (hshell : HoldsShell fs) {k : Kernel} {S : Stacks}
    (hS : Sound k S) (hall : AllCurrent k) {e : Event} (he : ServingEvent k e)
    (hshort : ShortEvent e) : ∃ k', step fs k e = some k' := by
  cases e with
  | execute fr command =>
      obtain ⟨x, hx⟩ := executeCall_defined hshell hS hall hshort
      exact ⟨x.2, Option.map_eq_some_iff.mpr ⟨x, hx, rfl⟩⟩
  | halt fr status =>
      obtain ⟨x, hx⟩ := sysHalt_defined hshell fr status hS (hall _)
      exact ⟨x.2, Option.map_eq_some_iff.mpr ⟨x, hx, rfl⟩⟩
  | exception fr index =>
      obtain ⟨x, hx⟩ := exceptionHandler_defined hshell fr index hS (hall _)
      exact ⟨x.2, Option.map_eq_some_iff.mpr ⟨x, hx, rfl⟩⟩
  | pit fr => exact scheduling_defined hshell fr k
  | switch n => exact ⟨_, rfl⟩
  | _ => exact he.elim

/-- A run of these events from a reachable state is defined. -/
theorem run_defined {fs : FileSys} (hshell : HoldsShell fs) {k : Kernel} {es : List Event}
    (hS : ∃ S, Sound k S) (hk : Serving k)
    (hev : StepSystem.Guarded (step fs) ServingEvent k es) (hshort : ∀ e ∈ es, ShortEvent e) :
    ∃ k', StepSystem.run (step fs) k es = some k' := by
  induction es generalizing k with
  | nil => exact ⟨k, rfl⟩
  | cons e es ih =>
      obtain ⟨S, hS'⟩ := hS
      obtain ⟨m, hm⟩ := hev.1.defined hshell hS' hk.all (hshort e List.mem_cons_self)
      obtain ⟨k', hk'⟩ := ih (step_sound ⟨S, hS'⟩ hm) (step_serving hk hev.1 hm) (hev.2 m hm)
        fun e' he' => hshort e' (List.mem_cons_of_mem e he')
      exact ⟨k', StepSystem.run_cons_eq_some.mpr ⟨m, hm, hk'⟩⟩

/-- **Address spaces agree with processes.** From any state in which every terminal has a
process and the mapping is that of the running one, after every run of executes by the visible
terminal's process, halts, exceptions, ticks and switches, the mapping is that of the process
that runs next and of no other; and from a reachable state, on an image with a shell and with
arguments that fit their buffer, every such run is defined. -/
theorem mapped_after_run {fs : FileSys} {k : Kernel} {es : List Event} {p : Slot}
    (hall : ∀ t, k.curPcbPtr t ≠ none) (hcur : k.cur = some p)
    (hmap : Mapped k (k.pcb p).processId)
    (hev : StepSystem.Guarded (step fs) ServingEvent k es) :
    (∀ k', StepSystem.run (step fs) k es = some k' → ∃ q, k'.cur = some q ∧
      Mapped k' (k'.pcb q).processId ∧ ∀ n, n ≠ (k'.pcb q).processId →
        (k'.pageDirectory SYS_VIRTUAL_MEM).base ≠ .phys (MB_8 + MB_4 * n.val)
          ∧ k'.tss.esp0 ≠ MB_8 - KB_8 * n.val - 4) ∧
    (Reachable fs k → HoldsShell fs → (∀ e ∈ es, ShortEvent e) →
      ∃ k', StepSystem.run (step fs) k es = some k') := by
  have hk : Serving k := by
    refine ⟨hall, fun q hq => ?_⟩
    obtain rfl : p = q := Option.some.inj (hcur.symm.trans hq)
    exact hmap
  refine ⟨fun k' hrun => ?_, fun hreach hshell hshort => ?_⟩
  · have hk' : Serving k' := StepSystem.run_invariant_of_guarded
      (fun _ _ _ h he hs => step_serving h he hs) hev hrun hk
    obtain ⟨q, hq⟩ := Option.ne_none_iff_exists'.mp (hk'.all k'.processTerminal)
    have hm := hk'.agrees q hq
    exact ⟨q, hq, hm, fun n hn => hm.alone hn⟩
  · exact run_defined hshell hreach.sound hk hev hshort

/-- On the small image, with three shells running: a halt, a tick and a switch. -/
theorem mapped_after_run_sample : ∃ k, Reachable sampleImage k ∧ (∀ t, k.curPcbPtr t ≠ none)
    ∧ k.cur = some 2 ∧ Mapped k (k.pcb 2).processId ∧
    (∀ k', StepSystem.run (step sampleImage) k
        [.halt zeroFrame 0, .pit zeroFrame, .switch 1] = some k' →
      ∃ q, k'.cur = some q ∧ Mapped k' (k'.pcb q).processId ∧ ∀ n, n ≠ (k'.pcb q).processId →
        (k'.pageDirectory SYS_VIRTUAL_MEM).base ≠ .phys (MB_8 + MB_4 * n.val)
          ∧ k'.tss.esp0 ≠ MB_8 - KB_8 * n.val - 4) ∧
    (Reachable sampleImage k → HoldsShell sampleImage →
      (∀ e ∈ [Event.halt zeroFrame 0, .pit zeroFrame, .switch 1], ShortEvent e) →
      ∃ k', StepSystem.run (step sampleImage) k
        [.halt zeroFrame 0, .pit zeroFrame, .switch 1] = some k') := by
  obtain ⟨k, _, hreach, hstart, _, hprocess, hcurPtr, _⟩ := sampleImage_three_ticks
  have hall : ∀ t, k.curPcbPtr t ≠ none := by
    rw [hcurPtr]
    decide
  have hcur : k.cur = some 2 := by
    unfold cur
    rw [hprocess, hcurPtr]
    rfl
  have hmap : Mapped k (k.pcb 2).processId := by
    rw [hstart.pid]
    exact .of_eq hstart.page hstart.tss
  exact ⟨k, hreach, hall, hcur, hmap, mapped_after_run hall hcur hmap
    ⟨trivial, fun _ _ => ⟨trivial, fun _ _ => ⟨trivial, fun _ _ => trivial⟩⟩⟩⟩

end Kernel

end Ext2Kernel
