import Ext2Kernel.Console.Flags
import Ext2Kernel.Process.ConsoleEvents

set_option autoImplicit false

/-! # What an event does to the two flags

`sys_execute` sets `too_many_shells_flag` when it finds an executable but no free process number
(`refused`), and `shell_flag` of the new process's terminal from the name of the program.
`sys_halt` clears the one and sets the other. No other event changes them
(`step_keepsFlags`).
-/

namespace Ext2Kernel

open ByteMem

namespace Kernel

open Console (KeepsFlags)

/-! ## `sys_execute` -/

/-- Does the call find an executable, but all process numbers taken? -/
def refused (fs : FileSys) (fr : Frame) (k : Kernel) (command : Option (List UInt8)) : Bool :=
  match executeParseArgs command with
  | .bad => false
  | .ok progName _ =>
      (executeExecutableCheck fs k.bufExecutableHeader k.execTerm (fr.progMem progName)).1
        && k.firstFree.isNone

theorem refused_of_free {fs : FileSys} {fr : Frame} {k : Kernel} {p : Slot}
    (h : k.firstFree = some p) (command : Option (List UInt8)) :
    k.refused fs fr command = false := by
  unfold refused
  rw [h]
  split
  · rfl
  · exact Bool.and_false _

/-- The two flags after a call of `sys_execute`, by its result. -/
def FlagsAfterExecute (fs : FileSys) (fr : Frame) (k : Kernel) (command : Option (List UInt8))
    (c : Console) : ExecResult → Prop
  | .ret _ => (∀ t, (c.term t).shellFlag = (k.console.term t).shellFlag) ∧
      c.tooManyShellsFlag = (k.console.tooManyShellsFlag || k.refused fs fr command)
  | .enter _ _ => c.tooManyShellsFlag = k.console.tooManyShellsFlag ∧
      ∃ progName arg, executeParseArgs command = .ok progName arg ∧
        ∀ t, (c.term t).shellFlag =
          if t = k.execTerm then shellName progName else (k.console.term t).shellFlag
  | .fault => KeepsFlags k.console c

/-- `launch` with the process number `p`. -/
theorem launch_flags {fs : FileSys} {fr : Frame} {k k' : Kernel} {command : Option (List UInt8)}
    {progName arg : List UInt8} {header : Mem} {p : Slot} {d : Dentry} {r : ExecResult}
    (hparse : executeParseArgs command = .ok progName arg)
    (hd : HoldsExecutable fs (fr.progMem progName) d)
    (h : (k.prepared fr arg header).launch fs fr k.execTerm progName arg p = some (r, k')) :
    FlagsAfterExecute fs fr k command k'.console r := by
  obtain ⟨v, ⟨_, hload⟩ | ⟨_, image, hload⟩⟩ :=
    executeUserProgramLoader_cases (k := (k.prepared fr arg header).claimed p) hd.found hd.inode
  · unfold launch at h
    simp only [claimed] at hload
    simp only [hload, Option.some.injEq, Prod.mk.injEq] at h
    obtain ⟨rfl, rfl⟩ := h
    exact ⟨fun _ => rfl, rfl⟩
  · unfold launch at h
    simp only [claimed] at hload
    simp only [hload, Option.map_eq_some_iff, Prod.mk.injEq] at h
    obtain ⟨k₄, hcreate, rfl, rfl⟩ := h
    have hconsole : (k₄.executeContextSwitch k.execTerm p).console = k₄.console := rfl
    show FlagsAfterExecute fs fr k command (k₄.executeContextSwitch k.execTerm p).console _
    rw [hconsole, executeCreatePCB_console hcreate]
    refine ⟨rfl, progName, arg, hparse, fun t => ?_⟩
    by_cases ht : t = k.execTerm
    · rw [if_pos ht, ht, Console.modify_term_self]
    · rw [if_neg ht, Console.modify_term_ne _ _ _ ht]
      rfl

/-- **The flags after `sys_execute`.** -/
theorem sysExecute_flags {fs : FileSys} {fr : Frame} {command : Option (List UInt8)}
    {k k' : Kernel} {r : ExecResult} (h : k.sysExecute fs fr command = some (r, k')) :
    FlagsAfterExecute fs fr k command k'.console r := by
  unfold sysExecute at h
  dsimp only at h
  cases hparse : executeParseArgs command with
  | bad =>
      rw [hparse] at h
      cases h
      have hrefused : k.refused fs fr command = false := by
        unfold refused
        rw [hparse]
      refine ⟨fun _ => rfl, ?_⟩
      rw [hrefused, Bool.or_false]
  | ok progName arg =>
      have hrefused : k.refused fs fr command =
          ((executeExecutableCheck fs k.bufExecutableHeader k.execTerm (fr.progMem progName)).1
            && k.firstFree.isNone) := by
        unfold refused
        rw [hparse]
      rw [hparse] at h
      dsimp only at h
      split at h
      · cases h
      · rw [executeParsed_eq] at h
        dsimp only at h
        split at h
        · rename_i hcheck
          obtain ⟨d, hd⟩ := (executeExecutableCheck_iff ..).mp hcheck
          cases hfree : k.firstFree with
          | none =>
              rw [hfree] at h
              cases h
              refine ⟨fun _ => rfl, ?_⟩
              rw [hrefused, hcheck, hfree]
              exact (Bool.or_true _).symm
          | some p =>
              rw [hfree] at h
              exact launch_flags hparse hd h
        · rename_i hcheck
          cases h
          refine ⟨fun _ => rfl, ?_⟩
          rw [hrefused, Bool.eq_false_iff.mpr hcheck, Bool.false_and, Bool.or_false]
          rfl

/-! ## `sys_halt` -/

theorem returnToParent_flags (k : Kernel) (q : Slot) :
    (k.returnToParent q).console.tooManyShellsFlag = k.console.tooManyShellsFlag ∧
      ∀ t, ((k.returnToParent q).console.term t).shellFlag =
        if t = k.processTerminal then true else (k.console.term t).shellFlag := by
  have hset : ∀ t, ((k.console.modify k.processTerminal fun s =>
      { s with shellFlag := true }).term t).shellFlag =
        if t = k.processTerminal then true else (k.console.term t).shellFlag := by
    intro t
    by_cases ht : t = k.processTerminal
    · rw [if_pos ht, ht, Console.modify_term_self]
    · rw [if_neg ht, Console.modify_term_ne _ _ _ ht]
  unfold returnToParent
  dsimp only
  split
  · have hputc := (KeepsFlags.refl (k.console.modify k.processTerminal fun s =>
      { s with shellFlag := true })).drawn (Console.drawn_putc _ 10)
    have htyped := hputc.modify k.processTerminal (f := fun s =>
      { s with typingDuringProgFlag := false }) fun _ => rfl
    exact ⟨htyped.shells, fun t => (htyped.shell t).trans (hset t)⟩
  · exact ⟨rfl, hset⟩

/-- **The flags after `sys_halt`**: the parent of the running process is taken for a shell. -/
theorem sysHalt_flags {fs : FileSys} {fr : Frame} {status : UInt8} {k k' : Kernel}
    {r : HaltResult} (h : k.sysHalt fs fr status = some (r, k')) :
    k'.console.tooManyShellsFlag = false ∧ ∀ t, (k'.console.term t).shellFlag =
      if t = k.processTerminal then true else (k.console.term t).shellFlag := by
  obtain ⟨p, hp, hafter⟩ := sysHalt_eq h
  unfold afterPop at hafter
  cases hparent : (k.popped p).cur with
  | none =>
      rw [hparent] at hafter
      dsimp only at hafter
      split at hafter
      · rename_i hexec
        cases hafter
        obtain ⟨hmany, progName, arg, hparse, hshell⟩ := sysExecute_flags hexec
        have hname : Parsed.ok progName arg = .ok shellCommand [] := hparse.symm.trans (by decide)
        have hterm : (k.popped p).execTerm = k.processTerminal := if_pos hparent
        cases hname
        rw [hterm] at hshell
        exact ⟨hmany, hshell⟩
      · cases hafter
  | some q =>
      rw [hparent] at hafter
      cases hafter
      exact returnToParent_flags (k.popped p) q

theorem raised_keepsFlags (k : Kernel) (index : Fin 20) :
    KeepsFlags k.console (k.raised index).console := by
  have hconsole : (k.raised index).console = k.console.putcs (exceptionText index) := by
    simp only [raised]
  rw [hconsole]
  generalize exceptionText index = l
  exact .putcs _ l

theorem exceptionHandler_flags {fs : FileSys} {fr : Frame} {index : Fin 20} {k k' : Kernel}
    {r : HaltResult} (h : k.exceptionHandler fs fr index = some (r, k')) :
    k'.console.tooManyShellsFlag = false ∧ ∀ t, (k'.console.term t).shellFlag =
      if t = k.processTerminal then true else (k.console.term t).shellFlag := by
  rw [exceptionHandler_eq] at h
  obtain ⟨hmany, hshell⟩ := sysHalt_flags h
  have hprint := raised_keepsFlags k index
  rw [raised_process] at hshell
  refine ⟨hmany, fun t => ?_⟩
  rw [hshell t, hprint.shell t]

/-! ## `scheduling` -/

theorem scheduled_keepsFlags (k : Kernel) (fr : Frame) :
    KeepsFlags k.console (k.scheduled fr).console := by
  have hconsole : (k.saveFrame k.processTerminal fr).console = k.console := by rw [saveFrame_eq]
  unfold scheduled nextTerminal
  rw [hconsole]
  exact ⟨fun _ => rfl, rfl⟩

/-- The scheduler does nothing, goes to the process of the next terminal, or executes a shell
there. -/
theorem scheduling_cases {fs : FileSys} {fr : Frame} {k k' : Kernel}
    (h : k.scheduling fs fr = some k') :
    (k.pitFlag = false ∧ k' = k) ∨
      (k.pitFlag = true ∧ ∃ p, (k.scheduled fr).cur = some p ∧ k' = (k.scheduled fr).switchTo p) ∨
      (k.pitFlag = true ∧ (k.scheduled fr).cur = none ∧ ∃ r,
        (k.scheduled fr).sysExecute fs fr (some shellCommand) = some (r, k') ∧ r ≠ .fault) := by
  unfold scheduling at h
  cases hpit : k.pitFlag with
  | false =>
      rw [hpit, if_neg Bool.false_ne_true] at h
      cases h
      exact Or.inl ⟨rfl, rfl⟩
  | true =>
      rw [hpit, if_pos rfl] at h
      dsimp only at h
      right
      cases hcur : (k.scheduled fr).cur with
      | some p =>
          have hcur' : ((k.saveFrame k.processTerminal fr).nextTerminal).cur = some p := hcur
          rw [hcur'] at h
          cases h
          exact Or.inl ⟨rfl, p, rfl, rfl⟩
      | none =>
          have hcur' : ((k.saveFrame k.processTerminal fr).nextTerminal).cur = none := hcur
          rw [hcur'] at h
          dsimp only at h
          split at h
          · rename_i hexec
            cases h
            exact Or.inr ⟨rfl, rfl, _, hexec, by simp⟩
          · rename_i hexec
            cases h
            exact Or.inr ⟨rfl, rfl, _, hexec, by simp⟩
          · cases h

/-! ## The other events -/

theorem sysWrite_keepsFlags {k k' : Kernel} {fd nbytes r : Int} {buf : Option Mem}
    (h : k.sysWrite fd buf nbytes = some (r, k')) : KeepsFlags k.console k'.console := by
  unfold sysWrite at h
  split at h
  · cases h; exact .refl _
  · split at h
    · cases h; exact .refl _
    · obtain ⟨p, _, h⟩ := Option.bind_eq_some_iff.mp h
      dsimp only at h
      split at h
      · cases h; exact .refl _
      · obtain ⟨ops, _, h⟩ := Option.bind_eq_some_iff.mp h
        cases ops with
        | rtc =>
            unfold writeOp at h
            rw [sysWriteRtc_console h]
            exact .refl _
        | file => cases h; exact .refl _
        | dir => cases h; exact .refl _
        | stdIn => cases h; exact .refl _
        | stdOut =>
            cases h
            exact (KeepsFlags.refl _).write _ _

theorem drawByte_keepsFlags {k k' : Kernel} {offset : Nat} {byte : UInt8}
    (h : k.drawByte offset byte = some k') : KeepsFlags k.console k'.console := by
  unfold drawByte at h
  split at h
  · split at h
    · cases h
      exact ⟨fun _ => rfl, rfl⟩
    · cases h
  · cases h

/-- The events that neither start nor end a process. -/
def Event.isPlain : Event → Bool
  | .execute _ _ | .halt _ _ | .exception _ _ | .pit _ => false
  | _ => true

/-- **No other event changes the two flags.** -/
theorem step_keepsFlags {fs : FileSys} {k k' : Kernel} {e : Event} (he : Event.isPlain e = true)
    (h : step fs k e = some k') : KeepsFlags k.console k'.console := by
  have hconsole := step_console h
  cases e with
  | execute _ _ => cases he
  | halt _ _ => cases he
  | exception _ _ => cases he
  | pit _ => cases he
  | keyboard scancode => exact Console.keyboardInterrupt_keepsFlags hconsole
  | switch n =>
      rw [show k'.console = k.console.switchTerminal n from hconsole]
      exact (Console.switchTerminal_keepsHistory _ _).toKeepsFlags
  | read stack fd bufNull nbytes =>
      rcases hconsole with hsame | hread
      · rw [hsame]
        exact .refl _
      · exact (Console.KeepsHistory.readTerminalStart hread).toKeepsFlags
  | write fd buf nbytes =>
      obtain ⟨⟨r, k₁⟩, hr, rfl⟩ := Option.map_eq_some_iff.mp h
      exact sysWrite_keepsFlags hr
  | draw offset byte => exact drawByte_keepsFlags h
  | rtc =>
      cases h
      show KeepsFlags k.console k.rtcInterrupt.console
      rw [rtcInterrupt_console]
      exact .refl _
  | «open» filename =>
      obtain ⟨⟨r, k₁⟩, hr, rfl⟩ := Option.map_eq_some_iff.mp h
      show KeepsFlags k.console k₁.console
      rw [sysOpen_console hr]
      exact .refl _
  | close fd =>
      obtain ⟨⟨r, k₁⟩, hr, rfl⟩ := Option.map_eq_some_iff.mp h
      show KeepsFlags k.console k₁.console
      rw [sysClose_console hr]
      exact .refl _
  | resumeTerminal nbytes =>
      obtain ⟨r, _, rfl⟩ := Option.map_eq_some_iff.mp h
      exact .refl _
  | resumeRtc =>
      rw [readRtcFinish_console h]
      exact .refl _
  | getargs =>
      obtain ⟨r, _, rfl⟩ := Option.map_eq_some_iff.mp h
      exact .refl _
  | vidmap screenStart =>
      obtain ⟨⟨r, k₁⟩, hr, rfl⟩ := Option.map_eq_some_iff.mp h
      rcases sysVidmap_cases hr with ⟨_, hk⟩ | ⟨_, p, v, _, hk⟩
      · subst hk
        exact .refl _
      · subst hk
        exact ⟨fun _ => rfl, rfl⟩

end Kernel

end Ext2Kernel
