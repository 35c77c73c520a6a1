import Ext2Kernel.Process.Actions

set_option autoImplicit false

/-! # What an event does to the console

The keyboard handler, terminal switches and the start of a terminal read work on the line
buffers. All other events only print, store to video memory and set a few flags
(`Background`), so that what the console keeps over these keeps over every run of the kernel.
-/

namespace Ext2Kernel

open ByteMem

namespace Console

/-- The changes of the console that are none of the keyboard handler, a terminal switch or a
terminal read: output, stores to video memory, the terminal being scheduled, and flags. -/
inductive Background (c : Console) : Console → Prop
  | refl : Background c c
  | print {c' : Console} (l : List UInt8) : Background c c' → Background c (c'.putcs l)
  | store {c' : Console} (video : Mem) : Background c c' → Background c { c' with video := video }
  | schedule {c' : Console} (t : Terminal) :
      Background c c' → Background c { c' with processTerminal := t }
  | shells {c' : Console} (b : Bool) :
      Background c c' → Background c { c' with tooManyShellsFlag := b }
  | shell {c' : Console} (t : Terminal) (b : Bool) :
      Background c c' → Background c (c'.modify t fun s => { s with shellFlag := b })
  | typed {c' : Console} (t : Terminal) :
      Background c c' → Background c (c'.modify t fun s => { s with typingDuringProgFlag := false })

theorem Background.trans {c c' c'' : Console} (h : Background c c') (h' : Background c' c'') :
    Background c c'' := by
  induction h' with
  | refl => exact h
  | print l _ ih => exact ih.print l
  | store video _ ih => exact ih.store video
  | schedule t _ ih => exact ih.schedule t
  | shells b _ ih => exact ih.shells b
  | shell t b _ ih => exact ih.shell t b
  | typed t _ ih => exact ih.typed t

theorem background_sysWriteTerminal (c : Console) (buf : Mem) (nbytes : Int) :
    Background c (c.sysWriteTerminal buf nbytes).1 := by
  unfold sysWriteTerminal
  split
  · exact .refl
  · split
    · exact .refl
    · split <;> dsimp only <;> exact .print _ .refl

end Console

namespace Kernel

open Console (Background)

/-! ## `sys_execute` -/

theorem storeVidmap_background (k : Kernel) (bytes : List UInt8) :
    Background k.console (k.storeVidmap bytes).console := by
  obtain ⟨v, hv⟩ := k.storeVidmap_eq bytes
  rw [hv]
  exact .store v .refl

theorem executeUserProgramLoader_background {fs : FileSys} {k k' : Kernel} {name : List UInt8}
    {r : LoadResult} (h : k.executeUserProgramLoader fs name = some (r, k')) :
    Background k.console k'.console := by
  unfold executeUserProgramLoader at h
  dsimp only at h
  obtain ⟨d, _, h⟩ := Option.map_eq_some_iff.mp h
  split at h
  · cases h
    split
    · exact k.storeVidmap_background _
    · exact .refl
  · split at h
    · cases h
      exact k.storeVidmap_background _
    · cases h
      exact k.storeVidmap_background _

theorem executeCreatePCB_console {k k' : Kernel} {arg : List UInt8} {term : Terminal}
    (h : k.executeCreatePCB arg term = some k') : k'.console = k.console := by
  unfold executeCreatePCB at h
  split at h
  · cases h
    rfl
  · cases h

theorem launch_background {fs : FileSys} {fr : Frame} {k k' : Kernel} {term : Terminal}
    {progName arg : List UInt8} {p : Slot} {r : ExecResult}
    (h : k.launch fs fr term progName arg p = some (r, k')) :
    Background k.console k'.console := by
  unfold launch at h
  dsimp only at h
  split at h
  · cases h
  · rename_i k₂ hload
    cases h
    have hload' := executeUserProgramLoader_background hload
    exact hload'
  · rename_i k₂ hload
    cases h
    have hload' := executeUserProgramLoader_background hload
    exact hload'
  · rename_i image k₂ hload
    obtain ⟨k₄, hcreate, heq⟩ := Option.map_eq_some_iff.mp h
    cases heq
    have hconsole : (k₄.executeContextSwitch term p).console = k₄.console := rfl
    rw [hconsole, executeCreatePCB_console hcreate]
    have hload' := executeUserProgramLoader_background hload
    exact hload'.shell term (shellName progName)

theorem sysExecute_background {fs : FileSys} {fr : Frame} {command : Option (List UInt8)}
    {k k' : Kernel} {r : ExecResult} (h : k.sysExecute fs fr command = some (r, k')) :
    Background k.console k'.console := by
  unfold sysExecute at h
  dsimp only at h
  split at h
  · cases h
    exact .refl
  · split at h
    · cases h
    · rw [executeParsed_eq] at h
      dsimp only at h
      split at h
      · split at h
        · cases h
          exact .shells true .refl
        · have hl := launch_background h
          exact hl
      · cases h
        exact .refl

/-! ## `sys_halt` and `scheduling` -/

theorem returnToParent_background (k : Kernel) (q : Slot) :
    Background k.console (k.returnToParent q).console := by
  have hshell : Background k.console (k.console.modify k.processTerminal fun s =>
      { s with shellFlag := true }) := .shell _ true .refl
  unfold returnToParent
  dsimp only
  split
  · exact .typed _ (.print [10] hshell)
  · exact hshell

theorem sysHalt_background {fs : FileSys} {fr : Frame} {status : UInt8} {k k' : Kernel}
    {r : HaltResult} (h : k.sysHalt fs fr status = some (r, k')) :
    Background k.console k'.console := by
  obtain ⟨p, _, hafter⟩ := sysHalt_eq h
  have hpop : Background k.console (k.popped p).console := .shells false .refl
  unfold afterPop at hafter
  split at hafter
  · split at hafter
    · rename_i hexec
      cases hafter
      exact hpop.trans (sysExecute_background hexec)
    · cases hafter
  · cases hafter
    exact hpop.trans (returnToParent_background _ _)

theorem raised_background (k : Kernel) (index : Fin 20) :
    Background k.console (k.raised index).console := by
  have hconsole : (k.raised index).console = k.console.putcs (exceptionText index) := by
    simp only [raised]
  rw [hconsole]
  generalize exceptionText index = l
  exact .print l .refl

theorem exceptionHandler_background {fs : FileSys} {fr : Frame} {index : Fin 20} {k k' : Kernel}
    {r : HaltResult} (h : k.exceptionHandler fs fr index = some (r, k')) :
    Background k.console k'.console := by
  rw [exceptionHandler_eq] at h
  exact (k.raised_background index).trans (sysHalt_background h)

theorem executeCall_background {fs : FileSys} {fr : Frame} {command : Option (List UInt8)}
    {k k' : Kernel} {r : ExecResult} (h : k.executeCall fs fr command = some (r, k')) :
    Background k.console k'.console := by
  rcases executeCall_spec h with ⟨hexec, _⟩ | ⟨_, k₁, x, hexec, hexc⟩
  · exact sysExecute_background hexec
  · exact (sysExecute_background hexec).trans (exceptionHandler_background hexc)

theorem scheduled_background (k : Kernel) (fr : Frame) :
    Background k.console (k.scheduled fr).console := by
  have hsave : (k.saveFrame k.processTerminal fr).console = k.console := by rw [saveFrame_eq]
  unfold scheduled nextTerminal
  rw [hsave]
  exact .schedule _ .refl

theorem scheduling_background {fs : FileSys} {fr : Frame} {k k' : Kernel}
    (h : k.scheduling fs fr = some k') : Background k.console k'.console := by
  have hnext := k.scheduled_background fr
  unfold scheduling at h
  split at h
  · dsimp only at h
    split at h
    · split at h
      · rename_i hexec
        cases h
        exact hnext.trans (sysExecute_background hexec)
      · rename_i hexec
        cases h
        exact hnext.trans (sysExecute_background hexec)
      · cases h
    · rename_i p hp
      cases h
      have hsw := (switchTo_switched (k.scheduled fr) p).console
      show Background k.console ((k.scheduled fr).switchTo p).console
      rw [hsw]
      exact hnext
  · cases h
    exact .refl

/-! ## The descriptor calls -/

theorem modifyCur_console {k k' : Kernel} {f : Pcb → Pcb} (h : k.modifyCur f = some k') :
    k'.console = k.console := by
  obtain ⟨p, _, rfl⟩ := Option.map_eq_some_iff.mp h
  rfl

theorem sysWriteRtc_console {k k' : Kernel} {buf : Option Mem} {nbytes r : Int}
    (h : k.sysWriteRtc buf nbytes = some (r, k')) : k'.console = k.console := by
  rcases sysWriteRtc_cases h with ⟨_, rfl⟩ | ⟨_, n, _, hn⟩
  · rfl
  · exact modifyCur_console hn

theorem openType_console {fs : FileSys} {k k' : Kernel} {filename : List UInt8} {i : Fin 8}
    {fileType : Nat} (h : k.openType fs filename i fileType = some (some k')) :
    k'.console = k.console := by
  unfold openType at h
  split at h
  · obtain ⟨k₁, hk₁, hinst⟩ := Option.bind_eq_some_iff.mp (Option.some.inj h)
    obtain ⟨⟨r, k₂⟩, hw, rfl⟩ := Option.map_eq_some_iff.mp hk₁
    exact (modifyCur_console hinst).trans (sysWriteRtc_console hw)
  · split at h
    · exact modifyCur_console (Option.some.inj h)
    · split at h
      · exact modifyCur_console (Option.some.inj h)
      · cases h

theorem sysOpen_console {fs : FileSys} {k k' : Kernel} {filename : Option (List UInt8)} {r : Int}
    (h : k.sysOpen fs filename = some (r, k')) : k'.console = k.console := by
  unfold sysOpen at h
  obtain ⟨p, _, h⟩ := Option.bind_eq_some_iff.mp h
  split at h
  · cases h; rfl
  · split at h
    · cases h; rfl
    · split at h
      · cases h; rfl
      · rename_i x hx
        obtain ⟨k₁, rfl, heq⟩ := Option.map_eq_some_iff.mp h
        cases heq
        exact openType_console hx

theorem sysClose_console {k k' : Kernel} {fd r : Int} (h : k.sysClose fd = some (r, k')) :
    k'.console = k.console := by
  unfold sysClose at h
  split at h
  · cases h; rfl
  · obtain ⟨p, _, h⟩ := Option.bind_eq_some_iff.mp h
    dsimp only at h
    split at h
    · cases h; rfl
    · obtain ⟨ops, _, heq⟩ := Option.map_eq_some_iff.mp h
      cases heq
      rfl

/-- `sys_read` leaves the console alone or starts a terminal read. -/
theorem sysRead_console {fs : FileSys} {k k' : Kernel} {stack : Mem} {fd nbytes : Int}
    {bufNull : Bool} {r : ReadOutcome}
    (h : k.sysRead fs stack fd bufNull nbytes = some (r, k')) :
    k'.console = k.console ∨ k.console.readTerminalStart = some k'.console := by
  unfold sysRead at h
  split at h
  · cases h; exact Or.inl rfl
  · obtain ⟨p, _, h⟩ := Option.bind_eq_some_iff.mp h
    dsimp only at h
    split at h
    · cases h; exact Or.inl rfl
    · obtain ⟨ops, _, h⟩ := Option.bind_eq_some_iff.mp h
      cases ops with
      | stdIn =>
          obtain ⟨c, hc, heq⟩ := Option.map_eq_some_iff.mp h
          cases heq
          exact Or.inr hc
      | stdOut => cases h; exact Or.inl rfl
      | rtc =>
          obtain ⟨k₁, hk₁, heq⟩ := Option.map_eq_some_iff.mp h
          cases heq
          exact Or.inl (modifyCur_console hk₁)
      | file =>
          cases h
          refine Or.inl ?_
          unfold sysReadFile
          dsimp only
          split <;> rfl
      | dir =>
          cases h
          refine Or.inl ?_
          unfold sysReadDirectory
          dsimp only
          split <;> rfl

theorem sysWrite_background {k k' : Kernel} {fd nbytes r : Int} {buf : Option Mem}
    (h : k.sysWrite fd buf nbytes = some (r, k')) : Background k.console k'.console := by
  unfold sysWrite at h
  split at h
  · cases h; exact .refl
  · split at h
    · cases h; exact .refl
    · obtain ⟨p, _, h⟩ := Option.bind_eq_some_iff.mp h
      dsimp only at h
      split at h
      · cases h; exact .refl
      · obtain ⟨ops, _, h⟩ := Option.bind_eq_some_iff.mp h
        cases ops with
        | rtc =>
            unfold writeOp at h
            rw [sysWriteRtc_console h]
            exact .refl
        | file => cases h; exact .refl
        | dir => cases h; exact .refl
        | stdIn => cases h; exact .refl
        | stdOut =>
            cases h
            exact Console.background_sysWriteTerminal _ _ _

theorem drawByte_background {k k' : Kernel} {offset : Nat} {byte : UInt8}
    (h : k.drawByte offset byte = some k') : Background k.console k'.console := by
  unfold drawByte at h
  split at h
  · split at h
    · cases h
      exact .store _ .refl
    · cases h
  · cases h

theorem rtcTick_console (k : Kernel) (t : Terminal) : (k.rtcTick t).console = k.console := by
  unfold rtcTick
  split
  · split <;> rfl
  · rfl

theorem rtcInterrupt_console (k : Kernel) : k.rtcInterrupt.console = k.console := by
  unfold rtcInterrupt
  rw [rtcTick_console, rtcTick_console, rtcTick_console]

theorem readRtcFinish_console {k k' : Kernel} (h : k.readRtcFinish = some k') :
    k'.console = k.console := by
  unfold readRtcFinish at h
  split at h
  · split at h
    · exact modifyCur_console h
    · cases h
  · cases h

/-! ## Every event -/

/-- What event `e` may do to the console. -/
def ConsoleStep (c : Console) : Event → Console → Prop
  | .keyboard scancode, c' => c.keyboardInterrupt scancode = some c'
  | .switch n, c' => c' = c.switchTerminal n
  | .read _ _ _ _, c' => c' = c ∨ c.readTerminalStart = some c'
  | _, c' => Background c c'

/-- **What an event does to the console.** -/
theorem step_console {fs : FileSys} {k k' : Kernel} {e : Event} (h : step fs k e = some k') :
    ConsoleStep k.console e k'.console := by
  cases e with
  | execute fr command =>
      obtain ⟨⟨r, k₁⟩, hr, rfl⟩ := Option.map_eq_some_iff.mp h
      exact executeCall_background hr
  | halt fr status =>
      obtain ⟨⟨r, k₁⟩, hr, rfl⟩ := Option.map_eq_some_iff.mp h
      exact sysHalt_background hr
  | exception fr index =>
      obtain ⟨⟨r, k₁⟩, hr, rfl⟩ := Option.map_eq_some_iff.mp h
      exact exceptionHandler_background hr
  | pit fr =>
      have hpit : k.scheduling fs fr = some k' := h
      exact scheduling_background hpit
  | rtc =>
      cases h
      show Background k.console k.rtcInterrupt.console
      rw [rtcInterrupt_console]
      exact .refl
  | keyboard scancode =>
      obtain ⟨c, hc, rfl⟩ := Option.map_eq_some_iff.mp h
      exact hc
  | switch n =>
      cases h
      exact rfl
  | «open» filename =>
      obtain ⟨⟨r, k₁⟩, hr, rfl⟩ := Option.map_eq_some_iff.mp h
      show Background k.console k₁.console
      rw [sysOpen_console hr]
      exact .refl
  | close fd =>
      obtain ⟨⟨r, k₁⟩, hr, rfl⟩ := Option.map_eq_some_iff.mp h
      show Background k.console k₁.console
      rw [sysClose_console hr]
      exact .refl
  | read stack fd bufNull nbytes =>
      obtain ⟨⟨r, k₁⟩, hr, rfl⟩ := Option.map_eq_some_iff.mp h
      exact sysRead_console hr
  | resumeTerminal nbytes =>
      obtain ⟨r, _, rfl⟩ := Option.map_eq_some_iff.mp h
      exact .refl
  | resumeRtc =>
      show Background k.console k'.console
      rw [readRtcFinish_console h]
      exact .refl
  | write fd buf nbytes =>
      obtain ⟨⟨r, k₁⟩, hr, rfl⟩ := Option.map_eq_some_iff.mp h
      exact sysWrite_background hr
  | getargs =>
      obtain ⟨r, _, rfl⟩ := Option.map_eq_some_iff.mp h
      exact .refl
  | vidmap screenStart =>
      obtain ⟨⟨r, k₁⟩, hr, rfl⟩ := Option.map_eq_some_iff.mp h
      rcases sysVidmap_cases hr with ⟨_, hk⟩ | ⟨_, p, v, _, hk⟩
      · subst hk
        exact .refl
      · subst hk
        exact .store v .refl
  | draw offset byte => exact drawByte_background h

end Kernel

end Ext2Kernel
