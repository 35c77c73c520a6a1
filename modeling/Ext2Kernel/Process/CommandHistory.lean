import Ext2Kernel.Console.History
import Ext2Kernel.Process.KeyboardBounds
import Ext2Kernel.Process.TypedLine

set_option autoImplicit false

/-! # Browsing the history while a line is typed

A history variable follows the command that was entered last at the shell of a terminal
(`commandEvent`), and `last_buf` holds it in every reachable state. After Enter, while a line is
typed and edited, the other conditions of the two arrows hold as well (`Edits`); whether they
leave the line alone depends on the copy only.
-/

namespace Ext2Kernel

open ByteMem

namespace LineIdx

/-- The cursor and the length of the copy are possible lengths of a line. -/
def Fits (l : LineIdx) : Prop := Console.fits l.cursor ∧ Console.fits l.current

section

variable {l : LineIdx} (h : l.Fits)

include h

theorem Fits.erase (typing : Bool) : (l.erase.eraseAhead typing).Fits := by
  unfold Fits Console.fits at *
  unfold LineIdx.erase LineIdx.eraseAhead
  split_ifs <;> (try dsimp only at *) <;> omega

theorem Fits.left (r : Int) : (l.left r).Fits := by
  unfold Fits Console.fits at *
  unfold LineIdx.left
  split_ifs <;> (try dsimp only at *) <;> omega

theorem Fits.right {r : Int} (hr : r = 0 ∨ r = 1) (hroom : l.cursor < KEYBOARD_BUFFER_SIZE - 1) :
    (l.right r).Fits := by
  unfold Fits Console.fits KEYBOARD_BUFFER_SIZE at *
  unfold LineIdx.right
  dsimp only
  omega

theorem Fits.clear : l.clear.Fits := ⟨⟨le_refl _, Int.natCast_nonneg _⟩, h.2⟩

theorem Fits.insert (copies stores : Bool) :
    ((l.insert.keepCurrent copies).ahead stores).Fits := by
  unfold Fits Console.fits KEYBOARD_BUFFER_SIZE at *
  unfold LineIdx.insert LineIdx.keepCurrent LineIdx.ahead KEYBOARD_BUFFER_SIZE
  split_ifs <;> (try dsimp only at *) <;> omega

end

theorem fits_enter (l : LineIdx) (shell stores : Bool) :
    (((l.enter shell).keepCurrent true).ahead stores).Fits := by
  have hzero : Console.fits 0 := by decide
  unfold LineIdx.enter LineIdx.keepCurrent LineIdx.ahead
  rw [if_pos rfl]
  split_ifs <;> exact ⟨hzero, hzero⟩

/-- A replay of saved characters; a newline behind the printed ones is one of them. -/
theorem fits_replay {l : LineIdx} {newline : Bool} (htemp : Console.fits l.temp)
    (hnewline : newline = true → 0 < l.temp) : (l.replay newline).Fits := by
  unfold Fits Console.fits at *
  unfold LineIdx.replay
  cases newline with
  | false =>
      simp only [Bool.false_eq_true, if_false]
      omega
  | true =>
      have hpos := hnewline rfl
      simp only [if_true]
      omega

end LineIdx

namespace Console

/-- The keys of an editor of one line: characters, backspace, left and right, with the modifiers
and what the handler ignores. -/
def EditKey (c : Console) (pressed : Nat) : Prop :=
  c.PrintableKey pressed ∨ pressed = BACKSPACE ∨ pressed = LEFT_ARROW_PRESSED ∨
    pressed = RIGHT_ARROW_PRESSED ∨ pressed ∈ modifierCodes ∨ c.IgnoredKey pressed

instance (c : Console) (pressed : Nat) : Decidable (c.EditKey pressed) :=
  inferInstanceAs (Decidable (_ ∨ _ ∨ _ ∨ _ ∨ _ ∨ _))

section

variable {c : Console} {pressed : Nat}

theorem EditKey.ne (h : c.EditKey pressed) : pressed ≠ UP_ARROW_PRESSED ∧
    pressed ≠ DOWN_ARROW_PRESSED ∧ pressed ≠ ENTER_PRESSED := by
  have hcode : ∀ {code}, pressed = code → code ≠ UP_ARROW_PRESSED ∧
      code ≠ DOWN_ARROW_PRESSED ∧ code ≠ ENTER_PRESSED → pressed ≠ UP_ARROW_PRESSED ∧
      pressed ≠ DOWN_ARROW_PRESSED ∧ pressed ≠ ENTER_PRESSED := by
    rintro code rfl hne
    exact hne
  rcases h with hprint | hback | hleft | hright | hmod | hignored
  · have hle := hprint.1.2.1
    refine ⟨?_, ?_, hprint.2.1⟩
    · rintro rfl
      exact absurd hle (by decide)
    · rintro rfl
      exact absurd hle (by decide)
  · exact hcode hback (by decide)
  · exact hcode hleft (by decide)
  · exact hcode hright (by decide)
  · refine ⟨?_, ?_, ?_⟩ <;> rintro rfl <;> exact absurd hmod (by decide)
  · obtain ⟨_, hgt, harrow⟩ := hignored
    simp only [List.mem_cons, List.not_mem_nil, or_false, not_or] at harrow
    refine ⟨harrow.1, harrow.2.1, ?_⟩
    rintro rfl
    exact absurd hgt (by decide)

/-- The modifiers aside, the keys of the editor are plain. -/
theorem EditKey.plain (h : c.EditKey pressed) (hmod : pressed ∉ modifierCodes) :
    c.Plain pressed := by
  rcases h with hprint | rfl | rfl | rfl | hmod' | hignored
  · exact hprint.1.1
  · exact c.plain_backspace
  · exact ⟨by decide, fun _ => by decide⟩
  · exact ⟨by decide, fun _ => by decide⟩
  · exact absurd hmod' hmod
  · exact hignored.1

end

/-! ## While the line is edited -/

/-- The line editor works on terminal `t`, and no command has been recalled. -/
structure Edits (t : Terminal) (c : Console) : Prop where
  onScreen : AllOnScreen c
  visible : c.visibleTerminal = t
  flag : c.notInPrevCmdFlag = true
  fits : (c.term t).lineIdx.Fits

/-- The two indices after a key that is no arrow of the history. -/
theorem keyLine_fits {c : Console} {pressed : Nat}
    (hup : pressed ≠ UP_ARROW_PRESSED) (hdown : pressed ≠ DOWN_ARROW_PRESSED)
    (h : (c.term c.visibleTerminal).lineIdx.Fits) : (c.keyLine pressed).Fits := by
  unfold keyLine
  dsimp only
  rw [if_neg hup, if_neg hdown]
  split
  · exact h.erase _
  · split
    · exact h.left _
    · split
      · rename_i hright
        exact h.right c.rightArrow_return hright.2.2.1
      · split
        · exact h.clear
        · split
          · exact h
          · split
            · exact LineIdx.fits_enter _ _ _
            · exact h.insert _ _

theorem Edits.key {t : Terminal} {c c' : Console} {scancode : UInt8} (h : Edits t c)
    (hkey : c.EditKey scancode.toNat) (hc' : c.keyboardInterrupt scancode = some c') :
    Edits t c' := by
  obtain ⟨hup, hdown, henter⟩ := hkey.ne
  have hflag := (keyboardInterrupt_keepsHistory hup hdown henter hc').flag.trans h.flag
  have hscreen := allOnScreen_keyboardInterrupt h.onScreen hc'
  have hv := h.visible
  have hfits := h.fits
  subst hv
  by_cases hmod : scancode.toNat ∈ modifierCodes
  · obtain ⟨c₁, hc₁, hsame⟩ := modifier_key (c := c) hmod
    rw [hc'] at hc₁
    cases hc₁
    exact ⟨hscreen, hsame.visible, hflag, hsame.idx ▸ hfits⟩
  · have hvisible := plain_visible (h.onScreen _) (hkey.plain hmod) hc'
    refine ⟨hscreen, hvisible, hflag, ?_⟩
    rw [keyboardInterrupt_lineIdx (hkey.plain hmod) hc']
    exact keyLine_fits hup hdown hfits

/-- Enter starts a new line. -/
theorem edits_enter {c c' : Console} {scancode : UInt8} (hs : AllOnScreen c)
    (hp : scancode.toNat = ENTER_PRESSED) (h : c.keyboardInterrupt scancode = some c') :
    Edits c.visibleTerminal c' := by
  have hplain : c.Plain scancode.toNat := hp ▸ c.hasChar_enter.1
  have hvisible := plain_visible (hs _) hplain h
  have hidx := keyboardInterrupt_lineIdx hplain h
  have hscreen := allOnScreen_keyboardInterrupt hs h
  rw [keyboardInterrupt_char (hp ▸ c.hasChar_enter), hp] at h
  refine ⟨hscreen, hvisible, (charKey_enter_lastIs
    (c := { c with putcToVisibleFlag := true }) rfl h).2.2, ?_⟩
  rw [hidx, hp]
  unfold keyLine
  dsimp only
  rw [if_neg (by decide), if_neg (by decide), if_neg (by decide), if_neg fun hk => absurd hk.1
    (by decide), if_neg fun hk => absurd hk.1 (by decide), if_neg fun hk => absurd hk.2 (by decide),
    if_neg (by decide), if_pos rfl]
  exact LineIdx.fits_enter _ _ _

/-- A read that starts puts back as many characters as were saved. -/
theorem readTerminalStart_fits {c c' : Console} (h : c.readTerminalStart = some c')
    {t : Terminal} (hfits : (c.term t).lineIdx.Fits) : (c'.term t).lineIdx.Fits := by
  rw [readTerminalStart_lineIdx h]
  split
  · rename_i hreplay
    obtain ⟨rfl, hreplays⟩ := hreplay
    have htemp : fits (c.term c.processTerminal).tempKbdIdx := by
      rcases readTerminalStart_cases h with ⟨hr, _⟩ | ⟨_, htemp, _⟩
      · exact absurd (hr.symm.trans hreplays) Bool.false_ne_true
      · exact htemp
    refine LineIdx.fits_replay htemp fun hnewline => ?_
    -- with nothing saved, the byte behind is one of the cleared row
    by_contra hzero
    have hle := length_replayed_le (c.term c.processTerminal)
    have hnone : (c.term c.processTerminal).tempKbdIdx.toNat = 0 :=
      Int.toNat_of_nonpos (Int.not_lt.mp hzero)
    have hlt := (replayByte_eq_iff (c := c) (by
      unfold KEYBOARD_BUFFER_SIZE
      omega)).mp (of_decide_eq_true hnewline)
    omega
  · exact hfits

theorem Edits.background {t : Terminal} {c c' : Console} (h : Edits t c)
    (hb : Background c c') (hs : AllOnScreen c') : Edits t c' := by
  refine ⟨hs, hb.sameShown.visible.trans h.visible, hb.notInPrevCmdFlag.trans h.flag, ?_⟩
  rw [hb.lineIdx]
  exact h.fits

theorem Edits.read {t : Terminal} {c c' : Console} (h : Edits t c)
    (hr : c.readTerminalStart = some c') (hs : AllOnScreen c') : Edits t c' :=
  ⟨hs, (Kernel.readTerminalStart_terminals hr).2.trans h.visible,
    (KeepsHistory.readTerminalStart hr).flag.trans h.flag, readTerminalStart_fits hr h.fits⟩

end Console

namespace Kernel

open Console (AllOnScreen Edits LastIs)

/-! ## The last command along a run -/

/-- What an event makes the last command of terminal `t`. -/
def commandEvent (t : Terminal) (k : Kernel) (e : Event) (_ : Kernel) (l : List UInt8) :
    List UInt8 :=
  match e with
  | .keyboard scancode => k.console.commandKey t scancode.toNat l
  | _ => l

/-- The kernel with the command that was entered last at the shell of terminal `t`. -/
abbrev commandStep (fs : FileSys) (t : Terminal) : Kernel × List UInt8 → Event →
    Option (Kernel × List UInt8) :=
  StepSystem.withHistory (step fs) (commandEvent t)

theorem commandStep_lastIs {fs : FileSys} {t : Terminal} {p p' : Kernel × List UInt8} {e : Event}
    (h : AllOnScreen p.1.console ∧ LastIs (p.1.console.term t) p.2)
    (hstep : commandStep fs t p e = some p') :
    AllOnScreen p'.1.console ∧ LastIs (p'.1.console.term t) p'.2 := by
  obtain ⟨k', hk', rfl⟩ := StepSystem.withHistory_eq_some.mp hstep
  obtain ⟨hs, hl⟩ := h
  refine ⟨step_allOnScreen hs hk', ?_⟩
  have hc := step_console hk'
  cases e with
  | keyboard scancode => exact Console.keyboardInterrupt_lastIs (hs _) hc hl
  | «switch» n =>
      refine hl.congr ?_
      rw [show k'.console = p.1.console.switchTerminal n from hc, Console.switchTerminal_term]
  | read stack fd bufNull nbytes =>
      rcases hc with hc | hc
      · exact hl.congr (by rw [hc])
      · exact hl.congr ((Console.KeepsHistory.readTerminalStart hc).last t)
  | _ =>
      refine hl.congr (Console.Background.keeps (fun s s' hline => ?_) (fun _ _ => rfl)
        (fun _ => rfl) hc t)
      exact Prod.ext (congrArg TermState.lastBuf hline).symm
        (congrArg TermState.lastBufIndex hline).symm

/-- **`last_buf` holds the command that was entered last**, in every run. -/
theorem lastIs_of_run {fs : FileSys} {t : Terminal} {m : BootMemory} {es : List Event}
    {p : Kernel × List UInt8}
    (h : StepSystem.run (commandStep fs t) (boot m, []) es = some p) :
    AllOnScreen p.1.console ∧ LastIs (p.1.console.term t) p.2 :=
  StepSystem.run_invariant (P := fun p : Kernel × List UInt8 =>
    AllOnScreen p.1.console ∧ LastIs (p.1.console.term t) p.2)
    (fun _ _ _ hp hstep => commandStep_lastIs hp hstep) h
    ⟨fun _ => Console.onScreen_boot, rfl, rfl, Nat.zero_le _⟩

/-! ## Editing -/

/-- The events while a line is edited: its keys, and whatever else the kernel does while its
terminal is shown. -/
def EditEvent (k : Kernel) : Event → Prop
  | .keyboard scancode => k.console.EditKey scancode.toNat
  | .switch _ => False
  | _ => True

instance (k : Kernel) (e : Event) : Decidable (k.EditEvent e) :=
  match e, e.view with
  | _, .keyboard scancode => inferInstanceAs (Decidable (k.console.EditKey scancode.toNat))
  | _, .switch _ => inferInstanceAs (Decidable False)
  | _, .read .. | _, .resumeTerminal _ | _, .execute _ _ => inferInstanceAs (Decidable True)
  | e, .other _ => isTrue (by cases e <;> trivial)

theorem edits_step {fs : FileSys} {t : Terminal} {k k' : Kernel} {e : Event}
    (h : Edits t k.console) (he : k.EditEvent e) (hk' : step fs k e = some k') :
    Edits t k'.console := by
  have hs := step_allOnScreen h.onScreen hk'
  have hc := step_console hk'
  cases e with
  | keyboard scancode => exact h.key he hc
  | «switch» n => exact he.elim
  | read stack fd bufNull nbytes =>
      rcases hc with hc | hc
      · rw [hc]
        exact h
      · exact h.read hc hs
  | _ => exact h.background hc hs

/-- **Browsing the history leaves the line alone exactly if the copy for the down arrow is the
line.** The state is one that Enter and any editing of a new line lead to, on a shell with a
command to recall. -/
theorem browses_iff_copyFresh {fs : FileSys} {m : BootMemory} {t : Terminal}
    {before es : List Event} {enter : UInt8} {p₀ p₁ p : Kernel × List UInt8} {ch : UInt8}
    {command : List UInt8}
    (hp₀ : StepSystem.run (commandStep fs t) (boot m, []) before = some p₀)
    (hvisible : p₀.1.visibleTerminal = t) (henter : enter.toNat = ENTER_PRESSED)
    (hp₁ : commandStep fs t p₀ (.keyboard enter) = some p₁)
    (hes : StepSystem.Guarded (step fs) EditEvent p₁.1 es)
    (hp : StepSystem.run (commandStep fs t) p₁ es = some p)
    (hshell : p.1.console.shown.shellFlag = true) (hcommand : p.2 = ch :: command)
    (hch : ch ≠ 0) : p.1.console.Browses p.2 ↔ p.1.console.shown.CopyFresh := by
  obtain ⟨hs₀, -⟩ := lastIs_of_run hp₀
  obtain ⟨k₁, hk₁, rfl⟩ := StepSystem.withHistory_eq_some.mp hp₁
  have hstart : Edits t k₁.console := hvisible ▸ Console.edits_enter hs₀ henter (step_console hk₁)
  have hedits : Edits t p.1.console :=
    StepSystem.run_invariant_of_guarded (P := fun k : Kernel => Edits t k.console)
      (fun _ _ _ hk he hstep => edits_step hk he hstep) hes (StepSystem.run_of_withHistory hp)
      hstart
  have hrun : StepSystem.run (commandStep fs t) (boot m, []) (before ++ .keyboard enter :: es)
      = some p :=
    StepSystem.run_append_eq_some.mpr ⟨p₀, hp₀, StepSystem.run_cons_eq_some.mpr ⟨_, hp₁, hp⟩⟩
  obtain ⟨hs, hlast⟩ := lastIs_of_run hrun
  have hv := hedits.visible
  subst hv
  have hfits : Console.fits p.1.console.shown.lastBufIndex := by
    have hlen := hlast.fits
    unfold Console.shown
    rw [hlast.length]
    exact ⟨Int.natCast_nonneg _, Int.ofNat_le.mpr hlen⟩
  have hfirst : p.1.console.shown.lastBuf 0 ≠ 0 := by
    rw [hcommand] at hlast
    rw [show p.1.console.shown.lastBuf 0 = ch from hlast.first]
    exact hch
  rw [← hlast.text]
  exact Console.browses_iff (hs _) ⟨hshell, hfirst, hedits.flag⟩ hfits hedits.fits.2

/-- The first shell, shown, where `a` has been typed. -/
def typedCommand : List Event := [.pit zeroFrame, .switch 1, .keyboard 0x1E]

/-- After the command `a`, `b` is typed: up and down leave the line alone. -/
theorem browses_iff_copyFresh_b : ∃ p : Kernel × List UInt8,
    StepSystem.run (commandStep sampleImage 1) (boot zeroMemory, [])
      (typedCommand ++ [.keyboard 0x1C, .keyboard 0x30]) = some p ∧
    p.2 = [97] ∧ p.1.console.Browses p.2 := by
  have hview : (StepSystem.run (commandStep sampleImage 1) (boot zeroMemory, [])
      typedCommand).map (fun p₀ => decide (p₀.1.visibleTerminal = 1 ∧
        (commandStep sampleImage 1 p₀ (.keyboard 0x1C)).map (fun p₁ => decide (
          StepSystem.Guarded (step sampleImage) EditEvent p₁.1 [.keyboard 0x30] ∧
          (StepSystem.run (commandStep sampleImage 1) p₁ [.keyboard 0x30]).map (fun p => decide (
            p.1.console.shown.shellFlag = true ∧ p.2 = [97] ∧ p.1.console.shown.CopyFresh))
              = some true)) = some true)) = some true := by
    decide +kernel
  obtain ⟨p₀, hp₀, hvisible, hentered⟩ := StepSystem.exists_of_map_decide hview
  obtain ⟨p₁, hp₁, hguard, htyped⟩ := StepSystem.exists_of_map_decide hentered
  obtain ⟨p, hp, hshell, hcommand, hfresh⟩ := StepSystem.exists_of_map_decide htyped
  refine ⟨p, StepSystem.run_append_eq_some.mpr
    ⟨p₀, hp₀, StepSystem.run_cons_eq_some.mpr ⟨p₁, hp₁, hp⟩⟩, hcommand, ?_⟩
  exact (browses_iff_copyFresh hp₀ hvisible rfl hp₁ hguard hp hshell hcommand (by decide)).mpr
    hfresh

/-- After the command `a`, `b` and a backspace: up and down bring the `b` back. -/
theorem backspace_returns : ¬ ∀ (fs : FileSys) (m : BootMemory) (t : Terminal)
    (before es : List Event) (p₀ p₁ p : Kernel × List UInt8),
    StepSystem.run (commandStep fs t) (boot m, []) before = some p₀ →
    p₀.1.visibleTerminal = t → commandStep fs t p₀ (.keyboard 0x1C) = some p₁ →
    StepSystem.Guarded (step fs) EditEvent p₁.1 es →
    StepSystem.run (commandStep fs t) p₁ es = some p → p.1.console.shown.shellFlag = true →
    p.2 = [97] → p.1.console.Browses p.2 := by
  intro hall
  have hview : (StepSystem.run (commandStep sampleImage 1) (boot zeroMemory, [])
      typedCommand).map (fun p₀ => decide (p₀.1.visibleTerminal = 1 ∧
        (commandStep sampleImage 1 p₀ (.keyboard 0x1C)).map (fun p₁ => decide (
          StepSystem.Guarded (step sampleImage) EditEvent p₁.1
            [.keyboard 0x30, .keyboard 0x0E] ∧
          (StepSystem.run (commandStep sampleImage 1) p₁
            [.keyboard 0x30, .keyboard 0x0E]).map (fun p => decide (
              p.1.visibleTerminal = 1 ∧ p.2 = [97] ∧ p.1.console.notInPrevCmdFlag = true ∧
              p.1.console.shown.shellFlag = true ∧ p.1.console.shown.keyboardBufferEndIdx = 0 ∧
              p.1.console.shown.currentBufIndex = 1)) = some true)) = some true)) = some true := by
    decide +kernel
  obtain ⟨p₀, hp₀, hvisible, hentered⟩ := StepSystem.exists_of_map_decide hview
  obtain ⟨p₁, hp₁, hguard, htyped⟩ := StepSystem.exists_of_map_decide hentered
  obtain ⟨p, hp, hv, hcommand, hflag, hshell, hend, hcopy⟩ :=
    StepSystem.exists_of_map_decide htyped
  have hbrowse := hall sampleImage zeroMemory 1 typedCommand _ p₀ p₁ p hp₀ hvisible hp₁ hguard hp
    hshell hcommand
  obtain ⟨hs, hlast⟩ := lastIs_of_run (StepSystem.run_append_eq_some.mpr
    ⟨p₀, hp₀, StepSystem.run_cons_eq_some.mpr ⟨p₁, hp₁, hp⟩⟩)
  rw [hcommand] at hlast
  rw [← hv] at hlast
  rw [hcommand, ← hlast.text] at hbrowse
  have hfirst : (p.1.console.term p.1.visibleTerminal).lastBuf 0 ≠ 0 := by
    rw [hlast.first]
    decide
  have hfresh := (Console.browses_iff (hs _) ⟨hshell, hfirst, hflag⟩ (by
    rw [hlast.length]
    decide) (by
    rw [show (p.1.console.term p.1.console.visibleTerminal).currentBufIndex = 1 from hcopy]
    decide)).mp hbrowse
  have hstop : (1 : Int) = 0 := hcopy.symm.trans (hfresh.stop.trans hend)
  exact absurd hstop (by decide)

end Kernel

end Ext2Kernel
