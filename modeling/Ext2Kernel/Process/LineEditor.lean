import Ext2Kernel.Console.LineIndices
import Ext2Kernel.Process.ScreenRuns

set_option autoImplicit false

/-! # The line editor over runs of the kernel

Three counters describe the place of the cursor in the line: the index of the cursor, the end
of the line, and the distance of the cursor from the right end. The handler and the reader
update them separately. They agree after a step exactly if they agreed before and the step is
none of three: a left arrow that `left_arrow` refuses, Ctrl+L with the cursor inside the line,
and a read that puts characters back while the cursor is inside the line.
-/

namespace Ext2Kernel

open ByteMem

namespace LineIdx

/-- The three counters agree. -/
def Coherent (l : LineIdx) : Prop := l.cursor + l.distance = l.stop ∧ 0 ≤ l.distance

instance (l : LineIdx) : Decidable l.Coherent := inferInstanceAs (Decidable (_ ∧ _))

theorem Coherent.toEnd {l : LineIdx} (h : l.Coherent) (n : Int) : (l.toEnd n).Coherent := by
  obtain ⟨_, hdist⟩ := h
  unfold LineIdx.toEnd Coherent
  dsimp only
  omega

theorem Coherent.erase {l : LineIdx} (h : l.Coherent) : l.erase.Coherent := by
  obtain ⟨hsum, hdist⟩ := h
  unfold LineIdx.erase
  split
  · unfold Coherent
    dsimp only
    omega
  · split
    · unfold Coherent
      dsimp only
      omega
    · exact ⟨hsum, hdist⟩

theorem coherent_eraseAhead {l : LineIdx} (typing : Bool) :
    (l.eraseAhead typing).Coherent ↔ l.Coherent := by
  unfold eraseAhead
  split <;> exact Iff.rfl

/-- The left arrow keeps the counters in agreement exactly if the cursor moves on the screen,
too. -/
theorem coherent_left_iff {l : LineIdx} (h : l.Coherent) (r : Int) :
    (l.left r).Coherent ↔ (l.cursor > 0 → r = 1) := by
  obtain ⟨hsum, hdist⟩ := h
  unfold LineIdx.left
  split
  · unfold Coherent
    dsimp only
    omega
  · rename_i hcursor
    exact iff_of_true ⟨hsum, hdist⟩ fun hpos => absurd hpos hcursor

theorem Coherent.right {l : LineIdx} (h : l.Coherent) {r : Int} (hr : r = 0 ∨ r = 1)
    (hpos : l.distance > 0) : (l.right r).Coherent := by
  obtain ⟨hsum, _⟩ := h
  unfold LineIdx.right Coherent
  dsimp only
  omega

theorem coherent_clear_iff {l : LineIdx} : l.clear.Coherent ↔ l.distance = 0 := by
  unfold clear Coherent
  dsimp only
  omega

theorem Coherent.insert {l : LineIdx} (h : l.Coherent) : l.insert.Coherent := by
  obtain ⟨hsum, hdist⟩ := h
  unfold LineIdx.insert
  split
  · unfold Coherent
    dsimp only
    split_ifs <;> omega
  · exact ⟨hsum, hdist⟩

theorem coherent_enter (l : LineIdx) (shell : Bool) : (l.enter shell).Coherent := ⟨rfl, le_refl _⟩

theorem coherent_keepCurrent {l : LineIdx} (copies : Bool) :
    (l.keepCurrent copies).Coherent ↔ l.Coherent := by
  unfold keepCurrent
  split <;> exact Iff.rfl

theorem coherent_ahead {l : LineIdx} (stores : Bool) :
    (l.ahead stores).Coherent ↔ l.Coherent := by
  unfold ahead
  split <;> exact Iff.rfl

theorem coherent_replay_iff {l : LineIdx} (newline : Bool) :
    (l.replay newline).Coherent ↔ l.distance = 0 := by
  unfold replay Coherent
  dsimp only
  omega

end LineIdx

namespace Console

/-- The counters of every terminal agree. -/
def AllCoherent (c : Console) : Prop := ∀ t, (c.term t).lineIdx.Coherent

/-- The key keeps the counters in agreement: a left arrow moves the cursor on the screen, and
Ctrl+L finds the cursor at the right end of the line. -/
def KeyCoherent (c : Console) (pressed : Nat) : Prop :=
  let s := c.term c.visibleTerminal
  (pressed = LEFT_ARROW_PRESSED ∧ s.shellFlag ∧ s.keyboardCursorIdx > 0 → c.LeftMoves) ∧
    (s.controlOn ∧ pressed = L_SCANCODE → s.distanceFromRight = 0)

/-- The visible terminal after a plain key. -/
theorem coherent_keyLine_iff {c : Console} (h : (c.term c.visibleTerminal).lineIdx.Coherent)
    (pressed : Nat) : (c.keyLine pressed).Coherent ↔ c.KeyCoherent pressed := by
  -- A key that is neither the left arrow nor L meets the guard.
  have hfree : pressed ≠ LEFT_ARROW_PRESSED → pressed ≠ L_SCANCODE → c.KeyCoherent pressed :=
    fun hl hc => ⟨fun hk => absurd hk.1 hl, fun hk => absurd hk.2 hc⟩
  unfold keyLine
  dsimp only
  by_cases hup : pressed = UP_ARROW_PRESSED
  · subst hup
    rw [if_pos rfl]
    refine iff_of_true ?_ (hfree (by decide) (by decide))
    split
    · exact h.toEnd _
    · exact h
  rw [if_neg hup]
  by_cases hdown : pressed = DOWN_ARROW_PRESSED
  · subst hdown
    rw [if_pos rfl]
    refine iff_of_true ?_ (hfree (by decide) (by decide))
    split
    · exact h.toEnd _
    · exact h
  rw [if_neg hdown]
  by_cases hback : pressed = BACKSPACE
  · subst hback
    rw [if_pos rfl, LineIdx.coherent_eraseAhead]
    exact iff_of_true h.erase (hfree (by decide) (by decide))
  rw [if_neg hback]
  by_cases hleft : pressed = LEFT_ARROW_PRESSED ∧ (c.term c.visibleTerminal).shellFlag
  · obtain ⟨rfl, hshell⟩ := hleft
    rw [if_pos ⟨rfl, hshell⟩, leftArrow_snd, LineIdx.coherent_left_iff h]
    constructor
    · intro hmove
      refine ⟨fun hk => ?_, fun hk => absurd hk.2 (by decide)⟩
      by_contra hstuck
      have hone := hmove hk.2.2
      rw [if_neg hstuck] at hone
      cases hone
    · intro hk hpos
      rw [if_pos (hk.1 ⟨rfl, hshell, hpos⟩)]
  rw [if_neg hleft]
  have hnotLeft : ¬ (pressed = LEFT_ARROW_PRESSED ∧ (c.term c.visibleTerminal).shellFlag
      ∧ (c.term c.visibleTerminal).keyboardCursorIdx > 0) := fun hk => hleft ⟨hk.1, hk.2.1⟩
  split
  · rename_i hright
    refine iff_of_true (h.right c.rightArrow_return hright.2.1) (hfree ?_ ?_)
    · rw [hright.1]
      decide
    · rw [hright.1]
      decide
  · split
    · rename_i hctrl
      rw [LineIdx.coherent_clear_iff]
      exact ⟨fun hdist => ⟨fun hk => absurd hk hnotLeft, fun _ => hdist⟩, fun hk => hk.2 hctrl⟩
    · rename_i hctrl
      have hkey : c.KeyCoherent pressed :=
        ⟨fun hk => absurd hk hnotLeft, fun hk => absurd hk hctrl⟩
      split
      · exact iff_of_true h hkey
      · split
        · rw [LineIdx.coherent_ahead, LineIdx.coherent_keepCurrent]
          exact iff_of_true (LineIdx.coherent_enter ..) hkey
        · rw [LineIdx.coherent_ahead, LineIdx.coherent_keepCurrent]
          exact iff_of_true h.insert hkey

/-- A modifier or a terminal switch meets the guard. -/
theorem keyCoherent_of_not_plain {c : Console} {pressed : Nat} (h : ¬ c.Plain pressed) :
    c.KeyCoherent pressed := by
  refine ⟨fun hk => ?_, fun hk => ?_⟩
  · rw [hk.1] at h
    exact absurd ⟨by decide, fun _ => by decide⟩ h
  · rw [hk.2] at h
    exact absurd ⟨by decide, fun _ => by decide⟩ h

theorem allCoherent_keyboardInterrupt_iff {c c' : Console} {scancode : UInt8}
    (hs : AllOnScreen c) (hc : AllCoherent c) (h : c.keyboardInterrupt scancode = some c') :
    AllCoherent c' ↔ c.KeyCoherent scancode.toNat := by
  by_cases hp : c.Plain scancode.toNat
  · have hv := keyboardInterrupt_lineIdx hp h
    rw [← coherent_keyLine_iff (hc _), ← hv]
    refine ⟨fun hall => hall _, fun hvis t => ?_⟩
    by_cases ht : t = c.visibleTerminal
    · rw [ht]
      exact hvis
    · rw [keyboardInterrupt_lineIdx_ne (hs _) h fun heq => absurd heq ht]
      exact hc t
  · refine iff_of_true (fun t => ?_) (keyCoherent_of_not_plain hp)
    rw [keyboardInterrupt_lineIdx_ne (hs _) h fun _ => hp]
    exact hc t

/-- A read that puts characters back finds the cursor at the right end of the line. -/
def ReadCoherent (c : Console) : Prop :=
  replays (c.term c.processTerminal) = true → (c.term c.processTerminal).distanceFromRight = 0

theorem allCoherent_readTerminalStart_iff {c c' : Console} (hc : AllCoherent c)
    (h : c.readTerminalStart = some c') : AllCoherent c' ↔ c.ReadCoherent := by
  have hline := readTerminalStart_lineIdx h
  constructor
  · intro hall hr
    have hcoh := hall c.processTerminal
    rw [hline, if_pos ⟨rfl, hr⟩, LineIdx.coherent_replay_iff] at hcoh
    exact hcoh
  · intro hread t
    rw [hline]
    split
    · rename_i hr
      rw [LineIdx.coherent_replay_iff]
      obtain ⟨rfl, hr⟩ := hr
      exact hread hr
    · exact hc t

/-- Output and flags keep what only depends on the line. -/
theorem Background.keeps {α : Type} {f : TermState → α} (hline : ∀ s s', SameLine s s' → f s' = f s)
    (hshell : ∀ (s : TermState) (b : Bool), f { s with shellFlag := b } = f s)
    (htyped : ∀ s : TermState, f { s with typingDuringProgFlag := false } = f s)
    {c c' : Console} (h : Background c c') (t : Terminal) : f (c'.term t) = f (c.term t) := by
  have hmodify : ∀ (c : Console) (u : Terminal) {g : TermState → TermState},
      (∀ s, f (g s) = f s) → f ((c.modify u g).term t) = f (c.term t) := by
    intro c u g hg
    by_cases hu : t = u
    · rw [hu, modify_term_self, hg]
    · rw [modify_term_ne _ _ _ hu]
  induction h with
  | refl => rfl
  | print l _ ih => rw [hline _ _ (putcs_sameLine ..), ih]
  | store video _ ih => exact ih
  | schedule u _ ih => exact ih
  | shells b _ ih => exact ih
  | shell u b _ ih => exact (hmodify _ _ fun s => hshell s b).trans ih
  | typed u _ ih => exact (hmodify _ _ htyped).trans ih

theorem Background.lineIdx {c c' : Console} (h : Background c c') (t : Terminal) :
    (c'.term t).lineIdx = (c.term t).lineIdx :=
  h.keeps (fun _ _ hs => sameLine_lineIdx hs) (fun _ _ => rfl) (fun _ => rfl) t

theorem Background.notInPrevCmdFlag {c c' : Console} (h : Background c c') :
    c'.notInPrevCmdFlag = c.notInPrevCmdFlag := by
  induction h with
  | refl => rfl
  | print l _ ih => exact (drawn_putcs _ l).notInPrevCmdFlag.trans ih
  | store _ _ ih => exact ih
  | schedule _ _ ih => exact ih
  | shells _ _ ih => exact ih
  | shell _ _ _ ih => exact ih
  | typed _ _ ih => exact ih

theorem Background.behindScancodes {c c' : Console} (h : Background c c') :
    c'.behindScancodes = c.behindScancodes := by
  induction h with
  | refl => rfl
  | print l _ ih => exact (drawn_putcs _ l).behindScancodes.trans ih
  | store _ _ ih => exact ih
  | schedule _ _ ih => exact ih
  | shells _ _ ih => exact ih
  | shell _ _ _ ih => exact ih
  | typed _ _ ih => exact ih

end Console

namespace Kernel

open Console (AllCoherent AllOnScreen)

/-! ## Events -/

/-- The call reads the terminal: it reaches `_sys_read_terminal`. -/
def ReadsTerminal (k : Kernel) (fd : Int) (bufNull : Bool) (nbytes : Int) : Prop :=
  ¬ (nbytes ≤ 0 ∨ bufNull ∨ fd < 0 ∨ fd > MAX_FD_IDX) ∧ ∃ p, k.cur = some p ∧
    ((k.pcb p).fileDescArray (fdIdx fd)).flags ≠ 0 ∧
    ((k.pcb p).fileDescArray (fdIdx fd)).fileOpsTable = some .stdIn

theorem sysRead_terminal {fs : FileSys} {k k' : Kernel} {stack : Mem} {fd nbytes : Int}
    {bufNull : Bool} {r : ReadOutcome} (h : k.sysRead fs stack fd bufNull nbytes = some (r, k'))
    (hterm : k.ReadsTerminal fd bufNull nbytes) :
    k.console.readTerminalStart = some k'.console := by
  obtain ⟨hgood, p, hp, hflags, hops⟩ := hterm
  unfold sysRead at h
  rw [if_neg hgood, hp, Option.bind_some] at h
  dsimp only at h
  rw [if_neg hflags, hops, Option.bind_some] at h
  obtain ⟨c, hc, heq⟩ := Option.map_eq_some_iff.mp h
  cases heq
  exact hc

theorem sysRead_not_terminal {fs : FileSys} {k k' : Kernel} {stack : Mem} {fd nbytes : Int}
    {bufNull : Bool} {r : ReadOutcome} (h : k.sysRead fs stack fd bufNull nbytes = some (r, k'))
    (hterm : ¬ k.ReadsTerminal fd bufNull nbytes) : k'.console = k.console := by
  unfold sysRead at h
  split at h
  · cases h; rfl
  · rename_i hgood
    obtain ⟨p, hp, h⟩ := Option.bind_eq_some_iff.mp h
    dsimp only at h
    split at h
    · cases h; rfl
    · rename_i hflags
      obtain ⟨ops, hops, hread⟩ := Option.bind_eq_some_iff.mp h
      cases ops with
      | stdIn => exact absurd ⟨hgood, p, hp, hflags, hops⟩ hterm
      | stdOut => cases hread; rfl
      | rtc =>
          obtain ⟨k₁, hk₁, heq⟩ := Option.map_eq_some_iff.mp hread
          cases heq
          exact modifyCur_console hk₁
      | file =>
          cases hread
          unfold sysReadFile
          dsimp only
          split <;> rfl
      | dir =>
          cases hread
          unfold sysReadDirectory
          dsimp only
          split <;> rfl

/-- The event keeps the counters in agreement. -/
def KeepsCoherence (k : Kernel) : Event → Prop
  | .keyboard scancode => k.console.KeyCoherent scancode.toNat
  | .read _ fd bufNull nbytes => k.ReadsTerminal fd bufNull nbytes → k.console.ReadCoherent
  | _ => True

theorem step_coherent_iff {fs : FileSys} {k k' : Kernel} {e : Event}
    (hs : AllOnScreen k.console) (hk : AllCoherent k.console) (h : step fs k e = some k') :
    AllCoherent k'.console ↔ KeepsCoherence k e := by
  have hc := step_console h
  cases e with
  | keyboard scancode => exact Console.allCoherent_keyboardInterrupt_iff hs hk hc
  | read stack fd bufNull nbytes =>
      obtain ⟨⟨r, k₁⟩, hr, rfl⟩ := Option.map_eq_some_iff.mp h
      by_cases hterm : k.ReadsTerminal fd bufNull nbytes
      · have hstart := sysRead_terminal hr hterm
        rw [Console.allCoherent_readTerminalStart_iff hk hstart]
        exact ⟨fun hread _ => hread, fun hread => hread hterm⟩
      · have hsame : k₁.console = k.console := sysRead_not_terminal hr hterm
        refine iff_of_true ?_ fun hread => absurd hread hterm
        show AllCoherent k₁.console
        rw [hsame]
        exact hk
  | switch n =>
      refine iff_of_true (fun t => ?_) trivial
      rw [show k'.console = k.console.switchTerminal n from hc, Console.switchTerminal_term]
      exact hk t
  | _ =>
      refine iff_of_true (fun t => ?_) trivial
      rw [Console.Background.lineIdx hc]
      exact hk t

/-- **Line-editor coherence.** In every run of the kernel the cursor index and the distance from
the right end add up to the end of the line, for every terminal and in every state, exactly if
every left arrow that moves the index moves the cursor, and every Ctrl+L and every read that
puts characters back find the cursor at the right end of the line. -/
theorem coherent_iff_keepsCoherence {fs : FileSys} {m : BootMemory} {k : Kernel}
    {es : List Event} (hrun : StepSystem.run (step fs) (boot m) es = some k) :
    StepSystem.Along (step fs) (fun k => ∀ t,
      (k.console.term t).keyboardCursorIdx + (k.console.term t).distanceFromRight
        = (k.console.term t).keyboardBufferEndIdx ∧ 0 ≤ (k.console.term t).distanceFromRight)
      (boot m) es ↔ StepSystem.Guarded (step fs) KeepsCoherence (boot m) es := by
  refine StepSystem.along_iff_guarded (P := fun k : Kernel => AllOnScreen k.console)
    (Q := fun k : Kernel => AllCoherent k.console) ?_ ?_ hrun ?_ ?_
  · exact fun _ _ _ hs hstep => step_allOnScreen hs hstep
  · exact fun _ _ _ hs hk hstep => step_coherent_iff hs hk hstep
  · exact fun _ => Console.onScreen_boot
  · exact fun _ => ⟨rfl, le_refl _⟩

/-- On the small image the first shell is shown, `ab` is typed and the cursor goes left. -/
def leftRun : List Event :=
  [.pit zeroFrame, .switch 1, .keyboard 0x1E, .keyboard 0x30, .keyboard 0x4B]

theorem coherent_iff_keepsCoherence_left : ∃ k,
    StepSystem.run (step sampleImage) (boot zeroMemory) leftRun = some k ∧
    (StepSystem.Along (step sampleImage) (fun k => ∀ t,
      (k.console.term t).keyboardCursorIdx + (k.console.term t).distanceFromRight
        = (k.console.term t).keyboardBufferEndIdx ∧ 0 ≤ (k.console.term t).distanceFromRight)
      (boot zeroMemory) leftRun ↔
        StepSystem.Guarded (step sampleImage) KeepsCoherence (boot zeroMemory) leftRun) := by
  obtain ⟨k, hk⟩ := Option.isSome_iff_exists.mp (show (StepSystem.run (step sampleImage)
    (boot zeroMemory) leftRun).isSome = true by decide +kernel)
  exact ⟨k, hk, coherent_iff_keepsCoherence hk⟩

/-- Ctrl+L with the cursor inside the line. -/
theorem ctrlL_not_coherent : ¬ ∀ (fs : FileSys) (k : Kernel) (t : Terminal), Reachable fs k →
    (k.console.term t).keyboardCursorIdx + (k.console.term t).distanceFromRight
      = (k.console.term t).keyboardBufferEndIdx ∧ 0 ≤ (k.console.term t).distanceFromRight := by
  intro hall
  obtain ⟨k, hk⟩ := Option.isSome_iff_exists.mp (show (StepSystem.run (step sampleImage)
    (boot zeroMemory) (leftRun ++ [.keyboard 0x1D, .keyboard 0x26])).isSome = true by
      decide +kernel)
  have hidx : (StepSystem.run (step sampleImage) (boot zeroMemory)
      (leftRun ++ [.keyboard 0x1D, .keyboard 0x26])).map
        (fun k => (k.console.term 1).lineIdx) = some ⟨0, 0, 1, 1, 0, 2⟩ := by decide +kernel
  rw [hk] at hidx
  have hcoh : (k.console.term 1).lineIdx.Coherent := hall sampleImage k 1 ⟨zeroMemory, _, hk⟩
  rw [show (k.console.term 1).lineIdx = ⟨0, 0, 1, 1, 0, 2⟩ from Option.some.inj hidx] at hcoh
  exact absurd hcoh (by decide)

end Kernel

end Ext2Kernel
