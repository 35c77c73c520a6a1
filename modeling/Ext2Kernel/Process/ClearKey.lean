import Ext2Kernel.Console.ShellEditor
import Ext2Kernel.Process.ArrowRuns
import Ext2Kernel.Process.CommandHistory

set_option autoImplicit false

/-! # Ctrl+L and the read after it

Ctrl+L on a shell saves the line up to the cursor, empties the row and wakes the pending read; the
next read of the shell puts the saved characters back, with the cursor and the right end behind
them (`putBackAfter`). This restores the line exactly if the cursor was at its right end and no
newline was in it. What is typed afterwards is then edited as it would have been
(`Runs.pair_run`), if the down arrow has the line to put back in both cases.
-/

namespace Ext2Kernel

open ByteMem

/-! ## The variables of the terminal -/

namespace TermState

/-- The variables after Ctrl+L. -/
def clearedKey (s : TermState) : TermState :=
  { s with
    tempKbdBuf := Console.freshCopy s.keyboardBuffer s.keyboardCursorIdx
    tempKbdIdx := s.keyboardCursorIdx
    sysReadFlag := false
    echoFlag := true
    reEchoFlag := true
    keyboardCursorIdx := 0
    keyboardBufferEndIdx := 0
    keyboardBuffer := overlay s.keyboardBuffer 0 KEYBOARD_BUFFER_SIZE fun _ => 0 }

/-- The variables after the start of a read that puts saved characters back. -/
def replayedRead (s : TermState) (behind : UInt8) : TermState :=
  { Console.endReplay (Console.restoreLine (Console.clearLine s)) behind with sysReadFlag := true }

/-- The variables after Ctrl+L and the next read. -/
def reread (s : TermState) : TermState :=
  s.clearedKey.replayedRead (if 10 ∈ Console.held s then 10 else 0)

section

variable (s : TermState)

@[simp] theorem reread_cursor : s.reread.keyboardCursorIdx = s.reread.keyboardBufferEndIdx := by
  unfold reread replayedRead Console.endReplay
  rfl

@[simp] theorem reread_copied : s.reread.currentBufIndex = s.reread.keyboardBufferEndIdx := by
  unfold reread replayedRead Console.endReplay
  rfl

@[simp] theorem reread_distance : s.reread.distanceFromRight = s.distanceFromRight := by
  unfold reread replayedRead Console.endReplay Console.restoreLine Console.clearLine clearedKey
  rfl

@[simp] theorem reread_lastCommand : s.reread.lastCommand = s.lastCommand := by
  unfold reread replayedRead Console.endReplay Console.restoreLine Console.clearLine clearedKey
  unfold lastCommand
  rfl

@[simp] theorem reread_modifiers : s.reread.modifiers = s.modifiers := by
  unfold reread replayedRead Console.endReplay Console.restoreLine Console.clearLine clearedKey
  unfold modifiers
  rfl

@[simp] theorem reread_shellFlag : s.reread.shellFlag = s.shellFlag := by
  unfold reread replayedRead Console.endReplay Console.restoreLine Console.clearLine clearedKey
  rfl

theorem reread_stop : s.reread.keyboardBufferEndIdx =
    if 10 ∈ Console.held s then s.keyboardCursorIdx - 1 else s.keyboardCursorIdx := by
  unfold reread replayedRead Console.endReplay
  by_cases h : 10 ∈ Console.held s
  · simp only [if_pos h, if_true]
    rfl
  · simp only [if_neg h]
    rfl

theorem reread_stop_le : s.reread.keyboardBufferEndIdx.toNat ≤ s.keyboardCursorIdx.toNat := by
  rw [reread_stop]
  split <;> omega

/-- What the replay stores at the start of a row. -/
theorem map_range_freshCopy (m row : Mem) {cursor : Int} {n : Nat} (h : n ≤ cursor.toNat) :
    (List.range n).map (overlay m 0 cursor.toNat (Console.freshCopy row cursor))
      = ((List.range cursor.toNat).map row).take n := by
  calc (List.range n).map (overlay m 0 cursor.toNat (Console.freshCopy row cursor))
      = ((List.range cursor.toNat).map
          (overlay m 0 cursor.toNat (Console.freshCopy row cursor))).take n := by
        rw [← List.map_take, List.take_range, Nat.min_eq_left h]
    _ = ((List.range cursor.toNat).map (Console.freshCopy row cursor)).take n := by
        rw [map_range_overlay]
    _ = ((List.range cursor.toNat).map row).take n := by
        unfold Console.freshCopy
        rw [map_range_overlay]

theorem reread_lineChars :
    s.reread.lineChars = (Console.held s).take s.reread.keyboardBufferEndIdx.toNat :=
  map_range_freshCopy _ _ s.reread_stop_le

theorem reread_currentChars : s.reread.currentChars = s.reread.lineChars := by
  rw [reread_lineChars]
  exact map_range_freshCopy _ _ s.reread_stop_le

/-- With the cursor behind the line, the line up to the cursor is all of it. -/
theorem held_of_atEnd {s : TermState} (h : s.keyboardCursorIdx = s.keyboardBufferEndIdx) :
    Console.held s = s.lineChars := by
  unfold Console.held lineChars
  rw [h]

/-- **The line after Ctrl+L and the next read.** It is the same exactly if the cursor was behind
the line, and the line had no newline in it. -/
theorem reread_line_iff {s : TermState} (h : s.keyboardCursorIdx ≤ s.keyboardBufferEndIdx) :
    s.reread.lineChars = s.lineChars ∧ s.reread.keyboardBufferEndIdx = s.keyboardBufferEndIdx ↔
      s.keyboardCursorIdx = s.keyboardBufferEndIdx ∧ 10 ∉ s.lineChars := by
  constructor
  · rintro ⟨-, hstop⟩
    rw [reread_stop] at hstop
    by_cases hnewline : 10 ∈ Console.held s
    · rw [if_pos hnewline] at hstop
      omega
    · rw [if_neg hnewline] at hstop
      rw [held_of_atEnd hstop] at hnewline
      exact ⟨hstop, hnewline⟩
  · rintro ⟨hcursor, hnewline⟩
    have hheld := held_of_atEnd hcursor
    have hstop : s.reread.keyboardBufferEndIdx = s.keyboardBufferEndIdx := by
      rw [reread_stop, hheld, if_neg hnewline, hcursor]
    refine ⟨?_, hstop⟩
    rw [reread_lineChars, hstop, hheld]
    exact List.take_of_length_le (by simp [lineChars])

end

end TermState

namespace Console

theorem overlay_overlay (m : Mem) (a n : Nat) (f g : Mem) :
    overlay (overlay m a n f) a n g = overlay m a n g := by
  funext x
  unfold overlay
  split <;> rfl

/-- Ctrl+L is no other key of the handler. -/
theorem keyboardInterrupt_clear {c : Console} {scancode : UInt8}
    (hctrl : (c.term c.visibleTerminal).controlOn = true) (hp : scancode.toNat = L_SCANCODE) :
    c.keyboardInterrupt scancode = ctrlL { c with putcToVisibleFlag := true } := by
  rw [keyboardInterrupt_eq, hp, if_neg (by decide), if_neg (by decide)]
  unfold afterArrows
  dsimp only
  rw [if_neg (by decide), if_neg fun hk => absurd hk.1 (by decide),
    if_neg fun hk => absurd hk.1 (by decide), modifierKey_eq_none _ (by decide)]
  have hswitch : (if (c.term c.visibleTerminal).altOn = true then switchKey L_SCANCODE else none)
      = none := by
    split
    · rfl
    · rfl
  rw [hswitch]
  unfold lineKey
  exact if_pos ⟨hctrl, rfl⟩

theorem ctrlL_sameLine {c c' : Console} (h : c.ctrlL = some c') :
    SameLine (c.term c.visibleTerminal).clearedKey (c'.term c.visibleTerminal) ∧
      c'.visibleTerminal = c.visibleTerminal ∧ c'.behindScancodes = c.behindScancodes := by
  unfold ctrlL at h
  dsimp only at h
  split at h
  · cases h
    refine ⟨?_, rfl, rfl⟩
    rw [leave_term, modify_term_self, clear_term, modify_term_self]
    unfold TermState.clearedKey SameLine
    dsimp only
    congr 1
    split
    · exact (overlay_overlay ..).symm
    · rfl
  · cases h

/-- The start of a read that puts saved characters back. -/
theorem readTerminalStart_replays {c c' : Console} (h : c.readTerminalStart = some c')
    (hr : replays (c.term c.processTerminal) = true) :
    SameLine ((c.term c.processTerminal).replayedRead c.replayByte)
      (c'.term c.processTerminal) := by
  rcases readTerminalStart_cases h with ⟨hfalse, _⟩ | ⟨_, _, rfl⟩
  · exact absurd (hfalse.symm.trans hr) Bool.false_ne_true
  · have hout := putcs_sameLine ((c.modify c.processTerminal clearLine).modify c.processTerminal
      restoreLine) (replayed (c.term c.processTerminal)) c.processTerminal
    rw [modify_term_self, modify_term_self] at hout
    rw [modify_term_self, modify_term_self]
    unfold TermState.replayedRead
    generalize restoreLine (clearLine (c.term c.processTerminal)) = s at hout
    unfold SameLine at hout ⊢
    generalize s.screenX = x, s.screenY = y, s.forwardNext = f, s.backwardNext = b at hout
    subst hout
    rfl

theorem kept_replayedRead (s : TermState) (behind : UInt8) :
    (s.replayedRead behind).kept = s.kept.replayedRead behind := rfl

/-- A scan for a newline that ends early has found one. -/
theorem length_takeWhile_lt_iff {l : List UInt8} :
    (l.takeWhile (· ≠ 10)).length < l.length ↔ 10 ∈ l := by
  have hle := (List.takeWhile_prefix (l := l) fun b => decide (b ≠ 10)).length_le
  rw [← not_iff_not, Nat.not_lt]
  constructor
  · intro h hmem
    have heq := (List.takeWhile_prefix (l := l) fun b => decide (b ≠ 10)).eq_of_length_le h
    have hne := List.takeWhile_eq_self_iff.mp heq 10 hmem
    exact absurd hne (by decide)
  · intro hmem
    refine Nat.le_of_eq (congrArg List.length (List.takeWhile_eq_self_iff.mpr fun b hb => ?_).symm)
    refine decide_eq_true ?_
    rintro rfl
    exact hmem hb

/-- **The start of the read after Ctrl+L**, when nothing else has been done to the terminal. -/
theorem readTerminalStart_clearedKey {c c' : Console} {s : TermState}
    (h : c.readTerminalStart = some c')
    (hkept : (c.term c.processTerminal).kept = s.clearedKey.kept)
    (hfits : s.keyboardCursorIdx ≤ 127) :
    (c'.term c.processTerminal).kept = s.reread.kept ∧
      (c'.term c.processTerminal).shellFlag = (c.term c.processTerminal).shellFlag := by
  have hecho := congrArg TermState.reEchoFlag hkept
  have htemp := congrArg TermState.tempKbdIdx hkept
  have hbuf := congrArg TermState.tempKbdBuf hkept
  change (c.term c.processTerminal).reEchoFlag = true at hecho
  change (c.term c.processTerminal).tempKbdIdx = s.keyboardCursorIdx at htemp
  change (c.term c.processTerminal).tempKbdBuf = freshCopy s.keyboardBuffer s.keyboardCursorIdx
    at hbuf
  have hr : replays (c.term c.processTerminal) = true := by
    unfold replays
    rw [hecho, Bool.true_or]
  have hsaved : saved (c.term c.processTerminal) = held s := by
    unfold saved held freshCopy at *
    rw [htemp, hbuf, TermState.map_range_overlay]
  have hreplayed : replayed (c.term c.processTerminal) = (held s).takeWhile (· ≠ 10) := by
    rw [← hsaved]
    rfl
  have hlen : (held s).length = (c.term c.processTerminal).tempKbdIdx.toNat := by
    rw [← hsaved, length_saved]
  have hbyte : c.replayByte = 10 ↔ 10 ∈ held s := by
    rw [replayByte_eq_iff, hreplayed, ← hlen, length_takeWhile_lt_iff]
    have hle := length_replayed_le (c.term c.processTerminal)
    unfold KEYBOARD_BUFFER_SIZE
    omega
  have hline := readTerminalStart_replays h hr
  have hshell : (c'.term c.processTerminal).shellFlag
      = (c.term c.processTerminal).shellFlag := by
    unfold SameLine at hline
    exact (congrArg TermState.shellFlag hline).symm
  refine ⟨?_, hshell⟩
  rw [kept_sameLine hline, kept_replayedRead, hkept]
  show (s.clearedKey.replayedRead c.replayByte).kept = _
  unfold TermState.reread TermState.replayedRead endReplay
  by_cases hmem : 10 ∈ held s
  · simp only [if_pos hmem, if_pos (hbyte.mpr hmem), if_true]
  · simp only [if_neg hmem, if_neg fun hb => hmem (hbyte.mp hb)]
    rfl

end Console

/-! ## The line that Enter hands over -/

namespace Console

/-- A read stops at the newline behind an ended line, or before. -/
theorem Ended.line {s : TermState} {l : List UInt8} (h : Ended s l) (n : Nat) :
    line s.keyboardBuffer n = (l.take n).takeWhile fun b => b ≠ 0 ∧ b ≠ 10 := by
  unfold Console.line
  rcases Nat.le_total n l.length with hle | hle
  · rw [← h.text, ← List.map_take, List.take_range, Nat.min_eq_left hle]
  · rw [List.take_of_length_le hle]
    rcases Nat.eq_or_lt_of_le hle with heq | hlt
    · rw [← heq, h.text]
    -- the cells of the row are those of the line, the newline and some more
    · obtain ⟨d, rfl⟩ := Nat.exists_eq_add_of_lt hlt
      have hcells : (List.range (l.length + d + 1)).map s.keyboardBuffer
          = l ++ 10 :: (List.range d).map fun i => s.keyboardBuffer (l.length + (i + 1)) := by
        rw [Nat.add_assoc, List.range_add, List.map_append, h.text, List.range_succ_eq_map]
        simp only [List.map_cons, List.map_map, Nat.add_zero, h.newline]
        rfl
      rw [hcells, List.takeWhile_append]
      split
      · rename_i hall
        have hpre := List.takeWhile_prefix (l := l) fun b => decide (b ≠ 0 ∧ b ≠ 10)
        rw [hpre.eq_of_length hall]
        exact List.append_nil l
      · rfl

end Console

namespace Kernel

open Console (AllOnScreen)

/-- Whatever the kernel does before it resumes, the reader of terminal `t` returns the line that
`r` gives for its number of bytes. -/
def Hands (fs : FileSys) (t : Terminal) (k : Kernel) (r : Nat → List UInt8) : Prop :=
  ∀ after, StepSystem.Guarded (step fs) (ResumingEvent fs) k after →
    ∃ k', StepSystem.run (step fs) k after = some k' ∧
      (k'.processTerminal = t → ∀ n, k'.readTerminalFinish n = some (delivered (r n)))

section

variable {fs : FileSys} {k k' : Kernel}

theorem resumingEvent_undisturbed {e : Event} (he : ResumingEvent fs k e) :
    ∃ k', step fs k e = some k' ∧ Console.Undisturbed k.console k'.console := by
  cases e with
  | keyboard scancode => exact he.elim
  | _ => exact typingEvent_undisturbed he fun _ heq => nomatch heq

theorem resuming_undisturbed {es : List Event}
    (hes : StepSystem.Guarded (step fs) (ResumingEvent fs) k es) :
    ∃ k', StepSystem.run (step fs) k es = some k' ∧
      Console.Undisturbed k.console k'.console := by
  refine StepSystem.run_total_of_guarded (fun k₁ e hk₁ he => ?_) hes (.refl k.console)
  obtain ⟨k₂, hk₂, hstep⟩ := resumingEvent_undisturbed he
  exact ⟨k₂, hk₂, hk₁.trans hstep⟩

/-- A terminal whose reader has been woken hands over what is in its row. -/
theorem hands_row (hread : k.console.shown.sysReadFlag = false) :
    Hands fs k.visibleTerminal k (Console.line k.console.shown.keyboardBuffer) := by
  intro after hafter
  obtain ⟨k', hk', hsame⟩ := resuming_undisturbed hafter
  refine ⟨k', hk', fun hterm n => ?_⟩
  have hshown : k'.console.term k'.processTerminal = k'.console.shown :=
    congrArg k'.console.term (hterm.trans hsame.visible.symm)
  have hreading : k'.console.shown.sysReadFlag = false :=
    (congrArg LineText.reading hsame.text).trans hread
  have hrow : k'.console.shown.keyboardBuffer = k.console.shown.keyboardBuffer :=
    congrArg LineText.row hsame.text
  unfold readTerminalFinish
  rw [hshown, hreading, if_neg Bool.false_ne_true]
  unfold Console.readTerminalCopy delivered
  rw [show k'.console.term k'.console.processTerminal = k'.console.shown from hshown, hrow]

/-- The line of the shown terminal `t` is `l`, and Enter hands it to the reader. -/
structure Delivers (fs : FileSys) (t : Terminal) (k : Kernel) (l : List UInt8) : Prop where
  visible : k.visibleTerminal = t
  line : k.console.shown.lineChars = l
  stop : k.console.shown.keyboardBufferEndIdx = l.length
  enter : ∀ scancode : UInt8, scancode.toNat = ENTER_PRESSED →
    ∃ k', step fs k (.keyboard scancode) = some k' ∧
      Hands fs t k' fun n => (l.take n).takeWhile fun b => b ≠ 0 ∧ b ≠ 10

theorem delivers_of_runs {e : LineEditor} (h : e.Runs k.console) :
    Delivers fs k.visibleTerminal k e.line.text := by
  have hstop : k.console.shown.keyboardBufferEndIdx = e.line.text.length := h.shown.stop
  have htext := e.line.text_le
  refine ⟨rfl, h.shown.text, hstop, fun scancode hp => ?_⟩
  have hroom : 0 ≤ k.console.shown.keyboardBufferEndIdx ∧
      k.console.shown.keyboardBufferEndIdx < KEYBOARD_BUFFER_SIZE := by
    unfold KEYBOARD_BUFFER_SIZE
    omega
  have hchar : k.console.HasChar scancode.toNat := hp ▸ k.console.hasChar_enter
  have hc' := Console.keyboardInterrupt_enter_eq hp hroom.1 hroom.2
  have hline := Console.enter_lineText hchar hp hc' hroom
  have hv := Console.plain_visible (h.onScreen _) hchar.1 hc'
  have hstep : Kernel.step fs k (.keyboard scancode) = some { k with console := _ } :=
    Option.map_eq_some_iff.mpr ⟨_, hc', rfl⟩
  generalize (Console.finish _ k.console.visibleTerminal 10).leave = c' at *
  have hshown : c'.shown = c'.term k.console.visibleTerminal := congrArg c'.term hv
  rw [← hshown] at hline
  have hrow : c'.shown.keyboardBuffer
      = Function.update k.console.shown.keyboardBuffer e.line.text.length 10 := by
    rw [show e.line.text.length = k.console.shown.keyboardBufferEndIdx.toNat by omega]
    exact congrArg LineText.row hline
  have hended : Console.Ended c'.shown e.line.text := by
    constructor
    · rw [hrow, Overtype.map_range_update_of_le _ (Nat.le_refl _)]
      exact h.shown.row
    · rw [hrow, Function.update_self]
  refine ⟨_, hstep, ?_⟩
  have hhands : Hands fs (Kernel.visibleTerminal { k with console := c' })
      { k with console := c' } (Console.line c'.shown.keyboardBuffer) :=
    hands_row (congrArg LineText.reading hline)
  rw [show Kernel.visibleTerminal { k with console := c' } = k.visibleTerminal from hv,
    show Console.line _ = _ from funext hended.line] at hhands
  exact hhands

end

end Kernel

/-! ## Two terminals that run the same editor -/

namespace Console

/-- A key of the line editor on two consoles. A right arrow moves the cursor on both screens or
on neither. -/
structure ContinuesKey (c₁ c₂ : Console) (pressed : Nat) : Prop where
  first : c₁.EditorKey pressed
  second : c₂.EditorKey pressed
  right : pressed = RIGHT_ARROW_PRESSED → c₁.CallsRight → (c₁.RightMoves ↔ c₂.RightMoves)

theorem shifted_congr {s s' : TermState} (h : s'.modifiers = s.modifiers) (pressed : Nat) :
    shifted s' pressed = shifted s pressed := by
  have hshift : s'.shiftOn = s.shiftOn := congrArg Modifiers.shift h
  have hcaps : s'.capsLockOn = s.capsLockOn := congrArg Modifiers.caps h
  unfold shifted
  rw [hshift, hcaps]

theorem outputChar_congr {c₁ c₂ : Console} (hmod : c₂.shown.modifiers = c₁.shown.modifiers)
    (hbehind : c₂.behindScancodes = c₁.behindScancodes) (pressed : Nat) :
    c₂.outputChar pressed = c₁.outputChar pressed := by
  unfold shown at hmod
  unfold outputChar
  dsimp only
  rw [shifted_congr hmod, hbehind]

end Console

namespace LineEditor

open Console (AllOnScreen)

variable {e : LineEditor}

theorem RunsOn.of_kept {s s' : TermState} (h : e.RunsOn s) (hkept : s'.kept = s.kept)
    (hshell : s'.shellFlag = true) : e.RunsOn s' where
  shell := hshell
  text := (congrArg TermState.lineChars hkept).trans h.text
  stop := (congrArg TermState.keyboardBufferEndIdx hkept).trans h.stop
  cursor := (congrArg TermState.keyboardCursorIdx hkept).trans h.cursor
  distance := (congrArg TermState.distanceFromRight hkept).trans h.distance
  copy := (congrArg TermState.currentChars hkept).trans h.copy
  copied := (congrArg TermState.currentBufIndex hkept).trans h.copied
  last := h.last.trans_eq (congrArg TermState.lastBufIndex hkept).symm
  silent := by
    have hbuf := congrArg TermState.lastBuf hkept
    change s'.lastBuf = s.lastBuf at hbuf
    rw [hbuf]
    exact h.silent
  command := by
    have hbuf := congrArg TermState.lastBuf hkept
    have hidx := congrArg TermState.lastBufIndex hkept
    have hchars := congrArg TermState.lastChars hkept
    change s'.lastBuf = s.lastBuf at hbuf
    change s'.lastBufIndex = s.lastBufIndex at hidx
    change s'.lastChars = s.lastChars at hchars
    rw [hbuf, hidx, hchars]
    exact h.command
  modifiers := (congrArg TermState.modifiers hkept).trans h.modifiers

/-- What is done elsewhere does not matter, while the terminal still runs its shell. -/
theorem Runs.undisturbed {c c' : Console} (h : e.Runs c) (hs : AllOnScreen c')
    (hsame : Console.Undisturbed c c') (hshell : c'.shown.shellFlag = true) : e.Runs c' :=
  ⟨hs, hsame.fresh.trans h.fresh, h.shown.of_kept hsame.kept hshell⟩

/-- **A key means the same to both.** -/
theorem Runs.act_congr {c₁ c₂ : Console} (h₁ : e.Runs c₁) (h₂ : e.Runs c₂)
    (hbehind : c₂.behindScancodes = c₁.behindScancodes) {pressed : Nat}
    (hk : Console.ContinuesKey c₁ c₂ pressed) :
    e.act (c₂.action pressed) = e.act (c₁.action pressed) := by
  by_cases hright : pressed = RIGHT_ARROW_PRESSED
  · subst hright
    show e.act (.right (decide c₂.RightMoves)) = e.act (.right (decide c₁.RightMoves))
    by_cases hcalls : c₁.CallsRight
    · rw [decide_eq_decide.mpr (hk.right rfl hcalls)]
    · rw [act_right_atEnd (h₁.rest_eq_zero hcalls), act_right_atEnd (h₁.rest_eq_zero hcalls)]
  · have hmod : c₂.shown.modifiers = c₁.shown.modifiers :=
      h₂.shown.modifiers.trans h₁.shown.modifiers.symm
    have halt : c₂.shown.altOn = c₁.shown.altOn := congrArg Modifiers.alt hmod
    refine congrArg e.act ?_
    unfold Console.action
    unfold Console.shown at hmod halt
    dsimp only
    rw [if_neg hright, if_neg hright, hmod, halt, Console.outputChar_congr hmod hbehind]

/-- The same terminal is shown on both consoles and runs the editor. -/
structure RunsBoth (e : LineEditor) (t : Terminal) (c₁ c₂ : Console) : Prop where
  first : e.Runs c₁
  second : e.Runs c₂
  visible₁ : c₁.visibleTerminal = t
  visible₂ : c₂.visibleTerminal = t
  behindScancodes : c₂.behindScancodes = c₁.behindScancodes

/-- **One key on both.** -/
theorem RunsBoth.key {t : Terminal} {c₁ c₂ : Console} (h : e.RunsBoth t c₁ c₂) {scancode : UInt8}
    (hk : Console.ContinuesKey c₁ c₂ scancode.toNat) :
    ∃ a b, c₁.keyboardInterrupt scancode = some a ∧ c₂.keyboardInterrupt scancode = some b ∧
      (e.act (c₁.action scancode.toNat)).RunsBoth t a b := by
  obtain ⟨a, ha, hfirst⟩ := h.first.keyboardInterrupt hk.first
  obtain ⟨b, hb, hsecond⟩ := h.second.keyboardInterrupt hk.second
  rw [h.first.act_congr h.second h.behindScancodes hk] at hsecond
  exact ⟨a, b, ha, hb, hfirst.runs, hsecond.runs, hfirst.visible.trans h.visible₁,
    hsecond.visible.trans h.visible₂,
    hsecond.behindScancodes.trans (h.behindScancodes.trans hfirst.behindScancodes.symm)⟩

/-- The editor with the line of a terminal, the cursor behind it, and the same line for the down
arrow. -/
def atEndOf (s : TermState) (h : s.lineChars.length ≤ 127) (fresh : Bool) : LineEditor where
  line := .atEnd s.lineChars h
  copy := ⟨s.lineChars, h⟩
  command :=
    if hl : s.lastBuf 0 ≠ 0 ∧ s.lastChars.length ≤ 127 then some ⟨s.lastChars, hl.2⟩ else none
  fresh := fresh
  modifiers := s.modifiers

/-- `s'` has the line of `s`, with the cursor behind it, and its own copy of it. -/
structure HasLineOf (s s' : TermState) : Prop where
  text : s'.lineChars = s.lineChars
  stop : s'.keyboardBufferEndIdx = s.keyboardBufferEndIdx
  cursor : s'.keyboardCursorIdx = s'.keyboardBufferEndIdx
  distance : s'.distanceFromRight = 0
  copy : s'.CopyFresh
  last : s'.lastCommand = s.lastCommand
  modifiers : s'.modifiers = s.modifiers

theorem HasLineOf.runsOn {s s' : TermState} (h : HasLineOf s s') (hshell : s'.shellFlag = true)
    (hstop : 0 ≤ s.keyboardBufferEndIdx) (hlast : 0 ≤ s.lastBufIndex)
    (hle : s.lineChars.length ≤ 127) (fresh : Bool) : (atEndOf s hle fresh).RunsOn s' := by
  have hlen : s'.keyboardBufferEndIdx = s.lineChars.length := by
    unfold TermState.lineChars
    rw [h.stop, List.length_map, List.length_range, Int.toNat_of_nonneg hstop]
  have hbuf : s'.lastBuf = s.lastBuf := congrArg Prod.fst h.last
  have hidx : s'.lastBufIndex = s.lastBufIndex := congrArg Prod.snd h.last
  have hchars : s'.lastChars = s.lastChars := by
    unfold TermState.lastChars
    rw [hbuf, hidx]
  refine ⟨hshell, h.text, hlen, h.cursor.trans hlen, ?_, h.copy.text.trans h.text,
    h.copy.stop.trans hlen, hidx ▸ hlast, fun hzero => ?_, fun hne hfits => ?_, h.modifiers⟩
  · rw [h.distance]
    unfold atEndOf Overtype.Line.rest Overtype.Line.atEnd
    rw [Nat.sub_self]
    rfl
  · rw [hbuf] at hzero
    exact dif_neg fun hl => hl.1 hzero
  · rw [hbuf] at hne
    rw [hidx] at hfits
    have hshort : s.lastChars.length ≤ 127 := by
      unfold TermState.lastChars
      rw [List.length_map, List.length_range]
      omega
    rw [hchars]
    unfold atEndOf
    rw [dif_pos ⟨hne, hshort⟩]
    rfl

/-- The line after Ctrl+L and the next read, when that restores it. -/
theorem hasLineOf_reread {s : TermState} (hcursor : s.keyboardCursorIdx = s.keyboardBufferEndIdx)
    (hnewline : 10 ∉ s.lineChars) (hdist : s.distanceFromRight = 0) : HasLineOf s s.reread where
  text := ((TermState.reread_line_iff (Int.le_of_eq hcursor)).mpr ⟨hcursor, hnewline⟩).1
  stop := ((TermState.reread_line_iff (Int.le_of_eq hcursor)).mpr ⟨hcursor, hnewline⟩).2
  cursor := s.reread_cursor
  distance := s.reread_distance.trans hdist
  copy := ⟨s.reread_copied, s.reread_currentChars⟩
  last := s.reread_lastCommand
  modifiers := s.reread_modifiers

end LineEditor

/-! ## Ctrl+L and the read of the shell -/

namespace Console

/-- The variables of the shown terminal have been changed by `f`, up to its screen. -/
structure Changed (f : TermState → TermState) (c c' : Console) : Prop where
  visible : c'.visibleTerminal = c.visibleTerminal
  kept : c'.shown.kept = (f c.shown).kept
  fresh : c'.notInPrevCmdFlag = c.notInPrevCmdFlag
  behindScancodes : c'.behindScancodes = c.behindScancodes

theorem Changed.undisturbed {f : TermState → TermState} {c c' c'' : Console} (h : Changed f c c')
    (hsame : Undisturbed c' c'') : Changed f c c'' :=
  ⟨hsame.visible.trans h.visible, hsame.kept.trans h.kept, hsame.fresh.trans h.fresh,
    hsame.behindScancodes.trans h.behindScancodes⟩

theorem changed_clear {c : Console} {scancode : UInt8} (hctrl : c.shown.controlOn = true)
    (hp : scancode.toNat = L_SCANCODE) (hfits : fits c.shown.keyboardCursorIdx) :
    ∃ c', c.keyboardInterrupt scancode = some c' ∧ Changed TermState.clearedKey c c' := by
  rw [keyboardInterrupt_clear hctrl hp]
  have hdefined : (ctrlL { c with putcToVisibleFlag := true }).isSome := by
    unfold ctrlL
    dsimp only
    rw [if_pos (show fits (c.term c.visibleTerminal).keyboardCursorIdx from hfits)]
    rfl
  obtain ⟨c', hc'⟩ := Option.isSome_iff_exists.mp hdefined
  obtain ⟨hline, hv, hbehind⟩ := ctrlL_sameLine hc'
  have hshown : c'.shown = c'.term c.visibleTerminal := congrArg c'.term hv
  refine ⟨c', hc', hv, ?_, (KeepsHistory.ctrlL hc').flag, hbehind⟩
  rw [hshown]
  exact kept_sameLine hline

theorem Changed.read {c c₁ c' : Console} (h : Changed TermState.clearedKey c c₁)
    (hown : c₁.processTerminal = c₁.visibleTerminal) (hfits : c.shown.keyboardCursorIdx ≤ 127)
    (hc' : c₁.readTerminalStart = some c') :
    Changed TermState.reread c c' ∧ c'.shown.shellFlag = c₁.shown.shellFlag := by
  have hv := (Kernel.readTerminalStart_terminals hc').2
  have hkept := h.kept
  have hshown : c'.shown = c'.term c₁.processTerminal := congrArg c'.term (hv.trans hown.symm)
  have hbehind : c'.behindScancodes = c₁.behindScancodes := by
    rcases readTerminalStart_cases hc' with ⟨_, rfl⟩ | ⟨_, _, rfl⟩
    · rfl
    · exact (drawn_putcs _ _).behindScancodes
  unfold shown at hkept
  rw [← hown] at hkept
  obtain ⟨hreread, hshell⟩ := readTerminalStart_clearedKey hc' hkept hfits
  rw [hshown]
  refine ⟨⟨hv.trans h.visible, ?_, (KeepsHistory.readTerminalStart hc').flag.trans h.fresh,
    hbehind.trans h.behindScancodes⟩, ?_⟩
  · rw [hshown]
    exact hreread
  · rw [hshell, hown]
    rfl

end Console

/-! ## Going on with the line -/

namespace Kernel

open Console (AllOnScreen)

/-- The same event on two kernels. -/
def pairStep (fs : FileSys) (p : Kernel × Kernel) (e : Event) : Option (Kernel × Kernel) :=
  (step fs p.1 e).bind fun a => (step fs p.2 e).map fun b => (a, b)

theorem pairStep_eq_some {fs : FileSys} {p : Kernel × Kernel} {e : Event} {a b : Kernel} :
    pairStep fs p e = some (a, b) ↔ step fs p.1 e = some a ∧ step fs p.2 e = some b := by
  unfold pairStep
  rw [Option.bind_eq_some_iff]
  constructor
  · rintro ⟨a', ha, hmap⟩
    obtain ⟨b', hb, heq⟩ := Option.map_eq_some_iff.mp hmap
    cases heq
    exact ⟨ha, hb⟩
  · rintro ⟨ha, hb⟩
    exact ⟨a, ha, Option.map_eq_some_iff.mpr ⟨b, hb, rfl⟩⟩

/-- The kernel does something else, and the shown terminal still runs its shell. -/
def Idles (fs : FileSys) (k : Kernel) (e : Event) : Prop :=
  ResumingEvent fs k e ∧ ∀ k', step fs k e = some k' → k'.console.shown.shellFlag = true

/-- The events with which a line is edited on: keys, and whatever else the two kernels do. -/
def ContinuesEvent (fs : FileSys) (p : Kernel × Kernel) : Event → Prop
  | .keyboard scancode => Console.ContinuesKey p.1.console p.2.console scancode.toNat
  | e => Idles fs p.1 e ∧ Idles fs p.2 e

section

variable {fs : FileSys} {t : Terminal}

theorem Idles.runs {k : Kernel} {e : Event} {l : LineEditor} (h : l.Runs k.console)
    (he : Idles fs k e) : ∃ k', step fs k e = some k' ∧ l.Runs k'.console ∧
      Console.Undisturbed k.console k'.console := by
  obtain ⟨k', hk', hsame⟩ := resumingEvent_undisturbed he.1
  exact ⟨k', hk', h.undisturbed (step_allOnScreen h.onScreen hk') hsame (he.2 k' hk'), hsame⟩

/-- **One event on both kernels.** -/
theorem runsBoth_step {p : Kernel × Kernel} {e : Event}
    (h : ∃ l : LineEditor, l.RunsBoth t p.1.console p.2.console) (he : ContinuesEvent fs p e) :
    ∃ p', pairStep fs p e = some p' ∧
      ∃ l : LineEditor, l.RunsBoth t p'.1.console p'.2.console := by
  obtain ⟨l, hl⟩ := h
  cases e with
  | keyboard scancode =>
      obtain ⟨a, b, ha, hb, hnext⟩ := hl.key he
      refine ⟨({ p.1 with console := a }, { p.2 with console := b }), ?_, _, hnext⟩
      exact pairStep_eq_some.mpr ⟨Option.map_eq_some_iff.mpr ⟨a, ha, rfl⟩,
        Option.map_eq_some_iff.mpr ⟨b, hb, rfl⟩⟩
  | _ =>
      obtain ⟨a, ha, hfirst, hsame₁⟩ := Idles.runs hl.first he.1
      obtain ⟨b, hb, hsecond, hsame₂⟩ := Idles.runs hl.second he.2
      refine ⟨(a, b), pairStep_eq_some.mpr ⟨ha, hb⟩, l, hfirst, hsecond,
        hsame₁.visible.trans hl.visible₁, hsame₂.visible.trans hl.visible₂, ?_⟩
      rw [hsame₁.behindScancodes, hsame₂.behindScancodes]
      exact hl.behindScancodes

/-- **Two kernels that run the same editor hand over the same line**, whatever is typed. -/
theorem runsBoth_run {l : LineEditor} {p : Kernel × Kernel}
    (h : l.RunsBoth t p.1.console p.2.console) {es : List Event}
    (hes : StepSystem.Guarded (pairStep fs) (ContinuesEvent fs) p es) :
    ∃ p' text, StepSystem.run (pairStep fs) p es = some p' ∧ Delivers fs t p'.1 text ∧
      Delivers fs t p'.2 text := by
  obtain ⟨p', hp', l', hl'⟩ := StepSystem.run_total_of_guarded
    (P := fun p : Kernel × Kernel => ∃ l : LineEditor, l.RunsBoth t p.1.console p.2.console)
    (fun _ _ hp he => runsBoth_step hp he) hes ⟨l, h⟩
  have hfirst : Delivers fs _ p'.1 l'.line.text := delivers_of_runs hl'.first
  have hsecond : Delivers fs _ p'.2 l'.line.text := delivers_of_runs hl'.second
  rw [show p'.1.visibleTerminal = t from hl'.visible₁] at hfirst
  rw [show p'.2.visibleTerminal = t from hl'.visible₂] at hsecond
  exact ⟨p', l'.line.text, hp', hfirst, hsecond⟩

end

/-! ## The line is restored -/

/-- The editing line of `k` is restored in `k'`: the characters and the right end are the same,
and whatever is typed up to an Enter, the same line is handed over. -/
structure Restores (fs : FileSys) (k k' : Kernel) : Prop where
  text : k'.console.shown.lineChars = k.console.shown.lineChars
  stop : k'.console.shown.keyboardBufferEndIdx = k.console.shown.keyboardBufferEndIdx
  continues : ∀ es, StepSystem.Guarded (pairStep fs) (ContinuesEvent fs) (k, k') es →
    ∃ p text, StepSystem.run (pairStep fs) (k, k') es = some p ∧
      Delivers fs k.visibleTerminal p.1 text ∧ Delivers fs k.visibleTerminal p.2 text

/-- The down arrow belongs to the line editor. -/
theorem editorKey_down (c : Console) : c.EditorKey Console.downKey.toNat where
  enter := by decide
  clear hk := absurd hk.2 (by decide)
  stays _ t ht := nomatch (show none = some t from ht)
  left hp := absurd hp (by decide)
  recallLast hp := absurd hp (by decide)

/-- The line after a down arrow. -/
theorem down_line {fs : FileSys} {k k' : Kernel} (hs : AllOnScreen k.console)
    (hshell : k.console.shown.shellFlag = true)
    (h : step fs k (.keyboard Console.downKey) = some k') :
    k'.console.shown.lineChars = k.console.shown.currentChars ∧
      k'.console.shown.keyboardBufferEndIdx = k.console.shown.currentBufIndex := by
  obtain ⟨c', hc', rfl⟩ := Option.map_eq_some_iff.mp h
  have hfits : Console.fits (k.console.term k.console.visibleTerminal).currentBufIndex := by
    rw [Console.keyboardInterrupt_down] at hc'
    obtain ⟨c₁, hc₁, _⟩ := Option.map_eq_some_iff.mp hc'
    exact Console.downArrow_fits (c := { k.console with putcToVisibleFlag := true }) ⟨rfl, hs _⟩
      hc₁ hshell
  obtain ⟨c₂, hc₂, htext⟩ := Console.down_key (hs _) hshell hfits
  rw [hc₂] at hc'
  cases hc'
  exact ⟨htext.lineChars.trans (TermState.lineChars_putBack _), htext.stop⟩

/-- If the line is restored, the down arrow puts back the line. -/
theorem Restores.copyFresh {fs : FileSys} {k k' : Kernel} (h : Restores fs k k')
    (hs : AllOnScreen k.console) (hs' : AllOnScreen k'.console)
    (hshell : k.console.shown.shellFlag = true) (hshell' : k'.console.shown.shellFlag = true)
    (hcopy : k'.console.shown.CopyFresh) : k.console.shown.CopyFresh := by
  have hkey : ContinuesEvent fs (k, k') (.keyboard Console.downKey) :=
    ⟨editorKey_down _, editorKey_down _, fun hp => absurd hp (by decide)⟩
  obtain ⟨p, text, hp, hfirst, hsecond⟩ := h.continues [.keyboard Console.downKey]
    ⟨hkey, fun _ _ => trivial⟩
  obtain ⟨q, hq, hend⟩ := StepSystem.run_cons_eq_some.mp hp
  cases hend
  obtain ⟨ha, hb⟩ := pairStep_eq_some.mp (show pairStep fs (k, k') _ = some (p.1, p.2) from hq)
  obtain ⟨htext₁, hstop₁⟩ := down_line hs hshell ha
  obtain ⟨htext₂, hstop₂⟩ := down_line hs' hshell' hb
  constructor
  · calc k.console.shown.currentBufIndex = text.length := hstop₁.symm.trans hfirst.stop
      _ = k'.console.shown.currentBufIndex := hsecond.stop.symm.trans hstop₂
      _ = k'.console.shown.keyboardBufferEndIdx := hcopy.stop
      _ = k.console.shown.keyboardBufferEndIdx := h.stop
  · calc k.console.shown.currentChars = text := htext₁.symm.trans hfirst.line
      _ = k'.console.shown.currentChars := hsecond.line.symm.trans htext₂
      _ = k'.console.shown.lineChars := hcopy.text
      _ = k.console.shown.lineChars := h.text

/-- A reader finds nothing in an empty row. -/
theorem line_of_zero {row : Mem} (h : row 0 = 0) (n : Nat) : Console.line row n = [] := by
  unfold Console.line
  cases n with
  | zero => rfl
  | succ n =>
      rw [List.range_succ_eq_map, List.map_cons, h]
      rfl

/-- A shell is shown and a line of at most 127 characters is edited: the cursor is somewhere in
it. -/
structure EditsLine (k : Kernel) : Prop where
  shell : k.console.shown.shellFlag = true
  counters : k.console.shown.lineIdx.Coherent
  room : k.console.shown.keyboardBufferEndIdx ≤ 127

theorem editsLine_iff (k : Kernel) : k.EditsLine ↔ k.console.shown.shellFlag = true ∧
    k.console.shown.lineIdx.Coherent ∧ k.console.shown.keyboardBufferEndIdx ≤ 127 :=
  ⟨fun h => ⟨h.shell, h.counters, h.room⟩, fun h => ⟨h.1, h.2.1, h.2.2⟩⟩

instance (k : Kernel) : Decidable k.EditsLine := decidable_of_iff _ k.editsLine_iff.symm

section

variable {fs : FileSys} {k : Kernel}

/-- The counters of a line. -/
theorem EditsLine.bounds (h : k.EditsLine) (hk : Reachable fs k) :
    0 ≤ k.console.shown.keyboardCursorIdx ∧
      k.console.shown.keyboardCursorIdx ≤ k.console.shown.keyboardBufferEndIdx := by
  have hcursor : 0 ≤ k.console.shown.keyboardCursorIdx := (hk.allNonNeg k.visibleTerminal).cursor
  obtain ⟨hsum, hdist⟩ := h.counters
  change k.console.shown.keyboardCursorIdx + k.console.shown.distanceFromRight
    = k.console.shown.keyboardBufferEndIdx at hsum
  change 0 ≤ k.console.shown.distanceFromRight at hdist
  omega

/-- **When the line is restored**: the kernel before Ctrl+L and the one after the next read. -/
theorem restores_iff (hk : Reachable fs k) (hline : k.EditsLine) {k' : Kernel}
    (hs : AllOnScreen k'.console)
    (hchanged : Console.Changed TermState.reread k.console k'.console)
    (hshell : k'.console.shown.shellFlag = true) :
    Restores fs k k' ↔
      k.console.shown.keyboardCursorIdx = k.console.shown.keyboardBufferEndIdx ∧
        10 ∉ k.console.shown.lineChars ∧ k.console.shown.CopyFresh := by
  obtain ⟨hpos, hle⟩ := hline.bounds hk
  have htext := congrArg TermState.lineChars hchanged.kept
  have hstop := congrArg TermState.keyboardBufferEndIdx hchanged.kept
  change k'.console.shown.lineChars = k.console.shown.reread.lineChars at htext
  change k'.console.shown.keyboardBufferEndIdx
    = k.console.shown.reread.keyboardBufferEndIdx at hstop
  constructor
  · intro h
    have hcopied := congrArg TermState.currentBufIndex hchanged.kept
    have hcopy := congrArg TermState.currentChars hchanged.kept
    change k'.console.shown.currentBufIndex = k.console.shown.reread.currentBufIndex at hcopied
    change k'.console.shown.currentChars = k.console.shown.reread.currentChars at hcopy
    obtain ⟨hcursor, hnewline⟩ := (TermState.reread_line_iff hle).mp
      ⟨htext.symm.trans h.text, hstop.symm.trans h.stop⟩
    refine ⟨hcursor, hnewline, ?_⟩
    apply h.copyFresh hk.allOnScreen hs hline.shell hshell
    exact ⟨hcopied.trans ((TermState.reread_copied _).trans hstop.symm), hcopy.trans
      ((TermState.reread_currentChars _).trans htext.symm)⟩
  · rintro ⟨hcursor, hnewline, hfresh⟩
    obtain ⟨hsame, hsameStop⟩ := (TermState.reread_line_iff hle).mpr ⟨hcursor, hnewline⟩
    refine ⟨htext.trans hsame, hstop.trans hsameStop, fun es hes => ?_⟩
    have hdist : k.console.shown.distanceFromRight = 0 := by
      have hsum : k.console.shown.keyboardCursorIdx + k.console.shown.distanceFromRight
        = k.console.shown.keyboardBufferEndIdx := hline.counters.1
      omega
    have hlen : k.console.shown.lineChars.length ≤ 127 := by
      have hroom := hline.room
      unfold TermState.lineChars
      rw [List.length_map, List.length_range]
      omega
    have hlast : 0 ≤ k.console.shown.lastBufIndex := (hk.allNonNeg k.visibleTerminal).last
    have hfirst : LineEditor.HasLineOf k.console.shown k.console.shown :=
      ⟨rfl, rfl, hcursor, hdist, hfresh, rfl, rfl⟩
    have hsecond := (LineEditor.hasLineOf_reread hcursor hnewline hdist).runsOn
      ((TermState.reread_shellFlag _).trans hline.shell) (hpos.trans hle) hlast hlen
      k.console.notInPrevCmdFlag
    have hboth : (LineEditor.atEndOf k.console.shown hlen k.console.notInPrevCmdFlag).RunsBoth
        k.visibleTerminal k.console k'.console :=
      ⟨⟨hk.allOnScreen, rfl, hfirst.runsOn hline.shell (hpos.trans hle) hlast hlen _⟩,
        ⟨hs, hchanged.fresh, hsecond.of_kept hchanged.kept hshell⟩, rfl, hchanged.visible,
        hchanged.behindScancodes⟩
    exact runsBoth_run (p := (k, k')) hboth hes

/-- **Ctrl+L and the command line.** Ctrl+L wakes the pending read with an empty line. When the
shell reads again, the line is restored exactly if the cursor was behind it, it had no newline in
it, and the down arrow had the line to put back. -/
theorem ctrlL_restores_iff (hk : Reachable fs k) (hline : k.EditsLine)
    (hctrl : k.console.shown.controlOn = true) {scancode : UInt8}
    (hp : scancode.toNat = L_SCANCODE) :
    ∃ k₁, step fs k (.keyboard scancode) = some k₁ ∧
      Hands fs k.visibleTerminal k₁ (fun _ => []) ∧
      ∀ between, StepSystem.Guarded (step fs) (ResumingEvent fs) k₁ between →
        ∃ k₂, StepSystem.run (step fs) k₁ between = some k₂ ∧
          ∀ (stack : Mem) (fd : Int) (bufNull : Bool) (nbytes : Int),
            k₂.StartsRead fd bufNull nbytes → k₂.console.shown.shellFlag = true →
              ∃ k₃, step fs k₂ (.read stack fd bufNull nbytes) = some k₃ ∧
                (Restores fs k k₃ ↔
                  k.console.shown.keyboardCursorIdx = k.console.shown.keyboardBufferEndIdx ∧
                    10 ∉ k.console.shown.lineChars ∧ k.console.shown.CopyFresh) := by
  obtain ⟨hpos, hle⟩ := hline.bounds hk
  have hroom : k.console.shown.keyboardCursorIdx ≤ 127 := hle.trans hline.room
  have hfits : Console.fits k.console.shown.keyboardCursorIdx := by
    unfold Console.fits KEYBOARD_BUFFER_SIZE
    omega
  obtain ⟨c₁, hc₁, hcleared⟩ := Console.changed_clear hctrl hp hfits
  have hk₁ : step fs k (.keyboard scancode) = some { k with console := c₁ } :=
    Option.map_eq_some_iff.mpr ⟨c₁, hc₁, rfl⟩
  have hs₁ := step_allOnScreen hk.allOnScreen hk₁
  refine ⟨_, hk₁, ?_, fun between hbetween => ?_⟩
  · -- the row is empty
    have hread := congrArg TermState.sysReadFlag hcleared.kept
    have hrow := congrArg TermState.keyboardBuffer hcleared.kept
    change c₁.shown.sysReadFlag = false at hread
    change c₁.shown.keyboardBuffer
      = overlay k.console.shown.keyboardBuffer 0 KEYBOARD_BUFFER_SIZE (fun _ => 0) at hrow
    have hzero : c₁.shown.keyboardBuffer 0 = 0 := by
      rw [hrow]
      rfl
    have hhands : Hands fs (Kernel.visibleTerminal { k with console := c₁ })
        { k with console := c₁ } (Console.line c₁.shown.keyboardBuffer) := hands_row hread
    rw [show Kernel.visibleTerminal { k with console := c₁ } = k.visibleTerminal from
      hcleared.visible, show Console.line _ = _ from funext (line_of_zero hzero)] at hhands
    exact hhands
  · obtain ⟨k₂, hk₂, hsame⟩ := resuming_undisturbed hbetween
    refine ⟨k₂, hk₂, fun stack fd bufNull nbytes hstart hshell => ?_⟩
    have hwaiting := hcleared.undisturbed hsame
    have htemp := congrArg TermState.tempKbdIdx hwaiting.kept
    change k₂.console.shown.tempKbdIdx = k.console.shown.keyboardCursorIdx at htemp
    have hown : k₂.console.processTerminal = k₂.console.visibleTerminal := hstart.1
    obtain ⟨c₃, hc₃⟩ := Console.readTerminalStart_defined (c := k₂.console) (by
      rw [hown, show (k₂.console.term k₂.console.visibleTerminal).tempKbdIdx = _ from htemp]
      exact hfits)
    have hk₃ : step fs k₂ (.read stack fd bufNull nbytes) = some { k₂ with console := c₃ } :=
      step_read_terminal hstart.2 hc₃
    have hs₂ : AllOnScreen k₂.console :=
      StepSystem.run_invariant (P := fun k : Kernel => AllOnScreen k.console)
        (fun _ _ _ hk hstep => step_allOnScreen hk hstep) hk₂ hs₁
    obtain ⟨hchanged, hshell₃⟩ := hwaiting.read hown hroom hc₃
    exact ⟨_, hk₃, restores_iff hk hline (step_allOnScreen hs₂ hk₃) hchanged
      (hshell₃.trans hshell)⟩

end

/-- The first shell reads, and `a` is typed. -/
def readThenLine : List Event :=
  [.pit zeroFrame, .switch 1, .read (fun _ => 0) 0 false 128, .keyboard 0x1E]

/-- `a` is typed to the first shell, and Ctrl+L restores it. -/
theorem ctrlL_restores_a : ∃ k k₁ k₂ k₃, Reachable sampleImage k ∧
    k.console.shown.lineChars = [97] ∧ step sampleImage k (.keyboard 0x26) = some k₁ ∧
    step sampleImage k₁ (.resumeTerminal 128) = some k₂ ∧
    step sampleImage k₂ (.read (fun _ => 0) 0 false 128) = some k₃ ∧
    Restores sampleImage k k₃ := by
  have hview : (StepSystem.run (step sampleImage) (boot zeroMemory)
      (readThenLine ++ [.keyboard 0x1D])).map (fun k => decide (k.EditsLine ∧
        k.console.shown.controlOn = true ∧ k.console.shown.lineChars = [97] ∧
        k.console.shown.keyboardCursorIdx = k.console.shown.keyboardBufferEndIdx ∧
        k.console.shown.CopyFresh ∧
        (step sampleImage k (.keyboard 0x26)).map (fun k₁ => decide (
          (step sampleImage k₁ (.resumeTerminal 128)).map (fun k₂ => decide (
            k₂.StartsRead 0 false 128 ∧ k₂.console.shown.shellFlag = true)) = some true))
          = some true)) = some true := by
    decide +kernel
  obtain ⟨k, hk, hline, hctrl, htext, hcursor, hfresh, hafter⟩ :=
    StepSystem.exists_of_map_decide hview
  have hreach : Reachable sampleImage k := ⟨zeroMemory, _, hk⟩
  obtain ⟨k₁, hk₁, -, hbetween⟩ := ctrlL_restores_iff hreach hline hctrl
    (show (0x26 : UInt8).toNat = L_SCANCODE from rfl)
  rw [hk₁] at hafter
  obtain ⟨k₂, hk₂, hstart, hshell⟩ := StepSystem.exists_of_map_decide
    (of_decide_eq_true (Option.some.inj hafter))
  have hresume : StepSystem.Guarded (step sampleImage) (ResumingEvent sampleImage) k₁
      [.resumeTerminal 128] :=
    ⟨Option.isSome_iff_exists.mpr ⟨k₂, hk₂⟩, fun _ _ => trivial⟩
  obtain ⟨k₂', hk₂', hread⟩ := hbetween _ hresume
  obtain ⟨q, hq, hend⟩ := StepSystem.run_cons_eq_some.mp hk₂'
  cases hend
  rw [hk₂] at hq
  cases hq
  obtain ⟨k₃, hk₃, hiff⟩ := hread (fun _ => 0) 0 false 128 hstart hshell
  refine ⟨k, k₁, k₂, k₃, hreach, htext, hk₁, hk₂, hk₃, hiff.mpr ⟨hcursor, ?_, hfresh⟩⟩
  rw [htext]
  decide

/-- With the cursor before the `b` of `ab`, Ctrl+L leaves `a`. -/
theorem ctrlL_cuts_line : ¬ ∀ (fs : FileSys) (k k₁ k₂ k₃ : Kernel) (between : List Event)
    (stack : Mem) (fd nbytes : Int) (bufNull : Bool), Reachable fs k → k.EditsLine →
    k.console.shown.controlOn = true → step fs k (.keyboard 0x26) = some k₁ →
    StepSystem.Guarded (step fs) (ResumingEvent fs) k₁ between →
    StepSystem.run (step fs) k₁ between = some k₂ → k₂.StartsRead fd bufNull nbytes →
    k₂.console.shown.shellFlag = true → step fs k₂ (.read stack fd bufNull nbytes) = some k₃ →
    Restores fs k k₃ := by
  intro hall
  have hview : (StepSystem.run (step sampleImage) (boot zeroMemory)
      (readThenLine ++ [.keyboard 0x30, .keyboard 0x4B, .keyboard 0x1D])).map
      (fun k => decide (k.EditsLine ∧ k.console.shown.controlOn = true ∧
        k.console.shown.keyboardBufferEndIdx = 2 ∧
        (step sampleImage k (.keyboard 0x26)).map (fun k₁ => decide (
          (step sampleImage k₁ (.resumeTerminal 128)).map (fun k₂ => decide (
            k₂.StartsRead 0 false 128 ∧ k₂.console.shown.shellFlag = true ∧
            (step sampleImage k₂ (.read (fun _ => 0) 0 false 128)).map (fun k₃ =>
              decide (k₃.console.shown.keyboardBufferEndIdx = 1)) = some true)) = some true))
          = some true)) = some true := by
    decide +kernel
  obtain ⟨k, hk, hline, hctrl, hstop, hcleared⟩ := StepSystem.exists_of_map_decide hview
  obtain ⟨k₁, hk₁, hresumed⟩ := StepSystem.exists_of_map_decide hcleared
  obtain ⟨k₂, hk₂, hstart, hshell, hread⟩ := StepSystem.exists_of_map_decide hresumed
  obtain ⟨k₃, hk₃, hcut⟩ := StepSystem.exists_of_map_decide hread
  have hrestored := hall sampleImage k k₁ k₂ k₃ [.resumeTerminal 128] _ 0 128 false
    ⟨zeroMemory, _, hk⟩ hline hctrl hk₁
    ⟨Option.isSome_iff_exists.mpr ⟨k₂, hk₂⟩, fun _ _ => trivial⟩
    (StepSystem.run_cons_eq_some.mpr ⟨k₂, hk₂, rfl⟩) hstart hshell hk₃
  have hsame := hrestored.stop
  rw [hcut, hstop] at hsame
  exact absurd hsame (by decide)

end Kernel

end Ext2Kernel
