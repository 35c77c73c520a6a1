import Ext2Kernel.Basic.Overtype
import Ext2Kernel.Console.Arrows
import Ext2Kernel.Console.History

set_option autoImplicit false

/-! # The line editor of a shell

What a user knows of the line editor: the line with its cursor, the line that the down arrow puts
back, the command that the up arrow recalls, and the modifiers that are held (`LineEditor`). A key
is an action on it (`act`). The variables of a terminal hold an editor (`RunsOn`) when the row, the
copies and the three counters are those of the editor; the bytes behind the line, the screen and
the type-ahead do not matter. Every key but Enter and Ctrl+L keeps this
(`LineEditor.Runs.keyboardInterrupt`), if a left arrow moves the cursor on the screen whenever it
moves the index.
-/

namespace Ext2Kernel

open ByteMem Overtype

/-! ## The editor -/

/-- The modifiers that are held. -/
structure Modifiers where
  shift : Bool
  caps : Bool
  control : Bool
  alt : Bool

/-- A line of text that fits the editor. -/
abbrev ShortText := { l : List UInt8 // l.length ≤ 127 }

structure LineEditor where
  line : Line UInt8 127
  /-- The line that the down arrow puts back. -/
  copy : ShortText
  /-- The command that the up arrow recalls. -/
  command : Option ShortText
  /-- No command has been recalled since the last Enter or down arrow. -/
  fresh : Bool
  modifiers : Modifiers

/-- What a key does to the line. The screen decides whether a right arrow moves the cursor. -/
inductive EditAction
  | type (ch : UInt8)
  | erase
  | left
  | right (moves : Bool)
  | recallLast
  | putBack
  | turn (m : Modifiers)
  | rest

namespace LineEditor

/-- Characters make a copy of the line up to the cursor, until a command is recalled. -/
def type (e : LineEditor) (ch : UInt8) : LineEditor :=
  let l := e.line.put ch
  { e with line := l, copy := if e.fresh then ⟨l.before, l.before_le⟩ else e.copy }

/-- The up arrow. -/
def recallLast (e : LineEditor) : LineEditor :=
  match e.command with
  | some l => if e.fresh then { e with line := .atEnd l.val l.property, fresh := false } else e
  | none => e

/-- The down arrow. -/
def putBack (e : LineEditor) : LineEditor :=
  { e with line := .atEnd e.copy.val e.copy.property, fresh := true }

def act (e : LineEditor) : EditAction → LineEditor
  | .type ch => e.type ch
  | .erase => { e with line := e.line.erase 32 }
  | .left => { e with line := e.line.left }
  | .right moves => if moves then { e with line := e.line.right } else e
  | .recallLast => e.recallLast
  | .putBack => e.putBack
  | .turn m => { e with modifiers := m }
  | .rest => e

theorem act_right_fresh (e : LineEditor) (moves : Bool) :
    (e.act (.right moves)).fresh = e.fresh := by
  cases moves <;> rfl

theorem act_right_atEnd {e : LineEditor} (h : e.line.rest = 0) (moves : Bool) :
    e.act (.right moves) = e := by
  have hright : e.line.right = e.line := dif_pos h
  unfold act
  dsimp only
  rw [hright, ite_self]

end LineEditor

/-! ## The editor of a terminal -/

namespace TermState

def modifiers (s : TermState) : Modifiers := ⟨s.shiftOn, s.capsLockOn, s.controlOn, s.altOn⟩

def setModifiers (s : TermState) (m : Modifiers) : TermState :=
  { s with shiftOn := m.shift, capsLockOn := m.caps, controlOn := m.control, altOn := m.alt }

end TermState

namespace LineEditor

/-- The variables of a shell terminal hold the editor. -/
structure RunsOn (e : LineEditor) (s : TermState) : Prop where
  shell : s.shellFlag = true
  text : s.lineChars = e.line.text
  stop : s.keyboardBufferEndIdx = e.line.text.length
  cursor : s.keyboardCursorIdx = e.line.cursor
  distance : s.distanceFromRight = e.line.rest
  copy : s.currentChars = e.copy.val
  copied : s.currentBufIndex = e.copy.val.length
  last : 0 ≤ s.lastBufIndex
  silent : s.lastBuf 0 = 0 → e.command = none
  command : s.lastBuf 0 ≠ 0 → s.lastBufIndex ≤ 127 →
    e.command.map Subtype.val = some s.lastChars
  modifiers : s.modifiers = e.modifiers

section

variable {e : LineEditor} {s s' : TermState}

/-- The screen does not matter. -/
theorem RunsOn.congr (h : e.RunsOn s) (hline : SameLine s s') : e.RunsOn s' := by
  unfold SameLine at hline
  rw [hline] at h
  exact ⟨h.shell, h.text, h.stop, h.cursor, h.distance, h.copy, h.copied, h.last, h.silent,
    h.command, h.modifiers⟩

/-- The line and its cursor are replaced. -/
theorem RunsOn.setLine (h : e.RunsOn s) {l : Line UInt8 127} (htext : s'.lineChars = l.text)
    (hstop : s'.keyboardBufferEndIdx = l.text.length) (hcursor : s'.keyboardCursorIdx = l.cursor)
    (hdist : s'.distanceFromRight = l.rest)
    (hrest : s'.shellFlag = s.shellFlag ∧ s'.currentChars = s.currentChars ∧
      s'.currentBufIndex = s.currentBufIndex ∧ s'.lastCommand = s.lastCommand ∧
      s'.modifiers = s.modifiers) : { e with line := l }.RunsOn s' := by
  obtain ⟨hshell, hcopy, hcopied, hlast, hmod⟩ := hrest
  have hbuf : s'.lastBuf = s.lastBuf := congrArg Prod.fst hlast
  have hidx : s'.lastBufIndex = s.lastBufIndex := congrArg Prod.snd hlast
  have hchars : s'.lastChars = s.lastChars := by
    unfold TermState.lastChars
    rw [hbuf, hidx]
  refine ⟨hshell.trans h.shell, htext, hstop, hcursor, hdist, hcopy.trans h.copy,
    hcopied.trans h.copied, hidx ▸ h.last, hbuf ▸ h.silent, ?_, hmod.trans h.modifiers⟩
  rw [hbuf, hidx, hchars]
  exact h.command

theorem RunsOn.cursor_toNat (h : e.RunsOn s) : s.keyboardCursorIdx.toNat = e.line.cursor := by
  rw [h.cursor]
  rfl

theorem RunsOn.fits_cursor (h : e.RunsOn s) : Console.fits s.keyboardCursorIdx := by
  have hcursor := h.cursor
  have hle := e.line.cursor_le
  have htext := e.line.text_le
  unfold Console.fits KEYBOARD_BUFFER_SIZE
  omega

/-- The line as the first cells of the row. -/
theorem RunsOn.row (h : e.RunsOn s) :
    (List.range e.line.text.length).map s.keyboardBuffer = e.line.text := by
  have htext := h.text
  unfold TermState.lineChars at htext
  rwa [h.stop, Int.toNat_natCast] at htext

/-- The characters before the cursor. -/
theorem RunsOn.before (h : e.RunsOn s) :
    (List.range s.keyboardCursorIdx.toNat).map s.keyboardBuffer = e.line.before := by
  unfold Line.before
  rw [← h.row, h.cursor_toNat, ← List.map_take, List.take_range, Nat.min_eq_left e.line.cursor_le]

/-! ## Characters -/

theorem RunsOn.echoOff (h : e.RunsOn s) : e.RunsOn (Console.echoOff s) := by
  obtain ⟨b, hb⟩ := Console.echoOff_eq s
  rw [hb]
  exact ⟨h.shell, h.text, h.stop, h.cursor, h.distance, h.copy, h.copied, h.last, h.silent,
    h.command, h.modifiers⟩

theorem RunsOn.insert (h : e.RunsOn s) (ch : UInt8) :
    { e with line := e.line.put ch }.RunsOn (s.insert ch) := by
  have hcursor := h.cursor
  have hstop := h.stop
  have hdist := h.distance
  have hle := e.line.cursor_le
  have hsum := e.line.cursor_add_rest
  unfold TermState.insert Line.put
  by_cases hroom : e.line.cursor < 127
  · have hsource : s.keyboardCursorIdx < KEYBOARD_BUFFER_SIZE - 1 := by
      unfold KEYBOARD_BUFFER_SIZE
      omega
    rw [if_pos hsource, dif_pos hroom]
    have hend : (if s.distanceFromRight = 0 then s.keyboardBufferEndIdx + 1
        else s.keyboardBufferEndIdx)
        = ((max e.line.text.length (e.line.cursor + 1) : Nat) : Int) := by
      split <;> omega
    apply h.setLine
    · show (List.range (ite _ _ _ : Int).toNat).map _ = _
      rw [hend, Int.toNat_natCast, h.cursor_toNat, map_range_update _ hle, h.row]
    · show (ite _ _ _ : Int) = _
      rw [hend, length_overwrite hle]
    · show s.keyboardCursorIdx + 1 = _
      rw [hcursor]
      rfl
    · show (ite _ _ _ : Int) = _
      unfold Line.rest
      dsimp only
      rw [length_overwrite hle]
      split <;> omega
    · exact ⟨rfl, rfl, rfl, rfl, rfl⟩
  · have hsource : ¬ s.keyboardCursorIdx < KEYBOARD_BUFFER_SIZE - 1 := by
      unfold KEYBOARD_BUFFER_SIZE
      omega
    rw [if_neg hsource, dif_neg hroom]
    exact h

theorem RunsOn.keepCurrent (h : e.RunsOn s) (copies : Bool) :
    { e with copy := if copies then ⟨e.line.before, e.line.before_le⟩ else e.copy }.RunsOn
      (s.keepCurrent copies) := by
  unfold TermState.keepCurrent
  cases copies with
  | false => exact h
  | true =>
      simp only [if_true]
      refine ⟨h.shell, h.text, h.stop, h.cursor, h.distance, ?_, ?_, h.last, h.silent, h.command,
        h.modifiers⟩
      · exact (TermState.map_range_overlay ..).trans h.before
      · show s.keyboardCursorIdx = _
        rw [Line.length_before]
        exact h.cursor

theorem RunsOn.typeAhead (h : e.RunsOn s) (ch : UInt8) : e.RunsOn (Console.typeAhead s ch) := by
  unfold Console.typeAhead
  rw [h.shell]
  exact h

/-- **A character.** -/
theorem RunsOn.typeLine (h : e.RunsOn s) (ch : UInt8) :
    (e.act (.type ch)).RunsOn (s.typeLine ch e.fresh) :=
  (h.echoOff.insert ch).keepCurrent e.fresh

/-! ## Backspace -/

theorem RunsOn.erase (h : e.RunsOn s) : (e.act .erase).RunsOn s.erase := by
  have hcursor := h.cursor
  have hstop := h.stop
  have hdist := h.distance
  have hsum := e.line.cursor_add_rest
  show { e with line := e.line.erase 32 }.RunsOn _
  unfold TermState.erase Line.erase
  by_cases hzero : e.line.cursor = 0
  · rw [dif_pos hzero, if_neg (by omega), if_neg (by omega)]
    exact h
  rw [dif_neg hzero]
  by_cases hend : e.line.rest = 0
  · rw [if_pos hend, if_pos (by omega)]
    apply h.setLine
    · show (List.range (s.keyboardBufferEndIdx - 1).toNat).map _ = _
      rw [show (s.keyboardBufferEndIdx - 1).toNat = e.line.text.length - 1 by omega,
        map_range_update_of_le _ (by omega), ← dropLast_map_range, h.row]
    · show s.keyboardBufferEndIdx - 1 = _
      rw [List.length_dropLast]
      omega
    · show s.keyboardCursorIdx - 1 = _
      dsimp only
      omega
    · show s.distanceFromRight = _
      unfold Line.rest
      dsimp only
      rw [List.length_dropLast]
      omega
    · exact ⟨rfl, rfl, rfl, rfl, rfl⟩
  · have hplace : e.line.cursor - 1 ≤ e.line.text.length := by omega
    rw [if_neg hend, if_neg (by omega), if_pos (by omega)]
    apply h.setLine
    · show (List.range s.keyboardBufferEndIdx.toNat).map _ = _
      have hcells := map_range_update s.keyboardBuffer hplace 32
      rw [h.row] at hcells
      refine Eq.trans ?_ hcells
      rw [hstop, Int.toNat_natCast, show (s.keyboardCursorIdx - 1).toNat = e.line.cursor - 1 by
        omega, Nat.max_eq_left (by omega)]
    · show s.keyboardBufferEndIdx = _
      rw [length_overwrite hplace]
      omega
    · show s.keyboardCursorIdx - 1 = _
      dsimp only
      omega
    · show s.distanceFromRight + 1 = _
      unfold Line.rest
      dsimp only
      rw [length_overwrite hplace]
      omega
    · exact ⟨rfl, rfl, rfl, rfl, rfl⟩

/-- **Backspace.** -/
theorem RunsOn.eraseLine (h : e.RunsOn s) : (e.act .erase).RunsOn s.eraseLine := by
  have herase := h.erase
  unfold TermState.eraseLine Console.backspaceAhead
  split
  · exact ⟨herase.shell, herase.text, herase.stop, herase.cursor, herase.distance, herase.copy,
      herase.copied, herase.last, herase.silent, herase.command, herase.modifiers⟩
  · exact herase

/-! ## Arrows -/

/-- **The left arrow**, when it moves the cursor. -/
theorem RunsOn.pressLeft (h : e.RunsOn s) (hpos : 0 < e.line.cursor) {moves : Prop}
    [Decidable moves] (hmoves : moves) : (e.act .left).RunsOn (s.pressLeft moves) := by
  have hgo := h.congr s.sameLine_goLeft
  have hcursor := hgo.cursor
  have hdist := hgo.distance
  have hsum := e.line.cursor_add_rest
  unfold TermState.pressLeft
  simp only [if_pos hmoves]
  apply hgo.setLine (l := e.line.left)
  · exact hgo.text
  · exact hgo.stop
  · show s.goLeft.keyboardCursorIdx - 1 = ((e.line.cursor - 1 : Nat) : Int)
    omega
  · show s.goLeft.distanceFromRight + 1 = ((e.line.text.length - (e.line.cursor - 1) : Nat) : Int)
    omega
  · exact ⟨rfl, rfl, rfl, rfl, rfl⟩

/-- **The right arrow** inside the line. -/
theorem RunsOn.pressRight (h : e.RunsOn s) (hrest : e.line.rest ≠ 0) (moves : Prop)
    [Decidable moves] : (e.act (.right (decide moves))).RunsOn (s.pressRight moves) := by
  have hsum := e.line.cursor_add_rest
  unfold TermState.pressRight
  by_cases hmoves : moves
  · have hgo := h.congr s.sameLine_goRight
    have hcursor := hgo.cursor
    have hdist := hgo.distance
    have hact : e.act (.right (decide moves)) = { e with line := e.line.right } :=
      if_pos (decide_eq_true hmoves)
    have hright : e.line.right.text = e.line.text ∧ e.line.right.cursor = e.line.cursor + 1 := by
      unfold Line.right
      rw [dif_neg hrest]
      exact ⟨rfl, rfl⟩
    simp only [if_pos hmoves]
    rw [hact]
    apply hgo.setLine
    · exact hgo.text.trans hright.1.symm
    · rw [hright.1]
      exact hgo.stop
    · rw [hright.2]
      show s.goRight.keyboardCursorIdx + 1 = _
      omega
    · unfold Line.rest
      rw [hright.1, hright.2]
      show s.goRight.distanceFromRight - 1 = _
      omega
    · exact ⟨rfl, rfl, rfl, rfl, rfl⟩
  · have hact : e.act (.right (decide moves)) = e :=
      if_neg (by rw [decide_eq_true_eq]; exact hmoves)
    simp only [if_neg hmoves]
    rw [hact]
    apply h.setLine
    · exact h.text
    · exact h.stop
    · exact (Int.add_zero _).trans h.cursor
    · exact (Int.sub_zero _).trans h.distance
    · exact ⟨rfl, rfl, rfl, rfl, rfl⟩

/-- The line is replaced, with the cursor behind it. -/
theorem RunsOn.setAtEnd (h : e.RunsOn s) {text : List UInt8} {hle : text.length ≤ 127}
    (htext : s'.lineChars = text) (hstop : s'.keyboardBufferEndIdx = text.length)
    (hcursor : s'.keyboardCursorIdx = s'.keyboardBufferEndIdx) (hdist : s'.distanceFromRight = 0)
    (hrest : s'.shellFlag = s.shellFlag ∧ s'.currentChars = s.currentChars ∧
      s'.currentBufIndex = s.currentBufIndex ∧ s'.lastCommand = s.lastCommand ∧
      s'.modifiers = s.modifiers) : { e with line := .atEnd text hle }.RunsOn s' := by
  apply h.setLine
  · exact htext
  · exact hstop
  · exact hcursor.trans hstop
  · unfold Line.rest Line.atEnd
    rw [hdist, Nat.sub_self]
    rfl
  · exact hrest

/-- The flag of the two arrows is not kept for each terminal. -/
theorem RunsOn.setFresh (h : e.RunsOn s) (b : Bool) : { e with fresh := b }.RunsOn s :=
  ⟨h.shell, h.text, h.stop, h.cursor, h.distance, h.copy, h.copied, h.last, h.silent, h.command,
    h.modifiers⟩

/-- **The up arrow**, when it recalls a command. -/
theorem RunsOn.recalled (h : e.RunsOn s) (hfresh : e.fresh = true) (hlast : s.lastBufIndex ≤ 127)
    (hbuf : s.lastBuf 0 ≠ 0) (htext : Console.SameText s.recalled s')
    (hcursor : s'.keyboardCursorIdx = s.lastBufIndex) (hdist : s'.distanceFromRight = 0) :
    (e.act .recallLast).RunsOn s' ∧ (e.act .recallLast).fresh = false := by
  have hcommand := h.command hbuf hlast
  have hlen : (s.lastChars.length : Int) = s.lastBufIndex := by
    have hnonneg := h.last
    unfold TermState.lastChars
    rw [List.length_map, List.length_range]
    omega
  obtain ⟨l, hl, hval⟩ := Option.map_eq_some_iff.mp hcommand
  have hact : e.act .recallLast = { e with line := .atEnd l.val l.property, fresh := false } := by
    show e.recallLast = _
    unfold LineEditor.recallLast
    rw [hl]
    exact if_pos hfresh
  have hline : { e with line := .atEnd l.val l.property }.RunsOn s' := by
    apply h.setAtEnd
    · rw [htext.lineChars, TermState.lineChars_recalled]
      exact hval.symm
    · rw [htext.stop, hval, hlen]
      rfl
    · rw [hcursor, htext.stop]
      rfl
    · exact hdist
    · unfold Console.SameText at htext
      rw [htext]
      exact ⟨rfl, rfl, rfl, rfl, rfl⟩
  rw [hact]
  exact ⟨hline.setFresh false, rfl⟩

/-- **The down arrow.** -/
theorem RunsOn.putBack (h : e.RunsOn s) (htext : Console.SameText s.putBack s')
    (hcursor : s'.keyboardCursorIdx = s.currentBufIndex) (hdist : s'.distanceFromRight = 0) :
    (e.act .putBack).RunsOn s' := by
  have hline : { e with line := .atEnd e.copy.val e.copy.property }.RunsOn s' := by
    apply h.setAtEnd
    · rw [htext.lineChars, TermState.lineChars_putBack]
      exact h.copy
    · rw [htext.stop]
      exact h.copied
    · rw [hcursor, htext.stop]
      rfl
    · exact hdist
    · unfold Console.SameText at htext
      rw [htext]
      exact ⟨rfl, rfl, rfl, rfl, rfl⟩
  exact hline.setFresh true

end

end LineEditor

/-! ## The flag of the two arrows -/

namespace Console

theorem sysWriteTerminal_flag (c : Console) (buf : Mem) (n : Int) :
    (c.sysWriteTerminal buf n).1.notInPrevCmdFlag = c.notInPrevCmdFlag := by
  unfold sysWriteTerminal
  split
  · rfl
  · split
    · rfl
    · split
      · exact (drawn_putcs c _).notInPrevCmdFlag
      · exact (drawn_putcs c _).notInPrevCmdFlag

theorem toLineEnd_flag (c : Console) (n : Nat) :
    (toLineEnd n c).notInPrevCmdFlag = c.notInPrevCmdFlag := by
  induction n generalizing c with
  | zero => rfl
  | succ n ih =>
      unfold toLineEnd
      rw [ih, modify_notInPrevCmdFlag]
      exact (drawn_rightArrow c).notInPrevCmdFlag

theorem iterate_backspace_flag (c : Console) (n : Nat) :
    (backspace^[n] c).notInPrevCmdFlag = c.notInPrevCmdFlag := by
  induction n generalizing c with
  | zero => rfl
  | succ n ih => exact (ih c.backspace).trans (drawn_backspace c).notInPrevCmdFlag

theorem eraseLine_flag (c : Console) (n : Nat) :
    (eraseLine n c).notInPrevCmdFlag = c.notInPrevCmdFlag := by
  induction n generalizing c with
  | zero => rfl
  | succ n ih =>
      unfold eraseLine
      rw [ih]
      exact (drawn_backspace _).notInPrevCmdFlag

theorem upArrow_flag {c c' : Console} (hr : c.Recalls) (h : c.upArrow = some c') :
    c'.notInPrevCmdFlag = false := by
  rw [upArrow_of_recalls hr rfl rfl] at h
  unfold recallLine at h
  dsimp only at h
  split at h
  · cases h
    rw [modify_notInPrevCmdFlag, sysWriteTerminal_flag, iterate_backspace_flag,
      modify_notInPrevCmdFlag, toLineEnd_flag]
  · cases h

theorem downArrow_flag {c c' : Console} (hshell : (c.term c.visibleTerminal).shellFlag = true)
    (h : c.downArrow = some c') : c'.notInPrevCmdFlag = true := by
  rw [downArrow_eq rfl rfl, if_pos hshell] at h
  unfold putBackLine at h
  dsimp only at h
  split at h
  · cases h
    rw [modify_notInPrevCmdFlag, sysWriteTerminal_flag, eraseLine_flag, modify_notInPrevCmdFlag,
      toLineEnd_flag]
  · cases h

end Console

/-! ## The actions of the keys -/

/-- What a modifier key does. -/
def Modifiers.turn (m : Modifiers) (pressed : Nat) : Modifiers :=
  if pressed = CAPS_LOCK_PRESSED then { m with caps := !m.caps }
  else if pressed = LEFT_SHIFT_PRESSED ∨ pressed = RIGHT_SHIFT_PRESSED then { m with shift := true }
  else if pressed = LEFT_SHIFT_RELEASED ∨ pressed = RIGHT_SHIFT_RELEASED then
    { m with shift := false }
  else if pressed = LEFT_CONTROL_PRESSED then { m with control := true }
  else if pressed = LEFT_CONTROL_RELEASED then { m with control := false }
  else if pressed = LEFT_ALT_PRESSED then { m with alt := true }
  else { m with alt := false }

namespace Console

theorem modifierKey_turn (c : Console) {pressed : Nat} (h : pressed ∈ modifierCodes) :
    c.modifierKey pressed =
      some (c.modifyAll fun s => s.setModifiers (s.modifiers.turn pressed)).leave := by
  unfold modifierKey Modifiers.turn
  split_ifs with h₁ h₂ h₃ h₄ h₅ h₆ h₇
  · rfl
  · rfl
  · rfl
  · rfl
  · rfl
  · rfl
  · rfl
  · simp only [modifierCodes, List.mem_cons, List.not_mem_nil, or_false] at h
    simp only [not_or] at h₂ h₃
    simp only [h₁, h₂, h₃, h₄, h₅, h₆, h₇, or_self] at h

/-- What a key other than Enter and Ctrl+L means to the line editor. -/
def action (c : Console) (pressed : Nat) : EditAction :=
  let s := c.term c.visibleTerminal
  if pressed = UP_ARROW_PRESSED then .recallLast
  else if pressed = DOWN_ARROW_PRESSED then .putBack
  else if pressed = BACKSPACE then .erase
  else if pressed = LEFT_ARROW_PRESSED then .left
  else if pressed = RIGHT_ARROW_PRESSED then .right (decide c.RightMoves)
  else if pressed ∈ modifierCodes then .turn (s.modifiers.turn pressed)
  else if pressed > START_IGNORE ∨ (s.altOn = true ∧ switchKey pressed ≠ none) then .rest
  else .type (c.outputChar pressed)

/-- The keys with which a line is edited on the visible terminal. A left arrow that moves the
index moves the cursor, and a command that is recalled fits the editor. -/
structure EditorKey (c : Console) (pressed : Nat) : Prop where
  enter : pressed ≠ ENTER_PRESSED
  clear : ¬ ((c.term c.visibleTerminal).controlOn = true ∧ pressed = L_SCANCODE)
  stays : c.StaysOn pressed
  left : pressed = LEFT_ARROW_PRESSED → c.CallsLeft → c.LeftMoves
  recallLast : pressed = UP_ARROW_PRESSED → c.Recalls →
    (c.term c.visibleTerminal).lastBufIndex ≤ 127

end Console

/-! ## One key -/

namespace LineEditor

open Console (AllOnScreen)

/-- The shown terminal runs the editor. -/
structure Runs (e : LineEditor) (c : Console) : Prop where
  onScreen : AllOnScreen c
  fresh : c.notInPrevCmdFlag = e.fresh
  shown : e.RunsOn (c.term c.visibleTerminal)

/-- The console after a key on which the editor is `e'`. -/
structure Next (e' : LineEditor) (c c' : Console) : Prop where
  runs : e'.Runs c'
  visible : c'.visibleTerminal = c.visibleTerminal
  behindScancodes : c'.behindScancodes = c.behindScancodes

section

variable {e : LineEditor} {c c' : Console} {scancode : UInt8}

/-- A key that turns into no character leaves the line alone. -/
theorem Runs.leave (h : e.Runs c) :
    Next e c (Console.leave { c with putcToVisibleFlag := true }) :=
  ⟨⟨h.onScreen, h.fresh, h.shown⟩, rfl, rfl⟩

/-- A plain key, from what it does to the shown terminal. -/
theorem Runs.next {e' : LineEditor} (h : e.Runs c) (hp : c.Plain scancode.toNat)
    (hc' : c.keyboardInterrupt scancode = some c') (hfresh : c'.notInPrevCmdFlag = e'.fresh)
    (hshown : e'.RunsOn (c'.term c.visibleTerminal)) : Next e' c c' := by
  have hv := Console.plain_visible (h.onScreen _) hp hc'
  have hbehind : c'.behindScancodes = c.behindScancodes := by
    obtain ⟨c₁, hsteady, rfl⟩ := Console.plain_steady (h.onScreen _) hp hc'
    exact hsteady.behindScancodes
  refine ⟨⟨Console.allOnScreen_keyboardInterrupt h.onScreen hc', hfresh, ?_⟩, hv, hbehind⟩
  rw [hv]
  exact hshown

theorem Runs.char (h : e.Runs c) (hk : c.HasChar scancode.toNat)
    (hp : scancode.toNat ≠ ENTER_PRESSED) : ∃ c', c.keyboardInterrupt scancode = some c' ∧
      Next (e.act (.type (c.outputChar scancode.toNat))) c c' := by
  obtain ⟨c', hc'⟩ : ∃ c', c.keyboardInterrupt scancode = some c' :=
    ⟨_, Console.keyboardInterrupt_char_eq hk hp h.shown.fits_cursor⟩
  have hline := Console.char_sameLine hk hp h.shown.fits_cursor hc'
  have hne : ∀ code, START_IGNORE < code → scancode.toNat ≠ code := by
    intro code hlt heq
    exact absurd hk.2.1 (by omega)
  have hkeeps := Console.keyboardInterrupt_keepsHistory (hne _ (by decide)) (hne _ (by decide))
    hp hc'
  refine ⟨_, hc', h.next hk.1 hc' (hkeeps.flag.trans h.fresh) ?_⟩
  rw [h.fresh] at hline
  exact ((h.shown.typeLine _).typeAhead _).congr hline

theorem Runs.back (h : e.Runs c) (hp : scancode.toNat = BACKSPACE) :
    ∃ c', c.keyboardInterrupt scancode = some c' ∧ Next (e.act .erase) c c' := by
  have hroom : (c.term c.visibleTerminal).keyboardCursorIdx < KEYBOARD_BUFFER_SIZE := by
    have hcursor := h.shown.cursor
    have hle := e.line.cursor_le
    have htext := e.line.text_le
    unfold KEYBOARD_BUFFER_SIZE
    omega
  obtain ⟨c', hc'⟩ : ∃ c', c.keyboardInterrupt scancode = some c' :=
    ⟨_, Console.keyboardInterrupt_backspace_eq hp hroom⟩
  have hline := Console.backspace_key_sameLine hp hroom hc'
  have hkeeps := Console.keyboardInterrupt_keepsHistory (by rw [hp]; decide) (by rw [hp]; decide)
    (by rw [hp]; decide) hc'
  have hplain : c.Plain scancode.toNat := hp ▸ ⟨by decide, fun _ => by decide⟩
  refine ⟨_, hc', h.next hplain hc' (hkeeps.flag.trans h.fresh) ?_⟩
  exact h.shown.eraseLine.congr hline

theorem Runs.left (h : e.Runs c) (hmoves : c.CallsLeft → c.LeftMoves) :
    ∃ c', c.keyboardInterrupt Console.leftKey = some c' ∧ Next (e.act .left) c c' := by
  refine ⟨_, c.keyboardInterrupt_left, ?_⟩
  by_cases hcalls : c.CallsLeft
  · have hpos : 0 < e.line.cursor := by
      have hcursor := h.shown.cursor
      have hgt := hcalls.2
      omega
    have hpress := h.shown.pressLeft hpos (hmoves hcalls)
    rw [if_pos hcalls]
    have hplain : c.Plain Console.leftKey.toNat := c.plain_arrow (Or.inl rfl)
    refine h.next hplain ?_ h.fresh ?_
    · rw [c.keyboardInterrupt_left, if_pos hcalls]
    · rw [Console.leave_term, Console.modify_term_self]
      exact hpress
  · have hzero : e.line.cursor = 0 := by
      have hcursor := h.shown.cursor
      by_contra hne
      exact hcalls ⟨h.shown.shell, by omega⟩
    have hact : e.act .left = e := by
      show { e with line := e.line.left } = e
      have hleft : e.line.left = e.line := by
        unfold Line.left
        ext1
        · rfl
        · show e.line.cursor - 1 = e.line.cursor
          omega
      rw [hleft]
    rw [if_neg hcalls, hact]
    exact ⟨⟨h.onScreen, h.fresh, h.shown⟩, rfl, rfl⟩

/-- The right arrow is not taken behind the line. -/
theorem Runs.rest_eq_zero (h : e.Runs c) (hcalls : ¬ c.CallsRight) : e.line.rest = 0 := by
  have hdist := h.shown.distance
  have hcursor := h.shown.cursor
  have hsum := e.line.cursor_add_rest
  have htext := e.line.text_le
  by_contra hne
  refine hcalls ⟨?_, ?_, h.shown.shell⟩
  · omega
  · unfold KEYBOARD_BUFFER_SIZE
    omega

theorem Runs.right (h : e.Runs c) : ∃ c', c.keyboardInterrupt Console.rightKey = some c' ∧
    Next (e.act (.right (decide c.RightMoves))) c c' := by
  have hdist := h.shown.distance
  refine ⟨_, c.keyboardInterrupt_right, ?_⟩
  by_cases hcalls : c.CallsRight
  · have hrest : e.line.rest ≠ 0 := by
      have hpos := hcalls.1
      omega
    have hpress := h.shown.pressRight hrest c.RightMoves
    rw [if_pos hcalls]
    have hplain : c.Plain Console.rightKey.toNat := c.plain_arrow (Or.inr rfl)
    refine h.next hplain ?_ ?_ ?_
    · rw [c.keyboardInterrupt_right, if_pos hcalls]
    · exact h.fresh.trans (e.act_right_fresh _).symm
    · rw [Console.leave_term, Console.modify_term_self]
      exact hpress
  · rw [if_neg hcalls, act_right_atEnd (h.rest_eq_zero hcalls)]
    exact ⟨⟨h.onScreen, h.fresh, h.shown⟩, rfl, rfl⟩

theorem toEnd_distance {l : LineIdx} (h : 0 ≤ l.distance) (n : Int) :
    (l.toEnd n).distance = 0 := by
  unfold LineIdx.toEnd
  dsimp only
  omega

theorem RunsOn.distance_nonneg {s : TermState} (h : e.RunsOn s) : 0 ≤ s.lineIdx.distance := by
  have hdist : s.lineIdx.distance = e.line.rest := h.distance
  omega

theorem Runs.up (h : e.Runs c)
    (hlast : c.Recalls → (c.term c.visibleTerminal).lastBufIndex ≤ 127) :
    ∃ c', c.keyboardInterrupt Console.upKey = some c' ∧ Next (e.act .recallLast) c c' := by
  have hplain : c.Plain Console.upKey.toNat := ⟨by decide, fun _ => by decide⟩
  by_cases hr : c.Recalls
  · have hfresh : e.fresh = true := h.fresh.symm.trans hr.2.2
    have hshort := hlast hr
    have hnonneg := h.shown.last
    have hstop := h.shown.stop
    have htext := e.line.text_le
    have hline : c.keyLine Console.upKey.toNat
        = (c.term c.visibleTerminal).lineIdx.toEnd (c.term c.visibleTerminal).lineIdx.last :=
      if_pos hr
    obtain ⟨c', hc', _, hsame⟩ := Console.up_key (h.onScreen _) hr (by
      unfold Console.fits KEYBOARD_BUFFER_SIZE
      omega) (by
      unfold Console.fits KEYBOARD_BUFFER_SIZE
      omega)
    have hidx := (Console.keyboardInterrupt_lineIdx hplain hc').trans hline
    rw [Console.plain_visible (h.onScreen _) hplain hc'] at hsame
    obtain ⟨hruns, hfalse⟩ := h.shown.recalled hfresh hshort hr.2.1 hsame
      (congrArg LineIdx.cursor hidx)
      ((congrArg LineIdx.distance hidx).trans (toEnd_distance h.shown.distance_nonneg _))
    refine ⟨c', hc', h.next hplain hc' ?_ hruns⟩
    rw [hfalse]
    rw [Console.keyboardInterrupt_up] at hc'
    obtain ⟨c₁, hc₁, rfl⟩ := Option.map_eq_some_iff.mp hc'
    have hflag : c₁.notInPrevCmdFlag = false :=
      Console.upArrow_flag (c := { c with putcToVisibleFlag := true }) hr hc₁
    exact hflag
  · have hact : e.act .recallLast = e := by
      show e.recallLast = e
      unfold LineEditor.recallLast
      split
      · rename_i l hl
        refine if_neg fun hfresh => hr ⟨h.shown.shell, fun hbuf => ?_, h.fresh.trans hfresh⟩
        have hnone := h.shown.silent hbuf
        rw [hl] at hnone
        cases hnone
      · rfl
    rw [hact]
    refine ⟨_, ?_, h.leave⟩
    rw [Console.keyboardInterrupt_up]
    exact congrArg (Option.map Console.leave) (Console.upArrow_of_not_recalls
      (c := { c with putcToVisibleFlag := true }) hr)

theorem Runs.down (h : e.Runs c) :
    ∃ c', c.keyboardInterrupt Console.downKey = some c' ∧ Next (e.act .putBack) c c' := by
  have hplain : c.Plain Console.downKey.toNat := ⟨by decide, fun _ => by decide⟩
  have hcopied := h.shown.copied
  have hcopy := e.copy.property
  have hline : c.keyLine Console.downKey.toNat
      = (c.term c.visibleTerminal).lineIdx.toEnd (c.term c.visibleTerminal).lineIdx.current :=
    if_pos h.shown.shell
  obtain ⟨c', hc', hsame⟩ := Console.down_key (h.onScreen _) h.shown.shell (by
    unfold Console.fits KEYBOARD_BUFFER_SIZE
    omega)
  have hidx := (Console.keyboardInterrupt_lineIdx hplain hc').trans hline
  rw [Console.plain_visible (h.onScreen _) hplain hc'] at hsame
  have hruns := h.shown.putBack hsame (congrArg LineIdx.cursor hidx)
    ((congrArg LineIdx.distance hidx).trans (toEnd_distance h.shown.distance_nonneg _))
  refine ⟨c', hc', h.next hplain hc' ?_ hruns⟩
  rw [Console.keyboardInterrupt_down] at hc'
  obtain ⟨c₁, hc₁, rfl⟩ := Option.map_eq_some_iff.mp hc'
  have hflag : c₁.notInPrevCmdFlag = true :=
    Console.downArrow_flag (c := { c with putcToVisibleFlag := true }) h.shown.shell hc₁
  exact hflag

/-- A modifier. -/
theorem Runs.turn (h : e.Runs c) (hp : scancode.toNat ∈ Console.modifierCodes) :
    ∃ c', c.keyboardInterrupt scancode = some c' ∧ Next
      (e.act (.turn ((c.term c.visibleTerminal).modifiers.turn scancode.toNat))) c c' := by
  have hkey := Console.keyboardInterrupt_modifier c hp
  rw [Console.modifierKey_turn _ hp] at hkey
  refine ⟨_, hkey, ⟨⟨h.onScreen, h.fresh, ?_⟩, rfl, rfl⟩⟩
  have hs := h.shown
  exact ⟨hs.shell, hs.text, hs.stop, hs.cursor, hs.distance, hs.copy, hs.copied, hs.last,
    hs.silent, hs.command, rfl⟩

/-- A switch to the terminal that is shown. -/
theorem Runs.same (h : e.Runs c) (halt : (c.term c.visibleTerminal).altOn = true)
    (ht : Console.switchKey scancode.toNat = some c.visibleTerminal) :
    ∃ c', c.keyboardInterrupt scancode = some c' ∧ Next e c c' := by
  have hne : ∀ code, Console.switchKey code = none → scancode.toNat ≠ code := by
    intro code hcode heq
    rw [heq, hcode] at ht
    cases ht
  refine ⟨_, ?_, h.leave⟩
  rw [Console.keyboardInterrupt_eq, if_neg (hne _ (by decide)), if_neg (hne _ (by decide))]
  unfold Console.afterArrows
  dsimp only
  have hmod : scancode.toNat ∉ Console.modifierCodes := by
    intro hmem
    exact hne _ (Console.switchKey_modifier hmem) rfl
  rw [if_neg (hne _ (by decide)), if_neg fun hk => hne _ (by decide) hk.1,
    if_neg fun hk => hne _ (by decide) hk.1, Console.modifierKey_eq_none _ hmod, if_pos halt, ht]
  exact congrArg some (if_pos rfl)

/-- **The keys of the line editor.** A terminal that runs an editor runs it after every key but
Enter and Ctrl+L, with what the key means to it. -/
theorem Runs.keyboardInterrupt (h : e.Runs c) (hk : c.EditorKey scancode.toNat) :
    ∃ c', c.keyboardInterrupt scancode = some c' ∧
      Next (e.act (c.action scancode.toNat)) c c' := by
  unfold Console.action
  dsimp only
  split
  · rename_i hp
    obtain rfl : scancode = Console.upKey := UInt8.toNat_inj.mp hp
    exact h.up (hk.recallLast hp)
  rename_i hup
  split
  · rename_i hp
    obtain rfl : scancode = Console.downKey := UInt8.toNat_inj.mp hp
    exact h.down
  rename_i hdown
  split
  · rename_i hp
    exact h.back hp
  rename_i hback
  split
  · rename_i hp
    obtain rfl : scancode = Console.leftKey := UInt8.toNat_inj.mp hp
    exact h.left (hk.left hp)
  rename_i hleft
  split
  · rename_i hp
    obtain rfl : scancode = Console.rightKey := UInt8.toNat_inj.mp hp
    exact h.right
  rename_i hright
  split
  · rename_i hmod
    exact h.turn hmod
  rename_i hmod
  by_cases hswitch : (c.term c.visibleTerminal).altOn = true ∧
      Console.switchKey scancode.toNat ≠ none
  · obtain ⟨halt, hne⟩ := hswitch
    obtain ⟨t, ht⟩ := Option.ne_none_iff_exists'.mp hne
    rw [if_pos (Or.inr ⟨halt, hne⟩)]
    exact h.same halt (ht.trans (congrArg some (hk.stays halt t ht)))
  have hplain : c.Plain scancode.toNat := by
    refine ⟨hmod, fun halt => ?_⟩
    by_contra hne
    exact hswitch ⟨halt, hne⟩
  split
  · rename_i hrest
    have hgt := hrest.resolve_right hswitch
    refine ⟨_, Console.keyboardInterrupt_ignored ⟨hplain, hgt, ?_⟩, h.leave⟩
    simp only [List.mem_cons, List.not_mem_nil, or_false, not_or]
    exact ⟨hup, hdown, hleft, hright⟩
  · rename_i hrest
    have hle : scancode.toNat ≤ START_IGNORE := Nat.not_lt.mp fun hgt => hrest (Or.inl hgt)
    exact h.char ⟨hplain, hle, hback, hk.clear⟩ hk.enter

end

end LineEditor

end Ext2Kernel
