import Ext2Kernel.Console.Agreement
import Ext2Kernel.Console.LineText

set_option autoImplicit false

/-! # The keys of a line, as functions

Where the indices of the line are in its row, a character, backspace and Enter are total, and
what they do to the variables of the shown terminal is a function of these variables alone:
`typeLine`, `eraseLine` and `enterLine`, with the output of the key behind it. The equations of
this file carry the whole state, so that whatever is kept beside the line (the copy for the down
arrow, the last command, the modifiers) can be read off them.
-/

namespace Ext2Kernel

open ByteMem

namespace TermState

/-! ## The line -/

/-- A character at the cursor, if there is room. -/
def insert (s : TermState) (ch : UInt8) : TermState :=
  if s.keyboardCursorIdx < KEYBOARD_BUFFER_SIZE - 1 then
    { s with
      keyboardBuffer := Function.update s.keyboardBuffer s.keyboardCursorIdx.toNat ch
      keyboardCursorIdx := s.keyboardCursorIdx + 1
      keyboardBufferEndIdx :=
        if s.distanceFromRight = 0 then s.keyboardBufferEndIdx + 1 else s.keyboardBufferEndIdx
      distanceFromRight :=
        if s.distanceFromRight > 0 then s.distanceFromRight - 1 else s.distanceFromRight }
  else s

/-- The copy for the down arrow. -/
def keepCurrent (s : TermState) (copies : Bool) : TermState :=
  if copies then
    { s with
      currentBuf := Console.freshCopy s.keyboardBuffer s.keyboardCursorIdx
      currentBufIndex := s.keyboardCursorIdx }
  else s

/-- A character key, before it is echoed. -/
def typeLine (s : TermState) (ch : UInt8) (copies : Bool) : TermState :=
  ((Console.echoOff s).insert ch).keepCurrent copies

/-- Backspace on the line: at its right end the line gets shorter, inside it the character
before the cursor becomes a space. -/
def erase (s : TermState) : TermState :=
  if s.keyboardCursorIdx > 0 ∧ s.distanceFromRight = 0 then
    { s with
      keyboardBuffer := Function.update s.keyboardBuffer s.keyboardCursorIdx.toNat 0
      keyboardCursorIdx := s.keyboardCursorIdx - 1
      keyboardBufferEndIdx := s.keyboardBufferEndIdx - 1
      echoFlag := true }
  else if s.keyboardCursorIdx > 0 then
    { s with
      keyboardBuffer := Function.update s.keyboardBuffer (s.keyboardCursorIdx - 1).toNat 32
      keyboardCursorIdx := s.keyboardCursorIdx - 1
      distanceFromRight := s.distanceFromRight + 1
      echoFlag := true }
  else s

/-- The backspace key, on the line and on the type-ahead. -/
def eraseLine (s : TermState) : TermState := Console.backspaceAhead s.erase

/-- The newline at the end of the line. -/
def endLine (s : TermState) : TermState :=
  { s with
    keyboardBuffer := Function.update s.keyboardBuffer s.keyboardBufferEndIdx.toNat 10
    keyboardBufferEndIdx := s.keyboardBufferEndIdx + 1 }

/-- The command of a shell, for the up arrow. -/
def saveCommand (s : TermState) : TermState :=
  if s.shellFlag then
    { s with
      lastBuf := Console.freshCopy s.keyboardBuffer (s.keyboardBufferEndIdx - 1)
      lastBufIndex := s.keyboardBufferEndIdx - 1 }
  else s

/-- Enter, before it is echoed. -/
def enterLine (s : TermState) : TermState :=
  (Console.wakeReader (Console.echoOff s).endLine.saveCommand).keepCurrent true

end TermState

namespace Console

/-! ## The blocks of a character key -/

section

variable {c : Console} {v : Terminal} (hv : c.visibleTerminal = v)

include hv

theorem insertChar_eq {pressed : Nat} (hp : pressed ≠ ENTER_PRESSED) (ch : UInt8)
    (hcur : 0 ≤ (c.term v).keyboardCursorIdx) :
    c.insertChar pressed ch = some (c.modify v fun s => s.insert ch) := by
  subst hv
  unfold insertChar
  dsimp only
  by_cases hroom : (c.term c.visibleTerminal).keyboardCursorIdx < KEYBOARD_BUFFER_SIZE - 1
  · rw [if_pos ⟨hroom, hp⟩, storeKbd_own c _ ch hcur (by omega), Option.map_some, modify_modify]
    refine congrArg some (modify_congr ?_)
    unfold TermState.insert
    rw [if_pos hroom]
  · rw [if_neg fun hk => hroom hk.1, modify_self]
    exact if_neg hroom

theorem saveCurrent_eq (hcur : fits (c.term v).keyboardCursorIdx) :
    c.saveCurrent = some (c.modify v fun s => s.keepCurrent c.notInPrevCmdFlag) := by
  subst hv
  unfold saveCurrent
  dsimp only
  cases hflag : c.notInPrevCmdFlag with
  | true =>
      rw [if_pos rfl, if_pos hcur]
      rfl
  | false =>
      rw [if_neg Bool.false_ne_true, modify_self]
      rfl

end

theorem insert_cursor {s : TermState} (ch : UInt8) (h : fits s.keyboardCursorIdx) :
    fits (s.insert ch).keyboardCursorIdx := by
  unfold TermState.insert fits KEYBOARD_BUFFER_SIZE at *
  split <;> (try dsimp only) <;> omega

theorem charKey_line {c : Console} {v : Terminal} (hv : c.visibleTerminal = v) {pressed : Nat}
    (hp : pressed ≠ ENTER_PRESSED) (hcur : fits (c.term v).keyboardCursorIdx) :
    c.charKey pressed = some ((c.modify v fun s => s.typeLine (c.outputChar pressed)
      c.notInPrevCmdFlag).finish v (c.outputChar pressed)).leave := by
  have hecho : (echoOff (c.term v)).keyboardCursorIdx = (c.term v).keyboardCursorIdx :=
    congrArg LineIdx.cursor (echoOff_lineText _).2
  have hcur₁ : fits ((c.modify v echoOff).term v).keyboardCursorIdx := by
    rw [modify_term_self, hecho]
    exact hcur
  rw [charKey_eq, hv]
  generalize c.outputChar pressed = ch
  have hsave := saveCurrent_eq (c := (c.modify v echoOff).modify v fun s => s.insert ch) hv (by
    rw [modify_term_self]
    exact insert_cursor ch hcur₁)
  rw [insertChar_eq (c := c.modify v echoOff) hv hp ch hcur₁.1, Option.bind_some,
    enterKey_char _ hp, Option.bind_some, hsave, Option.map_some, Option.map_some, modify_modify,
    modify_modify]
  rfl

theorem enterKey_line {c : Console} {v : Terminal} (hv : c.visibleTerminal = v)
    (h₀ : 0 ≤ (c.term v).keyboardBufferEndIdx)
    (h₁ : (c.term v).keyboardBufferEndIdx < KEYBOARD_BUFFER_SIZE) :
    c.enterKey ENTER_PRESSED 10 = some ({ c with notInPrevCmdFlag := true }.modify v fun s =>
      wakeReader s.endLine.saveCommand) := by
  have hend : ({ c with notInPrevCmdFlag := true }).endLine 10
      = some ({ c with notInPrevCmdFlag := true }.modify v TermState.endLine) := by
    unfold endLine
    dsimp only
    rw [hv, if_pos h₁, storeKbd_own _ v 10 h₀ h₁, Option.map_some, modify_modify]
    rfl
  have hcommand : Console.saveCommand (c.term v).endLine
      = some (c.term v).endLine.saveCommand := by
    unfold Console.saveCommand TermState.saveCommand
    split
    · rw [if_pos]
      unfold TermState.endLine fits
      dsimp only
      omega
    · rfl
  rw [enterKey_enter hv, hend, Option.bind_some, modify_term_self, hcommand, Option.map_some,
    modify_modify]
  rfl

theorem charKey_enter {c : Console} {v : Terminal} (hv : c.visibleTerminal = v)
    (h₀ : 0 ≤ (c.term v).keyboardBufferEndIdx)
    (h₁ : (c.term v).keyboardBufferEndIdx < KEYBOARD_BUFFER_SIZE) :
    c.charKey ENTER_PRESSED = some (({ c with notInPrevCmdFlag := true }.modify v
      TermState.enterLine).finish v 10).leave := by
  have hend : (echoOff (c.term v)).keyboardBufferEndIdx = (c.term v).keyboardBufferEndIdx :=
    congrArg LineIdx.stop (echoOff_lineText _).2
  have hstop : ((c.modify v echoOff).term v).keyboardBufferEndIdx
      = (c.term v).keyboardBufferEndIdx := by
    rw [modify_term_self, hend]
  have hkey := enterKey_line (c := c.modify v echoOff) hv (hstop ▸ h₀) (hstop ▸ h₁)
  have hsave := saveCurrent_eq (c := { c.modify v echoOff with notInPrevCmdFlag := true }.modify v
    fun s => wakeReader s.endLine.saveCommand) hv (by
      rw [modify_term_self]
      exact show fits 0 by decide)
  have hchar := charKey_eq c ENTER_PRESSED
  rw [hv, outputChar_enter, insertChar_enter, Option.bind_some, hkey, Option.bind_some] at hchar
  rw [hchar, hsave, Option.map_some, Option.map_some]
  refine congrArg (fun c : Console => some (c.finish v 10).leave) ?_
  show ((({ c with notInPrevCmdFlag := true }.modify v echoOff).modify v fun s =>
    wakeReader s.endLine.saveCommand).modify v fun s => s.keepCurrent true) = _
  rw [modify_modify, modify_modify]
  rfl

/-! ## The equations -/

/-- **A character key.** -/
theorem keyboardInterrupt_char_eq {c : Console} {scancode : UInt8} (hk : c.HasChar scancode.toNat)
    (hp : scancode.toNat ≠ ENTER_PRESSED)
    (hcur : fits (c.term c.visibleTerminal).keyboardCursorIdx) :
    c.keyboardInterrupt scancode = some (({ c with putcToVisibleFlag := true }.modify
      c.visibleTerminal fun s => s.typeLine (c.outputChar scancode.toNat)
        c.notInPrevCmdFlag).finish c.visibleTerminal (c.outputChar scancode.toNat)).leave := by
  rw [keyboardInterrupt_char hk]
  exact charKey_line (c := { c with putcToVisibleFlag := true }) rfl hp hcur

/-- **Backspace.** -/
theorem keyboardInterrupt_backspace_eq {c : Console} {scancode : UInt8}
    (hp : scancode.toNat = BACKSPACE)
    (hcur : (c.term c.visibleTerminal).keyboardCursorIdx < KEYBOARD_BUFFER_SIZE) :
    c.keyboardInterrupt scancode = some (({ c with putcToVisibleFlag := true }.backspace.modify
      c.visibleTerminal TermState.eraseLine).leave) := by
  have hdrawn := drawn_backspace { c with putcToVisibleFlag := true }
  have hcursor : ({ c with putcToVisibleFlag := true }.backspace.term
      c.visibleTerminal).keyboardCursorIdx = (c.term c.visibleTerminal).keyboardCursorIdx :=
    congrArg LineIdx.cursor (sameLine_lineIdx hdrawn.line)
  have hv : { c with putcToVisibleFlag := true }.backspace.visibleTerminal = c.visibleTerminal :=
    hdrawn.visible
  rw [keyboardInterrupt_backspace hp]
  unfold backspaceKey
  generalize { c with putcToVisibleFlag := true }.backspace = c₁ at *
  have hline : c₁.backspaceLine = some (c₁.modify c.visibleTerminal TermState.erase) := by
    unfold backspaceLine
    dsimp only
    rw [hv]
    split
    · rename_i hend
      rw [storeKbd_own c₁ _ 0 (by omega) (by omega), Option.map_some, modify_modify]
      refine congrArg some (modify_congr ?_)
      exact (if_pos hend).symm
    · rename_i hend
      split
      · rename_i hpos
        rw [storeKbd_own c₁ _ 32 (by omega) (by omega), Option.map_some, modify_modify]
        refine congrArg some (modify_congr ?_)
        exact ((if_neg hend).trans (if_pos hpos)).symm
      · rename_i hzero
        rw [modify_self]
        exact (if_neg hend).trans (if_neg hzero)
  rw [hline, Option.map_some, modify_visibleTerminal, hv, modify_modify]
  rfl

/-- **Enter.** -/
theorem keyboardInterrupt_enter_eq {c : Console} {scancode : UInt8}
    (hp : scancode.toNat = ENTER_PRESSED)
    (h₀ : 0 ≤ (c.term c.visibleTerminal).keyboardBufferEndIdx)
    (h₁ : (c.term c.visibleTerminal).keyboardBufferEndIdx < KEYBOARD_BUFFER_SIZE) :
    c.keyboardInterrupt scancode = some (({ c with
        putcToVisibleFlag := true
        notInPrevCmdFlag := true }.modify c.visibleTerminal TermState.enterLine).finish
      c.visibleTerminal 10).leave := by
  rw [keyboardInterrupt_char (hp ▸ c.hasChar_enter), hp]
  exact charKey_enter (c := { c with putcToVisibleFlag := true }) rfl h₀ h₁

/-! ## The variables behind the output -/

/-- The end of the handler: output, type-ahead and the last scroll. -/
theorem finish_sameLine (c : Console) (v : Terminal) (ch : UInt8) :
    SameLine (typeAhead (c.term v) ch) ((c.finish v ch).term v) := by
  have hahead : ∀ {s s' : TermState}, SameLine s s' →
      SameLine (typeAhead s ch) (typeAhead s' ch) := by
    intro s s' h
    unfold SameLine at h
    rw [h]
    unfold typeAhead
    dsimp only
    split <;> rfl
  have hecho : SameLine (c.term v) ((c.echo ch).term v) := by
    unfold echo
    split
    · exact putc_sameLine ..
    · exact .refl _
  unfold finish
  have hend := wrap_scroll_sameLine ((c.echo ch).modify v fun s => typeAhead s ch) v
  rw [modify_term_self] at hend
  exact (hahead hecho).trans hend

/-- The shown terminal after a character key. -/
theorem char_sameLine {c c' : Console} {scancode : UInt8} (hk : c.HasChar scancode.toNat)
    (hp : scancode.toNat ≠ ENTER_PRESSED)
    (hcur : fits (c.term c.visibleTerminal).keyboardCursorIdx)
    (h : c.keyboardInterrupt scancode = some c') :
    SameLine (typeAhead ((c.term c.visibleTerminal).typeLine (c.outputChar scancode.toNat)
      c.notInPrevCmdFlag) (c.outputChar scancode.toNat)) (c'.term c.visibleTerminal) := by
  rw [keyboardInterrupt_char_eq hk hp hcur] at h
  cases h
  have hend := finish_sameLine ({ c with putcToVisibleFlag := true }.modify c.visibleTerminal
    fun s => s.typeLine (c.outputChar scancode.toNat) c.notInPrevCmdFlag) c.visibleTerminal
    (c.outputChar scancode.toNat)
  rw [modify_term_self] at hend
  exact hend

/-- The shown terminal after a backspace. -/
theorem backspace_key_sameLine {c c' : Console} {scancode : UInt8}
    (hp : scancode.toNat = BACKSPACE)
    (hcur : (c.term c.visibleTerminal).keyboardCursorIdx < KEYBOARD_BUFFER_SIZE)
    (h : c.keyboardInterrupt scancode = some c') :
    SameLine (c.term c.visibleTerminal).eraseLine (c'.term c.visibleTerminal) := by
  rw [keyboardInterrupt_backspace_eq hp hcur] at h
  cases h
  have hline := (drawn_backspace { c with putcToVisibleFlag := true }).line
  rw [leave_term, modify_term_self]
  generalize { c with putcToVisibleFlag := true }.backspace = c₁ at *
  dsimp only at hline
  unfold SameLine at hline
  rw [hline]
  unfold TermState.eraseLine TermState.erase backspaceAhead
  split_ifs <;> rfl

end Console

namespace TermState

/-! ## The modifiers -/

/-- Neither Ctrl nor Alt is held. -/
def NoCtrlAlt (s : TermState) : Prop := s.controlOn = false ∧ s.altOn = false

instance (s : TermState) : Decidable s.NoCtrlAlt := inferInstanceAs (Decidable (_ ∧ _))

theorem NoCtrlAlt.congr {s s' : TermState} (h : s.NoCtrlAlt) (hline : SameLine s s') :
    s'.NoCtrlAlt :=
  ⟨(congrArg controlOn hline).symm.trans h.1, (congrArg altOn hline).symm.trans h.2⟩

theorem NoCtrlAlt.typeAhead {s : TermState} (h : s.NoCtrlAlt) (ch : UInt8) :
    (Console.typeAhead s ch).NoCtrlAlt := by
  unfold Console.typeAhead
  split
  · exact h
  · exact h

theorem NoCtrlAlt.typeLine {s : TermState} (h : s.NoCtrlAlt) (ch : UInt8) (copies : Bool) :
    (s.typeLine ch copies).NoCtrlAlt := by
  obtain ⟨b, hb⟩ := Console.echoOff_eq s
  unfold TermState.typeLine TermState.keepCurrent insert
  rw [hb]
  split_ifs <;> exact h

theorem NoCtrlAlt.eraseLine {s : TermState} (h : s.NoCtrlAlt) : s.eraseLine.NoCtrlAlt := by
  unfold TermState.eraseLine erase Console.backspaceAhead
  split_ifs <;> exact h

end TermState

end Ext2Kernel
