import Ext2Kernel.Console.Screen
import Ext2Kernel.FileSys.Image
import Mathlib.Logic.Function.Iterate

set_option autoImplicit false

/-! # The keyboard handler

`keyboard_interrupt` of `idt_handlers.c` and `_sys_write_terminal`, which it calls to redraw
a line. One definition for each block of the handler, in the order of the source. Results
are `none` where the handler stores or copies outside the character buffers: C gives such a
run no meaning.

`keyboard_buffer` is one array of three rows; an index past the row of the visible terminal
reaches the row of a neighbour, and `storeKbd` follows it there.
-/

namespace Ext2Kernel

open ByteMem

/-! ## Scancodes -/

def ENTER_PRESSED : Nat := 0x1C
def BACKSPACE : Nat := 0x0E
def LEFT_SHIFT_PRESSED : Nat := 0x2A
def LEFT_SHIFT_RELEASED : Nat := 0xAA
def RIGHT_SHIFT_PRESSED : Nat := 0x36
def RIGHT_SHIFT_RELEASED : Nat := 0xB6
def CAPS_LOCK_PRESSED : Nat := 0x3A
def START_RELEASED : Nat := 0x81
def START_IGNORE : Nat := 0x3B
def LEFT_CONTROL_PRESSED : Nat := 0x1D
def LEFT_CONTROL_RELEASED : Nat := 0x9D
def RIGHT_CONTROL_TAG : Nat := 0xE0
def LEFT_ALT_PRESSED : Nat := 0x38
def LEFT_ALT_RELEASED : Nat := 0xB8
def L_SCANCODE : Nat := 0x26
def LEFT_ARROW_PRESSED : Nat := 0x4B
def RIGHT_ARROW_PRESSED : Nat := 0x4D
def UP_ARROW_PRESSED : Nat := 0x48
def DOWN_ARROW_PRESSED : Nat := 0x50
def FUNCTION_ONE_PRESSED : Nat := 0x3B
def FUNCTION_TWO_PRESSED : Nat := 0x3C
def FUNCTION_THREE_PRESSED : Nat := 0x3D

/-- `scancode_to_char`: for each scancode the plain and the shifted character. -/
def scancodeToChar : List UInt8 :=
  [0, 0, 0, 0]
    ++ ascii "1!2@3#4$5%6^7&8*9(0)-_=+" ++ [0, 0, 0, 0]
    ++ ascii "qQwWeErRtTyYuUiIoOpP[\x7b]\x7d" ++ [10, 10, 0, 0]
    ++ ascii "aAsSdDfFgGhHjJkKlL;:" ++ [39, 34, 96, 126, 0, 0]
    ++ ascii "\\|zZxXcCvVbBnNmM,<.>/?" ++ [0, 0]
    ++ ascii "* " ++ [0, 0] ++ ascii "  "

example : scancodeToChar.length = 116 := by decide +kernel

/-- Is the second character of a scancode selected? The tests of the source, in order. -/
def shifted (s : TermState) (pressed : Nat) : Bool :=
  if !s.capsLockOn && s.shiftOn then true
  else if s.capsLockOn && !s.shiftOn && decide (pressed ≥ BACKSPACE)
      && (decide (pressed ≥ 0x10) && decide (pressed ≤ 0x32))
      && !(decide (pressed ≥ 0x27) && decide (pressed ≤ 0x2B))
      && !(decide (pressed ≥ 0x1A) && decide (pressed ≤ LEFT_CONTROL_PRESSED)) then true
  else s.capsLockOn && s.shiftOn
      && (decide (pressed < BACKSPACE) || (decide (pressed ≥ 0x27) && decide (pressed ≤ 0x2B))
        || (decide (pressed ≥ 0x33) && decide (pressed ≤ 0x35))
        || decide (pressed = 0x1A) || decide (pressed = 0x1B))

namespace Console

/-- The character of a key; an index behind the table reads what the linker put there. -/
def outputChar (c : Console) (pressed : Nat) : UInt8 :=
  let i := if shifted (c.term c.visibleTerminal) pressed then pressed * 2 + 1 else pressed * 2
  match scancodeToChar[i]? with
  | some ch => ch
  | none => c.behindScancodes (i - scancodeToChar.length)

/-! ## Buffers -/

/-- A block copy of `n` bytes stays inside a buffer of `KEYBOARD_BUFFER_SIZE` bytes. -/
def fits (n : Int) : Prop := 0 ≤ n ∧ n ≤ KEYBOARD_BUFFER_SIZE

instance (n : Int) : Decidable (fits n) := inferInstanceAs (Decidable (_ ∧ _))

/-- The first `n` bytes of `src`, then NULs: a `memset` of the buffer and a `memcpy`. -/
def freshCopy (src : Mem) (n : Int) : Mem := overlay (fun _ => 0) 0 n.toNat src

/-- `keyboard_buffer[v][i] = b`, through the address in the array of three rows. -/
def storeKbd (c : Console) (v : Terminal) (i : Int) (b : UInt8) : Option Console :=
  let a : Int := KEYBOARD_BUFFER_SIZE * v.val + i
  if 0 ≤ a ∧ a < KEYBOARD_BUFFER_SIZE * NUM_TERMINALS then
    some (c.modify (Fin.ofNat 3 (a.toNat / KEYBOARD_BUFFER_SIZE)) fun s =>
      { s with
        keyboardBuffer :=
          Function.update s.keyboardBuffer (a.toNat % KEYBOARD_BUFFER_SIZE) b })
  else none

/-! ## `_sys_write_terminal` -/

def NO_SUCH_CMD_LEN : Nat := 16

def tooManyMessage : List UInt8 :=
  ascii "Too many processes are currently active.\n"
    ++ ascii "Please terminate one with the 'exit' command to start more.\n"

/-- `_sys_write_terminal` on the bytes from `buf` on (`buf` is not NULL): prints the
characters that are not NUL. The message of the shell is replaced when the last execute
found no free process. -/
def sysWriteTerminal (c : Console) (buf : Mem) (nbytes : Int) : Console × Int :=
  if nbytes < 0 then (c, -1)
  else if nbytes = 0 then (c, 0)
  else if c.tooManyShellsFlag
      ∧ strncmp (ofList (ascii "no such command\n")) buf NO_SUCH_CMD_LEN 0 = 0 then
    (c.putcs tooManyMessage, NO_SUCH_CMD_LEN)
  else
    let l := ((List.range nbytes.toNat).map buf).filter (· ≠ 0)
    (c.putcs l, l.length)

/-! ## Up and down arrow -/

/-- Move the cursor to the right end of the line: `n` is `distance_from_right`. -/
def toLineEnd : Nat → Console → Console
  | 0, c => c
  | n + 1, c =>
      toLineEnd n (c.rightArrow.1.modify c.visibleTerminal fun s =>
        { s with
          keyboardCursorIdx := s.keyboardCursorIdx + 1
          distanceFromRight := s.distanceFromRight - 1 })

/-- The up arrow on a shell: replace the line by the last command. -/
def upArrow (c : Console) : Option Console :=
  let v := c.visibleTerminal
  if (c.term v).shellFlag ∧ (c.term v).lastBuf 0 ≠ 0 ∧ c.notInPrevCmdFlag then
    let c₁ := toLineEnd (c.term v).distanceFromRight.toNat { c with notInPrevCmdFlag := false }
    let s := c₁.term v
    if fits s.keyboardBufferEndIdx ∧ fits s.lastBufIndex then
      let kb := overlay (overlay s.keyboardBuffer 0 s.keyboardBufferEndIdx.toNat fun _ => 0)
        0 s.lastBufIndex.toNat s.lastBuf
      let c₂ := c₁.modify v fun s => { s with keyboardBuffer := kb }
      let c₃ := backspace^[s.keyboardCursorIdx.toNat] c₂
      let c₄ := (c₃.sysWriteTerminal kb s.lastBufIndex).1
      some (c₄.modify v fun s =>
        { s with
          keyboardCursorIdx := s.lastBufIndex
          keyboardBufferEndIdx := s.lastBufIndex })
    else none
  else some c

/-- `while (keyboard_cursor_idx-- > 1) backspace();` -/
def eraseLine : Nat → Console → Console
  | 0, c => c.modify c.visibleTerminal fun s =>
      { s with keyboardCursorIdx := s.keyboardCursorIdx - 1 }
  | n + 1, c => eraseLine n (c.modify c.visibleTerminal fun s =>
      { s with keyboardCursorIdx := s.keyboardCursorIdx - 1 }).backspace

/-- The down arrow on a shell: put back the line that was being typed. -/
def downArrow (c : Console) : Option Console :=
  let v := c.visibleTerminal
  if (c.term v).shellFlag then
    let c₁ := toLineEnd (c.term v).distanceFromRight.toNat { c with notInPrevCmdFlag := true }
    let s := c₁.term v
    if fits s.currentBufIndex then
      let kb := freshCopy s.currentBuf s.currentBufIndex
      let c₂ := c₁.modify v fun s =>
        { s with keyboardBuffer := kb, keyboardCursorIdx := s.keyboardCursorIdx + 1 }
      let c₃ := eraseLine s.keyboardCursorIdx.toNat c₂
      let c₄ := (c₃.sysWriteTerminal kb s.currentBufIndex).1
      some (c₄.modify v fun s =>
        { s with
          keyboardCursorIdx := s.currentBufIndex
          keyboardBufferEndIdx := s.currentBufIndex })
    else none
  else some c

/-! ## Backspace, left and right arrow -/

/-- The line buffer part of the backspace key. -/
def backspaceLine (c : Console) : Option Console :=
  let v := c.visibleTerminal
  let s := c.term v
  if s.keyboardCursorIdx > 0 ∧ s.distanceFromRight = 0 then
    (c.storeKbd v s.keyboardCursorIdx 0).map fun c => c.modify v fun s =>
      { s with
        keyboardCursorIdx := s.keyboardCursorIdx - 1
        keyboardBufferEndIdx := s.keyboardBufferEndIdx - 1
        echoFlag := true }
  else if s.keyboardCursorIdx > 0 then
    (c.storeKbd v (s.keyboardCursorIdx - 1) 32).map fun c => c.modify v fun s =>
      { s with
        keyboardCursorIdx := s.keyboardCursorIdx - 1
        distanceFromRight := s.distanceFromRight + 1
        echoFlag := true }
  else some c

/-- The type-ahead part of the backspace key. -/
def backspaceAhead (s : TermState) : TermState :=
  if s.typingDuringProgFlag ∧ s.tempKbdIdx > 0 then
    { s with
      tempKbdIdx := s.tempKbdIdx - 1
      tempKbdBuf := Function.update s.tempKbdBuf (s.tempKbdIdx - 1).toNat 0 }
  else s

/-- Every path out of the handler resets `putc_to_visible_flag`. -/
def leave (c : Console) : Console := { c with putcToVisibleFlag := false }

def backspaceKey (c : Console) : Option Console :=
  c.backspace.backspaceLine.map fun c =>
    (c.modify c.visibleTerminal backspaceAhead).leave

def leftArrowKey (c : Console) : Console :=
  let v := c.visibleTerminal
  if (c.term v).keyboardCursorIdx > 0 then
    (c.leftArrow.1.modify v fun s =>
      { s with
        distanceFromRight := s.distanceFromRight + c.leftArrow.2
        keyboardCursorIdx := s.keyboardCursorIdx - 1
        echoFlag := true }).leave
  else c.leave

def rightArrowKey (c : Console) : Console :=
  (c.rightArrow.1.modify c.visibleTerminal fun s =>
    { s with
      distanceFromRight := s.distanceFromRight - c.rightArrow.2
      keyboardCursorIdx := s.keyboardCursorIdx + c.rightArrow.2
      echoFlag := true }).leave

/-! ## Modifier keys and Ctrl+L -/

/-- The modifier keys act on all terminals. -/
def modifyAll (c : Console) (f : TermState → TermState) : Console :=
  { c with term := fun t => f (c.term t) }

/-- Ctrl+L: save the line up to the cursor for the next read, clear the screen and end the
pending read. -/
def ctrlL (c : Console) : Option Console :=
  let v := c.visibleTerminal
  let s := c.term v
  if fits s.keyboardCursorIdx then
    let c₁ := c.modify v fun s =>
      { s with
        tempKbdBuf := freshCopy s.keyboardBuffer s.keyboardCursorIdx
        tempKbdIdx := s.keyboardCursorIdx }
    some (c₁.clear.modify v fun s =>
      { s with
        sysReadFlag := false
        echoFlag := true
        reEchoFlag := true
        keyboardCursorIdx := 0
        keyboardBufferEndIdx := 0
        keyboardBuffer := overlay s.keyboardBuffer 0 KEYBOARD_BUFFER_SIZE fun _ => 0 }).leave
  else none

/-! ## Characters and Enter -/

/-- A full line is not echoed. -/
def echoOff (s : TermState) : TermState :=
  if s.keyboardCursorIdx = KEYBOARD_BUFFER_SIZE - 1 then { s with echoFlag := false } else s

/-- It changes nothing but the echo flag. -/
theorem echoOff_eq (s : TermState) : ∃ b, echoOff s = { s with echoFlag := b } := by
  unfold echoOff
  split
  · exact ⟨false, rfl⟩
  · exact ⟨s.echoFlag, rfl⟩

/-- Put a character into the line at the cursor. -/
def insertChar (c : Console) (pressed : Nat) (ch : UInt8) : Option Console :=
  let v := c.visibleTerminal
  let s := c.term v
  if s.keyboardCursorIdx < KEYBOARD_BUFFER_SIZE - 1 ∧ pressed ≠ ENTER_PRESSED then
    (c.storeKbd v s.keyboardCursorIdx ch).map fun c => c.modify v fun s =>
      { s with
        keyboardCursorIdx := s.keyboardCursorIdx + 1
        keyboardBufferEndIdx :=
          if s.distanceFromRight = 0 then s.keyboardBufferEndIdx + 1 else s.keyboardBufferEndIdx
        distanceFromRight :=
          if s.distanceFromRight > 0 then s.distanceFromRight - 1 else s.distanceFromRight }
  else some c

/-- Enter, first part: end the line. -/
def endLine (c : Console) (ch : UInt8) : Option Console :=
  let v := c.visibleTerminal
  let s := c.term v
  if s.keyboardBufferEndIdx < KEYBOARD_BUFFER_SIZE then
    (c.storeKbd v s.keyboardBufferEndIdx ch).map fun c => c.modify v fun s =>
      { s with keyboardBufferEndIdx := s.keyboardBufferEndIdx + 1 }
  else some c

/-- Enter, second part: remember the command of a shell. The length of the copy is the end
index less one. -/
def saveCommand (s : TermState) : Option TermState :=
  if s.shellFlag then
    if fits (s.keyboardBufferEndIdx - 1) then
      some { s with
        lastBuf := freshCopy s.keyboardBuffer (s.keyboardBufferEndIdx - 1)
        lastBufIndex := s.keyboardBufferEndIdx - 1 }
    else none
  else some s

/-- Enter, third part: wake the reader and reset the line. -/
def wakeReader (s : TermState) : TermState :=
  { s with
    sysReadFlag := false
    keyboardCursorIdx := 0
    keyboardBufferEndIdx := 0
    echoFlag := true
    distanceFromRight := 0 }

def enterKey (c : Console) (pressed : Nat) (ch : UInt8) : Option Console :=
  let v := c.visibleTerminal
  if pressed = ENTER_PRESSED then
    (endLine { c with notInPrevCmdFlag := true } ch).bind fun c =>
      (saveCommand (c.term v)).map fun s => c.modify v fun _ => wakeReader s
  else some c

/-- Keep a copy of the line up to the cursor for the down arrow. -/
def saveCurrent (c : Console) : Option Console :=
  let v := c.visibleTerminal
  let s := c.term v
  if c.notInPrevCmdFlag then
    if fits s.keyboardCursorIdx then
      some (c.modify v fun s =>
        { s with
          currentBuf := freshCopy s.keyboardBuffer s.keyboardCursorIdx
          currentBufIndex := s.keyboardCursorIdx })
    else none
  else some c

def echo (c : Console) (ch : UInt8) : Console :=
  if (c.term c.visibleTerminal).echoFlag then c.putc ch else c

/-- Type-ahead: a key pressed while a program other than a shell is running and not
reading. -/
def typeAhead (s : TermState) (ch : UInt8) : TermState :=
  if !s.shellFlag ∧ s.tempKbdIdx < KEYBOARD_BUFFER_SIZE ∧ !s.sysReadFlag then
    { s with
      tempKbdBuf := Function.update s.tempKbdBuf s.tempKbdIdx.toNat ch
      tempKbdIdx := s.tempKbdIdx + 1
      typingDuringProgFlag := true }
  else s

/-- The last part of the handler, for the keys that produce a character. -/
def charKey (c : Console) (pressed : Nat) : Option Console :=
  let v := c.visibleTerminal
  let ch := c.outputChar pressed
  (insertChar (c.modify v echoOff) pressed ch).bind fun c =>
    (enterKey c pressed ch).bind fun c =>
      (saveCurrent c).map fun c =>
        ((((c.echo ch).modify v fun s => typeAhead s ch).wraparound).scrollDown).leave

/-! ## The handler -/

/-- The keys that switch terminals while Alt is held. -/
def switchKey (pressed : Nat) : Option Terminal :=
  if pressed = FUNCTION_ONE_PRESSED then some 0
  else if pressed = FUNCTION_TWO_PRESSED then some 1
  else if pressed = FUNCTION_THREE_PRESSED then some 2
  else none

/-- The handler from the Ctrl+L test on. -/
def lineKey (c : Console) (pressed : Nat) : Option Console :=
  if (c.term c.visibleTerminal).controlOn ∧ pressed = L_SCANCODE then c.ctrlL
  else if pressed ≥ START_RELEASED ∨ pressed = RIGHT_CONTROL_TAG ∨ pressed > START_IGNORE then
    some c.leave
  else c.charKey pressed

/-- The modifier keys; `none` when `pressed` is none of them. -/
def modifierKey (c : Console) (pressed : Nat) : Option Console :=
  if pressed = CAPS_LOCK_PRESSED then
    some (c.modifyAll fun s => { s with capsLockOn := !s.capsLockOn }).leave
  else if pressed = LEFT_SHIFT_PRESSED ∨ pressed = RIGHT_SHIFT_PRESSED then
    some (c.modifyAll fun s => { s with shiftOn := true }).leave
  else if pressed = LEFT_SHIFT_RELEASED ∨ pressed = RIGHT_SHIFT_RELEASED then
    some (c.modifyAll fun s => { s with shiftOn := false }).leave
  else if pressed = LEFT_CONTROL_PRESSED then
    some (c.modifyAll fun s => { s with controlOn := true }).leave
  else if pressed = LEFT_CONTROL_RELEASED then
    some (c.modifyAll fun s => { s with controlOn := false }).leave
  else if pressed = LEFT_ALT_PRESSED then
    some (c.modifyAll fun s => { s with altOn := true }).leave
  else if pressed = LEFT_ALT_RELEASED then
    some (c.modifyAll fun s => { s with altOn := false }).leave
  else none

/-- The handler after the up and down arrow blocks, which fall through to it. -/
def afterArrows (c : Console) (pressed : Nat) : Option Console :=
  let v := c.visibleTerminal
  let s := c.term v
  if pressed = BACKSPACE then c.backspaceKey
  else if pressed = LEFT_ARROW_PRESSED ∧ s.shellFlag then some c.leftArrowKey
  else if pressed = RIGHT_ARROW_PRESSED ∧ s.distanceFromRight > 0
      ∧ s.keyboardCursorIdx < KEYBOARD_BUFFER_SIZE - 1 ∧ s.shellFlag then some c.rightArrowKey
  else
    match c.modifierKey pressed with
    | some c' => some c'
    | none =>
        match (if s.altOn then switchKey pressed else none) with
        | some t => some (if v = t then c.leave else c.leave.switchTerminal t.val)
        | none => c.lineKey pressed

/-- `keyboard_interrupt`, on the scancode read from the data port. -/
def keyboardInterrupt (c : Console) (scancode : UInt8) : Option Console :=
  let pressed := scancode.toNat
  let c₀ := { c with putcToVisibleFlag := true }
  if pressed = UP_ARROW_PRESSED then c₀.upArrow.bind fun c => c.afterArrows pressed
  else if pressed = DOWN_ARROW_PRESSED then c₀.downArrow.bind fun c => c.afterArrows pressed
  else c₀.afterArrows pressed

end Console

end Ext2Kernel
