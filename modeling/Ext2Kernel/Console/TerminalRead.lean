import Ext2Kernel.Console.Keyboard
import Ext2Kernel.FileSys.ReadData

set_option autoImplicit false

/-! # `_sys_read_terminal`

The call waits for Enter with interrupts enabled, so that it has two parts with other
events in between: `readTerminalStart` up to the wait loop and `readTerminalCopy` from the
loop's exit to the return.
-/

namespace Ext2Kernel

open ByteMem

namespace Console

/-- `keyboard_buffer[v][i]`, through the address in the array of three rows. -/
def loadKbd (c : Console) (v : Terminal) (i : Nat) : UInt8 :=
  let a := KEYBOARD_BUFFER_SIZE * v.val + i
  if a < KEYBOARD_BUFFER_SIZE * NUM_TERMINALS then
    (c.term (Fin.ofNat 3 (a / KEYBOARD_BUFFER_SIZE))).keyboardBuffer (a % KEYBOARD_BUFFER_SIZE)
  else c.behindKeyboard

/-- `memset(keyboard_buffer[t], '\0', KEYBOARD_BUFFER_SIZE)`. -/
def clearLine (s : TermState) : TermState :=
  { s with keyboardBuffer := overlay s.keyboardBuffer 0 KEYBOARD_BUFFER_SIZE fun _ => 0 }

/-- Does a read put saved characters back into the line? -/
def replays (s : TermState) : Bool :=
  s.reEchoFlag || (s.shellFlag && decide (s.tempKbdIdx ≠ 0))

/-- The characters a replay prints: the saved ones up to a newline. -/
def replayed (s : TermState) : List UInt8 :=
  ((List.range s.tempKbdIdx.toNat).map s.tempKbdBuf).takeWhile (· ≠ 10)

/-- Put the saved characters back into the line; the cursor goes behind them. -/
def restoreLine (s : TermState) : TermState :=
  { s with
    keyboardCursorIdx := s.tempKbdIdx
    keyboardBuffer := overlay s.keyboardBuffer 0 s.tempKbdIdx.toNat s.tempKbdBuf
    currentBuf := overlay s.currentBuf 0 s.tempKbdIdx.toNat s.tempKbdBuf }

/-- The end of a replay: a newline behind the printed characters is not part of the line. -/
def endReplay (s : TermState) (behind : UInt8) : TermState :=
  let cursor := if behind = 10 then s.keyboardCursorIdx - 1 else s.keyboardCursorIdx
  { s with
    keyboardCursorIdx := cursor
    keyboardBufferEndIdx := cursor
    currentBufIndex := cursor
    reEchoFlag := false
    tempKbdBuf := fun _ => 0
    tempKbdIdx := 0 }

/-- The replay of saved characters by the process of terminal `t`. -/
def replay (c : Console) (t : Terminal) : Option Console :=
  let s := c.term t
  if fits s.tempKbdIdx then
    let c₁ := (c.modify t restoreLine).putcs (replayed s)
    some (c₁.modify t fun s' => endReplay s' (c₁.loadKbd t (replayed s).length))
  else none

/-- `_sys_read_terminal` up to its wait loop. -/
def readTerminalStart (c : Console) : Option Console :=
  let t := c.processTerminal
  let c₁ := c.modify t clearLine
  (if replays (c₁.term t) then c₁.replay t else some c₁).map fun c =>
    c.modify t fun s => { s with sysReadFlag := true }

/-- The byte behind the characters a replay prints. -/
def replayByte (c : Console) : UInt8 :=
  let t := c.processTerminal
  let s := clearLine (c.term t)
  (((c.modify t clearLine).modify t restoreLine).putcs (replayed s)).loadKbd t (replayed s).length

/-- **What the start of a read does**: it clears the row, and puts back what was saved. -/
theorem readTerminalStart_cases {c c' : Console} (h : c.readTerminalStart = some c') :
    (replays (c.term c.processTerminal) = false ∧
      c' = (c.modify c.processTerminal clearLine).modify c.processTerminal
        fun s => { s with sysReadFlag := true }) ∨
    (replays (c.term c.processTerminal) = true ∧ fits (c.term c.processTerminal).tempKbdIdx ∧
      c' = ((((c.modify c.processTerminal clearLine).modify c.processTerminal restoreLine).putcs
          (replayed (c.term c.processTerminal))).modify c.processTerminal
            fun s => endReplay s c.replayByte).modify c.processTerminal
              fun s => { s with sysReadFlag := true }) := by
  unfold readTerminalStart at h
  dsimp only at h
  obtain ⟨c₁, hc₁, rfl⟩ := Option.map_eq_some_iff.mp h
  rw [modify_term_self] at hc₁
  cases hreplays : replays (c.term c.processTerminal) with
  | false =>
      rw [if_neg (show ¬ replays (clearLine (c.term c.processTerminal)) = true from
        Bool.eq_false_iff.mp hreplays)] at hc₁
      cases hc₁
      exact Or.inl ⟨rfl, rfl⟩
  | true =>
      rw [if_pos (show replays (clearLine (c.term c.processTerminal)) = true from hreplays)] at hc₁
      unfold replay at hc₁
      dsimp only at hc₁
      rw [modify_term_self] at hc₁
      split at hc₁
      · rename_i hfits
        cases hc₁
        exact Or.inr ⟨rfl, hfits, rfl⟩
      · cases hc₁

/-- The adjusted `nbytes`. -/
def clipBytes (nbytes : Int) : Nat :=
  if nbytes > KEYBOARD_BUFFER_SIZE then KEYBOARD_BUFFER_SIZE - 1 else nbytes.toNat

/-- The line a reader finds: the characters before a NUL or a newline, at most `n`. -/
def line (kb : Mem) (n : Nat) : List UInt8 :=
  ((List.range n).map kb).takeWhile fun b => b ≠ 0 ∧ b ≠ 10

/-- `_sys_read_terminal` after its wait loop: copy the line and add a newline. -/
def readTerminalCopy (c : Console) (nbytes : Nat) : Transfer :=
  let l := line (c.term c.processTerminal).keyboardBuffer nbytes
  ⟨l.length + 1, l ++ [10]⟩

end Console

end Ext2Kernel
