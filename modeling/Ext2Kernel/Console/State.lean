import Ext2Kernel.Basic.ByteMem
import Mathlib.Logic.Function.Basic

set_option autoImplicit false

/-! # The state of the console

The variables of `lib.c`, `lib.h` and `idt_handlers.c` that the keyboard handler and the
screen routines work on, with the two terminal numbers of `multiprocessing.c`. The source
keeps one array of length `NUM_TERMINALS` for each variable; here they are the fields of
`TermState`, one record for each terminal. Variables that the source only sets to 0 and 1
are booleans.
-/

namespace Ext2Kernel

open ByteMem

/-! ## Constants -/

def NUM_TERMINALS : Nat := 3
def NUM_COLS : Nat := 80
def NUM_ROWS : Nat := 25
def ATTRIB : UInt8 := 7
def KEYBOARD_BUFFER_SIZE : Nat := 128
def PAGE_4KB : Nat := 4096

abbrev Terminal := Fin 3

instance neZeroTerminals : @NeZero Nat Zero.ofOfNat0 3 := @Nat.instNeZeroSucc 2

theorem toNat_lt_terminals {n : Int} (h : 0 ≤ n ∧ n < 3) : n.toNat < 3 := by omega

/-! ## State -/

/-- The per-terminal variables. The four character buffers have `KEYBOARD_BUFFER_SIZE` bytes
each. -/
structure TermState where
  screenX : Nat
  screenY : Nat
  forwardNext : Int
  backwardNext : Int
  keyboardBuffer : Mem
  keyboardCursorIdx : Int
  keyboardBufferEndIdx : Int
  distanceFromRight : Int
  tempKbdBuf : Mem
  tempKbdIdx : Int
  lastBuf : Mem
  lastBufIndex : Int
  currentBuf : Mem
  currentBufIndex : Int
  sysReadFlag : Bool
  shellFlag : Bool
  typingDuringProgFlag : Bool
  reEchoFlag : Bool
  echoFlag : Bool
  shiftOn : Bool
  capsLockOn : Bool
  controlOn : Bool
  altOn : Bool

structure Console where
  visibleTerminal : Terminal
  processTerminal : Terminal
  term : Terminal → TermState
  /-- Memory from `VIDEO` on: the screen, then the buffers of the three terminals, 4KB
  each. -/
  video : Mem
  notInPrevCmdFlag : Bool
  putcToVisibleFlag : Bool
  tooManyShellsFlag : Bool
  /-- The bytes the linker put behind `scancode_to_char`; the handler reads them when F1 is
  pressed without Alt. -/
  behindScancodes : Mem
  /-- The byte behind `keyboard_buffer`, which a reader can look at after a full line. -/
  behindKeyboard : UInt8

/-- The per-terminal variables at boot: the initialisers of the source, zero elsewhere, and
the wraparound variables as `entry` sets them. -/
def TermState.boot : TermState where
  screenX := 0
  screenY := 0
  forwardNext := 1
  backwardNext := NUM_COLS
  keyboardBuffer := fun _ => 0
  keyboardCursorIdx := 0
  keyboardBufferEndIdx := 0
  distanceFromRight := 0
  tempKbdBuf := fun _ => 0
  tempKbdIdx := 0
  lastBuf := fun _ => 0
  lastBufIndex := 0
  currentBuf := fun _ => 0
  currentBufIndex := 0
  sysReadFlag := false
  shellFlag := false
  typingDuringProgFlag := false
  reEchoFlag := false
  echoFlag := true
  shiftOn := false
  capsLockOn := false
  controlOn := false
  altOn := false

namespace Console

/-- Change the variables of one terminal. -/
def modify (c : Console) (t : Terminal) (f : TermState → TermState) : Console :=
  { c with term := Function.update c.term t (f (c.term t)) }

section modify

variable (c : Console) (t : Terminal) (f : TermState → TermState)

@[simp] theorem modify_term_self : (c.modify t f).term t = f (c.term t) :=
  Function.update_self ..

@[simp] theorem modify_term_ne {u : Terminal} (h : u ≠ t) : (c.modify t f).term u = c.term u :=
  Function.update_of_ne h ..

@[simp] theorem modify_visibleTerminal :
    (c.modify t f).visibleTerminal = c.visibleTerminal := rfl

@[simp] theorem modify_processTerminal :
    (c.modify t f).processTerminal = c.processTerminal := rfl

@[simp] theorem modify_video : (c.modify t f).video = c.video := rfl

@[simp] theorem modify_notInPrevCmdFlag :
    (c.modify t f).notInPrevCmdFlag = c.notInPrevCmdFlag := rfl

@[simp] theorem modify_putcToVisibleFlag :
    (c.modify t f).putcToVisibleFlag = c.putcToVisibleFlag := rfl

@[simp] theorem modify_tooManyShellsFlag :
    (c.modify t f).tooManyShellsFlag = c.tooManyShellsFlag := rfl

@[simp] theorem modify_behindScancodes :
    (c.modify t f).behindScancodes = c.behindScancodes := rfl

@[simp] theorem modify_behindKeyboard :
    (c.modify t f).behindKeyboard = c.behindKeyboard := rfl

end modify

theorem modify_modify (c : Console) (t : Terminal) (f g : TermState → TermState) :
    (c.modify t f).modify t g = c.modify t fun s => g (f s) := by
  unfold modify
  simp

theorem modify_congr {c : Console} {t : Terminal} {f g : TermState → TermState}
    (h : f (c.term t) = g (c.term t)) : c.modify t f = c.modify t g := by
  unfold modify
  rw [h]

theorem modify_self {c : Console} {t : Terminal} {f : TermState → TermState}
    (h : f (c.term t) = c.term t) : c.modify t f = c := by
  unfold modify
  rw [h, Function.update_eq_self]

end Console

end Ext2Kernel
