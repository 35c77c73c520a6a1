import Ext2Kernel.Console.State

set_option autoImplicit false

/-! # Screen routines

The output routines of `lib.c` and `switch_terminal`. The screen of the visible terminal is
the page at `VIDEO`, that of any other terminal its 4KB buffer; addresses here are relative
to `VIDEO`. `update_cursor` only drives the hardware cursor and is left out.
-/

namespace Ext2Kernel

open ByteMem

namespace Console

/-! ## Output -/

/-- Where the screen of terminal `t` is: `VIDEO`, or `video_buf[t]`. -/
def screenBase (c : Console) (t : Terminal) : Nat :=
  if c.visibleTerminal = t then 0 else PAGE_4KB * (t.val + 1)

/-- The pages of two terminals do not overlap. -/
theorem screenBase_disjoint (c : Console) {t u : Terminal} (h : u ≠ t) :
    c.screenBase u + PAGE_4KB ≤ c.screenBase t ∨ c.screenBase t + PAGE_4KB ≤ c.screenBase u := by
  have hval : u.val ≠ t.val := fun hv => h (Fin.ext hv)
  unfold screenBase PAGE_4KB
  by_cases ht : c.visibleTerminal = t
  · rw [if_pos ht, if_neg (fun hu => h (hu.symm.trans ht))]
    omega
  · rw [if_neg ht]
    split <;> omega

/-- The terminal the output routines write to. -/
def outTerm (c : Console) : Terminal :=
  if c.putcToVisibleFlag then c.visibleTerminal else c.processTerminal

/-- Store a character and its attribute in cell `i` of the page at `base`. -/
def putCell (c : Console) (base i : Nat) (ch : UInt8) : Console :=
  { c with
    video := Function.update (Function.update c.video (base + 2 * i) ch) (base + 2 * i + 1) ATTRIB }

/-- `scroll_down`. The first loop moves every row up by one and the second blanks the last
row; both set the attribute bytes of the rows they pass. -/
def scrollVideo (video : Mem) (base : Nat) : Mem := fun a =>
  if base ≤ a ∧ a < base + 2 * (NUM_ROWS * NUM_COLS) then
    let cell := (a - base) / 2
    if (a - base) % 2 = 0 then
      if cell < (NUM_ROWS - 1) * NUM_COLS then video (a + 2 * NUM_COLS) else 0
    else if NUM_COLS ≤ cell then ATTRIB else video a
  else video a

def scrollDown (c : Console) : Console :=
  let t := c.outTerm
  if (c.term t).screenY ≥ NUM_ROWS then
    { c with video := scrollVideo c.video (c.screenBase t) }.modify t fun s =>
      { s with screenY := NUM_ROWS - 1, screenX := 0 }
  else c

/-- `wraparound`, on the variables of the output terminal. -/
def wrapTerm (s : TermState) : TermState :=
  let f₁ := if s.forwardNext = NUM_COLS then 0 else s.forwardNext
  let f₂ := if s.screenX = NUM_COLS - 1 then (NUM_COLS : Int) else f₁
  if s.screenX = 0 ∧ f₂ = 0 then
    { s with screenY := s.screenY + 1, backwardNext := NUM_COLS, forwardNext := 1 }
  else { s with forwardNext := f₂ }

def wraparound (c : Console) : Console := c.modify c.outTerm wrapTerm

/-- Is column `x` one of the three that `putc` treats apart? -/
def edgeColumn (x : Nat) : Bool := x = 0 || x = NUM_COLS || x = NUM_COLS - 1

/-- The line-feed branch of `putc`. -/
def lineFeed (s : TermState) : TermState :=
  { s with
    screenY := if edgeColumn s.screenX then s.screenY else s.screenY + 1
    screenX := 0 }

/-- The cursor motion of the printing branch of `putc`. -/
def advance (s : TermState) : TermState :=
  let x := (s.screenX + 1) % NUM_COLS
  { s with screenX := x, screenY := (s.screenY + x / NUM_COLS) % NUM_ROWS }

/-- `putc` before its calls of `wraparound` and `scroll_down`. -/
def putcStore (c : Console) (ch : UInt8) : Console :=
  let t := c.outTerm
  let s := c.term t
  if ch = 10 ∨ ch = 13 then c.modify t lineFeed
  else (c.putCell (c.screenBase t) (NUM_COLS * s.screenY + s.screenX) ch).modify t advance

/-- `putc` calls `wraparound` in three columns only. -/
def wrapAtEdge (c : Console) : Console :=
  if edgeColumn (c.term c.outTerm).screenX then c.wraparound else c

/-- `putc`. Its test of the row before `scroll_down` is the one `scroll_down` makes itself. -/
def putc (c : Console) (ch : UInt8) : Console := (c.putcStore ch).wrapAtEdge.scrollDown

/-- Print a list of characters with `putc`: `puts`, and `printf` without conversions. -/
def putcs (c : Console) (l : List UInt8) : Console := l.foldl putc c

/-! ## Clearing and cursor motion -/

/-- `clear`. Its `memset(keyboard_buffer, NULL, KEYBOARD_BUFFER_SIZE)` clears one row, the
buffer of terminal 0, whichever terminal is visible. -/
def clear (c : Console) : Console :=
  let blank : Mem := fun a =>
    if a < 2 * (NUM_ROWS * NUM_COLS) then (if a % 2 = 0 then 0 else ATTRIB) else c.video a
  ({ c with video := blank }.modify c.visibleTerminal fun s =>
      { s with screenY := 0, screenX := 0 }).modify 0 fun s =>
    { s with keyboardBuffer := overlay s.keyboardBuffer 0 KEYBOARD_BUFFER_SIZE fun _ => 0 }

/-- The cursor after stepping back to column `x` of the same row. -/
def stepBack (s : TermState) (x : Nat) : TermState :=
  { s with
    screenX := x
    forwardNext := if x = 0 then 1 else x + 1
    backwardNext := if x = 0 then NUM_COLS else (x : Int) - 1 }

/-- The cursor after stepping back to the last column of the row above. -/
def stepUp (s : TermState) : TermState :=
  if s.backwardNext = NUM_COLS then
    { s with
      screenX := NUM_COLS - 1, backwardNext := NUM_COLS - 1, forwardNext := 0
      screenY := s.screenY - 1 }
  else
    { s with
      screenX := NUM_COLS - 1, forwardNext := NUM_COLS, backwardNext := NUM_COLS - 2
      screenY := s.screenY - 1 }

/-- The character on the screen at the end of row `y`. -/
def rowEnd (c : Console) (y : Nat) : UInt8 := c.video (2 * (NUM_COLS * y + NUM_COLS - 1))

/-- `backspace`. -/
def backspace (c : Console) : Console :=
  let v := c.visibleTerminal
  let s := c.term v
  if s.screenX = 0 ∧ s.screenY = 0 then c
  else if s.keyboardCursorIdx = 0 then c
  else if s.screenX ≠ 0 then
    (c.putCell 0 (NUM_COLS * s.screenY + (s.screenX - 1)) 32).modify v fun s =>
      stepBack s (s.screenX - 1)
  else if c.rowEnd (s.screenY - 1) = 10 then c
  else
    (c.putCell 0 (NUM_COLS * (s.screenY - 1) + (NUM_COLS - 1)) 32).modify v stepUp

/-- `left_arrow`: the cursor motion and the return value. -/
def leftArrow (c : Console) : Console × Int :=
  let v := c.visibleTerminal
  let s := c.term v
  if s.screenX = 0 ∧ s.screenY = 0 then (c, 0)
  else if s.keyboardCursorIdx = 0 then (c, 0)
  else if s.screenX ≠ 0 then (c.modify v fun s => stepBack s (s.screenX - 1), 1)
  else if c.rowEnd (s.screenY - 1) = 10 then (c, 0)
  else (c.modify v stepUp, 1)

/-- The cursor after stepping right inside a row. -/
def stepRight (s : TermState) : TermState :=
  let x := s.screenX + 1
  { s with
    screenX := x
    forwardNext := if x = NUM_COLS then NUM_COLS - 1 else (x : Int) + 1
    backwardNext := if x = NUM_COLS then 0 else (x : Int) - 1 }

/-- `right_arrow`. Its test `backward_next == 0` compares the array itself, not an element,
and never holds, so that the column stays at `NUM_COLS` when the row changes. -/
def rightArrow (c : Console) : Console × Int :=
  let v := c.visibleTerminal
  let s := c.term v
  if s.screenX = NUM_COLS ∧ s.screenY = NUM_ROWS - 1 then (c, 0)
  else if s.keyboardCursorIdx = KEYBOARD_BUFFER_SIZE - 1 then (c, 0)
  else if s.screenX ≠ NUM_COLS then (c.modify v stepRight, 1)
  else if s.screenY < NUM_ROWS - 1 then
    if c.rowEnd (s.screenY + 1) = 10 then (c, 0)
    else (c.modify v fun s => { s with screenY := s.screenY + 1 }, 1)
  else (c, 0)

/-! ## Switching terminals -/

/-- `switch_terminal`: save the screen in the buffer of the visible terminal and show the
buffer of the new one. The intermediate `memset` of the screen is overwritten. -/
def switchTerminal (c : Console) (n : Int) : Console :=
  if h : 0 ≤ n ∧ n < 3 then
    let t : Terminal := ⟨n.toNat, toNat_lt_terminals h⟩
    let saved := overlay c.video (PAGE_4KB * (c.visibleTerminal.val + 1)) PAGE_4KB c.video
    { c with
      video := overlay saved 0 PAGE_4KB fun i => saved (PAGE_4KB * (t.val + 1) + i)
      visibleTerminal := t }
  else c

end Console

end Ext2Kernel
