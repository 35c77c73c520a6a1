import Ext2Kernel.Console.Isolation
import Ext2Kernel.Console.TerminalRead

set_option autoImplicit false

/-! # The indices of the line editor

Six numbers of a terminal describe its line: the cursor and the end of the line in
`keyboard_buffer`, the distance of the cursor from the right end, and the lengths of the three
other buffers. `keyLine` says what each key does to them, and `keyboardInterrupt_lineIdx` that
this is what the handler does; `readLine` is the same for the start of a terminal read. What
holds of the numbers over a run is then a matter of arithmetic.
-/

namespace Ext2Kernel

open ByteMem

/-- The indices of one terminal. -/
structure LineIdx where
  cursor : Int
  stop : Int
  distance : Int
  temp : Int
  last : Int
  current : Int
  deriving DecidableEq

def TermState.lineIdx (s : TermState) : LineIdx where
  cursor := s.keyboardCursorIdx
  stop := s.keyboardBufferEndIdx
  distance := s.distanceFromRight
  temp := s.tempKbdIdx
  last := s.lastBufIndex
  current := s.currentBufIndex

namespace LineIdx

/-! ## What the blocks of the handler do -/

/-- The cursor at the right end of a line of length `n`, as the up and down arrow leave it. -/
def toEnd (l : LineIdx) (n : Int) : LineIdx :=
  { l with cursor := n, stop := n, distance := l.distance - l.distance.toNat }

/-- The backspace key, on the line. -/
def erase (l : LineIdx) : LineIdx :=
  if l.cursor > 0 ∧ l.distance = 0 then { l with cursor := l.cursor - 1, stop := l.stop - 1 }
  else if l.cursor > 0 then { l with cursor := l.cursor - 1, distance := l.distance + 1 }
  else l

/-- The backspace key, on the type-ahead. -/
def eraseAhead (l : LineIdx) (typing : Bool) : LineIdx :=
  if typing ∧ l.temp > 0 then { l with temp := l.temp - 1 } else l

/-- The left arrow; `r` is what `left_arrow` returns. -/
def left (l : LineIdx) (r : Int) : LineIdx :=
  if l.cursor > 0 then { l with cursor := l.cursor - 1, distance := l.distance + r } else l

/-- The right arrow; `r` is what `right_arrow` returns. -/
def right (l : LineIdx) (r : Int) : LineIdx :=
  { l with cursor := l.cursor + r, distance := l.distance - r }

/-- Ctrl+L does not reset the distance. -/
def clear (l : LineIdx) : LineIdx := { l with temp := l.cursor, cursor := 0, stop := 0 }

/-- A character at the cursor. -/
def insert (l : LineIdx) : LineIdx :=
  if l.cursor < KEYBOARD_BUFFER_SIZE - 1 then
    { l with
      cursor := l.cursor + 1
      stop := if l.distance = 0 then l.stop + 1 else l.stop
      distance := if l.distance > 0 then l.distance - 1 else l.distance }
  else l

/-- Enter, on a shell or not. -/
def enter (l : LineIdx) (shell : Bool) : LineIdx :=
  { l with
    cursor := 0
    stop := 0
    distance := 0
    last := if shell then (if l.stop < KEYBOARD_BUFFER_SIZE then l.stop else l.stop - 1)
      else l.last }

/-- The copy for the down arrow. -/
def keepCurrent (l : LineIdx) (copies : Bool) : LineIdx :=
  if copies then { l with current := l.cursor } else l

/-- Type-ahead. -/
def ahead (l : LineIdx) (stores : Bool) : LineIdx :=
  if stores ∧ l.temp < KEYBOARD_BUFFER_SIZE then { l with temp := l.temp + 1 } else l

/-- A replay at the start of a read; `newline` says whether a newline stands behind what was
printed. -/
def replay (l : LineIdx) (newline : Bool) : LineIdx :=
  let n := if newline then l.temp - 1 else l.temp
  { l with cursor := n, stop := n, current := n, temp := 0 }

end LineIdx

theorem sameLine_lineIdx {s s' : TermState} (h : SameLine s s') : s'.lineIdx = s.lineIdx := by
  unfold SameLine at h
  rw [h]
  rfl

namespace Console

/-- What a key that is neither a modifier nor a terminal switch does to the indices of the
visible terminal. -/
def keyLine (c : Console) (pressed : Nat) : LineIdx :=
  let s := c.term c.visibleTerminal
  let l := s.lineIdx
  if pressed = UP_ARROW_PRESSED then
    if s.shellFlag ∧ s.lastBuf 0 ≠ 0 ∧ c.notInPrevCmdFlag then l.toEnd l.last else l
  else if pressed = DOWN_ARROW_PRESSED then if s.shellFlag then l.toEnd l.current else l
  else if pressed = BACKSPACE then l.erase.eraseAhead s.typingDuringProgFlag
  else if pressed = LEFT_ARROW_PRESSED ∧ s.shellFlag then l.left c.leftArrow.2
  else if pressed = RIGHT_ARROW_PRESSED ∧ l.distance > 0 ∧ l.cursor < KEYBOARD_BUFFER_SIZE - 1
      ∧ s.shellFlag then l.right c.rightArrow.2
  else if s.controlOn ∧ pressed = L_SCANCODE then l.clear
  else if pressed > START_IGNORE then l
  else if pressed = ENTER_PRESSED then
    ((l.enter s.shellFlag).keepCurrent true).ahead (!s.shellFlag)
  else (l.insert.keepCurrent c.notInPrevCmdFlag).ahead (!s.shellFlag && !s.sysReadFlag)

/-! ## Screen routines -/

/-- Output changes the line of no terminal. -/
theorem putcs_sameLine (c : Console) (l : List UInt8) (t : Terminal) :
    SameLine (c.term t) ((c.putcs l).term t) := by
  have h := drawn_putcs c l
  by_cases ht : t = c.outTerm
  · rw [ht]
    exact h.line
  · rw [h.other t ht]
    exact .refl _

theorem putc_sameLine (c : Console) (ch : UInt8) (t : Terminal) :
    SameLine (c.term t) ((c.putc ch).term t) := c.putcs_sameLine [ch] t

theorem sysWriteTerminal_sameLine (c : Console) (buf : Mem) (n : Int) (t : Terminal) :
    SameLine (c.term t) ((c.sysWriteTerminal buf n).1.term t) := by
  unfold sysWriteTerminal
  split
  · exact .refl _
  · split
    · exact .refl _
    · split <;> dsimp only <;> exact putcs_sameLine ..

theorem backspace_sameLine (c : Console) (t : Terminal) :
    SameLine (c.term t) (c.backspace.term t) := by
  have h := drawn_backspace c
  by_cases ht : t = c.visibleTerminal
  · rw [ht]
    exact h.line
  · rw [h.other t ht]
    exact .refl _

theorem iterate_backspace_sameLine (c : Console) (n : Nat) (t : Terminal) :
    SameLine (c.term t) ((backspace^[n] c).term t) := by
  induction n generalizing c with
  | zero => exact .refl _
  | succ n ih => exact (c.backspace_sameLine t).trans (ih c.backspace)

/-- `wraparound` and `scroll_down` at the end of the handler. -/
theorem wrap_scroll_sameLine (c : Console) (t : Terminal) :
    SameLine (c.term t) (c.wraparound.scrollDown.term t) := by
  have h₁ := drawn_wraparound c
  have h₂ := drawn_scrollDown c.wraparound
  rw [h₁.outTerm] at h₂
  have h := h₁.trans h₂
  by_cases ht : t = c.outTerm
  · rw [ht]
    exact h.line
  · rw [h.other t ht]
    exact .refl _

/-- Does `left_arrow` move the cursor? At the upper left corner and behind a line feed it does
not. -/
def LeftMoves (c : Console) : Prop :=
  let s := c.term c.visibleTerminal
  s.keyboardCursorIdx ≠ 0 ∧
    (s.screenX ≠ 0 ∨ (s.screenY ≠ 0 ∧ c.rowEnd (s.screenY - 1) ≠ 10))

instance (c : Console) : Decidable c.LeftMoves := inferInstanceAs (Decidable (_ ∧ _))

theorem leftArrow_snd (c : Console) : c.leftArrow.2 = if c.LeftMoves then 1 else 0 := by
  by_cases h : c.LeftMoves
  · rw [if_pos h]
    obtain ⟨hcursor, hplace⟩ := h
    unfold leftArrow
    dsimp only
    rw [if_neg (by tauto), if_neg hcursor]
    split
    · rfl
    · rw [if_neg (by tauto)]
  · rw [if_neg h]
    unfold LeftMoves at h
    unfold leftArrow
    dsimp only at h ⊢
    split_ifs <;> first | rfl | tauto

/-- Does `right_arrow` move the cursor? -/
def RightMoves (c : Console) : Prop :=
  let s := c.term c.visibleTerminal
  s.keyboardCursorIdx ≠ KEYBOARD_BUFFER_SIZE - 1 ∧
    (s.screenX ≠ NUM_COLS ∨ (s.screenY < NUM_ROWS - 1 ∧ c.rowEnd (s.screenY + 1) ≠ 10))

instance (c : Console) : Decidable c.RightMoves := inferInstanceAs (Decidable (_ ∧ _))

theorem rightArrow_snd (c : Console) : c.rightArrow.2 = if c.RightMoves then 1 else 0 := by
  by_cases h : c.RightMoves
  · rw [if_pos h]
    obtain ⟨hcursor, hplace⟩ := h
    unfold rightArrow
    dsimp only
    rw [if_neg (by rintro ⟨hx, hy⟩; omega), if_neg hcursor]
    split
    · rfl
    · rename_i hx
      obtain ⟨hy, hrow⟩ := hplace.resolve_left hx
      rw [if_pos hy, if_neg hrow]
  · rw [if_neg h]
    unfold RightMoves at h
    unfold rightArrow
    dsimp only at h ⊢
    split_ifs <;> first | rfl | tauto

theorem rightArrow_return (c : Console) : c.rightArrow.2 = 0 ∨ c.rightArrow.2 = 1 := by
  rw [rightArrow_snd]
  split
  · exact Or.inr rfl
  · exact Or.inl rfl

/-! ## The blocks of the handler -/

theorem leave_term (c : Console) : c.leave.term = c.term := rfl

theorem toLineEnd_lineIdx (c : Console) (n : Nat) :
    ((toLineEnd n c).term c.visibleTerminal).lineIdx
      = { (c.term c.visibleTerminal).lineIdx with
          cursor := (c.term c.visibleTerminal).lineIdx.cursor + n
          distance := (c.term c.visibleTerminal).lineIdx.distance - n } := by
  induction n generalizing c with
  | zero => simp [toLineEnd]
  | succ n ih =>
      have hr := drawn_rightArrow c
      have hline := sameLine_lineIdx hr.line
      have hrec := ih (c.rightArrow.1.modify c.visibleTerminal fun s =>
        { s with
          keyboardCursorIdx := s.keyboardCursorIdx + 1
          distanceFromRight := s.distanceFromRight - 1 })
      rw [modify_visibleTerminal, hr.visible, modify_term_self] at hrec
      unfold toLineEnd
      rw [hrec]
      unfold TermState.lineIdx at hline ⊢
      simp only [LineIdx.mk.injEq] at hline ⊢
      omega

theorem toLineEnd_visible (c : Console) (n : Nat) :
    (toLineEnd n c).visibleTerminal = c.visibleTerminal := by
  induction n generalizing c with
  | zero => rfl
  | succ n ih =>
      unfold toLineEnd
      rw [ih, modify_visibleTerminal, (drawn_rightArrow c).visible]

/-- Erasing the line moves the cursor index only. -/
theorem eraseLine_lineIdx (c : Console) (n : Nat) : ∃ i,
    ((eraseLine n c).term c.visibleTerminal).lineIdx
      = { (c.term c.visibleTerminal).lineIdx with cursor := i } := by
  induction n generalizing c with
  | zero =>
      unfold eraseLine
      rw [modify_term_self]
      exact ⟨_, rfl⟩
  | succ n ih =>
      obtain ⟨i, hi⟩ := ih (c.modify c.visibleTerminal fun s =>
        { s with keyboardCursorIdx := s.keyboardCursorIdx - 1 }).backspace
      have hdrawn := drawn_backspace (c.modify c.visibleTerminal fun s =>
        { s with keyboardCursorIdx := s.keyboardCursorIdx - 1 })
      have hline := sameLine_lineIdx hdrawn.line
      rw [hdrawn.visible, hline, modify_visibleTerminal, modify_term_self] at hi
      exact ⟨i, hi⟩

/-- The last assignments of both arrow blocks, after the screen is redrawn. -/
theorem redraw_lineIdx {c : Console} {v : Terminal} {l : LineIdx} (h : (c.term v).lineIdx = l)
    (kb : Mem) (n : Int) {f : TermState → TermState} {g : LineIdx → LineIdx}
    (hf : ∀ s, (f s).lineIdx = g s.lineIdx) :
    (((c.sysWriteTerminal kb n).1.modify v f).term v).lineIdx = g l := by
  rw [modify_term_self, hf, sameLine_lineIdx (sysWriteTerminal_sameLine ..), h]

theorem upArrow_lineIdx {c c' : Console} (h : c.upArrow = some c') :
    (c'.term c.visibleTerminal).lineIdx =
      let s := c.term c.visibleTerminal
      if s.shellFlag ∧ s.lastBuf 0 ≠ 0 ∧ c.notInPrevCmdFlag then s.lineIdx.toEnd s.lineIdx.last
      else s.lineIdx := by
  unfold upArrow at h
  dsimp only at h ⊢
  split at h
  · rename_i hrecall
    rw [if_pos hrecall]
    split at h
    · cases h
      generalize hc₁ : toLineEnd (c.term c.visibleTerminal).distanceFromRight.toNat
        { c with notInPrevCmdFlag := false } = c₁
      have hend := toLineEnd_lineIdx { c with notInPrevCmdFlag := false }
        (c.term c.visibleTerminal).distanceFromRight.toNat
      rw [hc₁] at hend
      have hback : ∀ (kb : Mem) (n : Nat), ((backspace^[n] (c₁.modify c.visibleTerminal fun s =>
          { s with keyboardBuffer := kb })).term c.visibleTerminal).lineIdx
            = (c₁.term c.visibleTerminal).lineIdx := by
        intro kb n
        rw [sameLine_lineIdx (iterate_backspace_sameLine ..), modify_term_self]
        rfl
      rw [redraw_lineIdx (hback _ _) _ _
        (g := fun l => { l with cursor := l.last, stop := l.last }) fun _ => rfl]
      unfold LineIdx.toEnd
      unfold TermState.lineIdx at hend ⊢
      simp only [LineIdx.mk.injEq] at hend ⊢
      omega
    · cases h
  · rename_i hnot
    cases h
    rw [if_neg hnot]

theorem downArrow_lineIdx {c c' : Console} (h : c.downArrow = some c') :
    (c'.term c.visibleTerminal).lineIdx =
      let s := c.term c.visibleTerminal
      if s.shellFlag then s.lineIdx.toEnd s.lineIdx.current else s.lineIdx := by
  unfold downArrow at h
  dsimp only at h ⊢
  split at h
  · rename_i hshell
    rw [if_pos hshell]
    split at h
    · cases h
      generalize hc₁ : toLineEnd (c.term c.visibleTerminal).distanceFromRight.toNat
        { c with notInPrevCmdFlag := true } = c₁
      have hend := toLineEnd_lineIdx { c with notInPrevCmdFlag := true }
        (c.term c.visibleTerminal).distanceFromRight.toNat
      have hv := toLineEnd_visible { c with notInPrevCmdFlag := true }
        (c.term c.visibleTerminal).distanceFromRight.toNat
      rw [hc₁] at hend hv
      obtain ⟨i, hi⟩ := eraseLine_lineIdx (c₁.modify c.visibleTerminal fun s =>
        { s with
          keyboardBuffer := freshCopy (c₁.term c.visibleTerminal).currentBuf
            (c₁.term c.visibleTerminal).currentBufIndex
          keyboardCursorIdx := s.keyboardCursorIdx + 1 })
        (c₁.term c.visibleTerminal).keyboardCursorIdx.toNat
      rw [modify_visibleTerminal, hv, modify_term_self] at hi
      rw [redraw_lineIdx hi _ _
        (g := fun l => { l with cursor := l.current, stop := l.current }) fun _ => rfl]
      unfold LineIdx.toEnd
      unfold TermState.lineIdx at hend ⊢
      simp only [LineIdx.mk.injEq] at hend ⊢
      omega
    · cases h
  · rename_i hnot
    cases h
    rw [if_neg hnot]

theorem storeKbd_lineIdx {c c' : Console} {v : Terminal} {i : Int} {b : UInt8}
    (h : c.storeKbd v i b = some c') (t : Terminal) :
    (c'.term t).lineIdx = (c.term t).lineIdx := by
  obtain ⟨kb, hkb⟩ := storeKbd_term h t
  rw [hkb]
  rfl

theorem backspaceLine_lineIdx {c c' : Console} (h : c.backspaceLine = some c') :
    (c'.term c.visibleTerminal).lineIdx = (c.term c.visibleTerminal).lineIdx.erase := by
  unfold backspaceLine at h
  dsimp only at h
  split at h
  · rename_i hend
    obtain ⟨c₁, hc₁, rfl⟩ := Option.map_eq_some_iff.mp h
    have hline := storeKbd_lineIdx hc₁ c.visibleTerminal
    have herase : (c.term c.visibleTerminal).lineIdx.erase = _ := if_pos hend
    rw [modify_term_self, herase, ← hline]
    rfl
  · rename_i hend
    split at h
    · rename_i hinner
      obtain ⟨c₁, hc₁, rfl⟩ := Option.map_eq_some_iff.mp h
      have hline := storeKbd_lineIdx hc₁ c.visibleTerminal
      have herase : (c.term c.visibleTerminal).lineIdx.erase = _ :=
        (if_neg hend).trans (if_pos hinner)
      rw [modify_term_self, herase, ← hline]
      rfl
    · rename_i hzero
      cases h
      exact ((if_neg hend).trans (if_neg hzero)).symm

theorem backspaceLine_frame {c c' : Console} (h : c.backspaceLine = some c') :
    c'.visibleTerminal = c.visibleTerminal ∧
      (c'.term c.visibleTerminal).typingDuringProgFlag
        = (c.term c.visibleTerminal).typingDuringProgFlag := by
  have hstore : ∀ {i : Int} {b : UInt8} {c₁ : Console},
      c.storeKbd c.visibleTerminal i b = some c₁ → c₁.visibleTerminal = c.visibleTerminal ∧
        (c₁.term c.visibleTerminal).typingDuringProgFlag
          = (c.term c.visibleTerminal).typingDuringProgFlag := by
    intro i b c₁ hc₁
    obtain ⟨kb, hkb⟩ := storeKbd_term hc₁ c.visibleTerminal
    obtain ⟨t, j, rfl⟩ := storeKbd_eq_some hc₁
    exact ⟨rfl, by rw [hkb]⟩
  unfold backspaceLine at h
  dsimp only at h
  split at h
  · obtain ⟨c₁, hc₁, rfl⟩ := Option.map_eq_some_iff.mp h
    rw [modify_visibleTerminal, modify_term_self]
    exact hstore hc₁
  · split at h
    · obtain ⟨c₁, hc₁, rfl⟩ := Option.map_eq_some_iff.mp h
      rw [modify_visibleTerminal, modify_term_self]
      exact hstore hc₁
    · cases h
      exact ⟨rfl, rfl⟩

theorem backspaceAhead_lineIdx (s : TermState) :
    (backspaceAhead s).lineIdx = s.lineIdx.eraseAhead s.typingDuringProgFlag := by
  unfold backspaceAhead LineIdx.eraseAhead
  by_cases h : s.typingDuringProgFlag ∧ s.tempKbdIdx > 0
  · rw [if_pos h]
    exact (if_pos h).symm
  · rw [if_neg h]
    exact (if_neg h).symm

theorem backspaceKey_lineIdx {c c' : Console} (h : c.backspaceKey = some c') :
    (c'.term c.visibleTerminal).lineIdx = (c.term c.visibleTerminal).lineIdx.erase.eraseAhead
      (c.term c.visibleTerminal).typingDuringProgFlag := by
  unfold backspaceKey at h
  obtain ⟨c₁, hc₁, rfl⟩ := Option.map_eq_some_iff.mp h
  have hdrawn := drawn_backspace c
  have hline := backspaceLine_lineIdx hc₁
  obtain ⟨hv, htyping⟩ := backspaceLine_frame hc₁
  rw [hdrawn.visible] at hline hv htyping
  rw [leave_term, hv, modify_term_self, backspaceAhead_lineIdx, hline, htyping,
    sameLine_lineIdx hdrawn.line]
  have hsame := hdrawn.line
  unfold SameLine at hsame
  rw [hsame]

theorem leftArrowKey_lineIdx (c : Console) :
    (c.leftArrowKey.term c.visibleTerminal).lineIdx
      = (c.term c.visibleTerminal).lineIdx.left c.leftArrow.2 := by
  have hline := sameLine_lineIdx (drawn_leftArrow c).line
  unfold leftArrowKey LineIdx.left
  dsimp only
  split
  · rename_i hcursor
    have hpos : (c.term c.visibleTerminal).lineIdx.cursor > 0 := hcursor
    rw [if_pos hpos]
    rw [leave_term, modify_term_self, ← hline]
    rfl
  · rename_i hcursor
    have hzero : ¬ (c.term c.visibleTerminal).lineIdx.cursor > 0 := hcursor
    rw [if_neg hzero]
    rfl

theorem rightArrowKey_lineIdx (c : Console) :
    (c.rightArrowKey.term c.visibleTerminal).lineIdx
      = (c.term c.visibleTerminal).lineIdx.right c.rightArrow.2 := by
  have hline := sameLine_lineIdx (drawn_rightArrow c).line
  unfold rightArrowKey LineIdx.right
  rw [leave_term, modify_term_self, ← hline]
  rfl

theorem ctrlL_lineIdx {c c' : Console} (h : c.ctrlL = some c') :
    (c'.term c.visibleTerminal).lineIdx = (c.term c.visibleTerminal).lineIdx.clear := by
  unfold ctrlL at h
  dsimp only at h
  split at h
  · cases h
    generalize hc₁ : c.modify c.visibleTerminal (fun s =>
      { s with
        tempKbdBuf := freshCopy s.keyboardBuffer s.keyboardCursorIdx
        tempKbdIdx := s.keyboardCursorIdx }) = c₁
    have hterm : (c₁.term c.visibleTerminal).lineIdx
        = { (c.term c.visibleTerminal).lineIdx with
          temp := (c.term c.visibleTerminal).lineIdx.cursor } := by
      rw [← hc₁, modify_term_self]
      rfl
    have hclear : (c₁.clear.term c.visibleTerminal).lineIdx
        = (c₁.term c.visibleTerminal).lineIdx := by
      rw [clear_term]
      rfl
    rw [leave_term, modify_term_self]
    show { (c₁.clear.term c.visibleTerminal).lineIdx with cursor := 0, stop := 0 } = _
    rw [hclear, hterm]
    rfl
  · cases h

/-! ## Characters and Enter -/

/-- What the blocks of a character key read and keep: the visible terminal, two flags of it and
the flag of the up arrow. -/
structure SameFlags (c c' : Console) : Prop where
  visible : c'.visibleTerminal = c.visibleTerminal
  shell : (c'.term c.visibleTerminal).shellFlag = (c.term c.visibleTerminal).shellFlag
  notInPrevCmdFlag : c'.notInPrevCmdFlag = c.notInPrevCmdFlag

theorem sameFlags_storeKbd {c c' : Console} {i : Int} {b : UInt8}
    (h : c.storeKbd c.visibleTerminal i b = some c') : SameFlags c c' ∧
      (c'.term c.visibleTerminal).sysReadFlag = (c.term c.visibleTerminal).sysReadFlag := by
  obtain ⟨kb, hkb⟩ := storeKbd_term h c.visibleTerminal
  have hflag := storeKbd_notInPrevCmdFlag h
  obtain ⟨t, j, rfl⟩ := storeKbd_eq_some h
  exact ⟨⟨rfl, by rw [hkb], hflag⟩, by rw [hkb]⟩

theorem insertChar_lineIdx {c c' : Console} {pressed : Nat} {ch : UInt8}
    (hp : pressed ≠ ENTER_PRESSED) (h : c.insertChar pressed ch = some c') :
    (c'.term c.visibleTerminal).lineIdx = (c.term c.visibleTerminal).lineIdx.insert ∧
      SameFlags c c' ∧
      (c'.term c.visibleTerminal).sysReadFlag = (c.term c.visibleTerminal).sysReadFlag := by
  unfold insertChar at h
  dsimp only at h
  split at h
  · rename_i hroom
    obtain ⟨c₁, hc₁, rfl⟩ := Option.map_eq_some_iff.mp h
    have hline := storeKbd_lineIdx hc₁ c.visibleTerminal
    obtain ⟨hflags, hread⟩ := sameFlags_storeKbd hc₁
    have hinsert : (c.term c.visibleTerminal).lineIdx.insert = _ := if_pos hroom.1
    rw [modify_term_self, hinsert, ← hline]
    refine ⟨rfl, ⟨hflags.visible, ?_, hflags.notInPrevCmdFlag⟩, hread⟩
    rw [modify_term_self]
    exact hflags.shell
  · rename_i hroom
    cases h
    exact ⟨(if_neg fun h => hroom ⟨h, hp⟩).symm, ⟨rfl, rfl, rfl⟩, rfl⟩

theorem endLine_lineIdx {c c' : Console} {ch : UInt8} (h : c.endLine ch = some c') :
    (∃ n, (c'.term c.visibleTerminal).lineIdx
      = { (c.term c.visibleTerminal).lineIdx with stop := n }) ∧ SameFlags c c' := by
  unfold endLine at h
  dsimp only at h
  split at h
  · obtain ⟨c₁, hc₁, rfl⟩ := Option.map_eq_some_iff.mp h
    have hline := storeKbd_lineIdx hc₁ c.visibleTerminal
    have hflags := (sameFlags_storeKbd hc₁).1
    rw [modify_term_self, ← hline]
    refine ⟨⟨_, rfl⟩, hflags.visible, ?_, hflags.notInPrevCmdFlag⟩
    rw [modify_term_self]
    exact hflags.shell
  · cases h
    exact ⟨⟨_, rfl⟩, rfl, rfl, rfl⟩

/-- What is left of a line when the command is saved and the reader woken. -/
theorem wakeReader_lineIdx {s s' : TermState} (h : saveCommand s = some s') :
    (wakeReader s').lineIdx = { s.lineIdx with
        cursor := 0
        stop := 0
        distance := 0
        last := if s.shellFlag then s.lineIdx.stop - 1 else s.lineIdx.last } ∧
      (wakeReader s').shellFlag = s.shellFlag := by
  unfold saveCommand at h
  split at h
  · rename_i hshell
    split at h
    · cases h
      rw [if_pos hshell]
      exact ⟨rfl, rfl⟩
    · cases h
  · rename_i hshell
    cases h
    rw [if_neg hshell]
    exact ⟨rfl, rfl⟩

/-- Enter, up to the copy for the down arrow. -/
theorem enterKey_lineIdx {c c' : Console} {ch : UInt8}
    (h : c.enterKey ENTER_PRESSED ch = some c') :
    (c'.term c.visibleTerminal).lineIdx = (c.term c.visibleTerminal).lineIdx.enter
        (c.term c.visibleTerminal).shellFlag ∧
      c'.visibleTerminal = c.visibleTerminal ∧
      (c'.term c.visibleTerminal).shellFlag = (c.term c.visibleTerminal).shellFlag ∧
      (c'.term c.visibleTerminal).sysReadFlag = false ∧ c'.notInPrevCmdFlag = true := by
  unfold enterKey at h
  dsimp only at h
  rw [if_pos rfl] at h
  obtain ⟨c₁, hc₁, h⟩ := Option.bind_eq_some_iff.mp h
  obtain ⟨s, hs, rfl⟩ := Option.map_eq_some_iff.mp h
  obtain ⟨hend, hshell⟩ := endLine_end hc₁
  obtain ⟨⟨n, hline⟩, hflags⟩ := endLine_lineIdx hc₁
  obtain ⟨hwake, hwakeShell⟩ := wakeReader_lineIdx hs
  dsimp only at hend hshell hline
  refine ⟨?_, hflags.visible, ?_, ?_, hflags.notInPrevCmdFlag⟩
  · have hstop : (c₁.term c.visibleTerminal).lineIdx.stop - 1 = _ := hend
    rw [modify_term_self, hwake, hshell, hstop, hline]
    rfl
  · rw [modify_term_self, hwakeShell, hshell]
  · rw [modify_term_self]
    rfl

theorem saveCurrent_lineIdx {c c' : Console} (h : c.saveCurrent = some c') :
    (c'.term c.visibleTerminal).lineIdx
        = (c.term c.visibleTerminal).lineIdx.keepCurrent c.notInPrevCmdFlag ∧
      SameFlags c c' ∧
      (c'.term c.visibleTerminal).sysReadFlag = (c.term c.visibleTerminal).sysReadFlag := by
  unfold saveCurrent at h
  unfold LineIdx.keepCurrent
  dsimp only at h
  split at h
  · rename_i hflag
    split at h
    · cases h
      rw [if_pos hflag, modify_term_self]
      refine ⟨rfl, ⟨rfl, ?_, rfl⟩, rfl⟩
      rw [modify_term_self]
    · cases h
  · rename_i hflag
    cases h
    rw [if_neg hflag]
    exact ⟨rfl, ⟨rfl, rfl, rfl⟩, rfl⟩

theorem typeAhead_lineIdx (s : TermState) (ch : UInt8) :
    (typeAhead s ch).lineIdx = s.lineIdx.ahead (!s.shellFlag && !s.sysReadFlag) := by
  unfold typeAhead LineIdx.ahead
  by_cases h : !s.shellFlag ∧ s.tempKbdIdx < KEYBOARD_BUFFER_SIZE ∧ !s.sysReadFlag
  · rw [if_pos h, if_pos]
    · rfl
    · rw [Bool.and_eq_true]
      exact ⟨⟨h.1, h.2.2⟩, h.2.1⟩
  · rw [if_neg h, if_neg]
    rw [Bool.and_eq_true]
    exact fun h' => h ⟨h'.1.1, h'.2, h'.1.2⟩

/-- The handler from the echo on. -/
theorem finish_lineIdx (c : Console) (v : Terminal) (ch : UInt8) :
    ((c.finish v ch).term v).lineIdx
      = (c.term v).lineIdx.ahead (!(c.term v).shellFlag && !(c.term v).sysReadFlag) := by
  have hecho : SameLine (c.term v) ((c.echo ch).term v) := by
    unfold echo
    split
    · exact putc_sameLine ..
    · exact .refl _
  unfold finish
  rw [sameLine_lineIdx (wrap_scroll_sameLine ..), modify_term_self, typeAhead_lineIdx,
    sameLine_lineIdx hecho]
  unfold SameLine at hecho
  rw [hecho]

theorem charKey_lineIdx {c c' : Console} {pressed : Nat} (h : c.charKey pressed = some c') :
    (c'.term c.visibleTerminal).lineIdx =
      let s := c.term c.visibleTerminal
      if pressed = ENTER_PRESSED then
        ((s.lineIdx.enter s.shellFlag).keepCurrent true).ahead (!s.shellFlag)
      else (s.lineIdx.insert.keepCurrent c.notInPrevCmdFlag).ahead
        (!s.shellFlag && !s.sysReadFlag) := by
  rw [charKey_eq] at h
  obtain ⟨c₄, hblock, rfl⟩ := Option.map_eq_some_iff.mp h
  obtain ⟨c₁, hc₁, hrest⟩ := Option.bind_eq_some_iff.mp hblock
  obtain ⟨c₂, hc₂, hlast⟩ := Option.bind_eq_some_iff.mp hrest
  obtain ⟨c₃, hc₃, rfl⟩ := Option.map_eq_some_iff.mp hlast
  rw [leave_term, finish_lineIdx]
  generalize c.outputChar pressed = ch at *
  have hecho : (echoOff (c.term c.visibleTerminal)).lineIdx = (c.term c.visibleTerminal).lineIdx
      ∧ (echoOff (c.term c.visibleTerminal)).shellFlag = (c.term c.visibleTerminal).shellFlag
      ∧ (echoOff (c.term c.visibleTerminal)).sysReadFlag
        = (c.term c.visibleTerminal).sysReadFlag := by
    obtain ⟨b, hb⟩ := echoOff_eq (c.term c.visibleTerminal)
    rw [hb]
    exact ⟨rfl, rfl, rfl⟩
  dsimp only
  by_cases hp : pressed = ENTER_PRESSED
  · subst hp
    rw [insertChar_enter] at hc₁
    cases hc₁
    obtain ⟨hline, hv, hshell, hread, hflag⟩ := enterKey_lineIdx hc₂
    obtain ⟨hline', hflags, hread'⟩ := saveCurrent_lineIdx hc₃
    rw [modify_visibleTerminal, modify_term_self] at hline hshell
    rw [modify_visibleTerminal] at hv hread
    have hshell' := hflags.shell
    rw [hv] at hline' hshell' hread'
    rw [if_pos rfl, hline', hshell', hread', hline, hshell, hread, hflag, hecho.1, hecho.2.1]
    simp
  · obtain ⟨hline, hflags, hread⟩ := insertChar_lineIdx hp hc₁
    rw [enterKey_char c₁ hp ch] at hc₂
    cases hc₂
    obtain ⟨hline', hflags', hread'⟩ := saveCurrent_lineIdx hc₃
    have hv := hflags.visible
    have hshell := hflags.shell
    have hshell' := hflags'.shell
    have hflag := hflags.notInPrevCmdFlag
    rw [modify_visibleTerminal, modify_term_self] at hline hread hshell
    rw [modify_visibleTerminal] at hv
    rw [modify_notInPrevCmdFlag] at hflag
    rw [hv] at hline' hshell' hread'
    rw [if_neg hp, hline', hshell', hread', hline, hshell, hread, hflag, hecho.1, hecho.2.1,
      hecho.2.2]

/-! ## One key -/

theorem lineKey_lineIdx {c c' : Console} {pressed : Nat} (h : c.lineKey pressed = some c') :
    (c'.term c.visibleTerminal).lineIdx =
      let s := c.term c.visibleTerminal
      if s.controlOn ∧ pressed = L_SCANCODE then s.lineIdx.clear
      else if pressed > START_IGNORE then s.lineIdx
      else if pressed = ENTER_PRESSED then
        ((s.lineIdx.enter s.shellFlag).keepCurrent true).ahead (!s.shellFlag)
      else (s.lineIdx.insert.keepCurrent c.notInPrevCmdFlag).ahead
        (!s.shellFlag && !s.sysReadFlag) := by
  dsimp only
  by_cases hctrl : (c.term c.visibleTerminal).controlOn ∧ pressed = L_SCANCODE
  · unfold lineKey at h
    rw [if_pos hctrl] at h
    rw [if_pos hctrl]
    exact ctrlL_lineIdx h
  · rw [if_neg hctrl]
    by_cases hignored : pressed > START_IGNORE
    · rw [lineKey_ignored c hignored] at h
      cases h
      rw [if_pos hignored, leave_term]
    · rw [if_neg hignored]
      unfold lineKey at h
      rw [if_neg hctrl, if_neg] at h
      · exact charKey_lineIdx h
      · unfold START_IGNORE START_RELEASED RIGHT_CONTROL_TAG at *
        omega

/-- **The indices after a key** that is neither a modifier nor a terminal switch. -/
theorem keyboardInterrupt_lineIdx {c c' : Console} {scancode : UInt8}
    (hp : c.Plain scancode.toNat) (h : c.keyboardInterrupt scancode = some c') :
    (c'.term c.visibleTerminal).lineIdx = c.keyLine scancode.toNat := by
  rw [keyboardInterrupt_eq] at h
  unfold keyLine
  dsimp only
  generalize scancode.toNat = pressed at *
  by_cases hup : pressed = UP_ARROW_PRESSED
  · rw [if_pos hup] at h
    obtain ⟨c₁, hc₁, rfl⟩ := Option.map_eq_some_iff.mp h
    rw [if_pos hup, leave_term]
    have hline := upArrow_lineIdx hc₁
    exact hline
  rw [if_neg hup] at h
  rw [if_neg hup]
  by_cases hdown : pressed = DOWN_ARROW_PRESSED
  · rw [if_pos hdown] at h
    obtain ⟨c₁, hc₁, rfl⟩ := Option.map_eq_some_iff.mp h
    rw [if_pos hdown, leave_term]
    have hline := downArrow_lineIdx hc₁
    exact hline
  rw [if_neg hdown] at h
  rw [if_neg hdown]
  unfold afterArrows at h
  dsimp only at h
  by_cases hback : pressed = BACKSPACE
  · rw [if_pos hback] at h
    rw [if_pos hback]
    have hline := backspaceKey_lineIdx h
    exact hline
  rw [if_neg hback] at h
  rw [if_neg hback]
  by_cases hleft : pressed = LEFT_ARROW_PRESSED ∧ (c.term c.visibleTerminal).shellFlag
  · rw [if_pos hleft] at h
    cases h
    have hline := leftArrowKey_lineIdx { c with putcToVisibleFlag := true }
    rw [leftArrow_snd] at hline
    rw [if_pos hleft, leftArrow_snd]
    exact hline
  rw [if_neg hleft] at h
  rw [if_neg hleft]
  by_cases hright : pressed = RIGHT_ARROW_PRESSED ∧ (c.term c.visibleTerminal).distanceFromRight > 0
      ∧ (c.term c.visibleTerminal).keyboardCursorIdx < KEYBOARD_BUFFER_SIZE - 1
      ∧ (c.term c.visibleTerminal).shellFlag
  · rw [if_pos hright] at h
    cases h
    have hline := rightArrowKey_lineIdx { c with putcToVisibleFlag := true }
    rw [rightArrow_snd] at hline
    refine Eq.trans ?_ (if_pos hright).symm
    rw [rightArrow_snd]
    exact hline
  rw [if_neg hright] at h
  refine Eq.trans ?_ (if_neg hright).symm
  rw [modifierKey_eq_none _ hp.modifier] at h
  have hswitch := hp.no_switch
  dsimp only at h
  rw [hswitch] at h
  have hline := lineKey_lineIdx h
  exact hline

/-- The other terminals keep their indices, and so does the visible one with a modifier or a
terminal switch. -/
theorem keyboardInterrupt_lineIdx_ne {c c' : Console} {scancode : UInt8}
    (hs : OnScreen (c.term c.visibleTerminal)) (h : c.keyboardInterrupt scancode = some c')
    {t : Terminal} (ht : t = c.visibleTerminal → ¬ c.Plain scancode.toNat) :
    (c'.term t).lineIdx = (c.term t).lineIdx := by
  by_cases hp : c.Plain scancode.toNat
  · obtain ⟨c₁, hsteady, rfl⟩ := plain_steady hs hp h
    obtain ⟨kb, hkb⟩ := hsteady.other t fun heq => ht heq hp
    rw [leave_term, hkb]
    rfl
  · cases not_plain_turned hp h with
    | modifier f hf _ =>
        have heq := hf (c.term t)
        unfold SameButModifiers at heq
        show (f (c.term t)).lineIdx = _
        rw [heq]
        rfl
    | same => rfl
    | switch u _ _ =>
        rw [switchTerminal_term]
        rfl

/-! ## The start of a read -/

theorem endReplay_lineIdx (s : TermState) (b : UInt8) :
    (endReplay s b).lineIdx = { s.lineIdx with
      cursor := if b = 10 then s.lineIdx.cursor - 1 else s.lineIdx.cursor
      stop := if b = 10 then s.lineIdx.cursor - 1 else s.lineIdx.cursor
      current := if b = 10 then s.lineIdx.cursor - 1 else s.lineIdx.cursor
      temp := 0 } := by
  unfold endReplay
  rfl

/-- The start of a read leaves the other terminals alone. -/
theorem readTerminalStart_sameLine {c c' : Console} (h : c.readTerminalStart = some c')
    {t : Terminal} (ht : t ≠ c.processTerminal) : SameLine (c.term t) (c'.term t) := by
  rcases readTerminalStart_cases h with ⟨_, rfl⟩ | ⟨_, _, rfl⟩
  · rw [modify_term_ne _ _ _ ht, modify_term_ne _ _ _ ht]
    exact .refl _
  · have hout := putcs_sameLine ((c.modify c.processTerminal clearLine).modify c.processTerminal
      restoreLine) (replayed (c.term c.processTerminal)) t
    rw [modify_term_ne _ _ _ ht, modify_term_ne _ _ _ ht] at hout
    rw [modify_term_ne _ _ _ ht, modify_term_ne _ _ _ ht]
    exact hout

/-- **The indices after the start of a read.** -/
theorem readTerminalStart_lineIdx {c c' : Console} (h : c.readTerminalStart = some c')
    (t : Terminal) : (c'.term t).lineIdx =
      if t = c.processTerminal ∧ replays (c.term t) then
        (c.term t).lineIdx.replay (decide (c.replayByte = 10))
      else (c.term t).lineIdx := by
  by_cases ht : t = c.processTerminal
  · subst ht
    rcases readTerminalStart_cases h with ⟨hr, rfl⟩ | ⟨hr, _, rfl⟩
    · rw [if_neg fun hk => Bool.false_ne_true (hr.symm.trans hk.2), modify_term_self,
        modify_term_self]
      rfl
    · rw [if_pos ⟨rfl, hr⟩, modify_term_self, modify_term_self]
      show (endReplay _ _).lineIdx = _
      rw [endReplay_lineIdx, sameLine_lineIdx (putcs_sameLine ..), modify_term_self,
        modify_term_self]
      unfold LineIdx.replay
      simp only [decide_eq_true_eq]
      rfl
  · rw [if_neg fun hk => ht hk.1, sameLine_lineIdx (readTerminalStart_sameLine h ht)]

end Console

end Ext2Kernel
