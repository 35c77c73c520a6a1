import Ext2Kernel.Console.LineText

set_option autoImplicit false

/-! # Left and right arrow

The linear position of the cursor numbers the cells of the screen row by row. `left_arrow` goes
back by what it returns from every cell. `right_arrow` goes forward by what it returns except from
column `NUM_COLS`, one behind the last of a row: it stays in that column when it changes the row
(`EdgeStep`), and the cursor goes 80 cells forward.
-/

namespace Ext2Kernel

/-! ## The two motions -/

namespace TermState

def position (s : TermState) : Nat := NUM_COLS * s.screenY + s.screenX

/-- One cell back, in the row or to the end of the row above. -/
def goLeft (s : TermState) : TermState :=
  if s.screenX ≠ 0 then Console.stepBack s (s.screenX - 1) else Console.stepUp s

/-- Where `right_arrow` goes. -/
def goRight (s : TermState) : TermState :=
  if s.screenX ≠ NUM_COLS then Console.stepRight s else { s with screenY := s.screenY + 1 }

theorem position_goLeft {s : TermState} (h : s.screenX ≠ 0 ∨ s.screenY ≠ 0) :
    s.goLeft.position + 1 = s.position := by
  unfold goLeft position
  split
  · rename_i hx
    show NUM_COLS * s.screenY + (s.screenX - 1) + 1 = _
    omega
  · rename_i hx
    have hy : s.screenY ≠ 0 := h.resolve_left hx
    have hplace : (Console.stepUp s).screenX = NUM_COLS - 1 ∧
        (Console.stepUp s).screenY = s.screenY - 1 := by
      unfold Console.stepUp
      split <;> exact ⟨rfl, rfl⟩
    rw [hplace.1, hplace.2]
    unfold NUM_COLS
    omega

theorem position_goRight (s : TermState) : s.goRight.position =
    if s.screenX ≠ NUM_COLS then s.position + 1 else s.position + NUM_COLS := by
  unfold goRight position
  split
  · rfl
  · show NUM_COLS * (s.screenY + 1) + s.screenX = _
    rw [Nat.mul_succ]
    omega

theorem goLeft_screenX {s : TermState} (h : s.screenX ≤ NUM_COLS) :
    s.goLeft.screenX < NUM_COLS := by
  unfold goLeft
  split
  · show s.screenX - 1 < NUM_COLS
    omega
  · unfold Console.stepUp
    split <;> exact Nat.sub_lt (by decide) (by decide)

/-- The left arrow, when the handler takes it. -/
def pressLeft (s : TermState) (moves : Prop) [Decidable moves] : TermState :=
  let s' := if moves then s.goLeft else s
  { s' with
    distanceFromRight := s'.distanceFromRight + if moves then 1 else 0
    keyboardCursorIdx := s'.keyboardCursorIdx - 1
    echoFlag := true }

/-- The right arrow. -/
def pressRight (s : TermState) (moves : Prop) [Decidable moves] : TermState :=
  let s' := if moves then s.goRight else s
  { s' with
    distanceFromRight := s'.distanceFromRight - if moves then 1 else 0
    keyboardCursorIdx := s'.keyboardCursorIdx + if moves then 1 else 0
    echoFlag := true }

theorem sameLine_goLeft (s : TermState) : SameLine s s.goLeft := by
  unfold goLeft
  split
  · exact Console.sameLine_stepBack s
  · exact Console.sameLine_stepUp s

theorem sameLine_goRight (s : TermState) : SameLine s s.goRight := by
  unfold goRight
  split
  · exact Console.sameLine_stepRight s
  · exact Console.sameLine_nextRow s

theorem pressLeft_line (s : TermState) (moves : Prop) [Decidable moves] :
    (s.pressLeft moves).shellFlag = s.shellFlag ∧
      (s.pressLeft moves).keyboardCursorIdx = s.keyboardCursorIdx - 1 ∧
      (s.pressLeft moves).distanceFromRight
        = s.distanceFromRight + if moves then 1 else 0 := by
  have h := s.sameLine_goLeft
  unfold SameLine at h
  unfold pressLeft
  split
  · exact ⟨(congrArg TermState.shellFlag h).symm,
      congrArg (· - 1) (congrArg TermState.keyboardCursorIdx h).symm,
      congrArg (· + 1) (congrArg TermState.distanceFromRight h).symm⟩
  · exact ⟨rfl, rfl, rfl⟩

theorem pressRight_line (s : TermState) (moves : Prop) [Decidable moves] :
    (s.pressRight moves).shellFlag = s.shellFlag ∧
      (s.pressRight moves).keyboardCursorIdx = s.keyboardCursorIdx + (if moves then 1 else 0) ∧
      (s.pressRight moves).distanceFromRight
        = s.distanceFromRight - if moves then 1 else 0 := by
  have h := s.sameLine_goRight
  unfold SameLine at h
  unfold pressRight
  split
  · exact ⟨(congrArg TermState.shellFlag h).symm,
      congrArg (· + 1) (congrArg TermState.keyboardCursorIdx h).symm,
      congrArg (· - 1) (congrArg TermState.distanceFromRight h).symm⟩
  · exact ⟨rfl, rfl, rfl⟩

end TermState

namespace Console

/-! ## The routines -/

/-- The linear position of the cursor of the visible terminal. -/
def position (c : Console) : Nat := (c.term c.visibleTerminal).position

/-- `right_arrow` changes the row. -/
def EdgeStep (c : Console) : Prop :=
  let s := c.term c.visibleTerminal
  s.screenX = NUM_COLS ∧ s.screenY < NUM_ROWS - 1 ∧
    s.keyboardCursorIdx ≠ KEYBOARD_BUFFER_SIZE - 1 ∧ c.rowEnd (s.screenY + 1) ≠ 10

instance (c : Console) : Decidable c.EdgeStep := inferInstanceAs (Decidable (_ ∧ _))

theorem leftArrow_fst (c : Console) : c.leftArrow.1 =
    if c.LeftMoves then c.modify c.visibleTerminal TermState.goLeft else c := by
  by_cases h : c.LeftMoves
  · rw [if_pos h]
    obtain ⟨hcursor, hplace⟩ := h
    unfold leftArrow
    dsimp only
    rw [if_neg (by tauto), if_neg hcursor]
    split
    · rename_i hx
      dsimp only
      refine modify_congr ?_
      exact (if_pos hx).symm
    · rename_i hx
      rw [if_neg (by tauto)]
      refine modify_congr ?_
      exact (if_neg hx).symm
  · rw [if_neg h]
    unfold LeftMoves at h
    unfold leftArrow
    dsimp only at h ⊢
    split_ifs <;> first | rfl | tauto

theorem rightArrow_fst (c : Console) : c.rightArrow.1 =
    if c.RightMoves then c.modify c.visibleTerminal TermState.goRight else c := by
  by_cases h : c.RightMoves
  · rw [if_pos h]
    obtain ⟨hcursor, hplace⟩ := h
    unfold rightArrow
    dsimp only
    rw [if_neg (by rintro ⟨hx, hy⟩; omega), if_neg hcursor]
    split
    · rename_i hx
      refine modify_congr ?_
      exact (if_pos hx).symm
    · rename_i hx
      obtain ⟨hy, hrow⟩ := hplace.resolve_left hx
      rw [if_pos hy, if_neg hrow]
      dsimp only
      refine modify_congr ?_
      exact (if_neg hx).symm
  · rw [if_neg h]
    unfold RightMoves at h
    unfold rightArrow
    dsimp only at h ⊢
    split_ifs <;> first | rfl | tauto

theorem edgeStep_iff (c : Console) :
    c.EdgeStep ↔ (c.term c.visibleTerminal).screenX = NUM_COLS ∧ c.RightMoves := by
  unfold EdgeStep RightMoves
  dsimp only
  tauto

theorem position_modify (c : Console) (f : TermState → TermState) :
    (c.modify c.visibleTerminal f).position = (f (c.term c.visibleTerminal)).position := by
  unfold position
  rw [modify_visibleTerminal, modify_term_self]

theorem position_leave (c : Console) : c.leave.position = c.position := rfl

/-- **`left_arrow`** moves the cursor back by what it returns. -/
theorem leftArrow_position (c : Console) :
    (c.leftArrow.1.position : Int) = c.position - c.leftArrow.2 := by
  rw [leftArrow_fst, leftArrow_snd]
  by_cases h : c.LeftMoves
  · have hback : (c.term c.visibleTerminal).goLeft.position + 1 = c.position := by
      apply TermState.position_goLeft
      exact h.2.imp id And.left
    rw [if_pos h, if_pos h, position_modify]
    omega
  · rw [if_neg h, if_neg h]
    omega

/-- **`right_arrow`** moves the cursor forward by what it returns unless it changes the row. -/
theorem rightArrow_position_iff (c : Console) :
    (c.rightArrow.1.position : Int) = c.position + c.rightArrow.2 ↔ ¬ c.EdgeStep := by
  rw [rightArrow_fst, rightArrow_snd, edgeStep_iff]
  by_cases h : c.RightMoves
  · have hforward : (c.term c.visibleTerminal).goRight.position = _ :=
      TermState.position_goRight _
    have hstart : (c.term c.visibleTerminal).position = c.position := rfl
    rw [if_pos h, if_pos h, position_modify, hforward, hstart]
    by_cases hx : (c.term c.visibleTerminal).screenX = NUM_COLS
    · rw [if_neg (not_not.mpr hx)]
      unfold NUM_COLS at *
      refine iff_of_false (by omega) fun hk => hk ⟨hx, h⟩
    · rw [if_pos hx]
      exact iff_of_true (by omega) fun hk => hx hk.1
  · rw [if_neg h, if_neg h]
    exact iff_of_true (by omega) fun hk => h hk.2

/-! ## The keys -/

def leftKey : UInt8 := 0x4B
def rightKey : UInt8 := 0x4D

/-- The handler calls `left_arrow`. -/
def CallsLeft (c : Console) : Prop :=
  let s := c.term c.visibleTerminal
  s.shellFlag ∧ s.keyboardCursorIdx > 0

/-- The handler calls `right_arrow`. -/
def CallsRight (c : Console) : Prop :=
  let s := c.term c.visibleTerminal
  s.distanceFromRight > 0 ∧ s.keyboardCursorIdx < KEYBOARD_BUFFER_SIZE - 1 ∧ s.shellFlag

instance (c : Console) : Decidable c.CallsLeft := inferInstanceAs (Decidable (_ ∧ _))
instance (c : Console) : Decidable c.CallsRight := inferInstanceAs (Decidable (_ ∧ _))

theorem leftArrowKey_eq {c : Console} (h : (c.term c.visibleTerminal).keyboardCursorIdx > 0) :
    c.leftArrowKey =
      (c.modify c.visibleTerminal fun s => s.pressLeft c.LeftMoves).leave := by
  unfold leftArrowKey
  dsimp only
  rw [if_pos h, leftArrow_fst, leftArrow_snd]
  by_cases hmoves : c.LeftMoves
  · rw [if_pos hmoves, if_pos hmoves, modify_modify]
    refine congrArg leave (modify_congr ?_)
    unfold TermState.pressLeft
    simp only [if_pos hmoves]
  · rw [if_neg hmoves, if_neg hmoves]
    refine congrArg leave (modify_congr ?_)
    unfold TermState.pressLeft
    simp only [if_neg hmoves]

theorem rightArrowKey_eq (c : Console) : c.rightArrowKey =
    (c.modify c.visibleTerminal fun s => s.pressRight c.RightMoves).leave := by
  unfold rightArrowKey
  rw [rightArrow_fst, rightArrow_snd]
  by_cases hmoves : c.RightMoves
  · rw [if_pos hmoves, if_pos hmoves, modify_modify]
    refine congrArg leave (modify_congr ?_)
    unfold TermState.pressRight
    simp only [if_pos hmoves]
  · rw [if_neg hmoves, if_neg hmoves]
    refine congrArg leave (modify_congr ?_)
    unfold TermState.pressRight
    simp only [if_neg hmoves]

theorem plain_arrow (c : Console) {pressed : Nat}
    (h : pressed = LEFT_ARROW_PRESSED ∨ pressed = RIGHT_ARROW_PRESSED) : c.Plain pressed := by
  rcases h with rfl | rfl
  · exact ⟨by decide, fun _ => by decide⟩
  · exact ⟨by decide, fun _ => by decide⟩

/-- **The left arrow key.** -/
theorem keyboardInterrupt_left (c : Console) : c.keyboardInterrupt leftKey =
    some (if c.CallsLeft then
      (c.modify c.visibleTerminal fun s => s.pressLeft c.LeftMoves).leave else c.leave) := by
  have hkey : c.keyboardInterrupt leftKey = afterArrows { c with putcToVisibleFlag := true }
      LEFT_ARROW_PRESSED := by
    rw [keyboardInterrupt_eq, if_neg (by decide), if_neg (by decide)]
    rfl
  rw [hkey]
  by_cases hshell : (c.term c.visibleTerminal).shellFlag = true
  · have htaken : afterArrows { c with putcToVisibleFlag := true } LEFT_ARROW_PRESSED
        = some (leftArrowKey { c with putcToVisibleFlag := true }) := by
      unfold afterArrows
      dsimp only
      rw [if_neg (by decide), if_pos ⟨rfl, hshell⟩]
    rw [htaken]
    by_cases hcursor : (c.term c.visibleTerminal).keyboardCursorIdx > 0
    · rw [if_pos ⟨hshell, hcursor⟩]
      exact congrArg some (leftArrowKey_eq (c := { c with putcToVisibleFlag := true }) hcursor)
    · rw [if_neg fun hk => hcursor hk.2]
      unfold leftArrowKey
      dsimp only
      rw [if_neg hcursor]
      rfl
  · rw [if_neg fun hk => hshell hk.1]
    apply afterArrows_ignored (c := { c with putcToVisibleFlag := true })
    · exact plain_arrow _ (Or.inl rfl)
    · decide
    · exact fun hk => hshell hk.2
    · exact fun hk => absurd hk.1 (by decide)

/-- **The right arrow key.** -/
theorem keyboardInterrupt_right (c : Console) : c.keyboardInterrupt rightKey =
    some (if c.CallsRight then
      (c.modify c.visibleTerminal fun s => s.pressRight c.RightMoves).leave else c.leave) := by
  have hkey : c.keyboardInterrupt rightKey = afterArrows { c with putcToVisibleFlag := true }
      RIGHT_ARROW_PRESSED := by
    rw [keyboardInterrupt_eq, if_neg (by decide), if_neg (by decide)]
    rfl
  rw [hkey]
  by_cases hcalls : c.CallsRight
  · rw [if_pos hcalls]
    unfold afterArrows
    dsimp only
    rw [if_neg (by decide), if_neg fun hk => absurd hk.1 (by decide), if_pos ⟨rfl, hcalls⟩]
    exact congrArg some (rightArrowKey_eq { c with putcToVisibleFlag := true })
  · rw [if_neg hcalls]
    apply afterArrows_ignored (c := { c with putcToVisibleFlag := true })
    · exact plain_arrow _ (Or.inr rfl)
    · decide
    · exact fun hk => absurd hk.1 (by decide)
    · exact fun hk => hcalls hk.2

/-! ## What the keys do -/

/-- Both keys change the visible terminal only. -/
structure ArrowFrame (c c' : Console) : Prop where
  visible : c'.visibleTerminal = c.visibleTerminal
  video : c'.video = c.video
  shell : (c'.term c'.visibleTerminal).shellFlag = (c.term c.visibleTerminal).shellFlag

theorem ArrowFrame.refl (c : Console) : ArrowFrame c c := ⟨rfl, rfl, rfl⟩

theorem ArrowFrame.trans {c c' c'' : Console} (h : ArrowFrame c c') (h' : ArrowFrame c' c'') :
    ArrowFrame c c'' :=
  ⟨h'.visible.trans h.visible, h'.video.trans h.video, h'.shell.trans h.shell⟩

/-- The key goes where the routine goes. -/
theorem position_pressLeft (c : Console) :
    (c.modify c.visibleTerminal fun s => s.pressLeft c.LeftMoves).position
      = c.leftArrow.1.position := by
  rw [leftArrow_fst, position_modify]
  unfold TermState.pressLeft
  split
  · rw [position_modify]
    rfl
  · rfl

theorem position_pressRight (c : Console) :
    (c.modify c.visibleTerminal fun s => s.pressRight c.RightMoves).position
      = c.rightArrow.1.position := by
  rw [rightArrow_fst, position_modify]
  unfold TermState.pressRight
  split
  · rw [position_modify]
    rfl
  · rfl

/-- `n` presses of the left arrow go back `j` cells: they add to the distance from the right what
they take from the position. -/
structure WentBack (c c' : Console) (n j : Nat) : Prop where
  frame : ArrowFrame c c'
  le : j ≤ n
  position : c'.position + j = c.position
  distance : (c'.term c'.visibleTerminal).distanceFromRight
    = (c.term c.visibleTerminal).distanceFromRight + j
  cursor : j = n → (c'.term c'.visibleTerminal).keyboardCursorIdx
    = (c.term c.visibleTerminal).keyboardCursorIdx - n
  column : (j = 0 ∧ (c'.term c'.visibleTerminal).screenX = (c.term c.visibleTerminal).screenX) ∨
    (c'.term c'.visibleTerminal).screenX < NUM_COLS

theorem WentBack.refl (c : Console) : WentBack c c 0 0 :=
  ⟨.refl c, Nat.le_refl _, rfl, (Int.add_zero _).symm, fun _ => (Int.sub_zero _).symm,
    Or.inl ⟨rfl, rfl⟩⟩

theorem WentBack.trans {c c' c'' : Console} {n j r : Nat} (h : WentBack c c' 1 r)
    (h' : WentBack c' c'' n j) : WentBack c c'' (n + 1) (j + r) := by
  have hle := h.le
  have hle' := h'.le
  have hpos := h.position
  have hpos' := h'.position
  have hdist := h.distance
  have hdist' := h'.distance
  refine ⟨h.frame.trans h'.frame, by omega, by omega, by omega, fun hall => ?_, ?_⟩
  · have hcursor := h.cursor (by omega)
    have hcursor' := h'.cursor (by omega)
    omega
  · rcases h'.column with ⟨hj, hx'⟩ | hx'
    · rw [hx']
      rcases h.column with ⟨hr, hx⟩ | hx
      · exact Or.inl ⟨by omega, hx⟩
      · exact Or.inr hx
    · exact Or.inr hx'

theorem WentBack.inColumns {c c' : Console} {n j : Nat} (h : WentBack c c' n j)
    (hx : (c.term c.visibleTerminal).screenX ≤ NUM_COLS) :
    (c'.term c'.visibleTerminal).screenX ≤ NUM_COLS := by
  rcases h.column with ⟨_, hx'⟩ | hx'
  · exact Nat.le_trans (Nat.le_of_eq hx') hx
  · exact Nat.le_of_lt hx'

/-- One press. -/
theorem left_wentBack {c c' : Console} (h : c.keyboardInterrupt leftKey = some c')
    (hx : (c.term c.visibleTerminal).screenX ≤ NUM_COLS) :
    ∃ r, WentBack c c' 1 r ∧ (c.CallsLeft → c.LeftMoves → r = 1) := by
  rw [keyboardInterrupt_left] at h
  split at h
  · cases h
    obtain ⟨hshell, hcursor, hdist⟩ := (c.term c.visibleTerminal).pressLeft_line c.LeftMoves
    have hplace : ((c.term c.visibleTerminal).pressLeft c.LeftMoves).screenX =
        (if c.LeftMoves then (c.term c.visibleTerminal).goLeft
          else c.term c.visibleTerminal).screenX := rfl
    have hterm : (c.modify c.visibleTerminal fun s => s.pressLeft c.LeftMoves).term
        c.visibleTerminal = (c.term c.visibleTerminal).pressLeft c.LeftMoves := modify_term_self ..
    have hback := c.leftArrow_position
    rw [← hterm] at hshell hcursor hdist hplace
    rw [leftArrow_snd, ← position_pressLeft] at hback
    by_cases hmoves : c.LeftMoves
    · rw [if_pos hmoves] at hback hdist hplace
      refine ⟨1, ⟨⟨rfl, rfl, hshell⟩, Nat.le_refl _, ?_, hdist, fun _ => hcursor, Or.inr ?_⟩,
        fun _ _ => rfl⟩
      · rw [position_leave]
        omega
      · exact Nat.lt_of_le_of_lt (Nat.le_of_eq hplace) (TermState.goLeft_screenX hx)
    · rw [if_neg hmoves] at hback hdist hplace
      refine ⟨0, ⟨⟨rfl, rfl, hshell⟩, Nat.zero_le _, ?_, hdist, fun hk => absurd hk (by decide),
        Or.inl ⟨rfl, hplace⟩⟩, fun _ hk => absurd hk hmoves⟩
      rw [position_leave]
      omega
  · rename_i hcalls
    cases h
    exact ⟨0, ⟨⟨rfl, rfl, rfl⟩, Nat.zero_le _, rfl, (Int.add_zero _).symm,
      fun hk => absurd hk (by decide), Or.inl ⟨rfl, rfl⟩⟩, fun hk => absurd hk hcalls⟩

/-- What the arrow routine that the handler calls returns, counted forward; 0 when the handler
calls none. -/
def arrowReturn (c : Console) (pressed : Nat) : Int :=
  if pressed = LEFT_ARROW_PRESSED ∧ c.CallsLeft then -c.leftArrow.2
  else if pressed = RIGHT_ARROW_PRESSED ∧ c.CallsRight then c.rightArrow.2
  else 0

/-- The left arrow key moves the cursor by what `left_arrow` returns. -/
theorem left_moves {c c' : Console} (h : c.keyboardInterrupt leftKey = some c') :
    (c'.position : Int) = c.position + c.arrowReturn LEFT_ARROW_PRESSED := by
  unfold arrowReturn
  rw [keyboardInterrupt_left] at h
  by_cases hcalls : c.CallsLeft
  · rw [if_pos hcalls] at h
    cases h
    have hback := c.leftArrow_position
    rw [← position_pressLeft] at hback
    rw [if_pos ⟨rfl, hcalls⟩]
    exact hback
  · rw [if_neg hcalls] at h
    cases h
    rw [if_neg fun hk => hcalls hk.2, if_neg fun hk => absurd hk.1 (by decide)]
    exact (Int.add_zero _).symm

/-- The right arrow key moves the cursor by what `right_arrow` returns unless that changes the
row. -/
theorem right_moves_iff {c c' : Console} (h : c.keyboardInterrupt rightKey = some c') :
    (c'.position : Int) = c.position + c.arrowReturn RIGHT_ARROW_PRESSED ↔
      ¬ (c.CallsRight ∧ c.EdgeStep) := by
  unfold arrowReturn
  rw [if_neg fun hk => absurd hk.1 (by decide)]
  rw [keyboardInterrupt_right] at h
  by_cases hcalls : c.CallsRight
  · rw [if_pos hcalls] at h
    cases h
    have hforward := c.rightArrow_position_iff
    rw [← position_pressRight] at hforward
    rw [if_pos ⟨rfl, hcalls⟩, and_iff_right hcalls]
    exact hforward
  · rw [if_neg hcalls] at h
    cases h
    rw [if_neg fun hk => hcalls hk.2]
    exact iff_of_true (Int.add_zero _).symm fun hk => hcalls hk.1

/-- What the right arrow key does to the visible terminal: nothing, one cell forward in the row, or
the change of the row. -/
inductive RightStep (c c' : Console) : Prop
  | stays (h : c.CallsRight → (c.term c.visibleTerminal).screenX = NUM_COLS ∧ ¬ c.EdgeStep)
      (hx : (c'.term c'.visibleTerminal).screenX = (c.term c.visibleTerminal).screenX)
      (hy : (c'.term c'.visibleTerminal).screenY = (c.term c.visibleTerminal).screenY)
      (hcursor : (c'.term c'.visibleTerminal).keyboardCursorIdx
        = (c.term c.visibleTerminal).keyboardCursorIdx)
      (hdist : (c'.term c'.visibleTerminal).distanceFromRight
        = (c.term c.visibleTerminal).distanceFromRight)
  | row (hcalls : c.CallsRight) (hne : (c.term c.visibleTerminal).screenX ≠ NUM_COLS)
      (hx : (c'.term c'.visibleTerminal).screenX = (c.term c.visibleTerminal).screenX + 1)
      (hy : (c'.term c'.visibleTerminal).screenY = (c.term c.visibleTerminal).screenY)
      (hcursor : (c'.term c'.visibleTerminal).keyboardCursorIdx
        = (c.term c.visibleTerminal).keyboardCursorIdx + 1)
      (hdist : (c'.term c'.visibleTerminal).distanceFromRight
        = (c.term c.visibleTerminal).distanceFromRight - 1)
  | edge (hcalls : c.CallsRight) (hedge : c.EdgeStep)
      (hx : (c'.term c'.visibleTerminal).screenX = (c.term c.visibleTerminal).screenX)
      (hy : (c'.term c'.visibleTerminal).screenY = (c.term c.visibleTerminal).screenY + 1)
      (hdist : (c'.term c'.visibleTerminal).distanceFromRight
        = (c.term c.visibleTerminal).distanceFromRight - 1)

theorem right_spec {c c' : Console} (h : c.keyboardInterrupt rightKey = some c') :
    ArrowFrame c c' ∧ RightStep c c' := by
  rw [keyboardInterrupt_right] at h
  by_cases hcalls : c.CallsRight
  · rw [if_pos hcalls] at h
    cases h
    obtain ⟨hshell, hcursor, hdist⟩ := (c.term c.visibleTerminal).pressRight_line c.RightMoves
    have hterm : (c.modify c.visibleTerminal fun s => s.pressRight c.RightMoves).term
        c.visibleTerminal = (c.term c.visibleTerminal).pressRight c.RightMoves :=
      modify_term_self ..
    have hplace : ((c.term c.visibleTerminal).pressRight c.RightMoves).screenX =
          (if c.RightMoves then (c.term c.visibleTerminal).goRight
            else c.term c.visibleTerminal).screenX ∧
        ((c.term c.visibleTerminal).pressRight c.RightMoves).screenY =
          (if c.RightMoves then (c.term c.visibleTerminal).goRight
            else c.term c.visibleTerminal).screenY := ⟨rfl, rfl⟩
    rw [← hterm] at hshell hcursor hdist hplace
    refine ⟨⟨rfl, rfl, hshell⟩, ?_⟩
    obtain ⟨hx, hy⟩ := hplace
    unfold TermState.goRight at hx hy
    by_cases hcol : (c.term c.visibleTerminal).screenX = NUM_COLS
    · by_cases hmoves : c.RightMoves
      · rw [if_pos hmoves] at hdist
        rw [if_pos hmoves, if_neg (not_not.mpr hcol)] at hx hy
        exact .edge hcalls (c.edgeStep_iff.mpr ⟨hcol, hmoves⟩) hx hy hdist
      · rw [if_neg hmoves] at hx hy hcursor hdist
        refine .stays (fun _ => ⟨hcol, fun hk => hmoves (c.edgeStep_iff.mp hk).2⟩) hx hy ?_ ?_
        · exact hcursor.trans (Int.add_zero _)
        · exact hdist.trans (Int.sub_zero _)
    · have hmoves : c.RightMoves := ⟨Int.ne_of_lt hcalls.2.1, Or.inl hcol⟩
      rw [if_pos hmoves] at hx hy hcursor hdist
      rw [if_pos hcol] at hx hy
      exact .row hcalls hcol hx hy hcursor hdist
  · rw [if_neg hcalls] at h
    cases h
    exact ⟨⟨rfl, rfl, rfl⟩, .stays (fun hk => absurd hk hcalls) rfl rfl rfl rfl⟩

theorem RightStep.position_le {c c' : Console} (h : RightStep c c') :
    c.position ≤ c'.position := by
  unfold position TermState.position
  cases h with
  | stays _ hx hy => exact Nat.le_of_eq (by rw [hx, hy])
  | row _ _ hx hy =>
      rw [hx, hy]
      omega
  | edge _ _ hx hy =>
      rw [hx, hy, Nat.mul_succ]
      omega

/-- `n` presses of the right arrow go forward by `j` cells and never change the row: the row is
long enough, the line too, and no press of the others moves the cursor on. -/
def Retraces (c : Console) (n j : Nat) : Prop :=
  let s := c.term c.visibleTerminal
  s.screenX + j ≤ NUM_COLS ∧
    (j = 0 ∨ s.keyboardCursorIdx + j ≤ KEYBOARD_BUFFER_SIZE - 1) ∧
    (j = n ∨ s.distanceFromRight = j ∨ KEYBOARD_BUFFER_SIZE - 1 ≤ s.keyboardCursorIdx + j ∨
      (s.screenX + j = NUM_COLS ∧
        ¬ (s.screenY < NUM_ROWS - 1 ∧ c.rowEnd (s.screenY + 1) ≠ 10)))

instance (c : Console) (n j : Nat) : Decidable (c.Retraces n j) :=
  inferInstanceAs (Decidable (_ ∧ _ ∧ _))

section

variable {c c' : Console} {n j : Nat}

/-- A press that does nothing finds the same when it is repeated. -/
theorem stays_again (hframe : ArrowFrame c c')
    (h : c.CallsRight → (c.term c.visibleTerminal).screenX = NUM_COLS ∧ ¬ c.EdgeStep)
    (hx : (c'.term c'.visibleTerminal).screenX = (c.term c.visibleTerminal).screenX)
    (hy : (c'.term c'.visibleTerminal).screenY = (c.term c.visibleTerminal).screenY)
    (hcursor : (c'.term c'.visibleTerminal).keyboardCursorIdx
      = (c.term c.visibleTerminal).keyboardCursorIdx)
    (hdist : (c'.term c'.visibleTerminal).distanceFromRight
      = (c.term c.visibleTerminal).distanceFromRight) :
    c'.CallsRight → (c'.term c'.visibleTerminal).screenX = NUM_COLS ∧ ¬ c'.EdgeStep := by
  have hrow : ∀ y, c'.rowEnd y = c.rowEnd y := fun y => congrFun hframe.video _
  unfold CallsRight EdgeStep at h ⊢
  dsimp only at h ⊢
  rw [hx, hy, hcursor, hdist, hframe.shell, hrow]
  exact h

/-- Where a press does nothing. -/
theorem retraces_zero (hshell : (c.term c.visibleTerminal).shellFlag = true)
    (h : c.CallsRight → (c.term c.visibleTerminal).screenX = NUM_COLS ∧ ¬ c.EdgeStep)
    (hx : (c.term c.visibleTerminal).screenX ≤ NUM_COLS)
    (hd : 0 ≤ (c.term c.visibleTerminal).distanceFromRight) (n : Nat) : c.Retraces n 0 := by
  refine ⟨hx, Or.inl rfl, Or.inr ?_⟩
  by_cases hcalls : c.CallsRight
  · obtain ⟨hcol, hedge⟩ := h hcalls
    refine Or.inr (Or.inr ⟨hcol, fun hk => hedge ⟨hcol, hk.1, ?_, hk.2⟩⟩)
    exact Int.ne_of_lt hcalls.2.1
  · by_cases hzero : (c.term c.visibleTerminal).distanceFromRight = 0
    · exact Or.inl hzero
    · refine Or.inr (Or.inl ?_)
      have hfull : ¬ (c.term c.visibleTerminal).keyboardCursorIdx < KEYBOARD_BUFFER_SIZE - 1 :=
        fun hk => hcalls ⟨by omega, hk, hshell⟩
      omega

theorem Retraces.eq_zero (hr : c.Retraces n j)
    (hshell : (c.term c.visibleTerminal).shellFlag = true)
    (h : c.CallsRight → (c.term c.visibleTerminal).screenX = NUM_COLS ∧ ¬ c.EdgeStep)
    (hd : (j : Int) ≤ (c.term c.visibleTerminal).distanceFromRight) : j = 0 := by
  obtain ⟨hcol, hroom, _⟩ := hr
  by_cases hcalls : c.CallsRight
  · have hx := (h hcalls).1
    omega
  · by_contra hne
    have hfull := hroom.resolve_left hne
    exact hcalls ⟨by omega, by omega, hshell⟩

/-- A press inside the row. -/
theorem retraces_row (hframe : ArrowFrame c c') (hcalls : c.CallsRight)
    (hx : (c'.term c'.visibleTerminal).screenX = (c.term c.visibleTerminal).screenX + 1)
    (hy : (c'.term c'.visibleTerminal).screenY = (c.term c.visibleTerminal).screenY)
    (hcursor : (c'.term c'.visibleTerminal).keyboardCursorIdx
      = (c.term c.visibleTerminal).keyboardCursorIdx + 1)
    (hdist : (c'.term c'.visibleTerminal).distanceFromRight
      = (c.term c.visibleTerminal).distanceFromRight - 1) :
    c.Retraces (n + 1) (j + 1) ↔ c'.Retraces n j := by
  have hlt := hcalls.2.1
  have hrow : ∀ y, c'.rowEnd y = c.rowEnd y := fun y => congrFun hframe.video _
  unfold Retraces
  dsimp only
  rw [hx, hy, hcursor, hdist, hrow]
  refine and_congr (by omega) (and_congr (by omega) ?_)
  refine or_congr (by omega) (or_congr (by omega) (or_congr (by omega) (and_congr_left' ?_)))
  omega

/-- No press goes on where the next one does. -/
theorem not_retraces_zero (hcalls : c.CallsRight)
    (h : (c.term c.visibleTerminal).screenX ≠ NUM_COLS ∨ c.EdgeStep) : ¬ c.Retraces (n + 1) 0 := by
  rintro ⟨_, _, hlast⟩
  have hpos := hcalls.1
  have hlt := hcalls.2.1
  rcases hlast with hn | hd | hfull | ⟨hcol, hblocked⟩
  · cases hn
  · omega
  · omega
  · rcases h with hne | hedge
    · exact hne hcol
    · exact hblocked ⟨hedge.2.1, hedge.2.2.2⟩

theorem not_retraces_edge (hcalls : c.CallsRight) (h : c.EdgeStep) : ¬ c.Retraces (n + 1) j := by
  intro hr
  have hj : j = 0 := by
    have hcol := hr.1
    have hx := h.1
    omega
  subst hj
  exact not_retraces_zero hcalls (Or.inr h) hr

/-- After left presses that all moved the cursor, the right presses lead back if all cells gone
back are in one row. -/
theorem WentBack.retraces_iff (h : WentBack c c' n n)
    (hx : (c.term c.visibleTerminal).screenX ≤ NUM_COLS) : c'.Retraces n n ↔
      n = 0 ∨ ((c.term c.visibleTerminal).keyboardCursorIdx ≤ KEYBOARD_BUFFER_SIZE - 1 ∧
        n ≤ (c.position - 1) % NUM_COLS + 1) := by
  have hcursor := h.cursor rfl
  have hpos := h.position
  have hrow : c'.position = NUM_COLS * (c'.term c'.visibleTerminal).screenY
    + (c'.term c'.visibleTerminal).screenX := rfl
  by_cases hn : n = 0
  · subst hn
    exact iff_of_true ⟨h.inColumns hx, Or.inl rfl, Or.inl rfl⟩ (Or.inl rfl)
  · have hlt : (c'.term c'.visibleTerminal).screenX < NUM_COLS :=
      h.column.resolve_left fun hk => hn hk.1
    have hroom : (c'.term c'.visibleTerminal).screenX + n ≤ NUM_COLS ↔
        n ≤ (c.position - 1) % NUM_COLS + 1 := by
      unfold NUM_COLS at *
      omega
    unfold Retraces
    dsimp only
    rw [or_iff_right hn, or_iff_right hn, hroom, hcursor, Int.sub_add_cancel]
    tauto

end

end Console

end Ext2Kernel
