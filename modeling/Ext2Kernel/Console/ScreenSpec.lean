import Ext2Kernel.Console.Screen

set_option autoImplicit false

/-! # What the screen routines change

Output and cursor motion change video memory and the screen variables of one terminal
(`Drawn`), and nothing the line editor keeps. The cursor of every terminal stays inside the
25 rows, at most one column past the last one (`OnScreen`).
-/

namespace Ext2Kernel

open ByteMem

/-! ## The frame of the screen routines -/

/-- `s'` is `s` up to the screen variables. -/
def SameLine (s s' : TermState) : Prop :=
  s = { s' with
    screenX := s.screenX
    screenY := s.screenY
    forwardNext := s.forwardNext
    backwardNext := s.backwardNext }

theorem SameLine.refl (s : TermState) : SameLine s s := rfl

theorem SameLine.trans {s s' s'' : TermState} (h : SameLine s s') (h' : SameLine s' s'') :
    SameLine s s'' := by
  unfold SameLine at *
  rw [h, h']

namespace Console

/-- `c'` is `c` up to video memory and the screen variables of terminal `t`. -/
structure Drawn (t : Terminal) (c c' : Console) : Prop where
  visible : c'.visibleTerminal = c.visibleTerminal
  process : c'.processTerminal = c.processTerminal
  other : ∀ u, u ≠ t → c'.term u = c.term u
  line : SameLine (c.term t) (c'.term t)
  notInPrevCmdFlag : c'.notInPrevCmdFlag = c.notInPrevCmdFlag
  putcToVisibleFlag : c'.putcToVisibleFlag = c.putcToVisibleFlag
  tooManyShellsFlag : c'.tooManyShellsFlag = c.tooManyShellsFlag
  behindScancodes : c'.behindScancodes = c.behindScancodes
  behindKeyboard : c'.behindKeyboard = c.behindKeyboard

theorem Drawn.refl (t : Terminal) (c : Console) : Drawn t c c :=
  ⟨rfl, rfl, fun _ _ => rfl, .refl _, rfl, rfl, rfl, rfl, rfl⟩

theorem Drawn.trans {t : Terminal} {c c' c'' : Console} (h : Drawn t c c')
    (h' : Drawn t c' c'') : Drawn t c c'' where
  visible := h'.visible.trans h.visible
  process := h'.process.trans h.process
  other u hu := (h'.other u hu).trans (h.other u hu)
  line := h.line.trans h'.line
  notInPrevCmdFlag := h'.notInPrevCmdFlag.trans h.notInPrevCmdFlag
  putcToVisibleFlag := h'.putcToVisibleFlag.trans h.putcToVisibleFlag
  tooManyShellsFlag := h'.tooManyShellsFlag.trans h.tooManyShellsFlag
  behindScancodes := h'.behindScancodes.trans h.behindScancodes
  behindKeyboard := h'.behindKeyboard.trans h.behindKeyboard

theorem Drawn.outTerm {t : Terminal} {c c' : Console} (h : Drawn t c c') :
    c'.outTerm = c.outTerm := by
  unfold Console.outTerm
  rw [h.putcToVisibleFlag, h.visible, h.process]

/-- A store to video memory. -/
theorem Drawn.store (t : Terminal) (c : Console) (v : Mem) : Drawn t c { c with video := v } :=
  ⟨rfl, rfl, fun _ _ => rfl, .refl _, rfl, rfl, rfl, rfl, rfl⟩

/-- A change of the screen variables of terminal `t`. -/
theorem Drawn.move (t : Terminal) (c : Console) {f : TermState → TermState}
    (hf : ∀ s, SameLine s (f s)) : Drawn t c (c.modify t f) where
  visible := rfl
  process := rfl
  other _ hu := modify_term_ne _ _ _ hu
  line := by rw [modify_term_self]; exact hf _
  notInPrevCmdFlag := rfl
  putcToVisibleFlag := rfl
  tooManyShellsFlag := rfl
  behindScancodes := rfl
  behindKeyboard := rfl

theorem sameLine_wrapTerm (s : TermState) : SameLine s (wrapTerm s) := by
  unfold wrapTerm
  extract_lets f₁ f₂
  split <;> rfl

theorem sameLine_stepUp (s : TermState) : SameLine s (stepUp s) := by
  unfold stepUp
  split <;> rfl

theorem sameLine_stepBack (s : TermState) : SameLine s (stepBack s (s.screenX - 1)) := rfl

theorem sameLine_stepRight (s : TermState) : SameLine s (stepRight s) := rfl

theorem sameLine_nextRow (s : TermState) : SameLine s { s with screenY := s.screenY + 1 } := rfl

theorem drawn_wraparound (c : Console) : Drawn c.outTerm c c.wraparound :=
  .move _ _ sameLine_wrapTerm

theorem drawn_scrollDown (c : Console) : Drawn c.outTerm c c.scrollDown := by
  unfold scrollDown
  dsimp only
  split
  · exact (Drawn.store _ _ _).trans (.move _ _ fun _ => rfl)
  · exact .refl _ _

theorem drawn_putcStore (c : Console) (ch : UInt8) : Drawn c.outTerm c (c.putcStore ch) := by
  unfold putcStore
  dsimp only
  split
  · exact .move _ _ fun _ => rfl
  · exact (Drawn.store _ _ _).trans (.move _ _ fun _ => rfl)

theorem drawn_wrapAtEdge (c : Console) : Drawn c.outTerm c c.wrapAtEdge := by
  unfold wrapAtEdge
  split
  · exact drawn_wraparound c
  · exact .refl _ _

theorem drawn_putc (c : Console) (ch : UInt8) : Drawn c.outTerm c (c.putc ch) := by
  have h₁ := drawn_putcStore c ch
  have h₂ := drawn_wrapAtEdge (c.putcStore ch)
  have h₃ := drawn_scrollDown (c.putcStore ch).wrapAtEdge
  rw [h₂.outTerm, h₁.outTerm] at h₃
  rw [h₁.outTerm] at h₂
  exact (h₁.trans h₂).trans h₃

theorem drawn_putcs (c : Console) (l : List UInt8) : Drawn c.outTerm c (c.putcs l) := by
  induction l generalizing c with
  | nil => exact .refl _ _
  | cons ch t ih =>
      have h := drawn_putc c ch
      have hrec := ih (c.putc ch)
      rw [h.outTerm] at hrec
      exact h.trans hrec

theorem drawn_backspace (c : Console) : Drawn c.visibleTerminal c c.backspace := by
  unfold backspace
  dsimp only
  split
  · exact .refl _ _
  · split
    · exact .refl _ _
    · split
      · exact (Drawn.store _ _ _).trans (.move _ _ fun _ => rfl)
      · split
        · exact .refl _ _
        · exact (Drawn.store _ _ _).trans (.move _ _ sameLine_stepUp)

theorem drawn_leftArrow (c : Console) : Drawn c.visibleTerminal c c.leftArrow.1 := by
  unfold leftArrow
  dsimp only
  split
  · exact .refl _ _
  · split
    · exact .refl _ _
    · split
      · exact .move _ _ sameLine_stepBack
      · split
        · exact .refl _ _
        · exact .move _ _ sameLine_stepUp

theorem drawn_rightArrow (c : Console) : Drawn c.visibleTerminal c c.rightArrow.1 := by
  unfold rightArrow
  dsimp only
  split
  · exact .refl _ _
  · split
    · exact .refl _ _
    · split
      · exact .move _ _ sameLine_stepRight
      · split
        · split
          · exact .refl _ _
          · exact .move _ _ sameLine_nextRow
        · exact .refl _ _

/-! ## The cursor stays on the screen -/

/-- The cursor is in one of the 25 rows, at most one column past the last one. -/
def OnScreen (s : TermState) : Prop := s.screenY < NUM_ROWS ∧ s.screenX ≤ NUM_COLS

theorem onScreen_boot : OnScreen TermState.boot := by
  unfold OnScreen TermState.boot NUM_ROWS NUM_COLS
  simp

/-- `scroll_down` repairs the row. -/
theorem onScreen_scrollDown {c : Console} (hx : (c.term c.outTerm).screenX ≤ NUM_COLS) :
    OnScreen (c.scrollDown.term c.outTerm) := by
  unfold scrollDown OnScreen
  dsimp only
  split
  · rw [modify_term_self]
    unfold NUM_ROWS NUM_COLS
    simp
  · exact ⟨by omega, hx⟩

theorem wrapTerm_screenX (s : TermState) : (wrapTerm s).screenX = s.screenX := by
  unfold wrapTerm
  extract_lets f₁ f₂
  split <;> rfl

theorem putcStore_screenX {c : Console} {ch : UInt8} :
    ((c.putcStore ch).term c.outTerm).screenX ≤ NUM_COLS := by
  unfold putcStore
  dsimp only
  split
  · rw [modify_term_self]
    exact Nat.zero_le _
  · rw [modify_term_self]
    exact Nat.le_of_lt (Nat.mod_lt _ (by decide))

theorem onScreen_putc (c : Console) (ch : UInt8) : OnScreen ((c.putc ch).term c.outTerm) := by
  have h₁ := drawn_putcStore c ch
  have h₂ := drawn_wrapAtEdge (c.putcStore ch)
  have ho : (c.putcStore ch).wrapAtEdge.outTerm = c.outTerm := h₂.outTerm.trans h₁.outTerm
  have hx : ((c.putcStore ch).wrapAtEdge.term c.outTerm).screenX ≤ NUM_COLS := by
    unfold wrapAtEdge wraparound
    split
    · rw [h₁.outTerm, modify_term_self, wrapTerm_screenX]
      exact putcStore_screenX
    · exact putcStore_screenX
  have h₃ := onScreen_scrollDown (c := (c.putcStore ch).wrapAtEdge) (by rwa [ho])
  rwa [ho] at h₃

theorem onScreen_putcs {c : Console} (l : List UInt8) (h : OnScreen (c.term c.outTerm)) :
    OnScreen ((c.putcs l).term c.outTerm) := by
  induction l generalizing c with
  | nil => exact h
  | cons ch t ih =>
      have ho := (drawn_putc c ch).outTerm
      have hrec := ih (c := c.putc ch) (by rw [ho]; exact onScreen_putc c ch)
      rwa [ho] at hrec

theorem onScreen_stepBack {s : TermState} (h : OnScreen s) :
    OnScreen (stepBack s (s.screenX - 1)) := by
  have := h.2
  exact ⟨h.1, by show s.screenX - 1 ≤ NUM_COLS; omega⟩

theorem onScreen_stepUp {s : TermState} (h : OnScreen s) : OnScreen (stepUp s) := by
  have := h.1
  unfold stepUp OnScreen NUM_COLS NUM_ROWS at *
  split <;> simp <;> omega

theorem onScreen_backspace {c : Console} (h : OnScreen (c.term c.visibleTerminal)) :
    OnScreen (c.backspace.term c.visibleTerminal) := by
  unfold backspace
  dsimp only
  split
  · exact h
  · split
    · exact h
    · split
      · rw [modify_term_self]
        exact onScreen_stepBack h
      · split
        · exact h
        · rw [modify_term_self]
          exact onScreen_stepUp h

theorem onScreen_leftArrow {c : Console} (h : OnScreen (c.term c.visibleTerminal)) :
    OnScreen (c.leftArrow.1.term c.visibleTerminal) := by
  unfold leftArrow
  dsimp only
  split
  · exact h
  · split
    · exact h
    · split
      · rw [modify_term_self]
        exact onScreen_stepBack h
      · split
        · exact h
        · rw [modify_term_self]
          exact onScreen_stepUp h

theorem onScreen_rightArrow {c : Console} (h : OnScreen (c.term c.visibleTerminal)) :
    OnScreen (c.rightArrow.1.term c.visibleTerminal) := by
  obtain ⟨hy, hx⟩ := h
  unfold rightArrow
  dsimp only
  split
  · exact ⟨hy, hx⟩
  · split
    · exact ⟨hy, hx⟩
    · split
      · rw [modify_term_self]
        refine ⟨hy, ?_⟩
        show (c.term c.visibleTerminal).screenX + 1 ≤ NUM_COLS
        omega
      · split
        · split
          · exact ⟨hy, hx⟩
          · rw [modify_term_self]
            refine ⟨?_, hx⟩
            show (c.term c.visibleTerminal).screenY + 1 < NUM_ROWS
            omega
        · exact ⟨hy, hx⟩

/-! ## All cursors -/

/-- The cursor of every terminal is on the screen. -/
def AllOnScreen (c : Console) : Prop := ∀ t, OnScreen (c.term t)

theorem switchTerminal_term (c : Console) (n : Int) : (c.switchTerminal n).term = c.term := by
  unfold switchTerminal
  split <;> rfl

theorem AllOnScreen.modify {c : Console} (h : AllOnScreen c) (t : Terminal)
    {f : TermState → TermState} (hf : ∀ s, OnScreen s → OnScreen (f s)) :
    AllOnScreen (c.modify t f) := by
  intro u
  by_cases hu : u = t
  · rw [hu, modify_term_self]
    exact hf _ (h t)
  · rw [modify_term_ne _ _ _ hu]
    exact h u

theorem AllOnScreen.putcs {c : Console} (h : AllOnScreen c) (l : List UInt8) :
    AllOnScreen (c.putcs l) := by
  intro u
  by_cases hu : u = c.outTerm
  · rw [hu]
    exact onScreen_putcs l (h _)
  · rw [(drawn_putcs c l).other u hu]
    exact h u

theorem AllOnScreen.putc {c : Console} (h : AllOnScreen c) (ch : UInt8) :
    AllOnScreen (c.putc ch) := h.putcs [ch]

theorem AllOnScreen.switchTerminal {c : Console} (h : AllOnScreen c) (n : Int) :
    AllOnScreen (c.switchTerminal n) := by
  unfold AllOnScreen
  rw [switchTerminal_term]
  exact h

end Console

end Ext2Kernel
