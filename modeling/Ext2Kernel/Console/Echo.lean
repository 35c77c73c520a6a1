import Ext2Kernel.Console.Cells
import Ext2Kernel.Console.LineKeys
import Ext2Kernel.Console.TextTerminal

set_option autoImplicit false

/-! # Echo and backspace on the screen

Typing finds its way to the next row through `forward_next`, and backspace back through
`backward_next`, with other values of the flags on the way back. As long as no arrow key is
pressed all of them leave `forward_next` as `Screen.Wraps` says; then the echo of a character is
`type` on the text screen, and backspace is `back`.
-/

namespace Ext2Kernel

open ByteMem

namespace Screen

section

variable {s s' : Screen}

/-- Only the cursor and `forward_next` matter. -/
theorem Wraps.congr (h : s.Wraps) (hx : s'.x = s.x) (hy : s'.y = s.y)
    (hf : s'.forwardNext = s.forwardNext) : s'.Wraps := by
  refine ⟨hx ▸ h.x, hy ▸ h.y, fun hedge => ?_, fun hinner => ?_⟩
  · rw [hf]
    exact h.edge (hx ▸ hedge)
  · rw [hf]
    exact h.inner (hx ▸ hinner)

/-- Printing keeps the flag right. -/
theorem Wraps.putc (h : s.Wraps) (ch : UInt8) : (s.putc ch).Wraps := by
  by_cases hch : ch = 10 ∨ ch = 13
  · have hline : s.putc ch = s.putc 10 := by
      unfold Screen.putc
      rw [if_pos hch, if_pos (Or.inl rfl)]
    rw [hline]
    by_cases hx : s.x = 0
    · rw [putc_newline_start h hx]
      exact h
    · exact (putc_newline h hx).2
  · exact (putc_char h (not_or.mp hch)).2

/-- A line of one character takes the cursor to the start of the next row. -/
theorem shortLine_place (h : s.Wraps) (hx : s.x = 0) (hy : s.y + 1 < NUM_ROWS)
    {ch : UInt8} (hch : ch ≠ 10 ∧ ch ≠ 13) :
    ((s.putc ch).putc 10).Wraps ∧ ((s.putc ch).putc 10).x = 0 ∧
      ((s.putc ch).putc 10).y = s.y + 1 := by
  have htype : (s.text.type NUM_ROWS NUM_COLS 0 ch).x = s.x + 1 ∧
      (s.text.type NUM_ROWS NUM_COLS 0 ch).y = s.y := by
    unfold TextScreen.Screen.type
    dsimp only
    rw [if_pos (show s.text.x + 1 < NUM_COLS by rw [show s.text.x = 0 from hx]; decide)]
    exact ⟨rfl, rfl⟩
  obtain ⟨htyped, hwraps⟩ := putc_char h hch
  have hcol : (s.putc ch).x = s.x + 1 := htyped.x.trans htype.1
  have hrow : (s.putc ch).y = s.y := htyped.y.trans htype.2
  have hnext : ((s.putc ch).text.nextRow NUM_ROWS 0).x = 0 ∧
      ((s.putc ch).text.nextRow NUM_ROWS 0).y = (s.putc ch).y + 1 := by
    unfold TextScreen.Screen.nextRow
    have hroom : (s.putc ch).text.y + 1 < NUM_ROWS := (congrArg (· + 1) hrow).trans_lt hy
    rw [if_pos hroom]
    exact ⟨rfl, rfl⟩
  obtain ⟨hline, hwraps'⟩ := putc_newline hwraps (by omega)
  exact ⟨hwraps', hline.x.trans hnext.1, (hline.y.trans hnext.2).trans (congrArg (· + 1) hrow)⟩

theorem shortLines_place (h : s.Wraps) (hx : s.x = 0) {n : Nat}
    (hy : s.y + n < NUM_ROWS) {ch : UInt8} (hch : ch ≠ 10 ∧ ch ≠ 13) :
    ((List.replicate n [ch, 10]).flatten.foldl putc s).x = 0 ∧
      ((List.replicate n [ch, 10]).flatten.foldl putc s).y = s.y + n := by
  induction n generalizing s with
  | zero => exact ⟨hx, rfl⟩
  | succ n ih =>
      obtain ⟨hwraps, hcol, hrow⟩ := shortLine_place h hx (by omega) hch
      obtain ⟨hx', hy'⟩ := ih hwraps hcol (by omega)
      rw [List.replicate_succ, List.flatten_cons, List.foldl_append]
      exact ⟨hx', hy'.trans (by omega)⟩

end

end Screen

namespace Console

theorem SameScreens.screen {c c' : Console} (h : SameScreens c c') (t : Terminal) :
    c'.screen t = c.screen t := by
  unfold Console.screen page screenBase
  rw [h.visible, h.video, (h.place t).1, (h.place t).2, (h.flags t).1, (h.flags t).2]

theorem onScreen_of_wraps {c : Console} {t : Terminal} (h : (c.screen t).Wraps) :
    OnScreen (c.term t) := ⟨h.y, h.x.le⟩

/-! ## The end of the handler -/

/-- `wraparound` once more: in the last column it sets the flag again. -/
theorem screen_wraparound {c : Console} (h : (c.screen c.outTerm).Wraps) :
    c.wraparound.screen c.outTerm =
      if (c.screen c.outTerm).x = NUM_COLS - 1 then
        { c.screen c.outTerm with forwardNext := NUM_COLS }
      else c.screen c.outTerm := by
  have hterm : c.wraparound.term c.outTerm = wrapTerm (c.term c.outTerm) := modify_term_self ..
  have hwrap : wrapTerm (c.term c.outTerm) =
      if (c.term c.outTerm).screenX = NUM_COLS - 1 then
        { c.term c.outTerm with forwardNext := NUM_COLS }
      else c.term c.outTerm := by
    unfold wrapTerm
    dsimp only
    by_cases hedge : (c.term c.outTerm).screenX = NUM_COLS - 1
    · have hx : (c.term c.outTerm).screenX ≠ 0 := by
        rw [hedge]
        decide
      rw [if_pos hedge, if_neg fun hk => hx hk.1, if_pos hedge]
    · -- inside a row the flag is neither of the two values
      have hinner := h.inner hedge
      rw [if_neg hedge, if_neg hedge]
      have hflag : (if (c.term c.outTerm).forwardNext = NUM_COLS then 0
          else (c.term c.outTerm).forwardNext) = (c.term c.outTerm).forwardNext := if_neg hinner.1
      rw [hflag, if_neg fun hk => hinner.2 hk.2]
  unfold screen
  rw [hterm, hwrap]
  dsimp only
  split <;> rfl

theorem finish_screen {c : Console} {v : Terminal} (hout : c.outTerm = v)
    (hv : c.visibleTerminal = v) (h : (c.screen v).Wraps) (ch : UInt8) :
    Screen.SameText (if (c.term v).echoFlag then (c.screen v).putc ch else c.screen v).text
        ((c.finish v ch).screen v).text ∧ ((c.finish v ch).screen v).Wraps := by
  -- the echo
  have hecho : (c.echo ch).screen v
      = if (c.term v).echoFlag then (c.screen v).putc ch else c.screen v := by
    unfold echo
    rw [hv]
    split
    · rw [← hout]
      exact screen_putc ch (onScreen_of_wraps (hout ▸ h))
    · rfl
  have hwraps : ((c.echo ch).screen v).Wraps := by
    rw [hecho]
    split
    · exact h.putc ch
    · exact h
  have hout₁ : (c.echo ch).outTerm = v := by
    unfold echo
    split
    · exact (drawn_putc c ch).outTerm.trans hout
    · exact hout
  rw [← hecho]
  -- the type-ahead
  have hahead : SameScreens (c.echo ch) ((c.echo ch).modify v fun s => typeAhead s ch) :=
    (SameScreens.refl _).modify v (by unfold typeAhead; split <;> exact ⟨rfl, rfl, rfl, rfl⟩)
  have hout₂ : ((c.echo ch).modify v fun s => typeAhead s ch).outTerm = v := hout₁
  rw [← hahead.screen v] at hwraps ⊢
  unfold finish
  generalize (c.echo ch).modify v (fun s => typeAhead s ch) = c₁ at *
  -- `wraparound` and `scroll_down`, which find nothing to do but set the flag
  have hwrap := screen_wraparound (c := c₁) (hout₂ ▸ hwraps)
  have hscroll := screen_scrollDown (c := c₁.wraparound)
  rw [(drawn_wraparound c₁).outTerm, hout₂] at hscroll
  rw [hout₂] at hwrap
  rw [hscroll, hwrap]
  by_cases hedge : (c₁.screen v).x = NUM_COLS - 1
  · rw [if_pos hedge, Screen.scroll_of_lt (s := { c₁.screen v with forwardNext := NUM_COLS })
      hwraps.y]
    exact ⟨.refl _, hwraps.x, hwraps.y, fun _ => Or.inl rfl, fun hne => absurd hedge hne⟩
  · rw [if_neg hedge, Screen.scroll_of_lt hwraps.y]
    exact ⟨.refl _, hwraps⟩

/-! ## Backspace -/

/-- The end of a row of the shown screen. -/
theorem rowEnd_eq (c : Console) {y : Nat} (hy : y < NUM_ROWS) :
    c.rowEnd y = (c.screen c.visibleTerminal).text.cell y (NUM_COLS - 1) := by
  have hin : 2 * (NUM_COLS * y + (NUM_COLS - 1)) < PAGE_4KB := by
    unfold NUM_COLS NUM_ROWS PAGE_4KB at *
    omega
  have hplace : NUM_COLS * y + NUM_COLS - 1 = NUM_COLS * y + (NUM_COLS - 1) :=
    Nat.add_sub_assoc (by decide) _
  show _ = c.page c.visibleTerminal (2 * (NUM_COLS * y + (NUM_COLS - 1)))
  rw [page_inside hin, screenBase_visible, Nat.zero_add, ← hplace]
  rfl

/-- Does backspace move the cursor? Not at the upper left corner, with an empty line, or behind a
row that ends with a line feed. -/
def BackMoves (c : Console) : Prop :=
  let s := c.term c.visibleTerminal
  s.keyboardCursorIdx ≠ 0 ∧ ¬ (s.screenX = 0 ∧ s.screenY = 0) ∧
    (s.screenX = 0 → c.rowEnd (s.screenY - 1) ≠ 10)

/-- Backspace stores a space in the cell before the cursor, and goes there. -/
theorem screen_backspace {c : Console} (h : (c.screen c.visibleTerminal).Wraps)
    (hmoves : c.BackMoves) :
    Screen.SameText ((c.screen c.visibleTerminal).text.back NUM_COLS 32)
      (c.backspace.screen c.visibleTerminal).text := by
  obtain ⟨hcursor, hcorner, hrow⟩ := hmoves
  have hx : (c.term c.visibleTerminal).screenX < NUM_COLS := h.x
  have hy : (c.term c.visibleTerminal).screenY < NUM_ROWS := h.y
  -- a space in a cell of the shown screen, to which the cursor goes
  have hstore : ∀ {y x : Nat} {f : TermState → TermState}, y < NUM_ROWS → x < NUM_COLS →
      (f (c.term c.visibleTerminal)).screenX = x → (f (c.term c.visibleTerminal)).screenY = y →
      Screen.SameText
        { cell := fun r col => if r = y ∧ col = x then 32
            else (c.screen c.visibleTerminal).text.cell r col
          x := x
          y := y }
        (((c.putCell 0 (NUM_COLS * y + x) 32).modify c.visibleTerminal f).screen
          c.visibleTerminal).text := by
    intro y x f hy' hx' hfx hfy
    have hput := page_putCell (c := c) (t := c.visibleTerminal) (i := NUM_COLS * y + x) 32 (by
      unfold NUM_COLS NUM_ROWS PAGE_4KB at *
      omega)
    rw [screenBase_visible] at hput
    refine ⟨?_, ?_, fun r _ col hcol => ?_⟩
    · show (((c.putCell 0 (NUM_COLS * y + x) 32).modify c.visibleTerminal f).term
        c.visibleTerminal).screenX = x
      rw [modify_term_self]
      exact hfx
    · show (((c.putCell 0 (NUM_COLS * y + x) 32).modify c.visibleTerminal f).term
        c.visibleTerminal).screenY = y
      rw [modify_term_self]
      exact hfy
    · show (c.putCell 0 (NUM_COLS * y + x) 32).page c.visibleTerminal
        (2 * (NUM_COLS * r + col)) = _
      rw [hput]
      exact Screen.cell_store _ hx' 32 r col hcol
  unfold backspace TextScreen.Screen.back
  dsimp only
  rw [if_neg hcorner, if_neg hcursor]
  by_cases hzero : (c.term c.visibleTerminal).screenX = 0
  · -- to the end of the row above
    have hx₀ : (c.screen c.visibleTerminal).text.x = 0 := hzero
    rw [if_neg (not_not_intro hzero), if_neg (hrow hzero), if_pos hx₀, if_pos hx₀]
    exact hstore (lt_of_le_of_lt (Nat.sub_le _ _) hy) (by decide) (stepUp_screenX _)
      (stepUp_screenY _)
  · have hx₀ : (c.screen c.visibleTerminal).text.x ≠ 0 := hzero
    rw [if_pos hzero, if_neg hx₀, if_neg hx₀]
    exact hstore hy (lt_of_le_of_lt (Nat.sub_le _ _) hx) rfl rfl

theorem wraps_modify {c : Console} {t : Terminal} {f : TermState → TermState} {s : TermState}
    (hs : f (c.term t) = s) (hx : s.screenX < NUM_COLS) (hy : s.screenY < NUM_ROWS)
    (hedge : s.screenX = NUM_COLS - 1 → s.forwardNext = NUM_COLS ∨ s.forwardNext = 0)
    (hinner : s.screenX ≠ NUM_COLS - 1 → s.forwardNext ≠ NUM_COLS ∧ s.forwardNext ≠ 0) :
    ((c.modify t f).screen t).Wraps := by
  unfold screen
  rw [modify_term_self, hs]
  exact ⟨hx, hy, hedge, hinner⟩

theorem stepBack_forwardNext (s : TermState) {x : Nat} (hx : x < NUM_COLS - 1) :
    (stepBack s x).forwardNext ≠ NUM_COLS ∧ (stepBack s x).forwardNext ≠ 0 := by
  unfold stepBack NUM_COLS at *
  dsimp only
  split <;> omega

theorem stepUp_forwardNext (s : TermState) :
    (stepUp s).forwardNext = NUM_COLS ∨ (stepUp s).forwardNext = 0 := by
  unfold stepUp
  split
  · exact Or.inr rfl
  · exact Or.inl rfl

/-- Backspace sets the flag for the column it goes to. -/
theorem wraps_backspace {c : Console} (h : (c.screen c.visibleTerminal).Wraps) :
    (c.backspace.screen c.visibleTerminal).Wraps := by
  have hx : (c.term c.visibleTerminal).screenX < NUM_COLS := h.x
  have hy : (c.term c.visibleTerminal).screenY < NUM_ROWS := h.y
  unfold backspace
  dsimp only
  split
  · exact h
  · split
    · exact h
    · split
      · rename_i hpos
        have hlt : (c.term c.visibleTerminal).screenX - 1 < NUM_COLS - 1 := by omega
        exact wraps_modify rfl (hlt.trans (by decide)) hy
          (fun hedge => absurd hedge (Nat.ne_of_lt hlt)) fun _ => stepBack_forwardNext _ hlt
      · split
        · exact h
        · have hcol : (stepUp (c.term c.visibleTerminal)).screenX < NUM_COLS := by
            rw [stepUp_screenX]
            decide
          have hrow : (stepUp (c.term c.visibleTerminal)).screenY < NUM_ROWS := by
            rw [stepUp_screenY]
            exact lt_of_le_of_lt (Nat.sub_le _ _) hy
          exact wraps_modify rfl hcol hrow (fun _ => stepUp_forwardNext _)
            fun hinner => absurd (stepUp_screenX _) hinner

/-! ## One key -/

/-- The screens of all terminals. -/
def AllWraps (c : Console) : Prop := ∀ t, (c.screen t).Wraps

theorem AllWraps.allOnScreen {c : Console} (h : AllWraps c) : AllOnScreen c :=
  fun t => onScreen_of_wraps (h t)

/-- Neither an arrow nor Ctrl+L. -/
def KeepsTyping (c : Console) (pressed : Nat) : Prop :=
  pressed ∉ [UP_ARROW_PRESSED, DOWN_ARROW_PRESSED, LEFT_ARROW_PRESSED, RIGHT_ARROW_PRESSED] ∧
    ¬ ((c.term c.visibleTerminal).controlOn = true ∧ pressed = L_SCANCODE)

instance (c : Console) (pressed : Nat) : Decidable (c.KeepsTyping pressed) :=
  inferInstanceAs (Decidable (_ ∧ ¬ (_ ∧ _)))

theorem leave_screen (c : Console) (t : Terminal) : c.leave.screen t = c.screen t := rfl

/-- The backspace key draws what `backspace` draws. -/
theorem backspaceKey_screen {c c' : Console} (h : c.backspaceKey = some c') (t : Terminal) :
    c'.screen t = c.backspace.screen t := by
  obtain ⟨c₁, hc₁, rfl⟩ := Option.map_eq_some_iff.mp h
  have hsame := (sameScreens_backspaceLine hc₁).modify c₁.visibleTerminal (f := backspaceAhead)
    (by unfold backspaceAhead; split <;> exact ⟨rfl, rfl, rfl, rfl⟩)
  rw [leave_screen, hsame.screen]

theorem outTerm_of_toVisible {c : Console} {v : Terminal} (hvis : c.putcToVisibleFlag = true)
    (hv : c.visibleTerminal = v) : c.outTerm = v := by
  unfold outTerm
  rw [if_pos hvis, hv]

/-- A character key draws what the end of the handler draws. -/
theorem charKey_wraps {c c' : Console} {v : Terminal} (hvis : c.putcToVisibleFlag = true)
    (hv : c.visibleTerminal = v) (hw : (c.screen v).Wraps) {pressed : Nat}
    (h : c.charKey pressed = some c') : (c'.screen v).Wraps := by
  rw [charKey_eq_typed] at h
  obtain ⟨c₂, hc₂, rfl⟩ := Option.map_eq_some_iff.mp h
  obtain ⟨c₁, hc₁, rfl⟩ := Option.map_eq_some_iff.mp hc₂
  have hsame := sameScreens_typed hc₁
  have hv₁ : c₁.visibleTerminal = v := hsame.visible.trans hv
  have hout : c₁.outTerm = v := outTerm_of_toVisible (hsame.toVisible.trans hvis) hv₁
  rw [leave_screen, hv]
  rw [← hsame.screen v] at hw
  exact (finish_screen hout hv₁ hw _).2

/-- The shown terminal after a plain key. -/
theorem plain_wraps {c c' : Console} {scancode : UInt8}
    (hw : (c.screen c.visibleTerminal).Wraps) (hp : c.Plain scancode.toNat)
    (hk : c.KeepsTyping scancode.toNat) (h : c.keyboardInterrupt scancode = some c') :
    (c'.screen c.visibleTerminal).Wraps := by
  by_cases hback : scancode.toNat = BACKSPACE
  · rw [keyboardInterrupt_backspace hback] at h
    rw [backspaceKey_screen h]
    exact wraps_backspace (c := { c with putcToVisibleFlag := true }) hw
  · by_cases hle : scancode.toNat ≤ START_IGNORE
    · rw [keyboardInterrupt_char ⟨hp, hle, hback, hk.2⟩] at h
      exact charKey_wraps (c := { c with putcToVisibleFlag := true }) rfl rfl hw h
    · rw [keyboardInterrupt_ignored ⟨hp, not_le.mp hle, hk.1⟩] at h
      cases h
      exact hw

theorem allWraps_keyboardInterrupt {c c' : Console} {scancode : UInt8} (hw : AllWraps c)
    (hk : c.KeepsTyping scancode.toNat) (h : c.keyboardInterrupt scancode = some c') :
    AllWraps c' := by
  intro t
  by_cases hp : c.Plain scancode.toNat
  · by_cases ht : t = c.visibleTerminal
    · rw [ht]
      exact plain_wraps (hw _) hp hk h
    · obtain ⟨c₁, hsteady, rfl⟩ := plain_steady (onScreen_of_wraps (hw _)) hp h
      obtain ⟨kb, hkb⟩ := hsteady.other t ht
      have hx : (c₁.term t).screenX = (c.term t).screenX := by rw [hkb]
      have hy : (c₁.term t).screenY = (c.term t).screenY := by rw [hkb]
      have hf : (c₁.term t).forwardNext = (c.term t).forwardNext := by rw [hkb]
      exact (hw t).congr hx hy hf
  · cases not_plain_turned hp h with
    | modifier f hf _ =>
        have heq := hf (c.term t)
        unfold SameButModifiers at heq
        have hx : (f (c.term t)).screenX = (c.term t).screenX := by rw [heq]
        have hy : (f (c.term t)).screenY = (c.term t).screenY := by rw [heq]
        have hflag : (f (c.term t)).forwardNext = (c.term t).forwardNext := by rw [heq]
        exact (hw t).congr hx hy hflag
    | same => exact hw t
    | «switch» u _ _ =>
        rw [screen_switchTerminal]
        exact hw t

/-! ## Printable keys and backspace -/

/-- The key prints a character, which moves the cursor by one place. -/
def EchoKey (c : Console) (pressed : Nat) : Prop :=
  c.HasChar pressed ∧ pressed ≠ ENTER_PRESSED ∧ c.outputChar pressed ≠ 10 ∧
    c.outputChar pressed ≠ 13

instance (c : Console) (pressed : Nat) : Decidable (c.EchoKey pressed) :=
  inferInstanceAs (Decidable ((_ ∧ _ ∧ _ ∧ ¬ (_ ∧ _)) ∧ _ ∧ _ ∧ _))

/-- Does the echo of the key scroll the screen? -/
def EchoScrolls (c : Console) (pressed : Nat) : Prop :=
  NUM_ROWS ≤ ((c.screen c.visibleTerminal).type (c.outputChar pressed)).wrap.y

instance (c : Console) (pressed : Nat) : Decidable (c.EchoScrolls pressed) :=
  inferInstanceAs (Decidable (_ ≤ _))

/-- The echo scrolls the screen in the last cell. -/
theorem echoScrolls_iff {c : Console} (h : (c.screen c.visibleTerminal).Wraps) (pressed : Nat) :
    c.EchoScrolls pressed ↔
      (c.screen c.visibleTerminal).text.Scrolls NUM_ROWS NUM_COLS := by
  have hx := h.x
  have hy := h.y
  obtain ⟨hty, htx⟩ := Screen.type_cursor h (c.outputChar pressed)
  have hflag : ((c.screen c.visibleTerminal).type (c.outputChar pressed)).forwardNext
      = (c.screen c.visibleTerminal).forwardNext := rfl
  unfold EchoScrolls
  show _ ↔ (c.screen c.visibleTerminal).x + 1 = NUM_COLS ∧
    (c.screen c.visibleTerminal).y + 1 = NUM_ROWS
  generalize (c.screen c.visibleTerminal).type (c.outputChar pressed) = s₁ at *
  by_cases hroom : (c.screen c.visibleTerminal).x + 1 < NUM_COLS
  · rw [if_pos hroom] at htx
    have hlt : s₁.wrap.y < NUM_ROWS := by
      by_cases hedge : s₁.x = NUM_COLS - 1
      · rw [Screen.wrap_edge hedge]
        exact hty ▸ hy
      · rw [Screen.wrap_inner hedge (hflag ▸ h.inner (by omega))]
        exact hty ▸ hy
    exact iff_of_false (Nat.not_le.mpr hlt) fun hk => absurd hk.1 (Nat.ne_of_lt hroom)
  · rw [if_neg hroom] at htx
    rw [Screen.wrap_start htx (hflag ▸ h.edge (by omega))]
    show NUM_ROWS ≤ s₁.y + 1 ↔ _
    rw [hty]
    omega

theorem typeLine_screen (s : TermState) (ch : UInt8) (copies : Bool) :
    (s.typeLine ch copies).screenX = s.screenX ∧ (s.typeLine ch copies).screenY = s.screenY ∧
      (s.typeLine ch copies).forwardNext = s.forwardNext ∧
      (s.typeLine ch copies).backwardNext = s.backwardNext := by
  obtain ⟨b, hb⟩ := echoOff_eq s
  unfold TermState.typeLine TermState.keepCurrent TermState.insert
  rw [hb]
  split_ifs <;> exact ⟨rfl, rfl, rfl, rfl⟩

section

variable {s : TermState} {ch : UInt8}

/-- The cursor is at the right end of the line, and keys are echoed. -/
structure AtEnd (s : TermState) (cursor stop : Int) : Prop where
  cursor : s.keyboardCursorIdx = cursor
  stop : s.keyboardBufferEndIdx = stop
  distance : s.distanceFromRight = 0
  echo : s.echoFlag = true

theorem AtEnd.congr {s s' : TermState} {cursor stop : Int} (h : AtEnd s cursor stop)
    (hidx : s'.lineIdx = s.lineIdx) (hecho : s'.echoFlag = s.echoFlag) : AtEnd s' cursor stop :=
  ⟨(congrArg LineIdx.cursor hidx).trans h.cursor, (congrArg LineIdx.stop hidx).trans h.stop,
    (congrArg LineIdx.distance hidx).trans h.distance, hecho.trans h.echo⟩

theorem AtEnd.sameLine {s s' : TermState} {cursor stop : Int} (h : AtEnd s cursor stop)
    (hline : SameLine s s') : AtEnd s' cursor stop :=
  h.congr (sameLine_lineIdx hline) (congrArg TermState.echoFlag hline).symm

/-- A character at the end of the line. -/
theorem AtEnd.typeLine {cursor stop : Int} (h : AtEnd s cursor stop)
    (hroom : cursor < KEYBOARD_BUFFER_SIZE - 1) (copies : Bool) :
    AtEnd (s.typeLine ch copies) (cursor + 1) (stop + 1) ∧
      AtEnd (typeAhead (s.typeLine ch copies) ch) (cursor + 1) (stop + 1) := by
  have hroom' : s.keyboardCursorIdx < KEYBOARD_BUFFER_SIZE - 1 := h.cursor ▸ hroom
  have hecho : echoOff s = s := if_neg (Int.ne_of_lt hroom')
  have hinsert : AtEnd (s.insert ch) (cursor + 1) (stop + 1) := by
    unfold TermState.insert
    rw [if_pos hroom', if_pos h.distance, h.distance]
    exact ⟨congrArg (· + 1) h.cursor, congrArg (· + 1) h.stop, rfl, h.echo⟩
  have htyped : AtEnd (s.typeLine ch copies) (cursor + 1) (stop + 1) := by
    unfold TermState.typeLine TermState.keepCurrent
    rw [hecho]
    split
    · exact ⟨hinsert.cursor, hinsert.stop, hinsert.distance, hinsert.echo⟩
    · exact hinsert
  refine ⟨htyped, ?_⟩
  unfold typeAhead
  split
  · exact ⟨htyped.cursor, htyped.stop, htyped.distance, htyped.echo⟩
  · exact htyped

/-- Backspace at the end of the line. -/
theorem AtEnd.eraseLine {cursor stop : Int} (h : AtEnd s cursor stop) (hpos : 0 < cursor) :
    AtEnd s.eraseLine (cursor - 1) (stop - 1) := by
  have hpos' : s.keyboardCursorIdx > 0 := by
    rw [h.cursor]
    exact hpos
  have herased : AtEnd s.erase (cursor - 1) (stop - 1) := by
    unfold TermState.erase
    rw [if_pos ⟨hpos', h.distance⟩]
    exact ⟨congrArg (· - 1) h.cursor, congrArg (· - 1) h.stop, h.distance, rfl⟩
  unfold TermState.eraseLine backspaceAhead
  split
  · exact ⟨herased.cursor, herased.stop, herased.distance, herased.echo⟩
  · exact herased

end

/-- **A printable key** draws its character. -/
theorem echo_screen {c c' : Console} {scancode : UInt8}
    {cursor stop : Int} (hw : (c.screen c.visibleTerminal).Wraps) (hk : c.EchoKey scancode.toNat)
    (hend : AtEnd (c.term c.visibleTerminal) cursor stop) (hpos : 0 ≤ cursor)
    (hroom : cursor < KEYBOARD_BUFFER_SIZE - 1) (h : c.keyboardInterrupt scancode = some c') :
    Screen.SameText ((c.screen c.visibleTerminal).text.type NUM_ROWS NUM_COLS 0
        (c.outputChar scancode.toNat)) (c'.screen c.visibleTerminal).text ∧
      (c'.screen c.visibleTerminal).Wraps := by
  obtain ⟨hchar, henter, hten, hcr⟩ := hk
  have hfits : fits (c.term c.visibleTerminal).keyboardCursorIdx := by
    rw [hend.cursor]
    exact ⟨hpos, by omega⟩
  rw [keyboardInterrupt_char_eq hchar henter hfits] at h
  cases h
  rw [leave_screen]
  generalize c.outputChar scancode.toNat = ch at *
  have hsame : SameScreens { c with putcToVisibleFlag := true }
      ({ c with putcToVisibleFlag := true }.modify c.visibleTerminal fun s =>
        s.typeLine ch c.notInPrevCmdFlag) :=
    (SameScreens.refl _).modify _ (typeLine_screen _ _ _)
  have hflag : (({ c with putcToVisibleFlag := true }.modify c.visibleTerminal fun s =>
      s.typeLine ch c.notInPrevCmdFlag).term c.visibleTerminal).echoFlag = true := by
    rw [modify_term_self]
    exact (hend.typeLine hroom _).1.echo
  have hscreen := hsame.screen c.visibleTerminal
  have hout := outTerm_of_toVisible (hsame.toVisible.trans rfl) hsame.visible
  have hfinish := finish_screen hout hsame.visible (hscreen ▸ hw) ch
  rw [if_pos hflag, hscreen] at hfinish
  obtain ⟨htype, _⟩ := Screen.putc_char hw ⟨hten, hcr⟩
  exact ⟨htype.trans hfinish.1, hfinish.2⟩

/-- **Backspace** draws a space in the cell before the cursor, and goes there. -/
theorem backspace_screen {c c' : Console} {scancode : UInt8} (hp : scancode.toNat = BACKSPACE)
    (hw : (c.screen c.visibleTerminal).Wraps) (hmoves : c.BackMoves)
    (h : c.keyboardInterrupt scancode = some c') :
    Screen.SameText ((c.screen c.visibleTerminal).text.back NUM_COLS 32)
        (c'.screen c.visibleTerminal).text ∧ (c'.screen c.visibleTerminal).Wraps := by
  rw [keyboardInterrupt_backspace hp] at h
  rw [backspaceKey_screen h]
  exact ⟨screen_backspace (c := { c with putcToVisibleFlag := true }) hw hmoves,
    wraps_backspace (c := { c with putcToVisibleFlag := true }) hw⟩

end Console

end Ext2Kernel
