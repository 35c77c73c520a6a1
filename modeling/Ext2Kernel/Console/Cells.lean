import Ext2Kernel.Console.LineIndices

set_option autoImplicit false

/-! # The cells of the screen

The screen has 2000 cells. For each routine that stores characters, a list of the cells it
stores to (`putcCells`, `backspaceCells`, and for one key `keyCells`), and the two facts that
belong together: from a cursor on one of the cells all stores go to cells of the screen, and
the cursor is on one of the cells again afterwards. One key is an exception to the second: the
right arrow in the last column leaves the cursor behind it.
-/

namespace Ext2Kernel

open ByteMem

/-- The cursor is not behind the last column. -/
def InRow (s : TermState) : Prop := s.screenX < NUM_COLS

instance (s : TermState) : Decidable (InRow s) := inferInstanceAs (Decidable (_ < _))

/-- All are cells of the screen. -/
def OnCells (l : List Nat) : Prop := ∀ i ∈ l, i < NUM_ROWS * NUM_COLS

theorem onCells_nil : OnCells [] := fun _ h => absurd h List.not_mem_nil

theorem OnCells.append {l l' : List Nat} (h : OnCells l) (h' : OnCells l') : OnCells (l ++ l') :=
  fun i hi => (List.mem_append.mp hi).elim (h i) (h' i)

theorem onCells_range : OnCells (List.range (NUM_ROWS * NUM_COLS)) := fun _ hi =>
  List.mem_range.mp hi

theorem onCells_cell {y x : Nat} (hy : y < NUM_ROWS) (hx : x < NUM_COLS) :
    OnCells [NUM_COLS * y + x] := by
  intro i hi
  rw [List.mem_singleton] at hi
  unfold NUM_ROWS NUM_COLS at *
  omega

namespace Console

/-! ## Output -/

/-- `scroll_down` stores to every cell when it scrolls. -/
def scrollCells (c : Console) : List Nat :=
  if (c.term c.outTerm).screenY ≥ NUM_ROWS then List.range (NUM_ROWS * NUM_COLS) else []

def putcCells (c : Console) (ch : UInt8) : List Nat :=
  let s := c.term c.outTerm
  (if ch = 10 ∨ ch = 13 then [] else [NUM_COLS * s.screenY + s.screenX])
    ++ (c.putcStore ch).wrapAtEdge.scrollCells

def putcsCells : Console → List UInt8 → List Nat
  | _, [] => []
  | c, ch :: l => c.putcCells ch ++ (c.putc ch).putcsCells l

theorem onCells_scrollCells (c : Console) : OnCells c.scrollCells := by
  unfold scrollCells
  split
  · exact onCells_range
  · exact onCells_nil

theorem onCells_putcCells {c : Console} (ch : UInt8) (hs : OnScreen (c.term c.outTerm))
    (hx : InRow (c.term c.outTerm)) : OnCells (c.putcCells ch) := by
  refine OnCells.append ?_ (onCells_scrollCells _)
  split
  · exact onCells_nil
  · exact onCells_cell hs.1 hx

theorem scrollDown_inRow {c : Console} (h : InRow (c.term c.outTerm)) :
    InRow (c.scrollDown.term c.outTerm) := by
  unfold scrollDown
  dsimp only
  split
  · rw [modify_term_self]
    show 0 < NUM_COLS
    decide
  · exact h

theorem wraparound_inRow {c : Console} {t : Terminal} (h : InRow (c.term t)) :
    InRow (c.wraparound.term t) := by
  unfold wraparound InRow
  by_cases ht : t = c.outTerm
  · rw [ht, modify_term_self, wrapTerm_screenX, ← ht]
    exact h
  · rw [modify_term_ne _ _ _ ht]
    exact h

/-- `putc` leaves the cursor in the row, wherever it finds it. -/
theorem putc_inRow (c : Console) (ch : UInt8) : InRow ((c.putc ch).term c.outTerm) := by
  have h₁ := drawn_putcStore c ch
  have h₂ := drawn_wrapAtEdge (c.putcStore ch)
  have hstore : InRow ((c.putcStore ch).term c.outTerm) := by
    unfold putcStore
    dsimp only
    split
    · rw [modify_term_self]
      show 0 < NUM_COLS
      decide
    · rw [modify_term_self]
      exact Nat.mod_lt _ (by decide)
  have hwrap : InRow ((c.putcStore ch).wrapAtEdge.term c.outTerm) := by
    unfold wrapAtEdge
    split
    · exact wraparound_inRow hstore
    · exact hstore
  have hscroll := scrollDown_inRow (c := (c.putcStore ch).wrapAtEdge)
    (by rw [h₂.outTerm, h₁.outTerm]; exact hwrap)
  rw [h₂.outTerm, h₁.outTerm] at hscroll
  exact hscroll

theorem putcs_inRow {c : Console} (l : List UInt8) (h : InRow (c.term c.outTerm)) :
    InRow ((c.putcs l).term c.outTerm) := by
  induction l generalizing c with
  | nil => exact h
  | cons ch t ih =>
      have ho := (drawn_putc c ch).outTerm
      have hrec := ih (c := c.putc ch) (by rw [ho]; exact putc_inRow c ch)
      rw [ho] at hrec
      exact hrec

theorem onCells_putcsCells {c : Console} (l : List UInt8) (hs : OnScreen (c.term c.outTerm))
    (hx : InRow (c.term c.outTerm)) : OnCells (c.putcsCells l) := by
  induction l generalizing c with
  | nil => exact onCells_nil
  | cons ch t ih =>
      have ho := (drawn_putc c ch).outTerm
      refine (onCells_putcCells ch hs hx).append (ih ?_ ?_)
      · rw [ho]
        exact onScreen_putc c ch
      · rw [ho]
        exact putc_inRow c ch

/-- `_sys_write_terminal`. -/
def sysWriteTerminalCells (c : Console) (buf : Mem) (nbytes : Int) : List Nat :=
  if nbytes < 0 then []
  else if nbytes = 0 then []
  else if c.tooManyShellsFlag
      ∧ strncmp (ofList (ascii "no such command\n")) buf NO_SUCH_CMD_LEN 0 = 0 then
    c.putcsCells tooManyMessage
  else c.putcsCells (((List.range nbytes.toNat).map buf).filter (· ≠ 0))

theorem onCells_sysWriteTerminalCells {c : Console} (buf : Mem) (nbytes : Int)
    (hs : OnScreen (c.term c.outTerm)) (hx : InRow (c.term c.outTerm)) :
    OnCells (c.sysWriteTerminalCells buf nbytes) := by
  unfold sysWriteTerminalCells
  split
  · exact onCells_nil
  · split
    · exact onCells_nil
    · split
      · exact onCells_putcsCells _ hs hx
      · exact onCells_putcsCells _ hs hx

theorem sysWriteTerminal_inRow {c : Console} (buf : Mem) (nbytes : Int)
    (hx : InRow (c.term c.outTerm)) :
    InRow ((c.sysWriteTerminal buf nbytes).1.term c.outTerm) := by
  unfold sysWriteTerminal
  split
  · exact hx
  · split
    · exact hx
    · split <;> dsimp only <;> exact putcs_inRow _ hx

/-! ## The routines of the keyboard handler -/

/-- A piece of the handler that stores to `cells` and has the cursor in the row in the end. -/
structure Paints (c : Console) (cells : List Nat) (c' : Console) : Prop where
  steady : Steady c c'
  cells : OnCells cells
  inRow : InRow (c'.term c.visibleTerminal)

theorem Paints.trans {c c' c'' : Console} {l l' : List Nat} (h : Paints c l c')
    (h' : Paints c' l' c'') : Paints c (l ++ l') c'' := by
  have hrow := h'.inRow
  rw [h.steady.visible] at hrow
  exact ⟨h.steady.trans h'.steady, h.cells.append h'.cells, hrow⟩

theorem Paints.modify {c c' : Console} {l : List Nat} (h : Paints c l c') (hc : Ready c)
    {f : TermState → TermState} (hf : ∀ s, (f s).screenX = s.screenX ∧ (f s).screenY = s.screenY) :
    Paints c l (c'.modify c.visibleTerminal f) where
  steady := h.steady.trans (local_modify (h.steady.ready hc) h.steady.visible fun s hs => by
    unfold OnScreen
    rw [(hf s).1, (hf s).2]
    exact hs).toSteady
  cells := h.cells
  inRow := by
    unfold InRow
    rw [modify_term_self, (hf _).1]
    exact h.inRow

/-- Nothing is stored. -/
theorem Paints.refl {c : Console} (hc : Ready c) (hx : InRow (c.term c.visibleTerminal)) :
    Paints c [] c := ⟨(Local.refl hc).toSteady, onCells_nil, hx⟩

theorem paints_sysWriteTerminal {c : Console} (hc : Ready c)
    (hx : InRow (c.term c.visibleTerminal)) (buf : Mem) (nbytes : Int) :
    Paints c (c.sysWriteTerminalCells buf nbytes) (c.sysWriteTerminal buf nbytes).1 := by
  have hs := hc.onScreen
  rw [← hc.outTerm] at hs hx
  have hrow := sysWriteTerminal_inRow buf nbytes hx
  rw [hc.outTerm] at hrow
  exact ⟨(local_sysWriteTerminal hc buf nbytes).toSteady,
    onCells_sysWriteTerminalCells buf nbytes hs hx, hrow⟩

/-- After a piece that stores nothing. -/
theorem Paints.of_steady {c c' c'' : Console} {l : List Nat} (h' : Paints c' l c'')
    (h : Steady c c') : Paints c l c'' := by
  have hrow := h'.inRow
  rw [h.visible] at hrow
  exact ⟨h.trans h'.steady, h'.cells, hrow⟩

/-- The end of both arrow blocks: write the new line and set the indices. -/
theorem Paints.redraw {c c₂ c₃ : Console} {l : List Nat} (hc : Ready c) (h : Steady c c₂)
    (h' : Paints c₂ l c₃) (kb : Mem) (n : Int) {f : TermState → TermState}
    (hf : ∀ s, (f s).screenX = s.screenX ∧ (f s).screenY = s.screenY) :
    Paints c (l ++ c₃.sysWriteTerminalCells kb n)
      ((c₃.sysWriteTerminal kb n).1.modify c.visibleTerminal f) := by
  have hrow := h'.inRow
  rw [← h'.steady.visible] at hrow
  have hwrite := paints_sysWriteTerminal (h'.steady.ready (h.ready hc)) hrow kb n
  exact ((h'.trans hwrite).of_steady h).modify hc hf

def backspaceCells (c : Console) : List Nat :=
  let s := c.term c.visibleTerminal
  if s.screenX = 0 ∧ s.screenY = 0 then []
  else if s.keyboardCursorIdx = 0 then []
  else if s.screenX ≠ 0 then [NUM_COLS * s.screenY + (s.screenX - 1)]
  else if c.rowEnd (s.screenY - 1) = 10 then []
  else [NUM_COLS * (s.screenY - 1) + (NUM_COLS - 1)]

theorem stepUp_screenX (s : TermState) : (stepUp s).screenX = NUM_COLS - 1 := by
  unfold stepUp
  split <;> rfl

theorem stepUp_screenY (s : TermState) : (stepUp s).screenY = s.screenY - 1 := by
  unfold stepUp
  split <;> rfl

/-- `backspace` also brings a cursor behind the last column back into the row, if the line is not
empty. -/
theorem paints_backspace {c : Console} (hc : Ready c)
    (h : InRow (c.term c.visibleTerminal) ∨ (c.term c.visibleTerminal).keyboardCursorIdx ≠ 0) :
    Paints c c.backspaceCells c.backspace := by
  refine ⟨(local_backspace hc).toSteady, ?_, ?_⟩
  · obtain ⟨hy, hx⟩ := hc.onScreen
    unfold backspaceCells
    dsimp only
    split
    · exact onCells_nil
    · split
      · exact onCells_nil
      · split
        · exact onCells_cell hy (by omega)
        · split
          · exact onCells_nil
          · exact onCells_cell (by omega) (by decide)
  · obtain ⟨_, hx⟩ := hc.onScreen
    unfold InRow NUM_COLS at *
    unfold backspace
    dsimp only
    split
    · omega
    · split
      · omega
      · split
        · rw [modify_term_self]
          show (c.term c.visibleTerminal).screenX - 1 < 80
          omega
        · split
          · omega
          · rw [modify_term_self, stepUp_screenX]
            decide

def backspacesCells : Nat → Console → List Nat
  | 0, _ => []
  | n + 1, c => c.backspaceCells ++ backspacesCells n c.backspace

theorem paints_backspaces {c : Console} (hc : Ready c) {n : Nat}
    (h : InRow (c.term c.visibleTerminal)
      ∨ (0 < n ∧ (c.term c.visibleTerminal).keyboardCursorIdx ≠ 0)) :
    Paints c (backspacesCells n c) (backspace^[n] c) := by
  induction n generalizing c with
  | zero => exact .refl hc (h.resolve_right fun hn => absurd hn.1 (by decide))
  | succ n ih =>
      have hfirst := paints_backspace hc (h.imp_right fun hn => hn.2)
      have hrow := hfirst.inRow
      rw [← hfirst.steady.visible] at hrow
      exact hfirst.trans (ih (hfirst.steady.ready hc) (Or.inl hrow))

/-! ## Up and down arrow -/

/-- A block of the handler that stores to `cells`, and leaves the cursor in the row if it has a
result. -/
structure Draws (c : Console) (cells : List Nat) (r : Option Console) : Prop where
  cells : OnCells cells
  inRow : ∀ c', r = some c' → InRow (c'.term c.visibleTerminal)

theorem Paints.draws {c c' : Console} {l : List Nat} (h : Paints c l c') : Draws c l (some c') :=
  ⟨h.cells, fun _ heq => by cases heq; exact h.inRow⟩

theorem Draws.undefined (c : Console) : Draws c [] none := ⟨onCells_nil, fun _ heq => by cases heq⟩

theorem Draws.leave {c : Console} {l : List Nat} {r : Option Console} (h : Draws c l r) :
    Draws c l (r.map Console.leave) := by
  refine ⟨h.cells, fun c' hc' => ?_⟩
  obtain ⟨c₁, hc₁, rfl⟩ := Option.map_eq_some_iff.mp hc'
  exact h.inRow c₁ hc₁

def upCells (c : Console) : List Nat :=
  let v := c.visibleTerminal
  if (c.term v).shellFlag ∧ (c.term v).lastBuf 0 ≠ 0 ∧ c.notInPrevCmdFlag then
    let c₁ := toLineEnd (c.term v).distanceFromRight.toNat { c with notInPrevCmdFlag := false }
    let s := c₁.term v
    if fits s.keyboardBufferEndIdx ∧ fits s.lastBufIndex then
      let kb := overlay (overlay s.keyboardBuffer 0 s.keyboardBufferEndIdx.toNat fun _ => 0)
        0 s.lastBufIndex.toNat s.lastBuf
      let c₂ := c₁.modify v fun s => { s with keyboardBuffer := kb }
      backspacesCells s.keyboardCursorIdx.toNat c₂
        ++ (backspace^[s.keyboardCursorIdx.toNat] c₂).sysWriteTerminalCells kb s.lastBufIndex
    else []
  else []

def eraseLineCells : Nat → Console → List Nat
  | 0, _ => []
  | n + 1, c =>
      let c₁ := c.modify c.visibleTerminal fun s =>
        { s with keyboardCursorIdx := s.keyboardCursorIdx - 1 }
      c₁.backspaceCells ++ eraseLineCells n c₁.backspace

def downCells (c : Console) : List Nat :=
  let v := c.visibleTerminal
  if (c.term v).shellFlag then
    let c₁ := toLineEnd (c.term v).distanceFromRight.toNat { c with notInPrevCmdFlag := true }
    let s := c₁.term v
    if fits s.currentBufIndex then
      let kb := freshCopy s.currentBuf s.currentBufIndex
      let c₂ := c₁.modify v fun s =>
        { s with keyboardBuffer := kb, keyboardCursorIdx := s.keyboardCursorIdx + 1 }
      eraseLineCells s.keyboardCursorIdx.toNat c₂
        ++ (eraseLine s.keyboardCursorIdx.toNat c₂).sysWriteTerminalCells kb s.currentBufIndex
    else []
  else []

theorem paints_eraseLine {c : Console} (hc : Ready c) {n : Nat}
    (h : InRow (c.term c.visibleTerminal)
      ∨ (0 < n ∧ (c.term c.visibleTerminal).keyboardCursorIdx ≠ 1)) :
    Paints c (eraseLineCells n c) (eraseLine n c) := by
  induction n generalizing c with
  | zero =>
      refine (Paints.refl hc (h.resolve_right fun hn => absurd hn.1 (by decide))).modify hc ?_
      exact fun _ => ⟨rfl, rfl⟩
  | succ n ih =>
      have hdec : Local c (c.modify c.visibleTerminal fun s =>
          { s with keyboardCursorIdx := s.keyboardCursorIdx - 1 }) :=
        local_modify hc rfl fun _ hs => hs
      have hfirst := paints_backspace (hdec.ready hc) (by
        rw [hdec.visible, modify_term_self]
        refine h.imp_right fun hn => ?_
        show (c.term c.visibleTerminal).keyboardCursorIdx - 1 ≠ 0
        omega)
      have hrow := hfirst.inRow
      rw [← hfirst.steady.visible] at hrow
      have hrest := hfirst.trans (ih (hfirst.steady.ready (hdec.ready hc)) (Or.inl hrow))
      exact hrest.of_steady hdec.toSteady

/-- The cursor at the end of the line: still in the row if it was there, and behind a character
otherwise. -/
theorem arrow_lineEnd_inRow {c : Console} (hx : InRow (c.term c.visibleTerminal))
    (hcur : 0 ≤ (c.term c.visibleTerminal).keyboardCursorIdx) (b : Bool) :
    let s := (toLineEnd (c.term c.visibleTerminal).distanceFromRight.toNat
      { c with notInPrevCmdFlag := b }).term c.visibleTerminal
    InRow s ∨ 0 < s.keyboardCursorIdx := by
  dsimp only
  have hend := toLineEnd_lineIdx { c with notInPrevCmdFlag := b }
    (c.term c.visibleTerminal).distanceFromRight.toNat
  by_cases hdist : (c.term c.visibleTerminal).distanceFromRight.toNat = 0
  · rw [hdist]
    exact Or.inl hx
  · have hcursor := congrArg LineIdx.cursor hend
    unfold TermState.lineIdx at hcursor
    dsimp only at hcursor
    exact Or.inr (by omega)

theorem draws_upArrow {c : Console} (hc : Ready c) (hx : InRow (c.term c.visibleTerminal))
    (hcur : 0 ≤ (c.term c.visibleTerminal).keyboardCursorIdx) : Draws c c.upCells c.upArrow := by
  have hend := (arrow_lineEnd hc false (c.term c.visibleTerminal).distanceFromRight.toNat).1
  have hcursor := arrow_lineEnd_inRow hx hcur false
  unfold upArrow upCells
  dsimp only at hcursor ⊢
  split
  · generalize toLineEnd (c.term c.visibleTerminal).distanceFromRight.toNat
      { c with notInPrevCmdFlag := false } = c₁ at hend hcursor ⊢
    split
    · generalize overlay (overlay (c₁.term c.visibleTerminal).keyboardBuffer 0
        (c₁.term c.visibleTerminal).keyboardBufferEndIdx.toNat fun _ => 0)
        0 (c₁.term c.visibleTerminal).lastBufIndex.toNat (c₁.term c.visibleTerminal).lastBuf = kb
      have hset : Local c (c₁.modify c.visibleTerminal fun s => { s with keyboardBuffer := kb }) :=
        hend.modify hc fun _ hs => hs
      have hback := paints_backspaces (hset.ready hc)
        (n := (c₁.term c.visibleTerminal).keyboardCursorIdx.toNat) (by
          rw [hset.visible, modify_term_self]
          refine hcursor.imp_right fun hpos => ⟨by omega, ?_⟩
          show (c₁.term c.visibleTerminal).keyboardCursorIdx ≠ 0
          omega)
      refine (Paints.redraw hc hset.toSteady hback _ _ ?_).draws
      exact fun _ => ⟨rfl, rfl⟩
    · exact .undefined c
  · exact (Paints.refl hc hx).draws

theorem draws_downArrow {c : Console} (hc : Ready c) (hx : InRow (c.term c.visibleTerminal))
    (hcur : 0 ≤ (c.term c.visibleTerminal).keyboardCursorIdx) :
    Draws c c.downCells c.downArrow := by
  have hend := (arrow_lineEnd hc true (c.term c.visibleTerminal).distanceFromRight.toNat).1
  have hcursor := arrow_lineEnd_inRow hx hcur true
  unfold downArrow downCells
  dsimp only at hcursor ⊢
  split
  · generalize toLineEnd (c.term c.visibleTerminal).distanceFromRight.toNat
      { c with notInPrevCmdFlag := true } = c₁ at hend hcursor ⊢
    split
    · generalize freshCopy (c₁.term c.visibleTerminal).currentBuf
        (c₁.term c.visibleTerminal).currentBufIndex = kb
      have hset : Local c (c₁.modify c.visibleTerminal fun s =>
          { s with keyboardBuffer := kb, keyboardCursorIdx := s.keyboardCursorIdx + 1 }) :=
        hend.modify hc fun _ hs => hs
      have hback := paints_eraseLine (hset.ready hc)
        (n := (c₁.term c.visibleTerminal).keyboardCursorIdx.toNat) (by
          rw [hset.visible, modify_term_self]
          refine hcursor.imp_right fun hpos => ⟨by omega, ?_⟩
          show (c₁.term c.visibleTerminal).keyboardCursorIdx + 1 ≠ 1
          omega)
      refine (Paints.redraw hc hset.toSteady hback _ _ ?_).draws
      exact fun _ => ⟨rfl, rfl⟩
    · exact .undefined c
  · exact (Paints.refl hc hx).draws

/-! ## Backspace and the arrows -/

/-- `c'` has the cursors of `c`, and the same terminal is visible. -/
structure SameCursor (c c' : Console) : Prop where
  visible : c'.visibleTerminal = c.visibleTerminal
  toVisible : c'.putcToVisibleFlag = c.putcToVisibleFlag
  place : ∀ t, (c'.term t).screenX = (c.term t).screenX ∧ (c'.term t).screenY = (c.term t).screenY

theorem SameCursor.ready {c c' : Console} (h : SameCursor c c') (hc : Ready c) : Ready c' := by
  refine ⟨h.toVisible.trans hc.toVisible, ?_⟩
  unfold OnScreen
  rw [h.visible, (h.place _).1, (h.place _).2]
  exact hc.onScreen

/-- Nothing has been drawn: video memory and the flags of the rows are the same, too. -/
structure SameScreens (c c' : Console) : Prop extends SameCursor c c' where
  video : c'.video = c.video
  flags : ∀ t, (c'.term t).forwardNext = (c.term t).forwardNext ∧
    (c'.term t).backwardNext = (c.term t).backwardNext

theorem SameScreens.refl (c : Console) : SameScreens c c :=
  ⟨⟨rfl, rfl, fun _ => ⟨rfl, rfl⟩⟩, rfl, fun _ => ⟨rfl, rfl⟩⟩

/-- A change of the variables of one terminal that are not those of its screen. -/
theorem SameScreens.modify {c c' : Console} (h : SameScreens c c') (t : Terminal)
    {f : TermState → TermState} (hf : (f (c'.term t)).screenX = (c'.term t).screenX ∧
      (f (c'.term t)).screenY = (c'.term t).screenY ∧
      (f (c'.term t)).forwardNext = (c'.term t).forwardNext ∧
      (f (c'.term t)).backwardNext = (c'.term t).backwardNext) :
    SameScreens c (c'.modify t f) where
  visible := h.visible
  toVisible := h.toVisible
  video := h.video
  place u := by
    by_cases hu : u = t
    · rw [hu, modify_term_self, hf.1, hf.2.1]
      exact h.place t
    · rw [modify_term_ne _ _ _ hu]
      exact h.place u
  flags u := by
    by_cases hu : u = t
    · rw [hu, modify_term_self, hf.2.2.1, hf.2.2.2]
      exact h.flags t
    · rw [modify_term_ne _ _ _ hu]
      exact h.flags u

theorem SameScreens.trans {c c' c'' : Console} (h : SameScreens c c') (h' : SameScreens c' c'') :
    SameScreens c c'' where
  visible := h'.visible.trans h.visible
  toVisible := h'.toVisible.trans h.toVisible
  place t := ⟨(h'.place t).1.trans (h.place t).1, (h'.place t).2.trans (h.place t).2⟩
  video := h'.video.trans h.video
  flags t := ⟨(h'.flags t).1.trans (h.flags t).1, (h'.flags t).2.trans (h.flags t).2⟩

theorem sameScreens_storeKbd {c c' : Console} {v : Terminal} {i : Int} {b : UInt8}
    (h : c.storeKbd v i b = some c') : SameScreens c c' := by
  obtain ⟨t, j, rfl⟩ := storeKbd_eq_some h
  exact (SameScreens.refl c).modify t ⟨rfl, rfl, rfl, rfl⟩

theorem sameScreens_backspaceLine {c c' : Console} (h : c.backspaceLine = some c') :
    SameScreens c c' := by
  unfold backspaceLine at h
  dsimp only at h
  split at h
  · obtain ⟨c₁, hc₁, rfl⟩ := Option.map_eq_some_iff.mp h
    exact (sameScreens_storeKbd hc₁).modify _ ⟨rfl, rfl, rfl, rfl⟩
  · split at h
    · obtain ⟨c₁, hc₁, rfl⟩ := Option.map_eq_some_iff.mp h
      exact (sameScreens_storeKbd hc₁).modify _ ⟨rfl, rfl, rfl, rfl⟩
    · cases h
      exact .refl c

theorem draws_backspaceKey {c : Console} (hc : Ready c) (hx : InRow (c.term c.visibleTerminal)) :
    Draws c c.backspaceCells c.backspaceKey := by
  have hback := paints_backspace hc (Or.inl hx)
  refine ⟨hback.cells, fun c' hc' => ?_⟩
  obtain ⟨c₁, hc₁, rfl⟩ := Option.map_eq_some_iff.mp hc'
  have hsame := (sameScreens_backspaceLine hc₁).modify c₁.visibleTerminal (f := backspaceAhead)
    (by unfold backspaceAhead; split <;> exact ⟨rfl, rfl, rfl, rfl⟩)
  unfold InRow
  rw [leave_term, (hsame.place _).1]
  exact hback.inRow

theorem leftArrowKey_inRow {c : Console} (hx : InRow (c.term c.visibleTerminal)) :
    InRow (c.leftArrowKey.term c.visibleTerminal) := by
  have hleft : InRow (c.leftArrow.1.term c.visibleTerminal) := by
    unfold leftArrow
    dsimp only
    split
    · exact hx
    · split
      · exact hx
      · split
        · rw [modify_term_self]
          exact Nat.lt_of_le_of_lt (Nat.sub_le _ _) hx
        · split
          · exact hx
          · rw [modify_term_self]
            unfold InRow
            rw [stepUp_screenX]
            decide
  unfold leftArrowKey
  dsimp only
  split
  · rw [leave_term, modify_term_self]
    exact hleft
  · exact hx

/-- The right arrow, where the handler takes it: it stays in the row unless the cursor is in the
last column. -/
theorem rightArrowKey_inRow_iff {c : Console} (hx : InRow (c.term c.visibleTerminal))
    (hroom : (c.term c.visibleTerminal).keyboardCursorIdx < KEYBOARD_BUFFER_SIZE - 1) :
    InRow (c.rightArrowKey.term c.visibleTerminal) ↔
      (c.term c.visibleTerminal).screenX ≠ NUM_COLS - 1 := by
  have hright : (c.rightArrow.1.term c.visibleTerminal).screenX
      = (c.term c.visibleTerminal).screenX + 1 := by
    unfold rightArrow
    dsimp only
    rw [if_neg fun h => absurd h.1 (Nat.ne_of_lt hx), if_neg (by omega),
      if_pos (Nat.ne_of_lt hx), modify_term_self]
    rfl
  unfold rightArrowKey InRow
  rw [leave_term, modify_term_self]
  show (c.rightArrow.1.term c.visibleTerminal).screenX < NUM_COLS ↔ _
  rw [hright]
  unfold InRow at hx
  unfold NUM_COLS at *
  omega

/-! ## Characters and Enter -/

/-- The handler up to the echo, for a key with a character. -/
def typed (c : Console) (pressed : Nat) : Option Console :=
  ((c.modify c.visibleTerminal echoOff).insertChar pressed (c.outputChar pressed)).bind fun c' =>
    (c'.enterKey pressed (c.outputChar pressed)).bind saveCurrent

theorem charKey_eq_typed (c : Console) (pressed : Nat) : c.charKey pressed =
    ((c.typed pressed).map fun c' =>
      c'.finish c.visibleTerminal (c.outputChar pressed)).map leave := by
  rw [charKey_eq]
  unfold typed
  simp only [Option.map_bind, Function.comp_def]

def finishCells (c : Console) (v : Terminal) (ch : UInt8) : List Nat :=
  (if (c.term c.visibleTerminal).echoFlag then c.putcCells ch else [])
    ++ (((c.echo ch).modify v fun s => typeAhead s ch).wraparound).scrollCells

def charCells (c : Console) (pressed : Nat) : List Nat :=
  match c.typed pressed with
  | some c' => c'.finishCells c.visibleTerminal (c.outputChar pressed)
  | none => []

theorem sameScreens_insertChar {c c' : Console} {pressed : Nat} {ch : UInt8}
    (h : c.insertChar pressed ch = some c') : SameScreens c c' := by
  unfold insertChar at h
  dsimp only at h
  split at h
  · obtain ⟨c₁, hc₁, rfl⟩ := Option.map_eq_some_iff.mp h
    exact (sameScreens_storeKbd hc₁).modify _ ⟨rfl, rfl, rfl, rfl⟩
  · cases h
    exact .refl c

theorem sameScreens_endLine {c c' : Console} {ch : UInt8} (h : c.endLine ch = some c') :
    SameScreens c c' := by
  unfold endLine at h
  dsimp only at h
  split at h
  · obtain ⟨c₁, hc₁, rfl⟩ := Option.map_eq_some_iff.mp h
    exact (sameScreens_storeKbd hc₁).modify _ ⟨rfl, rfl, rfl, rfl⟩
  · cases h
    exact .refl c

theorem saveCommand_screen {s s' : TermState} (h : saveCommand s = some s') :
    s'.screenX = s.screenX ∧ s'.screenY = s.screenY ∧ s'.forwardNext = s.forwardNext ∧
      s'.backwardNext = s.backwardNext := by
  unfold saveCommand at h
  split at h
  · split at h
    · cases h
      exact ⟨rfl, rfl, rfl, rfl⟩
    · cases h
  · cases h
    exact ⟨rfl, rfl, rfl, rfl⟩

theorem sameScreens_enterKey {c c' : Console} {pressed : Nat} {ch : UInt8}
    (h : c.enterKey pressed ch = some c') : SameScreens c c' := by
  unfold enterKey at h
  dsimp only at h
  split at h
  · obtain ⟨c₁, hc₁, hmap⟩ := Option.bind_eq_some_iff.mp h
    obtain ⟨s, hs, rfl⟩ := Option.map_eq_some_iff.mp hmap
    have hline := sameScreens_endLine hc₁
    have hend : SameScreens c c₁ := ⟨⟨hline.visible, hline.toVisible, hline.place⟩, hline.video,
      hline.flags⟩
    have hsaved := saveCommand_screen hs
    exact hend.modify _ hsaved
  · cases h
    exact .refl c

theorem sameScreens_saveCurrent {c c' : Console} (h : c.saveCurrent = some c') :
    SameScreens c c' := by
  unfold saveCurrent at h
  dsimp only at h
  split at h
  · split at h
    · cases h
      exact (SameScreens.refl c).modify _ ⟨rfl, rfl, rfl, rfl⟩
    · cases h
  · cases h
    exact .refl c

theorem sameScreens_typed {c c' : Console} {pressed : Nat} (h : c.typed pressed = some c') :
    SameScreens c c' := by
  obtain ⟨c₁, hc₁, hrest⟩ := Option.bind_eq_some_iff.mp h
  obtain ⟨c₂, hc₂, hc₃⟩ := Option.bind_eq_some_iff.mp hrest
  obtain ⟨b, hb⟩ := echoOff_eq (c.term c.visibleTerminal)
  have hecho := (SameScreens.refl c).modify c.visibleTerminal (f := echoOff)
    (by rw [hb]; exact ⟨rfl, rfl, rfl, rfl⟩)
  exact ((hecho.trans (sameScreens_insertChar hc₁)).trans (sameScreens_enterKey hc₂)).trans
    (sameScreens_saveCurrent hc₃)

/-- The echo and the end of the handler. -/
theorem draws_finish {c : Console} (hc : Ready c) (hx : InRow (c.term c.visibleTerminal))
    (ch : UInt8) : Draws c (c.finishCells c.visibleTerminal ch)
      (some (c.finish c.visibleTerminal ch)) := by
  have hout := hc.outTerm
  have hecho := local_echo hc ch
  have hrow : InRow ((c.echo ch).term c.visibleTerminal) := by
    unfold echo
    split
    · rw [← hout]
      exact putc_inRow c ch
    · exact hx
  have hahead : Local c ((c.echo ch).modify c.visibleTerminal fun s => typeAhead s ch) :=
    hecho.modify hc fun _ hs => onScreen_typeAhead ch hs
  have hwrap : InRow (((c.echo ch).modify c.visibleTerminal
      fun s => typeAhead s ch).wraparound.term c.visibleTerminal) := by
    refine wraparound_inRow ?_
    rw [modify_term_self]
    unfold typeAhead
    split <;> exact hrow
  refine ⟨OnCells.append ?_ (onCells_scrollCells _), fun c' hc' => ?_⟩
  · split
    · rw [← hout] at hx
      exact onCells_putcCells ch (hout ▸ hc.onScreen) hx
    · exact onCells_nil
  · cases hc'
    unfold finish
    generalize hc₁ : (c.echo ch).modify c.visibleTerminal (fun s => typeAhead s ch) = c₁ at *
    have hout' : c₁.wraparound.outTerm = c.visibleTerminal := by
      rw [(drawn_wraparound c₁).outTerm, (hahead.ready hc).outTerm, hahead.visible]
    have hscroll := scrollDown_inRow (c := c₁.wraparound) (by rw [hout']; exact hwrap)
    rw [hout'] at hscroll
    exact hscroll

theorem draws_charKey {c : Console} (hc : Ready c) (hx : InRow (c.term c.visibleTerminal))
    (pressed : Nat) : Draws c (c.charCells pressed) (c.charKey pressed) := by
  rw [charKey_eq_typed]
  unfold charCells
  refine Draws.leave ?_
  cases htyped : c.typed pressed with
  | none => exact .undefined c
  | some c₁ =>
      have hsame := sameScreens_typed htyped
      have hrow : InRow (c₁.term c₁.visibleTerminal) := by
        unfold InRow
        rw [hsame.visible, (hsame.place _).1]
        exact hx
      have hdraws := draws_finish (hsame.ready hc) hrow (c.outputChar pressed)
      rw [hsame.visible] at hdraws
      refine ⟨hdraws.cells, fun c' hc' => ?_⟩
      have hfinish := hdraws.inRow c' hc'
      rw [hsame.visible] at hfinish
      exact hfinish

/-! ## One key -/

/-- The cells `keyboard_interrupt` stores to. Of the keys behind the characters only the up and
down arrow draw. -/
def keyCells (c : Console) (pressed : Nat) : List Nat :=
  let c₀ := { c with putcToVisibleFlag := true }
  if pressed = UP_ARROW_PRESSED then c₀.upCells
  else if pressed = DOWN_ARROW_PRESSED then c₀.downCells
  else if pressed = BACKSPACE then c₀.backspaceCells
  else if ¬ c.Plain pressed then []
  else if (c.term c.visibleTerminal).controlOn ∧ pressed = L_SCANCODE then
    List.range (NUM_ROWS * NUM_COLS)
  else if pressed > START_IGNORE then []
  else c₀.charCells pressed

/-- A right arrow that the handler takes does not find the cursor in the last column. -/
def KeyInRow (c : Console) (pressed : Nat) : Prop :=
  let s := c.term c.visibleTerminal
  pressed = RIGHT_ARROW_PRESSED ∧ s.distanceFromRight > 0
    ∧ s.keyboardCursorIdx < KEYBOARD_BUFFER_SIZE - 1 ∧ s.shellFlag →
      s.screenX ≠ NUM_COLS - 1

theorem clear_screenX (c : Console) : (c.clear.term c.visibleTerminal).screenX = 0 := by
  rw [clear_term]
  exact if_pos rfl

theorem ctrlL_inRow {c c' : Console} (h : c.ctrlL = some c') :
    InRow (c'.term c.visibleTerminal) := by
  unfold ctrlL at h
  dsimp only at h
  split at h
  · cases h
    have hclear := clear_screenX (c.modify c.visibleTerminal fun s =>
      { s with
        tempKbdBuf := freshCopy s.keyboardBuffer s.keyboardCursorIdx
        tempKbdIdx := s.keyboardCursorIdx })
    rw [leave_term, modify_term_self]
    exact Nat.lt_of_le_of_lt (Nat.le_of_eq hclear) (by decide)
  · cases h

/-- **The cells of one key.** From a cursor in the row, a key that is neither a modifier nor a
terminal switch stores to cells of the screen, and leaves the cursor in the row unless it is a
right arrow in the last column. -/
theorem keyboardInterrupt_cells {c : Console} (hs : OnScreen (c.term c.visibleTerminal))
    (hx : InRow (c.term c.visibleTerminal))
    (hcur : 0 ≤ (c.term c.visibleTerminal).keyboardCursorIdx) {scancode : UInt8}
    (hp : c.Plain scancode.toNat) :
    OnCells (c.keyCells scancode.toNat) ∧
      ((∀ c', c.keyboardInterrupt scancode = some c' → InRow (c'.term c.visibleTerminal))
        ↔ c.KeyInRow scancode.toNat) := by
  have hc : Ready { c with putcToVisibleFlag := true } := ⟨rfl, hs⟩
  rw [keyboardInterrupt_eq]
  unfold keyCells
  dsimp only
  generalize scancode.toNat = pressed at *
  -- A block that draws and stays in the row, for a key other than the right arrow.
  have hblock : ∀ {l : List Nat} {r : Option Console},
      Draws { c with putcToVisibleFlag := true } l r → pressed ≠ RIGHT_ARROW_PRESSED →
      OnCells l ∧ ((∀ c', r = some c' → InRow (c'.term c.visibleTerminal))
        ↔ c.KeyInRow pressed) := by
    intro l r hdraws hne
    exact ⟨hdraws.cells, iff_of_true hdraws.inRow fun hk => absurd hk.1 hne⟩
  by_cases hup : pressed = UP_ARROW_PRESSED
  · rw [if_pos hup, if_pos hup]
    exact hblock (draws_upArrow hc hx hcur).leave (by rw [hup]; decide)
  rw [if_neg hup, if_neg hup]
  by_cases hdown : pressed = DOWN_ARROW_PRESSED
  · rw [if_pos hdown, if_pos hdown]
    exact hblock (draws_downArrow hc hx hcur).leave (by rw [hdown]; decide)
  rw [if_neg hdown, if_neg hdown]
  unfold afterArrows
  dsimp only
  by_cases hback : pressed = BACKSPACE
  · rw [if_pos hback, if_pos hback]
    exact hblock (draws_backspaceKey hc hx) (by rw [hback]; decide)
  rw [if_neg hback, if_neg hback, if_neg (not_not_intro hp)]
  have hswitch : (if (c.term c.visibleTerminal).altOn = true then switchKey pressed else none)
      = none := by
    split
    · rename_i halt
      exact hp.switch halt
    · rfl
  rw [modifierKey_eq_none _ hp.modifier, hswitch]
  dsimp only
  by_cases hignored : pressed > START_IGNORE
  · have hnotL : ¬ ((c.term c.visibleTerminal).controlOn ∧ pressed = L_SCANCODE) := by
      rintro ⟨_, rfl⟩
      exact absurd hignored (by decide)
    rw [if_neg hnotL, if_pos hignored]
    refine ⟨onCells_nil, ?_⟩
    split
    · rename_i hleft
      have hrow := leftArrowKey_inRow (c := { c with putcToVisibleFlag := true }) hx
      refine iff_of_true (fun c' hc' => ?_) fun hk => ?_
      · cases hc'
        exact hrow
      · rw [hleft.1] at hk
        exact absurd hk.1 (by decide)
    · split
      · rename_i hright
        have hrow := rightArrowKey_inRow_iff (c := { c with putcToVisibleFlag := true }) hx
          hright.2.2.1
        constructor
        · intro hall _
          exact hrow.mp (hall _ rfl)
        · intro hk c' hc'
          cases hc'
          exact hrow.mpr (hk hright)
      · rename_i hright
        rw [lineKey_ignored _ hignored]
        refine iff_of_true (fun c' hc' => ?_) fun hk => absurd hk hright
        cases hc'
        exact hx
  have hnotLeft : ¬ (pressed = LEFT_ARROW_PRESSED ∧ (c.term c.visibleTerminal).shellFlag) := by
    rintro ⟨rfl, _⟩
    exact hignored (by decide)
  have hnotRight : pressed ≠ RIGHT_ARROW_PRESSED := by
    rintro rfl
    exact hignored (by decide)
  have hnotTaken : ¬ (pressed = RIGHT_ARROW_PRESSED
      ∧ (c.term c.visibleTerminal).distanceFromRight > 0
      ∧ (c.term c.visibleTerminal).keyboardCursorIdx < KEYBOARD_BUFFER_SIZE - 1
      ∧ (c.term c.visibleTerminal).shellFlag) := fun hk => hnotRight hk.1
  rw [if_neg hnotLeft, if_neg hnotTaken, if_neg hignored]
  unfold lineKey
  dsimp only
  by_cases hctrl : (c.term c.visibleTerminal).controlOn ∧ pressed = L_SCANCODE
  · rw [if_pos hctrl, if_pos hctrl]
    refine ⟨onCells_range, iff_of_true (fun c' hc' => ?_) fun hk => absurd hk.1 hnotRight⟩
    have hrow := ctrlL_inRow hc'
    exact hrow
  · rw [if_neg hctrl, if_neg hctrl, if_neg]
    · exact hblock (draws_charKey hc hx pressed) hnotRight
    · unfold START_IGNORE START_RELEASED RIGHT_CONTROL_TAG at *
      omega

end Console

end Ext2Kernel
