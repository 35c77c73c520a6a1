import Ext2Kernel.Console.Isolation

set_option autoImplicit false

/-! # What the visible terminal depends on

Two consoles agree (`Agree`) when they show the same terminal with the same variables and the
same screen; the other terminals, the memory behind the screen and the shared flags may
differ. Every block of the handler keeps agreement, if the flags it reads are the same.
-/

namespace Ext2Kernel

open ByteMem

namespace Console

/-- The two consoles show the same terminal, in the same state and with the same screen. -/
structure SameVisible (c₁ c₂ : Console) : Prop where
  visible : c₂.visibleTerminal = c₁.visibleTerminal
  term : c₂.term c₁.visibleTerminal = c₁.term c₁.visibleTerminal
  screen : ∀ a < PAGE_4KB, c₂.video a = c₁.video a
  behindScancodes : c₂.behindScancodes = c₁.behindScancodes

/-- The consoles agree while the handler runs. -/
structure Agree (c₁ c₂ : Console) : Prop extends SameVisible c₁ c₂ where
  toVisible₁ : c₁.putcToVisibleFlag = true
  toVisible₂ : c₂.putcToVisibleFlag = true

section

variable {c₁ c₂ : Console}

theorem Agree.outTerm₁ (h : Agree c₁ c₂) : c₁.outTerm = c₁.visibleTerminal :=
  if_pos h.toVisible₁

theorem Agree.outTerm₂ (h : Agree c₁ c₂) : c₂.outTerm = c₁.visibleTerminal :=
  (if_pos h.toVisible₂).trans h.visible

theorem Agree.base₁ (h : Agree c₁ c₂) : c₁.screenBase c₁.outTerm = 0 := by
  rw [h.outTerm₁]
  exact if_pos rfl

theorem Agree.base₂ (h : Agree c₁ c₂) : c₂.screenBase c₂.outTerm = 0 := by
  rw [h.outTerm₂]
  exact if_pos h.visible

/-! ## Changes of variables and of the screen -/

theorem Agree.modify (h : Agree c₁ c₂) (t : Terminal) (f : TermState → TermState) :
    Agree (c₁.modify t f) (c₂.modify t f) where
  visible := h.visible
  term := by
    rw [modify_visibleTerminal]
    by_cases ht : c₁.visibleTerminal = t
    · rw [← ht, modify_term_self, modify_term_self, h.term]
    · rw [modify_term_ne _ _ _ ht, modify_term_ne _ _ _ ht, h.term]
  screen := h.screen
  behindScancodes := h.behindScancodes
  toVisible₁ := h.toVisible₁
  toVisible₂ := h.toVisible₂

theorem Agree.setFlag (h : Agree c₁ c₂) (b₁ b₂ : Bool) :
    Agree { c₁ with notInPrevCmdFlag := b₁ } { c₂ with notInPrevCmdFlag := b₂ } :=
  ⟨⟨h.visible, h.term, h.screen, h.behindScancodes⟩, h.toVisible₁, h.toVisible₂⟩

/-- Stores to video memory that agree on the screen. -/
theorem Agree.draw (h : Agree c₁ c₂) {v₁ v₂ : Mem} (hv : ∀ a < PAGE_4KB, v₂ a = v₁ a) :
    Agree { c₁ with video := v₁ } { c₂ with video := v₂ } :=
  ⟨⟨h.visible, h.term, hv, h.behindScancodes⟩, h.toVisible₁, h.toVisible₂⟩

theorem Agree.putCell (h : Agree c₁ c₂) (i : Nat) (ch : UInt8) :
    Agree (c₁.putCell 0 i ch) (c₂.putCell 0 i ch) := by
  refine h.draw fun a ha => ?_
  simp only [Function.update_apply, h.screen a ha]

theorem Agree.scroll (h : Agree c₁ c₂) :
    Agree { c₁ with video := scrollVideo c₁.video 0 }
      { c₂ with video := scrollVideo c₂.video 0 } := by
  refine h.draw fun a ha => ?_
  unfold scrollVideo
  dsimp only
  split
  · split
    · split
      · rename_i hcell
        -- The row below a row of the screen is on the screen.
        refine h.screen _ ?_
        unfold NUM_ROWS NUM_COLS PAGE_4KB at *
        omega
      · rfl
    · rw [h.screen a ha]
  · exact h.screen a ha

/-! ## Screen routines -/

theorem Agree.scrollDown (h : Agree c₁ c₂) : Agree c₁.scrollDown c₂.scrollDown := by
  have h₁ := h.base₁
  have h₂ := h.base₂
  unfold Console.scrollDown
  dsimp only
  rw [h₁, h₂, h.outTerm₁, h.outTerm₂, h.term]
  split
  · exact h.scroll.modify _ _
  · exact h

theorem Agree.wraparound (h : Agree c₁ c₂) : Agree c₁.wraparound c₂.wraparound := by
  unfold Console.wraparound
  rw [h.outTerm₁, h.outTerm₂]
  exact h.modify _ _

theorem Agree.putc (h : Agree c₁ c₂) (ch : UInt8) : Agree (c₁.putc ch) (c₂.putc ch) := by
  have hstore : Agree (c₁.putcStore ch) (c₂.putcStore ch) := by
    have h₁ := h.base₁
    have h₂ := h.base₂
    unfold Console.putcStore
    dsimp only
    rw [h₁, h₂, h.outTerm₁, h.outTerm₂, h.term]
    split
    · exact h.modify _ _
    · exact (h.putCell _ _).modify _ _
  have hwrap : Agree (c₁.putcStore ch).wrapAtEdge (c₂.putcStore ch).wrapAtEdge := by
    unfold Console.wrapAtEdge
    rw [hstore.outTerm₁, hstore.outTerm₂, hstore.term]
    split
    · exact hstore.wraparound
    · exact hstore
  exact hwrap.scrollDown

theorem Agree.putcs (h : Agree c₁ c₂) (l : List UInt8) : Agree (c₁.putcs l) (c₂.putcs l) := by
  induction l generalizing c₁ c₂ with
  | nil => exact h
  | cons ch t ih => exact ih (h.putc ch)

theorem Agree.sysWriteTerminal (h : Agree c₁ c₂)
    (hmany : c₂.tooManyShellsFlag = c₁.tooManyShellsFlag) (buf : Mem) (n : Int) :
    Agree (c₁.sysWriteTerminal buf n).1 (c₂.sysWriteTerminal buf n).1 := by
  unfold Console.sysWriteTerminal
  rw [hmany]
  split
  · exact h
  · split
    · exact h
    · split <;> dsimp only <;> exact h.putcs _

theorem Agree.rowEnd (h : Agree c₁ c₂) {y : Nat} (hy : y < NUM_ROWS) :
    c₂.rowEnd y = c₁.rowEnd y := by
  refine h.screen _ ?_
  unfold NUM_ROWS NUM_COLS PAGE_4KB at *
  omega

theorem Agree.backspace (h : Agree c₁ c₂) (hs : OnScreen (c₁.term c₁.visibleTerminal)) :
    Agree c₁.backspace c₂.backspace := by
  have hrow := h.rowEnd (Nat.lt_of_le_of_lt (Nat.sub_le _ 1) hs.1)
  unfold Console.backspace
  dsimp only
  rw [h.visible, h.term, hrow]
  split
  · exact h
  · split
    · exact h
    · split
      · exact (h.putCell _ _).modify _ _
      · split
        · exact h
        · exact (h.putCell _ _).modify _ _

/-- The two results of an arrow routine agree. -/
def AgreePair (r₁ r₂ : Console × Int) : Prop := Agree r₁.1 r₂.1 ∧ r₂.2 = r₁.2

theorem Agree.pair (h : Agree c₁ c₂) (n : Int) : AgreePair (c₁, n) (c₂, n) := ⟨h, rfl⟩

theorem Agree.leftArrow (h : Agree c₁ c₂) (hs : OnScreen (c₁.term c₁.visibleTerminal)) :
    AgreePair c₁.leftArrow c₂.leftArrow := by
  have hrow := h.rowEnd (Nat.lt_of_le_of_lt (Nat.sub_le _ 1) hs.1)
  unfold Console.leftArrow
  dsimp only
  rw [h.visible, h.term, hrow]
  split
  · exact h.pair 0
  · split
    · exact h.pair 0
    · split
      · exact (h.modify _ _).pair 1
      · split
        · exact h.pair 0
        · exact (h.modify _ _).pair 1

theorem Agree.rightArrow (h : Agree c₁ c₂) : AgreePair c₁.rightArrow c₂.rightArrow := by
  unfold Console.rightArrow
  dsimp only
  rw [h.visible, h.term]
  split
  · exact h.pair 0
  · split
    · exact h.pair 0
    · split
      · exact (h.modify _ _).pair 1
      · split
        · rename_i hy
          rw [h.rowEnd (by unfold NUM_ROWS at *; omega)]
          split
          · exact h.pair 0
          · exact (h.modify _ _).pair 1
        · exact h.pair 0

/-! ## Up and down arrow -/

theorem Agree.toLineEnd (h : Agree c₁ c₂) (n : Nat) :
    Agree (Console.toLineEnd n c₁) (Console.toLineEnd n c₂) := by
  induction n generalizing c₁ c₂ with
  | zero => exact h
  | succ n ih =>
      refine ih ?_
      rw [h.visible]
      exact h.rightArrow.1.modify _ _

theorem Agree.erase (h : Agree c₁ c₂) (hc : Ready c₁) (n : Nat) :
    Agree (Console.backspace^[n] c₁) (Console.backspace^[n] c₂) := by
  induction n generalizing c₁ c₂ with
  | zero => exact h
  | succ n ih => exact ih (h.backspace hc.onScreen) ((local_backspace hc).ready hc)

theorem Agree.eraseLine (h : Agree c₁ c₂) (hc : Ready c₁) (n : Nat) :
    Agree (Console.eraseLine n c₁) (Console.eraseLine n c₂) := by
  induction n generalizing c₁ c₂ with
  | zero =>
      unfold Console.eraseLine
      rw [h.visible]
      exact h.modify _ _
  | succ n ih =>
      have hcur : Local c₁ (c₁.modify c₁.visibleTerminal fun s =>
          { s with keyboardCursorIdx := s.keyboardCursorIdx - 1 }) :=
        local_modify hc rfl fun _ hs => hs
      unfold Console.eraseLine
      rw [h.visible]
      refine ih ((h.modify _ _).backspace (hcur.ready hc).onScreen) ?_
      exact (local_backspace (hcur.ready hc)).ready (hcur.ready hc)

/-- Both results are undefined, or both are defined and agree. -/
abbrev AgreeOpt := Option.Rel Agree

theorem AgreeOpt.bind {r₁ r₂ : Option Console} {f₁ f₂ : Console → Option Console}
    (h : AgreeOpt r₁ r₂) (hf : ∀ a b, r₁ = some a → r₂ = some b → Agree a b →
      AgreeOpt (f₁ a) (f₂ b)) : AgreeOpt (r₁.bind f₁) (r₂.bind f₂) := by
  cases h with
  | some hab => exact hf _ _ rfl rfl hab
  | none => exact .none

theorem AgreeOpt.map {r₁ r₂ : Option Console} {f₁ f₂ : Console → Console}
    (h : AgreeOpt r₁ r₂) (hf : ∀ a b, r₁ = some a → r₂ = some b → Agree a b →
      Agree (f₁ a) (f₂ b)) : AgreeOpt (r₁.map f₁) (r₂.map f₂) := by
  cases h with
  | some hab => exact .some (hf _ _ rfl rfl hab)
  | none => exact .none

theorem Agree.ready₂ (h : Agree c₁ c₂) (hc : Ready c₁) : Ready c₂ :=
  ⟨h.toVisible₂, by rw [h.visible, h.term]; exact hc.onScreen⟩

/-- The up arrow once the cursor is at the end of the line. -/
def recallLine (c : Console) (v : Terminal) : Option Console :=
  let s := c.term v
  if fits s.keyboardBufferEndIdx ∧ fits s.lastBufIndex then
    let kb := overlay (overlay s.keyboardBuffer 0 s.keyboardBufferEndIdx.toNat fun _ => 0)
      0 s.lastBufIndex.toNat s.lastBuf
    let c₂ := c.modify v fun s => { s with keyboardBuffer := kb }
    let c₃ := Console.backspace^[s.keyboardCursorIdx.toNat] c₂
    some ((c₃.sysWriteTerminal kb s.lastBufIndex).1.modify v fun s =>
      { s with keyboardCursorIdx := s.lastBufIndex, keyboardBufferEndIdx := s.lastBufIndex })
  else none

theorem upArrow_of_recalls {c : Console} {v : Terminal} {n : Nat} (h : c.Recalls)
    (hv : c.visibleTerminal = v) (hn : (c.term v).distanceFromRight.toNat = n) :
    c.upArrow = recallLine (Console.toLineEnd n { c with notInPrevCmdFlag := false }) v := by
  subst hv hn
  exact if_pos h

theorem upArrow_of_not_recalls {c : Console} (h : ¬ c.Recalls) : c.upArrow = some c := if_neg h

theorem Agree.recallLine (h : Agree c₁ c₂) (hc : Ready c₁)
    (hmany : c₂.tooManyShellsFlag = c₁.tooManyShellsFlag) :
    AgreeOpt (Console.recallLine c₁ c₁.visibleTerminal)
      (Console.recallLine c₂ c₁.visibleTerminal) := by
  unfold Console.recallLine
  dsimp only
  rw [h.term]
  generalize c₁.term c₁.visibleTerminal = s
  split
  · generalize overlay _ 0 _ _ = kb
    have hkb₁ : Local c₁ (c₁.modify c₁.visibleTerminal fun s => { s with keyboardBuffer := kb }) :=
      local_modify hc rfl fun _ hs => hs
    have hkb₂ : Local c₂ (c₂.modify c₁.visibleTerminal fun s => { s with keyboardBuffer := kb }) :=
      local_modify (h.ready₂ hc) h.visible fun _ hs => hs
    have herase := (h.modify c₁.visibleTerminal fun s => { s with keyboardBuffer := kb }).erase
      (hkb₁.ready hc) s.keyboardCursorIdx.toNat
    refine .some ((herase.sysWriteTerminal ?_ _ _).modify _ _)
    rw [(hkb₁.erase hc _).tooManyShellsFlag, (hkb₂.erase (h.ready₂ hc) _).tooManyShellsFlag, hmany]
  · exact .none

theorem Agree.recalls (h : Agree c₁ c₂)
    (hprev : (c₁.term c₁.visibleTerminal).shellFlag = true →
      (c₁.term c₁.visibleTerminal).lastBuf 0 ≠ 0 →
        c₂.notInPrevCmdFlag = c₁.notInPrevCmdFlag) : c₂.Recalls ↔ c₁.Recalls := by
  unfold Recalls
  dsimp only
  rw [h.visible, h.term]
  refine and_congr_right fun hshell => and_congr_right fun hlast => ?_
  rw [hprev hshell hlast]

theorem Agree.upArrow (h : Agree c₁ c₂) (hc : Ready c₁)
    (hprev : (c₁.term c₁.visibleTerminal).shellFlag = true →
      (c₁.term c₁.visibleTerminal).lastBuf 0 ≠ 0 → c₂.notInPrevCmdFlag = c₁.notInPrevCmdFlag)
    (hmany : c₁.Recalls → c₂.tooManyShellsFlag = c₁.tooManyShellsFlag) :
    AgreeOpt c₁.upArrow c₂.upArrow := by
  by_cases hrecall : c₁.Recalls
  · have hrecall₂ := (h.recalls hprev).mpr hrecall
    generalize hn : (c₁.term c₁.visibleTerminal).distanceFromRight.toNat = n
    rw [upArrow_of_recalls hrecall rfl hn, upArrow_of_recalls hrecall₂ h.visible (h.term ▸ hn)]
    have hend := (h.setFlag false false).toLineEnd n
    have hloc₁ := (arrow_lineEnd hc false n).1
    have hloc₂ := (arrow_lineEnd (h.ready₂ hc) false n).1
    have hbody := hend.recallLine (hloc₁.ready hc) (by
      rw [hloc₁.tooManyShellsFlag, hloc₂.tooManyShellsFlag, hmany hrecall])
    rwa [hloc₁.visible] at hbody
  · rw [upArrow_of_not_recalls hrecall,
      upArrow_of_not_recalls fun hr => hrecall ((h.recalls hprev).mp hr)]
    exact .some h

/-- The down arrow once the cursor is at the end of the line. -/
def putBackLine (c : Console) (v : Terminal) : Option Console :=
  let s := c.term v
  if fits s.currentBufIndex then
    let kb := freshCopy s.currentBuf s.currentBufIndex
    let c₂ := c.modify v fun s =>
      { s with keyboardBuffer := kb, keyboardCursorIdx := s.keyboardCursorIdx + 1 }
    let c₃ := Console.eraseLine s.keyboardCursorIdx.toNat c₂
    some ((c₃.sysWriteTerminal kb s.currentBufIndex).1.modify v fun s =>
      { s with
        keyboardCursorIdx := s.currentBufIndex
        keyboardBufferEndIdx := s.currentBufIndex })
  else none

theorem downArrow_eq {c : Console} {v : Terminal} {n : Nat} (hv : c.visibleTerminal = v)
    (hn : (c.term v).distanceFromRight.toNat = n) :
    c.downArrow = if (c.term v).shellFlag = true then
      putBackLine (Console.toLineEnd n { c with notInPrevCmdFlag := true }) v else some c := by
  subst hv hn
  rfl

theorem Agree.putBackLine (h : Agree c₁ c₂) (hc : Ready c₁)
    (hmany : c₂.tooManyShellsFlag = c₁.tooManyShellsFlag) :
    AgreeOpt (Console.putBackLine c₁ c₁.visibleTerminal)
      (Console.putBackLine c₂ c₁.visibleTerminal) := by
  unfold Console.putBackLine
  dsimp only
  rw [h.term]
  generalize c₁.term c₁.visibleTerminal = s
  split
  · generalize freshCopy _ _ = kb
    have hkb₁ : Local c₁ (c₁.modify c₁.visibleTerminal fun s =>
        { s with keyboardBuffer := kb, keyboardCursorIdx := s.keyboardCursorIdx + 1 }) :=
      local_modify hc rfl fun _ hs => hs
    have hkb₂ : Local c₂ (c₂.modify c₁.visibleTerminal fun s =>
        { s with keyboardBuffer := kb, keyboardCursorIdx := s.keyboardCursorIdx + 1 }) :=
      local_modify (h.ready₂ hc) h.visible fun _ hs => hs
    have herase := (h.modify c₁.visibleTerminal fun s =>
      { s with keyboardBuffer := kb, keyboardCursorIdx := s.keyboardCursorIdx + 1 }).eraseLine
      (hkb₁.ready hc) s.keyboardCursorIdx.toNat
    refine .some ((herase.sysWriteTerminal ?_ _ _).modify _ _)
    rw [(hkb₁.eraseLine hc _).tooManyShellsFlag,
      (hkb₂.eraseLine (h.ready₂ hc) _).tooManyShellsFlag, hmany]
  · exact .none

theorem Agree.downArrow (h : Agree c₁ c₂) (hc : Ready c₁)
    (hmany : (c₁.term c₁.visibleTerminal).shellFlag = true →
      c₂.tooManyShellsFlag = c₁.tooManyShellsFlag) : AgreeOpt c₁.downArrow c₂.downArrow := by
  generalize hn : (c₁.term c₁.visibleTerminal).distanceFromRight.toNat = n
  rw [downArrow_eq rfl hn, downArrow_eq h.visible (h.term ▸ hn), h.term]
  split
  · rename_i hshell
    have hend := (h.setFlag true true).toLineEnd n
    have hloc₁ := (arrow_lineEnd hc true n).1
    have hloc₂ := (arrow_lineEnd (h.ready₂ hc) true n).1
    have hbody := hend.putBackLine (hloc₁.ready hc) (by
      rw [hloc₁.tooManyShellsFlag, hloc₂.tooManyShellsFlag, hmany hshell])
    rwa [hloc₁.visible] at hbody
  · exact .some h

/-! ## The other keys -/

theorem Agree.storeKbd (h : Agree c₁ c₂) (i : Int) (b : UInt8) :
    AgreeOpt (c₁.storeKbd c₁.visibleTerminal i b) (c₂.storeKbd c₁.visibleTerminal i b) := by
  unfold Console.storeKbd
  dsimp only
  split
  · exact .some (h.modify _ _)
  · exact .none

theorem Agree.backspaceLine (h : Agree c₁ c₂) : AgreeOpt c₁.backspaceLine c₂.backspaceLine := by
  unfold Console.backspaceLine
  dsimp only
  rw [h.visible, h.term]
  split
  · exact (h.storeKbd _ _).map fun _ _ _ _ hab => hab.modify _ _
  · split
    · exact (h.storeKbd _ _).map fun _ _ _ _ hab => hab.modify _ _
    · exact .some h

theorem Agree.backspaceKey (h : Agree c₁ c₂) (hc : Ready c₁) :
    AgreeOpt (c₁.backspace.backspaceLine.map fun c => c.modify c.visibleTerminal backspaceAhead)
      (c₂.backspace.backspaceLine.map fun c => c.modify c.visibleTerminal backspaceAhead) := by
  refine (h.backspace hc.onScreen).backspaceLine.map fun a b _ _ hab => ?_
  rw [hab.visible]
  exact hab.modify _ _

theorem Agree.clear (h : Agree c₁ c₂) : Agree c₁.clear c₂.clear where
  visible := h.visible
  term := by
    show c₂.clear.term c₁.visibleTerminal = c₁.clear.term c₁.visibleTerminal
    rw [clear_term, clear_term, h.visible, h.term]
  screen a ha := by
    unfold Console.clear
    simp only [modify_video, h.screen a ha]
  behindScancodes := h.behindScancodes
  toVisible₁ := h.toVisible₁
  toVisible₂ := h.toVisible₂

theorem Agree.insertChar (h : Agree c₁ c₂) (pressed : Nat) (ch : UInt8) :
    AgreeOpt (c₁.insertChar pressed ch) (c₂.insertChar pressed ch) := by
  unfold Console.insertChar
  dsimp only
  rw [h.visible, h.term]
  split
  · exact (h.storeKbd _ _).map fun _ _ _ _ hab => hab.modify _ _
  · exact .some h

theorem Agree.endLine (h : Agree c₁ c₂) (ch : UInt8) :
    AgreeOpt (c₁.endLine ch) (c₂.endLine ch) := by
  unfold Console.endLine
  dsimp only
  rw [h.visible, h.term]
  split
  · exact (h.storeKbd _ _).map fun _ _ _ _ hab => hab.modify _ _
  · exact .some h

/-- The end of the handler. -/
theorem AgreeOpt.leave {r₁ r₂ : Option Console} (h : AgreeOpt r₁ r₂) :
    Option.Rel SameVisible (r₁.map Console.leave) (r₂.map Console.leave) := by
  cases h with
  | some hab => exact .some ⟨hab.visible, hab.term, hab.screen, hab.behindScancodes⟩
  | none => exact .none

theorem Agree.leave (h : Agree c₁ c₂) :
    Option.Rel SameVisible (some c₁.leave) (some c₂.leave) := AgreeOpt.leave (.some h)

theorem Agree.ctrlL (h : Agree c₁ c₂) : Option.Rel SameVisible c₁.ctrlL c₂.ctrlL := by
  unfold Console.ctrlL
  dsimp only
  rw [h.visible, h.term]
  split
  · exact ((h.modify _ _).clear.modify _ _).leave
  · exact .none

theorem Agree.saveCurrent (h : Agree c₁ c₂)
    (hflag : c₂.notInPrevCmdFlag = c₁.notInPrevCmdFlag) :
    AgreeOpt c₁.saveCurrent c₂.saveCurrent := by
  unfold Console.saveCurrent
  dsimp only
  rw [h.visible, h.term, hflag]
  split
  · split
    · exact .some (h.modify _ _)
    · exact .none
  · exact .some h

theorem Agree.finish (h : Agree c₁ c₂) (v : Terminal) (ch : UInt8) :
    Agree (c₁.finish v ch) (c₂.finish v ch) := by
  have hecho : Agree (c₁.echo ch) (c₂.echo ch) := by
    unfold Console.echo
    rw [h.visible, h.term]
    split
    · exact h.putc ch
    · exact h
  exact (hecho.modify _ _).wraparound.scrollDown

theorem enterKey_enter {c : Console} {v : Terminal} (hv : c.visibleTerminal = v) (ch : UInt8) :
    c.enterKey ENTER_PRESSED ch = (Console.endLine { c with notInPrevCmdFlag := true } ch).bind
      fun c => (saveCommand (c.term v)).map fun s => c.modify v fun _ => wakeReader s := by
  subst hv
  unfold Console.enterKey
  dsimp only
  rw [if_pos rfl]

theorem endLine_notInPrevCmdFlag {c c' : Console} {ch : UInt8} (h : c.endLine ch = some c') :
    c'.notInPrevCmdFlag = c.notInPrevCmdFlag := by
  unfold Console.endLine at h
  dsimp only at h
  split at h
  · obtain ⟨c'', hc'', rfl⟩ := Option.map_eq_some_iff.mp h
    exact (modify_notInPrevCmdFlag ..).trans (storeKbd_notInPrevCmdFlag hc'')
  · cases h
    rfl

theorem endLine_visible {c c' : Console} {ch : UInt8} (h : c.endLine ch = some c') :
    c'.visibleTerminal = c.visibleTerminal := by
  unfold Console.endLine at h
  dsimp only at h
  split at h
  · obtain ⟨c'', hc'', rfl⟩ := Option.map_eq_some_iff.mp h
    obtain ⟨t, j, rfl⟩ := storeKbd_eq_some hc''
    rfl
  · cases h
    rfl

/-- Enter sets the shared flag. -/
theorem enterKey_notInPrevCmdFlag {c c' : Console} {ch : UInt8}
    (h : c.enterKey ENTER_PRESSED ch = some c') : c'.notInPrevCmdFlag = true := by
  rw [enterKey_enter rfl] at h
  obtain ⟨a, ha, h⟩ := Option.bind_eq_some_iff.mp h
  obtain ⟨s, _, rfl⟩ := Option.map_eq_some_iff.mp h
  exact (modify_notInPrevCmdFlag ..).trans (endLine_notInPrevCmdFlag ha)

theorem Agree.enterKey (h : Agree c₁ c₂) (ch : UInt8) :
    AgreeOpt (c₁.enterKey ENTER_PRESSED ch) (c₂.enterKey ENTER_PRESSED ch) := by
  rw [enterKey_enter rfl, enterKey_enter h.visible]
  refine ((h.setFlag true true).endLine ch).bind fun a b ha _ hab => ?_
  have hv := endLine_visible ha
  dsimp only at hv
  have hterm := hab.term
  rw [hv] at hterm
  rw [hterm]
  cases saveCommand (a.term c₁.visibleTerminal) with
  | none => exact .none
  | some s => exact .some (hab.modify _ _)

theorem Agree.outputChar (h : Agree c₁ c₂) (pressed : Nat) :
    c₂.outputChar pressed = c₁.outputChar pressed := by
  unfold Console.outputChar
  rw [h.visible, h.term, h.behindScancodes]

/-- A key that produces a character; all but Enter read the shared flag. -/
theorem Agree.charKey (h : Agree c₁ c₂) (pressed : Nat)
    (hflag : pressed ≠ ENTER_PRESSED → c₂.notInPrevCmdFlag = c₁.notInPrevCmdFlag) :
    Option.Rel SameVisible (c₁.charKey pressed) (c₂.charKey pressed) := by
  rw [charKey_eq, charKey_eq, h.outputChar, h.visible]
  generalize c₁.outputChar pressed = ch
  refine AgreeOpt.leave (((h.modify _ echoOff).insertChar pressed ch).bind fun a b ha hb hab => ?_)
  by_cases hp : pressed = ENTER_PRESSED
  · subst hp
    refine (hab.enterKey ch).bind fun a' b' ha' hb' hab' => ?_
    have hsave := hab'.saveCurrent
      ((enterKey_notInPrevCmdFlag hb').trans (enterKey_notInPrevCmdFlag ha').symm)
    exact hsave.map fun _ _ _ _ hxy => hxy.finish _ ch
  · rw [enterKey_char a hp, enterKey_char b hp]
    have hsave := hab.saveCurrent (by
      rw [(insertChar_cursor hp hb).2, (insertChar_cursor hp ha).2]
      exact hflag hp)
    exact hsave.map fun _ _ _ _ hxy => hxy.finish _ ch

/-! ## One key -/

/-- The key reads `not_in_prev_cmd_flag`: the up arrow with a command to recall, or a
character. -/
def ReadsPrevFlag (c : Console) (pressed : Nat) : Prop :=
  let s := c.term c.visibleTerminal
  if pressed = UP_ARROW_PRESSED then s.shellFlag = true ∧ s.lastBuf 0 ≠ 0
  else pressed ≤ START_IGNORE ∧ pressed ≠ ENTER_PRESSED ∧ pressed ≠ BACKSPACE ∧
    pressed ∉ modifierCodes ∧ ¬ (s.controlOn = true ∧ pressed = L_SCANCODE)

/-- The key redraws the line, for which `_sys_write_terminal` reads `too_many_shells_flag`. -/
def ReadsShellsFlag (c : Console) (pressed : Nat) : Prop :=
  (pressed = UP_ARROW_PRESSED ∧ c.Recalls) ∨
    (pressed = DOWN_ARROW_PRESSED ∧ (c.term c.visibleTerminal).shellFlag = true)

/-- The two consoles agree on the shared flags, as far as the key reads them. -/
structure FlagsAgree (c₁ c₂ : Console) (pressed : Nat) : Prop where
  prev : ReadsPrevFlag c₁ pressed → c₂.notInPrevCmdFlag = c₁.notInPrevCmdFlag
  shells : ReadsShellsFlag c₁ pressed → c₂.tooManyShellsFlag = c₁.tooManyShellsFlag

theorem Agree.lineKey (h : Agree c₁ c₂) {pressed : Nat} (hup : pressed ≠ UP_ARROW_PRESSED)
    (hback : pressed ≠ BACKSPACE) (hmod : pressed ∉ modifierCodes)
    (hflags : FlagsAgree c₁ c₂ pressed) :
    Option.Rel SameVisible (c₁.lineKey pressed) (c₂.lineKey pressed) := by
  unfold Console.lineKey
  rw [h.visible, h.term]
  split
  · exact h.ctrlL
  · rename_i hctrl
    split
    · exact h.leave
    · rename_i hignored
      refine h.charKey pressed fun henter => hflags.prev ?_
      unfold ReadsPrevFlag
      dsimp only
      rw [if_neg hup]
      refine ⟨?_, henter, hback, hmod, hctrl⟩
      omega

theorem Agree.modifyAll (h : Agree c₁ c₂) (f : TermState → TermState) :
    Option.Rel SameVisible (some (c₁.modifyAll f).leave) (some (c₂.modifyAll f).leave) :=
  .some ⟨h.visible, congrArg f h.term, h.screen, h.behindScancodes⟩

/-- The modifier keys change the same flags in both. -/
theorem Agree.modifierKey (h : Agree c₁ c₂) (pressed : Nat) :
    Option.Rel SameVisible (c₁.modifierKey pressed) (c₂.modifierKey pressed) := by
  unfold Console.modifierKey
  repeat' (split; exact h.modifyAll _)
  exact .none

theorem Agree.leftArrowKey (h : Agree c₁ c₂) (hc : Ready c₁) :
    Option.Rel SameVisible (some c₁.leftArrowKey) (some c₂.leftArrowKey) := by
  obtain ⟨hleft, hret⟩ := h.leftArrow hc.onScreen
  unfold Console.leftArrowKey
  dsimp only
  rw [h.visible, h.term, hret]
  split
  · exact (hleft.modify _ _).leave
  · exact h.leave

theorem Agree.rightArrowKey (h : Agree c₁ c₂) :
    Option.Rel SameVisible (some c₁.rightArrowKey) (some c₂.rightArrowKey) := by
  obtain ⟨hright, hret⟩ := h.rightArrow
  unfold Console.rightArrowKey
  rw [h.visible, hret]
  exact (hright.modify _ _).leave

/-- The key does not switch to another terminal. -/
def StaysOn (c : Console) (pressed : Nat) : Prop :=
  (c.term c.visibleTerminal).altOn = true → ∀ t, switchKey pressed = some t →
    t = c.visibleTerminal

theorem Agree.afterArrows (h : Agree c₁ c₂) (hc : Ready c₁) {pressed : Nat}
    (hstay : StaysOn c₁ pressed) (hup : pressed ≠ UP_ARROW_PRESSED)
    (hflags : FlagsAgree c₁ c₂ pressed) :
    Option.Rel SameVisible (c₁.afterArrows pressed) (c₂.afterArrows pressed) := by
  unfold Console.afterArrows
  dsimp only
  rw [h.visible, h.term]
  split
  · rw [backspaceKey_eq, backspaceKey_eq]
    exact (h.backspaceKey hc).leave
  · rename_i hback
    split
    · exact h.leftArrowKey hc
    · split
      · exact h.rightArrowKey
      · by_cases hmod : pressed ∈ modifierCodes
        · have hrel := h.modifierKey pressed
          have h₁ := modifierKey_ne_none c₁ hmod
          generalize c₁.modifierKey pressed = r₁ at hrel h₁ ⊢
          generalize c₂.modifierKey pressed = r₂ at hrel ⊢
          cases hrel with
          | some hab => exact .some hab
          | none => exact absurd rfl h₁
        · rw [modifierKey_eq_none c₁ hmod, modifierKey_eq_none c₂ hmod]
          dsimp only
          split
          · rename_i t ht
            have hvt : c₁.visibleTerminal = t := by
              split at ht
              · rename_i halt
                exact (hstay halt t ht).symm
              · cases ht
            rw [if_pos hvt, if_pos hvt]
            exact h.leave
          · exact h.lineKey hup hback hmod hflags

/-- **One key on two consoles.** -/
theorem SameVisible.keyboardInterrupt (h : SameVisible c₁ c₂)
    (hs : OnScreen (c₁.term c₁.visibleTerminal)) {scancode : UInt8}
    (hstay : StaysOn c₁ scancode.toNat) (hflags : FlagsAgree c₁ c₂ scancode.toNat) :
    Option.Rel SameVisible (c₁.keyboardInterrupt scancode) (c₂.keyboardInterrupt scancode) := by
  have hagree : Agree { c₁ with putcToVisibleFlag := true } { c₂ with putcToVisibleFlag := true } :=
    ⟨⟨h.visible, h.term, h.screen, h.behindScancodes⟩, rfl, rfl⟩
  have hc : Ready { c₁ with putcToVisibleFlag := true } := ⟨rfl, hs⟩
  rw [keyboardInterrupt_eq, keyboardInterrupt_eq]
  generalize scancode.toNat = pressed at hstay hflags
  split
  · rename_i hup
    refine (hagree.upArrow hc (fun hshell hlast => hflags.prev ?_) fun hr => ?_).leave
    · unfold ReadsPrevFlag
      dsimp only
      rw [if_pos hup]
      exact ⟨hshell, hlast⟩
    · exact hflags.shells (Or.inl ⟨hup, hr⟩)
  · rename_i hup
    split
    · rename_i hdown
      exact (hagree.downArrow hc fun hshell => hflags.shells (Or.inr ⟨hdown, hshell⟩)).leave
    · exact hagree.afterArrows hc hstay hup ⟨hflags.prev, hflags.shells⟩

end

end Console

end Ext2Kernel
