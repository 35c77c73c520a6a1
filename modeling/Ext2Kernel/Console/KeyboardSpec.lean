import Ext2Kernel.Console.Keyboard
import Ext2Kernel.Console.ScreenSpec

set_option autoImplicit false

/-! # What the keyboard handler changes

While the handler runs, output goes to the visible terminal (`Ready`). Every block of the
handler changes the variables of that terminal, its screen and the flag of the up arrow, and
nothing else (`Local`), with two exceptions: a store into `keyboard_buffer` may leave the row
of the visible terminal, and `clear` clears row 0. What these still keep is `Steady`.
-/

namespace Ext2Kernel

open ByteMem

namespace Console

/-! ## Frames -/

/-- The handler runs: output goes to the visible terminal, whose cursor is on the screen. -/
structure Ready (c : Console) : Prop where
  toVisible : c.putcToVisibleFlag = true
  onScreen : OnScreen (c.term c.visibleTerminal)

theorem Ready.outTerm {c : Console} (h : Ready c) : c.outTerm = c.visibleTerminal :=
  if_pos h.toVisible

/-- What no key but a terminal switch or a modifier changes: of the other terminals only
`keyboard_buffer` may change. -/
structure Steady (c c' : Console) : Prop where
  visible : c'.visibleTerminal = c.visibleTerminal
  process : c'.processTerminal = c.processTerminal
  toVisible : c'.putcToVisibleFlag = c.putcToVisibleFlag
  tooManyShellsFlag : c'.tooManyShellsFlag = c.tooManyShellsFlag
  behindScancodes : c'.behindScancodes = c.behindScancodes
  other : ∀ t, t ≠ c.visibleTerminal →
    ∃ kb, c'.term t = { c.term t with keyboardBuffer := kb }
  hidden : ∀ a, PAGE_4KB ≤ a → c'.video a = c.video a
  onScreen : OnScreen (c'.term c.visibleTerminal)

/-- The variables of the other terminals do not change at all. -/
structure Local (c c' : Console) : Prop extends Steady c c' where
  same : ∀ t, t ≠ c.visibleTerminal → c'.term t = c.term t

theorem Steady.ready {c c' : Console} (h : Steady c c') (hc : Ready c) : Ready c' :=
  ⟨h.toVisible.trans hc.toVisible, by rw [h.visible]; exact h.onScreen⟩

theorem Steady.trans {c c' c'' : Console} (h : Steady c c') (h' : Steady c' c'') :
    Steady c c'' where
  visible := h'.visible.trans h.visible
  process := h'.process.trans h.process
  toVisible := h'.toVisible.trans h.toVisible
  tooManyShellsFlag := h'.tooManyShellsFlag.trans h.tooManyShellsFlag
  behindScancodes := h'.behindScancodes.trans h.behindScancodes
  other t ht := by
    obtain ⟨kb, hkb⟩ := h.other t ht
    obtain ⟨kb', hkb'⟩ := h'.other t (by rw [h.visible]; exact ht)
    exact ⟨kb', by rw [hkb', hkb]⟩
  hidden a ha := (h'.hidden a ha).trans (h.hidden a ha)
  onScreen := by
    rw [← h.visible]
    exact h'.onScreen

theorem Local.trans {c c' c'' : Console} (h : Local c c') (h' : Local c' c'') : Local c c'' where
  toSteady := h.toSteady.trans h'.toSteady
  same t ht := (h'.same t (by rw [h.visible]; exact ht)).trans (h.same t ht)

theorem Local.refl {c : Console} (hc : Ready c) : Local c c :=
  ⟨⟨rfl, rfl, rfl, rfl, rfl, fun t _ => ⟨(c.term t).keyboardBuffer, rfl⟩, fun _ _ => rfl,
    hc.onScreen⟩, fun _ _ => rfl⟩

/-- A screen routine that stays on the page at `VIDEO`. -/
theorem Drawn.local {c c' : Console} (h : Drawn c.visibleTerminal c c')
    (hidden : ∀ a, PAGE_4KB ≤ a → c'.video a = c.video a)
    (hs : OnScreen (c'.term c.visibleTerminal)) : Local c c' where
  visible := h.visible
  process := h.process
  toVisible := h.putcToVisibleFlag
  tooManyShellsFlag := h.tooManyShellsFlag
  behindScancodes := h.behindScancodes
  other t ht := ⟨(c.term t).keyboardBuffer, by rw [h.other t ht]⟩
  hidden := hidden
  onScreen := hs
  same := h.other

/-- A change of the variables of the visible terminal. -/
theorem local_modify {c : Console} {v : Terminal} (hc : Ready c) (hv : c.visibleTerminal = v)
    {f : TermState → TermState} (hf : ∀ s, OnScreen s → OnScreen (f s)) :
    Local c (c.modify v f) := by
  subst hv
  exact {
    visible := rfl
    process := rfl
    toVisible := rfl
    tooManyShellsFlag := rfl
    behindScancodes := rfl
    other := fun t ht => ⟨(c.term t).keyboardBuffer, by rw [modify_term_ne _ _ _ ht]⟩
    hidden := fun _ _ => rfl
    onScreen := by
      rw [modify_term_self]
      exact hf _ hc.onScreen
    same := fun _ ht => modify_term_ne _ _ _ ht }

theorem Local.modify {c c' : Console} (h : Local c c') (hc : Ready c)
    {f : TermState → TermState} (hf : ∀ s, OnScreen s → OnScreen (f s)) :
    Local c (c'.modify c.visibleTerminal f) := h.trans (local_modify (h.ready hc) h.visible hf)

theorem local_notInPrevCmdFlag {c : Console} (hc : Ready c) (b : Bool) :
    Local c { c with notInPrevCmdFlag := b } :=
  ⟨⟨rfl, rfl, rfl, rfl, rfl, fun t _ => ⟨(c.term t).keyboardBuffer, rfl⟩, fun _ _ => rfl,
    hc.onScreen⟩, fun _ _ => rfl⟩

/-! ## Screen routines -/

/-- A cell of the screen lies on the page at `VIDEO`. -/
theorem putCell_hidden (c : Console) {i : Nat} (ch : UInt8) (hi : i ≤ NUM_ROWS * NUM_COLS)
    {a : Nat} (ha : PAGE_4KB ≤ a) : (c.putCell 0 i ch).video a = c.video a := by
  unfold NUM_ROWS NUM_COLS at hi
  unfold PAGE_4KB at ha
  unfold putCell
  dsimp only
  rw [Function.update_of_ne (by omega), Function.update_of_ne (by omega)]

theorem scrollVideo_hidden (video : Mem) {a : Nat} (ha : PAGE_4KB ≤ a) :
    scrollVideo video 0 a = video a := by
  unfold scrollVideo
  rw [if_neg]
  unfold PAGE_4KB at ha
  unfold NUM_ROWS NUM_COLS
  omega

theorem screenBase_visible {c : Console} : c.screenBase c.visibleTerminal = 0 := if_pos rfl

theorem putcStore_hidden {c : Console} (hc : Ready c) (ch : UInt8) {a : Nat}
    (ha : PAGE_4KB ≤ a) : (c.putcStore ch).video a = c.video a := by
  obtain ⟨hy, hx⟩ := hc.onScreen
  unfold putcStore
  dsimp only
  rw [hc.outTerm, screenBase_visible]
  split
  · rfl
  · rw [modify_video]
    exact putCell_hidden c ch (by unfold NUM_ROWS NUM_COLS at *; omega) ha

theorem scrollDown_hidden {c : Console} (ho : c.outTerm = c.visibleTerminal) {a : Nat}
    (ha : PAGE_4KB ≤ a) : c.scrollDown.video a = c.video a := by
  unfold scrollDown
  dsimp only
  rw [ho, screenBase_visible]
  split
  · exact scrollVideo_hidden c.video ha
  · rfl

theorem wrapAtEdge_video (c : Console) : c.wrapAtEdge.video = c.video := by
  unfold wrapAtEdge
  split <;> rfl

theorem local_putc {c : Console} (hc : Ready c) (ch : UInt8) : Local c (c.putc ch) := by
  have hdrawn := drawn_putc c ch
  have hs := onScreen_putc c ch
  rw [hc.outTerm] at hdrawn hs
  refine hdrawn.local (fun a ha => ?_) hs
  have h₁ := drawn_putcStore c ch
  have h₂ := drawn_wrapAtEdge (c.putcStore ch)
  rw [hc.outTerm] at h₁
  have ho : (c.putcStore ch).wrapAtEdge.outTerm = (c.putcStore ch).wrapAtEdge.visibleTerminal := by
    rw [h₂.outTerm, h₁.outTerm, h₂.visible, h₁.visible]
    exact hc.outTerm
  calc (c.putc ch).video a = (c.putcStore ch).wrapAtEdge.video a := scrollDown_hidden ho ha
    _ = (c.putcStore ch).video a := by rw [wrapAtEdge_video]
    _ = c.video a := putcStore_hidden hc ch ha

theorem local_putcs {c : Console} (hc : Ready c) (l : List UInt8) : Local c (c.putcs l) := by
  induction l generalizing c with
  | nil => exact .refl hc
  | cons ch t ih =>
      have h := local_putc hc ch
      exact h.trans (ih (h.ready hc))

theorem local_sysWriteTerminal {c : Console} (hc : Ready c) (buf : Mem) (nbytes : Int) :
    Local c (c.sysWriteTerminal buf nbytes).1 := by
  unfold sysWriteTerminal
  split
  · exact .refl hc
  · split
    · exact .refl hc
    · split <;> dsimp only <;> exact local_putcs hc _

theorem backspace_hidden {c : Console} (hc : Ready c) {a : Nat} (ha : PAGE_4KB ≤ a) :
    c.backspace.video a = c.video a := by
  obtain ⟨hy, hx⟩ := hc.onScreen
  unfold backspace
  dsimp only
  split
  · rfl
  · split
    · rfl
    · split
      · rw [modify_video]
        exact putCell_hidden c 32 (by unfold NUM_ROWS NUM_COLS at *; omega) ha
      · split
        · rfl
        · rw [modify_video]
          exact putCell_hidden c 32 (by unfold NUM_ROWS NUM_COLS at *; omega) ha

theorem local_backspace {c : Console} (hc : Ready c) : Local c c.backspace :=
  (drawn_backspace c).local (fun _ ha => backspace_hidden hc ha) (onScreen_backspace hc.onScreen)

theorem local_iterate_backspace {c : Console} (hc : Ready c) (n : Nat) :
    Local c (backspace^[n] c) := by
  induction n generalizing c with
  | zero => exact .refl hc
  | succ n ih =>
      have h := local_backspace hc
      exact h.trans (ih (h.ready hc))

theorem leftArrow_video (c : Console) : c.leftArrow.1.video = c.video := by
  unfold leftArrow
  dsimp only
  split
  · rfl
  · split
    · rfl
    · split
      · rfl
      · split <;> rfl

theorem rightArrow_video (c : Console) : c.rightArrow.1.video = c.video := by
  unfold rightArrow
  dsimp only
  split
  · rfl
  · split
    · rfl
    · split
      · rfl
      · split
        · split <;> rfl
        · rfl

theorem local_leftArrow {c : Console} (hc : Ready c) : Local c c.leftArrow.1 :=
  (drawn_leftArrow c).local (fun _ _ => by rw [leftArrow_video]) (onScreen_leftArrow hc.onScreen)

theorem local_rightArrow {c : Console} (hc : Ready c) : Local c c.rightArrow.1 :=
  (drawn_rightArrow c).local (fun _ _ => by rw [rightArrow_video])
    (onScreen_rightArrow hc.onScreen)

/-- The calls of `wraparound` and `scroll_down` at the end of the handler. -/
theorem local_wrap_scroll {c : Console} (hc : Ready c) : Local c c.wraparound.scrollDown := by
  have h₁ := drawn_wraparound c
  have h₂ := drawn_scrollDown c.wraparound
  have ho : c.wraparound.outTerm = c.visibleTerminal := h₁.outTerm.trans hc.outTerm
  rw [hc.outTerm] at h₁
  rw [ho] at h₂
  refine (h₁.trans h₂).local (fun a ha => ?_) ?_
  · exact scrollDown_hidden (ho.trans h₁.visible.symm) ha
  · have hx : (c.wraparound.term c.wraparound.outTerm).screenX ≤ NUM_COLS := by
      rw [ho]
      unfold wraparound
      rw [hc.outTerm, modify_term_self, wrapTerm_screenX]
      exact hc.onScreen.2
    have hs := onScreen_scrollDown hx
    rwa [ho] at hs

/-! ## Stores into `keyboard_buffer` -/

/-- A store into the row of terminal `v`. -/
theorem storeKbd_own (c : Console) (v : Terminal) {i : Int} (b : UInt8) (h₀ : 0 ≤ i)
    (h₁ : i < KEYBOARD_BUFFER_SIZE) :
    c.storeKbd v i b = some (c.modify v fun s =>
      { s with keyboardBuffer := Function.update s.keyboardBuffer i.toNat b }) := by
  have hv := v.isLt
  unfold storeKbd
  dsimp only
  have hrow : Fin.ofNat 3 (((KEYBOARD_BUFFER_SIZE : Int) * v.val + i).toNat
      / KEYBOARD_BUFFER_SIZE) = v := by
    apply Fin.ext
    unfold KEYBOARD_BUFFER_SIZE at *
    simp only [Fin.ofNat]
    omega
  have hcol : ((KEYBOARD_BUFFER_SIZE : Int) * v.val + i).toNat % KEYBOARD_BUFFER_SIZE
      = i.toNat := by
    unfold KEYBOARD_BUFFER_SIZE at *
    omega
  rw [hrow, hcol, if_pos]
  unfold KEYBOARD_BUFFER_SIZE NUM_TERMINALS at *
  omega

/-- A store outside the row of `v` leaves the array or reaches another terminal. -/
theorem storeKbd_far (c : Console) (v : Terminal) {i : Int} (b : UInt8)
    (h : ¬ (0 ≤ i ∧ i < KEYBOARD_BUFFER_SIZE)) :
    c.storeKbd v i b = none ∨ ∃ (t : Terminal) (j : Nat), t ≠ v ∧
      (KEYBOARD_BUFFER_SIZE : Int) * v.val + i = KEYBOARD_BUFFER_SIZE * t.val + j ∧
      j < KEYBOARD_BUFFER_SIZE ∧ c.storeKbd v i b = some (c.modify t fun s =>
        { s with keyboardBuffer := Function.update s.keyboardBuffer j b }) := by
  have hv := v.isLt
  unfold storeKbd
  dsimp only
  by_cases hrange : 0 ≤ (KEYBOARD_BUFFER_SIZE : Int) * v.val + i
      ∧ (KEYBOARD_BUFFER_SIZE : Int) * v.val + i < KEYBOARD_BUFFER_SIZE * NUM_TERMINALS
  · rw [if_pos hrange]
    refine Or.inr ⟨_, _, ?_, ?_, ?_, rfl⟩
    · intro hrow
      have hval := congrArg Fin.val hrow
      unfold KEYBOARD_BUFFER_SIZE NUM_TERMINALS at *
      simp only [Fin.ofNat] at hval
      omega
    · unfold KEYBOARD_BUFFER_SIZE NUM_TERMINALS at *
      simp only [Fin.ofNat]
      omega
    · exact Nat.mod_lt _ (by decide)
  · rw [if_neg hrange]
    exact Or.inl rfl

/-- The store of `b` at index `i` of the row of the visible terminal changes no other row: it
stays in the row, or finds `b` where it goes. -/
def StoreStays (c : Console) (i : Int) (b : UInt8) : Prop :=
  (0 ≤ i ∧ i < KEYBOARD_BUFFER_SIZE) ∨ ∃ (t : Terminal) (j : Nat), t ≠ c.visibleTerminal ∧
    (KEYBOARD_BUFFER_SIZE : Int) * c.visibleTerminal.val + i = KEYBOARD_BUFFER_SIZE * t.val + j ∧
    j < KEYBOARD_BUFFER_SIZE ∧ (c.term t).keyboardBuffer j = b

/-- The variables of the terminals other than the visible one. -/
def OthersSame (c c' : Console) : Prop := ∀ t, t ≠ c.visibleTerminal → c'.term t = c.term t

theorem OthersSame.trans {c c' c'' : Console} (h : OthersSame c c') (h' : OthersSame c' c'')
    (hv : c'.visibleTerminal = c.visibleTerminal) : OthersSame c c'' :=
  fun t ht => (h' t (by rw [hv]; exact ht)).trans (h t ht)

theorem storeKbd_stays_iff (c : Console) (i : Int) (b : UInt8) :
    (∃ c', c.storeKbd c.visibleTerminal i b = some c' ∧ OthersSame c c') ↔ c.StoreStays i b := by
  by_cases hown : 0 ≤ i ∧ i < KEYBOARD_BUFFER_SIZE
  · refine iff_of_true ⟨_, storeKbd_own c _ b hown.1 hown.2, fun t ht => ?_⟩ (Or.inl hown)
    exact modify_term_ne _ _ _ ht
  · constructor
    · rintro ⟨c', hc', hsame⟩
      rcases storeKbd_far c c.visibleTerminal b hown with hnone | ⟨t, j, hne, haddr, hj, hsome⟩
      · rw [hnone] at hc'
        cases hc'
      · rw [hsome] at hc'
        cases hc'
        have hterm := hsame t hne
        rw [modify_term_self] at hterm
        have hbyte := congrFun (congrArg TermState.keyboardBuffer hterm) j
        dsimp only at hbyte
        rw [Function.update_self] at hbyte
        exact Or.inr ⟨t, j, hne, haddr, hj, hbyte.symm⟩
    · rintro (h | ⟨t, j, hne, haddr, hj, hbyte⟩)
      · exact absurd h hown
      · have hv := c.visibleTerminal.isLt
        have ht := t.isLt
        rcases storeKbd_far c c.visibleTerminal b hown with
          hnone | ⟨t', j', hne', haddr', hj', hsome⟩
        · unfold storeKbd at hnone
          dsimp only at hnone
          rw [if_pos] at hnone
          · cases hnone
          · unfold KEYBOARD_BUFFER_SIZE NUM_TERMINALS at *
            omega
        · obtain rfl : t' = t := by
            apply Fin.ext
            unfold KEYBOARD_BUFFER_SIZE at *
            omega
          obtain rfl : j' = j := by omega
          refine ⟨_, hsome, fun u hu => ?_⟩
          by_cases hut : u = t'
          · subst hut
            rw [modify_term_self, ← hbyte, Function.update_eq_self]
          · exact modify_term_ne _ _ _ hut

/-- Whatever row it reaches, a store changes one byte of one `keyboard_buffer`. -/
theorem storeKbd_eq_some {c c' : Console} {v : Terminal} {i : Int} {b : UInt8}
    (h : c.storeKbd v i b = some c') : ∃ t j, c' = c.modify t fun s =>
      { s with keyboardBuffer := Function.update s.keyboardBuffer j b } := by
  unfold storeKbd at h
  dsimp only at h
  split at h
  · cases h
    exact ⟨_, _, rfl⟩
  · cases h

theorem storeKbd_term {c c' : Console} {v : Terminal} {i : Int} {b : UInt8}
    (h : c.storeKbd v i b = some c') (u : Terminal) :
    ∃ kb, c'.term u = { c.term u with keyboardBuffer := kb } := by
  obtain ⟨t, j, rfl⟩ := storeKbd_eq_some h
  by_cases hut : u = t
  · subst hut
    exact ⟨_, modify_term_self ..⟩
  · exact ⟨(c.term u).keyboardBuffer, by rw [modify_term_ne _ _ _ hut]⟩

theorem storeKbd_notInPrevCmdFlag {c c' : Console} {v : Terminal} {i : Int} {b : UInt8}
    (h : c.storeKbd v i b = some c') : c'.notInPrevCmdFlag = c.notInPrevCmdFlag := by
  obtain ⟨t, j, rfl⟩ := storeKbd_eq_some h
  rfl

theorem storeKbd_tooManyShellsFlag {c c' : Console} {v : Terminal} {i : Int} {b : UInt8}
    (h : c.storeKbd v i b = some c') : c'.tooManyShellsFlag = c.tooManyShellsFlag := by
  obtain ⟨t, j, rfl⟩ := storeKbd_eq_some h
  rfl

theorem steady_storeKbd {c c' : Console} (hc : Ready c) {i : Int} {b : UInt8}
    (h : c.storeKbd c.visibleTerminal i b = some c') : Steady c c' := by
  have hs : OnScreen (c'.term c.visibleTerminal) := by
    obtain ⟨kb, hkb⟩ := storeKbd_term h c.visibleTerminal
    rw [hkb]
    exact hc.onScreen
  have hother := storeKbd_term h
  obtain ⟨t, j, rfl⟩ := storeKbd_eq_some h
  exact ⟨rfl, rfl, rfl, rfl, rfl, fun u _ => hother u, fun _ _ => rfl, hs⟩

/-! ## Up and down arrow -/

/-- `s'` is `s` up to the screen variables and the place of the cursor in the line. -/
def SameText (s s' : TermState) : Prop :=
  s' = { s with
    screenX := s'.screenX
    screenY := s'.screenY
    forwardNext := s'.forwardNext
    backwardNext := s'.backwardNext
    keyboardCursorIdx := s'.keyboardCursorIdx
    distanceFromRight := s'.distanceFromRight }

theorem SameText.trans {s s' s'' : TermState} (h : SameText s s') (h' : SameText s' s'') :
    SameText s s'' := by
  unfold SameText at *
  rw [h', h]

theorem sameText_of_sameLine {s s' : TermState} (h : SameLine s s') : SameText s s' := by
  unfold SameLine at h
  unfold SameText
  rw [h]

/-- Moving to the end of the line does not change the text. -/
theorem toLineEnd_local {c : Console} (hc : Ready c) (n : Nat) :
    Local c (toLineEnd n c) ∧
      SameText (c.term c.visibleTerminal) ((toLineEnd n c).term c.visibleTerminal) := by
  induction n generalizing c with
  | zero => exact ⟨.refl hc, rfl⟩
  | succ n ih =>
      have h₁ := local_rightArrow hc
      have hr₁ := h₁.ready hc
      have h₂ := h₁.trans (local_modify hr₁ h₁.visible (f := fun s =>
        { s with
          keyboardCursorIdx := s.keyboardCursorIdx + 1
          distanceFromRight := s.distanceFromRight - 1 }) fun _ hs => hs)
      obtain ⟨h₃, htext⟩ := ih (h₂.ready hc)
      rw [h₂.visible] at htext
      refine ⟨h₂.trans h₃, SameText.trans ?_ htext⟩
      rw [modify_term_self]
      exact (sameText_of_sameLine (drawn_rightArrow c).line).trans rfl

/-- The end of both arrow blocks: write the new line and set the indices. -/
theorem Local.redraw {c c' : Console} (h : Local c c') (hc : Ready c) (kb : Mem) (n : Int)
    {f : TermState → TermState} (hf : ∀ s, OnScreen s → OnScreen (f s)) :
    Local c ((c'.sysWriteTerminal kb n).1.modify c.visibleTerminal f) :=
  (h.trans (local_sysWriteTerminal (h.ready hc) kb n)).modify hc hf

theorem Local.erase {c c' : Console} (h : Local c c') (hc : Ready c) (n : Nat) :
    Local c (backspace^[n] c') := h.trans (local_iterate_backspace (h.ready hc) n)

theorem local_eraseLine {c : Console} (hc : Ready c) (n : Nat) : Local c (eraseLine n c) := by
  induction n generalizing c with
  | zero =>
      refine local_modify hc rfl ?_
      exact fun _ hs => hs
  | succ n ih =>
      have h₁ : Local c (c.modify c.visibleTerminal fun s =>
          { s with keyboardCursorIdx := s.keyboardCursorIdx - 1 }) :=
        local_modify hc rfl fun _ hs => hs
      have h₂ := h₁.trans (local_backspace (h₁.ready hc))
      exact h₂.trans (ih (h₂.ready hc))

theorem Local.eraseLine {c c' : Console} (h : Local c c') (hc : Ready c) (n : Nat) :
    Local c (Console.eraseLine n c') := h.trans (local_eraseLine (h.ready hc) n)

/-- The first part of both arrow blocks. -/
theorem arrow_lineEnd {c : Console} (hc : Ready c) (b : Bool) (n : Nat) :
    Local c (toLineEnd n { c with notInPrevCmdFlag := b }) ∧
      SameText (c.term c.visibleTerminal)
        ((toLineEnd n { c with notInPrevCmdFlag := b }).term c.visibleTerminal) := by
  have h := local_notInPrevCmdFlag hc b
  obtain ⟨hend, htext⟩ := toLineEnd_local (h.ready hc) n
  exact ⟨h.trans hend, htext⟩

/-- Does the up arrow recall the last command? -/
def Recalls (c : Console) : Prop :=
  let s := c.term c.visibleTerminal
  s.shellFlag ∧ s.lastBuf 0 ≠ 0 ∧ c.notInPrevCmdFlag

theorem upArrow_local {c : Console} (hc : Ready c)
    (h : c.Recalls → fits (c.term c.visibleTerminal).keyboardBufferEndIdx
      ∧ fits (c.term c.visibleTerminal).lastBufIndex) :
    ∃ c', c.upArrow = some c' ∧ Local c c' := by
  unfold upArrow
  dsimp only
  split
  · rename_i hrecall
    obtain ⟨hend, htext⟩ := arrow_lineEnd hc false
      (c.term c.visibleTerminal).distanceFromRight.toNat
    unfold SameText at htext
    rw [if_pos (by rw [htext]; exact h hrecall)]
    refine ⟨_, rfl, ?_⟩
    refine Local.redraw (Local.erase (Local.modify hend hc ?_) hc _) hc _ _ ?_
    · exact fun _ hs => hs
    · exact fun _ hs => hs
  · exact ⟨c, rfl, .refl hc⟩

theorem upArrow_fits {c c' : Console} (hc : Ready c) (h : c.upArrow = some c')
    (hrecall : c.Recalls) : fits (c.term c.visibleTerminal).keyboardBufferEndIdx
      ∧ fits (c.term c.visibleTerminal).lastBufIndex := by
  unfold upArrow at h
  unfold Recalls at hrecall
  dsimp only at h hrecall
  rw [if_pos hrecall] at h
  have htext := (arrow_lineEnd hc false
    (c.term c.visibleTerminal).distanceFromRight.toNat).2
  unfold SameText at htext
  split at h
  · rename_i hfits
    rw [htext] at hfits
    exact hfits
  · cases h

theorem downArrow_local {c : Console} (hc : Ready c)
    (h : (c.term c.visibleTerminal).shellFlag = true →
      fits (c.term c.visibleTerminal).currentBufIndex) :
    ∃ c', c.downArrow = some c' ∧ Local c c' := by
  unfold downArrow
  dsimp only
  split
  · rename_i hshell
    obtain ⟨hend, htext⟩ := arrow_lineEnd hc true
      (c.term c.visibleTerminal).distanceFromRight.toNat
    unfold SameText at htext
    rw [if_pos (by rw [htext]; exact h hshell)]
    refine ⟨_, rfl, ?_⟩
    refine Local.redraw (Local.eraseLine (Local.modify hend hc ?_) hc _) hc _ _ ?_
    · exact fun _ hs => hs
    · exact fun _ hs => hs
  · exact ⟨c, rfl, .refl hc⟩

theorem downArrow_fits {c c' : Console} (hc : Ready c) (h : c.downArrow = some c')
    (hshell : (c.term c.visibleTerminal).shellFlag = true) :
    fits (c.term c.visibleTerminal).currentBufIndex := by
  unfold downArrow at h
  dsimp only at h
  rw [if_pos hshell] at h
  have htext := (arrow_lineEnd hc true
    (c.term c.visibleTerminal).distanceFromRight.toNat).2
  unfold SameText at htext
  split at h
  · rename_i hfits
    rw [htext] at hfits
    exact hfits
  · cases h

end Console

end Ext2Kernel
