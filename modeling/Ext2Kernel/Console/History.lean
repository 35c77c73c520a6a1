import Ext2Kernel.Console.LineKeys

set_option autoImplicit false

/-! # Up and down

The up arrow of a shell replaces the line by `last_buf`, the down arrow by `current_buf`. The
second is a copy of the line that only the character keys refresh, and only up to the cursor:
`CopyFresh` says that it is the line. `upDown_iff` says that this is exactly what the two arrows
need to leave the line as it was.
-/

namespace Ext2Kernel

open ByteMem

namespace TermState

/-- The characters of the line. -/
def lineChars (s : TermState) : List UInt8 :=
  (List.range s.keyboardBufferEndIdx.toNat).map s.keyboardBuffer

/-- The command the up arrow recalls. -/
def lastChars (s : TermState) : List UInt8 := (List.range s.lastBufIndex.toNat).map s.lastBuf

/-- The last command as it is stored. -/
def lastCommand (s : TermState) : Mem × Int := (s.lastBuf, s.lastBufIndex)

/-- The line that the down arrow puts back. -/
def currentChars (s : TermState) : List UInt8 :=
  (List.range s.currentBufIndex.toNat).map s.currentBuf

/-- The line after the up arrow recalled the last command. -/
def recalled (s : TermState) : TermState :=
  { s with
    keyboardBuffer := overlay
      (overlay s.keyboardBuffer 0 s.keyboardBufferEndIdx.toNat fun _ => 0)
      0 s.lastBufIndex.toNat s.lastBuf
    keyboardBufferEndIdx := s.lastBufIndex }

/-- The line after the down arrow. -/
def putBack (s : TermState) : TermState :=
  { s with
    keyboardBuffer := Console.freshCopy s.currentBuf s.currentBufIndex
    keyboardBufferEndIdx := s.currentBufIndex }

/-- The copy for the down arrow is the line. -/
structure CopyFresh (s : TermState) : Prop where
  stop : s.currentBufIndex = s.keyboardBufferEndIdx
  text : s.currentChars = s.lineChars

theorem copyFresh_iff (s : TermState) : s.CopyFresh ↔
    s.currentBufIndex = s.keyboardBufferEndIdx ∧ s.currentChars = s.lineChars :=
  ⟨fun h => ⟨h.stop, h.text⟩, fun h => ⟨h.1, h.2⟩⟩

instance (s : TermState) : Decidable s.CopyFresh := decidable_of_iff _ s.copyFresh_iff.symm

/-- What an overlay from the start holds there. -/
theorem map_range_overlay (m m' : Mem) (n : Nat) :
    (List.range n).map (overlay m 0 n m') = (List.range n).map m' := by
  refine List.map_congr_left fun i hi => ?_
  have hlt := List.mem_range.mp hi
  rw [overlay_in _ _ (Nat.zero_le i) (by omega), Nat.sub_zero]

theorem lineChars_recalled (s : TermState) : s.recalled.lineChars = s.lastChars :=
  map_range_overlay ..

theorem lineChars_putBack (s : TermState) : s.putBack.lineChars = s.currentChars :=
  map_range_overlay ..

end TermState

namespace Console

/-! ## The text of the line -/

section

variable {s s' : TermState} (h : SameText s s')

include h

theorem SameText.lineChars : s'.lineChars = s.lineChars := by
  unfold SameText at h
  rw [h]
  rfl

theorem SameText.stop : s'.keyboardBufferEndIdx = s.keyboardBufferEndIdx := by
  unfold SameText at h
  rw [h]

theorem SameText.shell : s'.shellFlag = s.shellFlag := by
  unfold SameText at h
  rw [h]

theorem SameText.lastCommand : s'.lastCommand = s.lastCommand := by
  unfold SameText at h
  rw [h]
  rfl

theorem SameText.current : s'.currentBufIndex = s.currentBufIndex := by
  unfold SameText at h
  rw [h]

theorem SameText.recalled : SameText s.recalled s'.recalled := by
  unfold SameText at *
  rw [h]
  rfl

theorem SameText.putBack : SameText s.putBack s'.putBack := by
  unfold SameText at *
  rw [h]
  rfl

/-- The end of the up arrow. -/
theorem SameText.endLast : SameText { s with keyboardBufferEndIdx := s.lastBufIndex }
    { s' with keyboardCursorIdx := s'.lastBufIndex, keyboardBufferEndIdx := s'.lastBufIndex } := by
  unfold SameText at *
  rw [h]

/-- The end of the down arrow. -/
theorem SameText.endCurrent : SameText { s with keyboardBufferEndIdx := s.currentBufIndex }
    { s' with
      keyboardCursorIdx := s'.currentBufIndex
      keyboardBufferEndIdx := s'.currentBufIndex } := by
  unfold SameText at *
  rw [h]

end

/-- Erasing the line on the screen changes no text. -/
theorem eraseLine_sameText {c : Console} {v : Terminal} (hv : c.visibleTerminal = v) (n : Nat) :
    SameText (c.term v) ((eraseLine n c).term v) := by
  induction n generalizing c with
  | zero =>
      unfold eraseLine
      rw [hv, modify_term_self]
      rfl
  | succ n ih =>
      have hback := backspace_sameLine (c.modify v fun s =>
        { s with keyboardCursorIdx := s.keyboardCursorIdx - 1 }) v
      have hrec := ih (c := (c.modify v fun s =>
        { s with keyboardCursorIdx := s.keyboardCursorIdx - 1 }).backspace)
        ((drawn_backspace _).visible.trans hv)
      unfold eraseLine
      rw [hv]
      refine SameText.trans ?_ hrec
      have htext := sameText_of_sameLine hback
      rw [modify_term_self] at htext
      have hstart : SameText (c.term v) { c.term v with
        keyboardCursorIdx := (c.term v).keyboardCursorIdx - 1 } := rfl
      exact hstart.trans htext

/-! ## The two arrows -/

theorem recallLine_sameText {c c' : Console} {v : Terminal} (h : recallLine c v = some c') :
    SameText (c.term v).recalled (c'.term v) := by
  unfold recallLine at h
  unfold TermState.recalled
  dsimp only at h
  generalize overlay (overlay _ 0 _ _) 0 _ _ = kb at h ⊢
  split at h
  · cases h
    rw [modify_term_self]
    have herase := iterate_backspace_sameLine
      (c.modify v fun s => { s with keyboardBuffer := kb }) (c.term v).keyboardCursorIdx.toNat v
    rw [modify_term_self] at herase
    have hwrite := sysWriteTerminal_sameLine (backspace^[(c.term v).keyboardCursorIdx.toNat]
      (c.modify v fun s => { s with keyboardBuffer := kb })) kb (c.term v).lastBufIndex v
    exact (sameText_of_sameLine (herase.trans hwrite)).endLast
  · cases h

theorem putBackLine_sameText {c c' : Console} {v : Terminal} (hv : c.visibleTerminal = v)
    (h : putBackLine c v = some c') : SameText (c.term v).putBack (c'.term v) := by
  unfold putBackLine at h
  dsimp only at h
  split at h
  · cases h
    rw [modify_term_self]
    have herase := eraseLine_sameText (c := c.modify v fun s =>
      { s with
        keyboardBuffer := (c.term v).putBack.keyboardBuffer
        keyboardCursorIdx := s.keyboardCursorIdx + 1 }) hv (c.term v).keyboardCursorIdx.toNat
    rw [modify_term_self] at herase
    have hwrite := sameText_of_sameLine (sysWriteTerminal_sameLine (eraseLine
      (c.term v).keyboardCursorIdx.toNat (c.modify v fun s =>
        { s with
          keyboardBuffer := (c.term v).putBack.keyboardBuffer
          keyboardCursorIdx := s.keyboardCursorIdx + 1 }))
      (c.term v).putBack.keyboardBuffer (c.term v).currentBufIndex v)
    have hstart : SameText
        { c.term v with keyboardBuffer := (c.term v).putBack.keyboardBuffer }
        { c.term v with
          keyboardBuffer := (c.term v).putBack.keyboardBuffer
          keyboardCursorIdx := (c.term v).keyboardCursorIdx + 1 } := rfl
    exact ((hstart.trans herase).trans hwrite).endCurrent
  · cases h

/-- **The text after the up arrow**, when it recalls a command. -/
theorem upArrow_sameText {c c' : Console} (hc : Ready c) (hr : c.Recalls)
    (h : c.upArrow = some c') :
    SameText (c.term c.visibleTerminal).recalled (c'.term c.visibleTerminal) := by
  rw [upArrow_of_recalls hr rfl rfl] at h
  have htext := (arrow_lineEnd hc false (c.term c.visibleTerminal).distanceFromRight.toNat).2
  exact htext.recalled.trans (recallLine_sameText h)

/-- **The text after the down arrow** of a shell. -/
theorem downArrow_sameText {c c' : Console} (hc : Ready c)
    (hshell : (c.term c.visibleTerminal).shellFlag = true) (h : c.downArrow = some c') :
    SameText (c.term c.visibleTerminal).putBack (c'.term c.visibleTerminal) := by
  rw [downArrow_eq rfl rfl, if_pos hshell] at h
  obtain ⟨hloc, htext⟩ :=
    arrow_lineEnd hc true (c.term c.visibleTerminal).distanceFromRight.toNat
  exact htext.putBack.trans (putBackLine_sameText hloc.visible h)

/-! ## What the other keys keep -/

/-- Which terminals run a shell, and the flag of the last failed execute, stay. -/
structure KeepsFlags (c c' : Console) : Prop where
  shell : ∀ t, (c'.term t).shellFlag = (c.term t).shellFlag
  shells : c'.tooManyShellsFlag = c.tooManyShellsFlag

namespace KeepsFlags

theorem refl (c : Console) : KeepsFlags c c := ⟨fun _ => rfl, rfl⟩

theorem trans {c c' c'' : Console} (h : KeepsFlags c c') (h' : KeepsFlags c' c'') :
    KeepsFlags c c'' :=
  ⟨fun t => (h'.shell t).trans (h.shell t), h'.shells.trans h.shells⟩

theorem modify {c c' : Console} (h : KeepsFlags c c') (u : Terminal) {f : TermState → TermState}
    (hf : ∀ s, (f s).shellFlag = s.shellFlag) : KeepsFlags c (c'.modify u f) := by
  refine h.trans ⟨fun t => ?_, rfl⟩
  by_cases ht : t = u
  · rw [ht, modify_term_self, hf]
  · rw [modify_term_ne _ _ _ ht]

theorem drawn {c c' c'' : Console} (h : KeepsFlags c c') {u : Terminal} (h' : Drawn u c' c'') :
    KeepsFlags c c'' := by
  refine h.trans ⟨fun t => ?_, h'.tooManyShellsFlag⟩
  by_cases ht : t = u
  · subst ht
    exact (congrArg TermState.shellFlag h'.line).symm
  · rw [h'.other t ht]

theorem store {c c' c'' : Console} (h : KeepsFlags c c') {v : Terminal} {i : Int} {b : UInt8}
    (h' : c'.storeKbd v i b = some c'') : KeepsFlags c c'' := by
  refine h.trans ⟨fun t => ?_, storeKbd_tooManyShellsFlag h'⟩
  obtain ⟨kb, hkb⟩ := storeKbd_term h' t
  rw [hkb]

end KeepsFlags

theorem echoOff_command (s : TermState) : (echoOff s).shellFlag = s.shellFlag ∧
    (echoOff s).lastCommand = s.lastCommand := by
  obtain ⟨b, hb⟩ := echoOff_eq s
  rw [hb]
  exact ⟨rfl, rfl⟩

/-- The last command of every terminal and the flag of the two arrows stay too. -/
structure KeepsHistory (c c' : Console) : Prop extends KeepsFlags c c' where
  last : ∀ t, (c'.term t).lastCommand = (c.term t).lastCommand
  flag : c'.notInPrevCmdFlag = c.notInPrevCmdFlag

namespace KeepsHistory

theorem refl (c : Console) : KeepsHistory c c := ⟨.refl c, fun _ => rfl, rfl⟩

theorem trans {c c' c'' : Console} (h : KeepsHistory c c') (h' : KeepsHistory c' c'') :
    KeepsHistory c c'' :=
  ⟨h.toKeepsFlags.trans h'.toKeepsFlags, fun t => (h'.last t).trans (h.last t),
    h'.flag.trans h.flag⟩

theorem modify {c c' : Console} (h : KeepsHistory c c') (u : Terminal) {f : TermState → TermState}
    (hshell : ∀ s, (f s).shellFlag = s.shellFlag)
    (hlast : ∀ s, (f s).lastCommand = s.lastCommand) : KeepsHistory c (c'.modify u f) := by
  refine h.trans ⟨(KeepsFlags.refl c').modify u hshell, fun t => ?_, rfl⟩
  by_cases ht : t = u
  · rw [ht, modify_term_self, hlast]
  · rw [modify_term_ne _ _ _ ht]

theorem drawn {c c' c'' : Console} (h : KeepsHistory c c') {u : Terminal} (h' : Drawn u c' c'') :
    KeepsHistory c c'' := by
  refine h.trans ⟨(KeepsFlags.refl c').drawn h', fun t => ?_, h'.notInPrevCmdFlag⟩
  by_cases ht : t = u
  · subst ht
    have hline := h'.line
    exact Prod.ext (congrArg TermState.lastBuf hline).symm
      (congrArg TermState.lastBufIndex hline).symm
  · rw [h'.other t ht]

theorem store {c c' c'' : Console} (h : KeepsHistory c c') {v : Terminal} {i : Int} {b : UInt8}
    (h' : c'.storeKbd v i b = some c'') : KeepsHistory c c'' := by
  refine h.trans ⟨(KeepsFlags.refl c').store h', fun t => ?_, storeKbd_notInPrevCmdFlag h'⟩
  obtain ⟨kb, hkb⟩ := storeKbd_term h' t
  rw [hkb]
  rfl

theorem finish {c c' : Console} (h : KeepsHistory c c') (v : Terminal) (ch : UInt8) :
    KeepsHistory c (c'.finish v ch) := by
  have hecho : KeepsHistory c (c'.echo ch) := by
    unfold echo
    split
    · exact h.drawn (drawn_putc ..)
    · exact h
  have hahead : ∀ s : TermState, (typeAhead s ch).shellFlag = s.shellFlag ∧
      (typeAhead s ch).lastCommand = s.lastCommand := by
    intro s
    unfold typeAhead
    split <;> exact ⟨rfl, rfl⟩
  have htyped := hecho.modify v (fun s => (hahead s).1) (fun s => (hahead s).2)
  exact (htyped.drawn (drawn_wraparound _)).drawn (drawn_scrollDown _)

theorem leave {c c' : Console} (h : KeepsHistory c c') : KeepsHistory c c'.leave :=
  ⟨⟨h.shell, h.shells⟩, h.last, h.flag⟩

theorem backspaceKey {c c' : Console} (h : c.backspaceKey = some c') : KeepsHistory c c' := by
  unfold Console.backspaceKey at h
  obtain ⟨c₁, hc₁, rfl⟩ := Option.map_eq_some_iff.mp h
  have hstart := (refl c).drawn (drawn_backspace c)
  have hline : KeepsHistory c c₁ := by
    unfold backspaceLine at hc₁
    dsimp only at hc₁
    split at hc₁
    · obtain ⟨c₂, hc₂, rfl⟩ := Option.map_eq_some_iff.mp hc₁
      exact (hstart.store hc₂).modify _ (fun _ => rfl) fun _ => rfl
    · split at hc₁
      · obtain ⟨c₂, hc₂, rfl⟩ := Option.map_eq_some_iff.mp hc₁
        exact (hstart.store hc₂).modify _ (fun _ => rfl) fun _ => rfl
      · cases hc₁
        exact hstart
  have hahead : ∀ s : TermState, (backspaceAhead s).shellFlag = s.shellFlag ∧
      (backspaceAhead s).lastCommand = s.lastCommand := by
    intro s
    unfold backspaceAhead
    split <;> exact ⟨rfl, rfl⟩
  exact (hline.modify _ (fun s => (hahead s).1) fun s => (hahead s).2).leave

theorem leftArrowKey (c : Console) : KeepsHistory c c.leftArrowKey := by
  unfold Console.leftArrowKey
  dsimp only
  split
  · have hleft := (refl c).drawn (drawn_leftArrow c)
    refine (hleft.modify _ ?_ ?_).leave
    · exact fun _ => rfl
    · exact fun _ => rfl
  · exact (refl c).leave

theorem rightArrowKey (c : Console) : KeepsHistory c c.rightArrowKey := by
  unfold Console.rightArrowKey
  have hright := (refl c).drawn (drawn_rightArrow c)
  refine (hright.modify _ ?_ ?_).leave
  · exact fun _ => rfl
  · exact fun _ => rfl

theorem clear (c : Console) : KeepsHistory c c.clear := by
  refine ⟨⟨fun t => ?_, rfl⟩, fun t => ?_, rfl⟩
  · rw [clear_term]
  · rw [clear_term]
    split_ifs <;> rfl

theorem ctrlL {c c' : Console} (h : c.ctrlL = some c') : KeepsHistory c c' := by
  unfold Console.ctrlL at h
  dsimp only at h
  split at h
  · cases h
    refine (KeepsHistory.modify ?_ _ ?_ ?_).leave
    · refine KeepsHistory.trans ?_ (clear _)
      exact (refl c).modify _ (fun _ => rfl) fun _ => rfl
    · exact fun _ => rfl
    · exact fun _ => rfl
  · cases h

theorem saveCurrent {c c' c'' : Console} (h : KeepsHistory c c') (h' : c'.saveCurrent = some c'') :
    KeepsHistory c c'' := by
  unfold Console.saveCurrent at h'
  dsimp only at h'
  split at h'
  · split at h'
    · cases h'
      exact h.modify _ (fun _ => rfl) fun _ => rfl
    · cases h'
  · cases h'
    exact h

theorem endLine {c c' c'' : Console} (h : KeepsHistory c c') {ch : UInt8}
    (h' : c'.endLine ch = some c'') : KeepsHistory c c'' := by
  unfold Console.endLine at h'
  dsimp only at h'
  split at h'
  · obtain ⟨c₁, hc₁, rfl⟩ := Option.map_eq_some_iff.mp h'
    exact (h.store hc₁).modify _ (fun _ => rfl) fun _ => rfl
  · cases h'
    exact h

theorem insertChar {c c' c'' : Console} (h : KeepsHistory c c') {pressed : Nat} {ch : UInt8}
    (h' : insertChar (c'.modify c'.visibleTerminal echoOff) pressed ch = some c'') :
    KeepsHistory c c'' := by
  have hecho := h.modify c'.visibleTerminal (fun s => (echoOff_command s).1)
    fun s => (echoOff_command s).2
  unfold Console.insertChar at h'
  dsimp only at h'
  split at h'
  · obtain ⟨c₁, hc₁, rfl⟩ := Option.map_eq_some_iff.mp h'
    exact (hecho.store hc₁).modify _ (fun _ => rfl) fun _ => rfl
  · cases h'
    exact hecho

/-- Enter is the character key that changes the last command. -/
theorem charKey {c c' : Console} {pressed : Nat} (hp : pressed ≠ ENTER_PRESSED)
    (h : c.charKey pressed = some c') : KeepsHistory c c' := by
  rw [charKey_eq] at h
  obtain ⟨c₁, hc₁, rfl⟩ := Option.map_eq_some_iff.mp h
  obtain ⟨c₂, hc₂, hc₁⟩ := Option.bind_eq_some_iff.mp hc₁
  rw [enterKey_char _ hp, Option.bind_some] at hc₁
  obtain ⟨c₃, hc₃, rfl⟩ := Option.map_eq_some_iff.mp hc₁
  have hinsert := (refl c).insertChar hc₂
  exact ((hinsert.saveCurrent hc₃).finish c.visibleTerminal (c.outputChar pressed)).leave

end KeepsHistory

theorem switchTerminal_keepsHistory (c : Console) (n : Int) :
    KeepsHistory c (c.switchTerminal n) := by
  refine ⟨⟨fun u => ?_, ?_⟩, fun u => ?_, ?_⟩
  · rw [switchTerminal_term]
  · unfold switchTerminal
    split <;> rfl
  · rw [switchTerminal_term]
  · unfold switchTerminal
    split <;> rfl

/-- **Only Enter and the two arrows change the history.** -/
theorem keyboardInterrupt_keepsHistory {c c' : Console} {scancode : UInt8}
    (hup : scancode.toNat ≠ UP_ARROW_PRESSED) (hdown : scancode.toNat ≠ DOWN_ARROW_PRESSED)
    (henter : scancode.toNat ≠ ENTER_PRESSED) (h : c.keyboardInterrupt scancode = some c') :
    KeepsHistory c c' := by
  have hstart : KeepsHistory c { c with putcToVisibleFlag := true } :=
    ⟨⟨fun _ => rfl, rfl⟩, fun _ => rfl, rfl⟩
  refine hstart.trans ?_
  rw [keyboardInterrupt_eq, if_neg hup, if_neg hdown] at h
  generalize ({ c with putcToVisibleFlag := true } : Console) = c₀ at *
  generalize scancode.toNat = pressed at *
  unfold afterArrows at h
  dsimp only at h
  split at h
  · exact .backspaceKey h
  · split at h
    · cases h
      exact .leftArrowKey c₀
    · split at h
      · cases h
        exact .rightArrowKey c₀
      · split at h
        · rename_i c₁ hmod
          cases h
          obtain ⟨f, hf, rfl⟩ := modifierKey_eq_some hmod
          have hturned : ∀ t, SameButModifiers (c₀.term t) (f (c₀.term t)) :=
            fun t => hf (c₀.term t)
          unfold SameButModifiers at hturned
          refine ⟨⟨fun t => ?_, rfl⟩, fun t => ?_, rfl⟩
          · show (f (c₀.term t)).shellFlag = _
            rw [hturned t]
          · show (f (c₀.term t)).lastCommand = _
            rw [hturned t]
            rfl
        · split at h
          · rename_i t _
            cases h
            split
            · exact ⟨⟨fun _ => rfl, rfl⟩, fun _ => rfl, rfl⟩
            · exact (KeepsHistory.refl c₀).leave.trans (switchTerminal_keepsHistory _ _)
          · unfold lineKey at h
            split at h
            · exact .ctrlL h
            · split at h
              · cases h
                exact ⟨⟨fun _ => rfl, rfl⟩, fun _ => rfl, rfl⟩
              · exact .charKey henter h

theorem KeepsHistory.readTerminalStart {c c' : Console} (h : c.readTerminalStart = some c') :
    KeepsHistory c c' := by
  have hread : ∀ {c₁ : Console}, KeepsHistory c c₁ →
      KeepsHistory c (c₁.modify c.processTerminal fun s => { s with sysReadFlag := true }) := by
    intro c₁ h₁
    refine h₁.modify _ ?_ ?_
    · exact fun _ => rfl
    · exact fun _ => rfl
  have hclear : KeepsHistory c (c.modify c.processTerminal clearLine) :=
    (KeepsHistory.refl c).modify _ (fun _ => rfl) fun _ => rfl
  rcases readTerminalStart_cases h with ⟨_, rfl⟩ | ⟨_, _, rfl⟩
  · exact hread hclear
  · apply hread
    refine KeepsHistory.modify ?_ _ (fun _ => rfl) fun _ => rfl
    refine KeepsHistory.drawn ?_ (drawn_putcs ..)
    exact hclear.modify _ (fun _ => rfl) fun _ => rfl

/-! ## The command that Enter keeps -/

/-- The command kept for the up arrow is `l`. -/
structure LastIs (s : TermState) (l : List UInt8) : Prop where
  text : s.lastChars = l
  length : s.lastBufIndex = l.length
  fits : l.length ≤ KEYBOARD_BUFFER_SIZE

theorem LastIs.congr {s s' : TermState} {l : List UInt8} (h : LastIs s l)
    (hlast : s'.lastCommand = s.lastCommand) : LastIs s' l := by
  have hbuf : s'.lastBuf = s.lastBuf := congrArg Prod.fst hlast
  have hidx : s'.lastBufIndex = s.lastBufIndex := congrArg Prod.snd hlast
  refine ⟨?_, hidx.trans h.length, h.fits⟩
  rw [← h.text]
  unfold TermState.lastChars
  rw [hbuf, hidx]

theorem LastIs.first {s : TermState} {ch : UInt8} {l : List UInt8} (h : LastIs s (ch :: l)) :
    s.lastBuf 0 = ch := by
  have htext := h.text
  unfold TermState.lastChars at htext
  rw [h.length, Int.toNat_natCast, List.length_cons, List.range_succ_eq_map, List.map_cons]
    at htext
  exact (List.cons.inj htext).1

/-- The command of a line that is entered: in a full row there is no room for the newline, and
the last character is taken for it. -/
def entered (s : TermState) : List UInt8 :=
  if s.keyboardBufferEndIdx < KEYBOARD_BUFFER_SIZE then s.lineChars else s.lineChars.dropLast

/-- What a key makes the last command of terminal `t`. -/
def commandKey (c : Console) (t : Terminal) (pressed : Nat) (l : List UInt8) : List UInt8 :=
  if pressed = ENTER_PRESSED ∧ t = c.visibleTerminal ∧ (c.term t).shellFlag then
    entered (c.term t)
  else l

theorem saveCommand_lastIs {s s' : TermState} (hshell : s.shellFlag = true)
    (h : Console.saveCommand s = some s') : fits (s.keyboardBufferEndIdx - 1) ∧
    LastIs s' ((List.range (s.keyboardBufferEndIdx - 1).toNat).map s.keyboardBuffer) := by
  unfold Console.saveCommand at h
  rw [if_pos hshell] at h
  split at h
  · rename_i hfits
    cases h
    refine ⟨hfits, ?_⟩
    unfold fits at hfits
    refine ⟨TermState.map_range_overlay .., ?_, ?_⟩
    · rw [List.length_map, List.length_range]
      exact (Int.toNat_of_nonneg hfits.1).symm
    · rw [List.length_map, List.length_range]
      omega
  · cases h

/-- The line with its newline, when it is saved as a command. -/
theorem endLine_entered {c c' : Console} {v : Terminal} {ch : UInt8}
    (hv : c.visibleTerminal = v) (h : c.endLine ch = some c') :
    (c'.term v).shellFlag = (c.term v).shellFlag ∧ (fits ((c'.term v).keyboardBufferEndIdx - 1) →
      (List.range ((c'.term v).keyboardBufferEndIdx - 1).toNat).map (c'.term v).keyboardBuffer
        = entered (c.term v)) := by
  unfold endLine at h
  dsimp only at h
  rw [hv] at h
  unfold entered
  by_cases hroom : (c.term v).keyboardBufferEndIdx < KEYBOARD_BUFFER_SIZE
  · rw [if_pos hroom] at h ⊢
    obtain ⟨c₁, hc₁, rfl⟩ := Option.map_eq_some_iff.mp h
    obtain ⟨kb, hkb⟩ := storeKbd_term hc₁ v
    rw [modify_term_self, hkb]
    refine ⟨rfl, fun hfits => ?_⟩
    dsimp only at hfits ⊢
    have hzero : 0 ≤ (c.term v).keyboardBufferEndIdx := by
      have hlow := hfits.1
      omega
    -- the newline goes behind the line, in its own row
    rw [storeKbd_own c v ch hzero hroom] at hc₁
    cases hc₁
    rw [modify_term_self] at hkb
    have hrow := congrArg TermState.keyboardBuffer hkb
    dsimp only at hrow
    rw [← hrow, Int.add_sub_cancel]
    unfold TermState.lineChars
    refine List.map_congr_left fun i hi => Function.update_of_ne ?_ _ _
    exact Nat.ne_of_lt (List.mem_range.mp hi)
  · rw [if_neg hroom] at h ⊢
    cases h
    refine ⟨rfl, fun _ => ?_⟩
    have hlen : (c.term v).keyboardBufferEndIdx.toNat
        = ((c.term v).keyboardBufferEndIdx - 1).toNat + 1 := by
      unfold KEYBOARD_BUFFER_SIZE at hroom
      omega
    unfold TermState.lineChars
    rw [hlen, List.range_succ, List.map_append, List.map_singleton, List.dropLast_concat]

/-- Enter on a shell keeps the line as the last command. -/
theorem charKey_enter_lastIs {c c' : Console} {v : Terminal} (hv : c.visibleTerminal = v)
    (h : c.charKey ENTER_PRESSED = some c') :
    ((c.term v).shellFlag = true → LastIs (c'.term v) (entered (c.term v))) ∧
    ((c.term v).shellFlag = false → (c'.term v).lastCommand = (c.term v).lastCommand) ∧
    c'.notInPrevCmdFlag = true := by
  have hentry : entered (echoOff (c.term v)) = entered (c.term v) := by
    obtain ⟨b, hb⟩ := echoOff_eq (c.term v)
    rw [hb]
    rfl
  have hstart : ({ c.modify v echoOff with notInPrevCmdFlag := true } : Console).term v
      = echoOff (c.term v) := modify_term_self ..
  rw [charKey_eq, hv] at h
  obtain ⟨c₄, hblock, rfl⟩ := Option.map_eq_some_iff.mp h
  rw [insertChar_enter, Option.bind_some, enterKey_enter (c := c.modify v echoOff) hv] at hblock
  obtain ⟨c₂, hc₂, hrest⟩ := Option.bind_eq_some_iff.mp hblock
  obtain ⟨c₁, hc₁, hsave⟩ := Option.bind_eq_some_iff.mp hc₂
  obtain ⟨s, hs, rfl⟩ := Option.map_eq_some_iff.mp hsave
  obtain ⟨c₃, hc₃, rfl⟩ := Option.map_eq_some_iff.mp hrest
  have hkeeps := (((KeepsHistory.refl _).saveCurrent hc₃).finish v
    (c.outputChar ENTER_PRESSED)).leave
  have hlast := hkeeps.last v
  rw [modify_term_self] at hlast
  obtain ⟨hshell, hentered⟩ := endLine_entered (v := v)
    (c := { c.modify v echoOff with notInPrevCmdFlag := true }) hv hc₁
  have hend := (KeepsHistory.refl _).endLine hc₁
  have hend₁ := hend.last v
  rw [hstart] at hshell hentered hend₁
  rw [hentry] at hentered
  rw [(echoOff_command _).1] at hshell
  rw [(echoOff_command _).2] at hend₁
  refine ⟨fun hon => ?_, fun hoff => ?_, hkeeps.flag.trans hend.flag⟩
  · obtain ⟨hfits, hcommand⟩ := saveCommand_lastIs (hshell.trans hon) hs
    rw [hentered hfits] at hcommand
    exact hcommand.congr hlast
  · have hs' : s = c₁.term v := by
      unfold Console.saveCommand at hs
      rw [if_neg (by rw [hshell, hoff]; decide)] at hs
      exact (Option.some.inj hs).symm
    rw [hlast, hs']
    exact hend₁

theorem upArrow_lastCommand {c c' : Console} (hc : Ready c) (h : c.upArrow = some c')
    (t : Terminal) : (c'.term t).lastCommand = (c.term t).lastCommand := by
  by_cases hr : c.Recalls
  · obtain ⟨c₁, hc₁, hloc⟩ := upArrow_local hc fun hr => upArrow_fits hc h hr
    rw [h] at hc₁
    cases hc₁
    by_cases ht : t = c.visibleTerminal
    · rw [ht]
      exact (upArrow_sameText hc hr h).lastCommand
    · rw [hloc.same t ht]
  · rw [upArrow_of_not_recalls hr] at h
    cases h
    rfl

theorem downArrow_lastCommand {c c' : Console} (hc : Ready c) (h : c.downArrow = some c')
    (t : Terminal) : (c'.term t).lastCommand = (c.term t).lastCommand := by
  by_cases hshell : (c.term c.visibleTerminal).shellFlag = true
  · obtain ⟨c₁, hc₁, hloc⟩ := downArrow_local hc fun hshell => downArrow_fits hc h hshell
    rw [h] at hc₁
    cases hc₁
    by_cases ht : t = c.visibleTerminal
    · rw [ht]
      exact (downArrow_sameText hc hshell h).lastCommand
    · rw [hloc.same t ht]
  · rw [downArrow_eq rfl rfl, if_neg hshell] at h
    cases h
    rfl

/-- **The last command after a key.** -/
theorem keyboardInterrupt_lastIs {c c' : Console} {scancode : UInt8}
    (hs : OnScreen (c.term c.visibleTerminal)) (h : c.keyboardInterrupt scancode = some c')
    {t : Terminal} {l : List UInt8} (hl : LastIs (c.term t) l) :
    LastIs (c'.term t) (c.commandKey t scancode.toNat l) := by
  have hc : Ready { c with putcToVisibleFlag := true } := ⟨rfl, hs⟩
  unfold commandKey
  by_cases henter : scancode.toNat = ENTER_PRESSED
  · by_cases ht : t = c.visibleTerminal
    · subst ht
      rw [keyboardInterrupt_char (henter ▸ c.hasChar_enter), henter] at h
      obtain ⟨hon, hoff, _⟩ := charKey_enter_lastIs
        (c := { c with putcToVisibleFlag := true }) (v := c.visibleTerminal) rfl h
      by_cases hshell : (c.term c.visibleTerminal).shellFlag = true
      · rw [if_pos ⟨henter, rfl, hshell⟩]
        exact hon hshell
      · rw [if_neg fun hk => hshell hk.2.2]
        exact hl.congr (hoff (Bool.not_eq_true _ ▸ hshell))
    · rw [if_neg fun hk => ht hk.2.1]
      obtain ⟨c₁, hsteady, rfl⟩ := plain_steady hs (henter ▸ c.hasChar_enter.1) h
      obtain ⟨kb, hkb⟩ := hsteady.other t ht
      refine hl.congr ?_
      rw [leave_term, hkb]
      rfl
  · rw [if_neg fun hk => henter hk.1]
    by_cases hup : scancode.toNat = UP_ARROW_PRESSED
    · rw [keyboardInterrupt_eq, if_pos hup] at h
      obtain ⟨c₁, hc₁, rfl⟩ := Option.map_eq_some_iff.mp h
      exact hl.congr (upArrow_lastCommand hc hc₁ t)
    · by_cases hdown : scancode.toNat = DOWN_ARROW_PRESSED
      · rw [keyboardInterrupt_eq, if_neg hup, if_pos hdown] at h
        obtain ⟨c₁, hc₁, rfl⟩ := Option.map_eq_some_iff.mp h
        exact hl.congr (downArrow_lastCommand hc hc₁ t)
      · exact hl.congr ((keyboardInterrupt_keepsHistory hup hdown henter h).last t)

/-! ## The two keys -/

def upKey : UInt8 := 0x48
def downKey : UInt8 := 0x50

theorem keyboardInterrupt_up (c : Console) : c.keyboardInterrupt upKey =
    (upArrow { c with putcToVisibleFlag := true }).map leave := by
  rw [keyboardInterrupt_eq, if_pos (show upKey.toNat = UP_ARROW_PRESSED from rfl)]

theorem keyboardInterrupt_down (c : Console) : c.keyboardInterrupt downKey =
    (downArrow { c with putcToVisibleFlag := true }).map leave := by
  rw [keyboardInterrupt_eq, if_neg (show downKey.toNat ≠ UP_ARROW_PRESSED by decide),
    if_pos (show downKey.toNat = DOWN_ARROW_PRESSED from rfl)]

section

variable {c : Console} (hs : OnScreen (c.term c.visibleTerminal))

include hs

/-- The up key, when it recalls a command that the row has room for. -/
theorem up_key (hr : c.Recalls) (hend : fits (c.term c.visibleTerminal).keyboardBufferEndIdx)
    (hlast : fits (c.term c.visibleTerminal).lastBufIndex) :
    ∃ c', c.keyboardInterrupt upKey = some c' ∧ OnScreen (c'.term c'.visibleTerminal) ∧
      SameText (c.term c.visibleTerminal).recalled (c'.term c'.visibleTerminal) := by
  have hc : Ready { c with putcToVisibleFlag := true } := ⟨rfl, hs⟩
  obtain ⟨c', hc', hloc⟩ := upArrow_local hc fun _ => ⟨hend, hlast⟩
  have htext := upArrow_sameText hc hr hc'
  have hv : c'.visibleTerminal = c.visibleTerminal := hloc.visible
  refine ⟨c'.leave, ?_, ?_, ?_⟩
  · rw [keyboardInterrupt_up, hc']
    rfl
  · show OnScreen (c'.term c'.visibleTerminal)
    rw [hv]
    exact hloc.onScreen
  · show SameText _ (c'.term c'.visibleTerminal)
    rw [hv]
    exact htext

/-- The down key of a shell. -/
theorem down_key (hshell : (c.term c.visibleTerminal).shellFlag = true)
    (hcur : fits (c.term c.visibleTerminal).currentBufIndex) :
    ∃ c', c.keyboardInterrupt downKey = some c' ∧
      SameText (c.term c.visibleTerminal).putBack (c'.term c'.visibleTerminal) := by
  have hc : Ready { c with putcToVisibleFlag := true } := ⟨rfl, hs⟩
  obtain ⟨c', hc', hloc⟩ := downArrow_local hc fun _ => hcur
  have htext := downArrow_sameText hc hshell hc'
  have hv : c'.visibleTerminal = c.visibleTerminal := hloc.visible
  refine ⟨c'.leave, ?_, ?_⟩
  · rw [keyboardInterrupt_down, hc']
    rfl
  · show SameText _ (c'.term c'.visibleTerminal)
    rw [hv]
    exact htext

/-- Up and then down: the line is the copy. -/
theorem up_down_keys (hr : c.Recalls)
    (hend : fits (c.term c.visibleTerminal).keyboardBufferEndIdx)
    (hlast : fits (c.term c.visibleTerminal).lastBufIndex)
    (hcur : fits (c.term c.visibleTerminal).currentBufIndex) :
    ∃ c₁ c₂, c.keyboardInterrupt upKey = some c₁ ∧
      SameText (c.term c.visibleTerminal).recalled (c₁.term c₁.visibleTerminal) ∧
      c₁.keyboardInterrupt downKey = some c₂ ∧
      SameText (c.term c.visibleTerminal).recalled.putBack (c₂.term c₂.visibleTerminal) := by
  obtain ⟨c₁, hc₁, hs₁, htext₁⟩ := up_key hs hr hend hlast
  obtain ⟨c₂, hc₂, htext₂⟩ := down_key hs₁ (htext₁.shell.trans hr.1) (by
    rw [htext₁.current]
    exact hcur)
  exact ⟨c₁, c₂, hc₁, htext₁, hc₂, htext₁.putBack.trans htext₂⟩

end

/-- Browsing the history leaves the line alone: up shows the command `l`, down after it puts the
line back, and down alone keeps the characters. -/
structure Browses (c : Console) (l : List UInt8) : Prop where
  up : ∃ c₁ c₂, c.keyboardInterrupt upKey = some c₁ ∧
    (c₁.term c₁.visibleTerminal).lineChars = l ∧
    (c₁.term c₁.visibleTerminal).keyboardBufferEndIdx = l.length ∧
    c₁.keyboardInterrupt downKey = some c₂ ∧
    (c₂.term c₂.visibleTerminal).lineChars = (c.term c.visibleTerminal).lineChars ∧
    (c₂.term c₂.visibleTerminal).keyboardBufferEndIdx
      = (c.term c.visibleTerminal).keyboardBufferEndIdx
  down : ∃ c₁, c.keyboardInterrupt downKey = some c₁ ∧
    (c₁.term c₁.visibleTerminal).lineChars = (c.term c.visibleTerminal).lineChars

/-- **Up and down leave the line alone exactly if the copy is the line.** -/
theorem browses_iff {c : Console} (hs : OnScreen (c.term c.visibleTerminal)) (hr : c.Recalls)
    (hlast : fits (c.term c.visibleTerminal).lastBufIndex)
    (hcur : fits (c.term c.visibleTerminal).currentBufIndex) :
    c.Browses (c.term c.visibleTerminal).lastChars ↔ (c.term c.visibleTerminal).CopyFresh := by
  constructor
  · rintro ⟨⟨c₁, c₂, hc₁, -, -, hc₂, hline, hstop⟩, -⟩
    -- the up key was defined, so that the line fits in its row
    have hend : fits (c.term c.visibleTerminal).keyboardBufferEndIdx := by
      rw [keyboardInterrupt_up] at hc₁
      obtain ⟨c', hc', _⟩ := Option.map_eq_some_iff.mp hc₁
      exact (upArrow_fits (c := { c with putcToVisibleFlag := true }) ⟨rfl, hs⟩ hc' hr).1
    obtain ⟨c₁', c₂', hc₁', -, hc₂', htext⟩ := up_down_keys hs hr hend hlast hcur
    rw [hc₁'] at hc₁
    cases hc₁
    rw [hc₂'] at hc₂
    cases hc₂
    refine ⟨htext.stop.symm.trans hstop, ?_⟩
    calc (c.term c.visibleTerminal).currentChars
        = (c.term c.visibleTerminal).recalled.putBack.lineChars :=
          (TermState.lineChars_putBack _).symm
      _ = (c₂.term c₂.visibleTerminal).lineChars := htext.lineChars.symm
      _ = (c.term c.visibleTerminal).lineChars := hline
  · intro hfresh
    have hend : fits (c.term c.visibleTerminal).keyboardBufferEndIdx := hfresh.stop ▸ hcur
    obtain ⟨c₁, c₂, hc₁, htext₁, hc₂, htext₂⟩ := up_down_keys hs hr hend hlast hcur
    obtain ⟨c₃, hc₃, htext₃⟩ := down_key hs hr.1 hcur
    have hlength : (c.term c.visibleTerminal).lastBufIndex
        = (c.term c.visibleTerminal).lastChars.length := by
      unfold TermState.lastChars
      rw [List.length_map, List.length_range, Int.toNat_of_nonneg hlast.1]
    refine ⟨⟨c₁, c₂, hc₁, ?_, ?_, hc₂, ?_, ?_⟩, c₃, hc₃, ?_⟩
    · exact htext₁.lineChars.trans (TermState.lineChars_recalled _)
    · exact htext₁.stop.trans hlength
    · exact (htext₂.lineChars.trans (TermState.lineChars_putBack _)).trans hfresh.text
    · exact htext₂.stop.trans hfresh.stop
    · exact (htext₃.lineChars.trans (TermState.lineChars_putBack _)).trans hfresh.text

/-! ## Which keys refresh the copy -/

theorem copyFresh_sameLine {s s' : TermState} (h : SameLine s s') : s'.CopyFresh ↔ s.CopyFresh := by
  have htext := sameText_of_sameLine h
  unfold SameText at htext
  rw [TermState.copyFresh_iff, TermState.copyFresh_iff, htext]
  rfl

theorem copyFresh_typeAhead (s : TermState) (ch : UInt8) :
    (typeAhead s ch).CopyFresh ↔ s.CopyFresh := by
  rw [TermState.copyFresh_iff, TermState.copyFresh_iff]
  unfold typeAhead
  split <;> rfl

/-- A character at the right end of the line refreshes the copy. -/
theorem copyFresh_char {c c' : Console} {scancode : UInt8} (hk : c.HasChar scancode.toNat)
    (hp : scancode.toNat ≠ ENTER_PRESSED) (hflag : c.notInPrevCmdFlag = true)
    (hfits : fits (c.term c.visibleTerminal).keyboardCursorIdx)
    (hdist : (c.term c.visibleTerminal).distanceFromRight = 0)
    (hend : (c.term c.visibleTerminal).keyboardCursorIdx
      = (c.term c.visibleTerminal).keyboardBufferEndIdx)
    (h : c.keyboardInterrupt scancode = some c') : (c'.term c.visibleTerminal).CopyFresh := by
  rw [copyFresh_sameLine (char_sameLine hk hp hfits h), copyFresh_typeAhead, hflag]
  generalize c.term c.visibleTerminal = s at *
  generalize c.outputChar scancode.toNat = ch
  -- the copy is taken behind the new character
  have hstop : ((echoOff s).insert ch).keyboardCursorIdx
      = ((echoOff s).insert ch).keyboardBufferEndIdx := by
    obtain ⟨b, hb⟩ := echoOff_eq s
    rw [hb]
    unfold TermState.insert
    split_ifs <;> (try dsimp only at *) <;> omega
  unfold TermState.typeLine TermState.keepCurrent
  rw [if_pos rfl]
  generalize (echoOff s).insert ch = s₁ at hstop
  refine ⟨hstop, ?_⟩
  unfold TermState.currentChars TermState.lineChars
  dsimp only
  rw [← hstop]
  exact TermState.map_range_overlay ..

/-- A backspace at the right end of the line leaves a copy that is too long. -/
theorem not_copyFresh_backspace {c c' : Console} {scancode : UInt8}
    (hp : scancode.toNat = BACKSPACE)
    (hroom : (c.term c.visibleTerminal).keyboardCursorIdx < KEYBOARD_BUFFER_SIZE)
    (hdist : (c.term c.visibleTerminal).distanceFromRight = 0)
    (hpos : 0 < (c.term c.visibleTerminal).keyboardCursorIdx)
    (hfresh : (c.term c.visibleTerminal).CopyFresh)
    (h : c.keyboardInterrupt scancode = some c') : ¬ (c'.term c.visibleTerminal).CopyFresh := by
  rw [copyFresh_sameLine (backspace_key_sameLine hp hroom h)]
  generalize c.term c.visibleTerminal = s at *
  intro hnext
  have hstop := hfresh.stop
  have hback := hnext.stop
  have herase : s.erase.currentBufIndex = s.currentBufIndex ∧
      s.erase.keyboardBufferEndIdx = s.keyboardBufferEndIdx - 1 := by
    unfold TermState.erase
    rw [if_pos ⟨hpos, hdist⟩]
    exact ⟨rfl, rfl⟩
  unfold TermState.eraseLine backspaceAhead at hback
  split at hback <;> (try dsimp only at hback) <;> omega

end Console

end Ext2Kernel
