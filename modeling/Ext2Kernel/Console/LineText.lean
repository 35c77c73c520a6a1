import Ext2Kernel.Console.LineIndices

set_option autoImplicit false

/-! # The text of the line

What a reader finds when it resumes is the row of `keyboard_buffer`, and it resumes when its
flag is cleared. The two are the `LineText` of a terminal. The keys that type a line (a
character, backspace, Enter) and the start of a read change it as said here; nothing else a
program or another terminal does changes it.
-/

namespace Ext2Kernel

open ByteMem

/-- The row of the line and the flag its reader waits for. -/
structure LineText where
  row : Mem
  reading : Bool

def TermState.lineText (s : TermState) : LineText := ⟨s.keyboardBuffer, s.sysReadFlag⟩

/-- A byte of the row. -/
def LineText.store (l : LineText) (i : Int) (b : UInt8) : LineText :=
  { l with row := Function.update l.row i.toNat b }

theorem sameLine_lineText {s s' : TermState} (h : SameLine s s') : s'.lineText = s.lineText := by
  unfold SameLine at h
  rw [h]
  rfl

namespace Console

/-! ## The keys of a line -/

theorem keyboardInterrupt_backspace {c : Console} {scancode : UInt8}
    (h : scancode.toNat = BACKSPACE) :
    c.keyboardInterrupt scancode = backspaceKey { c with putcToVisibleFlag := true } := by
  rw [keyboardInterrupt_eq, h, if_neg (by decide), if_neg (by decide)]
  unfold afterArrows
  dsimp only
  rw [if_pos rfl]

/-- The key has a character, or is Enter. -/
def HasChar (c : Console) (pressed : Nat) : Prop :=
  c.Plain pressed ∧ pressed ≤ START_IGNORE ∧ pressed ≠ BACKSPACE ∧
    ¬ ((c.term c.visibleTerminal).controlOn = true ∧ pressed = L_SCANCODE)

theorem hasChar_enter (c : Console) : c.HasChar ENTER_PRESSED :=
  ⟨⟨by decide, fun _ => by decide⟩, by decide, by decide, fun hk => absurd hk.2 (by decide)⟩

theorem keyboardInterrupt_char {c : Console} {scancode : UInt8} (h : c.HasChar scancode.toNat) :
    c.keyboardInterrupt scancode = charKey { c with putcToVisibleFlag := true } scancode.toNat := by
  obtain ⟨hp, hle, hback, hctrl⟩ := h
  have hne : ∀ code, START_IGNORE < code → scancode.toNat ≠ code := by
    intro code hlt heq
    omega
  have hswitch := hp.no_switch
  rw [keyboardInterrupt_eq, if_neg (hne _ (by decide)), if_neg (hne _ (by decide))]
  unfold afterArrows
  dsimp only
  rw [if_neg hback, if_neg fun hk => absurd hk.1 (hne _ (by decide)),
    if_neg fun hk => absurd hk.1 (hne _ (by decide)), modifierKey_eq_none _ hp.modifier, hswitch]
  dsimp only
  unfold lineKey
  dsimp only
  rw [if_neg hctrl, if_neg]
  unfold START_IGNORE START_RELEASED RIGHT_CONTROL_TAG at *
  omega

/-- A code that is no character, where neither the left nor the right arrow is taken. -/
theorem afterArrows_ignored {c : Console} {pressed : Nat} (hp : c.Plain pressed)
    (hgt : START_IGNORE < pressed)
    (hleft : ¬ (pressed = LEFT_ARROW_PRESSED ∧ (c.term c.visibleTerminal).shellFlag))
    (hright : ¬ (pressed = RIGHT_ARROW_PRESSED ∧ (c.term c.visibleTerminal).distanceFromRight > 0
      ∧ (c.term c.visibleTerminal).keyboardCursorIdx < KEYBOARD_BUFFER_SIZE - 1
      ∧ (c.term c.visibleTerminal).shellFlag)) : c.afterArrows pressed = some c.leave := by
  have hback : pressed ≠ BACKSPACE := by
    rintro rfl
    exact absurd hgt (by decide)
  have hswitch := hp.no_switch
  unfold afterArrows
  dsimp only
  rw [if_neg hback, if_neg hleft, if_neg hright, modifierKey_eq_none _ hp.modifier, hswitch]
  exact lineKey_ignored _ hgt

/-- The release of a key, and the other codes the handler ignores. -/
def IgnoredKey (c : Console) (pressed : Nat) : Prop :=
  c.Plain pressed ∧ START_IGNORE < pressed ∧
    pressed ∉ [UP_ARROW_PRESSED, DOWN_ARROW_PRESSED, LEFT_ARROW_PRESSED, RIGHT_ARROW_PRESSED]

instance (c : Console) (pressed : Nat) : Decidable (c.IgnoredKey pressed) :=
  inferInstanceAs (Decidable (_ ∧ _ ∧ ¬ _ ∈ _))

theorem keyboardInterrupt_ignored {c : Console} {scancode : UInt8}
    (h : c.IgnoredKey scancode.toNat) :
    c.keyboardInterrupt scancode = some (leave { c with putcToVisibleFlag := true }) := by
  obtain ⟨hp, hgt, harrow⟩ := h
  simp only [List.mem_cons, List.not_mem_nil, or_false, not_or] at harrow
  rw [keyboardInterrupt_eq, if_neg harrow.1, if_neg harrow.2.1]
  apply afterArrows_ignored (c := { c with putcToVisibleFlag := true })
  · exact ⟨hp.modifier, hp.switch⟩
  · exact hgt
  · exact fun hk => harrow.2.2.1 hk.1
  · exact fun hk => harrow.2.2.2 hk.1

theorem keyboardInterrupt_modifier (c : Console) {scancode : UInt8}
    (h : scancode.toNat ∈ modifierCodes) :
    c.keyboardInterrupt scancode = { c with putcToVisibleFlag := true }.modifierKey
      scancode.toNat := by
  have hne : ∀ code, code ∉ modifierCodes → scancode.toNat ≠ code := by
    rintro code hcode rfl
    exact hcode h
  obtain ⟨c', hc'⟩ := Option.ne_none_iff_exists'.mp
    (modifierKey_ne_none { c with putcToVisibleFlag := true } h)
  rw [keyboardInterrupt_eq, if_neg (hne _ (by decide)), if_neg (hne _ (by decide))]
  unfold afterArrows
  dsimp only
  rw [if_neg (hne _ (by decide)), if_neg fun hk => absurd hk.1 (hne _ (by decide)),
    if_neg fun hk => absurd hk.1 (hne _ (by decide)), hc']

/-- A store into the row of the visible terminal. -/
theorem storeKbd_lineText {c c' : Console} {v : Terminal} {i : Int} {b : UInt8} (h₀ : 0 ≤ i)
    (h₁ : i < KEYBOARD_BUFFER_SIZE) (h : c.storeKbd v i b = some c') :
    (c'.term v).lineText = (c.term v).lineText.store i b := by
  rw [storeKbd_own c v b h₀ h₁] at h
  cases h
  rw [modify_term_self]
  rfl

/-- Backspace at the right end of the line. -/
theorem backspace_lineText {c c' : Console} {scancode : UInt8} (hp : scancode.toNat = BACKSPACE)
    (h : c.keyboardInterrupt scancode = some c')
    (hdist : (c.term c.visibleTerminal).distanceFromRight = 0)
    (hcur : (c.term c.visibleTerminal).keyboardCursorIdx < KEYBOARD_BUFFER_SIZE) :
    (c'.term c.visibleTerminal).lineText =
      if (c.term c.visibleTerminal).keyboardCursorIdx > 0 then
        (c.term c.visibleTerminal).lineText.store (c.term c.visibleTerminal).keyboardCursorIdx 0
      else (c.term c.visibleTerminal).lineText := by
  rw [keyboardInterrupt_backspace hp] at h
  obtain ⟨c₁, hc₁, rfl⟩ := Option.map_eq_some_iff.mp h
  have hdrawn := drawn_backspace { c with putcToVisibleFlag := true }
  have htext := sameLine_lineText hdrawn.line
  have hline := sameLine_lineIdx hdrawn.line
  have hframe := (backspaceLine_frame hc₁).1
  generalize Console.backspace { c with putcToVisibleFlag := true } = c₀ at *
  dsimp only at hdrawn htext hline
  have hv : c₀.visibleTerminal = c.visibleTerminal := hdrawn.visible
  have hahead : ∀ s : TermState, (backspaceAhead s).lineText = s.lineText := by
    intro s
    unfold backspaceAhead
    split <;> rfl
  have hcursor : (c₀.term c.visibleTerminal).keyboardCursorIdx
      = (c.term c.visibleTerminal).keyboardCursorIdx := congrArg LineIdx.cursor hline
  have hdist' : (c₀.term c.visibleTerminal).distanceFromRight
      = (c.term c.visibleTerminal).distanceFromRight := congrArg LineIdx.distance hline
  rw [leave_term, hframe, hv, modify_term_self, hahead]
  unfold backspaceLine at hc₁
  dsimp only at hc₁
  rw [hv, hcursor, hdist'] at hc₁
  split at hc₁
  · rename_i hend
    obtain ⟨c₂, hc₂, rfl⟩ := Option.map_eq_some_iff.mp hc₁
    rw [if_pos hend.1, modify_term_self, ← htext, ← storeKbd_lineText (by omega) hcur hc₂]
    rfl
  · rename_i hend
    rw [if_neg fun hpos => hend ⟨hpos, hdist⟩]
    rw [if_neg fun hpos => hend ⟨hpos, hdist⟩] at hc₁
    cases hc₁
    exact htext

/-- The echo and the type-ahead leave the line alone. -/
theorem finish_lineText (c : Console) (v : Terminal) (ch : UInt8) :
    ((c.finish v ch).term v).lineText = (c.term v).lineText := by
  have hahead : ∀ s : TermState, (typeAhead s ch).lineText = s.lineText := by
    intro s
    unfold typeAhead
    split <;> rfl
  unfold finish
  rw [sameLine_lineText (wrap_scroll_sameLine ..), modify_term_self, hahead]
  unfold echo
  split
  · rw [sameLine_lineText (putc_sameLine ..)]
  · rfl

theorem saveCurrent_lineText {c c' : Console} (h : c.saveCurrent = some c') :
    (c'.term c.visibleTerminal).lineText = (c.term c.visibleTerminal).lineText := by
  unfold saveCurrent at h
  dsimp only at h
  split at h
  · split at h
    · cases h
      rw [modify_term_self]
      rfl
    · cases h
  · cases h
    rfl

theorem echoOff_lineText (s : TermState) : (echoOff s).lineText = s.lineText ∧
    (echoOff s).lineIdx = s.lineIdx := by
  obtain ⟨b, hb⟩ := echoOff_eq s
  rw [hb]
  exact ⟨rfl, rfl⟩

/-- A character that fits is stored at the cursor. -/
theorem char_lineText {c c' : Console} {scancode : UInt8} (hk : c.HasChar scancode.toNat)
    (hp : scancode.toNat ≠ ENTER_PRESSED) (h : c.keyboardInterrupt scancode = some c')
    (hcur : 0 ≤ (c.term c.visibleTerminal).keyboardCursorIdx) :
    (c'.term c.visibleTerminal).lineText =
      if (c.term c.visibleTerminal).keyboardCursorIdx < KEYBOARD_BUFFER_SIZE - 1 then
        (c.term c.visibleTerminal).lineText.store (c.term c.visibleTerminal).keyboardCursorIdx
          (c.outputChar scancode.toNat)
      else (c.term c.visibleTerminal).lineText := by
  rw [keyboardInterrupt_char hk, charKey_eq] at h
  obtain ⟨c₄, hblock, rfl⟩ := Option.map_eq_some_iff.mp h
  obtain ⟨c₁, hc₁, hrest⟩ := Option.bind_eq_some_iff.mp hblock
  rw [enterKey_char c₁ hp, Option.bind_some] at hrest
  obtain ⟨c₂, hc₂, rfl⟩ := Option.map_eq_some_iff.mp hrest
  have hsave := saveCurrent_lineText hc₂
  have hv := (insertChar_lineIdx hp hc₁).2.1.visible
  rw [modify_visibleTerminal] at hv
  dsimp only at hv
  rw [hv] at hsave
  rw [leave_term, finish_lineText, hsave]
  unfold insertChar at hc₁
  dsimp only [modify_visibleTerminal] at hc₁
  rw [modify_term_self] at hc₁
  have hcursor : (echoOff (c.term c.visibleTerminal)).keyboardCursorIdx
      = (c.term c.visibleTerminal).keyboardCursorIdx :=
    congrArg LineIdx.cursor (echoOff_lineText _).2
  rw [hcursor] at hc₁
  split at hc₁
  · rename_i hroom
    obtain ⟨c₃, hc₃, rfl⟩ := Option.map_eq_some_iff.mp hc₁
    have hstore := storeKbd_lineText hcur (by omega) hc₃
    rw [modify_term_self] at hstore
    dsimp only at hstore
    rw [(echoOff_lineText _).1] at hstore
    rw [if_pos hroom.1, modify_term_self]
    exact hstore
  · rename_i hroom
    cases hc₁
    rw [if_neg fun hlt => hroom ⟨hlt, hp⟩, modify_term_self]
    exact (echoOff_lineText _).1

theorem outputChar_enter (c : Console) : c.outputChar ENTER_PRESSED = 10 := by
  have hplain : scancodeToChar[ENTER_PRESSED * 2]? = some 10 := by decide +kernel
  have hshift : scancodeToChar[ENTER_PRESSED * 2 + 1]? = some 10 := by decide +kernel
  unfold outputChar
  dsimp only
  by_cases h : shifted (c.term c.visibleTerminal) ENTER_PRESSED = true
  · rw [if_pos h, hshift]
  · rw [if_neg h, hplain]

/-- Enter stores the newline at the end of the line and wakes the reader. -/
theorem enter_lineText {c c' : Console} {scancode : UInt8} (hk : c.HasChar scancode.toNat)
    (hp : scancode.toNat = ENTER_PRESSED) (h : c.keyboardInterrupt scancode = some c')
    (hstop : 0 ≤ (c.term c.visibleTerminal).keyboardBufferEndIdx ∧
      (c.term c.visibleTerminal).keyboardBufferEndIdx < KEYBOARD_BUFFER_SIZE) :
    (c'.term c.visibleTerminal).lineText =
      { (c.term c.visibleTerminal).lineText.store
          (c.term c.visibleTerminal).keyboardBufferEndIdx 10 with reading := false } := by
  rw [keyboardInterrupt_char hk, hp, charKey_eq] at h
  obtain ⟨c₄, hblock, rfl⟩ := Option.map_eq_some_iff.mp h
  rw [insertChar_enter, Option.bind_some] at hblock
  obtain ⟨c₂, hc₂, hrest⟩ := Option.bind_eq_some_iff.mp hblock
  obtain ⟨c₃, hc₃, rfl⟩ := Option.map_eq_some_iff.mp hrest
  have hv := (enterKey_lineIdx hc₂).2.1
  have hsave := saveCurrent_lineText hc₃
  rw [modify_visibleTerminal] at hv
  dsimp only at hv
  rw [hv] at hsave
  rw [leave_term, finish_lineText, hsave]
  unfold enterKey at hc₂
  dsimp only [modify_visibleTerminal] at hc₂
  rw [if_pos rfl] at hc₂
  obtain ⟨c₅, hc₅, hmap⟩ := Option.bind_eq_some_iff.mp hc₂
  obtain ⟨s, hs, rfl⟩ := Option.map_eq_some_iff.mp hmap
  have hcommand : s.keyboardBuffer = (c₅.term c.visibleTerminal).keyboardBuffer := by
    unfold saveCommand at hs
    split at hs
    · split at hs
      · cases hs
        rfl
      · cases hs
    · cases hs
      rfl
  have hend : (echoOff (c.term c.visibleTerminal)).keyboardBufferEndIdx
      = (c.term c.visibleTerminal).keyboardBufferEndIdx :=
    congrArg LineIdx.stop (echoOff_lineText _).2
  unfold endLine at hc₅
  dsimp only at hc₅
  rw [modify_term_self, hend, if_pos hstop.2, outputChar_enter] at hc₅
  obtain ⟨c₆, hc₆, rfl⟩ := Option.map_eq_some_iff.mp hc₅
  have hstore := storeKbd_lineText hstop.1 hstop.2 hc₆
  dsimp only at hstore
  rw [modify_term_self, (echoOff_lineText _).1] at hstore
  rw [modify_term_self] at hcommand
  rw [modify_term_self]
  show (⟨s.keyboardBuffer, false⟩ : LineText) = _
  rw [hcommand]
  show (⟨(c₆.term c.visibleTerminal).lineText.row, false⟩ : LineText) = _
  rw [hstore]

/-! ## The start of a read -/

/-- The row after the start of a read: cleared, with the saved characters over it if the read
puts them back. -/
def startRow (s : TermState) : Mem :=
  let cleared := overlay s.keyboardBuffer 0 KEYBOARD_BUFFER_SIZE fun _ => 0
  if replays s then overlay cleared 0 s.tempKbdIdx.toNat s.tempKbdBuf else cleared

theorem readTerminalStart_lineText {c c' : Console} (h : c.readTerminalStart = some c')
    (t : Terminal) : (c'.term t).lineText =
      if t = c.processTerminal then ⟨startRow (c.term t), true⟩ else (c.term t).lineText := by
  by_cases ht : t = c.processTerminal
  · subst ht
    rw [if_pos rfl]
    unfold startRow
    dsimp only
    rcases readTerminalStart_cases h with ⟨hr, rfl⟩ | ⟨hr, _, rfl⟩
    · rw [hr, if_neg Bool.false_ne_true, modify_term_self, modify_term_self]
      rfl
    · rw [hr, if_pos rfl, modify_term_self, modify_term_self]
      show (⟨(((((c.modify c.processTerminal clearLine).modify c.processTerminal
        restoreLine).putcs _).term c.processTerminal).lineText).row, true⟩ : LineText) = _
      rw [sameLine_lineText (putcs_sameLine ..), modify_term_self, modify_term_self]
      rfl
  · rw [if_neg ht, sameLine_lineText (readTerminalStart_sameLine h ht)]

/-- A read is defined when the saved characters fit the row. -/
theorem readTerminalStart_defined {c : Console}
    (h : fits (c.term c.processTerminal).tempKbdIdx) : ∃ c', c.readTerminalStart = some c' := by
  unfold readTerminalStart
  dsimp only
  rw [modify_term_self]
  by_cases hr : replays (clearLine (c.term c.processTerminal)) = true
  · rw [if_pos hr]
    unfold replay
    dsimp only
    have hfits : fits (clearLine (c.term c.processTerminal)).tempKbdIdx := h
    rw [modify_term_self, if_pos hfits]
    exact ⟨_, rfl⟩
  · rw [if_neg hr]
    exact ⟨_, rfl⟩

end Console

end Ext2Kernel
