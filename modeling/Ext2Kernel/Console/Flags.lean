import Ext2Kernel.Console.History

set_option autoImplicit false

/-! # Two flags that no key changes

`shell_flag` says which terminals run a shell, and `too_many_shells_flag` that an execute has
found all process numbers taken. The keyboard handler, terminal switches, terminal reads and
output only read them (`keyboardInterrupt_keepsFlags`).
-/

namespace Ext2Kernel

open ByteMem

namespace Console

/-! ## Output -/

/-- What `_sys_write_terminal` prints. -/
def shownText (c : Console) (buf : Mem) (nbytes : Int) : List UInt8 :=
  if nbytes ≤ 0 then []
  else if c.tooManyShellsFlag
      ∧ strncmp (ofList (ascii "no such command\n")) buf NO_SUCH_CMD_LEN 0 = 0 then tooManyMessage
  else ((List.range nbytes.toNat).map buf).filter (· ≠ 0)

theorem sysWriteTerminal_fst (c : Console) (buf : Mem) (nbytes : Int) :
    (c.sysWriteTerminal buf nbytes).1 = c.putcs (c.shownText buf nbytes) := by
  unfold sysWriteTerminal shownText
  by_cases hneg : nbytes < 0
  · rw [if_pos hneg, if_pos (Int.le_of_lt hneg)]
    rfl
  · rw [if_neg hneg]
    by_cases hzero : nbytes = 0
    · rw [if_pos hzero, if_pos (Int.le_of_eq hzero)]
      rfl
    · have hpos : ¬ nbytes ≤ 0 := by omega
      rw [if_neg hzero, if_neg hpos]
      by_cases hmany : c.tooManyShellsFlag = true ∧
          strncmp (ofList (ascii "no such command\n")) buf NO_SUCH_CMD_LEN 0 = 0
      · rw [if_pos hmany, if_pos hmany]
      · rw [if_neg hmany, if_neg hmany]

theorem KeepsFlags.putcs (c : Console) (l : List UInt8) : KeepsFlags c (c.putcs l) :=
  (KeepsFlags.refl c).drawn (drawn_putcs ..)

theorem KeepsFlags.write {c c' : Console} (h : KeepsFlags c c') (buf : Mem) (nbytes : Int) :
    KeepsFlags c (c'.sysWriteTerminal buf nbytes).1 := by
  rw [sysWriteTerminal_fst]
  exact h.trans (.putcs ..)

/-! ## The arrows -/

theorem KeepsFlags.toLineEnd (n : Nat) (c : Console) : KeepsFlags c (toLineEnd n c) := by
  induction n generalizing c with
  | zero => exact .refl c
  | succ n ih =>
      have hright := (KeepsFlags.refl c).drawn (drawn_rightArrow c)
      refine KeepsFlags.trans ?_ (ih _)
      refine hright.modify _ ?_
      exact fun _ => rfl

theorem KeepsFlags.backspaces (n : Nat) (c : Console) : KeepsFlags c (backspace^[n] c) := by
  induction n generalizing c with
  | zero => exact .refl c
  | succ n ih =>
      rw [Function.iterate_succ_apply]
      exact ((KeepsFlags.refl c).drawn (drawn_backspace c)).trans (ih _)

theorem KeepsFlags.eraseLine (n : Nat) (c : Console) : KeepsFlags c (eraseLine n c) := by
  induction n generalizing c with
  | zero =>
      refine (KeepsFlags.refl c).modify _ ?_
      exact fun _ => rfl
  | succ n ih =>
      refine KeepsFlags.trans ?_ (ih _)
      refine KeepsFlags.drawn ?_ (drawn_backspace _)
      refine (KeepsFlags.refl c).modify _ ?_
      exact fun _ => rfl

theorem upArrow_keepsFlags {c c' : Console} (h : c.upArrow = some c') : KeepsFlags c c' := by
  unfold upArrow at h
  dsimp only at h
  split at h
  · split at h
    · cases h
      refine KeepsFlags.modify ?_ _ fun _ => rfl
      refine KeepsFlags.write ?_ _ _
      refine KeepsFlags.trans ?_ (.backspaces ..)
      refine KeepsFlags.modify ?_ _ fun _ => rfl
      have hflag : KeepsFlags c { c with notInPrevCmdFlag := false } := ⟨fun _ => rfl, rfl⟩
      exact hflag.trans (.toLineEnd ..)
    · cases h
  · cases h
    exact .refl c

theorem downArrow_keepsFlags {c c' : Console} (h : c.downArrow = some c') : KeepsFlags c c' := by
  unfold downArrow at h
  dsimp only at h
  split at h
  · split at h
    · cases h
      refine KeepsFlags.modify ?_ _ fun _ => rfl
      refine KeepsFlags.write ?_ _ _
      refine KeepsFlags.trans ?_ (.eraseLine ..)
      refine KeepsFlags.modify ?_ _ fun _ => rfl
      have hflag : KeepsFlags c { c with notInPrevCmdFlag := true } := ⟨fun _ => rfl, rfl⟩
      exact hflag.trans (.toLineEnd ..)
    · cases h
  · cases h
    exact .refl c

/-! ## Characters and Enter -/

theorem saveCommand_shellFlag {s s' : TermState} (h : saveCommand s = some s') :
    s'.shellFlag = s.shellFlag := by
  unfold saveCommand at h
  split at h
  · split at h
    · cases h
      rfl
    · cases h
  · cases h
    rfl

theorem KeepsFlags.enterKey {c c' c'' : Console} (h : KeepsFlags c c') {pressed : Nat}
    {ch : UInt8} (h' : c'.enterKey pressed ch = some c'') : KeepsFlags c c'' := by
  unfold Console.enterKey at h'
  dsimp only at h'
  split at h'
  · obtain ⟨c₁, hend, h'⟩ := Option.bind_eq_some_iff.mp h'
    obtain ⟨s, hs, rfl⟩ := Option.map_eq_some_iff.mp h'
    have hflag : KeepsFlags c' { c' with notInPrevCmdFlag := true } := ⟨fun _ => rfl, rfl⟩
    have hended := (KeepsHistory.refl _).endLine hend
    refine (h.trans (hflag.trans hended.toKeepsFlags)).trans ⟨fun t => ?_, rfl⟩
    by_cases ht : t = c'.visibleTerminal
    · rw [ht, modify_term_self]
      show s.shellFlag = _
      exact saveCommand_shellFlag hs
    · rw [modify_term_ne _ _ _ ht]
  · cases h'
    exact h

theorem charKey_keepsFlags {c c' : Console} {pressed : Nat} (h : c.charKey pressed = some c') :
    KeepsFlags c c' := by
  rw [charKey_eq] at h
  obtain ⟨c₁, hc₁, rfl⟩ := Option.map_eq_some_iff.mp h
  obtain ⟨c₂, hc₂, hc₁⟩ := Option.bind_eq_some_iff.mp hc₁
  obtain ⟨c₃, hc₃, hc₁⟩ := Option.bind_eq_some_iff.mp hc₁
  obtain ⟨c₄, hc₄, rfl⟩ := Option.map_eq_some_iff.mp hc₁
  have hinsert := (KeepsHistory.refl c).insertChar hc₂
  have hsave := (KeepsHistory.refl c₃).saveCurrent hc₄
  have hfinish := (KeepsHistory.refl c₄).finish c.visibleTerminal (c.outputChar pressed)
  have hlater := (hsave.trans hfinish).leave
  exact (hinsert.toKeepsFlags.enterKey hc₃).trans hlater.toKeepsFlags

/-! ## Every key -/

/-- **No key changes the two flags.** -/
theorem keyboardInterrupt_keepsFlags {c c' : Console} {scancode : UInt8}
    (h : c.keyboardInterrupt scancode = some c') : KeepsFlags c c' := by
  have hstart : KeepsFlags c { c with putcToVisibleFlag := true } := ⟨fun _ => rfl, rfl⟩
  by_cases henter : scancode.toNat = ENTER_PRESSED
  · rw [keyboardInterrupt_char (henter ▸ c.hasChar_enter)] at h
    exact hstart.trans (charKey_keepsFlags h)
  · by_cases hup : scancode.toNat = UP_ARROW_PRESSED
    · rw [keyboardInterrupt_eq, if_pos hup] at h
      obtain ⟨c₁, hc₁, rfl⟩ := Option.map_eq_some_iff.mp h
      have harrow := upArrow_keepsFlags hc₁
      exact hstart.trans ⟨harrow.shell, harrow.shells⟩
    · by_cases hdown : scancode.toNat = DOWN_ARROW_PRESSED
      · rw [keyboardInterrupt_eq, if_neg hup, if_pos hdown] at h
        obtain ⟨c₁, hc₁, rfl⟩ := Option.map_eq_some_iff.mp h
        have harrow := downArrow_keepsFlags hc₁
        exact hstart.trans ⟨harrow.shell, harrow.shells⟩
      · exact (keyboardInterrupt_keepsHistory hup hdown henter h).toKeepsFlags

end Console

end Ext2Kernel
