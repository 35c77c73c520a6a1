import Ext2Kernel.Console.History
import Ext2Kernel.Process.LineDelivery

set_option autoImplicit false

/-! # A typed line is what the read returns

A process of the shown terminal has blocked in `_sys_read_terminal` with an empty line. While
characters and backspaces are typed, whatever else the kernel does, the line editor holds what a
simple reference editor holds (`reference`); after Enter the read returns it. `Typing` is the
invariant: the bytes of the row behind the cursor, which backspace leaves there, are not part
of it.
-/

namespace Ext2Kernel

open ByteMem

/-! ## The reference -/

namespace Console

/-- The key prints: its scancode is that of a character key, and the selected character is
neither NUL nor a newline. -/
def PrintingKey (c : Console) (pressed : Nat) : Prop :=
  pressed ≤ 0x39 ∧ c.outputChar pressed ≠ 0 ∧ c.outputChar pressed ≠ 10

instance (c : Console) (pressed : Nat) : Decidable (c.PrintingKey pressed) :=
  inferInstanceAs (Decidable (_ ∧ _ ∧ _))

/-- What a key does to the line of the reference editor, which holds 127 characters. -/
def referenceKey (c : Console) (pressed : Nat) (l : List UInt8) : List UInt8 :=
  if pressed = BACKSPACE then l.dropLast
  else if c.PrintingKey pressed ∧ l.length < 127 then l ++ [c.outputChar pressed]
  else l

/-- The keys that select characters: the shift keys and caps lock. -/
def shiftCodes : List Nat :=
  [CAPS_LOCK_PRESSED, LEFT_SHIFT_PRESSED, RIGHT_SHIFT_PRESSED, LEFT_SHIFT_RELEASED,
    RIGHT_SHIFT_RELEASED]

/-- The keys of a line before Enter: printing keys and backspace, the shift keys, and the
release of any key. -/
def LineKey (c : Console) (pressed : Nat) : Prop :=
  c.PrintingKey pressed ∨ pressed = BACKSPACE ∨ pressed ∈ shiftCodes ∨ START_RELEASED ≤ pressed

instance (c : Console) (pressed : Nat) : Decidable (c.LineKey pressed) :=
  inferInstanceAs (Decidable (_ ∨ _ ∨ _ ∨ _))

/-- The variables of the shown terminal. -/
def shown (c : Console) : TermState := c.term c.visibleTerminal

end Console

namespace Kernel

/-- What an event does to the line of the reference editor. -/
def referenceEvent (k : Kernel) (e : Event) (l : List UInt8) : List UInt8 :=
  match e with
  | .keyboard scancode => k.console.referenceKey scancode.toNat l
  | _ => l

/-- The line of the reference editor after a run of events. -/
def reference (fs : FileSys) : Kernel → List Event → List UInt8 → List UInt8
  | _, [], l => l
  | k, e :: es, l =>
      match step fs k e with
      | some k' => reference fs k' es (k.referenceEvent e l)
      | none => k.referenceEvent e l

/-- The process of the shown terminal starts to read the terminal. -/
def StartsRead (k : Kernel) (fd : Int) (bufNull : Bool) (nbytes : Int) : Prop :=
  k.processTerminal = k.visibleTerminal ∧ k.ReadsTerminal fd bufNull nbytes

instance (k : Kernel) (fd : Int) (bufNull : Bool) (nbytes : Int) :
    Decidable (k.StartsRead fd bufNull nbytes) :=
  inferInstanceAs (Decidable (_ ∧ _ ∧ ∃ _p : Slot, _ ∧ _ ∧ _))

/-- The events while the line is typed: keys of the line, and whatever else the kernel does
while the reader is blocked and its terminal is shown. -/
def TypingEvent (fs : FileSys) (k : Kernel) : Event → Prop
  | .keyboard scancode => k.console.LineKey scancode.toNat
  | .switch _ => False
  | .read stack fd bufNull nbytes =>
      ¬ k.StartsRead fd bufNull nbytes ∧ (step fs k (.read stack fd bufNull nbytes)).isSome
  | e => (step fs k e).isSome

instance (fs : FileSys) (k : Kernel) (e : Event) : Decidable (k.TypingEvent fs e) :=
  match e, e.view with
  | _, .keyboard scancode => inferInstanceAs (Decidable (k.console.LineKey scancode.toNat))
  | _, .switch _ => inferInstanceAs (Decidable False)
  | _, .read _ fd bufNull nbytes =>
      inferInstanceAs (Decidable (¬ k.StartsRead fd bufNull nbytes ∧ _))
  | _, .resumeTerminal _ | _, .execute _ _ => inferInstanceAs (Decidable (_ = true))
  | e, .other h => decidable_of_iff ((step fs k e).isSome = true)
      (by cases e <;> first | exact Iff.rfl | cases h)

/-- The events between Enter and the return of the reader: no further key. -/
def ResumingEvent (fs : FileSys) (k : Kernel) : Event → Prop
  | .keyboard _ => False
  | e => TypingEvent fs k e

end Kernel

/-- The variables of a terminal that only its keys and its own reads change. -/
def TermState.kept (s : TermState) : TermState :=
  { s with
    screenX := 0
    screenY := 0
    forwardNext := 0
    backwardNext := 0
    shellFlag := false
    typingDuringProgFlag := false }

theorem kept_sameLine {s s' : TermState} (h : SameLine s s') : s'.kept = s.kept := by
  unfold SameLine at h
  rw [h]
  rfl

/-! ## The keys -/

namespace Console

section

variable {c : Console} {pressed : Nat}

/-- The other keys below `START_IGNORE` have no character. -/
theorem PrintingKey.ne_of_blank (h : c.PrintingKey pressed) {code : Nat}
    (hplain : scancodeToChar[code * 2]? = some 0)
    (hshift : scancodeToChar[code * 2 + 1]? = some 0) : pressed ≠ code := by
  rintro rfl
  refine h.2.1 ?_
  unfold outputChar
  dsimp only
  by_cases hs : shifted (c.term c.visibleTerminal) pressed = true
  · rw [if_pos hs, hshift]
  · rw [if_neg hs, hplain]

theorem PrintingKey.printableKey (h : c.PrintingKey pressed) (hmod : c.shown.NoCtrlAlt) :
    c.PrintableKey pressed := by
  have hle := h.1
  have hgt : ∀ code, 0x39 < code → pressed ≠ code := by
    intro code hlt heq
    omega
  have henter : pressed ≠ ENTER_PRESSED := by
    rintro rfl
    exact h.2.2 (outputChar_enter c)
  have hplain : c.Plain pressed := by
    refine ⟨?_, fun halt => ?_⟩
    · unfold modifierCodes
      simp only [List.mem_cons, List.not_mem_nil, or_false, not_or]
      exact ⟨hgt _ (by decide), h.ne_of_blank (by decide +kernel) (by decide +kernel),
        h.ne_of_blank (by decide +kernel) (by decide +kernel), hgt _ (by decide),
        hgt _ (by decide), h.ne_of_blank (by decide +kernel) (by decide +kernel),
        hgt _ (by decide), h.ne_of_blank (by decide +kernel) (by decide +kernel),
        hgt _ (by decide)⟩
    · exact absurd (halt.symm.trans hmod.2) (by decide)
  refine ⟨⟨hplain, hle.trans (by decide), ?_, fun hk => ?_⟩, henter, hgt _ (by decide),
    h.2.1, h.2.2⟩
  · exact h.ne_of_blank (by decide +kernel) (by decide +kernel)
  · exact absurd (hk.1.symm.trans hmod.1) (by decide)

end

/-- A modifier key that is released, or selects characters, sets neither Ctrl nor Alt. -/
theorem modifierKey_noCtrlAlt {c c' : Console} {pressed : Nat}
    (hp : pressed ∈ shiftCodes ∨ START_RELEASED ≤ pressed) (h : c.modifierKey pressed = some c')
    (t : Terminal) (hmod : (c.term t).NoCtrlAlt) : (c'.term t).NoCtrlAlt := by
  have hctrl : pressed ≠ LEFT_CONTROL_PRESSED := by
    rintro rfl
    revert hp
    decide
  have halt : pressed ≠ LEFT_ALT_PRESSED := by
    rintro rfl
    revert hp
    decide
  unfold modifierKey at h
  split_ifs at h
  all_goals first
    | contradiction
    | cases h; exact hmod
    | cases h; exact ⟨rfl, hmod.2⟩
    | cases h; exact ⟨hmod.1, rfl⟩

/-- What is the same after events that are no keys of the shown terminal and no reads of it. -/
structure Undisturbed (c c' : Console) : Prop where
  visible : c'.visibleTerminal = c.visibleTerminal
  kept : c'.shown.kept = c.shown.kept
  fresh : c'.notInPrevCmdFlag = c.notInPrevCmdFlag
  behindScancodes : c'.behindScancodes = c.behindScancodes

namespace Undisturbed

theorem refl (c : Console) : Undisturbed c c := ⟨rfl, rfl, rfl, rfl⟩

theorem trans {c c' c'' : Console} (h : Undisturbed c c') (h' : Undisturbed c' c'') :
    Undisturbed c c'' :=
  ⟨h'.visible.trans h.visible, h'.kept.trans h.kept, h'.fresh.trans h.fresh,
    h'.behindScancodes.trans h.behindScancodes⟩

section

variable {c c' : Console} (h : Undisturbed c c')

include h

theorem idx : c'.shown.lineIdx = c.shown.lineIdx := by
  have hkept := congrArg TermState.lineIdx h.kept
  exact hkept

theorem text : c'.shown.lineText = c.shown.lineText := by
  have hkept := congrArg TermState.lineText h.kept
  exact hkept

theorem sameShown : SameShown c c' := by
  have hidx := h.idx
  have htext := h.text
  unfold shown at hidx htext
  rw [h.visible] at hidx htext
  exact ⟨h.visible, hidx, htext⟩

theorem echo : c'.shown.echoFlag = c.shown.echoFlag := by
  have hkept := congrArg TermState.echoFlag h.kept
  exact hkept

theorem noCtrlAlt (hmod : c.shown.NoCtrlAlt) : c'.shown.NoCtrlAlt := by
  have hctrl := congrArg TermState.controlOn h.kept
  have halt := congrArg TermState.altOn h.kept
  exact ⟨hctrl.trans hmod.1, halt.trans hmod.2⟩

end

end Undisturbed

theorem Background.undisturbed {c c' : Console} (h : Background c c') : Undisturbed c c' := by
  refine ⟨h.sameShown.visible, ?_, h.notInPrevCmdFlag, h.behindScancodes⟩
  unfold shown
  rw [h.sameShown.visible]
  apply h.keeps
  · exact fun _ _ hs => kept_sameLine hs
  · exact fun _ _ => rfl
  · exact fun _ => rfl

/-- A read of another terminal. -/
theorem readTerminalStart_undisturbed {c c' : Console} (h : c.readTerminalStart = some c')
    (hother : c.visibleTerminal ≠ c.processTerminal) : Undisturbed c c' := by
  have hv := (Kernel.readTerminalStart_terminals h).2
  refine ⟨hv, ?_, (KeepsHistory.readTerminalStart h).flag, ?_⟩
  · unfold shown
    rw [hv]
    exact kept_sameLine (readTerminalStart_sameLine h hother)
  · rcases readTerminalStart_cases h with ⟨_, rfl⟩ | ⟨_, _, rfl⟩
    · rfl
    · exact (drawn_putcs _ _).behindScancodes

end Console

/-! ## Typing -/

namespace Kernel

open Console (AllOnScreen)

/-- Terminal `t` is shown, and its line editor holds what the reference editor holds. -/
structure Typing (t : Terminal) (k : Kernel) (l : List UInt8) : Prop where
  onScreen : AllOnScreen k.console
  visible : k.visibleTerminal = t
  line : Console.Holds k.console.shown l
  printable : Printable l
  length : l.length ≤ 127
  modifiers : k.console.shown.NoCtrlAlt

/-- Enter has been pressed, and the reader has not returned. -/
structure Resuming (t : Terminal) (k : Kernel) (l : List UInt8) : Prop where
  onScreen : AllOnScreen k.console
  visible : k.visibleTerminal = t
  ended : Console.Ended k.console.shown l
  reading : k.console.shown.sysReadFlag = false

section

variable {fs : FileSys} {t : Terminal} {k k' : Kernel} {l : List UInt8}

theorem Typing.frame (h : Typing t k l) (hs : AllOnScreen k'.console)
    (hsame : Console.SameShown k.console k'.console) (hmod : k'.console.shown.NoCtrlAlt) :
    Typing t k' l := by
  have hidx := hsame.idx
  have htext := hsame.text
  rw [← hsame.visible] at hidx htext
  refine ⟨hs, hsame.visible.trans h.visible, ?_, h.printable, h.length, hmod⟩
  have hline := h.line
  unfold Console.shown at hline ⊢
  rw [← hsame.visible] at hline
  exact hline.congr hidx htext

/-- A plain key, from what it does to the line and the modifiers. -/
theorem Typing.next (h : Typing t k l) {scancode : UInt8} {c' : Console} {l' : List UInt8}
    (hp : k.console.Plain scancode.toNat) (hc' : k.console.keyboardInterrupt scancode = some c')
    (hline : Console.Holds (c'.term k.console.visibleTerminal) l') (hprint : Printable l')
    (hlen : l'.length ≤ 127) (hmod : (c'.term k.console.visibleTerminal).NoCtrlAlt) :
    Typing t { k with console := c' } l' := by
  have hv := Console.plain_visible (h.onScreen _) hp hc'
  have hshown : c'.shown = c'.term k.console.visibleTerminal := congrArg c'.term hv
  refine ⟨Console.allOnScreen_keyboardInterrupt h.onScreen hc', hv.trans h.visible, ?_, hprint,
    hlen, ?_⟩
  · show Console.Holds c'.shown l'
    rw [hshown]
    exact hline
  · show c'.shown.NoCtrlAlt
    rw [hshown]
    exact hmod

/-- A printing key: the character is appended if the line has room for it. -/
theorem Typing.print (h : Typing t k l) {scancode : UInt8}
    (hkey : k.console.PrintingKey scancode.toNat) :
    ∃ c', k.console.keyboardInterrupt scancode = some c' ∧
      Typing t { k with console := c' } (k.console.referenceKey scancode.toNat l) := by
  have hcursor : k.console.shown.keyboardCursorIdx = l.length := h.line.cursor
  have hlen := h.length
  have hk := hkey.printableKey h.modifiers
  have hfits : Console.fits k.console.shown.keyboardCursorIdx := by
    unfold Console.fits KEYBOARD_BUFFER_SIZE
    omega
  have hc' := Console.keyboardInterrupt_char_eq hk.1 hk.2.1 hfits
  have hsame := Console.char_sameLine hk.1 hk.2.1 hfits hc'
  have hline := (Console.Holds.char h.line hlen hk hc').1
  have hmod := ((h.modifiers.typeLine (k.console.outputChar scancode.toNat)
    k.console.notInPrevCmdFlag).typeAhead (k.console.outputChar scancode.toNat)).congr hsame
  have href : k.console.referenceKey scancode.toNat l
      = if l.length < 127 then l ++ [k.console.outputChar scancode.toNat] else l := by
    unfold Console.referenceKey
    rw [if_neg hk.1.2.2.1]
    by_cases hroom : l.length < 127
    · rw [if_pos ⟨hkey, hroom⟩, if_pos hroom]
    · rw [if_neg fun hr => hroom hr.2, if_neg hroom]
  refine ⟨_, hc', ?_⟩
  rw [href]
  refine h.next hk.1.1 hc' hline ?_ ?_ hmod
  · split
    · intro ch hch
      rcases List.mem_append.mp hch with hch | hch
      · exact h.printable ch hch
      · rw [List.mem_singleton.mp hch]
        exact hkey.2
    · exact h.printable
  · split
    · rw [List.length_append, List.length_singleton]
      omega
    · exact hlen

/-- Backspace: the last character is dropped. -/
theorem Typing.back (h : Typing t k l) {scancode : UInt8} (hp : scancode.toNat = BACKSPACE) :
    ∃ c', k.console.keyboardInterrupt scancode = some c' ∧
      Typing t { k with console := c' } (k.console.referenceKey scancode.toNat l) := by
  have hcursor : k.console.shown.keyboardCursorIdx = l.length := h.line.cursor
  have hlen := h.length
  have hroom : k.console.shown.keyboardCursorIdx < KEYBOARD_BUFFER_SIZE := by
    unfold KEYBOARD_BUFFER_SIZE
    omega
  have hc' := Console.keyboardInterrupt_backspace_eq hp hroom
  have hsame := Console.backspace_key_sameLine hp hroom hc'
  have hline := (Console.Holds.backspace h.line hlen hp hc').1
  have href : k.console.referenceKey scancode.toNat l = l.dropLast := if_pos hp
  refine ⟨_, hc', ?_⟩
  rw [href]
  refine h.next (hp ▸ Console.plain_backspace _) hc' hline ?_ ?_ (h.modifiers.eraseLine.congr hsame)
  · exact fun ch hch => h.printable ch (List.dropLast_subset l hch)
  · exact (List.dropLast_sublist l).length_le.trans hlen

/-- A shift key, or the release of a key: the line stays. -/
theorem Typing.turn (h : Typing t k l) {scancode : UInt8}
    (hp : scancode.toNat ∈ Console.shiftCodes ∨ START_RELEASED ≤ scancode.toNat) :
    ∃ c', k.console.keyboardInterrupt scancode = some c' ∧
      Typing t { k with console := c' } (k.console.referenceKey scancode.toNat l) := by
  have hne : ∀ code, code < START_RELEASED → code ∉ Console.shiftCodes →
      scancode.toNat ≠ code := by
    rintro code hlt hcode rfl
    rcases hp with hp | hp
    · exact hcode hp
    · omega
  have hnoprint : ¬ k.console.PrintingKey scancode.toNat := by
    intro hprint
    rcases hp with hp | hp
    · have hmod : scancode.toNat ∉ Console.modifierCodes :=
        (hprint.printableKey h.modifiers).1.1.modifier
      exact hmod (List.mem_of_mem_take (i := 5) hp)
    · have hle := hprint.1
      unfold START_RELEASED at hp
      omega
  have href : k.console.referenceKey scancode.toNat l = l := by
    unfold Console.referenceKey
    rw [if_neg (hne _ (by decide) (by decide)), if_neg fun hr => hnoprint hr.1]
  rw [href]
  by_cases hmodifier : scancode.toNat ∈ Console.modifierCodes
  · obtain ⟨c', hc', hsame⟩ := Console.modifier_key (c := k.console) hmodifier
    refine ⟨c', hc', h.frame (Console.allOnScreen_keyboardInterrupt h.onScreen hc') hsame ?_⟩
    have hkey := Console.keyboardInterrupt_modifier k.console hmodifier
    rw [hc'] at hkey
    exact Console.modifierKey_noCtrlAlt hp hkey.symm _ (by
      rw [hsame.visible]
      exact h.modifiers)
  · have hrel : START_RELEASED ≤ scancode.toNat :=
      hp.resolve_left fun hs => hmodifier (List.mem_of_mem_take (i := 5) hs)
    have hignored : k.console.IgnoredKey scancode.toNat := by
      refine ⟨⟨hmodifier, fun halt => ?_⟩, hrel.trans_lt' (by decide), ?_⟩
      · exact absurd (halt.symm.trans h.modifiers.2) (by decide)
      · simp only [List.mem_cons, List.not_mem_nil, or_false, not_or]
        exact ⟨hne _ (by decide) (by decide), hne _ (by decide) (by decide),
          hne _ (by decide) (by decide), hne _ (by decide) (by decide)⟩
    have hc' := Console.keyboardInterrupt_ignored hignored
    exact ⟨_, hc', h.frame (Console.allOnScreen_keyboardInterrupt h.onScreen hc') ⟨rfl, rfl, rfl⟩
      h.modifiers⟩

theorem Typing.key (h : Typing t k l) {scancode : UInt8}
    (hkey : k.console.LineKey scancode.toNat) :
    ∃ c', k.console.keyboardInterrupt scancode = some c' ∧
      Typing t { k with console := c' } (k.console.referenceKey scancode.toNat l) := by
  rcases hkey with hprint | hback | hturn
  · exact h.print hprint
  · exact h.back hback
  · exact h.turn hturn

/-! ## The events between the keys -/

/-- Another event leaves the shown terminal alone. -/
theorem typingEvent_undisturbed {e : Event} (he : TypingEvent fs k e)
    (hkey : ∀ scancode, e ≠ .keyboard scancode) :
    ∃ k', step fs k e = some k' ∧ Console.Undisturbed k.console k'.console := by
  cases e with
  | keyboard scancode => exact absurd rfl (hkey scancode)
  | «switch» n => exact he.elim
  | read stack fd bufNull nbytes =>
      obtain ⟨k', hk'⟩ := Option.isSome_iff_exists.mp he.2
      refine ⟨k', hk', ?_⟩
      obtain ⟨⟨r, k₁⟩, hr, rfl⟩ := Option.map_eq_some_iff.mp hk'
      by_cases hterm : k.ReadsTerminal fd bufNull nbytes
      · apply Console.readTerminalStart_undisturbed (sysRead_terminal hr hterm)
        exact fun heq => he.1 ⟨heq.symm, hterm⟩
      · have hc : k₁.console = k.console := sysRead_not_terminal hr hterm
        show Console.Undisturbed k.console k₁.console
        rw [hc]
        exact .refl _
  | _ =>
      obtain ⟨k', hk'⟩ := Option.isSome_iff_exists.mp he
      exact ⟨k', hk', (step_console hk').undisturbed⟩

/-- **One event while the line is typed.** -/
theorem Typing.step (h : Typing t k l) {e : Event} (he : TypingEvent fs k e) :
    ∃ k', step fs k e = some k' ∧ Typing t k' (k.referenceEvent e l) := by
  cases e with
  | keyboard scancode =>
      obtain ⟨c', hc', hnext⟩ := h.key he
      exact ⟨_, Option.map_eq_some_iff.mpr ⟨c', hc', rfl⟩, hnext⟩
  | _ =>
      obtain ⟨k', hk', hsame⟩ := typingEvent_undisturbed he (fun _ heq => nomatch heq)
      refine ⟨k', hk', h.frame (step_allOnScreen h.onScreen hk') ?_ (hsame.noCtrlAlt h.modifiers)⟩
      exact hsame.sameShown

/-- **The line while it is typed**: what the reference editor holds. -/
theorem Typing.run (h : Typing t k l) {es : List Event}
    (hes : StepSystem.Guarded (Kernel.step fs) (TypingEvent fs) k es) :
    ∃ k', StepSystem.run (Kernel.step fs) k es = some k' ∧ Typing t k' (reference fs k es l) := by
  induction es generalizing k l with
  | nil => exact ⟨k, rfl, h⟩
  | cons e es ih =>
      obtain ⟨k₁, hk₁, hnext⟩ := h.step hes.1
      obtain ⟨k', hk', hend⟩ := ih hnext (hes.2 k₁ hk₁)
      refine ⟨k', StepSystem.run_cons_eq_some.mpr ⟨k₁, hk₁, hk'⟩, ?_⟩
      unfold reference
      rw [hk₁]
      exact hend

/-- Enter ends the line. -/
theorem Typing.enter (h : Typing t k l) {scancode : UInt8} (hp : scancode.toNat = ENTER_PRESSED) :
    ∃ k', Kernel.step fs k (.keyboard scancode) = some k' ∧ Resuming t k' l := by
  have hstop : k.console.shown.keyboardBufferEndIdx = l.length := h.line.stop
  have hlen := h.length
  have hroom : 0 ≤ k.console.shown.keyboardBufferEndIdx ∧
      k.console.shown.keyboardBufferEndIdx < KEYBOARD_BUFFER_SIZE := by
    unfold KEYBOARD_BUFFER_SIZE
    omega
  have hc' := Console.keyboardInterrupt_enter_eq hp hroom.1 hroom.2
  obtain ⟨_, hended, hread⟩ := Console.Holds.enter h.line hlen hp hc'
  have hv := Console.plain_visible (h.onScreen _) (hp ▸ k.console.hasChar_enter.1) hc'
  have hall := Console.allOnScreen_keyboardInterrupt h.onScreen hc'
  have hstep : Kernel.step fs k (.keyboard scancode) = some { k with console := _ } :=
    Option.map_eq_some_iff.mpr ⟨_, hc', rfl⟩
  generalize (Console.finish _ k.console.visibleTerminal 10).leave = c' at *
  have hshown : c'.shown = c'.term k.console.visibleTerminal := congrArg c'.term hv
  refine ⟨_, hstep, hall, hv.trans h.visible, ?_, ?_⟩
  · show Console.Ended c'.shown l
    rw [hshown]
    exact hended
  · show c'.shown.sysReadFlag = false
    rw [hshown]
    exact hread

/-- Until the reader resumes, the ended line stays. -/
theorem Resuming.run (h : Resuming t k l) {es : List Event}
    (hes : StepSystem.Guarded (Kernel.step fs) (ResumingEvent fs) k es) :
    ∃ k', StepSystem.run (Kernel.step fs) k es = some k' ∧ Resuming t k' l := by
  refine StepSystem.run_total_of_guarded (fun k e hk he => ?_) hes h
  have hevent : TypingEvent fs k e ∧ ∀ scancode, e ≠ .keyboard scancode := by
    cases e with
    | keyboard scancode => exact he.elim
    | _ => exact ⟨he, fun _ heq => nomatch heq⟩
  obtain ⟨k', hk', hsame⟩ := typingEvent_undisturbed hevent.1 hevent.2
  exact ⟨k', hk', step_allOnScreen hk.onScreen hk', hsame.visible.trans hk.visible,
    hk.ended.congr hsame.text, (congrArg LineText.reading hsame.text).trans hk.reading⟩

end

/-! ## The read -/

/-- A process of the shown terminal blocks in a terminal read of at least 128 bytes, with an
empty line, so that nothing has been put back. Neither Ctrl nor Alt is held. -/
structure BlocksEmpty (fs : FileSys) (k : Kernel) (stack : Mem) (fd : Int) (bufNull : Bool)
    (nbytes : Int) (k' : Kernel) : Prop where
  starts : k.StartsRead fd bufNull nbytes
  bytes : 128 ≤ nbytes
  blocks : step fs k (.read stack fd bufNull nbytes) = some k'
  cursor : k'.console.shown.keyboardCursorIdx = 0
  stop : k'.console.shown.keyboardBufferEndIdx = 0
  distance : k'.console.shown.distanceFromRight = 0
  modifiers : k'.console.shown.NoCtrlAlt

/-- **A typed line is what the read returns.** While keys of a line are pressed the line editor
holds what the reference editor holds; Enter wakes the reader, and when it resumes before any
further key, it returns the line of the reference editor with a newline behind it. -/
theorem typed_line_returned {fs : FileSys} {k₀ k : Kernel} {stack : Mem} {fd nbytes : Int}
    {bufNull : Bool} (hk₀ : Reachable fs k₀) (hblock : BlocksEmpty fs k₀ stack fd bufNull nbytes k)
    {keys : List Event} (hkeys : StepSystem.Guarded (step fs) (TypingEvent fs) k keys)
    {enter : UInt8} (henter : enter.toNat = ENTER_PRESSED) :
    ∃ k₁ k₂, StepSystem.run (step fs) k keys = some k₁ ∧ step fs k₁ (.keyboard enter) = some k₂ ∧
      ∀ after, StepSystem.Guarded (step fs) (ResumingEvent fs) k₂ after →
        ∃ k₃, StepSystem.run (step fs) k₂ after = some k₃ ∧
          (k₃.processTerminal = k₀.visibleTerminal →
            k₃.readTerminalFinish (Console.clipBytes nbytes)
              = some (delivered (reference fs k keys []))) := by
  have hone : AllOnScreen k.console := step_allOnScreen hk₀.allOnScreen hblock.blocks
  have hv : k.visibleTerminal = k₀.visibleTerminal := by
    obtain ⟨⟨r, k'⟩, hr, rfl⟩ := Option.map_eq_some_iff.mp hblock.blocks
    exact (readTerminalStart_terminals (sysRead_terminal hr hblock.starts.2)).2
  have hstart : Typing k₀.visibleTerminal k [] :=
    ⟨hone, hv, ⟨hblock.cursor, hblock.stop, hblock.distance, rfl⟩,
      fun _ hch => absurd hch List.not_mem_nil, Nat.zero_le _, hblock.modifiers⟩
  obtain ⟨k₁, hk₁, htyped⟩ := hstart.run hkeys
  obtain ⟨k₂, hk₂, hwoken⟩ : ∃ k₂, step fs k₁ (.keyboard enter) = some k₂ ∧
      Resuming k₀.visibleTerminal k₂ (reference fs k keys []) := htyped.enter henter
  refine ⟨k₁, k₂, hk₁, hk₂, fun after hafter => ?_⟩
  obtain ⟨k₃, hk₃, hend⟩ := hwoken.run hafter
  refine ⟨k₃, hk₃, fun hterm => ?_⟩
  have hshown : k₃.console.term k₃.processTerminal = k₃.console.shown :=
    congrArg k₃.console.term (hterm.trans hend.visible.symm)
  have hbytes := hblock.bytes
  have hlen := htyped.length
  unfold readTerminalFinish
  rw [hshown, hend.reading, if_neg Bool.false_ne_true]
  refine congrArg some (Console.Ended.readTerminalCopy ?_ htyped.printable ?_)
  · show Console.Ended (k₃.console.term k₃.processTerminal) _
    rw [hshown]
    exact hend.ended
  · unfold Console.clipBytes KEYBOARD_BUFFER_SIZE
    split <;> omega

/-- `a`, a capital `B` and a backspace are typed. -/
def typedKeys : List Event :=
  [.keyboard 0x1E, .keyboard 0x2A, .keyboard 0x30, .keyboard 0xAA, .keyboard 0x0E]

/-- The first shell, shown, blocks in a read that returns what was typed. -/
theorem typed_line_returned_a : ∃ k₀ k k₂, Reachable sampleImage k₀ ∧
    step sampleImage k₀ (.read (fun _ => 0) 0 false 128) = some k ∧
    StepSystem.run (step sampleImage) k (typedKeys ++ [.keyboard 0x1C]) = some k₂ ∧
    k₂.readTerminalFinish 128 = some ⟨2, [97, 10]⟩ := by
  have hview : (StepSystem.run (step sampleImage) (boot zeroMemory)
      [.pit zeroFrame, .switch 1]).map (fun k₀ => decide (k₀.StartsRead 0 false 128 ∧
        (step sampleImage k₀ (.read (fun _ => 0) 0 false 128)).map (fun k => decide (
          k.console.shown.lineIdx = ⟨0, 0, 0, 0, 0, 0⟩ ∧ k.console.shown.NoCtrlAlt ∧
          StepSystem.Guarded (step sampleImage) (TypingEvent sampleImage) k typedKeys ∧
          reference sampleImage k typedKeys [] = [97] ∧
          (StepSystem.run (step sampleImage) k (typedKeys ++ [.keyboard 0x1C])).map
            (fun k₂ => k₂.processTerminal) = some k₀.visibleTerminal)) = some true))
      = some true := by
    decide +kernel
  obtain ⟨k₀, hk₀, hstarts, hblocked⟩ := StepSystem.exists_of_map_decide hview
  obtain ⟨k, hk, hidx, hmod, hkeys, href, hend⟩ := StepSystem.exists_of_map_decide hblocked
  obtain ⟨k₁, k₂, hk₁, hk₂, hafter⟩ := typed_line_returned ⟨zeroMemory, _, hk₀⟩
    ⟨hstarts, le_refl _, hk, congrArg LineIdx.cursor hidx, congrArg LineIdx.stop hidx,
      congrArg LineIdx.distance hidx, hmod⟩ hkeys
    (show (0x1C : UInt8).toNat = ENTER_PRESSED from rfl)
  obtain ⟨k₃, hk₃, hret⟩ := hafter [] trivial
  cases hk₃
  have hrun : StepSystem.run (step sampleImage) k (typedKeys ++ [.keyboard 0x1C]) = some k₂ :=
    StepSystem.run_append_eq_some.mpr ⟨k₁, hk₁, StepSystem.run_cons_eq_some.mpr ⟨k₂, hk₂, rfl⟩⟩
  rw [hrun] at hend
  refine ⟨k₀, k, k₂, ⟨zeroMemory, _, hk₀⟩, hk, hrun, ?_⟩
  rw [show (128 : Nat) = Console.clipBytes 128 from rfl, hret (Option.some.inj hend), href]
  rfl

end Kernel

end Ext2Kernel
