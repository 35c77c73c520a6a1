import Ext2Kernel.Console.Echo
import Ext2Kernel.Process.CursorRuns
import Ext2Kernel.Process.TypedLine

set_option autoImplicit false

/-! # Backspace undoes echo

As long as no arrow key and no Ctrl+L is pressed, the wraparound flags of all screens are those
of a text terminal (`AllWraps`). From such a state printable keys and then as many backspaces are
followed on a roll (`Echoing`): typing goes forward on it and backspace back, whatever the rows of
the screen and its scrolling are.
-/

namespace Ext2Kernel

open ByteMem

namespace Console

/-! ## The flags of the screens -/

theorem AllWraps.modify {c : Console} (h : AllWraps c) (t : Terminal) {f : TermState → TermState}
    (hx : ∀ s, (f s).screenX = s.screenX) (hy : ∀ s, (f s).screenY = s.screenY)
    (hf : ∀ s, (f s).forwardNext = s.forwardNext) : AllWraps (c.modify t f) := by
  intro u
  by_cases hu : u = t
  · have hterm : (c.modify t f).term u = f (c.term u) := by
      rw [hu, modify_term_self]
    refine (h u).congr ?_ ?_ ?_
    · exact (congrArg TermState.screenX hterm).trans (hx _)
    · exact (congrArg TermState.screenY hterm).trans (hy _)
    · exact (congrArg TermState.forwardNext hterm).trans (hf _)
  · have hterm : (c.modify t f).term u = c.term u := modify_term_ne _ _ _ hu
    refine (h u).congr ?_ ?_ ?_
    · exact congrArg TermState.screenX hterm
    · exact congrArg TermState.screenY hterm
    · exact congrArg TermState.forwardNext hterm

theorem AllWraps.putc {c : Console} (h : AllWraps c) (ch : UInt8) : AllWraps (c.putc ch) := by
  intro t
  have hs : OnScreen (c.term c.outTerm) := onScreen_of_wraps (h _)
  by_cases ht : t = c.outTerm
  · rw [ht, screen_putc ch hs]
    exact (h _).putc ch
  · rw [screen_putc_ne ch hs ht]
    exact h t

theorem AllWraps.putcs {c : Console} (h : AllWraps c) (l : List UInt8) : AllWraps (c.putcs l) := by
  unfold Console.putcs
  induction l generalizing c with
  | nil => exact h
  | cons ch l ih => exact ih (h.putc ch)

theorem Background.allWraps {c c' : Console} (h : Background c c') (hc : AllWraps c) :
    AllWraps c' := by
  induction h with
  | refl => exact hc
  | print l _ ih => exact ih.putcs l
  | store video _ ih =>
      intro t
      exact (ih t).congr rfl rfl rfl
  | schedule t _ ih =>
      intro u
      exact (ih u).congr rfl rfl rfl
  | shells b _ ih =>
      intro t
      exact (ih t).congr rfl rfl rfl
  | shell t b _ ih =>
      apply ih.modify t
      · exact fun _ => rfl
      · exact fun _ => rfl
      · exact fun _ => rfl
  | typed t _ ih =>
      apply ih.modify t
      · exact fun _ => rfl
      · exact fun _ => rfl
      · exact fun _ => rfl

theorem allWraps_readTerminalStart {c c' : Console} (h : AllWraps c)
    (hc' : c.readTerminalStart = some c') : AllWraps c' := by
  have hclear : AllWraps (c.modify c.processTerminal clearLine) :=
    h.modify _ (fun _ => rfl) (fun _ => rfl) fun _ => rfl
  rcases readTerminalStart_cases hc' with ⟨_, rfl⟩ | ⟨_, _, rfl⟩
  · apply hclear.modify
    · exact fun _ => rfl
    · exact fun _ => rfl
    · exact fun _ => rfl
  · have hrestore := hclear.modify (f := restoreLine) c.processTerminal (fun _ => rfl)
      (fun _ => rfl) fun _ => rfl
    have hend := (hrestore.putcs (replayed (c.term c.processTerminal))).modify c.processTerminal
      (f := fun s => endReplay s c.replayByte) (fun _ => rfl) (fun _ => rfl) fun _ => rfl
    apply hend.modify
    · exact fun _ => rfl
    · exact fun _ => rfl
    · exact fun _ => rfl

end Console

namespace Kernel

open Console (AllWraps)

/-- No arrow and no Ctrl+L. -/
def TypesOnly (k : Kernel) : Event → Prop
  | .keyboard scancode => k.console.KeepsTyping scancode.toNat
  | _ => True

theorem step_allWraps {fs : FileSys} {k k' : Kernel} {e : Event} (h : AllWraps k.console)
    (he : k.TypesOnly e) (hk' : step fs k e = some k') : AllWraps k'.console := by
  have hc := step_console hk'
  cases e with
  | keyboard scancode => exact Console.allWraps_keyboardInterrupt h he hc
  | «switch» n =>
      rw [show k'.console = k.console.switchTerminal n from hc]
      intro t
      rw [Console.screen_switchTerminal]
      exact h t
  | read stack fd bufNull nbytes =>
      rcases hc with hc | hc
      · rw [hc]
        exact h
      · exact Console.allWraps_readTerminalStart h hc
  | _ => exact Console.Background.allWraps hc h

theorem boot_allWraps (m : BootMemory) : AllWraps (boot m).console := by
  intro t
  refine ⟨show 0 < NUM_COLS by decide, show 0 < NUM_ROWS by decide, fun hedge => ?_, fun _ => ?_⟩
  · exact absurd (show 0 = NUM_COLS - 1 from hedge) (by decide)
  · show TermState.boot.forwardNext ≠ NUM_COLS ∧ TermState.boot.forwardNext ≠ 0
    decide

/-- **The flags of the screens** after a run without arrows and Ctrl+L. -/
theorem run_allWraps {fs : FileSys} {m : BootMemory} {es : List Event} {k : Kernel}
    (hrun : StepSystem.run (step fs) (boot m) es = some k)
    (hes : StepSystem.Guarded (step fs) TypesOnly (boot m) es) : AllWraps k.console :=
  StepSystem.run_invariant_of_guarded (P := fun k => AllWraps k.console)
    (fun _ _ _ h he hk' => step_allWraps h he hk') hes hrun (boot_allWraps m)

/-! ## Typing and erasing -/

/-- A printable key. -/
def Prints (k : Kernel) : Event → Prop
  | .keyboard scancode => k.console.EchoKey scancode.toNat
  | _ => False

/-- A backspace. -/
def Erases : Kernel → Event → Prop
  | _, .keyboard scancode => scancode.toNat = BACKSPACE
  | _, _ => False

/-- A printable key whose echo scrolls the screen. -/
def Scrolls (k : Kernel) : Event → Prop
  | .keyboard scancode => k.console.EchoKey scancode.toNat ∧ k.console.EchoScrolls scancode.toNat
  | _ => False

instance (k : Kernel) (e : Event) : Decidable (k.Prints e) :=
  match e, e.view with
  | _, .keyboard scancode => inferInstanceAs (Decidable (k.console.EchoKey scancode.toNat))
  | _, .switch _ | _, .read .. | _, .resumeTerminal _ | _, .execute _ _ =>
      inferInstanceAs (Decidable False)
  | e, .other h => isFalse fun hp => by cases e <;> first | exact hp | cases h

instance (k : Kernel) (e : Event) : Decidable (Erases k e) :=
  match e, e.view with
  | _, .keyboard scancode => inferInstanceAs (Decidable (scancode.toNat = BACKSPACE))
  | _, .switch _ | _, .read .. | _, .resumeTerminal _ | _, .execute _ _ =>
      inferInstanceAs (Decidable False)
  | e, .other h => isFalse fun hp => by cases e <;> first | exact hp | cases h

instance (k : Kernel) (e : Event) : Decidable (k.Scrolls e) :=
  match e, e.view with
  | _, .keyboard scancode =>
      inferInstanceAs (Decidable (k.console.EchoKey scancode.toNat ∧
        k.console.EchoScrolls scancode.toNat))
  | _, .switch _ | _, .read .. | _, .resumeTerminal _ | _, .execute _ _ =>
      inferInstanceAs (Decidable False)
  | e, .other h => isFalse fun hp => by cases e <;> first | exact hp | cases h

/-- The shown screen of `k`. -/
def shownScreen (k : Kernel) : Screen := k.console.screen k.visibleTerminal

/-- Between the keys: modifiers and releases, and whatever the kernel does that outputs nothing to
the shown terminal and does not start a read there. -/
def Silent (fs : FileSys) (k : Kernel) : Event → Prop
  | .keyboard scancode =>
      scancode.toNat ∈ Console.modifierCodes ∨ k.console.IgnoredKey scancode.toNat
  | .switch _ => False
  | e => TypingEvent fs k e ∧ ∀ k', step fs k e = some k' → k'.shownScreen = k.shownScreen

/-- From the shown screen of `k₀` on, `n` characters have been printed and all but `m` of them
erased again, and the screen has scrolled `s` times. -/
structure Echoing (k₀ : Kernel) (n m s : Nat) (k : Kernel) : Prop where
  visible : k.visibleTerminal = k₀.visibleTerminal
  wraps : k.shownScreen.Wraps
  line : Console.AtEnd k.console.shown (k₀.console.shown.keyboardCursorIdx + m)
    (k₀.console.shown.keyboardBufferEndIdx + m)
  roll : ∃ r, TextScreen.Roll.Typed NUM_ROWS NUM_COLS (· ≠ 10) 32
      (TextScreen.Roll.of NUM_ROWS NUM_COLS 0 k₀.shownScreen.text) n m r ∧
    TextScreen.Roll.Framed NUM_ROWS NUM_COLS 0 r ∧
    TextScreen.Roll.Shows NUM_ROWS NUM_COLS r k.shownScreen.text ∧ r.top = s

section

variable {fs : FileSys} {k₀ k k' : Kernel} {n m s : Nat}

theorem Echoing.start (hw : k.shownScreen.Wraps) (hdist : k.console.shown.distanceFromRight = 0)
    (hecho : k.console.shown.echoFlag = true) : Echoing k 0 0 0 k := by
  refine ⟨rfl, hw, ⟨(Int.add_zero _).symm, (Int.add_zero _).symm, hdist, hecho⟩, _,
    TextScreen.Roll.Typed.start (Nat.zero_le _), ?_, ?_, rfl⟩
  · exact TextScreen.Roll.framed_of (by decide) hw.x hw.y
  · exact TextScreen.Roll.shows_of (by decide) hw.x

/-- An event that leaves the shown screen, its line and its echo alone. -/
theorem Echoing.same (h : Echoing k₀ n m s k) (hvisible : k'.visibleTerminal = k.visibleTerminal)
    (hscreen : k'.shownScreen = k.shownScreen)
    (hidx : k'.console.shown.lineIdx = k.console.shown.lineIdx)
    (hecho : k'.console.shown.echoFlag = k.console.shown.echoFlag) : Echoing k₀ n m s k' := by
  obtain ⟨r, htyped, hframed, hshows, htop⟩ := h.roll
  rw [← hscreen] at hshows
  exact ⟨hvisible.trans h.visible, hscreen ▸ h.wraps, h.line.congr hidx hecho, r, htyped, hframed,
    hshows, htop⟩

/-- A key that is neither a modifier nor a switch, from what it does to the shown terminal. -/
theorem shown_of_plain {scancode : UInt8} {c' : Console} (hw : k.shownScreen.Wraps)
    (hp : k.console.Plain scancode.toNat) (hc' : k.console.keyboardInterrupt scancode = some c') :
    c'.visibleTerminal = k.console.visibleTerminal ∧
      c'.shown = c'.term k.console.visibleTerminal ∧
      shownScreen { k with console := c' } = c'.screen k.console.visibleTerminal := by
  have hv := Console.plain_visible (Console.onScreen_of_wraps hw) hp hc'
  exact ⟨hv, congrArg c'.term hv, congrArg c'.screen hv⟩

/-- **A printable key** types on the roll. -/
theorem Echoing.print (h : Echoing k₀ n n s k) {scancode : UInt8}
    (hk : k.console.EchoKey scancode.toNat) (hcur : 0 ≤ k₀.console.shown.keyboardCursorIdx)
    (hroom : k₀.console.shown.keyboardCursorIdx + n < 126) :
    ∃ k', step fs k (.keyboard scancode) = some k' ∧ Echoing k₀ (n + 1) (n + 1)
      (s + if k.console.EchoScrolls scancode.toNat then 1 else 0) k' := by
  have hlt : k₀.console.shown.keyboardCursorIdx + n < KEYBOARD_BUFFER_SIZE - 1 := by
    unfold KEYBOARD_BUFFER_SIZE
    omega
  have hfits : Console.fits k.console.shown.keyboardCursorIdx := by
    rw [h.line.cursor]
    unfold Console.fits KEYBOARD_BUFFER_SIZE
    omega
  have hc' := Console.keyboardInterrupt_char_eq hk.1 hk.2.1 hfits
  have hline := Console.char_sameLine hk.1 hk.2.1 hfits hc'
  obtain ⟨htext, hwraps⟩ := Console.echo_screen h.wraps hk h.line (by omega) hlt hc'
  obtain ⟨hvisible, hshown, hscreen⟩ := shown_of_plain h.wraps hk.1.1 hc'
  have hstep : step fs k (.keyboard scancode) = some { k with console := _ } :=
    Option.map_eq_some_iff.mpr ⟨_, hc', rfl⟩
  have hend := ((h.line.typeLine hlt k.console.notInPrevCmdFlag).2).sameLine hline
  generalize (Console.finish _ k.console.visibleTerminal _).leave = c' at *
  refine ⟨_, hstep, ?_⟩
  obtain ⟨r, htyped, hframed, hshows, htop⟩ := h.roll
  rw [← hscreen] at htext hwraps
  rw [← hshown] at hend
  refine ⟨hvisible.trans h.visible, hwraps, ?_, r.type NUM_ROWS NUM_COLS _, htyped.type hk.2.2.1,
    hframed.type (by decide) _, (hshows.type (by decide) hframed _).same htext, ?_⟩
  · have hone : ∀ i : Int, i + (n + 1 : Nat) = i + n + 1 := fun i => by omega
    rw [hone, hone]
    exact hend
  · rw [hshows.top_type (by decide) hframed, htop]
    congr 1
    exact if_congr (Console.echoScrolls_iff h.wraps scancode.toNat).symm rfl rfl

/-- **Backspace** goes back on the roll. -/
theorem Echoing.back (h : Echoing k₀ n (m + 1) s k) {scancode : UInt8}
    (hp : scancode.toNat = BACKSPACE) (hcur : 0 ≤ k₀.console.shown.keyboardCursorIdx)
    (hroom : k₀.console.shown.keyboardCursorIdx + n ≤ 126) :
    ∃ k', step fs k (.keyboard scancode) = some k' ∧ Echoing k₀ n m s k' := by
  obtain ⟨r, htyped, hframed, hshows, htop⟩ := h.roll
  have hle := htyped.le
  have hwindow : NUM_COLS * r.top < r.pos := by
    have hin := htyped.in_window (by decide) (by unfold NUM_COLS NUM_ROWS; omega)
    have hpos := htyped.pos
    omega
  have hmoves : k.console.BackMoves := by
    refine ⟨?_, fun hcorner => ?_, fun hzero => ?_⟩
    · have hcursor : k.console.shown.keyboardCursorIdx ≠ 0 := by
        rw [h.line.cursor]
        omega
      exact hcursor
    · have hrow := (hshows.cell_above (by decide) hframed hwindow hcorner.1).1
      exact absurd hcorner.2 (Nat.ne_of_gt hrow)
    · -- the row above ends with a character that has been typed
      have hcell := (hshows.cell_above (by decide) hframed hwindow hzero).2
      have hpos := htyped.pos
      have hkept := htyped.kept (r.pos - 1) (by omega) (by omega)
      have hrow : (k.console.term k.console.visibleTerminal).screenY - 1 < NUM_ROWS :=
        lt_of_le_of_lt (Nat.sub_le _ _) h.wraps.y
      rw [k.console.rowEnd_eq hrow]
      rw [← hcell] at hkept
      exact hkept
  have hlt : k.console.shown.keyboardCursorIdx < KEYBOARD_BUFFER_SIZE := by
    rw [h.line.cursor]
    unfold KEYBOARD_BUFFER_SIZE
    omega
  have hc' := Console.keyboardInterrupt_backspace_eq hp hlt
  have hline := Console.backspace_key_sameLine hp hlt hc'
  obtain ⟨htext, hwraps⟩ := Console.backspace_screen hp h.wraps hmoves hc'
  obtain ⟨hvisible, hshown, hscreen⟩ := shown_of_plain h.wraps (hp ▸ Console.plain_backspace _) hc'
  have hstep : step fs k (.keyboard scancode) = some { k with console := _ } :=
    Option.map_eq_some_iff.mpr ⟨_, hc', rfl⟩
  have hend := (h.line.eraseLine (by omega)).sameLine hline
  generalize (Console.modify _ k.console.visibleTerminal _).leave = c' at *
  refine ⟨_, hstep, ?_⟩
  rw [← hscreen] at htext hwraps
  rw [← hshown] at hend
  refine ⟨hvisible.trans h.visible, hwraps, ?_, r.back 32, htyped.back,
    hframed.back (by decide) hwindow 32, (hshows.back (by decide) hwindow 32).same htext, htop⟩
  have hone : ∀ i : Int, i + (m + 1 : Nat) - 1 = i + m := fun i => by omega
  rw [hone, hone] at hend
  exact hend

/-- A modifier draws nothing. -/
theorem modifier_echo {scancode : UInt8} (hp : scancode.toNat ∈ Console.modifierCodes) :
    ∃ k', step fs k (.keyboard scancode) = some k' ∧
      k'.visibleTerminal = k.visibleTerminal ∧ k'.shownScreen = k.shownScreen ∧
      k'.console.shown.lineIdx = k.console.shown.lineIdx ∧
      k'.console.shown.echoFlag = k.console.shown.echoFlag := by
  obtain ⟨c', hc', hsame⟩ := Console.modifier_key (c := k.console) hp
  have hkey := Console.keyboardInterrupt_modifier k.console hp
  rw [hc'] at hkey
  obtain ⟨f, hf, rfl⟩ := Console.modifierKey_eq_some hkey.symm
  have heq := hf (k.console.term k.console.visibleTerminal)
  unfold Console.SameButModifiers at heq
  refine ⟨_, Option.map_eq_some_iff.mpr ⟨_, hc', rfl⟩, rfl, ?_, hsame.idx, ?_⟩
  · show Screen.mk (k.console.page k.console.visibleTerminal) _ _ _ _ = _
    unfold shownScreen Console.screen
    show Screen.mk _ (f (k.console.term k.console.visibleTerminal)).screenX
      (f (k.console.term k.console.visibleTerminal)).screenY
      (f (k.console.term k.console.visibleTerminal)).forwardNext
      (f (k.console.term k.console.visibleTerminal)).backwardNext = _
    rw [heq]
  · show (f (k.console.term k.console.visibleTerminal)).echoFlag = _
    rw [heq]
    rfl

/-- **Between the keys** nothing changes. -/
theorem Echoing.silent (h : Echoing k₀ n m s k) {e : Event} (he : Silent fs k e) :
    ∃ k', step fs k e = some k' ∧ Echoing k₀ n m s k' := by
  have hother : (∀ scancode, e ≠ .keyboard scancode) → TypingEvent fs k e →
      (∀ k', step fs k e = some k' → k'.shownScreen = k.shownScreen) →
      ∃ k', step fs k e = some k' ∧ Echoing k₀ n m s k' := by
    intro hkey htyping hscreen
    obtain ⟨k', hk', hsame⟩ := typingEvent_undisturbed htyping hkey
    exact ⟨k', hk', h.same hsame.visible (hscreen k' hk') hsame.idx hsame.echo⟩
  cases e with
  | keyboard scancode =>
      rcases he with hmodifier | hignored
      · obtain ⟨k', hk', hvisible, hscreen, hidx, hecho⟩ := @modifier_echo fs k _ hmodifier
        exact ⟨k', hk', h.same hvisible hscreen hidx hecho⟩
      · have hc' := Console.keyboardInterrupt_ignored hignored
        exact ⟨_, Option.map_eq_some_iff.mpr ⟨_, hc', rfl⟩, h.same rfl rfl rfl rfl⟩
  | «switch» t => exact he.elim
  | _ => exact hother (fun _ heq => nomatch heq) he.1 he.2

/-- Printable keys, with silent events between them. -/
def Typed (fs : FileSys) (k : Kernel) (e : Event) : Prop := k.Prints e ∨ Silent fs k e

/-- Backspaces, with silent events between them. -/
def Erased (fs : FileSys) (k : Kernel) (e : Event) : Prop := Erases k e ∨ Silent fs k e

/-- A silent event is neither a printable key nor a backspace. -/
theorem Silent.not_key {e : Event} (h : Silent fs k e) : ¬ k.Prints e ∧ ¬ Erases k e := by
  cases e with
  | keyboard scancode =>
      rcases h with hmodifier | hignored
      · refine ⟨fun hprints => hprints.1.1.modifier hmodifier, fun herases => ?_⟩
        have hback : scancode.toNat = BACKSPACE := herases
        rw [hback] at hmodifier
        exact absurd hmodifier (by decide)
      · have hgt := hignored.2.1
        refine ⟨fun hprints => absurd hprints.1.2.1 (Nat.not_le.mpr hgt), fun herases => ?_⟩
        have hback : scancode.toNat = BACKSPACE := herases
        rw [hback] at hgt
        exact absurd hgt (by decide)
  | _ => exact ⟨id, id⟩

theorem Scrolls.prints {e : Event} (h : k.Scrolls e) : k.Prints e := by
  cases e with
  | keyboard scancode => exact h.1
  | _ => exact h

/-- **Typing**: as many characters as printable keys, and one row for each echo that scrolls. -/
theorem Echoing.run_typed (h : Echoing k₀ n n s k) {es : List Event}
    (hes : StepSystem.Guarded (step fs) (Typed fs) k es)
    (hcur : 0 ≤ k₀.console.shown.keyboardCursorIdx)
    (hroom : k₀.console.shown.keyboardCursorIdx
      + (n + StepSystem.count (step fs) Prints k es : Nat) ≤ 126) :
    ∃ k', StepSystem.run (step fs) k es = some k' ∧
      Echoing k₀ (n + StepSystem.count (step fs) Prints k es)
        (n + StepSystem.count (step fs) Prints k es)
        (s + StepSystem.count (step fs) Scrolls k es) k' := by
  induction es generalizing k n s with
  | nil => exact ⟨k, rfl, h⟩
  | cons e es ih =>
      obtain ⟨he, hrest⟩ := hes
      rcases he with hprints | hsilent
      · cases e with
        | keyboard scancode =>
            have hone : StepSystem.count (step fs) Prints k (.keyboard scancode :: es) ≠ 0 := by
              unfold StepSystem.count
              rw [if_pos hprints]
              omega
            have hprint : ∃ k₁, step fs k (.keyboard scancode) = some k₁ ∧ _ :=
              h.print hprints hcur (by omega)
            obtain ⟨k₁, hk₁, hnext⟩ := hprint
            have hscrolls : (if k.Scrolls (.keyboard scancode) then 1 else 0)
                = if k.console.EchoScrolls scancode.toNat then 1 else 0 :=
              if_congr (and_iff_right hprints) rfl rfl
            rw [StepSystem.count_cons hk₁, if_pos hprints, ← Nat.add_assoc] at hroom ⊢
            rw [StepSystem.count_cons hk₁, hscrolls, ← Nat.add_assoc]
            obtain ⟨k', hk', hend⟩ := ih hnext (hrest k₁ hk₁) hroom
            exact ⟨k', StepSystem.run_cons_eq_some.mpr ⟨k₁, hk₁, hk'⟩, hend⟩
        | _ => exact hprints.elim
      · obtain ⟨k₁, hk₁, hnext⟩ := h.silent hsilent
        have hprints : ¬ k.Prints e := hsilent.not_key.1
        have hscrolls : ¬ k.Scrolls e := fun h => hprints h.prints
        rw [StepSystem.count_cons hk₁, if_neg hprints, Nat.zero_add] at hroom ⊢
        rw [StepSystem.count_cons hk₁, if_neg hscrolls, Nat.zero_add]
        obtain ⟨k', hk', hend⟩ := ih hnext (hrest k₁ hk₁) hroom
        exact ⟨k', StepSystem.run_cons_eq_some.mpr ⟨k₁, hk₁, hk'⟩, hend⟩

/-- **Erasing**: one character for each backspace. -/
theorem Echoing.run_erased {es : List Event}
    (h : Echoing k₀ n (m + StepSystem.count (step fs) Erases k es) s k)
    (hes : StepSystem.Guarded (step fs) (Erased fs) k es)
    (hcur : 0 ≤ k₀.console.shown.keyboardCursorIdx)
    (hroom : k₀.console.shown.keyboardCursorIdx + n ≤ 126) :
    ∃ k', StepSystem.run (step fs) k es = some k' ∧ Echoing k₀ n m s k' := by
  induction es generalizing k with
  | nil => exact ⟨k, rfl, h⟩
  | cons e es ih =>
      obtain ⟨he, hrest⟩ := hes
      have hnext : ∃ k₁, step fs k e = some k₁ ∧
          Echoing k₀ n (m + StepSystem.count (step fs) Erases k₁ es) s k₁ := by
        rcases he with herases | hsilent
        · cases e with
          | keyboard scancode =>
              obtain ⟨j, hj⟩ : ∃ j,
                  StepSystem.count (step fs) Erases k (.keyboard scancode :: es) = j + 1 := by
                unfold StepSystem.count
                rw [if_pos herases]
                exact ⟨_, Nat.add_comm 1 _⟩
              rw [hj, ← Nat.add_assoc] at h
              have hback : ∃ k₁, step fs k (.keyboard scancode) = some k₁ ∧ _ :=
                h.back herases hcur hroom
              obtain ⟨k₁, hk₁, hback⟩ := hback
              rw [StepSystem.count_cons hk₁, if_pos herases, Nat.add_comm 1] at hj
              refine ⟨k₁, hk₁, ?_⟩
              rw [Nat.succ.inj hj]
              exact hback
          | _ => exact herases.elim
        · obtain ⟨k₁, hk₁, hsame⟩ := h.silent hsilent
          rw [StepSystem.count_cons hk₁, if_neg hsilent.not_key.2, Nat.zero_add] at hsame
          exact ⟨k₁, hk₁, hsame⟩
      obtain ⟨k₁, hk₁, hstep⟩ := hnext
      obtain ⟨k', hk', hend⟩ := ih hstep (hrest k₁ hk₁)
      exact ⟨k', StepSystem.run_cons_eq_some.mpr ⟨k₁, hk₁, hk'⟩, hend⟩

end

/-! ## One key again and again -/

/-- A shell is shown, and no modifier is held. -/
def TypesPlain (s : TermState) : Prop :=
  s.shellFlag = true ∧ s.NoCtrlAlt ∧ s.capsLockOn = false ∧ s.shiftOn = false

instance (s : TermState) : Decidable (TypesPlain s) := inferInstanceAs (Decidable (_ ∧ _))

theorem TypesPlain.echoKey {c : Console} (h : TypesPlain c.shown) :
    c.EchoKey (UInt8.toNat 0x1E) := by
  obtain ⟨_, ⟨hctrl, halt⟩, hcaps, hshift⟩ := h
  have hplain : c.Plain (UInt8.toNat 0x1E) :=
    ⟨by decide, fun hk => absurd (hk.symm.trans halt) (by decide)⟩
  have hch : c.outputChar (UInt8.toNat 0x1E) = 97 := by
    have hsmall : shifted (c.term c.visibleTerminal) (UInt8.toNat 0x1E) = false := by
      unfold Console.shown at hcaps hshift
      unfold shifted
      rw [hcaps, hshift]
      rfl
    have hget : scancodeToChar[UInt8.toNat 0x1E * 2]? = some 97 := by decide +kernel
    unfold Console.outputChar
    dsimp only
    rw [if_neg (by rw [hsmall]; decide), hget]
  refine ⟨⟨hplain, by decide, by decide, fun hk => absurd hk.2 (by decide)⟩, by decide, ?_, ?_⟩
  · rw [hch]
    decide
  · rw [hch]
    decide

theorem TypesPlain.congr {s s' : TermState} (h : TypesPlain s) (hline : SameLine s s') :
    TypesPlain s' := by
  obtain ⟨hshell, hctrl, hcaps, hshift⟩ := h
  exact ⟨(congrArg TermState.shellFlag hline).symm.trans hshell, hctrl.congr hline,
    (congrArg TermState.capsLockOn hline).symm.trans hcaps,
    (congrArg TermState.shiftOn hline).symm.trans hshift⟩

theorem TypesPlain.next {c c' : Console} (h : TypesPlain c.shown)
    (hcur : Console.fits c.shown.keyboardCursorIdx)
    (hc' : c.keyboardInterrupt 0x1E = some c') : TypesPlain (c'.term c.visibleTerminal) := by
  obtain ⟨hchar, hne, _⟩ := h.echoKey
  have hline := Console.char_sameLine hchar hne hcur hc'
  have hkeep : ∀ s : TermState, TypesPlain s → ∀ ch copies,
      TypesPlain (Console.typeAhead (s.typeLine ch copies) ch) := by
    intro s hs ch copies
    obtain ⟨b, hb⟩ := Console.echoOff_eq s
    unfold Console.typeAhead TermState.typeLine TermState.keepCurrent TermState.insert
    rw [hb]
    split_ifs <;> exact hs
  exact (hkeep _ h (c.outputChar (UInt8.toNat 0x1E)) c.notInPrevCmdFlag).congr hline

section

variable {k₀ k : Kernel} {n m s : Nat}

/-- `a` is a printable key as long as a shell is shown and no modifier is held. -/
theorem Echoing.types_a (fs : FileSys) (h : Echoing k₀ n n s k)
    (hplain : TypesPlain k.console.shown) (j : Nat)
    (hcur : 0 ≤ k₀.console.shown.keyboardCursorIdx)
    (hroom : k₀.console.shown.keyboardCursorIdx + (n + j : Nat) ≤ 126) :
    StepSystem.Guarded (step fs) (Typed fs) k (List.replicate j (.keyboard 0x1E)) ∧
      StepSystem.count (step fs) Prints k (List.replicate j (.keyboard 0x1E)) = j ∧
      ∀ k', StepSystem.run (step fs) k (List.replicate j (.keyboard 0x1E)) = some k' →
        TypesPlain k'.console.shown := by
  induction j generalizing k n s with
  | zero =>
      refine ⟨trivial, rfl, ?_⟩
      rintro k' ⟨⟩
      exact hplain
  | succ j ih =>
      have hprints : k.Prints (.keyboard 0x1E) := hplain.echoKey
      obtain ⟨k₁, hk₁, hnext⟩ :
          ∃ k₁, step fs k (.keyboard 0x1E) = some k₁ ∧ Echoing k₀ (n + 1) (n + 1) _ k₁ :=
        h.print hprints hcur (by omega)
      have hplain₁ : TypesPlain k₁.console.shown := by
        obtain ⟨c₁, hc₁, rfl⟩ := Option.map_eq_some_iff.mp hk₁
        have hv : c₁.visibleTerminal = k.console.visibleTerminal :=
          hnext.visible.trans h.visible.symm
        show TypesPlain (c₁.term c₁.visibleTerminal)
        rw [hv]
        refine hplain.next ?_ hc₁
        rw [h.line.cursor]
        unfold Console.fits KEYBOARD_BUFFER_SIZE
        omega
      obtain ⟨hguard, hcount, hkeeps⟩ := ih hnext hplain₁ (by omega)
      rw [List.replicate_succ]
      refine ⟨⟨Or.inl hprints, fun k' hk' => ?_⟩, ?_, fun k' hk' => ?_⟩
      · rw [hk₁] at hk'
        cases hk'
        exact hguard
      · rw [StepSystem.count_cons hk₁, if_pos hprints, hcount, Nat.add_comm]
      · obtain ⟨k₂, hk₂, hrun⟩ := StepSystem.run_cons_eq_some.mp hk'
        rw [hk₁] at hk₂
        cases hk₂
        exact hkeeps k' hrun

/-- All characters typed can be erased by backspaces alone. -/
theorem Echoing.erases (fs : FileSys) (h : Echoing k₀ n m s k)
    (hcur : 0 ≤ k₀.console.shown.keyboardCursorIdx)
    (hroom : k₀.console.shown.keyboardCursorIdx + n ≤ 126) :
    StepSystem.Guarded (step fs) (Erased fs) k (List.replicate m (.keyboard 0x0E)) ∧
      StepSystem.count (step fs) Erases k (List.replicate m (.keyboard 0x0E)) = m := by
  induction m generalizing k with
  | zero => exact ⟨trivial, rfl⟩
  | succ m ih =>
      have herases : Erases k (.keyboard 0x0E) := rfl
      obtain ⟨k₁, hk₁, hback⟩ :
          ∃ k₁, step fs k (.keyboard 0x0E) = some k₁ ∧ Echoing k₀ n m s k₁ :=
        h.back herases hcur hroom
      obtain ⟨hguard, hcount⟩ := ih hback
      rw [List.replicate_succ]
      refine ⟨⟨Or.inl herases, fun k' hk' => ?_⟩, ?_⟩
      · rw [hk₁] at hk'
        cases hk'
        exact hguard
      · rw [StepSystem.count_cons hk₁, if_pos herases, hcount, Nat.add_comm]

end

/-- **Backspace undoes echo.** From every state that a run without arrows and Ctrl+L reaches, with
the cursor at the right end of the line and the echo on, printable keys that leave the line room
and then as many backspaces, with silent events between them, bring the indices of the line back
and the cursor to its column, in a row that is higher by the number of times the typing has
scrolled the screen. As many cells as there were keys are spaces from there on; all others are
those of the start, moved up by that number of rows, with blank rows behind them. -/
theorem backspace_undoes_echo {fs : FileSys} {m : BootMemory} {es typed erased : List Event}
    {k₀ : Kernel} (hrun : StepSystem.run (step fs) (boot m) es = some k₀)
    (hes : StepSystem.Guarded (step fs) TypesOnly (boot m) es)
    (hdist : k₀.console.shown.distanceFromRight = 0) (hecho : k₀.console.shown.echoFlag = true)
    (htyped : StepSystem.Guarded (step fs) (Typed fs) k₀ typed)
    (hroom : k₀.console.shown.keyboardCursorIdx
      + (StepSystem.count (step fs) Prints k₀ typed : Nat) ≤ 126) :
    ∃ k₁, StepSystem.run (step fs) k₀ typed = some k₁ ∧
      (StepSystem.Guarded (step fs) (Erased fs) k₁ erased →
        StepSystem.count (step fs) Erases k₁ erased
          = StepSystem.count (step fs) Prints k₀ typed →
        ∃ k₂, StepSystem.run (step fs) k₁ erased = some k₂ ∧
          k₂.visibleTerminal = k₀.visibleTerminal ∧
          k₂.console.shown.keyboardCursorIdx = k₀.console.shown.keyboardCursorIdx ∧
          k₂.console.shown.keyboardBufferEndIdx = k₀.console.shown.keyboardBufferEndIdx ∧
          k₂.shownScreen.x = k₀.shownScreen.x ∧
          k₂.shownScreen.y + StepSystem.count (step fs) Scrolls k₀ typed = k₀.shownScreen.y ∧
          ∀ y < NUM_ROWS, ∀ x < NUM_COLS, k₂.shownScreen.text.cell y x =
            if NUM_COLS * k₂.shownScreen.y + k₂.shownScreen.x ≤ NUM_COLS * y + x ∧
                NUM_COLS * y + x < NUM_COLS * k₂.shownScreen.y + k₂.shownScreen.x
                  + StepSystem.count (step fs) Prints k₀ typed then 32
            else if y + StepSystem.count (step fs) Scrolls k₀ typed < NUM_ROWS then
              k₀.shownScreen.text.cell (y + StepSystem.count (step fs) Scrolls k₀ typed) x
            else 0) := by
  have hreach : Reachable fs k₀ := ⟨m, es, hrun⟩
  have hcur : 0 ≤ k₀.console.shown.keyboardCursorIdx := (hreach.allNonNeg _).cursor
  have hw : k₀.shownScreen.Wraps := run_allWraps hrun hes _
  have hstart := Echoing.start hw hdist hecho
  obtain ⟨k₁, hk₁, hfull⟩ := hstart.run_typed htyped hcur (by rw [Nat.zero_add]; exact hroom)
  rw [Nat.zero_add, Nat.zero_add] at hfull
  generalize StepSystem.count (step fs) Prints k₀ typed = n at *
  generalize StepSystem.count (step fs) Scrolls k₀ typed = s at *
  refine ⟨k₁, hk₁, fun herased hcount => ?_⟩
  rw [← hcount, ← Nat.zero_add (StepSystem.count (step fs) Erases k₁ erased)] at hfull
  obtain ⟨k₂, hk₂, hundone⟩ := hfull.run_erased herased hcur (by
    rw [Nat.zero_add, hcount]
    exact hroom)
  rw [Nat.zero_add, hcount] at hundone
  obtain ⟨r, hroll, hframed, hshows, rfl⟩ := hundone.roll
  obtain ⟨hx, hy, hcells⟩ := hroll.undone (by decide) hw.x hshows
  refine ⟨k₂, hk₂, hundone.visible, ?_, ?_, hx, hy, hcells⟩
  · exact hundone.line.cursor.trans (Int.add_zero _)
  · exact hundone.line.stop.trans (Int.add_zero _)

/-- The lines that fill the rows above the last one. -/
def shortLines : List UInt8 := (List.replicate 24 [97, 10]).flatten

/-- On the small image the first shell is shown and writes down to the last row. -/
def lastRowEvents : List Event :=
  [.pit zeroFrame, .switch 1] ++ [.write 1 (some (ofList shortLines)) 48]

theorem lastRow_reached : ∃ k,
    StepSystem.run (step sampleImage) (boot zeroMemory) lastRowEvents = some k ∧
      TypesPlain k.console.shown ∧ Console.AtEnd k.console.shown 0 0 ∧
      k.shownScreen.Wraps ∧ k.shownScreen.x = 0 ∧ k.shownScreen.y = 24 := by
  have hview : (StepSystem.run (step sampleImage) (boot zeroMemory)
      [.pit zeroFrame, .switch 1]).map (fun k =>
      decide (TypesPlain k.console.shown ∧ k.console.shown.keyboardCursorIdx = 0 ∧
        k.console.shown.keyboardBufferEndIdx = 0 ∧ k.console.shown.distanceFromRight = 0 ∧
        k.console.shown.echoFlag = true ∧ k.shownScreen.x = 0 ∧ k.shownScreen.y = 0 ∧
        k.console.outTerm = k.console.visibleTerminal ∧ k.console.tooManyShellsFlag = false ∧
        k.cur = some 0 ∧ ((k.pcb 0).fileDescArray (fdIdx 1)).flags ≠ 0 ∧
        ((k.pcb 0).fileDescArray (fdIdx 1)).fileOpsTable = some .stdOut)) = some true := by
    decide +kernel
  obtain ⟨k, hk, hplain, hcur, hstop, hdist, hecho, hx, hy, hout, hmany, hp, hflags, hops⟩ :=
    StepSystem.exists_of_map_decide hview
  have hwraps : AllWraps k.console :=
    run_allWraps hk ⟨trivial, fun _ _ => ⟨trivial, fun _ _ => trivial⟩⟩
  have hopen : k.WritesTerminal 1 48 := ⟨by decide, 0, hp, hflags, hops⟩
  have hstep := hopen.prints sampleImage hmany (ofList shortLines)
  rw [show ((List.range (48 : Int).toNat).map (ofList shortLines)).filter (· ≠ 0) = shortLines by
    decide] at hstep
  have hsame := Console.putcs_sameLine k.console shortLines k.console.visibleTerminal
  have hvis := (Console.drawn_putcs k.console shortLines).visible
  have hscreen := Console.screen_putcs
    (Console.onScreen_of_wraps (hwraps k.console.outTerm)) shortLines
  rw [hout] at hscreen
  have hzero : (k.console.screen k.console.visibleTerminal).y = 0 := hy
  obtain ⟨hx', hy'⟩ : (shortLines.foldl Screen.putc (k.console.screen _)).x = 0 ∧
      (shortLines.foldl Screen.putc (k.console.screen _)).y = _ :=
    Screen.shortLines_place (hwraps k.console.visibleTerminal) hx (by rw [hzero]; decide)
      (by decide)
  have hall : AllWraps (k.console.putcs shortLines) := hwraps.putcs shortLines
  rw [← hscreen] at hx' hy'
  generalize k.console.putcs shortLines = c at hstep hsame hvis hall hx' hy'
  have hshown : c.shown = c.term k.console.visibleTerminal := congrArg c.term hvis
  have hplace : shownScreen { k with console := c } = c.screen k.console.visibleTerminal :=
    congrArg c.screen hvis
  refine ⟨{ k with console := c }, ?_, ?_, ?_, ?_, ?_, ?_⟩
  · exact StepSystem.run_append_eq_some.mpr
      ⟨k, hk, StepSystem.run_cons_eq_some.mpr ⟨_, hstep, rfl⟩⟩
  · rw [hshown]
    exact hplain.congr hsame
  · rw [hshown]
    exact Console.AtEnd.sameLine ⟨hcur, hstop, hdist, hecho⟩ hsame
  · rw [hplace]
    exact hall _
  · rw [hplace]
    exact hx'
  · rw [hplace]
    exact hy'.trans (congrArg (· + 24) hy)

/-- 81 times `a` from the start of the last row, and as many backspaces: the typing crosses the end
of the row and scrolls, so that the erasing ends a row higher. -/
theorem backspace_undoes_echo_scrolled : ∃ k₀ k₁ k₂,
    StepSystem.run (step sampleImage) (boot zeroMemory) lastRowEvents = some k₀ ∧
      k₀.shownScreen.x = 0 ∧ k₀.shownScreen.y = 24 ∧
      StepSystem.run (step sampleImage) k₀ (List.replicate 81 (.keyboard 0x1E)) = some k₁ ∧
      k₁.shownScreen.x = 1 ∧ k₁.shownScreen.y = 24 ∧
      StepSystem.run (step sampleImage) k₁ (List.replicate 81 (.keyboard 0x0E)) = some k₂ ∧
      k₂.console.shown.keyboardCursorIdx = 0 ∧ k₂.shownScreen.x = 0 ∧
      k₂.shownScreen.y = 23 := by
  obtain ⟨k₀, hk₀, hplain, ⟨hcur, _, hdist, hecho⟩, hwraps, hx, hy⟩ := lastRow_reached
  have hquiet : StepSystem.Guarded (step sampleImage) TypesOnly (boot zeroMemory) lastRowEvents :=
    ⟨trivial, fun _ _ => ⟨trivial, fun _ _ => ⟨trivial, fun _ _ => trivial⟩⟩⟩
  have hstart := Echoing.start hwraps hdist hecho
  obtain ⟨htyped, hcount, _⟩ := hstart.types_a sampleImage hplain 81 (by omega) (by omega)
  obtain ⟨k₁, hk₁, hfull⟩ := hstart.run_typed htyped (by omega) (by rw [hcount]; omega)
  rw [hcount, Nat.zero_add, Nat.zero_add] at hfull
  obtain ⟨herased, hback⟩ := hfull.erases sampleImage (by omega) (by omega)
  obtain ⟨k₁', hk₁', herase⟩ := @backspace_undoes_echo sampleImage zeroMemory _ _
    (List.replicate 81 (.keyboard 0x0E)) k₀ hk₀ hquiet hdist hecho htyped (by rw [hcount]; omega)
  rw [hk₁] at hk₁'
  cases hk₁'
  obtain ⟨k₂, hk₂, _, hcursor, _, hx₂, hy₂, _⟩ := herase herased (hback.trans hcount.symm)
  -- the typing ends at place 2001 of the roll, in the row behind the last one
  obtain ⟨r, hroll, hframed, hshows, htop⟩ := hfull.roll
  have hstartPos : (TextScreen.Roll.of NUM_ROWS NUM_COLS 0 k₀.shownScreen.text).pos = 1920 := by
    show NUM_COLS * k₀.shownScreen.y + k₀.shownScreen.x = 1920
    rw [hx, hy]
    rfl
  have hpos : r.pos = 2001 := by rw [hroll.pos, hstartPos]
  have hscrolls : r.top = 1 := by
    have hmost := hroll.top
    have hleast := hframed.below
    rw [hstartPos] at hmost
    rw [hpos] at hleast
    unfold NUM_COLS NUM_ROWS at hmost hleast
    omega
  have hcol := hshows.x
  have hrow := hshows.y
  rw [hpos] at hcol hrow
  rw [← htop, hscrolls, hy] at hy₂
  rw [hscrolls] at hrow
  exact ⟨k₀, k₁, k₂, hk₀, hx, hy, hk₁, hcol, Nat.succ.inj hrow, hk₂, hcursor.trans hcur,
    hx₂.trans hx, Nat.succ.inj hy₂⟩

end Kernel

end Ext2Kernel
