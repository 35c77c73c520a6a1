import Ext2Kernel.Console.Cells
import Ext2Kernel.Console.LineText
import Ext2Kernel.Process.KeyboardBounds

set_option autoImplicit false

/-! # The screen cursor over runs of the kernel

In every run the cursors of all terminals stay on the 25 rows and 80 columns, and every store
of a character goes to one of the 2000 cells, exactly if no right arrow is taken in the last
column. The up and down arrow move the cursor behind the last column for a moment; they come
back because the index of the line is not negative (`LineIdx.NonNeg`), so that there is a
character to erase.
-/

namespace Ext2Kernel

open ByteMem

/-! ## Indices are not negative -/

namespace LineIdx

structure NonNeg (l : LineIdx) : Prop where
  cursor : 0 ≤ l.cursor
  temp : 0 ≤ l.temp
  last : 0 ≤ l.last
  current : 0 ≤ l.current

theorem nonNeg_iff (l : LineIdx) :
    l.NonNeg ↔ 0 ≤ l.cursor ∧ 0 ≤ l.temp ∧ 0 ≤ l.last ∧ 0 ≤ l.current := by
  constructor
  · intro h
    exact ⟨h.cursor, h.temp, h.last, h.current⟩
  · rintro ⟨h₁, h₂, h₃, h₄⟩
    exact ⟨h₁, h₂, h₃, h₄⟩

section

variable {l : LineIdx} (h : l.NonNeg)

include h

theorem NonNeg.toEnd {n : Int} (hn : 0 ≤ n) : (l.toEnd n).NonNeg :=
  ⟨hn, h.temp, h.last, h.current⟩

theorem NonNeg.erase (typing : Bool) : (l.erase.eraseAhead typing).NonNeg := by
  rw [nonNeg_iff] at h ⊢
  unfold LineIdx.erase LineIdx.eraseAhead
  split_ifs <;> (try dsimp only at *) <;> omega

theorem NonNeg.left (r : Int) : (l.left r).NonNeg := by
  rw [nonNeg_iff] at h ⊢
  unfold LineIdx.left
  split_ifs <;> (try dsimp only at *) <;> omega

theorem NonNeg.right {r : Int} (hr : r = 0 ∨ r = 1) : (l.right r).NonNeg := by
  rw [nonNeg_iff] at h ⊢
  unfold LineIdx.right
  dsimp only
  omega

theorem NonNeg.clear : l.clear.NonNeg := ⟨le_refl _, h.cursor, h.last, h.current⟩

theorem NonNeg.insert (copies stores : Bool) :
    ((l.insert.keepCurrent copies).ahead stores).NonNeg := by
  rw [nonNeg_iff] at h ⊢
  unfold LineIdx.insert LineIdx.keepCurrent LineIdx.ahead KEYBOARD_BUFFER_SIZE
  split_ifs <;> (try dsimp only at *) <;> omega

theorem NonNeg.enter {shell : Bool} (hlast : shell = true → 0 ≤ (l.enter true).last)
    (stores : Bool) : (((l.enter shell).keepCurrent true).ahead stores).NonNeg := by
  have hlast' : 0 ≤ (l.enter shell).last := by
    cases shell with
    | false => exact h.last
    | true => exact hlast rfl
  have htemp := h.temp
  unfold LineIdx.ahead
  split_ifs
  · exact ⟨le_refl _, by show 0 ≤ l.temp + 1; omega, hlast', le_refl _⟩
  · exact ⟨le_refl _, htemp, hlast', le_refl _⟩

theorem NonNeg.replay {newline : Bool} (hnewline : newline = true → 0 < l.temp) :
    (l.replay newline).NonNeg := by
  have hn : 0 ≤ (if newline then l.temp - 1 else l.temp) := by
    split
    · rename_i hten
      have hpos := hnewline hten
      omega
    · exact h.temp
  exact ⟨hn, le_refl _, h.last, hn⟩

end

end LineIdx

namespace Console

/-- Enter is defined on a shell only if the copy of the command has a length. -/
theorem enterKey_last {c c' : Console} {ch : UInt8} (h : c.enterKey ENTER_PRESSED ch = some c')
    (hshell : (c.term c.visibleTerminal).shellFlag = true) :
    0 ≤ ((c.term c.visibleTerminal).lineIdx.enter true).last := by
  unfold enterKey at h
  dsimp only at h
  rw [if_pos rfl] at h
  obtain ⟨c₁, hc₁, hmap⟩ := Option.bind_eq_some_iff.mp h
  obtain ⟨s, hs, _⟩ := Option.map_eq_some_iff.mp hmap
  obtain ⟨hend, hflag⟩ := endLine_end hc₁
  have hfits := (saveCommand_iff _).mp ⟨s, hs⟩ (hflag.trans hshell)
  dsimp only at hend
  rw [hend] at hfits
  exact hfits.1

theorem keyboardInterrupt_enter {c : Console} {scancode : UInt8}
    (h : scancode.toNat = ENTER_PRESSED) :
    c.keyboardInterrupt scancode = charKey { c with putcToVisibleFlag := true } ENTER_PRESSED := by
  rw [keyboardInterrupt_char (h ▸ c.hasChar_enter), h]

theorem enter_last {c c' : Console} {scancode : UInt8} (hp : scancode.toNat = ENTER_PRESSED)
    (h : c.keyboardInterrupt scancode = some c')
    (hshell : (c.term c.visibleTerminal).shellFlag = true) :
    0 ≤ ((c.term c.visibleTerminal).lineIdx.enter true).last := by
  have hecho : ∀ s : TermState, (echoOff s).lineIdx = s.lineIdx ∧
      (echoOff s).shellFlag = s.shellFlag := by
    intro s
    obtain ⟨b, hb⟩ := echoOff_eq s
    rw [hb]
    exact ⟨rfl, rfl⟩
  rw [keyboardInterrupt_enter hp, charKey_eq] at h
  obtain ⟨c₄, hblock, _⟩ := Option.map_eq_some_iff.mp h
  rw [insertChar_enter, Option.bind_some] at hblock
  obtain ⟨c₂, hc₂, _⟩ := Option.bind_eq_some_iff.mp hblock
  have hlast := enterKey_last hc₂ (by
    rw [modify_visibleTerminal, modify_term_self, (hecho _).2]
    exact hshell)
  rw [modify_visibleTerminal, modify_term_self, (hecho _).1] at hlast
  exact hlast

def AllNonNeg (c : Console) : Prop := ∀ t, (c.term t).lineIdx.NonNeg

theorem nonNeg_boot : TermState.boot.lineIdx.NonNeg :=
  ⟨le_refl _, le_refl _, le_refl _, le_refl _⟩

theorem nonNeg_keyLine {c c' : Console} {scancode : UInt8}
    (h : (c.term c.visibleTerminal).lineIdx.NonNeg)
    (hc' : c.keyboardInterrupt scancode = some c') : (c.keyLine scancode.toNat).NonNeg := by
  unfold keyLine
  dsimp only
  split_ifs with hup hrecall hdown hshell hback hleft hright hctrl hignored henter
  · exact h.toEnd h.last
  · exact h
  · exact h.toEnd h.current
  · exact h
  · exact h.erase _
  · exact h.left _
  · exact h.right c.rightArrow_return
  · exact h.clear
  · exact h
  · exact h.enter (fun hshell => enter_last henter hc' hshell) _
  · exact h.insert _ _

theorem allNonNeg_keyboardInterrupt {c c' : Console} {scancode : UInt8} (hs : AllOnScreen c)
    (h : AllNonNeg c) (hc' : c.keyboardInterrupt scancode = some c') : AllNonNeg c' := by
  intro t
  by_cases ht : t = c.visibleTerminal ∧ c.Plain scancode.toNat
  · rw [ht.1, keyboardInterrupt_lineIdx ht.2 hc']
    exact nonNeg_keyLine (h _) hc'
  · rw [keyboardInterrupt_lineIdx_ne (hs _) hc' fun heq hp => ht ⟨heq, hp⟩]
    exact h t

theorem allNonNeg_readTerminalStart {c c' : Console} (h : AllNonNeg c)
    (hc' : c.readTerminalStart = some c') : AllNonNeg c' := by
  intro t
  rw [readTerminalStart_lineIdx hc']
  split
  · rename_i hr
    obtain ⟨rfl, _⟩ := hr
    refine (h c.processTerminal).replay fun hten => ?_
    -- Nothing saved: the byte looked at is the first of the cleared row.
    by_contra hzero
    have htemp : 0 ≤ (c.term c.processTerminal).tempKbdIdx := (h c.processTerminal).temp
    have hnone : (c.term c.processTerminal).tempKbdIdx.toNat = 0 := by
      have hle : ¬ 0 < (c.term c.processTerminal).tempKbdIdx := hzero
      omega
    have hlen := length_replayed_le (c.term c.processTerminal)
    rw [hnone] at hlen
    have hbyte := (replayByte_eq_iff (c := c) (by unfold KEYBOARD_BUFFER_SIZE; omega)).mp
      (of_decide_eq_true hten)
    omega
  · exact h t

/-! ## All cursors are on cells -/

/-- The cursor of every terminal is on one of the cells. -/
def AllInside (c : Console) : Prop := ∀ t, OnScreen (c.term t) ∧ InRow (c.term t)

theorem AllInside.modify {c : Console} (h : AllInside c) (t : Terminal) {f : TermState → TermState}
    (hf : ∀ s, (f s).screenX = s.screenX ∧ (f s).screenY = s.screenY) :
    AllInside (c.modify t f) := by
  intro u
  unfold OnScreen InRow
  by_cases hu : u = t
  · rw [hu, modify_term_self, (hf _).1, (hf _).2]
    exact h t
  · rw [modify_term_ne _ _ _ hu]
    exact h u

theorem AllInside.putcs {c : Console} (h : AllInside c) (l : List UInt8) :
    AllInside (c.putcs l) := by
  intro u
  by_cases hu : u = c.outTerm
  · rw [hu]
    exact ⟨onScreen_putcs l (h _).1, putcs_inRow l (h _).2⟩
  · rw [(drawn_putcs c l).other u hu]
    exact h u

theorem Background.allInside {c c' : Console} (h : Background c c') (hc : AllInside c) :
    AllInside c' := by
  induction h with
  | refl => exact hc
  | print l _ ih => exact ih.putcs l
  | store video _ ih => exact ih
  | schedule t _ ih => exact ih
  | shells b _ ih => exact ih
  | shell t b _ ih =>
      refine ih.modify t ?_
      exact fun _ => ⟨rfl, rfl⟩
  | typed t _ ih =>
      refine ih.modify t ?_
      exact fun _ => ⟨rfl, rfl⟩

/-- The characters a read prints again. -/
def readCells (c : Console) : List Nat :=
  let t := c.processTerminal
  let s := clearLine (c.term t)
  if replays s ∧ fits s.tempKbdIdx then
    ((c.modify t clearLine).modify t restoreLine).putcsCells (replayed s)
  else []

theorem allInside_restored {c : Console} (h : AllInside c) :
    AllInside ((c.modify c.processTerminal clearLine).modify c.processTerminal restoreLine) := by
  refine (h.modify _ ?_).modify _ ?_
  · exact fun _ => ⟨rfl, rfl⟩
  · exact fun _ => ⟨rfl, rfl⟩

theorem onCells_readCells {c : Console} (h : AllInside c) : OnCells c.readCells := by
  unfold readCells
  dsimp only
  split
  · exact onCells_putcsCells _ (allInside_restored h _).1 (allInside_restored h _).2
  · exact onCells_nil

theorem allInside_readTerminalStart {c c' : Console} (h : AllInside c)
    (hc' : c.readTerminalStart = some c') : AllInside c' := by
  rcases readTerminalStart_cases hc' with ⟨_, rfl⟩ | ⟨_, _, rfl⟩
  · apply AllInside.modify
    · apply h.modify
      exact fun _ => ⟨rfl, rfl⟩
    · exact fun _ => ⟨rfl, rfl⟩
  · apply AllInside.modify
    · apply ((allInside_restored h).putcs _).modify
      exact fun _ => ⟨rfl, rfl⟩
    · exact fun _ => ⟨rfl, rfl⟩

/-- Every key stores to cells of the screen; the cursors stay on cells unless a right arrow is
taken in the last column. -/
theorem keyboardInterrupt_inside_iff {c : Console} (h : AllInside c) (hn : AllNonNeg c)
    (scancode : UInt8) :
    OnCells (c.keyCells scancode.toNat) ∧
      ((∀ c', c.keyboardInterrupt scancode = some c' → AllInside c')
        ↔ c.KeyInRow scancode.toNat) := by
  have hs : AllOnScreen c := fun t => (h t).1
  by_cases hp : c.Plain scancode.toNat
  · obtain ⟨hcells, hrow⟩ := keyboardInterrupt_cells (h _).1 (h _).2 (hn _).cursor hp
    refine ⟨hcells, Iff.trans ⟨fun hall c' hc' => (hall c' hc' _).2, fun hall c' hc' t => ?_⟩ hrow⟩
    refine ⟨allOnScreen_keyboardInterrupt hs hc' t, ?_⟩
    by_cases ht : t = c.visibleTerminal
    · rw [ht]
      exact hall c' hc'
    · obtain ⟨c₁, hsteady, rfl⟩ := plain_steady (hs _) hp hc'
      obtain ⟨kb, hkb⟩ := hsteady.other t ht
      rw [leave_term, hkb]
      exact (h t).2
  · have hne : ∀ code, code ∉ modifierCodes → switchKey code = none → scancode.toNat ≠ code := by
      intro code hmod hswitch heq
      rw [heq] at hp
      exact hp ⟨hmod, fun _ => hswitch⟩
    refine ⟨?_, iff_of_true (fun c' hc' t => ?_) fun hk => ?_⟩
    · unfold keyCells
      rw [if_neg (hne _ (by decide) (by decide)), if_neg (hne _ (by decide) (by decide)),
        if_neg (hne _ (by decide) (by decide)), if_pos hp]
      exact onCells_nil
    · refine ⟨allOnScreen_keyboardInterrupt hs hc' t, ?_⟩
      cases not_plain_turned hp hc' with
      | modifier f hf _ =>
          have heq := hf (c.term t)
          unfold SameButModifiers at heq
          show (f (c.term t)).screenX < NUM_COLS
          rw [heq]
          exact (h t).2
      | same => exact (h t).2
      | switch u _ _ =>
          rw [switchTerminal_term]
          exact (h t).2
    · exact absurd hk.1 (hne _ (by decide) (by decide))

end Console

namespace Kernel

open Console (AllInside AllNonNeg AllOnScreen)

/-! ## The cells of an event -/

/-- The end of `sys_halt` starts a new line when characters were typed ahead. -/
def returnCells (k : Kernel) : List Nat :=
  let t := k.processTerminal
  if (k.console.term t).typingDuringProgFlag then
    (k.console.modify t fun s => { s with shellFlag := true }).putcCells 10
  else []

def haltCells (k : Kernel) : List Nat :=
  match k.cur with
  | none => []
  | some p =>
      match (k.popped p).cur with
      | none => []
      | some _ => (k.popped p).returnCells

def exceptionCells (k : Kernel) (index : Fin 20) : List Nat :=
  k.console.putcsCells (exceptionText index) ++ (k.raised index).haltCells

def executeCells (fs : FileSys) (fr : Frame) (command : Option (List UInt8)) (k : Kernel) :
    List Nat :=
  match k.sysExecute fs fr command with
  | some (.fault, k') => k'.exceptionCells PAGE_FAULT
  | _ => []

/-- The call writes to the terminal: it reaches `_sys_write_terminal`. -/
def WritesTerminal (k : Kernel) (fd nbytes : Int) : Prop :=
  ¬ (nbytes ≤ 0 ∨ fd < 0 ∨ fd > MAX_FD_IDX) ∧ ∃ p, k.cur = some p ∧
    ((k.pcb p).fileDescArray (fdIdx fd)).flags ≠ 0 ∧
    ((k.pcb p).fileDescArray (fdIdx fd)).fileOpsTable = some .stdOut

/-- Every cell that the screen routines store to in the step is one of the screen. -/
def DrawsOnCells (fs : FileSys) (k : Kernel) : Event → Prop
  | .execute fr command => OnCells (k.executeCells fs fr command)
  | .halt _ _ => OnCells k.haltCells
  | .exception _ index => OnCells (k.exceptionCells index)
  | .keyboard scancode => OnCells (k.console.keyCells scancode.toNat)
  | .read _ fd bufNull nbytes => k.ReadsTerminal fd bufNull nbytes → OnCells k.console.readCells
  | .write fd (some buf) nbytes =>
      k.WritesTerminal fd nbytes → OnCells (k.console.sysWriteTerminalCells buf nbytes)
  | _ => True

theorem onCells_haltCells {k : Kernel} (h : AllInside k.console) : OnCells k.haltCells := by
  unfold haltCells
  split
  · exact onCells_nil
  · rename_i p _
    split
    · exact onCells_nil
    · unfold returnCells
      dsimp only
      split
      · have hpop : AllInside (k.popped p).console := h
        have hshell : AllInside ((k.popped p).console.modify (k.popped p).processTerminal
            fun s => { s with shellFlag := true }) := by
          refine hpop.modify _ ?_
          exact fun _ => ⟨rfl, rfl⟩
        exact Console.onCells_putcCells 10 (hshell _).1 (hshell _).2
      · exact onCells_nil

theorem onCells_exceptionCells {k : Kernel} (h : AllInside k.console) (index : Fin 20) :
    OnCells (k.exceptionCells index) :=
  (Console.onCells_putcsCells _ (h _).1 (h _).2).append
    (onCells_haltCells (Console.Background.allInside (k.raised_background index) h))

/-- Output of programs and of the kernel, from cursors on cells. -/
theorem drawsOnCells {fs : FileSys} {k : Kernel} (h : AllInside k.console)
    (hn : AllNonNeg k.console) (e : Event) : DrawsOnCells fs k e := by
  cases e with
  | execute fr command =>
      show OnCells (k.executeCells fs fr command)
      unfold executeCells
      split
      · rename_i hexec
        have hinside := Console.Background.allInside (sysExecute_background hexec) h
        exact onCells_exceptionCells hinside _
      · exact onCells_nil
  | halt fr status => exact onCells_haltCells h
  | exception fr index => exact onCells_exceptionCells h index
  | keyboard scancode => exact (Console.keyboardInterrupt_inside_iff h hn scancode).1
  | read stack fd bufNull nbytes => exact fun _ => Console.onCells_readCells h
  | write fd buf nbytes =>
      cases buf with
      | none => trivial
      | some m => exact fun _ => Console.onCells_sysWriteTerminalCells m nbytes (h _).1 (h _).2
  | _ => trivial

/-! ## Runs -/

/-- The event keeps the cursors on the screen. -/
def KeepsCursor (k : Kernel) : Event → Prop
  | .keyboard scancode => k.console.KeyInRow scancode.toNat
  | _ => True

theorem step_inside_iff {fs : FileSys} {k : Kernel} {e : Event} (h : AllInside k.console)
    (hn : AllNonNeg k.console) :
    (∀ k', step fs k e = some k' → AllInside k'.console) ↔ KeepsCursor k e := by
  cases e with
  | keyboard scancode =>
      refine Iff.trans ?_ (Console.keyboardInterrupt_inside_iff h hn scancode).2
      constructor
      · intro hnext c' hc'
        exact hnext { k with console := c' } (Option.map_eq_some_iff.mpr ⟨c', hc', rfl⟩)
      · intro hnext k' hk'
        obtain ⟨c', hc', rfl⟩ := Option.map_eq_some_iff.mp hk'
        exact hnext c' hc'
  | switch n =>
      refine iff_of_true (fun k' hk' t => ?_) trivial
      have hc : k'.console = k.console.switchTerminal n := step_console hk'
      rw [hc, Console.switchTerminal_term]
      exact h t
  | read stack fd bufNull nbytes =>
      refine iff_of_true (fun k' hk' => ?_) trivial
      rcases step_console hk' with hc | hc
      · rw [hc]
        exact h
      · exact Console.allInside_readTerminalStart h hc
  | _ => exact iff_of_true (fun k' hk' => Console.Background.allInside (step_console hk') h) trivial

theorem step_allNonNeg {fs : FileSys} {k k' : Kernel} {e : Event} (hs : AllOnScreen k.console)
    (hn : AllNonNeg k.console) (h : step fs k e = some k') : AllNonNeg k'.console := by
  have hc := step_console h
  cases e with
  | keyboard scancode => exact Console.allNonNeg_keyboardInterrupt hs hn hc
  | switch n =>
      intro t
      rw [show k'.console = k.console.switchTerminal n from hc, Console.switchTerminal_term]
      exact hn t
  | read stack fd bufNull nbytes =>
      rcases hc with hc | hc
      · rw [hc]
        exact hn
      · exact Console.allNonNeg_readTerminalStart hn hc
  | _ =>
      intro t
      rw [Console.Background.lineIdx hc]
      exact hn t

/-- What every event keeps, the right arrow included. -/
structure Settled (k : Kernel) : Prop where
  onScreen : AllOnScreen k.console
  nonNeg : AllNonNeg k.console

theorem step_settled {fs : FileSys} {k k' : Kernel} {e : Event} (hk : Settled k)
    (h : step fs k e = some k') : Settled k' :=
  ⟨step_allOnScreen hk.onScreen h, step_allNonNeg hk.onScreen hk.nonNeg h⟩

theorem boot_settled (m : BootMemory) : Settled (boot m) :=
  ⟨fun _ => Console.onScreen_boot, fun _ => Console.nonNeg_boot⟩

theorem Reachable.allNonNeg {fs : FileSys} {k : Kernel} (h : Reachable fs k) :
    AllNonNeg k.console := by
  obtain ⟨m, hm⟩ := h
  exact (hm.invariant (fun _ _ _ => step_settled) (boot_settled m)).nonNeg

theorem allInside_iff (k : Kernel) : AllInside k.console ↔
    ∀ t, (k.console.term t).screenX ≤ 79 ∧ (k.console.term t).screenY ≤ 24 := by
  refine forall_congr' fun t => ?_
  unfold Console.OnScreen InRow NUM_ROWS NUM_COLS
  omega

/-- **The screen cursor.** In every run of the kernel the cursor of every terminal stays in
columns 0 to 79 and rows 0 to 24, and every character cell that is written or erased is one of
the 2000 of the screen, exactly if no right arrow is taken with the cursor in column 79. -/
theorem cursor_iff_keepsCursor (fs : FileSys) (m : BootMemory) (es : List Event) :
    StepSystem.Along (step fs) (fun k => ∀ t,
        (k.console.term t).screenX ≤ 79 ∧ (k.console.term t).screenY ≤ 24) (boot m) es ∧
        StepSystem.Guarded (step fs) (DrawsOnCells fs) (boot m) es
      ↔ StepSystem.Guarded (step fs) KeepsCursor (boot m) es := by
  refine StepSystem.along_and_guarded_iff (P := Settled) ?_ ?_ ?_ ?_
  · exact fun _ _ _ => step_settled
  · intro k e hsettled hk
    have hin := (allInside_iff k).mpr hk
    simp only [← allInside_iff]
    rw [and_iff_right (drawsOnCells hin hsettled.nonNeg e)]
    exact step_inside_iff hin hsettled.nonNeg
  · exact boot_settled m
  · exact fun _ => ⟨Nat.zero_le _, Nat.zero_le _⟩

end Kernel

/-! ## A right arrow in the last column -/

namespace Console

/-- A printed character moves the cursor one column on. -/
theorem putc_place {c : Console} {ch : UInt8} (hch : ch ≠ 10 ∧ ch ≠ 13)
    (hy : (c.term c.outTerm).screenY < NUM_ROWS)
    (hx : (c.term c.outTerm).screenX + 1 < NUM_COLS) :
    ((c.putc ch).term c.outTerm).screenX = (c.term c.outTerm).screenX + 1 ∧
      ((c.putc ch).term c.outTerm).screenY = (c.term c.outTerm).screenY := by
  have hdrawn := drawn_putcStore c ch
  have hstore : ((c.putcStore ch).term c.outTerm).screenX = (c.term c.outTerm).screenX + 1 ∧
      ((c.putcStore ch).term c.outTerm).screenY = (c.term c.outTerm).screenY := by
    unfold putcStore
    dsimp only
    rw [if_neg (by tauto), modify_term_self]
    have hmod : ((c.term c.outTerm).screenX + 1) % NUM_COLS = (c.term c.outTerm).screenX + 1 :=
      Nat.mod_eq_of_lt hx
    refine ⟨hmod, ?_⟩
    show ((c.term c.outTerm).screenY + ((c.term c.outTerm).screenX + 1) % NUM_COLS / NUM_COLS)
      % NUM_ROWS = _
    rw [hmod, Nat.div_eq_of_lt hx, Nat.add_zero, Nat.mod_eq_of_lt hy]
  -- The column is not 0, so that no row is added.
  have hwrap : ((c.putcStore ch).wrapAtEdge.term c.outTerm).screenX
        = ((c.putcStore ch).term c.outTerm).screenX ∧
      ((c.putcStore ch).wrapAtEdge.term c.outTerm).screenY
        = ((c.putcStore ch).term c.outTerm).screenY := by
    unfold wrapAtEdge wraparound
    split
    · rw [hdrawn.outTerm, modify_term_self]
      refine ⟨wrapTerm_screenX _, ?_⟩
      unfold wrapTerm
      extract_lets f₁ f₂
      rw [if_neg fun h => absurd h.1 (by rw [hstore.1]; exact Nat.succ_ne_zero _)]
    · exact ⟨rfl, rfl⟩
  have ho : (c.putcStore ch).wrapAtEdge.outTerm = c.outTerm :=
    (drawn_wrapAtEdge _).outTerm.trans hdrawn.outTerm
  unfold putc scrollDown
  dsimp only
  rw [ho, if_neg]
  · exact ⟨hwrap.1.trans hstore.1, hwrap.2.trans hstore.2⟩
  · rw [hwrap.2, hstore.2]
    exact Nat.not_le.mpr hy

theorem putcs_place {c : Console} {l : List UInt8} (hl : ∀ ch ∈ l, ch ≠ 10 ∧ ch ≠ 13)
    (hy : (c.term c.outTerm).screenY < NUM_ROWS)
    (hx : (c.term c.outTerm).screenX + l.length < NUM_COLS) :
    ((c.putcs l).term c.outTerm).screenX = (c.term c.outTerm).screenX + l.length := by
  induction l generalizing c with
  | nil => rfl
  | cons ch t ih =>
      rw [List.length_cons] at hx ⊢
      have ho := (drawn_putc c ch).outTerm
      obtain ⟨hcol, hrow⟩ := putc_place (hl ch List.mem_cons_self) hy (by omega)
      have hrec := ih (c := c.putc ch) (fun b hb => hl b (List.mem_cons_of_mem _ hb))
        (by rw [ho, hrow]; exact hy) (by rw [ho, hcol]; omega)
      rw [ho, hcol] at hrec
      show ((c.putc ch).putcs t |>.term c.outTerm).screenX = _
      rw [hrec]
      omega

end Console

namespace Kernel

/-- A write to the terminal prints the bytes of the buffer without the NULs. -/
theorem WritesTerminal.prints {k : Kernel} {fd nbytes : Int} (h : k.WritesTerminal fd nbytes)
    (fs : FileSys) (hmany : k.console.tooManyShellsFlag = false) (buf : Mem) :
    step fs k (.write fd (some buf) nbytes) = some { k with
      console := k.console.putcs (((List.range nbytes.toNat).map buf).filter (· ≠ 0)) } := by
  obtain ⟨hgood, p, hp, hflags, hops⟩ := h
  have hprint : (k.console.sysWriteTerminal buf nbytes).1
      = k.console.putcs (((List.range nbytes.toNat).map buf).filter (· ≠ 0)) := by
    unfold Console.sysWriteTerminal
    rw [if_neg (by omega), if_neg (by omega), if_neg fun h => absurd h.1 (by rw [hmany]; decide)]
  rw [← hprint]
  show (k.sysWrite fd (some buf) nbytes).map _ = _
  unfold sysWrite
  dsimp only
  rw [if_neg hgood, hp, Option.bind_some, if_neg hflags, hops]
  rfl

/-- On the small image the first shell is shown, `a` is typed and the cursor goes left. -/
def typedLeft : List Event := [.pit zeroFrame, .switch 1, .keyboard 0x1E, .keyboard 0x4B]

/-- The shell prints 79 characters and a right arrow follows: the cursor is in column 80. -/
theorem right_arrow_leaves_screen : ¬ ∀ (fs : FileSys) (k : Kernel) (t : Terminal),
    Reachable fs k →
      (k.console.term t).screenX ≤ 79 ∧ (k.console.term t).screenY ≤ 24 := by
  intro hall
  have hview : (StepSystem.run (step sampleImage) (boot zeroMemory) typedLeft).map (fun k =>
      decide (k.console.visibleTerminal = 1 ∧ k.console.outTerm = 1 ∧
        k.console.tooManyShellsFlag = false ∧ (k.console.term 1).screenX = 0 ∧
        (k.console.term 1).distanceFromRight = 1 ∧ (k.console.term 1).keyboardCursorIdx = 0 ∧
        (k.console.term 1).shellFlag = true ∧ k.cur = some 0 ∧
        ((k.pcb 0).fileDescArray (fdIdx 1)).flags ≠ 0 ∧
        ((k.pcb 0).fileDescArray (fdIdx 1)).fileOpsTable = some .stdOut)) = some true := by
    decide +kernel
  obtain ⟨k, hk, hv, hout, hmany, hx, hdist, hcur, hshell, hp, hflags, hops⟩ :=
    StepSystem.exists_of_map_decide hview
  have hreach : Reachable sampleImage k := ⟨zeroMemory, _, hk⟩
  -- What the shell prints.
  have hline : ((List.range (79 : Int).toNat).map fun _ => (97 : UInt8)).filter (· ≠ 0)
      = List.replicate 79 97 := by
    simp
  have hcol : ((k.console.putcs (List.replicate 79 97)).term 1).screenX = 79 := by
    have hplace := Console.putcs_place (c := k.console) (l := List.replicate 79 97)
      (fun ch hch => by rw [List.eq_of_mem_replicate hch]; decide)
      (hreach.allOnScreen _).1 (by rw [hout, hx, List.length_replicate]; decide)
    rw [hout, hx, List.length_replicate] at hplace
    exact hplace
  have hopen : k.WritesTerminal 1 79 := ⟨by decide, 0, hp, hflags, hops⟩
  have hwrite := hopen.prints sampleImage hmany fun _ => 97
  rw [hline] at hwrite
  have hsame := Console.putcs_sameLine k.console (List.replicate 79 97) 1
  have hvis := (Console.drawn_putcs k.console (List.replicate 79 97)).visible
  generalize k.console.putcs (List.replicate 79 97) = c at hwrite hcol hsame hvis
  unfold SameLine at hsame
  -- The right arrow is taken there.
  have hreach' : Reachable sampleImage { k with console := c } := by
    obtain ⟨m, hm⟩ := hreach
    exact ⟨m, hm.trans_step hwrite⟩
  have hinside : Console.AllInside c :=
    (allInside_iff { k with console := c }).mpr fun t => hall sampleImage _ t hreach'
  have hkey : c.KeyInRow 0x4D := by
    refine (@step_inside_iff sampleImage { k with console := c } (.keyboard 0x4D) hinside
      hreach'.allNonNeg).mp fun k' hk' => ?_
    obtain ⟨m, hm⟩ := hreach'
    exact (allInside_iff k').mpr fun t => hall sampleImage k' t ⟨m, hm.trans_step hk'⟩
  unfold Console.KeyInRow at hkey
  rw [hvis, hv] at hkey
  refine hkey ⟨rfl, ?_, ?_, ?_⟩ hcol
  · rw [← congrArg TermState.distanceFromRight hsame, hdist]
    decide
  · rw [← congrArg TermState.keyboardCursorIdx hsame, hcur]
    decide
  · rw [← congrArg TermState.shellFlag hsame, hshell]

end Kernel

end Ext2Kernel
