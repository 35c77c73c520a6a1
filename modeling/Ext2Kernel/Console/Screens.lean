import Ext2Kernel.Basic.StepSystem
import Ext2Kernel.Console.ScreenSpec

set_option autoImplicit false

/-! # Three independent screens

What the terminals are for: each has a screen of its own. A `Screen` is a page of video memory
with its cursor, and printing a character is a function of the screen alone (`Screen.putc`).
The console keeps the page of a terminal at one of two addresses, and copies it when the
visible terminal changes. `Console.screen` reads the screen of a terminal back from wherever
it is, and `outputs_refine` says that every sequence of `putc` and `switch_terminal` calls
does to the three screens what the abstract system (`Screens`) does.
-/

namespace Ext2Kernel

open ByteMem

/-! ## One screen -/

/-- A page of 4KB and the cursor on it. -/
structure Screen where
  page : Mem
  x : Nat
  y : Nat
  forwardNext : Int
  backwardNext : Int

namespace Screen

def newline (s : Screen) : Screen :=
  { s with y := if Console.edgeColumn s.x then s.y else s.y + 1, x := 0 }

/-- Store a character in the cell under the cursor and move on. -/
def type (s : Screen) (ch : UInt8) : Screen :=
  let cell := NUM_COLS * s.y + s.x
  let x := (s.x + 1) % NUM_COLS
  { s with
    page := Function.update (Function.update s.page (2 * cell) ch) (2 * cell + 1) ATTRIB
    x := x
    y := (s.y + x / NUM_COLS) % NUM_ROWS }

/-- Bring the row up to date at the ends of a row. -/
def wrap (s : Screen) : Screen :=
  if Console.edgeColumn s.x then
    let f₁ := if s.forwardNext = NUM_COLS then 0 else s.forwardNext
    let f₂ := if s.x = NUM_COLS - 1 then (NUM_COLS : Int) else f₁
    if s.x = 0 ∧ f₂ = 0 then
      { s with y := s.y + 1, backwardNext := NUM_COLS, forwardNext := 1 }
    else { s with forwardNext := f₂ }
  else s

/-- Behind the last row, move all rows up. -/
def scroll (s : Screen) : Screen :=
  if s.y ≥ NUM_ROWS then
    { s with page := Console.scrollVideo s.page 0, y := NUM_ROWS - 1, x := 0 }
  else s

def putc (s : Screen) (ch : UInt8) : Screen :=
  (if ch = 10 ∨ ch = 13 then s.newline else s.type ch).wrap.scroll

end Screen

/-! ## The abstract system -/

/-- Three screens, one of which is shown. -/
structure Screens where
  visible : Terminal
  screen : Terminal → Screen

/-- A call of an output routine: `putc` with the values `process_terminal` and
`putc_to_visible_flag` have when it is called, or `switch_terminal`. -/
inductive Output where
  | putc (process : Terminal) (toVisible : Bool) (ch : UInt8)
  | switchTerminal (n : Int)

/-- The terminal a `putc` is for. -/
def outputTarget (visible process : Terminal) (toVisible : Bool) : Terminal :=
  if toVisible then visible else process

/-- Printing changes the target's screen only; switching changes none. -/
def Screens.step (s : Screens) : Output → Screens
  | .putc process toVisible ch =>
      let t := outputTarget s.visible process toVisible
      { s with screen := Function.update s.screen t ((s.screen t).putc ch) }
  | .switchTerminal n =>
      if h : 0 ≤ n ∧ n < 3 then { s with visible := ⟨n.toNat, toNat_lt_terminals h⟩ } else s

namespace Console

/-! ## The screens of a console -/

/-- The page of terminal `t`: the 4096 bytes at `VIDEO` or at `video_buf[t]`. -/
def page (c : Console) (t : Terminal) : Mem := fun i =>
  if i < PAGE_4KB then c.video (c.screenBase t + i) else 0

/-- The screen of terminal `t`. -/
def screen (c : Console) (t : Terminal) : Screen where
  page := c.page t
  x := (c.term t).screenX
  y := (c.term t).screenY
  forwardNext := (c.term t).forwardNext
  backwardNext := (c.term t).backwardNext

def screens (c : Console) : Screens := ⟨c.visibleTerminal, c.screen⟩

/-- The two variables `putc` finds its target by. -/
def withTarget (c : Console) (process : Terminal) (toVisible : Bool) : Console :=
  { c with processTerminal := process, putcToVisibleFlag := toVisible }

/-- The output routines as steps of a console. -/
def output (c : Console) : Output → Console
  | .putc process toVisible ch => (c.withTarget process toVisible).putc ch
  | .switchTerminal n => c.switchTerminal n

section

variable {c : Console} {t u : Terminal}

theorem page_inside {i : Nat} (hi : i < PAGE_4KB) : c.page t i = c.video (c.screenBase t + i) :=
  if_pos hi

/-- A store inside the page of `t` is not seen on the page of `u`. -/
theorem page_store_ne (h : u ≠ t) {video : Mem}
    (hout : ∀ a, a < c.screenBase t ∨ c.screenBase t + PAGE_4KB ≤ a → video a = c.video a) :
    { c with video := video }.page u = c.page u := by
  funext i
  unfold page
  by_cases hi : i < PAGE_4KB
  · rw [if_pos hi, if_pos hi]
    have hdis := c.screenBase_disjoint h
    exact hout (c.screenBase u + i) (by omega)
  · rw [if_neg hi, if_neg hi]

theorem screen_congr {c' : Console} (hpage : c'.page u = c.page u) (hterm : c'.term u = c.term u) :
    c'.screen u = c.screen u := by
  unfold screen
  rw [hpage, hterm]

/-- Changing the variables of a terminal leaves all pages as they are. -/
@[simp] theorem page_modify (f : TermState → TermState) : (c.modify t f).page u = c.page u := rfl

/-! ## The pieces of `putc` -/

/-- A cell of the screen is stored on the page of its terminal. -/
theorem page_putCell {i : Nat} (ch : UInt8) (hi : 2 * i + 1 < PAGE_4KB) :
    (c.putCell (c.screenBase t) i ch).page t
      = Function.update (Function.update (c.page t) (2 * i) ch) (2 * i + 1) ATTRIB := by
  funext j
  show (if j < PAGE_4KB then _ else 0) = _
  by_cases hj : j < PAGE_4KB
  · rw [if_pos hj]
    show Function.update (Function.update c.video _ ch) _ ATTRIB (c.screenBase t + j) = _
    simp only [Function.update_apply, page_inside hj]
    congr 1
    · exact propext (by omega)
    · congr 1
      exact propext (by omega)
  · have hzero : c.page t j = 0 := if_neg hj
    rw [if_neg hj, Function.update_of_ne (by omega), Function.update_of_ne (by omega), hzero]

theorem page_putCell_ne (h : u ≠ t) {i : Nat} (ch : UInt8) (hi : 2 * i + 1 < PAGE_4KB) :
    (c.putCell (c.screenBase t) i ch).page u = c.page u := by
  apply page_store_ne h
  intro a ha
  rw [Function.update_of_ne (by omega), Function.update_of_ne (by omega)]

theorem scrollVideo_out (video : Mem) {base a : Nat} (h : a < base ∨ base + 4000 ≤ a) :
    scrollVideo video base a = video a := by
  unfold scrollVideo NUM_ROWS NUM_COLS
  exact if_neg (by omega)

/-- Byte `j` of a scrolled page: characters come from the row below, attributes are reset. -/
theorem scrollVideo_in (video : Mem) (base : Nat) {j : Nat} (h : j < 4000) :
    scrollVideo video base (base + j)
      = if j % 2 = 0 then (if j / 2 < 1920 then video (base + (j + 160)) else 0)
        else if 80 ≤ j / 2 then ATTRIB else video (base + j) := by
  unfold scrollVideo NUM_ROWS NUM_COLS
  rw [if_pos (by omega)]
  dsimp only
  rw [Nat.add_sub_cancel_left]
  rfl

/-- Scrolling the page where it is. -/
theorem page_scroll :
    { c with video := scrollVideo c.video (c.screenBase t) }.page t
      = scrollVideo (c.page t) 0 := by
  funext j
  show (if j < PAGE_4KB then scrollVideo c.video _ (c.screenBase t + j) else 0) = _
  by_cases hj : j < 4000
  · have hj' : j < PAGE_4KB := by unfold PAGE_4KB; omega
    have hpage := scrollVideo_in (c.page t) 0 hj
    simp only [Nat.zero_add] at hpage
    rw [if_pos hj', scrollVideo_in _ _ hj, hpage, page_inside hj']
    by_cases hrow : j / 2 < 1920
    · -- The row below is on the page too.
      have hbelow : j + 160 < PAGE_4KB := by unfold PAGE_4KB; omega
      rw [if_pos hrow, if_pos hrow, page_inside hbelow]
    · rw [if_neg hrow, if_neg hrow]
  · rw [scrollVideo_out (c.page t) (by omega)]
    unfold page
    split
    · exact scrollVideo_out c.video (by omega)
    · rfl

theorem page_scroll_ne (h : u ≠ t) :
    { c with video := scrollVideo c.video (c.screenBase t) }.page u = c.page u := by
  apply page_store_ne h
  intro a ha
  exact scrollVideo_out c.video (by unfold PAGE_4KB at ha; omega)

end

/-! ## `putc` -/

/-- The cell under a cursor on the screen is on the page. -/
theorem OnScreen.cell {s : TermState} (h : OnScreen s) :
    2 * (NUM_COLS * s.screenY + s.screenX) + 1 < PAGE_4KB := by
  unfold OnScreen NUM_ROWS NUM_COLS at h
  unfold NUM_COLS PAGE_4KB
  omega

section

variable {c : Console} (ch : UInt8) {t : Terminal}

theorem screen_putcStore (h : OnScreen (c.term c.outTerm)) :
    (c.putcStore ch).screen c.outTerm
      = if ch = 10 ∨ ch = 13 then (c.screen c.outTerm).newline
        else (c.screen c.outTerm).type ch := by
  unfold putcStore
  dsimp only
  split
  · unfold screen
    rw [modify_term_self]
    rfl
  · unfold screen
    rw [modify_term_self, page_modify, page_putCell ch h.cell]
    rfl

theorem screen_wrapAtEdge : c.wrapAtEdge.screen c.outTerm = (c.screen c.outTerm).wrap := by
  unfold wrapAtEdge Screen.wrap
  split
  · rename_i hedge
    rw [if_pos (show edgeColumn (c.screen c.outTerm).x = true from hedge)]
    unfold wraparound screen
    rw [modify_term_self, page_modify]
    unfold wrapTerm
    extract_lets f₁ f₂
    dsimp only
    split <;> rfl
  · rename_i hedge
    rw [if_neg (show ¬ edgeColumn (c.screen c.outTerm).x = true from hedge)]

theorem screen_scrollDown : c.scrollDown.screen c.outTerm = (c.screen c.outTerm).scroll := by
  unfold scrollDown Screen.scroll
  dsimp only
  split
  · rename_i hrow
    rw [if_pos (show (c.screen c.outTerm).y ≥ NUM_ROWS from hrow)]
    unfold screen
    rw [modify_term_self, page_modify, page_scroll]
  · rename_i hrow
    rw [if_neg (show ¬ (c.screen c.outTerm).y ≥ NUM_ROWS from hrow)]

/-- `putc` does to the screen of its target what the screen alone determines. -/
theorem screen_putc (h : OnScreen (c.term c.outTerm)) :
    (c.putc ch).screen c.outTerm = (c.screen c.outTerm).putc ch := by
  have h₁ : (c.putcStore ch).outTerm = c.outTerm := (drawn_putcStore c ch).outTerm
  have h₂ : (c.putcStore ch).wrapAtEdge.outTerm = c.outTerm :=
    (drawn_wrapAtEdge _).outTerm.trans h₁
  have hscroll := screen_scrollDown (c := (c.putcStore ch).wrapAtEdge)
  have hwrap := screen_wrapAtEdge (c := c.putcStore ch)
  rw [h₂] at hscroll
  rw [h₁] at hwrap
  show ((c.putcStore ch).wrapAtEdge.scrollDown).screen c.outTerm = _
  rw [hscroll, hwrap, screen_putcStore ch h]
  rfl

theorem page_putcStore_ne (h : OnScreen (c.term c.outTerm)) (ht : t ≠ c.outTerm) :
    (c.putcStore ch).page t = c.page t := by
  unfold putcStore
  dsimp only
  split
  · rfl
  · rw [page_modify, page_putCell_ne ht ch h.cell]

theorem page_scrollDown_ne (ht : t ≠ c.outTerm) : c.scrollDown.page t = c.page t := by
  unfold scrollDown
  dsimp only
  split
  · rw [page_modify, page_scroll_ne ht]
  · rfl

theorem page_wrapAtEdge : c.wrapAtEdge.page t = c.page t := by
  unfold wrapAtEdge
  split <;> rfl

/-- `putc` leaves the screens of the other terminals alone. -/
theorem screen_putc_ne (h : OnScreen (c.term c.outTerm)) (ht : t ≠ c.outTerm) :
    (c.putc ch).screen t = c.screen t := by
  have h₁ : (c.putcStore ch).outTerm = c.outTerm := (drawn_putcStore c ch).outTerm
  have h₂ : (c.putcStore ch).wrapAtEdge.outTerm = c.outTerm :=
    (drawn_wrapAtEdge _).outTerm.trans h₁
  have hpage : (c.putc ch).page t = c.page t :=
    calc (c.putc ch).page t
        = (c.putcStore ch).wrapAtEdge.page t := page_scrollDown_ne (by rwa [h₂])
      _ = (c.putcStore ch).page t := page_wrapAtEdge
      _ = c.page t := page_putcStore_ne ch h ht
  exact screen_congr hpage ((drawn_putc c ch).other t ht)

end

/-! ## `switch_terminal` -/

/-- Switching copies the pages so that every terminal keeps its own. -/
theorem page_switchTerminal (c : Console) (n : Int) (t : Terminal) :
    (c.switchTerminal n).page t = c.page t := by
  unfold switchTerminal
  split
  · rename_i hn
    have hsaved : ∀ i < PAGE_4KB,
        overlay c.video (PAGE_4KB * (c.visibleTerminal.val + 1)) PAGE_4KB c.video
          (PAGE_4KB * (t.val + 1) + i) = c.video (c.screenBase t + i) := by
      -- After the first copy the buffer of every terminal holds its page.
      intro i hi
      unfold screenBase
      by_cases hold : c.visibleTerminal = t
      · rw [if_pos hold, hold, overlay_add _ _ hi, Nat.zero_add]
      · have hne : c.visibleTerminal.val ≠ t.val := fun h => hold (Fin.ext h)
        rw [if_neg hold, overlay_out _ _ (by unfold PAGE_4KB at *; omega)]
    funext i
    unfold page
    by_cases hi : i < PAGE_4KB
    · rw [if_pos hi, if_pos hi, ← hsaved i hi]
      dsimp only
      by_cases hnew : (⟨n.toNat, by omega⟩ : Terminal) = t
      · have hval : n.toNat = t.val := congrArg Fin.val hnew
        unfold screenBase
        rw [if_pos hnew, overlay_add _ _ hi, hval]
      · unfold screenBase
        rw [if_neg hnew, overlay_out _ _ (by unfold PAGE_4KB at *; omega)]
    · rw [if_neg hi, if_neg hi]
  · rfl

theorem screen_switchTerminal (c : Console) (n : Int) (t : Terminal) :
    (c.switchTerminal n).screen t = c.screen t :=
  screen_congr (page_switchTerminal c n t) (congrFun (switchTerminal_term c n) t)

/-! ## Refinement -/

theorem AllOnScreen.output {c : Console} (h : AllOnScreen c) (e : Output) :
    AllOnScreen (c.output e) := by
  cases e with
  | putc process toVisible ch =>
      have h₀ : AllOnScreen (c.withTarget process toVisible) := h
      exact h₀.putc ch
  | switchTerminal n => exact h.switchTerminal n

/-- One call is one step of the abstract system. -/
theorem screens_output {c : Console} (h : AllOnScreen c) (e : Output) :
    (c.output e).screens = c.screens.step e := by
  cases e with
  | putc process toVisible ch =>
      have h₀ : AllOnScreen (c.withTarget process toVisible) := h
      have hvis := (drawn_putc (c.withTarget process toVisible) ch).visible
      have hscreen : ((c.withTarget process toVisible).putc ch).screen
          = Function.update c.screen (c.withTarget process toVisible).outTerm
              ((c.screen (c.withTarget process toVisible).outTerm).putc ch) := by
        funext t
        by_cases ht : t = (c.withTarget process toVisible).outTerm
        · rw [ht, Function.update_self]
          exact screen_putc ch (h₀ _)
        · rw [Function.update_of_ne ht]
          exact screen_putc_ne ch (h₀ _) ht
      unfold output screens
      dsimp only
      rw [hvis, hscreen]
      rfl
  | switchTerminal n =>
      have hscreen : (c.switchTerminal n).screen = c.screen :=
        funext fun t => screen_switchTerminal c n t
      unfold output screens
      dsimp only
      rw [hscreen]
      unfold Screens.step switchTerminal
      dsimp only
      split <;> rfl

/-- **The console refines three independent screens.** After any calls, switching changes no
screen, and a `putc` changes the screen of its target only, to what that screen and the
character determine: the same before and after any switch. -/
theorem outputs_refine {c : Console} (h : AllOnScreen c) (es : List Output) :
    let c' := es.foldl output c
    c'.screens = es.foldl Screens.step c.screens ∧
    (∀ n t, (c'.switchTerminal n).screen t = c'.screen t) ∧
    ∀ process toVisible ch,
      let target := outputTarget c'.visibleTerminal process toVisible
      let c'' := c'.output (.putc process toVisible ch)
      (∀ t, t ≠ target → c''.screen t = c'.screen t) ∧
      c''.screen target = (c'.screen target).putc ch ∧
      ∀ n, ((c'.switchTerminal n).output (.putc target false ch)).screen target
        = c''.screen target := by
  obtain ⟨hon, habs⟩ := StepSystem.foldl_simulates (fun _ e hs => AllOnScreen.output hs e)
    (fun _ e hs => screens_output hs e) h es
  dsimp only
  generalize es.foldl output c = c' at hon habs
  refine ⟨habs, screen_switchTerminal c', fun process toVisible ch => ?_⟩
  have hstep := screens_output hon (.putc process toVisible ch)
  have hscreen : ∀ t, (c'.output (.putc process toVisible ch)).screen t
      = Function.update c'.screen (outputTarget c'.visibleTerminal process toVisible)
          ((c'.screen (outputTarget c'.visibleTerminal process toVisible)).putc ch) t :=
    fun t => congrFun (congrArg Screens.screen hstep) t
  generalize outputTarget c'.visibleTerminal process toVisible = target at hscreen
  have htarget : (c'.output (.putc process toVisible ch)).screen target
      = (c'.screen target).putc ch := by rw [hscreen, Function.update_self]
  refine ⟨fun t ht => by rw [hscreen, Function.update_of_ne ht], htarget, fun n => ?_⟩
  have hswitched := screens_output (hon.switchTerminal n) (.putc target false ch)
  have hsame : ((c'.switchTerminal n).output (.putc target false ch)).screen target
      = Function.update (c'.switchTerminal n).screen target
          (((c'.switchTerminal n).screen target).putc ch) target :=
    congrFun (congrArg Screens.screen hswitched) target
  rw [hsame, Function.update_self, screen_switchTerminal, htarget]

/-- Terminal 1 prints in the background, is shown, prints a line feed, and is hidden again. -/
theorem outputs_refine_background :
    let c : Console :=
      { visibleTerminal := 0, processTerminal := 0, term := fun _ => TermState.boot
        video := fun _ => 0, notInPrevCmdFlag := true, putcToVisibleFlag := false
        tooManyShellsFlag := false, behindScancodes := fun _ => 0, behindKeyboard := 0 }
    let es : List Output :=
      [.putc 1 false 0x61, .switchTerminal 1, .putc 2 true 10, .switchTerminal 0,
        .switchTerminal 7]
    AllOnScreen c ∧ (es.foldl output c).screens = es.foldl Screens.step c.screens :=
  ⟨fun _ => onScreen_boot, (outputs_refine (fun _ => onScreen_boot) _).1⟩

end Console

end Ext2Kernel
