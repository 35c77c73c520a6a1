import Ext2Kernel.Basic.TextScreen
import Ext2Kernel.Console.Screens

set_option autoImplicit false

/-! # `putc` as a text terminal

The reference terminal (`TextTerminal`) writes characters from left to right, goes to the next
row at a newline, and absorbs a newline directly behind a full row. `putc` finds its way to the
next row through `forward_next`: it absorbs every newline in column 0, so that it drops the empty
rows of the text. `same_iff` says when that shows.
-/

namespace Ext2Kernel

open ByteMem

/-! ## The reference -/

/-- A text screen, and whether its cursor has just wrapped. -/
structure TextTerminal where
  screen : TextScreen.Screen UInt8
  wrapped : Bool

namespace TextTerminal

def cleared : TextTerminal := ⟨⟨fun _ _ => 0, 0, 0⟩, false⟩

def put (t : TextTerminal) (ch : UInt8) : TextTerminal :=
  if ch = 10 then
    if t.wrapped then { t with wrapped := false } else ⟨t.screen.nextRow NUM_ROWS 0, false⟩
  else ⟨t.screen.type NUM_ROWS NUM_COLS 0 ch, decide (t.screen.x + 1 = NUM_COLS)⟩

/-- The reference terminal after a text. -/
def write (l : List UInt8) : TextTerminal := l.foldl put cleared

end TextTerminal

/-- The rows of a text as the reference terminal breaks it. -/
structure Layout where
  lines : TextScreen.Lines UInt8
  wrapped : Bool

namespace Layout

def empty : Layout := ⟨⟨[], []⟩, false⟩

def put (p : Layout) (ch : UInt8) : Layout :=
  if ch = 10 then
    if p.wrapped then { p with wrapped := false } else ⟨p.lines.nextRow, false⟩
  else ⟨p.lines.type NUM_COLS ch, decide (p.lines.cur.length + 1 = NUM_COLS)⟩

def of (l : List UInt8) : Layout := l.foldl put empty

end Layout

/-! ## One character of `putc` -/

namespace Screen

/-- The character cells and the cursor. -/
def text (s : Screen) : TextScreen.Screen UInt8 where
  cell := fun y x => s.page (2 * (NUM_COLS * y + x))
  x := s.x
  y := s.y

/-- The cursor is on the screen, and the wraparound flag says whether it is in the last
column. -/
structure Wraps (s : Screen) : Prop where
  x : s.x < NUM_COLS
  y : s.y < NUM_ROWS
  edge : s.x = NUM_COLS - 1 → s.forwardNext = NUM_COLS ∨ s.forwardNext = 0
  inner : s.x ≠ NUM_COLS - 1 → s.forwardNext ≠ NUM_COLS ∧ s.forwardNext ≠ 0

/-- Two screens with the same cells and cursor. -/
abbrev SameText : TextScreen.Screen UInt8 → TextScreen.Screen UInt8 → Prop :=
  TextScreen.Screen.Same NUM_ROWS NUM_COLS

section

variable {s : Screen}

/-- Scrolling from behind the last row is going to the next row. -/
theorem text_scroll (hx : s.x = 0) {y : Nat} (hy : s.y = y + 1) (hlt : y < NUM_ROWS) :
    SameText ({ s.text with y := y }.nextRow NUM_ROWS 0) s.scroll.text ∧ s.scroll.x = 0 ∧
      s.scroll.y < NUM_ROWS ∧ s.scroll.forwardNext = s.forwardNext := by
  unfold scroll TextScreen.Screen.nextRow
  dsimp only
  rw [hy]
  by_cases hroom : y + 1 < NUM_ROWS
  · rw [if_neg (Nat.not_le.mpr hroom), if_pos hroom]
    refine ⟨⟨hx, hy, fun _ _ _ _ => rfl⟩, hx, by omega, rfl⟩
  · rw [if_pos (Nat.not_lt.mp hroom), if_neg hroom]
    have hlast : NUM_ROWS - 1 = y := by omega
    refine ⟨⟨rfl, hlast, fun r hr c hc => ?_⟩, rfl, ?_, rfl⟩
    · unfold text
      dsimp only
      unfold NUM_ROWS NUM_COLS at *
      have hin := Console.scrollVideo_in s.page 0 (j := 2 * (80 * r + c)) (by omega)
      rw [Nat.zero_add] at hin
      rw [hin, if_pos (by omega)]
      by_cases hrow : r + 1 < 25
      · rw [if_pos hrow, if_pos (by omega)]
        congr 1
        omega
      · rw [if_neg hrow, if_neg (by omega)]
    · exact show NUM_ROWS - 1 < NUM_ROWS by decide

/-- A character and its attribute on a page are seen in one cell. -/
theorem cell_store (page : Mem) {y x : Nat} (hx : x < NUM_COLS) (ch : UInt8) : ∀ r, ∀ c < NUM_COLS,
    Function.update (Function.update page (2 * (NUM_COLS * y + x)) ch)
        (2 * (NUM_COLS * y + x) + 1) ATTRIB (2 * (NUM_COLS * r + c))
      = if r = y ∧ c = x then ch else page (2 * (NUM_COLS * r + c)) := by
  intro r c hc
  unfold NUM_COLS at *
  rw [Function.update_of_ne (by omega)]
  by_cases hcell : r = y ∧ c = x
  · rw [if_pos hcell, hcell.1, hcell.2, Function.update_self]
  · rw [if_neg hcell, Function.update_of_ne (by omega)]

/-- The cells behind a store of a character. -/
theorem text_type (hx : s.x < NUM_COLS) (ch : UInt8) : ∀ r < NUM_ROWS, ∀ c < NUM_COLS,
    (s.type ch).text.cell r c = if r = s.y ∧ c = s.x then ch else s.text.cell r c := by
  intro r _ c hc
  exact cell_store s.page hx ch r c hc

/-- The store moves on in the row, and to column 0 of the same row at its end. -/
theorem type_cursor (h : s.Wraps) (ch : UInt8) : (s.type ch).y = s.y ∧
    (s.type ch).x = if s.x + 1 < NUM_COLS then s.x + 1 else 0 := by
  have hx := h.x
  have hy := h.y
  have hcol : (s.x + 1) % NUM_COLS = if s.x + 1 < NUM_COLS then s.x + 1 else 0 := by
    split
    · rename_i hlt
      exact Nat.mod_eq_of_lt hlt
    · have heq : s.x + 1 = NUM_COLS := by omega
      rw [heq, Nat.mod_self]
  have hdiv : (s.x + 1) % NUM_COLS / NUM_COLS = 0 :=
    Nat.div_eq_of_lt (Nat.mod_lt _ (by decide))
  refine ⟨?_, hcol⟩
  show (s.y + (s.x + 1) % NUM_COLS / NUM_COLS) % NUM_ROWS = s.y
  rw [hdiv, Nat.add_zero, Nat.mod_eq_of_lt hy]

theorem scroll_of_lt (hy : s.y < NUM_ROWS) : s.scroll = s := if_neg (Nat.not_le.mpr hy)

/-- Inside a row the flag stays. -/
theorem wrap_inner (hedge : s.x ≠ NUM_COLS - 1)
    (hf : s.forwardNext ≠ NUM_COLS ∧ s.forwardNext ≠ 0) : s.wrap = s := by
  unfold wrap
  by_cases hcol : Console.edgeColumn s.x = true
  · rw [if_pos hcol]
    dsimp only
    rw [if_neg hf.1, if_neg hedge, if_neg fun hk => hf.2 hk.2]
  · rw [if_neg hcol]

/-- In the last column the flag is set. -/
theorem wrap_edge (hx : s.x = NUM_COLS - 1) : s.wrap = { s with forwardNext := NUM_COLS } := by
  have hedge : Console.edgeColumn s.x = true := by
    rw [hx]
    decide
  have hne : s.x ≠ 0 := by
    rw [hx]
    decide
  unfold wrap
  rw [if_pos hedge]
  dsimp only
  rw [if_pos hx, if_neg fun hk => hne hk.1]

/-- In column 0 the flag of a full row moves the cursor to the next row. -/
theorem wrap_start (hx : s.x = 0) (hf : s.forwardNext = NUM_COLS ∨ s.forwardNext = 0) :
    s.wrap = { s with y := s.y + 1, backwardNext := NUM_COLS, forwardNext := 1 } := by
  have hedge : Console.edgeColumn s.x = true := by
    rw [hx]
    decide
  have hne : s.x ≠ NUM_COLS - 1 := by
    rw [hx]
    decide
  have hzero : (if s.forwardNext = NUM_COLS then 0 else s.forwardNext) = 0 := by
    split
    · rfl
    · rename_i hnot
      exact hf.resolve_left hnot
  unfold wrap
  rw [if_pos hedge]
  dsimp only
  rw [hzero, if_neg hne, if_pos ⟨hx, rfl⟩]

/-- Going to the next row, on the screen of the source: the cursor is in column 0 of the row
below, which may be behind the screen. -/
theorem next_row (s' : Screen) {t : TextScreen.Screen UInt8} (hx : s'.x = 0) (hy : s'.y = t.y + 1)
    (hlt : t.y < NUM_ROWS) (hf : s'.forwardNext ≠ NUM_COLS ∧ s'.forwardNext ≠ 0)
    (hcell : ∀ r < NUM_ROWS, ∀ c < NUM_COLS, s'.text.cell r c = t.cell r c) :
    SameText (t.nextRow NUM_ROWS 0) s'.scroll.text ∧ s'.scroll.Wraps := by
  obtain ⟨hsame, hx', hy', hf'⟩ := text_scroll hx hy hlt
  refine ⟨TextScreen.Screen.Same.trans ?_ hsame, ?_, hy', fun hedge => ?_, fun _ => hf' ▸ hf⟩
  · let after : TextScreen.Screen UInt8 := ⟨s'.text.cell, s'.text.x, t.y⟩
    have hy : after.y = t.y := rfl
    exact TextScreen.Screen.Same.nextRow hy hcell 0
  · rw [hx']
    decide
  · rw [hx'] at hedge
    exact absurd hedge (by decide)

/-- **A printed character.** -/
theorem putc_char (h : s.Wraps) {ch : UInt8} (hch : ch ≠ 10 ∧ ch ≠ 13) :
    SameText (s.text.type NUM_ROWS NUM_COLS 0 ch) (s.putc ch).text ∧ (s.putc ch).Wraps := by
  have hx := h.x
  have hy := h.y
  have hcells := text_type hx ch
  obtain ⟨hty, htx⟩ := type_cursor h ch
  have hflag : (s.type ch).forwardNext = s.forwardNext := rfl
  have hputc : s.putc ch = (s.type ch).wrap.scroll := by
    unfold putc
    rw [if_neg fun hk => hk.elim hch.1 hch.2]
  rw [hputc]
  generalize s.type ch = s₁ at *
  unfold TextScreen.Screen.type
  dsimp only
  by_cases hroom : s.x + 1 < NUM_COLS
  · rw [if_pos (show s.text.x + 1 < NUM_COLS from hroom)]
    rw [if_pos hroom] at htx
    have hinner := h.inner (by omega)
    by_cases hedge : s₁.x = NUM_COLS - 1
    · rw [wrap_edge hedge, scroll_of_lt (s := { s₁ with forwardNext := NUM_COLS }) (hty ▸ hy)]
      exact ⟨⟨htx, hty, hcells⟩, ⟨htx ▸ hroom, hty ▸ hy, fun _ => Or.inl rfl,
        fun hne => absurd hedge hne⟩⟩
    · rw [wrap_inner hedge (hflag ▸ hinner), scroll_of_lt (hty ▸ hy)]
      exact ⟨⟨htx, hty, hcells⟩, ⟨htx ▸ hroom, hty ▸ hy, fun hk => absurd hk hedge,
        fun _ => hflag ▸ hinner⟩⟩
  · rw [if_neg (show ¬ s.text.x + 1 < NUM_COLS from hroom)]
    rw [if_neg hroom] at htx
    rw [wrap_start htx (hflag ▸ h.edge (by omega))]
    exact next_row { s₁ with y := s₁.y + 1, backwardNext := NUM_COLS, forwardNext := 1 }
      htx (congrArg (· + 1) hty) hy (show (1 : Int) ≠ NUM_COLS ∧ (1 : Int) ≠ 0 by decide) hcells

/-- A newline in column 0 is lost. -/
theorem putc_newline_start (h : s.Wraps) (hx : s.x = 0) : s.putc 10 = s := by
  have hedge : s.x ≠ NUM_COLS - 1 := by
    rw [hx]
    decide
  have hline : s.newline = s := by
    unfold newline
    rw [if_pos (by rw [hx]; decide), ← hx]
  unfold putc
  rw [if_pos (Or.inl rfl), hline, wrap_inner hedge (h.inner hedge), scroll_of_lt h.y]

/-- **A newline behind column 0** goes to the next row. -/
theorem putc_newline (h : s.Wraps) (hx : s.x ≠ 0) :
    SameText (s.text.nextRow NUM_ROWS 0) (s.putc 10).text ∧ (s.putc 10).Wraps := by
  have hputc : s.putc 10 = s.newline.wrap.scroll := by
    unfold putc
    rw [if_pos (Or.inl rfl)]
  have hlt := h.x
  rw [hputc]
  by_cases hedge : s.x = NUM_COLS - 1
  · have hline : s.newline = { s with x := 0 } := by
      unfold newline
      rw [if_pos (by rw [hedge]; decide)]
    rw [hline, wrap_start (s := { s with x := 0 }) rfl (h.edge hedge)]
    exact next_row _ rfl rfl h.y (show (1 : Int) ≠ NUM_COLS ∧ (1 : Int) ≠ 0 by decide)
      fun _ _ _ _ => rfl
  · have hinside : ¬ Console.edgeColumn s.x = true := by
      unfold Console.edgeColumn
      simp only [Bool.or_eq_true, decide_eq_true_eq]
      omega
    have hline : s.newline = { s with y := s.y + 1, x := 0 } := by
      unfold newline
      rw [if_neg hinside]
    have hflag := h.inner hedge
    rw [hline, wrap_inner (s := { s with y := s.y + 1, x := 0 })
      (show 0 ≠ NUM_COLS - 1 by decide) hflag]
    exact next_row _ rfl rfl h.y hflag fun _ _ _ _ => rfl

end

end Screen

/-! ## A text -/

namespace Layout

/-- What holds of the rows of a text without NUL. -/
structure Inv (p : Layout) : Prop where
  wrapped : p.wrapped = true → p.lines.cur = []
  room : p.lines.cur.length < NUM_COLS
  chars : ∀ ch ∈ p.lines.cur, ch ≠ 0
  above : ∀ row ∈ p.lines.above, ∀ ch ∈ row, ch ≠ 0

theorem inv_empty : empty.Inv :=
  ⟨fun _ => rfl, by decide, fun _ h => absurd h List.not_mem_nil,
    fun _ h => absurd h List.not_mem_nil⟩

theorem Inv.nextRow {p : Layout} (h : p.Inv) : (⟨p.lines.nextRow, false⟩ : Layout).Inv := by
  refine ⟨fun hw => absurd hw Bool.false_ne_true, Nat.succ_pos 79,
    fun _ hch => absurd hch List.not_mem_nil, fun row hrow => ?_⟩
  · rcases List.mem_cons.mp hrow with rfl | hrow
    · exact h.chars
    · exact h.above row hrow

theorem Inv.put {p : Layout} (h : p.Inv) {ch : UInt8} (hch : ch ≠ 0) : (p.put ch).Inv := by
  have happend : ∀ a ∈ p.lines.cur ++ [ch], a ≠ 0 := by
    intro a ha
    rcases List.mem_append.mp ha with ha | ha
    · exact h.chars a ha
    · rw [List.mem_singleton.mp ha]
      exact hch
  unfold Layout.put
  split
  · split
    · rename_i hw
      refine ⟨fun _ => h.wrapped hw, h.room, h.chars, h.above⟩
    · exact h.nextRow
  · unfold TextScreen.Lines.type
    split
    · rename_i hroom
      refine ⟨fun hw => ?_, ?_, happend, h.above⟩
      · exact absurd (of_decide_eq_true hw) (Nat.ne_of_lt hroom)
      · rw [List.length_append, List.length_singleton]
        exact hroom
    · refine ⟨fun _ => rfl, Nat.succ_pos 79, fun _ hmem => absurd hmem List.not_mem_nil,
        fun row hrow => ?_⟩
      rcases List.mem_cons.mp hrow with rfl | hrow
      · exact happend
      · exact h.above row hrow

end Layout

/-- The screen of the source and the reference terminal after the same text: the reference shows
the rows of the text, the source those that are not empty. -/
structure Written (p : Layout) (t : TextTerminal) (s : Screen) : Prop where
  inv : p.Inv
  reference : p.lines.Shows NUM_ROWS NUM_COLS 0 t.screen
  wrapped : t.wrapped = p.wrapped
  source : p.lines.dropEmpty.Shows NUM_ROWS NUM_COLS 0 s.text
  flags : s.Wraps

theorem Written.put {p : Layout} {t : TextTerminal} {s : Screen} (h : Written p t s) {ch : UInt8}
    (hch : ch ≠ 0 ∧ ch ≠ 13) : Written (p.put ch) (t.put ch) (s.putc ch) := by
  have hinv := h.inv.put hch.1
  have hrows : 0 < NUM_ROWS := by decide
  have hx : s.x = p.lines.cur.length := h.source.x
  by_cases hline : ch = 10
  · subst hline
    unfold Layout.put TextTerminal.put at *
    rw [if_pos rfl] at hinv ⊢
    rw [if_pos rfl, h.wrapped]
    by_cases hw : p.wrapped = true
    · -- behind a full row both absorb the newline
      rw [if_pos hw] at hinv ⊢
      rw [if_pos hw, Screen.putc_newline_start h.flags (by rw [hx, h.inv.wrapped hw]; rfl)]
      exact ⟨hinv, h.reference, rfl, h.source, h.flags⟩
    · rw [if_neg hw] at hinv ⊢
      rw [if_neg hw]
      have href := h.reference.nextRow hrows
      by_cases hempty : p.lines.cur = []
      · -- the source loses the empty row
        rw [Screen.putc_newline_start h.flags (by rw [hx, hempty]; rfl)]
        refine ⟨hinv, href, rfl, ?_, h.flags⟩
        rw [TextScreen.Lines.dropEmpty_nextRow_nil hempty]
        exact h.source
      · have hcol : s.x ≠ 0 := by
          rw [hx]
          exact fun hlen => hempty (List.eq_nil_of_length_eq_zero hlen)
        obtain ⟨hsame, hflags⟩ := Screen.putc_newline h.flags hcol
        refine ⟨hinv, href, rfl, ?_, hflags⟩
        rw [TextScreen.Lines.dropEmpty_nextRow hempty]
        exact (h.source.nextRow hrows).same hsame
  · unfold Layout.put TextTerminal.put at *
    rw [if_neg hline] at hinv ⊢
    rw [if_neg hline]
    obtain ⟨hsame, hflags⟩ := Screen.putc_char h.flags ⟨hline, hch.2⟩
    refine ⟨hinv, h.reference.type hrows ch, ?_, ?_, hflags⟩
    · dsimp only
      rw [h.reference.x]
    · rw [TextScreen.Lines.dropEmpty_type]
      exact (h.source.type hrows ch).same hsame

/-- Both terminals after a text. -/
theorem Written.run {p : Layout} {t : TextTerminal} {s : Screen} (h : Written p t s)
    {l : List UInt8} (hl : ∀ ch ∈ l, ch ≠ 0 ∧ ch ≠ 13) :
    Written (l.foldl Layout.put p) (l.foldl TextTerminal.put t) (l.foldl Screen.putc s) := by
  induction l generalizing p t s with
  | nil => exact h
  | cons ch l ih =>
      exact ih (h.put (hl ch List.mem_cons_self)) fun a ha => hl a (List.mem_cons_of_mem _ ha)

/-- A cleared screen with the cursor in its upper left corner, and the flags as at boot. -/
structure Screen.Cleared (s : Screen) : Prop where
  x : s.x = 0
  y : s.y = 0
  forward : s.forwardNext = 1
  backward : s.backwardNext = NUM_COLS
  cell : ∀ r < NUM_ROWS, ∀ c < NUM_COLS, s.text.cell r c = 0

theorem Written.start {s : Screen} (h : s.Cleared) :
    Written Layout.empty TextTerminal.cleared s := by
  have hblank : ∀ (y c : Nat), (if y ≤ 0 then
      TextScreen.Lines.cell (0 : UInt8) ⟨[], []⟩ (0 - y) c else 0) = 0 := by
    intro y c
    split
    · rw [Nat.zero_sub]
      rfl
    · rfl
  refine ⟨Layout.inv_empty, ⟨rfl, rfl, fun y _ c _ => (hblank y c).symm⟩, rfl,
    ⟨h.x, h.y, fun y hy c hc => ?_⟩, ?_⟩
  · have hrow : s.text.y = 0 := h.y
    rw [h.cell y hy c hc, hrow]
    exact (hblank y c).symm
  · refine ⟨?_, ?_, fun hedge => ?_, fun _ => ?_⟩
    · rw [h.x]
      decide
    · rw [h.y]
      decide
    · rw [h.x] at hedge
      exact absurd hedge (by decide)
    · rw [h.forward]
      decide

namespace Console

/-- What printing a text does to the screen is determined by the screen alone. -/
theorem screen_putcs {c : Console} (h : OnScreen (c.term c.outTerm)) (l : List UInt8) :
    (c.putcs l).screen c.outTerm = l.foldl Screen.putc (c.screen c.outTerm) := by
  induction l generalizing c with
  | nil => rfl
  | cons ch l ih =>
      have hout : (c.putc ch).outTerm = c.outTerm := (drawn_putc c ch).outTerm
      have hrec := ih (c := c.putc ch) (by
        rw [hout]
        exact onScreen_putc c ch)
      rw [hout, screen_putc ch h] at hrec
      exact hrec

/-- **`putc` is the reference terminal, up to empty rows.** After a text on a cleared screen the
two show the same exactly if, of the 24 rows above the last one, the text left none empty. -/
theorem putcs_same_iff {c : Console} (hclear : (c.screen c.outTerm).Cleared) {l : List UInt8}
    (hl : ∀ ch ∈ l, ch ≠ 0 ∧ ch ≠ 13) :
    TextScreen.Screen.Same NUM_ROWS NUM_COLS (TextTerminal.write l).screen
        ((c.putcs l).screen c.outTerm).text
      ↔ [] ∉ (Layout.of l).lines.above.take (NUM_ROWS - 1) := by
  have hon : OnScreen (c.term c.outTerm) := by
    have hx : (c.term c.outTerm).screenX = 0 := hclear.x
    have hy : (c.term c.outTerm).screenY = 0 := hclear.y
    unfold OnScreen
    rw [hx, hy]
    decide
  have hwritten := (Written.start hclear).run hl
  rw [screen_putcs hon]
  constructor
  · intro hsame
    refine hwritten.reference.not_empty_of_same (by decide) (fun row hrow a ha => ?_)
      hwritten.source hsame
    exact hwritten.inv.above row hrow a (List.mem_of_getElem? ha)
  · intro hne
    exact hwritten.reference.same_of_dropEmpty hwritten.source hne

/-- A console that has been started, with terminal 0 shown. -/
def startConsole : Console where
  visibleTerminal := 0
  processTerminal := 0
  term := fun _ => TermState.boot
  video := fun _ => 0
  notInPrevCmdFlag := true
  putcToVisibleFlag := false
  tooManyShellsFlag := false
  behindScancodes := fun _ => 0
  behindKeyboard := 0

theorem startConsole_cleared : (startConsole.screen startConsole.outTerm).Cleared :=
  ⟨rfl, rfl, rfl, rfl, fun _ _ _ _ => by
    unfold Screen.text screen page
    dsimp only
    split <;> rfl⟩

/-- `a`, a newline and `b` are shown as the reference terminal shows them. -/
theorem putcs_same_iff_ab : TextScreen.Screen.Same NUM_ROWS NUM_COLS
    (TextTerminal.write [97, 10, 98]).screen
    ((startConsole.putcs [97, 10, 98]).screen startConsole.outTerm).text :=
  (putcs_same_iff startConsole_cleared (by simp)).mpr (by decide)

/-- A newline on a cleared screen is lost. -/
theorem first_newline_lost : ¬ ∀ (c : Console) (l : List UInt8),
    (c.screen c.outTerm).Cleared → (∀ ch ∈ l, ch ≠ 0 ∧ ch ≠ 13) →
    TextScreen.Screen.Same NUM_ROWS NUM_COLS (TextTerminal.write l).screen
      ((c.putcs l).screen c.outTerm).text := by
  intro hall
  have hy := (hall startConsole [10] startConsole_cleared (by simp)).y
  exact absurd hy (by decide)

end Console

end Ext2Kernel
