import Ext2Kernel.Console.LineText
import Ext2Kernel.Process.KeyboardBounds
import Ext2Kernel.Process.VideoMapping

set_option autoImplicit false

/-! # Typed lines reach their readers

A `Session` is a run of the kernel seen from the terminal that is shown: beside the kernel it
keeps what was typed there (`Typed`, the reference), the read that is pending and what the
reads have returned. `reads_deliver_lines` says when the reads return the typed lines, one by
one. Three things have to be kept: Enter comes only while a read waits, no character comes
between the Enter that wakes a reader and its return, and a read starts only when it puts back
what is in the line.
-/

namespace Ext2Kernel

open ByteMem

/-! ## What was typed -/

/-- The completed lines and the line being typed. -/
structure Typed where
  lines : List (List UInt8)
  cur : List UInt8

namespace Typed

/-- A line has at most 127 characters. -/
def char (t : Typed) (ch : UInt8) : Typed :=
  if t.cur.length < 127 then { t with cur := t.cur ++ [ch] } else t

def back (t : Typed) : Typed := { t with cur := t.cur.dropLast }

def enter (t : Typed) : Typed := ⟨t.lines ++ [t.cur], []⟩

/-- A key of the keyboard, with the modifiers as they are on the console. -/
def key (t : Typed) (c : Console) (pressed : Nat) : Typed :=
  if pressed = BACKSPACE then t.back
  else if pressed = ENTER_PRESSED then t.enter
  else if pressed ∈ Console.modifierCodes ∨ START_IGNORE < pressed then t
  else t.char (c.outputChar pressed)

theorem char_cur (t : Typed) (ch : UInt8) :
    (t.char ch).cur = if t.cur.length < 127 then t.cur ++ [ch] else t.cur := by
  unfold char
  split <;> rfl

theorem char_lines (t : Typed) (ch : UInt8) : (t.char ch).lines = t.lines := by
  unfold char
  split <;> rfl

end Typed

/-- What a read returns for a line. -/
def delivered (l : List UInt8) : Transfer := ⟨l.length + 1, l ++ [10]⟩

/-- Neither a NUL nor a newline. -/
def Printable (l : List UInt8) : Prop := ∀ ch ∈ l, ch ≠ 0 ∧ ch ≠ 10

namespace Console

/-- The key produces a printable character. -/
def PrintableKey (c : Console) (pressed : Nat) : Prop :=
  c.HasChar pressed ∧ pressed ≠ ENTER_PRESSED ∧ pressed ≠ FUNCTION_ONE_PRESSED ∧
    c.outputChar pressed ≠ 0 ∧ c.outputChar pressed ≠ 10

instance (c : Console) (pressed : Nat) : Decidable (c.HasChar pressed) :=
  inferInstanceAs (Decidable (_ ∧ _ ∧ _ ∧ ¬ (_ ∧ _)))

instance (c : Console) (pressed : Nat) : Decidable (c.PrintableKey pressed) :=
  inferInstanceAs (Decidable (_ ∧ _ ∧ _ ∧ _ ∧ _))

/-- The keys that type a line: printable characters, backspace and Enter, with the modifiers and
what the handler ignores. -/
def TypedKey (c : Console) (pressed : Nat) : Prop :=
  pressed ∈ modifierCodes ∨ c.IgnoredKey pressed ∨ pressed = BACKSPACE ∨
    pressed = ENTER_PRESSED ∨ c.PrintableKey pressed

instance (c : Console) (pressed : Nat) : Decidable (c.TypedKey pressed) :=
  inferInstanceAs (Decidable (_ ∈ _ ∨ _ ∨ _ ∨ _ ∨ _))

/-- The characters of the line up to the cursor. -/
def held (s : TermState) : List UInt8 :=
  (List.range s.keyboardCursorIdx.toNat).map s.keyboardBuffer

/-- The saved characters. -/
def saved (s : TermState) : List UInt8 := (List.range s.tempKbdIdx.toNat).map s.tempKbdBuf

/-- A read that starts puts back what is in the line: the saved characters, perhaps with a
newline behind them, or nothing when the line is empty. -/
def KeepsLine (s : TermState) : Prop :=
  if replays s then saved s = held s ∨ saved s = held s ++ [10] else held s = []

instance (s : TermState) : Decidable (KeepsLine s) :=
  inferInstanceAs (Decidable (if replays s = true then _ ∨ _ else _ = _))

/-- The line editor holds the line `l`, with the cursor behind it. -/
structure Holds (s : TermState) (l : List UInt8) : Prop where
  cursor : s.keyboardCursorIdx = l.length
  stop : s.keyboardBufferEndIdx = l.length
  distance : s.distanceFromRight = 0
  text : (List.range l.length).map s.keyboardBuffer = l

theorem Holds.held {s : TermState} {l : List UInt8} (h : Holds s l) : held s = l := by
  unfold Console.held
  rw [h.cursor, Int.toNat_natCast]
  exact h.text

/-- Only the indices and the text matter. -/
theorem Holds.congr {s s' : TermState} {l : List UInt8} (h : Holds s l)
    (hidx : s'.lineIdx = s.lineIdx) (htext : s'.lineText = s.lineText) : Holds s' l where
  cursor := (congrArg LineIdx.cursor hidx).trans h.cursor
  stop := (congrArg LineIdx.stop hidx).trans h.stop
  distance := (congrArg LineIdx.distance hidx).trans h.distance
  text := by
    have hrow : s'.keyboardBuffer = s.keyboardBuffer := congrArg LineText.row htext
    rw [hrow]
    exact h.text

/-- The line after a step, from its indices and its row. -/
theorem holds_of {s : TermState} {i : LineIdx} {t : LineText} {l : List UInt8}
    (hidx : s.lineIdx = i) (htext : s.lineText = t) (hcursor : i.cursor = l.length)
    (hstop : i.stop = l.length) (hdist : i.distance = 0)
    (hrow : (List.range l.length).map t.row = l) : Holds s l := by
  subst hidx htext
  exact ⟨hcursor, hstop, hdist, hrow⟩

end Console

namespace LineIdx

/-! ## The line among the indices -/

theorem eraseAhead_line (l : LineIdx) (typing : Bool) :
    (l.eraseAhead typing).cursor = l.cursor ∧ (l.eraseAhead typing).stop = l.stop ∧
      (l.eraseAhead typing).distance = l.distance := by
  unfold eraseAhead
  split <;> exact ⟨rfl, rfl, rfl⟩

theorem ahead_line (l : LineIdx) (copies stores : Bool) :
    ((l.keepCurrent copies).ahead stores).cursor = l.cursor ∧
      ((l.keepCurrent copies).ahead stores).stop = l.stop ∧
      ((l.keepCurrent copies).ahead stores).distance = l.distance := by
  unfold keepCurrent ahead
  split_ifs <;> exact ⟨rfl, rfl, rfl⟩

end LineIdx

section Rows

variable (f : Mem) {n m : Nat} (b : UInt8)

/-- A store behind the first `n` bytes. -/
theorem map_range_update (h : n ≤ m) :
    (List.range n).map (Function.update f m b) = (List.range n).map f := by
  refine List.map_congr_left fun i hi => Function.update_of_ne ?_ ..
  have hlt := List.mem_range.mp hi
  omega

/-- A store right behind them. -/
theorem map_range_update_self :
    (List.range (n + 1)).map (Function.update f n b) = (List.range n).map f ++ [b] := by
  rw [List.range_succ, List.map_append, map_range_update f b (le_refl n)]
  simp

/-- A scan that stops behind the line `l` has passed over `l`. -/
theorem takeWhile_map_range {f : Mem} {n : Nat} {p : UInt8 → Bool} {l : List UInt8}
    (hl : (List.range l.length).map f = l) (hp : ∀ ch ∈ l, p ch = true) (hn : l.length ≤ n)
    (hstop : l.length = n ∨ p (f l.length) = false) :
    ((List.range n).map f).takeWhile p = l := by
  have hle : l.length ≤ (((List.range n).map f).takeWhile p).length := by
    refine (le_length_takeWhile f p).mpr ⟨hn, fun i hi => hp _ ?_⟩
    rw [← hl]
    exact List.mem_map_of_mem (List.mem_range.mpr hi)
  have hge : ¬ l.length + 1 ≤ (((List.range n).map f).takeWhile p).length := by
    intro hmore
    obtain ⟨hlen, hpass⟩ := (le_length_takeWhile f p).mp hmore
    rcases hstop with hend | hend
    · omega
    · rw [hpass l.length (Nat.lt_succ_self _)] at hend
      cases hend
  have hpre := List.prefix_iff_eq_take.mp (List.takeWhile_prefix (l := (List.range n).map f) p)
  rw [hpre, show (((List.range n).map f).takeWhile p).length = l.length by omega, ← List.map_take,
    List.take_range, Nat.min_eq_left hn, hl]

end Rows

namespace Console

/-! ## The keys on a held line -/

theorem plain_backspace (c : Console) : c.Plain BACKSPACE := ⟨by decide, fun _ => by decide⟩

/-- The shown terminal is the same, with the same line. -/
structure SameShown (c c' : Console) : Prop where
  visible : c'.visibleTerminal = c.visibleTerminal
  idx : (c'.term c.visibleTerminal).lineIdx = (c.term c.visibleTerminal).lineIdx
  text : (c'.term c.visibleTerminal).lineText = (c.term c.visibleTerminal).lineText

theorem Background.sameShown {c c' : Console} (h : Background c c') : SameShown c c' where
  visible := by
    induction h with
    | refl => rfl
    | print l _ ih => exact (drawn_putcs _ l).visible.trans ih
    | store _ _ ih => exact ih
    | schedule _ _ ih => exact ih
    | shells _ _ ih => exact ih
    | shell _ _ _ ih => exact ih
    | typed _ _ ih => exact ih
  idx := h.lineIdx _
  text := h.keeps (fun _ _ hs => sameLine_lineText hs) (fun _ _ => rfl) (fun _ => rfl) _

/-- A modifier key is handled and leaves every line alone. -/
theorem modifier_key {c : Console} {scancode : UInt8} (h : scancode.toNat ∈ modifierCodes) :
    ∃ c', c.keyboardInterrupt scancode = some c' ∧ SameShown c c' := by
  obtain ⟨c', hc'⟩ := Option.ne_none_iff_exists'.mp
    (modifierKey_ne_none { c with putcToVisibleFlag := true } h)
  obtain ⟨f, hf, hfc⟩ := modifierKey_eq_some hc'
  have heq := hf (c.term c.visibleTerminal)
  unfold SameButModifiers at heq
  refine ⟨c', (keyboardInterrupt_modifier c h).trans hc', by rw [hfc]; rfl, ?_, ?_⟩
  · rw [hfc]
    show (f (c.term c.visibleTerminal)).lineIdx = _
    rw [heq]
    rfl
  · rw [hfc]
    show (f (c.term c.visibleTerminal)).lineText = _
    rw [heq]
    rfl

/-- So is a key that is ignored. -/
theorem ignored_key {c : Console} {scancode : UInt8} (h : c.IgnoredKey scancode.toNat) :
    ∃ c', c.keyboardInterrupt scancode = some c' ∧ SameShown c c' :=
  ⟨_, keyboardInterrupt_ignored h, rfl, rfl, rfl⟩

/-- With indices in bounds, the keys of a line are defined. -/
theorem typed_key_defined {c : Console} {scancode : UInt8}
    (hs : OnScreen (c.term c.visibleTerminal))
    (h : (c.term c.visibleTerminal).lineIdx.InBounds) (hp : c.Plain scancode.toNat)
    (hctrl : ¬ ((c.term c.visibleTerminal).controlOn = true ∧ scancode.toNat = L_SCANCODE)) :
    ∃ c', c.keyboardInterrupt scancode = some c' := by
  obtain ⟨r, hr, hblock⟩ := block_keyboardInterrupt hs hp
  obtain ⟨c₁, rfl, _⟩ := hblock.stays.mpr (keyStays_of_inBounds h hctrl)
  exact ⟨_, hr⟩

section

variable {c c' : Console} {scancode : UInt8} {l : List UInt8}

theorem Holds.backspace (h : Holds (c.term c.visibleTerminal) l) (hlen : l.length ≤ 127)
    (hp : scancode.toNat = BACKSPACE) (hc' : c.keyboardInterrupt scancode = some c') :
    Holds (c'.term c.visibleTerminal) l.dropLast ∧
      (c'.term c.visibleTerminal).sysReadFlag = (c.term c.visibleTerminal).sysReadFlag := by
  have hidx := keyboardInterrupt_lineIdx (hp ▸ c.plain_backspace) hc'
  have htext := backspace_lineText hp hc' h.distance (by
    rw [h.cursor]
    unfold KEYBOARD_BUFFER_SIZE
    omega)
  rw [hp] at hidx
  unfold keyLine at hidx
  rw [if_neg (by decide), if_neg (by decide), if_pos rfl] at hidx
  rcases List.eq_nil_or_concat l with rfl | ⟨init, x, rfl⟩
  · have hzero : ¬ (c.term c.visibleTerminal).keyboardCursorIdx > 0 := by
      rw [h.cursor]
      decide
    have herase : (c.term c.visibleTerminal).lineIdx.erase = (c.term c.visibleTerminal).lineIdx :=
      (if_neg fun hk => hzero hk.1).trans (if_neg hzero)
    rw [if_neg hzero] at htext
    rw [herase] at hidx
    obtain ⟨hc, hs, hd⟩ := LineIdx.eraseAhead_line (c.term c.visibleTerminal).lineIdx
      (c.term c.visibleTerminal).typingDuringProgFlag
    exact ⟨holds_of hidx htext (hc.trans h.cursor) (hs.trans h.stop) (hd.trans h.distance) rfl,
      congrArg LineText.reading htext⟩
  · have hcursor := h.cursor
    have hstop := h.stop
    rw [List.concat_eq_append, List.length_append, List.length_singleton] at hcursor hstop
    have hpos : (c.term c.visibleTerminal).keyboardCursorIdx > 0 := by omega
    have herase : (c.term c.visibleTerminal).lineIdx.erase = _ := if_pos ⟨hpos, h.distance⟩
    rw [if_pos hpos] at htext
    rw [herase] at hidx
    have hinit : (List.range init.length).map (c.term c.visibleTerminal).keyboardBuffer = init := by
      have hall := h.text
      rw [List.concat_eq_append, List.length_append, List.length_singleton, List.range_succ,
        List.map_append] at hall
      exact (List.append_inj hall (by simp)).1
    rw [List.concat_eq_append, List.dropLast_concat]
    refine ⟨holds_of hidx htext ?_ ?_ ?_ ?_, congrArg LineText.reading htext⟩
    · rw [(LineIdx.eraseAhead_line _ _).1]
      show (c.term c.visibleTerminal).keyboardCursorIdx - 1 = _
      omega
    · rw [(LineIdx.eraseAhead_line _ _).2.1]
      show (c.term c.visibleTerminal).keyboardBufferEndIdx - 1 = _
      omega
    · rw [(LineIdx.eraseAhead_line _ _).2.2]
      exact h.distance
    · show (List.range init.length).map (Function.update (c.term c.visibleTerminal).keyboardBuffer
        (c.term c.visibleTerminal).keyboardCursorIdx.toNat 0) = init
      rw [map_range_update _ _ (by omega)]
      exact hinit

/-- What a key with a character does to the indices. -/
theorem keyLine_hasChar (hk : c.HasChar scancode.toNat) :
    c.keyLine scancode.toNat =
      let s := c.term c.visibleTerminal
      if scancode.toNat = ENTER_PRESSED then
        ((s.lineIdx.enter s.shellFlag).keepCurrent true).ahead (!s.shellFlag)
      else (s.lineIdx.insert.keepCurrent c.notInPrevCmdFlag).ahead
        (!s.shellFlag && !s.sysReadFlag) := by
  obtain ⟨_, hle, hback, hctrl⟩ := hk
  have hne : ∀ code, START_IGNORE < code → scancode.toNat ≠ code := by
    intro code hlt heq
    omega
  unfold keyLine
  dsimp only
  rw [if_neg (hne _ (by decide)), if_neg (hne _ (by decide)), if_neg hback,
    if_neg fun hk => absurd hk.1 (hne _ (by decide))]
  refine (if_neg fun hk => absurd hk.1 (hne _ (by decide))).trans ?_
  rw [if_neg hctrl, if_neg (Nat.not_lt.mpr hle)]

theorem Holds.char (h : Holds (c.term c.visibleTerminal) l) (hlen : l.length ≤ 127)
    (hk : c.PrintableKey scancode.toNat) (hc' : c.keyboardInterrupt scancode = some c') :
    Holds (c'.term c.visibleTerminal)
        (if l.length < 127 then l ++ [c.outputChar scancode.toNat] else l) ∧
      (c'.term c.visibleTerminal).sysReadFlag = (c.term c.visibleTerminal).sysReadFlag := by
  have hidx := keyboardInterrupt_lineIdx hk.1.1 hc'
  have hcursor := h.cursor
  have hstop := h.stop
  have htext := char_lineText hk.1 hk.2.1 hc' (by omega)
  rw [keyLine_hasChar hk.1] at hidx
  dsimp only at hidx
  rw [if_neg hk.2.1] at hidx
  by_cases hroom : l.length < 127
  · have hlt : (c.term c.visibleTerminal).keyboardCursorIdx < KEYBOARD_BUFFER_SIZE - 1 := by
      unfold KEYBOARD_BUFFER_SIZE
      omega
    have hinsert : (c.term c.visibleTerminal).lineIdx.insert = _ := if_pos hlt
    have hzero : (c.term c.visibleTerminal).lineIdx.distance = 0 := h.distance
    rw [if_pos hlt] at htext
    rw [if_pos hroom]
    refine ⟨holds_of hidx htext ?_ ?_ ?_ ?_, congrArg LineText.reading htext⟩
    · rw [(LineIdx.ahead_line _ _ _).1, hinsert, List.length_append, List.length_singleton]
      show (c.term c.visibleTerminal).keyboardCursorIdx + 1 = _
      omega
    · rw [(LineIdx.ahead_line _ _ _).2.1, hinsert, List.length_append, List.length_singleton]
      dsimp only
      rw [if_pos hzero]
      show (c.term c.visibleTerminal).keyboardBufferEndIdx + 1 = _
      omega
    · rw [(LineIdx.ahead_line _ _ _).2.2, hinsert]
      dsimp only
      rw [hzero]
      rfl
    · have hnat : (c.term c.visibleTerminal).keyboardCursorIdx.toNat = l.length := by omega
      rw [List.length_append, List.length_singleton]
      unfold LineText.store
      dsimp only
      rw [hnat, map_range_update_self]
      congr 1
      exact h.text
  · have hfull : ¬ (c.term c.visibleTerminal).keyboardCursorIdx < KEYBOARD_BUFFER_SIZE - 1 := by
      unfold KEYBOARD_BUFFER_SIZE
      omega
    have hinsert : (c.term c.visibleTerminal).lineIdx.insert = _ := if_neg hfull
    rw [if_neg hfull] at htext
    rw [if_neg hroom]
    refine ⟨holds_of hidx htext ?_ ?_ ?_ h.text, congrArg LineText.reading htext⟩
    · rw [(LineIdx.ahead_line _ _ _).1, hinsert]
      exact h.cursor
    · rw [(LineIdx.ahead_line _ _ _).2.1, hinsert]
      exact h.stop
    · rw [(LineIdx.ahead_line _ _ _).2.2, hinsert]
      exact h.distance

/-- A line that has been ended: its characters and a newline. -/
structure Ended (s : TermState) (l : List UInt8) : Prop where
  text : (List.range l.length).map s.keyboardBuffer = l
  newline : s.keyboardBuffer l.length = 10

theorem Holds.enter (h : Holds (c.term c.visibleTerminal) l) (hlen : l.length ≤ 127)
    (hp : scancode.toNat = ENTER_PRESSED) (hc' : c.keyboardInterrupt scancode = some c') :
    Holds (c'.term c.visibleTerminal) [] ∧ Ended (c'.term c.visibleTerminal) l ∧
      (c'.term c.visibleTerminal).sysReadFlag = false := by
  have hk : c.HasChar scancode.toNat := hp ▸ c.hasChar_enter
  have hstop := h.stop
  have hidx := keyboardInterrupt_lineIdx hk.1 hc'
  have htext := enter_lineText hk hp hc' (by
    unfold KEYBOARD_BUFFER_SIZE
    omega)
  rw [keyLine_hasChar hk] at hidx
  dsimp only at hidx
  rw [if_pos hp] at hidx
  have hnat : (c.term c.visibleTerminal).keyboardBufferEndIdx.toNat = l.length := by omega
  have hrow : (c'.term c.visibleTerminal).keyboardBuffer = Function.update
      (c.term c.visibleTerminal).keyboardBuffer l.length 10 := by
    rw [← hnat]
    exact congrArg LineText.row htext
  refine ⟨holds_of hidx htext ?_ ?_ ?_ rfl, ⟨?_, ?_⟩, congrArg LineText.reading htext⟩
  · exact (LineIdx.ahead_line _ _ _).1
  · exact (LineIdx.ahead_line _ _ _).2.1
  · exact (LineIdx.ahead_line _ _ _).2.2
  · rw [hrow, map_range_update _ _ (le_refl _)]
    exact h.text
  · rw [hrow, Function.update_self]

end

/-! ## A read on a held line -/

theorem takeWhile_printable {l : List UInt8} (h : Printable l) : l.takeWhile (· ≠ 10) = l := by
  rw [List.takeWhile_eq_self_iff]
  exact fun ch hch => decide_eq_true (h ch hch).2

/-- The characters put back, without a newline behind them. -/
theorem replayed_of_keepsLine {s : TermState} {l : List UInt8} (h : Holds s l)
    (hprint : Printable l) (hr : replays s = true) (hkeep : KeepsLine s) :
    replayed s = l ∧ (saved s = l ∨ saved s = l ++ [10]) := by
  unfold KeepsLine at hkeep
  rw [if_pos hr, h.held] at hkeep
  refine ⟨?_, hkeep⟩
  show (saved s).takeWhile (· ≠ 10) = l
  rcases hkeep with hsaved | hsaved
  · rw [hsaved]
    exact takeWhile_printable hprint
  · rw [hsaved, List.takeWhile_append_of_pos fun ch hch => decide_eq_true (hprint ch hch).2]
    simp

theorem length_saved (s : TermState) : (saved s).length = s.tempKbdIdx.toNat := by
  unfold saved
  rw [List.length_map, List.length_range]

/-- What a read that replays puts at the start of the row. -/
theorem map_startRow {s : TermState} {n : Nat} (hr : replays s = true) (hn : n ≤ (saved s).length) :
    (List.range n).map (startRow s) = (saved s).take n := by
  rw [length_saved] at hn
  unfold saved startRow
  dsimp only
  rw [if_pos hr, ← List.map_take, List.take_range, Nat.min_eq_left hn]
  refine List.map_congr_left fun i hi => ?_
  have hlt := List.mem_range.mp hi
  rw [overlay_in _ _ (Nat.zero_le _) (by omega), Nat.sub_zero]

/-- The end of the line after the replay of `l`, whether a newline was saved behind it or not. -/
theorem replay_end {c : Console} {l : List UInt8} (hlen : l.length ≤ 127)
    (htemp : 0 ≤ (c.term c.processTerminal).tempKbdIdx)
    (hprinted : replayed (c.term c.processTerminal) = l)
    (hsaved : saved (c.term c.processTerminal) = l ∨
      saved (c.term c.processTerminal) = l ++ [10]) :
    (if decide (c.replayByte = 10) = true then (c.term c.processTerminal).tempKbdIdx - 1
      else (c.term c.processTerminal).tempKbdIdx) = l.length := by
  have hbyte := replayByte_eq_iff (c := c) (by
    rw [hprinted]
    unfold KEYBOARD_BUFFER_SIZE
    omega)
  have hcount := length_saved (c.term c.processTerminal)
  rw [hprinted] at hbyte
  rcases hsaved with hsaved | hsaved
  · rw [hsaved] at hcount
    rw [if_neg (by rw [decide_eq_true_eq, hbyte]; omega)]
    omega
  · rw [hsaved, List.length_append, List.length_singleton] at hcount
    rw [if_pos (by rw [decide_eq_true_eq, hbyte]; omega)]
    omega

/-- A read that puts back the line keeps it. -/
theorem Holds.start {c c' : Console} {l : List UInt8} (h : Holds (c.term c.processTerminal) l)
    (hlen : l.length ≤ 127) (hprint : Printable l)
    (hb : (c.term c.processTerminal).lineIdx.InBounds)
    (hkeep : KeepsLine (c.term c.processTerminal)) (hc' : c.readTerminalStart = some c') :
    Holds (c'.term c.processTerminal) l ∧ (c'.term c.processTerminal).lineIdx.InBounds ∧
      (c'.term c.processTerminal).sysReadFlag = true := by
  have hidx := readTerminalStart_lineIdx hc' c.processTerminal
  have htext := readTerminalStart_lineText hc' c.processTerminal
  rw [if_pos rfl] at htext
  have hread : (c'.term c.processTerminal).sysReadFlag = true := congrArg LineText.reading htext
  by_cases hr : replays (c.term c.processTerminal) = true
  · obtain ⟨hprinted, hsaved⟩ := replayed_of_keepsLine h hprint hr hkeep
    have hplace := replay_end hlen hb.temp.1 hprinted hsaved
    have hrow : (List.range l.length).map (startRow (c.term c.processTerminal)) = l := by
      rcases hsaved with hsaved | hsaved
      · rw [map_startRow hr (by rw [hsaved]), hsaved, List.take_length]
      · rw [map_startRow hr (by rw [hsaved, List.length_append]; omega), hsaved, List.take_left]
    rw [if_pos ⟨rfl, hr⟩] at hidx
    refine ⟨holds_of hidx htext hplace hplace h.distance hrow, ?_, hread⟩
    have hin : ∀ n : Int, n = l.length → 0 ≤ n ∧ n ≤ 127 := by
      intro n hn
      omega
    rw [hidx]
    exact ⟨hin _ hplace, hin _ hplace, ⟨le_refl 0, show (0 : Int) ≤ 128 by decide⟩, hb.last,
      hin _ hplace⟩
  · -- Nothing is put back, and nothing was there.
    rw [if_neg fun hk => hr hk.2] at hidx
    unfold KeepsLine at hkeep
    rw [if_neg hr, h.held] at hkeep
    subst hkeep
    refine ⟨holds_of hidx htext h.cursor h.stop h.distance rfl, ?_, hread⟩
    rw [hidx]
    exact hb

/-- A reader that asked for enough bytes finds the ended line. -/
theorem Ended.readTerminalCopy {c : Console} {l : List UInt8}
    (h : Ended (c.term c.processTerminal) l) (hprint : Printable l) {n : Nat} (hn : l.length ≤ n) :
    c.readTerminalCopy n = delivered l := by
  have hline : line (c.term c.processTerminal).keyboardBuffer n = l := by
    refine takeWhile_map_range h.text (fun ch hch => decide_eq_true (hprint ch hch)) hn (Or.inr ?_)
    rw [h.newline]
    decide
  unfold Console.readTerminalCopy delivered
  rw [hline]

theorem Ended.congr {s s' : TermState} {l : List UInt8} (h : Ended s l)
    (htext : s'.lineText = s.lineText) : Ended s' l := by
  have hrow : s'.keyboardBuffer = s.keyboardBuffer := congrArg LineText.row htext
  exact ⟨hrow ▸ h.text, hrow ▸ h.newline⟩

end Console

theorem Kernel.step_read_terminal {fs : FileSys} {k : Kernel} {stack : Mem} {fd nbytes : Int}
    {bufNull : Bool} {c' : Console} (hterm : k.ReadsTerminal fd bufNull nbytes)
    (hc' : k.console.readTerminalStart = some c') :
    step fs k (.read stack fd bufNull nbytes) = some { k with console := c' } := by
  obtain ⟨hgood, p, hp, hflags, hops⟩ := hterm
  show (k.sysRead fs stack fd bufNull nbytes).map _ = _
  unfold sysRead
  rw [if_neg hgood, hp, Option.bind_some]
  dsimp only
  rw [if_neg hflags, hops, Option.bind_some]
  unfold readOp
  dsimp only
  rw [hc']
  rfl

/-! ## Sessions -/

/-- A kernel, the pending read of the shown terminal with the length it was clipped to, what
its reads returned and what was typed. -/
structure Session where
  kernel : Kernel
  pending : Option Nat
  returned : List Transfer
  typed : Typed

namespace Session

/-- The variables of the shown terminal. -/
def shown (s : Session) : TermState := s.kernel.console.term s.kernel.console.visibleTerminal

/-- The process that runs is the one of the shown terminal. -/
def Own (s : Session) : Prop :=
  s.kernel.console.processTerminal = s.kernel.console.visibleTerminal

instance (s : Session) : Decidable s.Own := inferInstanceAs (Decidable (_ = _))

/-- The call starts a terminal read on the shown terminal. -/
def Starts (s : Session) (fd : Int) (bufNull : Bool) (nbytes : Int) : Prop :=
  s.Own ∧ s.kernel.ReadsTerminal fd bufNull nbytes

instance (s : Session) (fd : Int) (bufNull : Bool) (nbytes : Int) :
    Decidable (s.Starts fd bufNull nbytes) :=
  inferInstanceAs (Decidable (_ ∧ _ ∧ ∃ _p : Slot, _ ∧ _ ∧ _))

/-- The bookkeeping of an event that takes the kernel to `k'`. -/
def next (s : Session) (k' : Kernel) : Event → Session
  | .keyboard scancode =>
      { s with kernel := k', typed := s.typed.key s.kernel.console scancode.toNat }
  | .read _ fd bufNull nbytes =>
      if s.Starts fd bufNull nbytes then
        { s with kernel := k', pending := some (Console.clipBytes nbytes) }
      else { s with kernel := k' }
  | .resumeTerminal n =>
      if s.Own then
        { s with
          kernel := k'
          pending := none
          returned := s.returned ++ [s.kernel.console.readTerminalCopy n] }
      else { s with kernel := k' }
  | _ => { s with kernel := k' }

def step (fs : FileSys) (s : Session) (e : Event) : Option Session :=
  (Kernel.step fs s.kernel e).map fun k' => s.next k' e

/-- The events considered: keys that type lines, reads of at least 128 bytes one after the
other, the return of a reader whose flag is cleared, and whatever else the kernel does without
switching the terminal. -/
def Possible (fs : FileSys) (s : Session) : Event → Prop
  | .keyboard scancode => s.kernel.console.TypedKey scancode.toNat
  | .switch _ => False
  | .read stack fd bufNull nbytes =>
      if s.Starts fd bufNull nbytes then s.pending = none ∧ 128 ≤ nbytes
      else (Kernel.step fs s.kernel (.read stack fd bufNull nbytes)).isSome
  | .resumeTerminal n =>
      (Kernel.step fs s.kernel (.resumeTerminal n)).isSome ∧ (s.Own → s.pending = some n)
  | e => (Kernel.step fs s.kernel e).isSome

instance (fs : FileSys) (s : Session) (e : Event) : Decidable (s.Possible fs e) :=
  match e, e.view with
  | _, .keyboard scancode =>
      inferInstanceAs (Decidable (s.kernel.console.TypedKey scancode.toNat))
  | _, .switch _ => inferInstanceAs (Decidable False)
  | _, .read _ fd bufNull nbytes =>
      inferInstanceAs (Decidable (if s.Starts fd bufNull nbytes then _ ∧ _ else _))
  | _, .resumeTerminal _ => inferInstanceAs (Decidable (_ ∧ (s.Own → _)))
  | _, .execute _ _ => inferInstanceAs (Decidable (_ = true))
  | e, .other h => decidable_of_iff ((Kernel.step fs s.kernel e).isSome = true)
      (by cases e <;> first | exact Iff.rfl | cases h)

/-- A read waits for Enter. -/
def Waits (s : Session) : Prop := s.pending.isSome ∧ s.shown.sysReadFlag = true

/-- A reader has been woken and has not returned. -/
def Wakes (s : Session) : Prop := s.pending.isSome ∧ s.shown.sysReadFlag = false

/-- The event keeps typed lines and reads together. -/
def Keeps (s : Session) : Event → Prop
  | .keyboard scancode =>
      (scancode.toNat = ENTER_PRESSED → s.Waits) ∧
        (s.kernel.console.PrintableKey scancode.toNat → ¬ s.Wakes)
  | .read _ fd bufNull nbytes => s.Starts fd bufNull nbytes → Console.KeepsLine s.shown
  | _ => True

instance (s : Session) : Decidable s.Waits := inferInstanceAs (Decidable (_ ∧ _))

instance (s : Session) : Decidable s.Wakes := inferInstanceAs (Decidable (_ ∧ _))

instance (s : Session) (e : Event) : Decidable (s.Keeps e) :=
  match e, e.view with
  | _, .keyboard _ => inferInstanceAs (Decidable ((_ → s.Waits) ∧ (_ → ¬ s.Wakes)))
  | _, .read _ fd bufNull nbytes =>
      inferInstanceAs (Decidable (s.Starts fd bufNull nbytes → Console.KeepsLine s.shown))
  | _, .switch _ | _, .resumeTerminal _ | _, .execute _ _ => inferInstanceAs (Decidable True)
  | e, .other _ => isTrue (by cases e <;> trivial)

/-! ## The invariant -/

/-- Every completed line has been returned. -/
structure Editing (s : Session) : Prop where
  reading : s.shown.sysReadFlag = s.pending.isSome
  returned : s.returned = s.typed.lines.map delivered

/-- Enter has ended the line `l` and its reader has not returned. -/
structure Woken (s : Session) (before : List (List UInt8)) (l : List UInt8) : Prop where
  cur : s.typed.cur = []
  reading : s.shown.sysReadFlag = false
  pending : s.pending.isSome
  lines : s.typed.lines = before ++ [l]
  returned : s.returned = before.map delivered
  length : l.length ≤ 127
  printable : Printable l
  ended : Console.Ended s.shown l

/-- The line editor holds the line being typed, and every line before it has been returned or
is about to be. -/
structure Inv (s : Session) : Prop where
  onScreen : Console.AllOnScreen s.kernel.console
  bounds : s.shown.lineIdx.InBounds
  line : Console.Holds s.shown s.typed.cur
  printable : Printable s.typed.cur
  length : s.typed.cur.length ≤ 127
  enough : ∀ n, s.pending = some n → 127 ≤ n
  phase : s.Editing ∨ ∃ before l, s.Woken before l

section

variable {s : Session} (h : s.Inv)

include h

theorem Inv.editing_of_waits (hw : s.Waits) : s.Editing := by
  rcases h.phase with hedit | ⟨before, l, hwoken⟩
  · exact hedit
  · have hread := hwoken.reading
    rw [hw.2] at hread
    cases hread

theorem Inv.editing_of_not_wakes (hw : ¬ s.Wakes) : s.Editing := by
  rcases h.phase with hedit | ⟨before, l, hwoken⟩
  · exact hedit
  · exact absurd ⟨hwoken.pending, hwoken.reading⟩ hw

theorem Inv.editing_of_none (hp : s.pending = none) : s.Editing := by
  refine h.editing_of_not_wakes fun hw => ?_
  have hsome := hw.1
  rw [hp] at hsome
  cases hsome

/-- An event that leaves the shown line alone. -/
theorem Inv.frame {k' : Kernel} (hs : Console.AllOnScreen k'.console)
    (hsame : Console.SameShown s.kernel.console k'.console) :
    Inv { s with kernel := k' } := by
  have hshown : ({ s with kernel := k' } : Session).shown
      = k'.console.term s.kernel.console.visibleTerminal := by
    unfold shown
    dsimp only
    rw [hsame.visible]
  have hidx : ({ s with kernel := k' } : Session).shown.lineIdx = s.shown.lineIdx := by
    rw [hshown]
    exact hsame.idx
  have htext : ({ s with kernel := k' } : Session).shown.lineText = s.shown.lineText := by
    rw [hshown]
    exact hsame.text
  have hread : ({ s with kernel := k' } : Session).shown.sysReadFlag = s.shown.sysReadFlag :=
    congrArg LineText.reading htext
  refine ⟨hs, hidx ▸ h.bounds, h.line.congr hidx htext, h.printable, h.length, h.enough, ?_⟩
  rcases h.phase with hedit | ⟨before, l, hw⟩
  · exact Or.inl ⟨hread.trans hedit.reading, hedit.returned⟩
  · exact Or.inr ⟨before, l, hw.cur, hread.trans hw.reading, hw.pending, hw.lines, hw.returned,
      hw.length, hw.printable, hw.ended.congr htext⟩

/-- A key of the line is handled: the shown terminal stays and its indices stay in bounds. -/
theorem Inv.key_defined {scancode : UInt8} (hp : s.kernel.console.Plain scancode.toNat)
    (hctrl : ¬ ((s.kernel.console.term s.kernel.console.visibleTerminal).controlOn = true ∧
      scancode.toNat = L_SCANCODE)) (hf : scancode.toNat ≠ FUNCTION_ONE_PRESSED) :
    ∃ c', s.kernel.console.keyboardInterrupt scancode = some c' ∧ Console.AllOnScreen c' ∧
      c'.visibleTerminal = s.kernel.console.visibleTerminal ∧
      (c'.term s.kernel.console.visibleTerminal).lineIdx.InBounds := by
  have hs := h.onScreen s.kernel.console.visibleTerminal
  obtain ⟨c', hc'⟩ := Console.typed_key_defined hs h.bounds hp hctrl
  have hcursor := h.line.cursor
  have hstop := h.line.stop
  have hkey : s.kernel.console.KeyBounded scancode.toNat := by
    refine ⟨fun heq => absurd heq hf, fun hb => ?_, fun hc => ?_⟩
    · have hpos : s.shown.keyboardCursorIdx > 0 := hb.2.1
      show s.shown.keyboardBufferEndIdx > 0
      omega
    · have hroom : s.shown.keyboardCursorIdx < KEYBOARD_BUFFER_SIZE - 1 := hc.2.1
      show s.shown.keyboardBufferEndIdx < KEYBOARD_BUFFER_SIZE - 1
      omega
  refine ⟨c', hc', Console.allOnScreen_keyboardInterrupt h.onScreen hc',
    Console.plain_visible hs hp hc', ?_⟩
  · rw [Console.keyboardInterrupt_lineIdx hp hc']
    exact ((Console.keyAccesses_keyLine_iff h.bounds hp).mpr hkey).2

/-! ## Keys -/

/-- The session after a key that takes the console to `c'` and the typed text to `t`. -/
def typing (s : Session) (c' : Console) (t : Typed) : Session :=
  { s with kernel := { s.kernel with console := c' }, typed := t }

omit h in
theorem shown_typing {c' : Console} {t : Typed}
    (hv : c'.visibleTerminal = s.kernel.console.visibleTerminal) :
    (s.typing c' t).shown = c'.term s.kernel.console.visibleTerminal := by
  unfold shown typing
  dsimp only
  rw [hv]

theorem Inv.backspace {scancode : UInt8} (hp : scancode.toNat = BACKSPACE) :
    ∃ c', s.kernel.console.keyboardInterrupt scancode = some c' ∧
      (s.typing c' s.typed.back).Inv := by
  obtain ⟨c', hc', hs, hv, hb⟩ := h.key_defined (hp ▸ Console.plain_backspace _)
    (fun hk => absurd (hp.symm.trans hk.2) (by decide)) (hp ▸ by decide)
  have hshown : (s.typing c' s.typed.back).shown = _ := shown_typing hv
  obtain ⟨hline, hread⟩ := h.line.backspace h.length hp hc'
  refine ⟨c', hc', hs, hshown ▸ hb, hshown ▸ hline, ?_, ?_, h.enough, ?_⟩
  · exact fun ch hch => h.printable ch (List.dropLast_subset _ hch)
  · exact (List.dropLast_sublist _).length_le.trans h.length
  rcases h.phase with hedit | ⟨before, l, hw⟩
  · exact Or.inl ⟨hshown ▸ hread.trans hedit.reading, hedit.returned⟩
  · -- The cursor is at the start of the row, so the ended line stays.
    have hcursor : (s.kernel.console.term s.kernel.console.visibleTerminal).keyboardCursorIdx
        = (s.typed.cur.length : Nat) := h.line.cursor
    rw [hw.cur] at hcursor
    have htext := Console.backspace_lineText hp hc' h.line.distance (by rw [hcursor]; decide)
    rw [if_neg (by rw [hcursor]; decide)] at htext
    refine Or.inr ⟨before, l, ?_, hshown ▸ hread.trans hw.reading, hw.pending, hw.lines,
      hw.returned, hw.length, hw.printable, hshown ▸ hw.ended.congr htext⟩
    show s.typed.cur.dropLast = []
    rw [hw.cur]
    rfl

theorem Inv.enter {scancode : UInt8} (hp : scancode.toNat = ENTER_PRESSED) (hw : s.Waits) :
    ∃ c', s.kernel.console.keyboardInterrupt scancode = some c' ∧
      (s.typing c' s.typed.enter).Inv := by
  have hedit := h.editing_of_waits hw
  have hchar := s.kernel.console.hasChar_enter
  obtain ⟨c', hc', hs, hv, hb⟩ := h.key_defined (hp ▸ hchar.1) (hp ▸ hchar.2.2.2) (hp ▸ by decide)
  have hshown : (s.typing c' s.typed.enter).shown = _ := shown_typing hv
  obtain ⟨hline, hended, hread⟩ := h.line.enter h.length hp hc'
  refine ⟨c', hc', hs, hshown ▸ hb, hshown ▸ hline, fun ch hch => absurd hch List.not_mem_nil,
    Nat.zero_le _, h.enough, Or.inr ⟨s.typed.lines, s.typed.cur, ?_⟩⟩
  exact ⟨rfl, hshown ▸ hread, hw.1, rfl, hedit.returned, h.length, h.printable, hshown ▸ hended⟩

theorem Inv.char {scancode : UInt8} (hk : s.kernel.console.PrintableKey scancode.toNat)
    (hw : ¬ s.Wakes) :
    ∃ c', s.kernel.console.keyboardInterrupt scancode = some c' ∧
      (s.typing c' (s.typed.char (s.kernel.console.outputChar scancode.toNat))).Inv := by
  have hedit := h.editing_of_not_wakes hw
  obtain ⟨hchar, henter, hf, hnul, hten⟩ := hk
  obtain ⟨c', hc', hs, hv, hb⟩ := h.key_defined hchar.1 hchar.2.2.2 hf
  generalize hch : s.kernel.console.outputChar scancode.toNat = ch at *
  have hshown : (s.typing c' (s.typed.char ch)).shown = _ := shown_typing hv
  obtain ⟨hline, hread⟩ := h.line.char h.length ⟨hchar, henter, hf, hch ▸ hnul, hch ▸ hten⟩ hc'
  rw [hch, ← Typed.char_cur] at hline
  have hcur := s.typed.char_cur ch
  refine ⟨c', hc', hs, hshown ▸ hb, hshown ▸ hline, ?_, ?_, h.enough, Or.inl ⟨?_, ?_⟩⟩
  · show Printable (s.typed.char ch).cur
    rw [hcur]
    split
    · intro x hx
      rcases List.mem_append.mp hx with hx | hx
      · exact h.printable x hx
      · rw [List.mem_singleton.mp hx]
        exact ⟨hnul, hten⟩
    · exact h.printable
  · have hlen := h.length
    show (s.typed.char ch).cur.length ≤ 127
    rw [hcur]
    split
    · rw [List.length_append, List.length_singleton]
      omega
    · exact hlen
  · exact hshown ▸ hread.trans hedit.reading
  · show s.returned = (s.typed.char ch).lines.map delivered
    rw [Typed.char_lines]
    exact hedit.returned

/-! ## Reads -/

/-- A read that starts on the shown terminal. -/
theorem Inv.read (fs : FileSys) (stack : Mem) {fd nbytes : Int} {bufNull : Bool}
    (hstart : s.Starts fd bufNull nbytes) (hnone : s.pending = none) (hn : 128 ≤ nbytes)
    (hkeep : Console.KeepsLine s.shown) :
    ∃ k', Kernel.step fs s.kernel (.read stack fd bufNull nbytes) = some k' ∧
      Inv { s with kernel := k', pending := some (Console.clipBytes nbytes) } := by
  obtain ⟨hown, hterm⟩ := hstart
  have hshown : s.kernel.console.term s.kernel.console.processTerminal = s.shown :=
    congrArg s.kernel.console.term hown
  have hedit := h.editing_of_none hnone
  have htemp : 0 ≤ s.shown.tempKbdIdx ∧ s.shown.tempKbdIdx ≤ 128 := h.bounds.temp
  obtain ⟨c', hc'⟩ := Console.readTerminalStart_defined (c := s.kernel.console) (by
    rw [hshown]
    exact htemp)
  obtain ⟨hline, hb, hread⟩ := Console.Holds.start (hshown ▸ h.line) h.length h.printable
    (hshown ▸ h.bounds) (hshown ▸ hkeep) hc'
  have hnext : c'.term c'.visibleTerminal = c'.term s.kernel.console.processTerminal := by
    rw [(Kernel.readTerminalStart_terminals hc').2, hown]
  refine ⟨_, Kernel.step_read_terminal hterm hc', ?_⟩
  refine ⟨Console.allOnScreen_readTerminalStart h.onScreen hc', ?_, ?_, h.printable, h.length,
    ?_, Or.inl ⟨?_, hedit.returned⟩⟩
  · show (c'.term c'.visibleTerminal).lineIdx.InBounds
    rw [hnext]
    exact hb
  · show Console.Holds (c'.term c'.visibleTerminal) _
    rw [hnext]
    exact hline
  · intro n hclip
    cases hclip
    unfold Console.clipBytes KEYBOARD_BUFFER_SIZE
    split <;> omega
  · show (c'.term c'.visibleTerminal).sysReadFlag = true
    rw [hnext]
    exact hread

omit h in
/-- Any other `sys_read` leaves the shown line alone. -/
theorem sameShown_read {fs : FileSys} {stack : Mem} {fd nbytes : Int} {bufNull : Bool} {k' : Kernel}
    (hstart : ¬ s.Starts fd bufNull nbytes)
    (hk' : Kernel.step fs s.kernel (.read stack fd bufNull nbytes) = some k') :
    Console.SameShown s.kernel.console k'.console := by
  obtain ⟨⟨r, k₁⟩, hr, rfl⟩ := Option.map_eq_some_iff.mp hk'
  by_cases hterm : s.kernel.ReadsTerminal fd bufNull nbytes
  · have hown : s.kernel.console.visibleTerminal ≠ s.kernel.console.processTerminal :=
      fun heq => hstart ⟨heq.symm, hterm⟩
    have hc := Kernel.sysRead_terminal hr hterm
    refine ⟨(Kernel.readTerminalStart_terminals hc).2, ?_, ?_⟩
    · rw [Console.readTerminalStart_lineIdx hc, if_neg fun hk => hown hk.1]
    · rw [Console.readTerminalStart_lineText hc, if_neg hown]
  · have hc : k₁.console = s.kernel.console := Kernel.sysRead_not_terminal hr hterm
    show Console.SameShown s.kernel.console k₁.console
    rw [hc]
    exact ⟨rfl, rfl, rfl⟩

/-- The reader of the shown terminal returns. -/
theorem Inv.resume {n : Nat} (hown : s.Own) (hpend : s.pending = some n)
    (hread : s.shown.sysReadFlag = false) :
    Inv { s with
      pending := none
      returned := s.returned ++ [s.kernel.console.readTerminalCopy n] } := by
  refine ⟨h.onScreen, h.bounds, h.line, h.printable, h.length, (fun _ hn => nomatch hn), ?_⟩
  rcases h.phase with hedit | ⟨before, l, hw⟩
  · have hflag := hedit.reading
    rw [hread, hpend] at hflag
    cases hflag
  · have hended : Console.Ended (s.kernel.console.term s.kernel.console.processTerminal) l := by
      rw [show s.kernel.console.processTerminal = s.kernel.console.visibleTerminal from hown]
      exact hw.ended
    have hcopy := hended.readTerminalCopy hw.printable (hw.length.trans (h.enough n hpend))
    refine Or.inl ⟨hread, ?_⟩
    show s.returned ++ [_] = s.typed.lines.map delivered
    rw [hcopy, hw.returned, hw.lines, List.map_append]
    rfl

end

/-! ## Every event -/

theorem step_eq_some {fs : FileSys} {s : Session} {e : Event} {k' : Kernel}
    (h : Kernel.step fs s.kernel e = some k') : s.step fs e = some (s.next k' e) := by
  unfold step
  rw [h]
  rfl

theorem Inv.keyboard {fs : FileSys} {s : Session} (h : s.Inv) {scancode : UInt8}
    (hp : s.Possible fs (.keyboard scancode)) (hk : s.Keeps (.keyboard scancode)) :
    ∃ c', s.kernel.console.keyboardInterrupt scancode = some c' ∧
      (s.typing c' (s.typed.key s.kernel.console scancode.toNat)).Inv := by
  have hframe : (∃ c', s.kernel.console.keyboardInterrupt scancode = some c' ∧
      Console.SameShown s.kernel.console c') → ∃ c',
      s.kernel.console.keyboardInterrupt scancode = some c' ∧ (s.typing c' s.typed).Inv := by
    rintro ⟨c', hc', hsame⟩
    refine ⟨c', hc', h.frame ?_ hsame⟩
    exact Console.allOnScreen_keyboardInterrupt h.onScreen hc'
  unfold Typed.key
  rcases hp with hmod | hign | hback | henter | hchar
  · have hne : ∀ code, code ∉ Console.modifierCodes → scancode.toNat ≠ code := by
      rintro code hcode rfl
      exact hcode hmod
    rw [if_neg (hne _ (by decide)), if_neg (hne _ (by decide)), if_pos (Or.inl hmod)]
    exact hframe (Console.modifier_key hmod)
  · have hgt := hign.2.1
    have hne : ∀ code, code ≤ START_IGNORE → scancode.toNat ≠ code := by
      intro code hle heq
      omega
    rw [if_neg (hne _ (by decide)), if_neg (hne _ (by decide)), if_pos (Or.inr hgt)]
    exact hframe (Console.ignored_key hign)
  · rw [if_pos hback]
    exact h.backspace hback
  · rw [if_neg (by rw [henter]; decide), if_pos henter]
    exact h.enter henter (hk.1 henter)
  · have hplain : ¬ (scancode.toNat ∈ Console.modifierCodes ∨ START_IGNORE < scancode.toNat) := by
      rintro (hmod | hgt)
      · exact hchar.1.1.modifier hmod
      · exact absurd hchar.1.2.1 (Nat.not_le.mpr hgt)
    rw [if_neg hchar.1.2.2.1, if_neg hchar.2.1, if_neg hplain]
    exact h.char hchar (hk.2 hchar)

/-- **One event**: if it is possible and keeps lines and reads together, it is defined and keeps
the invariant. -/
theorem Inv.step {fs : FileSys} {s : Session} (h : s.Inv) {e : Event} (hp : s.Possible fs e)
    (hk : s.Keeps e) : ∃ s', s.step fs e = some s' ∧ s'.Inv := by
  -- Events that leave the line and what was typed and read alone.
  have hframe : ∀ k', Kernel.step fs s.kernel e = some k' →
      Console.SameShown s.kernel.console k'.console → s.next k' e = { s with kernel := k' } →
      ∃ s', s.step fs e = some s' ∧ s'.Inv := by
    intro k' hk' hsame hnext
    refine ⟨_, step_eq_some hk', ?_⟩
    rw [hnext]
    exact h.frame (Kernel.step_allOnScreen h.onScreen hk') hsame
  cases e with
  | keyboard scancode =>
      obtain ⟨c', hc', hinv⟩ := h.keyboard hp hk
      exact ⟨_, step_eq_some (Option.map_eq_some_iff.mpr ⟨c', hc', rfl⟩), hinv⟩
  | «switch» n => exact hp.elim
  | read stack fd bufNull nbytes =>
      unfold Possible at hp
      dsimp only at hp
      by_cases hstart : s.Starts fd bufNull nbytes
      · rw [if_pos hstart] at hp
        obtain ⟨k', hk', hinv⟩ := h.read fs stack hstart hp.1 hp.2 (hk hstart)
        have hnext : s.next k' (.read stack fd bufNull nbytes) = _ := if_pos hstart
        exact ⟨_, step_eq_some hk', hnext ▸ hinv⟩
      · rw [if_neg hstart] at hp
        obtain ⟨k', hk'⟩ := Option.isSome_iff_exists.mp hp
        exact hframe k' hk' (sameShown_read hstart hk') (if_neg hstart)
  | resumeTerminal n =>
      obtain ⟨k', hk'⟩ := Option.isSome_iff_exists.mp hp.1
      by_cases hown : s.Own
      · obtain ⟨r, hr, rfl⟩ := Option.map_eq_some_iff.mp hk'
        have hflag : s.shown.sysReadFlag = false := by
          unfold Kernel.readTerminalFinish at hr
          split at hr
          · cases hr
          · rename_i hread
            have hterm : s.kernel.processTerminal = s.kernel.console.visibleTerminal := hown
            rw [hterm, Bool.not_eq_true] at hread
            exact hread
        have hnext : s.next s.kernel (.resumeTerminal n) = _ := if_pos hown
        exact ⟨_, step_eq_some hk', hnext ▸ h.resume hown (hp.2 hown) hflag⟩
      · have hsame := Console.Background.sameShown (Kernel.step_console hk')
        exact hframe k' hk' hsame (if_neg hown)
  | _ =>
      obtain ⟨k', hk'⟩ := Option.isSome_iff_exists.mp hp
      exact hframe k' hk' (Console.Background.sameShown (Kernel.step_console hk')) rfl

/-! ## Runs -/

/-- A session that begins: nothing has been typed or read. -/
def start (k : Kernel) : Session := ⟨k, none, [], ⟨[], []⟩⟩

/-- The shown terminal has an empty line and no reader. -/
structure Quiet (s : TermState) : Prop where
  bounds : s.lineIdx.InBounds
  line : Console.Holds s []
  reading : s.sysReadFlag = false

theorem quiet_of_zero {s : TermState} (hidx : s.lineIdx = ⟨0, 0, 0, 0, 0, 0⟩)
    (hread : s.sysReadFlag = false) : Quiet s := by
  refine ⟨?_, Console.holds_of hidx rfl rfl rfl rfl rfl, hread⟩
  rw [hidx]
  decide

theorem inv_start {k : Kernel} (hs : Console.AllOnScreen k.console) (hq : Quiet (start k).shown) :
    (start k).Inv where
  onScreen := hs
  bounds := hq.bounds
  line := hq.line
  printable := fun _ hch => absurd hch List.not_mem_nil
  length := Nat.zero_le _
  enough := fun _ hn => nomatch hn
  phase := Or.inl ⟨hq.reading, rfl⟩

/-- What was returned is a part of what was typed, and all of it unless a reader is about to
return. -/
theorem Inv.returns {s : Session} (h : s.Inv) :
    (∀ i < s.returned.length, s.returned[i]? = s.typed.lines[i]?.map delivered) ∧
      (¬ s.Wakes → s.returned = s.typed.lines.map delivered) := by
  refine ⟨fun i hi => ?_, fun hw => (h.editing_of_not_wakes hw).returned⟩
  rw [← List.getElem?_map]
  rcases h.phase with hedit | ⟨before, l, hw⟩
  · rw [hedit.returned]
  · have hret := hw.returned
    rw [hret] at hi ⊢
    rw [hw.lines, List.map_append, List.getElem?_append_left hi]

/-- **Typed lines reach their readers.** From a reachable state whose shown terminal is quiet, in
every run of keys, reads and other events, if Enter comes only while a read waits, no character
comes between the Enter that wakes a reader and its return, and a read starts only when it puts
back what is in the line, then the k-th read to return delivers the k-th line. -/
theorem reads_deliver_lines {fs : FileSys} {k : Kernel} (hk : Kernel.Reachable fs k)
    (hq : Quiet (start k).shown) {es : List Event}
    (hp : StepSystem.Guarded (step fs) (Possible fs) (start k) es)
    (hkeep : StepSystem.Guarded (step fs) Keeps (start k) es) :
    ∃ s, StepSystem.run (step fs) (start k) es = some s ∧
      (∀ i < s.returned.length, s.returned[i]? = s.typed.lines[i]?.map delivered) ∧
      (¬ s.Wakes → s.returned = s.typed.lines.map delivered) := by
  obtain ⟨s, hrun, hinv⟩ := StepSystem.run_total_of_guarded
    (fun _ _ h hok => h.step hok.1 hok.2) (hp.and hkeep) (inv_start hk.allOnScreen hq)
  exact ⟨s, hrun, hinv.returns⟩

/-- The shell on the shown terminal reads, `a` and Enter are typed, and the reader returns. -/
def readThenType : List Event :=
  [.read (fun _ => 0) 0 false 128, .keyboard 0x1E, .keyboard 0x1C, .resumeTerminal 128]

theorem reads_deliver_lines_a : ∃ k s, Kernel.Reachable sampleImage k ∧
    StepSystem.run (step sampleImage) (start k) readThenType = some s ∧
    s.returned = [delivered [97]] := by
  have hview : (StepSystem.run (Kernel.step sampleImage) (Kernel.boot zeroMemory)
      [.pit zeroFrame, .switch 1]).map (fun k => decide (
        (start k).shown.lineIdx = ⟨0, 0, 0, 0, 0, 0⟩ ∧ (start k).shown.sysReadFlag = false ∧
        StepSystem.Guarded (step sampleImage) (Possible sampleImage) (start k) readThenType ∧
        StepSystem.Guarded (step sampleImage) Keeps (start k) readThenType ∧
        (StepSystem.run (step sampleImage) (start k) readThenType).map (fun s =>
          (s.pending, s.typed.lines)) = some (none, [[97]]))) = some true := by
    decide +kernel
  obtain ⟨k, hk, hidx, hread, hp, hkeep, hend⟩ := StepSystem.exists_of_map_decide hview
  have hq := quiet_of_zero hidx hread
  obtain ⟨s, hs, _, hall⟩ := reads_deliver_lines ⟨zeroMemory, _, hk⟩ hq hp hkeep
  rw [hs, Option.map_some] at hend
  obtain ⟨hpend, hlines⟩ := Prod.mk.inj (Option.some.inj hend)
  refine ⟨k, s, ⟨zeroMemory, _, hk⟩, hs, ?_⟩
  rw [hall fun hw => absurd hw.1 (by rw [hpend]; decide), hlines]
  rfl

/-- With `a` typed before the shell reads, the read clears it and returns an empty line. -/
theorem early_character_lost : ¬ ∀ (fs : FileSys) (k : Kernel) (es : List Event) (s : Session),
    Kernel.Reachable fs k → Quiet (start k).shown →
    StepSystem.Guarded (step fs) (Possible fs) (start k) es →
    StepSystem.run (step fs) (start k) es = some s →
    ∀ i < s.returned.length, s.returned[i]? = s.typed.lines[i]?.map delivered := by
  intro hall
  have hview : (StepSystem.run (Kernel.step sampleImage) (Kernel.boot zeroMemory)
      [.pit zeroFrame, .switch 1]).map (fun k => decide (
        (start k).shown.lineIdx = ⟨0, 0, 0, 0, 0, 0⟩ ∧ (start k).shown.sysReadFlag = false ∧
        StepSystem.Guarded (step sampleImage) (Possible sampleImage) (start k) [.keyboard 0x1E,
          .read (fun _ => 0) 0 false 128, .keyboard 0x1C, .resumeTerminal 128] ∧
        (StepSystem.run (step sampleImage) (start k) [.keyboard 0x1E,
          .read (fun _ => 0) 0 false 128, .keyboard 0x1C, .resumeTerminal 128]).map (fun s =>
            (s.returned, s.typed.lines)) = some ([⟨1, [10]⟩], [[97]]))) = some true := by
    decide +kernel
  obtain ⟨k, hk, hidx, hread, hp, hend⟩ := StepSystem.exists_of_map_decide hview
  have hq := quiet_of_zero hidx hread
  obtain ⟨s, hs, hpair⟩ := Option.map_eq_some_iff.mp hend
  obtain ⟨hret, hlines⟩ := Prod.mk.inj hpair
  have hfirst := hall _ k _ s ⟨zeroMemory, _, hk⟩ hq hp hs 0 (by rw [hret]; decide)
  rw [hret, hlines] at hfirst
  exact absurd hfirst (by decide)

end Session

end Ext2Kernel
