import Ext2Kernel.Process.LineEditor

set_option autoImplicit false

/-! # The bounds of the keyboard indices

The indices of the line editor and what the handler and the reader use them for: `keyAccesses`,
`readAccesses` and `resumeAccesses` list every index into a character buffer and into the table
of characters. From a state with indices in bounds, a step uses an index outside a buffer or
leaves one out of bounds exactly if it is one of five: F1 without Alt, which reads behind the
table; a backspace at the end of a line of length zero or a character at the end of a line of
length 127, which need counters that disagree; a read that puts back 128 characters without a
newline; and a reader that finds 128 characters without an end.
-/

namespace Ext2Kernel

open ByteMem

namespace LineIdx

/-- The bounds of the indices between interrupts. -/
structure InBounds (l : LineIdx) : Prop where
  cursor : 0 ≤ l.cursor ∧ l.cursor ≤ 127
  stop : 0 ≤ l.stop ∧ l.stop ≤ 127
  temp : 0 ≤ l.temp ∧ l.temp ≤ 128
  last : 0 ≤ l.last ∧ l.last ≤ 127
  current : 0 ≤ l.current ∧ l.current ≤ 127

theorem inBounds_iff (l : LineIdx) : l.InBounds ↔
    (0 ≤ l.cursor ∧ l.cursor ≤ 127) ∧ (0 ≤ l.stop ∧ l.stop ≤ 127) ∧
      (0 ≤ l.temp ∧ l.temp ≤ 128) ∧ (0 ≤ l.last ∧ l.last ≤ 127) ∧
        0 ≤ l.current ∧ l.current ≤ 127 := by
  constructor
  · intro h
    exact ⟨h.cursor, h.stop, h.temp, h.last, h.current⟩
  · rintro ⟨h₁, h₂, h₃, h₄, h₅⟩
    exact ⟨h₁, h₂, h₃, h₄, h₅⟩

instance (l : LineIdx) : Decidable l.InBounds := decidable_of_iff _ l.inBounds_iff.symm

section

variable {l : LineIdx} (h : l.InBounds)

include h

theorem InBounds.toEnd {n : Int} (hn : 0 ≤ n ∧ n ≤ 127) : (l.toEnd n).InBounds :=
  ⟨hn, hn, h.temp, h.last, h.current⟩

/-- The backspace key: the line must not be empty when the cursor is at its end. -/
theorem InBounds.erase_iff (typing : Bool) : (l.erase.eraseAhead typing).InBounds ↔
    (l.cursor > 0 ∧ l.distance = 0 → l.stop > 0) := by
  rw [inBounds_iff] at h ⊢
  unfold LineIdx.erase LineIdx.eraseAhead
  split_ifs <;> (try dsimp only at *) <;> omega

theorem InBounds.left (r : Int) : (l.left r).InBounds := by
  rw [inBounds_iff] at h ⊢
  unfold LineIdx.left
  split_ifs <;> (try dsimp only at *) <;> omega

theorem InBounds.right {r : Int} (hr : r = 0 ∨ r = 1)
    (hroom : l.cursor < KEYBOARD_BUFFER_SIZE - 1) : (l.right r).InBounds := by
  unfold KEYBOARD_BUFFER_SIZE at hroom
  rw [inBounds_iff] at h ⊢
  unfold LineIdx.right
  dsimp only
  omega

theorem InBounds.clear : l.clear.InBounds := by
  rw [inBounds_iff] at h ⊢
  unfold LineIdx.clear
  dsimp only
  omega

/-- A character key: the line must not be full when the cursor is at its end. -/
theorem InBounds.insert_iff (copies stores : Bool) :
    ((l.insert.keepCurrent copies).ahead stores).InBounds ↔
      (l.cursor < KEYBOARD_BUFFER_SIZE - 1 ∧ l.distance = 0 → l.stop < 127) := by
  rw [inBounds_iff] at h ⊢
  unfold LineIdx.insert LineIdx.keepCurrent LineIdx.ahead KEYBOARD_BUFFER_SIZE
  split_ifs <;> (try dsimp only at *) <;> omega

theorem InBounds.enter (shell stores : Bool) :
    (((l.enter shell).keepCurrent true).ahead stores).InBounds := by
  rw [inBounds_iff] at h ⊢
  unfold LineIdx.enter LineIdx.keepCurrent LineIdx.ahead KEYBOARD_BUFFER_SIZE
  split_ifs <;> (try dsimp only at *) <;> omega

/-- A replay: a newline behind the characters takes one off, and without one there must be room
for them. -/
theorem InBounds.replay_iff {newline : Bool} (hnewline : newline = true → 0 < l.temp) :
    (l.replay newline).InBounds ↔ (newline = false → l.temp ≤ 127) := by
  rw [inBounds_iff] at h ⊢
  unfold LineIdx.replay
  cases newline with
  | false =>
      simp only [Bool.false_eq_true, if_false, forall_const]
      omega
  | true =>
      have hpos := hnewline rfl
      simp only [if_true, Bool.true_eq_false, false_imp_iff, iff_true]
      omega

end

end LineIdx

/-! ## The accesses of the handler and the reader -/

/-- What the indices point into. -/
inductive Buffer
  | keyboardBuffer | tempKbdBuf | lastBuf | currentBuf | scancodeToChar

/-- The number of entries: `KEYBOARD_BUFFER_SIZE`, and `NUM_CODES` for the table. -/
def Buffer.size : Buffer → Int
  | .scancodeToChar => 116
  | _ => KEYBOARD_BUFFER_SIZE

/-- One use of an index. -/
structure IdxUse where
  buffer : Buffer
  index : Int

def IdxUse.InBuffer (a : IdxUse) : Prop := 0 ≤ a.index ∧ a.index < a.buffer.size

instance (a : IdxUse) : Decidable a.InBuffer := inferInstanceAs (Decidable (_ ∧ _))

namespace IdxUse

/-- The first `n` entries, one after the other. -/
def span (b : Buffer) (n : Nat) : List IdxUse := (List.range n).map fun i : Nat => ⟨b, i⟩

/-- `memset` or `memcpy` of `n` bytes; the length is unsigned. -/
def block (b : Buffer) (n : Int) : List IdxUse := span b (n % 4294967296).toNat

/-- `memcpy(to, from, n)`. -/
def copy (b b' : Buffer) (n : Int) : List IdxUse := block b n ++ block b' n

def AllIn (l : List IdxUse) : Prop := ∀ a ∈ l, a.InBuffer

instance (l : List IdxUse) : Decidable (AllIn l) := inferInstanceAs (Decidable (∀ a ∈ l, _))

@[simp] theorem allIn_nil : AllIn [] := fun _ h => absurd h List.not_mem_nil

@[simp] theorem allIn_cons {a : IdxUse} {l : List IdxUse} :
    AllIn (a :: l) ↔ a.InBuffer ∧ AllIn l := List.forall_mem_cons

@[simp] theorem allIn_append {l l' : List IdxUse} : AllIn (l ++ l') ↔ AllIn l ∧ AllIn l' :=
  List.forall_mem_append

@[simp] theorem allIn_ite {p : Prop} [Decidable p] {l : List IdxUse} :
    AllIn (if p then l else []) ↔ (p → AllIn l) := by
  split
  · rename_i hp
    exact ⟨fun h _ => h, fun h => h hp⟩
  · rename_i hp
    exact iff_of_true allIn_nil fun h => absurd h hp

theorem allIn_span {b : Buffer} {n : Nat} : AllIn (span b n) ↔ n ≤ b.size := by
  have hsize : 0 ≤ b.size := by cases b <;> decide
  unfold span AllIn InBuffer
  simp only [List.forall_mem_map, List.mem_range]
  constructor
  · intro h
    by_contra hlt
    have hlast := h (n - 1) (by omega)
    omega
  · intro h i hi
    omega

/-- A block operation inside one of the four character buffers. -/
theorem allIn_block_of_le {b : Buffer} (hb : b.size = 128) {n : Int} (h₀ : 0 ≤ n)
    (hn : n ≤ 128) : AllIn (block b n) := by
  unfold block
  rw [allIn_span, hb, Int.emod_eq_of_lt h₀ (by omega)]
  omega

theorem allIn_copy_of_le {b b' : Buffer} (hb : b.size = 128) (hb' : b'.size = 128)
    {n : Int} (h₀ : 0 ≤ n) (hn : n ≤ 128) : AllIn (copy b b' n) :=
  allIn_append.mpr ⟨allIn_block_of_le hb h₀ hn, allIn_block_of_le hb' h₀ hn⟩

/-- One entry of a character buffer. -/
theorem allIn_single {b : Buffer} (hb : b.size = 128) {i : Int} (h₀ : 0 ≤ i)
    (hi : i < 128) : AllIn [⟨b, i⟩] := by
  refine allIn_cons.mpr ⟨⟨h₀, ?_⟩, allIn_nil⟩
  rw [hb]
  exact hi

end IdxUse

namespace Console

open IdxUse (span block copy AllIn)

/-- `_sys_write_terminal` on the first `n` bytes of the line; the comparison with the message of
the shell looks at no more than its length. -/
def writeAccesses (c : Console) (n : Int) : List IdxUse :=
  (if c.tooManyShellsFlag ∧ 0 < n then block .keyboardBuffer NO_SUCH_CMD_LEN else [])
    ++ block .keyboardBuffer n

def upAccesses (c : Console) : List IdxUse :=
  let s := c.term c.visibleTerminal
  if s.shellFlag then
    ⟨.lastBuf, 0⟩ :: if s.lastBuf 0 ≠ 0 ∧ c.notInPrevCmdFlag then
      block .keyboardBuffer s.keyboardBufferEndIdx ++ copy .keyboardBuffer .lastBuf s.lastBufIndex
        ++ c.writeAccesses s.lastBufIndex
    else []
  else []

def downAccesses (c : Console) : List IdxUse :=
  let s := c.term c.visibleTerminal
  if s.shellFlag then
    block .keyboardBuffer KEYBOARD_BUFFER_SIZE ++ copy .keyboardBuffer .currentBuf s.currentBufIndex
      ++ c.writeAccesses s.currentBufIndex
  else []

def backspaceAccesses (s : TermState) : List IdxUse :=
  (if s.keyboardCursorIdx > 0 then
    [⟨.keyboardBuffer, if s.distanceFromRight = 0 then s.keyboardCursorIdx
      else s.keyboardCursorIdx - 1⟩] else [])
    ++ if s.typingDuringProgFlag ∧ s.tempKbdIdx > 0 then [⟨.tempKbdBuf, s.tempKbdIdx - 1⟩] else []

def ctrlLAccesses (s : TermState) : List IdxUse :=
  block .tempKbdBuf KEYBOARD_BUFFER_SIZE ++ copy .tempKbdBuf .keyboardBuffer s.keyboardCursorIdx
    ++ block .keyboardBuffer KEYBOARD_BUFFER_SIZE

/-- The copy for the down arrow, with the cursor at `i`. -/
def saveCurrentAccesses (i : Int) : List IdxUse :=
  block .currentBuf KEYBOARD_BUFFER_SIZE ++ copy .currentBuf .keyboardBuffer i

def typeAheadAccesses (s : TermState) (reading : Bool) : List IdxUse :=
  if !s.shellFlag ∧ s.tempKbdIdx < KEYBOARD_BUFFER_SIZE ∧ !reading then
    [⟨.tempKbdBuf, s.tempKbdIdx⟩] else []

/-- Enter stores the newline, copies the line of a shell to `last_buf` and an empty line to
`current_buf`; the read has ended when the type-ahead is stored. -/
def enterAccesses (s : TermState) : List IdxUse :=
  let n := (s.lineIdx.enter true).last
  (if s.keyboardBufferEndIdx < KEYBOARD_BUFFER_SIZE then
    [⟨.keyboardBuffer, s.keyboardBufferEndIdx⟩] else [])
    ++ (if s.shellFlag then block .lastBuf KEYBOARD_BUFFER_SIZE ++ copy .lastBuf .keyboardBuffer n
      else [])
    ++ saveCurrentAccesses 0 ++ typeAheadAccesses s false

def charAccesses (c : Console) : List IdxUse :=
  let s := c.term c.visibleTerminal
  (if s.keyboardCursorIdx < KEYBOARD_BUFFER_SIZE - 1 then
    [⟨.keyboardBuffer, s.keyboardCursorIdx⟩] else [])
    ++ (if c.notInPrevCmdFlag then saveCurrentAccesses s.lineIdx.insert.cursor else [])
    ++ typeAheadAccesses s s.sysReadFlag

/-- The entry of `scancode_to_char` that is read for a key. -/
def scancodeIdx (s : TermState) (pressed : Nat) : Nat :=
  if shifted s pressed then pressed * 2 + 1 else pressed * 2

/-- Every index `keyboard_interrupt` uses, in the order of the source. -/
def keyAccesses (c : Console) (pressed : Nat) : List IdxUse :=
  let s := c.term c.visibleTerminal
  if pressed = UP_ARROW_PRESSED then c.upAccesses
  else if pressed = DOWN_ARROW_PRESSED then c.downAccesses
  else if pressed = BACKSPACE then backspaceAccesses s
  else if ¬ c.Plain pressed then []
  else if s.controlOn ∧ pressed = L_SCANCODE then ctrlLAccesses s
  else if pressed > START_IGNORE then []
  else ⟨.scancodeToChar, scancodeIdx s pressed⟩ ::
    if pressed = ENTER_PRESSED then enterAccesses s else c.charAccesses

/-- Every index `_sys_read_terminal` uses up to its wait loop. -/
def readAccesses (c : Console) : List IdxUse :=
  let s := c.term c.processTerminal
  block .keyboardBuffer KEYBOARD_BUFFER_SIZE ++
    if replays s then
      copy .keyboardBuffer .tempKbdBuf s.tempKbdIdx ++ copy .currentBuf .tempKbdBuf s.tempKbdIdx
        ++ span .keyboardBuffer ((replayed s).length + 1)
        ++ block .tempKbdBuf KEYBOARD_BUFFER_SIZE
    else []

/-- Every index `_sys_read_terminal` uses after its wait loop: it looks at the byte behind the
line. -/
def resumeAccesses (c : Console) (n : Nat) : List IdxUse :=
  span .keyboardBuffer ((line (c.term c.processTerminal).keyboardBuffer n).length + 1)

/-! ## Indices in bounds give accesses in the buffers -/

theorem allIn_writeAccesses (c : Console) {n : Int} (h₀ : 0 ≤ n) (hn : n ≤ 128) :
    AllIn (c.writeAccesses n) := by
  unfold writeAccesses
  rw [IdxUse.allIn_append, IdxUse.allIn_ite]
  exact ⟨fun _ => IdxUse.allIn_block_of_le rfl (by decide) (by decide),
    IdxUse.allIn_block_of_le rfl h₀ hn⟩

theorem allIn_saveCurrentAccesses {i : Int} (h₀ : 0 ≤ i) (hi : i ≤ 128) :
    AllIn (saveCurrentAccesses i) := by
  unfold saveCurrentAccesses
  rw [IdxUse.allIn_append]
  exact ⟨IdxUse.allIn_block_of_le rfl (by decide) (by decide),
    IdxUse.allIn_copy_of_le rfl rfl h₀ hi⟩

section

variable {s : TermState} (h : s.lineIdx.InBounds)

include h

theorem allIn_backspaceAccesses : AllIn (backspaceAccesses s) := by
  have hcursor : 0 ≤ s.keyboardCursorIdx ∧ s.keyboardCursorIdx ≤ 127 := h.cursor
  have htemp : 0 ≤ s.tempKbdIdx ∧ s.tempKbdIdx ≤ 128 := h.temp
  unfold backspaceAccesses
  rw [IdxUse.allIn_append, IdxUse.allIn_ite, IdxUse.allIn_ite]
  refine ⟨fun hpos => IdxUse.allIn_single rfl ?_ ?_, fun hahead =>
    IdxUse.allIn_single rfl ?_ ?_⟩
  · split <;> omega
  · split <;> omega
  · omega
  · omega

theorem allIn_ctrlLAccesses : AllIn (ctrlLAccesses s) := by
  have hcursor : 0 ≤ s.keyboardCursorIdx ∧ s.keyboardCursorIdx ≤ 127 := h.cursor
  unfold ctrlLAccesses
  rw [IdxUse.allIn_append, IdxUse.allIn_append]
  exact ⟨⟨IdxUse.allIn_block_of_le rfl (by decide) (by decide),
    IdxUse.allIn_copy_of_le rfl rfl (by omega) (by omega)⟩,
    IdxUse.allIn_block_of_le rfl (by decide) (by decide)⟩

theorem allIn_typeAheadAccesses (reading : Bool) : AllIn (typeAheadAccesses s reading) := by
  have htemp : 0 ≤ s.tempKbdIdx ∧ s.tempKbdIdx ≤ 128 := h.temp
  unfold typeAheadAccesses
  rw [IdxUse.allIn_ite]
  exact fun hahead => IdxUse.allIn_single rfl htemp.1 hahead.2.1

theorem allIn_enterAccesses : AllIn (enterAccesses s) := by
  have hstop : 0 ≤ s.keyboardBufferEndIdx ∧ s.keyboardBufferEndIdx ≤ 127 := h.stop
  have hlast := (h.enter true false).last
  unfold enterAccesses
  dsimp only
  rw [IdxUse.allIn_append, IdxUse.allIn_append, IdxUse.allIn_append, IdxUse.allIn_ite,
    IdxUse.allIn_ite, IdxUse.allIn_append]
  refine ⟨⟨⟨fun hroom => ?_, fun _ => ⟨?_, ?_⟩⟩, ?_⟩, allIn_typeAheadAccesses h false⟩
  · exact IdxUse.allIn_single rfl hstop.1 (by omega)
  · exact IdxUse.allIn_block_of_le rfl (by decide) (by decide)
  · exact IdxUse.allIn_copy_of_le rfl rfl hlast.1 (hlast.2.trans (by decide))
  · exact allIn_saveCurrentAccesses (by decide) (by decide)

end

section

variable {c : Console} (h : (c.term c.visibleTerminal).lineIdx.InBounds)

include h

theorem allIn_upAccesses : AllIn c.upAccesses := by
  have hstop := h.stop
  have hlast := h.last
  unfold upAccesses
  dsimp only
  rw [IdxUse.allIn_ite, IdxUse.allIn_cons, IdxUse.allIn_ite, IdxUse.allIn_append,
    IdxUse.allIn_append]
  refine fun _ => ⟨⟨le_refl _, by decide⟩, fun _ => ⟨⟨?_, ?_⟩, ?_⟩⟩
  · exact IdxUse.allIn_block_of_le rfl hstop.1 (hstop.2.trans (by decide))
  · exact IdxUse.allIn_copy_of_le rfl rfl hlast.1 (hlast.2.trans (by decide))
  · exact allIn_writeAccesses c hlast.1 (hlast.2.trans (by decide))

theorem allIn_downAccesses : AllIn c.downAccesses := by
  have hcurrent := h.current
  unfold downAccesses
  dsimp only
  rw [IdxUse.allIn_ite, IdxUse.allIn_append, IdxUse.allIn_append]
  refine fun _ => ⟨⟨?_, ?_⟩, ?_⟩
  · exact IdxUse.allIn_block_of_le rfl (by decide) (by decide)
  · exact IdxUse.allIn_copy_of_le rfl rfl hcurrent.1
      (hcurrent.2.trans (by decide))
  · exact allIn_writeAccesses c hcurrent.1 (hcurrent.2.trans (by decide))

theorem allIn_charAccesses : AllIn c.charAccesses := by
  have hcursor := h.cursor
  have hinsert : 0 ≤ (c.term c.visibleTerminal).lineIdx.insert.cursor
      ∧ (c.term c.visibleTerminal).lineIdx.insert.cursor ≤ 128 := by
    unfold LineIdx.insert KEYBOARD_BUFFER_SIZE
    split <;> (try dsimp only) <;> omega
  unfold charAccesses
  dsimp only
  rw [IdxUse.allIn_append, IdxUse.allIn_append, IdxUse.allIn_ite, IdxUse.allIn_ite]
  refine ⟨⟨fun hroom => ?_, fun _ => ?_⟩, allIn_typeAheadAccesses h _⟩
  · exact IdxUse.allIn_single rfl hcursor.1 (lt_trans hroom (by decide))
  · exact allIn_saveCurrentAccesses hinsert.1 hinsert.2

end

/-- The table has an entry for every key up to 57, the space bar. -/
theorem scancodeIdx_inBuffer_iff (s : TermState) (pressed : Nat) :
    (⟨.scancodeToChar, scancodeIdx s pressed⟩ : IdxUse).InBuffer ↔ pressed < 58 := by
  have hsize : Buffer.scancodeToChar.size = 116 := rfl
  unfold IdxUse.InBuffer scancodeIdx
  rw [hsize]
  dsimp only
  split <;> omega

/-! ## One key -/

/-- The key puts a character into the line. -/
def TypesChar (c : Console) (pressed : Nat) : Prop :=
  c.Plain pressed ∧ pressed ≤ START_IGNORE ∧ pressed ≠ BACKSPACE ∧ pressed ≠ ENTER_PRESSED ∧
    ¬ ((c.term c.visibleTerminal).controlOn = true ∧ pressed = L_SCANCODE)

/-- The key keeps the indices in bounds: F1 comes with Alt, and at the end of the line a
backspace finds a character and a character finds room. -/
def KeyBounded (c : Console) (pressed : Nat) : Prop :=
  let s := c.term c.visibleTerminal
  (pressed = FUNCTION_ONE_PRESSED → s.altOn = true) ∧
    (pressed = BACKSPACE ∧ s.keyboardCursorIdx > 0 ∧ s.distanceFromRight = 0 →
      s.keyboardBufferEndIdx > 0) ∧
    (c.TypesChar pressed ∧ s.keyboardCursorIdx < KEYBOARD_BUFFER_SIZE - 1
      ∧ s.distanceFromRight = 0 → s.keyboardBufferEndIdx < KEYBOARD_BUFFER_SIZE - 1)

/-- A key behind the characters. -/
theorem keyBounded_of_gt (c : Console) {pressed : Nat} (h : pressed > START_IGNORE) :
    c.KeyBounded pressed := by
  refine ⟨fun hf => ?_, fun hb => ?_, fun ht => absurd ht.1.2.1 (Nat.not_le.mpr h)⟩
  · rw [hf] at h
    exact absurd h (by decide)
  · rw [hb.1] at h
    exact absurd h (by decide)

/-- Of the keys that reach the table, F1 alone is behind it; 58 is the caps lock. -/
theorem Plain.inTable_iff {c : Console} {pressed : Nat} (hp : c.Plain pressed)
    (hle : pressed ≤ START_IGNORE) :
    pressed < 58 ↔
      (pressed = FUNCTION_ONE_PRESSED → (c.term c.visibleTerminal).altOn = true) := by
  constructor
  · intro hlt heq
    rw [heq] at hlt
    exact absurd hlt (by decide)
  · intro hf
    have hone : pressed ≠ FUNCTION_ONE_PRESSED := by
      intro heq
      have hswitch := hp.switch (hf heq)
      rw [heq] at hswitch
      exact absurd hswitch (by decide)
    have hcaps : pressed ≠ CAPS_LOCK_PRESSED := by
      rintro rfl
      exact hp.modifier (by decide)
    unfold START_IGNORE at hle
    unfold CAPS_LOCK_PRESSED at hcaps
    unfold FUNCTION_ONE_PRESSED at hone
    omega

/-- **One key**, on the indices of the visible terminal. -/
theorem keyAccesses_keyLine_iff {c : Console} (h : (c.term c.visibleTerminal).lineIdx.InBounds)
    {pressed : Nat} (hp : c.Plain pressed) :
    AllIn (c.keyAccesses pressed) ∧ (c.keyLine pressed).InBounds ↔ c.KeyBounded pressed := by
  unfold keyAccesses keyLine
  dsimp only
  by_cases hup : pressed = UP_ARROW_PRESSED
  · subst hup
    rw [if_pos rfl, if_pos rfl]
    refine iff_of_true ⟨allIn_upAccesses h, ?_⟩ (keyBounded_of_gt c (by decide))
    split
    · exact h.toEnd h.last
    · exact h
  rw [if_neg hup, if_neg hup]
  by_cases hdown : pressed = DOWN_ARROW_PRESSED
  · subst hdown
    rw [if_pos rfl, if_pos rfl]
    refine iff_of_true ⟨allIn_downAccesses h, ?_⟩ (keyBounded_of_gt c (by decide))
    split
    · exact h.toEnd h.current
    · exact h
  rw [if_neg hdown, if_neg hdown]
  by_cases hback : pressed = BACKSPACE
  · subst hback
    rw [if_pos rfl, if_pos rfl, h.erase_iff]
    constructor
    · rintro ⟨_, hstop⟩
      exact ⟨fun hf => absurd hf (by decide), fun hk => hstop hk.2,
        fun ht => absurd rfl ht.1.2.2.1⟩
    · intro hk
      exact ⟨allIn_backspaceAccesses h, fun hend => hk.2.1 ⟨rfl, hend⟩⟩
  rw [if_neg hback, if_neg hback, if_neg (not_not_intro hp)]
  by_cases hignored : pressed > START_IGNORE
  · -- The two arrows, and the keys the handler ignores.
    have hnotL : ¬ ((c.term c.visibleTerminal).controlOn ∧ pressed = L_SCANCODE) := by
      rintro ⟨_, rfl⟩
      exact absurd hignored (by decide)
    rw [if_neg hnotL, if_neg hnotL, if_pos hignored, if_pos hignored]
    refine iff_of_true ⟨IdxUse.allIn_nil, ?_⟩ (keyBounded_of_gt c hignored)
    split
    · exact h.left _
    · split
      · rename_i hright
        exact h.right c.rightArrow_return hright.2.2.1
      · exact h
  have hle : pressed ≤ START_IGNORE := Nat.le_of_not_gt hignored
  have hnotLeft : ¬ (pressed = LEFT_ARROW_PRESSED ∧ (c.term c.visibleTerminal).shellFlag) := by
    rintro ⟨rfl, _⟩
    exact absurd hle (by decide)
  have hnotRight : ¬ (pressed = RIGHT_ARROW_PRESSED
      ∧ (c.term c.visibleTerminal).lineIdx.distance > 0
      ∧ (c.term c.visibleTerminal).lineIdx.cursor < KEYBOARD_BUFFER_SIZE - 1
      ∧ (c.term c.visibleTerminal).shellFlag) := by
    rintro ⟨rfl, _⟩
    exact absurd hle (by decide)
  rw [if_neg hnotLeft, if_neg hnotRight]
  by_cases hctrl : (c.term c.visibleTerminal).controlOn ∧ pressed = L_SCANCODE
  · rw [if_pos hctrl, if_pos hctrl]
    refine iff_of_true ⟨allIn_ctrlLAccesses h, h.clear⟩ ⟨fun hf => ?_, fun hk => ?_, fun ht => ?_⟩
    · rw [hctrl.2] at hf
      exact absurd hf (by decide)
    · exact absurd hk.1 hback
    · exact absurd hctrl ht.1.2.2.2.2
  rw [if_neg hctrl, if_neg hctrl, if_neg hignored, if_neg hignored, IdxUse.allIn_cons,
    scancodeIdx_inBuffer_iff]
  by_cases henter : pressed = ENTER_PRESSED
  · subst henter
    rw [if_pos rfl, if_pos rfl]
    exact iff_of_true ⟨⟨by decide, allIn_enterAccesses h⟩, h.enter _ _⟩
      ⟨fun hf => absurd hf (by decide), fun hk => absurd hk.1 (by decide),
        fun ht => absurd rfl ht.1.2.2.2.1⟩
  rw [if_neg henter, if_neg henter, h.insert_iff]
  rw [hp.inTable_iff hle]
  have htypes : c.TypesChar pressed := ⟨hp, hle, hback, henter, hctrl⟩
  constructor
  · rintro ⟨⟨hscan, _⟩, hroom⟩
    exact ⟨hscan, fun hk => absurd hk.1 hback, fun ht => hroom ht.2⟩
  · rintro ⟨hf, _, hroom⟩
    exact ⟨⟨hf, allIn_charAccesses h⟩, fun hend => hroom ⟨htypes, hend⟩⟩

/-- Keys that are no characters of their own meet the guard. -/
theorem keyBounded_of_not_plain {c : Console} {pressed : Nat} (h : ¬ c.Plain pressed) :
    c.KeyBounded pressed := by
  refine ⟨fun hf => ?_, fun hb => ?_, fun ht => absurd ht.1.1 h⟩
  · subst hf
    by_contra halt
    exact h ⟨by decide, fun hon => absurd hon halt⟩
  · rw [hb.1] at h
    exact absurd ⟨by decide, fun _ => by decide⟩ h

theorem keyAccesses_of_not_plain {c : Console} {pressed : Nat} (h : ¬ c.Plain pressed) :
    c.keyAccesses pressed = [] := by
  have hne : ∀ code, code ∉ modifierCodes → switchKey code = none → pressed ≠ code := by
    rintro code hmod hswitch rfl
    exact h ⟨hmod, fun _ => hswitch⟩
  unfold keyAccesses
  rw [if_neg (hne _ (by decide) (by decide)), if_neg (hne _ (by decide) (by decide)),
    if_neg (hne _ (by decide) (by decide)), if_pos h]

/-- With indices in bounds the stores and copies of a key other than Ctrl+L stay inside the
buffers. -/
theorem keyStays_of_inBounds {c : Console} (h : (c.term c.visibleTerminal).lineIdx.InBounds)
    {pressed : Nat}
    (hctrl : ¬ ((c.term c.visibleTerminal).controlOn = true ∧ pressed = L_SCANCODE)) :
    c.KeyStays pressed := by
  obtain ⟨hcursor, hstop, -, hlast, hcurrent⟩ := h
  unfold TermState.lineIdx at hcursor hstop hlast hcurrent
  dsimp only at hcursor hstop hlast hcurrent
  unfold KeyStays
  dsimp only
  rw [if_neg hctrl]
  unfold BackspaceStays EnterStays CharStays StoreStays fits KEYBOARD_BUFFER_SIZE
  dsimp only
  split_ifs with hup hdown hback hdist hignored henter hroom hroom
  · exact fun _ => ⟨by omega, by omega⟩
  · exact fun _ => by omega
  · exact fun _ => Or.inl (by omega)
  · exact fun _ => Or.inl (by omega)
  · exact ⟨fun _ => Or.inl (by omega), fun _ => by omega⟩
  · exact ⟨fun h => absurd h hroom, fun _ => by omega⟩
  · exact ⟨fun _ => Or.inl (by omega), fun _ => by omega⟩
  · exact ⟨fun h => absurd h hroom, fun _ => by omega⟩

/-- The indices of every terminal are in bounds. -/
def AllInBounds (c : Console) : Prop := ∀ t, (c.term t).lineIdx.InBounds

theorem inBounds_boot : TermState.boot.lineIdx.InBounds := by decide

theorem keyboardInterrupt_inBounds_iff {c : Console} (hs : AllOnScreen c) (h : AllInBounds c)
    (scancode : UInt8) :
    (AllIn (c.keyAccesses scancode.toNat) ∧
        ∀ c', c.keyboardInterrupt scancode = some c' → AllInBounds c')
      ↔ c.KeyBounded scancode.toNat := by
  by_cases hp : c.Plain scancode.toNat
  · rw [← keyAccesses_keyLine_iff (h _) hp]
    refine and_congr_right fun _ => ⟨fun hnext => ?_, fun hline c' hc' t => ?_⟩
    · by_cases hctrl : (c.term c.visibleTerminal).controlOn = true ∧ scancode.toNat = L_SCANCODE
      · have hkey : c.KeyBounded scancode.toNat := by
          rw [hctrl.2]
          exact ⟨fun hf => absurd hf (by decide), fun hb => absurd hb.1 (by decide),
            fun ht => absurd ⟨hctrl.1, rfl⟩ ht.1.2.2.2.2⟩
        exact ((keyAccesses_keyLine_iff (h _) hp).mpr hkey).2
      · obtain ⟨r, hr, hblock⟩ := block_keyboardInterrupt (hs _) hp
        obtain ⟨c₁, rfl, _⟩ := hblock.stays.mpr (keyStays_of_inBounds (h _) hctrl)
        rw [← keyboardInterrupt_lineIdx hp hr]
        exact hnext _ hr _
    · by_cases ht : t = c.visibleTerminal
      · rw [ht, keyboardInterrupt_lineIdx hp hc']
        exact hline
      · rw [keyboardInterrupt_lineIdx_ne (hs _) hc' fun heq => absurd heq ht]
        exact h t
  · rw [keyAccesses_of_not_plain hp]
    refine iff_of_true ⟨IdxUse.allIn_nil, fun c' hc' t => ?_⟩ (keyBounded_of_not_plain hp)
    rw [keyboardInterrupt_lineIdx_ne (hs _) hc' fun _ => hp]
    exact h t

/-! ## The start of a read -/

theorem loadKbd_own (c : Console) (v : Terminal) {i : Nat} (h : i < KEYBOARD_BUFFER_SIZE) :
    c.loadKbd v i = (c.term v).keyboardBuffer i := by
  have hv := v.isLt
  unfold loadKbd
  unfold KEYBOARD_BUFFER_SIZE at h ⊢
  unfold NUM_TERMINALS
  have hrow : (128 * v.val + i) / 128 = v.val := by omega
  have hcol : (128 * v.val + i) % 128 = i := by omega
  have hfin : Fin.ofNat 3 v.val = v := Fin.ext (Nat.mod_eq_of_lt hv)
  dsimp only
  rw [if_pos (by omega), hrow, hcol, hfin]

theorem length_replayed_le (s : TermState) : (replayed s).length ≤ s.tempKbdIdx.toNat :=
  ((le_length_takeWhile s.tempKbdBuf fun b => b ≠ 10).mp (le_refl _)).1

/-- Of 128 saved characters a replay prints fewer exactly if there is a newline among them. -/
theorem length_replayed_lt_iff {s : TermState} (h : s.tempKbdIdx = 128) :
    (replayed s).length < 128 ↔ ∃ i < 128, s.tempKbdBuf i = 10 := by
  rw [← not_iff_not, Nat.not_lt]
  refine (le_length_takeWhile s.tempKbdBuf fun b => b ≠ 10).trans ?_
  rw [h]
  simp

/-- The byte behind the printed characters is a newline exactly if not all were printed. -/
theorem replayByte_eq_iff {c : Console}
    (hlen : (replayed (c.term c.processTerminal)).length < KEYBOARD_BUFFER_SIZE) :
    c.replayByte = 10 ↔ (replayed (c.term c.processTerminal)).length
      < (c.term c.processTerminal).tempKbdIdx.toNat := by
  generalize hs : c.term c.processTerminal = s at *
  have hle := length_replayed_le s
  -- The cleared row with the saved characters over it.
  have hbyte : c.replayByte = overlay (overlay s.keyboardBuffer 0 KEYBOARD_BUFFER_SIZE fun _ => 0)
      0 s.tempKbdIdx.toNat s.tempKbdBuf (replayed s).length := by
    unfold replayByte
    dsimp only
    rw [hs, show replayed (clearLine s) = replayed s from rfl, loadKbd_own _ _ hlen]
    have hline := putcs_sameLine (((c.modify c.processTerminal clearLine).modify
      c.processTerminal restoreLine)) (replayed s) c.processTerminal
    unfold SameLine at hline
    rw [← congrArg TermState.keyboardBuffer hline, modify_term_self, modify_term_self, hs]
    rfl
  rw [hbyte]
  by_cases hlt : (replayed s).length < s.tempKbdIdx.toNat
  · refine iff_of_true ?_ hlt
    rw [overlay_in _ _ (Nat.zero_le _) (by omega), Nat.sub_zero]
    by_contra hne
    have hpass := ((le_length_takeWhile s.tempKbdBuf fun b => b ≠ 10).mp
      (le_refl (replayed s).length)).2
    have hmore : (replayed s).length + 1 ≤ (replayed s).length := by
      refine (le_length_takeWhile s.tempKbdBuf fun b => b ≠ 10).mpr ⟨hlt, fun i hi => ?_⟩
      rcases Nat.lt_succ_iff_lt_or_eq.mp hi with hi | rfl
      · exact hpass i hi
      · exact decide_eq_true hne
    omega
  · refine iff_of_false ?_ hlt
    rw [overlay_out _ _ (by omega), overlay_in _ _ (Nat.zero_le _) (by omega)]
    decide

/-- A read that puts back 128 characters finds a newline among them. -/
def ReadBounded (c : Console) : Prop :=
  let s := c.term c.processTerminal
  replays s = true → s.tempKbdIdx = 128 → ∃ i < 128, s.tempKbdBuf i = 10

/-- The accesses of a read decide whether it meets the guard. -/
theorem allIn_readAccesses_iff {c : Console} (h : AllInBounds c) :
    AllIn c.readAccesses ↔ c.ReadBounded := by
  generalize hs : c.term c.processTerminal = s
  have htemp : 0 ≤ s.tempKbdIdx ∧ s.tempKbdIdx ≤ 128 := hs ▸ (h c.processTerminal).temp
  have hle := length_replayed_le s
  have hlen : (replayed s).length < 128 ↔
      (s.tempKbdIdx = 128 → ∃ i < 128, s.tempKbdBuf i = 10) := by
    constructor
    · intro hlen heq
      exact (length_replayed_lt_iff heq).mp hlen
    · intro hfull
      by_cases heq : s.tempKbdIdx = 128
      · exact (length_replayed_lt_iff heq).mpr (hfull heq)
      · omega
  unfold readAccesses ReadBounded
  dsimp only
  rw [hs, IdxUse.allIn_append, IdxUse.allIn_ite, IdxUse.allIn_append, IdxUse.allIn_append,
    IdxUse.allIn_append, IdxUse.allIn_span, ← hlen]
  constructor
  · rintro ⟨_, hr⟩ hreplay
    exact Int.ofNat_le.mp (hr hreplay).1.2
  · intro hr
    refine ⟨IdxUse.allIn_block_of_le rfl (by decide) (by decide),
      fun hreplay => ⟨⟨⟨?_, ?_⟩, ?_⟩, ?_⟩⟩
    · exact IdxUse.allIn_copy_of_le rfl rfl htemp.1 htemp.2
    · exact IdxUse.allIn_copy_of_le rfl rfl htemp.1 htemp.2
    · exact Int.ofNat_le.mpr (hr hreplay)
    · exact IdxUse.allIn_block_of_le rfl (by decide) (by decide)

theorem readTerminalStart_inBounds {c c' : Console} (h : AllInBounds c)
    (hacc : AllIn c.readAccesses) (hc' : c.readTerminalStart = some c') : AllInBounds c' := by
  intro t
  rw [readTerminalStart_lineIdx hc']
  split
  · rename_i hr
    obtain ⟨rfl, hr⟩ := hr
    have hlen : (replayed (c.term c.processTerminal)).length < KEYBOARD_BUFFER_SIZE := by
      unfold readAccesses at hacc
      dsimp only at hacc
      rw [IdxUse.allIn_append, IdxUse.allIn_ite, IdxUse.allIn_append, IdxUse.allIn_append,
        IdxUse.allIn_span] at hacc
      exact Int.ofNat_le.mp (hacc.2 hr).1.2
    have hnewline := replayByte_eq_iff hlen
    unfold KEYBOARD_BUFFER_SIZE at hlen
    refine ((h c.processTerminal).replay_iff fun hten => ?_).mpr fun hten => ?_
    · have hsome := hnewline.mp (of_decide_eq_true hten)
      show 0 < (c.term c.processTerminal).tempKbdIdx
      omega
    · have hnone := mt hnewline.mpr (of_decide_eq_false hten)
      show (c.term c.processTerminal).tempKbdIdx ≤ 127
      omega
  · exact h t

/-! ## The end of a read -/

/-- The reader asks for fewer than 128 characters or finds the end of the line in the row. -/
def ResumeBounded (c : Console) (n : Nat) : Prop :=
  n < 128 ∨ ∃ i < 128, (c.term c.processTerminal).keyboardBuffer i = 0 ∨
    (c.term c.processTerminal).keyboardBuffer i = 10

theorem allIn_resumeAccesses_iff (c : Console) (n : Nat) :
    AllIn (c.resumeAccesses n) ↔ c.ResumeBounded n := by
  generalize hkb : (c.term c.processTerminal).keyboardBuffer = kb
  unfold resumeAccesses ResumeBounded
  rw [IdxUse.allIn_span, hkb]
  have hlen : 128 ≤ (line kb n).length ↔ 128 ≤ n ∧ ∀ i < 128, kb i ≠ 0 ∧ kb i ≠ 10 := by
    refine (le_length_takeWhile kb fun b => b ≠ 0 ∧ b ≠ 10).trans ?_
    simp only [decide_eq_true_eq]
  have hsize : (((line kb n).length + 1 : Nat) : Int) ≤ Buffer.keyboardBuffer.size ↔
      ¬ 128 ≤ (line kb n).length := by
    show (((line kb n).length + 1 : Nat) : Int) ≤ ((128 : Nat) : Int) ↔ _
    omega
  rw [hsize, hlen, not_and_or, Nat.not_le]
  refine or_congr_right ⟨fun hnot => ?_, ?_⟩
  · by_contra hno
    refine hnot fun i hi => ⟨fun hnul => hno ⟨i, hi, Or.inl hnul⟩, fun hten => hno ⟨i, hi, ?_⟩⟩
    exact Or.inr hten
  · rintro ⟨i, hi, hnul | hten⟩ hall
    · exact (hall i hi).1 hnul
    · exact (hall i hi).2 hten

end Console

namespace Kernel

open Console (AllInBounds AllOnScreen)

/-! ## Events -/

/-- The indices that `keyboard_interrupt` and `_sys_read_terminal` use in the step are inside
their buffers. A reader resumes when its flag has been cleared. -/
def AccessesInBuffer (k : Kernel) : Event → Prop
  | .keyboard scancode => IdxUse.AllIn (k.console.keyAccesses scancode.toNat)
  | .read _ fd bufNull nbytes =>
      k.ReadsTerminal fd bufNull nbytes → IdxUse.AllIn k.console.readAccesses
  | .resumeTerminal n => (k.console.term k.console.processTerminal).sysReadFlag = false →
      IdxUse.AllIn (k.console.resumeAccesses n)
  | _ => True

/-- The event keeps the indices in bounds. -/
def KeepsBounds (k : Kernel) : Event → Prop
  | .keyboard scancode => k.console.KeyBounded scancode.toNat
  | .read _ fd bufNull nbytes => k.ReadsTerminal fd bufNull nbytes → k.console.ReadBounded
  | .resumeTerminal n => (k.console.term k.console.processTerminal).sysReadFlag = false →
      k.console.ResumeBounded n
  | _ => True

theorem step_inBounds_iff {fs : FileSys} {k : Kernel} {e : Event} (hs : AllOnScreen k.console)
    (hk : AllInBounds k.console) :
    (AccessesInBuffer k e ∧ ∀ k', step fs k e = some k' → AllInBounds k'.console)
      ↔ KeepsBounds k e := by
  cases e with
  | keyboard scancode =>
      refine Iff.trans (and_congr_right fun _ => ?_)
        (Console.keyboardInterrupt_inBounds_iff hs hk scancode)
      constructor
      · intro hnext c' hc'
        exact hnext { k with console := c' } (Option.map_eq_some_iff.mpr ⟨c', hc', rfl⟩)
      · intro hnext k' hk'
        obtain ⟨c', hc', rfl⟩ := Option.map_eq_some_iff.mp hk'
        exact hnext c' hc'
  | read stack fd bufNull nbytes =>
      have hread := Console.allIn_readAccesses_iff hk
      refine (and_iff_left_of_imp fun hacc k' hk' => ?_).trans (imp_congr_right fun _ => hread)
      obtain ⟨⟨r, k₁⟩, hr, rfl⟩ := Option.map_eq_some_iff.mp hk'
      by_cases hterm : k.ReadsTerminal fd bufNull nbytes
      · exact Console.readTerminalStart_inBounds hk (hacc hterm) (sysRead_terminal hr hterm)
      · show AllInBounds k₁.console
        rw [sysRead_not_terminal hr hterm]
        exact hk
  | resumeTerminal n =>
      refine (and_iff_left fun k' hk' => ?_).trans (imp_congr_right fun _ => ?_)
      · obtain ⟨_, _, rfl⟩ := Option.map_eq_some_iff.mp hk'
        exact hk
      · exact Console.allIn_resumeAccesses_iff k.console n
  | switch n =>
      refine iff_of_true ⟨trivial, fun k' hk' t => ?_⟩ trivial
      have hc : k'.console = k.console.switchTerminal n := step_console hk'
      rw [hc, Console.switchTerminal_term]
      exact hk t
  | _ =>
      refine iff_of_true ⟨trivial, fun k' hk' t => ?_⟩ trivial
      rw [Console.Background.lineIdx (step_console hk')]
      exact hk t

/-- **Keyboard indices in bounds.** In every run of the kernel all indices of all terminals stay
in bounds and every index that the handler and the reader use is inside its buffer, exactly if
F1 comes with Alt only, at the end of the line every backspace finds a character and every
character finds room, and no reader meets 128 characters without an end. -/
theorem inBounds_iff_keepsBounds (fs : FileSys) (m : BootMemory) (es : List Event) :
    StepSystem.Along (step fs) (fun k => AllInBounds k.console) (boot m) es ∧
        StepSystem.Guarded (step fs) AccessesInBuffer (boot m) es
      ↔ StepSystem.Guarded (step fs) KeepsBounds (boot m) es := by
  refine StepSystem.along_and_guarded_iff (P := fun k : Kernel => AllOnScreen k.console) ?_ ?_ ?_ ?_
  · exact fun _ _ _ hs hstep => step_allOnScreen hs hstep
  · exact fun _ _ hs hk => step_inBounds_iff hs hk
  · exact fun _ => Console.onScreen_boot
  · exact fun _ => Console.inBounds_boot

/-- Ctrl+L inside the line, then a letter and a backspace: the end of the line goes below
zero. -/
theorem end_index_below_zero : ¬ ∀ (fs : FileSys) (k : Kernel), Reachable fs k →
    AllInBounds k.console ∧ ∀ e, AccessesInBuffer k e := by
  intro hall
  have hidx : (StepSystem.run (step sampleImage) (boot zeroMemory) (leftRun ++ [.keyboard 0x1D,
      .keyboard 0x26, .keyboard 0x9D, .keyboard 0x1E, .keyboard 0x0E])).map
        (fun k => (k.console.term 1).lineIdx.stop) = some (-1) := by decide +kernel
  obtain ⟨k, hk, hval⟩ := Option.map_eq_some_iff.mp hidx
  have hstop := ((hall sampleImage k ⟨zeroMemory, _, hk⟩).1 1).stop
  rw [hval] at hstop
  exact absurd hstop.1 (by decide)

end Kernel

end Ext2Kernel
