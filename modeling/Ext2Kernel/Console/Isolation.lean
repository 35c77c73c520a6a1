import Ext2Kernel.Console.KeyboardSpec

set_option autoImplicit false

/-! # Isolation of the terminals

A key typed on the visible terminal changes the variables of no other terminal exactly if the
stores and copies it makes stay inside the buffers of the visible terminal, and Ctrl+L finds
nothing in row 0 (`KeyStays`). How the visible terminal reacts depends on no other terminal,
but on two variables that all terminals share.
-/

namespace Ext2Kernel

open ByteMem

namespace Console

/-! ## Blocks of the handler -/

/-- The result is defined, and the other terminals have the variables they have in `c`. -/
def Stays (c : Console) (r : Option Console) : Prop := ∃ c', r = some c' ∧ OthersSame c c'

/-- A block that changes nothing of the other terminals, and is defined exactly if `p`. -/
structure LocalIff (c : Console) (p : Prop) (r : Option Console) : Prop where
  defined : p → ∃ c', r = some c'
  only : ∀ c', r = some c' → p ∧ Local c c'

/-- A block that keeps the variables of the other terminals exactly if `p`, and never changes
more of them than `keyboard_buffer`. -/
structure Block (c : Console) (p : Prop) (r : Option Console) : Prop where
  stays : Stays c r ↔ p
  steady : ∀ c', r = some c' → Steady c c'

theorem LocalIff.of_local {c c' : Console} (h : Local c c') : LocalIff c True (some c') :=
  ⟨fun _ => ⟨c', rfl⟩, fun _ heq => by cases heq; exact ⟨trivial, h⟩⟩

theorem LocalIff.block {c : Console} {p : Prop} {r : Option Console} (h : LocalIff c p r) :
    Block c p r where
  stays := by
    constructor
    · rintro ⟨c', hc', _⟩
      exact (h.only c' hc').1
    · intro hp
      obtain ⟨c', hc'⟩ := h.defined hp
      exact ⟨c', hc', (h.only c' hc').2.same⟩
  steady c' hc' := (h.only c' hc').2.toSteady

theorem Block.congr {c : Console} {p q : Prop} {r : Option Console} (h : Block c p r)
    (hpq : p ↔ q) : Block c q r := ⟨h.stays.trans hpq, h.steady⟩

/-- A block after another. -/
theorem Block.bind {c : Console} {p q : Prop} {r : Option Console}
    {f : Console → Option Console} (h : Block c p r)
    (hf : ∀ c', r = some c' → LocalIff c' q (f c')) : Block c (p ∧ q) (r.bind f) where
  stays := by
    rw [← h.stays]
    constructor
    · rintro ⟨c'', hc'', hsame⟩
      obtain ⟨c', hc', hf'⟩ := Option.bind_eq_some_iff.mp hc''
      obtain ⟨hq, hlocal⟩ := (hf c' hc').only c'' hf'
      have hv := (h.steady c' hc').visible
      refine ⟨⟨c', hc', fun t ht => ?_⟩, hq⟩
      rw [← hsame t ht]
      exact (hlocal.same t (by rw [hv]; exact ht)).symm
    · rintro ⟨⟨c', hc', hsame⟩, hq⟩
      obtain ⟨c'', hc''⟩ := (hf c' hc').defined hq
      have hlocal := ((hf c' hc').only c'' hc'').2
      exact ⟨c'', Option.bind_eq_some_iff.mpr ⟨c', hc', hc''⟩,
        hsame.trans hlocal.same (h.steady c' hc').visible⟩
  steady c'' hc'' := by
    obtain ⟨c', hc', hf'⟩ := Option.bind_eq_some_iff.mp hc''
    exact (h.steady c' hc').trans ((hf c' hc').only c'' hf').2.toSteady

/-- A total block after another. -/
theorem Block.map {c : Console} {p : Prop} {r : Option Console} {f : Console → Console}
    (h : Block c p r) (hf : ∀ c', r = some c' → Local c' (f c')) : Block c p (r.map f) := by
  rw [Option.map_eq_bind]
  refine Block.congr (Block.bind (q := True) h fun c' hc' => ?_) (and_iff_left trivial)
  exact .of_local (hf c' hc')

/-- A block that starts with a total one. -/
theorem Block.of_local {c c' : Console} {p : Prop} {r : Option Console} (h : Local c c')
    (hr : Block c' p r) : Block c p r where
  stays := by
    rw [← hr.stays]
    constructor
    · rintro ⟨c'', hc'', hsame⟩
      refine ⟨c'', hc'', fun t ht => ?_⟩
      rw [h.visible] at ht
      rw [hsame t ht, h.same t ht]
    · rintro ⟨c'', hc'', hsame⟩
      exact ⟨c'', hc'', OthersSame.trans h.same hsame h.visible⟩
  steady c'' hc'' := h.toSteady.trans (hr.steady c'' hc'')

theorem block_storeKbd {c : Console} (hc : Ready c) (i : Int) (b : UInt8) :
    Block c (c.StoreStays i b) (c.storeKbd c.visibleTerminal i b) :=
  ⟨storeKbd_stays_iff c i b, fun _ h => steady_storeKbd hc h⟩

/-- Whether a store stays in the row does not depend on the visible terminal's variables. -/
theorem Local.storeStays {c c' : Console} (h : Local c c') (i : Int) (b : UInt8) :
    c'.StoreStays i b ↔ c.StoreStays i b := by
  unfold StoreStays
  rw [h.visible]
  refine or_congr Iff.rfl (exists_congr fun t => exists_congr fun j => ?_)
  refine and_congr_right fun ht => ?_
  rw [h.same t ht]

/-! ## The keys -/

theorem localIff_upArrow {c : Console} (hc : Ready c) :
    LocalIff c (c.Recalls → fits (c.term c.visibleTerminal).keyboardBufferEndIdx
      ∧ fits (c.term c.visibleTerminal).lastBufIndex) c.upArrow where
  defined h := by
    obtain ⟨c', hc', _⟩ := upArrow_local hc h
    exact ⟨c', hc'⟩
  only c' h := by
    have hfits := upArrow_fits hc h
    obtain ⟨c'', hc'', hlocal⟩ := upArrow_local hc hfits
    rw [h] at hc''
    cases hc''
    exact ⟨hfits, hlocal⟩

theorem localIff_downArrow {c : Console} (hc : Ready c) :
    LocalIff c ((c.term c.visibleTerminal).shellFlag = true →
      fits (c.term c.visibleTerminal).currentBufIndex) c.downArrow where
  defined h := by
    obtain ⟨c', hc', _⟩ := downArrow_local hc h
    exact ⟨c', hc'⟩
  only c' h := by
    have hfits := downArrow_fits hc h
    obtain ⟨c'', hc'', hlocal⟩ := downArrow_local hc hfits
    rw [h] at hc''
    cases hc''
    exact ⟨hfits, hlocal⟩

/-- The line buffer store of the backspace key. -/
def BackspaceStays (c : Console) : Prop :=
  let s := c.term c.visibleTerminal
  s.keyboardCursorIdx > 0 →
    if s.distanceFromRight = 0 then c.StoreStays s.keyboardCursorIdx 0
    else c.StoreStays (s.keyboardCursorIdx - 1) 32

/-- A store into the line and a change of the visible terminal's variables. -/
theorem block_storeKbd_modify {c : Console} (hc : Ready c) (i : Int) (b : UInt8)
    {f : TermState → TermState} (hf : ∀ s, OnScreen s → OnScreen (f s)) :
    Block c (c.StoreStays i b) ((c.storeKbd c.visibleTerminal i b).map fun c' =>
      c'.modify c.visibleTerminal f) := by
  refine Block.map (block_storeKbd hc i b) fun c' hc' => ?_
  have hs := steady_storeKbd hc hc'
  exact local_modify (hs.ready hc) hs.visible hf

theorem block_backspaceLine {c : Console} (hc : Ready c) :
    Block c c.BackspaceStays c.backspaceLine := by
  unfold backspaceLine BackspaceStays
  dsimp only
  by_cases hpos : (c.term c.visibleTerminal).keyboardCursorIdx > 0
  · rw [forall_prop_of_true hpos]
    by_cases hd : (c.term c.visibleTerminal).distanceFromRight = 0
    · rw [if_pos hd, if_pos ⟨hpos, hd⟩]
      refine block_storeKbd_modify hc _ _ ?_
      exact fun _ h => h
    · rw [if_neg hd, if_neg fun h => hd h.2, if_pos hpos]
      refine block_storeKbd_modify hc _ _ ?_
      exact fun _ h => h
  · rw [if_neg (show ¬ (_ ∧ _) from fun h => hpos h.1), if_neg hpos]
    exact (LocalIff.of_local (.refl hc)).block.congr ⟨fun _ h => absurd h hpos, fun _ => trivial⟩

theorem onScreen_backspaceAhead {s : TermState} (h : OnScreen s) :
    OnScreen (backspaceAhead s) := by
  unfold backspaceAhead
  split <;> exact h

theorem block_backspace {c : Console} (hc : Ready c) :
    Block c c.BackspaceStays
      (c.backspace.backspaceLine.map fun c => c.modify c.visibleTerminal backspaceAhead) := by
  have h := local_backspace hc
  have hline := block_backspaceLine (h.ready hc)
  refine Block.of_local h (Block.congr (Block.map hline fun c' hc' => ?_) ?_)
  · exact local_modify ((hline.steady c' hc').ready (h.ready hc)) rfl fun _ hs =>
      onScreen_backspaceAhead hs
  · have hsame := (drawn_backspace c).line
    unfold SameLine at hsame
    unfold BackspaceStays
    dsimp only
    rw [h.visible, hsame]
    simp only [h.storeStays]

theorem backspaceKey_eq (c : Console) :
    c.backspaceKey = (c.backspace.backspaceLine.map fun c =>
      c.modify c.visibleTerminal backspaceAhead).map leave := by
  unfold backspaceKey
  rw [Option.map_map]
  rfl

theorem local_leftArrowKey {c : Console} (hc : Ready c) :
    ∃ c', c.leftArrowKey = c'.leave ∧ Local c c' := by
  unfold leftArrowKey
  dsimp only
  split
  · refine ⟨_, rfl, Local.modify (local_leftArrow hc) hc ?_⟩
    exact fun _ h => h
  · exact ⟨c, rfl, .refl hc⟩

theorem local_rightArrowKey {c : Console} (hc : Ready c) :
    ∃ c', c.rightArrowKey = c'.leave ∧ Local c c' := by
  refine ⟨_, rfl, Local.modify (local_rightArrow hc) hc ?_⟩
  exact fun _ h => h

/-- What `clear` does to the variables of a terminal. -/
theorem clear_term (c : Console) (t : Terminal) :
    c.clear.term t =
      { c.term t with
        screenY := if t = c.visibleTerminal then 0 else (c.term t).screenY
        screenX := if t = c.visibleTerminal then 0 else (c.term t).screenX
        keyboardBuffer := if t = 0 then overlay (c.term t).keyboardBuffer 0
          KEYBOARD_BUFFER_SIZE (fun _ => 0) else (c.term t).keyboardBuffer } := by
  unfold clear
  dsimp only
  by_cases h₀ : t = 0
  · subst h₀
    rw [modify_term_self]
    by_cases hv : 0 = c.visibleTerminal
    · simp only [hv, if_true, modify_term_self]
    · simp only [hv, if_true, if_false, modify_term_ne _ _ _ hv]
  · rw [modify_term_ne _ _ _ h₀]
    by_cases hv : t = c.visibleTerminal
    · simp only [hv, if_true, modify_term_self, hv ▸ h₀, if_false]
    · simp only [hv, h₀, if_false, modify_term_ne _ _ _ hv]

/-- `clear` touches the row of terminal 0 whichever terminal is visible. -/
theorem block_clear (c : Console) :
    Block c (c.visibleTerminal = 0 ∨
      ∀ i < KEYBOARD_BUFFER_SIZE, (c.term 0).keyboardBuffer i = 0) (some c.clear) where
  stays := by
    have hrow := overlay_eq_self_iff (m := (c.term 0).keyboardBuffer) (a := 0)
      (n := KEYBOARD_BUFFER_SIZE) (f := fun _ => 0)
    simp only [Nat.zero_add] at hrow
    rw [← hrow]
    constructor
    · rintro ⟨c', hc', hsame⟩
      cases hc'
      by_cases hv : c.visibleTerminal = 0
      · exact Or.inl hv
      · have hterm := hsame 0 (Ne.symm hv)
        rw [clear_term] at hterm
        exact Or.inr (congrArg TermState.keyboardBuffer hterm)
    · intro h
      refine ⟨_, rfl, fun t ht => ?_⟩
      rw [clear_term, if_neg ht, if_neg ht]
      by_cases h₀ : t = 0
      · subst h₀
        rcases h with hv | hrow₀
        · exact absurd hv.symm ht
        · rw [if_pos rfl, hrow₀]
      · rw [if_neg h₀]
  steady c' hc' := by
    cases hc'
    refine ⟨rfl, rfl, rfl, rfl, rfl, fun t ht => ?_, fun a ha => ?_, ?_⟩
    · exact ⟨(c.clear.term t).keyboardBuffer, by rw [clear_term, if_neg ht, if_neg ht]⟩
    · unfold PAGE_4KB at ha
      unfold clear
      rw [modify_video, modify_video]
      exact if_neg (by unfold NUM_ROWS NUM_COLS; omega)
    · rw [clear_term, if_pos rfl, if_pos rfl]
      exact ⟨Nat.zero_lt_succ 24, Nat.zero_le NUM_COLS⟩

/-- Ctrl+L: the line fits the type-ahead buffer, and the clearing finds nothing in the row of
another terminal. -/
def CtrlLStays (c : Console) : Prop :=
  fits (c.term c.visibleTerminal).keyboardCursorIdx ∧
    (c.visibleTerminal = 0 ∨ ∀ i < KEYBOARD_BUFFER_SIZE, (c.term 0).keyboardBuffer i = 0)

theorem block_ctrlL {c : Console} (hc : Ready c) :
    ∃ r, c.ctrlL = r.map leave ∧ Block c c.CtrlLStays r := by
  unfold ctrlL CtrlLStays
  dsimp only
  by_cases hfits : fits (c.term c.visibleTerminal).keyboardCursorIdx
  · rw [if_pos hfits]
    refine ⟨some _, rfl, ?_⟩
    have h₁ : Local c (c.modify c.visibleTerminal fun s =>
        { s with
          tempKbdBuf := freshCopy s.keyboardBuffer s.keyboardCursorIdx
          tempKbdIdx := s.keyboardCursorIdx }) := by
      refine local_modify hc rfl ?_
      exact fun _ h => h
    have hclear := block_clear (c.modify c.visibleTerminal fun s =>
        { s with
          tempKbdBuf := freshCopy s.keyboardBuffer s.keyboardCursorIdx
          tempKbdIdx := s.keyboardCursorIdx })
    have hs := hclear.steady _ rfl
    refine Block.congr (Block.of_local h₁ (Block.map (f := fun c' => c'.modify c.visibleTerminal _)
      hclear fun c' hc' => ?_)) ?_
    · cases hc'
      refine local_modify (hs.ready (h₁.ready hc)) hs.visible ?_
      exact fun _ h => h
    · rw [and_iff_right hfits, h₁.visible]
      refine or_congr_right' fun hv => ?_
      rw [h₁.same 0 (Ne.symm hv)]
  · rw [if_neg hfits]
    refine ⟨none, rfl, ⟨?_, ?_⟩, fun c' hc' => by cases hc'⟩
    · rintro ⟨c', hc', _⟩
      cases hc'
    · exact fun h => absurd h.1 hfits

/-! ## Characters and Enter -/

theorem onScreen_echoOff {s : TermState} (h : OnScreen s) : OnScreen (echoOff s) := by
  obtain ⟨b, hb⟩ := echoOff_eq s
  rw [hb]
  exact h

theorem onScreen_typeAhead {s : TermState} (ch : UInt8) (h : OnScreen s) :
    OnScreen (typeAhead s ch) := by
  unfold typeAhead
  split <;> exact h

theorem local_echo {c : Console} (hc : Ready c) (ch : UInt8) : Local c (c.echo ch) := by
  unfold echo
  split
  · exact local_putc hc ch
  · exact .refl hc

/-- The handler from the echo on, before it leaves. -/
def finish (c : Console) (v : Terminal) (ch : UInt8) : Console :=
  (((c.echo ch).modify v fun s => typeAhead s ch).wraparound).scrollDown

theorem local_finish {c : Console} {v : Terminal} (hc : Ready c) (hv : c.visibleTerminal = v)
    (ch : UInt8) : Local c (c.finish v ch) := by
  subst hv
  have h := (local_echo hc ch).modify hc (f := fun s => typeAhead s ch) fun _ hs =>
    onScreen_typeAhead ch hs
  exact h.trans (local_wrap_scroll (h.ready hc))

theorem localIff_saveCurrent {c : Console} (hc : Ready c) :
    LocalIff c (c.notInPrevCmdFlag = true → fits (c.term c.visibleTerminal).keyboardCursorIdx)
      c.saveCurrent := by
  unfold saveCurrent
  dsimp only
  split
  · rename_i hflag
    split
    · rename_i hfits
      refine ⟨fun _ => ⟨_, rfl⟩, fun c' hc' => ⟨fun _ => hfits, ?_⟩⟩
      cases hc'
      refine local_modify hc rfl ?_
      exact fun _ h => h
    · rename_i hfits
      exact ⟨fun h => absurd (h hflag) hfits, fun c' hc' => by cases hc'⟩
  · rename_i hflag
    refine ⟨fun _ => ⟨c, rfl⟩, fun c' hc' => ⟨fun h => absurd h hflag, ?_⟩⟩
    cases hc'
    exact .refl hc

/-- A character other than Enter: its store, and the copy for the down arrow. -/
def CharStays (c : Console) (ch : UInt8) : Prop :=
  let i := (c.term c.visibleTerminal).keyboardCursorIdx
  (i < KEYBOARD_BUFFER_SIZE - 1 → c.StoreStays i ch) ∧
    (c.notInPrevCmdFlag = true → fits (if i < KEYBOARD_BUFFER_SIZE - 1 then i + 1 else i))

/-- Enter: its store, and the copy of the command of a shell. -/
def EnterStays (c : Console) (ch : UInt8) : Prop :=
  let s := c.term c.visibleTerminal
  let i := s.keyboardBufferEndIdx
  (i < KEYBOARD_BUFFER_SIZE → c.StoreStays i ch) ∧
    (s.shellFlag = true → fits (if i < KEYBOARD_BUFFER_SIZE then i else i - 1))

theorem insertChar_enter (c : Console) (ch : UInt8) : c.insertChar ENTER_PRESSED ch = some c := by
  unfold insertChar
  rw [if_neg fun h => h.2 rfl]

theorem enterKey_char (c : Console) {pressed : Nat} (h : pressed ≠ ENTER_PRESSED) (ch : UInt8) :
    c.enterKey pressed ch = some c := if_neg h

/-- What `insertChar` does to the variables the rest of the handler reads. -/
theorem insertChar_cursor {c c' : Console} {pressed : Nat} {ch : UInt8}
    (hp : pressed ≠ ENTER_PRESSED) (h : c.insertChar pressed ch = some c') :
    (c'.term c.visibleTerminal).keyboardCursorIdx =
      (if (c.term c.visibleTerminal).keyboardCursorIdx < KEYBOARD_BUFFER_SIZE - 1
        then (c.term c.visibleTerminal).keyboardCursorIdx + 1
        else (c.term c.visibleTerminal).keyboardCursorIdx) ∧
      c'.notInPrevCmdFlag = c.notInPrevCmdFlag := by
  unfold insertChar at h
  dsimp only at h
  by_cases hi : (c.term c.visibleTerminal).keyboardCursorIdx < KEYBOARD_BUFFER_SIZE - 1
  · rw [if_pos ⟨hi, hp⟩] at h
    obtain ⟨c₁, hc₁, rfl⟩ := Option.map_eq_some_iff.mp h
    obtain ⟨kb, hkb⟩ := storeKbd_term hc₁ c.visibleTerminal
    rw [modify_term_self, hkb, if_pos hi]
    exact ⟨rfl, (modify_notInPrevCmdFlag ..).trans (storeKbd_notInPrevCmdFlag hc₁)⟩
  · rw [if_neg fun h => hi h.1] at h
    cases h
    exact ⟨(if_neg hi).symm, rfl⟩

theorem block_insertChar {c : Console} (hc : Ready c) {pressed : Nat}
    (hp : pressed ≠ ENTER_PRESSED) (ch : UInt8) :
    Block c ((c.term c.visibleTerminal).keyboardCursorIdx < KEYBOARD_BUFFER_SIZE - 1 →
      c.StoreStays (c.term c.visibleTerminal).keyboardCursorIdx ch) (c.insertChar pressed ch) := by
  unfold insertChar
  dsimp only
  by_cases hi : (c.term c.visibleTerminal).keyboardCursorIdx < KEYBOARD_BUFFER_SIZE - 1
  · rw [if_pos ⟨hi, hp⟩, forall_prop_of_true hi]
    refine block_storeKbd_modify hc _ _ ?_
    exact fun _ h => h
  · rw [if_neg fun h => hi h.1]
    exact (LocalIff.of_local (.refl hc)).block.congr ⟨fun _ h => absurd h hi, fun _ => trivial⟩

/-- A character other than Enter. -/
theorem block_char {c : Console} (hc : Ready c) {pressed : Nat} (hp : pressed ≠ ENTER_PRESSED)
    (ch : UInt8) (v : Terminal) (hv : c.visibleTerminal = v) :
    Block c (c.CharStays ch) ((c.insertChar pressed ch).bind fun c =>
      (c.enterKey pressed ch).bind fun c => c.saveCurrent.map fun c => c.finish v ch) := by
  have hins := block_insertChar hc hp ch
  refine Block.bind hins fun c' hc' => ?_
  have hs := hins.steady c' hc'
  have hr := hs.ready hc
  obtain ⟨hcursor, hflag⟩ := insertChar_cursor hp hc'
  rw [enterKey_char c' hp ch, Option.bind_some]
  have hsave := localIff_saveCurrent hr
  rw [hs.visible, hcursor, hflag] at hsave
  refine ⟨fun h => ?_, fun c'' hc'' => ?_⟩
  · obtain ⟨c₁, hc₁⟩ := hsave.defined h
    exact ⟨_, Option.map_eq_some_iff.mpr ⟨c₁, hc₁, rfl⟩⟩
  · obtain ⟨c₁, hc₁, rfl⟩ := Option.map_eq_some_iff.mp hc''
    obtain ⟨hfits, hlocal⟩ := hsave.only c₁ hc₁
    refine ⟨hfits, hlocal.trans (local_finish (hlocal.ready hr) ?_ ch)⟩
    rw [hlocal.visible, hs.visible, hv]

theorem block_endLine {c : Console} (hc : Ready c) (ch : UInt8) :
    Block c ((c.term c.visibleTerminal).keyboardBufferEndIdx < KEYBOARD_BUFFER_SIZE →
      c.StoreStays (c.term c.visibleTerminal).keyboardBufferEndIdx ch) (c.endLine ch) := by
  unfold endLine
  dsimp only
  by_cases hi : (c.term c.visibleTerminal).keyboardBufferEndIdx < KEYBOARD_BUFFER_SIZE
  · rw [if_pos hi, forall_prop_of_true hi]
    refine block_storeKbd_modify hc _ _ ?_
    exact fun _ h => h
  · rw [if_neg hi]
    exact (LocalIff.of_local (.refl hc)).block.congr ⟨fun _ h => absurd h hi, fun _ => trivial⟩

/-- What `endLine` does to the variables the rest of Enter reads. -/
theorem endLine_end {c c' : Console} {ch : UInt8} (h : c.endLine ch = some c') :
    (c'.term c.visibleTerminal).keyboardBufferEndIdx - 1 =
      (if (c.term c.visibleTerminal).keyboardBufferEndIdx < KEYBOARD_BUFFER_SIZE
        then (c.term c.visibleTerminal).keyboardBufferEndIdx
        else (c.term c.visibleTerminal).keyboardBufferEndIdx - 1) ∧
      (c'.term c.visibleTerminal).shellFlag = (c.term c.visibleTerminal).shellFlag := by
  unfold endLine at h
  dsimp only at h
  split at h
  · rename_i hi
    obtain ⟨c₁, hc₁, rfl⟩ := Option.map_eq_some_iff.mp h
    obtain ⟨kb, hkb⟩ := storeKbd_term hc₁ c.visibleTerminal
    rw [modify_term_self, hkb, if_pos hi]
    exact ⟨Int.add_sub_cancel .., rfl⟩
  · rename_i hi
    cases h
    exact ⟨(if_neg hi).symm, rfl⟩

/-- `saveCommand` is defined exactly if the command of a shell fits its buffer. -/
theorem saveCommand_iff (s : TermState) :
    (∃ s', saveCommand s = some s') ↔
      (s.shellFlag = true → fits (s.keyboardBufferEndIdx - 1)) := by
  unfold saveCommand
  split
  · rename_i hshell
    rw [forall_prop_of_true hshell]
    split
    · rename_i hfits
      exact iff_of_true ⟨_, rfl⟩ hfits
    · rename_i hfits
      exact iff_of_false (fun ⟨_, h⟩ => by cases h) hfits
  · rename_i hshell
    exact iff_of_true ⟨s, rfl⟩ fun h => absurd h hshell

theorem onScreen_saveCommand {s s' : TermState} (h : saveCommand s = some s') (hs : OnScreen s) :
    OnScreen (wakeReader s') := by
  unfold saveCommand at h
  split at h
  · split at h
    · cases h
      exact hs
    · cases h
  · cases h
    exact hs

/-- The rest of Enter, once the line is ended. -/
theorem localIff_wake {c : Console} (hc : Ready c) (ch : UInt8) {v : Terminal}
    (hv : c.visibleTerminal = v) :
    LocalIff c ((c.term v).shellFlag = true → fits ((c.term v).keyboardBufferEndIdx - 1))
      (((saveCommand (c.term v)).map fun s => c.modify v fun _ => wakeReader s).bind fun c =>
        c.saveCurrent.map fun c => c.finish v ch) := by
  rw [← saveCommand_iff]
  cases hsave : saveCommand (c.term v) with
  | none => exact ⟨fun ⟨_, h⟩ => (by cases h), fun _ h => (by cases h)⟩
  | some s =>
      subst hv
      have hs := onScreen_saveCommand hsave hc.onScreen
      have h₁ : Local c (c.modify c.visibleTerminal fun _ => wakeReader s) :=
        local_modify hc rfl fun _ _ => hs
      have hcur := localIff_saveCurrent (h₁.ready hc)
      obtain ⟨c₂, hc₂⟩ := hcur.defined fun _ => by
        -- The cursor is at 0 again, so that nothing is copied.
        rw [h₁.visible, modify_term_self]
        exact ⟨Int.le_refl 0, Int.natCast_nonneg _⟩
      have h₂ := h₁.trans (hcur.only c₂ hc₂).2
      rw [Option.map_some, Option.bind_some, hc₂, Option.map_some]
      refine ⟨fun _ => ⟨_, rfl⟩, fun c' hc' => ⟨⟨s, rfl⟩, ?_⟩⟩
      cases hc'
      exact h₂.trans (local_finish (h₂.ready hc) h₂.visible ch)

theorem block_enter {c : Console} (hc : Ready c) (ch : UInt8) :
    Block c (c.EnterStays ch) ((c.enterKey ENTER_PRESSED ch).bind fun c' =>
      c'.saveCurrent.map fun c' => c'.finish c.visibleTerminal ch) := by
  have h₁ := local_notInPrevCmdFlag hc true
  have hr₁ := h₁.ready hc
  have hend := block_endLine hr₁ ch
  have hblock := hend.bind (f := fun c' => ((saveCommand (c'.term c.visibleTerminal)).map fun s =>
      c'.modify c.visibleTerminal fun _ => wakeReader s).bind fun c' =>
        c'.saveCurrent.map fun c' => c'.finish c.visibleTerminal ch)
    (q := (c.term c.visibleTerminal).shellFlag = true →
      fits (if (c.term c.visibleTerminal).keyboardBufferEndIdx < KEYBOARD_BUFFER_SIZE
        then (c.term c.visibleTerminal).keyboardBufferEndIdx
        else (c.term c.visibleTerminal).keyboardBufferEndIdx - 1)) fun c' hc' => by
      have hs := hend.steady c' hc'
      obtain ⟨hidx, hshell⟩ := endLine_end hc'
      have hwake := localIff_wake (hs.ready hr₁) ch hs.visible
      dsimp only at hidx hshell hwake
      rwa [hidx, hshell] at hwake
  unfold enterKey
  dsimp only
  rw [if_pos rfl, Option.bind_assoc]
  exact hblock.of_local h₁

/-- Turning the echo off changes nothing the conditions read. -/
theorem charStays_echoOff (c : Console) (hc : Ready c) (ch : UInt8) :
    (c.modify c.visibleTerminal echoOff).CharStays ch ↔ c.CharStays ch := by
  have h : Local c (c.modify c.visibleTerminal echoOff) :=
    local_modify hc rfl fun _ hs => onScreen_echoOff hs
  have hcursor : ∀ s, (echoOff s).keyboardCursorIdx = s.keyboardCursorIdx := by
    intro s
    obtain ⟨b, hb⟩ := echoOff_eq s
    rw [hb]
  unfold CharStays
  simp only [h.storeStays, h.visible, modify_term_self, hcursor, modify_notInPrevCmdFlag]

theorem enterStays_echoOff (c : Console) (hc : Ready c) (ch : UInt8) :
    (c.modify c.visibleTerminal echoOff).EnterStays ch ↔ c.EnterStays ch := by
  have h : Local c (c.modify c.visibleTerminal echoOff) :=
    local_modify hc rfl fun _ hs => onScreen_echoOff hs
  have hkeep : ∀ s, (echoOff s).keyboardBufferEndIdx = s.keyboardBufferEndIdx
      ∧ (echoOff s).shellFlag = s.shellFlag := by
    intro s
    obtain ⟨b, hb⟩ := echoOff_eq s
    rw [hb]
    exact ⟨rfl, rfl⟩
  unfold EnterStays
  simp only [h.storeStays, h.visible, modify_term_self, hkeep]

/-- The block of the character keys, before the handler leaves. -/
theorem charKey_eq (c : Console) (pressed : Nat) :
    c.charKey pressed = (((c.modify c.visibleTerminal echoOff).insertChar pressed
      (c.outputChar pressed)).bind fun c' => (c'.enterKey pressed (c.outputChar pressed)).bind
        fun c' => c'.saveCurrent.map fun c' =>
          c'.finish c.visibleTerminal (c.outputChar pressed)).map leave := by
  unfold charKey
  simp only [Option.map_bind, Option.map_map, Function.comp_def]
  rfl

theorem block_charKey {c : Console} (hc : Ready c) (pressed : Nat) :
    ∃ r, c.charKey pressed = r.map leave ∧
      Block c (if pressed = ENTER_PRESSED then c.EnterStays (c.outputChar pressed)
        else c.CharStays (c.outputChar pressed)) r := by
  have h : Local c (c.modify c.visibleTerminal echoOff) :=
    local_modify hc rfl fun _ hs => onScreen_echoOff hs
  refine ⟨_, charKey_eq c pressed, Block.of_local h ?_⟩
  by_cases hp : pressed = ENTER_PRESSED
  · subst hp
    rw [if_pos rfl, insertChar_enter, Option.bind_some]
    exact (block_enter (h.ready hc) _).congr (enterStays_echoOff c hc _)
  · rw [if_neg hp]
    exact (block_char (h.ready hc) hp _ _ rfl).congr (charStays_echoOff c hc _)

/-! ## One key -/

/-- The scancodes of the modifier keys. -/
def modifierCodes : List Nat :=
  [CAPS_LOCK_PRESSED, LEFT_SHIFT_PRESSED, RIGHT_SHIFT_PRESSED, LEFT_SHIFT_RELEASED,
    RIGHT_SHIFT_RELEASED, LEFT_CONTROL_PRESSED, LEFT_CONTROL_RELEASED, LEFT_ALT_PRESSED,
    LEFT_ALT_RELEASED]

/-- The key is neither a modifier nor a terminal switch. -/
structure Plain (c : Console) (pressed : Nat) : Prop where
  modifier : pressed ∉ modifierCodes
  switch : (c.term c.visibleTerminal).altOn = true → switchKey pressed = none

/-- A plain key switches to no terminal. -/
theorem Plain.no_switch {c : Console} {pressed : Nat} (h : c.Plain pressed) :
    (if (c.term c.visibleTerminal).altOn = true then switchKey pressed else none) = none := by
  split
  · rename_i halt
    exact h.switch halt
  · rfl

instance (c : Console) (pressed : Nat) : Decidable (c.Plain pressed) :=
  decidable_of_iff (pressed ∉ modifierCodes ∧
    ((c.term c.visibleTerminal).altOn = true → switchKey pressed = none))
    ⟨fun h => ⟨h.1, h.2⟩, fun h => ⟨h.modifier, h.switch⟩⟩

/-- The stores and copies of the key stay inside the buffers of the visible terminal, and
Ctrl+L finds nothing in the row of terminal 0. -/
def KeyStays (c : Console) (pressed : Nat) : Prop :=
  let s := c.term c.visibleTerminal
  if pressed = UP_ARROW_PRESSED then
    c.Recalls → fits s.keyboardBufferEndIdx ∧ fits s.lastBufIndex
  else if pressed = DOWN_ARROW_PRESSED then s.shellFlag = true → fits s.currentBufIndex
  else if pressed = BACKSPACE then c.BackspaceStays
  else if s.controlOn = true ∧ pressed = L_SCANCODE then c.CtrlLStays
  else if pressed > START_IGNORE then True
  else if pressed = ENTER_PRESSED then c.EnterStays (c.outputChar pressed)
  else c.CharStays (c.outputChar pressed)

theorem modifierKey_eq_none (c : Console) {pressed : Nat} (h : pressed ∉ modifierCodes) :
    c.modifierKey pressed = none := by
  simp only [modifierCodes, List.mem_cons, List.not_mem_nil, or_false, not_or] at h
  obtain ⟨h₁, h₂, h₃, h₄, h₅, h₆, h₇, h₈, h₉⟩ := h
  unfold modifierKey
  simp only [h₁, h₂, h₃, h₄, h₅, h₆, h₇, h₈, h₉, or_self, if_false]

theorem modifierKey_ne_none (c : Console) {pressed : Nat} (h : pressed ∈ modifierCodes) :
    c.modifierKey pressed ≠ none := by
  intro hnone
  unfold modifierKey at hnone
  split_ifs at hnone with h₁ h₂ h₃ h₄ h₅ h₆ h₇
  simp only [modifierCodes, List.mem_cons, List.not_mem_nil, or_false] at h
  simp only [not_or] at h₂ h₃
  simp only [h₁, h₂, h₃, h₄, h₅, h₆, h₇, or_self] at h

theorem lineKey_ignored (c : Console) {pressed : Nat} (h : pressed > START_IGNORE) :
    c.lineKey pressed = some c.leave := by
  unfold lineKey
  rw [if_neg, if_pos (Or.inr (Or.inr h))]
  rintro ⟨_, rfl⟩
  exact absurd h (by decide)

/-- The up and down arrow do nothing in the rest of the handler. -/
theorem afterArrows_arrow (c : Console) {pressed : Nat}
    (h : pressed = UP_ARROW_PRESSED ∨ pressed = DOWN_ARROW_PRESSED) :
    c.afterArrows pressed = some c.leave := by
  have hignored : pressed > START_IGNORE := by rcases h with rfl | rfl <;> decide
  have hmod : pressed ∉ modifierCodes := by rcases h with rfl | rfl <;> decide
  have hswitch : switchKey pressed = none := by rcases h with rfl | rfl <;> decide
  have hb : pressed ≠ BACKSPACE := by rcases h with rfl | rfl <;> decide
  have hl : pressed ≠ LEFT_ARROW_PRESSED := by rcases h with rfl | rfl <;> decide
  have hr : pressed ≠ RIGHT_ARROW_PRESSED := by rcases h with rfl | rfl <;> decide
  unfold afterArrows
  dsimp only
  rw [if_neg hb, if_neg fun h => hl h.1, if_neg fun h => hr h.1, modifierKey_eq_none c hmod,
    hswitch, ite_self]
  exact lineKey_ignored c hignored

theorem block_lineKey {c : Console} (hc : Ready c) {pressed : Nat}
    (hup : pressed ≠ UP_ARROW_PRESSED) (hdown : pressed ≠ DOWN_ARROW_PRESSED)
    (hback : pressed ≠ BACKSPACE) :
    ∃ r, c.lineKey pressed = r.map leave ∧ Block c (c.KeyStays pressed) r := by
  unfold KeyStays
  dsimp only
  rw [if_neg hup, if_neg hdown, if_neg hback]
  by_cases hctrl : (c.term c.visibleTerminal).controlOn = true ∧ pressed = L_SCANCODE
  · rw [if_pos hctrl]
    unfold lineKey
    rw [if_pos hctrl]
    exact block_ctrlL hc
  · rw [if_neg hctrl]
    by_cases hignored : pressed > START_IGNORE
    · rw [if_pos hignored, lineKey_ignored c hignored]
      exact ⟨some c, rfl, (LocalIff.of_local (.refl hc)).block⟩
    · rw [if_neg hignored]
      unfold lineKey
      rw [if_neg hctrl, if_neg]
      · exact block_charKey hc pressed
      · unfold START_IGNORE START_RELEASED RIGHT_CONTROL_TAG at *
        omega

theorem keyStays_ignored (c : Console) {pressed : Nat} (hup : pressed ≠ UP_ARROW_PRESSED)
    (hdown : pressed ≠ DOWN_ARROW_PRESSED) (h : pressed > START_IGNORE) : c.KeyStays pressed := by
  have hback : pressed ≠ BACKSPACE := by
    rintro rfl
    exact absurd h (by decide)
  have hctrl : ¬ ((c.term c.visibleTerminal).controlOn = true ∧ pressed = L_SCANCODE) := by
    rintro ⟨_, rfl⟩
    exact absurd h (by decide)
  unfold KeyStays
  dsimp only
  rw [if_neg hup, if_neg hdown, if_neg hback, if_neg hctrl, if_pos h]
  trivial

theorem block_afterArrows {c : Console} (hc : Ready c) {pressed : Nat} (hp : c.Plain pressed)
    (hup : pressed ≠ UP_ARROW_PRESSED) (hdown : pressed ≠ DOWN_ARROW_PRESSED) :
    ∃ r, c.afterArrows pressed = r.map leave ∧ Block c (c.KeyStays pressed) r := by
  have hswitch := hp.no_switch
  unfold afterArrows
  dsimp only
  split
  · rename_i hback
    refine ⟨_, backspaceKey_eq c, Block.congr (block_backspace hc) ?_⟩
    unfold KeyStays
    rw [if_neg hup, if_neg hdown, if_pos hback]
  · rename_i hback
    split
    · rename_i hleft
      obtain ⟨c', hc', hlocal⟩ := local_leftArrowKey hc
      have hstays := c.keyStays_ignored hup hdown (by rw [hleft.1]; decide)
      refine ⟨some c', by rw [hc']; rfl, (LocalIff.of_local hlocal).block.congr ?_⟩
      exact iff_of_true trivial hstays
    · split
      · rename_i hright
        obtain ⟨c', hc', hlocal⟩ := local_rightArrowKey hc
        have hstays := c.keyStays_ignored hup hdown (by rw [hright.1]; decide)
        refine ⟨some c', by rw [hc']; rfl, (LocalIff.of_local hlocal).block.congr ?_⟩
        exact iff_of_true trivial hstays
      · rw [modifierKey_eq_none c hp.modifier, hswitch]
        exact block_lineKey hc hup hdown hback

/-- The handler, with the rest of the handler after the up and down arrow spelled out. -/
theorem keyboardInterrupt_eq (c : Console) (scancode : UInt8) :
    c.keyboardInterrupt scancode =
      if scancode.toNat = UP_ARROW_PRESSED then
        (upArrow { c with putcToVisibleFlag := true }).map leave
      else if scancode.toNat = DOWN_ARROW_PRESSED then
        (downArrow { c with putcToVisibleFlag := true }).map leave
      else afterArrows { c with putcToVisibleFlag := true } scancode.toNat := by
  have harrow : ∀ r : Option Console, scancode.toNat = UP_ARROW_PRESSED
      ∨ scancode.toNat = DOWN_ARROW_PRESSED →
      (r.bind fun c => c.afterArrows scancode.toNat) = r.map leave := by
    intro r h
    rw [Option.map_eq_bind]
    congr 1
    funext c'
    exact afterArrows_arrow c' h
  unfold keyboardInterrupt
  dsimp only
  split
  · rename_i hup
    exact harrow _ (Or.inl hup)
  · split
    · rename_i hdown
      exact harrow _ (Or.inr hdown)
    · rfl

/-- **One key.** The handler is a block and the end of the handler. -/
theorem block_keyboardInterrupt {c : Console} (hs : OnScreen (c.term c.visibleTerminal))
    {scancode : UInt8} (hp : c.Plain scancode.toNat) :
    ∃ r, c.keyboardInterrupt scancode = r.map leave ∧
      Block { c with putcToVisibleFlag := true } (c.KeyStays scancode.toNat) r := by
  have hc : Ready { c with putcToVisibleFlag := true } := ⟨rfl, hs⟩
  rw [keyboardInterrupt_eq]
  by_cases hup : scancode.toNat = UP_ARROW_PRESSED
  · rw [if_pos hup]
    refine ⟨_, rfl, Block.congr (localIff_upArrow hc).block ?_⟩
    unfold KeyStays
    rw [if_pos hup]
    rfl
  · rw [if_neg hup]
    by_cases hdown : scancode.toNat = DOWN_ARROW_PRESSED
    · rw [if_pos hdown]
      refine ⟨_, rfl, Block.congr (localIff_downArrow hc).block ?_⟩
      unfold KeyStays
      rw [if_neg hup, if_pos hdown]
    · rw [if_neg hdown]
      exact block_afterArrows hc ⟨hp.modifier, hp.switch⟩ hup hdown

/-! ## Modifiers and terminal switches -/

/-- `s'` is `s` up to the modifier flags. -/
def SameButModifiers (s s' : TermState) : Prop :=
  s' = { s with
    shiftOn := s'.shiftOn
    capsLockOn := s'.capsLockOn
    controlOn := s'.controlOn
    altOn := s'.altOn }

theorem modifierKey_eq_some {c c' : Console} {pressed : Nat}
    (h : c.modifierKey pressed = some c') :
    ∃ f, (∀ s, SameButModifiers s (f s)) ∧ c' = (c.modifyAll f).leave := by
  unfold modifierKey at h
  split_ifs at h <;> cases h
  all_goals
    refine ⟨_, ?_, rfl⟩
    intro s
    rfl

/-- What a key does that is a modifier or a terminal switch. -/
inductive Turned (c : Console) (pressed : Nat) : Console → Prop
  | modifier (f : TermState → TermState) (hf : ∀ s, SameButModifiers s (f s))
      (hp : pressed ∈ modifierCodes) : Turned c pressed (c.modifyAll f).leave
  | same (ha : (c.term c.visibleTerminal).altOn = true)
      (hp : switchKey pressed = some c.visibleTerminal) : Turned c pressed c.leave
  | switch (t : Terminal) (ha : (c.term c.visibleTerminal).altOn = true)
      (hp : switchKey pressed = some t) : Turned c pressed (c.leave.switchTerminal t.val)

theorem not_plain_turned {c c' : Console} {scancode : UInt8} (hp : ¬ c.Plain scancode.toNat)
    (h : c.keyboardInterrupt scancode = some c') : Turned c scancode.toNat c' := by
  have harrow : ∀ pressed, ¬ c.Plain pressed → pressed ≠ UP_ARROW_PRESSED ∧
      pressed ≠ DOWN_ARROW_PRESSED ∧ pressed ≠ BACKSPACE ∧ pressed ≠ LEFT_ARROW_PRESSED ∧
      pressed ≠ RIGHT_ARROW_PRESSED := by
    intro pressed hnot
    refine ⟨?_, ?_, ?_, ?_, ?_⟩ <;>
    · rintro rfl
      exact hnot ⟨by decide, fun _ => by decide⟩
  obtain ⟨hup, hdown, hback, hleft, hright⟩ := harrow _ hp
  rw [keyboardInterrupt_eq, if_neg hup, if_neg hdown] at h
  generalize scancode.toNat = pressed at *
  unfold afterArrows at h
  dsimp only at h
  rw [if_neg hback, if_neg fun h => hleft h.1, if_neg fun h => hright h.1] at h
  by_cases hmod : pressed ∈ modifierCodes
  · split at h
    · rename_i c₁ hsome
      cases h
      obtain ⟨f, hf, rfl⟩ := modifierKey_eq_some hsome
      exact .modifier f hf hmod
    · rename_i hnone
      exact absurd hnone (modifierKey_ne_none _ hmod)
  · rw [modifierKey_eq_none _ hmod] at h
    have halt : (c.term c.visibleTerminal).altOn = true := by
      by_contra hoff
      exact hp ⟨hmod, fun hon => absurd hon hoff⟩
    rw [if_pos halt] at h
    dsimp only at h
    split at h
    · rename_i t ht
      cases h
      split
      · rename_i hv
        subst hv
        exact .same halt ht
      · exact .switch t halt ht
    · rename_i hnone
      exact absurd ⟨hmod, fun _ => hnone⟩ hp

/-- A plain key, without the flag for output. -/
theorem plain_steady {c c' : Console} {scancode : UInt8} (hs : OnScreen (c.term c.visibleTerminal))
    (hp : c.Plain scancode.toNat) (h : c.keyboardInterrupt scancode = some c') :
    ∃ c₁, Steady { c with putcToVisibleFlag := true } c₁ ∧ c' = c₁.leave := by
  obtain ⟨r, hr, hblock⟩ := block_keyboardInterrupt hs hp
  rw [hr] at h
  obtain ⟨c₁, hc₁, rfl⟩ := Option.map_eq_some_iff.mp h
  exact ⟨c₁, hblock.steady c₁ hc₁, rfl⟩

theorem plain_visible {c c' : Console} {scancode : UInt8}
    (hs : OnScreen (c.term c.visibleTerminal)) (hp : c.Plain scancode.toNat)
    (h : c.keyboardInterrupt scancode = some c') : c'.visibleTerminal = c.visibleTerminal := by
  obtain ⟨c₁, hsteady, rfl⟩ := plain_steady hs hp h
  exact hsteady.visible

theorem allOnScreen_keyboardInterrupt {c c' : Console} {scancode : UInt8} (hc : AllOnScreen c)
    (h : c.keyboardInterrupt scancode = some c') : AllOnScreen c' := by
  by_cases hp : c.Plain scancode.toNat
  · obtain ⟨c₁, hsteady, rfl⟩ := plain_steady (hc _) hp h
    intro t
    by_cases ht : t = c.visibleTerminal
    · rw [ht]
      exact hsteady.onScreen
    · obtain ⟨kb, hkb⟩ := hsteady.other t ht
      show OnScreen (c₁.term t)
      rw [hkb]
      exact hc t
  · cases not_plain_turned hp h with
    | modifier f hf _ =>
        intro t
        have heq := hf (c.term t)
        unfold SameButModifiers at heq
        show OnScreen (f (c.term t))
        rw [heq]
        exact hc t
    | same => exact hc
    | switch t _ _ =>
        intro u
        rw [switchTerminal_term]
        exact hc u

/-! ## Which terminal is visible -/

/-- The terminal a key switches to, the visible one for most keys. -/
def keyTarget (c : Console) (pressed : Nat) : Terminal :=
  if (c.term c.visibleTerminal).altOn = true then (switchKey pressed).getD c.visibleTerminal
  else c.visibleTerminal

/-- The terminal `switch_terminal` switches to. -/
def switchTarget (c : Console) (n : Int) : Terminal :=
  if h : 0 ≤ n ∧ n < 3 then ⟨n.toNat, toNat_lt_terminals h⟩ else c.visibleTerminal

theorem switchTerminal_visible (c : Console) (n : Int) :
    (c.switchTerminal n).visibleTerminal = c.switchTarget n := by
  unfold switchTerminal switchTarget
  split <;> rfl

theorem switchTerminal_process (c : Console) (n : Int) :
    (c.switchTerminal n).processTerminal = c.processTerminal := by
  unfold switchTerminal
  split <;> rfl

theorem switchTarget_val (c : Console) (t : Terminal) : c.switchTarget t.val = t := by
  have ht := t.isLt
  unfold switchTarget
  rw [dif_pos ⟨by omega, by omega⟩]
  exact Fin.ext (Int.toNat_natCast t.val)

/-- No modifier is a function key. -/
theorem switchKey_modifier {pressed : Nat} (h : pressed ∈ modifierCodes) :
    switchKey pressed = none := by
  have hall : ∀ p ∈ modifierCodes, switchKey p = none := by decide
  exact hall pressed h

theorem keyboardInterrupt_visible {c c' : Console} {scancode : UInt8}
    (hs : OnScreen (c.term c.visibleTerminal)) (h : c.keyboardInterrupt scancode = some c') :
    c'.visibleTerminal = c.keyTarget scancode.toNat ∧
      c'.processTerminal = c.processTerminal := by
  unfold keyTarget
  by_cases hp : c.Plain scancode.toNat
  · obtain ⟨c₁, hsteady, rfl⟩ := plain_steady hs hp h
    refine ⟨?_, hsteady.process⟩
    have hv : c₁.leave.visibleTerminal = c.visibleTerminal := hsteady.visible
    rw [hv]
    split
    · rename_i halt
      rw [hp.switch halt]
      rfl
    · rfl
  · have hturned := not_plain_turned hp h
    generalize scancode.toNat = pressed at hturned ⊢
    cases hturned with
    | modifier f hf hmem =>
        rw [switchKey_modifier hmem, Option.getD_none, ite_self]
        exact ⟨rfl, rfl⟩
    | same ha ht =>
        rw [if_pos ha, ht]
        exact ⟨rfl, rfl⟩
    | switch t ha ht =>
        rw [if_pos ha, ht, switchTerminal_visible, switchTarget_val, switchTerminal_process]
        exact ⟨rfl, rfl⟩

end Console

end Ext2Kernel
