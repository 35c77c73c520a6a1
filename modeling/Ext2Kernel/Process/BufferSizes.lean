import Ext2Kernel.Process.DescriptorCalls
import Mathlib.Data.List.TakeWhile

set_option autoImplicit false

/-! # Buffer sizes

Which of the data-returning calls respect the size of the caller's buffer. A read of a file
and a read of the RTC always do. The other three store a fixed or an added amount: a terminal
read puts a newline behind the characters it was asked for, a directory read stores a name of
32 bytes, and `sys_getargs` clears 128 bytes.
-/

namespace Ext2Kernel

open Kernel ByteMem

/-- The call stored inside `buf[0..nbytes)` and returned at most `nbytes`. -/
def Within (nbytes : Int) (x : Transfer) : Prop :=
  x.ret ≤ nbytes ∧ (x.stored.length : Int) ≤ nbytes

namespace Kernel

/-- The call with the outcome `o` returns `x`, going on from its wait loop in state `k`. -/
def Returns (k : Kernel) : ReadOutcome → Transfer → Prop
  | .done r, x => x = r
  | .waitTerminal n, x => k.readTerminalFinish n = some x
  | .waitRtc, x => k.readRtcFinish ≠ none ∧ x = ⟨0, []⟩

/-! ## One lemma for each kind of read -/

theorem readData_within (fs : FileSys) (inode pos : Nat) {nbytes : Int} (hn : 0 < nbytes) :
    Within nbytes (readData fs inode pos false nbytes.toNat) := by
  have hle : (readDataBytes fs inode pos nbytes.toNat).length ≤ nbytes.toNat :=
    readDataLoop_length_le ..
  unfold readData Within
  split
  · dsimp only [List.length_nil]
    constructor <;> omega
  · dsimp only
    constructor
    · have hcast : asInt32 (readDataBytes fs inode pos nbytes.toNat).length
          ≤ (readDataBytes fs inode pos nbytes.toNat).length := by
        unfold asInt32
        split <;> omega
      omega
    · simp only [List.length_append, List.length_replicate]
      omega

theorem sysReadFile_fst (fs : FileSys) (k : Kernel) (p : Slot) (i : Fin 8) (n : Nat) :
    (k.sysReadFile fs p i n).1 = readData fs ((k.pcb p).fileDescArray i).inode
      ((k.pcb p).fileDescArray i).filePosition false n := by
  unfold sysReadFile
  dsimp only
  split <;> rfl

theorem strncpy_length (src : Mem) (n : Nat) : (strncpy src n).length = n := by
  have hle := (List.takeWhile_sublist (fun b : UInt8 => decide (b ≠ 0))
    (l := (List.range n).map src)).length_le
  rw [List.length_map, List.length_range] at hle
  unfold strncpy
  simp only [List.length_append, List.length_replicate]
  omega

/-- A directory read stores a whole name, unless the listing is over. -/
theorem sysReadDirectory_within (fs : FileSys) (k : Kernel) (stack : Mem) {nbytes : Int}
    (hn : 0 < nbytes) : Within nbytes (k.sysReadDirectory fs stack).1 ↔
      FILENAME_LEN ≤ nbytes ∨ k.readDirFlag k.processTerminal ≥ fs.entries := by
  unfold sysReadDirectory
  dsimp only
  by_cases hend : k.readDirFlag k.processTerminal ≥ fs.entries
  · rw [if_pos hend]
    exact ⟨fun _ => Or.inr hend, fun _ => ⟨by dsimp only; omega, by simp; omega⟩⟩
  · rw [if_neg hend]
    unfold Within
    dsimp only
    rw [strncpy_length]
    constructor
    · intro h
      exact Or.inl h.1
    · intro h
      have hle := h.resolve_right hend
      exact ⟨hle, hle⟩

/-- The line a reader finds has all `n` characters exactly if none of the first `n` bytes
ends it. -/
theorem line_length_eq_iff (kb : Mem) (n : Nat) :
    (Console.line kb n).length = n ↔ ∀ j < n, kb j ≠ 0 ∧ kb j ≠ 10 := by
  have hlen : ((List.range n).map kb).length = n := by simp
  constructor
  · intro h j hj
    have hself : Console.line kb n = (List.range n).map kb :=
      (List.takeWhile_prefix _).eq_of_length (h.trans hlen.symm)
    have hall := List.takeWhile_eq_self_iff.mp hself (kb j)
      (List.mem_map_of_mem (List.mem_range.mpr hj))
    simpa using hall
  · intro h
    have hself : Console.line kb n = (List.range n).map kb := by
      refine List.takeWhile_eq_self_iff.mpr fun b hb => ?_
      obtain ⟨j, hj, rfl⟩ := List.mem_map.mp hb
      simpa using h j (List.mem_range.mp hj)
    rw [hself, hlen]

theorem line_length_le (kb : Mem) (n : Nat) : (Console.line kb n).length ≤ n := by
  have hle := (List.takeWhile_sublist (fun b : UInt8 => decide (b ≠ 0 ∧ b ≠ 10))
    (l := (List.range n).map kb)).length_le
  rwa [List.length_map, List.length_range] at hle

/-- A terminal read stores one byte more than it was asked for when the line is as long as
the buffer. -/
theorem readTerminalCopy_within (c : Console) {nbytes : Int} (hn : 0 < nbytes) :
    Within nbytes (c.readTerminalCopy (Console.clipBytes nbytes)) ↔
      nbytes > KEYBOARD_BUFFER_SIZE ∨ ∃ j : Nat, j < nbytes ∧
        ((c.term c.processTerminal).keyboardBuffer j = 0
          ∨ (c.term c.processTerminal).keyboardBuffer j = 10) := by
  unfold Console.readTerminalCopy Within
  dsimp only
  rw [List.length_append, List.length_singleton]
  have hle := line_length_le (c.term c.processTerminal).keyboardBuffer (Console.clipBytes nbytes)
  have heq := line_length_eq_iff (c.term c.processTerminal).keyboardBuffer
    (Console.clipBytes nbytes)
  by_cases hbig : nbytes > KEYBOARD_BUFFER_SIZE
  · -- A larger buffer is cut to 127 characters.
    have hclip : Console.clipBytes nbytes = KEYBOARD_BUFFER_SIZE - 1 := if_pos hbig
    rw [hclip] at hle ⊢
    refine ⟨fun _ => Or.inl hbig, fun _ => ?_⟩
    unfold KEYBOARD_BUFFER_SIZE at *
    omega
  · have hclip : Console.clipBytes nbytes = nbytes.toNat := if_neg hbig
    rw [hclip] at hle heq ⊢
    constructor
    · intro h
      refine Or.inr ?_
      by_contra hnone
      push Not at hnone
      have hfull := heq.mpr fun j hj => hnone j (by omega)
      omega
    · rintro (h | ⟨j, hj, hend⟩)
      · exact absurd h hbig
      · have hne : (Console.line (c.term c.processTerminal).keyboardBuffer nbytes.toNat).length
            ≠ nbytes.toNat := by
          intro hfull
          obtain ⟨h₀, h₁⟩ := heq.mp hfull j (by omega)
          exact hend.elim h₀ h₁
        omega

/-- `sys_getargs` clears 128 bytes, unless there is no argument. -/
theorem sysGetargs_length {k : Kernel} {x : Transfer} (h : k.sysGetargs = some x) :
    x.stored.length = if k.argFlag k.processTerminal then KEYBOARD_BUFFER_SIZE else 0 := by
  unfold sysGetargs at h
  split at h
  · rename_i hflag
    obtain ⟨p, _, rfl⟩ := Option.map_eq_some_iff.mp h
    have hle := (List.takeWhile_sublist (fun b : UInt8 => decide (b ≠ 0))
      (l := (k.pcb p).argumentArray.chars)).length_le
    have hlt := (k.pcb p).argumentArray.terminated
    rw [if_pos hflag]
    simp only [List.length_append, List.length_replicate]
    omega
  · rename_i hflag
    cases h
    rw [if_neg hflag]
    rfl

/-! ## The contract -/

/-- Is the buffer large enough for a read of descriptor `fd`? The call is made in state `k`
and, if it has to wait, goes on in state `k'`. -/
def ReadFits (fs : FileSys) (k : Kernel) (p : Slot) (fd nbytes : Int) (k' : Kernel) : Prop :=
  ¬ OpenFd (k.pcb p) fd ∨
    match ((k.pcb p).fileDescArray (fdIdx fd)).fileOpsTable with
    | some .stdIn => nbytes > KEYBOARD_BUFFER_SIZE ∨ ∃ j : Nat, j < nbytes ∧
        ((k'.console.term k'.processTerminal).keyboardBuffer j = 0
          ∨ (k'.console.term k'.processTerminal).keyboardBuffer j = 10)
    | some .dir => FILENAME_LEN ≤ nbytes ∨ k.readDirFlag k.processTerminal ≥ fs.entries
    | _ => True

/-- Is the buffer large enough for `sys_getargs`? -/
def GetargsFits (k : Kernel) (nbytes : Int) : Prop :=
  k.argFlag k.processTerminal = false ∨ KEYBOARD_BUFFER_SIZE ≤ nbytes

theorem sysRead_within_iff {fs : FileSys} {k k₁ k' : Kernel} {p : Slot} {stack : Mem}
    {fd nbytes : Int} {o : ReadOutcome} {x : Transfer} (hcur : k.cur = some p) (hn : 0 < nbytes)
    (h : k.sysRead fs stack fd false nbytes = some (o, k₁)) (hx : k'.Returns o x) :
    Within nbytes x ↔ ReadFits fs k p fd nbytes k' := by
  have hfail : Within nbytes ⟨-1, []⟩ := by
    unfold Within
    dsimp only [List.length_nil]
    constructor <;> omega
  by_cases hopen : OpenFd (k.pcb p) fd
  · -- The call reaches the read operation of the descriptor.
    rw [sysRead_open fs stack hcur hopen hn] at h
    obtain ⟨ops, hops, hread⟩ := Option.bind_eq_some_iff.mp h
    have hiff : ReadFits fs k p fd nbytes k' ↔ _ := or_iff_right (not_not.mpr hopen)
    rw [hiff, hops]
    cases ops with
    | stdIn =>
        obtain ⟨c, _, heq⟩ := Option.map_eq_some_iff.mp hread
        cases heq
        have hfinish : k'.readTerminalFinish (Console.clipBytes nbytes) = some x := hx
        unfold readTerminalFinish at hfinish
        split at hfinish
        · cases hfinish
        · cases hfinish
          exact readTerminalCopy_within k'.console hn
    | stdOut =>
        cases hread
        obtain rfl : x = ⟨-1, []⟩ := hx
        exact iff_of_true hfail trivial
    | rtc =>
        obtain ⟨k₂, _, heq⟩ := Option.map_eq_some_iff.mp hread
        cases heq
        obtain rfl : x = ⟨0, []⟩ := hx.2
        refine iff_of_true ?_ trivial
        unfold Within
        dsimp only [List.length_nil]
        constructor <;> omega
    | file =>
        cases hread
        obtain rfl : x = _ := hx
        refine iff_of_true ?_ trivial
        rw [sysReadFile_fst]
        exact readData_within fs _ _ hn
    | dir =>
        cases hread
        obtain rfl : x = _ := hx
        exact sysReadDirectory_within fs k stack hn
  · rw [sysRead_bad hcur hopen] at h
    cases h
    obtain rfl : x = ⟨-1, []⟩ := hx
    exact iff_of_true hfail (Or.inl hopen)

/-- **When the calls stay inside the buffer.** A read, made by the running process in any
state and going on in any state, respects the size exactly if `ReadFits`, and `sys_getargs`
exactly if `GetargsFits`. -/
theorem within_buffer_iff (fs : FileSys) (k : Kernel) (p : Slot) (hcur : k.cur = some p)
    (nbytes : Int) (hn : 0 < nbytes) :
    (∀ stack fd o k₁ k' x, k.sysRead fs stack fd false nbytes = some (o, k₁) →
      k'.Returns o x → (Within nbytes x ↔ ReadFits fs k p fd nbytes k')) ∧
    (∀ x, k.sysGetargs = some x →
      ((x.stored.length : Int) ≤ nbytes ↔ GetargsFits k nbytes)) := by
  refine ⟨fun stack fd o k₁ k' x h hx => sysRead_within_iff hcur hn h hx, fun x hx => ?_⟩
  rw [sysGetargs_length hx]
  unfold GetargsFits
  cases k.argFlag k.processTerminal with
  | true => simp
  | false =>
      simp
      omega

/-- A read of an open directory. -/
theorem sysRead_directory (fs : FileSys) {k : Kernel} {p : Slot} {i : Fin 8} {nbytes : Int}
    (stack : Mem) (hcur : k.cur = some p)
    (hd : (k.pcb p).fileDescArray i = ⟨some .dir, 0, 0, 1⟩) (hn : 0 < nbytes) :
    k.sysRead fs stack i.val false nbytes
      = some (.done (k.sysReadDirectory fs stack).1, (k.sysReadDirectory fs stack).2) := by
  have hopen : OpenFd (k.pcb p) i.val := by
    refine ⟨by omega, by omega, ?_⟩
    rw [fdIdx_natCast, hd]
    exact Nat.one_ne_zero
  rw [sysRead_open fs stack hcur hopen hn, fdIdx_natCast, hd]
  rfl

/-- The first shell opens the directory of the small image and has names left to list. -/
theorem sampleImage_directory : ∃ (k : Kernel) (i : Fin 8), Reachable sampleImage k ∧
    k.cur = some 0 ∧ (k.pcb 0).fileDescArray i = ⟨some .dir, 0, 0, 1⟩ ∧
    ¬ k.readDirFlag k.processTerminal ≥ sampleImage.entries := by
  have hfound : (readDentryByName sampleImage (some (ascii "."))).bind openedDesc
      = some ⟨some .dir, 0, 0, 1⟩ := by decide +kernel
  obtain ⟨d, hd, hf⟩ := Option.bind_eq_some_iff.mp hfound
  obtain ⟨_, k, i, _, _, _, hreach, hcur, hdesc⟩ := sampleImage_open hd hf
  by_cases hend : k.readDirFlag k.processTerminal ≥ sampleImage.entries
  · -- A first read then starts the listing again.
    have hread := sysRead_directory sampleImage (fun _ => 0) hcur hdesc Int.one_pos
    have hagain : (k.sysReadDirectory sampleImage fun _ => 0).2
        = { k with readDirFlag := Function.update k.readDirFlag k.processTerminal 0 } := by
      unfold sysReadDirectory
      dsimp only
      rw [if_pos hend]
    rw [hagain] at hread
    have hstep : step sampleImage k (.read (fun _ => 0) i.val false 1) = some _ :=
      Option.map_eq_some_iff.mpr ⟨_, hread, rfl⟩
    obtain ⟨m, hm⟩ := hreach
    refine ⟨_, i, ⟨m, hm.trans_step hstep⟩, hcur, hdesc, ?_⟩
    show ¬ Function.update k.readDirFlag k.processTerminal 0 k.processTerminal ≥ _
    rw [Function.update_self]
    decide +kernel
  · exact ⟨k, i, hreach, hcur, hdesc, hend⟩

theorem within_buffer_iff_sample : ∃ k, Reachable sampleImage k ∧ k.cur = some 0 ∧
    (∀ stack fd o k₁ k' x, k.sysRead sampleImage stack fd false 1 = some (o, k₁) →
      k'.Returns o x → (Within 1 x ↔ ReadFits sampleImage k 0 fd 1 k')) ∧
    (∀ x, k.sysGetargs = some x → ((x.stored.length : Int) ≤ 1 ↔ GetargsFits k 1)) := by
  obtain ⟨k, _, hreach, hcur, _⟩ := sampleImage_directory
  exact ⟨k, hreach, hcur, within_buffer_iff sampleImage k 0 hcur 1 (by decide)⟩

/-- A read of one byte from the directory stores 32. -/
theorem read_directory_not_within : ∃ k i o k₁ x, Reachable sampleImage k ∧ k.cur = some 0 ∧
    k.sysRead sampleImage (fun _ => 0) i false 1 = some (o, k₁) ∧ k₁.Returns o x ∧
    ¬ Within 1 x := by
  obtain ⟨k, i, hreach, hcur, hdesc, hend⟩ := sampleImage_directory
  have hread := sysRead_directory sampleImage (fun _ => 0) hcur hdesc Int.one_pos
  refine ⟨k, i.val, _, _, _, hreach, hcur, hread, rfl, ?_⟩
  rw [sysReadDirectory_within sampleImage k _ Int.one_pos]
  rintro (hle | hover)
  · exact absurd hle (by decide)
  · exact hend hover

end Kernel

end Ext2Kernel
