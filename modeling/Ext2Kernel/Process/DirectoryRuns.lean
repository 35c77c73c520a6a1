import Ext2Kernel.FileSys.Directory
import Ext2Kernel.Process.Arguments
import Ext2Kernel.Process.FileReads

set_option autoImplicit false

/-! # Directory listings

`_sys_read_directory` keeps its position in `read_dir_flag`, one for each terminal, and not in
the descriptor. `sys_open` does not reset it. So a descriptor lists the directory from entry 0
on exactly if every read finds in `read_dir_flag` the number of names the descriptor has
returned, and that is so if the last listing on the terminal was finished and nobody else
reads the directory there in the meantime (`listing_complete_iff`).
-/

namespace Ext2Kernel

open Kernel ByteMem

/-! ## What a listing should return -/

/-- The name of entry `j`, padded to the size of its field. -/
def FileSys.paddedName (fs : FileSys) (j : Nat) : List UInt8 :=
  fs.entryName j ++ List.replicate (FILENAME_LEN - (fs.entryName j).length) 0

/-- The result of read `j` of a listing: the name of entry `j`, and 0 after the last one. -/
def FileSys.listing (fs : FileSys) (j : Nat) : Transfer :=
  if j < fs.entries then ⟨FILENAME_LEN, fs.paddedName j⟩ else ⟨0, []⟩

theorem fieldString_eq_takeWhile (s : Mem) : ∀ n i,
    fieldString s n i = ((List.range' i n).map s).takeWhile (· ≠ 0)
  | 0, _ => rfl
  | n + 1, i => by
      unfold fieldString
      rw [List.range'_succ, List.map_cons, fieldString_eq_takeWhile s n (i + 1)]
      by_cases hz : s i = 0
      · rw [if_pos hz, List.takeWhile_cons_of_neg (by simpa using hz)]
      · rw [if_neg hz, List.takeWhile_cons_of_pos (by simpa using hz)]

/-- An open directory descriptor. -/
def dirDesc : FileDesc := ⟨some .dir, 0, 0, 1⟩

namespace Kernel

/-- The name `_sys_read_directory` copies. -/
theorem strncpy_name {fs : FileSys} {j : Nat} {d : Dentry}
    (h : readDentryByIndex fs j = some d) :
    strncpy (ofList d.fileName) FILENAME_LEN = fs.paddedName j := by
  have hname : (List.range FILENAME_LEN).map (ofList d.fileName)
      = (List.range FILENAME_LEN).map fun i => fs.mem (addr (fs.dentryAddr j + i)) := by
    unfold readDentryByIndex at h
    split at h
    · cases h
    · cases h
      refine List.map_congr_left fun i hi => ?_
      have hlt := List.mem_range.mp hi
      unfold ofList
      rw [List.getD_eq_getElem?_getD, List.getElem?_map, List.getElem?_range hlt]
      rfl
  have hentry : fs.entryName j = ((List.range FILENAME_LEN).map fun i =>
      fs.mem (addr (fs.dentryAddr j + i))).takeWhile (· ≠ 0) := by
    unfold FileSys.entryName
    rw [fieldString_eq_takeWhile, List.range_eq_range']
  unfold strncpy FileSys.paddedName
  rw [hname, hentry]

/-- The position after a read at position `flag`. -/
def nextPosition (fs : FileSys) (flag : Nat) : Nat := if flag < fs.entries then flag + 1 else 0

/-- A read of the directory returns the entry at the position of the terminal and moves the
position on. -/
theorem sysReadDirectory_eq {fs : FileSys} (hle : fs.entries ≤ DIR_ENTRIES) (k : Kernel)
    (stack : Mem) :
    k.sysReadDirectory fs stack = (fs.listing (k.readDirFlag k.processTerminal),
      { k with
        readDirFlag := Function.update k.readDirFlag k.processTerminal
          (nextPosition fs (k.readDirFlag k.processTerminal)) }) := by
  unfold sysReadDirectory FileSys.listing nextPosition
  dsimp only
  by_cases hlt : k.readDirFlag k.processTerminal < fs.entries
  · obtain ⟨d, hd⟩ : ∃ d, readDentryByIndex fs (k.readDirFlag k.processTerminal) = some d := by
      unfold readDentryByIndex
      rw [if_neg (by omega)]
      exact ⟨_, rfl⟩
    rw [if_neg (Nat.not_le.mpr hlt), if_pos hlt, if_pos hlt, hd]
    dsimp only
    rw [strncpy_name hd]
  · rw [if_pos (Nat.le_of_not_lt hlt), if_neg hlt, if_neg hlt]

theorem sysRead_dir (fs : FileSys) {k : Kernel} {p : Slot} {i : Fin 8} (stack : Mem) {nbytes : Int}
    (hcur : k.cur = some p) (hd : (k.pcb p).fileDescArray i = dirDesc) (hn : 0 < nbytes) :
    k.sysRead fs stack i.val false nbytes
      = some (.done (k.sysReadDirectory fs stack).1, (k.sysReadDirectory fs stack).2) := by
  have hopen : OpenFd (k.pcb p) i.val := by
    refine ⟨by omega, by omega, ?_⟩
    rw [fdIdx_natCast, hd]
    exact Nat.one_ne_zero
  rw [sysRead_open fs stack hcur hopen hn, fdIdx_natCast, hd]
  rfl

/-! ## Who moves the position -/

/-- The event is a read of the directory through descriptor `j` of process `q`. -/
def ListsThrough (k : Kernel) (q : Slot) (j : Fin 8) : Event → Prop
  | .read _ fd bufNull nbytes => k.cur = some q ∧ fd = j.val ∧ bufNull = false ∧ 0 < nbytes ∧
      ((k.pcb q).fileDescArray j).IsOpen ∧ ((k.pcb q).fileDescArray j).fileOpsTable = some .dir
  | _ => False

theorem modifyCur_readDirFlag {k k' : Kernel} {f : Pcb → Pcb} (h : k.modifyCur f = some k') :
    k'.readDirFlag = k.readDirFlag := by
  obtain ⟨p, _, rfl⟩ := Option.map_eq_some_iff.mp h
  rfl

theorem sysWriteRtc_readDirFlag {k k' : Kernel} {buf : Option Mem} {nbytes r : Int}
    (h : k.sysWriteRtc buf nbytes = some (r, k')) : k'.readDirFlag = k.readDirFlag := by
  rcases sysWriteRtc_cases h with ⟨_, rfl⟩ | ⟨_, n, _, hn⟩
  · rfl
  · exact modifyCur_readDirFlag hn

theorem sysOpen_readDirFlag {fs : FileSys} {k k' : Kernel} {filename : Option (List UInt8)}
    {r : Int} (h : k.sysOpen fs filename = some (r, k')) : k'.readDirFlag = k.readDirFlag := by
  unfold sysOpen at h
  obtain ⟨p, _, h⟩ := Option.bind_eq_some_iff.mp h
  split at h
  · cases h; rfl
  · split at h
    · cases h; rfl
    · split at h
      · cases h; rfl
      · rename_i x hx
        obtain ⟨k₁, rfl, heq⟩ := Option.map_eq_some_iff.mp h
        cases heq
        unfold openType at hx
        split at hx
        · obtain ⟨k₂, hk₂, hinst⟩ := Option.bind_eq_some_iff.mp (Option.some.inj hx)
          obtain ⟨⟨r, k₃⟩, hw, rfl⟩ := Option.map_eq_some_iff.mp hk₂
          exact (modifyCur_readDirFlag hinst).trans (sysWriteRtc_readDirFlag hw)
        · split at hx
          · exact modifyCur_readDirFlag (Option.some.inj hx)
          · split at hx
            · exact modifyCur_readDirFlag (Option.some.inj hx)
            · cases hx

theorem sysClose_readDirFlag {k k' : Kernel} {fd r : Int} (h : k.sysClose fd = some (r, k')) :
    k'.readDirFlag = k.readDirFlag := by
  unfold sysClose at h
  split at h
  · cases h; rfl
  · obtain ⟨p, _, h⟩ := Option.bind_eq_some_iff.mp h
    dsimp only at h
    split at h
    · cases h; rfl
    · obtain ⟨ops, _, heq⟩ := Option.map_eq_some_iff.mp h
      cases heq
      rfl

theorem sysWrite_readDirFlag {k k' : Kernel} {fd nbytes r : Int} {buf : Option Mem}
    (h : k.sysWrite fd buf nbytes = some (r, k')) : k'.readDirFlag = k.readDirFlag := by
  unfold sysWrite at h
  split at h
  · cases h; rfl
  · split at h
    · cases h; rfl
    · obtain ⟨p, _, h⟩ := Option.bind_eq_some_iff.mp h
      dsimp only at h
      split at h
      · cases h; rfl
      · obtain ⟨ops, _, h⟩ := Option.bind_eq_some_iff.mp h
        cases ops with
        | rtc =>
            unfold writeOp at h
            exact sysWriteRtc_readDirFlag h
        | file => cases h; rfl
        | dir => cases h; rfl
        | stdIn => cases h; rfl
        | stdOut => cases h; rfl

/-- Only a read of the directory moves a position, and only that of the running terminal. -/
theorem sysRead_readDirFlag {fs : FileSys} {k k' : Kernel} {stack : Mem} {fd nbytes : Int}
    {bufNull : Bool} {r : ReadOutcome} (h : k.sysRead fs stack fd bufNull nbytes = some (r, k')) :
    k'.readDirFlag = k.readDirFlag ∨
      (∃ q j, k.ListsThrough q j (.read stack fd bufNull nbytes)) ∧
        k'.readDirFlag = Function.update k.readDirFlag k.processTerminal
          (nextPosition fs (k.readDirFlag k.processTerminal)) := by
  unfold sysRead at h
  split at h
  · cases h
    exact Or.inl rfl
  · rename_i hargs
    obtain ⟨q, hq, h⟩ := Option.bind_eq_some_iff.mp h
    dsimp only at h
    split at h
    · cases h
      exact Or.inl rfl
    · rename_i hflags
      obtain ⟨ops, hops, h⟩ := Option.bind_eq_some_iff.mp h
      cases ops with
      | stdIn =>
          obtain ⟨c, _, heq⟩ := Option.map_eq_some_iff.mp h
          cases heq
          exact Or.inl rfl
      | stdOut =>
          cases h
          exact Or.inl rfl
      | rtc =>
          obtain ⟨k₁, hk₁, heq⟩ := Option.map_eq_some_iff.mp h
          cases heq
          exact Or.inl (modifyCur_readDirFlag hk₁)
      | file =>
          cases h
          refine Or.inl ?_
          unfold sysReadFile
          dsimp only
          split <;> rfl
      | dir =>
          cases h
          have hval := fdIdx_val fd (by omega) (by unfold MAX_FD_IDX at hargs; omega)
          have hbuf : bufNull = false := by
            cases bufNull with
            | false => rfl
            | true => simp at hargs
          refine Or.inr ⟨⟨q, fdIdx fd, hq, hval.symm, hbuf, by omega, hflags, hops⟩, ?_⟩
          unfold sysReadDirectory nextPosition
          dsimp only
          split
          · rw [if_neg (by omega)]
          · rw [if_pos (by omega)]

theorem rtcTick_readDirFlag (k : Kernel) (t : Terminal) :
    (k.rtcTick t).readDirFlag = k.readDirFlag := by
  unfold rtcTick
  split
  · split <;> rfl
  · rfl

theorem sysExecute_readDirFlag {fs : FileSys} {fr : Frame} {command : Option (List UInt8)}
    {k k' : Kernel} {r : ExecResult} (h : k.sysExecute fs fr command = some (r, k')) :
    k'.readDirFlag = k.readDirFlag := by
  have hspec := sysExecute_spec h
  cases r with
  | ret v => exact hspec.2.readDirFlag
  | enter eip image =>
      obtain ⟨p, hp⟩ := hspec
      exact hp.readDirFlag
  | fault =>
      obtain ⟨p, hp⟩ := hspec
      exact hp.readDirFlag

theorem sysHalt_readDirFlag {fs : FileSys} {fr : Frame} {status : UInt8} {k k' : Kernel}
    {r : HaltResult} (h : k.sysHalt fs fr status = some (r, k')) :
    k'.readDirFlag = k.readDirFlag := by
  obtain ⟨q, _, hafter⟩ := sysHalt_eq h
  have hpop : (k.popped q).readDirFlag = k.readDirFlag := rfl
  unfold afterPop at hafter
  split at hafter
  · split at hafter
    · rename_i hexec
      cases hafter
      rw [sysExecute_readDirFlag hexec, hpop]
    · cases hafter
  · cases hafter
    unfold returnToParent
    dsimp only
    split <;> rfl

theorem exceptionHandler_readDirFlag {fs : FileSys} {fr : Frame} {index : Fin 20} {k k' : Kernel}
    {r : HaltResult} (h : k.exceptionHandler fs fr index = some (r, k')) :
    k'.readDirFlag = k.readDirFlag := by
  rw [exceptionHandler_eq] at h
  have hraised : (k.raised index).readDirFlag = k.readDirFlag := by simp only [raised]
  rw [sysHalt_readDirFlag h, hraised]

theorem scheduling_readDirFlag {fs : FileSys} {fr : Frame} {k k' : Kernel}
    (h : k.scheduling fs fr = some k') : k'.readDirFlag = k.readDirFlag := by
  have hnext : (k.scheduled fr).readDirFlag = k.readDirFlag := by
    unfold scheduled nextTerminal
    rw [saveFrame_eq]
  unfold scheduled at hnext
  unfold scheduling at h
  split at h
  · dsimp only at h
    split at h
    · split at h
      · rename_i hexec
        cases h
        rw [sysExecute_readDirFlag hexec, hnext]
      · rename_i hexec
        cases h
        rw [sysExecute_readDirFlag hexec, hnext]
      · cases h
    · cases h
      unfold switchTo
      dsimp only
      split
      · exact hnext
      · split <;> exact hnext
  · cases h
    rfl

/-- **What moves the position of a terminal**: only reads of the directory by its running
process. -/
theorem step_readDirFlag {fs : FileSys} {k k' : Kernel} {e : Event} {t : Terminal}
    (hother : ∀ q j, k.ListsThrough q j e → k.processTerminal ≠ t)
    (h : step fs k e = some k') : k'.readDirFlag t = k.readDirFlag t := by
  cases e with
  | execute fr command =>
      obtain ⟨⟨r, k₁⟩, hr, rfl⟩ := Option.map_eq_some_iff.mp h
      rcases executeCall_spec hr with ⟨hexec, _⟩ | ⟨_, k₂, x, hexec, hexc⟩
      · rw [sysExecute_readDirFlag hexec]
      · rw [exceptionHandler_readDirFlag hexc, sysExecute_readDirFlag hexec]
  | halt fr status =>
      obtain ⟨⟨r, k₁⟩, hr, rfl⟩ := Option.map_eq_some_iff.mp h
      rw [sysHalt_readDirFlag hr]
  | exception fr index =>
      obtain ⟨⟨r, k₁⟩, hr, rfl⟩ := Option.map_eq_some_iff.mp h
      rw [exceptionHandler_readDirFlag hr]
  | pit fr => rw [scheduling_readDirFlag h]
  | rtc =>
      cases h
      show (((k.rtcTick 0).rtcTick 1).rtcTick 2).readDirFlag t = _
      rw [rtcTick_readDirFlag, rtcTick_readDirFlag, rtcTick_readDirFlag]
  | keyboard scancode =>
      obtain ⟨c, _, rfl⟩ := Option.map_eq_some_iff.mp h
      rfl
  | switch n =>
      cases h
      rfl
  | «open» filename =>
      obtain ⟨⟨r, k₁⟩, hr, rfl⟩ := Option.map_eq_some_iff.mp h
      rw [sysOpen_readDirFlag hr]
  | close fd =>
      obtain ⟨⟨r, k₁⟩, hr, rfl⟩ := Option.map_eq_some_iff.mp h
      rw [sysClose_readDirFlag hr]
  | read stack fd bufNull nbytes =>
      obtain ⟨⟨r, k₁⟩, hr, rfl⟩ := Option.map_eq_some_iff.mp h
      rcases sysRead_readDirFlag hr with heq | ⟨⟨q, j, hlists⟩, hmoved⟩
      · rw [heq]
      · rw [hmoved, Function.update_of_ne (Ne.symm (hother q j hlists))]
  | resumeTerminal nbytes =>
      obtain ⟨_, _, rfl⟩ := Option.map_eq_some_iff.mp h
      rfl
  | resumeRtc =>
      have h : k.readRtcFinish = some k' := h
      unfold readRtcFinish at h
      split at h
      · split at h
        · rw [modifyCur_readDirFlag h]
        · cases h
      · cases h
  | write fd buf nbytes =>
      obtain ⟨⟨r, k₁⟩, hr, rfl⟩ := Option.map_eq_some_iff.mp h
      rw [sysWrite_readDirFlag hr]
  | getargs =>
      obtain ⟨_, _, rfl⟩ := Option.map_eq_some_iff.mp h
      rfl
  | vidmap screenStart =>
      obtain ⟨⟨r, k₁⟩, hr, rfl⟩ := Option.map_eq_some_iff.mp h
      rcases sysVidmap_cases hr with ⟨_, rfl⟩ | ⟨_, q, v, _, rfl⟩ <;> rfl
  | draw offset byte =>
      have h : k.drawByte offset byte = some k' := h
      unfold drawByte at h
      split at h
      · split at h
        · cases h
          rfl
        · cases h
      · cases h

/-- Process `p` lives on terminal `t`, and its descriptor `i` is open on the directory. -/
structure Lists (p : Slot) (i : Fin 8) (t : Terminal) (k : Kernel) : Prop where
  lives : OnTerminal p t k
  onStack : OnStack p k
  desc : (k.pcb p).fileDescArray i = dirDesc

theorem Lists.isOpen {p : Slot} {i : Fin 8} {t : Terminal} {k : Kernel} (h : Lists p i t k) :
    ((k.pcb p).fileDescArray i).IsOpen := by
  rw [h.desc]
  exact Nat.one_ne_zero

theorem Lists.step {fs : FileSys} {p : Slot} {i : Fin 8} {t : Terminal} {k k' : Kernel}
    {e : Event} (h : Lists p i t k) (hkeep : KeepsOpen fs p i k e)
    (hstep : Kernel.step fs k e = some k') : Lists p i t k' where
  lives := h.lives.step hkeep.1 hstep
  onStack := h.onStack.step hkeep.1 hstep
  desc := by
    have hsame := h.onStack.desc_step h.isOpen hkeep (fun _ _ _ _ _ hfile => by
      rw [h.desc] at hfile
      cases hfile) hstep
    exact hsame.trans h.desc

/-- A logged read returns what the position says and moves the position on. -/
theorem Lists.readOn_some {fs : FileSys} (hle : fs.entries ≤ DIR_ENTRIES) {p : Slot} {i : Fin 8}
    {t : Terminal} {k k' : Kernel} {e : Event} {x : Nat × Transfer} (h : Lists p i t k)
    (hread : k.readOn fs p i e = some x) (hstep : Kernel.step fs k e = some k') :
    k.processTerminal = t ∧ x.2 = fs.listing (k.readDirFlag t) ∧
      k'.readDirFlag t = nextPosition fs (k.readDirFlag t) := by
  cases e with
  | read stack fd bufNull nbytes =>
      rw [readOn_read] at hread
      split at hread
      · rename_i hthis
        obtain ⟨hcur, rfl, rfl, hn⟩ := hthis
        have ht : k.processTerminal = t := h.lives.running hcur
        have hs : (k.sysRead fs stack i.val false nbytes).map (fun r => r.2) = some k' := hstep
        rw [sysRead_dir fs stack hcur h.desc hn, sysReadDirectory_eq hle, ht] at hread hs
        cases hread
        cases hs
        exact ⟨ht, rfl, Function.update_self ..⟩
      · cases hread
  | _ => cases hread

end Kernel

end Ext2Kernel
