import Ext2Kernel.Basic.Scan
import Ext2Kernel.Process.DescriptorCalls

set_option autoImplicit false

/-! # Opening a regular file

`_sys_open_file` looks the name up a second time, through a copy in a local array of 32 bytes.
The copy stops after 32 characters and then stores the terminator behind them, so that a name
that uses all 32 bytes of its directory entry is terminated outside the array. The indices at
which the function touches the array are listed.
-/

namespace Ext2Kernel

open ByteMem

/-! ## The copy -/

/-- The copy loop of `_sys_open_file` from index `i` on, with `n` rounds left, and the
terminator: the stores to `file`. -/
def copyFilename (filename : Mem) : Nat → Nat → List (Nat × UInt8)
  | 0, i => [(i, 0)]
  | n + 1, i =>
      if filename i = 0 then [(i, 0)] else (i, filename i) :: copyFilename filename n (i + 1)

/-- The copy stores the first `n` characters and a NUL. -/
theorem copyFilename_ofList (l : List UInt8) (n i : Nat) :
    let name := ((l.drop i).takeWhile (· ≠ 0)).take n
    copyFilename (ofList l) n i = storesFrom i name ++ [(i + name.length, 0)] := by
  induction n generalizing i with
  | zero => rfl
  | succ n ih =>
      have hhead := ofList_drop l i
      dsimp only at ih ⊢
      unfold copyFilename
      rw [hhead]
      cases hdrop : l.drop i with
      | nil => exact if_pos rfl
      | cons b t =>
          have hb₀ : ofList (b :: t) 0 = b := rfl
          rw [hb₀]
          by_cases hb : b = 0
          · rw [if_pos hb, List.takeWhile_cons_of_neg (by simpa using hb)]
            rfl
          · rw [if_neg hb, List.takeWhile_cons_of_pos (by simpa using hb), List.take_succ_cons,
              ih, drop_succ_of_drop hdrop, List.length_cons, Nat.add_assoc i 1,
              Nat.add_comm 1]
            rfl

/-! ## The reads of the lookup -/

/-- The indices `strlen` reads, in at most `n` rounds. -/
def strlenReads (s : Mem) : Nat → Nat → List Nat
  | 0, _ => []
  | n + 1, i => i :: if s i = 0 then [] else strlenReads s n (i + 1)

/-- The indices of `s₁` that `strncmp` reads. -/
def strncmpReads (s₁ s₂ : Mem) : Nat → Nat → List Nat
  | 0, _ => []
  | n + 1, i => i :: if s₁ i ≠ s₂ i ∨ s₁ i = 0 then [] else strncmpReads s₁ s₂ n (i + 1)

/-- The comparisons of `read_dentry_by_name` with the entries from `i` on. -/
def readDentryLoopReads (fs : FileSys) (file : Mem) : Nat → Nat → List Nat
  | 0, _ => []
  | rest + 1, i =>
      let entry : Mem := fun j => fs.mem (addr (fs.dentryAddr i + j))
      strncmpReads file entry FILENAME_LEN 0 ++
        if strncmp file entry FILENAME_LEN 0 = 0 then []
        else readDentryLoopReads fs file rest (i + 1)

/-- The indices of the copy that `read_dentry_by_name` reads. The copy has at most 32 characters,
so that its length is accepted. -/
def readDentryByNameReads (fs : FileSys) (file : Mem) : List Nat :=
  0 :: if file 0 = 0 then []
    else strlenReads file (FILENAME_LEN + 1) 0 ++ readDentryLoopReads fs file DIR_ENTRIES 0

/-- The indices at which `_sys_open_file` touches its array; `stack` is what the array held
before. -/
def fileTouched (fs : FileSys) (filename stack : Mem) : List Nat :=
  let stores := copyFilename filename FILENAME_LEN 0
  stores.map (·.1) ++ readDentryByNameReads fs (storeAll stores stack)

/-- The indices at which `sys_open` does: only its branch for regular files copies the name. -/
def openTouched (fs : FileSys) (filename : List UInt8) (stack : Mem) : List Nat :=
  match readDentryByName fs (some filename) with
  | some d => if d.fileType = FILE_TYPE then fileTouched fs (ofList filename) stack else []
  | none => []

/-- `strlen` does not read past a NUL. -/
theorem strlenReads_le {s : Mem} {n i j x : Nat} (hz : s j = 0) (hij : i ≤ j)
    (hx : x ∈ strlenReads s n i) : x ≤ j := by
  induction n generalizing i with
  | zero => cases hx
  | succ n ih =>
      unfold strlenReads at hx
      rcases List.mem_cons.mp hx with rfl | hx
      · exact hij
      · by_cases hi : s i = 0
        · rw [if_pos hi] at hx
          cases hx
        · rw [if_neg hi] at hx
          have hne : i ≠ j := fun h => hi (h ▸ hz)
          exact ih (by omega) hx

theorem strncmpReads_lt {s₁ s₂ : Mem} {n i x : Nat} (hx : x ∈ strncmpReads s₁ s₂ n i) :
    x < i + n := by
  induction n generalizing i with
  | zero => cases hx
  | succ n ih =>
      unfold strncmpReads at hx
      rcases List.mem_cons.mp hx with rfl | hx
      · omega
      · split at hx
        · cases hx
        · have := ih hx
          omega

theorem readDentryLoopReads_lt {fs : FileSys} {file : Mem} {rest i x : Nat}
    (hx : x ∈ readDentryLoopReads fs file rest i) : x < FILENAME_LEN := by
  induction rest generalizing i with
  | zero => cases hx
  | succ rest ih =>
      unfold readDentryLoopReads at hx
      rcases List.mem_append.mp hx with hx | hx
      · have := strncmpReads_lt hx
        omega
      · split at hx
        · cases hx
        · exact ih hx

/-! ## The array holds names of up to 31 characters -/

/-- **The array is touched only inside exactly for the names that leave room for the
terminator.** -/
theorem fileTouched_lt_iff (fs : FileSys) (filename : List UInt8) :
    (∀ stack, ∀ x ∈ fileTouched fs (ofList filename) stack, x < FILENAME_LEN) ↔
      strlen filename < FILENAME_LEN := by
  have hcopy : copyFilename (ofList filename) FILENAME_LEN 0
      = storesFrom 0 ((filename.takeWhile (· ≠ 0)).take FILENAME_LEN)
        ++ [(((filename.takeWhile (· ≠ 0)).take FILENAME_LEN).length, 0)] := by
    have h := copyFilename_ofList filename FILENAME_LEN 0
    dsimp only at h
    rwa [List.drop_zero, Nat.zero_add] at h
  have hlen : ((filename.takeWhile (· ≠ 0)).take FILENAME_LEN).length
      = min FILENAME_LEN (strlen filename) := List.length_take
  constructor
  · -- The terminator lies behind what has been copied.
    intro h
    have hend := h (fun _ => 0) (min FILENAME_LEN (strlen filename)) (by
      refine List.mem_append_left _ ?_
      rw [hcopy, hlen, List.map_append]
      exact List.mem_append_right _ List.mem_cons_self)
    omega
  · intro hshort stack x hx
    rcases List.mem_append.mp hx with hx | hx
    · obtain ⟨s, hs, rfl⟩ := List.mem_map.mp hx
      rw [hcopy] at hs
      rcases List.mem_append.mp hs with hs | hs
      · have := mem_storesFrom hs
        omega
      · rw [List.mem_singleton.mp hs]
        omega
    · -- the terminator ends the reads
      have hnul : storeAll (copyFilename (ofList filename) FILENAME_LEN 0) stack
          (min FILENAME_LEN (strlen filename)) = 0 := by
        rw [hcopy, hlen, storeAll_append]
        exact Function.update_self ..
      unfold readDentryByNameReads at hx
      rcases List.mem_cons.mp hx with rfl | hx
      · decide
      · split at hx
        · cases hx
        · rcases List.mem_append.mp hx with hx | hx
          · have := strlenReads_le hnul (Nat.zero_le _) hx
            omega
          · exact readDentryLoopReads_lt hx

namespace Kernel

/-! ## `sys_open` -/

/-- The operations table of a file type. -/
def typeOps (fileType : Nat) : Option FileOps :=
  if fileType = RTC_TYPE then some .rtc
  else if fileType = DIRECTORY_TYPE then some .dir
  else if fileType = FILE_TYPE then some .file
  else none

/-- The descriptor that is installed for an entry of known type. -/
theorem openedDesc_typeOps {d : Dentry} {ops : FileOps} (h : typeOps d.fileType = some ops) :
    ∃ inode, openedDesc d = some ⟨some ops, inode, 0, 1⟩ ∧
      (d.fileType = FILE_TYPE → inode = d.inode) := by
  have hrtc : RTC_TYPE ≠ FILE_TYPE := by decide
  have hdir : DIRECTORY_TYPE ≠ FILE_TYPE := by decide
  unfold typeOps at h
  unfold openedDesc
  split at h
  · rename_i htype
    cases h
    exact ⟨0, if_pos htype, fun hfile => absurd (htype.symm.trans hfile) hrtc⟩
  · rename_i hnot
    rw [if_neg hnot]
    split at h
    · rename_i htype
      cases h
      exact ⟨0, if_pos htype, fun hfile => absurd (htype.symm.trans hfile) hdir⟩
    · rename_i hnot'
      rw [if_neg hnot']
      split at h
      · rename_i htype
        cases h
        exact ⟨d.inode, if_pos htype, fun _ => rfl⟩
      · cases h

/-- `sys_open` opens the entry `d`: the descriptor has the operations of its type and, for a
regular file, its inode, and the array of `_sys_open_file` is touched only inside. -/
structure OpensEntry (fs : FileSys) (k : Kernel) (p : Slot) (name : List UInt8) (d : Dentry)
    (i : Fin 8) : Prop where
  opens : ∃ ops inode k', k.sysOpen fs (some name) = some ((i.val : Int), k') ∧
    (k'.pcb p).fileDescArray i = ⟨some ops, inode, 0, 1⟩ ∧ typeOps d.fileType = some ops ∧
    (d.fileType = FILE_TYPE → inode = d.inode)
  inside : ∀ stack, ∀ x ∈ openTouched fs name stack, x < FILENAME_LEN

/-- **Opening an entry is safe exactly if it is not a regular file or its name has at most 31
characters.** The descriptor is the right one in any case. -/
theorem opensEntry_iff {fs : FileSys} {k : Kernel} {p : Slot} {name : List UInt8} {d : Dentry}
    {ops : FileOps} {i : Fin 8} (hcur : k.cur = some p)
    (hd : readDentryByName fs (some name) = some d) (htype : typeOps d.fileType = some ops)
    (hfree : freeFd (k.pcb p) = some i) :
    OpensEntry fs k p name d i ↔ (d.fileType = FILE_TYPE → strlen name < FILENAME_LEN) := by
  constructor
  · intro hopens hfile
    refine (fileTouched_lt_iff fs name).mp fun stack x hx => ?_
    refine hopens.inside stack x ?_
    unfold openTouched
    rw [hd]
    dsimp only
    rw [if_pos hfile]
    exact hx
  · intro hshort
    obtain ⟨inode, hdesc, hinode⟩ := openedDesc_typeOps htype
    obtain ⟨k', hk', hsets⟩ := openType_sets hcur hd hdesc i
    refine ⟨⟨ops, inode, k', ?_, ?_, htype, hinode⟩, fun stack x hx => ?_⟩
    · unfold sysOpen
      rw [hcur, Option.bind_some, hfree, hd]
      dsimp only [Option.getD_some]
      rw [hk']
      rfl
    · rw [hsets.table, Function.update_self]
    · unfold openTouched at hx
      rw [hd] at hx
      dsimp only at hx
      split at hx
      · rename_i hfile
        exact (fileTouched_lt_iff fs name).mpr (hshort hfile) stack x hx
      · cases hx

/-- The first shell opens `shell`. -/
theorem opensEntry_iff_shell : ∃ k d i, Reachable sampleImage k ∧ k.cur = some 0 ∧
    (OpensEntry sampleImage k 0 shellCommand d i ↔
      (d.fileType = FILE_TYPE → strlen shellCommand < FILENAME_LEN)) := by
  have hview : (step sampleImage (boot zeroMemory) (.pit zeroFrame)).map
      (fun k => decide (k.cur = some 0 ∧ freeFd (k.pcb 0) = some 2)) = some true := by
    decide +kernel
  obtain ⟨k, hk, hcur, hfree⟩ := StepSystem.exists_of_map_decide hview
  exact ⟨k, _, 2, ⟨zeroMemory, (StepSystem.Reachable.refl _).trans_step hk⟩, hcur,
    opensEntry_iff hcur sampleImage_shell.found (show typeOps _ = some .file from rfl) hfree⟩

/-- The small image with a name of 32 characters instead of `big`. -/
def longNameImage : FileSys :=
  { sampleImage with
    mem := fun a => if 192 ≤ a ∧ a < 224 then 97 else sampleImage.mem a }

/-- Opening the file of the long name stores the terminator behind the array. -/
theorem long_name_passes_array :
    ¬ ∀ (fs : FileSys) (k : Kernel) (p : Slot) (name : List UInt8) (d : Dentry) (i : Fin 8),
      Reachable fs k → k.cur = some p → 1 ≤ strlen name → strlen name ≤ FILENAME_LEN →
      readDentryByName fs (some name) = some d → (typeOps d.fileType).isSome = true →
      freeFd (k.pcb p) = some i → OpensEntry fs k p name d i := by
  intro hall
  have hview : (step longNameImage (boot zeroMemory) (.pit zeroFrame)).map
      (fun k => decide (k.cur = some 0 ∧ freeFd (k.pcb 0) = some 2)) = some true := by
    decide +kernel
  obtain ⟨k, hk, hcur, hfree⟩ := StepSystem.exists_of_map_decide hview
  have hd : readDentryByName longNameImage (some (List.replicate 32 97))
      = some (sampleDentry (List.replicate 32 97) 1) := by decide +kernel
  have hopens := hall longNameImage k 0 (List.replicate 32 97) _ 2
    ⟨zeroMemory, (StepSystem.Reachable.refl _).trans_step hk⟩ hcur (by decide) (by decide) hd rfl
    hfree
  have htouched : openTouched longNameImage (List.replicate 32 97)
      = fileTouched longNameImage (ofList (List.replicate 32 97)) := by
    funext stack
    unfold openTouched
    rw [hd]
    exact if_pos rfl
  have hinside := hopens.inside
  rw [htouched] at hinside
  exact absurd ((fileTouched_lt_iff _ _).mp hinside) (by decide)

end Kernel

end Ext2Kernel
