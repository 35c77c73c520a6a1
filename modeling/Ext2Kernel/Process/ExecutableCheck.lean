import Ext2Kernel.Basic.Scan
import Ext2Kernel.Basic.StepSystem
import Ext2Kernel.Process.ExecuteSpec

set_option autoImplicit false

/-! # The stores of the executable check

`_execute_executable_check` asks `read_data` for 4096 bytes, and its buffer is one of the three
rows of 40 bytes of `buf_executable_header`. The stores of the two functions are listed with
their index from `buf_executable_header` on; `executeExecutableCheck` is the header memory after
them.
-/

namespace Ext2Kernel

open ByteMem

/-! ## `read_data` -/

/-- The stores of `read_data` to `buf`, which is not NULL: the buffer is cleared, and then the
bytes are copied. -/
def readDataStores (fs : FileSys) (inode offset buf length : Nat) : List (Nat × UInt8) :=
  if inode ≥ DIR_ENTRIES then []
  else
    storesFrom buf (List.replicate length 0)
      ++ storesFrom buf (readDataBytes fs inode offset length)

theorem storeAll_readDataStores (fs : FileSys) (inode offset buf length : Nat) (m : Mem) :
    storeAll (readDataStores fs inode offset buf length) m
      = overlay m buf (readData fs inode offset false length).stored.length
          (ofList (readData fs inode offset false length).stored) := by
  unfold readDataStores readData
  by_cases hinode : inode ≥ DIR_ENTRIES
  · rw [if_pos hinode, if_pos (Or.inl hinode)]
    exact (overlay_zero m buf _).symm
  · have hle : (readDataBytes fs inode offset length).length ≤ length := readDataLoop_length_le ..
    rw [if_neg hinode, if_neg (by simpa using hinode), storeAll_clear_copy hle]
    dsimp only
    rw [List.length_append, List.length_replicate, Nat.add_sub_cancel' hle]

/-- All stores are inside the `length` bytes of the buffer. -/
theorem mem_readDataStores {fs : FileSys} {inode offset buf length : Nat} {s : Nat × UInt8}
    (h : s ∈ readDataStores fs inode offset buf length) : buf ≤ s.1 ∧ s.1 < buf + length := by
  have hle : (readDataBytes fs inode offset length).length ≤ length := readDataLoop_length_le ..
  unfold readDataStores at h
  split at h
  · cases h
  · rcases List.mem_append.mp h with h | h
    · have := mem_storesFrom h
      rwa [List.length_replicate] at this
    · have := mem_storesFrom h
      omega

/-- For a valid inode, every byte of the buffer is stored to. -/
theorem exists_readDataStores (fs : FileSys) {inode : Nat} (offset buf : Nat) {length i : Nat}
    (hinode : inode < DIR_ENTRIES) (hi : i < length) :
    ∃ s ∈ readDataStores fs inode offset buf length, s.1 = buf + i := by
  obtain ⟨s, hs, heq⟩ := exists_storesFrom (k := buf) (j := i)
    (l := List.replicate length (0 : UInt8)) (by rwa [List.length_replicate])
  refine ⟨s, ?_, heq⟩
  unfold readDataStores
  rw [if_neg (Nat.not_le.mpr hinode)]
  exact List.mem_append_left _ hs

/-! ## `_execute_executable_check` -/

/-- The stores of `_execute_executable_check` to its buffer. -/
def executableCheckStores (fs : FileSys) (buf : Nat) (progName : List UInt8) :
    List (Nat × UInt8) :=
  let cleared := storesFrom buf (List.replicate 4 0)
  match readDentryByName fs (some progName) with
  | none => cleared
  | some d =>
      if d.fileType ≠ FILE_TYPE then cleared
      else cleared ++ readDataStores fs d.inode 0 buf BLOCK_SIZE

theorem storeAll_executableCheckStores (fs : FileSys) (header : Mem) (term : Terminal)
    (progName : List UInt8) :
    storeAll (executableCheckStores fs (HEADER_INFO * term.val) progName) header
      = (executeExecutableCheck fs header term progName).2 := by
  have hclear : storeAll (storesFrom (HEADER_INFO * term.val) (List.replicate 4 0)) header
      = overlay header (HEADER_INFO * term.val) 4 fun _ => 0 := by
    rw [storeAll_storesFrom, List.length_replicate]
    congr 1
    funext i
    simp only [ofList, List.getD_eq_getElem?_getD, List.getElem?_replicate]
    split <;> rfl
  unfold executableCheckStores executeExecutableCheck
  dsimp only
  cases readDentryByName fs (some progName) with
  | none => exact hclear
  | some d =>
      dsimp only
      by_cases htype : d.fileType ≠ FILE_TYPE
      · rw [if_pos htype, if_pos htype]
        exact hclear
      · rw [if_neg htype, if_neg htype, storeAll_append, hclear, storeAll_readDataStores]

/-- The check writes only the header row of `term`. -/
structure HeaderRowOnly (fs : FileSys) (term : Terminal) (progName : List UInt8) : Prop where
  index : ∀ s ∈ executableCheckStores fs (HEADER_INFO * term.val) progName,
    HEADER_INFO * term.val ≤ s.1 ∧ s.1 < HEADER_INFO * term.val + HEADER_INFO
  others : ∀ header x, x < HEADER_INFO * term.val ∨ HEADER_INFO * term.val + HEADER_INFO ≤ x →
    (executeExecutableCheck fs header term progName).2 x = header x

/-- A regular file with a valid inode: the byte behind the row is cleared. -/
theorem executableCheck_passes_row {fs : FileSys} {progName : List UInt8} {d : Dentry}
    (hd : readDentryByName fs (some progName) = some d) (htype : d.fileType = FILE_TYPE)
    (hinode : d.inode < DIR_ENTRIES) (row : Nat) :
    ∃ s ∈ executableCheckStores fs row progName, s.1 = row + HEADER_INFO := by
  have hlt : HEADER_INFO < BLOCK_SIZE := by decide
  obtain ⟨s, hs, heq⟩ := exists_readDataStores fs 0 row hinode hlt
  refine ⟨s, ?_, heq⟩
  unfold executableCheckStores
  rw [hd]
  dsimp only
  rw [if_neg (by rw [htype]; exact fun h => h rfl)]
  exact List.mem_append_right _ hs

/-- **The check writes only its header row exactly when `read_data` refuses**: no regular file
of the name, or one with an invalid inode. For any other file 4096 bytes are stored. -/
theorem headerRowOnly_iff (fs : FileSys) (term : Terminal) (progName : List UInt8) :
    HeaderRowOnly fs term progName ↔
      ∀ d, readDentryByName fs (some progName) = some d → d.fileType = FILE_TYPE →
        DIR_ENTRIES ≤ d.inode := by
  constructor
  · intro h d hd htype
    by_contra hinode
    obtain ⟨s, hs, heq⟩ := executableCheck_passes_row hd htype (Nat.lt_of_not_le hinode)
      (HEADER_INFO * term.val)
    have := h.index s hs
    omega
  · intro h
    -- only the four bytes of the first `memset` are stored
    have hstores : executableCheckStores fs (HEADER_INFO * term.val) progName
        = storesFrom (HEADER_INFO * term.val) (List.replicate 4 0) := by
      unfold executableCheckStores
      dsimp only
      cases hd : readDentryByName fs (some progName) with
      | none => rfl
      | some d =>
          dsimp only
          by_cases htype : d.fileType ≠ FILE_TYPE
          · exact if_pos htype
          · rw [if_neg htype]
            have hnone : readDataStores fs d.inode 0 (HEADER_INFO * term.val) BLOCK_SIZE = [] :=
              if_pos (h d hd (not_not.mp htype))
            rw [hnone, List.append_nil]
    have hindex : ∀ s ∈ executableCheckStores fs (HEADER_INFO * term.val) progName,
        HEADER_INFO * term.val ≤ s.1 ∧ s.1 < HEADER_INFO * term.val + HEADER_INFO := by
      intro s hs
      rw [hstores] at hs
      have hmem := mem_storesFrom hs
      have hsize : 4 ≤ HEADER_INFO := by decide
      rw [List.length_replicate] at hmem
      omega
    refine ⟨hindex, fun header x hx => ?_⟩
    rw [← storeAll_executableCheckStores]
    refine storeAll_out (fun s hs => ?_) header
    have := hindex s hs
    omega

/-- Executing `shell` on the first terminal: the check writes into the row of the second. -/
theorem shell_check_passes_row : ¬ HeaderRowOnly sampleImage 0 (ascii "shell") := by
  intro h
  obtain ⟨d, hd, htype, hinode⟩ : ∃ d, readDentryByName sampleImage (some (ascii "shell")) = some d
      ∧ d.fileType = FILE_TYPE ∧ d.inode < DIR_ENTRIES := by
    have hview : ((readDentryByName sampleImage (some (ascii "shell"))).map fun d =>
        decide (d.fileType = FILE_TYPE ∧ d.inode < DIR_ENTRIES)) = some true := by decide +kernel
    exact StepSystem.exists_of_map_decide hview
  obtain ⟨s, hs, heq⟩ := executableCheck_passes_row hd htype hinode 0
  have hlt := (h.index s hs).2
  rw [heq] at hlt
  exact absurd hlt (by decide)

end Ext2Kernel
