import Ext2Kernel.Basic.ByteMem

set_option autoImplicit false

/-! # The file-system image

The image of `filesys.c`: a boot block with the directory, one 4KB block for each inode, and
the data blocks. `FileSys` is the memory the kernel reads it from, with the address the boot
loader put it at; `filesysInit` derives the three pointers. All pointer arithmetic is on
32-bit words.

An image is read-only: nothing in the kernel stores into it.
-/

namespace Ext2Kernel

open ByteMem

/-! ## Constants -/

def DIR_ENTRIES : Nat := 63
def FILENAME_LEN : Nat := 32
def INODE_SIZE : Nat := 1023
def BLOCK_SIZE : Nat := 4096

/-- The dentry types `RTC`, `DIRECTORY` and `FILE`. -/
def RTC_TYPE : Nat := 0
def DIRECTORY_TYPE : Nat := 1
def FILE_TYPE : Nat := 2

/-! ## Strings -/

/-- `strncmp`: the difference at the first position below `n` where the strings differ or
both end. -/
def strncmp (s₁ s₂ : Mem) : Nat → Nat → Int
  | 0, _ => 0
  | n + 1, i =>
      if s₁ i ≠ s₂ i ∨ s₁ i = 0 then asInt8 (s₁ i) - asInt8 (s₂ i)
      else strncmp s₁ s₂ n (i + 1)

/-- `strlen` of the NUL-terminated string at the start of `l`. -/
def strlen (l : List UInt8) : Nat := (l.takeWhile (· ≠ 0)).length

/-! ## The image and its pointers -/

structure FileSys where
  mem : Mem
  /-- `mod_start` of the module the boot loader loaded. -/
  modStart : Nat

/-- Addresses are 32-bit. -/
def addr (n : Nat) : Nat := n % 4294967296

namespace FileSys

def bootBlock (fs : FileSys) : Nat := addr fs.modStart

/-- `boot_block->entries`, `boot_block->inodes` and `boot_block->datablocks`. -/
def entries (fs : FileSys) : Nat := word fs.mem fs.bootBlock
def inodes (fs : FileSys) : Nat := word fs.mem (addr (fs.bootBlock + 4))
def datablocks (fs : FileSys) : Nat := word fs.mem (addr (fs.bootBlock + 8))

/-- `filesys_init`: the inodes follow the boot block, the data blocks follow the inodes. -/
def inodeHead (fs : FileSys) : Nat := addr (fs.modStart + BLOCK_SIZE)
def dataBlocks (fs : FileSys) : Nat := addr (BLOCK_SIZE * fs.inodes + fs.inodeHead)

/-- `&inode_head[inode]`. -/
def inodeAddr (fs : FileSys) (inode : Nat) : Nat := addr (fs.inodeHead + BLOCK_SIZE * inode)

/-- `inode_head[inode].length`. -/
def fileLength (fs : FileSys) (inode : Nat) : Nat := word fs.mem (fs.inodeAddr inode)

/-- `inode_head[inode].datablock_nums[i]`; an index past the array reads on behind it. -/
def datablockNum (fs : FileSys) (inode i : Nat) : Nat :=
  word fs.mem (addr (fs.inodeAddr inode + 4 + 4 * i))

end FileSys

/-! ## Directory entries -/

/-- The fields of a `dentry_t` the kernel reads. -/
structure Dentry where
  fileName : List UInt8
  fileType : Nat
  inode : Nat
  deriving DecidableEq

/-- The address of `boot_block->dir_entries[index]`: 64 bytes each, after 64 bytes of
statistics. -/
def FileSys.dentryAddr (fs : FileSys) (index : Nat) : Nat :=
  addr (fs.bootBlock + 64 + 64 * index)

/-- `read_dentry_by_index`; `none` is the return value -1. -/
def readDentryByIndex (fs : FileSys) (index : Nat) : Option Dentry :=
  if index ≥ DIR_ENTRIES then none
  else
    let temp := fs.dentryAddr index
    some {
      fileName := (List.range FILENAME_LEN).map fun i => fs.mem (addr (temp + i))
      fileType := word fs.mem (addr (temp + 32))
      inode := word fs.mem (addr (temp + 36)) }

/-- Does entry `index` match the name? All 63 entries are compared, used or not. -/
def FileSys.nameMatches (fs : FileSys) (fname : List UInt8) (index : Nat) : Bool :=
  strncmp (ofList fname) (fun i => fs.mem (addr (fs.dentryAddr index + i))) FILENAME_LEN 0 = 0

/-- `read_dentry_by_name`; `none` as argument is the NULL pointer, as result -1. -/
def readDentryByName (fs : FileSys) : Option (List UInt8) → Option Dentry
  | none => none
  | some fname =>
      if ofList fname 0 = 0 then none
      else if strlen fname > FILENAME_LEN then none
      else
        match (List.range DIR_ENTRIES).find? (fs.nameMatches fname) with
        | some i => readDentryByIndex fs i
        | none => none

/-! ## Lookups see only the string

The kernel looks the same name up several times, through different copies of it. A lookup
depends only on the characters before the terminator. -/

theorem strncmp_congr {s₁ s₁' s₂ : Mem} : ∀ (n i : Nat),
    (∀ j, i ≤ j → j < i + n → (∀ m, i ≤ m → m < j → s₁ m ≠ 0) → s₁' j = s₁ j) →
    strncmp s₁' s₂ n i = strncmp s₁ s₂ n i
  | 0, _, _ => rfl
  | n + 1, i, h => by
      have hi : s₁' i = s₁ i := h i (Nat.le_refl i) (by omega) (fun m _ _ => by omega)
      unfold strncmp
      rw [hi]
      by_cases hz : s₁ i = 0
      · rw [if_pos (Or.inr hz), if_pos (Or.inr hz)]
      · have ih := @strncmp_congr s₁ s₁' s₂ n (i + 1)
          (fun j hj hlt hm => h j (by omega) (by omega) (fun m hm₁ hm₂ => by
            rcases Nat.eq_or_lt_of_le hm₁ with rfl | hgt
            · exact hz
            · exact hm m hgt hm₂))
        rw [ih]

/-- Strings that agree compare equal. -/
theorem strncmp_of_agree {s₁ s₂ : Mem} : ∀ (n i : Nat),
    (∀ j, i ≤ j → j < i + n → s₁ j = s₂ j) → strncmp s₁ s₂ n i = 0
  | 0, _, _ => rfl
  | n + 1, i, h => by
      have hi : s₁ i = s₂ i := h i (Nat.le_refl i) (by omega)
      unfold strncmp
      rw [hi, Int.sub_self, strncmp_of_agree n (i + 1) fun j hj hlt => h j (by omega) (by omega),
        ite_self]

/-- Strings that compare equal agree up to the first terminator. -/
theorem agree_of_strncmp {s₁ s₂ : Mem} : ∀ (n i : Nat), strncmp s₁ s₂ n i = 0 →
    ∀ j, i ≤ j → j < i + n → (∀ m, i ≤ m → m < j → s₁ m ≠ 0) → s₁ j = s₂ j
  | 0, _, _, _, _, _, _ => by omega
  | n + 1, i, h, j, hij, hlt, hm => by
      unfold strncmp at h
      split at h
      · rename_i hdiff
        have heq : s₁ i = s₂ i := asInt8_inj (by omega)
        have hz : s₁ i = 0 := hdiff.resolve_left fun hne => hne heq
        have hji : j = i := by
          by_contra hne
          exact hm i (Nat.le_refl i) (by omega) hz
        rw [hji, heq]
      · rename_i hsame
        by_cases hji : j = i
        · rw [hji]
          exact not_not.mp fun hne => hsame (Or.inl hne)
        · exact agree_of_strncmp n (i + 1) h j (by omega) (by omega)
            fun m hm₁ hm₂ => hm m (by omega) hm₂

/-- The string at the start of `l`, and `l` itself, agree up to the terminator. -/
theorem ofList_takeWhile (l : List UInt8) (j : Nat) (h : ∀ m < j, ofList l m ≠ 0) :
    ofList (l.takeWhile (· ≠ 0)) j = ofList l j := by
  induction l generalizing j with
  | nil => rfl
  | cons b t ih =>
      by_cases hb : b = 0
      · cases j with
        | zero => simp [ofList, hb]
        | succ j => exact absurd (by simpa [ofList] using hb) (h 0 (Nat.succ_pos j))
      · rw [List.takeWhile_cons_of_pos (by simpa using hb)]
        cases j with
        | zero => rfl
        | succ j =>
            have := ih j (fun m hm => by simpa [ofList] using h (m + 1) (Nat.succ_lt_succ hm))
            simpa [ofList] using this

/-- A lookup depends only on the string its argument holds. -/
theorem readDentryByName_congr (fs : FileSys) {f g : List UInt8}
    (h : f.takeWhile (· ≠ 0) = g.takeWhile (· ≠ 0)) :
    readDentryByName fs (some f) = readDentryByName fs (some g) := by
  have hmatch : fs.nameMatches f = fs.nameMatches g := by
    funext index
    have key : ∀ l : List UInt8,
        strncmp (ofList (l.takeWhile (· ≠ 0)))
            (fun i => fs.mem (addr (fs.dentryAddr index + i))) FILENAME_LEN 0
          = strncmp (ofList l) (fun i => fs.mem (addr (fs.dentryAddr index + i)))
              FILENAME_LEN 0 := fun l =>
      strncmp_congr _ _ fun j _ _ hm => ofList_takeWhile l j fun m hlt => hm m (Nat.zero_le m) hlt
    unfold FileSys.nameMatches
    rw [← key f, ← key g, h]
  have hhead : ofList f 0 = ofList g 0 := by
    rw [← ofList_takeWhile f 0 (fun m hm => by omega),
      ← ofList_takeWhile g 0 (fun m hm => by omega), h]
  have hlen : strlen f = strlen g := by unfold strlen; rw [h]
  unfold readDentryByName
  simp only [hmatch, hhead, hlen]

theorem readDentryByName_strlen {fs : FileSys} {f : List UInt8} {d : Dentry}
    (h : readDentryByName fs (some f) = some d) : strlen f ≤ FILENAME_LEN := by
  by_contra hlt
  unfold readDentryByName at h
  simp only [gt_iff_lt] at h
  rw [if_pos (Nat.lt_of_not_le hlt)] at h
  split at h <;> cases h

/-! ## A small image

A directory, two executables and the RTC. `shell` is four bytes long, `big` is as long as the
format allows. -/

/-- Directory entry `index` of the small image: its name, type and inode. -/
def sampleEntry : Nat → List UInt8 × Nat × Nat
  | 0 => (ascii ".", DIRECTORY_TYPE, 0)
  | 1 => (ascii "shell", FILE_TYPE, 0)
  | 2 => (ascii "big", FILE_TYPE, 1)
  | 3 => (ascii "rtc", RTC_TYPE, 0)
  | _ => ([], 0, 0)

/-- The boot block has four entries and two inodes; all blocks are block 0. The length of
`big` is `0x3FF000`, that is 1023 blocks. -/
def sampleImage : FileSys where
  modStart := 0
  mem := fun a =>
    if a < 64 then (if a = 0 then 4 else if a = 4 then 2 else 0)
    else if a < 4096 then
      let e := sampleEntry ((a - 64) / 64)
      let i := (a - 64) % 64
      if i < 32 then ofList e.1 i
      else if i = 32 then UInt8.ofNat e.2.1
      else if i = 36 then UInt8.ofNat e.2.2
      else 0
    else if a = 4096 then 3
    else if a = 8193 then 0xF0
    else if a = 8194 then 0x3F
    else if 12288 ≤ a then ofList [0x7F, 0x45, 0x4C, 0x46] (a - 12288)
    else 0

example : readDentryByName sampleImage (some (ascii "shell"))
    = readDentryByIndex sampleImage 1 := by decide +kernel

end Ext2Kernel
