import Ext2Kernel.FileSys.Image

set_option autoImplicit false

/-! # The directory

`read_dentry_by_name` and `read_dentry_by_index` with the dentry their caller passes, which a
failed lookup leaves as it was. `readDentryByName` and `readDentryByIndex` are what a caller
sees that looks at the dentry of a successful lookup only.

Names are compared with `strncmp` over the 32 bytes of the name field. A field holds the string
before its first NUL, or all 32 bytes, and `strncmp_eq_zero_iff` says that the comparison finds
exactly equal strings. From that, `lookup_inverts_index`: a lookup by name finds entry `i` for
the name of entry `i`, and nothing for any other string.
-/

namespace Ext2Kernel

open ByteMem

/-! ## The lookups and their dentry -/

/-- `read_dentry_by_index(index, dentry)`: the return value and the dentry afterwards. -/
def readDentryByIndexInto (fs : FileSys) (index : Nat) : Option Dentry → Int × Option Dentry
  | none => (-1, none)
  | some dentry =>
      if index ≥ DIR_ENTRIES then (-1, some dentry)
      else
        let temp := fs.dentryAddr index
        (0, some { dentry with
          fileType := word fs.mem (addr (temp + 32))
          inode := word fs.mem (addr (temp + 36))
          fileName := (List.range FILENAME_LEN).map fun i => fs.mem (addr (temp + i)) })

/-- The loop of `read_dentry_by_name` over the entries from `i` on. -/
def readDentryLoop (fs : FileSys) (fname : List UInt8) (dentry : Option Dentry) :
    Nat → Nat → Int × Option Dentry
  | 0, _ => (-1, dentry)
  | rest + 1, i =>
      if strncmp (ofList fname) (fun j => fs.mem (addr (fs.dentryAddr i + j))) FILENAME_LEN 0 = 0
      then readDentryByIndexInto fs i dentry
      else readDentryLoop fs fname dentry rest (i + 1)

/-- `read_dentry_by_name(fname, dentry)`. -/
def readDentryByNameInto (fs : FileSys) (fname : Option (List UInt8)) (dentry : Option Dentry) :
    Int × Option Dentry :=
  match fname, dentry with
  | some f, some d =>
      if ofList f 0 = 0 then (-1, some d)
      else if strlen f > FILENAME_LEN then (-1, some d)
      else readDentryLoop fs f (some d) DIR_ENTRIES 0
  | _, d => (-1, d)

/-- What a lookup does with its dentry, by the entry it found. -/
def lookupInto (dentry : Dentry) (found : Option Dentry) : Int × Option Dentry :=
  found.elim (-1, some dentry) fun d => (0, some d)

theorem readDentryByIndexInto_eq (fs : FileSys) (index : Nat) (dentry : Dentry) :
    readDentryByIndexInto fs index (some dentry)
      = lookupInto dentry (readDentryByIndex fs index) := by
  unfold readDentryByIndexInto readDentryByIndex
  dsimp only
  by_cases h : index ≥ DIR_ENTRIES
  · rw [if_pos h, if_pos h]
    rfl
  · rw [if_neg h, if_neg h]
    rfl

/-- The loop stops at the first entry that matches. -/
theorem readDentryLoop_eq (fs : FileSys) (fname : List UInt8) (dentry : Dentry) :
    ∀ (rest i : Nat), readDentryLoop fs fname (some dentry) rest i
      = lookupInto dentry
          (((List.range' i rest).find? (fs.nameMatches fname)).bind (readDentryByIndex fs))
  | 0, _ => rfl
  | rest + 1, i => by
      unfold readDentryLoop
      rw [List.range'_succ]
      by_cases h : strncmp (ofList fname) (fun j => fs.mem (addr (fs.dentryAddr i + j)))
          FILENAME_LEN 0 = 0
      · have hmatch : fs.nameMatches fname i = true := decide_eq_true h
        rw [if_pos h, List.find?_cons_of_pos hmatch, readDentryByIndexInto_eq]
        rfl
      · rw [if_neg h, List.find?_cons_of_neg (by simpa [FileSys.nameMatches] using h)]
        exact readDentryLoop_eq fs fname dentry rest (i + 1)

theorem readDentryByNameInto_eq (fs : FileSys) (fname : List UInt8) (dentry : Dentry) :
    readDentryByNameInto fs (some fname) (some dentry)
      = lookupInto dentry (readDentryByName fs (some fname)) := by
  unfold readDentryByNameInto readDentryByName
  dsimp only
  by_cases hempty : ofList fname 0 = 0
  · rw [if_pos hempty, if_pos hempty]
    rfl
  · rw [if_neg hempty, if_neg hempty]
    by_cases hlong : strlen fname > FILENAME_LEN
    · rw [if_pos hlong, if_pos hlong]
      rfl
    · rw [if_neg hlong, if_neg hlong, readDentryLoop_eq, List.range_eq_range']
      cases (List.range' 0 DIR_ENTRIES).find? (fs.nameMatches fname) <;> rfl

/-! ## Strings in fields -/

/-- The string in a field of `n` bytes from index `i` on: it ends at a NUL or with the field. -/
def fieldString (s : Mem) : Nat → Nat → List UInt8
  | 0, _ => []
  | n + 1, i => if s i = 0 then [] else s i :: fieldString s n (i + 1)

theorem fieldString_length_le (s : Mem) : ∀ n i, (fieldString s n i).length ≤ n
  | 0, _ => Nat.le_refl 0
  | n + 1, i => by
      unfold fieldString
      split
      · exact Nat.zero_le _
      · exact Nat.succ_le_succ (fieldString_length_le s n (i + 1))

/-- **`strncmp` compares the strings in its two fields.** -/
theorem strncmp_eq_zero_iff (s₁ s₂ : Mem) : ∀ n i,
    strncmp s₁ s₂ n i = 0 ↔ fieldString s₁ n i = fieldString s₂ n i
  | 0, _ => ⟨fun _ => rfl, fun _ => rfl⟩
  | n + 1, i => by
      have ih := strncmp_eq_zero_iff s₁ s₂ n (i + 1)
      unfold strncmp fieldString
      by_cases hne : s₁ i = s₂ i
      · rw [← hne]
        by_cases hz : s₁ i = 0
        · rw [if_pos (Or.inr hz), if_pos hz, if_pos hz, Int.sub_self]
          exact ⟨fun _ => rfl, fun _ => rfl⟩
        · rw [if_neg (by simp [hz]), if_neg hz, if_neg hz, ih]
          exact ⟨fun h => by rw [h], fun h => (List.cons.inj h).2⟩
      · have hdiff : asInt8 (s₁ i) - asInt8 (s₂ i) ≠ 0 := fun h => hne (asInt8_inj (by omega))
        rw [if_pos (Or.inl hne)]
        refine iff_of_false hdiff fun h => ?_
        by_cases h₁ : s₁ i = 0
        · rw [if_pos h₁, if_neg fun h₂ => hne (h₁.trans h₂.symm)] at h
          cases h
        · by_cases h₂ : s₂ i = 0
          · rw [if_neg h₁, if_pos h₂] at h
            cases h
          · rw [if_neg h₁, if_neg h₂] at h
            exact hne (List.cons.inj h).1

theorem fieldString_shift (b : UInt8) (l : List UInt8) : ∀ n i,
    fieldString (ofList (b :: l)) n (i + 1) = fieldString (ofList l) n i
  | 0, _ => rfl
  | n + 1, i => by
      unfold fieldString
      rw [fieldString_shift b l n (i + 1)]
      rfl

/-- A NUL-terminated string that is not longer than the field. -/
theorem fieldString_ofList {n : Nat} {l : List UInt8} (h : strlen l ≤ n) :
    fieldString (ofList l) n 0 = l.takeWhile (· ≠ 0) := by
  induction l generalizing n with
  | nil => cases n <;> rfl
  | cons b t ih =>
      by_cases hb : b = 0
      · rw [List.takeWhile_cons_of_neg (by simpa using hb)]
        cases n with
        | zero => rfl
        | succ n => exact if_pos hb
      · unfold strlen at h
        rw [List.takeWhile_cons_of_pos (by simpa using hb)] at h ⊢
        cases n with
        | zero => exact absurd h (Nat.not_succ_le_zero _)
        | succ n =>
            show (if b = 0 then [] else b :: fieldString (ofList (b :: t)) n 1) = _
            rw [if_neg hb, fieldString_shift, ih (Nat.le_of_succ_le_succ h)]

/-! ## Directories with distinct names -/

/-- The name of entry `i`. -/
def FileSys.entryName (fs : FileSys) (i : Nat) : List UInt8 :=
  fieldString (fun j => fs.mem (addr (fs.dentryAddr i + j))) FILENAME_LEN 0

/-- The used entries have pairwise distinct, non-empty names, and the other name fields of the
boot block are empty. -/
structure FileSys.NamedDirectory (fs : FileSys) : Prop where
  entries_le : fs.entries ≤ DIR_ENTRIES
  nonempty : ∀ i < fs.entries, fs.entryName i ≠ []
  distinct : ∀ i < fs.entries, ∀ j < fs.entries, fs.entryName i = fs.entryName j → i = j
  unused : ∀ i < DIR_ENTRIES, fs.entries ≤ i → fs.entryName i = []

/-- The comparison of the lookup, on strings. -/
theorem nameMatches_iff {fs : FileSys} {fname : List UInt8} {i : Nat}
    (h : strlen fname ≤ FILENAME_LEN) :
    fs.nameMatches fname i = true ↔ fname.takeWhile (· ≠ 0) = fs.entryName i := by
  unfold FileSys.nameMatches
  rw [decide_eq_true_eq, strncmp_eq_zero_iff, fieldString_ofList h]
  rfl

theorem ofList_zero_ne {fname : List UInt8} (h : fname.takeWhile (· ≠ 0) ≠ []) :
    ofList fname 0 ≠ 0 := by
  intro hz
  apply h
  cases fname with
  | nil => rfl
  | cons b t => exact List.takeWhile_cons_of_neg (by simpa [ofList] using hz)

/-- The name of an entry is found at that entry. -/
theorem readDentryByName_entryName {fs : FileSys} (hdir : fs.NamedDirectory) {i : Nat}
    (hi : i < fs.entries) {fname : List UInt8}
    (hname : fname.takeWhile (· ≠ 0) = fs.entryName i) :
    readDentryByName fs (some fname) = readDentryByIndex fs i := by
  have hlen : strlen fname ≤ FILENAME_LEN := by
    unfold strlen
    rw [hname]
    exact fieldString_length_le _ _ _
  have hfind : (List.range DIR_ENTRIES).find? (fs.nameMatches fname) = some i := by
    rw [List.find?_range_eq_some]
    have hle := hdir.entries_le
    refine ⟨(nameMatches_iff hlen).mpr hname, List.mem_range.mpr (by omega), fun j hj => ?_⟩
    rw [Bool.not_eq_true']
    by_contra hmatch
    have hj' := (nameMatches_iff hlen).mp (Bool.not_eq_false _ ▸ hmatch)
    have := hdir.distinct i hi j (by omega) (hname.symm.trans hj')
    omega
  unfold readDentryByName
  dsimp only
  rw [if_neg (ofList_zero_ne (by rw [hname]; exact hdir.nonempty i hi)), if_neg (by omega),
    hfind]

/-- A string that is no name is not found. -/
theorem readDentryByName_other {fs : FileSys} (hdir : fs.NamedDirectory) {fname : List UInt8}
    (hname : ∀ i < fs.entries, fname.takeWhile (· ≠ 0) ≠ fs.entryName i) :
    readDentryByName fs (some fname) = none := by
  unfold readDentryByName
  dsimp only
  by_cases hempty : ofList fname 0 = 0
  · rw [if_pos hempty]
  · rw [if_neg hempty]
    by_cases hlong : strlen fname > FILENAME_LEN
    · rw [if_pos hlong]
    · rw [if_neg hlong]
      have hlen : strlen fname ≤ FILENAME_LEN := Nat.le_of_not_lt hlong
      have hfind : (List.range DIR_ENTRIES).find? (fs.nameMatches fname) = none := by
        rw [List.find?_eq_none]
        intro j hj hmatch
        have hj' := (nameMatches_iff hlen).mp hmatch
        by_cases hused : j < fs.entries
        · exact hname j hused hj'
        · rw [hdir.unused j (List.mem_range.mp hj) (by omega)] at hj'
          apply hempty
          cases fname with
          | nil => rfl
          | cons b t =>
              by_contra hb
              rw [List.takeWhile_cons_of_pos (by simpa [ofList] using hb)] at hj'
              cases hj'
      rw [hfind]

/-- **Lookup by name inverts lookup by index.** The name of entry `i` yields what index `i`
yields; every other string is refused and leaves the dentry as it was. -/
theorem lookup_inverts_index {fs : FileSys} (hdir : fs.NamedDirectory) (dentry : Dentry) :
    (∀ i < fs.entries, ∀ fname : List UInt8, fname.takeWhile (· ≠ 0) = fs.entryName i →
      ∃ d, readDentryByIndexInto fs i (some dentry) = (0, some d) ∧
        readDentryByNameInto fs (some fname) (some dentry) = (0, some d)) ∧
    ∀ fname : List UInt8, (∀ i < fs.entries, fname.takeWhile (· ≠ 0) ≠ fs.entryName i) →
      readDentryByNameInto fs (some fname) (some dentry) = (-1, some dentry) := by
  constructor
  · intro i hi fname hname
    have hle := hdir.entries_le
    obtain ⟨d, hd⟩ : ∃ d, readDentryByIndex fs i = some d := by
      unfold readDentryByIndex
      rw [if_neg (by omega)]
      exact ⟨_, rfl⟩
    refine ⟨d, ?_, ?_⟩
    · rw [readDentryByIndexInto_eq, hd]
      rfl
    · rw [readDentryByNameInto_eq, readDentryByName_entryName hdir hi hname, hd]
      rfl
  · intro fname hname
    rw [readDentryByNameInto_eq, readDentryByName_other hdir hname]
    rfl

theorem sampleImage_namedDirectory : sampleImage.NamedDirectory where
  entries_le := by decide +kernel
  nonempty := by
    have hent : sampleImage.entries = 4 := by decide +kernel
    rw [hent]
    decide +kernel
  distinct := by
    have hent : sampleImage.entries = 4 := by decide +kernel
    rw [hent]
    decide +kernel
  unused := by
    have hent : sampleImage.entries = 4 := by decide +kernel
    rw [hent]
    decide +kernel

theorem lookup_inverts_index_sample :
    (∀ i < sampleImage.entries, ∀ fname : List UInt8,
      fname.takeWhile (· ≠ 0) = sampleImage.entryName i →
      ∃ d, readDentryByIndexInto sampleImage i (some ⟨[], 7, 7⟩) = (0, some d) ∧
        readDentryByNameInto sampleImage (some fname) (some ⟨[], 7, 7⟩) = (0, some d)) ∧
    ∀ fname : List UInt8,
      (∀ i < sampleImage.entries, fname.takeWhile (· ≠ 0) ≠ sampleImage.entryName i) →
      readDentryByNameInto sampleImage (some fname) (some ⟨[], 7, 7⟩)
        = (-1, some ⟨[], 7, 7⟩) :=
  lookup_inverts_index sampleImage_namedDirectory ⟨[], 7, 7⟩

end Ext2Kernel
