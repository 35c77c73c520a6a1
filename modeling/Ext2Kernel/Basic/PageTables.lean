import Mathlib.Data.Nat.Bitwise
import Mathlib.Tactic.Common

set_option autoImplicit false

/-! # Two-level page tables

The translation of 32-bit addresses by a page directory and page tables of 1024 words each,
with pages of 4KB and, in the directory, of 4MB. A word is a frame address with flags in its
low bits; `entry` makes one, and `walk_large`, `walk_small` and `walk_unmapped` say what the
processor makes of it.
-/

namespace PageTables

/-! ## The processor -/

/-- An access: from user mode or not, and for writing or not. -/
structure AccessMode where
  user : Bool
  write : Bool

/-- Does an entry allow the access? Bit 0 is present, bit 1 read/write and bit 2 user. Without
write protection in `cr0` the kernel writes to every page. -/
def grants (acc : AccessMode) (e : Nat) : Bool :=
  e.testBit 0 && (!acc.user || (e.testBit 2 && (!acc.write || e.testBit 1)))

/-- The physical address of `a`; `none` is a page fault. `word` reads physical memory, and bit 7
of a directory entry marks a 4MB page. -/
def walk (word : Nat → Nat) (cr3 : Nat) (acc : AccessMode) (a : Nat) : Option Nat :=
  let pde := word (cr3 + 4 * (a / 4194304))
  if grants acc pde then
    if pde.testBit 7 then some (pde / 4194304 * 4194304 + a % 4194304)
    else
      let pte := word (pde / 4096 * 4096 + 4 * (a / 4096 % 1024))
      if grants acc pte then some (pte / 4096 * 4096 + a % 4096) else none
  else none

/-! ## Entries -/

/-- The entry of a frame. -/
def entry (base flags : Nat) : Nat := base ||| flags

section

variable {base flags : Nat}

theorem entry_eq_add (hbase : 4096 ∣ base) (hflags : flags < 4096) :
    entry base flags = base + flags := by
  obtain ⟨n, rfl⟩ := hbase
  exact (Nat.two_pow_add_eq_or_of_lt (i := 12) hflags n).symm

theorem entry_frame (hbase : 4096 ∣ base) (hflags : flags < 4096) :
    entry base flags / 4096 * 4096 = base := by
  rw [entry_eq_add hbase hflags]
  obtain ⟨n, rfl⟩ := hbase
  omega

theorem entry_largeFrame (hbase : 4194304 ∣ base) (hflags : flags < 4096) :
    entry base flags / 4194304 * 4194304 = base := by
  rw [entry_eq_add (Nat.dvd_trans ⟨1024, rfl⟩ hbase) hflags]
  obtain ⟨n, rfl⟩ := hbase
  omega

theorem entry_testBit (hbase : 4096 ∣ base) {i : Nat} (hi : i < 12) :
    (entry base flags).testBit i = flags.testBit i := by
  obtain ⟨n, rfl⟩ := hbase
  have hlow : (4096 * n).testBit i = false := by
    rw [show 4096 = 2 ^ 12 from rfl, Nat.testBit_two_pow_mul, decide_eq_false (by omega),
      Bool.false_and]
  unfold entry
  rw [Nat.testBit_or, hlow, Bool.false_or]

/-- The frame has no say in what an entry allows. -/
theorem grants_entry (acc : AccessMode) (hbase : 4096 ∣ base) :
    grants acc (entry base flags) = grants acc flags := by
  unfold grants
  rw [entry_testBit hbase (by decide), entry_testBit hbase (by decide),
    entry_testBit hbase (by decide)]

/-! ## Translations -/

variable {word : Nat → Nat} {cr3 a : Nat} {acc : AccessMode}

/-- An address in a 4MB page. -/
theorem walk_large (hpde : word (cr3 + 4 * (a / 4194304)) = entry base flags)
    (hbase : 4194304 ∣ base) (hflags : flags < 4096) (hsize : flags.testBit 7 = true) :
    walk word cr3 acc a = if grants acc flags then some (base + a % 4194304) else none := by
  have haligned : 4096 ∣ base := Nat.dvd_trans ⟨1024, rfl⟩ hbase
  unfold walk
  dsimp only
  rw [hpde, grants_entry acc haligned, entry_testBit haligned (by decide), hsize, if_pos rfl,
    entry_largeFrame hbase hflags]

/-- An address below a page table. -/
theorem walk_small {table tableFlags : Nat}
    (hpde : word (cr3 + 4 * (a / 4194304)) = entry table tableFlags)
    (htable : 4096 ∣ table) (htableFlags : tableFlags < 4096)
    (hsize : tableFlags.testBit 7 = false)
    (hpte : word (table + 4 * (a / 4096 % 1024)) = entry base flags)
    (hbase : 4096 ∣ base) (hflags : flags < 4096) :
    walk word cr3 acc a =
      if grants acc tableFlags && grants acc flags then some (base + a % 4096) else none := by
  unfold walk
  dsimp only
  rw [hpde, grants_entry acc htable, entry_testBit htable (by decide), hsize,
    entry_frame htable htableFlags, hpte, grants_entry acc hbase, entry_frame hbase hflags]
  cases grants acc tableFlags <;> simp

/-- An address whose directory entry is not present. -/
theorem walk_unmapped (hpde : word (cr3 + 4 * (a / 4194304)) = entry base flags)
    (hbase : 4096 ∣ base) (habsent : flags.testBit 0 = false) :
    walk word cr3 acc a = none := by
  have hno : grants acc (entry base flags) = false := by
    rw [grants_entry acc hbase]
    unfold grants
    rw [habsent, Bool.false_and]
  unfold walk
  dsimp only
  rw [hpde, hno, if_neg Bool.false_ne_true]

end

end PageTables
