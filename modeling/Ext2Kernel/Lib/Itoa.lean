import Ext2Kernel.Basic.CString
import Ext2Kernel.Basic.Numeral

set_option autoImplicit false

/-! # Numbers as strings

`itoa` of `lib.c` stores the digits of a number from the last one on and then turns the string
round in place. A routine is given by its stores, in the order in which it makes them. Its loops
take a number of rounds and are `none` when it runs out.
-/

namespace Ext2Kernel

namespace Lib

open ByteMem Numeral

/-! ## The routines -/

/-- `strlen`. -/
def strlen (rounds : Nat) (m : Mem) (s : Nat) : Option Nat :=
  scanWhile (fun b => decide (b ≠ 0)) (fun len => m (s + len)) rounds 0

/-- The loop of `strrev`: exchange `s[beg]` and `s[end]`. -/
def strrevLoop (s : Nat) : Nat → Mem → Nat → Nat → Option (List (Nat × UInt8))
  | 0, _, _, _ => none
  | n + 1, m, first, last =>
      if first < last then
        let stores := swapStores m (s + first) (s + last)
        (strrevLoop s n (storeAll stores m) (first + 1) (last - 1)).map fun rest => stores ++ rest
      else some []

/-- `strrev`. For the empty string `end` is -1 in the source, and 0 here; the loop does not start
either way. -/
def strrev (rounds : Nat) (m : Mem) (s : Nat) : Option (List (Nat × UInt8)) :=
  (strlen rounds m s).bind fun len => strrevLoop s rounds m 0 (len - 1)

/-- The characters of the digits, with the NUL behind them. -/
def lookup : List UInt8 := ascii "0123456789ABCDEFGHIJKLMNOPQRSTUVWXYZ" ++ [0]

/-- The loop of `itoa`, with the NUL stored at its end. A radix of 0 is a divide error. -/
def itoaLoop (radix : UInt32) : Nat → UInt32 → Nat → Option (List (Nat × UInt8))
  | 0, _, _ => none
  | n + 1, newval, newbuf =>
      if 0 < newval then
        if radix = 0 then none
        else
          (lookup[(newval % radix).toNat]?).bind fun digit =>
            (itoaLoop radix n (newval / radix) (newbuf + 1)).map fun rest =>
              (newbuf, digit) :: rest
      else some [(newbuf, 0)]

/-- `itoa`. -/
def itoa (rounds : Nat) (m : Mem) (value : UInt32) (buf : Nat) (radix : UInt32) :
    Option (List (Nat × UInt8)) :=
  -- special case for zero
  if value = 0 then some [(buf, 48), (buf + 1, 0)]
  else
    (itoaLoop radix rounds value buf).bind fun stores =>
      (strrev rounds (storeAll stores m) buf).map fun rest => stores ++ rest

/-- The character of a digit. -/
def digitChar (d : Nat) : UInt8 := lookup.getD d 0

/-! ## Reversal -/

section

variable {m : Mem} {s : Nat} {l : List UInt8} {rounds : Nat}

theorem strlen_eq (h : IsString m s l) (hrounds : l.length < rounds) :
    strlen rounds m s = some l.length := h.scanWhile (Nat.zero_le _) hrounds

/-- The loop turns the block round, and stores inside it. -/
theorem strrevLoop_eq {n first last : Nat} (hpos : 0 < n)
    (hn : last < first + n) :
    ∃ stores, strrevLoop s n m first last = some stores ∧
      storeAll stores m = mirror m (s + first) (s + last) ∧
      ∀ t ∈ stores, s + first ≤ t.1 ∧ t.1 ≤ s + last := by
  induction n generalizing m first last with
  | zero => exact absurd hpos (Nat.lt_irrefl 0)
  | succ n ih =>
      unfold strrevLoop
      dsimp only
      by_cases hlt : first < last
      · obtain ⟨rest, hrest, hmem, hin⟩ :=
          @ih (storeAll (swapStores m (s + first) (s + last)) m) (first + 1) (last - 1)
            (by omega) (by omega)
        rw [if_pos hlt, hrest]
        refine ⟨_, rfl, ?_, fun t ht => ?_⟩
        · rw [storeAll_append, hmem, storeAll_swapStores]
          have hlast : s + (last - 1) = s + last - 1 := by omega
          rw [hlast]
          exact mirror_swap m (Nat.add_lt_add_left hlt s)
        · rcases List.mem_append.mp ht with ht | ht
          · unfold swapStores at ht
            simp only [List.mem_cons, List.not_mem_nil, or_false] at ht
            rcases ht with rfl | rfl
            · dsimp only
              omega
            · dsimp only
              omega
          · have := hin t ht
            omega
      · rw [if_neg hlt]
        refine ⟨[], rfl, ?_, fun t ht => absurd ht List.not_mem_nil⟩
        exact (mirror_of_le m (by omega)).symm

theorem strrev_eq (h : IsString m s l) (hl : l ≠ []) (hrounds : l.length < rounds) :
    ∃ stores, strrev rounds m s = some stores ∧ IsString (storeAll stores m) s l.reverse ∧
      ∀ t ∈ stores, s ≤ t.1 ∧ t.1 < s + l.length := by
  have hpos : 0 < l.length := List.length_pos_iff.mpr hl
  obtain ⟨stores, hstores, hmem, hin⟩ :=
    @strrevLoop_eq m s rounds 0 (l.length - 1) (by omega) (by omega)
  refine ⟨stores, ?_, ?_, fun t ht => ?_⟩
  · unfold strrev
    rw [strlen_eq h hrounds, Option.bind_some, hstores]
  · rw [hmem]
    exact h.mirror hl
  · have := hin t ht
    omega

end

/-! ## The digits -/

section

variable {radix : UInt32} {rounds : Nat}

theorem lookup_digit {d : Nat} (hd : d < 36) :
    lookup[d]? = some (digitChar d) ∧ digitChar d ≠ 0 := by
  interval_cases d <;> decide

/-- The loop stores the digits, the last one first, and a NUL. -/
theorem itoaLoop_eq (hradix : 1 < radix.toNat) (hmax : radix.toNat ≤ 36) {newval : UInt32}
    (hrounds : (Nat.digits radix.toNat newval.toNat).length < rounds) (newbuf : Nat) :
    itoaLoop radix rounds newval newbuf
      = some (storesFrom newbuf
          ((Nat.digits radix.toNat newval.toNat).map digitChar ++ [0])) := by
  induction rounds generalizing newval newbuf with
  | zero => exact absurd hrounds (Nat.not_lt_zero _)
  | succ n ih =>
      unfold itoaLoop
      by_cases hval : 0 < newval
      · have hnat : 0 < newval.toNat := hval
        have hzero : radix ≠ 0 := by
          intro h
          rw [h] at hradix
          exact absurd hradix (by decide)
        have hdigits := Nat.digits_def' hradix hnat
        rw [hdigits, List.length_cons] at hrounds
        have hdigit : newval.toNat % radix.toNat < 36 :=
          Nat.lt_of_lt_of_le (Nat.mod_lt _ (by omega)) hmax
        rw [if_pos hval, if_neg hzero, UInt32.toNat_mod, (lookup_digit hdigit).1,
          Option.bind_some, ih, hdigits, UInt32.toNat_div]
        · rfl
        · rw [UInt32.toNat_div]
          exact Nat.lt_of_succ_lt_succ hrounds
      · have hnat : newval.toNat = 0 := Nat.eq_zero_of_not_pos hval
        rw [if_neg hval, hnat, Nat.digits_zero]
        rfl

theorem digitChar_ne_zero (hradix : 1 < radix.toNat) (hmax : radix.toNat ≤ 36) (n : Nat) :
    ∀ b ∈ (numeral radix.toNat n).map digitChar, b ≠ 0 := by
  intro b hb
  obtain ⟨d, hd, rfl⟩ := List.mem_map.mp hb
  exact (lookup_digit (Nat.lt_of_lt_of_le (numeral_lt hradix d hd) hmax)).2

/-- A 32-bit number takes at most 32 digits. -/
theorem numeral_length_le_32 (hradix : 1 < radix.toNat) (value : UInt32) :
    (numeral radix.toNat value.toNat).length ≤ 32 := by
  apply numeral_length_le hradix (by decide)
  calc value.toNat < 2 ^ 32 := value.toNat_lt
    _ ≤ radix.toNat ^ 32 := Nat.pow_le_pow_left hradix 32

/-- The string at the buffer is the canonical numeral, and the stores are those of the string and
its NUL. -/
theorem itoa_eq (hradix : 1 < radix.toNat) (hmax : radix.toNat ≤ 36) (hrounds : 33 ≤ rounds)
    (m : Mem) (value : UInt32) (buf : Nat) :
    ∃ stores, itoa rounds m value buf radix = some stores ∧
      IsString (storeAll stores m) buf ((numeral radix.toNat value.toNat).map digitChar) ∧
      ∀ t ∈ stores, buf ≤ t.1 ∧ t.1 < buf + (numeral radix.toNat value.toNat).length + 1 := by
  have hnonzero := digitChar_ne_zero hradix hmax value.toNat
  unfold itoa
  by_cases hzero : value = 0
  · rw [if_pos hzero]
    have hnumeral : (numeral radix.toNat value.toNat).map digitChar = [48] := by
      rw [hzero]
      rfl
    have hlen : (numeral radix.toNat value.toNat).length = 1 := by
      rw [hzero]
      rfl
    rw [hnumeral] at hnonzero ⊢
    rw [hlen]
    refine ⟨_, rfl, isString_storesFrom m buf hnonzero, fun t ht => ?_⟩
    exact mem_storesFrom (l := [48, 0]) ht
  · have hnat : value.toNat ≠ 0 := fun h => hzero (UInt32.toNat_inj.mp h)
    have hlen := numeral_length_le_32 hradix value
    rw [if_neg hzero]
    rw [numeral_of_ne_zero hnat] at hlen hnonzero ⊢
    rw [List.length_reverse] at hlen ⊢
    rw [itoaLoop_eq hradix hmax (by omega), Option.bind_some]
    rw [List.map_reverse] at hnonzero ⊢
    have hback : IsString (storeAll (storesFrom buf
        ((Nat.digits radix.toNat value.toNat).map digitChar ++ [0])) m) buf
        ((Nat.digits radix.toNat value.toNat).map digitChar) :=
      isString_storesFrom m buf fun b hb => hnonzero b (List.mem_reverse.mpr hb)
    have hne : (Nat.digits radix.toNat value.toNat).map digitChar ≠ [] := by
      simpa [Nat.digits_eq_nil_iff_eq_zero] using hnat
    obtain ⟨stores, hstores, hstring, hin⟩ :=
      @strrev_eq _ _ _ rounds hback hne (by rw [List.length_map]; omega)
    rw [hstores]
    refine ⟨_, rfl, ?_, fun t ht => ?_⟩
    · rw [storeAll_append]
      exact hstring
    · rcases List.mem_append.mp ht with ht | ht
      · have := mem_storesFrom ht
        rw [List.length_append, List.length_map] at this
        exact this
      · have := hin t ht
        rw [List.length_map] at this
        omega

/-- The string `l` is the canonical numeral of `n` to the base `r`: its digits are below `r` and
evaluate to `n`, and it starts with 0 only if `n` is 0 and the string is that digit. -/
def Canonical (r : Nat) (l : List UInt8) (n : Nat) : Prop :=
  ∃ ds : List Nat, l = ds.map digitChar ∧ IsNumeral r ds n

end

end Lib

end Ext2Kernel
