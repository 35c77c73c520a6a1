import Ext2Kernel.Basic.Scan
import Mathlib.Logic.Equiv.Basic

set_option autoImplicit false

/-! # Strings in memory

A string is at an address of a memory when its bytes are there, none of them NUL, with a NUL
behind them. Reversing a block in place exchanges its two ends and goes on inside; the result is
the mirror image of the block.
-/

namespace ByteMem

/-- The string `l` is at the address `a`. -/
structure IsString (m : Mem) (a : Nat) (l : List UInt8) : Prop where
  bytes : ∀ i ≤ l.length, m (a + i) = ofList l i
  nonzero : ∀ b ∈ l, b ≠ 0

/-! ## The bytes of a list -/

theorem ofList_of_lt {l : List UInt8} {i : Nat} (h : i < l.length) : ofList l i = l[i] := by
  unfold ofList
  rw [List.getD_eq_getElem?_getD, List.getElem?_eq_getElem h]
  rfl

theorem ofList_length (l : List UInt8) : ofList l l.length = 0 := by
  unfold ofList
  rw [List.getD_eq_getElem?_getD, List.getElem?_eq_none (Nat.le_refl _)]
  rfl

theorem ofList_append_nul (l : List UInt8) : ofList (l ++ [0]) = ofList l := by
  funext i
  unfold ofList
  rw [List.getD_eq_getElem?_getD, List.getD_eq_getElem?_getD]
  by_cases hi : i < l.length
  · rw [List.getElem?_append_left hi]
  · rw [List.getElem?_append_right (Nat.le_of_not_lt hi),
      List.getElem?_eq_none (Nat.le_of_not_lt hi)]
    cases i - l.length with
    | zero => rfl
    | succ _ => rfl

theorem ofList_append_right (l k : List UInt8) (i : Nat) :
    ofList (l ++ k) (l.length + i) = ofList k i := by
  unfold ofList
  rw [List.getD_eq_getElem?_getD, List.getD_eq_getElem?_getD,
    List.getElem?_append_right (Nat.le_add_right _ _), Nat.add_sub_cancel_left]

theorem ofList_append_left {l : List UInt8} (k : List UInt8) {i : Nat} (h : i < l.length) :
    ofList (l ++ k) i = ofList l i := by
  unfold ofList
  rw [List.getD_eq_getElem?_getD, List.getD_eq_getElem?_getD, List.getElem?_append_left h]

/-! ## Strings -/

section

variable {m m' : Mem} {a : Nat} {l : List UInt8}

theorem IsString.congr (h : IsString m a l) (hm : ∀ i ≤ l.length, m' (a + i) = m (a + i)) :
    IsString m' a l :=
  ⟨fun i hi => (hm i hi).trans (h.bytes i hi), h.nonzero⟩

theorem IsString.byte_ne (h : IsString m a l) {i : Nat} (hi : i < l.length) : m (a + i) ≠ 0 := by
  rw [h.bytes i (Nat.le_of_lt hi), ofList_of_lt hi]
  exact h.nonzero _ (List.getElem_mem hi)

theorem IsString.nul (h : IsString m a l) : m (a + l.length) = 0 := by
  rw [h.bytes _ (Nat.le_refl _), ofList_length]

theorem IsString.head_eq_zero_iff (h : IsString m a l) : m a = 0 ↔ l = [] := by
  constructor
  · intro hzero
    by_contra hne
    exact h.byte_ne (List.length_pos_iff.mpr hne) hzero
  · rintro rfl
    exact h.nul

theorem IsString.map_range (h : IsString m a l) :
    (List.range l.length).map (fun i => m (a + i)) = l := by
  apply List.ext_getElem
  · rw [List.length_map, List.length_range]
  · intro i hi hi'
    rw [List.getElem_map, List.getElem_range, h.bytes i (Nat.le_of_lt hi'), ofList_of_lt hi']

/-- The string behind the first byte. -/
theorem IsString.tail {b : UInt8} (h : IsString m a (b :: l)) : IsString m (a + 1) l := by
  constructor
  · intro i hi
    rw [Nat.add_assoc, Nat.add_comm 1 i]
    exact h.bytes (i + 1) (Nat.succ_le_succ hi)
  · intro c hc
    exact h.nonzero c (List.mem_cons_of_mem b hc)

/-- A scan for the NUL finds the end of the string. -/
theorem IsString.scanWhile (h : IsString m a l) {n i : Nat} (hi : i ≤ l.length)
    (hn : l.length < n + i) :
    scanWhile (fun b => decide (b ≠ 0)) (fun j => m (a + j)) n i = some l.length := by
  induction n generalizing i with
  | zero => omega
  | succ n ih =>
      unfold ByteMem.scanWhile
      by_cases hend : i = l.length
      · rw [hend, h.nul]
        rfl
      · have hbyte : decide (m (a + i) ≠ 0) = true :=
          decide_eq_true (h.byte_ne (Nat.lt_of_le_of_ne hi hend))
        rw [if_pos hbyte]
        apply ih
        · omega
        · omega

/-- Bytes in front of a string. -/
theorem IsString.append {k : List UInt8} (h : IsString m (a + k.length) l)
    (hbytes : ∀ i < k.length, m (a + i) = ofList k i) (hk : ∀ b ∈ k, b ≠ 0) :
    IsString m a (k ++ l) := by
  constructor
  · intro i hi
    by_cases hik : i < k.length
    · rw [hbytes i hik, ofList_append_left l hik]
    · obtain ⟨j, rfl⟩ := Nat.exists_eq_add_of_le (Nat.le_of_not_lt hik)
      rw [List.length_append] at hi
      rw [ofList_append_right, ← Nat.add_assoc]
      exact h.bytes j (by omega)
  · intro b hb
    rcases List.mem_append.mp hb with hb | hb
    · exact hk b hb
    · exact h.nonzero b hb

/-- A list without NULs is a string. -/
theorem isString_ofList (h : 0 ∉ l) : IsString (ofList l) 0 l :=
  ⟨fun i _ => by rw [Nat.zero_add], fun _ hb hzero => h (hzero ▸ hb)⟩

/-- A NUL over the last byte of a block leaves the bytes in front of it as a string. -/
theorem isString_cutLast (m : Mem) (c : UInt8) (hl : ∀ b ∈ l, b ≠ 0) :
    IsString (Function.update (overlay m 0 (l ++ [c]).length (ofList (l ++ [c]))) l.length 0)
      0 l := by
  refine ⟨fun i hi => ?_, hl⟩
  have hlen : (l ++ [c]).length = l.length + 1 := List.length_append
  by_cases hend : i = l.length
  · rw [Nat.zero_add, hend, Function.update_self, ofList_length]
  · have hlt : i < l.length := Nat.lt_of_le_of_ne hi hend
    rw [Function.update_of_ne (by omega), overlay_add _ _ (by omega),
      ofList_append_left [c] hlt]

/-- Storing a string with its NUL. -/
theorem isString_storesFrom (m : Mem) (a : Nat) (hl : ∀ b ∈ l, b ≠ 0) :
    IsString (storeAll (storesFrom a (l ++ [0])) m) a l := by
  refine ⟨fun i hi => ?_, hl⟩
  have hlen : (l ++ [0]).length = l.length + 1 := List.length_append
  rw [storeAll_storesFrom, overlay_add _ _ (by omega), ofList_append_nul]

end

/-! ## Reversal in place -/

/-- The block between the addresses `lo` and `hi` turned round. -/
def mirror (m : Mem) (lo hi : Nat) : Mem :=
  fun x => if lo ≤ x ∧ x ≤ hi then m (lo + hi - x) else m x

/-- The stores that exchange two bytes. -/
def swapStores (m : Mem) (p q : Nat) : List (Nat × UInt8) := [(q, m p), (p, m q)]

section

variable (m : Mem)

theorem mirror_of_le {lo hi : Nat} (h : hi ≤ lo) : mirror m lo hi = m := by
  funext x
  unfold mirror
  split
  · rename_i hx
    have heq : lo + hi - x = x := by omega
    rw [heq]
  · rfl

theorem storeAll_swapStores (p q : Nat) :
    storeAll (swapStores m p q) m = m ∘ Equiv.swap p q := by
  funext x
  show Function.update (Function.update m q (m p)) p (m q) x = m (Equiv.swap p q x)
  by_cases hp : x = p
  · rw [hp, Function.update_self, Equiv.swap_apply_left]
  · rw [Function.update_of_ne hp]
    by_cases hq : x = q
    · rw [hq, Function.update_self, Equiv.swap_apply_right]
    · rw [Function.update_of_ne hq, Equiv.swap_apply_of_ne_of_ne hp hq]

/-- After the exchange of its ends, what is left is the mirror image of the inside. -/
theorem mirror_swap {lo hi : Nat} (h : lo < hi) :
    mirror (m ∘ Equiv.swap lo hi) (lo + 1) (hi - 1) = mirror m lo hi := by
  funext x
  unfold mirror
  by_cases hin : lo + 1 ≤ x ∧ x ≤ hi - 1
  · rw [if_pos hin, if_pos (by omega)]
    have heq : lo + 1 + (hi - 1) - x = lo + hi - x := by omega
    rw [heq]
    show m (Equiv.swap lo hi (lo + hi - x)) = _
    rw [Equiv.swap_apply_of_ne_of_ne (by omega) (by omega)]
  · rw [if_neg hin]
    show m (Equiv.swap lo hi x) = _
    by_cases hlo : x = lo
    · rw [hlo, Equiv.swap_apply_left, if_pos (by omega), Nat.add_sub_cancel_left]
    · by_cases hhi : x = hi
      · rw [hhi, Equiv.swap_apply_right, if_pos (by omega), Nat.add_sub_cancel]
      · rw [Equiv.swap_apply_of_ne_of_ne hlo hhi, if_neg (by omega)]

end

/-- A string whose bytes are turned round is the reversed string. -/
theorem IsString.mirror {m : Mem} {a : Nat} {l : List UInt8} (h : IsString m a l) (hl : l ≠ []) :
    IsString (mirror m a (a + (l.length - 1))) a l.reverse := by
  have hpos : 0 < l.length := List.length_pos_iff.mpr hl
  constructor
  · intro i hi
    rw [List.length_reverse] at hi
    unfold ByteMem.mirror
    by_cases hend : i = l.length
    · rw [if_neg (by omega), hend, h.nul]
      have hlen : l.length = l.reverse.length := List.length_reverse.symm
      rw [hlen, ofList_length]
    · have hlt : i < l.length := by omega
      rw [if_pos (by omega)]
      have hplace : a + (a + (l.length - 1)) - (a + i) = a + (l.length - 1 - i) := by omega
      rw [hplace, h.bytes _ (by omega), ofList_of_lt (by omega),
        ofList_of_lt (by rw [List.length_reverse]; exact hlt), List.getElem_reverse]
  · intro b hb
    exact h.nonzero b (List.mem_reverse.mp hb)

end ByteMem
