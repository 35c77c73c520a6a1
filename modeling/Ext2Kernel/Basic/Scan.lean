import Ext2Kernel.Basic.ByteMem
import Mathlib.Data.List.TakeWhile
import Mathlib.Logic.Function.Basic

set_option autoImplicit false

/-! # Scans over a string

Loops that walk an index over a memory until a byte ends them. A loop has a bound on its
rounds and the result `none` while it is still running. On the memory that starts with a list,
a loop that stops at NUL needs at most one round more than there are bytes left, and leaves the
index where `dropWhile` leaves the list. Copies are listed as their stores, index by index.
-/

namespace ByteMem

/-! ## Lists -/

section

variable {α : Type*} {p q : α → Bool}

/-- Cutting a list behind a prefix that the cut does not end. -/
theorem dropWhile_takeWhile_of_imp (h : ∀ a, p a = true → q a = true) (l : List α) :
    (l.takeWhile q).dropWhile p = (l.dropWhile p).takeWhile q := by
  induction l with
  | nil => rfl
  | cons a l ih =>
      by_cases hp : p a = true
      · rw [List.takeWhile_cons_of_pos (h a hp), List.dropWhile_cons_of_pos hp,
          List.dropWhile_cons_of_pos hp, ih]
      · rw [List.dropWhile_cons_of_neg hp]
        by_cases hq : q a = true
        · rw [List.takeWhile_cons_of_pos hq, List.dropWhile_cons_of_neg hp]
        · rw [List.takeWhile_cons_of_neg hq]
          rfl

theorem takeWhile_takeWhile_of_imp (h : ∀ a, p a = true → q a = true) (l : List α) :
    (l.takeWhile q).takeWhile p = l.takeWhile p := by
  induction l with
  | nil => rfl
  | cons a l ih =>
      by_cases hp : p a = true
      · rw [List.takeWhile_cons_of_pos (h a hp), List.takeWhile_cons_of_pos hp,
          List.takeWhile_cons_of_pos hp, ih]
      · rw [List.takeWhile_cons_of_neg hp]
        by_cases hq : q a = true
        · rw [List.takeWhile_cons_of_pos hq, List.takeWhile_cons_of_neg hp]
        · rw [List.takeWhile_cons_of_neg hq]
          rfl

/-- Passing over a part of what a scan passes over. -/
theorem dropWhile_drop_take (n : Nat) (l : List α) :
    (l.drop ((l.takeWhile p).take n).length).dropWhile p = l.dropWhile p := by
  induction n generalizing l with
  | zero => rfl
  | succ n ih =>
      cases l with
      | nil => rfl
      | cons a l =>
          by_cases hp : p a = true
          · rw [List.takeWhile_cons_of_pos hp, List.take_succ_cons, List.length_cons,
              List.drop_succ_cons, List.dropWhile_cons_of_pos hp, ih]
          · rw [List.takeWhile_cons_of_neg hp]
            rfl

end

/-! ## Memories that start with a list -/

/-- Byte `i` is the first one of the rest of the list. -/
theorem ofList_drop (l : List UInt8) (i : Nat) : ofList l i = ofList (l.drop i) 0 := by
  unfold ofList
  simp [List.getD_eq_getElem?_getD]

theorem ofList_head (l : List UInt8) : ofList l 0 = l.headD 0 := by
  cases l <;> rfl

/-- The string at the start of `l` is empty if `l` starts with a NUL. -/
theorem ofList_head_eq_zero_iff (l : List UInt8) :
    ofList l 0 = 0 ↔ l.takeWhile (· ≠ 0) = [] := by
  rw [ofList_head]
  cases l with
  | nil => exact ⟨fun _ => rfl, fun _ => rfl⟩
  | cons b t =>
      show b = 0 ↔ _
      by_cases hb : b = 0
      · rw [List.takeWhile_cons_of_neg (by simpa using hb)]
        exact ⟨fun _ => rfl, fun _ => hb⟩
      · rw [List.takeWhile_cons_of_pos (by simpa using hb)]
        exact ⟨fun h => absurd h hb, fun h => by cases h⟩

/-- Cutting at the first NUL keeps the first byte, if a missing byte counts as a NUL. -/
theorem headD_takeWhile (l : List UInt8) : (l.takeWhile (· ≠ 0)).headD 0 = l.headD 0 := by
  cases l with
  | nil => rfl
  | cons b t =>
      by_cases hb : b = 0
      · rw [List.takeWhile_cons_of_neg (by simpa using hb)]
        exact hb.symm
      · rw [List.takeWhile_cons_of_pos (by simpa using hb)]
        rfl

theorem drop_succ_of_drop {l t : List UInt8} {b : UInt8} {i : Nat} (h : l.drop i = b :: t) :
    l.drop (i + 1) = t := by
  rw [← List.drop_drop, h]
  rfl

/-! ## Scans -/

/-- `while (p(m[i])) i++`: the index where the loop stops. -/
def scanWhile (p : UInt8 → Bool) (m : Mem) : Nat → Nat → Option Nat
  | 0, _ => none
  | fuel + 1, i => if p (m i) then scanWhile p m fuel (i + 1) else some i

theorem scanWhile_mono {p : UInt8 → Bool} {m : Mem} {fuel fuel' i j : Nat}
    (h : scanWhile p m fuel i = some j) (hle : fuel ≤ fuel') :
    scanWhile p m fuel' i = some j := by
  induction fuel generalizing fuel' i with
  | zero => cases h
  | succ fuel ih =>
      cases fuel' with
      | zero => omega
      | succ fuel' =>
          unfold scanWhile at h ⊢
          by_cases hp : p (m i) = true
          · rw [if_pos hp] at h ⊢
            exact ih h (Nat.le_of_succ_le_succ hle)
          · rw [if_neg hp] at h ⊢
            exact h

/-- A scan that stops at NUL leaves the index where `dropWhile` leaves the list. -/
theorem scanWhile_ofList {p : UInt8 → Bool} (hp : p 0 = false) (l : List UInt8) {fuel i : Nat}
    (h : (l.drop i).length < fuel) :
    ∃ j, scanWhile p (ofList l) fuel i = some j ∧ l.drop j = (l.drop i).dropWhile p := by
  induction fuel generalizing i with
  | zero => omega
  | succ fuel ih =>
      unfold scanWhile
      rw [ofList_drop]
      cases hdrop : l.drop i with
      | nil => exact ⟨i, if_neg (by simp [ofList, hp]), hdrop⟩
      | cons b t =>
          have hnext := drop_succ_of_drop hdrop
          rw [hdrop, List.length_cons] at h
          by_cases hb : p b = true
          · obtain ⟨j, hj, hrest⟩ := ih (i := i + 1) (by rw [hnext]; omega)
            refine ⟨j, (if_pos hb).trans hj, ?_⟩
            rw [hrest, hnext, List.dropWhile_cons_of_pos hb]
          · refine ⟨i, if_neg hb, ?_⟩
            rw [hdrop, List.dropWhile_cons_of_neg hb]

/-- A scan that meets a byte it does not step over ends there or before. -/
theorem scanWhile_of_stop {p : UInt8 → Bool} {m : Mem} {n s i : Nat} (hp : p (m i) = false)
    (hs : s ≤ i) (hi : i < s + n) : ∃ j ≤ i, scanWhile p m n s = some j := by
  induction n generalizing s with
  | zero => omega
  | succ n ih =>
      by_cases hb : p (m s) = true
      · have hne : s ≠ i := by
          intro h
          subst h
          rw [hp] at hb
          cases hb
        obtain ⟨j, hj, hscan⟩ := ih (s := s + 1) (by omega) (by omega)
        exact ⟨j, hj, (if_pos hb).trans hscan⟩
      · exact ⟨s, hs, if_neg hb⟩

/-! ## Copies -/

/-- The stores of the bytes `l` into a buffer, from index `k` on. -/
def storesFrom : Nat → List UInt8 → List (Nat × UInt8)
  | _, [] => []
  | k, b :: l => (k, b) :: storesFrom (k + 1) l

/-- The memory after some stores. -/
def storeAll (stores : List (Nat × UInt8)) (m : Mem) : Mem :=
  stores.foldl (fun m s => Function.update m s.1 s.2) m

/-- A zeroed buffer after some stores. -/
def buffer (stores : List (Nat × UInt8)) : Mem := storeAll stores fun _ => 0

/-- `while (p(m[i])) out[k++] = m[i++]`: the stores of the loop. -/
def copyWhile (p : UInt8 → Bool) (m : Mem) : Nat → Nat → Nat → Option (List (Nat × UInt8))
  | 0, _, _ => none
  | fuel + 1, i, k =>
      if p (m i) then (copyWhile p m fuel (i + 1) (k + 1)).map fun stores => (k, m i) :: stores
      else some []

theorem copyWhile_mono {p : UInt8 → Bool} {m : Mem} {fuel fuel' i k : Nat}
    {stores : List (Nat × UInt8)} (h : copyWhile p m fuel i k = some stores)
    (hle : fuel ≤ fuel') : copyWhile p m fuel' i k = some stores := by
  induction fuel generalizing fuel' i k stores with
  | zero => cases h
  | succ fuel ih =>
      cases fuel' with
      | zero => omega
      | succ fuel' =>
          unfold copyWhile at h ⊢
          by_cases hp : p (m i) = true
          · rw [if_pos hp] at h ⊢
            obtain ⟨rest, hrest, rfl⟩ := Option.map_eq_some_iff.mp h
            rw [ih hrest (Nat.le_of_succ_le_succ hle)]
            rfl
          · rw [if_neg hp] at h ⊢
            exact h

/-- The bytes that are copied are those that `takeWhile` takes. -/
theorem copyWhile_ofList {p : UInt8 → Bool} (hp : p 0 = false) (l : List UInt8) {fuel i : Nat}
    (k : Nat) (h : (l.drop i).length < fuel) :
    copyWhile p (ofList l) fuel i k = some (storesFrom k ((l.drop i).takeWhile p)) := by
  induction fuel generalizing i k with
  | zero => omega
  | succ fuel ih =>
      unfold copyWhile
      rw [ofList_drop]
      cases hdrop : l.drop i with
      | nil => exact if_neg (by simp [ofList, hp])
      | cons b t =>
          have hnext := drop_succ_of_drop hdrop
          rw [hdrop, List.length_cons] at h
          by_cases hb : p b = true
          · rw [List.takeWhile_cons_of_pos hb]
            refine (if_pos hb).trans ?_
            rw [ih (k + 1) (by rw [hnext]; omega), hnext]
            rfl
          · rw [List.takeWhile_cons_of_neg hb]
            exact if_neg hb

theorem mem_storesFrom {k : Nat} {l : List UInt8} {s : Nat × UInt8} (h : s ∈ storesFrom k l) :
    k ≤ s.1 ∧ s.1 < k + l.length := by
  induction l generalizing k with
  | nil => cases h
  | cons b l ih =>
      rw [List.length_cons]
      rcases List.mem_cons.mp h with rfl | h
      · exact ⟨Nat.le_refl k, by omega⟩
      · have := ih h
        omega

/-- Every index of the copied bytes is stored to. -/
theorem exists_storesFrom {k j : Nat} {l : List UInt8} (h : j < l.length) :
    ∃ s ∈ storesFrom k l, s.1 = k + j := by
  induction l generalizing k j with
  | nil => exact absurd h (Nat.not_lt_zero j)
  | cons b l ih =>
      cases j with
      | zero => exact ⟨(k, b), List.mem_cons_self, rfl⟩
      | succ j =>
          obtain ⟨s, hs, heq⟩ := ih (k := k + 1) (Nat.lt_of_succ_lt_succ h)
          exact ⟨s, List.mem_cons_of_mem _ hs, by omega⟩

/-- All stores stay below `n` exactly if the bytes fit. -/
theorem storesFrom_lt_iff {n : Nat} {l : List UInt8} :
    (∀ s ∈ storesFrom 0 l, s.1 < n) ↔ l.length ≤ n := by
  constructor
  · intro h
    by_contra hlt
    obtain ⟨s, hs, heq⟩ := exists_storesFrom (k := 0) (j := n) (l := l) (by omega)
    have := h s hs
    omega
  · intro h s hs
    have := mem_storesFrom hs
    omega

theorem storeAll_append (s₁ s₂ : List (Nat × UInt8)) (m : Mem) :
    storeAll (s₁ ++ s₂) m = storeAll s₂ (storeAll s₁ m) := List.foldl_append

/-- What is not stored to keeps its value. -/
theorem storeAll_out {stores : List (Nat × UInt8)} {x : Nat} (h : ∀ s ∈ stores, s.1 ≠ x)
    (m : Mem) : storeAll stores m x = m x := by
  induction stores generalizing m with
  | nil => rfl
  | cons s stores ih =>
      show storeAll stores (Function.update m s.1 s.2) x = m x
      rw [ih (fun s' hs' => h s' (List.mem_cons_of_mem _ hs')),
        Function.update_of_ne (h s List.mem_cons_self).symm]

theorem storeAll_storesFrom (m : Mem) (k : Nat) (l : List UInt8) :
    storeAll (storesFrom k l) m = overlay m k l.length (ofList l) := by
  induction l generalizing m k with
  | nil => exact (overlay_zero m k _).symm
  | cons b l ih =>
      show storeAll (storesFrom (k + 1) l) (Function.update m k b) = _
      rw [ih]
      funext x
      by_cases hx : x = k
      · subst hx
        rw [overlay_out _ _ (by omega), Function.update_self,
          overlay_in _ _ (Nat.le_refl x) (by simp), Nat.sub_self]
        rfl
      · by_cases hin : k + 1 ≤ x ∧ x < k + 1 + l.length
        · rw [overlay_in _ _ hin.1 hin.2, overlay_in _ _ (by omega) (by simp; omega)]
          show _ = ofList (b :: l) (x - k)
          rw [show x - k = (x - (k + 1)) + 1 by omega]
          rfl
        · rw [overlay_out _ _ (by omega), Function.update_of_ne hx,
            overlay_out _ _ (by simp; omega)]

/-- Clearing a block and copying bytes to its start fills the block with the bytes and NULs. -/
theorem storeAll_clear_copy {n : Nat} {l : List UInt8} (h : l.length ≤ n) (m : Mem) (k : Nat) :
    storeAll (storesFrom k (List.replicate n 0) ++ storesFrom k l) m
      = overlay m k n (ofList (l ++ List.replicate (n - l.length) 0)) := by
  rw [storeAll_append, storeAll_storesFrom, storeAll_storesFrom, List.length_replicate]
  funext x
  by_cases hin : k ≤ x ∧ x < k + n
  · rw [overlay_in _ _ hin.1 hin.2]
    unfold ofList
    simp only [List.getD_eq_getElem?_getD]
    by_cases hl : x < k + l.length
    · rw [overlay_in _ _ hin.1 hl, List.getElem?_append_left (by omega)]
    · rw [overlay_out _ _ (by omega), overlay_in _ _ hin.1 hin.2,
        List.getElem?_append_right (by omega)]
      simp only [List.getElem?_replicate]
      split <;> split <;> rfl
  · rw [overlay_out _ _ (by omega), overlay_out _ _ (by omega), overlay_out _ _ (by omega)]

/-- A buffer filled from its start holds the copied bytes. -/
theorem buffer_storesFrom (l : List UInt8) : buffer (storesFrom 0 l) = ofList l := by
  unfold buffer
  rw [storeAll_storesFrom]
  funext x
  by_cases hx : x < l.length
  · exact overlay_in _ _ (Nat.zero_le x) (by omega)
  · rw [overlay_out _ _ (by omega)]
    unfold ofList
    simp [List.getD_eq_getElem?_getD, List.getElem?_eq_none (Nat.le_of_not_lt hx)]

/-- Bytes that are not NUL have a terminator behind them in the buffer exactly if they do not
fill it. -/
theorem exists_nul_iff {n : Nat} {l : List UInt8} (h : ∀ b ∈ l, b ≠ 0) :
    (∃ i < n, ofList l i = 0) ↔ l.length < n := by
  constructor
  · rintro ⟨i, hi, hz⟩
    by_contra hlt
    have hin : i < l.length := by omega
    have hbyte : ofList l i = l[i] := by
      unfold ofList
      rw [List.getD_eq_getElem?_getD, List.getElem?_eq_getElem hin]
      rfl
    exact h _ (List.getElem_mem hin) (hbyte.symm.trans hz)
  · intro hlt
    refine ⟨l.length, hlt, ?_⟩
    unfold ofList
    simp [List.getD_eq_getElem?_getD]

end ByteMem
