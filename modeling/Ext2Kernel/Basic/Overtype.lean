import Mathlib.Data.List.Basic
import Mathlib.Logic.Function.Basic
import Mathlib.Tactic.TypeStar

set_option autoImplicit false

/-! # A line in overwrite mode

A line of at most `cap` characters with a cursor in it. A character replaces the one at the
cursor, or makes the line longer at its right end; erasing makes it shorter there, and leaves a
blank elsewhere. The characters may be kept in an array that is longer than the line:
`map_range_update` says what a store does to the line in its first cells.
-/

namespace Overtype

variable {α : Type*}

/-! ## Overwriting -/

/-- `l` with `a` at place `i`, which is in `l` or right behind it. -/
def overwrite (l : List α) (i : Nat) (a : α) : List α := l.take i ++ a :: l.drop (i + 1)

theorem length_overwrite {l : List α} {i : Nat} (h : i ≤ l.length) (a : α) :
    (overwrite l i a).length = max l.length (i + 1) := by
  unfold overwrite
  rw [List.length_append, List.length_take_of_le h, List.length_cons, List.length_drop]
  omega

theorem getElem?_overwrite {l : List α} {i : Nat} (h : i ≤ l.length) (a : α) (j : Nat) :
    (overwrite l i a)[j]? = if j = i then some a else l[j]? := by
  have hlen : (l.take i).length = i := List.length_take_of_le h
  unfold overwrite
  rcases Nat.lt_trichotomy j i with hlt | heq | hgt
  · rw [if_neg (by omega), List.getElem?_append_left (by omega), List.getElem?_take_of_lt hlt]
  · rw [if_pos heq, List.getElem?_append_right (by omega), heq, hlen, Nat.sub_self]
    rfl
  · obtain ⟨d, rfl⟩ := Nat.exists_eq_add_of_lt hgt
    rw [if_neg (by omega), List.getElem?_append_right (by omega), hlen,
      show i + d + 1 - i = d + 1 by omega, List.getElem?_cons_succ, List.getElem?_drop]
    congr 1
    omega

theorem getElem?_map_range (f : Nat → α) (n j : Nat) :
    ((List.range n).map f)[j]? = if j < n then some (f j) else none := by
  rw [List.getElem?_map]
  split
  · rename_i hlt
    rw [List.getElem?_range hlt, Option.map_some]
  · rename_i hge
    rw [List.getElem?_eq_none (by simpa using hge), Option.map_none]

/-- A store into the line, or into the cell right behind it. -/
theorem map_range_update (f : Nat → α) {n i : Nat} (h : i ≤ n) (a : α) :
    (List.range (max n (i + 1))).map (Function.update f i a)
      = overwrite ((List.range n).map f) i a := by
  apply List.ext_getElem?
  intro j
  rw [getElem?_map_range, getElem?_overwrite (by simpa using h), getElem?_map_range]
  by_cases heq : j = i
  · rw [if_pos heq, if_pos (by omega), heq, Function.update_self]
  · rw [if_neg heq, Function.update_of_ne heq]
    have hcells : j < max n (i + 1) ↔ j < n := by omega
    simp only [hcells]

/-- A store behind the line. -/
theorem map_range_update_of_le (f : Nat → α) {n i : Nat} (h : n ≤ i) (a : α) :
    (List.range n).map (Function.update f i a) = (List.range n).map f := by
  refine List.map_congr_left fun j hj => Function.update_of_ne ?_ ..
  have hlt := List.mem_range.mp hj
  omega

/-- Without its last character, a line is in the cells before it. -/
theorem dropLast_map_range (f : Nat → α) (n : Nat) :
    ((List.range n).map f).dropLast = (List.range (n - 1)).map f := by
  cases n with
  | zero => rfl
  | succ n => rw [List.range_succ, List.map_append, List.map_singleton, List.dropLast_concat,
      Nat.add_sub_cancel]

/-! ## The line -/

/-- A line of at most `cap` characters, with a cursor. -/
@[ext]
structure Line (α : Type*) (cap : Nat) where
  text : List α
  cursor : Nat
  cursor_le : cursor ≤ text.length
  text_le : text.length ≤ cap

namespace Line

variable {cap : Nat} (l : Line α cap)

/-- A line with the cursor behind it. -/
def atEnd (text : List α) (h : text.length ≤ cap) : Line α cap :=
  ⟨text, text.length, Nat.le_refl _, h⟩

/-- The characters before the cursor. -/
def before : List α := l.text.take l.cursor

/-- The number of characters from the cursor on. -/
def rest : Nat := l.text.length - l.cursor

theorem cursor_add_rest : l.cursor + l.rest = l.text.length := Nat.add_sub_cancel' l.cursor_le

/-- A character at the cursor; a full line takes none at its end. -/
def put (a : α) : Line α cap :=
  if h : l.cursor < cap then
    { text := overwrite l.text l.cursor a
      cursor := l.cursor + 1
      cursor_le := by
        rw [length_overwrite l.cursor_le]
        omega
      text_le := by
        have hle := l.text_le
        rw [length_overwrite l.cursor_le]
        omega }
  else l

/-- Erase the character before the cursor. -/
def erase (blank : α) : Line α cap :=
  if h : l.cursor = 0 then l
  else if l.rest = 0 then
    { text := l.text.dropLast
      cursor := l.cursor - 1
      cursor_le := by
        have hle := l.cursor_le
        rw [List.length_dropLast]
        omega
      text_le := by
        have hle := l.text_le
        rw [List.length_dropLast]
        omega }
  else
    { text := overwrite l.text (l.cursor - 1) blank
      cursor := l.cursor - 1
      cursor_le := by
        have hle := l.cursor_le
        rw [length_overwrite (by omega)]
        omega
      text_le := by
        have hle := l.cursor_le
        have htext := l.text_le
        rw [length_overwrite (by omega)]
        omega }

def left : Line α cap :=
  { l with
    cursor := l.cursor - 1
    cursor_le := by
      have hle := l.cursor_le
      omega }

def right : Line α cap :=
  if h : l.rest = 0 then l
  else
    { l with
      cursor := l.cursor + 1
      cursor_le := by
        have hle := l.cursor_le
        unfold rest at h
        omega }

theorem length_before : l.before.length = l.cursor := List.length_take_of_le l.cursor_le

theorem before_le : l.before.length ≤ cap := by
  rw [length_before]
  exact Nat.le_trans l.cursor_le l.text_le

end Line

end Overtype
