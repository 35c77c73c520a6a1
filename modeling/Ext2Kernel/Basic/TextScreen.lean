import Mathlib.Algebra.Order.Group.Nat
import Mathlib.Logic.Function.Basic
import Mathlib.Tactic.TypeStar

set_option autoImplicit false

/-! # Text screens

A text screen has `rows` rows of `cols` cells and a cursor; behind its last row it scrolls. There
are two ways to see it without scrolling, each with a relation `Shows` and a theorem for each
operation. `Lines` are the rows that were written so far, of which the screen shows the last. A
`Roll` is one long text without rows, in which moving the cursor is arithmetic and scrolling moves
a window.
-/

namespace TextScreen

variable {α : Type*}

/-- Cells by row and column, and the cursor. -/
structure Screen (α : Type*) where
  cell : Nat → Nat → α
  x : Nat
  y : Nat

/-- A text, the first row of the window, and the place of the cursor. -/
structure Roll (α : Type*) where
  text : Nat → α
  top : Nat
  pos : Nat

variable (rows cols : Nat) (blank : α)

namespace Screen

/-- To the start of the next row; in the last row all rows move up by one. -/
def nextRow (s : Screen α) : Screen α :=
  if s.y + 1 < rows then { s with x := 0, y := s.y + 1 }
  else { s with cell := fun r c => if r + 1 < rows then s.cell (r + 1) c else blank, x := 0 }

/-- Put a character at the cursor and move on. -/
def type (s : Screen α) (a : α) : Screen α :=
  let s' := { s with cell := fun r c => if r = s.y ∧ c = s.x then a else s.cell r c }
  if s.x + 1 < cols then { s' with x := s.x + 1 } else s'.nextRow rows blank

/-- One place back, with `a` in it; from column 0 to the end of the row above. -/
def back (s : Screen α) (a : α) : Screen α :=
  let y := if s.x = 0 then s.y - 1 else s.y
  let x := if s.x = 0 then cols - 1 else s.x - 1
  { cell := fun r c => if r = y ∧ c = x then a else s.cell r c, x := x, y := y }

/-- Does a character scroll the screen? -/
def Scrolls (s : Screen α) : Prop := s.x + 1 = cols ∧ s.y + 1 = rows

instance (s : Screen α) : Decidable (s.Scrolls rows cols) := inferInstanceAs (Decidable (_ ∧ _))

/-- The same cursor and the same cells. -/
structure Same (s s' : Screen α) : Prop where
  x : s'.x = s.x
  y : s'.y = s.y
  cell : ∀ r < rows, ∀ c < cols, s'.cell r c = s.cell r c

variable {rows cols}

theorem Same.refl (s : Screen α) : Same rows cols s s := ⟨rfl, rfl, fun _ _ _ _ => rfl⟩

theorem Same.symm {s s' : Screen α} (h : Same rows cols s s') : Same rows cols s' s :=
  ⟨h.x.symm, h.y.symm, fun r hr c hc => (h.cell r hr c hc).symm⟩

theorem Same.trans {s s' s'' : Screen α} (h : Same rows cols s s') (h' : Same rows cols s' s'') :
    Same rows cols s s'' :=
  ⟨h'.x.trans h.x, h'.y.trans h.y, fun r hr c hc => (h'.cell r hr c hc).trans (h.cell r hr c hc)⟩

/-- Going to the next row does not look at the column. -/
theorem Same.nextRow {s s' : Screen α} (hy : s'.y = s.y)
    (hcell : ∀ r < rows, ∀ c < cols, s'.cell r c = s.cell r c) (blank : α) :
    Same rows cols (s.nextRow rows blank) (s'.nextRow rows blank) := by
  unfold Screen.nextRow
  rw [hy]
  split
  · exact ⟨rfl, rfl, hcell⟩
  · refine ⟨rfl, rfl, fun r hr c hc => ?_⟩
    dsimp only
    split
    · rename_i hin
      exact hcell (r + 1) hin c hc
    · rfl

end Screen

namespace Roll

/-- The roll on which nothing has been typed. -/
def of (s : Screen α) : Roll α where
  text := fun p => if p < cols * rows then s.cell (p / cols) (p % cols) else blank
  top := 0
  pos := cols * s.y + s.x

/-- Move the cursor forward; the window follows it. -/
def moveTo (r : Roll α) (p : Nat) : Roll α :=
  { r with pos := p, top := max r.top (p / cols + 1 - rows) }

def type (r : Roll α) (a : α) : Roll α :=
  { r with text := Function.update r.text r.pos a }.moveTo rows cols (r.pos + 1)

def nextRow (r : Roll α) : Roll α := r.moveTo rows cols (cols * (r.pos / cols + 1))

/-- One place back, with `a` in it; the window stays. -/
def back (r : Roll α) (a : α) : Roll α :=
  { r with text := Function.update r.text (r.pos - 1) a, pos := r.pos - 1 }

/-- The cursor is in the window, behind which the text is blank. -/
structure Framed (r : Roll α) : Prop where
  above : r.top ≤ r.pos / cols
  below : r.pos / cols < r.top + rows
  blank : ∀ p, cols * (r.top + rows) ≤ p → r.text p = blank

/-- The screen is the window on the roll. -/
structure Shows (r : Roll α) (s : Screen α) : Prop where
  x : s.x = r.pos % cols
  y : s.y + r.top = r.pos / cols
  cell : ∀ y < rows, ∀ c < cols, s.cell y c = r.text (cols * (r.top + y) + c)

variable {rows cols} {blank}

section

variable {r : Roll α} {s s' : Screen α}

theorem Shows.same (h : Shows rows cols r s) (h' : Screen.Same rows cols s s') :
    Shows rows cols r s' :=
  ⟨h'.x.trans h.x, by rw [h'.y, h.y], fun y hy c hc => (h'.cell y hy c hc).trans (h.cell y hy c hc)⟩

/-- A roll has one window. -/
theorem Shows.unique (h : Shows rows cols r s) (h' : Shows rows cols r s') :
    Screen.Same rows cols s s' := by
  refine ⟨h'.x.trans h.x.symm, ?_, fun y hy c hc => ?_⟩
  rotate_left
  · exact (h'.cell y hy c hc).trans (h.cell y hy c hc).symm
  have hy := h.y
  have hy' := h'.y
  omega

theorem Framed.moveTo {p : Nat} (h : Framed rows cols blank r) (hp : r.pos ≤ p)
    (hnext : p / cols ≤ r.pos / cols + 1) :
    Framed rows cols blank (r.moveTo rows cols p) := by
  have habove := h.above
  have hbelow := h.below
  have hle := Nat.div_le_div_right (c := cols) hp
  unfold Roll.moveTo
  refine ⟨?_, ?_, fun q hq => h.blank q ?_⟩ <;> dsimp only at *
  · omega
  · omega
  · refine le_trans (Nat.mul_le_mul_left cols ?_) hq
    omega

/-- A character in the window. -/
theorem Framed.store (h : Framed rows cols blank r) (a : α) {p : Nat}
    (hp : p < cols * (r.top + rows)) :
    Framed rows cols blank { r with text := Function.update r.text p a } := by
  refine ⟨h.above, h.below, fun q hq => ?_⟩
  have hne : q ≠ p := Nat.ne_of_gt (lt_of_lt_of_le hp hq)
  exact (Function.update_of_ne hne a r.text).trans (h.blank q hq)

variable (hcols : 0 < cols)

include hcols

/-- The place of a cell. -/
theorem place_row {y c : Nat} (hc : c < cols) : (cols * y + c) / cols = y := by
  rw [Nat.mul_add_div hcols, Nat.div_eq_of_lt hc, Nat.add_zero]

theorem Framed.pos_lt (h : Framed rows cols blank r) : r.pos < cols * (r.top + rows) := by
  have hbelow := h.below
  calc r.pos < cols * (r.pos / cols + 1) := Nat.lt_mul_div_succ r.pos hcols
    _ ≤ cols * (r.top + rows) := Nat.mul_le_mul_left cols hbelow

theorem nextRow_row (q : Nat) : cols * (q + 1) / cols = q + 1 := Nat.mul_div_cancel_left _ hcols

/-- One place further is in the same row, or at the start of the next. -/
theorem succ_row_le (p : Nat) : (p + 1) / cols ≤ p / cols + 1 := by
  refine Nat.le_of_lt_succ ((Nat.div_lt_iff_lt_mul hcols).mpr ?_)
  have hlt := Nat.lt_mul_div_succ p hcols
  rw [Nat.mul_comm, Nat.succ_eq_add_one, Nat.mul_add cols (p / cols + 1)]
  omega

theorem Framed.nextRow (h : Framed rows cols blank r) :
    Framed rows cols blank (r.nextRow rows cols) :=
  h.moveTo (Nat.lt_mul_div_succ r.pos hcols).le (nextRow_row hcols _).le

theorem Framed.type (h : Framed rows cols blank r) (a : α) :
    Framed rows cols blank (r.type rows cols a) :=
  (h.store a (h.pos_lt hcols)).moveTo (Nat.le_succ _) (succ_row_le hcols _)

/-- **The next row**, on the screen and on the roll. -/
theorem Shows.nextRow (h : Shows rows cols r s) (hf : Framed rows cols blank r) :
    Shows rows cols (r.nextRow rows cols) (s.nextRow rows blank) := by
  have hy := h.y
  have hbelow := hf.below
  have hrow : cols * (r.pos / cols + 1) / cols = r.pos / cols + 1 := nextRow_row hcols _
  unfold Roll.nextRow Roll.moveTo Screen.nextRow
  split
  · rename_i hroom
    have htop : max r.top (cols * (r.pos / cols + 1) / cols + 1 - rows) = r.top := by
      rw [hrow]
      omega
    rw [htop]
    refine ⟨(Nat.mul_mod_right cols _).symm, ?_, h.cell⟩
    dsimp only
    omega
  · rename_i hfull
    have htop : max r.top (cols * (r.pos / cols + 1) / cols + 1 - rows) = r.top + 1 := by
      rw [hrow]
      omega
    rw [htop]
    refine ⟨(Nat.mul_mod_right cols _).symm, ?_, fun y hyr c hc => ?_⟩
    · dsimp only
      omega
    · dsimp only
      split
      · rename_i hin
        rw [h.cell (y + 1) hin c hc, Nat.add_right_comm r.top 1 y, Nat.add_assoc r.top y 1]
      · -- the row that comes into the window is blank
        refine (hf.blank _ (le_trans (Nat.mul_le_mul_left cols ?_) (Nat.le_add_right _ c))).symm
        omega

/-- A character in the window is stored at its place on the roll. -/
theorem Shows.store (h : Shows rows cols r s) {c₀ : Nat} (hc₀ : c₀ < cols) (a : α) (y₀ : Nat) :
    ∀ y < rows, ∀ c < cols, (if y = y₀ ∧ c = c₀ then a else s.cell y c)
      = Function.update r.text (cols * (r.top + y₀) + c₀) a (cols * (r.top + y) + c) := by
  intro y hy c hc
  by_cases hcell : y = y₀ ∧ c = c₀
  · rw [if_pos hcell, hcell.1, hcell.2, Function.update_self]
  · rw [if_neg hcell, Function.update_of_ne, h.cell y hy c hc]
    intro hplace
    apply hcell
    have hrow := congrArg (· / cols) hplace
    have hcol := congrArg (· % cols) hplace
    rw [place_row hcols hc, place_row hcols hc₀] at hrow
    rw [Nat.mul_add_mod, Nat.mul_add_mod, Nat.mod_eq_of_lt hc, Nat.mod_eq_of_lt hc₀] at hcol
    exact ⟨Nat.add_left_cancel hrow, hcol⟩

/-- **A character**, on the screen and on the roll. -/
theorem Shows.type (h : Shows rows cols r s) (hf : Framed rows cols blank r) (a : α) :
    Shows rows cols (r.type rows cols a) (s.type rows cols blank a) := by
  have hx := h.x
  have hy := h.y
  have hbelow := hf.below
  have hpos := Nat.div_add_mod r.pos cols
  -- the cell under the cursor is the place of the cursor
  have hplace : cols * (r.top + s.y) + s.x = r.pos := by
    rw [Nat.add_comm r.top, hy, hx, hpos]
  have hstore : Shows rows cols { r with text := Function.update r.text r.pos a }
      { s with cell := fun y c => if y = s.y ∧ c = s.x then a else s.cell y c } := by
    have hcells := h.store hcols (hx ▸ Nat.mod_lt r.pos hcols) a s.y
    rw [hplace] at hcells
    exact ⟨hx, hy, hcells⟩
  unfold Roll.type Screen.type
  dsimp only
  split
  · rename_i hroom
    have hlt : r.pos % cols + 1 < cols := hx ▸ hroom
    have hdiv : (r.pos + 1) / cols = r.pos / cols := by
      conv_lhs => rw [← hpos, Nat.add_assoc, Nat.mul_add_div hcols]
      rw [Nat.div_eq_of_lt hlt, Nat.add_zero]
    have hmod : (r.pos + 1) % cols = r.pos % cols + 1 := by
      conv_lhs => rw [← hpos, Nat.add_assoc, Nat.mul_add_mod]
      exact Nat.mod_eq_of_lt hlt
    have htop : max r.top ((r.pos + 1) / cols + 1 - rows) = r.top := by
      rw [hdiv]
      omega
    unfold Roll.moveTo
    dsimp only
    rw [htop]
    refine ⟨?_, ?_, hstore.cell⟩
    · dsimp only
      rw [hmod, hx]
    · dsimp only
      rw [hdiv, hy]
  · rename_i hfull
    have hlt : r.pos % cols < cols := Nat.mod_lt _ hcols
    have hnext : r.pos + 1 = cols * (r.pos / cols + 1) := by
      rw [Nat.mul_add]
      omega
    rw [hnext]
    exact hstore.nextRow hcols (hf.store a (hf.pos_lt hcols))

/-- A character moves the window by one row exactly if it scrolls the screen. -/
theorem Shows.top_type (h : Shows rows cols r s) (hf : Framed rows cols blank r) (a : α) :
    (r.type rows cols a).top = r.top + if s.Scrolls rows cols then 1 else 0 := by
  have hx := h.x
  have hy := h.y
  have hbelow := hf.below
  have hlt : r.pos % cols < cols := Nat.mod_lt _ hcols
  have hpos := Nat.div_add_mod r.pos cols
  have hrow : (r.pos + 1) / cols = if r.pos % cols + 1 = cols then r.pos / cols + 1
      else r.pos / cols := by
    split
    · rename_i hfull
      have hnext : r.pos + 1 = cols * (r.pos / cols + 1) := by
        rw [Nat.mul_add]
        omega
      rw [hnext, nextRow_row hcols]
    · rename_i hroom
      have hplace : r.pos + 1 = cols * (r.pos / cols) + (r.pos % cols + 1) := by omega
      rw [hplace, place_row hcols (by omega)]
  show max r.top ((r.pos + 1) / cols + 1 - rows) = _
  rw [hrow]
  by_cases hs : s.Scrolls rows cols
  · have hfull := hs.1
    have hlast := hs.2
    rw [if_pos hs, if_pos (by omega)]
    omega
  · rw [if_neg hs]
    unfold Screen.Scrolls at hs
    split <;> omega

/-- In column 0 of a row that is not the first of the window there is a row above. -/
theorem Shows.row_above (h : Shows rows cols r s) (hpos : cols * r.top < r.pos) (hx : s.x = 0) :
    0 < s.y ∧ cols * (r.top + (s.y - 1)) + (cols - 1) = r.pos - 1 := by
  have hplace := Nat.div_add_mod r.pos cols
  have hcol := h.x
  have hy := h.y
  have habove : r.top < r.pos / cols := by
    have hmul : cols * r.top < cols * (r.pos / cols) := by omega
    exact Nat.lt_of_mul_lt_mul_left hmul
  have hrow : r.top + (s.y - 1) + 1 = r.pos / cols := by omega
  have hend : cols * (r.top + (s.y - 1)) + cols = r.pos := by
    calc cols * (r.top + (s.y - 1)) + cols = cols * (r.pos / cols) := by
          rw [← Nat.mul_succ, Nat.succ_eq_add_one, hrow]
      _ = r.pos := by omega
  exact ⟨by omega, by omega⟩

/-- The cell before the cursor is the place before the cursor. -/
theorem Shows.back_place (h : Shows rows cols r s) (hpos : cols * r.top < r.pos) (a : α) :
    (s.back cols a).x < cols ∧
      cols * (r.top + (s.back cols a).y) + (s.back cols a).x = r.pos - 1 := by
  have hx := h.x
  have hy := h.y
  have hplace := Nat.div_add_mod r.pos cols
  have hlt : r.pos % cols < cols := Nat.mod_lt _ hcols
  unfold Screen.back
  dsimp only
  by_cases hzero : s.x = 0
  · rw [if_pos hzero, if_pos hzero]
    exact ⟨Nat.sub_lt hcols Nat.one_pos, (h.row_above hcols hpos hzero).2⟩
  · rw [if_neg hzero, if_neg hzero]
    refine ⟨by omega, ?_⟩
    rw [Nat.add_comm r.top, hy]
    omega

/-- **One place back**, on the screen and on the roll. -/
theorem Shows.back (h : Shows rows cols r s) (hpos : cols * r.top < r.pos) (a : α) :
    Shows rows cols (r.back a) (s.back cols a) := by
  obtain ⟨hcol, hprev⟩ := h.back_place hcols hpos a
  have hcells := h.store hcols hcol a (s.back cols a).y
  rw [hprev] at hcells
  refine ⟨?_, ?_, hcells⟩
  · show (s.back cols a).x = (r.pos - 1) % cols
    rw [← hprev, Nat.mul_add_mod, Nat.mod_eq_of_lt hcol]
  · show (s.back cols a).y + r.top = (r.pos - 1) / cols
    rw [← hprev, place_row hcols hcol, Nat.add_comm]

/-- The cell before the cursor, from column 0. -/
theorem Shows.cell_above (h : Shows rows cols r s) (hf : Framed rows cols blank r)
    (hpos : cols * r.top < r.pos) (hx : s.x = 0) :
    0 < s.y ∧ s.cell (s.y - 1) (cols - 1) = r.text (r.pos - 1) := by
  obtain ⟨hrow, hplace⟩ := h.row_above hcols hpos hx
  have hy := h.y
  have hbelow := hf.below
  refine ⟨hrow, ?_⟩
  rw [h.cell (s.y - 1) (by omega) (cols - 1) (Nat.sub_lt hcols Nat.one_pos), hplace]

theorem Framed.back (h : Framed rows cols blank r) (hpos : cols * r.top < r.pos) (a : α) :
    Framed rows cols blank (r.back a) := by
  have hlt := h.pos_lt hcols
  have hbelow := h.below
  refine ⟨?_, ?_, (h.store a (p := r.pos - 1) (by omega)).blank⟩
  · show r.top ≤ (r.pos - 1) / cols
    rw [Nat.le_div_iff_mul_le hcols, Nat.mul_comm]
    omega
  · show (r.pos - 1) / cols < r.top + rows
    exact lt_of_le_of_lt (Nat.div_le_div_right (Nat.sub_le _ _)) hbelow

/-- A screen with its cursor on it is the window on its roll. -/
theorem shows_of (hx : s.x < cols) : Shows rows cols (Roll.of rows cols blank s) s := by
  unfold Roll.of
  refine ⟨?_, ?_, fun y hy c hc => ?_⟩ <;> dsimp only
  · rw [Nat.mul_add_mod, Nat.mod_eq_of_lt hx]
  · rw [place_row hcols hx, Nat.add_zero]
  · have hin : cols * (0 + y) + c < cols * rows := by
      calc cols * (0 + y) + c < cols * (0 + y) + cols := Nat.add_lt_add_left hc _
        _ = cols * (y + 1) := by rw [Nat.zero_add, Nat.mul_succ]
        _ ≤ cols * rows := Nat.mul_le_mul_left cols hy
    rw [if_pos hin, place_row hcols hc, Nat.mul_add_mod, Nat.mod_eq_of_lt hc, Nat.zero_add]

theorem framed_of (hx : s.x < cols) (hy : s.y < rows) :
    Framed rows cols blank (Roll.of rows cols blank s) := by
  unfold Roll.of
  refine ⟨Nat.zero_le _, ?_, fun p hp => ?_⟩ <;> dsimp only
  · rw [place_row hcols hx, Nat.zero_add]
    exact hy
  · rw [Nat.zero_add] at hp
    exact if_neg (Nat.not_lt.mpr hp)

end

/-! ### Typing and erasing -/

/-- From `r₀` on `n` characters have been typed, all with `P`, and all but `m` of them erased
again. -/
structure Typed (rows cols : Nat) (P : α → Prop) (b : α) (r₀ : Roll α) (n m : Nat) (r : Roll α) :
    Prop where
  pos : r.pos = r₀.pos + m
  le : m ≤ n
  top : r.top ≤ (r₀.pos + n) / cols + 1 - rows
  kept : ∀ p, r₀.pos ≤ p → p < r₀.pos + m → P (r.text p)
  erased : ∀ p, r₀.pos + m ≤ p → p < r₀.pos + n → r.text p = b
  outside : ∀ p, p < r₀.pos ∨ r₀.pos + n ≤ p → r.text p = r₀.text p

section

variable {P : α → Prop} {b : α} {r₀ r : Roll α} {n m : Nat} {s s₀ : Screen α}

theorem Typed.start (h : r.top ≤ r.pos / cols + 1 - rows) : Typed rows cols P b r 0 0 r :=
  ⟨rfl, le_refl _, h, fun p h₁ h₂ => absurd h₁ (by omega), fun p h₁ h₂ => absurd h₁ (by omega),
    fun _ _ => rfl⟩

theorem Typed.type (h : Typed rows cols P b r₀ n n r) {a : α} (ha : P a) :
    Typed rows cols P b r₀ (n + 1) (n + 1) (r.type rows cols a) := by
  have hpos := h.pos
  have htop := h.top
  refine ⟨congrArg (· + 1) hpos, le_refl _, ?_, fun p h₁ h₂ => ?_, fun p h₁ h₂ => ?_,
    fun p hp => ?_⟩
  · have hmono : (r₀.pos + n) / cols ≤ (r₀.pos + (n + 1)) / cols :=
      Nat.div_le_div_right (Nat.le_succ _)
    show max r.top ((r.pos + 1) / cols + 1 - rows) ≤ _
    rw [hpos, Nat.add_assoc]
    omega
  · show P (Function.update r.text r.pos a p)
    by_cases hlast : p = r.pos
    · rw [hlast, Function.update_self]
      exact ha
    · rw [Function.update_of_ne hlast]
      exact h.kept p h₁ (by omega)
  · omega
  · show Function.update r.text r.pos a p = _
    rw [Function.update_of_ne (by omega)]
    exact h.outside p (by omega)

theorem Typed.back (h : Typed rows cols P b r₀ n (m + 1) r) :
    Typed rows cols P b r₀ n m (r.back b) := by
  have hpos := h.pos
  have hle := h.le
  refine ⟨?_, by omega, h.top, fun p h₁ h₂ => ?_, fun p h₁ h₂ => ?_, fun p hp => ?_⟩
  · show r.pos - 1 = r₀.pos + m
    omega
  · show P (Function.update r.text (r.pos - 1) b p)
    rw [Function.update_of_ne (by omega)]
    exact h.kept p h₁ (by omega)
  · show Function.update r.text (r.pos - 1) b p = b
    by_cases hlast : p = r.pos - 1
    · rw [hlast, Function.update_self]
    · rw [Function.update_of_ne hlast]
      exact h.erased p (by omega) h₂
  · show Function.update r.text (r.pos - 1) b p = _
    rw [Function.update_of_ne (by omega)]
    exact h.outside p hp

/-- As long as no more has been typed than one row less than the screen has room for, the place
where typing began stays in the window. -/
theorem Typed.in_window (h : Typed rows cols P b r₀ n m r) (hrows : 0 < rows)
    (hroom : n ≤ cols * (rows - 1)) : cols * r.top ≤ r₀.pos := by
  have hrow : r.top + (rows - 1) ≤ (r₀.pos + n) / cols ∨ r.top = 0 := by
    have htop := h.top
    omega
  rcases hrow with hrow | hzero
  · have hmul : cols * r.top + cols * (rows - 1) ≤ r₀.pos + n :=
      calc cols * r.top + cols * (rows - 1) = cols * (r.top + (rows - 1)) := (Nat.mul_add ..).symm
        _ ≤ cols * ((r₀.pos + n) / cols) := Nat.mul_le_mul_left cols hrow
        _ ≤ r₀.pos + n := Nat.mul_div_le _ _
    omega
  · rw [hzero]
    exact Nat.zero_le _

/-- **Erasing undoes typing**, up to the rows that have scrolled away. -/
theorem Typed.undone (hcols : 0 < cols) (hx₀ : s₀.x < cols)
    (h : Typed rows cols P b (Roll.of rows cols blank s₀) n 0 r) (hs : Shows rows cols r s) :
    s.x = s₀.x ∧ s.y + r.top = s₀.y ∧ ∀ y < rows, ∀ c < cols, s.cell y c =
      if cols * s.y + s.x ≤ cols * y + c ∧ cols * y + c < cols * s.y + s.x + n then b
      else if y + r.top < rows then s₀.cell (y + r.top) c else blank := by
  have hpos : r.pos = cols * s₀.y + s₀.x := h.pos
  have hx : s.x = s₀.x := by
    rw [hs.x, hpos, Nat.mul_add_mod, Nat.mod_eq_of_lt hx₀]
  have hy : s.y + r.top = s₀.y := by
    rw [hs.y, hpos, place_row hcols hx₀]
  refine ⟨hx, hy, fun y hyr c hc => ?_⟩
  have hplace : cols * (r.top + y) + c = cols * r.top + (cols * y + c) := by
    rw [Nat.mul_add, Nat.add_assoc]
  have hbegin : (Roll.of rows cols blank s₀).pos = cols * r.top + (cols * s.y + s.x) := by
    show cols * s₀.y + s₀.x = _
    rw [← hy, ← hx, Nat.mul_add]
    omega
  rw [hs.cell y hyr c hc, hplace]
  by_cases hin : cols * s.y + s.x ≤ cols * y + c ∧ cols * y + c < cols * s.y + s.x + n
  · rw [if_pos hin]
    exact h.erased _ (by omega) (by omega)
  · rw [if_neg hin, h.outside _ (by omega), ← hplace]
    unfold Roll.of
    dsimp only
    rw [place_row hcols hc, Nat.mul_add_mod, Nat.mod_eq_of_lt hc, Nat.add_comm r.top y]
    by_cases hrow : y + r.top < rows
    · have hlt : cols * (y + r.top) + c < cols * rows :=
        calc cols * (y + r.top) + c < cols * (y + r.top + 1) := by
              rw [Nat.mul_succ]
              exact Nat.add_lt_add_left hc _
          _ ≤ cols * rows := Nat.mul_le_mul_left cols hrow
      rw [if_pos hrow, if_pos hlt]
    · have hge : cols * rows ≤ cols * (y + r.top) + c :=
        le_trans (Nat.mul_le_mul_left cols (Nat.not_lt.mp hrow)) (Nat.le_add_right _ _)
      rw [if_neg hrow, if_neg (Nat.not_lt.mpr hge)]

end

end Roll

/-! ## Lines -/

/-- The row of the cursor and the rows above it, the nearest first. -/
structure Lines (α : Type*) where
  cur : List α
  above : List (List α)

namespace Lines

def nextRow (l : Lines α) : Lines α := ⟨[], l.cur :: l.above⟩

def type (l : Lines α) (a : α) : Lines α :=
  if l.cur.length + 1 < cols then ⟨l.cur ++ [a], l.above⟩
  else ⟨[], (l.cur ++ [a]) :: l.above⟩

/-- Cell `c` of the `i`-th row from the last. -/
def cell (l : Lines α) (i c : Nat) : α := (((l.cur :: l.above)[i]?.getD [])[c]?).getD blank

/-- The screen shows the last rows. -/
structure Shows (l : Lines α) (s : Screen α) : Prop where
  x : s.x = l.cur.length
  y : s.y = min l.above.length (rows - 1)
  cell : ∀ y < rows, ∀ c < cols, s.cell y c = if y ≤ s.y then l.cell blank (s.y - y) c else blank

variable {rows cols} {blank}

section

variable {l : Lines α} {s s' : Screen α}

theorem Shows.same (h : Shows rows cols blank l s) (h' : Screen.Same rows cols s s') :
    Shows rows cols blank l s' := by
  refine ⟨h'.x.trans h.x, h'.y.trans h.y, fun y hy c hc => ?_⟩
  rw [h'.cell y hy c hc, h.cell y hy c hc, h'.y]

theorem cell_nextRow_zero (c : Nat) : l.nextRow.cell blank 0 c = blank := rfl

theorem cell_nextRow_succ (i c : Nat) : l.nextRow.cell blank (i + 1) c = l.cell blank i c := rfl

/-- **The next row**, on the screen and in the lines. -/
theorem Shows.nextRow (hrows : 0 < rows) (h : Shows rows cols blank l s) :
    Shows rows cols blank l.nextRow (s.nextRow rows blank) := by
  have hy := h.y
  unfold Screen.nextRow
  split
  · rename_i hroom
    refine ⟨rfl, ?_, fun y hyr c hc => ?_⟩
    · show s.y + 1 = min (l.above.length + 1) (rows - 1)
      omega
    · dsimp only
      rw [h.cell y hyr c hc]
      rcases Nat.lt_trichotomy y (s.y + 1) with hlt | rfl | hgt
      · rw [if_pos (by omega), if_pos (by omega), Nat.succ_sub (by omega), cell_nextRow_succ]
      · rw [if_neg (by omega), if_pos (le_refl _), Nat.sub_self, cell_nextRow_zero]
      · rw [if_neg (by omega), if_neg (by omega)]
  · rename_i hfull
    refine ⟨rfl, ?_, fun y hyr c hc => ?_⟩
    · show s.y = min (l.above.length + 1) (rows - 1)
      omega
    · dsimp only
      rw [if_pos (show y ≤ s.y by omega)]
      split
      · rename_i hin
        have hsub : s.y - y = (s.y - (y + 1)) + 1 := by omega
        rw [h.cell (y + 1) hin c hc, if_pos (by omega), hsub, cell_nextRow_succ]
      · have hsub : s.y - y = 0 := by omega
        rw [hsub, cell_nextRow_zero]

/-- **A character**, on the screen and in the lines. -/
theorem Shows.type (hrows : 0 < rows) (h : Shows rows cols blank l s) (a : α) :
    Shows rows cols blank (l.type cols a) (s.type rows cols blank a) := by
  have hx := h.x
  have hstore : ∀ y < rows, ∀ c < cols, (if y = s.y ∧ c = s.x then a else s.cell y c)
      = if y ≤ s.y then Lines.cell blank ⟨l.cur ++ [a], l.above⟩ (s.y - y) c else blank := by
    intro y hyr c hc
    rw [h.cell y hyr c hc]
    rcases Nat.lt_trichotomy y s.y with hlt | rfl | hgt
    · have hsub : s.y - y = (s.y - y - 1) + 1 := by omega
      rw [if_neg fun hk => absurd hk.1 (by omega), if_pos hlt.le, if_pos hlt.le, hsub]
      rfl
    · rw [if_pos (le_refl _), if_pos (le_refl _), Nat.sub_self]
      show (if s.y = s.y ∧ c = s.x then a else (l.cur[c]?).getD blank)
        = ((l.cur ++ [a])[c]?).getD blank
      rcases Nat.lt_trichotomy c l.cur.length with hin | rfl | hout
      · rw [if_neg fun hk => absurd hk.2 (by omega), List.getElem?_append_left hin]
      · rw [if_pos ⟨rfl, hx.symm⟩, List.getElem?_concat_length]
        rfl
      · rw [if_neg fun hk => absurd hk.2 (by omega), List.getElem?_eq_none (by omega),
          List.getElem?_eq_none (by rw [List.length_append, List.length_singleton]; omega)]
    · rw [if_neg fun hk => absurd hk.1 (by omega), if_neg (by omega), if_neg (by omega)]
  unfold Screen.type Lines.type
  dsimp only
  rw [← hx]
  split
  · refine ⟨?_, h.y, hstore⟩
    rw [List.length_append, List.length_singleton, ← hx]
  · rename_i hfull
    have hlines : (⟨[], (l.cur ++ [a]) :: l.above⟩ : Lines α)
        = Lines.nextRow ⟨l.cur ++ [a], l.above⟩ := rfl
    rw [hlines]
    -- the next row does not look at the column
    have hnext : Shows rows cols blank ⟨l.cur ++ [a], l.above⟩
        { s with
          cell := fun y c => if y = s.y ∧ c = s.x then a else s.cell y c
          x := (l.cur ++ [a]).length } := ⟨rfl, h.y, hstore⟩
    have hshow := hnext.nextRow hrows
    unfold Screen.nextRow at hshow ⊢
    dsimp only at hshow ⊢
    split
    · rename_i hroom
      rwa [if_pos hroom] at hshow
    · rename_i hroom
      rwa [if_neg hroom] at hshow

/-! ### Without the empty rows -/

/-- The lines without the empty rows that were left. -/
def dropEmpty (l : Lines α) : Lines α := ⟨l.cur, l.above.filter fun row => !row.isEmpty⟩

theorem nonempty_filter_eq_self {rs : List (List α)} (h : [] ∉ rs) :
    rs.filter (fun row => !row.isEmpty) = rs := by
  refine List.filter_eq_self.mpr fun row hrow => ?_
  cases row with
  | nil => exact absurd hrow h
  | cons _ _ => rfl

/-- An empty row that is left is dropped. -/
theorem dropEmpty_nextRow_nil (h : l.cur = []) : l.nextRow.dropEmpty = l.dropEmpty := by
  unfold dropEmpty Lines.nextRow
  dsimp only
  rw [h]
  rfl

theorem dropEmpty_nextRow (h : l.cur ≠ []) : l.nextRow.dropEmpty = l.dropEmpty.nextRow := by
  unfold dropEmpty Lines.nextRow
  dsimp only
  cases hcur : l.cur with
  | nil => exact absurd hcur h
  | cons _ _ => rfl

/-- A row that is full is not empty. -/
theorem dropEmpty_type (a : α) : (l.type cols a).dropEmpty = l.dropEmpty.type cols a := by
  have hkeep : (!(l.cur ++ [a]).isEmpty) = true := by simp
  unfold Lines.type dropEmpty
  dsimp only
  split
  · rfl
  · dsimp only
    rw [List.filter_cons_of_pos (p := fun row : List α => !row.isEmpty) hkeep]

/-- If none of the rows on the screen is empty, dropping the empty rows does not change it. -/
theorem Shows.same_of_dropEmpty (h : Shows rows cols blank l s)
    (h' : Shows rows cols blank l.dropEmpty s') (hne : [] ∉ l.above.take (rows - 1)) :
    Screen.Same rows cols s s' := by
  have hsplit : l.dropEmpty.above = l.above.take (rows - 1)
      ++ (l.above.drop (rows - 1)).filter fun row => !row.isEmpty := by
    unfold dropEmpty
    dsimp only
    conv_lhs => rw [← List.take_append_drop (rows - 1) l.above]
    rw [List.filter_append, nonempty_filter_eq_self hne]
  have hy : s'.y = s.y := by
    rw [h.y, h'.y, hsplit, List.length_append, List.length_take]
    by_cases hlen : l.above.length ≤ rows - 1
    · rw [List.drop_of_length_le hlen]
      simp only [List.filter_nil, List.length_nil]
      omega
    · omega
  refine ⟨h'.x.trans h.x.symm, hy, fun y hyr c hc => ?_⟩
  rw [h.cell y hyr c hc, h'.cell y hyr c hc, hy]
  split
  · rename_i hin
    have hle : s.y ≤ min l.above.length (rows - 1) := h.y.le
    unfold Lines.cell
    cases hi : s.y - y with
    | zero => rfl
    | succ i =>
        have hlt : i < (l.above.take (rows - 1)).length := by
          rw [List.length_take]
          omega
        rw [List.getElem?_cons_succ, List.getElem?_cons_succ, hsplit,
          List.getElem?_append_left hlt, List.getElem?_take, if_pos (by omega)]
  · rfl

/-- An empty row on the screen shows that an empty row was dropped. -/
theorem Shows.not_empty_of_same (hcols : 0 < cols)
    (hfirst : ∀ row ∈ l.above, ∀ a, row[0]? = some a → a ≠ blank)
    (h : Shows rows cols blank l s) (h' : Shows rows cols blank l.dropEmpty s')
    (hsame : Screen.Same rows cols s s') : [] ∉ l.above.take (rows - 1) := by
  intro hmem
  -- the last empty row that was left, with the rows `as` below it
  obtain ⟨as, bs, hsplit, hnone⟩ := List.eq_append_cons_of_mem hmem
  have habove : l.above = as ++ [] :: (bs ++ l.above.drop (rows - 1)) := by
    conv_lhs => rw [← List.take_append_drop (rows - 1) l.above, hsplit]
    rw [List.append_assoc, List.cons_append]
  generalize bs ++ l.above.drop (rows - 1) = rest at habove
  have hlen : as.length < rows - 1 := by
    have htake := congrArg List.length hsplit
    rw [List.length_append, List.length_cons, List.length_take] at htake
    omega
  have hdrop : l.dropEmpty.above = as ++ rest.filter fun row => !row.isEmpty := by
    unfold dropEmpty
    dsimp only
    rw [habove, List.filter_append, nonempty_filter_eq_self hnone]
    rfl
  have hy := hsame.y
  rw [h.y, h'.y, habove, hdrop] at hy
  simp only [List.length_append, List.length_cons] at hy
  cases hrest : rest.filter fun row => !row.isEmpty with
  | nil =>
      rw [hrest, List.length_nil] at hy
      omega
  | cons row rest' =>
      have hrow : row ∈ rest.filter fun row => !row.isEmpty := by
        rw [hrest]
        exact List.mem_cons_self
      obtain ⟨hin, hnonempty⟩ := List.mem_filter.mp hrow
      cases row with
      | nil => exact absurd hnonempty Bool.false_ne_true
      | cons a row' =>
          have hsy : as.length + 1 ≤ s.y := by
            rw [h.y, habove]
            simp only [List.length_append, List.length_cons]
            omega
          have hsr : s.y ≤ rows - 1 := by
            rw [h.y]
            exact Nat.min_le_right _ _
          have hcell := hsame.cell (s.y - (as.length + 1)) (by omega) 0 hcols
          have hindex : s.y - (s.y - (as.length + 1)) = as.length + 1 := by omega
          rw [h.cell _ (by omega) 0 hcols, h'.cell _ (by omega) 0 hcols, hsame.y,
            if_pos (Nat.sub_le _ _), if_pos (Nat.sub_le _ _), hindex] at hcell
          unfold Lines.cell at hcell
          rw [List.getElem?_cons_succ, List.getElem?_cons_succ, hdrop, hrest, habove,
            List.getElem?_append_right (le_refl _), List.getElem?_append_right (le_refl _),
            Nat.sub_self] at hcell
          have hne : a ≠ blank := by
            refine hfirst (a :: row') ?_ a rfl
            rw [habove]
            exact List.mem_append_right _ (List.mem_cons_of_mem _ hin)
          exact hne hcell

end

end Lines

end TextScreen
