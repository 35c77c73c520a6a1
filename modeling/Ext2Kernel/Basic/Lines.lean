import Mathlib.Data.List.Infix
import Mathlib.Tactic.Common

set_option autoImplicit false

/-! # Lines

A list is cut into lines at its separators. What a function makes of each line (`eachLine`) can be
put together line by line, which is the argument for a buffer that is emptied at separators.
-/

namespace Lines

section

variable {α β : Type*} (p : α → Bool) (f : List α → List β)

/-- What `f` makes of the lines of a list, one after the other. -/
def eachLine (l : List α) : List β := (l.splitOnP p).flatMap f

variable {p f}

theorem eachLine_single {l : List α} (h : ∀ a ∈ l, p a = false) : eachLine p f l = f l := by
  unfold eachLine
  rw [List.splitOnP_eq_singleton h, List.flatMap_singleton]

/-- The first line, and the others. -/
theorem eachLine_append_cons {line : List α} (h : ∀ a ∈ line, p a = false) {sep : α}
    (hsep : p sep = true) (rest : List α) :
    eachLine p f (line ++ sep :: rest) = f line ++ eachLine p f rest := by
  unfold eachLine
  rw [List.splitOnP_append_cons_of_forall_mem h sep hsep, List.flatMap_cons]

theorem flatten_eachLine {f : List α → List (List β)} (l : List α) :
    (eachLine p f l).flatten = eachLine p (fun line => (f line).flatten) l := by
  unfold eachLine
  induction l.splitOnP p with
  | nil => rfl
  | cons line lines ih =>
      rw [List.flatMap_cons, List.flatMap_cons, List.flatten_append, ih]

/-- A list is one line, or a first line, a separator and the rest. -/
theorem line_or_lines (l : List α) : (∀ a ∈ l, p a = false) ∨
    ∃ line sep rest, l = line ++ sep :: rest ∧ p sep = true ∧ ∀ a ∈ line, p a = false := by
  induction l with
  | nil => exact Or.inl fun a ha => absurd ha List.not_mem_nil
  | cons b l ih =>
      by_cases hb : p b = true
      · exact Or.inr ⟨[], b, l, rfl, hb, fun a ha => absurd ha List.not_mem_nil⟩
      · rw [Bool.not_eq_true] at hb
        rcases ih with hall | ⟨line, sep, rest, rfl, hsep, hline⟩
        · exact Or.inl (List.forall_mem_cons.mpr ⟨hb, hall⟩)
        · exact Or.inr ⟨b :: line, sep, rest, rfl, hsep, List.forall_mem_cons.mpr ⟨hb, hline⟩⟩

/-- Line by line: a property of one line, and of a line in front of others. -/
theorem line_induction {P : List α → Prop} (single : ∀ l, (∀ a ∈ l, p a = false) → P l)
    (cons : ∀ line sep rest, (∀ a ∈ line, p a = false) → p sep = true → P rest →
      P (line ++ sep :: rest)) (l : List α) : P l := by
  generalize hn : l.length = n
  induction n using Nat.strong_induction_on generalizing l with
  | _ n ih =>
      rcases line_or_lines (p := p) l with hall | ⟨line, sep, rest, rfl, hsep, hline⟩
      · exact single l hall
      · rw [List.length_append, List.length_cons] at hn
        exact cons line sep rest hline hsep (ih rest.length (by omega) rest rfl)

/-- Functions that agree on the lines. -/
theorem eachLine_congr {g : List α → List β} (l : List α)
    (h : ∀ line, (∀ a ∈ line, a ∈ l) → f line = g line) : eachLine p f l = eachLine p g l := by
  induction l using line_induction (p := p) with
  | single l hall =>
      rw [eachLine_single hall, eachLine_single hall]
      exact h l fun a ha => ha
  | cons line sep rest hline hsep ih =>
      rw [eachLine_append_cons hline hsep, eachLine_append_cons hline hsep]
      rw [h line fun a ha => List.mem_append_left _ ha]
      rw [ih fun l hl => h l fun a ha =>
        List.mem_append_right _ (List.mem_cons_of_mem _ (hl a ha))]

/-- An item behind the last line that the function does not see. -/
theorem eachLine_concat {a : α} (ha : p a = false) (hf : ∀ line, f (line ++ [a]) = f line)
    (l : List α) : eachLine p f (l ++ [a]) = eachLine p f l := by
  induction l using line_induction (p := p) with
  | single l hall =>
      have hall' : ∀ b ∈ l ++ [a], p b = false := by
        intro b hb
        rcases List.mem_append.mp hb with hb | hb
        · exact hall b hb
        · rw [List.mem_singleton.mp hb]
          exact ha
      rw [eachLine_single hall, eachLine_single hall', hf]
  | cons line sep rest hline hsep ih =>
      rw [List.append_assoc, List.cons_append, eachLine_append_cons hline hsep,
        eachLine_append_cons hline hsep, ih]

/-- The first line begins with what is in front of the first separator. -/
theorem splitOnP_append_head {l : List α} (h : ∀ a ∈ l, p a = false) (post : List α) :
    ∃ tail lines, (l ++ post).splitOnP p = (l ++ tail) :: lines := by
  induction l with
  | nil => exact List.exists_cons_of_ne_nil (List.splitOnP_ne_nil p post)
  | cons a l ih =>
      obtain ⟨tail, lines, heq⟩ := ih fun b hb => h b (List.mem_cons_of_mem a hb)
      have ha : ¬p a = true := by
        rw [h a List.mem_cons_self]
        exact Bool.false_ne_true
      refine ⟨tail, lines, ?_⟩
      rw [List.cons_append, List.splitOnP_cons_eq_if_modifyHead, if_neg ha, heq]
      rfl

/-- Items in front make the lines longer, or more. -/
theorem exists_line_append {n : Nat} {l : List α} (pre : List α)
    (h : ∃ line ∈ l.splitOnP p, n ≤ line.length) :
    ∃ line ∈ (pre ++ l).splitOnP p, n ≤ line.length := by
  induction pre with
  | nil => exact h
  | cons a pre ih =>
      obtain ⟨line, hline, hn⟩ := ih
      rw [List.cons_append, List.splitOnP_cons_eq_if_modifyHead]
      by_cases ha : p a = true
      · rw [if_pos ha]
        exact ⟨line, List.mem_cons_of_mem _ hline, hn⟩
      · rw [if_neg ha]
        cases hlines : (pre ++ l).splitOnP p with
        | nil => exact absurd hlines (List.splitOnP_ne_nil p _)
        | cons first lines =>
            rw [hlines] at hline
            rcases List.mem_cons.mp hline with rfl | hline
            · exact ⟨a :: line, List.mem_cons_self, Nat.le_succ_of_le hn⟩
            · exact ⟨line, List.mem_cons_of_mem _ hline, hn⟩

/-- A stretch without separators is part of a line. -/
theorem exists_line_of_infix {l : List α} (h : ∀ a ∈ l, p a = false) (pre post : List α) :
    ∃ line ∈ (pre ++ (l ++ post)).splitOnP p, l.length ≤ line.length := by
  apply exists_line_append
  obtain ⟨tail, lines, heq⟩ := splitOnP_append_head h post
  rw [heq]
  refine ⟨l ++ tail, List.mem_cons_self, ?_⟩
  rw [List.length_append]
  exact Nat.le_add_right _ _

end

end Lines
