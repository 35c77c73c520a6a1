import Mathlib.Data.List.Nodup
import Mathlib.Logic.Function.Basic
import Mathlib.Tactic.TypeStar

set_option autoImplicit false

/-! # Stacks linked through one node memory

A family of stacks, indexed by `ι`, whose elements are nodes of one memory: `top i` points
to the topmost node of stack `i` and `next a` to the node below `a`. The abstract side is a
family of lists `S : ι → List α`; `Represents next top S` says that following the links from
`top i` lists `S i`. Pushing a node that is on no stack and popping a topmost node keep the
representation and keep the stacks apart (`Separate`).
-/

namespace LinkedStacks

variable {ι α : Type*}

/-! ## Chains -/

/-- Following `next` from a pointer lists exactly `l` and then ends. -/
inductive Chain (next : α → Option α) : Option α → List α → Prop
  | nil : Chain next none []
  | cons {a : α} {l : List α} : Chain next (next a) l → Chain next (some a) (a :: l)

/-- A chain from a node starts with that node. -/
theorem Chain.eq_cons {next : α → Option α} {a : α} {l : List α}
    (h : Chain next (some a) l) : ∃ l', l = a :: l' ∧ Chain next (next a) l' := by
  cases h with
  | cons hc => exact ⟨_, rfl, hc⟩

theorem Chain.unique {next : α → Option α} {p : Option α} {l l' : List α}
    (h : Chain next p l) (h' : Chain next p l') : l = l' := by
  induction h generalizing l' with
  | nil => cases h'; rfl
  | cons _ ih =>
      cases h' with
      | cons h' => rw [ih h']

/-- A node deep in a chain starts a shorter chain. -/
theorem Chain.of_mem {next : α → Option α} {p : Option α} {l : List α} {a : α}
    (h : Chain next p l) (ha : a ∈ l) :
    ∃ l', Chain next (some a) l' ∧ l'.length ≤ l.length := by
  induction h with
  | nil => cases ha
  | cons hc ih =>
      rcases List.mem_cons.mp ha with rfl | ha
      · exact ⟨_, .cons hc, Nat.le_refl _⟩
      · obtain ⟨l', hl', hlen⟩ := ih ha
        exact ⟨l', hl', Nat.le_succ_of_le hlen⟩

/-- A chain that ends is acyclic: a node met twice would start two chains of different
lengths. -/
theorem Chain.nodup {next : α → Option α} {p : Option α} {l : List α}
    (h : Chain next p l) : l.Nodup := by
  induction h with
  | nil => exact List.nodup_nil
  | @cons a l hc ih =>
      refine List.nodup_cons.mpr ⟨fun ha => ?_, ih⟩
      obtain ⟨l', hl', hlen⟩ := hc.of_mem ha
      have heq : l' = a :: l := hl'.unique (.cons hc)
      rw [heq, List.length_cons] at hlen
      omega

/-- Links outside a chain do not matter to it. -/
theorem Chain.congr {next next' : α → Option α} {p : Option α} {l : List α}
    (h : Chain next p l) (heq : ∀ a ∈ l, next' a = next a) : Chain next' p l := by
  induction h with
  | nil => exact .nil
  | @cons a l _ ih =>
      have hl := ih fun b hb => heq b (List.mem_cons_of_mem a hb)
      rw [← heq a List.mem_cons_self] at hl
      exact .cons hl

/-- A chain goes on to the element behind each of its members. -/
theorem Chain.next_mem {next : α → Option α} {p : Option α} {l : List α} {a b : α}
    (h : Chain next p l) (ha : a ∈ l) (hb : next a = some b) : b ∈ l := by
  induction h with
  | nil => cases ha
  | @cons c l hc ih =>
      rcases List.mem_cons.mp ha with rfl | ha'
      · rw [hb] at hc
        obtain ⟨l', rfl, _⟩ := hc.eq_cons
        exact List.mem_cons_of_mem _ List.mem_cons_self
      · exact List.mem_cons_of_mem _ (ih ha')

theorem Chain.head?_eq {next : α → Option α} {p : Option α} {l : List α}
    (h : Chain next p l) : l.head? = p := by
  cases h <;> rfl

/-! ## Families of stacks -/

/-- No node is on two stacks. -/
def Separate (S : ι → List α) : Prop :=
  ∀ i j a, a ∈ S i → a ∈ S j → i = j

/-- `a` is on no stack. -/
def Fresh (S : ι → List α) (a : α) : Prop := ∀ i, a ∉ S i

/-- The links `next` with the tops `top` represent the family `S`. -/
def Represents (next : α → Option α) (top : ι → Option α) (S : ι → List α) : Prop :=
  ∀ i, Chain next (top i) (S i)

theorem Represents.unique {next : α → Option α} {top : ι → Option α} {S S' : ι → List α}
    (h : Represents next top S) (h' : Represents next top S') : S = S' :=
  funext fun i => (h i).unique (h' i)

theorem Represents.congr {next next' : α → Option α} {top : ι → Option α}
    {S : ι → List α} (h : Represents next top S)
    (heq : ∀ i, ∀ a ∈ S i, next' a = next a) : Represents next' top S :=
  fun i => (h i).congr (heq i)

/-- A top is on its own stack. -/
theorem Represents.top_mem {next : α → Option α} {top : ι → Option α} {S : ι → List α}
    (h : Represents next top S) {i : ι} {a : α} (ha : top i = some a) : a ∈ S i := by
  have hc := h i
  rw [ha] at hc
  obtain ⟨l, hl, _⟩ := hc.eq_cons
  rw [hl]
  exact List.mem_cons_self

variable [DecidableEq ι]

/-- Push `a` on stack `i`. -/
def push (i : ι) (a : α) (S : ι → List α) : ι → List α :=
  Function.update S i (a :: S i)

/-- Pop stack `i`. -/
def pop (i : ι) (S : ι → List α) : ι → List α :=
  Function.update S i (S i).tail

@[simp] theorem push_self (i : ι) (a : α) (S : ι → List α) : push i a S i = a :: S i :=
  Function.update_self ..

@[simp] theorem push_ne {i j : ι} (h : j ≠ i) (a : α) (S : ι → List α) :
    push i a S j = S j :=
  Function.update_of_ne h ..

@[simp] theorem pop_self (i : ι) (S : ι → List α) : pop i S i = (S i).tail :=
  Function.update_self ..

@[simp] theorem pop_ne {i j : ι} (h : j ≠ i) (S : ι → List α) : pop i S j = S j :=
  Function.update_of_ne h ..

theorem mem_push {i j : ι} {a b : α} {S : ι → List α} :
    b ∈ push i a S j ↔ (j = i ∧ b = a) ∨ b ∈ S j := by
  by_cases h : j = i
  · subst h; simp
  · simp [h]

theorem mem_of_mem_pop {i j : ι} {b : α} {S : ι → List α} (h : b ∈ pop i S j) :
    b ∈ S j := by
  by_cases hj : j = i
  · subst hj
    rw [pop_self] at h
    exact List.mem_of_mem_tail h
  · rwa [pop_ne hj] at h

/-- Popping stack `i` removes its top `a` from the family and nothing else. -/
theorem mem_pop_iff {next : α → Option α} {top : ι → Option α} {S : ι → List α}
    (h : Represents next top S) (hs : Separate S) {i : ι} {a : α} (ha : top i = some a)
    {b : α} : (∃ j, b ∈ pop i S j) ↔ b ≠ a ∧ ∃ j, b ∈ S j := by
  have hc := h i
  rw [ha] at hc
  obtain ⟨l, hl, _⟩ := hc.eq_cons
  have hnd := hc.nodup
  rw [hl] at hnd
  have hal : a ∉ l := (List.nodup_cons.mp hnd).1
  constructor
  · rintro ⟨j, hj⟩
    refine ⟨?_, j, mem_of_mem_pop hj⟩
    rintro rfl
    have hji : i = j := hs i j b (h.top_mem ha) (mem_of_mem_pop hj)
    subst hji
    rw [pop_self, hl] at hj
    exact hal hj
  · rintro ⟨hne, j, hj⟩
    refine ⟨j, ?_⟩
    by_cases hji : j = i
    · subst hji
      rw [pop_self, hl]
      rw [hl] at hj
      exact (List.mem_cons.mp hj).resolve_left hne
    · rwa [pop_ne hji]

theorem Separate.push {S : ι → List α} (hs : Separate S) {i : ι} {a : α}
    (ha : Fresh S a) : Separate (push i a S) := by
  intro j k b hj hk
  rcases mem_push.mp hj with ⟨rfl, rfl⟩ | hj'
  · rcases mem_push.mp hk with ⟨rfl, _⟩ | hk'
    · rfl
    · exact absurd hk' (ha k)
  · rcases mem_push.mp hk with ⟨rfl, rfl⟩ | hk'
    · exact absurd hj' (ha j)
    · exact hs j k b hj' hk'

theorem Separate.pop {S : ι → List α} (hs : Separate S) (i : ι) : Separate (pop i S) :=
  fun j k b hj hk => hs j k b (mem_of_mem_pop hj) (mem_of_mem_pop hk)

variable [DecidableEq α]

/-- Linking a fresh node `a` to the old top of stack `i` pushes it. -/
theorem Represents.push {next : α → Option α} {top : ι → Option α} {S : ι → List α}
    (h : Represents next top S) {i : ι} {a : α} (ha : Fresh S a) :
    Represents (Function.update next a (top i)) (Function.update top i (some a))
      (push i a S) := by
  have hold : ∀ j, Chain (Function.update next a (top i)) (top j) (S j) := fun j =>
    (h j).congr fun b hb => by
      have hba : b ≠ a := by rintro rfl; exact ha j hb
      exact Function.update_of_ne hba ..
  intro j
  by_cases hj : j = i
  · subst hj
    rw [Function.update_self, push_self]
    refine .cons ?_
    rw [Function.update_self]
    exact hold j
  · rw [Function.update_of_ne hj, push_ne hj]
    exact hold j

omit [DecidableEq α] in
/-- Moving the top of stack `i` one link down pops it. -/
theorem Represents.pop {next : α → Option α} {top : ι → Option α} {S : ι → List α}
    (h : Represents next top S) {i : ι} {a : α} (ha : top i = some a) :
    Represents next (Function.update top i (next a)) (pop i S) := by
  intro j
  by_cases hj : j = i
  · subst hj
    rw [Function.update_self, pop_self]
    have hc := h j
    rw [ha] at hc
    obtain ⟨l, hl, hrest⟩ := hc.eq_cons
    rw [hl]
    exact hrest
  · rw [Function.update_of_ne hj, pop_ne hj]
    exact h j

end LinkedStacks
