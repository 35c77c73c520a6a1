import Ext2Kernel.Basic.LinkedStacks
import Mathlib.Data.Fintype.Card

set_option autoImplicit false

/-! # A singly linked list with a head

A list of nodes is a pointer to its first node and a link behind each node (`LinkedList`).
`Lists r l` says that following the links from the head meets exactly the nodes `l` and then
ends. Putting a node in front, and leading the link to a node past it, keep that. The walks
are those of a program: they take one round for each node and end when enough rounds are
left.
-/

open LinkedStacks (Chain)

/-- The head of a list and the links of its nodes. -/
structure LinkedList (α : Type*) where
  head : Option α
  next : α → Option α

namespace LinkedList

variable {α : Type*} (r : LinkedList α)

/-- What is stored in a link: the head, or the link of a node. -/
def link : Option α → Option α
  | none => r.head
  | some a => r.next a

/-- Following the links from the head lists exactly `l`. -/
def Lists (l : List α) : Prop := Chain r.next r.head l

/-- The first node from a pointer on for which `p` holds; `none` when the rounds run out. -/
def find (p : α → Bool) : Nat → Option α → Option (Option α)
  | 0, _ => none
  | _ + 1, none => some none
  | n + 1, some a => if p a then some (some a) else find p n (r.next a)

variable [DecidableEq α]

/-- The link that leads to `a`, from a given link on; `none` when the rounds run out or the list
ends. -/
def findLink (a : α) : Nat → Option α → Option (Option α)
  | 0, _ => none
  | n + 1, e =>
      if r.link e = some a then some e
      else
        match r.link e with
        | none => none
        | some b => findLink a n (some b)

/-- Store a pointer in a link. -/
def setLink : Option α → Option α → LinkedList α
  | none, q => { r with head := q }
  | some a, q => { r with next := Function.update r.next a q }

/-- Put a node in front. -/
def insert (a : α) : LinkedList α := ⟨some a, Function.update r.next a r.head⟩

/-! ## The nodes of a list -/

section

variable {r}
variable {l : List α} {a : α}

omit [DecidableEq α] in
theorem Lists.nodup (h : r.Lists l) : l.Nodup := Chain.nodup h

omit [DecidableEq α] in
/-- A list is no longer than the memory of its nodes. -/
theorem Lists.length_le [Fintype α] (h : r.Lists l) : l.length ≤ Fintype.card α :=
  h.nodup.length_le_card

theorem Lists.insert (h : r.Lists l) (ha : a ∉ l) : (r.insert a).Lists (a :: l) := by
  apply Chain.cons
  show Chain (Function.update r.next a r.head) (Function.update r.next a r.head a) l
  rw [Function.update_self]
  refine Chain.congr h fun b hb => Function.update_of_ne ?_ _ _
  intro hba
  exact ha (hba ▸ hb)

/-- A node put in front of itself makes a cycle. -/
theorem not_lists_insert_head (hhead : r.head = some a) : ¬ (r.insert a).Lists l := by
  intro h
  have hnext : (r.insert a).next a = some a := by
    show Function.update r.next a r.head a = some a
    rw [Function.update_self, hhead]
  obtain ⟨l', hl', hrest⟩ := LinkedStacks.Chain.eq_cons h
  rw [hnext] at hrest
  have hlen : l'.length = l.length := congrArg List.length (hrest.unique h)
  rw [hl', List.length_cons] at hlen
  omega

/-! ## Unlinking -/

/-- A chain through `a`, cut behind `b`: the link of `b` now leads past `a`. -/
theorem chain_unlink {next : α → Option α} {p : Option α} {l₁ l₂ : List α} {a b : α}
    (h : Chain next p (l₁ ++ b :: a :: l₂)) :
    Chain (Function.update next b (next a)) p (l₁ ++ b :: l₂) := by
  have hnodup := h.nodup
  induction l₁ generalizing p with
  | nil =>
      cases h with
      | cons hb =>
          rw [List.nil_append] at hnodup
          have hnot : b ∉ a :: l₂ := (List.nodup_cons.mp hnodup).1
          apply Chain.cons
          rw [Function.update_self]
          obtain ⟨ha, htail⟩ : next b = some a ∧ Chain next (next a) l₂ := by
            generalize next b = q at hb
            cases hb with
            | cons hrest => exact ⟨rfl, hrest⟩
          refine htail.congr fun c hc => Function.update_of_ne ?_ _ _
          intro hcb
          exact hnot (hcb ▸ List.mem_cons_of_mem a hc)
  | cons c l₁ ih =>
      cases h with
      | cons hc =>
          rw [List.cons_append] at hnodup
          have hcons := List.nodup_cons.mp hnodup
          have hbc : c ≠ b := by
            intro heq
            apply hcons.1
            rw [heq]
            exact List.mem_append_right _ List.mem_cons_self
          apply Chain.cons
          rw [Function.update_of_ne hbc]
          exact ih hc hcons.2

/-- **Unlinking**: with the link to `a` led past `a`, the list holds the same nodes without
`a`. -/
theorem Lists.setLink {l₁ l₂ : List α} {a : α} (h : r.Lists (l₁ ++ a :: l₂)) :
    (r.setLink l₁.getLast? (r.next a)).Lists (l₁ ++ l₂) := by
  cases hlast : l₁.getLast? with
  | none =>
      have hnil : l₁ = [] := List.getLast?_eq_none_iff.mp hlast
      subst hnil
      unfold Lists at h
      cases hhead : r.head with
      | none =>
          rw [hhead] at h
          cases h
      | some c =>
          rw [hhead] at h
          cases h with
          | cons htail => exact htail
  | some b =>
      obtain ⟨l₀, hl₀⟩ := List.getLast?_eq_some_iff.mp hlast
      subst hl₀
      have hchain : Chain r.next r.head (l₀ ++ b :: a :: l₂) := by
        rw [List.append_assoc] at h
        exact h
      rw [List.append_assoc]
      exact chain_unlink hchain

/-! ## Walks -/

omit [DecidableEq α] in
/-- The walk of `find` ends, and finds what the list holds. -/
theorem find_eq {p : α → Bool} {n : Nat} {q : Option α} (h : Chain r.next q l)
    (hn : l.length < n) : r.find p n q = some (l.find? p) := by
  induction h generalizing n with
  | nil =>
      cases n with
      | zero => exact absurd hn (Nat.not_lt_zero _)
      | succ n => rfl
  | @cons a l _ ih =>
      cases n with
      | zero => exact absurd hn (Nat.not_lt_zero _)
      | succ n =>
          have hrest : l.length < n := Nat.lt_of_succ_lt_succ hn
          unfold find
          by_cases hp : p a = true
          · rw [if_pos hp, List.find?_cons_of_pos hp]
          · rw [if_neg hp, List.find?_cons_of_neg hp]
            exact ih hrest

/-- The walk of `findLink` from a link `e` on: it stops at the node in front of `a`, or at `e`
itself. -/
theorem findLink_from {a : α} {l₁ l₂ : List α} {n : Nat} {e : Option α}
    (h : Chain r.next (r.link e) (l₁ ++ a :: l₂)) (ha : a ∉ l₁) (hn : l₁.length < n) :
    r.findLink a n e = some (l₁.getLast?.or e) := by
  induction l₁ generalizing n e with
  | nil =>
      cases n with
      | zero => exact absurd hn (Nat.not_lt_zero _)
      | succ n =>
          have hlink : r.link e = some a := h.head?_eq.symm
          unfold findLink
          rw [if_pos hlink]
          rfl
  | cons b l₁ ih =>
      cases n with
      | zero => exact absurd hn (Nat.not_lt_zero _)
      | succ n =>
          have hlink : r.link e = some b := h.head?_eq.symm
          have hne : r.link e ≠ some a := by
            rw [hlink]
            intro heq
            exact ha (Option.some.inj heq ▸ List.mem_cons_self)
          rw [hlink] at h
          unfold findLink
          rw [if_neg hne, hlink]
          dsimp only
          cases h with
          | cons hrest =>
              have hfrom : Chain r.next (r.link (some b)) (l₁ ++ a :: l₂) := hrest
              rw [ih hfrom (fun hmem => ha (List.mem_cons_of_mem b hmem))
                (Nat.lt_of_succ_lt_succ hn)]
              cases hlast : l₁.getLast? with
              | none =>
                  have hnil : l₁ = [] := List.getLast?_eq_none_iff.mp hlast
                  subst hnil
                  rfl
              | some c => rw [List.getLast?_cons, hlast]; rfl

/-- The walk of `findLink` ends at the link to a node of the list. -/
theorem findLink_eq {a : α} {l₁ l₂ : List α} {n : Nat} (h : r.Lists (l₁ ++ a :: l₂))
    (hn : l₁.length < n) : r.findLink a n none = some l₁.getLast? := by
  have ha : a ∉ l₁ := by
    intro hmem
    have hdis := (List.nodup_append.mp h.nodup).2.2
    exact hdis a hmem a List.mem_cons_self rfl
  have hwalk := findLink_from (e := none) h ha hn
  rw [hwalk, Option.or_none]

end

end LinkedList
