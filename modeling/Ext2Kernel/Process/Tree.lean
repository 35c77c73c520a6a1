import Ext2Kernel.Process.Actions
import Ext2Kernel.Basic.LinkedStacks

set_option autoImplicit false

/-! # The process tree

The processes of a terminal form a stack, linked by `parent_pcb` from `cur_pcb_ptr` on. The
abstract view is one list of slots for each terminal. `Tree` says that the kernel represents
such a family of stacks, with every process in the slot of its number and marked active; it
holds in every reachable state. The other half of the bookkeeping, that only processes on a
stack are marked active (`NoLeak`), is kept by every action but `claim`.
-/

namespace Ext2Kernel

open LinkedStacks

abbrev Stacks := Terminal → List Slot

namespace Kernel

/-- The kernel represents the stacks `S`. -/
structure Tree (k : Kernel) (S : Stacks) : Prop where
  chains : Represents (fun p => (k.pcb p).parentPcb) k.curPcbPtr S
  separate : Separate S
  ids : ∀ t, ∀ p ∈ S t, (k.pcb p).processId = p
  active : ∀ t, ∀ p ∈ S t, k.activeProcesses p = 1

/-- Every process number in use belongs to a process on a stack. -/
def NoLeak (k : Kernel) (S : Stacks) : Prop :=
  ∀ p, k.activeProcesses p = 1 → ∃ t, p ∈ S t

/-- What an action does to the stacks. -/
def Action.onStacks : Action → Stacks → Stacks
  | .still, S => S
  | .quiet, S => S
  | .push t p, S => LinkedStacks.push t p S
  | .pop t _, S => LinkedStacks.pop t S
  | .claim _, S => S

theorem Tree.unique {k : Kernel} {S S' : Stacks} (h : Tree k S) (h' : Tree k S') : S = S' :=
  h.chains.unique h'.chains

/-- A process number that is not in use is on no stack. -/
theorem Tree.fresh {k : Kernel} {S : Stacks} (h : Tree k S) {p : Slot}
    (hp : k.activeProcesses p ≠ 1) : Fresh S p := fun t ht => hp (h.active t p ht)

theorem Tree.top_mem {k : Kernel} {S : Stacks} (h : Tree k S) {t : Terminal} {p : Slot}
    (hp : k.curPcbPtr t = some p) : p ∈ S t := h.chains.top_mem hp

/-- The current process of a terminal has the number of its slot. -/
theorem Tree.top_id {k : Kernel} {S : Stacks} (h : Tree k S) {t : Terminal} {p : Slot}
    (hp : k.curPcbPtr t = some p) : (k.pcb p).processId = p := h.ids t p (h.top_mem hp)

/-! ## One action -/

theorem Quiet.links {k k' : Kernel} (h : Quiet k k') (p : Slot) :
    (k'.pcb p).parentPcb = (k.pcb p).parentPcb ∧ (k'.pcb p).processId = (k.pcb p).processId := by
  rcases h.pcb p with heq | ⟨_, hstep⟩
  · rw [heq]
    exact ⟨rfl, rfl⟩
  · exact ⟨hstep.parent, hstep.pid⟩

theorem Quiet.tree {k k' : Kernel} {S : Stacks} (h : Quiet k k') (hS : Tree k S) : Tree k' S where
  chains := by
    rw [h.cur]
    exact hS.chains.congr fun _ p _ => (h.links p).1
  separate := hS.separate
  ids t p hp := (h.links p).2.trans (hS.ids t p hp)
  active t p hp := by rw [h.active]; exact hS.active t p hp

theorem Push.parents {t : Terminal} {p : Slot} {k k' : Kernel} (h : Push t p k k') :
    (fun q => (k'.pcb q).parentPcb)
      = Function.update (fun q => (k.pcb q).parentPcb) p (k.curPcbPtr t) := by
  obtain ⟨arg, eip, hpcb⟩ := h.pcb
  funext q
  rw [hpcb]
  by_cases hq : q = p
  · subst hq
    simp [newPcb]
  · simp [Function.update_of_ne hq]

theorem Push.pcb_ne {t : Terminal} {p q : Slot} {k k' : Kernel} (h : Push t p k k')
    (hq : q ≠ p) : k'.pcb q = k.pcb q := by
  obtain ⟨arg, eip, hpcb⟩ := h.pcb
  rw [hpcb, Function.update_of_ne hq]

theorem Push.tree {t : Terminal} {p : Slot} {k k' : Kernel} {S : Stacks} (h : Push t p k k')
    (hS : Tree k S) : Tree k' (push t p S) where
  chains := by
    rw [h.parents, h.cur]
    exact hS.chains.push (hS.fresh h.free)
  separate := hS.separate.push (hS.fresh h.free)
  ids u q hq := by
    obtain ⟨arg, eip, hpcb⟩ := h.pcb
    rcases mem_push.mp hq with ⟨_, rfl⟩ | hq'
    · rw [hpcb, Function.update_self]
      rfl
    · have hne : q ≠ p := by rintro rfl; exact hS.fresh h.free u hq'
      rw [h.pcb_ne hne]
      exact hS.ids u q hq'
  active u q hq := by
    rw [h.active]
    rcases mem_push.mp hq with ⟨_, rfl⟩ | hq'
    · exact Function.update_self ..
    · have hne : q ≠ p := by rintro rfl; exact hS.fresh h.free u hq'
      rw [Function.update_of_ne hne]
      exact hS.active u q hq'

theorem Pop.links {t : Terminal} {p : Slot} {k k' : Kernel} (h : Pop t p k k') (q : Slot) :
    (k'.pcb q).parentPcb = (k.pcb q).parentPcb ∧ (k'.pcb q).processId = (k.pcb q).processId := by
  rw [h.pcb]
  by_cases hq : q = p
  · subst hq
    rw [Function.update_self]
    exact ⟨rfl, rfl⟩
  · rw [Function.update_of_ne hq]
    exact ⟨rfl, rfl⟩

theorem Pop.tree {t : Terminal} {p : Slot} {k k' : Kernel} {S : Stacks} (h : Pop t p k k')
    (hS : Tree k S) : Tree k' (pop t S) where
  chains := by
    rw [h.cur]
    exact (hS.chains.pop h.top).congr fun _ q _ => (h.links q).1
  separate := hS.separate.pop t
  ids u q hq := (h.links q).2.trans (hS.ids u q (mem_of_mem_pop hq))
  active u q hq := by
    have hne := ((mem_pop_iff hS.chains hS.separate h.top).mp ⟨u, hq⟩).1
    rw [h.active, hS.top_id h.top, Function.update_of_ne hne]
    exact hS.active u q (mem_of_mem_pop hq)

theorem Claim.tree {p : Slot} {k k' : Kernel} {S : Stacks} (h : Claim p k k')
    (hS : Tree k S) : Tree k' S where
  chains := by
    rw [h.cur, h.pcb]
    exact hS.chains
  separate := hS.separate
  ids t q hq := by rw [h.pcb]; exact hS.ids t q hq
  active t q hq := by
    have hne : q ≠ p := by rintro rfl; exact hS.fresh h.free t hq
    rw [h.active, Function.update_of_ne hne]
    exact hS.active t q hq

/-- Every action keeps the tree. -/
theorem Does.tree {a : Action} {k k' : Kernel} {S : Stacks} (h : Does a k k') (hS : Tree k S) :
    Tree k' (a.onStacks S) := by
  cases a with
  | still => exact (Still.quiet h).tree hS
  | quiet => exact Quiet.tree h hS
  | push t p => exact Push.tree h hS
  | pop t p => exact Pop.tree h hS
  | claim p => exact Claim.tree h hS

/-- Every action but `claim` keeps the numbers from leaking. -/
theorem Does.noLeak {a : Action} {k k' : Kernel} {S : Stacks} (h : Does a k k')
    (hS : Tree k S) (hn : NoLeak k S) (ha : ∀ p, a ≠ .claim p) :
    NoLeak k' (a.onStacks S) := by
  intro q hq
  cases a with
  | still =>
      have h' : Still k k' := h
      exact hn q (by rwa [h'.active] at hq)
  | quiet =>
      have h' : Quiet k k' := h
      exact hn q (by rwa [h'.active] at hq)
  | push t p =>
      have h' : Push t p k k' := h
      by_cases hqp : q = p
      · exact ⟨t, mem_push.mpr (Or.inl ⟨rfl, hqp⟩)⟩
      · rw [h'.active, Function.update_of_ne hqp] at hq
        obtain ⟨u, hu⟩ := hn q hq
        exact ⟨u, mem_push.mpr (Or.inr hu)⟩
  | pop t p =>
      have h' : Pop t p k k' := h
      rw [h'.active, hS.top_id h'.top] at hq
      have hqp : q ≠ p := by
        rintro rfl
        rw [Function.update_self] at hq
        exact absurd hq (by decide)
      rw [Function.update_of_ne hqp] at hq
      exact (mem_pop_iff hS.chains hS.separate h'.top).mpr ⟨hqp, hn q hq⟩
  | claim p => exact absurd rfl (ha p)

/-! ## Runs -/

theorem Trace.tree {as : List Action} {k k' : Kernel} (h : Trace as k k')
    (hS : ∃ S, Tree k S) : ∃ S, Tree k' S :=
  h.invariant (P := fun k => ∃ S, Tree k S)
    (fun _ _ _ _ ⟨_, hS⟩ hd => ⟨_, hd.tree hS⟩) hS

theorem boot_tree (m : BootMemory) : Tree (boot m) fun _ => [] where
  chains _ := .nil
  separate _ _ _ h := by cases h
  ids _ _ h := by cases h
  active _ _ h := by cases h

/-- **The process tree in every reachable state.** -/
theorem Reachable.tree {fs : FileSys} {k : Kernel} (h : Reachable fs k) : ∃ S, Tree k S := by
  obtain ⟨m, hm⟩ := h
  refine StepSystem.Reachable.invariant (P := fun k => ∃ S, Tree k S) ?_ hm ⟨_, boot_tree m⟩
  intro k e k' hS hstep
  obtain ⟨as, htrace, _⟩ := step_trace hstep
  exact htrace.tree hS

end Kernel

end Ext2Kernel
