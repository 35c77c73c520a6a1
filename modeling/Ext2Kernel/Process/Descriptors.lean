import Ext2Kernel.Process.Tree

set_option autoImplicit false

/-! # The descriptor tables

The invariant behind the descriptor calls, and what an event can do to the PCB of a living
process. A process on a stack has its first two descriptors
open with the terminal operations, and each of the other six is closed or open with the
operations of an RTC, a directory or a file. In a slot off the stacks the six are closed:
`_execute_create_PCB` does not touch them, so that this is what makes the table of the next
process in the slot start empty.
-/

namespace Ext2Kernel

open LinkedStacks Kernel

/-- Descriptors 0 and 1 as `_execute_create_PCB` sets them. -/
def stdinDesc : FileDesc := ⟨some .stdIn, 0, 0, 1⟩
def stdoutDesc : FileDesc := ⟨some .stdOut, 0, 0, 1⟩

/-- A descriptor that is closed or open with one of the operations `sys_open` installs. -/
def Openable (d : FileDesc) : Prop :=
  d.flags = 0 ∨ (d.flags = 1 ∧
    (d.fileOpsTable = some .rtc ∨ d.fileOpsTable = some .dir ∨ d.fileOpsTable = some .file))

/-- The table of a living process. -/
structure LiveTable (b : Pcb) : Prop where
  stdin : b.fileDescArray 0 = stdinDesc
  stdout : b.fileDescArray 1 = stdoutDesc
  others : ∀ i : Fin 8, 2 ≤ i.val → Openable (b.fileDescArray i)

/-- The table of a slot without a process. -/
def DeadTable (b : Pcb) : Prop := ∀ i : Fin 8, 2 ≤ i.val → (b.fileDescArray i).flags = 0

/-! ## Steps of a table -/

theorem FdStep.openable {i : Fin 8} {d d' : FileDesc} (h : FdStep i d d') (hd : Openable d) :
    Openable d' := by
  cases h with
  | same => exact hd
  | advance => exact hd
  | install ops inode hi hf hops =>
      refine Or.inr ⟨rfl, ?_⟩
      rcases hops with rfl | rfl | rfl
      · exact Or.inl rfl
      · exact Or.inr (Or.inl rfl)
      · exact Or.inr (Or.inr rfl)
  | close => exact Or.inl rfl

/-- The terminal descriptors do not change: only files are read at a position, and only the
descriptors from 2 on are opened and closed. -/
theorem FdStep.terminal {i : Fin 8} {d d' : FileDesc} (h : FdStep i d d') (hi : i.val < 2)
    (hd : d.fileOpsTable ≠ some .file) : d' = d := by
  cases h with
  | same => rfl
  | advance _ hfile => exact absurd hfile hd
  | install _ _ hge => omega
  | close hge => omega

theorem PcbStep.liveTable {b b' : Pcb} (h : PcbStep b b') (hb : LiveTable b) : LiveTable b' where
  stdin := by
    rw [(h.fds 0).terminal (by decide) (by rw [hb.stdin]; decide)]
    exact hb.stdin
  stdout := by
    rw [(h.fds 1).terminal (by decide) (by rw [hb.stdout]; decide)]
    exact hb.stdout
  others i hi := (h.fds i).openable (hb.others i hi)

/-- `_execute_create_PCB` leaves the upper descriptors as the last process in the slot did. -/
theorem newPcb_deadTable {old : Pcb} (h : DeadTable old) (arg : ArgumentArray)
    (parent : Option Slot) (p : Slot) (eip : Nat) :
    DeadTable { newPcb old arg parent p with eip := eip } := by
  intro i hi
  have h₀ : i ≠ 0 := by rintro rfl; simp at hi
  have h₁ : i ≠ 1 := by rintro rfl; simp at hi
  simp only [newPcb, Function.update_of_ne h₁, Function.update_of_ne h₀]
  exact h i hi

theorem newPcb_liveTable {old : Pcb} (h : DeadTable old) (arg : ArgumentArray)
    (parent : Option Slot) (p : Slot) (eip : Nat) :
    LiveTable { newPcb old arg parent p with eip := eip } where
  stdin := by simp [newPcb, stdinDesc]
  stdout := by simp [newPcb, stdoutDesc]
  others i hi := Or.inl (newPcb_deadTable h arg parent p eip i hi)

theorem closeFds_deadTable (b : Pcb) : DeadTable (b.closeFds haltFds) := by
  intro i hi
  have hmem : i.val ∈ haltFds := by
    revert hi
    revert i
    decide
  simp only [Pcb.closeFds, if_pos hmem]
  rfl

theorem LiveTable.hasOps {b : Pcb} (h : LiveTable b) : HasOps b := by
  intro i hi
  by_cases h₂ : 2 ≤ i.val
  · rcases h.others i h₂ with hz | ⟨_, hops⟩
    · exact absurd hz hi
    · rcases hops with hops | hops | hops <;> simp [hops]
  · have hcases : i = 0 ∨ i = 1 := by omega
    rcases hcases with rfl | rfl
    · simp [h.stdin, stdinDesc]
    · simp [h.stdout, stdoutDesc]

/-! ## The invariant -/

namespace Kernel

/-- The descriptor tables agree with the stacks. -/
structure Tables (k : Kernel) (S : Stacks) : Prop where
  live : ∀ t, ∀ p ∈ S t, LiveTable (k.pcb p)
  dead : ∀ p, Fresh S p → DeadTable (k.pcb p)

/-- The tree and the tables together. -/
structure Sound (k : Kernel) (S : Stacks) : Prop extends Tree k S, Tables k S

theorem Sound.top_live {k : Kernel} {S : Stacks} (h : Sound k S) {t : Terminal} {p : Slot}
    (hp : k.curPcbPtr t = some p) : LiveTable (k.pcb p) := h.live t p (h.top_mem hp)

theorem Quiet.tables {k k' : Kernel} {S : Stacks} (h : Quiet k k') (hS : Sound k S) :
    Tables k' S where
  live t p hp := by
    rcases h.pcb p with heq | ⟨_, hstep⟩
    · rw [heq]
      exact hS.live t p hp
    · exact hstep.liveTable (hS.live t p hp)
  dead p hp := by
    rcases h.pcb p with heq | ⟨⟨t, ht⟩, _⟩
    · rw [heq]
      exact hS.dead p hp
    · exact absurd (hS.top_mem ht) (hp t)

theorem Push.tables {t : Terminal} {p : Slot} {k k' : Kernel} {S : Stacks} (h : Push t p k k')
    (hS : Sound k S) : Tables k' (push t p S) where
  live u q hq := by
    obtain ⟨arg, eip, hpcb⟩ := h.pcb
    have hfresh := hS.fresh h.free
    rcases mem_push.mp hq with ⟨_, rfl⟩ | hq'
    · rw [hpcb, Function.update_self]
      exact newPcb_liveTable (hS.dead _ hfresh) arg _ _ eip
    · have hne : q ≠ p := by rintro rfl; exact hfresh u hq'
      rw [h.pcb_ne hne]
      exact hS.live u q hq'
  dead q hq := by
    have hne : q ≠ p := by
      rintro rfl
      exact hq t (mem_push.mpr (Or.inl ⟨rfl, rfl⟩))
    rw [h.pcb_ne hne]
    exact hS.dead q fun u hu => hq u (mem_push.mpr (Or.inr hu))

theorem Pop.tables {t : Terminal} {p : Slot} {k k' : Kernel} {S : Stacks} (h : Pop t p k k')
    (hS : Sound k S) : Tables k' (pop t S) where
  live u q hq := by
    have hne := ((mem_pop_iff hS.chains hS.separate h.top).mp ⟨u, hq⟩).1
    rw [h.pcb, Function.update_of_ne hne]
    exact hS.live u q (mem_of_mem_pop hq)
  dead q hq := by
    rw [h.pcb]
    by_cases hqp : q = p
    · subst hqp
      rw [Function.update_self]
      exact closeFds_deadTable _
    · rw [Function.update_of_ne hqp]
      refine hS.dead q fun u hu => ?_
      obtain ⟨v, hv⟩ := (mem_pop_iff hS.chains hS.separate h.top).mpr ⟨hqp, u, hu⟩
      exact hq v hv

/-- Every action keeps the tree and the tables. -/
theorem Does.sound {a : Action} {k k' : Kernel} {S : Stacks} (h : Does a k k')
    (hS : Sound k S) : Sound k' (a.onStacks S) := by
  refine { h.tree hS.toTree with toTables := ?_ }
  cases a with
  | still => exact (Still.quiet h).tables hS
  | quiet => exact Quiet.tables h hS
  | push t p => exact Push.tables h hS
  | pop t p => exact Pop.tables h hS
  | claim p =>
      have h' : Claim p k k' := h
      refine ⟨fun t q hq => ?_, fun q hq => ?_⟩
      · rw [h'.pcb]
        exact hS.live t q hq
      · rw [h'.pcb]
        exact hS.dead q hq

theorem Trace.sound {as : List Action} {k k' : Kernel} (h : Trace as k k')
    (hS : ∃ S, Sound k S) : ∃ S, Sound k' S :=
  h.invariant (P := fun k => ∃ S, Sound k S)
    (fun _ _ _ _ ⟨_, hS⟩ hd => ⟨_, hd.sound hS⟩) hS

theorem boot_sound (m : BootMemory) : Sound (boot m) fun _ => [] where
  toTree := boot_tree m
  live _ _ h := by cases h
  dead _ _ _ _ := rfl

theorem step_sound {fs : FileSys} {k k' : Kernel} {e : Event} (hS : ∃ S, Sound k S)
    (h : step fs k e = some k') : ∃ S, Sound k' S := by
  obtain ⟨as, htrace, _⟩ := step_trace h
  exact htrace.sound hS

/-- **The tree and the tables in every reachable state.** -/
theorem Reachable.sound {fs : FileSys} {k : Kernel} (h : Reachable fs k) : ∃ S, Sound k S := by
  obtain ⟨m, hm⟩ := h
  exact StepSystem.Reachable.invariant (P := fun k => ∃ S, Sound k S)
    (fun _ _ _ hS hstep => step_sound hS hstep) hm ⟨_, boot_sound m⟩

/-! ## What an event does to the PCB of a living process -/

theorem Does.mem {a : Action} {k k' : Kernel} {S : Stacks} {p : Slot} (h : Does a k k')
    (hS : Sound k S) (hp : ∃ t, p ∈ S t) (ha : ∀ u, a ≠ .pop u p) :
    ∃ t, p ∈ a.onStacks S t := by
  cases a with
  | still => exact hp
  | quiet => exact hp
  | push u q =>
      obtain ⟨t, ht⟩ := hp
      exact ⟨t, mem_push.mpr (Or.inr ht)⟩
  | pop u q =>
      have h' : Pop u q k k' := h
      refine (mem_pop_iff hS.chains hS.separate h'.top).mpr ⟨?_, hp⟩
      rintro rfl
      exact ha u rfl
  | claim q => exact hp

/-- Process `p` is on a stack. -/
def OnStack (p : Slot) (k : Kernel) : Prop := ∃ S, Sound k S ∧ ∃ t, p ∈ S t

/-- An action that neither ends `p` nor is a call on its PCB. -/
theorem Does.pcbStill {a : Action} {k k' : Kernel} {p : Slot} (h : Does a k k')
    (hp : OnStack p k) (ha : ∀ u, a ≠ .pop u p) (hq : a ≠ .quiet) :
    PcbStill (k.pcb p) (k'.pcb p) := by
  obtain ⟨S, hS, t, ht⟩ := hp
  cases a with
  | still => exact Still.pcbStill h p
  | quiet => exact absurd rfl hq
  | push u q =>
      have h' : Push u q k k' := h
      have hne : p ≠ q := by
        rintro rfl
        exact hS.fresh h'.free t ht
      rw [h'.pcb_ne hne]
      exact .refl _
  | pop u q =>
      have h' : Pop u q k k' := h
      have hne : p ≠ q := by
        rintro rfl
        exact ha u rfl
      rw [h'.pcb, Function.update_of_ne hne]
      exact .refl _
  | claim q =>
      have h' : Claim q k k' := h
      rw [h'.pcb]
      exact .refl _

theorem Does.onStack {a : Action} {k k' : Kernel} {p : Slot} (h : Does a k k')
    (hp : OnStack p k) (ha : ∀ u, a ≠ .pop u p) : OnStack p k' := by
  obtain ⟨S, hS, hmem⟩ := hp
  exact ⟨_, h.sound hS, h.mem hS hmem ha⟩

/-- The event does not end process `p`. -/
def Spares (fs : FileSys) (p : Slot) (k : Kernel) (e : Event) : Prop :=
  ¬ (k.cur = some p ∧ e.Ends fs k)

theorem Allowed.ne_pop {fs : FileSys} {k : Kernel} {e : Event} {p : Slot} {a : Action}
    (h : Allowed fs k e a) (hp : Spares fs p k e) (u : Terminal) : a ≠ .pop u p := by
  rintro rfl
  exact hp ⟨h.2.1, h.2.2⟩

theorem OnStack.step {fs : FileSys} {k k' : Kernel} {e : Event} {p : Slot} (hp : OnStack p k)
    (hspare : Spares fs p k e) (h : step fs k e = some k') : OnStack p k' := by
  obtain ⟨as, htrace, hallowed⟩ := step_trace h
  exact htrace.invariant (P := OnStack p)
    (fun a ha _ _ hk hd => hd.onStack hk ((hallowed a ha).ne_pop hspare)) hp

/-- **The PCB of a living process** changes its descriptors and its video flag only by the
calls for this. -/
theorem OnStack.pcbStill {fs : FileSys} {k k' : Kernel} {e : Event} {p : Slot}
    (hp : OnStack p k) (hspare : Spares fs p k e) (he : ¬ e.Touches)
    (h : Kernel.step fs k e = some k') : PcbStill (k.pcb p) (k'.pcb p) := by
  obtain ⟨as, htrace, hallowed⟩ := step_trace h
  have hinv := htrace.invariant
    (P := fun m => OnStack p m ∧ PcbStill (k.pcb p) (m.pcb p)) ?_ ⟨hp, .refl _⟩
  · exact hinv.2
  · intro a ha m m' ⟨hm, hstill⟩ hd
    have hne := (hallowed a ha).ne_pop hspare
    have hquiet : a ≠ .quiet := by
      rintro rfl
      exact he (hallowed _ ha)
    exact ⟨hd.onStack hm hne, hstill.trans (hd.pcbStill hm hne hquiet)⟩

end Kernel

end Ext2Kernel
