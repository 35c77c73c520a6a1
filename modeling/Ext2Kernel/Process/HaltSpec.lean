import Ext2Kernel.Process.Halt
import Ext2Kernel.Process.ExecuteSpec
import Ext2Kernel.Console.ScreenSpec

set_option autoImplicit false

/-! # What `sys_halt` and `scheduling` do

`sys_halt` takes the running process off its terminal (`popped`) and then either returns to
the parent or, on a terminal that has become empty, executes a new shell. `scheduling` saves
the registers of the running process and either switches to the process of the next terminal
or executes a shell there.
-/

namespace Ext2Kernel

open ByteMem

/-! ## The closing loop -/

/-- The PCB after the closing loop of `sys_halt` over the list `l`. -/
def Pcb.closeFds (b : Pcb) (l : List Nat) : Pcb :=
  { b with
    fileDescArray := fun i => if i.val ∈ l then (b.fileDescArray i).close else b.fileDescArray i }

theorem Pcb.closeFds_nil (b : Pcb) : b.closeFds [] = b := by
  simp [Pcb.closeFds]

theorem Pcb.closeFds_cons (b : Pcb) {i : Nat} (hi : i < 8) (l : List Nat) :
    b.closeFds (i :: l) = (b.closeFd (Fin.ofNat 8 i)).closeFds l := by
  have hval : (Fin.ofNat 8 i).val = i := Nat.mod_eq_of_lt hi
  unfold Pcb.closeFds Pcb.closeFd
  congr 1
  funext j
  dsimp only
  by_cases hj : j = Fin.ofNat 8 i
  · subst hj
    have hmem : (Fin.ofNat 8 i).val ∈ i :: l := by
      rw [hval]
      exact List.mem_cons_self
    rw [if_pos hmem, Function.update_self]
    split <;> rfl
  · have hne : j.val ≠ i := fun h => hj (Fin.ext (by rw [hval]; exact h))
    rw [Function.update_of_ne hj]
    simp only [List.mem_cons, hne, false_or]

/-- Closing a descriptor whose flag is 0 changes nothing. -/
theorem Pcb.closeFd_of_closed {b : Pcb} {i : Fin 8} (h : (b.fileDescArray i).flags = 0) :
    b.closeFd i = b := by
  have hself : (b.fileDescArray i).close = b.fileDescArray i := by
    unfold FileDesc.close
    rw [← h]
  unfold Pcb.closeFd
  rw [hself, Function.update_eq_self]

/-- Every open descriptor has an operations table. -/
def HasOps (b : Pcb) : Prop :=
  ∀ i, (b.fileDescArray i).flags ≠ 0 → (b.fileDescArray i).fileOpsTable ≠ none

theorem HasOps.closeFd {b : Pcb} (h : HasOps b) (i : Fin 8) : HasOps (b.closeFd i) := by
  intro j hj
  unfold Pcb.closeFd at hj ⊢
  by_cases hji : j = i
  · subst hji
    simp [FileDesc.close] at hj
  · dsimp only at hj ⊢
    rw [Function.update_of_ne hji] at hj ⊢
    exact h j hj

namespace Kernel

theorem modifyPcb_self (k : Kernel) (p : Slot) (f : Pcb → Pcb) :
    (k.modifyPcb p f).pcb p = f (k.pcb p) := Function.update_self ..

theorem modifyPcb_ne (k : Kernel) {p q : Slot} (f : Pcb → Pcb) (h : q ≠ p) :
    (k.modifyPcb p f).pcb q = k.pcb q := Function.update_of_ne h ..

theorem modifyPcb_congr (k : Kernel) {p : Slot} {f g : Pcb → Pcb}
    (h : f (k.pcb p) = g (k.pcb p)) : k.modifyPcb p f = k.modifyPcb p g := by
  unfold modifyPcb
  rw [h]

theorem modifyPcb_eq_self (k : Kernel) {p : Slot} {f : Pcb → Pcb} (h : f (k.pcb p) = k.pcb p) :
    k.modifyPcb p f = k := by
  unfold modifyPcb
  rw [h, Function.update_eq_self]

theorem modifyPcb_modifyPcb (k : Kernel) (p : Slot) (f g : Pcb → Pcb) :
    (k.modifyPcb p f).modifyPcb p g = k.modifyPcb p fun b => g (f b) := by
  unfold modifyPcb
  simp only [Function.update_self, Function.update_idem]

/-- `sys_close` on an open descriptor in range. -/
theorem sysClose_open {k : Kernel} {p : Slot} {i : Nat} (hcur : k.cur = some p) (h₂ : 2 ≤ i)
    (h₇ : i < 8) (hopen : ((k.pcb p).fileDescArray (Fin.ofNat 8 i)).flags ≠ 0) :
    k.sysClose i = ((k.pcb p).fileDescArray (Fin.ofNat 8 i)).fileOpsTable.map fun ops =>
      (closeResult ops, k.modifyPcb p fun b => b.closeFd (Fin.ofNat 8 i)) := by
  have hidx : fdIdx (i : Int) = Fin.ofNat 8 i := rfl
  unfold sysClose MIN_FD_IDX MAX_FD_IDX
  rw [if_neg (by omega), hcur]
  simp only [Option.bind_some, hidx, if_neg hopen]

/-- The loop, when it is defined, closes the descriptors of its list. -/
theorem closeAll_eq {l : List Nat} {k k' : Kernel} {p : Slot} (hl : ∀ i ∈ l, 2 ≤ i ∧ i < 8)
    (hcur : k.cur = some p) (h : closeAll l k = some k') :
    k' = k.modifyPcb p fun b => b.closeFds l := by
  induction l generalizing k with
  | nil =>
      cases h
      exact (modifyPcb_eq_self _ (Pcb.closeFds_nil _)).symm
  | cons i l ih =>
      obtain ⟨h₂, h₇⟩ := hl i List.mem_cons_self
      have hl' : ∀ j ∈ l, 2 ≤ j ∧ j < 8 := fun j hj => hl j (List.mem_cons_of_mem i hj)
      unfold closeAll at h
      rw [hcur, Option.bind_some] at h
      simp only [Pcb.closeFds_cons _ h₇]
      split at h
      · rename_i hopen
        rw [sysClose_open hcur h₂ h₇ hopen, Option.bind_eq_some_iff] at h
        obtain ⟨r, hr, hrest⟩ := h
        obtain ⟨ops, _, rfl⟩ := Option.map_eq_some_iff.mp hr
        have hcur' : (k.modifyPcb p fun b => b.closeFd (Fin.ofNat 8 i)).cur = some p := hcur
        rw [ih hl' hcur' hrest, modifyPcb_modifyPcb]
      · rename_i hclosed
        rw [ih hl' hcur h]
        exact modifyPcb_congr k (by rw [Pcb.closeFd_of_closed (not_not.mp hclosed)])

/-- The loop is defined when the open descriptors have operations. -/
theorem closeAll_defined {l : List Nat} {k : Kernel} {p : Slot} (hl : ∀ i ∈ l, 2 ≤ i ∧ i < 8)
    (hcur : k.cur = some p) (hops : HasOps (k.pcb p)) : ∃ k', closeAll l k = some k' := by
  induction l generalizing k with
  | nil => exact ⟨k, rfl⟩
  | cons i l ih =>
      obtain ⟨h₂, h₇⟩ := hl i List.mem_cons_self
      have hl' : ∀ j ∈ l, 2 ≤ j ∧ j < 8 := fun j hj => hl j (List.mem_cons_of_mem i hj)
      unfold closeAll
      rw [hcur, Option.bind_some]
      split
      · rename_i hopen
        obtain ⟨ops, hsome⟩ := Option.ne_none_iff_exists'.mp (hops _ hopen)
        rw [sysClose_open hcur h₂ h₇ hopen, hsome, Option.map_some, Option.bind_some]
        have hcur' : (k.modifyPcb p fun b => b.closeFd (Fin.ofNat 8 i)).cur = some p := hcur
        refine ih hl' hcur' ?_
        rw [modifyPcb_self]
        exact hops.closeFd _
      · exact ih hl' hcur hops

/-! ## `sys_halt` -/

/-- The descriptors `sys_halt` closes. -/
def haltFds : List Nat := [2, 3, 4, 5, 6, 7]

theorem haltFds_range : ∀ i ∈ haltFds, 2 ≤ i ∧ i < 8 := by decide

/-- The state when `sys_halt` has taken the running process `p` off its terminal. -/
def popped (k : Kernel) (p : Slot) : Kernel :=
  ({ k with
      console := { k.console with tooManyShellsFlag := false }
      pcb := Function.update k.pcb p { (k.pcb p).closeFds haltFds with vidmapTerminal := 0 }
      activeProcesses := Function.update k.activeProcesses (k.pcb p).processId 0
      curPcbPtr := Function.update k.curPcbPtr k.processTerminal (k.pcb p).parentPcb
    }).vidmapPagingModify VIDEO

theorem popped_cur (k : Kernel) (p : Slot) : (k.popped p).cur = (k.pcb p).parentPcb :=
  Function.update_self ..

theorem popped_pcb_ne (k : Kernel) {p q : Slot} (h : q ≠ p) : (k.popped p).pcb q = k.pcb q :=
  Function.update_of_ne h ..

theorem popped_pcb_self (k : Kernel) (p : Slot) :
    (k.popped p).pcb p = { (k.pcb p).closeFds haltFds with vidmapTerminal := 0 } :=
  Function.update_self ..

/-- How `sys_halt` goes on from the state `popped`. -/
def afterPop (fs : FileSys) (fr : Frame) (status : UInt8) (k : Kernel) :
    Option (HaltResult × Kernel) :=
  match k.cur with
  | none =>
      match k.sysExecute fs fr (some shellCommand) with
      | some (.enter eip image, k') => some (.enter eip image, k')
      | _ => none
  | some q =>
      some (.resume ((asInt8 status) % 4294967296).toNat (k.pcb q).esp (k.pcb q).ebp,
        k.returnToParent q)

theorem dropProcess_eq_popped (k : Kernel) (p : Slot) :
    ((({ k with console := { k.console with tooManyShellsFlag := false } } : Kernel).modifyPcb p
      fun b => b.closeFds haltFds).dropProcess p) = k.popped p := by
  unfold dropProcess popped modifyPcb
  simp only [Function.update_self, Function.update_idem]
  rfl

/-- `sys_halt` is `popped` followed by `afterPop`. -/
theorem sysHalt_eq {fs : FileSys} {fr : Frame} {status : UInt8} {k : Kernel}
    {x : HaltResult × Kernel} (h : k.sysHalt fs fr status = some x) :
    ∃ p, k.cur = some p ∧ afterPop fs fr status (k.popped p) = some x := by
  unfold sysHalt at h
  obtain ⟨k₁, hclose, h⟩ := Option.bind_eq_some_iff.mp h
  have hcur : ∃ p, k.cur = some p := by
    unfold closeAll at hclose
    obtain ⟨p, hp, _⟩ := Option.bind_eq_some_iff.mp hclose
    exact ⟨p, hp⟩
  obtain ⟨p, hp⟩ := hcur
  have hk₁ := closeAll_eq (l := haltFds) haltFds_range (k := { k with
    console := { k.console with tooManyShellsFlag := false } }) hp hclose
  have hcur₁ : k₁.cur = some p := by rw [hk₁]; exact hp
  rw [hcur₁, Option.bind_some, hk₁, dropProcess_eq_popped] at h
  exact ⟨p, hp, h⟩

/-- `sys_halt` is defined as far as `afterPop` is. -/
theorem sysHalt_of_afterPop {fs : FileSys} {fr : Frame} {status : UInt8} {k : Kernel} {p : Slot}
    (hcur : k.cur = some p) (hops : HasOps (k.pcb p)) :
    k.sysHalt fs fr status = afterPop fs fr status (k.popped p) := by
  obtain ⟨k₁, hclose⟩ := closeAll_defined (l := haltFds) haltFds_range (k := { k with
    console := { k.console with tooManyShellsFlag := false } }) hcur hops
  have hk₁ := closeAll_eq haltFds_range (k := { k with
    console := { k.console with tooManyShellsFlag := false } }) hcur hclose
  have hcur₁ : k₁.cur = some p := by rw [hk₁]; exact hcur
  unfold sysHalt
  unfold haltFds at hclose
  rw [hclose, Option.bind_some, hcur₁, Option.bind_some, hk₁, dropProcess_eq_popped]
  rfl

/-- What returning to the parent `q` does. -/
structure Resumed (k : Kernel) (q : Slot) (k' : Kernel) : Prop where
  visible : k'.visibleTerminal = k.visibleTerminal
  process : k'.processTerminal = k.processTerminal
  cur : k'.curPcbPtr = k.curPcbPtr
  pcb : k'.pcb = k.pcb
  active : k'.activeProcesses = k.activeProcesses
  pageTableVidmap : k'.pageTableVidmap = k.pageTableVidmap
  page : k'.pageDirectory SYS_VIRTUAL_MEM = userPage (k.pcb q).processId
  tss : k'.tss = kernelStack (k.pcb q).processId

theorem returnToParent_resumed (k : Kernel) (q : Slot) : Resumed k q (k.returnToParent q) := by
  have hdrawn : ∀ c : Console,
      (c.putc 10).visibleTerminal = c.visibleTerminal ∧
        (c.putc 10).processTerminal = c.processTerminal := fun c =>
    ⟨(Console.drawn_putc c 10).visible, (Console.drawn_putc c 10).process⟩
  have hpage := programPaging_userPage k (k.pcb q).processId
  unfold returnToParent
  dsimp only
  split
  · exact ⟨(hdrawn _).1, (hdrawn _).2, rfl, rfl, rfl, rfl, hpage, rfl⟩
  · exact ⟨rfl, rfl, rfl, rfl, rfl, rfl, hpage, rfl⟩

/-- **Specification of `sys_halt`.** The running process `p` is taken off its terminal. With
a parent, that is resumed; otherwise the terminal gets a new shell. -/
theorem sysHalt_spec {fs : FileSys} {fr : Frame} {status : UInt8} {k k' : Kernel}
    {r : HaltResult} (h : k.sysHalt fs fr status = some (r, k')) :
    ∃ p, k.cur = some p ∧
      ((∃ q, (k.pcb p).parentPcb = some q ∧ Resumed (k.popped p) q k') ∨
        ((k.pcb p).parentPcb = none ∧ ∃ n, Entered (k.popped p) fr k' n)) := by
  obtain ⟨p, hp, hafter⟩ := sysHalt_eq h
  refine ⟨p, hp, ?_⟩
  unfold afterPop at hafter
  rw [popped_cur] at hafter
  split at hafter
  · rename_i hparent
    refine Or.inr ⟨hparent, ?_⟩
    split at hafter
    · rename_i eip image k₁ hexec
      cases hafter
      exact sysExecute_spec hexec
    · cases hafter
  · rename_i q hparent
    cases hafter
    exact Or.inl ⟨q, hparent, returnToParent_resumed _ q⟩

/-! ## Exceptions -/

/-- The state in which `exception_handler` calls `sys_halt`. -/
def raised (k : Kernel) (index : Fin 20) : Kernel :=
  { k with
    errorFlag := Function.update k.errorFlag k.processTerminal true
    console := k.console.putcs (exceptionText index) }

theorem raised_visible (k : Kernel) (index : Fin 20) :
    (k.raised index).visibleTerminal = k.visibleTerminal :=
  (Console.drawn_putcs k.console (exceptionText index)).visible

theorem raised_process (k : Kernel) (index : Fin 20) :
    (k.raised index).processTerminal = k.processTerminal :=
  (Console.drawn_putcs k.console (exceptionText index)).process

@[simp] theorem raised_pcb (k : Kernel) (index : Fin 20) : (k.raised index).pcb = k.pcb := by
  simp only [raised]

@[simp] theorem raised_tss (k : Kernel) (index : Fin 20) : (k.raised index).tss = k.tss := by
  simp only [raised]

@[simp] theorem raised_pitFlag (k : Kernel) (index : Fin 20) :
    (k.raised index).pitFlag = k.pitFlag := by
  simp only [raised]

@[simp] theorem raised_argFlag (k : Kernel) (index : Fin 20) :
    (k.raised index).argFlag = k.argFlag := by
  simp only [raised]

theorem raised_cur (k : Kernel) (index : Fin 20) : (k.raised index).cur = k.cur := by
  unfold cur
  rw [raised_process]
  rfl

theorem exceptionHandler_eq (fs : FileSys) (fr : Frame) (index : Fin 20) (k : Kernel) :
    k.exceptionHandler fs fr index = (k.raised index).sysHalt fs fr (UInt8.ofNat index.val) := rfl

/-- A call of `sys_execute` by a process: it returns, enters the new process, or faults and
ends the caller. -/
theorem executeCall_spec {fs : FileSys} {fr : Frame} {command : Option (List UInt8)}
    {k k' : Kernel} {r : ExecResult} (h : k.executeCall fs fr command = some (r, k')) :
    (k.sysExecute fs fr command = some (r, k') ∧ r ≠ .fault) ∨
      (r = .fault ∧ ∃ k₁ x, k.sysExecute fs fr command = some (.fault, k₁) ∧
        k₁.exceptionHandler fs fr PAGE_FAULT = some (x, k')) := by
  unfold executeCall at h
  split at h
  · rename_i k₁ hexec
    obtain ⟨⟨x, k₂⟩, hx, heq⟩ := Option.map_eq_some_iff.mp h
    cases heq
    exact Or.inr ⟨rfl, k₁, x, hexec, hx⟩
  · rename_i hne
    refine Or.inl ⟨h, ?_⟩
    rintro rfl
    exact hne k' h

/-! ## `scheduling` -/

/-- The state in which `scheduling` has moved on to the next terminal. -/
def scheduled (k : Kernel) (fr : Frame) : Kernel := (k.saveFrame k.processTerminal fr).nextTerminal

/-- What switching to process `p` does. -/
structure Switched (k : Kernel) (p : Slot) (k' : Kernel) : Prop where
  console : k'.console = k.console
  cur : k'.curPcbPtr = k.curPcbPtr
  pcb : k'.pcb = k.pcb
  active : k'.activeProcesses = k.activeProcesses
  page : k'.pageDirectory SYS_VIRTUAL_MEM = userPage (k.pcb p).processId
  tss : k'.tss = kernelStack (k.pcb p).processId
  vidmap : (k.pcb p).vidmapTerminal = 1 → (k'.pageTableVidmap 0).base =
    .phys (if k.processTerminal = k.visibleTerminal then VIDEO else videoBuf k.processTerminal)

theorem vidmapPagingModify_page (k : Kernel) (a : Nat) :
    (k.vidmapPagingModify a).pageDirectory SYS_VIRTUAL_MEM
      = k.pageDirectory SYS_VIRTUAL_MEM := by
  have hne : SYS_VIRTUAL_MEM ≠ USER_END / MB_4 := by decide
  simp [vidmapPagingModify, Function.update_of_ne hne]

theorem vidmapPagingModify_base (k : Kernel) (a : Nat) :
    ((k.vidmapPagingModify a).pageTableVidmap 0).base = .phys a := by
  unfold vidmapPagingModify
  simp

theorem switchTo_switched (k : Kernel) (p : Slot) : Switched k p (k.switchTo p) := by
  have hpage := programPaging_userPage k (k.pcb p).processId
  unfold switchTo
  dsimp only
  split
  · rename_i hv
    refine ⟨rfl, rfl, rfl, rfl, (vidmapPagingModify_page _ _).trans hpage, rfl, fun _ => ?_⟩
    rw [vidmapPagingModify_base, if_pos hv.2]
  · rename_i hv
    split
    · rename_i hv₁
      refine ⟨rfl, rfl, rfl, rfl, (vidmapPagingModify_page _ _).trans hpage, rfl, fun _ => ?_⟩
      rw [vidmapPagingModify_base, if_neg fun h => hv ⟨hv₁, h⟩]
    · rename_i hv₁
      exact ⟨rfl, rfl, rfl, rfl, hpage, rfl, fun h => absurd h hv₁⟩

/-- **Specification of `scheduling`.** -/
theorem scheduling_spec {fs : FileSys} {fr : Frame} {k k' : Kernel}
    (h : k.scheduling fs fr = some k') :
    (k.pitFlag = false ∧ k' = k) ∨
      (∃ p, (k.scheduled fr).cur = some p ∧ Switched (k.scheduled fr) p k') ∨
      ((k.scheduled fr).cur = none ∧ (Returned (k.scheduled fr) fr k' ∨
        ∃ n, Entered (k.scheduled fr) fr k' n)) := by
  unfold scheduling at h
  split at h
  · dsimp only at h
    split at h
    · rename_i hnone
      refine Or.inr (Or.inr ⟨hnone, ?_⟩)
      split at h
      · rename_i hexec
        cases h
        exact Or.inl (sysExecute_spec hexec).2
      · rename_i hexec
        cases h
        exact Or.inr (sysExecute_spec hexec)
      · cases h
    · rename_i p hp
      cases h
      exact Or.inr (Or.inl ⟨p, hp, switchTo_switched _ p⟩)
  · rename_i hpit
    cases h
    exact Or.inl ⟨by simpa using hpit, rfl⟩

end Kernel

end Ext2Kernel
