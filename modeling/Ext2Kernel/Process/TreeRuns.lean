import Ext2Kernel.Process.Descriptors
import Mathlib.Data.Fin.VecNotation

set_option autoImplicit false

/-! # Runs of executes, halts, ticks and switches

The process table over whole runs from boot. As long as no call of `sys_execute` runs off the
user memory or out of its argument buffer, every event is defined, the stacks are finite,
acyclic and disjoint, and exactly the processes on them hold a process number. A program that
is longer than the user page breaks the last part: the page fault in the loader ends the
calling process, and the number taken for the new one is never given back.
-/

namespace Ext2Kernel

open LinkedStacks ByteMem Kernel

/-! ## The shell -/

/-- The image holds a shell that fits the user page. -/
def HoldsShell (fs : FileSys) : Prop :=
  ∃ d, HoldsExecutable fs shellCommand d ∧ PROGRAM_IMAGE + fs.fileLength d.inode ≤ USER_END

theorem executeParseArgs_shell : executeParseArgs (some shellCommand) = .ok shellCommand [] := by
  decide

/-- A name of less than 32 characters has its terminator in `prog_name`. -/
theorem Frame.progMem_of_lt (fr : Frame) {name : List UInt8} (h : name.length < FILENAME_LEN) :
    fr.progMem name = name := if_pos h

theorem progMem_shell (fr : Frame) : fr.progMem shellCommand = shellCommand :=
  fr.progMem_of_lt (by decide)

theorem HoldsShell.safe {fs : FileSys} (h : HoldsShell fs) (fr : Frame) (k : Kernel) :
    ExecuteSafe fs fr k (some shellCommand) := by
  obtain ⟨d, hd, hfit⟩ := h
  intro progName arg hparse
  rw [executeParseArgs_shell] at hparse
  cases hparse
  rw [progMem_shell]
  refine ⟨by decide, fun d' hd' _ => ⟨by decide, ?_⟩⟩
  obtain rfl : d' = d := Option.some.inj (hd'.found.symm.trans hd.found)
  exact Nat.le_trans hfit k.mappedEnd_ge

/-- With a free process number the shell starts. -/
theorem HoldsShell.enters {fs : FileSys} (h : HoldsShell fs) (fr : Frame) {k : Kernel} {p : Slot}
    (hp : k.firstFree = some p) :
    ∃ eip image k', k.sysExecute fs fr (some shellCommand) = some (.enter eip image, k') := by
  obtain ⟨d, hd, hfit⟩ := h
  have hexec : HoldsExecutable fs (fr.progMem shellCommand) d := by
    rw [progMem_shell]
    exact hd
  exact sysExecute_enters executeParseArgs_shell (by decide) hexec
    (Nat.le_trans hfit k.mappedEnd_ge) hp

namespace Kernel

theorem firstFree_of_free {k : Kernel} {p : Slot} (h : k.activeProcesses p ≠ 1) :
    ∃ q, k.firstFree = some q := by
  refine Option.isSome_iff_exists.mp (List.find?_isSome.mpr ⟨p, List.mem_finRange p, ?_⟩)
  simpa using h

/-! ## Progress -/

/-- `sys_halt` by a process on a stack is defined when the image holds a shell. -/
theorem sysHalt_defined {fs : FileSys} (hshell : HoldsShell fs) (fr : Frame) (status : UInt8)
    {k : Kernel} {S : Stacks} (hS : Sound k S) (hcur : k.cur ≠ none) :
    ∃ x, k.sysHalt fs fr status = some x := by
  obtain ⟨p, hp⟩ := Option.ne_none_iff_exists'.mp hcur
  rw [sysHalt_of_afterPop hp (hS.top_live hp).hasOps]
  unfold afterPop
  split
  · have hfree : (k.popped p).activeProcesses (k.pcb p).processId ≠ 1 := by
      show Function.update k.activeProcesses (k.pcb p).processId 0 (k.pcb p).processId ≠ 1
      rw [Function.update_self]
      decide
    obtain ⟨q, hq⟩ := firstFree_of_free hfree
    obtain ⟨eip, image, k', hk'⟩ := hshell.enters fr hq
    rw [hk']
    exact ⟨_, rfl⟩
  · exact ⟨_, rfl⟩

theorem exceptionHandler_defined {fs : FileSys} (hshell : HoldsShell fs) (fr : Frame)
    (index : Fin 20) {k : Kernel} {S : Stacks} (hS : Sound k S) (hcur : k.cur ≠ none) :
    ∃ x, k.exceptionHandler fs fr index = some x := by
  rw [exceptionHandler_eq]
  have hquiet : Does .still k (k.raised index) := still_raised k index
  exact sysHalt_defined hshell fr _ (hquiet.sound hS) (by rwa [raised_cur])

theorem scheduling_defined {fs : FileSys} (hshell : HoldsShell fs) (fr : Frame) (k : Kernel) :
    ∃ k', k.scheduling fs fr = some k' := by
  unfold scheduling
  split
  · dsimp only
    split
    · obtain ⟨r, k', hr, hne⟩ := (sysExecute_safe_iff ..).mpr
        (hshell.safe fr (k.saveFrame k.processTerminal fr).nextTerminal)
      rw [hr]
      cases r with
      | ret v => exact ⟨_, rfl⟩
      | enter eip image => exact ⟨_, rfl⟩
      | fault => exact absurd rfl hne
    · exact ⟨_, rfl⟩
  · exact ⟨_, rfl⟩

theorem executeCall_of_ne_fault {fs : FileSys} {fr : Frame} {command : Option (List UInt8)}
    {k k' : Kernel} {r : ExecResult} (h : k.sysExecute fs fr command = some (r, k'))
    (hne : r ≠ .fault) : k.executeCall fs fr command = some (r, k') := by
  unfold executeCall
  rw [h]
  cases r with
  | ret v => rfl
  | enter eip image => rfl
  | fault => exact absurd rfl hne

/-- The events of the runs considered here: safe executes, halts and exceptions of a process
that exists, ticks and terminal switches. -/
def TreeEvent (fs : FileSys) (k : Kernel) : Event → Prop
  | .execute fr command => ExecuteSafe fs fr k command
  | .halt _ _ => k.cur ≠ none
  | .exception _ _ => k.cur ≠ none
  | .pit _ => True
  | .switch _ => True
  | _ => False

theorem TreeEvent.defined {fs : FileSys} (hshell : HoldsShell fs) {k : Kernel} {S : Stacks}
    (hS : Sound k S) {e : Event} (he : TreeEvent fs k e) : ∃ k', step fs k e = some k' := by
  cases e with
  | execute fr command =>
      obtain ⟨r, k', hr, hne⟩ := (sysExecute_safe_iff ..).mpr he
      exact ⟨k', Option.map_eq_some_iff.mpr ⟨_, executeCall_of_ne_fault hr hne, rfl⟩⟩
  | halt fr status =>
      obtain ⟨x, hx⟩ := sysHalt_defined hshell fr status hS he
      exact ⟨x.2, Option.map_eq_some_iff.mpr ⟨x, hx, rfl⟩⟩
  | exception fr index =>
      obtain ⟨x, hx⟩ := exceptionHandler_defined hshell fr index hS he
      exact ⟨x.2, Option.map_eq_some_iff.mpr ⟨x, hx, rfl⟩⟩
  | pit fr => exact scheduling_defined hshell fr k
  | switch n => exact ⟨_, rfl⟩
  | _ => exact he.elim

/-- None of these events takes a process number without making a process. -/
theorem TreeEvent.not_faults {fs : FileSys} {k : Kernel} {e : Event} (he : TreeEvent fs k e) :
    ¬ e.LoaderFaults fs k := by
  rintro ⟨fr, command, k₁, rfl, hfault⟩
  obtain ⟨r, k', hr, hne⟩ := (sysExecute_safe_iff ..).mpr he
  rw [hfault] at hr
  cases hr
  exact hne rfl

/-! ## Preservation -/

/-- The bookkeeping is complete: the tree, the tables and no number in use elsewhere. -/
def Complete (k : Kernel) : Prop := ∃ S, Sound k S ∧ NoLeak k S

theorem Trace.complete {as : List Action} (has : ∀ a ∈ as, ∀ p, a ≠ .claim p) {k k' : Kernel}
    (h : Trace as k k') (hk : Complete k) : Complete k' :=
  h.invariant (fun a ha _ _ ⟨_, hS, hn⟩ hd =>
    ⟨_, hd.sound hS, hd.noLeak hS.toTree hn (has a ha)⟩) hk

theorem boot_complete (m : BootMemory) : Complete (boot m) :=
  ⟨_, boot_sound m, fun _ h => absurd h (by simp [boot])⟩

theorem TreeEvent.complete {fs : FileSys} (hshell : HoldsShell fs) {k : Kernel}
    (hk : Complete k) {e : Event} (he : TreeEvent fs k e) :
    ∃ k', step fs k e = some k' ∧ Complete k' := by
  obtain ⟨S, hS, hn⟩ := hk
  obtain ⟨k', hk'⟩ := he.defined hshell hS
  obtain ⟨as, htrace, hallowed⟩ := step_trace hk'
  refine ⟨k', hk', htrace.complete (fun a ha p => ?_) ⟨S, hS, hn⟩⟩
  rintro rfl
  exact he.not_faults (hallowed _ ha)

/-- A new process never gets the PCB of a process on a stack: its slot was on none, and the
other PCBs keep everything but the registers saved in the caller's. -/
def NeverOverwrites (fs : FileSys) (k : Kernel) (S : Stacks) : Prop :=
  ∀ fr command eip image k', k.sysExecute fs fr command = some (.enter eip image, k') →
    ∃ p, k'.curPcbPtr k.execTerm = some p ∧ (∀ t, p ∉ S t) ∧
      ∀ q, q ≠ p → k'.pcb q = (k.saveFrame k.execTerm fr).pcb q

theorem Tree.neverOverwrites (fs : FileSys) {k : Kernel} {S : Stacks} (hS : Tree k S) :
    NeverOverwrites fs k S := by
  intro fr command eip image k' h
  obtain ⟨p, hp⟩ := sysExecute_spec h
  obtain ⟨arg, eip', hpcb⟩ := hp.pcb
  refine ⟨p, ?_, hS.fresh (firstFree_eq_some hp.first), fun q hq => ?_⟩
  · rw [hp.cur, Function.update_self]
  · rw [hpcb, Function.update_of_ne hq]

/-- The process table as a whole: the chain from every `cur_pcb_ptr[t]` is finite (`S t` lists
it) and acyclic, the chains are disjoint, every PCB has the number of its slot, and exactly
the numbers of the PCBs on a chain are in use. -/
structure ProcessTree (k : Kernel) (S : Stacks) : Prop where
  chain : ∀ t, Chain (fun p => (k.pcb p).parentPcb) (k.curPcbPtr t) (S t)
  acyclic : ∀ t, (S t).Nodup
  disjoint : ∀ t u, t ≠ u → ∀ p ∈ S t, p ∉ S u
  ids : ∀ t, ∀ p ∈ S t, (k.pcb p).processId = p
  active : ∀ p, k.activeProcesses p = 1 ↔ ∃ t, p ∈ S t

theorem Complete.processTree {k : Kernel} (h : Complete k) : ∃ S, ProcessTree k S ∧ Tree k S := by
  obtain ⟨S, hS, hn⟩ := h
  refine ⟨S, ?_, hS.toTree⟩
  exact {
    chain := hS.chains
    acyclic := fun t => (hS.chains t).nodup
    disjoint := fun t u hne p ht hu => hne (hS.separate t u p ht hu)
    ids := hS.ids
    active := fun p => ⟨hn p, fun ⟨t, ht⟩ => hS.active t p ht⟩ }

/-- **The process table over runs from boot.** Every run of safe executes, halts, exceptions,
ticks and switches is defined and ends with a complete process table, and no execute after it
overwrites a living process. -/
theorem processTree_of_safe_run {fs : FileSys} (hshell : HoldsShell fs) (m : BootMemory)
    {es : List Event} (hsafe : StepSystem.Guarded (step fs) (TreeEvent fs) (boot m) es) :
    ∃ k S, StepSystem.run (step fs) (boot m) es = some k ∧ ProcessTree k S ∧
      NeverOverwrites fs k S := by
  obtain ⟨k, hrun, hk⟩ := StepSystem.run_total_of_guarded
    (fun _ _ hk he => TreeEvent.complete hshell hk he) hsafe (boot_complete m)
  obtain ⟨S, hPT, hS⟩ := hk.processTree
  exact ⟨k, S, hrun, hPT, hS.neverOverwrites fs⟩

/-! ## A fault in the loader leaks a number -/

/-- Process number `p` is in use and belongs to no process. -/
def Leaked (p : Slot) (k : Kernel) : Prop :=
  ∃ S, Sound k S ∧ k.activeProcesses p = 1 ∧ Fresh S p

/-- A leaked number stays leaked: no process has it, so none gives it back. -/
theorem Leaked.does {p : Slot} {a : Action} {k k' : Kernel} (h : Leaked p k)
    (hd : Does a k k') : Leaked p k' := by
  obtain ⟨S, hS, hact, hfresh⟩ := h
  refine ⟨_, hd.sound hS, ?_⟩
  cases a with
  | still =>
      have h' : Still k k' := hd
      exact ⟨by rw [h'.active]; exact hact, hfresh⟩
  | quiet =>
      have h' : Quiet k k' := hd
      exact ⟨by rw [h'.active]; exact hact, hfresh⟩
  | push t q =>
      have h' : Push t q k k' := hd
      have hne : p ≠ q := by rintro rfl; exact h'.free hact
      refine ⟨by rw [h'.active, Function.update_of_ne hne]; exact hact, fun u hu => ?_⟩
      rcases mem_push.mp hu with ⟨_, heq⟩ | hu
      · exact hne heq
      · exact hfresh u hu
  | pop t q =>
      have h' : Pop t q k k' := hd
      have hne : p ≠ q := by rintro rfl; exact hfresh t (hS.top_mem h'.top)
      refine ⟨?_, fun u hu => hfresh u (mem_of_mem_pop hu)⟩
      rw [h'.active, hS.top_id h'.top, Function.update_of_ne hne]
      exact hact
  | claim q =>
      have h' : Claim q k k' := hd
      have hne : p ≠ q := by rintro rfl; exact h'.free hact
      exact ⟨by rw [h'.active, Function.update_of_ne hne]; exact hact, hfresh⟩

theorem Leaked.not_processTree {p : Slot} {k : Kernel} (h : Leaked p k) :
    ¬ ∃ S, ProcessTree k S := by
  rintro ⟨S', hS'⟩
  obtain ⟨S, hS, hact, hfresh⟩ := h
  obtain ⟨t, ht⟩ := (hS'.active p).mp hact
  have heq : S' t = S t := (hS'.chain t).unique (hS.chains t)
  exact hfresh t (by rwa [heq] at ht)

/-- An execute whose loader faults leaks the number it took, whatever happens next. -/
theorem leaked_of_fault {fs : FileSys} {fr : Frame} {command : Option (List UInt8)}
    {k k₁ : Kernel} {S : Stacks} (hS : Sound k S)
    (h : k.sysExecute fs fr command = some (.fault, k₁)) : ∃ p, Leaked p k₁ := by
  obtain ⟨p, hp⟩ := sysExecute_spec h
  obtain ⟨m, hquiet, n, hclaim, rfl⟩ := hp.trace
  have hm := hquiet.sound hS
  have hc : Claim p m n := hclaim
  refine ⟨p, _, hclaim.sound hm, ?_, hm.fresh hc.free⟩
  rw [hc.active, Function.update_self]

/-- Process `p` runs as a shell on the terminal after that of `k`. -/
structure ShellStarted (k : Kernel) (p : Slot) (k' : Kernel) : Prop where
  visible : k'.visibleTerminal = k.visibleTerminal
  process : k'.processTerminal = k.processTerminal + 1
  cur : k'.curPcbPtr = Function.update k.curPcbPtr (k.processTerminal + 1) (some p)
  active : k'.activeProcesses = Function.update k.activeProcesses p 1
  pid : (k'.pcb p).processId = p
  vidmapTerminal : (k'.pcb p).vidmapTerminal = 0
  page : k'.pageDirectory SYS_VIRTUAL_MEM = userPage p
  tss : k'.tss = kernelStack p
  pitFlag : k'.pitFlag = true

/-- A tick that reaches an empty terminal starts a shell there. -/
theorem tick_starts_shell {fs : FileSys} (hshell : HoldsShell fs) (fr : Frame) {k : Kernel}
    {p : Slot} (hpit : k.pitFlag = true) (hempty : k.curPcbPtr (k.processTerminal + 1) = none)
    (hp : k.firstFree = some p) :
    ∃ k', step fs k (.pit fr) = some k' ∧ ShellStarted k p k' := by
  have hs := saveFrame_eq k k.processTerminal fr
  have hcur : (k.scheduled fr).cur = none := by
    unfold scheduled
    rw [hs]
    exact hempty
  have hfree : (k.scheduled fr).firstFree = some p := by
    unfold scheduled
    rw [hs]
    exact hp
  obtain ⟨eip, image, k', hk'⟩ := hshell.enters fr hfree
  obtain ⟨q, hq⟩ := sysExecute_spec hk'
  obtain rfl : p = q := Option.some.inj (hfree.symm.trans hq.first)
  have hterm : (k.scheduled fr).execTerm = k.processTerminal + 1 := by
    unfold execTerm
    rw [if_pos hcur]
    unfold scheduled
    rw [hs]
    rfl
  obtain ⟨arg, eip', hpcb⟩ := hq.pcb
  have hself := congrFun hpcb p
  rw [Function.update_self] at hself
  refine ⟨k', ?_, ?_⟩
  · show k.scheduling fs fr = some k'
    unfold scheduled at hcur hk'
    unfold scheduling
    simp only [hpit, if_true, hcur, hk']
  · have hv := hq.visible
    have ht := hq.process
    have hc := hq.cur
    have ha := hq.active
    have hf := hq.pitFlag
    rw [hterm] at hc
    unfold scheduled at hv ht hc ha hf
    rw [hs] at hv ht hc ha hf
    exact ⟨hv, ht, hc, ha, by rw [hself]; rfl, by rw [hself]; rfl, hq.page, hq.tss, hf.trans hpit⟩

end Kernel

/-! ## Two runs on the small image -/

def zeroMemory : BootMemory := ⟨fun _ => 0, 0, fun _ => 0⟩

def zeroFrame : Frame := ⟨0, 0, 0⟩

/-- The dentry of a regular file of the small image. -/
def sampleDentry (name : List UInt8) (inode : Nat) : Dentry :=
  ⟨name ++ List.replicate (FILENAME_LEN - name.length) 0, FILE_TYPE, inode⟩

theorem sampleImage_shell :
    HoldsExecutable sampleImage shellCommand (sampleDentry shellCommand 0) where
  found := by decide +kernel
  fileType := rfl
  inode := by decide
  magic := by decide +kernel

theorem sampleImage_holdsShell : HoldsShell sampleImage :=
  ⟨_, sampleImage_shell, by decide +kernel⟩

/-- The longest file the format allows is executable. -/
theorem sampleImage_big :
    HoldsExecutable sampleImage (ascii "big") (sampleDentry (ascii "big") 1) where
  found := by decide +kernel
  fileType := rfl
  inode := by decide
  magic := by decide +kernel

theorem executeParseArgs_big :
    executeParseArgs (some (ascii "big")) = .ok (ascii "big") [] := by decide +kernel

theorem progMem_big : zeroFrame.progMem (ascii "big") = ascii "big" :=
  zeroFrame.progMem_of_lt (by decide)

theorem sampleImage_big_length : sampleImage.fileLength 1 = 1023 * BLOCK_SIZE := by
  decide +kernel

namespace Kernel

/-- The first tick starts a shell as process 0 on terminal 1, while terminal 0 is visible. -/
theorem sampleImage_first_tick : ∃ k, step sampleImage (boot zeroMemory) (.pit zeroFrame) = some k
    ∧ Reachable sampleImage k ∧ ShellStarted (boot zeroMemory) 0 k := by
  obtain ⟨k, hk, hstart⟩ := tick_starts_shell sampleImage_holdsShell zeroFrame
    (k := boot zeroMemory) (p := 0) rfl rfl (by decide +kernel)
  exact ⟨k, hk, ⟨zeroMemory, (StepSystem.Reachable.refl _).trans_step hk⟩, hstart⟩

/-- After three ticks every terminal has a shell, and process 2 runs on the visible one. -/
theorem sampleImage_three_ticks : ∃ k m, Reachable sampleImage k ∧ ShellStarted m 2 k
    ∧ k.visibleTerminal = 0 ∧ k.processTerminal = 0
    ∧ k.curPcbPtr = ![some 2, some 0, some 1] ∧ k.activeProcesses = ![1, 1, 1, 0, 0, 0] := by
  obtain ⟨k₁, _, ⟨m, hreach⟩, h₁⟩ := sampleImage_first_tick
  have hp₁ : k₁.processTerminal = 1 := h₁.process
  obtain ⟨k₂, hk₂, h₂⟩ := tick_starts_shell sampleImage_holdsShell zeroFrame (k := k₁) (p := 1)
    h₁.pitFlag (by rw [hp₁, h₁.cur]; rfl) (by unfold firstFree; rw [h₁.active]; decide +kernel)
  have hp₂ : k₂.processTerminal = 2 := by rw [h₂.process, hp₁]; rfl
  obtain ⟨k₃, hk₃, h₃⟩ := tick_starts_shell sampleImage_holdsShell zeroFrame (k := k₂) (p := 2)
    h₂.pitFlag (by rw [hp₂, h₂.cur, hp₁, h₁.cur]; rfl)
    (by unfold firstFree; rw [h₂.active, h₁.active]; decide +kernel)
  refine ⟨k₃, k₂, ⟨m, (hreach.trans_step hk₂).trans_step hk₃⟩, h₃, ?_, ?_, ?_, ?_⟩
  · rw [h₃.visible, h₂.visible, h₁.visible]
    rfl
  · rw [h₃.process, hp₂]
    rfl
  · rw [h₃.cur, hp₂, h₂.cur, hp₁, h₁.cur]
    funext t
    revert t
    decide +kernel
  · rw [h₃.active, h₂.active, h₁.active]
    funext p
    revert p
    decide +kernel

/-- A shell starts another one, and the terminals are switched. -/
theorem processTree_of_safe_run_sample :
    ∃ k S, StepSystem.run (step sampleImage) (boot zeroMemory)
        [.pit zeroFrame, .execute zeroFrame (some shellCommand), .pit zeroFrame, .switch 1] = some k
      ∧ ProcessTree k S ∧ NeverOverwrites sampleImage k S :=
  processTree_of_safe_run sampleImage_holdsShell zeroMemory
    ⟨trivial, fun _ _ => ⟨sampleImage_holdsShell.safe _ _, fun _ _ =>
      ⟨trivial, fun _ _ => ⟨trivial, fun _ _ => trivial⟩⟩⟩⟩

/-- The first shell executes `big`. -/
theorem processTree_broken_by_long_program :
    ∃ k, StepSystem.run (step sampleImage) (boot zeroMemory)
        [.pit zeroFrame, .execute zeroFrame (some (ascii "big"))] = some k
      ∧ ¬ ∃ S, ProcessTree k S := by
  obtain ⟨k₁, hpit, hreach, hstart⟩ := sampleImage_first_tick
  obtain ⟨S, hS⟩ := hreach.sound
  have hfree : k₁.activeProcesses 1 ≠ 1 := by
    rw [hstart.active]
    decide
  obtain ⟨q, hq⟩ := firstFree_of_free hfree
  have hlong : k₁.mappedEnd < PROGRAM_IMAGE + sampleImage.fileLength 1 := by
    rw [sampleImage_big_length]
    unfold mappedEnd
    split <;> decide
  have hexec : HoldsExecutable sampleImage (zeroFrame.progMem (ascii "big"))
      (sampleDentry (ascii "big") 1) := by
    rw [progMem_big]
    exact sampleImage_big
  obtain ⟨k₂, hk₂⟩ := sysExecute_faults executeParseArgs_big (by decide) hexec hlong hq
  obtain ⟨p, hleak⟩ := leaked_of_fault hS hk₂
  obtain ⟨r, hr⟩ := sysExecute_spec hk₂
  have hcur : k₂.cur ≠ none := by
    have heq : k₂.cur = k₁.cur := by
      unfold cur
      rw [hr.cur, hr.process]
    rw [heq]
    unfold cur
    rw [hstart.process, hstart.cur, Function.update_self]
    simp
  obtain ⟨S₂, hS₂, hrest⟩ := hleak
  obtain ⟨⟨x, k₃⟩, hk₃⟩ := exceptionHandler_defined sampleImage_holdsShell zeroFrame PAGE_FAULT
    hS₂ hcur
  obtain ⟨_, _, as, htrace, _⟩ := trace_exceptionHandler hk₃
  have hexecute : step sampleImage k₁ (.execute zeroFrame (some (ascii "big"))) = some k₃ := by
    refine Option.map_eq_some_iff.mpr ⟨(.fault, k₃), ?_, rfl⟩
    unfold executeCall
    rw [hk₂]
    exact Option.map_eq_some_iff.mpr ⟨_, hk₃, rfl⟩
  refine ⟨k₃, ?_, ?_⟩
  · rw [StepSystem.run_cons_eq_some]
    refine ⟨k₁, hpit, ?_⟩
    rw [StepSystem.run_cons_eq_some]
    exact ⟨k₃, hexecute, rfl⟩
  · exact (htrace.invariant (fun _ _ _ _ hl hd => Leaked.does hl hd)
      ⟨S₂, hS₂, hrest⟩).not_processTree

end Kernel

end Ext2Kernel
