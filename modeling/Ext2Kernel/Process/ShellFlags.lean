import Ext2Kernel.Process.EventFlags
import Ext2Kernel.Process.CallEffects
import Ext2Kernel.Process.TreeRuns

set_option autoImplicit false

/-! # The shell flag of a terminal

`shell_flag` is to say whether the current process of a terminal is a shell. `sys_execute` sets
it from the first five characters of the program's name, and `sys_halt` takes every parent for a
shell. A history variable holds the name of the program that each process was executed from; with
it, the flags are right after every event exactly while no other program's name starts with
`shell` and only shells get the processor back (`flagsRight_iff`).
-/

namespace Ext2Kernel

open ByteMem

namespace Kernel

open StepSystem (Along Guarded withHistory)
open Console (KeepsFlags)

/-! ## The programs of the processes -/

/-- The program name of a command. -/
def commandProgram (command : Option (List UInt8)) : Option (List UInt8) :=
  match executeParseArgs command with
  | .bad => none
  | .ok progName _ => some progName

/-- A shell that replaces the running process, which has no parent. -/
def restarted (k : Kernel) : Option (Terminal × List UInt8) :=
  if k.cur.bind (fun p => (k.pcb p).parentPcb) = none then some (k.processTerminal, shellCommand)
  else none

/-- The terminal and the program of the process that an event starts. -/
def startedIn (fs : FileSys) (k : Kernel) : Event → Option (Terminal × List UInt8)
  | .execute fr command =>
      match k.sysExecute fs fr command with
      | some (.enter _ _, _) => (commandProgram command).map fun name => (k.execTerm, name)
      | some (.fault, _) => k.restarted
      | _ => none
  | .halt _ _ | .exception _ _ => k.restarted
  | .pit fr =>
      if k.pitFlag ∧ (k.scheduled fr).cur = none then
        match (k.scheduled fr).sysExecute fs fr (some shellCommand) with
        | some (.enter _ _, _) => some ((k.scheduled fr).processTerminal, shellCommand)
        | _ => none
      else none
  | _ => none

/-- Record the program of a new process: it has become the current one of its terminal. -/
def recordStart (k' : Kernel) (program : Slot → List UInt8) :
    Option (Terminal × List UInt8) → Slot → List UInt8
  | some (t, name) =>
      match k'.curPcbPtr t with
      | some p => Function.update program p name
      | none => program
  | none => program

def recordProgram (fs : FileSys) (k : Kernel) (e : Event) (k' : Kernel)
    (program : Slot → List UInt8) : Slot → List UInt8 :=
  recordStart k' program (k.startedIn fs e)

/-- For every terminal, the flag says whether its current process was executed from `shell`. -/
def FlagsRight (x : Kernel × (Slot → List UInt8)) : Prop :=
  ∀ t, (x.1.console.term t).shellFlag = true ↔
    ∃ p, x.1.curPcbPtr t = some p ∧ x.2 p = shellCommand

/-! ## Starting and resuming a process -/

/-- A process `n` of the program `name` is started on terminal `t`. -/
structure Starts (t : Terminal) (n : Slot) (name : List UInt8) (k k' : Kernel) : Prop where
  cur : k'.curPcbPtr = Function.update k.curPcbPtr t (some n)
  fresh : ∀ u, u ≠ t → k.curPcbPtr u ≠ some n
  shell : ∀ u, (k'.console.term u).shellFlag =
    if u = t then shellName name else (k.console.term u).shellFlag

/-- The process `q` gets terminal `t` back. -/
structure Resumes (t : Terminal) (q : Slot) (k k' : Kernel) : Prop where
  cur : k'.curPcbPtr = Function.update k.curPcbPtr t (some q)
  shell : ∀ u, (k'.console.term u).shellFlag =
    if u = t then true else (k.console.term u).shellFlag

section

variable {k k' : Kernel} {program : Slot → List UInt8} {t : Terminal}

theorem Starts.right_iff {n : Slot} {name : List UInt8} (h : Starts t n name k k')
    (hk : FlagsRight (k, program)) : FlagsRight (k', Function.update program n name) ↔
      (shellName name = true → name = shellCommand) := by
  have hother : ∀ u, u ≠ t → ((k'.console.term u).shellFlag = true ↔ ∃ p,
      k'.curPcbPtr u = some p ∧ Function.update program n name p = shellCommand) := by
    intro u hu
    rw [h.shell u, if_neg hu, h.cur, Function.update_of_ne hu, hk u]
    refine exists_congr fun p => and_congr_right fun hp => ?_
    have hne : p ≠ n := by
      intro heq
      exact h.fresh u hu (heq ▸ hp)
    rw [Function.update_of_ne hne]
  have hown : ((k'.console.term t).shellFlag = true ↔ ∃ p, k'.curPcbPtr t = some p ∧
      Function.update program n name p = shellCommand) ↔
        (shellName name = true ↔ name = shellCommand) := by
    rw [h.shell t, if_pos rfl, h.cur, Function.update_self]
    refine iff_congr Iff.rfl ⟨?_, fun hname => ⟨n, rfl, ?_⟩⟩
    · rintro ⟨p, hp, hname⟩
      cases hp
      rwa [Function.update_self] at hname
    · rwa [Function.update_self]
  have hshell : name = shellCommand → shellName name = true := by
    rintro rfl
    decide
  constructor
  · intro hright
    exact (hown.mp (hright t)).mp
  · intro hname u
    by_cases hu : u = t
    · rw [hu]
      exact hown.mpr ⟨hname, hshell⟩
    · exact hother u hu

theorem Starts.recordStart {n : Slot} {name : List UInt8} (h : Starts t n name k k')
    (program : Slot → List UInt8) :
    recordStart k' program (some (t, name)) = Function.update program n name := by
  have hcur : k'.curPcbPtr t = some n := by
    rw [h.cur, Function.update_self]
  unfold Kernel.recordStart
  dsimp only
  rw [hcur]

theorem Resumes.right_iff {q : Slot} (h : Resumes t q k k') (hk : FlagsRight (k, program)) :
    FlagsRight (k', program) ↔ program q = shellCommand := by
  have hown : ((k'.console.term t).shellFlag = true ↔ ∃ p, k'.curPcbPtr t = some p ∧
      program p = shellCommand) ↔ program q = shellCommand := by
    rw [h.shell t, if_pos rfl, h.cur, Function.update_self]
    constructor
    · intro hk
      obtain ⟨p, hp, hname⟩ := hk.mp rfl
      cases hp
      exact hname
    · intro hname
      exact ⟨fun _ => ⟨q, rfl, hname⟩, fun _ => rfl⟩
  constructor
  · intro hright
    exact hown.mp (hright t)
  · intro hname u
    by_cases hu : u = t
    · rw [hu]
      exact hown.mpr hname
    · show (k'.console.term u).shellFlag = true ↔ _
      rw [h.shell u, if_neg hu, h.cur]
      show _ ↔ ∃ p, Function.update k.curPcbPtr t (some q) u = some p ∧ _
      rw [Function.update_of_ne hu]
      exact hk u

theorem flagsRight_congr (hcur : k'.curPcbPtr = k.curPcbPtr)
    (hflags : KeepsFlags k.console k'.console) (hk : FlagsRight (k, program)) :
    FlagsRight (k', program) := by
  intro u
  show (k'.console.term u).shellFlag = true ↔ ∃ p, k'.curPcbPtr u = some p ∧ _
  rw [hflags.shell u, hcur]
  exact hk u

end

/-! ## When a process is started -/

/-- The call starts a process of the program `name`: the file is an executable that fits the mapped
memory, and a process number is free. -/
def StartsProgram (fs : FileSys) (fr : Frame) (k : Kernel) (command : Option (List UInt8))
    (name : List UInt8) : Prop :=
  ∃ arg d, executeParseArgs command = .ok name arg ∧ arg.length < KEYBOARD_BUFFER_SIZE ∧
    HoldsExecutable fs (fr.progMem name) d ∧
    PROGRAM_IMAGE + fs.fileLength d.inode ≤ k.mappedEnd ∧ k.firstFree ≠ none

/-- The call names an executable that does not fit, and a process number is free: the loader raises
a page fault, which ends the caller. -/
def LoadFaults (fs : FileSys) (fr : Frame) (k : Kernel) (command : Option (List UInt8)) : Prop :=
  ∃ name arg d, executeParseArgs command = .ok name arg ∧ arg.length ≤ KEYBOARD_BUFFER_SIZE ∧
    HoldsExecutable fs (fr.progMem name) d ∧
    k.mappedEnd < PROGRAM_IMAGE + fs.fileLength d.inode ∧ k.firstFree ≠ none

section

variable {fs : FileSys} {fr : Frame} {k k' : Kernel} {command : Option (List UInt8)}

/-- A call that does not return has got as far as `launch`. -/
theorem sysExecute_launches {r : ExecResult} (h : k.sysExecute fs fr command = some (r, k'))
    (hr : ∀ v, r ≠ .ret v) : ∃ name arg d p header, executeParseArgs command = .ok name arg ∧
      arg.length ≤ KEYBOARD_BUFFER_SIZE ∧ HoldsExecutable fs (fr.progMem name) d ∧
      k.firstFree = some p ∧
      (k.prepared fr arg header).launch fs fr k.execTerm name arg p = some (r, k') := by
  unfold sysExecute at h
  dsimp only at h
  cases hparse : executeParseArgs command with
  | bad =>
      rw [hparse] at h
      cases h
      exact absurd rfl (hr _)
  | ok name arg =>
      rw [hparse] at h
      dsimp only at h
      split at h
      · cases h
      · rename_i hlen
        rw [executeParsed_eq] at h
        dsimp only at h
        split at h
        · rename_i hcheck
          obtain ⟨d, hd⟩ := (executeExecutableCheck_iff ..).mp hcheck
          cases hfree : k.firstFree with
          | none =>
              rw [hfree] at h
              cases h
              exact absurd rfl (hr _)
          | some p =>
              rw [hfree] at h
              exact ⟨name, arg, d, p, _, rfl, Nat.le_of_not_lt hlen, hd, rfl, h⟩
        · cases h
          exact absurd rfl (hr _)

theorem startsProgram_of_enter {eip : Nat} {image : List UInt8}
    (h : k.sysExecute fs fr command = some (.enter eip image, k')) :
    ∃ name, commandProgram command = some name ∧ StartsProgram fs fr k command name := by
  obtain ⟨name, arg, d, p, header, hparse, hlen, hd, hfree, hlaunch⟩ :=
    sysExecute_launches h fun _ => by simp
  obtain ⟨hfault, _, hnone⟩ := launch_cases k arg header p hd
  have hfit : PROGRAM_IMAGE + fs.fileLength d.inode ≤ k.mappedEnd := by
    by_contra hbig
    obtain ⟨k₁, hk₁⟩ := hfault (Nat.lt_of_not_le hbig)
    rw [hk₁] at hlaunch
    cases hlaunch
  have harg : arg.length < KEYBOARD_BUFFER_SIZE := by
    by_contra hlong
    rw [hnone hfit hlong] at hlaunch
    cases hlaunch
  refine ⟨name, ?_, arg, d, hparse, harg, hd, hfit, by rw [hfree]; simp⟩
  unfold commandProgram
  rw [hparse]

theorem loadFaults_of_fault (h : k.sysExecute fs fr command = some (.fault, k')) :
    LoadFaults fs fr k command := by
  obtain ⟨name, arg, d, p, header, hparse, hlen, hd, hfree, hlaunch⟩ :=
    sysExecute_launches h fun _ => by simp
  obtain ⟨_, henter, hnone⟩ := launch_cases k arg header p hd
  refine ⟨name, arg, d, hparse, hlen, hd, ?_, by rw [hfree]; simp⟩
  by_contra hbig
  have hfit := Nat.le_of_not_lt hbig
  by_cases harg : arg.length < KEYBOARD_BUFFER_SIZE
  · obtain ⟨eip, image, k₁, hk₁⟩ := henter hfit harg
    rw [hk₁] at hlaunch
    cases hlaunch
  · rw [hnone hfit harg] at hlaunch
    cases hlaunch

theorem StartsProgram.enter {name : List UInt8} (h : StartsProgram fs fr k command name) :
    commandProgram command = some name ∧
      ∃ eip image k', k.sysExecute fs fr command = some (.enter eip image, k') := by
  obtain ⟨arg, d, hparse, harg, hd, hfit, hfree⟩ := h
  obtain ⟨p, hp⟩ := Option.ne_none_iff_exists'.mp hfree
  refine ⟨?_, sysExecute_enters hparse harg hd hfit hp⟩
  unfold commandProgram
  rw [hparse]

theorem LoadFaults.fault (h : LoadFaults fs fr k command) :
    ∃ k', k.sysExecute fs fr command = some (.fault, k') := by
  obtain ⟨name, arg, d, hparse, hlen, hd, hbig, hfree⟩ := h
  obtain ⟨p, hp⟩ := Option.ne_none_iff_exists'.mp hfree
  exact sysExecute_faults hparse hlen hd hbig hp

end

/-! ## The events that start or end a process -/

/-- A new process is current on no terminal. -/
theorem Entered.not_current {k k' : Kernel} {fr : Frame} {n : Slot} (h : Entered k fr k' n)
    (hS : ∃ S, Tree k S) (u : Terminal) : k.curPcbPtr u ≠ some n := by
  obtain ⟨S, hS⟩ := hS
  intro hn
  exact firstFree_eq_some h.first (hS.active u n (hS.top_mem hn))

theorem sysExecute_starts {fs : FileSys} {fr : Frame} {k k' : Kernel}
    {command : Option (List UInt8)} {eip : Nat} {image : List UInt8} (hS : ∃ S, Tree k S)
    (h : k.sysExecute fs fr command = some (.enter eip image, k')) :
    ∃ n name, commandProgram command = some name ∧ Starts k.execTerm n name k k' := by
  obtain ⟨n, hn⟩ := sysExecute_spec h
  obtain ⟨_, name, arg, hparse, hshell⟩ := sysExecute_flags h
  refine ⟨n, name, ?_, hn.cur, fun u _ => hn.not_current hS u, hshell⟩
  unfold commandProgram
  rw [hparse]

/-- `sys_halt` resumes the parent, or starts a shell. -/
theorem sysHalt_shell {fs : FileSys} {fr : Frame} {status : UInt8} {k k' : Kernel}
    {r : HaltResult} (hS : ∃ S, Tree k S) (h : k.sysHalt fs fr status = some (r, k')) :
    ∃ p, k.cur = some p ∧
      ((∃ q, (k.pcb p).parentPcb = some q ∧ Resumes k.processTerminal q k k') ∨
        ((k.pcb p).parentPcb = none ∧ ∃ n, Starts k.processTerminal n shellCommand k k')) := by
  obtain ⟨p, hp, hcases⟩ := sysHalt_spec h
  obtain ⟨_, hshell⟩ := sysHalt_flags h
  have hpop : (k.popped p).curPcbPtr =
      Function.update k.curPcbPtr k.processTerminal (k.pcb p).parentPcb := rfl
  refine ⟨p, hp, ?_⟩
  rcases hcases with ⟨q, hq, hres⟩ | ⟨hnone, n, hn⟩
  · refine Or.inl ⟨q, hq, ?_, hshell⟩
    rw [hres.cur, hpop, hq]
  · have hterm : (k.popped p).execTerm = k.processTerminal := by
      have hcur : (k.popped p).cur = none := (popped_cur k p).trans hnone
      exact if_pos hcur
    obtain ⟨S, hS⟩ := hS
    have hpopped : ∃ S', Tree (k.popped p) S' := ⟨_, (pop_popped hp).tree hS⟩
    refine Or.inr ⟨hnone, n, ?_, fun u hu => ?_, ?_⟩
    · rw [hn.cur, hterm, hpop, Function.update_idem]
    · have hnot := hn.not_current hpopped u
      rwa [hpop, Function.update_of_ne hu] at hnot
    · have hname : shellName shellCommand = true := by decide
      rw [hname]
      exact hshell

/-- The parent of the running process, if there is one, was executed from `shell`. -/
def ParentIsShell (x : Kernel × (Slot → List UInt8)) : Prop :=
  ∀ p q, x.1.cur = some p → (x.1.pcb p).parentPcb = some q → x.2 q = shellCommand

instance decidableParentIsShell (x : Kernel × (Slot → List UInt8)) : Decidable (ParentIsShell x) :=
  inferInstanceAs (Decidable (∀ _, _))

section

variable {fs : FileSys} {k k₁ k' : Kernel} {program : Slot → List UInt8}

theorem restarted_congr (hcur : k₁.cur = k.cur) (hterm : k₁.processTerminal = k.processTerminal)
    (hparent : ∀ p, (k₁.pcb p).parentPcb = (k.pcb p).parentPcb) : k₁.restarted = k.restarted := by
  unfold restarted
  rw [hcur, hterm]
  simp only [hparent]

theorem parentIsShell_congr (hcur : k₁.cur = k.cur)
    (hparent : ∀ p, (k₁.pcb p).parentPcb = (k.pcb p).parentPcb) :
    ParentIsShell (k₁, program) ↔ ParentIsShell (k, program) := by
  unfold ParentIsShell
  dsimp only
  rw [hcur]
  simp only [hparent]

/-- The end of a process. -/
theorem halt_flagsRight_iff {fr : Frame} {status : UInt8} {r : HaltResult}
    (hS : ∃ S, Tree k S) (hk : FlagsRight (k, program))
    (h : k.sysHalt fs fr status = some (r, k')) :
    FlagsRight (k', recordStart k' program k.restarted) ↔ ParentIsShell (k, program) := by
  obtain ⟨p, hp, hcases⟩ := sysHalt_shell hS h
  have hbind : k.cur.bind (fun p => (k.pcb p).parentPcb) = (k.pcb p).parentPcb := by
    rw [hp, Option.bind_some]
  unfold restarted
  rw [hbind]
  rcases hcases with ⟨q, hq, hres⟩ | ⟨hnone, n, hn⟩
  · rw [if_neg (by rw [hq]; simp)]
    rw [show recordStart k' program none = program from rfl, hres.right_iff hk]
    constructor
    · intro hname p' q' hp' hq'
      rw [hp] at hp'
      cases hp'
      rw [hq] at hq'
      cases hq'
      exact hname
    · exact fun hparent => hparent p q hp hq
  · rw [if_pos hnone, hn.recordStart, hn.right_iff hk]
    refine ⟨fun _ p' q' hp' hq' => ?_, fun _ _ => rfl⟩
    rw [hp] at hp'
    cases hp'
    rw [hnone] at hq'
    cases hq'

theorem exception_flagsRight_iff {fr : Frame} {index : Fin 20} {r : HaltResult}
    (hS : ∃ S, Tree k S) (hk : FlagsRight (k, program))
    (h : k.exceptionHandler fs fr index = some (r, k')) :
    FlagsRight (k', recordStart k' program k.restarted) ↔ ParentIsShell (k, program) := by
  rw [exceptionHandler_eq] at h
  have hcur := k.raised_cur index
  have hparent : ∀ p, ((k.raised index).pcb p).parentPcb = (k.pcb p).parentPcb := by
    intro p
    rw [raised_pcb]
  have htree : ∃ S, Tree (k.raised index) S := by
    obtain ⟨S, hS⟩ := hS
    have hstill : Does .still k (k.raised index) := still_raised k index
    exact ⟨S, hstill.tree hS⟩
  have hptr : (k.raised index).curPcbPtr = k.curPcbPtr := by
    simp only [raised]
  have hraised : FlagsRight (k.raised index, program) :=
    flagsRight_congr hptr (raised_keepsFlags k index) hk
  have hiff := halt_flagsRight_iff htree hraised h
  rwa [restarted_congr hcur (k.raised_process index) hparent, parentIsShell_congr hcur hparent]
    at hiff

end

/-! ## Runs -/

/-- The event keeps the flags right: a program that is started is named exactly `shell` or does not
start with these five characters, and the processor goes back to shells only. -/
def KeepsShells (fs : FileSys) (x : Kernel × (Slot → List UInt8)) : Event → Prop
  | .execute fr command =>
      (∀ name, StartsProgram fs fr x.1 command name → shellName name = true →
        name = shellCommand) ∧
      (LoadFaults fs fr x.1 command → ParentIsShell x)
  | .halt _ _ | .exception _ _ => ParentIsShell x
  | _ => True

theorem execute_flagsRight_iff {fs : FileSys} {fr : Frame} {command : Option (List UInt8)}
    {k k' : Kernel} {program : Slot → List UInt8} (hS : ∃ S, Tree k S)
    (hk : FlagsRight (k, program)) (h : step fs k (.execute fr command) = some k') :
    FlagsRight (k', recordProgram fs k (.execute fr command) k' program) ↔
      KeepsShells fs (k, program) (.execute fr command) := by
  obtain ⟨⟨r, k₁⟩, hr, rfl⟩ := Option.map_eq_some_iff.mp h
  dsimp only
  unfold recordProgram startedIn KeepsShells
  dsimp only
  rcases executeCall_spec hr with ⟨hexec, hne⟩ | ⟨_, k₂, x, hexec, hexc⟩
  · rw [hexec]
    have hnofault : ¬ LoadFaults fs fr k command := by
      intro hfault
      obtain ⟨k₃, hk₃⟩ := hfault.fault
      rw [hexec] at hk₃
      cases hk₃
      exact hne rfl
    cases r with
    | ret v =>
        have hnostart : ∀ name, ¬ StartsProgram fs fr k command name := by
          intro name hstart
          obtain ⟨_, eip, image, k₃, hk₃⟩ := hstart.enter
          rw [hexec] at hk₃
          cases hk₃
        have hkept : FlagsRight (k₁, program) := by
          intro t
          have hcur := (sysExecute_spec hexec).2.cur
          show (k₁.console.term t).shellFlag = true ↔ ∃ p, k₁.curPcbPtr t = some p ∧ _
          rw [(sysExecute_flags hexec).1 t, hcur]
          exact hk t
        refine ⟨fun _ => ⟨fun name hstart => absurd hstart (hnostart name),
          fun hfault => absurd hfault hnofault⟩, fun _ => hkept⟩
    | enter eip image =>
        obtain ⟨n, name, hname, hstarts⟩ := sysExecute_starts hS hexec
        obtain ⟨name', hname', hstart⟩ := startsProgram_of_enter hexec
        have heq : name' = name := Option.some.inj (hname'.symm.trans hname)
        subst heq
        dsimp only
        rw [hname, Option.map_some, hstarts.recordStart, hstarts.right_iff hk]
        constructor
        · intro hshell
          refine ⟨fun name'' hstart' => ?_, fun hfault => absurd hfault hnofault⟩
          have heq : name'' = name' := Option.some.inj (hstart'.enter.1.symm.trans hname)
          rw [heq]
          exact hshell
        · intro hok
          exact hok.1 _ hstart
    | fault => exact absurd rfl hne
  · obtain ⟨n, hn⟩ := sysExecute_spec hexec
    have hparent : ∀ p, (k₂.pcb p).parentPcb = (k.pcb p).parentPcb := by
      intro p
      rw [hn.pcb]
      exact ((still_saveFrame k k.execTerm fr).quiet.links p).1
    have hcur : k₂.cur = k.cur := by
      unfold cur
      rw [hn.process, hn.cur]
    have htree : ∃ S, Tree k₂ S := hn.trace.tree hS
    have hk₂ : FlagsRight (k₂, program) := flagsRight_congr hn.cur (sysExecute_flags hexec) hk
    have hiff := exception_flagsRight_iff htree hk₂ hexc
    rw [restarted_congr hcur hn.process hparent, parentIsShell_congr hcur hparent] at hiff
    rw [hexec]
    dsimp only
    rw [hiff]
    have hfault := loadFaults_of_fault hexec
    have hnostart : ∀ name, ¬ StartsProgram fs fr k command name := by
      intro name hstart
      obtain ⟨_, eip, image, k₃, hk₃⟩ := hstart.enter
      rw [hexec] at hk₃
      cases hk₃
    exact ⟨fun hp => ⟨fun name hstart => absurd hstart (hnostart name), fun _ => hp⟩,
      fun hok => hok.2 hfault⟩

/-- The scheduler keeps the flags right: the program that it executes is `shell`. -/
theorem scheduling_flagsRight {fs : FileSys} {fr : Frame} {k k' : Kernel}
    {program : Slot → List UInt8} (hS : ∃ S, Tree k S) (hk : FlagsRight (k, program))
    (h : k.scheduling fs fr = some k') :
    FlagsRight (k', recordProgram fs k (.pit fr) k' program) := by
  have hstill : Does .still k (k.scheduled fr) := still_scheduled k fr
  have hptr : (k.scheduled fr).curPcbPtr = k.curPcbPtr := hstill.cur
  have hnext : FlagsRight (k.scheduled fr, program) :=
    flagsRight_congr hptr (k.scheduled_keepsFlags fr) hk
  have htree : ∃ S, Tree (k.scheduled fr) S := by
    obtain ⟨S, hS⟩ := hS
    exact ⟨S, hstill.tree hS⟩
  unfold recordProgram startedIn
  dsimp only
  rcases scheduling_cases h with ⟨hpit, rfl⟩ | ⟨hpit, p, hcur, rfl⟩ | ⟨hpit, hcur, r, hexec, hne⟩
  · rw [if_neg (by rw [hpit]; simp)]
    exact hk
  · rw [if_neg (by rw [hcur]; simp)]
    have hsw := switchTo_switched (k.scheduled fr) p
    refine flagsRight_congr hsw.cur ?_ hnext
    rw [hsw.console]
    exact .refl _
  · rw [if_pos ⟨hpit, hcur⟩, hexec]
    cases r with
    | ret v =>
        intro t
        have hcur' := (sysExecute_spec hexec).2.cur
        show (k'.console.term t).shellFlag = true ↔ ∃ p, k'.curPcbPtr t = some p ∧ _
        rw [(sysExecute_flags hexec).1 t, hcur']
        exact hnext t
    | enter eip image =>
        obtain ⟨n, name, hname, hstarts⟩ := sysExecute_starts htree hexec
        have hterm : (k.scheduled fr).execTerm = (k.scheduled fr).processTerminal := if_pos hcur
        have hshell : name = shellCommand := by
          unfold commandProgram at hname
          rw [executeParseArgs_shell] at hname
          exact (Option.some.inj hname).symm
        dsimp only
        rw [← hterm, ← hshell, hstarts.recordStart]
        exact (hstarts.right_iff hnext).mpr fun _ => hshell
    | fault => exact absurd rfl hne

theorem step_flagsRight_iff {fs : FileSys} {x x' : Kernel × (Slot → List UInt8)} {e : Event}
    (hS : ∃ S, Tree x.1 S) (hk : FlagsRight x)
    (h : withHistory (step fs) (recordProgram fs) x e = some x') :
    FlagsRight x' ↔ KeepsShells fs x e := by
  obtain ⟨k', hstep, rfl⟩ := StepSystem.withHistory_eq_some.mp h
  obtain ⟨k, program⟩ := x
  have hplain : Event.isPlain e = true → k'.curPcbPtr = k.curPcbPtr →
      FlagsRight (k', program) := by
    intro hp hcur
    exact flagsRight_congr hcur (step_keepsFlags hp hstep) hk
  have hcalls : e.KeepsProcesses → k'.curPcbPtr = k.curPcbPtr :=
    fun he => (step_callEffect he hstep).cur
  cases e with
  | execute fr command => exact execute_flagsRight_iff hS hk hstep
  | halt fr status =>
      obtain ⟨⟨r, k₁⟩, hr, rfl⟩ := Option.map_eq_some_iff.mp hstep
      exact halt_flagsRight_iff hS hk hr
  | exception fr index =>
      obtain ⟨⟨r, k₁⟩, hr, rfl⟩ := Option.map_eq_some_iff.mp hstep
      exact exception_flagsRight_iff hS hk hr
  | pit fr => exact ⟨fun _ => trivial, fun _ => scheduling_flagsRight hS hk hstep⟩
  | rtc =>
      refine ⟨fun _ => trivial, fun _ => hplain rfl ?_⟩
      cases hstep
      unfold rtcInterrupt
      rw [(still_rtcTick _ _).cur, (still_rtcTick _ _).cur, (still_rtcTick _ _).cur]
  | keyboard _ => exact ⟨fun _ => trivial, fun _ => hplain rfl (hcalls trivial)⟩
  | switch _ => exact ⟨fun _ => trivial, fun _ => hplain rfl (hcalls trivial)⟩
  | read _ _ _ _ => exact ⟨fun _ => trivial, fun _ => hplain rfl (hcalls trivial)⟩
  | write _ _ _ => exact ⟨fun _ => trivial, fun _ => hplain rfl (hcalls trivial)⟩
  | draw _ _ => exact ⟨fun _ => trivial, fun _ => hplain rfl (hcalls trivial)⟩
  | «open» _ => exact ⟨fun _ => trivial, fun _ => hplain rfl (hcalls trivial)⟩
  | close _ => exact ⟨fun _ => trivial, fun _ => hplain rfl (hcalls trivial)⟩
  | resumeTerminal _ => exact ⟨fun _ => trivial, fun _ => hplain rfl (hcalls trivial)⟩
  | resumeRtc => exact ⟨fun _ => trivial, fun _ => hplain rfl (hcalls trivial)⟩
  | getargs => exact ⟨fun _ => trivial, fun _ => hplain rfl (hcalls trivial)⟩
  | vidmap _ => exact ⟨fun _ => trivial, fun _ => hplain rfl (hcalls trivial)⟩

/-- **The shell flags are right exactly while shells are told by their whole name.** -/
theorem flagsRight_iff (fs : FileSys) (m : BootMemory) {es : List Event}
    {x : Kernel × (Slot → List UInt8)}
    (hrun : StepSystem.run (withHistory (step fs) (recordProgram fs)) (boot m, fun _ => []) es
      = some x) :
    Along (withHistory (step fs) (recordProgram fs)) FlagsRight (boot m, fun _ => []) es ↔
      Guarded (withHistory (step fs) (recordProgram fs)) (KeepsShells fs)
        (boot m, fun _ => []) es := by
  have hboot : FlagsRight (boot m, fun _ => []) := by
    intro t
    refine ⟨fun h => absurd h Bool.false_ne_true, ?_⟩
    rintro ⟨p, hp, _⟩
    cases hp
  refine StepSystem.along_iff_guarded (P := fun x => ∃ S, Tree x.1 S) ?_ ?_ hrun
    ⟨_, boot_tree m⟩ hboot
  · intro x e x' hS h
    obtain ⟨k', hstep, rfl⟩ := StepSystem.withHistory_eq_some.mp h
    obtain ⟨as, htrace, _⟩ := step_trace hstep
    exact htrace.tree hS
  · exact fun x e x' hS hk h => step_flagsRight_iff hS hk h

/-- On the small image a shell executes a shell, which halts. -/
def shellsRun : List Event :=
  [.pit zeroFrame, .switch 1, .execute zeroFrame (some shellCommand), .halt zeroFrame 0]

/-- The flags of the shells of the small image are right, also when one of them returns to the
other. -/
theorem flagsRight_iff_shells : ∃ x, StepSystem.run
    (withHistory (step sampleImage) (recordProgram sampleImage)) (boot zeroMemory, fun _ => [])
      shellsRun = some x ∧
    Along (withHistory (step sampleImage) (recordProgram sampleImage)) FlagsRight
      (boot zeroMemory, fun _ => []) shellsRun := by
  have hexecute : (StepSystem.run (withHistory (step sampleImage) (recordProgram sampleImage))
      (boot zeroMemory, fun _ => []) (shellsRun.take 2)).map (fun x => decide (ParentIsShell x))
        = some true := by
    decide +kernel
  have hhalt : (StepSystem.run (withHistory (step sampleImage) (recordProgram sampleImage))
      (boot zeroMemory, fun _ => []) (shellsRun.take 3)).map (fun x => decide (ParentIsShell x))
        = some true := by
    decide +kernel
  have hdefined : (StepSystem.run (withHistory (step sampleImage) (recordProgram sampleImage))
      (boot zeroMemory, fun _ => []) shellsRun).isSome = true := by
    decide +kernel
  obtain ⟨x, hx⟩ := Option.isSome_iff_exists.mp hdefined
  refine ⟨x, hx, (flagsRight_iff sampleImage zeroMemory hx).mpr ?_⟩
  refine ⟨trivial, fun x₁ h₁ => ⟨trivial, fun x₂ h₂ => ?_⟩⟩
  have hrun : StepSystem.run (withHistory (step sampleImage) (recordProgram sampleImage))
      (boot zeroMemory, fun _ => []) (shellsRun.take 2) = some x₂ :=
    StepSystem.run_cons_eq_some.mpr ⟨x₁, h₁, StepSystem.run_cons_eq_some.mpr ⟨x₂, h₂, rfl⟩⟩
  rw [hrun] at hexecute
  refine ⟨⟨fun name hstarts _ => ?_, fun _ => of_decide_eq_true (Option.some.inj hexecute)⟩,
    fun x₃ h₃ => ⟨?_, fun _ _ => trivial⟩⟩
  · obtain ⟨arg, _, hparse, _⟩ := hstarts
    have hshell : executeParseArgs (some shellCommand) = .ok shellCommand [] := by decide +kernel
    rw [hshell] at hparse
    cases hparse
    rfl
  · have hrun' : StepSystem.run (withHistory (step sampleImage) (recordProgram sampleImage))
        (boot zeroMemory, fun _ => []) (shellsRun.take 3) = some x₃ :=
      StepSystem.run_cons_eq_some.mpr ⟨x₁, h₁, StepSystem.run_cons_eq_some.mpr
        ⟨x₂, h₂, StepSystem.run_cons_eq_some.mpr ⟨x₃, h₃, rfl⟩⟩⟩
    rw [hrun'] at hhalt
    have hparent : ParentIsShell x₃ := of_decide_eq_true (Option.some.inj hhalt)
    exact hparent

/-- The small image with the program of `shell` under the name `big` as well. -/
def twoProgramsImage : FileSys :=
  { sampleImage with mem := Function.update sampleImage.mem 228 0 }

/-- An execute is a call of the process on the terminal that is shown. -/
def ExecutesShown (k : Kernel) : Event → Prop
  | .execute _ _ => k.processTerminal = k.visibleTerminal
  | _ => True

instance decidableExecutesShown (k : Kernel) (e : Event) : Decidable (ExecutesShown k e) :=
  match e, e.view with
  | _, .execute _ _ => inferInstanceAs (Decidable (_ = _))
  | _, .keyboard _ | _, .switch _ | _, .read .. | _, .resumeTerminal _ => isTrue trivial
  | e, .other _ => isTrue (by cases e <;> trivial)

/-- On the image, `big` executes a shell, which halts. -/
def bigRun : List Event :=
  [.pit zeroFrame, .switch 1, .execute zeroFrame (some (ascii "big")),
    .execute zeroFrame (some shellCommand), .halt zeroFrame 0]

/-- The flag takes `big` for a shell. -/
theorem parent_taken_for_shell : ¬ ∀ (fs : FileSys) (m : BootMemory) (es : List Event)
    (x : Kernel × (Slot → List UInt8)), Guarded (step fs) ExecutesShown (boot m) es →
    StepSystem.run (withHistory (step fs) (recordProgram fs)) (boot m, fun _ => []) es = some x →
      FlagsRight x := by
  intro hall
  have hshown : Guarded (step twoProgramsImage) ExecutesShown (boot zeroMemory) bigRun := by
    decide +kernel
  have hview : (StepSystem.run
      (withHistory (step twoProgramsImage) (recordProgram twoProgramsImage))
      (boot zeroMemory, fun _ => []) bigRun).map (fun x =>
        decide ((x.1.console.term 1).shellFlag = true ∧ x.1.curPcbPtr 1 = some 1 ∧
          x.2 1 = ascii "big")) = some true := by
    decide +kernel
  obtain ⟨x, hx, hflag, hcur, hname⟩ := StepSystem.exists_of_map_decide hview
  obtain ⟨p, hp, hshell⟩ := (hall _ _ _ x hshown hx 1).mp hflag
  rw [hcur] at hp
  cases hp
  rw [hname] at hshell
  exact absurd hshell (by decide)

end Kernel

end Ext2Kernel
