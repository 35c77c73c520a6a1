import Ext2Kernel.Process.EventFlags
import Ext2Kernel.Process.CursorRuns

set_option autoImplicit false

/-! # The message about too many processes

A shell whose execute has returned -1 prints `no such command`, and `_sys_write_terminal` puts
another message in its place while `too_many_shells_flag` is set. The flag says that some execute
has been refused since a process has last ended (`FlagIs`), and not which execute the shell is
complaining about.
-/

namespace Ext2Kernel

open ByteMem

namespace Kernel

open StepSystem (Guarded withHistory)
open Console (NO_SUCH_CMD_LEN tooManyMessage)

/-! ## The failed executes of a run -/

/-- What a run has seen of failed executes: of each process whose last execute has returned -1,
whether that was refused, and whether a call has been refused since a process has last ended. -/
structure Failures where
  cause : Slot → Option Bool
  refusedSince : Bool

def noFailures : Failures := ⟨fun _ => none, false⟩

/-- Does the event end a process? A page fault in the loader ends the caller. -/
def endsProcess (fs : FileSys) (k : Kernel) : Event → Bool
  | .halt _ _ | .exception _ _ => true
  | .execute fr command => (k.sysExecute fs fr command).any fun x => x.1.isFault
  | _ => false

/-- Is a call of `sys_execute` refused in the event? The scheduler executes a shell on an empty
terminal. -/
def refusedIn (fs : FileSys) (k : Kernel) : Event → Bool
  | .execute fr command => k.refused fs fr command
  | .pit fr => k.pitFlag && (k.scheduled fr).cur.isNone
      && (k.scheduled fr).refused fs fr (some shellCommand)
  | _ => false

/-- The failed execute of the running process after an event. -/
def causeAfter (fs : FileSys) (k : Kernel) (old : Option Bool) : Event → Option Bool
  | .halt _ _ | .exception _ _ => none
  | .execute fr command =>
      match k.sysExecute fs fr command with
      | some (.ret _, _) => some (k.refused fs fr command)
      | _ => none
  | _ => old

/-- Record an event. A process number that is not in use has no failed execute. -/
def recordFailures (fs : FileSys) (k : Kernel) (e : Event) (_ : Kernel) (g : Failures) :
    Failures where
  cause p :=
    if k.activeProcesses p ≠ 1 then none
    else if k.cur = some p then k.causeAfter fs (g.cause p) e
    else g.cause p
  refusedSince := if k.endsProcess fs e then false else g.refusedSince || k.refusedIn fs e

/-! ## The flag -/

/-- The flag says that a call has been refused since a process has last ended. -/
def FlagIs (x : Kernel × Failures) : Prop :=
  x.1.console.tooManyShellsFlag = x.2.refusedSince

theorem endsProcess_execute {fs : FileSys} {k k' : Kernel} {fr : Frame}
    {command : Option (List UInt8)} {r : ExecResult}
    (h : k.sysExecute fs fr command = some (r, k')) :
    k.endsProcess fs (.execute fr command) = r.isFault := by
  unfold endsProcess
  dsimp only
  rw [h]
  rfl

theorem execute_flag {fs : FileSys} {k k' : Kernel} {fr : Frame} {command : Option (List UInt8)}
    (h : step fs k (.execute fr command) = some k') :
    k'.console.tooManyShellsFlag = if k.endsProcess fs (.execute fr command) then false
      else (k.console.tooManyShellsFlag || k.refused fs fr command) := by
  obtain ⟨⟨r, k₁⟩, hr, rfl⟩ := Option.map_eq_some_iff.mp h
  rcases executeCall_spec hr with ⟨hexec, hne⟩ | ⟨_, k₂, x, hexec, hexc⟩
  · have hflags := sysExecute_flags hexec
    rw [endsProcess_execute hexec]
    cases r with
    | ret v => exact hflags.2
    | enter eip image =>
        obtain ⟨p, hp⟩ := sysExecute_spec hexec
        rw [refused_of_free hp.first, Bool.or_false]
        exact hflags.1
    | fault => exact absurd rfl hne
  · rw [endsProcess_execute hexec]
    exact (exceptionHandler_flags hexc).1

theorem scheduling_flag {fs : FileSys} {k k' : Kernel} {fr : Frame}
    (h : k.scheduling fs fr = some k') : k'.console.tooManyShellsFlag =
      (k.console.tooManyShellsFlag || k.refusedIn fs (.pit fr)) := by
  have hnext := (k.scheduled_keepsFlags fr).shells
  have hrefused : k.refusedIn fs (.pit fr) = (k.pitFlag && (k.scheduled fr).cur.isNone
    && (k.scheduled fr).refused fs fr (some shellCommand)) := rfl
  rw [hrefused]
  rcases scheduling_cases h with ⟨hpit, rfl⟩ | ⟨hpit, p, hcur, rfl⟩ | ⟨hpit, hcur, r, hexec, hne⟩
  · rw [hpit, Bool.false_and, Bool.false_and, Bool.or_false]
  · rw [(switchTo_switched (k.scheduled fr) p).console, hnext, hcur, Option.isNone_some,
      Bool.and_false, Bool.false_and, Bool.or_false]
  · rw [hpit, hcur, Option.isNone_none, Bool.true_and, Bool.true_and, ← hnext]
    cases r with
    | ret v => exact (sysExecute_flags hexec).2
    | enter eip image =>
        obtain ⟨p, hp⟩ := sysExecute_spec hexec
        rw [refused_of_free hp.first, Bool.or_false]
        exact (sysExecute_flags hexec).1
    | fault => exact absurd rfl hne

/-- **Every event keeps the flag in step with the record.** -/
theorem step_flagIs {fs : FileSys} {x x' : Kernel × Failures} {e : Event} (hx : FlagIs x)
    (h : withHistory (step fs) (recordFailures fs) x e = some x') : FlagIs x' := by
  obtain ⟨k', hstep, rfl⟩ := StepSystem.withHistory_eq_some.mp h
  obtain ⟨k, g⟩ := x
  have hflag : k.console.tooManyShellsFlag = g.refusedSince := hx
  show k'.console.tooManyShellsFlag =
    if k.endsProcess fs e then false else g.refusedSince || k.refusedIn fs e
  rw [← hflag]
  have hplain : Event.isPlain e = true → k'.console.tooManyShellsFlag =
      (k.console.tooManyShellsFlag || false) := by
    intro hp
    rw [Bool.or_false]
    exact (step_keepsFlags hp hstep).shells
  cases e with
  | execute fr command => exact execute_flag hstep
  | halt fr status =>
      obtain ⟨⟨r, k₁⟩, hr, rfl⟩ := Option.map_eq_some_iff.mp hstep
      exact (sysHalt_flags hr).1
  | exception fr index =>
      obtain ⟨⟨r, k₁⟩, hr, rfl⟩ := Option.map_eq_some_iff.mp hstep
      exact (exceptionHandler_flags hr).1
  | pit fr => exact scheduling_flag hstep
  | keyboard _ => exact hplain rfl
  | switch _ => exact hplain rfl
  | read _ _ _ _ => exact hplain rfl
  | write _ _ _ => exact hplain rfl
  | draw _ _ => exact hplain rfl
  | rtc => exact hplain rfl
  | «open» _ => exact hplain rfl
  | close _ => exact hplain rfl
  | resumeTerminal _ => exact hplain rfl
  | resumeRtc => exact hplain rfl
  | getargs => exact hplain rfl
  | vidmap _ => exact hplain rfl

/-! ## The message -/

/-- The text is that of the shell: it starts with `no such command`. -/
def IsNoSuchCommand (buf : Mem) (nbytes : Int) : Prop :=
  NO_SUCH_CMD_LEN ≤ nbytes ∧
    strncmp (ofList (ascii "no such command\n")) buf NO_SUCH_CMD_LEN 0 = 0

/-- A process whose last execute has failed prints `no such command`; `c` says whether the execute
was refused. -/
def Complains (x : Kernel × Failures) (e : Event) (buf : Mem) (nbytes : Int) (c : Bool) : Prop :=
  ∃ fd p, e = .write fd (some buf) nbytes ∧ x.1.WritesTerminal fd nbytes ∧ x.1.cur = some p ∧
    x.2.cause p = some c ∧ IsNoSuchCommand buf nbytes

/-- The message about too many processes is shown exactly if that execute was refused. -/
def Truthful (x : Kernel × Failures) (e : Event) : Prop :=
  ∀ buf nbytes c, Complains x e buf nbytes c →
    (x.1.console.shownText buf nbytes = tooManyMessage ↔ c = true)

/-- Some execute has been refused since a process has last ended exactly if that execute was. -/
def CauseStands (x : Kernel × Failures) (e : Event) : Prop :=
  ∀ buf nbytes c, Complains x e buf nbytes c → (x.2.refusedSince = true ↔ c = true)

/-- The flag decides which message is shown. -/
theorem shownText_eq_tooMany_iff (c : Console) {buf : Mem} {nbytes : Int}
    (h : IsNoSuchCommand buf nbytes) :
    c.shownText buf nbytes = tooManyMessage ↔ c.tooManyShellsFlag = true := by
  obtain ⟨hlen, hcmp⟩ := h
  have hpos : ¬ nbytes ≤ 0 := by
    unfold NO_SUCH_CMD_LEN at hlen
    omega
  unfold Console.shownText
  rw [if_neg hpos]
  constructor
  · intro htext
    by_contra hflag
    rw [if_neg fun hk => hflag hk.1] at htext
    have hfirst : (110 : UInt8) = buf 0 :=
      agree_of_strncmp _ 0 hcmp 0 (Nat.le_refl 0) (by decide) fun m _ hm => absurd hm (by omega)
    obtain ⟨n, hn⟩ : ∃ n, nbytes.toNat = n + 1 := ⟨nbytes.toNat - 1, by omega⟩
    rw [hn, List.range_succ_eq_map, List.map_cons, ← hfirst,
      List.filter_cons_of_pos (by decide)] at htext
    have hhead : some (110 : UInt8) = tooManyMessage.head? := congrArg List.head? htext
    exact absurd hhead (by decide)
  · intro hflag
    rw [if_pos ⟨hflag, hcmp⟩]

/-- **The message is truthful exactly while the cause stands.** -/
theorem truthful_iff (fs : FileSys) (m : BootMemory) (es : List Event) :
    Guarded (withHistory (step fs) (recordFailures fs)) Truthful (boot m, noFailures) es ↔
      Guarded (withHistory (step fs) (recordFailures fs)) CauseStands (boot m, noFailures) es := by
  refine StepSystem.guarded_congr (P := FlagIs) (fun _ _ _ hx h => step_flagIs hx h) ?_ rfl
  intro x e hx
  refine forall_congr' fun buf => forall_congr' fun nbytes => forall_congr' fun c =>
    forall_congr' fun hcomplains => ?_
  obtain ⟨_, _, _, _, _, _, htext⟩ := hcomplains
  rw [shownText_eq_tooMany_iff _ htext, show x.1.console.tooManyShellsFlag = _ from hx]

/-- On the small image six shells run, a seventh is refused, and then `nofile` is not found. -/
def refusedRun : List Event :=
  [.pit zeroFrame, .switch 1] ++ List.replicate 6 (.execute zeroFrame (some shellCommand))
    ++ [.execute zeroFrame (some (ascii "nofile"))]

/-- The shell that has not found `nofile` is told that there are too many processes. -/
theorem wrong_message : ¬ ∀ (fs : FileSys) (m : BootMemory) (es : List Event),
    Guarded (withHistory (step fs) (recordFailures fs)) Truthful (boot m, noFailures) es := by
  intro hall
  have hview : (StepSystem.run (withHistory (step sampleImage) (recordFailures sampleImage))
      (boot zeroMemory, noFailures) refusedRun).map (fun x =>
        decide (x.1.cur = some 5 ∧ x.2.cause 5 = some false ∧
          x.1.console.tooManyShellsFlag = true ∧
          ((x.1.pcb 5).fileDescArray (fdIdx 1)).flags ≠ 0 ∧
          ((x.1.pcb 5).fileDescArray (fdIdx 1)).fileOpsTable = some .stdOut)) = some true := by
    decide +kernel
  obtain ⟨x, hx, hcur, hcause, hflag, hflags, hops⟩ := StepSystem.exists_of_map_decide hview
  let text : Mem := ofList (ascii "no such command\n")
  have hguard := (hall sampleImage zeroMemory (refusedRun ++ [.write 1 (some text) 16])).last hx
  have hmsg : IsNoSuchCommand text 16 := ⟨by decide, by decide⟩
  have hwrites : x.1.WritesTerminal 1 16 := ⟨by decide, 5, hcur, hflags, hops⟩
  have hcomplains : Complains x (.write 1 (some text) 16) text 16 false :=
    ⟨1, 5, rfl, hwrites, hcur, hcause, hmsg⟩
  have hshown := (shownText_eq_tooMany_iff x.1.console hmsg).mpr hflag
  exact Bool.false_ne_true ((hguard text 16 false hcomplains).mp hshown)

end Kernel

end Ext2Kernel
