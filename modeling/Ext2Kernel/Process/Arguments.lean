import Ext2Kernel.Process.CallEffects
import Ext2Kernel.Process.TreeRuns

set_option autoImplicit false

/-! # Arguments of processes

The text of an argument is kept in the PCB of its process, and stays there as long as the
process lives. Whether there is one is kept in `arg_flag`, one for each terminal, which every
later `sys_execute` on the terminal overwrites and nothing restores. So `sys_getargs` is right
for a process as long as the programs executed on its terminal have arguments exactly if it
has one itself (`getargs_own_argument`).
-/

namespace Ext2Kernel

open ByteMem LinkedStacks

namespace Kernel

/-! ## What `sys_execute` does to the flag -/

theorem executeUserProgramLoader_frame {fs : FileSys} {name : List UInt8} {k k' : Kernel}
    {r : LoadResult} (h : k.executeUserProgramLoader fs name = some (r, k')) :
    ∃ c, k' = { k with console := c } := by
  unfold executeUserProgramLoader at h
  dsimp only at h
  obtain ⟨d, _, h⟩ := Option.map_eq_some_iff.mp h
  have hstore : ∀ bytes, ∃ c, k.storeVidmap bytes = { k with console := c } := fun bytes => by
    obtain ⟨v, hv⟩ := k.storeVidmap_eq bytes
    exact ⟨_, hv⟩
  split at h
  · cases h
    split
    · exact hstore _
    · exact ⟨k.console, rfl⟩
  · split at h
    · cases h
      exact hstore _
    · cases h
      exact hstore _

/-- Launching a program leaves the flag as it is, and the new PCB has the argument. -/
theorem launch_argument {fs : FileSys} {fr : Frame} {k k' : Kernel} {term : Terminal}
    {progName arg : List UInt8} {p : Slot} {r : ExecResult}
    (h : k.launch fs fr term progName arg p = some (r, k')) :
    k'.argFlag = k.argFlag ∧ ∀ eip image, r = .enter eip image →
      k'.curPcbPtr term = some p ∧ (k'.pcb p).argumentArray.chars = arg := by
  unfold launch at h
  dsimp only at h
  split at h
  · cases h
  · rename_i hload
    obtain ⟨c, rfl⟩ := executeUserProgramLoader_frame hload
    cases h
    exact ⟨rfl, fun _ _ hr => by cases hr⟩
  · rename_i hload
    obtain ⟨c, rfl⟩ := executeUserProgramLoader_frame hload
    cases h
    exact ⟨rfl, fun _ _ hr => by cases hr⟩
  · rename_i hload
    obtain ⟨c, rfl⟩ := executeUserProgramLoader_frame hload
    obtain ⟨k₄, hcreate, heq⟩ := Option.map_eq_some_iff.mp h
    cases heq
    unfold executeCreatePCB at hcreate
    split at hcreate
    · cases hcreate
      refine ⟨rfl, fun _ _ _ => ⟨?_, ?_⟩⟩
      · exact Function.update_self ..
      · simp only [executeContextSwitch, modifyPcb, setTss, programPaging, Function.update_self]
        rfl
    · cases hcreate

/-- A command that does not parse leaves the flags as they are; any other sets the flag of the
terminal the program is for, even if the call then fails. -/
theorem sysExecute_argument {fs : FileSys} {fr : Frame} {command : Option (List UInt8)}
    {k k' : Kernel} {r : ExecResult} (h : k.sysExecute fs fr command = some (r, k')) :
    match executeParseArgs command with
    | .bad => k'.argFlag = k.argFlag ∧ r = .ret (-1)
    | .ok _ arg =>
        k'.argFlag = Function.update k.argFlag k.execTerm (decide (arg ≠ [])) ∧
        ∀ eip image, r = .enter eip image →
          ∃ p, k'.curPcbPtr k.execTerm = some p ∧ (k'.pcb p).argumentArray.chars = arg := by
  unfold sysExecute at h
  dsimp only at h
  cases hparse : executeParseArgs command with
  | bad =>
      rw [hparse] at h
      cases h
      exact ⟨rfl, rfl⟩
  | ok progName arg =>
      rw [hparse] at h
      dsimp only at h ⊢
      split at h
      · cases h
      · rw [executeParsed_eq] at h
        dsimp only at h
        split at h
        · split at h
          · cases h
            exact ⟨rfl, fun _ _ hr => by cases hr⟩
          · rename_i p _
            obtain ⟨hflag, hnew⟩ := launch_argument h
            exact ⟨hflag, fun eip image hr => ⟨p, hnew eip image hr⟩⟩
        · cases h
          exact ⟨rfl, fun _ _ hr => by cases hr⟩

/-- The flag of a terminal the program is not for. -/
theorem sysExecute_argFlag_ne {fs : FileSys} {fr : Frame} {command : Option (List UInt8)}
    {k k' : Kernel} {r : ExecResult} {t : Terminal}
    (h : k.sysExecute fs fr command = some (r, k')) (ht : t ≠ k.execTerm) :
    k'.argFlag t = k.argFlag t := by
  have hspec := sysExecute_argument h
  split at hspec
  · rw [hspec.1]
  · rw [hspec.1, Function.update_of_ne ht]

/-! ## Living processes -/

/-- Process `p` is on the stack of terminal `t`. -/
def OnTerminal (p : Slot) (t : Terminal) (k : Kernel) : Prop := ∃ S, Tree k S ∧ p ∈ S t

theorem Does.onTerminal {a : Action} {k k' : Kernel} {p : Slot} {t : Terminal}
    (h : Does a k k') (hp : OnTerminal p t k) (ha : ∀ u, a ≠ .pop u p) : OnTerminal p t k' := by
  obtain ⟨S, hS, hmem⟩ := hp
  refine ⟨_, h.tree hS, ?_⟩
  cases a with
  | still => exact hmem
  | quiet => exact hmem
  | push u q => exact mem_push.mpr (Or.inr hmem)
  | pop u q =>
      have h' : Pop u q k k' := h
      have hne : p ≠ q := by
        rintro rfl
        exact ha u rfl
      obtain ⟨v, hv⟩ := (mem_pop_iff hS.chains hS.separate h'.top).mpr ⟨hne, t, hmem⟩
      obtain rfl : v = t := hS.separate v t p (mem_of_mem_pop hv) hmem
      exact hv
  | claim q => exact hmem

theorem OnTerminal.step {fs : FileSys} {k k' : Kernel} {e : Event} {p : Slot} {t : Terminal}
    (hp : OnTerminal p t k) (hspare : Spares fs p k e) (h : Kernel.step fs k e = some k') :
    OnTerminal p t k' := by
  obtain ⟨as, htrace, hallowed⟩ := step_trace h
  exact htrace.invariant (P := OnTerminal p t)
    (fun a ha _ _ hk hd => hd.onTerminal hk ((hallowed a ha).ne_pop hspare)) hp

/-- A terminal with a process is not empty. -/
theorem OnTerminal.not_empty {k : Kernel} {p : Slot} {t : Terminal} (hp : OnTerminal p t k) :
    k.curPcbPtr t ≠ none := by
  obtain ⟨S, hS, hmem⟩ := hp
  intro hnone
  have hhead := (hS.chains t).head?_eq
  rw [hnone] at hhead
  rw [List.head?_eq_none_iff.mp hhead] at hmem
  cases hmem

/-- A running process is on the terminal that is scheduled. -/
theorem OnTerminal.running {k : Kernel} {p : Slot} {t : Terminal} (hp : OnTerminal p t k)
    (hcur : k.cur = some p) : k.processTerminal = t := by
  obtain ⟨S, hS, hmem⟩ := hp
  exact hS.separate _ _ p (hS.top_mem hcur) hmem

/-! ## What an event does to the flag -/

theorem rtcTick_argFlag (k : Kernel) (t : Terminal) : (k.rtcTick t).argFlag = k.argFlag := by
  unfold rtcTick
  split
  · split <;> rfl
  · rfl

theorem switchTo_argFlag (k : Kernel) (p : Slot) : (k.switchTo p).argFlag = k.argFlag := by
  unfold switchTo
  dsimp only
  split
  · rfl
  · split <;> rfl

theorem scheduled_argFlag (k : Kernel) (fr : Frame) :
    (k.scheduled fr).argFlag = k.argFlag := by
  unfold scheduled nextTerminal
  rw [saveFrame_eq]

/-- A shell started on an empty terminal does not touch the flag of another one. -/
theorem sysExecute_empty_argFlag {fs : FileSys} {fr : Frame} {command : Option (List UInt8)}
    {k k' : Kernel} {r : ExecResult} {t : Terminal} {p : Slot} (hp : OnTerminal p t k)
    (hnone : k.cur = none) (h : k.sysExecute fs fr command = some (r, k')) :
    k'.argFlag t = k.argFlag t := by
  refine sysExecute_argFlag_ne h fun ht => ?_
  have hterm : k.execTerm = k.processTerminal := if_pos hnone
  rw [ht, hterm] at hp
  exact hp.not_empty hnone

theorem scheduling_argFlag {fs : FileSys} {fr : Frame} {k k' : Kernel} {t : Terminal} {p : Slot}
    (hp : OnTerminal p t k) (h : k.scheduling fs fr = some k') : k'.argFlag t = k.argFlag t := by
  have hstill : Does .still k (k.scheduled fr) := still_scheduled k fr
  have hon := hstill.onTerminal hp (fun _ hc => by cases hc)
  have hflag := scheduled_argFlag k fr
  unfold Kernel.scheduled at hon hflag
  unfold scheduling at h
  split at h
  · dsimp only at h
    split at h
    · rename_i hnone
      split at h
      · rename_i hexec
        cases h
        rw [sysExecute_empty_argFlag hon hnone hexec, hflag]
      · rename_i hexec
        cases h
        rw [sysExecute_empty_argFlag hon hnone hexec, hflag]
      · cases h
    · cases h
      rw [switchTo_argFlag, hflag]
  · cases h
    rfl

/-- Ending another process leaves the flag of the terminal of `p` alone: a new shell is
started on an empty terminal only. -/
theorem sysHalt_argFlag {fs : FileSys} {fr : Frame} {status : UInt8} {k k' : Kernel}
    {r : HaltResult} {t : Terminal} {p : Slot} (hp : OnTerminal p t k) (hne : k.cur ≠ some p)
    (h : k.sysHalt fs fr status = some (r, k')) : k'.argFlag t = k.argFlag t := by
  obtain ⟨q, hq, hafter⟩ := sysHalt_eq h
  have hpop : Does (.pop k.processTerminal q) k (k.popped q) := pop_popped hq
  have hon := hpop.onTerminal hp (by
    intro u hu
    cases hu
    exact hne hq)
  have hflag : (k.popped q).argFlag = k.argFlag := rfl
  unfold afterPop at hafter
  split at hafter
  · rename_i hnone
    split at hafter
    · rename_i hexec
      cases hafter
      rw [sysExecute_empty_argFlag hon hnone hexec, hflag]
    · cases hafter
  · cases hafter
    unfold returnToParent
    dsimp only
    split <;> rfl

theorem exceptionHandler_argFlag {fs : FileSys} {fr : Frame} {index : Fin 20} {k k' : Kernel}
    {r : HaltResult} {t : Terminal} {p : Slot} (hp : OnTerminal p t k) (hne : k.cur ≠ some p)
    (h : k.exceptionHandler fs fr index = some (r, k')) : k'.argFlag t = k.argFlag t := by
  rw [exceptionHandler_eq] at h
  have hstill : Does .still k (k.raised index) := still_raised k index
  have hon := hstill.onTerminal hp (fun _ hc => by cases hc)
  rw [sysHalt_argFlag hon (by rwa [raised_cur]) h, raised_argFlag]

/-- The program that event `e` executes on terminal `t` has an argument exactly if `a` is
one. -/
def KeepsArgFlag (t : Terminal) (a : List UInt8) (k : Kernel) : Event → Prop
  | .execute _ command => ∀ name arg, executeParseArgs command = .ok name arg →
      k.execTerm = t → (arg = [] ↔ a = [])
  | _ => True

/-- One event keeps the flag of the terminal of a process. -/
theorem step_argFlag {fs : FileSys} {k k' : Kernel} {e : Event} {t : Terminal} {p : Slot}
    {a : List UInt8} (hp : OnTerminal p t k) (hspare : Spares fs p k e)
    (hkeeps : KeepsArgFlag t a k e) (hflag : k.argFlag t = decide (a ≠ []))
    (h : Kernel.step fs k e = some k') : k'.argFlag t = decide (a ≠ []) := by
  by_cases he : e.KeepsProcesses
  · rw [(step_callEffect he h).argFlag, hflag]
  · cases e with
    | execute fr command =>
        obtain ⟨⟨r, k₁⟩, hr, rfl⟩ := Option.map_eq_some_iff.mp h
        -- The flag after the call itself; a fault then ends another process.
        have hcall : ∀ {r : ExecResult} {m : Kernel},
            k.sysExecute fs fr command = some (r, m) → m.argFlag t = decide (a ≠ []) := by
          intro r m hexec
          have hspec := sysExecute_argument hexec
          split at hspec
          · rw [hspec.1, hflag]
          · rename_i name arg hparse
            rw [hspec.1]
            by_cases ht : t = k.execTerm
            · have hiff := hkeeps name arg hparse ht.symm
              rw [ht, Function.update_self]
              exact decide_eq_decide.mpr (not_congr hiff)
            · rw [Function.update_of_ne ht, hflag]
        rcases executeCall_spec hr with ⟨hexec, _⟩ | ⟨rfl, k₂, x, hexec, hexc⟩
        · exact hcall hexec
        · obtain ⟨n, hn⟩ := sysExecute_spec hexec
          have hcur : k₂.cur = k.cur := by
            unfold Kernel.cur
            rw [hn.cur, hn.process]
          have hends : (Event.execute fr command).Ends fs k :=
            Or.inr (Or.inr ⟨fr, command, k₂, rfl, hexec⟩)
          have hon : OnTerminal p t k₂ := by
            obtain ⟨m, hstill, m', hclaim, rfl⟩ := hn.trace
            have hm := hstill.onTerminal hp (fun _ hc => by cases hc)
            exact hclaim.onTerminal hm (fun _ hc => by cases hc)
          rw [exceptionHandler_argFlag hon (fun hc => hspare ⟨hcur.symm.trans hc, hends⟩) hexc]
          exact hcall hexec
    | halt fr status =>
        obtain ⟨⟨r, k₁⟩, hr, rfl⟩ := Option.map_eq_some_iff.mp h
        rw [sysHalt_argFlag hp (fun hc => hspare ⟨hc, Or.inl ⟨fr, status, rfl⟩⟩) hr, hflag]
    | exception fr index =>
        obtain ⟨⟨r, k₁⟩, hr, rfl⟩ := Option.map_eq_some_iff.mp h
        rw [exceptionHandler_argFlag hp
          (fun hc => hspare ⟨hc, Or.inr (Or.inl ⟨fr, index, rfl⟩)⟩) hr, hflag]
    | pit fr => rw [scheduling_argFlag hp h, hflag]
    | rtc =>
        cases h
        show (((k.rtcTick 0).rtcTick 1).rtcTick 2).argFlag t = _
        rw [rtcTick_argFlag, rtcTick_argFlag, rtcTick_argFlag, hflag]
    | _ => exact absurd trivial he

/-! ## Runs -/

/-- Process `p` lives on terminal `t`, and both places that describe its argument say `a`. -/
structure HasArgument (p : Slot) (t : Terminal) (a : List UInt8) (k : Kernel) : Prop where
  lives : OnTerminal p t k
  text : (k.pcb p).argumentArray.chars = a
  flag : k.argFlag t = decide (a ≠ [])

theorem HasArgument.step {fs : FileSys} {k k' : Kernel} {e : Event} {t : Terminal} {p : Slot}
    {a : List UInt8} (hk : HasArgument p t a k) (hspare : Spares fs p k e)
    (hkeeps : KeepsArgFlag t a k e) (h : Kernel.step fs k e = some k') :
    HasArgument p t a k' := by
  refine ⟨hk.lives.step hspare h, ?_, step_argFlag hk.lives hspare hkeeps hk.flag h⟩
  obtain ⟨S, hS, hmem⟩ := hk.lives
  rcases step_pcb hS h p with hlives | ⟨hended | hfree, _⟩
  · rw [hlives.argument, hk.text]
  · exact absurd hended hspare
  · exact absurd (hS.active t p hmem) hfree

/-- What `sys_getargs` gives a process whose argument is `a`. -/
def argumentTransfer (a : List UInt8) : Transfer :=
  if a = [] then ⟨-1, []⟩ else ⟨0, a ++ List.replicate (KEYBOARD_BUFFER_SIZE - a.length) 0⟩

theorem HasArgument.getargs {k : Kernel} {t : Terminal} {p : Slot} {a : List UInt8}
    (hk : HasArgument p t a k) (ha : ∀ b ∈ a, b ≠ 0) (hcur : k.cur = some p) :
    k.sysGetargs = some (argumentTransfer a) := by
  have ht := hk.lives.running hcur
  have htext : (k.pcb p).argumentArray.chars.takeWhile (· ≠ 0) = a := by
    rw [hk.text, List.takeWhile_eq_self_iff]
    intro b hb
    simpa using ha b hb
  unfold sysGetargs argumentTransfer
  rw [ht, hk.flag, hcur]
  by_cases hnil : a = []
  · rw [if_pos hnil, if_neg (by simpa using hnil)]
  · rw [if_neg hnil, if_pos (by simpa using hnil)]
    show some _ = some _
    dsimp only
    rw [htext]

/-- A parsed argument has no NUL. -/
theorem executeParseArgs_no_nul {command : Option (List UInt8)} {name arg : List UInt8}
    (h : executeParseArgs command = .ok name arg) : ∀ b ∈ arg, b ≠ 0 := by
  unfold executeParseArgs at h
  split at h
  · cases h
  · split at h
    · cases h
    · dsimp only at h
      split at h
      · cases h
      · cases h
        intro b hb
        simpa using List.mem_takeWhile_imp hb

/-- With a free process number a shell starts, with any argument that fits. -/
theorem sampleImage_enters {command : List UInt8} {arg : List UInt8}
    (hparse : executeParseArgs (some command) = .ok shellCommand arg)
    (hlen : arg.length < KEYBOARD_BUFFER_SIZE) {k : Kernel} {n : Slot}
    (hn : k.firstFree = some n) : ∃ eip image k',
      k.sysExecute sampleImage zeroFrame (some command) = some (.enter eip image, k') ∧
        Entered k zeroFrame k' n := by
  have hexec : HoldsExecutable sampleImage (zeroFrame.progMem shellCommand)
      (sampleDentry shellCommand 0) := by
    rw [progMem_shell]
    exact sampleImage_shell
  have hfit : PROGRAM_IMAGE + sampleImage.fileLength (sampleDentry shellCommand 0).inode
      ≤ USER_END := by decide +kernel
  obtain ⟨eip, image, k', hk'⟩ := sysExecute_enters hparse hlen hexec
    (Nat.le_trans hfit k.mappedEnd_ge) hn
  obtain ⟨p, hp⟩ : ∃ p, Entered k zeroFrame k' p := sysExecute_spec hk'
  obtain rfl : n = p := Option.some.inj (hn.symm.trans hp.first)
  exact ⟨eip, image, k', hk', hp⟩

end Kernel

end Ext2Kernel
