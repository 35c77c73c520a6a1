import Ext2Kernel.Process.AddressSpace
import Ext2Kernel.Process.Paging

set_option autoImplicit false

/-! # Memory protection over runs

Every event changes the paging structures by calls of `paging.c` only (`step_remaps`), so that in
every reachable state the processor finds the address map of `Paging.addressMap` in the arrays.
For a process in user mode this is its own 4MB and the page at 132MB: neither the kernel nor the
frame of another process is within its reach.
-/

namespace Ext2Kernel

open Kernel PageTables

namespace Kernel

/-! ## The calls of a step -/

/-- The paging structures change by calls. -/
def Remaps (k k' : Kernel) : Prop :=
  ∃ calls : List PagingCall, k'.paging = calls.foldl PagingCall.apply k.paging

theorem Remaps.of_eq {k k' : Kernel} (h : k'.paging = k.paging) : Remaps k k' := ⟨[], h⟩

theorem Remaps.trans {k m k' : Kernel} (h : Remaps k m) (h' : Remaps m k') : Remaps k k' := by
  obtain ⟨calls, hm⟩ := h
  obtain ⟨calls', hk'⟩ := h'
  refine ⟨calls ++ calls', ?_⟩
  rw [List.foldl_append, ← hm, hk']

theorem remaps_programPaging (k : Kernel) (p : Slot) :
    Remaps k (k.programPaging (p.val * MB_4 + MB_8)) := by
  refine ⟨[.program p], ?_⟩
  have hframe : p.val * MB_4 + MB_8 = MB_8 + MB_4 * p.val := by
    rw [Nat.mul_comm, Nat.add_comm]
  rw [hframe]
  rfl

theorem remaps_vidmapPagingModify (k : Kernel) (screen : Option Terminal) :
    Remaps k (k.vidmapPagingModify (PagingCall.screenFrame screen)) :=
  ⟨[.vidmapModify screen], rfl⟩

theorem remaps_modifyCur {k k' : Kernel} {f : Pcb → Pcb} (h : k.modifyCur f = some k') :
    Remaps k k' := by
  obtain ⟨p, _, rfl⟩ := Option.map_eq_some_iff.mp h
  exact .of_eq rfl

theorem remaps_sysWriteRtc {k k' : Kernel} {buf : Option ByteMem.Mem} {nbytes r : Int}
    (h : k.sysWriteRtc buf nbytes = some (r, k')) : Remaps k k' := by
  rcases sysWriteRtc_cases h with ⟨_, rfl⟩ | ⟨_, n, _, hn⟩
  · exact .of_eq rfl
  · exact remaps_modifyCur hn

theorem remaps_sysOpen {fs : FileSys} {k k' : Kernel} {filename : Option (List UInt8)} {r : Int}
    (h : k.sysOpen fs filename = some (r, k')) : Remaps k k' := by
  unfold sysOpen at h
  obtain ⟨p, _, h⟩ := Option.bind_eq_some_iff.mp h
  split at h
  · cases h; exact .of_eq rfl
  · split at h
    · cases h; exact .of_eq rfl
    · split at h
      · cases h; exact .of_eq rfl
      · rename_i x hx
        obtain ⟨k₁, rfl, heq⟩ := Option.map_eq_some_iff.mp h
        cases heq
        unfold openType at hx
        split at hx
        · obtain ⟨k₂, hk₂, hinst⟩ := Option.bind_eq_some_iff.mp (Option.some.inj hx)
          obtain ⟨⟨v, k₃⟩, hw, rfl⟩ := Option.map_eq_some_iff.mp hk₂
          exact (remaps_sysWriteRtc hw).trans (remaps_modifyCur hinst)
        · split at hx
          · exact remaps_modifyCur (Option.some.inj hx)
          · split at hx
            · exact remaps_modifyCur (Option.some.inj hx)
            · cases hx

theorem remaps_sysClose {k k' : Kernel} {fd r : Int} (h : k.sysClose fd = some (r, k')) :
    Remaps k k' := by
  unfold sysClose at h
  split at h
  · cases h; exact .of_eq rfl
  · obtain ⟨p, _, h⟩ := Option.bind_eq_some_iff.mp h
    dsimp only at h
    split at h
    · cases h; exact .of_eq rfl
    · obtain ⟨ops, _, heq⟩ := Option.map_eq_some_iff.mp h
      cases heq
      exact .of_eq rfl

theorem remaps_sysRead {fs : FileSys} {k k' : Kernel} {stack : ByteMem.Mem} {fd nbytes : Int}
    {bufNull : Bool} {r : ReadOutcome}
    (h : k.sysRead fs stack fd bufNull nbytes = some (r, k')) : Remaps k k' := by
  unfold sysRead at h
  split at h
  · cases h; exact .of_eq rfl
  · obtain ⟨p, _, h⟩ := Option.bind_eq_some_iff.mp h
    dsimp only at h
    split at h
    · cases h; exact .of_eq rfl
    · obtain ⟨ops, _, h⟩ := Option.bind_eq_some_iff.mp h
      cases ops with
      | stdIn =>
          obtain ⟨c, _, heq⟩ := Option.map_eq_some_iff.mp h
          cases heq
          exact .of_eq rfl
      | stdOut => cases h; exact .of_eq rfl
      | rtc =>
          obtain ⟨k₁, hk₁, heq⟩ := Option.map_eq_some_iff.mp h
          cases heq
          exact remaps_modifyCur hk₁
      | file =>
          cases h
          unfold sysReadFile
          dsimp only
          split <;> exact .of_eq rfl
      | dir =>
          cases h
          unfold sysReadDirectory
          dsimp only
          split <;> exact .of_eq rfl

theorem remaps_readRtcFinish {k k' : Kernel} (h : k.readRtcFinish = some k') : Remaps k k' := by
  unfold readRtcFinish at h
  split at h
  · split at h
    · exact remaps_modifyCur h
    · cases h
  · cases h

theorem remaps_sysWrite {k k' : Kernel} {fd nbytes r : Int} {buf : Option ByteMem.Mem}
    (h : k.sysWrite fd buf nbytes = some (r, k')) : Remaps k k' := by
  unfold sysWrite at h
  split at h
  · cases h; exact .of_eq rfl
  · split at h
    · cases h; exact .of_eq rfl
    · obtain ⟨p, _, h⟩ := Option.bind_eq_some_iff.mp h
      dsimp only at h
      split at h
      · cases h; exact .of_eq rfl
      · obtain ⟨ops, _, h⟩ := Option.bind_eq_some_iff.mp h
        cases ops with
        | rtc =>
            unfold writeOp at h
            exact remaps_sysWriteRtc h
        | file => cases h; exact .of_eq rfl
        | dir => cases h; exact .of_eq rfl
        | stdIn => cases h; exact .of_eq rfl
        | stdOut => cases h; exact .of_eq rfl

/-- The screen of a terminal is video memory or its buffer. -/
theorem remaps_screen (k : Kernel) (t : Terminal) (shown : Prop) [Decidable shown] :
    Remaps k (k.vidmapPagingModify (if shown then VIDEO else videoBuf t)) := by
  by_cases h : shown
  · rw [if_pos h]
    exact remaps_vidmapPagingModify k none
  · rw [if_neg h]
    exact remaps_vidmapPagingModify k (some t)

theorem remaps_sysVidmap {k k' : Kernel} {screenStart : Nat} {r : Int}
    (h : k.sysVidmap screenStart = some (r, k')) : Remaps k k' := by
  rcases sysVidmap_cases h with ⟨_, rfl⟩ | ⟨_, p, v, _, rfl⟩
  · exact .of_eq rfl
  · exact (remaps_screen k k.processTerminal _).trans (.of_eq rfl)

theorem remaps_drawByte {k k' : Kernel} {offset : Nat} {byte : UInt8}
    (h : k.drawByte offset byte = some k') : Remaps k k' := by
  unfold drawByte at h
  split at h
  · split at h
    · cases h; exact .of_eq rfl
    · cases h
  · cases h

theorem remaps_rtcTick (k : Kernel) (t : Terminal) : Remaps k (k.rtcTick t) := by
  unfold rtcTick
  split
  · split <;> exact .of_eq rfl
  · exact .of_eq rfl

/-! ## Processes that begin and end -/

/-- A call of `sys_execute` maps the page of the new process, if it gets that far. -/
theorem ExecuteFrame.remaps {k k' : Kernel} {p : Slot} (h : ExecuteFrame k k')
    (hpage : k'.pageDirectory SYS_VIRTUAL_MEM = userPage p) : Remaps k k' := by
  refine ⟨[.program p], ?_⟩
  show k'.paging = PagingCall.setProgram k.paging p
  have hdirectory : k'.pageDirectory
      = Function.update k.pageDirectory SYS_VIRTUAL_MEM (userPage p) := by
    funext i
    by_cases hi : i = SYS_VIRTUAL_MEM
    · rw [hi, hpage, Function.update_self]
    · rw [Function.update_of_ne hi, h.pageDirectory i hi]
  unfold paging PagingCall.setProgram
  rw [hdirectory, h.pageTableVidmap]

theorem Returned.remaps {k k' : Kernel} {fr : Frame} (h : Returned k fr k') : Remaps k k' := by
  refine .of_eq ?_
  unfold paging
  rw [h.page, h.pageTableVidmap]

theorem remaps_sysExecute {fs : FileSys} {fr : Frame} {command : Option (List UInt8)}
    {k k' : Kernel} {r : ExecResult} (h : k.sysExecute fs fr command = some (r, k')) :
    Remaps k k' := by
  have hspec := sysExecute_spec h
  cases r with
  | ret v => exact hspec.2.remaps
  | enter eip image =>
      obtain ⟨p, hp⟩ := hspec
      exact hp.toExecuteFrame.remaps hp.page
  | fault =>
      obtain ⟨p, hp⟩ := hspec
      exact hp.toExecuteFrame.remaps hp.page

theorem remaps_returnToParent (k : Kernel) (q : Slot) : Remaps k (k.returnToParent q) := by
  refine (remaps_programPaging k (k.pcb q).processId).trans ?_
  unfold returnToParent
  dsimp only
  split <;> exact .of_eq rfl

/-- `sys_halt` shows video memory at 132MB and goes on with the parent or with a new shell. -/
theorem remaps_sysHalt {fs : FileSys} {fr : Frame} {status : UInt8} {k k' : Kernel}
    {r : HaltResult} (h : k.sysHalt fs fr status = some (r, k')) : Remaps k k' := by
  obtain ⟨p, _, hafter⟩ := sysHalt_eq h
  have hpopped : Remaps k (k.popped p) := ⟨[.vidmapModify none], rfl⟩
  refine hpopped.trans ?_
  unfold afterPop at hafter
  split at hafter
  · split at hafter
    · rename_i hexec
      cases hafter
      exact remaps_sysExecute hexec
    · cases hafter
  · cases hafter
    exact remaps_returnToParent _ _

theorem remaps_exceptionHandler {fs : FileSys} {fr : Frame} {index : Fin 20} {k k' : Kernel}
    {r : HaltResult} (h : k.exceptionHandler fs fr index = some (r, k')) : Remaps k k' := by
  have hraised : Remaps k (k.raised index) := .of_eq rfl
  rw [exceptionHandler_eq] at h
  exact hraised.trans (remaps_sysHalt h)

theorem remaps_switchTo (k : Kernel) (p : Slot) : Remaps k (k.switchTo p) := by
  refine (remaps_programPaging k (k.pcb p).processId).trans ?_
  unfold switchTo
  dsimp only
  split
  · exact ⟨[.vidmapModify none], rfl⟩
  · split
    · exact ⟨[.vidmapModify (some k.processTerminal)], rfl⟩
    · exact .of_eq rfl

theorem remaps_scheduling {fs : FileSys} {fr : Frame} {k k' : Kernel}
    (h : k.scheduling fs fr = some k') : Remaps k k' := by
  have hscheduled : Remaps k (k.saveFrame k.processTerminal fr).nextTerminal := by
    rw [saveFrame_eq]
    exact .of_eq rfl
  unfold scheduling at h
  split at h
  · refine hscheduled.trans ?_
    dsimp only at h
    split at h
    · split at h
      · rename_i hexec
        cases h
        exact remaps_sysExecute hexec
      · rename_i hexec
        cases h
        exact remaps_sysExecute hexec
      · cases h
    · cases h
      exact remaps_switchTo _ _
  · cases h
    exact .of_eq rfl

/-- **Every event changes the paging structures by calls of `paging.c` only.** -/
theorem step_remaps {fs : FileSys} {k k' : Kernel} {e : Event} (h : step fs k e = some k') :
    Remaps k k' := by
  cases e with
  | execute fr command =>
      obtain ⟨⟨r, k₁⟩, hr, rfl⟩ := Option.map_eq_some_iff.mp h
      rcases executeCall_spec hr with ⟨hexec, _⟩ | ⟨_, k₂, x, hexec, hexc⟩
      · exact remaps_sysExecute hexec
      · exact (remaps_sysExecute hexec).trans (remaps_exceptionHandler hexc)
  | halt fr status =>
      obtain ⟨⟨r, k₁⟩, hr, rfl⟩ := Option.map_eq_some_iff.mp h
      exact remaps_sysHalt hr
  | exception fr index =>
      obtain ⟨⟨r, k₁⟩, hr, rfl⟩ := Option.map_eq_some_iff.mp h
      exact remaps_exceptionHandler hr
  | pit fr => exact remaps_scheduling h
  | rtc =>
      cases h
      exact ((remaps_rtcTick k 0).trans (remaps_rtcTick _ 1)).trans (remaps_rtcTick _ 2)
  | keyboard scancode =>
      obtain ⟨c, _, rfl⟩ := Option.map_eq_some_iff.mp h
      exact .of_eq rfl
  | switch n =>
      cases h
      exact .of_eq rfl
  | «open» filename =>
      obtain ⟨⟨r, k₁⟩, hr, rfl⟩ := Option.map_eq_some_iff.mp h
      exact remaps_sysOpen hr
  | close fd =>
      obtain ⟨⟨r, k₁⟩, hr, rfl⟩ := Option.map_eq_some_iff.mp h
      exact remaps_sysClose hr
  | read stack fd bufNull nbytes =>
      obtain ⟨⟨r, k₁⟩, hr, rfl⟩ := Option.map_eq_some_iff.mp h
      exact remaps_sysRead hr
  | resumeTerminal nbytes =>
      obtain ⟨_, _, rfl⟩ := Option.map_eq_some_iff.mp h
      exact .of_eq rfl
  | resumeRtc => exact remaps_readRtcFinish h
  | write fd buf nbytes =>
      obtain ⟨⟨r, k₁⟩, hr, rfl⟩ := Option.map_eq_some_iff.mp h
      exact remaps_sysWrite hr
  | getargs =>
      obtain ⟨_, _, rfl⟩ := Option.map_eq_some_iff.mp h
      exact .of_eq rfl
  | vidmap screenStart =>
      obtain ⟨⟨r, k₁⟩, hr, rfl⟩ := Option.map_eq_some_iff.mp h
      exact remaps_sysVidmap hr
  | draw offset byte => exact remaps_drawByte h

/-! ## Every reachable state -/

theorem Reachable.remaps {fs : FileSys} {k : Kernel} (h : Reachable fs k) :
    ∃ m, Remaps (boot m) k := by
  obtain ⟨m, hm⟩ := h
  refine ⟨m, ?_⟩
  refine StepSystem.Reachable.invariant (P := fun k => Remaps (boot m) k) ?_ hm (.of_eq rfl)
  intro k e k' hk hstep
  exact hk.trans (step_remaps hstep)

/-- **The address map of every reachable state.** The words that `paging_init` and the later
calls have stored translate every address as the map says, for the kernel and for programs. -/
theorem reachable_walk {fs : FileSys} {k : Kernel} (h : Reachable fs k) (place : Placement)
    (arrays : PagingArrays) : ∃ calls : List PagingCall,
    Encodes place (calls.foldl (PagingCall.store place) (arrays.pagingInit place)) k.paging ∧
    ∀ rest acc a, a < 4294967296 →
      walk (place.word (calls.foldl (PagingCall.store place) (arrays.pagingInit place)) rest)
        place.pageDirectory acc a = k.paging.addressMap acc.user a := by
  obtain ⟨m, calls, hcalls⟩ := h.remaps
  have hencodes := (pagingInit_encodes place arrays m).calls calls
  have harranged := (arranged_boot m).calls calls
  rw [← hcalls] at hencodes harranged
  exact ⟨calls, hencodes, fun rest acc a ha => walk_eq_addressMap hencodes harranged acc ha⟩

/-- Three arrays in a row, at the end of the 4MB of the kernel. -/
def samplePlacement : Placement where
  pageDirectory := 0x7FD000
  pageTable := 0x7FE000
  pageTableVidmap := 0x7FF000
  aligned := by decide
  apart := by decide

/-- Memory that holds zeros. -/
def clearedArrays : PagingArrays := ⟨fun _ => 0, fun _ => 0, fun _ => 0⟩

/-- The state of three shells, all words zero before `paging_init`. -/
theorem reachable_walk_sample : ∃ k, Reachable sampleImage k ∧ k.cur = some 2 ∧
    ∃ calls : List PagingCall,
      Encodes samplePlacement (calls.foldl (PagingCall.store samplePlacement)
        (clearedArrays.pagingInit samplePlacement)) k.paging ∧
      ∀ rest acc a, a < 4294967296 →
        walk (samplePlacement.word (calls.foldl (PagingCall.store samplePlacement)
          (clearedArrays.pagingInit samplePlacement)) rest)
          samplePlacement.pageDirectory acc a = k.paging.addressMap acc.user a := by
  obtain ⟨k, _, hreach, _, _, hprocess, hcurPtr, _⟩ := sampleImage_three_ticks
  have hcur : k.cur = some 2 := by
    unfold cur
    rw [hprocess, hcurPtr]
    rfl
  exact ⟨k, hreach, hcur, reachable_walk hreach samplePlacement clearedArrays⟩

/-! ## What a program can reach -/

/-- The physical memory of process `p`. -/
def frameOf (p : Slot) : Set Nat := {x | MB_8 + MB_4 * p.val ≤ x ∧ x < MB_8 + MB_4 * (p.val + 1)}

/-- Video memory and the buffers of the three terminals. -/
def screens : Set Nat := {x | VIDEO ≤ x ∧ x < VIDEO + 4 * SIZE_OF_PAGE}

/-- The 4MB of the kernel, with the process control blocks and the kernel stacks. -/
def kernelMemory : Set Nat := {x | KERNEL_START ≤ x ∧ x < MB_8}

theorem not_mem_kernelMemory {p : Slot} {x : Nat} (hx : x ∈ frameOf p ∪ screens) :
    x ∉ kernelMemory := by
  rintro ⟨hk, hk'⟩
  unfold frameOf screens VIDEO SIZE_OF_PAGE MB_8 MB_4 KERNEL_START at *
  rcases hx with ⟨hx, hx'⟩ | ⟨hx, hx'⟩ <;> omega

theorem not_mem_frameOf {p q : Slot} (h : q ≠ p) {x : Nat} (hx : x ∈ frameOf p ∪ screens) :
    x ∉ frameOf q := by
  have hval : q.val ≠ p.val := fun heq => h (Fin.ext heq)
  rintro ⟨hq, hq'⟩
  unfold frameOf screens VIDEO SIZE_OF_PAGE MB_8 MB_4 at *
  rcases hx with ⟨hx, hx'⟩ | ⟨hx, hx'⟩ <;> omega

theorem screenFrame_mem (screen : Option Terminal) {i : Nat} (hi : i < SIZE_OF_PAGE) :
    PagingCall.screenFrame screen + i ∈ screens := by
  have hbase : VIDEO ≤ PagingCall.screenFrame screen ∧
      PagingCall.screenFrame screen + SIZE_OF_PAGE ≤ VIDEO + 4 * SIZE_OF_PAGE := by
    unfold PagingCall.screenFrame videoBuf VIDEO PAGE_4KB SIZE_OF_PAGE
    cases screen with
    | none => decide
    | some t =>
        have ht := t.isLt
        dsimp only
        omega
  exact ⟨by omega, by omega⟩

end Kernel

/-- **What user mode reaches** while the user page is that of process `p`: every byte of its own
frame, and besides that only the screens. -/
theorem Paging.Arranged.user_reach {pg : Paging} (h : pg.Arranged) {p : Slot}
    (hp : pg.directory SYS_VIRTUAL_MEM = userPage p) :
    (∀ x ∈ frameOf p, ∃ a < 4294967296, pg.addressMap true a = some x) ∧
      ∀ a x, pg.addressMap true a = some x → x ∈ frameOf p ∪ screens := by
  have hconst : VIDEO = 753664 ∧ SIZE_OF_PAGE = 4096 ∧ KERNEL_START = 4194304 ∧ MB_8 = 8388608 ∧
      MB_4 = 4194304 ∧ USER_START = 134217728 ∧ USER_END = 138412032 := by decide
  have hsize : MB_4 * (p.val + 1) = MB_4 * p.val + MB_4 := Nat.mul_succ ..
  have hp₀ := p.isLt
  have hframe := Paging.userFrame_page hp
  unfold Paging.addressMap
  rw [hframe]
  constructor
  · rintro x ⟨hlow, hhigh⟩
    refine ⟨USER_START + (x - (MB_8 + MB_4 * p.val)), by omega, ?_⟩
    rw [if_neg (by omega), if_neg (by omega), if_pos (by omega), Option.map_some,
      Nat.add_sub_cancel_left]
    exact congrArg some (Nat.add_sub_cancel' hlow)
  · intro a x hx
    split at hx
    · cases hx
    · split at hx
      · cases hx
      · split at hx
        · -- an address of the user page
          have hsum : MB_8 + MB_4 * p.val + (a - USER_START) = x := Option.some.inj hx
          exact Or.inl ⟨by omega, by omega⟩
        · split at hx
          · -- an address of the page at 132MB
            obtain ⟨frame, hvideo, rfl⟩ := Option.map_eq_some_iff.mp hx
            rcases h.video with habsent | ⟨htable, screen, hscreen⟩
            · rw [Paging.videoFrame_absent habsent] at hvideo
              cases hvideo
            · rw [Paging.videoFrame_page htable hscreen] at hvideo
              cases hvideo
              exact Or.inr (screenFrame_mem screen (by omega))
          · cases hx

namespace Kernel

/-- The user page of a state whose mapping is that of process `p`. -/
theorem Mapped.userPage {k : Kernel} {p : Slot} (h : Mapped k p) (harranged : k.paging.Arranged) :
    k.paging.directory SYS_VIRTUAL_MEM = Kernel.userPage p := by
  have hbase := h.page
  rcases harranged.user with habsent | ⟨q, hq⟩
  · rw [show k.pageDirectory SYS_VIRTUAL_MEM = _ from habsent] at hbase
    unfold MB_8 at hbase
    injection hbase with hzero
    omega
  · rw [show k.pageDirectory SYS_VIRTUAL_MEM = _ from hq] at hbase
    unfold Kernel.userPage MB_8 MB_4 at hbase
    injection hbase with hval
    rw [hq, show q = p from Fin.ext (by omega)]

/-- **Programs are confined.** From a reachable state in which every terminal has a process and
the mapping is that of the running one, after every run of executes by the visible terminal's
process, halts, exceptions, ticks and switches, the process that runs reaches in user mode every
byte of its own frame, and besides that only the screens: nothing of the kernel, and nothing of
another process. -/
theorem user_confined {fs : FileSys} {k k' : Kernel} {es : List Event} (h : Reachable fs k)
    (hk : Serving k) (hev : StepSystem.Guarded (step fs) ServingEvent k es)
    (hr : StepSystem.run (step fs) k es = some k') (place : Placement) (arrays : PagingArrays) :
    ∃ p calls, k'.cur = some p ∧
      Encodes place (List.foldl (PagingCall.store place) (arrays.pagingInit place) calls)
        k'.paging ∧
      ∀ rest write,
        let translate := walk (place.word
          (List.foldl (PagingCall.store place) (arrays.pagingInit place) calls) rest)
          place.pageDirectory ⟨true, write⟩
        (∀ x ∈ frameOf (k'.pcb p).processId, ∃ a < 4294967296, translate a = some x) ∧
          ∀ a < 4294967296, ∀ x, translate a = some x →
            x ∈ frameOf (k'.pcb p).processId ∪ screens ∧ x ∉ kernelMemory ∧
              ∀ q, q ≠ (k'.pcb p).processId → x ∉ frameOf q := by
  have hk' : Serving k' := StepSystem.run_invariant_of_guarded
    (fun _ _ _ hs he hstep => step_serving hs he hstep) hev hr hk
  obtain ⟨p, hp⟩ := Option.ne_none_iff_exists'.mp (hk'.all k'.processTerminal)
  obtain ⟨m, hm⟩ := h
  obtain ⟨calls, hencodes, hwalk⟩ := reachable_walk ⟨m, hm.trans_run hr⟩ place arrays
  obtain ⟨m', calls', hcalls'⟩ := Reachable.remaps ⟨m, hm.trans_run hr⟩
  have harranged : k'.paging.Arranged := by
    rw [hcalls']
    exact (arranged_boot m').calls calls'
  have hreach := harranged.user_reach ((hk'.agrees p hp).userPage harranged)
  refine ⟨p, calls, hp, hencodes, fun rest write => ⟨?_, ?_⟩⟩
  · intro x hx
    obtain ⟨a, ha, hax⟩ := hreach.1 x hx
    exact ⟨a, ha, (hwalk rest ⟨true, write⟩ a ha).trans hax⟩
  · intro a ha x hax
    have hx := hreach.2 a x ((hwalk rest ⟨true, write⟩ a ha).symm.trans hax)
    exact ⟨hx, not_mem_kernelMemory hx, fun q hq => not_mem_frameOf hq hx⟩

/-- On the small image, with three shells running: a halt, a tick and a switch. -/
theorem user_confined_sample : ∃ k k', Reachable sampleImage k ∧
    StepSystem.run (step sampleImage) k
      [.halt zeroFrame 0, .pit zeroFrame, .switch 1] = some k' ∧
    ∃ p calls, k'.cur = some p ∧
      Encodes samplePlacement (List.foldl (PagingCall.store samplePlacement)
        (clearedArrays.pagingInit samplePlacement) calls) k'.paging ∧
      ∀ rest write,
        let translate := walk (samplePlacement.word
          (List.foldl (PagingCall.store samplePlacement)
            (clearedArrays.pagingInit samplePlacement) calls) rest)
          samplePlacement.pageDirectory ⟨true, write⟩
        (∀ x ∈ frameOf (k'.pcb p).processId, ∃ a < 4294967296, translate a = some x) ∧
          ∀ a < 4294967296, ∀ x, translate a = some x →
            x ∈ frameOf (k'.pcb p).processId ∪ screens ∧ x ∉ kernelMemory ∧
              ∀ q, q ≠ (k'.pcb p).processId → x ∉ frameOf q := by
  obtain ⟨k, _, hreach, hstart, _, hprocess, hcurPtr, _⟩ := sampleImage_three_ticks
  have hall : AllCurrent k := by
    unfold AllCurrent
    rw [hcurPtr]
    decide
  have hcur : k.cur = some 2 := by
    unfold cur
    rw [hprocess, hcurPtr]
    rfl
  have hserving : Serving k := by
    refine ⟨hall, fun p hp => ?_⟩
    obtain rfl : 2 = p := Option.some.inj (hcur.symm.trans hp)
    rw [hstart.pid]
    exact .of_eq hstart.page hstart.tss
  have hev : StepSystem.Guarded (step sampleImage) ServingEvent k
      [.halt zeroFrame 0, .pit zeroFrame, .switch 1] :=
    ⟨trivial, fun _ _ => ⟨trivial, fun _ _ => ⟨trivial, fun _ _ => trivial⟩⟩⟩
  have hshort : ∀ e ∈ [Event.halt zeroFrame 0, .pit zeroFrame, .switch 1], ShortEvent e := by
    intro e he
    simp only [List.mem_cons, List.not_mem_nil, or_false] at he
    rcases he with rfl | rfl | rfl <;> trivial
  obtain ⟨k', hrun⟩ := run_defined sampleImage_holdsShell hreach.sound hserving hev hshort
  exact ⟨k, k', hreach, hrun, user_confined hreach hserving hev hrun samplePlacement clearedArrays⟩

end Kernel

end Ext2Kernel
