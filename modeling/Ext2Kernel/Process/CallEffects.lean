import Ext2Kernel.Process.Tree

set_option autoImplicit false

/-! # What an event leaves of the PCBs

The descriptor calls, `getargs`, `vidmap`, a store through the video page and the keyboard
touch no PCB but that of the running process (`step_callEffect`). No event changes the
arguments of a process while it lives, and none breaks the relation between the two RTC fields
(`PcbLives`): what `step_pcb` leaves open is only that a process number is given to a new
process.
-/

namespace Ext2Kernel

open ByteMem

/-- The RTC fields of a PCB: the divider is 0 or a power of two up to 512, and the counter
counts down from it. -/
structure Pcb.RtcOk (b : Pcb) : Prop where
  divider : b.rtcInterruptDivider = 0 ∨ RtcCount b.rtcInterruptDivider
  counter : b.rtcCounter ≤ b.rtcInterruptDivider

/-- A change of a PCB while its process lives. -/
structure PcbLives (b b' : Pcb) : Prop where
  argument : b'.argumentArray = b.argumentArray
  rtc : b.RtcOk → b'.RtcOk

theorem PcbLives.refl (b : Pcb) : PcbLives b b := ⟨rfl, id⟩

theorem PcbLives.trans {a b c : Pcb} (h : PcbLives a b) (h' : PcbLives b c) : PcbLives a c :=
  ⟨h'.argument.trans h.argument, h'.rtc ∘ h.rtc⟩

/-- A change outside the arguments and the RTC fields. -/
theorem PcbLives.of_eq {b b' : Pcb} (ha : b'.argumentArray = b.argumentArray)
    (hdiv : b'.rtcInterruptDivider = b.rtcInterruptDivider)
    (hcount : b'.rtcCounter = b.rtcCounter) : PcbLives b b' :=
  ⟨ha, fun h => ⟨by rw [hdiv]; exact h.divider, by rw [hdiv, hcount]; exact h.counter⟩⟩

/-- The events that neither make nor end a process, nor go round the terminals. -/
def Event.KeepsProcesses : Event → Prop
  | .execute _ _ | .halt _ _ | .exception _ _ | .pit _ | .rtc => False
  | _ => True

namespace Kernel

/-- The processes and the user page stay where they are, and only the running process has a
changed PCB. -/
structure CallEffect (k k' : Kernel) : Prop where
  cur : k'.curPcbPtr = k.curPcbPtr
  active : k'.activeProcesses = k.activeProcesses
  argFlag : k'.argFlag = k.argFlag
  page : k'.pageDirectory SYS_VIRTUAL_MEM = k.pageDirectory SYS_VIRTUAL_MEM
  pcb : k'.pcb = k.pcb ∨
    ∃ p b, k.cur = some p ∧ k'.pcb = Function.update k.pcb p b ∧ PcbLives (k.pcb p) b

theorem CallEffect.refl (k : Kernel) : CallEffect k k := ⟨rfl, rfl, rfl, rfl, Or.inl rfl⟩

theorem CallEffect.of_console (k : Kernel) (c : Console) :
    CallEffect k { k with console := c } := ⟨rfl, rfl, rfl, rfl, Or.inl rfl⟩

theorem CallEffect.modifyPcb {k : Kernel} {p : Slot} {f : Pcb → Pcb} (hp : k.cur = some p)
    (hf : PcbLives (k.pcb p) (f (k.pcb p))) : CallEffect k (k.modifyPcb p f) :=
  ⟨rfl, rfl, rfl, rfl, Or.inr ⟨p, _, hp, rfl, hf⟩⟩

theorem CallEffect.modifyCur {k k' : Kernel} {f : Pcb → Pcb} (h : k.modifyCur f = some k')
    (hf : ∀ b, PcbLives b (f b)) : CallEffect k k' := by
  obtain ⟨p, hp, rfl⟩ := Option.map_eq_some_iff.mp h
  exact .modifyPcb hp (hf _)

/-- A process that is not running keeps its PCB. -/
theorem CallEffect.pcb_ne {k k' : Kernel} (h : CallEffect k k') {q : Slot}
    (hq : k.cur ≠ some q) : k'.pcb q = k.pcb q := by
  rcases h.pcb with heq | ⟨p, b, hp, heq, _⟩
  · rw [heq]
  · have hne : q ≠ p := by
      rintro rfl
      exact hq hp
    rw [heq, Function.update_of_ne hne]

theorem CallEffect.pcbLives {k k' : Kernel} (h : CallEffect k k') (q : Slot) :
    PcbLives (k.pcb q) (k'.pcb q) := by
  rcases h.pcb with heq | ⟨p, b, hp, heq, hcall⟩
  · rw [heq]
    exact .of_eq rfl rfl rfl
  · rw [heq]
    by_cases hq : q = p
    · rw [hq, Function.update_self]
      exact hcall
    · rw [Function.update_of_ne hq]
      exact .of_eq rfl rfl rfl

/-! ## The calls -/

theorem pcbLives_set {n : Nat} (hn : RtcCount n) (b : Pcb) :
    PcbLives b { b with rtcInterruptDivider := n, rtcCounter := n } :=
  ⟨rfl, fun _ => ⟨Or.inr hn, Nat.le_refl n⟩⟩

theorem pcbLives_reload (b : Pcb) : PcbLives b { b with rtcCounter := b.rtcInterruptDivider } :=
  ⟨rfl, fun h => ⟨h.divider, Nat.le_refl _⟩⟩

theorem callEffect_sysWriteRtc {k k' : Kernel} {buf : Option Mem} {nbytes r : Int}
    (h : k.sysWriteRtc buf nbytes = some (r, k')) : CallEffect k k' := by
  rcases sysWriteRtc_cases h with ⟨_, rfl⟩ | ⟨_, n, hcount, hn⟩
  · exact .refl _
  · exact .modifyCur hn (pcbLives_set hcount)

theorem callEffect_installFd {k k' : Kernel} {i : Fin 8} {ops : FileOps} {inode : Nat}
    (h : k.installFd i ops inode = some k') : CallEffect k k' :=
  .modifyCur h fun _ => .of_eq rfl rfl rfl

/-- Opening the RTC sets it up and installs the descriptor, both in the same PCB. -/
theorem callEffect_openRtc {k k' k'' : Kernel} {i : Fin 8} (h : k.sysOpenRtc = some k')
    (h' : k'.installFd i .rtc 0 = some k'') : CallEffect k k'' := by
  obtain ⟨⟨r, k₁⟩, hw, rfl⟩ := Option.map_eq_some_iff.mp h
  rcases sysWriteRtc_cases hw with ⟨_, rfl⟩ | ⟨_, n, hcount, hn⟩
  · exact callEffect_installFd h'
  · obtain ⟨p, hp, rfl⟩ := Option.map_eq_some_iff.mp hn
    obtain ⟨q, hq, rfl⟩ := Option.map_eq_some_iff.mp h'
    obtain rfl : p = q := Option.some.inj (hp.symm.trans hq)
    rw [modifyPcb_modifyPcb]
    exact .modifyPcb hp ⟨rfl, fun _ => ⟨Or.inr hcount, Nat.le_refl n⟩⟩

theorem callEffect_sysOpen {fs : FileSys} {k k' : Kernel} {filename : Option (List UInt8)}
    {r : Int} (h : k.sysOpen fs filename = some (r, k')) : CallEffect k k' := by
  unfold sysOpen at h
  obtain ⟨p, hp, h⟩ := Option.bind_eq_some_iff.mp h
  split at h
  · cases h; exact .refl k
  · split at h
    · cases h; exact .refl k
    · split at h
      · cases h; exact .refl k
      · rename_i x hx
        obtain ⟨k₁, rfl, heq⟩ := Option.map_eq_some_iff.mp h
        cases heq
        unfold openType at hx
        split at hx
        · obtain ⟨k₂, hk₂, hinst⟩ := Option.bind_eq_some_iff.mp (Option.some.inj hx)
          exact callEffect_openRtc hk₂ hinst
        · split at hx
          · exact callEffect_installFd (Option.some.inj hx)
          · split at hx
            · exact callEffect_installFd (Option.some.inj hx)
            · cases hx

theorem callEffect_sysClose {k k' : Kernel} {fd r : Int} (h : k.sysClose fd = some (r, k')) :
    CallEffect k k' := by
  unfold sysClose at h
  split at h
  · cases h; exact .refl k
  · obtain ⟨p, hp, h⟩ := Option.bind_eq_some_iff.mp h
    dsimp only at h
    split at h
    · cases h; exact .refl k
    · obtain ⟨ops, _, heq⟩ := Option.map_eq_some_iff.mp h
      cases heq
      exact .modifyPcb hp (.of_eq rfl rfl rfl)

theorem callEffect_sysRead {fs : FileSys} {k k' : Kernel} {stack : Mem} {fd nbytes : Int}
    {bufNull : Bool} {r : ReadOutcome}
    (h : k.sysRead fs stack fd bufNull nbytes = some (r, k')) : CallEffect k k' := by
  unfold sysRead at h
  split at h
  · cases h; exact .refl k
  · obtain ⟨p, hp, h⟩ := Option.bind_eq_some_iff.mp h
    dsimp only at h
    split at h
    · cases h; exact .refl k
    · obtain ⟨ops, _, h⟩ := Option.bind_eq_some_iff.mp h
      cases ops with
      | stdIn =>
          obtain ⟨c, _, heq⟩ := Option.map_eq_some_iff.mp h
          cases heq
          exact .of_console k c
      | stdOut => cases h; exact .refl k
      | rtc =>
          obtain ⟨k₁, hk₁, heq⟩ := Option.map_eq_some_iff.mp h
          cases heq
          exact .modifyCur hk₁ pcbLives_reload
      | file =>
          cases h
          unfold sysReadFile
          dsimp only
          split
          · dsimp only
            exact .modifyPcb hp (.of_eq rfl rfl rfl)
          · exact .refl k
      | dir =>
          cases h
          unfold sysReadDirectory
          dsimp only
          split <;> exact ⟨rfl, rfl, rfl, rfl, Or.inl rfl⟩

theorem callEffect_readRtcFinish {k k' : Kernel} (h : k.readRtcFinish = some k') :
    CallEffect k k' := by
  unfold readRtcFinish at h
  split at h
  · split at h
    · exact .modifyCur h pcbLives_reload
    · cases h
  · cases h

theorem callEffect_sysWrite {k k' : Kernel} {fd nbytes r : Int} {buf : Option Mem}
    (h : k.sysWrite fd buf nbytes = some (r, k')) : CallEffect k k' := by
  unfold sysWrite at h
  split at h
  · cases h; exact .refl k
  · split at h
    · cases h; exact .refl k
    · obtain ⟨p, hp, h⟩ := Option.bind_eq_some_iff.mp h
      dsimp only at h
      split at h
      · cases h; exact .refl k
      · obtain ⟨ops, _, h⟩ := Option.bind_eq_some_iff.mp h
        cases ops with
        | rtc =>
            unfold writeOp at h
            exact callEffect_sysWriteRtc h
        | file => cases h; exact .refl k
        | dir => cases h; exact .refl k
        | stdIn => cases h; exact .refl k
        | stdOut => cases h; exact .of_console k _

theorem callEffect_sysVidmap {k k' : Kernel} {screenStart : Nat} {r : Int}
    (h : k.sysVidmap screenStart = some (r, k')) : CallEffect k k' := by
  rcases sysVidmap_cases h with ⟨_, rfl⟩ | ⟨_, p, v, hp, rfl⟩
  · exact .refl _
  · refine ⟨rfl, rfl, rfl, ?_, Or.inr ⟨p, _, hp, rfl, .of_eq rfl rfl rfl⟩⟩
    exact vidmapPagingModify_page k
      (if k.processTerminal = k.visibleTerminal then VIDEO else videoBuf k.processTerminal)

theorem callEffect_drawByte {k k' : Kernel} {offset : Nat} {byte : UInt8}
    (h : k.drawByte offset byte = some k') : CallEffect k k' := by
  unfold drawByte at h
  split at h
  · split at h
    · cases h; exact .of_console k _
    · cases h
  · cases h

/-- **The effect of the events that keep the processes.** -/
theorem step_callEffect {fs : FileSys} {k k' : Kernel} {e : Event} (he : e.KeepsProcesses)
    (h : step fs k e = some k') : CallEffect k k' := by
  cases e with
  | execute fr command => exact he.elim
  | halt fr status => exact he.elim
  | exception fr index => exact he.elim
  | pit fr => exact he.elim
  | rtc => exact he.elim
  | keyboard scancode =>
      obtain ⟨c, _, rfl⟩ := Option.map_eq_some_iff.mp h
      exact .of_console k c
  | switch n =>
      cases h
      exact .of_console k _
  | «open» filename =>
      obtain ⟨⟨r, k₁⟩, hr, rfl⟩ := Option.map_eq_some_iff.mp h
      exact callEffect_sysOpen hr
  | close fd =>
      obtain ⟨⟨r, k₁⟩, hr, rfl⟩ := Option.map_eq_some_iff.mp h
      exact callEffect_sysClose hr
  | read stack fd bufNull nbytes =>
      obtain ⟨⟨r, k₁⟩, hr, rfl⟩ := Option.map_eq_some_iff.mp h
      exact callEffect_sysRead hr
  | resumeTerminal nbytes =>
      obtain ⟨_, _, rfl⟩ := Option.map_eq_some_iff.mp h
      exact .refl _
  | resumeRtc => exact callEffect_readRtcFinish h
  | write fd buf nbytes =>
      obtain ⟨⟨r, k₁⟩, hr, rfl⟩ := Option.map_eq_some_iff.mp h
      exact callEffect_sysWrite hr
  | getargs =>
      obtain ⟨_, _, rfl⟩ := Option.map_eq_some_iff.mp h
      exact .refl _
  | vidmap screenStart =>
      obtain ⟨⟨r, k₁⟩, hr, rfl⟩ := Option.map_eq_some_iff.mp h
      exact callEffect_sysVidmap hr
  | draw offset byte => exact callEffect_drawByte h

/-! ## Ticks -/

theorem pcbLives_tick (b : Pcb) : PcbLives b { b with rtcCounter := b.rtcCounter - 1 } :=
  ⟨rfl, fun h => ⟨h.divider, le_trans (Nat.sub_le _ _) h.counter⟩⟩

/-- One of the three lines of `rtc_interrupt`, on any PCB. -/
theorem rtcTick_pcb (k : Kernel) (t : Terminal) (p : Slot) :
    (k.rtcTick t).pcb p
      = if k.curPcbPtr t = some p then { k.pcb p with rtcCounter := (k.pcb p).rtcCounter - 1 }
        else k.pcb p := by
  unfold rtcTick
  split
  · rename_i q hq
    rw [hq]
    by_cases hpq : q = p
    · subst hpq
      rw [if_pos rfl]
      split
      · rw [modifyPcb_self]
      · rename_i hzero
        have : (k.pcb q).rtcCounter - 1 = (k.pcb q).rtcCounter := by omega
        rw [this]
    · rw [if_neg (fun h => hpq (Option.some.inj h))]
      split
      · exact modifyPcb_ne _ _ (Ne.symm hpq)
      · rfl
  · rename_i hnone
    rw [hnone]
    rfl

theorem pcbLives_rtcTick (k : Kernel) (t : Terminal) (p : Slot) :
    PcbLives (k.pcb p) ((k.rtcTick t).pcb p) := by
  rw [rtcTick_pcb]
  split
  · exact pcbLives_tick _
  · exact .refl _

theorem pcbLives_rtcInterrupt (k : Kernel) (p : Slot) :
    PcbLives (k.pcb p) (k.rtcInterrupt.pcb p) :=
  ((pcbLives_rtcTick k 0 p).trans (pcbLives_rtcTick _ 1 p)).trans (pcbLives_rtcTick _ 2 p)

/-! ## Processes that begin and end -/

/-- The memory of a process that has just been made in slot `p`. -/
def NewIn (p : Slot) (b : Pcb) : Prop :=
  ∃ old arg parent eip, b = { newPcb old arg parent p with eip := eip }

theorem pcbLives_saveFrame (k : Kernel) (t : Terminal) (fr : Frame) (p : Slot) :
    PcbLives (k.pcb p) ((k.saveFrame t fr).pcb p) := by
  unfold saveFrame
  split
  · rename_i q hq
    by_cases hp : p = q
    · rw [hp, modifyPcb_self]
      exact .of_eq rfl rfl rfl
    · rw [modifyPcb_ne _ _ hp]
      exact .refl _
  · exact .refl _

theorem Returned.pcbLives {k k' : Kernel} {fr : Frame} (h : Returned k fr k') (p : Slot) :
    PcbLives (k.pcb p) (k'.pcb p) := by
  rcases h.pcb with heq | heq
  · rw [heq]
    exact .refl _
  · rw [heq]
    exact pcbLives_saveFrame k _ fr p

theorem Faulted.pcbLives {k k' : Kernel} {fr : Frame} {n : Slot} (h : Faulted k fr k' n)
    (p : Slot) : PcbLives (k.pcb p) (k'.pcb p) := by
  rw [h.pcb]
  exact pcbLives_saveFrame k _ fr p

theorem Entered.pcbLives {k k' : Kernel} {fr : Frame} {n p : Slot} (h : Entered k fr k' n)
    (hp : p ≠ n) : PcbLives (k.pcb p) (k'.pcb p) := by
  obtain ⟨arg, eip, hpcb⟩ := h.pcb
  rw [hpcb, Function.update_of_ne hp]
  exact pcbLives_saveFrame k _ fr p

theorem Entered.newIn {k k' : Kernel} {fr : Frame} {n : Slot} (h : Entered k fr k' n) :
    NewIn n (k'.pcb n) := by
  obtain ⟨arg, eip, hpcb⟩ := h.pcb
  rw [hpcb, Function.update_self]
  exact ⟨_, _, _, _, rfl⟩

/-- A new process is made in a slot that was free. -/
theorem Entered.pcb_cases {k k' : Kernel} {fr : Frame} {n : Slot} (h : Entered k fr k' n)
    (p : Slot) : PcbLives (k.pcb p) (k'.pcb p) ∨
      (k.activeProcesses p ≠ 1 ∧ NewIn p (k'.pcb p)) := by
  by_cases hp : p = n
  · rw [hp]
    exact Or.inr ⟨firstFree_eq_some h.first, h.newIn⟩
  · exact Or.inl (h.pcbLives hp)

theorem pcbLives_popped (k : Kernel) (p q : Slot) :
    PcbLives (k.pcb q) ((k.popped p).pcb q) := by
  by_cases hq : q = p
  · rw [hq, popped_pcb_self]
    exact .of_eq rfl rfl rfl
  · rw [popped_pcb_ne _ hq]
    exact .refl _

/-- A process number that is free after `p` has ended was free before, or is that of `p`. -/
theorem popped_free {k : Kernel} {p q : Slot} (hid : (k.pcb p).processId = p)
    (h : (k.popped p).activeProcesses q ≠ 1) : q = p ∨ k.activeProcesses q ≠ 1 := by
  by_cases hq : q = p
  · exact Or.inl hq
  · refine Or.inr ?_
    have hactive : (k.popped p).activeProcesses = Function.update k.activeProcesses p 0 := by
      show Function.update k.activeProcesses (k.pcb p).processId 0 = _
      rw [hid]
    rwa [hactive, Function.update_of_ne hq] at h

theorem sysHalt_pcb {fs : FileSys} {fr : Frame} {status : UInt8} {k k' : Kernel} {S : Stacks}
    {r : HaltResult} (hS : Tree k S) (h : k.sysHalt fs fr status = some (r, k')) (q : Slot) :
    PcbLives (k.pcb q) (k'.pcb q) ∨
      ((k.cur = some q ∨ k.activeProcesses q ≠ 1) ∧ NewIn q (k'.pcb q)) := by
  obtain ⟨p, hp, ⟨_, _, hresumed⟩ | ⟨_, n, hentered⟩⟩ := sysHalt_spec h
  · rw [hresumed.pcb]
    exact Or.inl (pcbLives_popped k p q)
  · rcases hentered.pcb_cases q with hlives | ⟨hfree, hnew⟩
    · exact Or.inl ((pcbLives_popped k p q).trans hlives)
    · refine Or.inr ⟨?_, hnew⟩
      rcases popped_free (hS.top_id hp) hfree with rfl | hfree
      · exact Or.inl hp
      · exact Or.inr hfree

theorem exceptionHandler_pcb {fs : FileSys} {fr : Frame} {index : Fin 20} {k k' : Kernel}
    {S : Stacks} {r : HaltResult} (hS : Tree k S)
    (h : k.exceptionHandler fs fr index = some (r, k')) (q : Slot) :
    PcbLives (k.pcb q) (k'.pcb q) ∨
      ((k.cur = some q ∨ k.activeProcesses q ≠ 1) ∧ NewIn q (k'.pcb q)) := by
  rw [exceptionHandler_eq] at h
  have hpcb := sysHalt_pcb ((still_raised k index).quiet.tree hS) h q
  rw [raised_cur] at hpcb
  simpa only [raised] using hpcb

theorem scheduled_pcbLives (k : Kernel) (fr : Frame) (p : Slot) :
    PcbLives (k.pcb p) ((k.scheduled fr).pcb p) := pcbLives_saveFrame k k.processTerminal fr p

theorem scheduled_active (k : Kernel) (fr : Frame) :
    (k.scheduled fr).activeProcesses = k.activeProcesses := by
  have hs := saveFrame_eq k k.processTerminal fr
  unfold scheduled nextTerminal
  rw [hs]

/-- **What an event leaves of a PCB.** The process in slot `q` lives on, or the slot is given
to a new process: it was free, or the event ended its process. -/
theorem step_pcb {fs : FileSys} {k k' : Kernel} {S : Stacks} {e : Event} (hS : Tree k S)
    (h : step fs k e = some k') (q : Slot) :
    PcbLives (k.pcb q) (k'.pcb q) ∨
      (((k.cur = some q ∧ e.Ends fs k) ∨ k.activeProcesses q ≠ 1) ∧ NewIn q (k'.pcb q)) := by
  by_cases he : e.KeepsProcesses
  · exact Or.inl ((step_callEffect he h).pcbLives q)
  · have hends : ∀ {m : Kernel}, e.Ends fs k → m.cur = k.cur →
        (m.activeProcesses q ≠ 1 → k.activeProcesses q ≠ 1) →
        PcbLives (m.pcb q) (k'.pcb q) ∨
          ((m.cur = some q ∨ m.activeProcesses q ≠ 1) ∧ NewIn q (k'.pcb q)) →
        PcbLives (m.pcb q) (k'.pcb q) ∨
          (((k.cur = some q ∧ e.Ends fs k) ∨ k.activeProcesses q ≠ 1) ∧ NewIn q (k'.pcb q)) := by
      intro m hend hcur hactive hm
      rw [hcur] at hm
      rcases hm with hlives | ⟨hrun | hfree, hnew⟩
      · exact Or.inl hlives
      · exact Or.inr ⟨Or.inl ⟨hrun, hend⟩, hnew⟩
      · exact Or.inr ⟨Or.inr (hactive hfree), hnew⟩
    cases e with
    | execute fr command =>
        obtain ⟨⟨r, k₁⟩, hr, rfl⟩ := Option.map_eq_some_iff.mp h
        rcases executeCall_spec hr with ⟨hexec, hne⟩ | ⟨rfl, k₂, x, hexec, hexc⟩
        · have hspec := sysExecute_spec hexec
          cases r with
          | ret v => exact Or.inl (hspec.2.pcbLives q)
          | enter eip image =>
              obtain ⟨n, hn⟩ := hspec
              rcases hn.pcb_cases q with hlives | ⟨hfree, hnew⟩
              · exact Or.inl hlives
              · exact Or.inr ⟨Or.inr hfree, hnew⟩
          | fault => exact absurd rfl hne
        · obtain ⟨n, hn⟩ := sysExecute_spec hexec
          have hcur : k₂.cur = k.cur := by
            unfold cur
            rw [hn.cur, hn.process]
          obtain ⟨S₂, hS₂⟩ := hn.trace.tree ⟨S, hS⟩
          have hactive : k₂.activeProcesses q ≠ 1 → k.activeProcesses q ≠ 1 := by
            intro hq
            rw [hn.active] at hq
            by_cases hqn : q = n
            · rw [hqn, Function.update_self] at hq
              exact absurd rfl hq
            · rwa [Function.update_of_ne hqn] at hq
          have hfaults : (Event.execute fr command).Ends fs k :=
            Or.inr (Or.inr ⟨fr, command, k₂, rfl, hexec⟩)
          rcases hends hfaults hcur hactive (exceptionHandler_pcb hS₂ hexc q) with hlives | hnew
          · exact Or.inl ((hn.pcbLives q).trans hlives)
          · exact Or.inr hnew
    | halt fr status =>
        obtain ⟨⟨r, k₁⟩, hr, rfl⟩ := Option.map_eq_some_iff.mp h
        exact hends (Or.inl ⟨fr, status, rfl⟩) rfl id (sysHalt_pcb hS hr q)
    | exception fr index =>
        obtain ⟨⟨r, k₁⟩, hr, rfl⟩ := Option.map_eq_some_iff.mp h
        exact hends (Or.inr (Or.inl ⟨fr, index, rfl⟩)) rfl id (exceptionHandler_pcb hS hr q)
    | pit fr =>
        have hsched : k.scheduling fs fr = some k' := h
        have hsaved := scheduled_pcbLives k fr q
        rcases scheduling_spec hsched with ⟨_, rfl⟩ | ⟨p, _, hsw⟩ | ⟨_, hret | ⟨n, hent⟩⟩
        · exact Or.inl (.refl _)
        · rw [hsw.pcb]
          exact Or.inl hsaved
        · exact Or.inl (hsaved.trans (hret.pcbLives q))
        · rcases hent.pcb_cases q with hlives | ⟨hfree, hnew⟩
          · exact Or.inl (hsaved.trans hlives)
          · rw [scheduled_active] at hfree
            exact Or.inr ⟨Or.inr hfree, hnew⟩
    | rtc =>
        cases h
        exact Or.inl (pcbLives_rtcInterrupt k q)
    | _ => exact absurd trivial he

end Kernel

end Ext2Kernel
