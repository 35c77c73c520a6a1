import Ext2Kernel.Process.CallEffects
import Ext2Kernel.Process.DescriptorCalls

set_option autoImplicit false

/-! # The virtual RTC

Every process has a divider and a counter of its own. `rtc_interrupt` counts down for the
current process of each terminal, scheduled or not; a read reloads the counter and waits until
it is 0. Over every run the counters stay below their dividers, and a read waits for exactly as
many interrupts as its divider says (`rtc_counts_exactly`).
-/

namespace Ext2Kernel

open ByteMem

namespace Kernel

/-! ## The fields in every reachable state -/

theorem NewIn.rtcOk {p : Slot} {b : Pcb} (h : NewIn p b) : b.RtcOk := by
  obtain ⟨old, arg, parent, eip, rfl⟩ := h
  exact ⟨Or.inl rfl, Nat.le_refl 0⟩

theorem step_rtcOk {fs : FileSys} {k k' : Kernel} {S : Stacks} {e : Event} (hS : Tree k S)
    (hk : ∀ p, (k.pcb p).RtcOk) (h : step fs k e = some k') : ∀ p, (k'.pcb p).RtcOk := by
  intro p
  rcases step_pcb hS h p with hlives | ⟨_, hnew⟩
  · exact hlives.rtc (hk p)
  · exact hnew.rtcOk

theorem Reachable.rtcOk {fs : FileSys} {k : Kernel} (h : Reachable fs k) :
    ∀ p, (k.pcb p).RtcOk := by
  obtain ⟨m, hm⟩ := h
  have hboth : (∃ S, Tree k S) ∧ ∀ p, (k.pcb p).RtcOk := by
    refine hm.invariant (P := fun k => (∃ S, Tree k S) ∧ ∀ p, (k.pcb p).RtcOk) ?_
      ⟨⟨_, boot_tree m⟩, fun _ => ⟨Or.inl rfl, Nat.le_refl 0⟩⟩
    rintro k e k' ⟨⟨S, hS⟩, hk⟩ hstep
    obtain ⟨as, htrace, _⟩ := step_trace hstep
    exact ⟨htrace.tree ⟨S, hS⟩, step_rtcOk hS hk hstep⟩
  exact hboth.2

/-! ## One process -/

/-- The RTC fields of process `p`. -/
def rtcFields (k : Kernel) (p : Slot) : Nat × Nat :=
  ((k.pcb p).rtcInterruptDivider, (k.pcb p).rtcCounter)

theorem rtcFields_congr {k k' : Kernel} {p : Slot} (h : k'.pcb p = k.pcb p) :
    k'.rtcFields p = k.rtcFields p := by
  unfold rtcFields
  rw [h]

theorem rtcFields_saveFrame (k : Kernel) (t : Terminal) (fr : Frame) (p : Slot) :
    (k.saveFrame t fr).rtcFields p = k.rtcFields p := by
  unfold saveFrame
  split
  · rename_i q hq
    unfold rtcFields
    by_cases hp : p = q
    · rw [hp, modifyPcb_self]
    · rw [modifyPcb_ne _ _ hp]
  · rfl

/-- An interrupt counts once for the current process of a terminal: it is current on no
other. -/
theorem rtcFields_rtcInterrupt {k : Kernel} {S : Stacks} (hS : Tree k S) {t : Terminal} {p : Slot}
    (hp : k.curPcbPtr t = some p) :
    k.rtcInterrupt.rtcFields p
      = ((k.pcb p).rtcInterruptDivider, (k.pcb p).rtcCounter - 1) := by
  have honly : ∀ u, k.curPcbPtr u = some p ↔ u = t := fun u =>
    ⟨fun hu => hS.separate u t p (hS.top_mem hu) (hS.top_mem hp), fun hu => hu ▸ hp⟩
  have hpcb : k.rtcInterrupt.pcb p = { k.pcb p with rtcCounter := (k.pcb p).rtcCounter - 1 } := by
    unfold rtcInterrupt
    rw [rtcTick_pcb, rtcTick_pcb, rtcTick_pcb, (still_rtcTick _ 1).cur, (still_rtcTick _ 0).cur]
    simp only [honly]
    match t with
    | 0 => simp
    | 1 => simp
    | 2 => simp
  unfold rtcFields
  rw [hpcb]

/-! ## Waiting -/

/-- The events of a run in which `p` waits in its read: no process is executed or halted, and
`p` makes no call. -/
def AwaitsRtc (p : Slot) (k : Kernel) : Event → Prop
  | .execute _ _ | .halt _ _ | .exception _ _ => False
  | .rtc | .pit _ | .keyboard _ | .switch _ => True
  | _ => k.cur ≠ some p

/-- How many of the events are RTC interrupts. -/
def rtcInterrupts (es : List Event) : Nat :=
  es.countP fun e => match e with
    | .rtc => true
    | _ => false

/-- The current process of a terminal keeps its place and its RTC fields over a tick of the
PIT, which may start a shell on an empty terminal. -/
theorem scheduling_current {fs : FileSys} {k k' : Kernel} {S : Stacks} {fr : Frame}
    {t : Terminal} {p : Slot} (hS : Tree k S) (hp : k.curPcbPtr t = some p)
    (h : k.scheduling fs fr = some k') :
    k'.curPcbPtr t = some p ∧ k'.rtcFields p = k.rtcFields p := by
  have hcur : (k.scheduled fr).curPcbPtr = k.curPcbPtr := (still_scheduled k fr).cur
  have hfields : (k.scheduled fr).rtcFields p = k.rtcFields p := rtcFields_saveFrame k _ fr p
  rcases scheduling_spec h with ⟨_, rfl⟩ | ⟨q, _, hsw⟩ | ⟨hnone, hret | ⟨n, hent⟩⟩
  · exact ⟨hp, rfl⟩
  · exact ⟨by rw [hsw.cur, hcur, hp], (rtcFields_congr (by rw [hsw.pcb])).trans hfields⟩
  · refine ⟨by rw [hret.cur, hcur, hp], ?_⟩
    rcases hret.pcb with heq | heq
    · exact (rtcFields_congr (by rw [heq])).trans hfields
    · exact ((rtcFields_congr (by rw [heq])).trans (rtcFields_saveFrame _ _ fr p)).trans hfields
  · have hterm : t ≠ (k.scheduled fr).execTerm := by
      intro ht
      unfold execTerm at ht
      rw [if_pos hnone] at ht
      unfold Kernel.cur at hnone
      rw [← ht, hcur, hp] at hnone
      cases hnone
    have hne : p ≠ n := by
      rintro rfl
      have hfree := firstFree_eq_some hent.first
      rw [scheduled_active] at hfree
      exact hfree (hS.active t p (hS.top_mem hp))
    obtain ⟨arg, eip, hpcb⟩ := hent.pcb
    refine ⟨by rw [hent.cur, Function.update_of_ne hterm, hcur, hp], ?_⟩
    have hsame : k'.pcb p = ((k.scheduled fr).saveFrame (k.scheduled fr).execTerm fr).pcb p := by
      rw [hpcb, Function.update_of_ne hne]
    exact ((rtcFields_congr hsame).trans (rtcFields_saveFrame _ _ fr p)).trans hfields

/-- One event of the wait: the process stays current on its terminal, and its counter goes
down by one exactly if the event is an RTC interrupt. -/
theorem step_awaits {fs : FileSys} {k k' : Kernel} {S : Stacks} {e : Event} {t : Terminal}
    {p : Slot} (hS : Tree k S) (hp : k.curPcbPtr t = some p) (he : AwaitsRtc p k e)
    (h : step fs k e = some k') :
    k'.curPcbPtr t = some p ∧ k'.rtcFields p
      = ((k.pcb p).rtcInterruptDivider, (k.pcb p).rtcCounter - rtcInterrupts [e]) := by
  -- The events that keep the processes change the PCB of the running one only.
  have hcall : e.KeepsProcesses → rtcInterrupts [e] = 0 → k'.pcb p = k.pcb p →
      k'.curPcbPtr t = some p ∧ k'.rtcFields p
        = ((k.pcb p).rtcInterruptDivider, (k.pcb p).rtcCounter - rtcInterrupts [e]) := by
    intro hkeeps hcount hpcb
    rw [hcount]
    exact ⟨by rw [(step_callEffect hkeeps h).cur, hp], rtcFields_congr hpcb⟩
  have hother : e.KeepsProcesses → k.cur ≠ some p → k'.pcb p = k.pcb p :=
    fun hkeeps hne => (step_callEffect hkeeps h).pcb_ne hne
  cases e with
  | execute fr command => exact he.elim
  | halt fr status => exact he.elim
  | exception fr index => exact he.elim
  | pit fr => exact scheduling_current hS hp h
  | rtc =>
      cases h
      exact ⟨by rw [← hp]; exact congrFun ((still_rtcTick _ 2).cur.trans
        ((still_rtcTick _ 1).cur.trans (still_rtcTick k 0).cur)) t, rtcFields_rtcInterrupt hS hp⟩
  | keyboard scancode =>
      obtain ⟨c, _, rfl⟩ := Option.map_eq_some_iff.mp h
      exact hcall trivial rfl rfl
  | switch n =>
      cases h
      exact hcall trivial rfl rfl
  | _ => exact hcall trivial rfl (hother trivial he)

/-- The counter over a whole wait. -/
theorem run_awaits {fs : FileSys} {k k' : Kernel} {es : List Event} {t : Terminal} {p : Slot}
    (hS : ∃ S, Tree k S) (hp : k.curPcbPtr t = some p)
    (hg : StepSystem.Guarded (step fs) (AwaitsRtc p) k es)
    (hr : StepSystem.run (step fs) k es = some k') :
    k'.rtcFields p = ((k.pcb p).rtcInterruptDivider, (k.pcb p).rtcCounter - rtcInterrupts es) := by
  induction es generalizing k with
  | nil =>
      cases hr
      rfl
  | cons e es ih =>
      obtain ⟨m, hm, hrest⟩ := StepSystem.run_cons_eq_some.mp hr
      obtain ⟨S, htree⟩ := hS
      obtain ⟨hcur, hfields⟩ := step_awaits htree hp hg.1 hm
      obtain ⟨as, htrace, _⟩ := step_trace hm
      rw [ih (htrace.tree ⟨S, htree⟩) hcur (hg.2 m hm) hrest]
      have hdiv : (m.pcb p).rtcInterruptDivider = (k.pcb p).rtcInterruptDivider :=
        congrArg Prod.fst hfields
      have hcount : (m.pcb p).rtcCounter = (k.pcb p).rtcCounter - rtcInterrupts [e] :=
        congrArg Prod.snd hfields
      have hsum : rtcInterrupts (e :: es) = rtcInterrupts [e] + rtcInterrupts es :=
        @List.countP_append _ _ [e] es
      rw [hdiv, hcount, hsum, Nat.sub_sub]

/-! ## Reading -/

/-- A read that waits for the RTC has reloaded the counter. -/
theorem sysRead_waitRtc {fs : FileSys} {k k' : Kernel} {stack : Mem} {fd nbytes : Int}
    {bufNull : Bool} (h : k.sysRead fs stack fd bufNull nbytes = some (.waitRtc, k')) :
    k.reloadCounter = some k' := by
  unfold sysRead at h
  split at h
  · cases h
  · obtain ⟨p, hp, h⟩ := Option.bind_eq_some_iff.mp h
    dsimp only at h
    split at h
    · cases h
    · obtain ⟨ops, _, h⟩ := Option.bind_eq_some_iff.mp h
      cases ops with
      | stdIn =>
          obtain ⟨c, _, heq⟩ := Option.map_eq_some_iff.mp h
          cases heq
      | stdOut => cases h
      | rtc =>
          obtain ⟨k₁, hk₁, heq⟩ := Option.map_eq_some_iff.mp h
          cases heq
          exact hk₁
      | file => cases h
      | dir => cases h

/-- The wait loop of the running process can be left when its counter is 0. -/
theorem readRtcFinish_defined_iff {k : Kernel} {p : Slot} (hp : k.cur = some p) :
    (∃ k', k.readRtcFinish = some k') ↔ (k.pcb p).rtcCounter = 0 := by
  have hreload : k.reloadCounter
      = some (k.modifyPcb p fun b => { b with rtcCounter := b.rtcInterruptDivider }) := by
    unfold reloadCounter Kernel.modifyCur
    rw [hp]
    rfl
  unfold readRtcFinish
  rw [hp, hreload]
  dsimp only
  constructor
  · rintro ⟨k', hk'⟩
    by_contra hne
    rw [if_neg hne] at hk'
    cases hk'
  · intro hzero
    exact ⟨_, if_pos hzero⟩

/-- **The virtual RTC counts exactly and per process.** In every reachable state the RTC
fields of every PCB are in order. When process `p` starts a read with divider `d`, then over
any events in which no process is executed or halted and `p` waits, its counter is `d` less the
number of RTC interrupts, and from the `d`-th one on the wait loop can be left. -/
theorem rtc_counts_exactly {fs : FileSys} {k : Kernel} (hk : Reachable fs k) :
    (∀ p, (k.pcb p).RtcOk) ∧
    ∀ (p : Slot) (stack : Mem) (fd : Int) (bufNull : Bool) (nbytes : Int) (k₁ : Kernel),
      k.cur = some p → k.sysRead fs stack fd bufNull nbytes = some (.waitRtc, k₁) →
      ∀ (es : List Event) (k₂ : Kernel),
        StepSystem.Guarded (step fs) (AwaitsRtc p) k₁ es →
        StepSystem.run (step fs) k₁ es = some k₂ →
        let d := (k.pcb p).rtcInterruptDivider
        (k₂.pcb p).rtcCounter = d - min d (rtcInterrupts es) ∧
        (k₂.cur = some p → ((∃ k₃, k₂.readRtcFinish = some k₃) ↔ d ≤ rtcInterrupts es)) := by
  refine ⟨hk.rtcOk, ?_⟩
  intro p stack fd bufNull nbytes k₁ hp hread es k₂ hg hr
  obtain ⟨S, hS⟩ := hk.tree
  obtain ⟨q, hq, rfl⟩ := Option.map_eq_some_iff.mp (sysRead_waitRtc hread)
  obtain rfl : p = q := Option.some.inj (hp.symm.trans hq)
  have hpcb : (k.modifyPcb p fun b => { b with rtcCounter := b.rtcInterruptDivider }).pcb p
      = { k.pcb p with rtcCounter := (k.pcb p).rtcInterruptDivider } := modifyPcb_self _ _ _
  have hS₁ : ∃ S, Tree (k.modifyPcb p fun b => { b with rtcCounter := b.rtcInterruptDivider }) S :=
    ⟨S, (still_reloadCounter (sysRead_waitRtc hread)).quiet.tree hS⟩
  have hfields := run_awaits hS₁ (t := k.processTerminal) hp hg hr
  rw [hpcb] at hfields
  have hcount : (k₂.pcb p).rtcCounter = (k.pcb p).rtcInterruptDivider - rtcInterrupts es :=
    congrArg Prod.snd hfields
  refine ⟨by omega, fun hcur => ?_⟩
  rw [readRtcFinish_defined_iff hcur, hcount]
  omega

/-- On the small image: the first shell opens the RTC, starts a read and sees two
interrupts. -/
theorem rtc_counts_exactly_sample : ∃ (k k₁ k₂ : Kernel) (i : Fin 8),
    Reachable sampleImage k ∧ k.cur = some 0 ∧
    k.sysRead sampleImage (fun _ => 0) i.val false 4 = some (.waitRtc, k₁) ∧
    StepSystem.run (step sampleImage) k₁ [.rtc, .switch 1, .rtc] = some k₂ ∧
    (∀ p, (k.pcb p).RtcOk) ∧
    (k₂.pcb 0).rtcCounter
      = (k.pcb 0).rtcInterruptDivider - min (k.pcb 0).rtcInterruptDivider 2 := by
  obtain ⟨d, hd⟩ : ∃ d, readDentryByName sampleImage (some (ascii "rtc")) = some d ∧
      openedDesc d = some ⟨some .rtc, 0, 0, 1⟩ :=
    ⟨⟨ascii "rtc" ++ List.replicate 29 0, RTC_TYPE, 0⟩, by decide +kernel, rfl⟩
  obtain ⟨_, k, i, _, _, _, hreach, hcur, hdesc⟩ := sampleImage_open hd.1 hd.2
  have hfd : OpenFd (k.pcb 0) (i.val : Int) := by
    refine ⟨by omega, by omega, ?_⟩
    rw [fdIdx_natCast, hdesc]
    exact Nat.one_ne_zero
  obtain ⟨k₁, hk₁⟩ : ∃ k₁, k.reloadCounter = some k₁ := by
    unfold reloadCounter Kernel.modifyCur
    rw [hcur]
    exact ⟨_, rfl⟩
  have hread : k.sysRead sampleImage (fun _ => 0) i.val false 4 = some (.waitRtc, k₁) := by
    rw [sysRead_open sampleImage _ hcur hfd (by decide), fdIdx_natCast, hdesc]
    show k.reloadCounter.map _ = _
    rw [hk₁]
    rfl
  have hcounts := (rtc_counts_exactly hreach).2 0 _ _ _ _ k₁ hcur hread [.rtc, .switch 1, .rtc] _
    ⟨trivial, fun _ _ => ⟨trivial, fun _ _ => ⟨trivial, fun _ _ => trivial⟩⟩⟩ rfl
  exact ⟨k, k₁, _, i, hreach, hcur, hread, rfl, (rtc_counts_exactly hreach).1, hcounts.1⟩

end Kernel

end Ext2Kernel
