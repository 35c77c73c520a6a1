import Ext2Kernel.Process.ScreenRuns

set_option autoImplicit false

/-! # The video page

`page_table_vidmap[0]` is one entry for all processes. `sys_vidmap` and `scheduling` set it for
the terminal of the running process, `sys_halt` always to the screen, and a terminal switch
leaves it alone. The entry follows the running process exactly in the runs without two kinds
of steps: a switch that shows or hides the terminal of a running process with a video page,
and an end of a process in the background whose parent has one (`VideoSafe`).
-/

namespace Ext2Kernel

open ByteMem

namespace Kernel

/-- The address of the screen of the running process. -/
def screenAddress (k : Kernel) : Nat :=
  if k.processTerminal = k.visibleTerminal then VIDEO else videoBuf k.processTerminal

/-- The running process has a video page. -/
def Shows (k : Kernel) : Prop := ∃ p, k.cur = some p ∧ (k.pcb p).vidmapTerminal = 1

/-- The entry is that of the terminal of the running process, if that has a video page. -/
def Mirrors (k : Kernel) : Prop :=
  k.Shows → (k.pageTableVidmap 0).base = .phys k.screenAddress

/-- The entry follows the running process, and what that draws stays on its own screen. -/
structure VideoFollows (fs : FileSys) (k : Kernel) : Prop where
  mirrors : k.Mirrors
  draws : k.Shows → ∀ offset byte k', step fs k (.draw offset byte) = some k' →
    ∀ t, t ≠ k.processTerminal → ∀ i < PAGE_4KB,
      k'.console.video (k.console.screenBase t + i) = k.console.video (k.console.screenBase t + i)

/-! ## Drawing -/

/-- The screen of the running process lies where the console keeps it. -/
theorem screenAddress_eq (k : Kernel) :
    k.screenAddress = VIDEO + k.console.screenBase k.processTerminal := by
  unfold screenAddress Console.screenBase videoBuf
  by_cases hv : k.processTerminal = k.visibleTerminal
  · rw [if_pos hv, if_pos hv.symm, Nat.add_zero]
  · rw [if_neg hv, if_neg (Ne.symm hv)]

theorem Mirrors.follows {fs : FileSys} {k : Kernel} (h : k.Mirrors) : VideoFollows fs k where
  mirrors := h
  draws hshows offset byte k' hdraw t ht i hi := by
    have hbase := h hshows
    have hstep : k.drawByte offset byte = some k' := hdraw
    unfold drawByte at hstep
    rw [hbase] at hstep
    dsimp only at hstep
    split at hstep
    · rename_i hin
      cases hstep
      have hoff : k.screenAddress - VIDEO = k.console.screenBase k.processTerminal := by
        rw [screenAddress_eq]
        omega
      have hdisjoint := k.console.screenBase_disjoint ht
      rw [hoff]
      exact Function.update_of_ne (by omega) ..
    · cases hstep

/-! ## Steps that leave the mapping alone -/

/-- The same process runs on, with its video flag and the entry unchanged. -/
structure VideoStill (k k' : Kernel) : Prop where
  table : k'.pageTableVidmap = k.pageTableVidmap
  process : k'.processTerminal = k.processTerminal
  cur : k'.cur = k.cur
  flag : ∀ p, k.cur = some p → (k'.pcb p).vidmapTerminal = (k.pcb p).vidmapTerminal

theorem VideoStill.refl (k : Kernel) : VideoStill k k := ⟨rfl, rfl, rfl, fun _ _ => rfl⟩

theorem VideoStill.trans {k m k' : Kernel} (h : VideoStill k m) (h' : VideoStill m k') :
    VideoStill k k' :=
  ⟨h'.table.trans h.table, h'.process.trans h.process, h'.cur.trans h.cur,
    fun p hp => (h'.flag p (h.cur.trans hp)).trans (h.flag p hp)⟩

theorem VideoStill.shows {k k' : Kernel} (h : VideoStill k k') : k'.Shows ↔ k.Shows := by
  unfold Shows
  rw [h.cur]
  refine exists_congr fun p => and_congr_right fun hp => ?_
  rw [h.flag p hp]

/-- Such a step keeps the property exactly if it does not move the screen of a running process
with a video page. -/
theorem VideoStill.mirrors_iff {k k' : Kernel} (h : VideoStill k k') (hk : k.Mirrors) :
    k'.Mirrors ↔ (k.Shows → k'.screenAddress = k.screenAddress) := by
  unfold Mirrors at *
  rw [h.shows, h.table]
  refine forall_congr' fun hshows => ?_
  rw [hk hshows]
  exact ⟨fun heq => (PageBase.phys.inj heq).symm, fun heq => by rw [heq]⟩

/-- The screen of the running process moves when its terminal is shown or hidden. -/
theorem screenAddress_eq_iff {k k' : Kernel} (hp : k'.processTerminal = k.processTerminal) :
    k'.screenAddress = k.screenAddress ↔
      (k.processTerminal = k'.visibleTerminal ↔ k.processTerminal = k.visibleTerminal) := by
  have hne : VIDEO ≠ videoBuf k.processTerminal := by
    unfold videoBuf PAGE_4KB
    omega
  unfold screenAddress
  rw [hp]
  by_cases h' : k.processTerminal = k'.visibleTerminal
  · rw [if_pos h']
    by_cases h : k.processTerminal = k.visibleTerminal
    · rw [if_pos h]
      exact iff_of_true rfl (iff_of_true h' h)
    · rw [if_neg h]
      exact iff_of_false hne fun hiff => h (hiff.mp h')
  · rw [if_neg h']
    by_cases h : k.processTerminal = k.visibleTerminal
    · rw [if_pos h]
      exact iff_of_false hne.symm fun hiff => h' (hiff.mpr h)
    · rw [if_neg h]
      exact iff_of_true rfl (iff_of_false h' h)

/-- A step that leaves the visible terminal alone as well. -/
theorem VideoStill.mirrors {k k' : Kernel} (h : VideoStill k k')
    (hv : k'.visibleTerminal = k.visibleTerminal) (hk : k.Mirrors) : k'.Mirrors := by
  rw [h.mirrors_iff hk, screenAddress_eq_iff h.process, hv]
  exact fun _ => Iff.rfl

theorem videoStill_modifyCur {k k' : Kernel} {f : Pcb → Pcb} (h : k.modifyCur f = some k')
    (hf : ∀ b, (f b).vidmapTerminal = b.vidmapTerminal) : VideoStill k k' := by
  obtain ⟨q, _, rfl⟩ := Option.map_eq_some_iff.mp h
  refine ⟨rfl, rfl, rfl, fun p _ => ?_⟩
  by_cases hpq : p = q
  · subst hpq
    rw [modifyPcb_self]
    exact hf _
  · rw [modifyPcb_ne _ _ hpq]

theorem videoStill_sysWriteRtc {k k' : Kernel} {buf : Option Mem} {nbytes r : Int}
    (h : k.sysWriteRtc buf nbytes = some (r, k')) : VideoStill k k' := by
  rcases sysWriteRtc_cases h with ⟨_, rfl⟩ | ⟨_, n, _, hn⟩
  · exact .refl _
  · exact videoStill_modifyCur hn fun _ => rfl

theorem videoStill_sysOpen {fs : FileSys} {k k' : Kernel} {filename : Option (List UInt8)}
    {r : Int} (h : k.sysOpen fs filename = some (r, k')) : VideoStill k k' := by
  unfold sysOpen at h
  obtain ⟨p, _, h⟩ := Option.bind_eq_some_iff.mp h
  split at h
  · cases h; exact .refl k
  · split at h
    · cases h; exact .refl k
    · split at h
      · cases h; exact .refl k
      · rename_i x hx
        obtain ⟨k₁, rfl, heq⟩ := Option.map_eq_some_iff.mp h
        cases heq
        unfold openType at hx
        split at hx
        · obtain ⟨k₂, hk₂, hinst⟩ := Option.bind_eq_some_iff.mp (Option.some.inj hx)
          obtain ⟨⟨r, k₃⟩, hw, rfl⟩ := Option.map_eq_some_iff.mp hk₂
          exact (videoStill_sysWriteRtc hw).trans (videoStill_modifyCur hinst fun _ => rfl)
        · split at hx
          · exact videoStill_modifyCur (Option.some.inj hx) fun _ => rfl
          · split at hx
            · exact videoStill_modifyCur (Option.some.inj hx) fun _ => rfl
            · cases hx

/-- A change of one PCB that leaves its video flag alone. -/
theorem videoStill_modifyPcb (k : Kernel) (q : Slot) {f : Pcb → Pcb}
    (hf : ∀ b, (f b).vidmapTerminal = b.vidmapTerminal) : VideoStill k (k.modifyPcb q f) := by
  refine ⟨rfl, rfl, rfl, fun p _ => ?_⟩
  by_cases hpq : p = q
  · subst hpq
    rw [modifyPcb_self]
    exact hf _
  · rw [modifyPcb_ne _ _ hpq]

theorem videoStill_sysClose {k k' : Kernel} {fd r : Int} (h : k.sysClose fd = some (r, k')) :
    VideoStill k k' := by
  unfold sysClose at h
  split at h
  · cases h; exact .refl k
  · obtain ⟨p, _, h⟩ := Option.bind_eq_some_iff.mp h
    dsimp only at h
    split at h
    · cases h; exact .refl k
    · obtain ⟨ops, _, heq⟩ := Option.map_eq_some_iff.mp h
      cases heq
      exact videoStill_modifyPcb k p fun _ => rfl

/-- A change of the console that leaves the scheduled terminal alone. -/
theorem videoStill_console (k : Kernel) {c : Console}
    (hp : c.processTerminal = k.console.processTerminal) :
    VideoStill k { k with console := c } := by
  refine ⟨rfl, hp, ?_, fun _ _ => rfl⟩
  show k.curPcbPtr c.processTerminal = k.curPcbPtr k.console.processTerminal
  rw [hp]

theorem readTerminalStart_terminals {c c' : Console} (h : c.readTerminalStart = some c') :
    c'.processTerminal = c.processTerminal ∧ c'.visibleTerminal = c.visibleTerminal := by
  rcases Console.readTerminalStart_cases h with ⟨_, rfl⟩ | ⟨_, _, rfl⟩
  · exact ⟨rfl, rfl⟩
  · exact ⟨(Console.drawn_putcs _ _).process, (Console.drawn_putcs _ _).visible⟩

theorem sysRead_still {fs : FileSys} {k k' : Kernel} {stack : Mem} {fd nbytes : Int}
    {bufNull : Bool} {r : ReadOutcome}
    (h : k.sysRead fs stack fd bufNull nbytes = some (r, k')) :
    VideoStill k k' ∧ k'.visibleTerminal = k.visibleTerminal := by
  unfold sysRead at h
  split at h
  · cases h; exact ⟨.refl k, rfl⟩
  · obtain ⟨p, _, h⟩ := Option.bind_eq_some_iff.mp h
    dsimp only at h
    split at h
    · cases h; exact ⟨.refl k, rfl⟩
    · obtain ⟨ops, _, h⟩ := Option.bind_eq_some_iff.mp h
      cases ops with
      | stdIn =>
          obtain ⟨c, hc, heq⟩ := Option.map_eq_some_iff.mp h
          cases heq
          obtain ⟨hp, hv⟩ := readTerminalStart_terminals hc
          exact ⟨videoStill_console k hp, hv⟩
      | stdOut => cases h; exact ⟨.refl k, rfl⟩
      | rtc =>
          obtain ⟨k₁, hk₁, heq⟩ := Option.map_eq_some_iff.mp h
          cases heq
          have hv : k'.console = k.console := modifyCur_console hk₁
          exact ⟨videoStill_modifyCur hk₁ fun _ => rfl, by unfold visibleTerminal; rw [hv]⟩
      | file =>
          cases h
          unfold sysReadFile
          dsimp only
          split
          · refine ⟨?_, rfl⟩
            dsimp only
            refine videoStill_modifyPcb k p ?_
            exact fun _ => rfl
          · exact ⟨.refl k, rfl⟩
      | dir =>
          cases h
          unfold sysReadDirectory
          dsimp only
          split <;> exact ⟨⟨rfl, rfl, rfl, fun _ _ => rfl⟩, rfl⟩

theorem sysWriteTerminal_terminals (c : Console) (buf : Mem) (nbytes : Int) :
    (c.sysWriteTerminal buf nbytes).1.processTerminal = c.processTerminal ∧
      (c.sysWriteTerminal buf nbytes).1.visibleTerminal = c.visibleTerminal := by
  have hputcs : ∀ l, (c.putcs l).processTerminal = c.processTerminal ∧
      (c.putcs l).visibleTerminal = c.visibleTerminal := fun l =>
    ⟨(Console.drawn_putcs c l).process, (Console.drawn_putcs c l).visible⟩
  unfold Console.sysWriteTerminal
  split
  · exact ⟨rfl, rfl⟩
  · split
    · exact ⟨rfl, rfl⟩
    · split <;> dsimp only <;> exact hputcs _

theorem sysWrite_still {k k' : Kernel} {fd nbytes r : Int} {buf : Option Mem}
    (h : k.sysWrite fd buf nbytes = some (r, k')) :
    VideoStill k k' ∧ k'.visibleTerminal = k.visibleTerminal := by
  unfold sysWrite at h
  split at h
  · cases h; exact ⟨.refl k, rfl⟩
  · split at h
    · cases h; exact ⟨.refl k, rfl⟩
    · obtain ⟨p, _, h⟩ := Option.bind_eq_some_iff.mp h
      dsimp only at h
      split at h
      · cases h; exact ⟨.refl k, rfl⟩
      · obtain ⟨ops, _, h⟩ := Option.bind_eq_some_iff.mp h
        cases ops with
        | rtc =>
            unfold writeOp at h
            have hv := sysWriteRtc_console h
            exact ⟨videoStill_sysWriteRtc h, by unfold visibleTerminal; rw [hv]⟩
        | file => cases h; exact ⟨.refl k, rfl⟩
        | dir => cases h; exact ⟨.refl k, rfl⟩
        | stdIn => cases h; exact ⟨.refl k, rfl⟩
        | stdOut =>
            cases h
            obtain ⟨hp, hv⟩ := sysWriteTerminal_terminals k.console _ nbytes
            exact ⟨videoStill_console k hp, hv⟩

theorem videoStill_rtcTick (k : Kernel) (t : Terminal) : VideoStill k (k.rtcTick t) := by
  unfold rtcTick
  split
  · split
    · exact videoStill_modifyPcb k _ fun _ => rfl
    · exact .refl k
  · exact .refl k

theorem videoStill_rtcInterrupt (k : Kernel) : VideoStill k k.rtcInterrupt :=
  ((videoStill_rtcTick k 0).trans (videoStill_rtcTick _ 1)).trans (videoStill_rtcTick _ 2)

/-! ## Processes that begin and end -/

theorem saveFrame_vidmapTerminal (k : Kernel) (t : Terminal) (fr : Frame) (p : Slot) :
    ((k.saveFrame t fr).pcb p).vidmapTerminal = (k.pcb p).vidmapTerminal :=
  ((still_saveFrame k t fr).pcbStill p).vidmap

theorem ExecuteFrame.cur_eq {k k' : Kernel} (h : ExecuteFrame k k')
    (hc : k'.curPcbPtr k.processTerminal = k.curPcbPtr k.processTerminal) : k'.cur = k.cur := by
  unfold Kernel.cur
  rw [h.process, hc]

theorem Returned.videoStill {k k' : Kernel} {fr : Frame} (h : Returned k fr k') :
    VideoStill k k' := by
  refine ⟨h.pageTableVidmap, h.process, h.cur_eq (by rw [h.cur]), fun p _ => ?_⟩
  exact (h.still.pcbStill p).vidmap

theorem Faulted.videoStill {k k' : Kernel} {fr : Frame} {n : Slot} (h : Faulted k fr k' n) :
    VideoStill k k' := by
  refine ⟨h.pageTableVidmap, h.process, h.cur_eq (by rw [h.cur]), fun p _ => ?_⟩
  rw [h.pcb, saveFrame_vidmapTerminal]

/-- The new process has no video page; if it is not the running one, that is unchanged. -/
theorem Entered.mirrors {k k' : Kernel} {fr : Frame} {n : Slot} {S : Stacks} (hS : Sound k S)
    (h : Entered k fr k' n) (hk : k.Mirrors) : k'.Mirrors := by
  obtain ⟨arg, eip, hpcb⟩ := h.pcb
  by_cases ht : k.processTerminal = k.execTerm
  · rintro ⟨p, hp, hflag⟩
    unfold Kernel.cur at hp
    rw [h.process, h.cur, ht, Function.update_self] at hp
    cases hp
    rw [hpcb, Function.update_self] at hflag
    cases hflag
  · have hcur : k'.cur = k.cur := h.cur_eq (by rw [h.cur, Function.update_of_ne ht])
    refine VideoStill.mirrors ⟨h.pageTableVidmap, h.process, hcur, fun p hp => ?_⟩ h.visible hk
    have hne : p ≠ n := by
      rintro rfl
      exact hS.fresh (firstFree_eq_some h.first) _ (hS.top_mem hp)
    rw [hpcb, Function.update_of_ne hne, saveFrame_vidmapTerminal]

theorem Sound.parent_ne {k : Kernel} {S : Stacks} (hS : Sound k S) {t : Terminal} {p q : Slot}
    (hp : k.curPcbPtr t = some p) (hq : (k.pcb p).parentPcb = some q) : q ≠ p := by
  have hchain := hS.chains t
  rw [hp] at hchain
  have hnodup := hchain.nodup
  obtain ⟨l, hl, hrest⟩ := hchain.eq_cons
  rw [hq] at hrest
  obtain ⟨l', rfl, _⟩ := hrest.eq_cons
  rw [hl] at hnodup
  rintro rfl
  exact (List.nodup_cons.mp hnodup).1 List.mem_cons_self

/-- A parent with a video page is on the visible terminal. -/
def EndSafe (k : Kernel) : Prop :=
  ∀ p q, k.cur = some p → (k.pcb p).parentPcb = some q → (k.pcb q).vidmapTerminal = 1 →
    k.processTerminal = k.visibleTerminal

/-- `sys_halt` maps the screen, whichever terminal the parent is on. -/
theorem sysHalt_mirrors_iff {fs : FileSys} {fr : Frame} {status : UInt8} {k k' : Kernel}
    {r : HaltResult} {S : Stacks} (hS : Sound k S)
    (h : k.sysHalt fs fr status = some (r, k')) : k'.Mirrors ↔ k.EndSafe := by
  obtain ⟨p, hp, ⟨q, hq, hres⟩ | ⟨hnone, n, hent⟩⟩ := sysHalt_spec h
  · have hcur : k'.cur = some q := by
      unfold cur
      rw [hres.process, hres.cur]
      exact (popped_cur k p).trans hq
    have hflag : (k'.pcb q).vidmapTerminal = (k.pcb q).vidmapTerminal := by
      rw [hres.pcb, popped_pcb_ne k (hS.parent_ne hp hq)]
    have hbase : (k'.pageTableVidmap 0).base = .phys VIDEO := by
      rw [hres.pageTableVidmap]
      exact vidmapPagingModify_base _ VIDEO
    have hne : VIDEO ≠ videoBuf k'.processTerminal := by
      unfold videoBuf PAGE_4KB
      omega
    have hproc : k'.processTerminal = k.processTerminal := hres.process
    have hvis : k'.visibleTerminal = k.visibleTerminal := hres.visible
    unfold Mirrors Shows EndSafe
    rw [hbase]
    constructor
    · intro hm p' q' hp' hq' hvid
      obtain rfl : p = p' := Option.some.inj (hp.symm.trans hp')
      obtain rfl : q = q' := Option.some.inj (hq.symm.trans hq')
      have haddr := PageBase.phys.inj (hm ⟨q, hcur, hflag.trans hvid⟩)
      unfold screenAddress at haddr
      rw [← hproc, ← hvis]
      by_contra hv
      rw [if_neg hv] at haddr
      exact hne haddr
    · rintro hend ⟨q', hq', hvid⟩
      obtain rfl : q = q' := Option.some.inj (hcur.symm.trans hq')
      have hv := hend p q hp hq (hflag.symm.trans hvid)
      unfold screenAddress
      rw [hproc, hvis, if_pos hv]
  · refine iff_of_true ?_ ?_
    · rintro ⟨q, hq, hflag⟩
      have hterm : (k.popped p).execTerm = (k.popped p).processTerminal :=
        if_pos ((popped_cur k p).trans hnone)
      obtain ⟨arg, eip, hpcb⟩ := hent.pcb
      unfold cur at hq
      rw [hent.process, hent.cur, hterm, Function.update_self] at hq
      cases hq
      rw [hpcb, Function.update_self] at hflag
      cases hflag
    · intro p' q' hp' hq'
      obtain rfl : p = p' := Option.some.inj (hp.symm.trans hp')
      rw [hnone] at hq'
      cases hq'

theorem videoStill_raised (k : Kernel) (index : Fin 20) : VideoStill k (k.raised index) := by
  refine ⟨?_, k.raised_process index, k.raised_cur index, fun p _ => ?_⟩
  · simp only [raised]
  · rw [raised_pcb]

theorem VideoStill.endSafe {k k' : Kernel} (h : VideoStill k k')
    (hv : k'.visibleTerminal = k.visibleTerminal)
    (hlinks : ∀ p, (k'.pcb p).parentPcb = (k.pcb p).parentPcb
      ∧ (k'.pcb p).vidmapTerminal = (k.pcb p).vidmapTerminal) : k'.EndSafe ↔ k.EndSafe := by
  unfold EndSafe
  rw [h.cur, h.process, hv]
  refine forall_congr' fun p => forall_congr' fun q => ?_
  rw [(hlinks p).1, (hlinks q).2]

theorem exceptionHandler_mirrors_iff {fs : FileSys} {fr : Frame} {index : Fin 20} {k k' : Kernel}
    {r : HaltResult} {S : Stacks} (hS : Sound k S)
    (h : k.exceptionHandler fs fr index = some (r, k')) : k'.Mirrors ↔ k.EndSafe := by
  rw [exceptionHandler_eq] at h
  rw [sysHalt_mirrors_iff (Does.sound (a := .still) (still_raised k index) hS) h]
  exact (videoStill_raised k index).endSafe (k.raised_visible index) fun p => by
    rw [raised_pcb]
    exact ⟨rfl, rfl⟩

/-- The event ends the running process only if that is safe. -/
theorem executeCall_mirrors_iff {fs : FileSys} {fr : Frame} {command : Option (List UInt8)}
    {k k' : Kernel} {r : ExecResult} {S : Stacks} (hS : Sound k S) (hk : k.Mirrors)
    (h : k.executeCall fs fr command = some (r, k')) :
    k'.Mirrors ↔ ((Event.execute fr command).LoaderFaults fs k → k.EndSafe) := by
  rcases executeCall_spec h with ⟨hexec, hne⟩ | ⟨_, k₁, x, hexec, hexc⟩
  · refine iff_of_true ?_ ?_
    · have hspec := sysExecute_spec hexec
      cases r with
      | ret v => exact hspec.2.videoStill.mirrors hspec.2.visible hk
      | enter eip image =>
          obtain ⟨n, hn⟩ := hspec
          exact hn.mirrors hS hk
      | fault => exact absurd rfl hne
    · rintro ⟨fr', command', k₁, heq, hfault⟩
      cases heq
      rw [hexec] at hfault
      cases hfault
      exact absurd rfl hne
  · have hfaults : (Event.execute fr command).LoaderFaults fs k := ⟨fr, command, k₁, rfl, hexec⟩
    rw [forall_prop_of_true hfaults]
    obtain ⟨n, hn⟩ := sysExecute_spec hexec
    obtain ⟨S₁, hS₁⟩ := hn.trace.sound ⟨S, hS⟩
    rw [exceptionHandler_mirrors_iff hS₁ hexc]
    refine hn.videoStill.endSafe hn.visible fun p => ?_
    rw [hn.pcb]
    have hsave := (still_saveFrame k k.execTerm fr).pcbStill p
    exact ⟨hsave.parent, hsave.vidmap⟩

theorem scheduling_mirrors {fs : FileSys} {fr : Frame} {k k' : Kernel} (hk : k.Mirrors)
    (h : k.scheduling fs fr = some k') : k'.Mirrors := by
  rcases scheduling_spec h with ⟨_, rfl⟩ | ⟨p, hp, hsw⟩ | ⟨hnone, hret | ⟨n, hent⟩⟩
  · exact hk
  · have hcur : k'.cur = some p := by
      unfold cur processTerminal
      rw [hsw.cur, hsw.console]
      exact hp
    rintro ⟨q, hq, hflag⟩
    obtain rfl : p = q := Option.some.inj (hcur.symm.trans hq)
    rw [hsw.pcb] at hflag
    rw [hsw.vidmap hflag]
    unfold screenAddress processTerminal visibleTerminal
    rw [hsw.console]
  · rintro ⟨q, hq, _⟩
    rw [hret.videoStill.cur, hnone] at hq
    cases hq
  · rintro ⟨q, hq, hflag⟩
    have hterm : (k.scheduled fr).execTerm = (k.scheduled fr).processTerminal := if_pos hnone
    obtain ⟨arg, eip, hpcb⟩ := hent.pcb
    unfold cur at hq
    rw [hent.process, hent.cur, hterm, Function.update_self] at hq
    cases hq
    rw [hpcb, Function.update_self] at hflag
    cases hflag

theorem sysVidmap_mirrors {k k' : Kernel} {screenStart : Nat} {r : Int} (hk : k.Mirrors)
    (h : k.sysVidmap screenStart = some (r, k')) : k'.Mirrors := by
  rcases sysVidmap_cases h with ⟨_, rfl⟩ | ⟨_, p, v, hp, rfl⟩
  · exact hk
  · intro _
    exact vidmapPagingModify_base k _

/-! ## Runs -/

/-- The terminal that is visible after the event. -/
def Event.shown (c : Console) : Event → Terminal
  | .keyboard scancode => c.keyTarget scancode.toNat
  | .switch n => c.switchTarget n
  | _ => c.visibleTerminal

/-- The steps that keep the entry with the running process: a switch does not show or hide the
terminal of a running process with a video page, and a process ends in the background only if
its parent has no video page. -/
structure VideoSafe (fs : FileSys) (k : Kernel) (e : Event) : Prop where
  switch : k.Shows → (k.processTerminal = Event.shown k.console e ↔
    k.processTerminal = k.visibleTerminal)
  ends : e.Ends fs k → k.EndSafe

/-- The invariants the rest of the argument uses. -/
structure VideoContext (k : Kernel) : Prop where
  sound : ∃ S, Sound k S
  onScreen : k.console.AllOnScreen

/-- An event that ends no process and leaves the visible terminal alone. -/
theorem videoSafe_of_plain {fs : FileSys} {k : Kernel} {e : Event}
    (hshown : Event.shown k.console e = k.visibleTerminal) (hends : ¬ e.Ends fs k) :
    VideoSafe fs k e :=
  ⟨fun _ => by rw [hshown], fun h => absurd h hends⟩

/-- An event of the console: the property moves with the visible terminal. -/
theorem mirrors_iff_of_console {fs : FileSys} {k : Kernel} {e : Event} {c : Console}
    (hk : k.Mirrors) (hp : c.processTerminal = k.console.processTerminal)
    (hv : c.visibleTerminal = Event.shown k.console e) (hends : ¬ e.Ends fs k) :
    ({ k with console := c } : Kernel).Mirrors ↔ VideoSafe fs k e := by
  have hstill := videoStill_console k hp
  rw [hstill.mirrors_iff hk]
  have haddr := @screenAddress_eq_iff k { k with console := c } hp
  rw [haddr]
  have hvis : ({ k with console := c } : Kernel).visibleTerminal = Event.shown k.console e := hv
  rw [hvis]
  exact ⟨fun h => ⟨h, fun he => absurd he hends⟩, fun h => h.switch⟩

/-- An event that keeps the entry, the visible terminal and the process. -/
theorem mirrors_iff_of_plain {fs : FileSys} {k k' : Kernel} {e : Event} (hm : k'.Mirrors)
    (h : e.endsNothing = true) (hshown : Event.shown k.console e = k.visibleTerminal) :
    k'.Mirrors ↔ VideoSafe fs k e :=
  iff_of_true hm (videoSafe_of_plain hshown (Event.not_ends h))

theorem VideoStill.mirrors_of_console {k k' : Kernel} (h : VideoStill k k')
    (hc : k'.console = k.console) (hk : k.Mirrors) : k'.Mirrors := by
  refine h.mirrors ?_ hk
  unfold visibleTerminal
  rw [hc]

theorem step_mirrors_iff {fs : FileSys} {k k' : Kernel} {e : Event} (hctx : VideoContext k)
    (hk : k.Mirrors) (h : step fs k e = some k') : k'.Mirrors ↔ VideoSafe fs k e := by
  obtain ⟨S, hS⟩ := hctx.sound
  cases e with
  | execute fr command =>
      obtain ⟨⟨r, k₁⟩, hr, rfl⟩ := Option.map_eq_some_iff.mp h
      rw [executeCall_mirrors_iff hS hk hr]
      refine ⟨fun hsafe => ⟨fun _ => Iff.rfl, ?_⟩, fun hsafe hf => hsafe.ends (Or.inr (Or.inr hf))⟩
      rintro (⟨_, _, heq⟩ | ⟨_, _, heq⟩ | hf)
      · cases heq
      · cases heq
      · exact hsafe hf
  | halt fr status =>
      obtain ⟨⟨r, k₁⟩, hr, rfl⟩ := Option.map_eq_some_iff.mp h
      rw [sysHalt_mirrors_iff hS hr]
      exact ⟨fun hend => ⟨fun _ => Iff.rfl, fun _ => hend⟩,
        fun hsafe => hsafe.ends (Or.inl ⟨fr, status, rfl⟩)⟩
  | exception fr index =>
      obtain ⟨⟨r, k₁⟩, hr, rfl⟩ := Option.map_eq_some_iff.mp h
      rw [exceptionHandler_mirrors_iff hS hr]
      exact ⟨fun hend => ⟨fun _ => Iff.rfl, fun _ => hend⟩,
        fun hsafe => hsafe.ends (Or.inr (Or.inl ⟨fr, index, rfl⟩))⟩
  | pit fr =>
      have hpit : k.scheduling fs fr = some k' := h
      exact mirrors_iff_of_plain (scheduling_mirrors hk hpit) rfl rfl
  | rtc =>
      cases h
      exact mirrors_iff_of_plain
        ((videoStill_rtcInterrupt k).mirrors_of_console (rtcInterrupt_console k) hk) rfl rfl
  | keyboard scancode =>
      obtain ⟨c, hc, rfl⟩ := Option.map_eq_some_iff.mp h
      obtain ⟨hv, hp⟩ := Console.keyboardInterrupt_visible (hctx.onScreen _) hc
      exact mirrors_iff_of_console hk hp hv (Event.not_ends rfl)
  | switch n =>
      cases h
      exact mirrors_iff_of_console hk (Console.switchTerminal_process _ n)
        (Console.switchTerminal_visible _ n) (Event.not_ends rfl)
  | «open» filename =>
      obtain ⟨⟨r, k₁⟩, hr, rfl⟩ := Option.map_eq_some_iff.mp h
      exact mirrors_iff_of_plain
        ((videoStill_sysOpen hr).mirrors_of_console (sysOpen_console hr) hk) rfl rfl
  | close fd =>
      obtain ⟨⟨r, k₁⟩, hr, rfl⟩ := Option.map_eq_some_iff.mp h
      exact mirrors_iff_of_plain
        ((videoStill_sysClose hr).mirrors_of_console (sysClose_console hr) hk) rfl rfl
  | read stack fd bufNull nbytes =>
      obtain ⟨⟨r, k₁⟩, hr, rfl⟩ := Option.map_eq_some_iff.mp h
      obtain ⟨hstill, hv⟩ := sysRead_still hr
      exact mirrors_iff_of_plain (hstill.mirrors hv hk) rfl rfl
  | resumeTerminal nbytes =>
      obtain ⟨r, _, rfl⟩ := Option.map_eq_some_iff.mp h
      exact mirrors_iff_of_plain hk rfl rfl
  | resumeRtc =>
      have hfinish : k.readRtcFinish = some k' := h
      have hconsole := readRtcFinish_console hfinish
      unfold readRtcFinish at hfinish
      split at hfinish
      · split at hfinish
        · exact mirrors_iff_of_plain
            ((videoStill_modifyCur hfinish fun _ => rfl).mirrors_of_console hconsole hk) rfl rfl
        · cases hfinish
      · cases hfinish
  | write fd buf nbytes =>
      obtain ⟨⟨r, k₁⟩, hr, rfl⟩ := Option.map_eq_some_iff.mp h
      obtain ⟨hstill, hv⟩ := sysWrite_still hr
      exact mirrors_iff_of_plain (hstill.mirrors hv hk) rfl rfl
  | getargs =>
      obtain ⟨r, _, rfl⟩ := Option.map_eq_some_iff.mp h
      exact mirrors_iff_of_plain hk rfl rfl
  | vidmap screenStart =>
      obtain ⟨⟨r, k₁⟩, hr, rfl⟩ := Option.map_eq_some_iff.mp h
      exact mirrors_iff_of_plain (sysVidmap_mirrors hk hr) rfl rfl
  | draw offset byte =>
      have hdraw : k.drawByte offset byte = some k' := h
      unfold drawByte at hdraw
      split at hdraw
      · split at hdraw
        · cases hdraw
          exact mirrors_iff_of_plain ((videoStill_console k rfl).mirrors rfl hk) rfl rfl
        · cases hdraw
      · cases hdraw

/-- **The video page follows the process exactly in the runs of safe steps.** In a run from
boot, the entry maps the screen of the running process in every state in which that has a
video page, and what it draws stays on its own screen, exactly if no step shows or hides the
terminal of a running process with a video page or ends a process in the background whose
parent has one. -/
theorem video_follows_iff {fs : FileSys} {m : BootMemory} {es : List Event} {k : Kernel}
    (hrun : StepSystem.run (step fs) (boot m) es = some k) :
    StepSystem.Along (step fs) (VideoFollows fs) (boot m) es ↔
      StepSystem.Guarded (step fs) (VideoSafe fs) (boot m) es := by
  refine StepSystem.along_iff_guarded (P := VideoContext) ?_ ?_ hrun ?_ ?_
  · intro k e k' hk h
    exact ⟨step_sound hk.sound h, step_allOnScreen hk.onScreen h⟩
  · intro k e k' hctx hk h
    rw [← step_mirrors_iff hctx hk.mirrors h]
    exact ⟨fun h => h.mirrors, fun h => h.follows⟩
  · exact ⟨⟨_, boot_sound m⟩, fun _ => Console.onScreen_boot⟩
  · refine Mirrors.follows ?_
    rintro ⟨p, hp, _⟩
    cases hp

/-- The first shell maps its video page in the background. -/
theorem sampleImage_vidmap : ∃ k₁ k₂, step sampleImage (boot zeroMemory) (.pit zeroFrame) = some k₁
    ∧ step sampleImage k₁ (.vidmap USER_START) = some k₂ ∧ k₂.Shows
    ∧ k₂.processTerminal = 1 ∧ k₂.visibleTerminal = 0
    ∧ (k₂.pageTableVidmap 0).base = .phys (videoBuf 1) := by
  obtain ⟨k₁, hpit, _, hstart⟩ := sampleImage_first_tick
  have hp : k₁.processTerminal = 1 := hstart.process
  have hv : k₁.visibleTerminal = 0 := hstart.visible
  have hcur : k₁.cur = some 0 := by
    unfold cur
    rw [hp, hstart.cur]
    rfl
  have hcall : k₁.sysVidmap USER_START = some (0, (k₁.vidmapPagingModify (videoBuf 1)).modifyPcb 0
      fun b => { b with vidmapTerminal := 1 }) := by
    have hcur' : (k₁.vidmapPagingModify (videoBuf 1)).cur = some 0 := hcur
    have hinside : vidmapWord.drop (USER_END - USER_START) = [] := List.drop_eq_nil_of_le (by decide)
    unfold sysVidmap
    rw [if_neg (by decide), hp, hv, hinside]
    dsimp only
    rw [if_neg (by decide), storeVidmap_nil]
    unfold modifyCur
    rw [hcur']
    rfl
  refine ⟨k₁, _, hpit, Option.map_eq_some_iff.mpr ⟨_, hcall, rfl⟩, ⟨0, hcur, ?_⟩, hp, hv, ?_⟩
  · rw [modifyPcb_self]
  · exact vidmapPagingModify_base k₁ _

/-- Alt+F2 then shows the terminal of that shell, and the entry still maps its buffer. -/
theorem video_left_behind_by_switch : ¬ ∀ (fs : FileSys) (k : Kernel), Reachable fs k →
    ∀ p, k.cur = some p → (k.pcb p).vidmapTerminal = 1 → (k.pageTableVidmap 0).base =
      .phys (if k.processTerminal = k.visibleTerminal then VIDEO
        else videoBuf k.processTerminal) := by
  intro h
  obtain ⟨k₁, k₂, hpit, hvid, ⟨p, hcur, hflag⟩, hp, _, hbase⟩ := sampleImage_vidmap
  have hp' : (k₂.console.switchTerminal 1).processTerminal = 1 := hp
  have hv' : (k₂.console.switchTerminal 1).visibleTerminal = 1 := rfl
  have hreach : Reachable sampleImage { k₂ with console := k₂.console.switchTerminal 1 } :=
    ⟨zeroMemory, (((StepSystem.Reachable.refl _).trans_step hpit).trans_step hvid).trans_step
      (e := .switch 1) rfl⟩
  have hbad := h _ _ hreach p hcur hflag
  rw [if_pos (hp'.trans hv'.symm)] at hbad
  exact absurd (hbase.symm.trans hbad) (by decide)

/-- The first shell maps its video page, and the terminals are not switched. -/
theorem video_follows_iff_sample : ∃ k,
    StepSystem.run (step sampleImage) (boot zeroMemory)
      [.pit zeroFrame, .vidmap USER_START, .rtc] = some k ∧
    (StepSystem.Along (step sampleImage) (VideoFollows sampleImage) (boot zeroMemory)
        [.pit zeroFrame, .vidmap USER_START, .rtc] ↔
      StepSystem.Guarded (step sampleImage) (VideoSafe sampleImage) (boot zeroMemory)
        [.pit zeroFrame, .vidmap USER_START, .rtc]) := by
  obtain ⟨k₁, k₂, hpit, hvid, _⟩ := sampleImage_vidmap
  have hrun : StepSystem.run (step sampleImage) (boot zeroMemory)
      [.pit zeroFrame, .vidmap USER_START, .rtc] = some k₂.rtcInterrupt := by
    refine StepSystem.run_cons_eq_some.mpr ⟨k₁, hpit, ?_⟩
    refine StepSystem.run_cons_eq_some.mpr ⟨k₂, hvid, ?_⟩
    exact StepSystem.run_cons_eq_some.mpr ⟨_, rfl, rfl⟩
  exact ⟨_, hrun, video_follows_iff hrun⟩

end Kernel

end Ext2Kernel
