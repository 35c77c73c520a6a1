import Ext2Kernel.Process.Events
import Ext2Kernel.Process.HaltSpec
import Mathlib.Algebra.Ring.Nat

set_option autoImplicit false

/-! # What an event does to the processes

Every event is a short sequence of five actions on the process table: a process number is
taken (`claim`), a new process is put on a terminal (`push`), the running process is taken off
its terminal (`pop`), or nothing happens but changes inside the PCBs of current processes, with
their descriptors and video flags unchanged (`still`) or not (`quiet`). `step_trace` gives the
sequence for every event; the invariants of the development are proved for the actions.
-/

namespace Ext2Kernel

open ByteMem

/-! ## Actions -/

/-- What can happen to descriptor `i` of a process while it lives. -/
inductive FdStep (i : Fin 8) : FileDesc → FileDesc → Prop
  | same (d : FileDesc) : FdStep i d d
  | advance (d : FileDesc) (position : Nat) (h : d.fileOpsTable = some .file) :
      FdStep i d { d with filePosition := position }
  | install (d : FileDesc) (ops : FileOps) (inode : Nat) (hi : 2 ≤ i.val) (hd : d.flags ≠ 1)
      (hops : ops = .rtc ∨ ops = .dir ∨ ops = .file) : FdStep i d ⟨some ops, inode, 0, 1⟩
  | close (d : FileDesc) (hi : 2 ≤ i.val) : FdStep i d d.close

/-- A change inside the PCB of a living process. -/
structure PcbStep (b b' : Pcb) : Prop where
  parent : b'.parentPcb = b.parentPcb
  pid : b'.processId = b.processId
  fds : ∀ i, FdStep i (b.fileDescArray i) (b'.fileDescArray i)

/-- A change that leaves the descriptors and the video flag alone. -/
structure PcbStill (b b' : Pcb) : Prop where
  parent : b'.parentPcb = b.parentPcb
  pid : b'.processId = b.processId
  fds : b'.fileDescArray = b.fileDescArray
  vidmap : b'.vidmapTerminal = b.vidmapTerminal

theorem PcbStill.refl (b : Pcb) : PcbStill b b := ⟨rfl, rfl, rfl, rfl⟩

theorem PcbStill.trans {a b c : Pcb} (h : PcbStill a b) (h' : PcbStill b c) : PcbStill a c :=
  ⟨h'.parent.trans h.parent, h'.pid.trans h.pid, h'.fds.trans h.fds, h'.vidmap.trans h.vidmap⟩

theorem PcbStill.step {b b' : Pcb} (h : PcbStill b b') : PcbStep b b' :=
  ⟨h.parent, h.pid, fun i => by rw [h.fds]; exact .same _⟩

/-- The values `_sys_write_rtc` computes: the powers of two up to 512. -/
def RtcCount (n : Nat) : Prop := ∃ i ≤ 9, n = 2 ^ i

namespace Kernel

/-- No process begins or ends, and only PCBs of current processes change, as `R` says. -/
structure Changes (R : Pcb → Pcb → Prop) (k k' : Kernel) : Prop where
  cur : k'.curPcbPtr = k.curPcbPtr
  active : k'.activeProcesses = k.activeProcesses
  pcb : ∀ p, k'.pcb p = k.pcb p ∨ (∃ t, k.curPcbPtr t = some p) ∧ R (k.pcb p) (k'.pcb p)

abbrev Quiet := Changes PcbStep

abbrev Still := Changes PcbStill

/-- A new process `p` becomes current on terminal `t`. -/
structure Push (t : Terminal) (p : Slot) (k k' : Kernel) : Prop where
  free : k.activeProcesses p ≠ 1
  cur : k'.curPcbPtr = Function.update k.curPcbPtr t (some p)
  active : k'.activeProcesses = Function.update k.activeProcesses p 1
  pcb : ∃ arg eip, k'.pcb = Function.update k.pcb p
    { newPcb (k.pcb p) arg (k.curPcbPtr t) p with eip := eip }

/-- The current process `p` of terminal `t` ends and its parent becomes current. -/
structure Pop (t : Terminal) (p : Slot) (k k' : Kernel) : Prop where
  top : k.curPcbPtr t = some p
  cur : k'.curPcbPtr = Function.update k.curPcbPtr t (k.pcb p).parentPcb
  active : k'.activeProcesses = Function.update k.activeProcesses (k.pcb p).processId 0
  pcb : k'.pcb = Function.update k.pcb p { (k.pcb p).closeFds haltFds with vidmapTerminal := 0 }

/-- Process number `p` is taken, and no process made. -/
structure Claim (p : Slot) (k k' : Kernel) : Prop where
  free : k.activeProcesses p ≠ 1
  cur : k'.curPcbPtr = k.curPcbPtr
  active : k'.activeProcesses = Function.update k.activeProcesses p 1
  pcb : k'.pcb = k.pcb

inductive Action
  | still
  | quiet
  | push (t : Terminal) (p : Slot)
  | pop (t : Terminal) (p : Slot)
  | claim (p : Slot)

/-- The action `a` leads from `k` to `k'`. -/
def Does : Action → Kernel → Kernel → Prop
  | .still => Still
  | .quiet => Quiet
  | .push t p => Push t p
  | .pop t p => Pop t p
  | .claim p => Claim p

/-- The actions of the list lead from `k` to `k'`. -/
def Trace : List Action → Kernel → Kernel → Prop
  | [], k, k' => k = k'
  | a :: as, k, k' => ∃ m, Does a k m ∧ Trace as m k'

theorem Trace.single {a : Action} {k k' : Kernel} (h : Does a k k') : Trace [a] k k' :=
  ⟨k', h, rfl⟩

theorem Trace.cons {a : Action} {as : List Action} {k m k' : Kernel} (h : Does a k m)
    (ht : Trace as m k') : Trace (a :: as) k k' := ⟨m, h, ht⟩

/-- What every action preserves, a trace preserves. -/
theorem Trace.invariant {P : Kernel → Prop} {as : List Action}
    (hstep : ∀ a ∈ as, ∀ k k', P k → Does a k k' → P k') {k k' : Kernel}
    (h : Trace as k k') (hk : P k) : P k' := by
  induction as generalizing k with
  | nil => cases h; exact hk
  | cons a as ih =>
      obtain ⟨m, hm, hrest⟩ := h
      exact ih (fun b hb => hstep b (List.mem_cons_of_mem a hb)) hrest
        (hstep a List.mem_cons_self k m hk hm)

/-! ## Changes inside PCBs -/

theorem Changes.of_eq {R : Pcb → Pcb → Prop} {k k' : Kernel} (hc : k'.curPcbPtr = k.curPcbPtr)
    (ha : k'.activeProcesses = k.activeProcesses) (hp : k'.pcb = k.pcb) : Changes R k k' :=
  ⟨hc, ha, fun p => Or.inl (by rw [hp])⟩

theorem Changes.refl {R : Pcb → Pcb → Prop} (k : Kernel) : Changes R k k := .of_eq rfl rfl rfl

theorem Changes.modify {R : Pcb → Pcb → Prop} {k k' : Kernel} {t : Terminal} {p : Slot} {b : Pcb}
    (htop : k.curPcbPtr t = some p) (hc : k'.curPcbPtr = k.curPcbPtr)
    (ha : k'.activeProcesses = k.activeProcesses) (hp : k'.pcb = Function.update k.pcb p b)
    (hb : R (k.pcb p) b) : Changes R k k' := by
  refine ⟨hc, ha, fun q => ?_⟩
  rw [hp]
  by_cases hq : q = p
  · subst hq
    rw [Function.update_self]
    exact Or.inr ⟨⟨t, htop⟩, hb⟩
  · rw [Function.update_of_ne hq]
    exact Or.inl rfl

theorem Still.quiet {k k' : Kernel} (h : Still k k') : Quiet k k' := by
  refine ⟨h.cur, h.active, fun p => ?_⟩
  rcases h.pcb p with heq | ⟨htop, hp⟩
  · exact Or.inl heq
  · exact Or.inr ⟨htop, hp.step⟩

/-- What a still change keeps of every PCB. -/
theorem Still.pcbStill {k k' : Kernel} (h : Still k k') (p : Slot) :
    PcbStill (k.pcb p) (k'.pcb p) := by
  rcases h.pcb p with heq | ⟨_, hp⟩
  · rw [heq]
    exact .refl _
  · exact hp

theorem still_console (k : Kernel) (c : Console) : Still k { k with console := c } :=
  .of_eq rfl rfl rfl

theorem still_modifyCur {k k' : Kernel} {f : Pcb → Pcb} (h : k.modifyCur f = some k')
    (hf : ∀ b, PcbStill b (f b)) : Still k k' := by
  obtain ⟨p, hp, rfl⟩ := Option.map_eq_some_iff.mp h
  exact .modify hp rfl rfl rfl (hf _)

theorem still_saveFrame (k : Kernel) (t : Terminal) (fr : Frame) :
    Still k (k.saveFrame t fr) := by
  unfold saveFrame
  split
  · rename_i p hp
    exact .modify hp rfl rfl rfl ⟨rfl, rfl, rfl, rfl⟩
  · exact .refl k

/-! ### The descriptor calls -/

/-- A positive number that `power_of_two` accepts is a power of two. -/
theorem powerOfTwoLoop_pow {fuel : Nat} {num : Int} (hpos : 0 < num)
    (h : powerOfTwoLoop fuel num = some 0) : ∃ i : Nat, num = ((2 ^ i : Nat) : Int) := by
  induction fuel generalizing num with
  | zero => cases h
  | succ fuel ih =>
      unfold powerOfTwoLoop at h
      split at h
      · rename_i hone
        exact ⟨0, hone⟩
      · split at h
        · cases h
        · rename_i hne hodd
          have heven : num % 2 = 0 := by
            rw [Int.tmod_eq_emod_of_nonneg (by omega)] at hodd
            omega
          have hdiv : num.tdiv 2 = num / 2 := Int.tdiv_eq_ediv_of_nonneg (by omega)
          rw [hdiv] at h
          obtain ⟨i, hi⟩ := ih (by omega) h
          refine ⟨i + 1, ?_⟩
          rw [Nat.pow_succ, Int.natCast_mul, ← hi]
          omega

/-- The quotient of the highest frequency and a power of two. -/
theorem rtcCount_pow (i : Nat) : RtcCount
    (MAX_INTERRUPT_FREQUENCY / min ((2 ^ i : Nat) : Int) MAX_INTERRUPT_FREQUENCY).toNat := by
  by_cases hi : i < 10
  · have hall : ∀ j < 10, (MAX_INTERRUPT_FREQUENCY
        / min ((2 ^ j : Nat) : Int) MAX_INTERRUPT_FREQUENCY).toNat = 2 ^ (9 - j) := by decide
    exact ⟨9 - i, by omega, hall i hi⟩
  · have hbig : 2 ^ 9 ≤ 2 ^ i := Nat.pow_le_pow_right (by decide) (by omega)
    refine ⟨0, by decide, ?_⟩
    unfold MAX_INTERRUPT_FREQUENCY
    rw [Int.min_eq_right (by omega)]
    rfl

/-- `_sys_write_rtc` fails or sets the two RTC fields of the running process. -/
theorem sysWriteRtc_cases {k k' : Kernel} {buf : Option Mem} {nbytes r : Int}
    (h : k.sysWriteRtc buf nbytes = some (r, k')) :
    (r = -1 ∧ k' = k) ∨ (r = 0 ∧ ∃ n, RtcCount n ∧ k.modifyCur (fun b =>
      { b with rtcInterruptDivider := n, rtcCounter := n }) = some k') := by
  unfold sysWriteRtc at h
  split at h
  · cases h; exact Or.inl ⟨rfl, rfl⟩
  · split at h
    · cases h; exact Or.inl ⟨rfl, rfl⟩
    · obtain ⟨x, hx, h⟩ := Option.bind_eq_some_iff.mp h
      split at h
      · cases h; exact Or.inl ⟨rfl, rfl⟩
      · rename_i hgood
        obtain ⟨k₁, hk₁, heq⟩ := Option.map_eq_some_iff.mp h
        cases heq
        refine Or.inr ⟨rfl, _, ?_, hk₁⟩
        unfold powerOfTwo at hx
        split at hx
        · cases hx
          exact absurd (Or.inl (by decide)) hgood
        · rename_i hne
          have hzero : x = 0 := not_not.mp fun h => hgood (Or.inl h)
          rw [hzero] at hx
          obtain ⟨i, hi⟩ := powerOfTwoLoop_pow (by omega) hx
          rw [hi]
          exact rtcCount_pow i

theorem still_sysWriteRtc {k k' : Kernel} {buf : Option Mem} {nbytes r : Int}
    (h : k.sysWriteRtc buf nbytes = some (r, k')) : Still k k' := by
  rcases sysWriteRtc_cases h with ⟨_, rfl⟩ | ⟨_, n, _, hn⟩
  · exact .refl _
  · exact still_modifyCur hn fun _ => ⟨rfl, rfl, rfl, rfl⟩

/-- `_sys_write_rtc` touches no descriptor. -/
theorem sysWriteRtc_frame {k k' : Kernel} {buf : Option Mem} {nbytes r : Int}
    (h : k.sysWriteRtc buf nbytes = some (r, k')) :
    k'.cur = k.cur ∧ ∀ p, (k'.pcb p).fileDescArray = (k.pcb p).fileDescArray := by
  rcases sysWriteRtc_cases h with ⟨_, rfl⟩ | ⟨_, n, _, hn⟩
  · exact ⟨rfl, fun _ => rfl⟩
  · obtain ⟨q, _, rfl⟩ := Option.map_eq_some_iff.mp hn
    refine ⟨rfl, fun p => ?_⟩
    by_cases hp : p = q
    · subst hp
      rw [modifyPcb_self]
    · rw [modifyPcb_ne _ _ hp]

theorem still_reloadCounter {k k' : Kernel} (h : k.reloadCounter = some k') : Still k k' :=
  still_modifyCur h fun _ => ⟨rfl, rfl, rfl, rfl⟩

theorem still_readRtcFinish {k k' : Kernel} (h : k.readRtcFinish = some k') : Still k k' := by
  unfold readRtcFinish at h
  split at h
  · split at h
    · exact still_reloadCounter h
    · cases h
  · cases h

theorem still_rtcTick (k : Kernel) (t : Terminal) : Still k (k.rtcTick t) := by
  unfold rtcTick
  split
  · rename_i p hp
    split
    · exact .modify hp rfl rfl rfl (⟨rfl, rfl, rfl, rfl⟩)
    · exact .refl k
  · exact .refl k

theorem quiet_sysReadFile {fs : FileSys} {k : Kernel} {p : Slot} {fd : Fin 8} {nbytes : Nat}
    (hcur : k.cur = some p) (hops : ((k.pcb p).fileDescArray fd).fileOpsTable = some .file) :
    Quiet k (k.sysReadFile fs p fd nbytes).2 := by
  unfold sysReadFile
  dsimp only
  split
  · refine .modify hcur rfl rfl rfl ⟨rfl, rfl, fun i => ?_⟩
    dsimp only
    by_cases hi : i = fd
    · subst hi
      rw [Function.update_self]
      exact .advance _ _ hops
    · rw [Function.update_of_ne hi]
      exact .same _
  · exact .refl k

theorem still_sysReadDirectory (fs : FileSys) (k : Kernel) (stack : Mem) :
    Still k (k.sysReadDirectory fs stack).2 := by
  unfold sysReadDirectory
  dsimp only
  split <;> exact .of_eq rfl rfl rfl

theorem quiet_sysClose {k k' : Kernel} {fd r : Int} (h : k.sysClose fd = some (r, k')) :
    Quiet k k' := by
  unfold sysClose at h
  split at h
  · cases h; exact .refl k
  · rename_i hrange
    obtain ⟨p, hp, h⟩ := Option.bind_eq_some_iff.mp h
    dsimp only at h
    split at h
    · cases h; exact .refl k
    · obtain ⟨ops, _, heq⟩ := Option.map_eq_some_iff.mp h
      cases heq
      refine .modify hp rfl rfl rfl ⟨rfl, rfl, fun i => ?_⟩
      unfold Pcb.closeFd
      dsimp only
      by_cases hi : i = fdIdx fd
      · subst hi
        rw [Function.update_self]
        refine .close _ ?_
        unfold fdIdx MIN_FD_IDX MAX_FD_IDX at *
        simp only [Fin.ofNat]
        omega
      · rw [Function.update_of_ne hi]
        exact .same _

theorem freeFd_eq_some {b : Pcb} {i : Fin 8} (h : freeFd b = some i) :
    2 ≤ i.val ∧ (b.fileDescArray i).flags ≠ 1 := by
  have hmem := List.mem_of_find?_eq_some h
  have hflag := List.find?_some h
  have hrange : ∀ j ∈ ([2, 3, 4, 5, 6, 7] : List (Fin 8)), 2 ≤ j.val := by decide
  exact ⟨hrange i hmem, by simpa using hflag⟩

theorem quiet_installFd {k k' : Kernel} {p : Slot} {i : Fin 8} {ops : FileOps} {inode : Nat}
    (hcur : k.cur = some p) (hi : 2 ≤ i.val) (hd : ((k.pcb p).fileDescArray i).flags ≠ 1)
    (hops : ops = .rtc ∨ ops = .dir ∨ ops = .file) (h : k.installFd i ops inode = some k') :
    Quiet k k' := by
  obtain ⟨q, hq, rfl⟩ := Option.map_eq_some_iff.mp h
  rw [hcur] at hq
  cases hq
  refine .modify hcur rfl rfl rfl ⟨rfl, rfl, fun j => ?_⟩
  dsimp only
  by_cases hj : j = i
  · subst hj
    rw [Function.update_self]
    exact .install _ _ _ hi hd hops
  · rw [Function.update_of_ne hj]
    exact .same _

/-- A trace of quiet actions. -/
def Calm (k k' : Kernel) : Prop := ∃ n, Trace (List.replicate n .quiet) k k'

theorem Calm.refl (k : Kernel) : Calm k k := ⟨0, rfl⟩

theorem Quiet.calm {k k' : Kernel} (h : Quiet k k') : Calm k k' := ⟨1, k', h, rfl⟩

theorem Quiet.cons_calm {k m k' : Kernel} (h : Quiet k m) (hc : Calm m k') : Calm k k' := by
  obtain ⟨n, hn⟩ := hc
  exact ⟨n + 1, m, h, hn⟩

theorem trace_rtcInterrupt (k : Kernel) : Trace [.still, .still, .still] k k.rtcInterrupt :=
  .cons (still_rtcTick k 0) (.cons (still_rtcTick _ 1) (.single (still_rtcTick _ 2)))

theorem calm_openType {fs : FileSys} {k k' : Kernel} {p : Slot} {filename : List UInt8}
    {i : Fin 8} {fileType : Nat} (hcur : k.cur = some p) (hi : 2 ≤ i.val)
    (hd : ((k.pcb p).fileDescArray i).flags ≠ 1)
    (h : k.openType fs filename i fileType = some (some k')) : Calm k k' := by
  unfold openType at h
  split at h
  · obtain ⟨k₁, hk₁, hinst⟩ := Option.bind_eq_some_iff.mp (Option.some.inj h)
    obtain ⟨⟨r, k₂⟩, hw, rfl⟩ := Option.map_eq_some_iff.mp hk₁
    -- The RTC is set up in the same PCB before the descriptor is installed.
    have hq := (still_sysWriteRtc hw).quiet
    obtain ⟨hcur₁, hfd⟩ := sysWriteRtc_frame hw
    refine hq.cons_calm (quiet_installFd (hcur₁.trans hcur) hi ?_ (Or.inl rfl) hinst).calm
    rw [hfd]
    exact hd
  · split at h
    · exact (quiet_installFd hcur hi hd (Or.inr (Or.inl rfl)) (Option.some.inj h)).calm
    · split at h
      · exact (quiet_installFd hcur hi hd (Or.inr (Or.inr rfl)) (Option.some.inj h)).calm
      · cases h

theorem calm_sysOpen {fs : FileSys} {k k' : Kernel} {filename : Option (List UInt8)} {r : Int}
    (h : k.sysOpen fs filename = some (r, k')) : Calm k k' := by
  unfold sysOpen at h
  obtain ⟨p, hp, h⟩ := Option.bind_eq_some_iff.mp h
  split at h
  · cases h; exact .refl k
  · rename_i i hfree
    obtain ⟨hi, hd⟩ := freeFd_eq_some hfree
    split at h
    · cases h; exact .refl k
    · split at h
      · cases h; exact .refl k
      · rename_i x hx
        obtain ⟨k₁, rfl, heq⟩ := Option.map_eq_some_iff.mp h
        cases heq
        exact calm_openType hp hi hd hx

theorem quiet_sysRead {fs : FileSys} {k k' : Kernel} {stack : Mem} {fd nbytes : Int}
    {bufNull : Bool} {r : ReadOutcome}
    (h : k.sysRead fs stack fd bufNull nbytes = some (r, k')) : Quiet k k' := by
  unfold sysRead at h
  split at h
  · cases h; exact .refl k
  · obtain ⟨p, hp, h⟩ := Option.bind_eq_some_iff.mp h
    dsimp only at h
    split at h
    · cases h; exact .refl k
    · obtain ⟨ops, hops, h⟩ := Option.bind_eq_some_iff.mp h
      cases ops with
      | stdIn =>
          obtain ⟨c, _, heq⟩ := Option.map_eq_some_iff.mp h
          cases heq
          exact .of_eq rfl rfl rfl
      | stdOut => cases h; exact .refl k
      | rtc =>
          obtain ⟨k₁, hk₁, heq⟩ := Option.map_eq_some_iff.mp h
          cases heq
          exact (still_reloadCounter hk₁).quiet
      | file => cases h; exact quiet_sysReadFile hp hops
      | dir => cases h; exact (still_sysReadDirectory fs k stack).quiet

theorem still_sysWrite {k k' : Kernel} {fd nbytes r : Int} {buf : Option Mem}
    (h : k.sysWrite fd buf nbytes = some (r, k')) : Still k k' := by
  unfold sysWrite at h
  split at h
  · cases h; exact .refl k
  · split at h
    · cases h; exact .refl k
    · obtain ⟨p, hp, h⟩ := Option.bind_eq_some_iff.mp h
      dsimp only at h
      split at h
      · cases h; exact .refl k
      · obtain ⟨ops, _, h⟩ := Option.bind_eq_some_iff.mp h
        cases ops with
        | rtc =>
            unfold writeOp at h
            exact still_sysWriteRtc h
        | file => cases h; exact .refl k
        | dir => cases h; exact .refl k
        | stdIn => cases h; exact .refl k
        | stdOut => cases h; exact .of_eq rfl rfl rfl

/-- `sys_vidmap` fails or maps the page of the terminal of the running process, through which it
may store. -/
theorem sysVidmap_cases {k k' : Kernel} {screenStart : Nat} {r : Int}
    (h : k.sysVidmap screenStart = some (r, k')) :
    (r = -1 ∧ k' = k) ∨ (r = 0 ∧ ∃ p v, k.cur = some p ∧
      k' = (({ k with console := { k.console with video := v } } : Kernel).vidmapPagingModify
        (if k.processTerminal = k.visibleTerminal then VIDEO else videoBuf k.processTerminal)
        ).modifyPcb p fun b => { b with vidmapTerminal := 1 }) := by
  unfold sysVidmap at h
  split at h
  · cases h; exact Or.inl ⟨rfl, rfl⟩
  · obtain ⟨k₂, hk₂, heq⟩ := Option.map_eq_some_iff.mp h
    cases heq
    obtain ⟨p, hp, rfl⟩ := Option.map_eq_some_iff.mp hk₂
    by_cases hv : k.visibleTerminal = k.processTerminal
    · rw [if_pos hv] at hp ⊢
      obtain ⟨v, hstore⟩ := k.vidmapPaging.storeVidmap_eq (vidmapWord.drop (USER_END - screenStart))
      rw [hstore] at hp ⊢
      rw [if_pos hv.symm]
      exact Or.inr ⟨rfl, p, v, hp, rfl⟩
    · rw [if_neg hv] at hp ⊢
      obtain ⟨v, hstore⟩ := (k.vidmapPagingModify (videoBuf k.processTerminal)).storeVidmap_eq
        (vidmapWord.drop (USER_END - screenStart))
      rw [hstore] at hp ⊢
      rw [if_neg (Ne.symm hv)]
      exact Or.inr ⟨rfl, p, v, hp, rfl⟩

theorem quiet_sysVidmap {k k' : Kernel} {screenStart : Nat} {r : Int}
    (h : k.sysVidmap screenStart = some (r, k')) : Quiet k k' := by
  rcases sysVidmap_cases h with ⟨_, rfl⟩ | ⟨_, p, v, hp, rfl⟩
  · exact .refl _
  · exact .modify hp rfl rfl rfl (⟨rfl, rfl, fun _ => .same _⟩)

theorem still_drawByte {k k' : Kernel} {offset : Nat} {byte : UInt8}
    (h : k.drawByte offset byte = some k') : Still k k' := by
  unfold drawByte at h
  split at h
  · split at h
    · cases h; exact .of_eq rfl rfl rfl
    · cases h
  · cases h

/-! ## Processes that begin and end -/

theorem Returned.still {k k' : Kernel} {fr : Frame} (h : Returned k fr k') : Still k k' := by
  rcases h.pcb with hp | hp
  · exact .of_eq h.cur h.active hp
  · refine ⟨h.cur, h.active, fun p => ?_⟩
    rw [hp]
    exact (still_saveFrame k k.execTerm fr).pcb p

theorem Entered.trace {k k' : Kernel} {fr : Frame} {p : Slot} (h : Entered k fr k' p) :
    Trace [.still, .push k.execTerm p] k k' := by
  refine .cons (still_saveFrame k k.execTerm fr) (.single ?_)
  have hs := saveFrame_eq k k.execTerm fr
  refine ⟨?_, ?_, ?_, ?_⟩
  · rw [hs]; exact firstFree_eq_some h.first
  · rw [hs]; exact h.cur
  · rw [hs]; exact h.active
  · obtain ⟨arg, eip, hpcb⟩ := h.pcb
    refine ⟨arg, eip, ?_⟩
    have hc : (k.saveFrame k.execTerm fr).curPcbPtr = k.curPcbPtr := by rw [hs]
    rw [hc]
    exact hpcb

theorem Faulted.trace {k k' : Kernel} {fr : Frame} {p : Slot} (h : Faulted k fr k' p) :
    Trace [.still, .claim p] k k' := by
  refine .cons (still_saveFrame k k.execTerm fr) (.single ?_)
  have hs := saveFrame_eq k k.execTerm fr
  refine ⟨?_, ?_, ?_, h.pcb⟩
  · rw [hs]; exact firstFree_eq_some h.first
  · rw [hs]; exact h.cur
  · rw [hs]; exact h.active

theorem pop_popped {k : Kernel} {p : Slot} (h : k.cur = some p) :
    Pop k.processTerminal p k (k.popped p) := ⟨h, rfl, rfl, rfl⟩

end Kernel

/-! ## The trace of an event -/

/-- The event is a call of `sys_execute` whose loader raises a page fault. -/
def Event.LoaderFaults (fs : FileSys) (k : Kernel) (e : Event) : Prop :=
  ∃ fr command k₁, e = .execute fr command ∧ k.sysExecute fs fr command = some (.fault, k₁)

/-- The event ends the running process. -/
def Event.Ends (fs : FileSys) (k : Kernel) (e : Event) : Prop :=
  (∃ fr status, e = .halt fr status) ∨ (∃ fr index, e = .exception fr index)
    ∨ e.LoaderFaults fs k

/-- The events that never end a process. -/
def Event.endsNothing : Event → Bool
  | .execute _ _ | .halt _ _ | .exception _ _ => false
  | _ => true

theorem Event.not_ends {fs : FileSys} {k : Kernel} {e : Event} (h : e.endsNothing = true) :
    ¬ e.Ends fs k := by
  rintro (⟨fr, status, rfl⟩ | ⟨fr, index, rfl⟩ | ⟨fr, command, _, rfl, _⟩) <;> cases h

/-- The calls that change a descriptor or the video flag of the running process. -/
def Event.Touches : Event → Prop
  | .open _ | .close _ | .read _ _ _ _ | .vidmap _ => True
  | _ => False

namespace Kernel

/-- The actions event `e` may have in state `k`: it changes a descriptor or a video flag only
if it is a call that does, pops the running process only if it is an event that ends it, and
takes a number without making a process only if the loader faults. -/
def Allowed (fs : FileSys) (k : Kernel) (e : Event) : Action → Prop
  | .still => True
  | .quiet => e.Touches
  | .push _ _ => True
  | .pop t p => t = k.processTerminal ∧ k.cur = some p ∧ e.Ends fs k
  | .claim _ => e.LoaderFaults fs k

/-- The actions of `sys_halt` by process `p`. -/
def HaltAction (k : Kernel) (p : Slot) : Action → Prop
  | .still => True
  | .quiet => False
  | .push _ _ => True
  | .pop t q => t = k.processTerminal ∧ q = p
  | .claim _ => False

theorem trace_sysHalt {fs : FileSys} {fr : Frame} {status : UInt8} {k k' : Kernel}
    {r : HaltResult} (h : k.sysHalt fs fr status = some (r, k')) :
    ∃ p, k.cur = some p ∧ ∃ as, Trace as k k' ∧ ∀ a ∈ as, k.HaltAction p a := by
  obtain ⟨p, hp, ⟨q, _, hr⟩ | ⟨_, n, hn⟩⟩ := sysHalt_spec h
  · refine ⟨p, hp, [.pop k.processTerminal p, .still], ?_, ?_⟩
    · exact .cons (pop_popped hp) (.single (.of_eq hr.cur hr.active hr.pcb))
    · simp [HaltAction]
  · refine ⟨p, hp, [.pop k.processTerminal p, .still, .push (k.popped p).execTerm n], ?_, ?_⟩
    · exact .cons (pop_popped hp) hn.trace
    · simp [HaltAction]

theorem still_raised (k : Kernel) (index : Fin 20) : Still k (k.raised index) := by
  refine .of_eq ?_ ?_ (k.raised_pcb index) <;> simp only [raised]

theorem trace_exceptionHandler {fs : FileSys} {fr : Frame} {index : Fin 20} {k k' : Kernel}
    {r : HaltResult} (h : k.exceptionHandler fs fr index = some (r, k')) :
    ∃ p, k.cur = some p ∧ ∃ as, Trace as k k' ∧ ∀ a ∈ as, k.HaltAction p a := by
  rw [exceptionHandler_eq] at h
  obtain ⟨p, hp, as, htrace, has⟩ := trace_sysHalt h
  refine ⟨p, (k.raised_cur index).symm.trans hp, .still :: as,
    .cons (still_raised k index) htrace, ?_⟩
  intro a ha
  rcases List.mem_cons.mp ha with rfl | ha
  · trivial
  · cases a with
    | pop t q =>
        obtain ⟨ht, hq⟩ := has _ ha
        exact ⟨ht.trans (k.raised_process index), hq⟩
    | still => trivial
    | quiet => exact (has _ ha).elim
    | push => trivial
    | claim => exact (has _ ha).elim

theorem Trace.append {as bs : List Action} {k m k' : Kernel} (h : Trace as k m)
    (h' : Trace bs m k') : Trace (as ++ bs) k k' := by
  induction as generalizing k with
  | nil => cases h; exact h'
  | cons a as ih =>
      obtain ⟨n, hn, hrest⟩ := h
      exact ⟨n, hn, ih hrest⟩

/-- The actions of an event that ends the running process are allowed for it. -/
theorem HaltAction.allowed {fs : FileSys} {k : Kernel} {e : Event} {p : Slot} {a : Action}
    (hp : k.cur = some p) (he : e.Ends fs k) (h : k.HaltAction p a) : Allowed fs k e a := by
  cases a with
  | still => trivial
  | quiet => exact h.elim
  | push => trivial
  | pop t q =>
      obtain ⟨ht, rfl⟩ := h
      exact ⟨ht, hp, he⟩
  | claim => exact h.elim

theorem trace_execute {fs : FileSys} {k k' : Kernel} {fr : Frame}
    {command : Option (List UInt8)} {r : ExecResult}
    (h : k.executeCall fs fr command = some (r, k')) :
    ∃ as, Trace as k k' ∧ ∀ a ∈ as, Allowed fs k (.execute fr command) a := by
  rcases executeCall_spec h with ⟨hexec, hne⟩ | ⟨rfl, k₁, x, hexec, hexc⟩
  · have hspec := sysExecute_spec hexec
    cases r with
    | ret v => exact ⟨[.still], .single hspec.2.still, by simp [Allowed]⟩
    | enter eip image =>
        obtain ⟨p, hp⟩ := hspec
        exact ⟨_, hp.trace, by simp [Allowed]⟩
    | fault => exact absurd rfl hne
  · have hfaults : (Event.execute fr command).LoaderFaults fs k := ⟨fr, command, k₁, rfl, hexec⟩
    obtain ⟨p, hp⟩ := sysExecute_spec hexec
    obtain ⟨q, hq, as, htrace, has⟩ := trace_exceptionHandler hexc
    have hcur : k₁.cur = k.cur := by
      unfold cur
      rw [hp.cur, hp.process]
    refine ⟨[.still, .claim p] ++ as, hp.trace.append htrace, ?_⟩
    intro a ha
    rcases List.mem_append.mp ha with ha | ha
    · simp only [List.mem_cons, List.not_mem_nil, or_false] at ha
      rcases ha with rfl | rfl
      · trivial
      · exact hfaults
    · have hact := has a ha
      refine HaltAction.allowed (hcur.symm.trans hq) (Or.inr (Or.inr hfaults)) ?_
      cases a with
      | pop t q' => exact ⟨hact.1.trans hp.process, hact.2⟩
      | still => trivial
      | quiet => exact hact
      | push => trivial
      | claim => exact hact

/-- Moving on to the next terminal changes no process. -/
theorem still_scheduled (k : Kernel) (fr : Frame) : Still k (k.scheduled fr) := by
  have hs := still_saveFrame k k.processTerminal fr
  exact ⟨hs.cur, hs.active, hs.pcb⟩

theorem trace_scheduling {fs : FileSys} {k k' : Kernel} {fr : Frame}
    (h : k.scheduling fs fr = some k') :
    ∃ as, Trace as k k' ∧ ∀ a ∈ as, Allowed fs k (.pit fr) a := by
  have hnext := still_scheduled k fr
  rcases scheduling_spec h with ⟨_, rfl⟩ | ⟨p, _, hsw⟩ | ⟨_, hret | ⟨n, hent⟩⟩
  · exact ⟨[], rfl, by simp⟩
  · exact ⟨[.still, .still], .cons hnext (.single (.of_eq hsw.cur hsw.active hsw.pcb)),
      by simp [Allowed]⟩
  · exact ⟨[.still, .still], .cons hnext (.single hret.still), by simp [Allowed]⟩
  · exact ⟨[.still, .still, .push (k.scheduled fr).execTerm n], .cons hnext hent.trace,
      by simp [Allowed]⟩

theorem Calm.allowed {fs : FileSys} {k k' : Kernel} {e : Event} (he : e.Touches)
    (h : Calm k k') : ∃ as, Trace as k k' ∧ ∀ a ∈ as, Allowed fs k e a := by
  obtain ⟨n, hn⟩ := h
  refine ⟨_, hn, fun a ha => ?_⟩
  rw [List.eq_of_mem_replicate ha]
  exact he

theorem Still.allowed {fs : FileSys} {k k' : Kernel} (e : Event) (h : Still k k') :
    ∃ as, Trace as k k' ∧ ∀ a ∈ as, Allowed fs k e a :=
  ⟨[.still], .single h, by simp [Allowed]⟩

/-- **Every event is a trace of allowed actions.** -/
theorem step_trace {fs : FileSys} {k k' : Kernel} {e : Event} (h : step fs k e = some k') :
    ∃ as, Trace as k k' ∧ ∀ a ∈ as, Allowed fs k e a := by
  cases e with
  | execute fr command =>
      obtain ⟨⟨r, k₁⟩, hr, rfl⟩ := Option.map_eq_some_iff.mp h
      exact trace_execute hr
  | halt fr status =>
      obtain ⟨⟨r, k₁⟩, hr, rfl⟩ := Option.map_eq_some_iff.mp h
      obtain ⟨p, hp, as, htrace, has⟩ := trace_sysHalt hr
      exact ⟨as, htrace, fun a ha => (has a ha).allowed hp (Or.inl ⟨fr, status, rfl⟩)⟩
  | exception fr index =>
      obtain ⟨⟨r, k₁⟩, hr, rfl⟩ := Option.map_eq_some_iff.mp h
      obtain ⟨p, hp, as, htrace, has⟩ := trace_exceptionHandler hr
      exact ⟨as, htrace, fun a ha => (has a ha).allowed hp (Or.inr (Or.inl ⟨fr, index, rfl⟩))⟩
  | pit fr => exact trace_scheduling h
  | rtc =>
      cases h
      exact ⟨_, trace_rtcInterrupt k, by simp [Allowed]⟩
  | keyboard scancode =>
      obtain ⟨c, _, rfl⟩ := Option.map_eq_some_iff.mp h
      exact (still_console k _).allowed _
  | switch n =>
      cases h
      exact (still_console k _).allowed _
  | «open» filename =>
      obtain ⟨⟨r, k₁⟩, hr, rfl⟩ := Option.map_eq_some_iff.mp h
      exact (calm_sysOpen hr).allowed trivial
  | close fd =>
      obtain ⟨⟨r, k₁⟩, hr, rfl⟩ := Option.map_eq_some_iff.mp h
      exact (quiet_sysClose hr).calm.allowed trivial
  | read stack fd bufNull nbytes =>
      obtain ⟨⟨r, k₁⟩, hr, rfl⟩ := Option.map_eq_some_iff.mp h
      exact (quiet_sysRead hr).calm.allowed trivial
  | resumeTerminal nbytes =>
      obtain ⟨r, _, rfl⟩ := Option.map_eq_some_iff.mp h
      exact Still.allowed _ (.refl _)
  | resumeRtc => exact (still_readRtcFinish h).allowed _
  | write fd buf nbytes =>
      obtain ⟨⟨r, k₁⟩, hr, rfl⟩ := Option.map_eq_some_iff.mp h
      exact (still_sysWrite hr).allowed _
  | getargs =>
      obtain ⟨r, _, rfl⟩ := Option.map_eq_some_iff.mp h
      exact Still.allowed _ (.refl _)
  | vidmap screenStart =>
      obtain ⟨⟨r, k₁⟩, hr, rfl⟩ := Option.map_eq_some_iff.mp h
      exact (quiet_sysVidmap hr).calm.allowed trivial
  | draw offset byte => exact (still_drawByte h).allowed _

end Kernel

end Ext2Kernel
