import Ext2Kernel.Process.Descriptors
import Ext2Kernel.Process.TreeRuns

set_option autoImplicit false

/-! # The descriptor calls

What `sys_open`, `sys_close`, `sys_read` and `sys_write` do to the descriptor tables, in any
reachable state. The invariant of `Descriptors` enters in two places: a new process finds the
six upper descriptors of its slot closed, and `sys_open`, which looks for a flag other than 1,
finds the least descriptor whose flag is 0.
-/

namespace Ext2Kernel

open LinkedStacks Kernel ByteMem

/-- A descriptor in use. -/
def FileDesc.IsOpen (d : FileDesc) : Prop := d.flags ≠ 0

/-- The table of a process that has just been started: exactly the first two descriptors are
open. -/
structure NewTable (b : Pcb) : Prop where
  stdin : b.fileDescArray 0 = stdinDesc
  stdout : b.fileDescArray 1 = stdoutDesc
  isOpen_iff : ∀ i : Fin 8, (b.fileDescArray i).IsOpen ↔ i.val < 2

/-- A live table whose upper descriptors are closed is a new one. -/
theorem LiveTable.newTable {b : Pcb} (h : LiveTable b) (hd : DeadTable b) : NewTable b := by
  refine ⟨h.stdin, h.stdout, fun i => ?_⟩
  constructor
  · intro hopen
    by_contra hge
    exact hopen (hd i (by omega))
  · intro hlt
    have hcases : i = 0 ∨ i = 1 := by omega
    rcases hcases with rfl | rfl
    · simp [h.stdin, stdinDesc, FileDesc.IsOpen]
    · simp [h.stdout, stdoutDesc, FileDesc.IsOpen]

/-- In a live table the two tests of the source, `flags == 1` and `flags != 0`, agree. -/
theorem LiveTable.isOpen_iff {b : Pcb} (h : LiveTable b) (i : Fin 8) :
    (b.fileDescArray i).IsOpen ↔ (b.fileDescArray i).flags = 1 := by
  unfold FileDesc.IsOpen
  by_cases hi : 2 ≤ i.val
  · rcases h.others i hi with hz | ⟨hone, _⟩ <;> omega
  · have hcases : i = 0 ∨ i = 1 := by omega
    rcases hcases with rfl | rfl
    · simp [h.stdin, stdinDesc]
    · simp [h.stdout, stdoutDesc]

namespace Kernel

/-! ## Living processes -/

/-- Process `p` is alive: it is current on a terminal, or waits for a process it started. -/
inductive Live (k : Kernel) : Slot → Prop
  | current {t : Terminal} {p : Slot} (h : k.curPcbPtr t = some p) : Live k p
  | parent {p q : Slot} (h : Live k q) (hp : (k.pcb q).parentPcb = some p) : Live k p

theorem Tree.mem_of_live {k : Kernel} {S : Stacks} (hS : Tree k S) {p : Slot} (h : k.Live p) :
    ∃ t, p ∈ S t := by
  induction h with
  | current h => exact ⟨_, hS.top_mem h⟩
  | parent _ hp ih =>
      obtain ⟨t, ht⟩ := ih
      exact ⟨t, (hS.chains t).next_mem ht hp⟩

/-! ## New processes -/

/-- The current process of terminal `t` has a new table. -/
def NewProcess (k : Kernel) (t : Terminal) : Prop :=
  ∃ p, k.curPcbPtr t = some p ∧ NewTable (k.pcb p)

/-- `sys_execute` gives the new process a new table: the last process in its slot left the
upper descriptors closed. -/
theorem Entered.newProcess {k k' : Kernel} {fr : Frame} {p : Slot} {S : Stacks}
    (h : Entered k fr k' p) (hS : Sound k S) : k'.NewProcess k.execTerm := by
  have hdead := hS.dead p (hS.fresh (firstFree_eq_some h.first))
  have hsaved : ((k.saveFrame k.execTerm fr).pcb p).fileDescArray = (k.pcb p).fileDescArray := by
    unfold saveFrame
    split
    · rename_i q _
      by_cases hq : p = q
      · subst hq
        rw [modifyPcb_self]
      · rw [modifyPcb_ne _ _ hq]
    · rfl
  obtain ⟨arg, eip, hpcb⟩ := h.pcb
  refine ⟨p, by rw [h.cur, Function.update_self], ?_⟩
  rw [hpcb, Function.update_self]
  have hdead' : DeadTable ((k.saveFrame k.execTerm fr).pcb p) := by
    intro i hi
    rw [hsaved]
    exact hdead i hi
  exact (newPcb_liveTable hdead' arg _ p eip).newTable (newPcb_deadTable hdead' arg _ p eip)

/-- A process that replaces one without a parent. -/
theorem sysHalt_newProcess {fs : FileSys} {fr : Frame} {status : UInt8} {k k' : Kernel}
    {eip : Nat} {image : List UInt8} {S : Stacks} (hS : Sound k S)
    (h : k.sysHalt fs fr status = some (.enter eip image, k')) :
    k'.NewProcess k.processTerminal := by
  obtain ⟨p, hp, hafter⟩ := sysHalt_eq h
  have hpop : Does (.pop k.processTerminal p) k (k.popped p) := pop_popped hp
  unfold afterPop at hafter
  rw [popped_cur] at hafter
  split at hafter
  · rename_i hparent
    split at hafter
    · rename_i hexec
      cases hafter
      obtain ⟨n, hn⟩ := sysExecute_spec hexec
      have hterm : (k.popped p).execTerm = k.processTerminal := by
        unfold execTerm
        rw [popped_cur, if_pos hparent]
        rfl
      have hnew := hn.newProcess (hpop.sound hS)
      rw [hterm] at hnew
      exact hnew
    · cases hafter
  · cases hafter

theorem exceptionHandler_newProcess {fs : FileSys} {fr : Frame} {index : Fin 20}
    {k k' : Kernel} {eip : Nat} {image : List UInt8} {S : Stacks} (hS : Sound k S)
    (h : k.exceptionHandler fs fr index = some (.enter eip image, k')) :
    k'.NewProcess k.processTerminal := by
  rw [exceptionHandler_eq] at h
  have hq : Does .still k (k.raised index) := still_raised k index
  have hnew := sysHalt_newProcess (hq.sound hS) h
  rw [raised_process] at hnew
  exact hnew

/-- A tick that starts a process. -/
theorem scheduling_newProcess {fs : FileSys} {fr : Frame} {k k' : Kernel} {S : Stacks}
    (hS : Sound k S) (h : k.scheduling fs fr = some k')
    (hempty : k.curPcbPtr k'.processTerminal = none) (hcur : k'.cur ≠ none) :
    k'.NewProcess k'.processTerminal := by
  have hptr : (k.scheduled fr).curPcbPtr = k.curPcbPtr := (still_scheduled k fr).cur
  rcases scheduling_spec h with ⟨_, rfl⟩ | ⟨p, hp, hsw⟩ | ⟨hnone, hret | ⟨n, hent⟩⟩
  · exact absurd hempty hcur
  · unfold cur at hcur
    rw [hsw.cur, hptr] at hcur
    exact absurd hempty hcur
  · unfold cur at hcur
    rw [hret.cur, hptr] at hcur
    exact absurd hempty hcur
  · have hq : Does .still k (k.scheduled fr) := still_scheduled k fr
    have hterm : (k.scheduled fr).execTerm = k'.processTerminal := by
      unfold execTerm
      rw [if_pos hnone, hent.process]
    have hnew := hent.newProcess (hq.sound hS)
    rw [hterm] at hnew
    exact hnew

/-! ## `sys_open` -/

/-- The descriptor `sys_open` installs for a directory entry; `none` for an unknown type. -/
def openedDesc (d : Dentry) : Option FileDesc :=
  if d.fileType = RTC_TYPE then some ⟨some .rtc, 0, 0, 1⟩
  else if d.fileType = DIRECTORY_TYPE then some ⟨some .dir, 0, 0, 1⟩
  else if d.fileType = FILE_TYPE then some ⟨some .file, d.inode, 0, 1⟩
  else none

theorem openedDesc_position {d : Dentry} {f : FileDesc} (h : openedDesc d = some f) :
    f.IsOpen ∧ f.filePosition = 0 := by
  unfold openedDesc at h
  split at h
  · cases h; exact ⟨Nat.one_ne_zero, rfl⟩
  · split at h
    · cases h; exact ⟨Nat.one_ne_zero, rfl⟩
    · split at h
      · cases h; exact ⟨Nat.one_ne_zero, rfl⟩
      · cases h

/-- The least closed descriptor from 2 on. -/
structure LeastClosed (b : Pcb) (i : Fin 8) : Prop where
  ge : 2 ≤ i.val
  closed : ¬ (b.fileDescArray i).IsOpen
  least : ∀ j : Fin 8, 2 ≤ j.val → j < i → (b.fileDescArray j).IsOpen

/-- The tables of `k'` are those of `k`, but for descriptor `i` of process `p`, and the same
process runs. -/
structure SetsFd (k : Kernel) (p : Slot) (i : Fin 8) (f : FileDesc) (k' : Kernel) : Prop where
  cur : k'.cur = k.cur
  table : (k'.pcb p).fileDescArray = Function.update (k.pcb p).fileDescArray i f
  others : ∀ q, q ≠ p → (k'.pcb q).fileDescArray = (k.pcb q).fileDescArray

/-- The list `sys_open` searches. -/
theorem mem_searched (i : Fin 8) : i ∈ ([2, 3, 4, 5, 6, 7] : List (Fin 8)) ↔ 2 ≤ i.val := by
  revert i
  decide

theorem freeFd_least {b : Pcb} (hb : LiveTable b) {i : Fin 8} (h : freeFd b = some i) :
    LeastClosed b i := by
  obtain ⟨hge, hflag⟩ := freeFd_eq_some h
  refine ⟨hge, fun hopen => hflag ((hb.isOpen_iff i).mp hopen), fun j hj hlt => ?_⟩
  rw [hb.isOpen_iff]
  -- `find?` has passed over every smaller index of the ascending list.
  obtain ⟨_, as, bs, hsplit, hbefore⟩ := List.find?_eq_some_iff_append.mp h
  have hjmem := (mem_searched j).mpr hj
  have hsorted : ([2, 3, 4, 5, 6, 7] : List (Fin 8)).Pairwise (· < ·) := by decide
  rw [hsplit] at hjmem hsorted
  rcases List.mem_append.mp hjmem with hmem | hmem
  · simpa using hbefore j hmem
  · have htail := (List.pairwise_append.mp hsorted).2.1
    rcases List.mem_cons.mp hmem with rfl | hmem
    · exact absurd hlt (lt_irrefl _)
    · exact absurd hlt (not_lt_of_gt ((List.pairwise_cons.mp htail).1 j hmem))

theorem freeFd_none_iff {b : Pcb} (hb : LiveTable b) :
    freeFd b = none ↔ ∀ i : Fin 8, 2 ≤ i.val → (b.fileDescArray i).IsOpen := by
  unfold freeFd
  rw [List.find?_eq_none]
  constructor
  · intro h i hi
    rw [hb.isOpen_iff]
    simpa using h i ((mem_searched i).mpr hi)
  · intro h i hi
    have hone := (hb.isOpen_iff i).mp (h i ((mem_searched i).mp hi))
    simpa using hone

theorem installFd_sets {k : Kernel} {p : Slot} (hp : k.cur = some p) (i : Fin 8) (ops : FileOps)
    (inode : Nat) : ∃ k', k.installFd i ops inode = some k' ∧
      SetsFd k p i ⟨some ops, inode, 0, 1⟩ k' := by
  have hinst : k.installFd i ops inode = some (k.modifyPcb p fun b => { b with
      fileDescArray := Function.update b.fileDescArray i ⟨some ops, inode, 0, 1⟩ }) := by
    rw [installFd, modifyCur, hp]
    rfl
  refine ⟨_, hinst, rfl, ?_, fun q hq => ?_⟩
  · rw [modifyPcb_self]
  · rw [modifyPcb_ne _ _ hq]

theorem sysOpenRtc_defined {k : Kernel} {p : Slot} (hp : k.cur = some p) :
    ∃ k', k.sysOpenRtc = some k' ∧ k'.cur = some p ∧
      ∀ q, (k'.pcb q).fileDescArray = (k.pcb q).fileDescArray := by
  obtain ⟨r, k', hr⟩ : ∃ r k', k.sysWriteRtc (some (ofList [2, 0, 0, 0])) 4 = some (r, k') := by
    have hword : asInt32 (word (ofList [2, 0, 0, 0]) 0) = 2 := by decide
    have hpower : powerOfTwo 2 = some 0 := by decide
    unfold sysWriteRtc
    simp only [hword, hpower, modifyCur, hp]
    exact ⟨_, _, rfl⟩
  obtain ⟨hcur, hfds⟩ := sysWriteRtc_frame hr
  exact ⟨k', by rw [sysOpenRtc, hr]; rfl, hcur.trans hp, hfds⟩

/-- The type switch installs the descriptor of the entry. -/
theorem openType_sets {fs : FileSys} {k : Kernel} {p : Slot} {name : List UInt8} {d : Dentry}
    {f : FileDesc} (hp : k.cur = some p) (hd : readDentryByName fs (some name) = some d)
    (hf : openedDesc d = some f) (i : Fin 8) :
    ∃ k', k.openType fs name i d.fileType = some (some k') ∧ SetsFd k p i f k' := by
  unfold openedDesc at hf
  unfold openType
  split at hf
  · cases hf
    rename_i hrtc
    obtain ⟨k₁, hk₁, hcur, hfds⟩ := sysOpenRtc_defined hp
    obtain ⟨k', hk', hsets⟩ := installFd_sets hcur i .rtc 0
    refine ⟨k', ?_, (hsets.cur.trans hcur).trans hp.symm, ?_, fun q hq => ?_⟩
    · rw [if_pos hrtc, hk₁, Option.bind_some, hk']
    · rw [hsets.table, hfds]
    · rw [hsets.others q hq, hfds]
  · rename_i hrtc
    rw [if_neg hrtc]
    split at hf
    · cases hf
      rename_i hdir
      obtain ⟨k', hk', hsets⟩ := installFd_sets hp i .dir 0
      exact ⟨k', by rw [if_pos hdir, hk'], hsets⟩
    · rename_i hdir
      rw [if_neg hdir]
      split at hf
      · cases hf
        rename_i hfile
        obtain ⟨k', hk', hsets⟩ := installFd_sets hp i .file d.inode
        exact ⟨k', by rw [if_pos hfile, sysOpenFile_eq hd, hk'], hsets⟩
      · cases hf

theorem openType_unknown {fs : FileSys} {k : Kernel} {name : List UInt8} {d : Dentry}
    (hf : openedDesc d = none) (i : Fin 8) : k.openType fs name i d.fileType = none := by
  unfold openedDesc at hf
  unfold openType
  split at hf
  · cases hf
  · rename_i hrtc
    rw [if_neg hrtc]
    split at hf
    · cases hf
    · rename_i hdir
      rw [if_neg hdir]
      split at hf
      · cases hf
      · rename_i hfile
        rw [if_neg hfile]

/-- When `sys_open` fails: the six descriptors are taken, the name is unknown or the type is. -/
def OpenFails (fs : FileSys) (b : Pcb) (filename : Option (List UInt8)) : Prop :=
  (∀ i : Fin 8, 2 ≤ i.val → (b.fileDescArray i).IsOpen) ∨
    (readDentryByName fs filename).bind openedDesc = none

/-- **Specification of `sys_open`.** -/
structure OpenSpec (fs : FileSys) (k : Kernel) (p : Slot) (filename : Option (List UInt8)) :
    Prop where
  fails : OpenFails fs (k.pcb p) filename → k.sysOpen fs filename = some (-1, k)
  opens : ¬ OpenFails fs (k.pcb p) filename → ∃ (i : Fin 8) (f : FileDesc) (k' : Kernel),
    k.sysOpen fs filename = some ((i.val : Int), k') ∧ LeastClosed (k.pcb p) i ∧
      (readDentryByName fs filename).bind openedDesc = some f ∧ f.IsOpen ∧ f.filePosition = 0 ∧
      SetsFd k p i f k'

theorem sysOpen_spec (fs : FileSys) {k : Kernel} {p : Slot} (hp : k.cur = some p)
    (hb : LiveTable (k.pcb p)) (filename : Option (List UInt8)) : OpenSpec fs k p filename := by
  constructor
  · rintro (hfull | hunknown)
    · unfold sysOpen
      rw [hp, Option.bind_some, (freeFd_none_iff hb).mpr hfull]
    · unfold sysOpen
      rw [hp, Option.bind_some]
      cases hfree : freeFd (k.pcb p) with
      | none => rfl
      | some i =>
          cases hd : readDentryByName fs filename with
          | none => rfl
          | some d =>
              rw [hd, Option.bind_some] at hunknown
              dsimp only
              rw [openType_unknown hunknown]
  · intro hok
    unfold OpenFails at hok
    rw [not_or] at hok
    obtain ⟨hfree, hknown⟩ := hok
    rw [← freeFd_none_iff hb] at hfree
    obtain ⟨i, hi⟩ := Option.ne_none_iff_exists'.mp hfree
    obtain ⟨f, hf⟩ := Option.ne_none_iff_exists'.mp hknown
    obtain ⟨d, hd, hdf⟩ := Option.bind_eq_some_iff.mp hf
    cases filename with
    | none => cases hd
    | some name =>
        obtain ⟨k', hk', hsets⟩ := openType_sets hp hd hdf i
        obtain ⟨hopen, hpos⟩ := openedDesc_position hdf
        refine ⟨i, f, k', ?_, freeFd_least hb hi, hf, hopen, hpos, hsets⟩
        unfold sysOpen
        rw [hp, Option.bind_some, hi, hd]
        dsimp only [Option.getD_some]
        rw [hk']
        rfl

/-! ## `sys_close`, `sys_read` and `sys_write` -/

/-- `fd` is the number of an open descriptor. -/
def OpenFd (b : Pcb) (fd : Int) : Prop :=
  0 ≤ fd ∧ fd ≤ 7 ∧ (b.fileDescArray (fdIdx fd)).IsOpen

/-- **Specification of `sys_close`.** -/
structure CloseSpec (k : Kernel) (p : Slot) (fd : Int) : Prop where
  closes : 2 ≤ fd → OpenFd (k.pcb p) fd → ∃ k', k.sysClose fd = some (0, k') ∧
    SetsFd k p (fdIdx fd) ((k.pcb p).fileDescArray (fdIdx fd)).close k'
  fails : ¬ (2 ≤ fd ∧ OpenFd (k.pcb p) fd) → k.sysClose fd = some (-1, k)

theorem fdIdx_val (fd : Int) (h₀ : 0 ≤ fd) (h₇ : fd ≤ 7) : ((fdIdx fd).val : Int) = fd := by
  unfold fdIdx
  simp only [Fin.ofNat]
  omega

theorem fdIdx_natCast (i : Fin 8) : fdIdx (i.val : Int) = i := by
  have hval := fdIdx_val i.val (by omega) (by omega)
  exact Fin.ext (by omega)

theorem sysClose_spec {k : Kernel} {p : Slot} (hp : k.cur = some p) (hb : LiveTable (k.pcb p))
    (fd : Int) : CloseSpec k p fd := by
  constructor
  · intro hge ⟨h₀, h₇, hopen⟩
    have hidx := fdIdx_val fd h₀ h₇
    have hflags : ((k.pcb p).fileDescArray (fdIdx fd)).flags ≠ 0 := hopen
    have hops := (hb.others (fdIdx fd) (by omega)).resolve_left hflags
    -- The three tables `sys_open` installs have a `close` that returns 0.
    have hret : ∃ ops, ((k.pcb p).fileDescArray (fdIdx fd)).fileOpsTable = some ops
        ∧ closeResult ops = 0 := by
      rcases hops.2 with h | h | h
      · exact ⟨_, h, rfl⟩
      · exact ⟨_, h, rfl⟩
      · exact ⟨_, h, rfl⟩
    obtain ⟨ops, htable, hzero⟩ := hret
    refine ⟨k.modifyPcb p fun b => b.closeFd (fdIdx fd), ?_, rfl, ?_, fun q hq => ?_⟩
    · unfold sysClose
      rw [if_neg (by unfold MIN_FD_IDX MAX_FD_IDX; omega), hp, Option.bind_some]
      dsimp only
      rw [if_neg hflags, htable, Option.map_some, hzero]
    · rw [modifyPcb_self]
      rfl
    · rw [modifyPcb_ne _ _ hq]
  · intro hnot
    unfold sysClose
    by_cases hrange : fd < MIN_FD_IDX ∨ fd > MAX_FD_IDX
    · rw [if_pos hrange]
    · rw [if_neg hrange, hp, Option.bind_some]
      dsimp only
      unfold MIN_FD_IDX MAX_FD_IDX at hrange
      rw [if_pos]
      by_contra hflags
      exact hnot ⟨by omega, by omega, by omega, hflags⟩

/-- On an open descriptor `sys_read` calls the read operation of its table. -/
theorem sysRead_open (fs : FileSys) {k : Kernel} {p : Slot} {fd : Int} (stack : Mem)
    {nbytes : Int} (hp : k.cur = some p) (hfd : OpenFd (k.pcb p) fd) (hn : 0 < nbytes) :
    k.sysRead fs stack fd false nbytes
      = ((k.pcb p).fileDescArray (fdIdx fd)).fileOpsTable.bind
          (k.readOp fs stack p (fdIdx fd) nbytes) := by
  obtain ⟨h₀, h₇, hflags⟩ := hfd
  unfold sysRead
  rw [if_neg (by unfold MAX_FD_IDX; simp; omega), hp, Option.bind_some]
  exact if_neg hflags

theorem sysRead_bad {fs : FileSys} {k : Kernel} {p : Slot} {fd : Int} (hp : k.cur = some p)
    (hfd : ¬ OpenFd (k.pcb p) fd) (stack : Mem) (bufNull : Bool) (nbytes : Int) :
    k.sysRead fs stack fd bufNull nbytes = some (.done ⟨-1, []⟩, k) := by
  unfold sysRead
  split
  · rfl
  · rename_i hrange
    rw [hp, Option.bind_some]
    dsimp only
    unfold MAX_FD_IDX at hrange
    rw [if_pos]
    by_contra hflags
    exact hfd ⟨by omega, by omega, hflags⟩

theorem sysWrite_bad {k : Kernel} {p : Slot} {fd : Int} (hp : k.cur = some p)
    (hfd : ¬ OpenFd (k.pcb p) fd) (buf : Option Mem) (nbytes : Int) :
    k.sysWrite fd buf nbytes = some (-1, k) := by
  unfold sysWrite
  split
  · rfl
  · split
    · rfl
    · rename_i hrange
      rw [hp, Option.bind_some]
      dsimp only
      unfold MAX_FD_IDX at hrange
      rw [if_pos]
      by_contra hflags
      exact hfd ⟨by omega, by omega, hflags⟩

/-! ## Other processes -/

/-- Only the running process has changed descriptors. -/
def OnlyRunning (k k' : Kernel) : Prop :=
  ∀ q, k.cur ≠ some q → (k'.pcb q).fileDescArray = (k.pcb q).fileDescArray

theorem OnlyRunning.refl (k : Kernel) : OnlyRunning k k := fun _ _ => rfl

theorem onlyRunning_modifyPcb {k : Kernel} {p : Slot} (hp : k.cur = some p) (f : Pcb → Pcb) :
    OnlyRunning k (k.modifyPcb p f) := by
  intro q hq
  have hne : q ≠ p := by
    rintro rfl
    exact hq hp
  rw [modifyPcb_ne _ _ hne]

theorem onlyRunning_modifyCur {k k' : Kernel} {f : Pcb → Pcb} (h : k.modifyCur f = some k') :
    OnlyRunning k k' := by
  obtain ⟨p, hp, rfl⟩ := Option.map_eq_some_iff.mp h
  exact onlyRunning_modifyPcb hp f

theorem onlyRunning_sysRead {fs : FileSys} {k k' : Kernel} {stack : Mem} {fd nbytes : Int}
    {bufNull : Bool} {r : ReadOutcome}
    (h : k.sysRead fs stack fd bufNull nbytes = some (r, k')) : OnlyRunning k k' := by
  unfold sysRead at h
  split at h
  · cases h; exact .refl k
  · obtain ⟨p, hp, h⟩ := Option.bind_eq_some_iff.mp h
    dsimp only at h
    split at h
    · cases h; exact .refl k
    · obtain ⟨ops, _, h⟩ := Option.bind_eq_some_iff.mp h
      cases ops with
      | stdIn =>
          obtain ⟨c, _, heq⟩ := Option.map_eq_some_iff.mp h
          cases heq
          exact fun _ _ => rfl
      | stdOut => cases h; exact .refl k
      | rtc =>
          obtain ⟨k₁, hk₁, heq⟩ := Option.map_eq_some_iff.mp h
          cases heq
          exact onlyRunning_modifyCur hk₁
      | file =>
          cases h
          unfold sysReadFile
          dsimp only
          split
          · dsimp only
            exact onlyRunning_modifyPcb hp _
          · exact .refl k
      | dir =>
          cases h
          unfold sysReadDirectory
          dsimp only
          split <;> exact fun _ _ => rfl

/-- A write changes no descriptor at all. -/
theorem sysWrite_fds {k k' : Kernel} {fd nbytes r : Int} {buf : Option Mem}
    (h : k.sysWrite fd buf nbytes = some (r, k')) (q : Slot) :
    (k'.pcb q).fileDescArray = (k.pcb q).fileDescArray := by
  unfold sysWrite at h
  split at h
  · cases h; rfl
  · split at h
    · cases h; rfl
    · obtain ⟨p, hp, h⟩ := Option.bind_eq_some_iff.mp h
      dsimp only at h
      split at h
      · cases h; rfl
      · obtain ⟨ops, _, h⟩ := Option.bind_eq_some_iff.mp h
        cases ops with
        | rtc =>
            unfold writeOp at h
            exact (sysWriteRtc_frame h).2 q
        | file => cases h; rfl
        | dir => cases h; rfl
        | stdIn => cases h; rfl
        | stdOut => cases h; rfl

theorem SetsFd.onlyRunning {k k' : Kernel} {p : Slot} {i : Fin 8} {f : FileDesc}
    (h : SetsFd k p i f k') (hp : k.cur = some p) : OnlyRunning k k' := by
  intro q hq
  refine h.others q ?_
  rintro rfl
  exact hq hp

end Kernel

/-- The calls on descriptors, with the second parts of the two reads that wait. -/
inductive Event.FdCall : Event → Prop
  | open (filename : Option (List UInt8)) : FdCall (.open filename)
  | close (fd : Int) : FdCall (.close fd)
  | read (stack : Mem) (fd : Int) (bufNull : Bool) (nbytes : Int) :
      FdCall (.read stack fd bufNull nbytes)
  | resumeTerminal (nbytes : Nat) : FdCall (.resumeTerminal nbytes)
  | resumeRtc : FdCall .resumeRtc
  | write (fd : Int) (buf : Option Mem) (nbytes : Int) : FdCall (.write fd buf nbytes)

namespace Kernel

theorem Sound.onlyRunning_fdCall {fs : FileSys} {k k' : Kernel} {S : Stacks} (hS : Sound k S)
    {e : Event} (he : e.FdCall) (h : step fs k e = some k') : OnlyRunning k k' := by
  cases he with
  | «open» filename =>
      obtain ⟨⟨r, k₁⟩, hr, rfl⟩ := Option.map_eq_some_iff.mp h
      cases hp : k.cur with
      | none =>
          unfold sysOpen at hr
          rw [hp] at hr
          cases hr
      | some p =>
          have hspec := sysOpen_spec fs hp (hS.top_live hp) filename
          by_cases hfails : OpenFails fs (k.pcb p) filename
          · rw [hspec.fails hfails] at hr
            cases hr
            exact .refl k
          · obtain ⟨i, f, k₂, hk₂, _, _, _, _, hsets⟩ := hspec.opens hfails
            rw [hk₂] at hr
            cases hr
            exact hsets.onlyRunning hp
  | close fd =>
      obtain ⟨⟨r, k₁⟩, hr, rfl⟩ := Option.map_eq_some_iff.mp h
      unfold sysClose at hr
      split at hr
      · cases hr; exact .refl k
      · obtain ⟨p, hp, hr⟩ := Option.bind_eq_some_iff.mp hr
        dsimp only at hr
        split at hr
        · cases hr; exact .refl k
        · obtain ⟨ops, _, heq⟩ := Option.map_eq_some_iff.mp hr
          cases heq
          exact onlyRunning_modifyPcb hp fun b => b.closeFd (fdIdx fd)
  | read stack fd bufNull nbytes =>
      obtain ⟨⟨r, k₁⟩, hr, rfl⟩ := Option.map_eq_some_iff.mp h
      exact onlyRunning_sysRead hr
  | resumeTerminal nbytes =>
      obtain ⟨_, _, rfl⟩ := Option.map_eq_some_iff.mp h
      exact .refl _
  | resumeRtc =>
      have h' : k.readRtcFinish = some k' := h
      unfold readRtcFinish at h'
      split at h'
      · split at h'
        · exact onlyRunning_modifyCur h'
        · cases h'
      · cases h'
  | write fd buf nbytes =>
      obtain ⟨⟨r, k₁⟩, hr, rfl⟩ := Option.map_eq_some_iff.mp h
      exact fun q _ => sysWrite_fds hr q

/-! ## The discipline of the tables -/

/-- What the descriptor tables promise in state `k`. -/
structure TableDiscipline (fs : FileSys) (k : Kernel) : Prop where
  /-- A process has its terminal descriptors as long as it lives. -/
  terminal : ∀ p, k.Live p →
    (k.pcb p).fileDescArray 0 = stdinDesc ∧ (k.pcb p).fileDescArray 1 = stdoutDesc
  /-- A process started by `sys_execute` has a new table, ... -/
  execute : ∀ fr command eip image k',
    k.executeCall fs fr command = some (.enter eip image, k') → k'.NewProcess k.execTerm
  /-- and so has a shell started in place of one that ends ... -/
  halt : ∀ fr status eip image k',
    k.sysHalt fs fr status = some (.enter eip image, k') → k'.NewProcess k.processTerminal
  exception : ∀ fr index eip image k',
    k.exceptionHandler fs fr index = some (.enter eip image, k') →
      k'.NewProcess k.processTerminal
  loaderFault : ∀ fr command k₁ eip image k', k.sysExecute fs fr command = some (.fault, k₁) →
    k₁.exceptionHandler fs fr PAGE_FAULT = some (.enter eip image, k') →
      k'.NewProcess k.processTerminal
  /-- or by the scheduler on an empty terminal. -/
  pit : ∀ fr k', k.scheduling fs fr = some k' → k.curPcbPtr k'.processTerminal = none →
    k'.cur ≠ none → k'.NewProcess k'.processTerminal
  «open» : ∀ p filename, k.cur = some p → OpenSpec fs k p filename
  close : ∀ p fd, k.cur = some p → CloseSpec k p fd
  /-- Reads and writes on what is no open descriptor fail and change nothing. -/
  read : ∀ p stack fd bufNull nbytes, k.cur = some p → ¬ OpenFd (k.pcb p) fd →
    k.sysRead fs stack fd bufNull nbytes = some (.done ⟨-1, []⟩, k)
  write : ∀ p fd buf nbytes, k.cur = some p → ¬ OpenFd (k.pcb p) fd →
    k.sysWrite fd buf nbytes = some (-1, k)
  /-- No call on a descriptor changes one of another process. -/
  others : ∀ e k', Event.FdCall e → step fs k e = some k' → OnlyRunning k k'

/-- **The discipline follows from the invariant** of the process table and the descriptors. -/
theorem Sound.tableDiscipline (fs : FileSys) {k : Kernel} {S : Stacks} (hS : Sound k S) :
    TableDiscipline fs k := by
  refine
    { terminal := ?_, execute := ?_, halt := ?_, exception := ?_, loaderFault := ?_, pit := ?_,
      «open» := ?_, close := ?_, read := ?_, write := ?_, others := ?_ }
  · intro p hp
    obtain ⟨t, ht⟩ := hS.mem_of_live hp
    exact ⟨(hS.live t p ht).stdin, (hS.live t p ht).stdout⟩
  · intro fr command eip image k' hk'
    rcases executeCall_spec hk' with ⟨hexec, _⟩ | ⟨hne, _⟩
    · obtain ⟨p, hp⟩ := sysExecute_spec hexec
      exact hp.newProcess hS
    · cases hne
  · intro fr status eip image k' hk'
    exact sysHalt_newProcess hS hk'
  · intro fr index eip image k' hk'
    exact exceptionHandler_newProcess hS hk'
  · intro fr command k₁ eip image k' hk₁ hk'
    -- The state behind the fault is in the middle of an event, but two actions lead to it.
    obtain ⟨p, hp⟩ := sysExecute_spec hk₁
    obtain ⟨S', hS'⟩ := hp.trace.sound ⟨S, hS⟩
    have hnew := exceptionHandler_newProcess hS' hk'
    rw [hp.process] at hnew
    exact hnew
  · intro fr k' hk' hempty hcur
    exact scheduling_newProcess hS hk' hempty hcur
  · intro p filename hp
    exact sysOpen_spec fs hp (hS.top_live hp) filename
  · intro p fd hp
    exact sysClose_spec hp (hS.top_live hp) fd
  · intro p stack fd bufNull nbytes hp hfd
    exact sysRead_bad hp hfd stack bufNull nbytes
  · intro p fd buf nbytes hp hfd
    exact sysWrite_bad hp hfd buf nbytes
  · intro e k' he hk'
    exact hS.onlyRunning_fdCall he hk'

/-- On the small image: the first shell runs on terminal 1, with a new table. -/
theorem sampleImage_new_shell : ∃ k, Reachable sampleImage k ∧ k.cur = some 0 ∧
    k.visibleTerminal = 0 ∧ k.processTerminal = 1 ∧ NewTable (k.pcb 0) := by
  obtain ⟨k, hpit, hreach, hstart⟩ := sampleImage_first_tick
  have hcur : k.cur = some 0 := by
    unfold cur
    rw [hstart.process, hstart.cur, Function.update_self]
  have hsched : (boot zeroMemory).scheduling sampleImage zeroFrame = some k := hpit
  obtain ⟨p, hp, hnew⟩ := scheduling_newProcess (boot_sound zeroMemory) hsched rfl
    (by rw [hcur]; simp)
  obtain rfl : 0 = p := Option.some.inj (hcur.symm.trans hp)
  exact ⟨k, hreach, hcur, hstart.visible, hstart.process, hnew⟩

/-- The first shell opens an entry of the small image. -/
theorem sampleImage_open {name : List UInt8} {d : Dentry} {f : FileDesc}
    (hd : readDentryByName sampleImage (some name) = some d) (hf : openedDesc d = some f) :
    ∃ (k k' : Kernel) (i : Fin 8), Reachable sampleImage k ∧ k.cur = some 0
      ∧ k.sysOpen sampleImage (some name) = some ((i.val : Int), k')
      ∧ Reachable sampleImage k' ∧ k'.cur = some 0 ∧ (k'.pcb 0).fileDescArray i = f := by
  obtain ⟨k, hreach, hcur, _, _, hnew⟩ := sampleImage_new_shell
  obtain ⟨S, hS⟩ := hreach.sound
  have hok : ¬ OpenFails sampleImage (k.pcb 0) (some name) := by
    rintro (hfull | hunknown)
    · exact absurd ((hnew.isOpen_iff 2).mp (hfull 2 (Nat.le_refl 2))) (by decide)
    · rw [hd, Option.bind_some, hf] at hunknown
      cases hunknown
  obtain ⟨i, f', k', hk', _, hf', _, _, hsets⟩ :=
    (sysOpen_spec sampleImage hcur (hS.top_live hcur) (some name)).opens hok
  rw [hd, Option.bind_some, hf] at hf'
  cases hf'
  have hstep : step sampleImage k (.open (some name)) = some k' :=
    Option.map_eq_some_iff.mpr ⟨_, hk', rfl⟩
  obtain ⟨m, hm⟩ := hreach
  refine ⟨k, k', i, ⟨m, hm⟩, hcur, hk', ⟨m, hm.trans_step hstep⟩, hsets.cur.trans hcur, ?_⟩
  rw [hsets.table, Function.update_self]

end Kernel

end Ext2Kernel
