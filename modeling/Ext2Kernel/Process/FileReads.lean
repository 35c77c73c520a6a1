import Ext2Kernel.Process.DescriptorCalls
import Ext2Kernel.FileSys.Cursor

set_option autoImplicit false

/-! # Reads through file descriptors

A file descriptor of a process is a cursor on its file: whatever else happens in the kernel
while the descriptor is open, only the reads on it move its position. The abstract side is
`cursorReads`; `Holds.run` shows that the reads of a run are those of the cursor.
-/

namespace Ext2Kernel

open Kernel ByteMem

/-- An open file descriptor at position `pos`. -/
def fileDesc (inode pos : Nat) : FileDesc := ⟨some .file, inode, pos, 1⟩

namespace Kernel

/-! ## One read -/

/-- `_sys_read_file` reads at the position of the descriptor and moves it on. -/
theorem sysReadFile_spec {fs : FileSys} {k : Kernel} {p : Slot} {i : Fin 8} {inode pos n : Nat}
    (hd : (k.pcb p).fileDescArray i = fileDesc inode pos)
    (hl : fs.fileLength inode < 2147483648) (hpos : pos ≤ fs.fileLength inode + 1)
    (hn : n < 2147483648) :
    let r := readData fs inode pos false n
    (k.sysReadFile fs p i n).1 = r ∧
      SetsFd k p i (fileDesc inode (pos + r.bytes.length)) (k.sysReadFile fs p i n).2 := by
  have hlen := readData_ret_toNat fs inode pos hn
  have hnext := readData_position_le fs inode hl hpos hn
  unfold sysReadFile
  rw [hd]
  dsimp only [fileDesc]
  generalize readData fs inode pos false n = r at *
  by_cases hret : r.ret > 0
  · rw [if_pos hret]
    refine ⟨rfl, rfl, ?_, fun q hq => ?_⟩
    · rw [modifyPcb_self]
      dsimp only
      rw [hlen, Nat.mod_eq_of_lt (by omega)]
    · rw [modifyPcb_ne _ _ hq]
  · rw [if_neg hret]
    have hzero : r.bytes.length = 0 := by
      rw [← hlen]
      exact Int.toNat_of_nonpos (by omega)
    refine ⟨rfl, rfl, ?_, fun _ _ => rfl⟩
    rw [hzero, Nat.add_zero, ← fileDesc, ← hd, Function.update_eq_self]

/-- `sys_read` on an open file descriptor ends at once, with the result of `_sys_read_file`. -/
theorem sysRead_eq_sysReadFile {fs : FileSys} {k : Kernel} {p : Slot} {i : Fin 8}
    {inode pos : Nat} (stack : Mem) {nbytes : Int} (hcur : k.cur = some p)
    (hd : (k.pcb p).fileDescArray i = fileDesc inode pos) (hn : 0 < nbytes) :
    k.sysRead fs stack i.val false nbytes = some
      (.done (k.sysReadFile fs p i nbytes.toNat).1, (k.sysReadFile fs p i nbytes.toNat).2) := by
  have hopen : OpenFd (k.pcb p) i.val := by
    refine ⟨by omega, by omega, ?_⟩
    rw [fdIdx_natCast, hd]
    exact Nat.one_ne_zero
  rw [sysRead_open fs stack hcur hopen hn, fdIdx_natCast, hd]
  rfl

/-- A read of the running process moves its cursor on. -/
theorem sysRead_file {fs : FileSys} {k : Kernel} {p : Slot} {i : Fin 8} {inode pos : Nat}
    (stack : Mem) (nbytes : Int) (hcur : k.cur = some p)
    (hd : (k.pcb p).fileDescArray i = fileDesc inode pos)
    (hl : fs.fileLength inode < 2147483648) (hpos : pos ≤ fs.fileLength inode + 1)
    (hn : 0 < nbytes) (hn' : nbytes < 2147483648) :
    let r := readData fs inode pos false nbytes.toNat
    ∃ k', k.sysRead fs stack i.val false nbytes = some (.done r, k') ∧
      SetsFd k p i (fileDesc inode (pos + r.bytes.length)) k' := by
  intro r
  obtain ⟨hread, hsets⟩ := sysReadFile_spec (n := nbytes.toNat) hd hl hpos (by omega)
  refine ⟨_, ?_, hsets⟩
  rw [sysRead_eq_sysReadFile stack hcur hd hn, hread]

/-! ## Runs -/

/-- The size and the result of a read of at least one byte on descriptor `i` of process `p`,
if the event is one. -/
def readOn (fs : FileSys) (p : Slot) (i : Fin 8) (k : Kernel) : Event → Option (Nat × Transfer)
  | .read stack fd bufNull nbytes =>
      if k.cur = some p ∧ fd = i.val ∧ bufNull = false ∧ 0 < nbytes then
        match k.sysRead fs stack fd bufNull nbytes with
        | some (.done r, _) => some (nbytes.toNat, r)
        | _ => none
      else none
  | _ => none

theorem readOn_read (fs : FileSys) (p : Slot) (i : Fin 8) (k : Kernel) (stack : Mem) (fd : Int)
    (bufNull : Bool) (nbytes : Int) :
    k.readOn fs p i (.read stack fd bufNull nbytes) =
      if k.cur = some p ∧ fd = i.val ∧ bufNull = false ∧ 0 < nbytes then
        match k.sysRead fs stack fd bufNull nbytes with
        | some (.done r, _) => some (nbytes.toNat, r)
        | _ => none
      else none := rfl

/-- The reads on descriptor `i` of process `p` in a run. -/
def readLog (fs : FileSys) (p : Slot) (i : Fin 8) : Kernel → List Event → List (Nat × Transfer)
  | _, [] => []
  | k, e :: es => (k.readOn fs p i e).toList ++
      match step fs k e with
      | some k' => readLog fs p i k' es
      | none => []

theorem readLog_cons {fs : FileSys} {p : Slot} {i : Fin 8} {k k' : Kernel} {e : Event}
    (es : List Event) (h : step fs k e = some k') :
    readLog fs p i k (e :: es) = (k.readOn fs p i e).toList ++ readLog fs p i k' es := by
  show _ ++ (match step fs k e with
    | some k' => readLog fs p i k' es
    | none => []) = _
  rw [h]

/-- The event neither ends process `p` nor closes its descriptor `i`. -/
def KeepsOpen (fs : FileSys) (p : Slot) (i : Fin 8) (k : Kernel) (e : Event) : Prop :=
  Spares fs p k e ∧ (k.cur = some p → e ≠ .close i.val)

/-- Process `p` lives and its descriptor `i` is open on a file, at position `pos`. -/
structure Holds (p : Slot) (i : Fin 8) (inode pos : Nat) (k : Kernel) : Prop where
  onStack : OnStack p k
  desc : (k.pcb p).fileDescArray i = fileDesc inode pos

theorem OnStack.of_cur {k : Kernel} {S : Stacks} (hS : Sound k S) {p : Slot}
    (hp : k.cur = some p) : OnStack p k := ⟨S, hS, k.processTerminal, hS.top_mem hp⟩

/-- Setting another descriptor leaves this one. -/
theorem SetsFd.desc_ne {k k' : Kernel} {p q : Slot} {i j : Fin 8} {f : FileDesc}
    (h : SetsFd k q j f k') (hne : q = p → j ≠ i) :
    (k'.pcb p).fileDescArray i = (k.pcb p).fileDescArray i := by
  by_cases hq : p = q
  · subst hq
    rw [h.table, Function.update_of_ne (hne rfl).symm]
  · rw [h.others p hq]

/-- `sys_open` installs only descriptors that are closed. -/
theorem Sound.open_desc {fs : FileSys} {k k' : Kernel} {S : Stacks} (hS : Sound k S) {p : Slot}
    {i : Fin 8} (hopen : ((k.pcb p).fileDescArray i).IsOpen) {filename : Option (List UInt8)}
    {r : Int} (h : k.sysOpen fs filename = some (r, k')) :
    (k'.pcb p).fileDescArray i = (k.pcb p).fileDescArray i := by
  cases hq : k.cur with
  | none =>
      unfold sysOpen at h
      rw [hq] at h
      cases h
  | some q =>
      have hspec := sysOpen_spec fs hq (hS.top_live hq) filename
      by_cases hfails : OpenFails fs (k.pcb q) filename
      · rw [hspec.fails hfails] at h
        cases h
        rfl
      · obtain ⟨j, f, k₁, hk₁, hleast, _, _, _, hsets⟩ := hspec.opens hfails
        rw [hk₁] at h
        cases h
        refine hsets.desc_ne ?_
        rintro rfl rfl
        exact hleast.closed hopen

/-- `sys_close` of another descriptor. -/
theorem Sound.close_desc {k k' : Kernel} {S : Stacks} (hS : Sound k S) {p : Slot} {i : Fin 8}
    {fd r : Int} (hne : k.cur = some p → fd ≠ i.val) (h : k.sysClose fd = some (r, k')) :
    (k'.pcb p).fileDescArray i = (k.pcb p).fileDescArray i := by
  cases hq : k.cur with
  | none =>
      unfold sysClose at h
      rw [hq] at h
      split at h
      · cases h; rfl
      · cases h
  | some q =>
      have hspec := sysClose_spec hq (hS.top_live hq) fd
      by_cases hok : 2 ≤ fd ∧ OpenFd (k.pcb q) fd
      · obtain ⟨k₁, hk₁, hsets⟩ := hspec.closes hok.1 hok.2
        rw [hk₁] at h
        cases h
        refine hsets.desc_ne ?_
        rintro rfl hidx
        have hval := fdIdx_val fd hok.2.1 hok.2.2.1
        rw [hidx] at hval
        exact hne hq hval.symm
      · rw [hspec.fails hok] at h
        cases h
        rfl

theorem sysReadFile_desc_ne (fs : FileSys) (k : Kernel) {p q : Slot} {i j : Fin 8} (n : Nat)
    (hne : q = p → j ≠ i) :
    (((k.sysReadFile fs q j n).2).pcb p).fileDescArray i = (k.pcb p).fileDescArray i := by
  unfold sysReadFile
  dsimp only
  split
  · by_cases hq : p = q
    · subst hq
      dsimp only
      rw [modifyPcb_self]
      exact Function.update_of_ne (hne rfl).symm ..
    · dsimp only
      rw [modifyPcb_ne _ _ hq]
  · rfl

/-- A call of `sys_read` that does not read a file through this descriptor does not change
it. -/
theorem sysRead_desc {fs : FileSys} {k k' : Kernel} {p : Slot} {i : Fin 8} {stack : Mem}
    {fd nbytes : Int} {bufNull : Bool} {r : ReadOutcome}
    (hother : ¬ (k.cur = some p ∧ fd = i.val ∧ bufNull = false ∧ 0 < nbytes ∧
      ((k.pcb p).fileDescArray i).fileOpsTable = some .file))
    (h : k.sysRead fs stack fd bufNull nbytes = some (r, k')) :
    (k'.pcb p).fileDescArray i = (k.pcb p).fileDescArray i := by
  unfold sysRead at h
  split at h
  · cases h; rfl
  · rename_i hargs
    obtain ⟨q, hq, h⟩ := Option.bind_eq_some_iff.mp h
    dsimp only at h
    split at h
    · cases h; rfl
    · obtain ⟨ops, hops, h⟩ := Option.bind_eq_some_iff.mp h
      cases ops with
      | stdIn =>
          obtain ⟨c, _, heq⟩ := Option.map_eq_some_iff.mp h
          cases heq
          rfl
      | stdOut => cases h; rfl
      | rtc =>
          obtain ⟨k₁, hk₁, heq⟩ := Option.map_eq_some_iff.mp h
          cases heq
          rw [((still_reloadCounter hk₁).pcbStill p).fds]
      | file =>
          cases h
          refine sysReadFile_desc_ne fs k _ ?_
          -- The arguments have passed the checks of `sys_read`.
          rintro rfl hidx
          have hval := fdIdx_val fd (by omega) (by unfold MAX_FD_IDX at hargs; omega)
          rw [hidx] at hval hops
          refine hother ⟨hq, hval.symm, ?_, by omega, hops⟩
          cases bufNull with
          | false => rfl
          | true => simp at hargs
      | dir =>
          cases h
          rw [((still_sysReadDirectory fs k stack).pcbStill p).fds]

/-- An event that keeps a descriptor open and does not read a file through it leaves it as it
is. -/
theorem OnStack.desc_step {fs : FileSys} {p : Slot} {i : Fin 8} {k k' : Kernel} {e : Event}
    (h : OnStack p k) (hopen : ((k.pcb p).fileDescArray i).IsOpen) (hkeep : KeepsOpen fs p i k e)
    (hread : ∀ stack nbytes, e = .read stack i.val false nbytes → k.cur = some p → 0 < nbytes →
      ((k.pcb p).fileDescArray i).fileOpsTable ≠ some .file)
    (hstep : Kernel.step fs k e = some k') :
    (k'.pcb p).fileDescArray i = (k.pcb p).fileDescArray i := by
  obtain ⟨S, hS, _⟩ := id h
  by_cases htouch : e.Touches
  · cases e with
    | «open» filename =>
        obtain ⟨⟨r, k₁⟩, hr, rfl⟩ := Option.map_eq_some_iff.mp hstep
        exact hS.open_desc hopen hr
    | close fd =>
        obtain ⟨⟨r, k₁⟩, hr, rfl⟩ := Option.map_eq_some_iff.mp hstep
        refine hS.close_desc (fun hcur hfd => ?_) hr
        exact hkeep.2 hcur (by rw [hfd])
    | read stack fd bufNull nbytes =>
        obtain ⟨⟨r, k₁⟩, hr, rfl⟩ := Option.map_eq_some_iff.mp hstep
        refine sysRead_desc (fun hthis => ?_) hr
        obtain ⟨hcur, rfl, rfl, hn, hfile⟩ := hthis
        exact hread stack nbytes rfl hcur hn hfile
    | vidmap screenStart =>
        obtain ⟨⟨r, k₁⟩, hr, rfl⟩ := Option.map_eq_some_iff.mp hstep
        rcases sysVidmap_cases hr with ⟨_, rfl⟩ | ⟨_, q, v, _, rfl⟩
        · rfl
        · by_cases hq : p = q
          · subst hq
            rw [modifyPcb_self]
            rfl
          · rw [modifyPcb_ne _ _ hq]
            rfl
    | _ => exact htouch.elim
  · rw [(h.pcbStill hkeep.1 htouch hstep).fds]

theorem Holds.isOpen {p : Slot} {i : Fin 8} {inode pos : Nat} {k : Kernel}
    (h : Holds p i inode pos k) : ((k.pcb p).fileDescArray i).IsOpen := by
  rw [h.desc]
  exact Nat.one_ne_zero

/-- An event that is no read of the descriptor leaves it as it is. -/
theorem Holds.desc_of_readOn_none {fs : FileSys} {p : Slot} {i : Fin 8} {inode pos : Nat}
    {k k' : Kernel} {e : Event} (h : Holds p i inode pos k) (hkeep : KeepsOpen fs p i k e)
    (hread : k.readOn fs p i e = none) (hstep : Kernel.step fs k e = some k') :
    (k'.pcb p).fileDescArray i = (k.pcb p).fileDescArray i := by
  refine h.onStack.desc_step h.isOpen hkeep ?_ hstep
  -- On a file the call ends at once, so that it would have been logged.
  rintro stack nbytes rfl hcur hn _
  rw [readOn_read, if_pos ⟨hcur, rfl, rfl, hn⟩,
    sysRead_eq_sysReadFile stack hcur h.desc hn] at hread
  cases hread

/-- A logged read is a read of the cursor. -/
theorem Holds.readOn_some {fs : FileSys} {p : Slot} {i : Fin 8} {inode pos n : Nat}
    {k k' : Kernel} {e : Event} {r : Transfer} (h : Holds p i inode pos k)
    (hl : fs.fileLength inode < 2147483648) (hpos : pos ≤ fs.fileLength inode + 1)
    (hread : k.readOn fs p i e = some (n, r)) (hn : n < 2147483648)
    (hstep : Kernel.step fs k e = some k') :
    0 < n ∧ r = readData fs inode pos false n ∧
      (k'.pcb p).fileDescArray i = fileDesc inode (pos + r.bytes.length) := by
  cases e with
  | read stack fd bufNull nbytes =>
      rw [readOn_read] at hread
      split at hread
      · rename_i hthis
        obtain ⟨hcur, rfl, rfl, hbytes⟩ := hthis
        have hs : (k.sysRead fs stack i.val false nbytes).map (fun r => r.2) = some k' := hstep
        have hlogged : n = nbytes.toNat := by
          rw [sysRead_eq_sysReadFile stack hcur h.desc hbytes] at hread
          exact (Prod.mk.inj (Option.some.inj hread)).1.symm
        obtain ⟨k₁, hk₁, hsets⟩ := sysRead_file stack nbytes hcur h.desc hl hpos hbytes (by omega)
        rw [hk₁] at hread hs
        cases hread
        cases hs
        refine ⟨by omega, rfl, ?_⟩
        rw [hsets.table, Function.update_self]
      · cases hread
  | _ => cases hread

/-- **A file descriptor is a cursor**: in a run that keeps it open, the reads on it are those
of the cursor, and its position moves with them. -/
theorem Holds.run {fs : FileSys} {p : Slot} {i : Fin 8} {inode pos : Nat} {k k' : Kernel}
    {es : List Event} (h : Holds p i inode pos k) (hl : fs.fileLength inode < 2147483648)
    (hpos : pos ≤ fs.fileLength inode + 1)
    (hkeep : StepSystem.Guarded (Kernel.step fs) (KeepsOpen fs p i) k es)
    (hrun : StepSystem.run (Kernel.step fs) k es = some k')
    (hsum : ((readLog fs p i k es).map Prod.fst).sum < 2147483648) :
    (readLog fs p i k es).map Prod.snd
        = cursorReads fs inode pos ((readLog fs p i k es).map Prod.fst) ∧
      (∀ n ∈ (readLog fs p i k es).map Prod.fst, 0 < n) ∧
      ((k'.pcb p).fileDescArray i) = fileDesc inode
        (pos + ((readLog fs p i k es).flatMap fun x => x.2.bytes).length) := by
  induction es generalizing k pos with
  | nil =>
      cases hrun
      refine ⟨rfl, ?_, h.desc⟩
      intro n hn
      cases hn
  | cons e es ih =>
      obtain ⟨m, hm, hrest⟩ := StepSystem.run_cons_eq_some.mp hrun
      have hstack := h.onStack.step hkeep.1.1 hm
      rw [readLog_cons es hm] at hsum ⊢
      cases hread : k.readOn fs p i e with
      | none =>
          rw [hread] at hsum
          have hdesc := (h.desc_of_readOn_none hkeep.1 hread hm).trans h.desc
          exact ih ⟨hstack, hdesc⟩ hpos (hkeep.2 m hm) hrest hsum
      | some x =>
          obtain ⟨n, r⟩ := x
          rw [hread] at hsum
          simp only [Option.toList_some, List.singleton_append, List.map_cons, List.sum_cons,
            List.flatMap_cons, List.length_append] at hsum ⊢
          obtain ⟨hn, rfl, hdesc⟩ := h.readOn_some hl hpos hread (by omega) hm
          have hnext := readData_position_le fs inode hl hpos (n := n) (by omega)
          obtain ⟨hreads, hall, hend⟩ :=
            ih ⟨hstack, hdesc⟩ hnext (hkeep.2 m hm) hrest (by omega)
          refine ⟨?_, ?_, ?_⟩
          · rw [hreads]
            rfl
          · intro n' hn'
            rcases List.mem_cons.mp hn' with rfl | hn'
            · exact hn
            · exact hall n' hn'
          · rw [hend, Nat.add_assoc]

/-! ## Reads compose -/

/-- The descriptor that `sys_open` has just installed. -/
theorem Sound.opened {fs : FileSys} {k k' : Kernel} {S : Stacks} (hS : Sound k S)
    {p : Slot} {i : Fin 8} {filename : Option (List UInt8)} (hcur : k.cur = some p)
    (hopen : k.sysOpen fs filename = some ((i.val : Int), k')) :
    OnStack p k' ∧ ∃ d, openedDesc d = some ((k'.pcb p).fileDescArray i) := by
  have hspec := sysOpen_spec fs hcur (hS.top_live hcur) filename
  have hok : ¬ OpenFails fs (k.pcb p) filename := by
    intro hfails
    rw [hspec.fails hfails] at hopen
    have hval := (Prod.mk.inj (Option.some.inj hopen)).1
    omega
  obtain ⟨j, f, k₁, hk₁, _, hf, _, _, hsets⟩ := hspec.opens hok
  rw [hk₁] at hopen
  obtain ⟨hval, rfl⟩ := Prod.mk.inj (Option.some.inj hopen)
  obtain rfl : j = i := Fin.ext (by omega)
  have hdesc : (k₁.pcb p).fileDescArray j = f := by rw [hsets.table, Function.update_self]
  have hstep : step fs k (.open filename) = some k₁ := Option.map_eq_some_iff.mpr ⟨_, hk₁, rfl⟩
  have hspare : Spares fs p k (.open filename) := by
    rintro ⟨_, ⟨_, _, h⟩ | ⟨_, _, h⟩ | ⟨_, _, _, h, _⟩⟩ <;> cases h
  obtain ⟨d, _, hd⟩ := Option.bind_eq_some_iff.mp hf
  exact ⟨(OnStack.of_cur hS hcur).step hspare hstep, d, by rw [hdesc, hd]⟩

end Kernel

end Ext2Kernel
