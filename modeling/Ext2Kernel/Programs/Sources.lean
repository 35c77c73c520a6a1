import Ext2Kernel.Process.DirectoryRuns
import Ext2Kernel.Programs.FilterProgram

set_option autoImplicit false

/-! # Files and directories as sources

The two kinds of descriptors that programs read to the end. A file delivers its bytes and the one
behind them, in pieces of any size, and nothing that others do is seen. A directory delivers the
padded names of its entries, one with each read of 32 bytes, as long as only this process reads
the directory on its terminal.
-/

namespace Ext2Kernel

open ByteMem Kernel

/-- The bytes that reads of a file deliver: those of the file, and the one behind them. -/
def FileSys.fileContent (fs : FileSys) (inode : Nat) : List UInt8 :=
  (List.range (fs.fileLength inode + 1)).map (fs.byteAt inode)

/-- The bytes that reads of the directory deliver. -/
def FileSys.dirContent (fs : FileSys) : List UInt8 :=
  (List.range fs.entries).flatMap fs.paddedName

namespace Programs

/-! ## Opening -/

/-- Process `p` is alive and has a free descriptor. -/
def Ready (p : Slot) (k : Kernel) : Prop :=
  OnStack p k ∧ ∃ j : Fin 8, 2 ≤ j.val ∧ ¬ ((k.pcb p).fileDescArray j).IsOpen

section

variable {fs : FileSys} {p : Slot} {k k' : Kernel} {e : Event} {name : List UInt8} {fd : Int}

theorem Ready.other (h : Ready p k) (hspare : Spares fs p k e)
    (hcalm : k.cur = some p → ¬ e.Touches) (hstep : step fs k e = some k') : Ready p k' := by
  refine ⟨h.1.step hspare hstep, ?_⟩
  rw [h.1.table_still hspare hcalm hstep]
  exact h.2

/-- A call is an event that ends no process. -/
theorem step_of_open {r : Int} (hopen : k.sysOpen fs (some name) = some (r, k')) :
    step fs k (.open (some name)) = some k' ∧ Spares fs p k (.open (some name)) :=
  ⟨Option.map_eq_some_iff.mpr ⟨_, hopen, rfl⟩, fun hends => Event.not_ends rfl hends.2⟩

theorem Ready.opens {f : FileDesc} (h : Ready p k) (hcur : k.cur = some p)
    (hname : (readDentryByName fs (some name)).bind openedDesc = some f)
    (hopen : k.sysOpen fs (some name) = some (fd, k')) :
    ∃ i : Fin 8, fd = i.val ∧ 2 ≤ i.val ∧ OnStack p k' ∧ (k'.pcb p).fileDescArray i = f := by
  obtain ⟨⟨S, hS, hmem⟩, j, hj, hfree⟩ := h
  have hok : ¬ OpenFails fs (k.pcb p) (some name) := by
    rintro (hfull | hunknown)
    · exact hfree (hfull j hj)
    · rw [hname] at hunknown
      cases hunknown
  obtain ⟨i, f', k₁, hk₁, hleast, hf', _, _, hsets⟩ :=
    (sysOpen_spec fs hcur (hS.top_live hcur) (some name)).opens hok
  obtain ⟨hstep, hspare⟩ := step_of_open (p := p) hopen
  have hstack : OnStack p k' := OnStack.step ⟨S, hS, hmem⟩ hspare hstep
  rw [hk₁] at hopen
  obtain ⟨rfl, rfl⟩ := Prod.mk.inj (Option.some.inj hopen)
  rw [hname] at hf'
  cases hf'
  exact ⟨i, rfl, hleast.ge, hstack, by rw [hsets.table, Function.update_self]⟩

/-- Of the descriptors that `sys_open` installs, only that of a file has the file operations. -/
theorem opened_file {f : FileDesc}
    (hname : (readDentryByName fs (some name)).bind openedDesc = some f)
    (hops : f.fileOpsTable = some .file) : f = fileDesc f.inode 0 := by
  obtain ⟨d, _, hd⟩ := Option.bind_eq_some_iff.mp hname
  unfold openedDesc at hd
  split at hd
  · cases hd
    cases hops
  · split at hd
    · cases hd
      cases hops
    · split at hd
      · cases hd
        rfl
      · cases hd

theorem Ready.not_opens (h : Ready p k) (hcur : k.cur = some p)
    (hname : (readDentryByName fs (some name)).bind openedDesc = none)
    (hopen : k.sysOpen fs (some name) = some (fd, k')) : fd = -1 := by
  obtain ⟨⟨S, hS, _⟩, _⟩ := h
  rw [(sysOpen_spec fs hcur (hS.top_live hcur) (some name)).fails (Or.inr hname)] at hopen
  exact (Prod.mk.inj (Option.some.inj hopen)).1.symm

end

/-! ## Files -/

section

variable {fs : FileSys} {inode pos n : Nat} {p : Slot} {i : Fin 8}

/-- One read delivers the next piece. -/
theorem readData_bytes_eq_take (hi : inode < DIR_ENTRIES) (hl : fs.fileLength inode < 2147483648)
    (hpos : pos ≤ fs.fileLength inode + 1) (hn : n < 2147483648) :
    (readData fs inode pos false n).bytes = ((fs.fileContent inode).drop pos).take n := by
  rw [(readData_bytes fs pos hi hn).1, readDataBytes_eq fs inode pos n (by omega) (by omega)]
  unfold FileSys.fileContent FileSys.avail
  apply List.ext_getElem
  · rw [List.length_map, List.length_range, List.length_take, List.length_drop, List.length_map,
      List.length_range]
  · intro i _ _
    rw [List.getElem_map, List.getElem_range, List.getElem_take, List.getElem_drop,
      List.getElem_map, List.getElem_range]

/-- The sizes of reads that a file serves. -/
def FileSize (n : Nat) : Prop := 0 < n ∧ n < 2147483648

/-- Descriptor `i` is at position `pos` of the file. -/
def FileAt (fs : FileSys) (p : Slot) (inode : Nat) (i : Fin 8) (pos : Nat) (k : Kernel) : Prop :=
  Holds p i inode pos k ∧ pos ≤ fs.fileLength inode + 1

theorem step_of_read {k k' : Kernel} {stack : Mem} {fd nbytes : Int} {r : ReadOutcome}
    (hread : k.sysRead fs stack fd false nbytes = some (r, k')) :
    step fs k (.read stack fd false nbytes) = some k' ∧
      Spares fs p k (.read stack fd false nbytes) :=
  ⟨Option.map_eq_some_iff.mpr ⟨_, hread, rfl⟩, fun hends => Event.not_ends rfl hends.2⟩

/-- **A file is a source**, whatever the others do. -/
theorem file_source (p : Slot) (hi : inode < DIR_ENTRIES) (hl : fs.fileLength inode < 2147483648)
    (ok : Kernel → Event → Prop) (i : Fin 8) :
    Source fs p i (fs.fileContent inode) FileSize ok (FileAt fs p inode i) where
  isOpen h := ⟨h.1.onStack, h.1.isOpen⟩
  size h := h.1
  other := by
    rintro pos k e k' ⟨hholds, hpos⟩ _ hspare hcalm hstep
    refine ⟨⟨hholds.onStack.step hspare hstep, ?_⟩, hpos⟩
    rw [hholds.onStack.table_still hspare hcalm hstep]
    exact hholds.desc
  read := by
    rintro pos k n stack ⟨hholds, hpos⟩ hcur ⟨hpositive, hsmall⟩
    obtain ⟨k', hread, hsets⟩ := sysRead_file stack n hcur hholds.desc hl hpos (by omega) (by omega)
    rw [Int.toNat_natCast] at hread hsets
    obtain ⟨hstep, hspare⟩ := step_of_read (p := p) hread
    have hstack := hholds.onStack.step hspare hstep
    have hdesc : (k'.pcb p).fileDescArray i
        = fileDesc inode (pos + (readData fs inode pos false n).bytes.length) := by
      rw [hsets.table, Function.update_self]
    have hnext := readData_position_le fs inode hl hpos hsmall
    have hret : (readData fs inode pos false n).ret ≠ -1 := by
      rw [(readData_bytes fs pos hi hsmall).2]
      omega
    exact ⟨_, k', hread, hret, readData_bytes_eq_take hi hl hpos hsmall,
      ⟨hstack, Holds.isOpen ⟨hstack, hdesc⟩⟩, fun _ => ⟨⟨hstack, hdesc⟩, hnext⟩⟩

end

/-! ## Directories -/

section

variable {fs : FileSys} {p : Slot} {t : Terminal} {i : Fin 8}

/-- Descriptor `i` lists the directory and has delivered `pos` bytes. -/
structure DirAt (fs : FileSys) (p : Slot) (t : Terminal) (i : Fin 8) (pos : Nat) (k : Kernel) :
    Prop where
  onStack : OnStack p k
  onTerminal : OnTerminal p t k
  desc : (k.pcb p).fileDescArray i = dirDesc
  flag : pos = FILENAME_LEN * k.readDirFlag t
  le : k.readDirFlag t ≤ fs.entries

/-- Nobody else reads the directory on terminal `t`. -/
def ListsAlone (p : Slot) (t : Terminal) (k : Kernel) (e : Event) : Prop :=
  k.processTerminal = t → ∀ q j, k.ListsThrough q j e → q = p

theorem paddedName_length (fs : FileSys) (j : Nat) : (fs.paddedName j).length = FILENAME_LEN := by
  have hle : (fs.entryName j).length ≤ FILENAME_LEN := by
    unfold FileSys.entryName
    rw [fieldString_eq_takeWhile]
    refine Nat.le_trans (List.takeWhile_sublist _).length_le ?_
    rw [List.length_map, List.length_range']
  unfold FileSys.paddedName
  rw [List.length_append, List.length_replicate]
  omega

/-- The names of some entries. -/
theorem length_flatMap_paddedName (fs : FileSys) (l : List Nat) :
    (l.flatMap fs.paddedName).length = FILENAME_LEN * l.length := by
  induction l with
  | nil => rfl
  | cons j l ih =>
      rw [List.flatMap_cons, List.length_append, paddedName_length, ih, List.length_cons,
        Nat.mul_succ, Nat.add_comm]

/-- What is left from entry `j` on. -/
theorem dirContent_drop (fs : FileSys) {j : Nat} (hj : j ≤ fs.entries) :
    fs.dirContent.drop (FILENAME_LEN * j)
      = (List.range' j (fs.entries - j)).flatMap fs.paddedName := by
  have hsplit : List.range fs.entries = List.range' 0 j ++ List.range' j (fs.entries - j) := by
    have happend := List.range'_append_1 (s := 0) (m := j) (n := fs.entries - j)
    rw [Nat.zero_add, Nat.add_sub_cancel' hj] at happend
    rw [happend, List.range_eq_range']
  have hfront := length_flatMap_paddedName fs (List.range' 0 j)
  rw [List.length_range'] at hfront
  unfold FileSys.dirContent
  rw [hsplit, List.flatMap_append, List.drop_left' hfront]

/-- One read of 32 bytes delivers the next name. -/
theorem listing_bytes_eq_take (fs : FileSys) {j : Nat} (hj : j ≤ fs.entries) :
    (fs.listing j).bytes = (fs.dirContent.drop (FILENAME_LEN * j)).take FILENAME_LEN := by
  rw [dirContent_drop fs hj]
  unfold FileSys.listing
  by_cases hlt : j < fs.entries
  · obtain ⟨n, hn⟩ : ∃ n, fs.entries - j = n + 1 := ⟨fs.entries - j - 1, by omega⟩
    rw [if_pos hlt, hn, List.range'_succ, List.flatMap_cons,
      List.take_left' (paddedName_length fs j)]
    unfold Transfer.bytes
    exact List.take_of_length_le (Nat.le_of_eq (paddedName_length fs j))
  · rw [if_neg hlt, show fs.entries - j = 0 by omega]
    rfl

theorem ListsAlone.of_cur {k : Kernel} {e : Event} (h : k.cur = some p) : ListsAlone p t k e := by
  intro _ q j hlists
  cases e with
  | read stack fd bufNull nbytes => exact Option.some.inj (hlists.1.symm.trans h)
  | _ => exact hlists.elim

/-- Only the reads of the process move the position of its terminal. -/
theorem dirFlag_still {k k' : Kernel} {e : Event} (hok : ListsAlone p t k e)
    (hcalm : k.cur = some p → ¬ e.Touches) (hstep : step fs k e = some k') :
    k'.readDirFlag t = k.readDirFlag t := by
  refine step_readDirFlag (fun q j hlists hterm => ?_) hstep
  obtain rfl := hok hterm q j hlists
  cases e with
  | read stack fd bufNull nbytes => exact hcalm hlists.1 trivial
  | _ => exact hlists.elim

/-- **A directory is a source** while nobody else reads it on the terminal. -/
theorem dir_source (hle : fs.entries ≤ DIR_ENTRIES) (p : Slot) (t : Terminal) (i : Fin 8) :
    Source fs p i fs.dirContent (· = FILENAME_LEN) (ListsAlone p t) (DirAt fs p t i) where
  isOpen h := by
    refine ⟨h.onStack, ?_⟩
    rw [h.desc]
    exact Nat.one_ne_zero
  size := by
    rintro n rfl
    decide
  other := by
    intro pos k e k' h hok hspare hcalm hstep
    have hflag := dirFlag_still hok hcalm hstep
    refine ⟨h.onStack.step hspare hstep, h.onTerminal.step hspare hstep, ?_, ?_, ?_⟩
    · rw [h.onStack.table_still hspare hcalm hstep]
      exact h.desc
    · rw [hflag]
      exact h.flag
    · rw [hflag]
      exact h.le
  read := by
    rintro pos k n stack h hcur rfl
    have hterm := h.onTerminal.running hcur
    have hpos : (0 : Int) < (FILENAME_LEN : Nat) := by decide
    have hread := sysRead_dir fs stack hcur h.desc hpos
    rw [sysReadDirectory_eq hle, hterm] at hread
    dsimp only at hread
    have hbytes := listing_bytes_eq_take fs h.le
    rw [← h.flag] at hbytes
    obtain ⟨hstep, hspare⟩ := step_of_read (p := p) hread
    have hstack := h.onStack.step hspare hstep
    refine ⟨_, _, hread, ?_, hbytes, ⟨hstack, ?_⟩, fun hsome => ?_⟩
    · have hname : ((FILENAME_LEN : Nat) : Int) ≠ -1 := by decide
      unfold FileSys.listing
      split
      · exact hname
      · decide
    · show ((k.pcb p).fileDescArray i).IsOpen
      rw [h.desc]
      exact Nat.one_ne_zero
    · have hlt : k.readDirFlag t < fs.entries := by
        by_contra hge
        unfold FileSys.listing at hsome
        rw [if_neg hge] at hsome
        exact hsome rfl
      have hlen : (fs.listing (k.readDirFlag t)).bytes.length = FILENAME_LEN := by
        unfold FileSys.listing Transfer.bytes
        rw [if_pos hlt]
        dsimp only
        rw [List.length_take, paddedName_length]
        rfl
      have hnext : nextPosition fs (k.readDirFlag t) = k.readDirFlag t + 1 := if_pos hlt
      refine ⟨hstack, h.onTerminal.step hspare hstep, h.desc, ?_, ?_⟩
      · dsimp only
        rw [Function.update_self, hlen, hnext, h.flag, Nat.mul_succ]
      · dsimp only
        rw [Function.update_self, hnext]
        omega

end

end Programs

end Ext2Kernel
