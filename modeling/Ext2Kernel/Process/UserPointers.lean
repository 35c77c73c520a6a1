import Ext2Kernel.Process.BufferSizes
import Ext2Kernel.Process.CallEffects

set_option autoImplicit false

/-! # User pointers

Where the calls store that get a pointer from the user. Only `sys_vidmap` looks at the
pointer, and only at its first byte; for the others it is the paging that decides. A store to
a page that is not present faults, and a store to the kernel or to the video page at 132MB
succeeds, because the kernel makes it.
-/

namespace Ext2Kernel

open Kernel ByteMem

/-! ## Present pages -/

/-- The entries of `page_table` that `paging_init` makes present: video memory and the three
terminal buffers. -/
def pageTablePresent (i : Nat) : Bool := VIDEO / PAGE_4KB ≤ i && i ≤ VIDEO / PAGE_4KB + 3

namespace Kernel

/-- Is the page of the virtual address `a` present? A directory entry without a page table is
a page of 4MB. -/
def presentAt (k : Kernel) (a : Nat) : Bool :=
  (k.pageDirectory (a / MB_4)).flags % 2 = 1 &&
    match (k.pageDirectory (a / MB_4)).base with
    | .phys _ => true
    | .pageTable => pageTablePresent (a / PAGE_4KB % 1024)
    | .pageTableVidmap => (k.pageTableVidmap (a / PAGE_4KB % 1024)).flags % 2 = 1

/-- The addresses at which a call stores that stores `len` bytes from the pointer `buf` on: at
a page that is not present it ends with a page fault. -/
def storedAt (k : Kernel) : Nat → Nat → List Nat
  | _, 0 => []
  | buf, len + 1 => if k.presentAt buf then buf :: k.storedAt (addr (buf + 1)) len else []

/-! ## The user page -/

/-- The user page stays as it is, with the same processes, or is that of a process. -/
def PageStep (k k' : Kernel) : Prop :=
  (k'.pageDirectory SYS_VIRTUAL_MEM = k.pageDirectory SYS_VIRTUAL_MEM
    ∧ k'.curPcbPtr = k.curPcbPtr) ∨ ∃ p, k'.pageDirectory SYS_VIRTUAL_MEM = userPage p

theorem pageStep_rtcTick (k : Kernel) (t : Terminal) :
    (k.rtcTick t).pageDirectory = k.pageDirectory ∧ (k.rtcTick t).curPcbPtr = k.curPcbPtr := by
  unfold rtcTick
  split
  · split <;> exact ⟨rfl, rfl⟩
  · exact ⟨rfl, rfl⟩

theorem pageStep_sysExecute {fs : FileSys} {fr : Frame} {command : Option (List UInt8)}
    {k k' : Kernel} {r : ExecResult} (h : k.sysExecute fs fr command = some (r, k')) :
    PageStep k k' := by
  have hspec := sysExecute_spec h
  cases r with
  | ret v => exact Or.inl ⟨by rw [hspec.2.page], hspec.2.cur⟩
  | enter eip image =>
      obtain ⟨p, hp⟩ := hspec
      exact Or.inr ⟨p, hp.page⟩
  | fault =>
      obtain ⟨p, hp⟩ := hspec
      exact Or.inr ⟨p, hp.page⟩

/-- A halt ends with the page of the parent or of a new shell. -/
theorem userPage_sysHalt {fs : FileSys} {fr : Frame} {status : UInt8} {k k' : Kernel}
    {r : HaltResult} (h : k.sysHalt fs fr status = some (r, k')) :
    ∃ p, k'.pageDirectory SYS_VIRTUAL_MEM = userPage p := by
  obtain ⟨p, _, ⟨q, _, hres⟩ | ⟨_, n, hn⟩⟩ := sysHalt_spec h
  · exact ⟨_, hres.page⟩
  · exact ⟨n, hn.page⟩

theorem pageStep_scheduling {fs : FileSys} {fr : Frame} {k k' : Kernel}
    (h : k.scheduling fs fr = some k') : PageStep k k' := by
  rcases scheduling_spec h with ⟨_, rfl⟩ | ⟨p, _, hsw⟩ | ⟨_, hret | ⟨n, hn⟩⟩
  · exact Or.inl ⟨rfl, rfl⟩
  · exact Or.inr ⟨_, hsw.page⟩
  · -- The terminal scheduled next stays empty.
    have hsaved := saveFrame_eq k k.processTerminal fr
    refine Or.inl ⟨?_, ?_⟩
    · rw [hret.page]
      show (k.saveFrame k.processTerminal fr).pageDirectory SYS_VIRTUAL_MEM = _
      rw [hsaved]
    · rw [hret.cur]
      show (k.saveFrame k.processTerminal fr).curPcbPtr = _
      rw [hsaved]
  · exact Or.inr ⟨n, hn.page⟩

theorem step_pageStep {fs : FileSys} {k k' : Kernel} {e : Event} (h : step fs k e = some k') :
    PageStep k k' := by
  by_cases he : e.KeepsProcesses
  · have hcall := step_callEffect he h
    exact Or.inl ⟨hcall.page, hcall.cur⟩
  · cases e with
    | execute fr command =>
        obtain ⟨⟨r, k₁⟩, hr, rfl⟩ := Option.map_eq_some_iff.mp h
        rcases executeCall_spec hr with ⟨hexec, _⟩ | ⟨_, k₂, x, _, hexc⟩
        · exact pageStep_sysExecute hexec
        · exact Or.inr (userPage_sysHalt hexc)
    | halt fr status =>
        obtain ⟨⟨r, k₁⟩, hr, rfl⟩ := Option.map_eq_some_iff.mp h
        exact Or.inr (userPage_sysHalt hr)
    | exception fr index =>
        obtain ⟨⟨r, k₁⟩, hr, rfl⟩ := Option.map_eq_some_iff.mp h
        exact Or.inr (userPage_sysHalt hr)
    | pit fr => exact pageStep_scheduling h
    | rtc =>
        obtain rfl := Option.some.inj h
        have h₀ := pageStep_rtcTick k 0
        have h₁ := pageStep_rtcTick (k.rtcTick 0) 1
        have h₂ := pageStep_rtcTick ((k.rtcTick 0).rtcTick 1) 2
        refine Or.inl ⟨?_, ?_⟩
        · show ((((k.rtcTick 0).rtcTick 1).rtcTick 2).pageDirectory) SYS_VIRTUAL_MEM = _
          rw [h₂.1, h₁.1, h₀.1]
        · show (((k.rtcTick 0).rtcTick 1).rtcTick 2).curPcbPtr = _
          rw [h₂.2, h₁.2, h₀.2]
    | _ => exact absurd trivial he

/-- While a process runs, the user page is that of a process. -/
theorem Reachable.userPage {fs : FileSys} {k : Kernel} {p : Slot} (h : Reachable fs k)
    (hcur : k.cur = some p) : ∃ q, k.pageDirectory SYS_VIRTUAL_MEM = userPage q := by
  obtain ⟨m, hm⟩ := h
  have hinv : (∃ q, k.pageDirectory SYS_VIRTUAL_MEM = Kernel.userPage q)
      ∨ ∀ t, k.curPcbPtr t = none := by
    refine StepSystem.Reachable.invariant (P := fun k =>
      (∃ q, k.pageDirectory SYS_VIRTUAL_MEM = Kernel.userPage q)
        ∨ ∀ t, k.curPcbPtr t = none) ?_ hm (Or.inr fun _ => rfl)
    intro k e k' hk hstep
    rcases step_pageStep hstep with ⟨hpage, hsame⟩ | hnew
    · rw [hpage, hsame]
      exact hk
    · exact Or.inl hnew
  refine hinv.resolve_right fun hnone => ?_
  rw [show k.cur = none from hnone _] at hcur
  cases hcur

/-! ## Which pointers are safe -/

/-- A pointer for `len` bytes that no store outside the user page comes from: nothing is
stored, the first byte faults, or the buffer begins in the user page and either ends there or
is cut by a fault at 132MB. -/
def PointerSafe (k : Kernel) (buf len : Nat) : Prop :=
  len = 0 ∨ k.presentAt buf = false ∨
    (USER_START ≤ buf ∧ buf < USER_END ∧ (buf + len ≤ USER_END ∨ k.presentAt USER_END = false))

theorem presentAt_user {k : Kernel} {q : Slot}
    (hk : k.pageDirectory SYS_VIRTUAL_MEM = userPage q) {a : Nat} (hlow : USER_START ≤ a)
    (hhigh : a < USER_END) : k.presentAt a = true := by
  have hdiv : a / MB_4 = SYS_VIRTUAL_MEM := by
    unfold USER_START USER_END at *
    unfold MB_4 SYS_VIRTUAL_MEM
    omega
  have hflags : (userPage q).flags % 2 = 1 := by
    show (PAGE_SIZE ||| USER ||| PRESENT ||| READ_WRITE) % 2 = 1
    decide
  unfold presentAt
  rw [hdiv, hk, hflags]
  rfl

/-- A buffer that crosses the end of the user page reaches the page behind it, if that is
present. -/
theorem mem_storedAt_end {k : Kernel} {q : Slot}
    (hk : k.pageDirectory SYS_VIRTUAL_MEM = userPage q) (hend : k.presentAt USER_END = true) :
    ∀ (len buf : Nat), USER_START ≤ buf → buf < USER_END → USER_END < buf + len →
      USER_END ∈ k.storedAt buf len
  | 0, buf, _, hhigh, hlen => by omega
  | len + 1, buf, hlow, hhigh, hlen => by
      have haddr : addr (buf + 1) = buf + 1 := by
        unfold USER_END at hhigh
        unfold addr
        omega
      rw [storedAt, if_pos (presentAt_user hk hlow hhigh), haddr]
      refine List.mem_cons_of_mem _ ?_
      by_cases hnext : buf + 1 < USER_END
      · exact mem_storedAt_end hk hend len (buf + 1) (by omega) hnext (by omega)
      · cases len with
        | zero => omega
        | succ len =>
            rw [show buf + 1 = USER_END by omega, storedAt, if_pos hend]
            exact List.mem_cons_self

/-- A buffer inside the user page is stored there; one that crosses its end is cut there if
the page behind is not present. -/
theorem storedAt_inside {k : Kernel} {q : Slot}
    (hk : k.pageDirectory SYS_VIRTUAL_MEM = userPage q) :
    ∀ (len buf : Nat), USER_START ≤ buf → buf < USER_END →
      (buf + len ≤ USER_END ∨ k.presentAt USER_END = false) →
      ∀ a ∈ k.storedAt buf len, USER_START ≤ a ∧ a < USER_END
  | 0, buf, _, _, _ => fun a ha => by simp [storedAt] at ha
  | len + 1, buf, hlow, hhigh, hfit => by
      have haddr : addr (buf + 1) = buf + 1 := by
        unfold USER_END at hhigh
        unfold addr
        omega
      rw [storedAt, if_pos (presentAt_user hk hlow hhigh), haddr]
      intro a ha
      rcases List.mem_cons.mp ha with rfl | ha
      · exact ⟨hlow, hhigh⟩
      by_cases hnext : buf + 1 < USER_END
      · refine storedAt_inside hk len (buf + 1) (by omega) hnext ?_ a ha
        exact hfit.imp (fun h => by omega) id
      · -- The next byte would be the first one behind the user page.
        rw [show buf + 1 = USER_END by omega] at ha
        cases len with
        | zero => simp [storedAt] at ha
        | succ len =>
            have hcut : k.presentAt USER_END = false := hfit.resolve_left (by omega)
            rw [storedAt, if_neg (by simp [hcut])] at ha
            simp at ha

theorem storedAt_inside_iff {k : Kernel} {q : Slot}
    (hk : k.pageDirectory SYS_VIRTUAL_MEM = userPage q) (buf len : Nat) :
    (∀ a ∈ k.storedAt buf len, USER_START ≤ a ∧ a < USER_END) ↔ PointerSafe k buf len := by
  constructor
  · intro h
    cases len with
    | zero => exact Or.inl rfl
    | succ len =>
        refine Or.inr ?_
        by_cases hpresent : k.presentAt buf = true
        · have hfirst : buf ∈ k.storedAt buf (len + 1) := by
            rw [storedAt, if_pos hpresent]
            exact List.mem_cons_self
          obtain ⟨hlow, hhigh⟩ := h buf hfirst
          refine Or.inr ⟨hlow, hhigh, ?_⟩
          by_contra hcross
          push Not at hcross
          have hend := mem_storedAt_end hk (by simpa using hcross.2) (len + 1) buf hlow hhigh
            (by omega)
          exact absurd (h USER_END hend).2 (Nat.lt_irrefl _)
        · exact Or.inl (by simpa using hpresent)
  · rintro (rfl | habsent | ⟨hlow, hhigh, hfit⟩)
    · intro a ha
      simp [storedAt] at ha
    · intro a ha
      cases len with
      | zero => simp [storedAt] at ha
      | succ len =>
          rw [storedAt, if_neg (by simp [habsent])] at ha
          simp at ha
    · exact storedAt_inside hk len buf hlow hhigh hfit

/-! ## The three calls -/

/-- The call returned -1 and stored nothing, or every byte it stored through `buf` lies in the
user page. -/
def StaysInside (k : Kernel) (buf : Nat) (x : Transfer) : Prop :=
  (x.ret = -1 ∧ x.stored = []) ∨
    ∀ a ∈ k.storedAt buf x.stored.length, USER_START ≤ a ∧ a < USER_END

theorem staysInside_iff {k : Kernel} {q : Slot}
    (hk : k.pageDirectory SYS_VIRTUAL_MEM = userPage q) (buf : Nat) (x : Transfer) :
    StaysInside k buf x ↔ PointerSafe k buf x.stored.length := by
  rw [← storedAt_inside_iff hk]
  constructor
  · rintro (⟨_, hnil⟩ | h)
    · intro a ha
      simp [hnil, storedAt] at ha
    · exact h
  · exact Or.inr

/-- How many bytes a read stores: the call is made in state `k` with the pointer `buf` and, if
it has to wait, goes on in state `k'`. -/
def readSize (fs : FileSys) (k : Kernel) (p : Slot) (fd : Int) (buf : Nat) (nbytes : Int)
    (k' : Kernel) : Nat :=
  let d := (k.pcb p).fileDescArray (fdIdx fd)
  if nbytes ≤ 0 ∨ buf = 0 ∨ fd < 0 ∨ fd > MAX_FD_IDX ∨ d.flags = 0 then 0
  else
    match d.fileOpsTable with
    | some .stdIn => (Console.line (k'.console.term k'.processTerminal).keyboardBuffer
        (Console.clipBytes nbytes)).length + 1
    | some .dir => if k.readDirFlag k.processTerminal ≥ fs.entries then 0 else FILENAME_LEN
    | some .file => if d.inode ≥ DIR_ENTRIES then 0 else nbytes.toNat
    | _ => 0

/-- How many bytes `sys_getargs` stores. -/
def getargsSize (k : Kernel) : Nat :=
  if k.argFlag k.processTerminal then KEYBOARD_BUFFER_SIZE else 0

/-- What `sys_vidmap` stores when it returns `r`: the address 132MB. -/
def vidmapTransfer (r : Int) : Transfer := ⟨r, if r = 0 then vidmapWord else []⟩

theorem readData_stored_length (fs : FileSys) (inode pos n : Nat) :
    (readData fs inode pos false n).stored.length = if inode ≥ DIR_ENTRIES then 0 else n := by
  have hle : (readDataBytes fs inode pos n).length ≤ n := readDataLoop_length_le ..
  unfold readData
  by_cases hinode : inode ≥ DIR_ENTRIES
  · rw [if_pos (Or.inl hinode), if_pos hinode]
    rfl
  · rw [if_neg (by simpa using hinode), if_neg hinode]
    simp only [List.length_append, List.length_replicate]
    omega

theorem sysReadDirectory_stored_length (fs : FileSys) (k : Kernel) (stack : Mem) :
    (k.sysReadDirectory fs stack).1.stored.length
      = if k.readDirFlag k.processTerminal ≥ fs.entries then 0 else FILENAME_LEN := by
  unfold sysReadDirectory
  dsimp only
  split
  · rfl
  · exact strncpy_length ..

/-- A read stores `readSize` bytes. -/
theorem sysRead_stored_length {fs : FileSys} {k k₁ k' : Kernel} {p : Slot} {stack : Mem}
    {fd nbytes : Int} {buf : Nat} {o : ReadOutcome} {x : Transfer} (hcur : k.cur = some p)
    (h : k.sysRead fs stack fd (decide (buf = 0)) nbytes = some (o, k₁)) (hx : k'.Returns o x) :
    x.stored.length = k.readSize fs p fd buf nbytes k' := by
  have hnone : ∀ {x : Transfer}, k'.Returns (.done ⟨-1, []⟩) x → x.stored.length = 0 := by
    rintro x rfl
    rfl
  unfold sysRead at h
  unfold readSize
  dsimp only
  by_cases hbad : nbytes ≤ 0 ∨ buf = 0 ∨ fd < 0 ∨ fd > MAX_FD_IDX
  · rw [if_pos (by simpa using hbad)] at h
    cases h
    rw [if_pos (by tauto)]
    exact hnone hx
  · rw [if_neg (by simpa using hbad), hcur, Option.bind_some] at h
    by_cases hflags : ((k.pcb p).fileDescArray (fdIdx fd)).flags = 0
    · rw [if_pos hflags] at h
      cases h
      rw [if_pos (by tauto)]
      exact hnone hx
    · rw [if_neg hflags] at h
      rw [if_neg (by tauto)]
      obtain ⟨ops, hops, hread⟩ := Option.bind_eq_some_iff.mp h
      rw [hops]
      cases ops with
      | stdIn =>
          obtain ⟨c, _, heq⟩ := Option.map_eq_some_iff.mp hread
          cases heq
          have hfinish : k'.readTerminalFinish (Console.clipBytes nbytes) = some x := hx
          unfold readTerminalFinish at hfinish
          split at hfinish
          · cases hfinish
          · cases hfinish
            exact List.length_append ..
      | stdOut =>
          cases hread
          exact hnone hx
      | rtc =>
          obtain ⟨k₂, _, heq⟩ := Option.map_eq_some_iff.mp hread
          cases heq
          obtain rfl : x = ⟨0, []⟩ := hx.2
          rfl
      | file =>
          cases hread
          obtain rfl : x = _ := hx
          rw [sysReadFile_fst]
          exact readData_stored_length ..
      | dir =>
          cases hread
          obtain rfl : x = _ := hx
          exact sysReadDirectory_stored_length ..

/-- `sys_vidmap` itself makes the page at 132MB present. -/
theorem presentAt_vidmap (k : Kernel) (p : Slot) (a : Nat) (f : Pcb → Pcb) :
    ((k.vidmapPagingModify a).modifyPcb p f).presentAt USER_END = true := by
  have hdir : ((k.vidmapPagingModify a).modifyPcb p f).pageDirectory (USER_END / MB_4)
      = ⟨.pageTableVidmap, READ_WRITE ||| PRESENT ||| USER⟩ := by
    simp [modifyPcb, vidmapPagingModify]
  have htable : ((k.vidmapPagingModify a).modifyPcb p f).pageTableVidmap 0
      = ⟨.phys a, READ_WRITE ||| PRESENT ||| USER⟩ := by
    simp [modifyPcb, vidmapPagingModify]
  have hindex : USER_END / PAGE_4KB % 1024 = 0 := by decide
  have hflags : (READ_WRITE ||| PRESENT ||| USER) % 2 = 1 := by decide
  unfold presentAt
  rw [hdir]
  dsimp only
  rw [hindex, htable]
  dsimp only
  rw [hflags]
  rfl

/-- Only the last three bytes of the user page are wrong pointers that `sys_vidmap` takes. -/
theorem sysVidmap_staysInside_iff {k k' : Kernel} {q : Slot} {screenStart : Nat} {r : Int}
    (hk : k.pageDirectory SYS_VIRTUAL_MEM = userPage q)
    (h : k.sysVidmap screenStart = some (r, k')) :
    StaysInside k' screenStart (vidmapTransfer r) ↔
      screenStart + 4 ≤ USER_END ∨ USER_END ≤ screenStart := by
  have hk' : k'.pageDirectory SYS_VIRTUAL_MEM = userPage q :=
    (callEffect_sysVidmap h).page.trans hk
  rw [staysInside_iff hk']
  by_cases hrange : screenStart < USER_START ∨ screenStart ≥ USER_END
  · have hfail : k.sysVidmap screenStart = some (-1, k) := if_pos hrange
    rw [hfail] at h
    cases h
    refine iff_of_true (Or.inl rfl) ?_
    unfold USER_START USER_END at *
    omega
  · push Not at hrange
    obtain ⟨hlow, hhigh⟩ := hrange
    have hpresent := presentAt_user hk' hlow hhigh
    rcases sysVidmap_cases h with ⟨rfl, _⟩ | ⟨rfl, p, v, _, rfl⟩
    · unfold sysVidmap at h
      rw [if_neg (by omega)] at h
      obtain ⟨_, _, heq⟩ := Option.map_eq_some_iff.mp h
      cases heq
    · have hend := presentAt_vidmap { k with console := { k.console with video := v } } p (if k.processTerminal = k.visibleTerminal then VIDEO
        else videoBuf k.processTerminal) fun b => { b with vidmapTerminal := 1 }
      unfold PointerSafe
      rw [hpresent, hend]
      show 4 = 0 ∨ true = false ∨ _ ∧ _ ∧ (screenStart + 4 ≤ USER_END ∨ true = false) ↔ _
      simp
      omega

/-- **When user pointers stay in the user page.** The running process makes a call in a
reachable state; a read that waits goes on in another one (`k'`), in which it runs again. A
read and `sys_getargs` store inside the user page only, or nothing, exactly if the pointer is
safe for the number of bytes they store, and `sys_vidmap` exactly if the pointer is none of
the last three of the user page. -/
theorem staysInside_iff_pointerSafe (fs : FileSys) (k : Kernel) (p : Slot)
    (hreach : Reachable fs k) (hcur : k.cur = some p) :
    (∀ stack fd buf nbytes o k₁ k' x,
      k.sysRead fs stack fd (decide (buf = 0)) nbytes = some (o, k₁) → Reachable fs k' →
      k'.cur = some p → k'.Returns o x →
      (StaysInside k' buf x ↔ PointerSafe k' buf (k.readSize fs p fd buf nbytes k'))) ∧
    (∀ buf x, k.sysGetargs = some x →
      (StaysInside k buf x ↔ PointerSafe k buf k.getargsSize)) ∧
    (∀ screenStart r k', k.sysVidmap screenStart = some (r, k') →
      (StaysInside k' screenStart (vidmapTransfer r) ↔
        screenStart + 4 ≤ USER_END ∨ USER_END ≤ screenStart)) := by
  obtain ⟨q, hq⟩ := hreach.userPage hcur
  refine ⟨?_, ?_, ?_⟩
  · intro stack fd buf nbytes o k₁ k' x hread hreach' hcur' hx
    obtain ⟨q', hq'⟩ := hreach'.userPage hcur'
    rw [staysInside_iff hq', sysRead_stored_length hcur hread hx]
  · intro buf x hx
    rw [staysInside_iff hq, sysGetargs_length hx]
    rfl
  · intro screenStart r k' h
    exact sysVidmap_staysInside_iff hq h

/-- On the small image the first shell opens the directory. -/
def directoryRun : List Event := [.pit zeroFrame, .open (some (ascii "."))]

theorem staysInside_iff_pointerSafe_sample : ∃ k, Reachable sampleImage k ∧ k.cur = some 0 ∧
    (∀ stack fd buf nbytes o k₁ k' x,
      k.sysRead sampleImage stack fd (decide (buf = 0)) nbytes = some (o, k₁) →
      Reachable sampleImage k' → k'.cur = some 0 → k'.Returns o x →
      (StaysInside k' buf x ↔ PointerSafe k' buf (k.readSize sampleImage 0 fd buf nbytes k'))) ∧
    (∀ buf x, k.sysGetargs = some x →
      (StaysInside k buf x ↔ PointerSafe k buf k.getargsSize)) ∧
    (∀ screenStart r k', k.sysVidmap screenStart = some (r, k') →
      (StaysInside k' screenStart (vidmapTransfer r) ↔
        screenStart + 4 ≤ USER_END ∨ USER_END ≤ screenStart)) := by
  obtain ⟨k, hk⟩ := Option.isSome_iff_exists.mp (show (StepSystem.run (step sampleImage)
    (boot zeroMemory) directoryRun).isSome = true by decide +kernel)
  have hcur : (StepSystem.run (step sampleImage) (boot zeroMemory) directoryRun).map
      (fun k => k.cur) = some (some 0) := by decide +kernel
  rw [hk] at hcur
  have hreach : Reachable sampleImage k := ⟨zeroMemory, _, hk⟩
  exact ⟨k, hreach, Option.some.inj hcur,
    staysInside_iff_pointerSafe sampleImage k 0 hreach (Option.some.inj hcur)⟩

/-- What a read that does not wait returns. -/
def ReadOutcome.transfer : ReadOutcome → Option Transfer
  | .done x => some x
  | .waitTerminal _ | .waitRtc => none

/-- A read of the directory into the memory of the kernel. -/
theorem read_into_kernel : ¬ ∀ (fs : FileSys) (k k₁ k' : Kernel) (p : Slot) (stack : Mem) (fd : Int)
    (buf : Nat) (nbytes : Int) (o : ReadOutcome) (x : Transfer), Reachable fs k →
      k.cur = some p → buf < 4294967296 →
      k.sysRead fs stack fd (decide (buf = 0)) nbytes = some (o, k₁) →
      (∀ r, o = .done r → k' = k₁) → Reachable fs k' → k'.cur = some p → k'.Returns o x →
      StaysInside k' buf x := by
  intro hall
  obtain ⟨k, hk⟩ := Option.isSome_iff_exists.mp (show (StepSystem.run (step sampleImage)
    (boot zeroMemory) directoryRun).isSome = true by decide +kernel)
  have hcur : (StepSystem.run (step sampleImage) (boot zeroMemory) directoryRun).map
      (fun k => k.cur) = some (some 0) := by decide +kernel
  have hread : (StepSystem.run (step sampleImage) (boot zeroMemory) directoryRun).bind
      (fun k => (k.sysRead sampleImage (fun _ => 0) 2 (decide (KERNEL_START = 0)) 32).bind
        fun r => r.1.transfer.map fun x =>
          (x.stored.length, r.2.cur, r.2.presentAt KERNEL_START)) = some (32, some 0, true) := by
    decide +kernel
  rw [hk] at hcur hread
  rw [Option.bind_some] at hread
  obtain ⟨⟨o, k₁⟩, hr, ho⟩ := Option.bind_eq_some_iff.mp hread
  have hreach : Reachable sampleImage k := ⟨zeroMemory, _, hk⟩
  have hstep : step sampleImage k (.read (fun _ => 0) 2 (decide (KERNEL_START = 0)) 32) = some k₁ :=
    Option.map_eq_some_iff.mpr ⟨_, hr, rfl⟩
  have hreach₁ : Reachable sampleImage k₁ :=
    ⟨zeroMemory, StepSystem.Reachable.trans_step ⟨_, hk⟩ hstep⟩
  cases o with
  | done x =>
      obtain ⟨hlen, hrest⟩ := Prod.mk.inj (Option.some.inj ho)
      obtain ⟨hcur₁, hpresent⟩ := Prod.mk.inj hrest
      have hin := hall sampleImage k k₁ k₁ 0 (fun _ => 0) 2 KERNEL_START 32 (.done x) x hreach
        (Option.some.inj hcur) (by decide) hr (fun _ _ => rfl) hreach₁ hcur₁ rfl
      obtain ⟨q, hq⟩ := hreach₁.userPage hcur₁
      rw [staysInside_iff hq, hlen] at hin
      rcases hin with hzero | habsent | ⟨hlow, _⟩
      · cases hzero
      · exact absurd (habsent.symm.trans hpresent) (by decide)
      · exact absurd hlow (by decide)
  | waitTerminal n => cases ho
  | waitRtc => cases ho

end Kernel

end Ext2Kernel
