import Ext2Kernel.Process.UserPointers

set_option autoImplicit false

/-! # Stores through user pointers

`step` gives what a call does to the variables of the kernel. Here a call gets the pointer that it
stores through, and the bytes go where the page directory maps them: into the memory of the
process, to a screen, or into the 4MB page of the kernel, where the PCBs lie. A page that is not
present ends the call with a page fault, and with it the process. `storeStep` is `step` with these
stores. If they stay in the user page, it does nothing that `step` does not do
(`storeStep_of_user`).
-/

namespace Ext2Kernel

open Kernel ByteMem

/-! ## PCBs in memory -/

/-- Where `_execute_create_PCB` puts the PCB of process `p`. -/
def pcbAddr (p : Slot) : Nat := MB_8 - KB_8 * (p.val + 1) - 4

/-- `sizeof(pcb_t)`: eight descriptors of four words, the arguments, and eight words. -/
def PCB_SIZE : Nat := 8 * 16 + KEYBOARD_BUFFER_SIZE + 8 * 4

/-- The PCB that an address lies in, and the offset there. -/
def pcbAt (a : Nat) : Option (Slot × Nat) :=
  ((List.finRange 6).find? fun p => decide (pcbAddr p ≤ a ∧ a < pcbAddr p + PCB_SIZE)).map
    fun p => (p, a - pcbAddr p)

/-- A pointer to a PCB as a word. -/
def pcbWord : Option Slot → Nat
  | none => 0
  | some p => pcbAddr p

/-- The pointer to a PCB with this value. -/
def ofPcbWord (w : Nat) : Option (Option Slot) :=
  if w = 0 then some none
  else ((List.finRange 6).find? fun p => decide (pcbAddr p = w)).map some

/-- The word `w` with another byte `i`, the lowest being byte 0. -/
def setByte (w i : Nat) (c : UInt8) : Nat :=
  w - w / 256 ^ i % 256 * 256 ^ i + c.toNat * 256 ^ i

/-- A store into a descriptor. Where the operation tables lie is the linker's choice, so that a
store into the pointer to one has no effect the source defines. -/
def FileDesc.storeByte (d : FileDesc) (offset : Nat) (c : UInt8) : Option FileDesc :=
  match offset / 4 with
  | 0 => none
  | 1 => some { d with inode := setByte d.inode (offset % 4) c }
  | 2 => some { d with filePosition := setByte d.filePosition (offset % 4) c }
  | _ => some { d with flags := setByte d.flags (offset % 4) c }

/-- A store into `argument_array` that leaves a string with NULs behind it. -/
def ArgumentArray.storeByte (a : ArgumentArray) (offset : Nat) (c : UInt8) :
    Option ArgumentArray :=
  let bytes := (a.chars ++ List.replicate (KEYBOARD_BUFFER_SIZE - a.chars.length) 0).set offset c
  let chars := bytes.takeWhile (· ≠ 0)
  if h : chars.length < KEYBOARD_BUFFER_SIZE then
    if (bytes.drop chars.length).all (· = 0) then some ⟨chars, h⟩ else none
  else none

/-- A store into `process_id`. -/
def storeProcessId (p : Slot) (i : Nat) (c : UInt8) : Option Slot :=
  if h : setByte p.val i c < 6 then some ⟨setByte p.val i c, h⟩ else none

/-- A store into a PCB, at an offset in `pcb_t`; `none` where a pointer or a process number of the
PCB would become one that does not exist. -/
def Pcb.storeByte (b : Pcb) (offset : Nat) (c : UInt8) : Option Pcb :=
  if offset < 128 then
    let i : Fin 8 := Fin.ofNat 8 (offset / 16)
    ((b.fileDescArray i).storeByte (offset % 16) c).map fun d =>
      { b with fileDescArray := Function.update b.fileDescArray i d }
  else if offset < 256 then
    (b.argumentArray.storeByte (offset - 128) c).map fun a => { b with argumentArray := a }
  else
    let i := offset % 4
    match (offset - 256) / 4 with
    | 0 => (ofPcbWord (setByte (pcbWord b.parentPcb) i c)).map fun q => { b with parentPcb := q }
    | 1 => (storeProcessId b.processId i c).map fun p => { b with processId := p }
    | 2 => some { b with ebp := setByte b.ebp i c }
    | 3 => some { b with esp := setByte b.esp i c }
    | 4 => some { b with eip := setByte b.eip i c }
    | 5 => some { b with vidmapTerminal := setByte b.vidmapTerminal i c }
    | 6 => some { b with rtcInterruptDivider := setByte b.rtcInterruptDivider i c }
    | _ => some { b with rtcCounter := setByte b.rtcCounter i c }

/-! ## Stores -/

/-- How the stores of a call end: behind the last byte, or at a page that is not present. -/
inductive Stored
  | done (k : Kernel)
  | fault (k : Kernel)

/-- What comes after the stores if they have not faulted. -/
def Stored.andThen (s : Stored) (f : Kernel → Option Stored) : Option Stored :=
  match s with
  | .done k => f k
  | .fault k => some (.fault k)

namespace Kernel

def setVideo (k : Kernel) (v : Mem) : Kernel :=
  { k with console := { k.console with video := v } }

/-- A store to the address `a`, whose page is present. In the page of the kernel it is followed
only into a PCB: where the code, the variables and the stacks are is not the source's choice. -/
def storeByte (k : Kernel) (a : Nat) (c : UInt8) : Option Kernel :=
  if USER_START ≤ a ∧ a < USER_END then some k
  else if VIDEO ≤ a ∧ a < VIDEO + 4 * PAGE_4KB then
    some (k.setVideo (Function.update k.console.video (a - VIDEO) c))
  else if USER_END ≤ a then k.drawByte (a - USER_END) c
  else
    (pcbAt a).bind fun x =>
      ((k.pcb x.1).storeByte x.2 c).map fun b => k.modifyPcb x.1 fun _ => b

/-- The stores of consecutive bytes. -/
def storeBytes : Kernel → Nat → List UInt8 → Option Stored
  | k, _, [] => some (.done k)
  | k, buf, c :: l =>
      if k.presentAt buf then (k.storeByte buf c).bind fun k' => k'.storeBytes (addr (buf + 1)) l
      else some (.fault k)

/-! ## The calls with their stores -/

/-- `file_position += n`. -/
def advanceFd (k : Kernel) (p : Slot) (fd : Fin 8) (n : Nat) : Kernel :=
  k.modifyPcb p fun b => { b with
    fileDescArray := Function.update b.fileDescArray fd
      { b.fileDescArray fd with
        filePosition := ((b.fileDescArray fd).filePosition + n) % 4294967296 } }

/-- The `read` functions of the tables, up to their return or their wait loop. `read_data` clears
the buffer before it copies, and the descriptor moves on behind that; the directory moves on
before the name is copied. -/
def readOpInto (fs : FileSys) (k : Kernel) (stack : Mem) (p : Slot) (fd : Fin 8) (buf : Nat)
    (nbytes : Int) : FileOps → Option Stored
  | .file =>
      let d := (k.pcb p).fileDescArray fd
      let r := readData fs d.inode d.filePosition false nbytes.toNat
      (k.storeBytes buf (List.replicate r.stored.length 0)).bind fun s =>
        s.andThen fun k₁ => (k₁.storeBytes buf r.stored).bind fun s' =>
          s'.andThen fun k₂ =>
            some (.done (if r.ret > 0 then k₂.advanceFd p fd r.ret.toNat else k₂))
  | .dir =>
      let r := k.sysReadDirectory fs stack
      r.2.storeBytes buf r.1.stored
  | ops => (k.readOp fs stack p fd nbytes ops).map fun r => .done r.2

/-- `sys_read`, up to its return or its wait loop. -/
def sysReadInto (fs : FileSys) (k : Kernel) (stack : Mem) (fd : Int) (buf : Nat) (nbytes : Int) :
    Option Stored :=
  if nbytes ≤ 0 ∨ buf = 0 ∨ fd < 0 ∨ fd > MAX_FD_IDX then some (.done k)
  else
    k.cur.bind fun p =>
      let d := (k.pcb p).fileDescArray (fdIdx fd)
      if d.flags = 0 then some (.done k)
      else d.fileOpsTable.bind (k.readOpInto fs stack p (fdIdx fd) buf nbytes)

/-- `_sys_read_terminal` after its wait loop. -/
def readTerminalInto (k : Kernel) (buf nbytes : Nat) : Option Stored :=
  (k.readTerminalFinish nbytes).bind fun r => k.storeBytes buf r.stored

/-- `sys_getargs`: the buffer is cleared before the arguments are read. -/
def sysGetargsInto (k : Kernel) (buf : Nat) : Option Stored :=
  if k.argFlag k.processTerminal then
    k.cur.bind fun p =>
      (k.storeBytes buf (List.replicate KEYBOARD_BUFFER_SIZE 0)).bind fun s =>
        s.andThen fun k₁ =>
          k₁.storeBytes buf ((k₁.pcb p).argumentArray.chars.takeWhile (· ≠ 0))
  else some (.done k)

end Kernel

/-- The events that store through a pointer of the user. -/
def Event.takesPointer : Event → Bool
  | .read _ _ _ _ | .resumeTerminal _ | .getargs => true
  | _ => false

/-- An event with the pointer that its call stores through, and with the registers of the process
if it ends in a page fault. -/
structure UserCall where
  event : Event
  buf : Nat
  fr : Frame

namespace Kernel

/-- An event up to the end of its stores. A read has NULL as its pointer if it says so. -/
def callStores (fs : FileSys) (k : Kernel) (c : UserCall) : Option Stored :=
  match c.event with
  | .read stack fd bufNull nbytes =>
      if bufNull = decide (c.buf = 0) then k.sysReadInto fs stack fd c.buf nbytes else none
  | .resumeTerminal nbytes => k.readTerminalInto c.buf nbytes
  | .getargs => k.sysGetargsInto c.buf
  | e => (step fs k e).map .done

/-- `step` with the stores through the pointer: a page fault goes to `exception_handler`. -/
def storeStep (fs : FileSys) (k : Kernel) (c : UserCall) : Option Kernel :=
  (k.callStores fs c).bind fun
    | .done k' => some k'
    | .fault k' => (k'.exceptionHandler fs c.fr PAGE_FAULT).map fun r => r.2

/-- How many bytes the call stores through its pointer; a read from the terminal stores when it
goes on. -/
def storeSize (fs : FileSys) (k : Kernel) (c : UserCall) : Nat :=
  match c.event with
  | .read _ fd _ nbytes =>
      match k.cur with
      | some p =>
          if ((k.pcb p).fileDescArray (fdIdx fd)).fileOpsTable = some .stdIn then 0
          else k.readSize fs p fd c.buf nbytes k
      | none => 0
  | .resumeTerminal nbytes =>
      (Console.line (k.console.term k.processTerminal).keyboardBuffer nbytes).length + 1
  | .getargs => k.getargsSize
  | _ => 0

/-- The addresses the call stores at. -/
def storeAddrs (fs : FileSys) (k : Kernel) (c : UserCall) : List Nat :=
  k.storedAt c.buf (k.storeSize fs c)

/-- The call stores no byte in the 4MB page of the kernel. -/
def SparesKernel (fs : FileSys) (k : Kernel) (c : UserCall) : Prop :=
  ∀ a ∈ k.storeAddrs fs c, ¬ (KERNEL_START ≤ a ∧ a < MB_8)

/-- The call stores in the user page only. -/
def StoresInUser (fs : FileSys) (k : Kernel) (c : UserCall) : Prop :=
  ∀ a ∈ k.storeAddrs fs c, USER_START ≤ a ∧ a < USER_END

instance (fs : FileSys) (k : Kernel) (c : UserCall) : Decidable (k.SparesKernel fs c) :=
  inferInstanceAs (Decidable (∀ _ ∈ _, _))

theorem StoresInUser.sparesKernel {fs : FileSys} {k : Kernel} {c : UserCall}
    (h : k.StoresInUser fs c) : k.SparesKernel fs c := by
  intro a ha hin
  obtain ⟨hlow, _⟩ := h a ha
  unfold USER_START at hlow
  unfold MB_8 at hin
  omega

/-! ## What the stores leave -/

/-- Stores at the addresses `as` have changed at most video memory, and nothing if the addresses
lie in the user page. -/
def Drawn (as : List Nat) (k k' : Kernel) : Prop :=
  ∃ v, k' = k.setVideo v ∧ ((∀ a ∈ as, USER_START ≤ a ∧ a < USER_END) → v = k.console.video)

theorem Drawn.refl (as : List Nat) (k : Kernel) : Drawn as k k :=
  ⟨k.console.video, rfl, fun _ => rfl⟩

theorem Drawn.trans {as : List Nat} {k k' k'' : Kernel} (h : Drawn as k k')
    (h' : Drawn as k' k'') : Drawn as k k'' := by
  obtain ⟨v, rfl, hv⟩ := h
  obtain ⟨v', rfl, hv'⟩ := h'
  exact ⟨v', rfl, fun hin => (hv' hin).trans (hv hin)⟩

theorem Drawn.mono {as bs : List Nat} {k k' : Kernel} (h : Drawn as k k')
    (hsub : ∀ a ∈ as, a ∈ bs) : Drawn bs k k' := by
  obtain ⟨v, rfl, hv⟩ := h
  exact ⟨v, rfl, fun hin => hv fun a ha => hin a (hsub a ha)⟩

theorem Drawn.advanceFd {as : List Nat} {k k' : Kernel} (h : Drawn as k k') (p : Slot)
    (fd : Fin 8) (n : Nat) : Drawn as (k.advanceFd p fd n) (k'.advanceFd p fd n) := by
  obtain ⟨v, rfl, hv⟩ := h
  exact ⟨v, rfl, hv⟩

theorem Drawn.eq {as : List Nat} {k k' : Kernel} (h : Drawn as k k')
    (hin : ∀ a ∈ as, USER_START ≤ a ∧ a < USER_END) : k' = k := by
  obtain ⟨v, rfl, hv⟩ := h
  rw [hv hin]
  rfl

/-- The pages decide where bytes are stored. -/
theorem storedAt_congr {k k' : Kernel} (hdir : k'.pageDirectory = k.pageDirectory)
    (htable : k'.pageTableVidmap = k.pageTableVidmap) (buf n : Nat) :
    k'.storedAt buf n = k.storedAt buf n := by
  have hpresent : ∀ a, k'.presentAt a = k.presentAt a := fun a => by
    unfold presentAt
    rw [hdir, htable]
  induction n generalizing buf with
  | zero => rfl
  | succ n ih =>
      unfold storedAt
      rw [hpresent, ih]

theorem storedAt_mono (k : Kernel) {m n : Nat} (h : m ≤ n) (buf : Nat) :
    ∀ a ∈ k.storedAt buf m, a ∈ k.storedAt buf n := by
  induction m generalizing buf n with
  | zero =>
      intro a ha
      cases ha
  | succ m ih =>
      obtain ⟨n, rfl⟩ : ∃ i, n = i + 1 := ⟨n - 1, by omega⟩
      intro a ha
      unfold storedAt at ha ⊢
      split at ha
      · rename_i hpresent
        rw [if_pos hpresent]
        rcases List.mem_cons.mp ha with rfl | ha
        · exact List.mem_cons_self
        · exact List.mem_cons_of_mem _ (ih (Nat.le_of_succ_le_succ h) _ a ha)
      · cases ha

theorem drawn_drawByte {k k' : Kernel} {offset : Nat} {c : UInt8}
    (h : k.drawByte offset c = some k') : ∃ v, k' = k.setVideo v := by
  unfold drawByte at h
  split at h
  · split at h
    · cases h
      exact ⟨_, rfl⟩
    · cases h
  · cases h

/-- The PCBs lie in the page of the kernel. -/
theorem pcbAt_kernel {a : Nat} {x : Slot × Nat} (h : pcbAt a = some x) :
    KERNEL_START ≤ a ∧ a < MB_8 := by
  obtain ⟨p, hp, _⟩ := Option.map_eq_some_iff.mp h
  have hin := List.find?_some hp
  rw [decide_eq_true_eq] at hin
  have hlt := p.isLt
  unfold pcbAddr PCB_SIZE MB_8 KB_8 KEYBOARD_BUFFER_SIZE at hin
  unfold KERNEL_START MB_8
  omega

theorem storeByte_drawn {k k' : Kernel} {a : Nat} {c : UInt8}
    (ha : ¬ (KERNEL_START ≤ a ∧ a < MB_8)) (h : k.storeByte a c = some k') :
    Drawn [a] k k' := by
  unfold storeByte at h
  split at h
  · cases h
    exact .refl _ k
  · rename_i huser
    have hout : ¬ ∀ b ∈ [a], USER_START ≤ b ∧ b < USER_END := fun hin =>
      huser (hin a List.mem_cons_self)
    split at h
    · cases h
      exact ⟨_, rfl, fun hin => absurd hin hout⟩
    · split at h
      · obtain ⟨v, rfl⟩ := drawn_drawByte h
        exact ⟨v, rfl, fun hin => absurd hin hout⟩
      · obtain ⟨x, hx, _⟩ := Option.bind_eq_some_iff.mp h
        exact absurd (pcbAt_kernel hx) ha

/-- **Stores outside the page of the kernel.** -/
theorem storeBytes_drawn {k : Kernel} {buf : Nat} {l : List UInt8} {s : Stored}
    (hout : ∀ a ∈ k.storedAt buf l.length, ¬ (KERNEL_START ≤ a ∧ a < MB_8))
    (h : k.storeBytes buf l = some s) :
    ∃ k', (s = .done k' ∨ s = .fault k') ∧ Drawn (k.storedAt buf l.length) k k' := by
  induction l generalizing k buf with
  | nil =>
      cases h
      exact ⟨k, Or.inl rfl, .refl _ k⟩
  | cons c l ih =>
      unfold storeBytes at h
      rw [List.length_cons] at hout ⊢
      unfold storedAt at hout ⊢
      split at h
      · rename_i hpresent
        rw [if_pos hpresent] at hout ⊢
        obtain ⟨k₁, hk₁, hrest⟩ := Option.bind_eq_some_iff.mp h
        have hfirst := storeByte_drawn (hout buf List.mem_cons_self) hk₁
        have hsame : k₁.storedAt (addr (buf + 1)) l.length
            = k.storedAt (addr (buf + 1)) l.length := by
          obtain ⟨v, rfl, _⟩ := hfirst
          exact storedAt_congr (show (k.setVideo v).pageDirectory = k.pageDirectory from rfl)
            (show (k.setVideo v).pageTableVidmap = k.pageTableVidmap from rfl) _ _
        obtain ⟨k', hs, hrest'⟩ := ih (by
          rw [hsame]
          exact fun a ha => hout a (List.mem_cons_of_mem _ ha)) hrest
        rw [hsame] at hrest'
        refine ⟨k', hs, (hfirst.mono fun a ha => ?_).trans (hrest'.mono fun a ha => ?_)⟩
        · rw [List.mem_singleton.mp ha]
          exact List.mem_cons_self
        · exact List.mem_cons_of_mem _ ha
      · rename_i hpresent
        cases h
        rw [if_neg hpresent]
        exact ⟨k, Or.inr rfl, .refl _ k⟩

/-! ## Calls that spare the page of the kernel -/

/-- How the stores of a call end that leads from `k` to `k₁` if nothing faults: a call that clears
its buffer first can fault in the state `k`, and the others fault in a state where the same
process runs. -/
inductive StoredFrom (as : List Nat) (k k₁ : Kernel) : Stored → Prop
  | done {k' : Kernel} (h : Drawn as k₁ k') : StoredFrom as k k₁ (.done k')
  | early {k' : Kernel} (h : Drawn as k k') : StoredFrom as k k₁ (.fault k')
  | late {k' : Kernel} (hterm : k₁.processTerminal = k.processTerminal) (hcur : k₁.cur = k.cur)
      (h : Drawn as k₁ k') : StoredFrom as k k₁ (.fault k')

theorem storeBytes_from {k k₁ : Kernel} {buf : Nat} {l : List UInt8} {s : Stored}
    (hterm : k₁.processTerminal = k.processTerminal) (hcur : k₁.cur = k.cur)
    (hout : ∀ a ∈ k₁.storedAt buf l.length, ¬ (KERNEL_START ≤ a ∧ a < MB_8))
    (h : k₁.storeBytes buf l = some s) : StoredFrom (k₁.storedAt buf l.length) k k₁ s := by
  obtain ⟨k', rfl | rfl, hdrawn⟩ := storeBytes_drawn hout h
  · exact .done hdrawn
  · exact .late hterm hcur hdrawn

/-- Clearing a buffer and then storing no more bytes than were cleared. -/
theorem storeBytes_cleared {k k' : Kernel} {buf n : Nat} {l : List UInt8} {s : Stored}
    (hout : ∀ a ∈ k.storedAt buf n, ¬ (KERNEL_START ≤ a ∧ a < MB_8)) (hl : l.length ≤ n)
    (hk' : Drawn (k.storedAt buf n) k k') (h : k'.storeBytes buf l = some s) :
    ∃ k₂, (s = .done k₂ ∨ s = .fault k₂) ∧ Drawn (k.storedAt buf n) k k₂ := by
  have hsame : k'.storedAt buf l.length = k.storedAt buf l.length := by
    obtain ⟨v, rfl, _⟩ := hk'
    exact storedAt_congr (show (k.setVideo v).pageDirectory = k.pageDirectory from rfl)
      (show (k.setVideo v).pageTableVidmap = k.pageTableVidmap from rfl) _ _
  have hsub := k.storedAt_mono hl buf
  obtain ⟨k₂, hs, hdrawn⟩ := storeBytes_drawn (by
    rw [hsame]
    exact fun a ha => hout a (hsub a ha)) h
  rw [hsame] at hdrawn
  exact ⟨k₂, hs, hk'.trans (hdrawn.mono hsub)⟩

theorem sysReadFile_snd (fs : FileSys) (k : Kernel) (p : Slot) (fd : Fin 8) (nbytes : Nat) :
    (k.sysReadFile fs p fd nbytes).2 =
      let d := (k.pcb p).fileDescArray fd
      let r := readData fs d.inode d.filePosition false nbytes
      if r.ret > 0 then k.advanceFd p fd r.ret.toNat else k := by
  unfold sysReadFile
  dsimp only
  split <;> rfl

/-- `_sys_read_directory` changes only the position of the listing. -/
theorem sysReadDirectory_snd (fs : FileSys) (k : Kernel) (stack : Mem) :
    ∃ flags, (k.sysReadDirectory fs stack).2 = { k with readDirFlag := flags } := by
  unfold sysReadDirectory
  dsimp only
  split <;> exact ⟨_, rfl⟩

theorem readOpInto_from {fs : FileSys} {k : Kernel} {stack : Mem} {p : Slot} {fd : Fin 8}
    {buf : Nat} {nbytes : Int} {ops : FileOps} {s : Stored} {n : Nat}
    (hout : ∀ a ∈ k.storedAt buf n, ¬ (KERNEL_START ≤ a ∧ a < MB_8))
    (hfile : ops = .file → n = (readData fs ((k.pcb p).fileDescArray fd).inode
      ((k.pcb p).fileDescArray fd).filePosition false nbytes.toNat).stored.length)
    (hdir : ops = .dir → n = (k.sysReadDirectory fs stack).1.stored.length)
    (h : k.readOpInto fs stack p fd buf nbytes ops = some s) :
    ∃ r, k.readOp fs stack p fd nbytes ops = some r ∧ StoredFrom (k.storedAt buf n) k r.2 s := by
  cases ops with
  | file =>
      unfold readOpInto at h
      dsimp only at h
      rw [hfile rfl] at hout ⊢
      refine ⟨_, rfl, ?_⟩
      dsimp only
      rw [sysReadFile_snd]
      dsimp only
      generalize readData fs ((k.pcb p).fileDescArray fd).inode
        ((k.pcb p).fileDescArray fd).filePosition false nbytes.toNat = r at h hout ⊢
      obtain ⟨s₁, hs₁, h⟩ := Option.bind_eq_some_iff.mp h
      obtain ⟨k₁, rfl | rfl, hk₁⟩ := storeBytes_cleared hout (by rw [List.length_replicate])
        (.refl _ k) hs₁
      · obtain ⟨s₂, hs₂, h⟩ := Option.bind_eq_some_iff.mp h
        obtain ⟨k₂, rfl | rfl, hk₂⟩ := storeBytes_cleared hout (Nat.le_refl _) hk₁ hs₂
        · cases h
          by_cases hpos : r.ret > 0
          · rw [if_pos hpos, if_pos hpos]
            exact .done (hk₂.advanceFd ..)
          · rw [if_neg hpos, if_neg hpos]
            exact .done hk₂
        · cases h
          exact .early hk₂
      · cases h
        exact .early hk₁
  | dir =>
      unfold readOpInto at h
      dsimp only at h
      rw [hdir rfl] at hout ⊢
      refine ⟨_, rfl, ?_⟩
      obtain ⟨flags, hflags⟩ := sysReadDirectory_snd fs k stack
      have hsame : (k.sysReadDirectory fs stack).2.storedAt buf
          (k.sysReadDirectory fs stack).1.stored.length
          = k.storedAt buf (k.sysReadDirectory fs stack).1.stored.length :=
        storedAt_congr (by rw [hflags]) (by rw [hflags]) _ _
      rw [← hsame] at hout ⊢
      exact storeBytes_from (by rw [hflags]) (by rw [hflags]; rfl) hout h
  | stdIn =>
      obtain ⟨r, hr, rfl⟩ := Option.map_eq_some_iff.mp h
      exact ⟨r, hr, .done (.refl _ _)⟩
  | stdOut =>
      cases h
      exact ⟨_, rfl, .done (.refl _ _)⟩
  | rtc =>
      obtain ⟨r, hr, rfl⟩ := Option.map_eq_some_iff.mp h
      exact ⟨r, hr, .done (.refl _ _)⟩

theorem sysReadInto_from {fs : FileSys} {k : Kernel} {stack : Mem} {fd nbytes : Int} {buf : Nat}
    {fr : Frame} {bufNull : Bool} {s : Stored} (hnull : bufNull = decide (buf = 0))
    (hout : k.SparesKernel fs ⟨.read stack fd bufNull nbytes, buf, fr⟩)
    (h : k.sysReadInto fs stack fd buf nbytes = some s) :
    ∃ k₁, step fs k (.read stack fd bufNull nbytes) = some k₁ ∧
      StoredFrom (k.storeAddrs fs ⟨.read stack fd bufNull nbytes, buf, fr⟩) k k₁ s := by
  subst hnull
  have hfails : k.sysRead fs stack fd (decide (buf = 0)) nbytes = some (.done ⟨-1, []⟩, k) →
      s = .done k → ∃ k₁, step fs k (.read stack fd (decide (buf = 0)) nbytes) = some k₁ ∧
        StoredFrom (k.storeAddrs fs ⟨.read stack fd (decide (buf = 0)) nbytes, buf, fr⟩) k k₁ s := by
    rintro hread rfl
    exact ⟨k, Option.map_eq_some_iff.mpr ⟨_, hread, rfl⟩, .done (.refl _ k)⟩
  unfold sysReadInto at h
  unfold sysRead at hfails
  by_cases hbad : nbytes ≤ 0 ∨ buf = 0 ∨ fd < 0 ∨ fd > MAX_FD_IDX
  · rw [if_pos hbad] at h
    cases h
    exact hfails (if_pos (by simpa using hbad)) rfl
  · rw [if_neg hbad] at h
    rw [if_neg (by simpa using hbad)] at hfails
    obtain ⟨p, hp, h⟩ := Option.bind_eq_some_iff.mp h
    rw [hp, Option.bind_some] at hfails
    dsimp only at h hfails
    by_cases hflags : ((k.pcb p).fileDescArray (fdIdx fd)).flags = 0
    · rw [if_pos hflags] at h
      cases h
      exact hfails (if_pos hflags) rfl
    · rw [if_neg hflags] at h
      obtain ⟨ops, hops, h⟩ := Option.bind_eq_some_iff.mp h
      have hsize : ops ≠ .stdIn → k.storeSize fs ⟨.read stack fd (decide (buf = 0)) nbytes, buf, fr⟩
          = k.readSize fs p fd buf nbytes k := by
        intro hne
        unfold storeSize
        dsimp only
        rw [hp]
        dsimp only
        rw [hops, if_neg (by simpa using hne)]
      have hfile : ops = .file → k.storeSize fs
          ⟨.read stack fd (decide (buf = 0)) nbytes, buf, fr⟩
          = (readData fs ((k.pcb p).fileDescArray (fdIdx fd)).inode
            ((k.pcb p).fileDescArray (fdIdx fd)).filePosition false nbytes.toNat).stored.length := by
        rintro rfl
        rw [hsize (by simp), readData_stored_length]
        unfold readSize
        dsimp only
        rw [if_neg (by tauto), hops]
      have hdir : ops = .dir → k.storeSize fs
          ⟨.read stack fd (decide (buf = 0)) nbytes, buf, fr⟩
          = (k.sysReadDirectory fs stack).1.stored.length := by
        rintro rfl
        rw [hsize (by simp), sysReadDirectory_stored_length]
        unfold readSize
        dsimp only
        rw [if_neg (by tauto), hops]
      obtain ⟨r, hr, hfrom⟩ := readOpInto_from hout hfile hdir h
      refine ⟨r.2, Option.map_eq_some_iff.mpr ⟨r, ?_, rfl⟩, hfrom⟩
      unfold sysRead
      rw [if_neg (by simpa using hbad), hp, Option.bind_some]
      dsimp only
      rw [if_neg hflags, hops]
      exact hr

theorem callStores_eq (fs : FileSys) (k : Kernel) (buf : Nat) (fr : Frame) {e : Event}
    (he : e.takesPointer = false) : k.callStores fs ⟨e, buf, fr⟩ = (step fs k e).map .done := by
  cases e with
  | read => cases he
  | resumeTerminal => cases he
  | getargs => cases he
  | _ => rfl

/-- **The stores of a call that spares the page of the kernel** change at most video memory. -/
theorem callStores_from {fs : FileSys} {k : Kernel} {c : UserCall} {s : Stored}
    (hout : k.SparesKernel fs c) (h : k.callStores fs c = some s) :
    ∃ k₁, step fs k c.event = some k₁ ∧ StoredFrom (k.storeAddrs fs c) k k₁ s := by
  obtain ⟨e, buf, fr⟩ := c
  cases e with
  | read stack fd bufNull nbytes =>
      unfold callStores at h
      dsimp only at h
      split at h
      · rename_i hnull
        exact sysReadInto_from hnull hout h
      · cases h
  | resumeTerminal nbytes =>
      obtain ⟨x, hx, h⟩ := Option.bind_eq_some_iff.mp h
      refine ⟨k, Option.map_eq_some_iff.mpr ⟨x, hx, rfl⟩, ?_⟩
      have hsize : k.storeSize fs ⟨.resumeTerminal nbytes, buf, fr⟩ = x.stored.length := by
        unfold readTerminalFinish at hx
        split at hx
        · cases hx
        · cases hx
          unfold Console.readTerminalCopy
          dsimp only
          rw [List.length_append]
          rfl
      unfold SparesKernel storeAddrs at hout
      unfold storeAddrs
      rw [hsize] at hout ⊢
      exact storeBytes_from rfl rfl hout h
  | getargs =>
      have hcall : k.sysGetargsInto buf = some s := h
      unfold sysGetargsInto at hcall
      by_cases harg : k.argFlag k.processTerminal = true
      · rw [if_pos harg] at hcall
        obtain ⟨p, hp, hcall⟩ := Option.bind_eq_some_iff.mp hcall
        obtain ⟨s₁, hs₁, hcall⟩ := Option.bind_eq_some_iff.mp hcall
        have hsize : k.storeSize fs ⟨.getargs, buf, fr⟩ = KEYBOARD_BUFFER_SIZE := if_pos harg
        unfold SparesKernel storeAddrs at hout
        unfold storeAddrs
        rw [hsize] at hout ⊢
        refine ⟨k, ?_, ?_⟩
        · show k.sysGetargs.map (fun _ => k) = some k
          unfold sysGetargs
          rw [if_pos harg, hp]
          rfl
        · obtain ⟨k₁, rfl | rfl, hk₁⟩ := storeBytes_cleared hout (by rw [List.length_replicate])
            (.refl _ k) hs₁
          · have hlen : ((k₁.pcb p).argumentArray.chars.takeWhile (· ≠ 0)).length
                ≤ KEYBOARD_BUFFER_SIZE :=
              Nat.le_trans (List.takeWhile_prefix _).length_le
                (Nat.le_of_lt (k₁.pcb p).argumentArray.terminated)
            obtain ⟨k₂, rfl | rfl, hk₂⟩ := storeBytes_cleared hout hlen hk₁ hcall
            · exact .done hk₂
            · exact .early hk₂
          · cases hcall
            exact .early hk₁
      · rw [if_neg harg] at hcall
        cases hcall
        refine ⟨k, ?_, .done (.refl _ k)⟩
        show k.sysGetargs.map (fun _ => k) = some k
        unfold sysGetargs
        rw [if_neg harg]
        rfl
  | _ =>
      obtain ⟨k₁, hk₁, rfl⟩ :=
        Option.map_eq_some_iff.mp ((callStores_eq fs k buf fr rfl).symm.trans h)
      exact ⟨k₁, hk₁, .done (.refl _ k₁)⟩

/-! ## Runs whose stores stay in the user page -/

/-- **A call that stores in the user page** does what its event does, and if it faults, what a page
fault does before or behind the event. -/
theorem storeStep_of_user {fs : FileSys} {k k' : Kernel} {c : UserCall}
    (hin : k.StoresInUser fs c) (h : storeStep fs k c = some k') :
    StepSystem.Reachable (step fs) k k' := by
  obtain ⟨s, hs, h⟩ := Option.bind_eq_some_iff.mp h
  obtain ⟨k₁, hk₁, hfrom⟩ := callStores_from hin.sparesKernel hs
  have hreach : StepSystem.Reachable (step fs) k k₁ := (StepSystem.Reachable.refl k).trans_step hk₁
  cases hfrom with
  | done hdrawn =>
      cases h
      rw [hdrawn.eq hin]
      exact hreach
  | early hdrawn =>
      rw [hdrawn.eq hin] at h
      exact (StepSystem.Reachable.refl k).trans_step (e := .exception c.fr PAGE_FAULT) h
  | late _ _ hdrawn =>
      rw [hdrawn.eq hin] at h
      exact hreach.trans_step (e := .exception c.fr PAGE_FAULT) h

/-- **Runs of calls that store in the user page only** reach what the events reach. -/
theorem reachable_of_user_run {fs : FileSys} {k k' : Kernel} {cs : List UserCall}
    (hk : Reachable fs k) (hin : StepSystem.Guarded (storeStep fs) (StoresInUser fs) k cs)
    (hrun : StepSystem.run (storeStep fs) k cs = some k') : Reachable fs k' := by
  refine StepSystem.run_invariant_of_guarded (P := Reachable fs) ?_ hin hrun hk
  rintro k c k' ⟨m, hm⟩ huser hstep
  obtain ⟨es, hes⟩ := storeStep_of_user huser hstep
  exact ⟨m, hm.trans_run hes⟩

end Kernel

end Ext2Kernel
