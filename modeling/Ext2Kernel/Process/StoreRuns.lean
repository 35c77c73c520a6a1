import Ext2Kernel.Process.Nesting
import Ext2Kernel.Process.DescriptorCalls
import Ext2Kernel.Process.PointerStores

set_option autoImplicit false

/-! # Runs with stores through user pointers

As long as `sys_read` and `sys_getargs` store no byte in the page of the kernel, the calls with
their stores are traces of the same actions as the events (`storeStep_trace`): the process table
and the descriptors keep their invariant, and the PCB of a caller waits untouched for the end of
its child. A read with a pointer into that page changes the PCB of whatever process lies there.
-/

namespace Ext2Kernel

open LinkedStacks Kernel ByteMem

namespace Kernel

/-! ## What a call does to the processes -/

/-- The stores of the call fault, and the fault ends the running process. -/
def StoreFaults (fs : FileSys) (k : Kernel) (c : UserCall) : Prop :=
  ∃ k', k.callStores fs c = some (.fault k')

/-- The call ends the running process. -/
def CallEnds (fs : FileSys) (k : Kernel) (c : UserCall) : Prop :=
  c.event.Ends fs k ∨ k.StoreFaults fs c

/-- The actions a call may have: those of its event, and those of `sys_halt` if a store faults. -/
def CallAllowed (fs : FileSys) (k : Kernel) (c : UserCall) (a : Action) : Prop :=
  Allowed fs k c.event a ∨ (k.StoreFaults fs c ∧ ∃ p, k.cur = some p ∧ k.HaltAction p a)

theorem Drawn.still {as : List Nat} {k k' : Kernel} (h : Drawn as k k') : Still k k' := by
  obtain ⟨v, rfl, _⟩ := h
  exact .of_eq rfl rfl rfl

theorem Drawn.processTerminal {as : List Nat} {k k' : Kernel} (h : Drawn as k k') :
    k'.processTerminal = k.processTerminal := by
  obtain ⟨v, rfl, _⟩ := h
  rfl

theorem Drawn.cur {as : List Nat} {k k' : Kernel} (h : Drawn as k k') : k'.cur = k.cur := by
  obtain ⟨v, rfl, _⟩ := h
  rfl

theorem HaltAction.congr {k k' : Kernel} {p : Slot} {a : Action}
    (hterm : k'.processTerminal = k.processTerminal) (h : k'.HaltAction p a) :
    k.HaltAction p a := by
  cases a with
  | pop t q => exact ⟨h.1.trans hterm, h.2⟩
  | still => trivial
  | quiet => exact h
  | push => trivial
  | claim => exact h

/-- The page fault of a store, as a trace of the state before the call. -/
theorem trace_storeFault {fs : FileSys} {k k₁ k' : Kernel} {c : UserCall} {r : HaltResult}
    (hterm : k₁.processTerminal = k.processTerminal) (hcur : k₁.cur = k.cur)
    (hfault : k.StoreFaults fs c) (h : k₁.exceptionHandler fs c.fr PAGE_FAULT = some (r, k')) :
    ∃ as, Trace as k₁ k' ∧ ∀ a ∈ as, CallAllowed fs k c a := by
  obtain ⟨p, hp, as, htrace, has⟩ := trace_exceptionHandler h
  exact ⟨as, htrace, fun a ha =>
    Or.inr ⟨hfault, p, hcur.symm.trans hp, (has a ha).congr hterm⟩⟩

/-- **A call that spares the page of the kernel is a trace of allowed actions.** -/
theorem storeStep_trace {fs : FileSys} {k k' : Kernel} {c : UserCall}
    (hout : k.SparesKernel fs c) (h : storeStep fs k c = some k') :
    ∃ as, Trace as k k' ∧ ∀ a ∈ as, CallAllowed fs k c a := by
  obtain ⟨s, hs, h⟩ := Option.bind_eq_some_iff.mp h
  obtain ⟨k₁, hk₁, hfrom⟩ := callStores_from hout hs
  obtain ⟨as, htrace, has⟩ := step_trace hk₁
  have hevent : ∀ a ∈ as, CallAllowed fs k c a := fun a ha => Or.inl (has a ha)
  cases hfrom with
  | done hdrawn =>
      cases h
      refine ⟨as ++ [.still], htrace.append (.single (a := .still) hdrawn.still), fun a ha => ?_⟩
      rcases List.mem_append.mp ha with ha | ha
      · exact hevent a ha
      · rw [List.mem_singleton.mp ha]
        exact Or.inl trivial
  | early hdrawn =>
      obtain ⟨x, hx, rfl⟩ := Option.map_eq_some_iff.mp h
      obtain ⟨bs, hbs, hall⟩ := trace_storeFault hdrawn.processTerminal hdrawn.cur ⟨_, hs⟩ hx
      refine ⟨.still :: bs, .cons hdrawn.still hbs, fun a ha => ?_⟩
      rcases List.mem_cons.mp ha with rfl | ha
      · exact Or.inl trivial
      · exact hall a ha
  | late hterm hcur hdrawn =>
      obtain ⟨x, hx, rfl⟩ := Option.map_eq_some_iff.mp h
      obtain ⟨bs, hbs, hall⟩ := trace_storeFault (hdrawn.processTerminal.trans hterm)
        (hdrawn.cur.trans hcur) ⟨_, hs⟩ hx
      refine ⟨as ++ .still :: bs, htrace.append (.cons hdrawn.still hbs), fun a ha => ?_⟩
      rcases List.mem_append.mp ha with ha | ha
      · exact hevent a ha
      · rcases List.mem_cons.mp ha with rfl | ha
        · exact Or.inl trivial
        · exact hall a ha

/-- A call that does not end `p` has no action that does. -/
theorem CallAllowed.ne_pop {fs : FileSys} {k : Kernel} {c : UserCall} {p : Slot} {a : Action}
    (h : CallAllowed fs k c a) (hp : ¬ (k.cur = some p ∧ k.CallEnds fs c)) (u : Terminal) :
    a ≠ .pop u p := by
  rintro rfl
  rcases h with h | ⟨hfault, q, hq, _, rfl⟩
  · exact hp ⟨h.2.1, Or.inl h.2.2⟩
  · exact hp ⟨hq, Or.inr hfault⟩

/-! ## Runs from boot -/

/-- The states reached from boot when no call stores in the page of the kernel. -/
def SafelyReachable (fs : FileSys) (k : Kernel) : Prop :=
  ∃ m cs, StepSystem.Guarded (storeStep fs) (SparesKernel fs) (boot m) cs ∧
    StepSystem.run (storeStep fs) (boot m) cs = some k

theorem SafelyReachable.sound {fs : FileSys} {k : Kernel} (h : SafelyReachable fs k) :
    ∃ S, Sound k S := by
  obtain ⟨m, cs, hout, hrun⟩ := h
  refine StepSystem.run_invariant_of_guarded (P := fun k => ∃ S, Sound k S) ?_ hout hrun
    ⟨_, boot_sound m⟩
  intro k c k' hS hout hstep
  obtain ⟨as, htrace, _⟩ := storeStep_trace hout hstep
  exact htrace.sound hS

/-! ## The descriptors -/

/-- The fault of a store leaves the descriptors of the other processes alone. -/
theorem exceptionHandler_fds {fs : FileSys} {fr : Frame} {index : Fin 20} {k k' : Kernel}
    {r : HaltResult} {q : Slot} (hq : OnStack q k) (hne : k.cur ≠ some q)
    (h : k.exceptionHandler fs fr index = some (r, k')) :
    (k'.pcb q).fileDescArray = (k.pcb q).fileDescArray := by
  obtain ⟨p, hp, as, htrace, has⟩ := trace_exceptionHandler h
  have hinv := htrace.invariant
    (P := fun m => OnStack q m ∧ (m.pcb q).fileDescArray = (k.pcb q).fileDescArray) ?_ ⟨hq, rfl⟩
  · exact hinv.2
  · intro a ha m m' ⟨hm, hfds⟩ hd
    have hpop : ∀ u, a ≠ .pop u q := by
      rintro u rfl
      obtain ⟨_, rfl⟩ := has _ ha
      exact hne hp
    have hquiet : a ≠ .quiet := by
      rintro rfl
      exact has _ ha
    exact ⟨hd.onStack hm hpop, (hd.pcbStill hm hpop hquiet).fds.trans hfds⟩

/-- What the descriptor tables promise for the calls with their stores. -/
structure StoreDiscipline (fs : FileSys) (k : Kernel) : Prop where
  /-- A read on what is no open descriptor stores nothing. -/
  read : ∀ p stack fd nbytes buf fr, k.cur = some p → ¬ OpenFd (k.pcb p) fd →
    storeStep fs k ⟨.read stack fd (decide (buf = 0)) nbytes, buf, fr⟩ = some k
  /-- No call on a descriptor changes one of another living process, whether its stores fault or
  not. -/
  others : ∀ c k', c.event.FdCall → k.SparesKernel fs c → storeStep fs k c = some k' →
    ∀ q, k.Live q → k.cur ≠ some q → (k'.pcb q).fileDescArray = (k.pcb q).fileDescArray
  /-- A shell started in place of a process whose store has faulted has a new table. -/
  fault : ∀ c k₁ eip image k', k.SparesKernel fs c → k.callStores fs c = some (.fault k₁) →
    k₁.exceptionHandler fs c.fr PAGE_FAULT = some (.enter eip image, k') →
      k'.NewProcess k.processTerminal

theorem sysReadInto_bad {fs : FileSys} {k : Kernel} {p : Slot} {fd : Int} (hp : k.cur = some p)
    (hfd : ¬ OpenFd (k.pcb p) fd) (stack : Mem) (buf : Nat) (nbytes : Int) :
    k.sysReadInto fs stack fd buf nbytes = some (.done k) := by
  unfold sysReadInto
  split
  · rfl
  · rename_i hrange
    rw [hp, Option.bind_some]
    dsimp only
    unfold MAX_FD_IDX at hrange
    rw [if_pos]
    by_contra hflags
    exact hfd ⟨by omega, by omega, hflags⟩

/-- What the fault of a store starts from: a sound state with the same process. -/
theorem StoredFrom.fault {as : List Nat} {k k₁ k₂ : Kernel} (h : StoredFrom as k k₁ (.fault k₂)) :
    (k₂.processTerminal = k.processTerminal ∧ k₂.cur = k.cur) ∧ (Drawn as k k₂ ∨ Drawn as k₁ k₂) := by
  cases h with
  | early h => exact ⟨⟨h.processTerminal, h.cur⟩, Or.inl h⟩
  | late hterm hcur h => exact ⟨⟨h.processTerminal.trans hterm, h.cur.trans hcur⟩, Or.inr h⟩

theorem Sound.drawn {k k' : Kernel} {S : Stacks} {as : List Nat} (hS : Sound k S)
    (h : Drawn as k k') : Sound k' S := by
  have hd : Does .still k k' := h.still
  exact hd.sound hS

theorem OnStack.drawn {k k' : Kernel} {p : Slot} {as : List Nat} (hp : OnStack p k)
    (h : Drawn as k k') : OnStack p k' := by
  obtain ⟨S, hS, hmem⟩ := hp
  exact ⟨S, hS.drawn h, hmem⟩

theorem Sound.storeDiscipline (fs : FileSys) {k : Kernel} {S : Stacks} (hS : Sound k S) :
    StoreDiscipline fs k := by
  refine { read := ?_, others := ?_, fault := ?_ }
  · intro p stack fd nbytes buf fr hp hfd
    have hcall : k.callStores fs ⟨.read stack fd (decide (buf = 0)) nbytes, buf, fr⟩
        = k.sysReadInto fs stack fd buf nbytes := if_pos rfl
    unfold storeStep
    rw [hcall, sysReadInto_bad hp hfd]
    rfl
  · intro c k' hfd hout hstep q hlive hne
    obtain ⟨s, hs, hstep⟩ := Option.bind_eq_some_iff.mp hstep
    obtain ⟨k₁, hk₁, hfrom⟩ := callStores_from hout hs
    have hevent := hS.onlyRunning_fdCall hfd hk₁ q hne
    have hq : OnStack q k := ⟨S, hS, hS.toTree.mem_of_live hlive⟩
    have hq₁ : OnStack q k₁ := hq.step (fun h => hne h.1) hk₁
    cases s with
    | done k₂ =>
        cases hstep
        cases hfrom with
        | done hdrawn => rw [(hdrawn.still.pcbStill q).fds, hevent]
    | fault k₂ =>
        obtain ⟨x, hx, rfl⟩ := Option.map_eq_some_iff.mp hstep
        obtain ⟨⟨_, hcur⟩, hdrawn⟩ := hfrom.fault
        have hne₂ : k₂.cur ≠ some q := fun h => hne (hcur.symm.trans h)
        rcases hdrawn with hdrawn | hdrawn
        · rw [exceptionHandler_fds (hq.drawn hdrawn) hne₂ hx, (hdrawn.still.pcbStill q).fds]
        · rw [exceptionHandler_fds (hq₁.drawn hdrawn) hne₂ hx, (hdrawn.still.pcbStill q).fds,
            hevent]
  · intro c k₁ eip image k' hout hs hexc
    obtain ⟨k₂, hk₂, hfrom⟩ := callStores_from hout hs
    obtain ⟨⟨hterm, _⟩, hdrawn⟩ := hfrom.fault
    obtain ⟨S₂, hS₂⟩ := step_sound ⟨S, hS⟩ hk₂
    rw [← hterm]
    rcases hdrawn with hdrawn | hdrawn
    · exact exceptionHandler_newProcess (hS.drawn hdrawn) hexc
    · exact exceptionHandler_newProcess (hS₂.drawn hdrawn) hexc

/-- **The descriptor tables over runs from boot** in which no call stores in the page of the
kernel. -/
theorem tableDiscipline_of_spared_run (fs : FileSys) (k : Kernel) (h : SafelyReachable fs k) :
    TableDiscipline fs k ∧ StoreDiscipline fs k := by
  obtain ⟨S, hS⟩ := h.sound
  exact ⟨hS.tableDiscipline fs, hS.storeDiscipline fs⟩

/-- A call on the small image whose pointer, if it takes one, is the start of the user page. -/
def sampleCall (e : Event) : UserCall := ⟨e, USER_START, zeroFrame⟩

/-- A read of four bytes from descriptor 2. -/
def sampleRead (buf : Nat) : UserCall := ⟨.read (fun _ => 0) 2 false 4, buf, zeroFrame⟩

/-- Process 1, the second shell, reads the four bytes of `shell` into its page, and then the end of
the file to `buf`: the buffer is cleared, and nothing is copied. -/
def readsShell (buf : Nat) : List UserCall :=
  [sampleCall (.pit zeroFrame), sampleCall (.pit zeroFrame),
    sampleCall (.open (some (ascii "shell"))), sampleRead USER_START, sampleRead buf]

/-- Both reads store in the user page, and then the shell halts: a new one takes its place. -/
theorem tableDiscipline_of_spared_run_sample : ∃ k,
    StepSystem.run (storeStep sampleImage) (boot zeroMemory)
      (readsShell (USER_START + 4) ++ [sampleCall (.halt zeroFrame 0)]) = some k ∧
    TableDiscipline sampleImage k ∧ StoreDiscipline sampleImage k := by
  have hout : StepSystem.Guarded (storeStep sampleImage) (SparesKernel sampleImage)
      (boot zeroMemory) (readsShell (USER_START + 4) ++ [sampleCall (.halt zeroFrame 0)]) := by
    decide +kernel
  obtain ⟨k, hk⟩ := Option.isSome_iff_exists.mp (show (StepSystem.run (storeStep sampleImage)
    (boot zeroMemory) (readsShell (USER_START + 4) ++ [sampleCall (.halt zeroFrame 0)])).isSome
      = true by decide +kernel)
  have hreach : SafelyReachable sampleImage k := ⟨zeroMemory, _, hout, hk⟩
  exact ⟨k, hk, tableDiscipline_of_spared_run sampleImage k hreach⟩

/-- The second read clears the flags of the first descriptor of process 0. -/
theorem stdin_closed_by_read : ¬ ∀ (fs : FileSys) (m : BootMemory) (cs : List UserCall)
    (k : Kernel), StepSystem.run (storeStep fs) (boot m) cs = some k → TableDiscipline fs k := by
  intro hall
  obtain ⟨k, hrun, htop, hflags⟩ := StepSystem.exists_of_map_decide
    (o := StepSystem.run (storeStep sampleImage) (boot zeroMemory) (readsShell (pcbAddr 0 + 12)))
    (P := fun k => k.curPcbPtr 1 = some 0 ∧ ((k.pcb 0).fileDescArray 0).flags = 0)
    (by decide +kernel)
  have hstdin := ((hall sampleImage zeroMemory _ k hrun).terminal 0 (.current htop)).1
  rw [hstdin] at hflags
  exact absurd hflags (by decide)

/-! ## The caller while its child lives -/

theorem Nested.call {fs : FileSys} {t : Terminal} {n p : Slot} {b : Pcb} {k k' : Kernel}
    {c : UserCall} (h : Nested t n p b k) (hout : k.SparesKernel fs c)
    (hspare : ¬ (k.cur = some n ∧ k.CallEnds fs c)) (hstep : storeStep fs k c = some k') :
    Nested t n p b k' := by
  obtain ⟨as, htrace, hall⟩ := storeStep_trace hout hstep
  exact h.trace htrace fun a ha => (hall a ha).ne_pop hspare

theorem Nested.drawn {t : Terminal} {n p : Slot} {b : Pcb} {k k' : Kernel} {as : List Nat}
    (h : Nested t n p b k) (hd : Drawn as k k') : Nested t n p b k' :=
  h.does (a := .still) hd.still (by simp)

theorem Restored.drawn {t : Terminal} {n p : Slot} {b : Pcb} {k k' : Kernel} {as : List Nat}
    (h : Restored t n p b k) (hd : Drawn as k k') : Restored t n p b k' := by
  obtain ⟨v, rfl, _⟩ := hd
  exact ⟨h.cur, h.pcb, h.free, h.closed⟩

/-- Only a read or `sys_getargs` faults in its stores. -/
theorem StoreFaults.takesPointer {fs : FileSys} {k : Kernel} {c : UserCall}
    (h : k.StoreFaults fs c) : c.event.takesPointer = true := by
  obtain ⟨k', hk'⟩ := h
  obtain ⟨e, buf, fr⟩ := c
  by_contra he
  rw [callStores_eq fs k buf fr (by simpa using he)] at hk'
  obtain ⟨_, _, heq⟩ := Option.map_eq_some_iff.mp hk'
  cases heq

theorem endsNothing_of_takesPointer {e : Event} (h : e.takesPointer = true) :
    e.endsNothing = true := by
  cases e <;> first | rfl | cases h

/-- Any call that ends the child returns to the parent. -/
theorem Nested.callEnds {fs : FileSys} {t : Terminal} {n p : Slot} {b : Pcb} {k k' : Kernel}
    {c : UserCall} (h : Nested t n p b k) (hcur : k.cur = some n) (hout : k.SparesKernel fs c)
    (hends : k.CallEnds fs c) (hstep : storeStep fs k c = some k') : Restored t n p b k' := by
  obtain ⟨s, hs, hstep⟩ := Option.bind_eq_some_iff.mp hstep
  obtain ⟨k₁, hk₁, hfrom⟩ := callStores_from hout hs
  cases s with
  | done k₂ =>
      cases hstep
      rcases hends with hends | ⟨k₃, hfault⟩
      · cases hfrom with
        | done hdrawn => exact (h.ends hcur hends hk₁).drawn hdrawn
      · rw [hs] at hfault
        cases hfault
  | fault k₂ =>
      obtain ⟨x, hx, rfl⟩ := Option.map_eq_some_iff.mp hstep
      obtain ⟨⟨_, hsame⟩, hdrawn⟩ := hfrom.fault
      have hquiet : ¬ c.event.Ends fs k := Event.not_ends
        (endsNothing_of_takesPointer (StoreFaults.takesPointer ⟨k₂, hs⟩))
      have hnested : Nested t n p b k₂ := by
        rcases hdrawn with hdrawn | hdrawn
        · exact h.drawn hdrawn
        · exact (h.spared (fun hs => hquiet hs.2) hk₁).drawn hdrawn
      exact hnested.exception (hsame.trans hcur) hx

/-- **Execute and halt bracket.** After a successful execute by `p` from a visible terminal and any
calls that neither end the child nor store in the page of the kernel, the end of the child makes
`p` current again, with the PCB it had when the child was entered; the number of the child is free
and its descriptors are closed. -/
theorem caller_restored {fs : FileSys} {k₀ k₁ k₂ k₃ : Kernel} {fr : Frame}
    {command : Option (List UInt8)} {eip : Nat} {image : List UInt8} {n p : Slot}
    {cs : List UserCall} {c : UserCall} (hreach : SafelyReachable fs k₀) (hcur : k₀.cur = some p)
    (hv : k₀.visibleTerminal = k₀.processTerminal)
    (hexec : k₀.sysExecute fs fr command = some (.enter eip image, k₁))
    (hchild : k₁.curPcbPtr k₀.processTerminal = some n)
    (hout : StepSystem.Guarded (storeStep fs) (SparesKernel fs) k₁ cs)
    (hspare : StepSystem.Guarded (storeStep fs) (fun k c => ¬ (k.cur = some n ∧ k.CallEnds fs c))
      k₁ cs)
    (hrun : StepSystem.run (storeStep fs) k₁ cs = some k₂)
    (hn : k₂.cur = some n) (hlast : k₂.SparesKernel fs c) (hends : k₂.CallEnds fs c)
    (hstep : storeStep fs k₂ c = some k₃) :
    k₃.curPcbPtr k₀.processTerminal = some p ∧ k₃.pcb p = k₁.pcb p
      ∧ (k₁.pcb p).esp = fr.esp ∧ (k₁.pcb p).ebp = fr.ebp
      ∧ k₃.activeProcesses n = 0
      ∧ ∀ i : Fin 8, 2 ≤ i.val → ((k₃.pcb n).fileDescArray i).flags = 0 := by
  obtain ⟨S, hS⟩ := hreach.sound
  obtain ⟨q, hq⟩ := sysExecute_spec hexec
  have hin := hq.inCallersTerminal hS.toTree hcur hv
  have hterm : k₀.execTerm = k₀.processTerminal := by
    unfold execTerm
    rw [hv, ite_self]
  obtain rfl : q = n := by
    rw [hq.cur, hterm, Function.update_self] at hchild
    exact Option.some.inj hchild
  have hnested : Nested k₀.processTerminal q p (k₁.pcb p) k₂ :=
    StepSystem.run_invariant_of_guarded (fun _ _ _ hk hc hst => Nested.call hk hc.1 hc.2 hst)
      (hout.and hspare) hrun (hq.nested hS hcur hv)
  have hret := hnested.callEnds hn hlast hends hstep
  exact ⟨hret.cur, hret.pcb, hin.esp, hin.ebp, hret.free, hret.closed⟩

/-! ### A bracket on the small image -/

/-- Three ticks: every terminal has a shell, and process 2 runs on the visible one. -/
def threeShells : List UserCall :=
  [sampleCall (.pit zeroFrame), sampleCall (.pit zeroFrame), sampleCall (.pit zeroFrame)]

/-- While the child of process 2 waits for its turn, process 0 reads `shell` into its page, and the
end of the file to `buf`. -/
def besideChild (buf : Nat) : List UserCall :=
  [sampleCall (.pit zeroFrame), sampleCall (.open (some (ascii "shell"))), sampleRead USER_START,
    sampleRead buf, sampleCall (.pit zeroFrame), sampleCall (.pit zeroFrame)]

/-- The call does not end process 3, which the two decidable conditions show. -/
def SparesThird (k : Kernel) (c : UserCall) : Prop :=
  k.cur ≠ some 3 ∨ c.event.takesPointer = false ∧ c.event.endsNothing = true

instance (k : Kernel) (c : UserCall) : Decidable (k.SparesThird c) :=
  inferInstanceAs (Decidable (_ ∨ _))

theorem SparesThird.spares (fs : FileSys) {k : Kernel} {c : UserCall} (h : k.SparesThird c) :
    ¬ (k.cur = some 3 ∧ k.CallEnds fs c) := by
  rintro ⟨hcur, hends⟩
  rcases h with hne | ⟨hplain, hnothing⟩
  · exact hne hcur
  · rcases hends with hends | hfault
    · exact Event.not_ends hnothing hends
    · rw [hfault.takesPointer] at hplain
      cases hplain

/-- Process 2 executes a shell as process 3, which halts after the calls beside it; the states
before and behind the calls and after the halt have been checked for `P`. -/
theorem sampleBracket (buf : Nat) {P : Kernel → Kernel → Kernel → Prop}
    [∀ k₁ k₂ k₃, Decidable (P k₁ k₂ k₃)]
    (h : ((StepSystem.run (storeStep sampleImage) (boot zeroMemory) threeShells).bind fun k₀ =>
      (k₀.sysExecute sampleImage zeroFrame (some shellCommand)).bind fun r =>
      (StepSystem.run (storeStep sampleImage) r.2 (besideChild buf)).bind fun k₂ =>
      (storeStep sampleImage k₂ (sampleCall (.halt zeroFrame 0))).map fun k₃ =>
        decide (k₀.cur = some 2 ∧ k₀.visibleTerminal = k₀.processTerminal
          ∧ r.2.curPcbPtr k₀.processTerminal = some 3 ∧ k₂.cur = some 3
          ∧ StepSystem.Guarded (storeStep sampleImage) SparesThird r.2 (besideChild buf)
          ∧ P r.2 k₂ k₃)) = some true) :
    ∃ k₀ k₁ k₂ k₃ eip image,
      StepSystem.run (storeStep sampleImage) (boot zeroMemory) threeShells = some k₀
      ∧ k₀.cur = some 2 ∧ k₀.visibleTerminal = k₀.processTerminal
      ∧ k₀.sysExecute sampleImage zeroFrame (some shellCommand) = some (.enter eip image, k₁)
      ∧ k₁.curPcbPtr k₀.processTerminal = some 3
      ∧ StepSystem.Guarded (storeStep sampleImage)
        (fun k c => ¬ (k.cur = some 3 ∧ k.CallEnds sampleImage c)) k₁ (besideChild buf)
      ∧ StepSystem.run (storeStep sampleImage) k₁ (besideChild buf) = some k₂
      ∧ k₂.cur = some 3
      ∧ storeStep sampleImage k₂ (sampleCall (.halt zeroFrame 0)) = some k₃ ∧ P k₁ k₂ k₃ := by
  obtain ⟨k₀, hk₀, h⟩ := Option.bind_eq_some_iff.mp h
  obtain ⟨⟨r, k₁⟩, hk₁, h⟩ := Option.bind_eq_some_iff.mp h
  obtain ⟨k₂, hk₂, h⟩ := Option.bind_eq_some_iff.mp h
  obtain ⟨k₃, hk₃, h⟩ := Option.map_eq_some_iff.mp h
  obtain ⟨hcur, hv, hchild, hcur₂, hspare, hP⟩ := of_decide_eq_true h
  -- A call that has not started the child has left process 2 current.
  have hstarted : k₁.curPcbPtr ≠ k₀.curPcbPtr := fun heq => by
    have hsame : k₁.curPcbPtr k₀.processTerminal = some 2 := (congrFun heq _).trans hcur
    rw [hchild] at hsame
    exact absurd hsame (by decide)
  have hspec := sysExecute_spec hk₁
  cases r with
  | enter eip image =>
      exact ⟨k₀, k₁, k₂, k₃, eip, image, hk₀, hcur, hv, hk₁, hchild,
        StepSystem.guarded_of_imp (fun _ _ hs => hs.spares sampleImage) hspare, hk₂, hcur₂, hk₃, hP⟩
  | ret v => exact absurd hspec.2.cur hstarted
  | fault =>
      obtain ⟨_, hp⟩ := hspec
      exact absurd hp.cur hstarted

theorem caller_restored_sample : ∃ k₀ k₁ k₂ k₃ eip image,
    StepSystem.run (storeStep sampleImage) (boot zeroMemory) threeShells = some k₀
    ∧ k₀.cur = some 2
    ∧ k₀.sysExecute sampleImage zeroFrame (some shellCommand) = some (.enter eip image, k₁)
    ∧ StepSystem.run (storeStep sampleImage) k₁ (besideChild (USER_START + 4)) = some k₂
    ∧ storeStep sampleImage k₂ (sampleCall (.halt zeroFrame 0)) = some k₃
    ∧ (k₃.curPcbPtr k₀.processTerminal = some 2 ∧ k₃.pcb 2 = k₁.pcb 2
      ∧ (k₁.pcb 2).esp = zeroFrame.esp ∧ (k₁.pcb 2).ebp = zeroFrame.ebp
      ∧ k₃.activeProcesses 3 = 0
      ∧ ∀ i : Fin 8, 2 ≤ i.val → ((k₃.pcb 3).fileDescArray i).flags = 0) := by
  obtain ⟨k₀, k₁, k₂, k₃, eip, image, hk₀, hcur, hv, hk₁, hchild, hspare, hk₂, hcur₂, hk₃, hout,
    hlast⟩ := sampleBracket (USER_START + 4)
      (P := fun k₁ k₂ _ => StepSystem.Guarded (storeStep sampleImage) (SparesKernel sampleImage) k₁
          (besideChild (USER_START + 4))
        ∧ k₂.SparesKernel sampleImage (sampleCall (.halt zeroFrame 0))) (by decide +kernel)
  have hreach : SafelyReachable sampleImage k₀ := ⟨zeroMemory, _, by decide +kernel, hk₀⟩
  exact ⟨k₀, k₁, k₂, k₃, eip, image, hk₀, hcur, hk₁, hk₂, hk₃,
    caller_restored hreach hcur hv hk₁ hchild hout hspare hk₂ hcur₂ hlast
      (Or.inl (Or.inl ⟨_, _, rfl⟩)) hk₃⟩

/-- Process 0 clears the flags of the first descriptor of process 2 while its child lives. -/
theorem caller_changed_by_read : ¬ ∀ (fs : FileSys) (m : BootMemory) (cs₀ cs : List UserCall)
    (c : UserCall) (k₀ k₁ k₂ k₃ : Kernel) (fr : Frame) (command : Option (List UInt8)) (eip : Nat)
    (image : List UInt8) (n p : Slot), StepSystem.run (storeStep fs) (boot m) cs₀ = some k₀ →
      (∀ t, k₀.curPcbPtr t ≠ none) → k₀.cur = some p → k₀.visibleTerminal = k₀.processTerminal →
      k₀.sysExecute fs fr command = some (.enter eip image, k₁) →
      k₁.curPcbPtr k₀.processTerminal = some n →
      StepSystem.Guarded (storeStep fs) (fun k c => ¬ (k.cur = some n ∧ k.CallEnds fs c)) k₁ cs →
      StepSystem.run (storeStep fs) k₁ cs = some k₂ → k₂.cur = some n → k₂.CallEnds fs c →
      storeStep fs k₂ c = some k₃ → k₃.pcb p = k₁.pcb p := by
  intro hall
  obtain ⟨k₀, k₁, k₂, k₃, eip, image, hk₀, hcur, hv, hk₁, hchild, hspare, hk₂, hcur₂, hk₃, hbefore,
    hafter⟩ := sampleBracket (pcbAddr 2 + 12)
      (P := fun k₁ _ k₃ => ((k₁.pcb 2).fileDescArray 0).flags = 1
        ∧ ((k₃.pcb 2).fileDescArray 0).flags = 0) (by decide +kernel)
  obtain ⟨k, hk, hall₀⟩ := StepSystem.exists_of_map_decide
    (o := StepSystem.run (storeStep sampleImage) (boot zeroMemory) threeShells)
    (P := fun k => ∀ t, k.curPcbPtr t ≠ none) (by decide +kernel)
  obtain rfl : k = k₀ := Option.some.inj (hk.symm.trans hk₀)
  have hsame := hall sampleImage zeroMemory threeShells _ _ k k₁ k₂ k₃ _ _ eip image 3 2 hk₀ hall₀
    hcur hv hk₁ hchild hspare hk₂ hcur₂ (Or.inl (Or.inl ⟨_, _, rfl⟩)) hk₃
  rw [hsame, hbefore] at hafter
  exact absurd hafter (by decide)

end Kernel

end Ext2Kernel
