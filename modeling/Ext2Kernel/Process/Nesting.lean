import Ext2Kernel.Process.TreeRuns

set_option autoImplicit false

/-! # Callers and children

What `sys_execute` does to the terminals, and what becomes of a caller while its child runs.
The new process is put on the visible terminal, so that it runs in the terminal of its caller
exactly if that is the visible one. Below its child the PCB of a caller is not touched until
the child ends.
-/

namespace Ext2Kernel

open LinkedStacks Kernel

namespace Kernel

/-! ## The terminal of a new process -/

/-- The call by `p` that led from `k` to `k'` stayed in the terminal of `p`: the new process
is current there with `p` as its parent, `p` has its registers saved, and the other terminals
keep their current process, its PCB and their flags. -/
structure InCallersTerminal (k : Kernel) (fr : Frame) (p : Slot) (k' : Kernel) : Prop where
  child : ∃ n, n ≠ p ∧ k'.curPcbPtr k.processTerminal = some n ∧ (k'.pcb n).parentPcb = some p
  esp : (k'.pcb p).esp = fr.esp
  ebp : (k'.pcb p).ebp = fr.ebp
  cur : ∀ t, t ≠ k.processTerminal → k'.curPcbPtr t = k.curPcbPtr t
  pcb : ∀ t, t ≠ k.processTerminal → ∀ q, k.curPcbPtr t = some q → k'.pcb q = k.pcb q
  argFlag : ∀ t, t ≠ k.processTerminal → k'.argFlag t = k.argFlag t
  errorFlag : ∀ t, t ≠ k.processTerminal → k'.errorFlag t = k.errorFlag t
  shellFlag : ∀ t, t ≠ k.processTerminal →
    (k'.console.term t).shellFlag = (k.console.term t).shellFlag

theorem saveFrame_of_top {k : Kernel} {t : Terminal} {p : Slot} (fr : Frame)
    (h : k.curPcbPtr t = some p) :
    (k.saveFrame t fr).pcb
      = Function.update k.pcb p { k.pcb p with esp := fr.esp, ebp := fr.ebp } := by
  unfold saveFrame
  rw [h]
  rfl

/-- From a visible terminal the call stays there. -/
theorem Entered.inCallersTerminal {k k' : Kernel} {fr : Frame} {n p : Slot} {S : Stacks}
    (hS : Tree k S) (h : Entered k fr k' n) (hcur : k.cur = some p)
    (hv : k.visibleTerminal = k.processTerminal) : InCallersTerminal k fr p k' := by
  have hterm : k.execTerm = k.processTerminal := by
    unfold execTerm
    rw [hv, ite_self]
  have hfresh := hS.fresh (firstFree_eq_some h.first)
  have hne : ∀ t q, k.curPcbPtr t = some q → q ≠ n := by
    rintro t q hq rfl
    exact hfresh t (hS.top_mem hq)
  have hcur' : k.curPcbPtr k.processTerminal = some p := hcur
  obtain ⟨arg, eip, hpcb⟩ := h.pcb
  rw [hterm, saveFrame_of_top fr hcur', hcur'] at hpcb
  have hp : k'.pcb p = { k.pcb p with esp := fr.esp, ebp := fr.ebp } := by
    rw [hpcb, Function.update_of_ne (hne _ p hcur'), Function.update_self]
  exact {
    child := by
      refine ⟨n, (hne _ p hcur').symm, ?_, ?_⟩
      · rw [h.cur, hterm, Function.update_self]
      · rw [hpcb, Function.update_self]
        rfl
    esp := by rw [hp]
    ebp := by rw [hp]
    cur := fun t ht => by rw [h.cur, hterm, Function.update_of_ne ht]
    pcb := fun t ht q hq => by
      have hqp : q ≠ p := by
        rintro rfl
        exact ht (hS.separate t _ q (hS.top_mem hq) (hS.top_mem hcur'))
      rw [hpcb, Function.update_of_ne (hne t q hq), Function.update_of_ne hqp]
    argFlag := fun t ht => h.argFlag t (by rwa [hterm])
    errorFlag := fun t ht => h.errorFlag t (by rwa [hterm])
    shellFlag := fun t ht => by rw [h.term t (by rwa [hterm])] }

/-- From a hidden terminal the call changes the current process of the visible one. -/
theorem Entered.not_inCallersTerminal {k k' : Kernel} {fr : Frame} {n p : Slot} {S : Stacks}
    (hS : Tree k S) (h : Entered k fr k' n) (hcur : k.cur = some p)
    (hv : k.visibleTerminal ≠ k.processTerminal) : ¬ InCallersTerminal k fr p k' := by
  intro hin
  have hterm : k.execTerm = k.visibleTerminal := by
    unfold execTerm
    rw [hcur, if_neg (by simp)]
  have heq := hin.cur k.visibleTerminal hv
  rw [h.cur, hterm, Function.update_self] at heq
  exact hS.fresh (firstFree_eq_some h.first) _ (hS.top_mem heq.symm)

/-- **A program runs in the terminal of the process that executed it exactly if that terminal
is visible.** -/
theorem inCallersTerminal_iff_visible {fs : FileSys} {k k' : Kernel} {fr : Frame}
    {command : Option (List UInt8)} {p : Slot} {eip : Nat} {image : List UInt8}
    (hreach : Reachable fs k) (hcur : k.cur = some p)
    (h : k.sysExecute fs fr command = some (.enter eip image, k')) :
    InCallersTerminal k fr p k' ↔ k.visibleTerminal = k.processTerminal := by
  obtain ⟨S, hS⟩ := hreach.sound
  obtain ⟨n, hn⟩ := sysExecute_spec h
  constructor
  · intro hin
    by_contra hv
    exact hn.not_inCallersTerminal hS.toTree hcur hv hin
  · exact hn.inCallersTerminal hS.toTree hcur

/-- On the small image: the first shell, on the hidden terminal 1, executes a shell. -/
theorem sampleImage_execute_shell : ∃ k k' eip image, Reachable sampleImage k
    ∧ k.cur = some 0 ∧ k.visibleTerminal = 0 ∧ k.processTerminal = 1
    ∧ k.sysExecute sampleImage zeroFrame (some shellCommand) = some (.enter eip image, k') := by
  obtain ⟨k, _, hreach, hstart⟩ := sampleImage_first_tick
  have hfree : k.activeProcesses 1 ≠ 1 := by
    rw [hstart.active]
    decide
  obtain ⟨q, hq⟩ := firstFree_of_free hfree
  obtain ⟨eip, image, k', hk'⟩ := sampleImage_holdsShell.enters zeroFrame hq
  refine ⟨k, k', eip, image, hreach, ?_, hstart.visible, hstart.process, hk'⟩
  unfold cur
  rw [hstart.process, hstart.cur, Function.update_self]

theorem inCallersTerminal_iff_visible_sample : ∃ k k' eip image,
    Reachable sampleImage k ∧ k.cur = some 0
    ∧ k.sysExecute sampleImage zeroFrame (some shellCommand) = some (.enter eip image, k')
    ∧ (InCallersTerminal k zeroFrame 0 k' ↔ k.visibleTerminal = k.processTerminal) := by
  obtain ⟨k, k', eip, image, hreach, hcur, _, _, hk'⟩ := sampleImage_execute_shell
  exact ⟨k, k', eip, image, hreach, hcur, hk', inCallersTerminal_iff_visible hreach hcur hk'⟩

/-- The child of the hidden shell takes over the visible terminal. -/
theorem not_inCallersTerminal_sample : ∃ k k' eip image,
    Reachable sampleImage k ∧ k.cur = some 0
    ∧ k.sysExecute sampleImage zeroFrame (some shellCommand) = some (.enter eip image, k')
    ∧ ¬ InCallersTerminal k zeroFrame 0 k' := by
  obtain ⟨k, k', eip, image, hreach, hcur, hvisible, hprocess, hk'⟩ := sampleImage_execute_shell
  obtain ⟨S, hS⟩ := hreach.sound
  obtain ⟨n, hn⟩ := sysExecute_spec hk'
  refine ⟨k, k', eip, image, hreach, hcur, hk', hn.not_inCallersTerminal hS.toTree hcur ?_⟩
  rw [hvisible, hprocess]
  decide

/-! ## The caller while its child lives -/

/-- On terminal `t` the process `n` lives right above the processes `below`. -/
def Standing (t : Terminal) (n : Slot) (below : List Slot) (k : Kernel) : Prop :=
  ∃ S above, Sound k S ∧ S t = above ++ n :: below

/-- Every action but the end of `n` itself keeps `n` above the processes below it. -/
theorem Standing.does {t : Terminal} {n : Slot} {below : List Slot} {a : Action} {k k' : Kernel}
    (h : Standing t n below k) (hd : Does a k k') (ha : ∀ u, a ≠ .pop u n) :
    Standing t n below k' := by
  obtain ⟨S, above, hS, hSt⟩ := h
  have hsound := hd.sound hS
  cases a with
  | still => exact ⟨_, above, hsound, hSt⟩
  | quiet => exact ⟨_, above, hsound, hSt⟩
  | claim q => exact ⟨_, above, hsound, hSt⟩
  | push u q =>
      by_cases hu : t = u
      · subst hu
        refine ⟨_, q :: above, hsound, ?_⟩
        show push t q S t = _
        rw [push_self, hSt]
        rfl
      · exact ⟨_, above, hsound, (push_ne hu q S).trans hSt⟩
  | pop u q =>
      have h' : Pop u q k k' := hd
      by_cases hu : t = u
      · subst hu
        -- The process that ends is above `n`, which is not the one on top.
        have hhead := (hS.chains t).head?_eq
        rw [h'.top, hSt] at hhead
        cases above with
        | nil =>
            obtain rfl : n = q := by simpa using hhead
            exact absurd rfl (ha t)
        | cons x above =>
            refine ⟨_, above, hsound, ?_⟩
            show pop t S t = _
            rw [pop_self, hSt]
            rfl
      · exact ⟨_, above, hsound, (pop_ne hu S).trans hSt⟩

theorem Standing.spared {fs : FileSys} {t : Terminal} {n : Slot} {below : List Slot}
    {k k' : Kernel} {e : Event} (h : Standing t n below k) (hspare : Spares fs n k e)
    (hstep : step fs k e = some k') : Standing t n below k' := by
  obtain ⟨as, htrace, hallowed⟩ := step_trace hstep
  exact htrace.invariant (P := Standing t n below)
    (fun a ha _ _ hk hd => hk.does hd ((hallowed a ha).ne_pop hspare)) h

/-- A running process is current on its terminal, and its parent is right below it. -/
theorem Standing.running {t : Terminal} {n : Slot} {below : List Slot} {k : Kernel}
    (h : Standing t n below k) (hcur : k.cur = some n) :
    k.processTerminal = t ∧ (k.pcb n).parentPcb = below.head? ∧ (k.pcb n).processId = n
      ∧ n ∉ below := by
  obtain ⟨S, above, hS, hSt⟩ := h
  have hcur' : k.curPcbPtr k.processTerminal = some n := hcur
  have hnt : n ∈ S t := by simp [hSt]
  have ht : k.processTerminal = t := hS.separate _ t n (hS.top_mem hcur') hnt
  have hchain := hS.chains t
  have hnodup := hchain.nodup
  rw [ht] at hcur'
  rw [hcur'] at hchain
  rw [hSt] at hchain hnodup
  refine ⟨ht, ?_, hS.ids t n hnt, ?_⟩
  · cases above with
    | nil =>
        cases hchain with
        | cons hrest => exact hrest.head?_eq.symm
    | cons x above =>
        cases hchain with
        | cons => simp at hnodup
  · intro hmem
    rw [List.nodup_append] at hnodup
    exact (List.nodup_cons.mp hnodup.2.1).1 hmem

/-- On terminal `t` the process `n` lives right above its parent `p`, whose PCB is `b`. -/
def Nested (t : Terminal) (n p : Slot) (b : Pcb) (k : Kernel) : Prop :=
  ∃ S above below, Sound k S ∧ S t = above ++ n :: p :: below ∧ k.pcb p = b

theorem Nested.standing {t : Terminal} {n p : Slot} {b : Pcb} {k : Kernel}
    (h : Nested t n p b k) : ∃ below, Standing t n (p :: below) k := by
  obtain ⟨S, above, below, hS, hSt, _⟩ := h
  exact ⟨below, S, above, hS, hSt⟩

/-- A process with a child is current on no terminal. -/
theorem not_top_of_child {k : Kernel} {S : Stacks} (hS : Tree k S) {t : Terminal} {n p : Slot}
    {above below : List Slot} (h : S t = above ++ n :: p :: below) (u : Terminal) :
    k.curPcbPtr u ≠ some p := by
  intro hu
  have hpt : p ∈ S t := by simp [h]
  obtain rfl : u = t := hS.separate u t p (hS.top_mem hu) hpt
  have hhead := (hS.chains u).head?_eq
  have hnodup := (hS.chains u).nodup
  rw [hu, h] at hhead
  rw [h] at hnodup
  cases above with
  | nil =>
      obtain rfl : n = p := by simpa using hhead
      simp at hnodup
  | cons x above =>
      obtain rfl : x = p := by simpa using hhead
      simp at hnodup

/-- A quiet action changes the PCBs of current processes only. -/
theorem Quiet.pcb_of_child {k k' : Kernel} {S : Stacks} (hS : Tree k S) {t : Terminal}
    {n p : Slot} {above below : List Slot} (h : S t = above ++ n :: p :: below)
    (hq : Quiet k k') : k'.pcb p = k.pcb p := by
  rcases hq.pcb p with heq | ⟨⟨u, hu⟩, _⟩
  · exact heq
  · exact absurd hu (not_top_of_child hS h u)

/-- Every action but the end of the child keeps the child above the caller, and the PCB of
the caller as it is. -/
theorem Nested.does {t : Terminal} {n p : Slot} {b : Pcb} {a : Action} {k k' : Kernel}
    (h : Nested t n p b k) (hd : Does a k k') (ha : ∀ u, a ≠ .pop u n) : Nested t n p b k' := by
  obtain ⟨S, above, below, hS, hSt, hb⟩ := h
  have hpt : p ∈ S t := by simp [hSt]
  obtain ⟨S', above', hS', hSt'⟩ := Standing.does ⟨S, above, hS, hSt⟩ hd ha
  refine ⟨S', above', below, hS', hSt', ?_⟩
  rw [← hb]
  cases a with
  | still => exact (Still.quiet hd).pcb_of_child hS.toTree hSt
  | quiet => exact Quiet.pcb_of_child hS.toTree hSt hd
  | push u q =>
      have h' : Push u q k k' := hd
      have hpq : p ≠ q := by
        rintro rfl
        exact hS.fresh h'.free t hpt
      exact h'.pcb_ne hpq
  | pop u q =>
      have h' : Pop u q k k' := hd
      have hqp : p ≠ q := by
        rintro rfl
        exact not_top_of_child hS.toTree hSt u h'.top
      rw [h'.pcb, Function.update_of_ne hqp]
  | claim q =>
      have h' : Claim q k k' := hd
      rw [h'.pcb]

theorem Nested.trace {t : Terminal} {n p : Slot} {b : Pcb} {as : List Action} {k k' : Kernel}
    (h : Nested t n p b k) (htrace : Trace as k k') (has : ∀ a ∈ as, ∀ u, a ≠ .pop u n) :
    Nested t n p b k' :=
  htrace.invariant (fun a ha _ _ hk hd => hk.does hd (has a ha)) h

theorem Nested.spared {fs : FileSys} {t : Terminal} {n p : Slot} {b : Pcb} {k k' : Kernel}
    {e : Event} (h : Nested t n p b k) (hspare : Spares fs n k e)
    (hstep : step fs k e = some k') : Nested t n p b k' := by
  obtain ⟨as, htrace, hallowed⟩ := step_trace hstep
  exact h.trace htrace fun a ha => (hallowed a ha).ne_pop hspare

/-- A running child is current on the terminal of its parent, right above it. -/
theorem Nested.running {t : Terminal} {n p : Slot} {b : Pcb} {k : Kernel}
    (h : Nested t n p b k) (hcur : k.cur = some n) :
    k.processTerminal = t ∧ (k.pcb n).parentPcb = some p ∧ (k.pcb n).processId = n ∧ p ≠ n := by
  obtain ⟨below, hstand⟩ := h.standing
  obtain ⟨ht, hparent, hid, hmem⟩ := hstand.running hcur
  refine ⟨ht, hparent, hid, ?_⟩
  rintro rfl
  exact hmem List.mem_cons_self

/-- What holds when the child `n` of `p` on terminal `t` has ended. -/
structure Restored (t : Terminal) (n p : Slot) (b : Pcb) (k : Kernel) : Prop where
  cur : k.curPcbPtr t = some p
  pcb : k.pcb p = b
  free : k.activeProcesses n = 0
  closed : ∀ i : Fin 8, 2 ≤ i.val → ((k.pcb n).fileDescArray i).flags = 0

/-- `sys_halt` by the child returns to the parent. -/
theorem Nested.halt {fs : FileSys} {fr : Frame} {status : UInt8} {t : Terminal} {n p : Slot}
    {b : Pcb} {k k' : Kernel} {r : HaltResult} (h : Nested t n p b k) (hcur : k.cur = some n)
    (hhalt : k.sysHalt fs fr status = some (r, k')) : Restored t n p b k' := by
  obtain ⟨ht, hparent, hid, hpn⟩ := h.running hcur
  obtain ⟨q, hq, hcase⟩ := sysHalt_spec hhalt
  obtain rfl : n = q := Option.some.inj (hcur.symm.trans hq)
  rcases hcase with ⟨p', hp', hres⟩ | ⟨hnone, _⟩
  · obtain rfl : p = p' := Option.some.inj (hparent.symm.trans hp')
    exact {
      cur := by
        have hpop := (pop_popped hcur).cur
        rw [hres.cur, hpop, ht, Function.update_self, hparent]
      pcb := by
        rw [hres.pcb, popped_pcb_ne k hpn]
        obtain ⟨S, above, below, _, _, hb⟩ := h
        exact hb
      free := by
        have hpop := (pop_popped hcur).active
        rw [hres.active, hpop, hid, Function.update_self]
      closed := fun i hi => by
        rw [hres.pcb, popped_pcb_self]
        exact closeFds_deadTable _ i hi }
  · rw [hparent] at hnone
    cases hnone

theorem Nested.exception {fs : FileSys} {fr : Frame} {index : Fin 20} {t : Terminal}
    {n p : Slot} {b : Pcb} {k k' : Kernel} {r : HaltResult} (h : Nested t n p b k)
    (hcur : k.cur = some n) (hexc : k.exceptionHandler fs fr index = some (r, k')) :
    Restored t n p b k' := by
  rw [exceptionHandler_eq] at hexc
  have hraised : Nested t n p b (k.raised index) :=
    h.does (a := .still) (still_raised k index) (by simp)
  exact hraised.halt ((k.raised_cur index).trans hcur) hexc

/-- Any event that ends the child returns to the parent. -/
theorem Nested.ends {fs : FileSys} {t : Terminal} {n p : Slot} {b : Pcb} {k k' : Kernel}
    {e : Event} (h : Nested t n p b k) (hcur : k.cur = some n) (hends : e.Ends fs k)
    (hstep : step fs k e = some k') : Restored t n p b k' := by
  rcases hends with ⟨fr, status, rfl⟩ | ⟨fr, index, rfl⟩ | ⟨fr, command, k₁, rfl, hfault⟩
  · obtain ⟨⟨r, k₂⟩, hr, rfl⟩ := Option.map_eq_some_iff.mp hstep
    exact h.halt hcur hr
  · obtain ⟨⟨r, k₂⟩, hr, rfl⟩ := Option.map_eq_some_iff.mp hstep
    exact h.exception hcur hr
  · obtain ⟨⟨r, k₂⟩, hr, rfl⟩ := Option.map_eq_some_iff.mp hstep
    rcases executeCall_spec hr with ⟨hexec, hne⟩ | ⟨_, k₃, x, hexec, hexc⟩
    · rw [hfault] at hexec
      cases hexec
      exact absurd rfl hne
    · obtain ⟨q, hq⟩ := sysExecute_spec hexec
      have hnest : Nested t n p b k₃ := h.trace hq.trace (by simp)
      refine hnest.exception ?_ hexc
      unfold cur
      rw [hq.cur, hq.process]
      exact hcur

/-- A successful execute puts the child on top of the terminal it chooses. -/
theorem Entered.standing {k k' : Kernel} {fr : Frame} {n : Slot} {S : Stacks} (hS : Sound k S)
    (h : Entered k fr k' n) : Standing k.execTerm n (S k.execTerm) k' := by
  obtain ⟨m, hquiet, m', hpush, rfl⟩ := h.trace
  refine ⟨_, [], hpush.sound (hquiet.sound hS), ?_⟩
  show push k.execTerm n S k.execTerm = _
  rw [push_self]
  rfl

/-- A successful execute from a visible terminal puts the child right above the caller. -/
theorem Entered.nested {k k' : Kernel} {fr : Frame} {n p : Slot} {S : Stacks} (hS : Sound k S)
    (h : Entered k fr k' n) (hcur : k.cur = some p)
    (hv : k.visibleTerminal = k.processTerminal) :
    Nested k.processTerminal n p (k'.pcb p) k' := by
  have hterm : k.execTerm = k.processTerminal := by
    unfold execTerm
    rw [hv, ite_self]
  have hcur' : k.curPcbPtr k.processTerminal = some p := hcur
  have hchain := hS.chains k.processTerminal
  rw [hcur'] at hchain
  obtain ⟨below, hbelow, _⟩ := hchain.eq_cons
  obtain ⟨S', above, hS', hS't⟩ := h.standing hS
  rw [hterm, hbelow] at hS't
  exact ⟨S', above, below, hS', hS't, rfl⟩

end Kernel

end Ext2Kernel
