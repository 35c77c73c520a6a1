import Ext2Kernel.Process.ExitStatus
import Ext2Kernel.Process.FileReads

set_option autoImplicit false

/-! # Programs in runs of the kernel

A program sees nothing of a run but the results of its own calls. A `Routine` is a function of a
program as the calls it makes one after the other, each of them chosen from the results of those
before. `follow` goes through a run of the kernel, in which process `p` makes the calls of a
routine while the other processes and the interrupts do what they do, and gives the state that
the routine is in. What holds between the kernel and the routine is proved of one event at a time
(`follow_invariant`).
-/

namespace Ext2Kernel

open ByteMem Kernel

/-- What a program sees: a call, with what it has passed and what it gets back, the end of a read
that had to wait, or the end of the program it has executed. -/
inductive Exchange
  | getargs (result : Transfer)
  | «open» (filename : List UInt8) (fd : Int)
  | read (fd nbytes : Int) (result : ReadOutcome)
  | resumes (result : Transfer)
  | write (fd : Int) (bytes : List UInt8) (ret : Int)
  | close (fd ret : Int)
  | executes (command : List UInt8) (ret : Option Int)
  | returns (ret : Int)

/-- A function of a program: `next` is `none` for a call that is not made in this state, and
`returned` is the value the function has returned. -/
structure Routine (σ : Type*) where
  next : σ → Exchange → Option σ
  returned : σ → Option Int

/-- The events that come from the running process. The others interrupt it. -/
def Event.ofProcess : Event → Bool
  | .pit _ | .rtc | .keyboard _ | .switch _ => false
  | _ => true

theorem Event.Touches.ofProcess {e : Event} (h : e.Touches) : e.ofProcess = true := by
  cases e with
  | pit fr => exact h.elim
  | rtc => exact h.elim
  | keyboard scancode => exact h.elim
  | «switch» n => exact h.elim
  | _ => rfl

namespace Kernel

/-- The exchange of a call. There is none for the calls with a NULL pointer, for `vidmap` and the
RTC, and for those that do not return to the process. -/
def exchange (fs : FileSys) (k : Kernel) : Event → Option Exchange
  | .getargs => k.sysGetargs.map .getargs
  | .open (some filename) =>
      (k.sysOpen fs (some filename)).map fun r => .open filename r.1
  | .read stack fd false nbytes =>
      (k.sysRead fs stack fd false nbytes).map fun r => .read fd nbytes r.1
  | .resumeTerminal nbytes => (k.readTerminalFinish nbytes).map .resumes
  | .write fd (some buf) nbytes =>
      (k.sysWrite fd (some buf) nbytes).map fun r =>
        .write fd ((List.range nbytes.toNat).map buf) r.1
  | .close fd => (k.sysClose fd).map fun r => .close fd r.1
  | .execute fr (some command) =>
      match k.executeCall fs fr (some command) with
      | some (.ret v, _) => some (.executes command (some v))
      | some (.enter _ _, _) => some (.executes command none)
      | _ => none
  | _ => none

/-- The value that the end of a process takes back to process `p`, if `p` is its parent. -/
def returnsTo (p : Slot) : Option (HaltResult × Kernel) → Option Int
  | some (.resume eax _ _, k') => if k'.cur = some p then some (asInt32 eax) else none
  | _ => none

/-- What process `p` sees of an event: nothing, an exchange, or (`some none`) something that is
none. -/
def seen (fs : FileSys) (p : Slot) (k : Kernel) (e : Event) : Option (Option Exchange) :=
  if k.cur = some p then
    if e.ofProcess then some (k.exchange fs e) else none
  else (returnsTo p (k.ending fs e)).map fun v => some (.returns v)

section

variable {σ : Type*} (routine : Routine σ) (fs : FileSys) (p : Slot)

/-- The state of the routine that process `p` runs, at the end of a run of the kernel or when it
has returned. `none` if the process makes another call. -/
def follow : σ → Kernel → List Event → Option σ
  | s, _, [] => some s
  | s, k, e :: es =>
      if (routine.returned s).isSome then some s
      else
        match step fs k e with
        | none => none
        | some k' =>
            match seen fs p k e with
            | none => follow s k' es
            | some none => none
            | some (some x) => (routine.next s x).bind fun s' => follow s' k' es

variable {routine fs p}

theorem follow_cons {s s' : σ} {k : Kernel} {e : Event} {es : List Event}
    (h : follow routine fs p s k (e :: es) = some s') :
    ((routine.returned s).isSome ∧ s' = s) ∨ ∃ k', step fs k e = some k' ∧
      (seen fs p k e = none ∧ follow routine fs p s k' es = some s' ∨
        ∃ x s₁, seen fs p k e = some (some x) ∧ routine.next s x = some s₁ ∧
          follow routine fs p s₁ k' es = some s') := by
  unfold follow at h
  split at h
  · rename_i hreturned
    cases h
    exact Or.inl ⟨hreturned, rfl⟩
  · cases hstep : step fs k e with
    | none =>
        rw [hstep] at h
        cases h
    | some k' =>
        rw [hstep] at h
        refine Or.inr ⟨k', rfl, ?_⟩
        dsimp only at h
        split at h
        · rename_i hseen
          exact Or.inl ⟨hseen, h⟩
        · cases h
        · rename_i x hseen
          obtain ⟨s₁, hs₁, hrest⟩ := Option.bind_eq_some_iff.mp h
          exact Or.inr ⟨x, s₁, hseen, hs₁, hrest⟩

/-- **The induction rule.** A relation between the kernel and the routine is kept if the exchanges
of the routine keep it, and the events of which it sees nothing. -/
theorem follow_invariant {R : Kernel → σ → Prop} {ok : Kernel → Event → Prop}
    (hother : ∀ k e k' s, R k s → ok k e → seen fs p k e = none → step fs k e = some k' → R k' s)
    (hcall : ∀ k e k' s x s', R k s → ok k e → seen fs p k e = some (some x) →
      routine.next s x = some s' → step fs k e = some k' → R k' s')
    {k : Kernel} {s s' : σ} {es : List Event} (h : R k s)
    (hok : StepSystem.Guarded (step fs) ok k es) (hfollow : follow routine fs p s k es = some s') :
    ∃ k', R k' s' := by
  induction es generalizing k s with
  | nil =>
      cases hfollow
      exact ⟨k, h⟩
  | cons e es ih =>
      rcases follow_cons hfollow with ⟨_, rfl⟩ | ⟨k', hstep, hrest⟩
      · exact ⟨k, h⟩
      · rcases hrest with ⟨hseen, hrest⟩ | ⟨x, s₁, hseen, hnext, hrest⟩
        · exact ih (hother k e k' s h hok.1 hseen hstep) (hok.2 k' hstep) hrest
        · exact ih (hcall k e k' s x s₁ h hok.1 hseen hnext hstep) (hok.2 k' hstep) hrest

theorem follow_of_returned {s : σ} (h : (routine.returned s).isSome) (k : Kernel)
    (es : List Event) : follow routine fs p s k es = some s := by
  cases es with
  | nil => rfl
  | cons e es => exact if_pos h

/-- The rule for runs of a system `sys` that keeps the kernel and more, and for whole runs: the
relation also has to be kept when the routine has returned. -/
theorem follow_run_invariant {τ : Type*} {sys : τ → Event → Option τ} (kern : τ → Kernel)
    (hsys : ∀ t e t', sys t e = some t' → step fs (kern t) e = some (kern t'))
    {R : τ → σ → Prop} {ok : τ → Event → Prop}
    (hreturned : ∀ t e t' s, R t s → ok t e → (routine.returned s).isSome → sys t e = some t' →
      R t' s)
    (hother : ∀ t e t' s, R t s → ok t e → seen fs p (kern t) e = none → sys t e = some t' →
      R t' s)
    (hcall : ∀ t e t' s x s', R t s → ok t e → seen fs p (kern t) e = some (some x) →
      routine.next s x = some s' → sys t e = some t' → R t' s')
    {t t' : τ} {s s' : σ} {es : List Event} (h : R t s) (hok : StepSystem.Guarded sys ok t es)
    (hrun : StepSystem.run sys t es = some t')
    (hfollow : follow routine fs p s (kern t) es = some s') : R t' s' := by
  induction es generalizing t s with
  | nil =>
      cases hrun
      cases hfollow
      exact h
  | cons e es ih =>
      obtain ⟨m, hm, hrest⟩ := StepSystem.run_cons_eq_some.mp hrun
      have hokm := hok.2 m hm
      rcases follow_cons hfollow with ⟨hret, rfl⟩ | ⟨k', hk', hfol⟩
      · exact ih (hreturned t e m _ h hok.1 hret hm) hokm hrest (follow_of_returned hret _ es)
      · obtain rfl : kern m = k' := Option.some.inj ((hsys t e m hm).symm.trans hk')
        rcases hfol with ⟨hseen, hfol⟩ | ⟨x, s₁, hseen, hnext, hfol⟩
        · exact ih (hother t e m s h hok.1 hseen hm) hokm hrest hfol
        · exact ih (hcall t e m s x s₁ h hok.1 hseen hnext hm) hokm hrest hfol

end

/-! ## The events of the exchanges -/

/-- The event, the exchange and the kernel behind them, for each call. -/
inductive Exchanged (fs : FileSys) (k : Kernel) : Event → Exchange → Kernel → Prop
  | getargs {r : Transfer} (h : k.sysGetargs = some r) : Exchanged fs k .getargs (.getargs r) k
  | «open» {filename : List UInt8} {fd : Int} {k' : Kernel}
      (h : k.sysOpen fs (some filename) = some (fd, k')) :
      Exchanged fs k (.open (some filename)) (.open filename fd) k'
  | read {stack : Mem} {fd nbytes : Int} {out : ReadOutcome} {k' : Kernel}
      (h : k.sysRead fs stack fd false nbytes = some (out, k')) :
      Exchanged fs k (.read stack fd false nbytes) (.read fd nbytes out) k'
  | resumes {n : Nat} {r : Transfer} (h : k.readTerminalFinish n = some r) :
      Exchanged fs k (.resumeTerminal n) (.resumes r) k
  | write {fd nbytes ret : Int} {buf : Mem} {k' : Kernel}
      (h : k.sysWrite fd (some buf) nbytes = some (ret, k')) :
      Exchanged fs k (.write fd (some buf) nbytes)
        (.write fd ((List.range nbytes.toNat).map buf) ret) k'
  | close {fd ret : Int} {k' : Kernel} (h : k.sysClose fd = some (ret, k')) :
      Exchanged fs k (.close fd) (.close fd ret) k'
  | executes {fr : Frame} {command : List UInt8} {v : Int} {k' : Kernel}
      (h : k.executeCall fs fr (some command) = some (.ret v, k')) :
      Exchanged fs k (.execute fr (some command)) (.executes command (some v)) k'
  | enters {fr : Frame} {command : List UInt8} {eip : Nat} {image : List UInt8} {k' : Kernel}
      (h : k.executeCall fs fr (some command) = some (.enter eip image, k')) :
      Exchanged fs k (.execute fr (some command)) (.executes command none) k'

/-- The result of a call, from the exchange and from the step. -/
theorem of_map_eq {α : Type*} {o : Option (α × Kernel)} {f : α → Exchange} {x : Exchange}
    {k' : Kernel} (hx : o.map (fun r => f r.1) = some x) (hstep : o.map (fun r => r.2) = some k') :
    ∃ a, o = some (a, k') ∧ x = f a := by
  obtain ⟨⟨a, k₁⟩, rfl, rfl⟩ := Option.map_eq_some_iff.mp hx
  cases hstep
  exact ⟨a, rfl, rfl⟩

theorem exchanged {fs : FileSys} {k k' : Kernel} {e : Event} {x : Exchange}
    (hx : k.exchange fs e = some x) (hstep : step fs k e = some k') :
    Exchanged fs k e x k' := by
  cases e with
  | getargs =>
      obtain ⟨r, hr, rfl⟩ := Option.map_eq_some_iff.mp hx
      obtain ⟨_, _, rfl⟩ := Option.map_eq_some_iff.mp hstep
      exact .getargs hr
  | «open» filename =>
      cases filename with
      | none => cases hx
      | some filename =>
          obtain ⟨fd, hopen, rfl⟩ := of_map_eq hx hstep
          exact .open hopen
  | read stack fd bufNull nbytes =>
      cases bufNull with
      | true => cases hx
      | false =>
          obtain ⟨out, hread, rfl⟩ := of_map_eq hx hstep
          exact .read hread
  | resumeTerminal n =>
      obtain ⟨r, hr, rfl⟩ := Option.map_eq_some_iff.mp hx
      obtain ⟨_, _, rfl⟩ := Option.map_eq_some_iff.mp hstep
      exact .resumes hr
  | write fd buf nbytes =>
      cases buf with
      | none => cases hx
      | some buf =>
          obtain ⟨ret, hwrite, rfl⟩ := of_map_eq hx hstep
          exact .write hwrite
  | close fd =>
      obtain ⟨ret, hclose, rfl⟩ := of_map_eq hx hstep
      exact .close hclose
  | execute fr command =>
      cases command with
      | none => cases hx
      | some command =>
          obtain ⟨⟨r, k₁⟩, hexec, rfl⟩ := Option.map_eq_some_iff.mp hstep
          unfold exchange at hx
          dsimp only at hx
          rw [hexec] at hx
          cases r with
          | ret v =>
              cases hx
              exact .executes hexec
          | enter eip image =>
              cases hx
              exact .enters hexec
          | fault => cases hx
  | _ => cases hx

/-! ## What the events leave of the process -/

section

variable {fs : FileSys} {k k' : Kernel} {p : Slot} {e : Event}

/-- What a process sees is its own call, or the end of its child. -/
theorem seen_eq_some {x : Exchange} (h : seen fs p k e = some (some x)) :
    (k.cur = some p ∧ k.exchange fs e = some x) ∨ ∃ v, x = .returns v ∧ k.cur ≠ some p := by
  unfold seen at h
  split at h
  · rename_i hcur
    split at h
    · exact Or.inl ⟨hcur, Option.some.inj h⟩
    · cases h
  · rename_i hcur
    obtain ⟨v, _, heq⟩ := Option.map_eq_some_iff.mp h
    cases heq
    exact Or.inr ⟨v, rfl, hcur⟩

theorem not_own_of_seen (h : seen fs p k e = none) : ¬ (k.cur = some p ∧ e.ofProcess) := by
  rintro ⟨hcur, hown⟩
  unfold seen at h
  rw [if_pos hcur, if_pos hown] at h
  cases h

/-- The rule for a routine that executes no other program: it sees nothing but its own calls. -/
theorem follow_invariant_childless {σ : Type*} {routine : Routine σ} {R : Kernel → σ → Prop}
    {ok : Kernel → Event → Prop} (hchildless : ∀ s v, routine.next s (.returns v) = none)
    (hother : ∀ k e k' s, R k s → ok k e → ¬ (k.cur = some p ∧ e.ofProcess) →
      step fs k e = some k' → R k' s)
    (hcall : ∀ k e k' s x s', R k s → ok k e → k.cur = some p → k.exchange fs e = some x →
      routine.next s x = some s' → step fs k e = some k' → R k' s')
    {s s' : σ} {es : List Event} (h : R k s) (hok : StepSystem.Guarded (step fs) ok k es)
    (hfollow : follow routine fs p s k es = some s') : ∃ k', R k' s' := by
  refine follow_invariant (R := R) ?_ ?_ h hok hfollow
  · intro k e k' s h hok hseen hstep
    exact hother k e k' s h hok (not_own_of_seen hseen) hstep
  · intro k e k' s x s' h hok hseen hnext hstep
    rcases seen_eq_some hseen with ⟨hcur, hx⟩ | ⟨v, rfl, _⟩
    · exact hcall k e k' s x s' h hok hcur hx hnext hstep
    · rw [hchildless] at hnext
      cases hnext

theorem Spares.of_other (h : ¬ (k.cur = some p ∧ e.ofProcess)) : Spares fs p k e := by
  rintro ⟨hcur, ⟨_, _, rfl⟩ | ⟨_, _, rfl⟩ | ⟨_, _, _, rfl, _⟩⟩
  · exact h ⟨hcur, rfl⟩
  · exact h ⟨hcur, rfl⟩
  · exact h ⟨hcur, rfl⟩

/-- None of the exchanges ends the process. -/
theorem Spares.of_exchange {x : Exchange} (h : k.exchange fs e = some x) : Spares fs p k e := by
  rintro ⟨_, ⟨_, _, rfl⟩ | ⟨_, _, rfl⟩ | ⟨fr, command, k', rfl, hfault⟩⟩
  · cases h
  · cases h
  · cases command with
    | none => cases h
    | some command =>
        unfold exchange executeCall at h
        dsimp only at h
        rw [hfault] at h
        dsimp only at h
        cases hend : k'.exceptionHandler fs fr PAGE_FAULT with
        | none =>
            rw [hend] at h
            cases h
        | some r =>
            rw [hend] at h
            cases h

/-- Only calls of the process change its descriptors. -/
theorem OnStack.table_still (h : OnStack p k) (hspare : Spares fs p k e)
    (hcalm : k.cur = some p → ¬ e.Touches) (hstep : Kernel.step fs k e = some k') :
    (k'.pcb p).fileDescArray = (k.pcb p).fileDescArray := by
  by_cases htouch : e.Touches
  · have hcur : k.cur ≠ some p := fun hcur => hcalm hcur htouch
    obtain ⟨S, hS, _⟩ := h
    cases e with
    | «open» filename => exact hS.onlyRunning_fdCall (.open filename) hstep p hcur
    | close fd => exact hS.onlyRunning_fdCall (.close fd) hstep p hcur
    | read stack fd bufNull nbytes =>
        exact hS.onlyRunning_fdCall (.read stack fd bufNull nbytes) hstep p hcur
    | vidmap screenStart =>
        obtain ⟨⟨r, k₁⟩, hr, rfl⟩ := Option.map_eq_some_iff.mp hstep
        rcases sysVidmap_cases hr with ⟨_, rfl⟩ | ⟨_, q, v, hq, rfl⟩
        · rfl
        · have hne : p ≠ q := by
            rintro rfl
            exact hcur hq
          rw [modifyPcb_ne _ _ hne]
          rfl
    | _ => exact htouch.elim
  · rw [(h.pcbStill hspare htouch hstep).fds]

/-- A write on descriptor 1 goes to the terminal. -/
theorem OnStack.write_ret (h : OnStack p k) (hcur : k.cur = some p) {buf : Mem} {nbytes r : Int}
    (hn : 0 < nbytes) (hwrite : k.sysWrite 1 (some buf) nbytes = some (r, k')) : r ≠ -1 := by
  obtain ⟨S, hS, _⟩ := h
  have hout := (hS.top_live hcur).stdout
  unfold sysWrite at hwrite
  dsimp only at hwrite
  rw [if_neg (by unfold MAX_FD_IDX; omega), hcur, Option.bind_some] at hwrite
  have hidx : fdIdx 1 = 1 := rfl
  rw [hidx, hout, if_neg (by decide)] at hwrite
  cases hwrite
  unfold Console.sysWriteTerminal
  rw [if_neg (by omega), if_neg (by omega)]
  have hlen : ((Console.NO_SUCH_CMD_LEN : Nat) : Int) ≠ -1 := by decide
  split
  · exact hlen
  · dsimp only
    omega

end

end Kernel

end Ext2Kernel
