import Ext2Kernel.Basic.StreamFilter
import Ext2Kernel.Process.Routines

set_option autoImplicit false

/-! # Programs that filter a file

`cat`, `ls` and the search of `grep` in one file have one shape: they open a file, read it to its
end, and write what they make of it to the terminal. `FilterProgram` is this shape, with the
messages and the return values of its failures. A process that runs one sees its descriptor as a
`Source`, which delivers a content whatever the others do. Then what it has written is at any
time the beginning of what the filter makes of the content, and all of it when it returns
(`FilterProgram.follow_prints`).
-/

namespace Ext2Kernel

open ByteMem Kernel

namespace Programs

/-! ## The programs -/

/-- A filter of bytes that makes a list of writes, and the failures: the message and the return
value when `open`, `read` or `close` fails, and the return value when a write fails, if there is
a test for it. Without an entry for `close` the file is left open. -/
structure FilterProgram (σ : Type*) where
  filter : StreamFilter UInt8 (List UInt8) σ
  first : σ
  openFails : List UInt8 × Int
  readFails : List UInt8 × Int
  writeFails : Option Int
  closeFails : Option (List UInt8 × Int)

/-- Where a program is: before one of its calls, or behind its end. -/
inductive FilterPoint (σ : Type*)
  | opens (filename : List UInt8)
  | reads (fd : Int) (st : σ)
  | writes (fd : Int) (chunk : List UInt8) (chunks : List (List UInt8)) (after : Option σ)
  | closes (fd : Int)
  | fails (message : List UInt8) (ret : Int)
  | returned (ret : Int)

/-- The point, and the bytes handed to `ece391_write` so far. -/
structure FilterState (σ : Type*) where
  point : FilterPoint σ
  printed : List UInt8

namespace FilterProgram

variable {σ : Type*} (program : FilterProgram σ)

/-- With some writes to make. -/
def goOn (fd : Int) : List (List UInt8) → Option σ → FilterPoint σ
  | chunk :: chunks, after => .writes fd chunk chunks after
  | [], some st => .reads fd st
  | [], none => if program.closeFails.isSome then .closes fd else .returned 0

/-- After a write with result `ret`. -/
def written (fd ret : Int) (chunks : List (List UInt8)) (after : Option σ) : FilterPoint σ :=
  match program.writeFails with
  | some v => if ret = -1 then .returned v else program.goOn fd chunks after
  | none => program.goOn fd chunks after

/-- After `close` with result `ret`. -/
def closed (ret : Int) : FilterPoint σ :=
  match program.closeFails with
  | some failure => if ret = -1 then .fails failure.1 failure.2 else .returned 0
  | none => .returned 0

def next (s : FilterState σ) (x : Exchange) : Option (FilterState σ) :=
  match s.point, x with
  | .opens name, .open filename fd =>
      if filename = name then
        some ⟨if fd = -1 then .fails program.openFails.1 program.openFails.2
          else .reads fd program.first, s.printed⟩
      else none
  | .reads fd st, .read fd' nbytes (.done r) =>
      if fd' = fd ∧ nbytes = program.filter.want st then
        if r.ret = -1 then some ⟨.fails program.readFails.1 program.readFails.2, s.printed⟩
        else (program.filter.next st r.bytes).map fun y => ⟨program.goOn fd y.1 y.2, s.printed⟩
      else none
  | .writes fd chunk chunks after, .write fd' bytes ret =>
      if fd' = 1 ∧ bytes = chunk then
        some ⟨program.written fd ret chunks after, s.printed ++ bytes⟩
      else none
  | .closes fd, .close fd' ret =>
      if fd' = fd then some ⟨program.closed ret, s.printed⟩ else none
  | .fails message v, .write fd bytes _ =>
      if fd = 1 ∧ bytes = message then some ⟨.returned v, s.printed ++ bytes⟩ else none
  | _, _ => none

section

variable {program} {x : Exchange} {s : FilterState σ} {fd v : Int} {printed : List UInt8}

theorem next_opens {name : List UInt8} (h : program.next ⟨.opens name, printed⟩ x = some s) :
    ∃ fd, x = .open name fd ∧ s = ⟨if fd = -1 then .fails program.openFails.1 program.openFails.2
      else .reads fd program.first, printed⟩ := by
  cases x with
  | «open» filename fd =>
      unfold next at h
      dsimp only at h
      split at h
      · rename_i heq
        cases h
        exact ⟨fd, by rw [heq], rfl⟩
      · cases h
  | _ => cases h

theorem next_reads {st : σ} (h : program.next ⟨.reads fd st, printed⟩ x = some s) :
    ∃ r, x = .read fd (program.filter.want st) (.done r) ∧
      (r.ret ≠ -1 → ∃ out after, program.filter.next st r.bytes = some (out, after) ∧
        s = ⟨program.goOn fd out after, printed⟩) := by
  cases x with
  | read fd' nbytes out =>
      cases out with
      | done r =>
          unfold next at h
          dsimp only at h
          split at h
          · rename_i hargs
            refine ⟨r, by rw [hargs.1, hargs.2], fun hret => ?_⟩
            rw [if_neg hret] at h
            obtain ⟨⟨out, after⟩, hout, rfl⟩ := Option.map_eq_some_iff.mp h
            exact ⟨out, after, hout, rfl⟩
          · cases h
      | _ => cases h
  | _ => cases h

theorem next_writes {chunk : List UInt8} {chunks : List (List UInt8)} {after : Option σ}
    (h : program.next ⟨.writes fd chunk chunks after, printed⟩ x = some s) :
    ∃ ret, x = .write 1 chunk ret ∧
      s = ⟨program.written fd ret chunks after, printed ++ chunk⟩ := by
  cases x with
  | write fd' bytes ret =>
      unfold next at h
      dsimp only at h
      split at h
      · rename_i hargs
        cases h
        exact ⟨ret, by rw [hargs.1, hargs.2], by rw [hargs.2]⟩
      · cases h
  | _ => cases h

theorem next_closes (h : program.next ⟨.closes fd, printed⟩ x = some s) :
    ∃ ret, x = .close fd ret ∧ s = ⟨program.closed ret, printed⟩ := by
  cases x with
  | close fd' ret =>
      unfold next at h
      dsimp only at h
      split at h
      · rename_i heq
        cases h
        exact ⟨ret, by rw [heq], rfl⟩
      · cases h
  | _ => cases h

theorem next_fails {message : List UInt8}
    (h : program.next ⟨.fails message v, printed⟩ x = some s) :
    s = ⟨.returned v, printed ++ message⟩ := by
  cases x with
  | write fd' bytes ret =>
      unfold next at h
      dsimp only at h
      split at h
      · rename_i hargs
        cases h
        rw [hargs.2]
      · cases h
  | _ => cases h

/-- A filter program has no children. -/
theorem next_returns {s : FilterState σ} : program.next s (.returns v) = none := by
  obtain ⟨point, printed⟩ := s
  cases point <;> rfl

end

/-- The function that opens and filters a file. -/
def routine : Routine (FilterState σ) where
  next := program.next
  returned s :=
    match s.point with
    | .returned v => some v
    | _ => none

end FilterProgram

/-! ## Sources -/

/-- Process `p` is alive and has descriptor `i` open. -/
structure HasOpen (p : Slot) (i : Fin 8) (k : Kernel) : Prop where
  onStack : OnStack p k
  isOpen : ((k.pcb p).fileDescArray i).IsOpen

/-- Descriptor `i` of process `p` delivers `content` in pieces of the sizes `fits`, as long as the
other events are `ok`; `At pos` holds while the content from `pos` on is to come. -/
structure Source (fs : FileSys) (p : Slot) (i : Fin 8) (content : List UInt8) (fits : Nat → Prop)
    (ok : Kernel → Event → Prop) (At : Nat → Kernel → Prop) : Prop where
  isOpen : ∀ {pos k}, At pos k → HasOpen p i k
  size : ∀ {n}, fits n → 0 < n
  /-- Other events, and the calls of the process on the terminal. -/
  other : ∀ {pos k e k'}, At pos k → ok k e → Spares fs p k e →
    (k.cur = some p → ¬ e.Touches) → step fs k e = some k' → At pos k'
  read : ∀ {pos k n} (stack : Mem), At pos k → k.cur = some p → fits n → ∃ r k',
    k.sysRead fs stack i.val false n = some (.done r, k') ∧ r.ret ≠ -1 ∧
      r.bytes = (content.drop pos).take n ∧ HasOpen p i k' ∧
      (r.bytes ≠ [] → At (pos + r.bytes.length) k')

/-- A source that is never read. -/
theorem no_source (fs : FileSys) (p : Slot) (i : Fin 8) (ok : Kernel → Event → Prop) :
    Source fs p i [] (fun _ => False) ok (fun _ _ => False) where
  isOpen h := h.elim
  size h := h.elim
  other h := h.elim
  read _ h := h.elim

/-! ## Runs -/

section

variable {σ : Type*} {fs : FileSys} {p : Slot} {i : Fin 8} {k k' : Kernel} {e : Event}

theorem HasOpen.other (h : HasOpen p i k) (hspare : Spares fs p k e)
    (hcalm : k.cur = some p → ¬ e.Touches) (hstep : step fs k e = some k') : HasOpen p i k' := by
  refine ⟨h.onStack.step hspare hstep, ?_⟩
  rw [h.onStack.table_still hspare hcalm hstep]
  exact h.isOpen

variable (program : FilterProgram σ) (content : List UInt8) (fits : Nat → Prop)
  (At : Nat → Kernel → Prop)

/-- The output of the rounds behind the pending writes. -/
def ToCome (k : Kernel) : Option σ → List (List UInt8) → Prop
  | none, later => later = []
  | some st, later => ∃ pos, At pos k ∧ program.filter.Yields fits st (content.drop pos) later

/-- Where there is a test for failing writes, none of these writes is empty. -/
def FilterProgram.WritesBytes (chunks : List (List UInt8)) : Prop :=
  program.writeFails ≠ none → ∀ chunk ∈ chunks, chunk ≠ []

/-- **The relation between the kernel and the program**, which is to write `total` and to return
`ret`: what it has written and what is to come make up `total`. -/
inductive Coupled (p : Slot) (i : Fin 8) (total : List UInt8) :
    Int → Kernel → FilterState σ → Prop
  | reads {k : Kernel} {st : σ} {pos : Nat} {later : List (List UInt8)} {printed : List UInt8}
      (hat : At pos k) (hlater : program.filter.Yields fits st (content.drop pos) later)
      (htotal : printed ++ later.flatten = total) :
      Coupled p i total 0 k ⟨.reads i.val st, printed⟩
  | writes {k : Kernel} {chunk : List UInt8} {chunks later : List (List UInt8)}
      {after : Option σ} {printed : List UInt8} (hopen : HasOpen p i k)
      (hlater : ToCome program content fits At k after later)
      (hbytes : program.WritesBytes (chunk :: chunks))
      (htotal : printed ++ (chunk ++ (chunks.flatten ++ later.flatten)) = total) :
      Coupled p i total 0 k ⟨.writes i.val chunk chunks after, printed⟩
  | closes {k : Kernel} (hopen : HasOpen p i k) : Coupled p i total 0 k ⟨.closes i.val, total⟩
  | fails {k : Kernel} {message printed : List UInt8} {ret : Int}
      (htotal : printed ++ message = total) : Coupled p i total ret k ⟨.fails message ret, printed⟩
  | returned {k : Kernel} {ret : Int} : Coupled p i total ret k ⟨.returned ret, total⟩

open FilterProgram

variable {program content fits At} {total : List UInt8} {ret : Int} {s s' : FilterState σ}

theorem Coupled.written_part (h : Coupled program content fits At p i total ret k s) :
    s.printed <+: total := by
  cases h with
  | reads _ _ htotal => exact ⟨_, htotal⟩
  | writes _ _ _ htotal => exact ⟨_, htotal⟩
  | closes _ => exact List.prefix_refl total
  | fails htotal => exact ⟨_, htotal⟩
  | returned => exact List.prefix_refl total

theorem Coupled.of_returned (h : Coupled program content fits At p i total ret k s) {v : Int}
    (hv : program.routine.returned s = some v) : v = ret ∧ s.printed = total := by
  cases h with
  | returned =>
      cases hv
      exact ⟨rfl, rfl⟩
  | _ => cases hv

/-- The point behind a read or a write. -/
theorem coupled_goOn {chunks later : List (List UInt8)} {after : Option σ}
    {printed : List UInt8} (hopen : HasOpen p i k)
    (hlater : ToCome program content fits At k after later) (hbytes : program.WritesBytes chunks)
    (htotal : printed ++ (chunks.flatten ++ later.flatten) = total) :
    Coupled program content fits At p i total 0 k ⟨program.goOn i.val chunks after, printed⟩ := by
  cases chunks with
  | cons chunk chunks =>
      refine .writes hopen hlater hbytes ?_
      rw [← htotal, List.flatten_cons, List.append_assoc]
  | nil =>
      rw [List.flatten_nil, List.nil_append] at htotal
      cases after with
      | some st =>
          obtain ⟨pos, hat, hyields⟩ := hlater
          exact .reads hat hyields htotal
      | none =>
          obtain rfl : later = [] := hlater
          rw [List.flatten_nil, List.append_nil] at htotal
          subst htotal
          show Coupled _ _ _ _ _ _ _ _ _
            ⟨if program.closeFails.isSome then .closes i.val else .returned 0, _⟩
          split
          · exact .closes hopen
          · exact .returned

variable {ok : Kernel → Event → Prop}

theorem ToCome.other (hsource : Source fs p i content fits ok At) {after : Option σ}
    {later : List (List UInt8)} (h : ToCome program content fits At k after later)
    (hok : ok k e) (hspare : Spares fs p k e) (hcalm : k.cur = some p → ¬ e.Touches)
    (hstep : step fs k e = some k') : ToCome program content fits At k' after later := by
  cases after with
  | none => exact h
  | some st =>
      obtain ⟨pos, hat, hyields⟩ := h
      exact ⟨pos, hsource.other hat hok hspare hcalm hstep, hyields⟩

/-- An event that is no call of the process. -/
theorem Coupled.other (hsource : Source fs p i content fits ok At)
    (h : Coupled program content fits At p i total ret k s) (hok : ok k e)
    (hother : ¬ (k.cur = some p ∧ e.ofProcess)) (hstep : step fs k e = some k') :
    Coupled program content fits At p i total ret k' s := by
  have hspare : Spares fs p k e := .of_other hother
  have hcalm : k.cur = some p → ¬ e.Touches := fun hcur htouch =>
    hother ⟨hcur, htouch.ofProcess⟩
  cases h with
  | reads hat hyields htotal =>
      exact .reads (hsource.other hat hok hspare hcalm hstep) hyields htotal
  | writes hopen hlater hbytes htotal =>
      exact .writes (hopen.other hspare hcalm hstep)
        (hlater.other hsource hok hspare hcalm hstep) hbytes htotal
  | closes hopen => exact .closes (hopen.other hspare hcalm hstep)
  | fails htotal => exact .fails htotal
  | returned => exact .returned

/-- A read of the source. -/
theorem coupled_read (hsource : Source fs p i content fits ok At)
    (hwrites : ∀ st bytes out after, program.filter.next st bytes = some (out, after) →
      program.WritesBytes out)
    {st : σ} {pos : Nat} {later : List (List UInt8)} {printed : List UInt8} (hat : At pos k)
    (hyields : program.filter.Yields fits st (content.drop pos) later)
    (htotal : printed ++ later.flatten = total) (hcur : k.cur = some p) {x : Exchange}
    (hx : k.exchange fs e = some x) (hnext : program.next ⟨.reads i.val st, printed⟩ x = some s')
    (hstep : step fs k e = some k') :
    Coupled program content fits At p i total 0 k' s' := by
  obtain ⟨r, rfl, hgot⟩ := next_reads hnext
  obtain ⟨stack, hread⟩ : ∃ stack, k.sysRead fs stack i.val false
      (program.filter.want st) = some (.done r, k') := by
    cases exchanged hx hstep with
    | read h => exact ⟨_, h⟩
  have hfits : fits (program.filter.want st) := by
    cases hyields with
    | last hfits _ => exact hfits
    | more hfits _ _ _ => exact hfits
  obtain ⟨r', k₁, hread', hret, hbytes, hopen, hmore⟩ :=
    hsource.read stack hat hcur hfits
  rw [hread] at hread'
  obtain ⟨hr, rfl⟩ := Prod.mk.inj (Option.some.inj hread')
  cases hr
  obtain ⟨out, after, hout, rfl⟩ := hgot hret
  have hchunks := hwrites _ _ _ _ hout
  rw [hbytes] at hout
  cases hyields with
  | last _ hlast =>
      rw [hlast] at hout
      cases hout
      have hend : ToCome program content fits At k' none [] := rfl
      refine coupled_goOn hopen hend hchunks ?_
      rw [List.flatten_nil, List.append_nil, htotal]
  | more _ hsome hmoreout hlater =>
      rw [hmoreout] at hout
      cases hout
      have hat' := hmore (by rw [hbytes]; exact hsome)
      refine coupled_goOn hopen ⟨_, hat', ?_⟩ hchunks (by rw [← List.flatten_append, htotal])
      -- The source has moved on by what the filter has got.
      rw [hbytes, List.length_take, List.length_drop, ← List.drop_drop]
      by_cases hshort : program.filter.want st ≤ content.length - pos
      · rw [Nat.min_eq_left hshort]
        exact hlater
      · rw [Nat.min_eq_right (by omega), List.drop_of_length_le (by rw [List.length_drop])]
        rw [List.drop_of_length_le (by rw [List.length_drop]; omega)] at hlater
        exact hlater

/-- A write to the terminal. -/
theorem coupled_write (hsource : Source fs p i content fits ok At) {chunk printed : List UInt8}
    {chunks later : List (List UInt8)} {after : Option σ} (hopen : HasOpen p i k)
    (hlater : ToCome program content fits At k after later)
    (hbytes : program.WritesBytes (chunk :: chunks))
    (htotal : printed ++ (chunk ++ (chunks.flatten ++ later.flatten)) = total) (hok : ok k e)
    (hcur : k.cur = some p) {x : Exchange} (hx : k.exchange fs e = some x)
    (hnext : program.next ⟨.writes i.val chunk chunks after, printed⟩ x = some s')
    (hstep : step fs k e = some k') :
    Coupled program content fits At p i total 0 k' s' := by
  obtain ⟨v, rfl, rfl⟩ := next_writes hnext
  obtain ⟨buf, nbytes, rfl, hchunk, hwrite⟩ : ∃ buf nbytes, e = .write 1 (some buf) nbytes ∧
      chunk = (List.range nbytes.toNat).map buf ∧
      k.sysWrite 1 (some buf) nbytes = some (v, k') := by
    generalize hbytes : chunk = bytes at hx
    cases exchanged hx hstep with
    | write h => exact ⟨_, _, rfl, rfl, h⟩
  have hspare : Spares fs p k (.write 1 (some buf) nbytes) := .of_exchange hx
  have hcalm : k.cur = some p → ¬ Event.Touches (.write 1 (some buf) nbytes) := fun _ h => h
  have hpoint : program.written i.val v chunks after = program.goOn i.val chunks after := by
    unfold FilterProgram.written
    split
    · rename_i hfails
      -- a write of at least one byte does not fail
      have hsome : chunk ≠ [] := hbytes (by rw [hfails]; exact nofun) chunk List.mem_cons_self
      have hpos : 0 < nbytes := by
        by_contra hle
        have hzero : nbytes.toNat = 0 := by omega
        rw [hzero] at hchunk
        exact hsome hchunk
      rw [if_neg (hopen.onStack.write_ret hcur hpos hwrite)]
    · rfl
  rw [hpoint]
  refine coupled_goOn (hopen.other hspare hcalm hstep)
    (hlater.other hsource hok hspare hcalm hstep)
    (fun hfails c hc => hbytes hfails c (List.mem_cons_of_mem chunk hc)) ?_
  rw [List.append_assoc, htotal]

/-- The last call, if the program makes it. -/
theorem coupled_close (hi : 2 ≤ i.val) (hopen : HasOpen p i k) (hcur : k.cur = some p)
    {x : Exchange} (hx : k.exchange fs e = some x)
    (hnext : program.next ⟨.closes i.val, total⟩ x = some s') (hstep : step fs k e = some k') :
    Coupled program content fits At p i total 0 k' s' := by
  obtain ⟨v, rfl, rfl⟩ := next_closes hnext
  have hclose : k.sysClose i.val = some (v, k') := by
    cases exchanged hx hstep with
    | close h => exact h
  obtain ⟨S, hS, _⟩ := hopen.onStack
  have hfd : OpenFd (k.pcb p) i.val := by
    refine ⟨by omega, by omega, ?_⟩
    rw [fdIdx_natCast]
    exact hopen.isOpen
  obtain ⟨k₁, hk₁, _⟩ := (sysClose_spec hcur (hS.top_live hcur) i.val).closes (by omega) hfd
  rw [hk₁] at hclose
  obtain ⟨rfl, _⟩ := Prod.mk.inj (Option.some.inj hclose)
  have hpoint : program.closed 0 = .returned 0 := by
    unfold closed
    split
    · exact if_neg (by decide)
    · rfl
  rw [hpoint]
  exact .returned

/-- **A call of the program.** -/
theorem Coupled.call (hsource : Source fs p i content fits ok At)
    (hwrites : ∀ st bytes out after, program.filter.next st bytes = some (out, after) →
      program.WritesBytes out)
    (hi : 2 ≤ i.val) (h : Coupled program content fits At p i total ret k s) (hok : ok k e)
    (hcur : k.cur = some p) {x : Exchange} (hx : k.exchange fs e = some x)
    (hnext : program.next s x = some s') (hstep : step fs k e = some k') :
    Coupled program content fits At p i total ret k' s' := by
  cases h with
  | reads hat hyields htotal =>
      exact coupled_read hsource hwrites hat hyields htotal hcur hx hnext hstep
  | writes hopen hlater hbytes htotal =>
      exact coupled_write hsource hopen hlater hbytes htotal hok hcur hx hnext hstep
  | closes hopen => exact coupled_close hi hopen hcur hx hnext hstep
  | fails htotal =>
      rw [next_fails hnext, htotal]
      exact .returned
  | returned => cases x <;> cases hnext

end

/-! ## From the call of `open` on -/

section

variable {σ : Type*} {program : FilterProgram σ} {fs : FileSys} {p : Slot}
  {content : List UInt8} {fits : Nat → Prop} {ok : Kernel → Event → Prop}
  {At : Fin 8 → Nat → Kernel → Prop} {Before : Kernel → Prop} {name total : List UInt8} {ret : Int}

/-- The program is about to open the file, or has done so. -/
inductive Running (program : FilterProgram σ) (content : List UInt8) (fits : Nat → Prop)
    (At : Fin 8 → Nat → Kernel → Prop) (Before : Kernel → Prop) (p : Slot)
    (name total : List UInt8) (ret : Int) (k : Kernel) : FilterState σ → Prop
  | opens (h : Before k) : Running program content fits At Before p name total ret k
      ⟨.opens name, []⟩
  | opened {i : Fin 8} {s : FilterState σ} (hi : 2 ≤ i.val)
      (h : Coupled program content fits (At i) p i total ret k s) :
      Running program content fits At Before p name total ret k s

/-- What a call of `open` leads to: the message of its failure, or the whole output. -/
structure Opens (program : FilterProgram σ) (content : List UInt8) (fits : Nat → Prop)
    (At : Fin 8 → Nat → Kernel → Prop) (total : List UInt8) (ret fd : Int) (k : Kernel) : Prop where
  fails : fd = -1 → program.openFails = (total, ret)
  opens : fd ≠ -1 → ret = 0 ∧ ∃ i : Fin 8, fd = i.val ∧ 2 ≤ i.val ∧ At i 0 k ∧ ∃ out,
    program.filter.Yields fits program.first content out ∧ out.flatten = total

variable (hsource : ∀ i, Source fs p i content fits ok (At i))
  (hwrites : ∀ st bytes out after, program.filter.next st bytes = some (out, after) →
    program.WritesBytes out)
  (hbefore : ∀ k e k', Before k → ok k e → ¬ (k.cur = some p ∧ e.ofProcess) →
    step fs k e = some k' → Before k')
  (hopens : ∀ k k' fd, Before k → k.cur = some p →
    k.sysOpen fs (some name) = some (fd, k') → Opens program content fits At total ret fd k')

include hsource hbefore in
theorem Running.other {k k' : Kernel} {e : Event} {s : FilterState σ}
    (h : Running program content fits At Before p name total ret k s) (hok : ok k e)
    (hother : ¬ (k.cur = some p ∧ e.ofProcess)) (hstep : step fs k e = some k') :
    Running program content fits At Before p name total ret k' s := by
  cases h with
  | opens h => exact .opens (hbefore k e k' h hok hother hstep)
  | opened hi h => exact .opened hi (h.other (hsource _) hok hother hstep)

include hsource hwrites hopens in
theorem Running.call {k k' : Kernel} {e : Event} {s s' : FilterState σ} {x : Exchange}
    (h : Running program content fits At Before p name total ret k s) (hok : ok k e)
    (hcur : k.cur = some p) (hx : k.exchange fs e = some x) (hnext : program.next s x = some s')
    (hstep : step fs k e = some k') :
    Running program content fits At Before p name total ret k' s' := by
  cases h with
  | opens h =>
      obtain ⟨fd, rfl, rfl⟩ := FilterProgram.next_opens hnext
      have hopen : k.sysOpen fs (some name) = some (fd, k') := by
        cases exchanged hx hstep with
        | «open» h => exact h
      have hspec := hopens k k' fd h hcur hopen
      by_cases hfd : fd = -1
      · rw [if_pos hfd, hspec.fails hfd]
        exact .opened (i := 2) (Nat.le_refl 2) (.fails (List.nil_append total))
      · obtain ⟨rfl, i, rfl, hi, hat, out, hyields, htotal⟩ := hspec.opens hfd
        rw [if_neg hfd]
        exact .opened hi (.reads hat hyields (by rw [List.nil_append, htotal]))
  | opened hi h => exact .opened hi (h.call (hsource _) hwrites hi hok hcur hx hnext hstep)

theorem Running.written_part {k : Kernel} {s : FilterState σ}
    (h : Running program content fits At Before p name total ret k s) : s.printed <+: total := by
  cases h with
  | opens _ => exact List.nil_prefix
  | opened _ h => exact h.written_part

theorem Running.of_returned {k : Kernel} {s : FilterState σ}
    (h : Running program content fits At Before p name total ret k s) {v : Int}
    (hv : program.routine.returned s = some v) : v = ret ∧ s.printed = total := by
  cases h with
  | opens _ => cases hv
  | opened _ h => exact h.of_returned hv

include hsource hwrites hbefore hopens in
/-- **What a filter program has written** is at any time the beginning of its output, and all of
it when it returns, whatever the other processes and the interrupts do. -/
theorem FilterProgram.follow_prints {k : Kernel} {es : List Event} {s : FilterState σ}
    (h : Before k) (hok : StepSystem.Guarded (step fs) ok k es)
    (hfollow : follow program.routine fs p ⟨.opens name, []⟩ k es = some s) :
    s.printed <+: total ∧
      ∀ v, program.routine.returned s = some v → v = ret ∧ s.printed = total := by
  have hstart : Running program content fits At Before p name total ret k ⟨.opens name, []⟩ :=
    .opens h
  obtain ⟨k', hend⟩ := follow_invariant_childless
    (R := Running program content fits At Before p name total ret)
    (fun _ _ => FilterProgram.next_returns)
    (fun _ _ _ _ h hok hother hstep => h.other hsource hbefore hok hother hstep)
    (fun _ _ _ _ _ _ h hok hcur hx hnext hstep =>
      h.call hsource hwrites hopens hok hcur hx hnext hstep) hstart hok hfollow
  exact ⟨hend.written_part, fun v hv => hend.of_returned hv⟩

end

end Programs

end Ext2Kernel
