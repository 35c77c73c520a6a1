import Ext2Kernel.Programs.Sources

set_option autoImplicit false

/-! # `cat` and `ls`

`ece391cat.c` writes the file that its argument names to the terminal, `ece391ls.c` the names of
the directory, one a line. In every run of the kernel in which a process behaves as one of these
programs, what it has written is the beginning of what it should write, and all of it when `main`
returns (`cat_prints`, `ls_prints`).
-/

namespace Ext2Kernel

open ByteMem Kernel

namespace Programs

/-! ## `cat` -/

/-- The loop of `cat`: what is read is written, up to a read of no bytes. -/
def catFilter : StreamFilter UInt8 (List UInt8) Unit where
  want _ := 1024
  next _ bytes := some (if bytes = [] then ([], none) else ([bytes], some ()))

/-- `main` of `ece391cat.c`, from the call of `ece391_open` on. -/
def cat : FilterProgram Unit where
  filter := catFilter
  first := ()
  openFails := (ascii "file not found\n", 2)
  readFails := (ascii "file read failed\n", 3)
  writeFails := some 3
  closeFails := none

/-- `main` of `ece391cat.c`; `none` is the state before the call of `ece391_getargs`. -/
def catMain : Routine (Option (FilterState Unit)) where
  next
    | none, .getargs r =>
        some (some (if r.ret ≠ 0 then ⟨.fails (ascii "could not read arguments\n") 3, []⟩
          else ⟨.opens (r.stored.takeWhile (· ≠ 0)), []⟩))
    | none, _ => none
    | some s, x => (cat.next s x).map some
  returned s := s.bind cat.routine.returned

theorem cat_writesBytes {st : Unit} {bytes : List UInt8} {out : List (List UInt8)}
    {after : Option Unit} (h : catFilter.next st bytes = some (out, after)) :
    cat.WritesBytes out := by
  intro _ chunk hchunk
  unfold catFilter at h
  dsimp only at h
  split at h
  · cases h
    cases hchunk
  · rename_i hsome
    cases h
    rw [List.mem_singleton.mp hchunk]
    exact hsome

/-- **The filter of `cat`** puts out what it gets. -/
theorem catFilter_yields {fits : Nat → Prop} (hfits : fits 1024) (rest : List UInt8) :
    ∃ out, catFilter.Yields fits () rest out ∧ out.flatten = rest := by
  generalize hn : rest.length = n
  induction n using Nat.strong_induction_on generalizing rest with
  | _ n ih =>
      have hwant : catFilter.want () = 1024 := rfl
      by_cases hnil : rest = []
      · subst hnil
        exact ⟨[], .last hfits rfl, rfl⟩
      · have hpos : 0 < rest.length := List.length_pos_iff.mpr hnil
        have hsome : rest.take 1024 ≠ [] := by
          apply List.ne_nil_of_length_pos
          rw [List.length_take]
          omega
        have hnext : catFilter.next () (rest.take 1024) = some ([rest.take 1024], some ()) :=
          congrArg some (if_neg hsome)
        obtain ⟨out, hout, hflat⟩ := ih (rest.drop 1024).length
          (by rw [List.length_drop]; omega) (rest.drop 1024) rfl
        refine ⟨[rest.take 1024] ++ out, .more hfits hsome hnext hout, ?_⟩
        rw [List.singleton_append, List.flatten_cons, hflat, List.take_append_drop]

/-- What `cat` is to write and to return when its argument is `a`, if that does not name a
directory or the RTC. -/
def catResult (fs : FileSys) (a : List UInt8) : Option (List UInt8 × Int) :=
  if a = [] then some (ascii "could not read arguments\n", 3)
  else
    match (readDentryByName fs (some a)).bind openedDesc with
    | none => some (ascii "file not found\n", 2)
    | some f => if f.fileOpsTable = some .file then some (fs.fileContent f.inode, 0) else none

/-- The bytes written so far. -/
def catPrinted (s : Option (FilterState Unit)) : List UInt8 :=
  match s with
  | none => []
  | some s => s.printed

section

variable {fs : FileSys} {p : Slot} {t : Terminal} {a content total : List UInt8}
  {fits : Nat → Prop} {At : Fin 8 → Nat → Kernel → Prop} {ret : Int}

/-- The states of a process that runs `cat` with the argument `a`. -/
def CatRunning (content : List UInt8) (fits : Nat → Prop) (At : Fin 8 → Nat → Kernel → Prop)
    (p : Slot) (t : Terminal) (a total : List UInt8) (ret : Int) (k : Kernel) :
    Option (FilterState Unit) → Prop
  | none => HasArgument p t a k ∧ Ready p k
  | some s => Running cat content fits At (fun k => a ≠ [] ∧ Ready p k) p a total ret k s

/-- `ece391_getargs` gives the name of the file, or fails. -/
theorem catRunning_getargs (ha : ∀ b ∈ a, b ≠ 0)
    (hempty : a = [] → total = ascii "could not read arguments\n" ∧ ret = 3)
    {k : Kernel} {s : Option (FilterState Unit)} (harg : HasArgument p t a k) (hready : Ready p k)
    (hcur : k.cur = some p) {r : Transfer} (hr : k.sysGetargs = some r)
    (hnext : catMain.next none (.getargs r) = some s) :
    CatRunning content fits At p t a total ret k s := by
  rw [harg.getargs ha hcur] at hr
  cases hr
  have hs := (Option.some.inj hnext).symm
  unfold argumentTransfer at hs
  by_cases hnil : a = []
  · obtain ⟨htotal, hret⟩ := hempty hnil
    rw [if_pos hnil, if_pos (by decide)] at hs
    subst hs htotal hret
    exact .opened (i := 2) (Nat.le_refl 2) (.fails (List.nil_append _))
  · have hname : (a ++ List.replicate (KEYBOARD_BUFFER_SIZE - a.length) 0).takeWhile (· ≠ 0)
        = a := by
      rw [List.takeWhile_append_of_pos fun b hb => by simpa using ha b hb]
      cases KEYBOARD_BUFFER_SIZE - a.length with
      | zero => exact List.append_nil a
      | succ n =>
          rw [List.replicate_succ, List.takeWhile_cons_of_neg (by simp), List.append_nil]
    rw [if_neg hnil, if_neg (by simp), hname] at hs
    subst hs
    exact .opens ⟨hnil, hready⟩

theorem CatRunning.follow
    (hsource : ∀ i, Source fs p i content fits (KeepsArgFlag t a) (At i))
    (ha : ∀ b ∈ a, b ≠ 0)
    (hempty : a = [] → total = ascii "could not read arguments\n" ∧ ret = 3)
    (hopens : a ≠ [] → ∀ k k' fd, Ready p k → k.cur = some p →
      k.sysOpen fs (some a) = some (fd, k') → Opens cat content fits At total ret fd k')
    {k : Kernel} {es : List Event} {s : Option (FilterState Unit)} (harg : HasArgument p t a k)
    (hready : Ready p k) (hok : StepSystem.Guarded (step fs) (KeepsArgFlag t a) k es)
    (hfollow : follow catMain fs p none k es = some s) :
    catPrinted s <+: total ∧
      ∀ v, catMain.returned s = some v → v = ret ∧ catPrinted s = total := by
  have hstill : ∀ k e k', Ready p k → ¬ (k.cur = some p ∧ e.ofProcess) →
      step fs k e = some k' → Ready p k' := fun k e k' h hother hstep =>
    h.other (.of_other hother) (fun hcur htouch => hother ⟨hcur, htouch.ofProcess⟩) hstep
  have hother : ∀ k e k' s, CatRunning content fits At p t a total ret k s →
      KeepsArgFlag t a k e → ¬ (k.cur = some p ∧ e.ofProcess) → step fs k e = some k' →
      CatRunning content fits At p t a total ret k' s := by
    intro k e k' s h hok hother hstep
    cases s with
    | none => exact ⟨h.1.step (.of_other hother) hok hstep, hstill k e k' h.2 hother hstep⟩
    | some s =>
        exact Running.other hsource (fun k e k' h _ hother hstep =>
          ⟨h.1, hstill k e k' h.2 hother hstep⟩) h hok hother hstep
  have hcall : ∀ k e k' s x s', CatRunning content fits At p t a total ret k s →
      KeepsArgFlag t a k e → k.cur = some p → k.exchange fs e = some x →
      catMain.next s x = some s' → step fs k e = some k' →
      CatRunning content fits At p t a total ret k' s' := by
    intro k e k' s x s' h hok hcur hx hnext hstep
    cases s with
    | none =>
        cases x with
        | getargs r =>
            cases exchanged hx hstep with
            | getargs hr => exact catRunning_getargs ha hempty h.1 h.2 hcur hr hnext
        | _ => cases hnext
    | some s =>
        obtain ⟨s₁, hs₁, rfl⟩ := Option.map_eq_some_iff.mp hnext
        exact Running.call hsource (fun _ _ _ _ => cat_writesBytes)
          (fun k k' fd h hcur hopen => hopens h.1 k k' fd h.2 hcur hopen) h hok hcur hx hs₁ hstep
  have hchildless : ∀ s v, catMain.next s (.returns v) = none := by
    intro s v
    cases s with
    | none => rfl
    | some s => exact congrArg (Option.map some) FilterProgram.next_returns
  have hstart : CatRunning content fits At p t a total ret k none := ⟨harg, hready⟩
  obtain ⟨k', hend⟩ := follow_invariant_childless hchildless hother hcall hstart hok hfollow
  cases s with
  | none => exact ⟨List.nil_prefix, fun v hv => by cases hv⟩
  | some s => exact ⟨Running.written_part hend, fun v hv => Running.of_returned hend hv⟩

end

/-- A process that `sys_execute` has just started. -/
theorem started_ready {fs : FileSys} {m k₁ : Kernel} {fr : Frame} {command : Option (List UInt8)}
    {eip : Nat} {image name a : List UInt8} {p : Slot} (hreach : Reachable fs m)
    (hstart : m.sysExecute fs fr command = some (.enter eip image, k₁))
    (hparse : executeParseArgs command = .ok name a) (hp : k₁.curPcbPtr m.execTerm = some p) :
    HasArgument p m.execTerm a k₁ ∧ Ready p k₁ := by
  obtain ⟨S, hS⟩ := hreach.sound
  obtain ⟨n, hn⟩ : ∃ n, Entered m fr k₁ n := sysExecute_spec hstart
  obtain ⟨S₁, hS₁⟩ := hn.trace.sound ⟨S, hS⟩
  have hspec := sysExecute_argument hstart
  rw [hparse] at hspec
  obtain ⟨hflag, hnew⟩ := hspec
  obtain ⟨q, hq, htext⟩ := hnew eip image rfl
  obtain rfl : q = p := Option.some.inj (hq.symm.trans hp)
  refine ⟨⟨⟨_, hS₁.toTree, hS₁.top_mem hp⟩, htext, ?_⟩, ⟨_, hS₁, _, hS₁.top_mem hp⟩, 2,
    Nat.le_refl 2, ?_⟩
  · rw [hflag, Function.update_self]
  · obtain ⟨q', hq', htable⟩ := hn.newProcess hS
    obtain rfl : q' = q := Option.some.inj (hq'.symm.trans hp)
    exact fun hopen => absurd ((htable.isOpen_iff 2).mp hopen) (by decide)

/-- **`cat` writes the file that its argument names.** `sys_execute` has started process `p` with
the argument `a`, and from then on `p` makes the calls of `cat`, while anything else happens that
leaves the argument flag of its terminal. Then what it has written is the beginning of the content
of the file, or of the message if there is no argument or no such file; and when `main` returns,
all of it is written. -/
theorem cat_prints {fs : FileSys} {m k₁ : Kernel} {fr : Frame} {command : Option (List UInt8)}
    {eip : Nat} {image name a : List UInt8} {p : Slot} {es : List Event}
    {s : Option (FilterState Unit)} {total : List UInt8} {ret : Int} (hreach : Reachable fs m)
    (hstart : m.sysExecute fs fr command = some (.enter eip image, k₁))
    (hparse : executeParseArgs command = .ok name a)
    (hp : k₁.curPcbPtr m.execTerm = some p)
    (hkeeps : StepSystem.Guarded (step fs) (KeepsArgFlag m.execTerm a) k₁ es)
    (hresult : catResult fs a = some (total, ret))
    (hfile : ∀ f, (readDentryByName fs (some a)).bind openedDesc = some f →
      f.inode < DIR_ENTRIES ∧ fs.fileLength f.inode < 2147483648)
    (hfollow : follow catMain fs p none k₁ es = some s) :
    catPrinted s <+: total ∧
      ∀ v, catMain.returned s = some v → v = ret ∧ catPrinted s = total := by
  obtain ⟨harg, hready⟩ := started_ready hreach hstart hparse hp
  have ha := executeParseArgs_no_nul hparse
  have hunread : ∀ i, Source fs p i [] (fun _ => False) (KeepsArgFlag m.execTerm a)
      (fun _ _ => False) := fun i => no_source fs p i _
  unfold catResult at hresult
  by_cases hnil : a = []
  · rw [if_pos hnil] at hresult
    cases hresult
    exact CatRunning.follow hunread ha (fun _ => ⟨rfl, rfl⟩) (fun hne => absurd hnil hne) harg
      hready hkeeps hfollow
  · rw [if_neg hnil] at hresult
    split at hresult
    · -- no such file
      rename_i hnone
      cases hresult
      refine CatRunning.follow hunread ha (fun h => absurd h hnil)
        (fun _ k k' fd h hcur hopen => ?_) harg hready hkeeps hfollow
      exact ⟨fun _ => rfl, fun hne => absurd (h.not_opens hcur hnone hopen) hne⟩
    · rename_i f hname
      obtain ⟨hi, hl⟩ := hfile f hname
      split at hresult
      · rename_i hops
        cases hresult
        have hdesc := opened_file hname hops
        have hsize : FileSize 1024 := ⟨by decide, by decide⟩
        obtain ⟨out, hyields, hflat⟩ := catFilter_yields hsize (fs.fileContent f.inode)
        refine CatRunning.follow (file_source p hi hl _) ha (fun h => absurd h hnil)
          (fun _ k k' fd h hcur hopen => ?_) harg hready hkeeps hfollow
        obtain ⟨i, rfl, hi, hstack, hfd⟩ := h.opens hcur hname hopen
        refine ⟨fun hfails => by omega, fun _ => ⟨rfl, i, rfl, hi, ⟨⟨hstack, ?_⟩, Nat.zero_le _⟩,
          out, hyields, hflat⟩⟩
        rw [hfd, ← hdesc]
      · cases hresult

/-- The calls of a process that runs `cat`, with an interrupt of the RTC. -/
def catEvents : List Event :=
  [.getargs, .open (some shellCommand), .rtc, .read (fun _ => 0) 2 false 1024,
    .write 1 (some (ofList [0x7F, 0x45, 0x4C, 0x46])) 4, .read (fun _ => 0) 2 false 1024]

/-- On the small image: a process that has been started with the name of its file as argument
writes this file. -/
theorem cat_prints_sample : ∃ (m k₁ : Kernel) (eip : Nat) (image : List UInt8)
    (s : Option (FilterState Unit)), Reachable sampleImage m ∧
    m.sysExecute sampleImage zeroFrame (some (ascii "shell shell")) = some (.enter eip image, k₁) ∧
    follow catMain sampleImage 1 none k₁ catEvents = some s ∧ catMain.returned s = some 0 ∧
    (catPrinted s <+: [0x7F, 0x45, 0x4C, 0x46] ∧
      ∀ v, catMain.returned s = some v → v = 0 ∧ catPrinted s = [0x7F, 0x45, 0x4C, 0x46]) := by
  have hparse : executeParseArgs (some (ascii "shell shell")) = .ok shellCommand shellCommand := by
    decide
  have hname : (readDentryByName sampleImage (some shellCommand)).bind openedDesc
      = some (fileDesc 0 0) := by decide +kernel
  have hview : (StepSystem.run (step sampleImage) (boot zeroMemory)
      [.pit zeroFrame, .switch 1]).map (fun k => decide (k.firstFree = some 1)) = some true := by
    decide +kernel
  obtain ⟨m, hm, hfree⟩ := StepSystem.exists_of_map_decide hview
  obtain ⟨eip, image, k₁, hk₁, hent⟩ := sampleImage_enters hparse (by decide) hfree
  have hstep : step sampleImage m (.execute zeroFrame (some (ascii "shell shell"))) = some k₁ := by
    show (m.executeCall sampleImage zeroFrame _).map _ = _
    rw [executeCall_of_ne_fault hk₁ (by simp)]
    rfl
  have hreached : StepSystem.run (step sampleImage) (boot zeroMemory)
      ([.pit zeroFrame, .switch 1] ++ [.execute zeroFrame (some (ascii "shell shell"))])
        = some k₁ :=
    StepSystem.run_append_eq_some.mpr ⟨m, hm, StepSystem.run_cons_eq_some.mpr ⟨k₁, hstep, rfl⟩⟩
  have hplayed : ((StepSystem.run (step sampleImage) (boot zeroMemory)
      ([.pit zeroFrame, .switch 1] ++ [.execute zeroFrame (some (ascii "shell shell"))])).bind
        fun k => follow catMain sampleImage 1 none k catEvents).map
          (fun s => decide (catMain.returned s = some 0)) = some true := by decide +kernel
  obtain ⟨s, hs, hreturned⟩ := StepSystem.exists_of_map_decide hplayed
  rw [hreached, Option.bind_some] at hs
  have hreach : Reachable sampleImage m := ⟨zeroMemory, _, hm⟩
  have hkeeps : StepSystem.Guarded (step sampleImage) (KeepsArgFlag m.execTerm shellCommand) k₁
      catEvents :=
    ⟨trivial, fun _ _ => ⟨trivial, fun _ _ => ⟨trivial, fun _ _ => ⟨trivial, fun _ _ =>
      ⟨trivial, fun _ _ => ⟨trivial, fun _ _ => trivial⟩⟩⟩⟩⟩⟩
  refine ⟨m, k₁, eip, image, s, hreach, hk₁, hs, hreturned, ?_⟩
  refine cat_prints hreach hk₁ hparse (by rw [hent.cur, Function.update_self]) hkeeps
    (by decide +kernel) ?_ hs
  intro f hf
  rw [hname] at hf
  cases hf
  decide +kernel

/-! ## `ls` -/

/-- The loop of `ls`: each name is written with a line feed. -/
def lsFilter : StreamFilter UInt8 (List UInt8) Unit where
  want _ := 32
  next _ bytes := some (if bytes = [] then ([], none) else ([bytes ++ ascii "\n"], some ()))

/-- `main` of `ece391ls.c`, which opens the directory `.`. -/
def ls : FilterProgram Unit where
  filter := lsFilter
  first := ()
  openFails := (ascii "directory open failed\n", 2)
  readFails := (ascii "directory entry read failed\n", 3)
  writeFails := some 3
  closeFails := none

theorem ls_writesBytes {st : Unit} {bytes : List UInt8} {out : List (List UInt8)}
    {after : Option Unit} (h : lsFilter.next st bytes = some (out, after)) :
    ls.WritesBytes out := by
  intro _ chunk hchunk
  unfold lsFilter at h
  dsimp only at h
  split at h
  · cases h
    cases hchunk
  · cases h
    rw [List.mem_singleton.mp hchunk]
    exact List.append_ne_nil_of_right_ne_nil _ (by decide)

/-- **The filter of `ls`** puts out the names, one a line. -/
theorem lsFilter_yields (fs : FileSys) (n j : Nat) : ∃ out,
    lsFilter.Yields (· = FILENAME_LEN) () ((List.range' j n).flatMap fs.paddedName) out ∧
      out.flatten = (List.range' j n).flatMap fun i => fs.paddedName i ++ ascii "\n" := by
  induction n generalizing j with
  | zero => exact ⟨[], .last rfl rfl, rfl⟩
  | succ n ih =>
      obtain ⟨out, hout, hflat⟩ := ih (j + 1)
      have hlen := paddedName_length fs j
      have hname : fs.paddedName j ≠ [] := by
        apply List.ne_nil_of_length_pos
        rw [hlen]
        decide
      have hnext : lsFilter.next () (fs.paddedName j)
          = some ([fs.paddedName j ++ ascii "\n"], some ()) := congrArg some (if_neg hname)
      rw [List.range'_succ, List.flatMap_cons, List.flatMap_cons]
      have htake : (fs.paddedName j ++ (List.range' (j + 1) n).flatMap fs.paddedName).take
          (lsFilter.want ()) = fs.paddedName j := List.take_left' hlen
      have hdrop : (fs.paddedName j ++ (List.range' (j + 1) n).flatMap fs.paddedName).drop
          (lsFilter.want ()) = (List.range' (j + 1) n).flatMap fs.paddedName :=
        List.drop_left' hlen
      have hstep : lsFilter.next () ((fs.paddedName j ++
          (List.range' (j + 1) n).flatMap fs.paddedName).take (lsFilter.want ()))
            = some ([fs.paddedName j ++ ascii "\n"], some ()) := by
        rw [htake]
        exact hnext
      rw [← htake] at hname
      rw [← hdrop] at hout
      refine ⟨_, .more rfl hname hstep hout, ?_⟩
      rw [List.singleton_append, List.flatten_cons, hflat]

/-- The process is about to open the directory, and the last listing on its terminal is over. -/
structure LsBefore (p : Slot) (t : Terminal) (k : Kernel) : Prop where
  ready : Ready p k
  onTerminal : OnTerminal p t k
  flag : k.readDirFlag t = 0

theorem LsBefore.other {fs : FileSys} {p : Slot} {t : Terminal} {k k' : Kernel} {e : Event}
    (h : LsBefore p t k) (hok : ListsAlone p t k e) (hother : ¬ (k.cur = some p ∧ e.ofProcess))
    (hstep : step fs k e = some k') : LsBefore p t k' := by
  have hcalm : k.cur = some p → ¬ e.Touches := fun hcur htouch =>
    hother ⟨hcur, htouch.ofProcess⟩
  refine ⟨h.ready.other (.of_other hother) hcalm hstep,
    h.onTerminal.step (.of_other hother) hstep, ?_⟩
  rw [dirFlag_still hok hcalm hstep]
  exact h.flag

/-- **`ls` writes the names of the directory.** Process `p` of terminal `t` has been started, the
last listing there is over, and from then on `p` makes the calls of `ls`, while nobody else reads
the directory on the terminal. Then what it has written is the beginning of all the names, one a
line in the order of the entries, and all of them are written when `main` returns. -/
theorem ls_prints {fs : FileSys} {k : Kernel} {p : Slot} {t : Terminal} {es : List Event}
    {s : FilterState Unit} (hbefore : LsBefore p t k) (hle : fs.entries ≤ DIR_ENTRIES)
    (hdot : (readDentryByName fs (some (ascii "."))).bind openedDesc = some dirDesc)
    (halone : StepSystem.Guarded (step fs) (ListsAlone p t) k es)
    (hfollow : follow ls.routine fs p ⟨.opens (ascii "."), []⟩ k es = some s) :
    s.printed <+: ((List.range fs.entries).flatMap fun j => fs.paddedName j ++ ascii "\n") ∧
      ∀ v, ls.routine.returned s = some v → v = 0 ∧
        s.printed = (List.range fs.entries).flatMap fun j => fs.paddedName j ++ ascii "\n" := by
  obtain ⟨out, hyields, hflat⟩ := lsFilter_yields fs fs.entries 0
  rw [← List.range_eq_range'] at hyields hflat
  refine ls.follow_prints (dir_source hle p t) (fun _ _ _ _ => ls_writesBytes)
    (fun _ _ _ h hok hother hstep => LsBefore.other h hok hother hstep) ?_ hbefore halone hfollow
  intro k k' fd h hcur hopen
  obtain ⟨i, rfl, hi, hstack, hfd⟩ := h.ready.opens hcur hdot hopen
  obtain ⟨hstep, hspare⟩ := step_of_open (p := p) hopen
  have hflag := congrFun (sysOpen_readDirFlag hopen) t
  rw [h.flag] at hflag
  refine ⟨fun hfails => by omega, fun _ => ⟨rfl, i, rfl, hi, ?_, out, hyields, hflat⟩⟩
  exact ⟨hstack, h.onTerminal.step hspare hstep, hfd, by rw [hflag]; rfl,
    by rw [hflag]; exact Nat.zero_le _⟩

/-- The first calls of a process that runs `ls` on the small image. -/
def lsEvents : List Event :=
  [.open (some (ascii ".")), .read (fun _ => 0) 2 false 32,
    .write 1 (some (ofList (ascii "." ++ List.replicate 31 0 ++ ascii "\n"))) 33, .rtc,
    .read (fun _ => 0) 2 false 32]

/-- On the small image: the first shell makes the calls of `ls`, as far as the second name. -/
theorem ls_prints_sample : ∃ (k : Kernel) (s : FilterState Unit), Reachable sampleImage k ∧
    k.cur = some 0 ∧
    follow ls.routine sampleImage 0 ⟨.opens (ascii "."), []⟩ k lsEvents = some s ∧
    s.printed = ascii "." ++ List.replicate 31 0 ++ ascii "\n" ∧
    (s.printed <+: ((List.range sampleImage.entries).flatMap fun j =>
        sampleImage.paddedName j ++ ascii "\n") ∧
      ∀ v, ls.routine.returned s = some v → v = 0 ∧ s.printed =
        (List.range sampleImage.entries).flatMap fun j =>
          sampleImage.paddedName j ++ ascii "\n") := by
  have hview : (StepSystem.run (step sampleImage) (boot zeroMemory) [.pit zeroFrame]).map
      (fun k => decide (k.cur = some 0 ∧ k.processTerminal = 1 ∧ k.readDirFlag 1 = 0 ∧
        ((k.pcb 0).fileDescArray 2).flags = 0 ∧
        StepSystem.Guarded (step sampleImage) (fun k _ => k.cur = some 0) k lsEvents))
        = some true := by decide +kernel
  obtain ⟨k, hk, hcur, hterm, hflag, hfree, hruns⟩ := StepSystem.exists_of_map_decide hview
  have hplayed : ((StepSystem.run (step sampleImage) (boot zeroMemory) [.pit zeroFrame]).bind
      fun k => follow ls.routine sampleImage 0 ⟨.opens (ascii "."), []⟩ k lsEvents).map
        (fun s => decide (s.printed = ascii "." ++ List.replicate 31 0 ++ ascii "\n"))
        = some true := by decide +kernel
  obtain ⟨s, hs, hprinted⟩ := StepSystem.exists_of_map_decide hplayed
  rw [hk, Option.bind_some] at hs
  have hreach : Reachable sampleImage k := ⟨zeroMemory, _, hk⟩
  obtain ⟨S, hS⟩ := hreach.sound
  have hmem : (0 : Slot) ∈ S 1 := by
    rw [← hterm]
    exact hS.top_mem hcur
  have hbefore : LsBefore 0 1 k :=
    ⟨⟨⟨S, hS, 1, hmem⟩, 2, Nat.le_refl 2, fun hopen => hopen hfree⟩, ⟨S, hS.toTree, hmem⟩, hflag⟩
  refine ⟨k, s, hreach, hcur, hs, hprinted, ls_prints hbefore (by decide +kernel)
    (by decide +kernel) ?_ hs⟩
  exact StepSystem.guarded_of_imp (fun _ _ => ListsAlone.of_cur) hruns

end Programs

end Ext2Kernel
