import Ext2Kernel.Process.Arguments
import Ext2Kernel.Process.LineDelivery
import Ext2Kernel.Process.Routines
import Ext2Kernel.Programs.Support

set_option autoImplicit false

/-! # The shell

`main` of `ece391shell.c` as a routine, with its buffer. In a session of the terminal that is
shown, in which no process but the shell reads this terminal, the shell executes the typed lines
one after the other, without the empty ones and up to the line `exit`, whatever the other
processes and the interrupts do (`shell_executes_lines`).
-/

namespace Ext2Kernel

open ByteMem Kernel

/-! ## Sessions with one reader -/

namespace Session

/-- Only process `p` reads the shown terminal. -/
def ReadsAlone (p : Slot) (s : Session) : Event → Prop
  | .read _ fd bufNull nbytes => s.Starts fd bufNull nbytes → s.kernel.cur = some p
  | .resumeTerminal _ => s.Own → s.kernel.cur = some p
  | _ => True

instance (p : Slot) (s : Session) (e : Event) : Decidable (s.ReadsAlone p e) :=
  match e, e.view with
  | _, .read _ fd bufNull nbytes =>
      inferInstanceAs (Decidable (s.Starts fd bufNull nbytes → _))
  | _, .resumeTerminal _ => inferInstanceAs (Decidable (s.Own → _))
  | _, .keyboard _ | _, .switch _ | _, .execute _ _ => inferInstanceAs (Decidable True)
  | e, .other _ => isTrue (by cases e <;> trivial)

/-- The lines are printable and not longer than the line editor holds. -/
def Lines (t : Typed) : Prop := ∀ l ∈ t.lines, Printable l ∧ l.length ≤ 127

section

variable {fs : FileSys} {s s' : Session} {e : Event}

theorem next_kernel (s : Session) (k' : Kernel) (e : Event) : (s.next k' e).kernel = k' := by
  cases e with
  | read stack fd bufNull nbytes =>
      unfold next
      dsimp only
      split <;> rfl
  | resumeTerminal n =>
      unfold next
      dsimp only
      split <;> rfl
  | _ => rfl

theorem step_kernel (h : s.step fs e = some s') :
    Kernel.step fs s.kernel e = some s'.kernel ∧ s' = s.next s'.kernel e := by
  obtain ⟨k', hk', rfl⟩ := Option.map_eq_some_iff.mp h
  rw [next_kernel]
  exact ⟨hk', rfl⟩

/-- An event that neither starts nor ends a read of the shown terminal. -/
theorem next_unread {p : Slot} (k' : Kernel) (halone : s.ReadsAlone p e)
    (hother : ¬ (s.kernel.cur = some p ∧ e.ofProcess)) :
    (s.next k' e).pending = s.pending ∧ (s.next k' e).returned = s.returned := by
  cases e with
  | read stack fd bufNull nbytes =>
      have hstart : ¬ s.Starts fd bufNull nbytes := fun h => hother ⟨halone h, rfl⟩
      unfold next
      dsimp only
      rw [if_neg hstart]
      exact ⟨rfl, rfl⟩
  | resumeTerminal n =>
      have hown : ¬ s.Own := fun h => hother ⟨halone h, rfl⟩
      unfold next
      dsimp only
      rw [if_neg hown]
      exact ⟨rfl, rfl⟩
  | _ => exact ⟨rfl, rfl⟩

theorem key_lines (t : Typed) (c : Console) (pressed : Nat) :
    (t.key c pressed).lines = t.lines ∨ (t.key c pressed).lines = t.lines ++ [t.cur] := by
  unfold Typed.key
  split_ifs
  · exact Or.inl rfl
  · exact Or.inr rfl
  · exact Or.inl rfl
  · exact Or.inl (Typed.char_lines t _)

/-- Only keys type. -/
theorem next_lines (s : Session) (k' : Kernel) (e : Event) :
    (s.next k' e).typed.lines = s.typed.lines ∨
      (s.next k' e).typed.lines = s.typed.lines ++ [s.typed.cur] := by
  cases e with
  | keyboard scancode => exact key_lines s.typed s.kernel.console scancode.toNat
  | read stack fd bufNull nbytes =>
      unfold next
      dsimp only
      split <;> exact Or.inl rfl
  | resumeTerminal n =>
      unfold next
      dsimp only
      split <;> exact Or.inl rfl
  | _ => exact Or.inl rfl

theorem Inv.lines (h : s.Inv) (hlines : Lines s.typed) (k' : Kernel) (e : Event) :
    Lines (s.next k' e).typed := by
  intro l hl
  rcases s.next_lines k' e with heq | heq
  · rw [heq] at hl
    exact hlines l hl
  · rw [heq] at hl
    rcases List.mem_append.mp hl with hl | hl
    · exact hlines l hl
    · rw [List.mem_singleton.mp hl]
      exact ⟨h.printable, h.length⟩

/-- The shown terminal stays. -/
theorem Inv.visible_still (h : s.Inv) (hp : s.Possible fs e) (hstep : s.step fs e = some s') :
    s'.kernel.visibleTerminal = s.kernel.visibleTerminal := by
  obtain ⟨hk', _⟩ := step_kernel hstep
  have hconsole := Kernel.step_console hk'
  cases e with
  | keyboard scancode =>
      have hc' : s.kernel.console.keyboardInterrupt scancode = some s'.kernel.console := hconsole
      have hplain : s.kernel.console.Plain scancode.toNat →
          s'.kernel.visibleTerminal = s.kernel.visibleTerminal := fun hplain =>
        Console.plain_visible (h.onScreen _) hplain hc'
      rcases hp with hmod | hign | hback | henter | hchar
      · obtain ⟨c₁, hc₁, hsame⟩ := Console.modifier_key hmod
        rw [hc'] at hc₁
        cases hc₁
        exact hsame.visible
      · exact hplain hign.1
      · exact hplain (hback ▸ Console.plain_backspace _)
      · exact hplain (henter ▸ s.kernel.console.hasChar_enter.1)
      · exact hplain hchar.1.1
  | «switch» n => exact hp.elim
  | read stack fd bufNull nbytes =>
      rcases hconsole with heq | hread
      · exact congrArg Console.visibleTerminal heq
      · exact (Kernel.readTerminalStart_terminals hread).2
  | _ => exact (Console.Background.sameShown hconsole).visible

end

end Session

namespace Programs

/-! ## The program -/

/-- Where the shell is: before one of its calls, in its read, in the program it has executed, or
behind its end. -/
inductive ShellPoint
  | starts
  | prompts
  | reads
  | waits
  | executes
  | runs
  | reports (message : List UInt8)
  | fails
  | returned (ret : Int)

/-- The point, the buffer and the commands handed to `ece391_execute` so far. -/
structure ShellState where
  point : ShellPoint
  buf : Mem
  executed : List (List UInt8)

namespace ShellState

/-- The string in the buffer. -/
def command (s : ShellState) : List UInt8 :=
  ((List.range BUFSIZE).map s.buf).takeWhile (· ≠ 0)

/-- `if (cnt > 0 && '\n' == buf[cnt - 1]) cnt--`. -/
def cutNewline (buf : Mem) (cnt : Int) : Int :=
  if 0 < cnt ∧ buf (cnt - 1).toNat = 10 then cnt - 1 else cnt

/-- The loop after a read with result `r`. -/
def gotLine (s : ShellState) (r : Transfer) : Option ShellState :=
  let buf := overlay s.buf 0 r.stored.length (ofList r.stored)
  if r.ret = -1 then some { s with point := .fails, buf := buf }
  else
    let cnt := cutNewline buf r.ret
    if 0 ≤ cnt ∧ cnt < BUFSIZE then
      let buf := Function.update buf cnt.toNat 0
      (ece391Strcmp BUFSIZE buf 0 (ofList (ascii "exit")) 0).map fun v =>
        ⟨if v = 0 then .returned 0 else if buf 0 = 0 then .prompts else .executes, buf,
          s.executed⟩
    else none

/-- The loop after `ece391_execute` with result `rval`. -/
def afterExecute (rval : Int) : ShellPoint :=
  if rval = -1 then .reports (ascii "no such command\n")
  else if rval = 256 then .reports (ascii "program terminated by exception\n")
  else if rval ≠ 0 then .reports (ascii "program terminated abnormally\n")
  else .prompts

def next (s : ShellState) (x : Exchange) : Option ShellState :=
  match s.point, x with
  | .starts, .write 1 bytes _ =>
      if bytes = ascii "Starting 391 Shell\n" then some { s with point := .prompts } else none
  | .prompts, .write 1 bytes _ =>
      if bytes = ascii "391OS> " then some { s with point := .reads } else none
  | .reads, .read 0 nbytes out =>
      if nbytes = BUFSIZE - 1 then
        match out with
        | .done r => s.gotLine r
        | .waitTerminal _ => some { s with point := .waits }
        | .waitRtc => none
      else none
  | .waits, .resumes r => s.gotLine r
  | .executes, .executes command rval =>
      if command = s.command then
        some { s with
          point := match rval with
            | some v => afterExecute v
            | none => .runs
          executed := s.executed ++ [command] }
      else none
  | .runs, .returns rval => some { s with point := afterExecute rval }
  | .reports message, .write 1 bytes _ =>
      if bytes = message then some { s with point := .prompts } else none
  | .fails, .write 1 bytes _ =>
      if bytes = ascii "read from keyboard failed\n" then some { s with point := .returned 3 }
      else none
  | _, _ => none

end ShellState

/-- `main` of `ece391shell.c`. -/
def shell : Routine ShellState where
  next := ShellState.next
  returned s :=
    match s.point with
    | .returned v => some v
    | _ => none

theorem returned_eq_some {s : ShellState} {v : Int} (h : shell.returned s = some v) :
    s.point = .returned v := by
  unfold shell at h
  dsimp only at h
  split at h
  · rename_i hpoint
    cases h
    exact hpoint
  · cases h

theorem next_returned {s : ShellState} {v : Int} {x : Exchange} (h : s.point = .returned v) :
    s.next x = none := by
  unfold ShellState.next
  rw [h]

/-- Only in the program it has executed the shell sees the end of a child. -/
theorem next_child {s s' : ShellState} {rval : Int} (h : s.next (.returns rval) = some s') :
    s.point = .runs ∧ s' = { s with point := ShellState.afterExecute rval } := by
  obtain ⟨point, buf, executed⟩ := s
  cases point with
  | runs =>
      cases h
      exact ⟨rfl, rfl⟩
  | _ => cases h

/-! ## Commands -/

/-- The lines a shell executes: those before the first `exit` that are not empty. -/
def commandsOf (lines : List (List UInt8)) : List (List UInt8) :=
  (lines.takeWhile (· ≠ ascii "exit")).filter (· ≠ [])

theorem commandsOf_append {before : List (List UInt8)} (h : ascii "exit" ∉ before)
    (lines : List (List UInt8)) :
    commandsOf (before ++ lines) = before.filter (· ≠ []) ++ commandsOf lines := by
  have hpass : ∀ l ∈ before, decide (l ≠ ascii "exit") = true := by
    intro l hl
    apply decide_eq_true
    rintro rfl
    exact h hl
  unfold commandsOf
  rw [List.takeWhile_append_of_pos hpass, List.filter_append]

/-- What is typed behind `exit` is not executed. -/
theorem commandsOf_exit {before : List (List UInt8)} (h : ascii "exit" ∉ before)
    (lines : List (List UInt8)) :
    commandsOf (before ++ ascii "exit" :: lines) = before.filter (· ≠ []) := by
  rw [commandsOf_append h]
  unfold commandsOf
  rw [List.takeWhile_cons_of_neg (by simp), List.filter_nil, List.append_nil]

/-- What the shell does with a line. -/
def linePoint (l : List UInt8) : ShellPoint :=
  if l = ascii "exit" then .returned 0 else if l = [] then .prompts else .executes

/-- The string of a buffer is the command. -/
theorem command_eq {s : ShellState} {l : List UInt8} (h : IsString s.buf 0 l)
    (hlen : l.length < BUFSIZE) : s.command = l := by
  have hbytes := h.map_range
  simp only [Nat.zero_add] at hbytes
  have hnul := h.nul
  rw [Nat.zero_add] at hnul
  refine takeWhile_map_range hbytes (fun b hb => ?_) (Nat.le_of_lt hlen) (Or.inr ?_)
  · exact decide_eq_true (h.nonzero b hb)
  · rw [hnul]
    rfl

theorem cutNewline_line {buf : Mem} {n : Nat} (h : buf n = 10) :
    ShellState.cutNewline buf ((n : Int) + 1) = n := by
  have hlast : (n : Int) + 1 - 1 = n := by omega
  unfold ShellState.cutNewline
  rw [hlast, Int.toNat_natCast, h, if_pos ⟨by omega, rfl⟩]

/-- **A line in the buffer**: without its newline it is compared with `exit`, and it is the
command. -/
theorem gotLine_delivered (s : ShellState) {l : List UInt8} (hl : Printable l)
    (hlen : l.length ≤ 127) : ∃ s', s.gotLine (delivered l) = some s' ∧
      s'.point = linePoint l ∧ s'.executed = s.executed ∧ s'.command = l := by
  have hsize : l.length < BUFSIZE := Nat.lt_of_le_of_lt hlen (by decide)
  -- A NUL goes over the newline of the line.
  have hstring := isString_cutLast s.buf 10 fun b hb => (hl b hb).1
  have hnewline : overlay s.buf 0 (l ++ [10]).length (ofList (l ++ [10])) l.length = 10 := by
    have hblock : (l ++ [10]).length = l.length + 1 := List.length_append
    rw [overlay_in _ _ (Nat.zero_le _) (by omega), Nat.sub_zero]
    exact (ofList_append_right l [10] 0).trans rfl
  generalize hbuf : overlay s.buf 0 (l ++ [10]).length (ofList (l ++ [10])) = buf
    at hstring hnewline
  have hexit : IsString (ofList (ascii "exit")) 0 (ascii "exit") := isString_ofList (by decide)
  obtain ⟨v, hv, hiff⟩ := ece391Strcmp_spec hstring hexit hsize
  have hpoint : (if v = 0 then ShellPoint.returned 0
      else if Function.update buf l.length 0 0 = 0 then .prompts else .executes) = linePoint l :=
    if_congr hiff rfl (if_congr hstring.head_eq_zero_iff rfl rfl)
  refine ⟨⟨linePoint l, Function.update buf l.length 0, s.executed⟩, ?_, rfl, rfl,
    command_eq hstring hsize⟩
  unfold ShellState.gotLine delivered
  dsimp only
  rw [hbuf, if_neg (by omega), cutNewline_line hnewline, if_pos ⟨by omega, by omega⟩,
    Int.toNat_natCast, hv, Option.map_some, hpoint]

/-! ## The shell in a session -/

theorem delivered_injective : Function.Injective delivered := by
  intro l l' h
  exact List.append_cancel_right (congrArg Transfer.stored h)

/-- The command that the shell is about to execute. -/
def ShellState.due (sh : ShellState) : List (List UInt8) :=
  match sh.point with
  | .executes => [sh.command]
  | _ => []

/-- The shell, process `p`, has taken the lines `taken` and goes on. -/
structure ShellRuns (p : Slot) (taken : List (List UInt8)) (s : Session) (sh : ShellState) :
    Prop where
  onTerminal : OnTerminal p s.kernel.visibleTerminal s.kernel
  onStack : OnStack p s.kernel
  pending : s.pending.isSome ↔ sh.point = .waits
  goesOn : sh.point ≠ .fails ∧ ∀ v, sh.point ≠ .returned v
  returned : s.returned = taken.map delivered
  noExit : ascii "exit" ∉ taken
  commands : sh.executed ++ sh.due = taken.filter (· ≠ [])

/-- **The relation between the session and the shell.** -/
inductive Serves (p : Slot) (s : Session) (sh : ShellState) : Prop
  | runs {taken : List (List UInt8)} (h : ShellRuns p taken s sh)
  | exits (before after : List (List UInt8)) (hpoint : sh.point = .returned 0)
      (hlines : s.typed.lines = before ++ ascii "exit" :: after) (hbefore : ascii "exit" ∉ before)
      (hcommands : sh.executed = before.filter (· ≠ []))

section

variable {fs : FileSys} {p : Slot} {s s' : Session} {e : Event} {sh sh' : ShellState}
  {taken : List (List UInt8)}

/-- The lines taken are the typed ones, but for one whose reader has not returned. -/
theorem ShellRuns.taken_prefix_lines (h : ShellRuns p taken s sh) (hinv : s.Inv) :
    taken <+: s.typed.lines ∧ (¬ s.Wakes → taken = s.typed.lines) := by
  have hinj : Function.Injective (List.map delivered) := delivered_injective.list_map
  rcases hinv.phase with hedit | ⟨before, l, hw⟩
  · have heq : taken = s.typed.lines := hinj (h.returned.symm.trans hedit.returned)
    exact ⟨heq ▸ List.prefix_refl _, fun _ => heq⟩
  · have heq : taken = before := hinj (h.returned.symm.trans hw.returned)
    refine ⟨?_, fun hwakes => absurd ⟨hw.pending, hw.reading⟩ hwakes⟩
    rw [hw.lines, heq]
    exact List.prefix_append before [l]

/-- An event that leaves the reads alone. -/
theorem ShellRuns.unread (h : ShellRuns p taken s sh) (hinv : s.Inv) (hp : s.Possible fs e)
    (hspare : Spares fs p s.kernel e) (hstep : s.step fs e = some s')
    (hread : s'.pending = s.pending ∧ s'.returned = s.returned)
    (hwaits : sh'.point = .waits ↔ sh.point = .waits)
    (hgoes : sh'.point ≠ .fails ∧ ∀ v, sh'.point ≠ .returned v)
    (hcommands : sh'.executed ++ sh'.due = sh.executed ++ sh.due) : ShellRuns p taken s' sh' := by
  obtain ⟨hk', _⟩ := Session.step_kernel hstep
  refine ⟨?_, h.onStack.step hspare hk', ?_, hgoes, hread.2.trans h.returned, h.noExit,
    hcommands.trans h.commands⟩
  · rw [hinv.visible_still hp hstep]
    exact h.onTerminal.step hspare hk'
  · rw [hread.1, h.pending, hwaits]

/-- The read of the shell waits for a line. -/
theorem stdin_waits {k k' : Kernel} {stack : Mem} {nbytes : Int} {out : ReadOutcome}
    (h : OnStack p k) (hcur : k.cur = some p) (hn : 0 < nbytes)
    (hread : k.sysRead fs stack 0 false nbytes = some (out, k')) :
    k.ReadsTerminal 0 false nbytes ∧ out = .waitTerminal (Console.clipBytes nbytes) := by
  obtain ⟨S, hS, _⟩ := h
  have hin := (hS.top_live hcur).stdin
  have hidx : fdIdx 0 = 0 := rfl
  constructor
  · refine ⟨by unfold MAX_FD_IDX; simp; omega, p, hcur, ?_, ?_⟩
    · rw [hidx, hin]
      decide
    · rw [hidx, hin]
      rfl
  · unfold sysRead at hread
    rw [if_neg (by unfold MAX_FD_IDX; simp; omega), hcur, Option.bind_some] at hread
    dsimp only at hread
    rw [hidx, hin, if_neg (by decide)] at hread
    obtain ⟨c, _, heq⟩ := Option.map_eq_some_iff.mp hread
    cases heq
    rfl

/-- The read has returned a line. -/
theorem serves_line (hlines : Session.Lines s.typed) (h : ShellRuns p taken s sh)
    (hinv' : s'.Inv) (hterm : OnTerminal p s'.kernel.visibleTerminal s'.kernel)
    (hstack : OnStack p s'.kernel) {r : Transfer} (htyped : s'.typed = s.typed)
    (hpend : s'.pending = none) (hret : s'.returned = s.returned ++ [r])
    (hpoint : sh.point = .waits) (hnext : sh.gotLine r = some sh') : Serves p s' sh' := by
  -- The transfer is the first typed line that has not been taken.
  have hall := (hinv'.editing_of_none hpend).returned
  rw [hret, h.returned, htyped] at hall
  obtain ⟨before, rest, hsplit, hbefore, hrest⟩ := List.append_eq_map_iff.mp hall
  obtain rfl : before = taken := delivered_injective.list_map hbefore
  obtain ⟨l, rest', rfl, rfl, hnil⟩ := List.map_eq_cons_iff.mp hrest
  obtain rfl := List.map_eq_nil_iff.mp hnil
  have hl := hlines l (by rw [hsplit]; simp)
  obtain ⟨sh₁, hsh₁, hline, hexecuted, hcommand⟩ := gotLine_delivered sh hl.1 hl.2
  rw [hnext] at hsh₁
  cases hsh₁
  have hdue : sh.due = [] := by
    unfold ShellState.due
    rw [hpoint]
  have hdone := h.commands
  rw [hdue, List.append_nil] at hdone
  unfold linePoint at hline
  by_cases hexit : l = ascii "exit"
  · rw [if_pos hexit] at hline
    refine .exits before [] hline ?_ h.noExit (hexecuted.trans hdone)
    rw [htyped, hsplit, hexit]
  · rw [if_neg hexit] at hline
    have hnoExit : ascii "exit" ∉ before ++ [l] := by
      intro hmem
      rcases List.mem_append.mp hmem with hmem | hmem
      · exact h.noExit hmem
      · exact hexit (List.mem_singleton.mp hmem).symm
    have hreturned : s'.returned = (before ++ [l]).map delivered := by
      rw [hret, h.returned, List.map_append]
      rfl
    by_cases hempty : l = []
    · rw [if_pos hempty] at hline
      refine .runs ⟨hterm, hstack, ?_, ?_, hreturned, hnoExit, ?_⟩
      · rw [hpend, hline]
        exact iff_of_false nofun nofun
      · rw [hline]
        exact ⟨nofun, fun _ => nofun⟩
      · unfold ShellState.due
        rw [hline, hexecuted, hdone, List.filter_append, hempty]
        rfl
    · rw [if_neg hempty] at hline
      refine .runs ⟨hterm, hstack, ?_, ?_, hreturned, hnoExit, ?_⟩
      · rw [hpend, hline]
        exact iff_of_false nofun nofun
      · rw [hline]
        exact ⟨nofun, fun _ => nofun⟩
      · unfold ShellState.due
        rw [hline, hexecuted, hdone, List.filter_append, hcommand]
        simp [hempty]

/-- The shell is neither in its read nor about to execute a command nor at its end. -/
def ShellPoint.Between (pt : ShellPoint) : Prop :=
  pt ≠ .waits ∧ pt ≠ .executes ∧ pt ≠ .fails ∧ ∀ v, pt ≠ .returned v

theorem between_afterExecute (rval : Int) : (ShellState.afterExecute rval).Between := by
  unfold ShellState.afterExecute
  split_ifs <;> exact ⟨nofun, nofun, nofun, fun _ => nofun⟩

theorem due_eq_nil (h : sh.point ≠ .executes) : sh.due = [] := by
  unfold ShellState.due
  split
  · rename_i heq
    exact absurd heq h
  · rfl

/-- From one point to another, with the reads left alone. -/
theorem ShellRuns.moves (h : ShellRuns p taken s sh) (hinv : s.Inv) (hp : s.Possible fs e)
    (hspare : Spares fs p s.kernel e) (hstep : s.step fs e = some s')
    (hread : s'.pending = s.pending ∧ s'.returned = s.returned) (hwaits : sh.point ≠ .waits)
    (hbetween : sh'.point.Between) (hcommands : sh'.executed = sh.executed ++ sh.due) :
    Serves p s' sh' := by
  refine .runs (h.unread hinv hp hspare hstep hread ?_ hbetween.2.2 ?_)
  · exact iff_of_false hbetween.1 hwaits
  · rw [due_eq_nil hbetween.2.1, List.append_nil, hcommands]

/-- A write of the shell. -/
theorem ShellRuns.writes (h : ShellRuns p taken s sh) (hinv : s.Inv) (hp : s.Possible fs e)
    (hstep : s.step fs e = some s') {fd ret : Int} {bytes : List UInt8}
    (hx : s.kernel.exchange fs e = some (.write fd bytes ret)) {pt : ShellPoint}
    (hfrom : sh.point.Between) (hto : pt.Between) : Serves p s' { sh with point := pt } := by
  obtain ⟨hk', hs'⟩ := Session.step_kernel hstep
  have hspare : Spares fs p s.kernel e := .of_exchange hx
  refine h.moves hinv hp hspare hstep ?_ hfrom.1 hto ?_
  · cases exchanged hx hk' with
    | write _ =>
        have hpend := congrArg Session.pending hs'
        have hret := congrArg Session.returned hs'
        exact ⟨hpend, hret⟩
  · rw [due_eq_nil hfrom.2.1, List.append_nil]

/-- **A call of the shell.** -/
theorem ShellRuns.call (h : ShellRuns p taken s sh) (hinv : s.Inv)
    (hlines : Session.Lines s.typed) (hp : s.Possible fs e) (hinv' : s'.Inv)
    (hstep : s.step fs e = some s') (hcur : s.kernel.cur = some p) {x : Exchange}
    (hx : s.kernel.exchange fs e = some x) (hnext : sh.next x = some sh') : Serves p s' sh' := by
  obtain ⟨hk', hs'⟩ := Session.step_kernel hstep
  have hspare : Spares fs p s.kernel e := .of_exchange hx
  have hterm : OnTerminal p s'.kernel.visibleTerminal s'.kernel := by
    rw [hinv.visible_still hp hstep]
    exact h.onTerminal.step hspare hk'
  have hstack : OnStack p s'.kernel := h.onStack.step hspare hk'
  have hown : s.Own := h.onTerminal.running hcur
  unfold ShellState.next at hnext
  split at hnext
  · rename_i hpoint
    split at hnext
    · cases hnext
      refine h.writes hinv hp hstep hx ?_ ⟨nofun, nofun, nofun, fun _ => nofun⟩
      rw [hpoint]
      exact ⟨nofun, nofun, nofun, fun _ => nofun⟩
    · cases hnext
  · rename_i hpoint
    split at hnext
    · cases hnext
      refine h.writes hinv hp hstep hx ?_ ⟨nofun, nofun, nofun, fun _ => nofun⟩
      rw [hpoint]
      exact ⟨nofun, nofun, nofun, fun _ => nofun⟩
    · cases hnext
  · -- the read, which starts to wait
    rename_i nbytes out hpoint
    split at hnext
    · rename_i hsize
      obtain ⟨stack, rfl, hread⟩ : ∃ stack, e = .read stack 0 false nbytes ∧
          s.kernel.sysRead fs stack 0 false nbytes = some (out, s'.kernel) := by
        cases exchanged hx hk' with
        | read h => exact ⟨_, rfl, h⟩
      obtain ⟨hterminal, rfl⟩ := stdin_waits h.onStack hcur (by rw [hsize]; decide) hread
      cases hnext
      have hstarts : s.Starts 0 false nbytes := ⟨hown, hterminal⟩
      have heq := hs'.trans (if_pos hstarts)
      have hpend := congrArg Session.pending heq
      have hret := congrArg Session.returned heq
      have hcommands := h.commands
      rw [due_eq_nil (by rw [hpoint]; exact nofun)] at hcommands
      refine .runs ⟨hterm, hstack, ?_, ⟨nofun, fun _ => nofun⟩, hret.trans h.returned, h.noExit,
        hcommands⟩
      rw [hpend]
      exact iff_of_true rfl rfl
    · cases hnext
  · -- the line
    rename_i r hpoint
    obtain ⟨n, rfl, hr⟩ : ∃ n, e = .resumeTerminal n ∧
        s.kernel.readTerminalFinish n = some r := by
      generalize s'.kernel = k' at hk'
      cases exchanged hx hk' with
      | resumes h => exact ⟨_, rfl, h⟩
    have hcopy : r = s.kernel.console.readTerminalCopy n := by
      unfold readTerminalFinish at hr
      split at hr
      · cases hr
      · exact (Option.some.inj hr).symm
    have heq := hs'.trans (if_pos hown)
    have htyped := congrArg Session.typed heq
    have hpend := congrArg Session.pending heq
    have hret := congrArg Session.returned heq
    rw [hcopy] at hnext
    exact serves_line hlines h hinv' hterm hstack htyped hpend hret hpoint hnext
  · -- the command
    rename_i command rval hpoint
    split at hnext
    · rename_i hcommand
      cases hnext
      have hread : s'.pending = s.pending ∧ s'.returned = s.returned := by
        cases exchanged hx hk' with
        | executes _ =>
            have hpend := congrArg Session.pending hs'
            have hret := congrArg Session.returned hs'
            exact ⟨hpend, hret⟩
        | enters _ =>
            have hpend := congrArg Session.pending hs'
            have hret := congrArg Session.returned hs'
            exact ⟨hpend, hret⟩
      refine h.moves hinv hp hspare hstep hread (by rw [hpoint]; exact nofun) ?_ ?_
      · cases rval with
        | some v => exact between_afterExecute v
        | none => exact ⟨nofun, nofun, nofun, fun _ => nofun⟩
      · unfold ShellState.due
        rw [hpoint, hcommand]
    · cases hnext
  · -- a process that runs sees no end of a child
    cases exchanged hx hk'
  · rename_i message bytes ret hpoint
    split at hnext
    · cases hnext
      refine h.writes hinv hp hstep hx ?_ ⟨nofun, nofun, nofun, fun _ => nofun⟩
      rw [hpoint]
      exact ⟨nofun, nofun, nofun, fun _ => nofun⟩
    · cases hnext
  · rename_i hpoint
    exact absurd hpoint h.goesOn.1
  · cases hnext

/-- Behind `exit` the lines may become more. -/
theorem serves_after_exit {before after : List (List UInt8)} (hpoint : sh.point = .returned 0)
    (hlines : s.typed.lines = before ++ ascii "exit" :: after) (hbefore : ascii "exit" ∉ before)
    (hcommands : sh.executed = before.filter (· ≠ [])) (hstep : s.step fs e = some s') :
    Serves p s' sh := by
  rw [(Session.step_kernel hstep).2]
  rcases s.next_lines s'.kernel e with heq | heq
  · exact .exits before after hpoint (heq.trans hlines) hbefore hcommands
  · refine .exits before (after ++ [s.typed.cur]) hpoint ?_ hbefore hcommands
    rw [heq, hlines, List.append_assoc, List.cons_append]

/-- An event that is no call of the shell. -/
theorem Serves.other (h : Serves p s sh) (hinv : s.Inv) (hp : s.Possible fs e)
    (halone : s.ReadsAlone p e) (hother : ¬ (s.kernel.cur = some p ∧ e.ofProcess))
    (hstep : s.step fs e = some s') : Serves p s' sh := by
  cases h with
  | runs h =>
      have hread : s'.pending = s.pending ∧ s'.returned = s.returned := by
        rw [(Session.step_kernel hstep).2]
        exact Session.next_unread _ halone hother
      exact .runs (h.unread hinv hp (.of_other hother) hstep hread Iff.rfl h.goesOn rfl)
  | exits before after hpoint hlines hbefore hcommands =>
      exact serves_after_exit hpoint hlines hbefore hcommands hstep

/-- The end of the program that the shell has executed. -/
theorem Serves.child (h : Serves p s sh) (hinv : s.Inv) (hp : s.Possible fs e)
    (halone : s.ReadsAlone p e) (hother : ¬ (s.kernel.cur = some p ∧ e.ofProcess)) {rval : Int}
    (hnext : sh.next (.returns rval) = some sh') (hstep : s.step fs e = some s') :
    Serves p s' sh' := by
  obtain ⟨hpoint, rfl⟩ := next_child hnext
  cases h with
  | runs h =>
      have hread : s'.pending = s.pending ∧ s'.returned = s.returned := by
        rw [(Session.step_kernel hstep).2]
        exact Session.next_unread _ halone hother
      refine h.moves hinv hp (.of_other hother) hstep hread (by rw [hpoint]; exact nofun)
        (between_afterExecute rval) ?_
      rw [due_eq_nil (by rw [hpoint]; exact nofun), List.append_nil]
  | exits _ _ hexit _ _ _ =>
      rw [hpoint] at hexit
      cases hexit

theorem Serves.commands (h : Serves p s sh) (hinv : s.Inv) :
    sh.executed <+: commandsOf s.typed.lines ∧
      (¬ s.Wakes → sh.executed ++ sh.due = commandsOf s.typed.lines) ∧
      ∀ v, shell.returned sh = some v → v = 0 ∧ ascii "exit" ∈ s.typed.lines := by
  cases h with
  | @runs taken h =>
      obtain ⟨⟨rest, hrest⟩, hall⟩ := h.taken_prefix_lines hinv
      have hcommands := commandsOf_append h.noExit
      refine ⟨?_, fun hwakes => ?_, fun v hv => ?_⟩
      · rw [← hrest, hcommands, ← h.commands]
        exact (List.prefix_append sh.executed sh.due).trans (List.prefix_append _ _)
      · rw [← hall hwakes, ← List.append_nil taken, hcommands, h.commands]
        exact (List.append_nil _).symm
      · exact absurd (returned_eq_some hv) (h.goesOn.2 v)
  | exits before after hpoint hlines hbefore hcommands =>
      have heq : sh.executed = commandsOf s.typed.lines := by
        rw [hlines, commandsOf_exit hbefore, hcommands]
      refine ⟨heq ▸ List.prefix_refl _, fun _ => ?_, fun v hv => ?_⟩
      · rw [due_eq_nil (by rw [hpoint]; exact nofun), List.append_nil, heq]
      · have hret := hpoint.symm.trans (returned_eq_some hv)
        cases hret
        refine ⟨rfl, ?_⟩
        rw [hlines]
        simp

end

/-- **The shell executes the typed lines.** The process `p` of the terminal that is shown is in the
loop of the shell, or before it, and nothing has been typed. Then in every run of keys and other
events in which lines and reads are kept together and only `p` reads this terminal, what it
executes is the beginning of the typed lines without the empty ones, up to `exit`. Unless a typed
line is still on its way to the reader, all of them have been executed, but for the one it is
about to execute. `main` returns only for `exit`, and with 0. -/
theorem shell_executes_lines {fs : FileSys} {k : Kernel} {p : Slot} {sh₀ : ShellState}
    {es : List Event} {s : Session} {sh : ShellState} (hreach : Reachable fs k)
    (hquiet : Session.Quiet (Session.start k).shown)
    (hp : k.curPcbPtr k.visibleTerminal = some p) (hloop : sh₀.point.Between)
    (hfresh : sh₀.executed = [])
    (hpossible : StepSystem.Guarded (Session.step fs) (Session.Possible fs) (.start k) es)
    (hkeeps : StepSystem.Guarded (Session.step fs) Session.Keeps (.start k) es)
    (halone : StepSystem.Guarded (Session.step fs) (Session.ReadsAlone p) (.start k) es)
    (hrun : StepSystem.run (Session.step fs) (.start k) es = some s)
    (hfollow : follow shell fs p sh₀ k es = some sh) :
    sh.executed <+: commandsOf s.typed.lines ∧
      (¬ s.Wakes → sh.executed ++ sh.due = commandsOf s.typed.lines) ∧
      ∀ v, shell.returned sh = some v → v = 0 ∧ ascii "exit" ∈ s.typed.lines := by
  obtain ⟨S, hS⟩ := hreach.sound
  have hmem := hS.top_mem hp
  have hstart : ShellRuns p [] (.start k) sh₀ := by
    refine ⟨⟨S, hS.toTree, hmem⟩, ⟨S, hS, _, hmem⟩, iff_of_false nofun hloop.1, hloop.2.2, rfl,
      List.not_mem_nil, ?_⟩
    rw [hfresh, due_eq_nil hloop.2.1]
    rfl
  have hnext : ∀ (s : Session) e s', s.Inv → Session.Lines s.typed →
      (s.Possible fs e ∧ s.Keeps e) ∧ s.ReadsAlone p e → s.step fs e = some s' →
      s'.Inv ∧ Session.Lines s'.typed := by
    intro s e s' hinv hlines hok hstep
    obtain ⟨s₁, hs₁, hinv'⟩ := hinv.step hok.1.1 hok.1.2
    rw [hstep] at hs₁
    cases hs₁
    rw [(Session.step_kernel hstep).2]
    exact ⟨(Session.step_kernel hstep).2 ▸ hinv', hinv.lines hlines _ _⟩
  have hend := follow_run_invariant Session.kernel
    (fun _ _ _ hstep => (Session.step_kernel hstep).1)
    (R := fun s sh => (s.Inv ∧ Session.Lines s.typed) ∧ Serves p s sh) ?_ ?_ ?_
    ⟨⟨Session.inv_start hreach.allOnScreen hquiet, fun _ hl => absurd hl List.not_mem_nil⟩,
      .runs hstart⟩ ((hpossible.and hkeeps).and halone) hrun hfollow
  · exact hend.2.commands hend.1.1
  · rintro s e s' sh ⟨⟨hinv, hlines⟩, hserves⟩ hok hreturned hstep
    refine ⟨hnext s e s' hinv hlines hok hstep, ?_⟩
    cases hserves with
    | runs h =>
        obtain ⟨v, hv⟩ := Option.isSome_iff_exists.mp hreturned
        exact absurd (returned_eq_some hv) (h.goesOn.2 v)
    | exits before after hpoint hlines hbefore hcommands =>
        exact serves_after_exit hpoint hlines hbefore hcommands hstep
  · rintro s e s' sh ⟨⟨hinv, hlines⟩, hserves⟩ hok hseen hstep
    exact ⟨hnext s e s' hinv hlines hok hstep,
      hserves.other hinv hok.1.1 hok.2 (not_own_of_seen hseen) hstep⟩
  · rintro s e s' sh x sh' ⟨⟨hinv, hlines⟩, hserves⟩ hok hseen hnext' hstep
    have hkeep := hnext s e s' hinv hlines hok hstep
    refine ⟨hkeep, ?_⟩
    rcases seen_eq_some hseen with ⟨hcur, hx⟩ | ⟨v, rfl, hcur⟩
    · cases hserves with
      | runs h => exact h.call hinv hlines hok.1.1 hkeep.1 hstep hcur hx hnext'
      | exits _ _ hpoint _ _ _ =>
          have hnone := (next_returned hpoint).symm.trans hnext'
          cases hnone
    · exact hserves.child hinv hok.1.1 hok.2 (fun hown => hcur hown.1) hnext' hstep

/-- The shell reads, `a` and Enter are typed, and the shell tries to execute `a`. -/
def shellEvents : List Event :=
  [.read (fun _ => 0) 0 false 1023, .keyboard 0x1E, .keyboard 0x1C, .resumeTerminal 127,
    .execute zeroFrame (some (ascii "a"))]

/-- The first shell, before its read. -/
def shellReads : ShellState := ⟨.reads, fun _ => 0, []⟩

theorem shell_executes_lines_a : ∃ k s sh, Reachable sampleImage k ∧
    StepSystem.run (Session.step sampleImage) (.start k) shellEvents = some s ∧
    s.typed.lines = [ascii "a"] ∧ follow shell sampleImage 0 shellReads k shellEvents = some sh ∧
    sh.executed ++ sh.due = [ascii "a"] := by
  have hview : (StepSystem.run (Kernel.step sampleImage) (Kernel.boot zeroMemory)
      [.pit zeroFrame, .switch 1]).map (fun k => decide (k.curPcbPtr k.visibleTerminal = some 0 ∧
        (Session.start k).shown.lineIdx = ⟨0, 0, 0, 0, 0, 0⟩ ∧
        (Session.start k).shown.sysReadFlag = false ∧
        StepSystem.Guarded (Session.step sampleImage) (Session.Possible sampleImage) (.start k)
          shellEvents ∧
        StepSystem.Guarded (Session.step sampleImage) Session.Keeps (.start k) shellEvents ∧
        StepSystem.Guarded (Session.step sampleImage) (Session.ReadsAlone 0) (.start k)
          shellEvents ∧
        (StepSystem.run (Session.step sampleImage) (.start k) shellEvents).map (fun s =>
          (s.pending, s.typed.lines)) = some (none, [ascii "a"]) ∧
        (follow shell sampleImage 0 shellReads k shellEvents).isSome = true)) = some true := by
    decide +kernel
  obtain ⟨k, hk, hp, hidx, hread, hpossible, hkeeps, halone, hend, hplayed⟩ :=
    StepSystem.exists_of_map_decide hview
  obtain ⟨s, hs, hpair⟩ := Option.map_eq_some_iff.mp hend
  obtain ⟨hpend, hlines⟩ := Prod.mk.inj hpair
  obtain ⟨sh, hsh⟩ := Option.isSome_iff_exists.mp hplayed
  have hreach : Reachable sampleImage k := ⟨zeroMemory, _, hk⟩
  have hloop : shellReads.point.Between := ⟨nofun, nofun, nofun, fun _ => nofun⟩
  obtain ⟨_, hall, _⟩ := shell_executes_lines hreach (Session.quiet_of_zero hidx hread) hp hloop rfl
    hpossible hkeeps halone hs hsh
  refine ⟨k, s, sh, hreach, hs, hlines, hsh, ?_⟩
  rw [hall fun hw => absurd hw.1 (by rw [hpend]; decide), hlines]
  decide

end Programs

end Ext2Kernel
