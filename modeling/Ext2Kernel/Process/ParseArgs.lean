import Ext2Kernel.Basic.Scan
import Ext2Kernel.Process.Execute

set_option autoImplicit false

/-! # Command parsing

`_execute_parse_args` with its index `i` and its two buffers. `parseArgs` is the function of
the source on the memory at `command`; its result lists the stores to `prog_name` and `arg`.
`parseArgs_eq` says that it computes `executeParseArgs`.

The parser steps over NUL characters in front of the command, so that the empty command is
parsed as the string behind it (`commandText`). It copies at most 32 characters of the name and
all of the argument, and does not store a terminator: the buffers have been cleared, and a
terminator is left only if they are not filled.
-/

namespace Ext2Kernel

open ByteMem

/-! ## The function with its loops -/

/-- What `_execute_parse_args` returns and the stores it makes through its two pointers. -/
structure ParseRun where
  ret : Int
  progName : List (Nat × UInt8)
  arg : List (Nat × UInt8)
  deriving DecidableEq

/-- `while (command[i] == '\0') if (++i == KEYBOARD_BUFFER_SIZE) return -1;` with `n` rounds
left; `none` is the return. -/
def skipNulls (m : Mem) : Nat → Nat → Option Nat
  | 0, _ => none
  | n + 1, i => if m i = 0 then skipNulls m n (i + 1) else some i

/-- The loop that copies the name, with room for `n` more characters. -/
def copyName (m : Mem) : Nat → Nat → Nat → List (Nat × UInt8)
  | 0, _, _ => []
  | n + 1, i, k => if nameChar (m i) then (k, m i) :: copyName m n (i + 1) (k + 1) else []

/-- `_execute_parse_args`; `none` when `fuel` rounds of a loop are not enough. -/
def parseArgs (fuel : Nat) (command : Option Mem) : Option ParseRun :=
  match command with
  | none => some ⟨-1, [], []⟩
  | some m =>
      match skipNulls m KEYBOARD_BUFFER_SIZE 0 with
      | none => some ⟨-1, [], []⟩
      | some start =>
          -- skips spaces in front of the program name
          (scanWhile (· = 32) m fuel start).bind fun j =>
            if m j = 0 ∨ m j = 10 then some ⟨-1, [], []⟩
            else
              let name := copyName m FILENAME_LEN j 0
              -- skips what is left of the name, then the spaces in front of the argument
              (scanWhile nameChar m fuel (j + name.length)).bind fun i =>
                (scanWhile (· = 32) m fuel i).bind fun i =>
                  if m i = 0 then some ⟨-2, name, []⟩
                  else (copyWhile (· ≠ 0) m fuel i 0).map fun arg => ⟨0, name, arg⟩

/-- The run that a parsed command comes from. -/
def Parsed.run : Parsed → ParseRun
  | .bad => ⟨-1, [], []⟩
  | .ok progName arg => ⟨if arg = [] then -2 else 0, storesFrom 0 progName, storesFrom 0 arg⟩

/-! ## The loops -/

theorem parseArgs_mono {fuel fuel' : Nat} {command : Option Mem} {r : ParseRun}
    (h : parseArgs fuel command = some r) (hle : fuel ≤ fuel') :
    parseArgs fuel' command = some r := by
  cases command with
  | none => exact h
  | some m =>
      unfold parseArgs at h ⊢
      dsimp only at h ⊢
      cases hnull : skipNulls m KEYBOARD_BUFFER_SIZE 0 with
      | none =>
          rw [hnull] at h
          exact h
      | some start =>
          rw [hnull] at h
          dsimp only at h ⊢
          obtain ⟨j, hj, h⟩ := Option.bind_eq_some_iff.mp h
          rw [scanWhile_mono hj hle, Option.bind_some]
          by_cases hbad : m j = 0 ∨ m j = 10
          · rw [if_pos hbad] at h ⊢
            exact h
          · rw [if_neg hbad] at h ⊢
            obtain ⟨i, hi, h⟩ := Option.bind_eq_some_iff.mp h
            obtain ⟨i', hi', h⟩ := Option.bind_eq_some_iff.mp h
            rw [scanWhile_mono hi hle, Option.bind_some, scanWhile_mono hi' hle, Option.bind_some]
            by_cases hend : m i' = 0
            · rw [if_pos hend] at h ⊢
              exact h
            · rw [if_neg hend] at h ⊢
              obtain ⟨arg, harg, rfl⟩ := Option.map_eq_some_iff.mp h
              rw [copyWhile_mono harg hle]
              rfl

/-- Behind the list there are only NULs. -/
theorem skipNulls_end {l : List UInt8} (n : Nat) {i : Nat} (h : l.drop i = []) :
    skipNulls (ofList l) n i = none := by
  induction n generalizing i with
  | zero => rfl
  | succ n ih =>
      unfold skipNulls
      rw [ofList_drop, h]
      refine (if_pos rfl).trans (ih ?_)
      rw [← List.drop_drop, h]
      rfl

/-- The first loop leaves the index at the first byte that is not NUL, unless there is none in
its range. -/
theorem skipNulls_ofList (l : List UInt8) (n i : Nat) :
    (∃ j, skipNulls (ofList l) n i = some j ∧ ((l.drop i).takeWhile (· = 0)).length < n ∧
        l.drop j = (l.drop i).dropWhile (· = 0)) ∨
      (skipNulls (ofList l) n i = none ∧ (n ≤ ((l.drop i).takeWhile (· = 0)).length ∨
        (l.drop i).dropWhile (· = 0) = [])) := by
  induction n generalizing i with
  | zero => exact Or.inr ⟨rfl, Or.inl (Nat.zero_le _)⟩
  | succ n ih =>
      unfold skipNulls
      rw [ofList_drop]
      cases hdrop : l.drop i with
      | nil =>
          refine Or.inr ⟨(if_pos rfl).trans (skipNulls_end n ?_), Or.inr rfl⟩
          rw [← List.drop_drop, hdrop]
          rfl
      | cons b t =>
          have hnext := drop_succ_of_drop hdrop
          by_cases hb : b = 0
          · have ih := ih (i + 1)
            rw [hnext] at ih
            rw [List.takeWhile_cons_of_pos (by simpa using hb),
              List.dropWhile_cons_of_pos (by simpa using hb), List.length_cons]
            rcases ih with ⟨j, hj, hlen, hrest⟩ | ⟨hnone, hcase⟩
            · exact Or.inl ⟨j, (if_pos hb).trans hj, by omega, hrest⟩
            · refine Or.inr ⟨(if_pos hb).trans hnone, ?_⟩
              exact hcase.imp (fun h => by omega) id
          · rw [List.takeWhile_cons_of_neg (by simpa using hb),
              List.dropWhile_cons_of_neg (by simpa using hb)]
            exact Or.inl ⟨i, if_neg hb, Nat.succ_pos n, hdrop⟩

/-- The name loop copies the first `n` characters of the name. -/
theorem copyName_ofList (l : List UInt8) (n i k : Nat) :
    copyName (ofList l) n i k = storesFrom k (((l.drop i).takeWhile nameChar).take n) := by
  induction n generalizing i k with
  | zero => rfl
  | succ n ih =>
      unfold copyName
      rw [ofList_drop]
      cases hdrop : l.drop i with
      | nil => exact if_neg (by decide)
      | cons b t =>
          have hnext := drop_succ_of_drop hdrop
          by_cases hb : nameChar b = true
          · rw [List.takeWhile_cons_of_pos hb, List.take_succ_cons]
            refine (if_pos hb).trans ?_
            rw [ih, hnext]
            rfl
          · rw [List.takeWhile_cons_of_neg hb]
            exact if_neg hb

theorem storesFrom_length (k : Nat) (l : List UInt8) : (storesFrom k l).length = l.length := by
  induction l generalizing k with
  | nil => rfl
  | cons b l ih => exact congrArg (· + 1) (ih (k + 1))

/-- **The loops compute `executeParseArgs`**, with one round more than there are bytes. -/
theorem parseArgs_eq (l : List UInt8) {fuel : Nat} (hfuel : l.length < fuel) :
    parseArgs fuel (some (ofList l)) = some (executeParseArgs (some l)).run := by
  have hscan : ∀ (p : UInt8 → Bool) (i : Nat), p 0 = false →
      ∃ j, scanWhile p (ofList l) fuel i = some j ∧ l.drop j = (l.drop i).dropWhile p := by
    intro p i hp
    refine scanWhile_ofList hp l ?_
    rw [List.length_drop]
    omega
  have hdrop₀ : l.drop 0 = l := rfl
  unfold parseArgs executeParseArgs
  dsimp only
  -- The index after each loop is known by the bytes that are left there (`drop`).
  rcases skipNulls_ofList l KEYBOARD_BUFFER_SIZE 0 with
    ⟨start, hstart, hlen, hrest⟩ | ⟨hnone, hcase⟩
  · rw [hdrop₀] at hlen hrest
    rw [hstart, if_neg (by omega)]
    dsimp only
    obtain ⟨j, hj, hcs⟩ := hscan (· = 32) start (by decide)
    rw [hrest] at hcs
    rw [hj, Option.bind_some, ofList_drop, hcs]
    generalize (l.dropWhile (· = 0)).dropWhile (· = 32) = cs at *
    rw [ofList_head]
    by_cases hbad : cs.headD 0 = 0 ∨ cs.headD 0 = 10
    · rw [if_pos hbad, if_pos hbad]
      rfl
    · rw [if_neg hbad, if_neg hbad, copyName_ofList, storesFrom_length, hcs]
      obtain ⟨i, hi, hskip⟩ := hscan nameChar
        (j + ((cs.takeWhile nameChar).take FILENAME_LEN).length) (by decide)
      -- The copied part of the name and the skipped one together are the name.
      rw [← List.drop_drop, hcs, dropWhile_drop_take] at hskip
      obtain ⟨i', hi', hargs⟩ := hscan (· = 32) i (by decide)
      rw [hskip] at hargs
      rw [hi, Option.bind_some, hi', Option.bind_some, ofList_drop, hargs]
      have harg := ofList_head_eq_zero_iff ((cs.dropWhile nameChar).dropWhile (· = 32))
      by_cases hend : ofList ((cs.dropWhile nameChar).dropWhile (· = 32)) 0 = 0
      · rw [if_pos hend, harg.mp hend]
        rfl
      · have hcons := fun hnil => hend (harg.mpr hnil)
        rw [if_neg hend, copyWhile_ofList (by decide) l 0 (by rw [List.length_drop]; omega), hargs]
        simp only [Option.map_some, Parsed.run, if_neg hcons]
  · -- No byte other than NUL in the range of the first loop.
    rw [hdrop₀] at hcase
    rw [hnone]
    dsimp only
    by_cases hlong : (l.takeWhile (· = 0)).length ≥ KEYBOARD_BUFFER_SIZE
    · rw [if_pos hlong]
      rfl
    · have hnil := hcase.resolve_left hlong
      rw [if_neg hlong, hnil]
      show some Parsed.bad.run = _
      refine congrArg (fun r : Parsed => some r.run) (if_pos ?_).symm
      exact Or.inl rfl

/-- Two runs of the parser on the same command agree. -/
theorem parseArgs_unique {l : List UInt8} {fuel : Nat} {r : ParseRun}
    (h : parseArgs fuel (some (ofList l)) = some r) : r = (executeParseArgs (some l)).run := by
  have hbig := parseArgs_eq l (show l.length < max fuel (l.length + 1) by omega)
  exact Option.some.inj ((parseArgs_mono h (Nat.le_max_left _ _)).symm.trans hbig)

/-! ## Commands as strings -/

/-- The program name of a command: the first run of characters other than space and newline
after the leading spaces. -/
def commandName (c : List UInt8) : List UInt8 := (c.dropWhile (· = 32)).takeWhile nameChar

/-- The argument: what follows the name, without its leading spaces. -/
def commandArg (c : List UInt8) : List UInt8 :=
  ((c.dropWhile (· = 32)).dropWhile nameChar).dropWhile (· = 32)

/-- The string the parser works on, by the bytes from `command` on: it begins at the first byte
that is not NUL, which has to be one of the first 128. -/
def commandText (l : List UInt8) : List UInt8 :=
  if (l.takeWhile (· = 0)).length ≥ KEYBOARD_BUFFER_SIZE then []
  else (l.dropWhile (· = 0)).takeWhile (· ≠ 0)

/-- For a command that is not empty, this is the command. -/
theorem commandText_eq {c : List UInt8} (hne : c ≠ []) (hc : ∀ b ∈ c, b ≠ 0)
    (rest : List UInt8) : commandText (c ++ 0 :: rest) = c := by
  cases c with
  | nil => exact absurd rfl hne
  | cons b t =>
      have hb : b ≠ 0 := hc b List.mem_cons_self
      have hall : ∀ a ∈ b :: t, decide (a ≠ 0) = true := fun a ha => by simpa using hc a ha
      unfold commandText
      rw [List.cons_append, List.takeWhile_cons_of_neg (by simpa using hb),
        List.dropWhile_cons_of_neg (by simpa using hb), if_neg (by decide), ← List.cons_append,
        List.takeWhile_append_of_pos hall, List.takeWhile_cons_of_neg (by simp), List.append_nil]

theorem commandText_ne_zero (l : List UInt8) : ∀ b ∈ commandText l, b ≠ 0 := by
  intro b hb
  unfold commandText at hb
  split at hb
  · cases hb
  · have := List.mem_takeWhile_imp (p := fun b : UInt8 => decide (b ≠ 0)) hb
    simpa using this

theorem head_ne_space {c t : List UInt8} {b : UInt8} (h : c.dropWhile (· = 32) = b :: t) :
    b ≠ 32 := by
  intro hb
  have hnot := List.head?_dropWhile_not (fun b : UInt8 => decide (b = 32)) c
  rw [h] at hnot
  simp [hb] at hnot

/-- A name is empty if the first character after the spaces ends it. -/
theorem commandName_eq_nil_iff (c : List UInt8) :
    commandName c = [] ↔ (c.dropWhile (· = 32)).headD 0 = 0 ∨
      (c.dropWhile (· = 32)).headD 0 = 10 := by
  unfold commandName
  cases hcs : c.dropWhile (· = 32) with
  | nil => exact ⟨fun _ => Or.inl rfl, fun _ => rfl⟩
  | cons b t =>
      have hspace : b ≠ 32 := head_ne_space hcs
      show (b :: t).takeWhile nameChar = [] ↔ b = 0 ∨ b = 10
      by_cases hb : nameChar b = true
      · rw [List.takeWhile_cons_of_pos hb]
        refine iff_of_false (by simp) fun h => ?_
        rcases h with rfl | rfl <;> exact absurd hb (by decide)
      · rw [List.takeWhile_cons_of_neg hb]
        refine iff_of_true rfl ?_
        by_contra hnot
        rw [not_or] at hnot
        exact hb (by simp [nameChar, hspace, hnot.1, hnot.2])

/-- **Parsing is a function of the text.** -/
theorem executeParseArgs_eq (l : List UInt8) :
    executeParseArgs (some l) =
      if commandName (commandText l) = [] then .bad
      else .ok ((commandName (commandText l)).take FILENAME_LEN) (commandArg (commandText l)) := by
  have himp : ∀ b : UInt8, decide (b = 32) = true → decide (b ≠ 0) = true := by
    intro b hb
    rw [of_decide_eq_true hb]
    decide
  have hname : ∀ b : UInt8, nameChar b = true → decide (b ≠ 0) = true := by
    intro b hb
    unfold nameChar at hb
    simp only [Bool.and_eq_true] at hb
    exact hb.1.2
  unfold executeParseArgs
  dsimp only
  by_cases hlong : (l.takeWhile (· = 0)).length ≥ KEYBOARD_BUFFER_SIZE
  · have htext : commandText l = [] := if_pos hlong
    rw [if_pos hlong, htext, if_pos (show commandName [] = [] from rfl)]
  · have htext : commandText l = (l.dropWhile (· = 0)).takeWhile (· ≠ 0) := if_neg hlong
    have hspaces : (commandText l).dropWhile (· = 32)
        = ((l.dropWhile (· = 0)).dropWhile (· = 32)).takeWhile (· ≠ 0) := by
      rw [htext, dropWhile_takeWhile_of_imp himp]
    rw [if_neg hlong]
    -- The scans stop at a NUL, so that they do not see where the text was cut.
    have hnil := commandName_eq_nil_iff (commandText l)
    rw [hspaces] at hnil
    have hnameEq : commandName (commandText l)
        = ((l.dropWhile (· = 0)).dropWhile (· = 32)).takeWhile nameChar := by
      unfold commandName
      rw [hspaces, takeWhile_takeWhile_of_imp hname]
    have hargEq : commandArg (commandText l)
        = ((((l.dropWhile (· = 0)).dropWhile (· = 32)).dropWhile nameChar).dropWhile
            (· = 32)).takeWhile (· ≠ 0) := by
      unfold commandArg
      rw [hspaces, dropWhile_takeWhile_of_imp hname, dropWhile_takeWhile_of_imp himp]
    rw [hnameEq] at hnil ⊢
    rw [hargEq]
    generalize (l.dropWhile (· = 0)).dropWhile (· = 32) = cs at *
    rw [headD_takeWhile] at hnil
    by_cases hbad : cs.headD 0 = 0 ∨ cs.headD 0 = 10
    · rw [if_pos hbad, if_pos (hnil.mpr hbad)]
    · rw [if_neg hbad, if_neg fun h => hbad (hnil.mp h)]

/-! ## The buffers -/

/-- All stores are inside the two buffers, and each buffer has a NUL afterwards, so that `strlen`
on it stops inside. -/
structure ParseRun.Safe (run : ParseRun) : Prop where
  name_index : ∀ s ∈ run.progName, s.1 < FILENAME_LEN
  arg_index : ∀ s ∈ run.arg, s.1 < KEYBOARD_BUFFER_SIZE
  name_nul : ∃ i < FILENAME_LEN, buffer run.progName i = 0
  arg_nul : ∃ i < KEYBOARD_BUFFER_SIZE, buffer run.arg i = 0
  name_strlen : ∃ n < FILENAME_LEN, scanWhile (· ≠ 0) (buffer run.progName) FILENAME_LEN 0 = some n
  arg_strlen : ∃ n < KEYBOARD_BUFFER_SIZE,
    scanWhile (· ≠ 0) (buffer run.arg) KEYBOARD_BUFFER_SIZE 0 = some n

/-- The loop of `strlen` ends inside a buffer of `n` bytes that has a NUL. -/
theorem strlen_stops {m : Mem} {n : Nat} (h : ∃ i < n, m i = 0) :
    ∃ j < n, scanWhile (· ≠ 0) m n 0 = some j := by
  obtain ⟨i, hi, hz⟩ := h
  obtain ⟨j, hj, hscan⟩ := scanWhile_of_stop (p := fun b : UInt8 => decide (b ≠ 0)) (m := m)
    (n := n) (by simpa using hz) (Nat.zero_le i) (by omega)
  exact ⟨j, by omega, hscan⟩

/-- Strings without NULs that are copied into the two buffers are safe there exactly if both are
shorter than their buffer. -/
theorem safe_stores_iff {ret : Int} {name arg : List UInt8} (hname : ∀ b ∈ name, b ≠ 0)
    (harg : ∀ b ∈ arg, b ≠ 0) :
    (ParseRun.mk ret (storesFrom 0 name) (storesFrom 0 arg)).Safe ↔
      name.length < FILENAME_LEN ∧ arg.length < KEYBOARD_BUFFER_SIZE := by
  constructor
  · intro hsafe
    have hn := hsafe.name_nul
    have ha := hsafe.arg_nul
    rw [buffer_storesFrom] at hn ha
    exact ⟨(exists_nul_iff hname).mp hn, (exists_nul_iff harg).mp ha⟩
  · intro h
    have hn : ∃ i < FILENAME_LEN, buffer (storesFrom 0 name) i = 0 := by
      rw [buffer_storesFrom]
      exact (exists_nul_iff hname).mpr h.1
    have ha : ∃ i < KEYBOARD_BUFFER_SIZE, buffer (storesFrom 0 arg) i = 0 := by
      rw [buffer_storesFrom]
      exact (exists_nul_iff harg).mpr h.2
    exact
      { name_index := storesFrom_lt_iff.mpr (Nat.le_of_lt h.1)
        arg_index := storesFrom_lt_iff.mpr (Nat.le_of_lt h.2)
        name_nul := hn
        arg_nul := ha
        name_strlen := strlen_stops hn
        arg_strlen := strlen_stops ha }

theorem commandName_subset (c : List UInt8) : ∀ b ∈ commandName c, b ∈ c := by
  intro b hb
  exact (List.dropWhile_suffix _).subset ((List.takeWhile_prefix _).subset hb)

theorem commandArg_subset (c : List UInt8) : ∀ b ∈ commandArg c, b ∈ c := by
  intro b hb
  exact (List.dropWhile_suffix _).subset
    ((List.dropWhile_suffix _).subset ((List.dropWhile_suffix _).subset hb))

/-- **The parser stays in its buffers exactly for the commands without a name and those whose
name and argument are shorter than the buffers**; `l` are the bytes from `command` on. A name of
32 characters fills `prog_name` without a terminator. -/
theorem parse_safe_iff (l : List UInt8) :
    (∃ fuel run, parseArgs fuel (some (ofList l)) = some run ∧ run.Safe) ↔
      commandName (commandText l) = [] ∨
        ((commandName (commandText l)).length < FILENAME_LEN ∧
          (commandArg (commandText l)).length < KEYBOARD_BUFFER_SIZE) := by
  have hrun : (∃ fuel run, parseArgs fuel (some (ofList l)) = some run ∧ run.Safe) ↔
      (executeParseArgs (some l)).run.Safe := by
    constructor
    · rintro ⟨fuel, run, hrun, hsafe⟩
      rw [← parseArgs_unique hrun]
      exact hsafe
    · intro hsafe
      exact ⟨_, _, parseArgs_eq l (Nat.lt_succ_self _), hsafe⟩
  rw [hrun, executeParseArgs_eq]
  have hzero := commandText_ne_zero l
  generalize commandText l = t at *
  by_cases hnil : commandName t = []
  · rw [if_pos hnil]
    -- nothing is stored
    refine iff_of_true ?_ (Or.inl hnil)
    exact (@safe_stores_iff (-1) [] [] (by simp) (by simp)).mpr (by decide)
  · rw [if_neg hnil, or_iff_right hnil]
    have hname : ∀ b ∈ commandName t, b ≠ 0 := fun b hb => hzero b (commandName_subset t b hb)
    have harg : ∀ b ∈ commandArg t, b ≠ 0 := fun b hb => hzero b (commandArg_subset t b hb)
    refine (safe_stores_iff (fun b hb => hname b (List.mem_of_mem_take hb)) harg).trans ?_
    have hcut : ((commandName t).take FILENAME_LEN).length < FILENAME_LEN ↔
        (commandName t).length < FILENAME_LEN := by
      rw [List.length_take]
      omega
    rw [hcut]

/-- A name of 32 characters: the buffer has no terminator. -/
theorem long_name_not_safe :
    ¬ ∃ fuel run, parseArgs fuel (some (ofList (List.replicate 32 97 ++ [0]))) = some run ∧
      run.Safe := by
  rintro ⟨fuel, run, hrun, hsafe⟩
  have hparse : (executeParseArgs (some (List.replicate 32 97 ++ [0]))).run
      = ParseRun.mk (-2) (storesFrom 0 (List.replicate 32 97)) (storesFrom 0 []) := by decide
  rw [parseArgs_unique hrun, hparse] at hsafe
  have hlt := ((safe_stores_iff (by simp) (by simp)).mp hsafe).1
  exact absurd hlt (by decide)

/-! ## The split of a command -/

/-- The command as leading spaces, program name and rest; the name is the maximal run of
characters other than space and newline behind the spaces. -/
structure CommandSplit (c spaces name rest : List UInt8) : Prop where
  parts : c = spaces ++ (name ++ rest)
  only_spaces : ∀ b ∈ spaces, b = 32
  name_chars : ∀ b ∈ name, b ≠ 32 ∧ b ≠ 10
  maximal : ∀ b t, rest = b :: t → b = 10 ∨ (b = 32 ∧ name ≠ [])

/-- What the parser does for a name and an argument. -/
def splitRun (name arg : List UInt8) : ParseRun :=
  if name = [] then ⟨-1, [], []⟩
  else ⟨if arg = [] then -2 else 0, storesFrom 0 (name.take FILENAME_LEN), storesFrom 0 arg⟩

theorem nameChar_iff (b : UInt8) : nameChar b = true ↔ b ≠ 32 ∧ b ≠ 0 ∧ b ≠ 10 := by
  unfold nameChar
  simp only [Bool.and_eq_true, decide_eq_true_eq, and_assoc]

/-- `commandName` is the name of the split. -/
theorem commandSplit {c : List UInt8} (hc : ∀ b ∈ c, b ≠ 0) :
    CommandSplit c (c.takeWhile (· = 32)) (commandName c)
      ((c.dropWhile (· = 32)).dropWhile nameChar) where
  parts := by
    unfold commandName
    rw [List.takeWhile_append_dropWhile, List.takeWhile_append_dropWhile]
  only_spaces := by
    intro b hb
    simpa using List.mem_takeWhile_imp hb
  name_chars := by
    intro b hb
    have := (nameChar_iff b).mp (List.mem_takeWhile_imp hb)
    exact ⟨this.1, this.2.2⟩
  maximal := by
    intro b t hrest
    have hstop : ¬ nameChar b = true := by
      have hnot := List.head?_dropWhile_not nameChar (c.dropWhile (· = 32))
      rw [hrest] at hnot
      simpa using hnot
    have hmem : b ∈ (c.dropWhile (· = 32)).dropWhile nameChar := by
      rw [hrest]
      exact List.mem_cons_self
    have hzero : b ≠ 0 :=
      hc b ((List.dropWhile_suffix _).subset ((List.dropWhile_suffix _).subset hmem))
    by_cases hspace : b = 32
    · refine Or.inr ⟨hspace, fun hnil => ?_⟩
      -- without a name the spaces would go on
      have hcs : c.dropWhile (· = 32) = b :: t := by
        have hparts := List.takeWhile_append_dropWhile (p := nameChar) (l := c.dropWhile (· = 32))
        unfold commandName at hnil
        rw [hnil, hrest] at hparts
        exact hparts.symm
      exact head_ne_space hcs hspace
    · refine Or.inl ?_
      by_contra hnl
      exact hstop ((nameChar_iff b).mpr ⟨hspace, hzero, hnl⟩)

/-- Whatever the bytes from `command` on, if they have this text they are parsed by its split. -/
theorem parseArgs_of_text {l t : List UInt8} (h : commandText l = t) :
    ∃ fuel, parseArgs fuel (some (ofList l)) = some (splitRun (commandName t) (commandArg t)) := by
  refine ⟨_, (parseArgs_eq l (Nat.lt_succ_self _)).trans (congrArg some ?_)⟩
  rw [executeParseArgs_eq, h]
  unfold splitRun
  by_cases hnil : commandName t = []
  · rw [if_pos hnil, if_pos hnil]
    rfl
  · rw [if_neg hnil, if_neg hnil]
    rfl

/-- **Parsing is a function of the command string**, unless this is empty: then of the string
that begins at the first byte that is not NUL. `rest` are the bytes behind the terminator. -/
theorem parse_splits {c : List UInt8} (hc : ∀ b ∈ c, b ≠ 0) :
    (c ≠ [] → ∃ spaces name tail, CommandSplit c spaces name tail ∧ ∀ rest, ∃ fuel,
        parseArgs fuel (some (ofList (c ++ 0 :: rest)))
          = some (splitRun name (tail.dropWhile (· = 32)))) ∧
      (c = [] → ∀ rest, ∃ spaces name tail,
        CommandSplit (commandText (0 :: rest)) spaces name tail ∧ ∃ fuel,
          parseArgs fuel (some (ofList (0 :: rest)))
            = some (splitRun name (tail.dropWhile (· = 32)))) := by
  constructor
  · intro hne
    exact ⟨_, _, _, commandSplit hc, fun rest => parseArgs_of_text (commandText_eq hne hc rest)⟩
  · intro _ rest
    exact ⟨_, _, _, commandSplit (commandText_ne_zero _), parseArgs_of_text rfl⟩

/-- The command `ls -l` with anything behind its terminator. -/
theorem parse_splits_ls :
    ∃ spaces name tail, CommandSplit [108, 115, 32, 45, 108] spaces name tail ∧
      ∀ rest, ∃ fuel, parseArgs fuel (some (ofList ([108, 115, 32, 45, 108] ++ 0 :: rest)))
        = some (splitRun name (tail.dropWhile (· = 32))) :=
  (parse_splits (c := [108, 115, 32, 45, 108]) (by simp)).1 (by simp)

/-- The empty command with an `a` behind its terminator: not -1, the name is `a`. -/
theorem empty_command_not_refused :
    ¬ ∀ c rest : List UInt8, c.length ≤ 127 → (∀ b ∈ c, b ≠ 0) →
      ∃ spaces name tail, CommandSplit c spaces name tail ∧ ∃ fuel,
        parseArgs fuel (some (ofList (c ++ 0 :: rest)))
          = some (splitRun name (tail.dropWhile (· = 32))) := by
  intro h
  obtain ⟨spaces, name, tail, hsplit, fuel, hparse⟩ := h [] [97] (by decide) (by simp)
  have hname : name = [] := by
    have hparts := hsplit.parts
    rw [eq_comm, List.append_eq_nil_iff, List.append_eq_nil_iff] at hparts
    exact hparts.2.1
  have hrun := parseArgs_unique hparse
  rw [hname] at hrun
  have hbad : (splitRun [] (tail.dropWhile (· = 32))).ret = -1 := rfl
  rw [hrun] at hbad
  exact absurd hbad (by decide)

end Ext2Kernel
