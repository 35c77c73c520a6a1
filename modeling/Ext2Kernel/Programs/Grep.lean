import Ext2Kernel.Basic.Lines
import Ext2Kernel.Programs.Sources
import Ext2Kernel.Programs.Support

set_option autoImplicit false

/-! # `grep`

`do_one_file` of `ece391grep.c` prints the lines of a file that contain a string. The file is
read through the buffer `data`: each time round, the rest of a line that the buffer cuts is moved
to the start, and the file is read on behind it. `doOneFile_prints` says that the program prints
the matching lines and no others, if no line is longer than the buffer.
-/

namespace Ext2Kernel

namespace Programs

open ByteMem Kernel Lines

/-- The line feed. -/
def LF : UInt8 := 10

/-! ## The program -/

/-- The variables of `do_one_file` that live over a read. -/
structure GrepState where
  data : Mem
  last : Nat

/-- The arguments: the string to search for and the name of the file, in memory. -/
structure GrepArgs where
  s : Mem
  fname : Mem

/-- `while (line_end < last && '\n' != data[line_end]) line_end++`. -/
def scanLine (data : Mem) (last : Nat) : Nat → Nat → Nat
  | 0, lineEnd => lineEnd
  | n + 1, lineEnd =>
      if lineEnd < last ∧ LF ≠ data lineEnd then scanLine data last n (lineEnd + 1) else lineEnd

/-- The loop over `check` from `line_start` to `line_end`. -/
def searchLine (args : GrepArgs) (sLen : Nat) (data : Mem) (lineStart lineEnd : Nat) : Bool :=
  (List.range' lineStart (lineEnd - lineStart)).any fun check =>
    args.s 0 = data check ∧ ece391Strncmp data check args.s 0 sLen = 0

/-- The four writes for a line that has been found. -/
def printLine (rounds : Nat) (args : GrepArgs) (data : Mem) (lineStart : Nat) :
    Option (List (List UInt8)) :=
  (ece391Fdputs rounds args.fname 0).bind fun name =>
    (ece391Fdputs rounds data lineStart).map fun line => [name, ascii ":", line, ascii "\n"]

/-- The inner `while (1)`, from `line_start` on: the lines of the buffer, with the writes. -/
def grepLines (rounds : Nat) (args : GrepArgs) (sLen cnt : Nat) :
    Nat → GrepState → Nat → Option (GrepState × List (List UInt8))
  | 0, _, _ => none
  | n + 1, st, lineStart =>
      let lineEnd := scanLine st.data st.last (st.last - lineStart) lineStart
      let data := Function.update st.data lineEnd 0
      if LF ≠ st.data lineEnd ∧ cnt ≠ 0 ∧ lineStart ≠ 0 then
        (ece391Strcpy rounds data 0 lineStart).map fun data => (⟨data, st.last - lineStart⟩, [])
      else
        (if searchLine args sLen data lineStart lineEnd then printLine rounds args data lineStart
          else some []).bind fun out =>
        if lineEnd + 1 ≥ st.last then some (⟨data, 0⟩, out)
        else (grepLines rounds args sLen cnt n ⟨data, st.last⟩ (lineEnd + 1)).map fun r =>
          (r.1, out ++ r.2)

/-- A round of the outer `while (1)`: it reads `BUFSIZE - last` bytes, and ends when there are
none. -/
def grepFilter (rounds : Nat) (args : GrepArgs) (sLen : Nat) :
    StreamFilter UInt8 (List UInt8) GrepState where
  want st := BUFSIZE - st.last
  next st bytes :=
    (grepLines rounds args sLen bytes.length (BUFSIZE + 1)
      ⟨overlay st.data st.last bytes.length (ofList bytes), st.last + bytes.length⟩ 0).map fun r =>
        (r.2, if bytes.length = 0 then none else some r.1)

/-- `do_one_file`; `data` is what its buffer holds at first. -/
def doOneFile (rounds : Nat) (args : GrepArgs) (sLen : Nat) (data : Mem) :
    FilterProgram GrepState where
  filter := grepFilter rounds args sLen
  first := ⟨data, 0⟩
  openFails := (ascii "file open failed\n", -1)
  readFails := (ascii "file read failed\n", -1)
  writeFails := none
  closeFails := some (ascii "file close failed\n", -1)

/-! ## The lines of the buffer -/

/-- The arguments hold a string that is not empty, and a name. -/
structure GrepArgs.Hold (args : GrepArgs) (S name : List UInt8) : Prop where
  string : IsString args.s 0 S
  nonempty : S ≠ []
  name : IsString args.fname 0 name

/-- The bytes of `X` are in memory from `a` on. -/
def Lies (m : Mem) (a : Nat) (X : List UInt8) : Prop := ∀ i < X.length, m (a + i) = ofList X i

/-- A NUL may only be the last byte. -/
def NulLast (X : List UInt8) : Prop := ∀ b ∈ X.dropLast, b ≠ 0

/-- What is written for a line, by its bytes up to a NUL. -/
def matching (S name line : List UInt8) : List (List UInt8) :=
  if S <:+: line.takeWhile (· ≠ 0) then
    [name, ascii ":", line.takeWhile (· ≠ 0), ascii "\n"]
  else []

/-- What is written for the lines of a text. -/
def grepped (S name X : List UInt8) : List (List UInt8) := eachLine (· == LF) (matching S name) X

section

variable {m : Mem} {a last : Nat} {X : List UInt8}

theorem Lies.tail {b : UInt8} (h : Lies m a (b :: X)) : m a = b ∧ Lies m (a + 1) X := by
  refine ⟨h 0 (Nat.succ_pos _), fun i hi => ?_⟩
  rw [Nat.add_assoc, Nat.add_comm 1 i]
  exact h (i + 1) (Nat.succ_lt_succ hi)

theorem scanLine_eq (h : Lies m a X) (hlast : last = a + X.length) :
    scanLine m last X.length a = a + (X.takeWhile (· ≠ LF)).length := by
  induction X generalizing a with
  | nil => rfl
  | cons b X ih =>
      obtain ⟨hb, htail⟩ := h.tail
      rw [List.length_cons] at hlast ⊢
      unfold scanLine
      rw [hb]
      by_cases hlf : b = LF
      · rw [if_neg (fun hc => hc.2 hlf.symm), List.takeWhile_cons_of_neg (by simpa using hlf)]
        rfl
      · rw [if_pos ⟨by omega, fun hc => hlf hc.symm⟩, ih htail (by omega),
          List.takeWhile_cons_of_pos (by simpa using hlf), List.length_cons]
        omega

theorem NulLast.tail {b : UInt8} (h : NulLast (b :: X)) : NulLast X := by
  intro c hc
  cases X with
  | nil => cases hc
  | cons d X => exact h c (List.mem_cons_of_mem b hc)

/-- Such bytes are those of a string, with or without its NUL. -/
theorem NulLast.cases (h : NulLast X) :
    X = X.takeWhile (· ≠ 0) ∨ X = X.takeWhile (· ≠ 0) ++ [0] := by
  induction X with
  | nil => exact Or.inl rfl
  | cons b X ih =>
      by_cases hb : b = 0
      · -- a NUL is the last byte
        have hnil : X = [] := by
          cases X with
          | nil => rfl
          | cons c X => exact absurd hb (h b List.mem_cons_self)
        rw [hnil, hb]
        exact Or.inr rfl
      · rw [List.takeWhile_cons_of_pos (by simpa using hb)]
        rcases ih h.tail with heq | heq
        · exact Or.inl (congrArg (b :: ·) heq)
        · exact Or.inr (congrArg (b :: ·) heq)

/-- The bytes of a line with a NUL behind them are a string. -/
theorem NulLast.isString (hX : NulLast X) (h : Lies m a X) (hend : m (a + X.length) = 0) :
    IsString m a (X.takeWhile (· ≠ 0)) := by
  have hnonzero : ∀ b ∈ X.takeWhile (· ≠ 0), b ≠ 0 := fun b hb => by
    simpa using List.mem_takeWhile_imp hb
  refine ⟨fun i hi => ?_, hnonzero⟩
  have hcases := hX.cases
  generalize X.takeWhile (· ≠ 0) = l at hcases hi
  rcases hcases with rfl | rfl
  · by_cases hlast : i = X.length
    · rw [hlast, hend, ofList_length]
    · exact h i (by omega)
  · rw [← ofList_append_nul]
    refine h i ?_
    rw [List.length_append]
    exact Nat.lt_succ_of_le hi

theorem NulLast.length (hX : NulLast X) : (X.takeWhile (· ≠ 0)).length ≤ X.length ∧
    X.length ≤ (X.takeWhile (· ≠ 0)).length + 1 := by
  refine ⟨(List.takeWhile_sublist _).length_le, ?_⟩
  rcases hX.cases with heq | heq
  · exact Nat.le_succ_of_le (Nat.le_of_eq (congrArg List.length heq))
  · have hlen := congrArg List.length heq
    rw [List.length_append] at hlen
    exact Nat.le_of_eq hlen

/-! ## The search -/

/-- **The search in a line** finds a string that is not empty exactly if the line holds it. -/
theorem searchLine_iff {args : GrepArgs} {S l : List UInt8} {lineEnd : Nat}
    (hS : IsString args.s 0 S) (hne : S ≠ []) (hl : IsString m a l)
    (hlow : a + l.length ≤ lineEnd) (hhigh : lineEnd ≤ a + l.length + 1) :
    searchLine args S.length m a lineEnd = true ↔ S <:+: l := by
  have hpos : 0 < S.length := List.length_pos_iff.mpr hne
  unfold searchLine
  rw [List.any_eq_true]
  constructor
  · rintro ⟨check, hcheck, hfound⟩
    rw [decide_eq_true_eq] at hfound
    obtain ⟨_, hcmp⟩ := hfound
    have hbytes := (ece391Strncmp_eq_zero_iff hS).mp hcmp
    obtain ⟨j, hj, rfl⟩ := List.mem_range'.mp hcheck
    -- the string does not run over the NUL of the line
    have hfits : j + S.length ≤ l.length := by
      by_contra hover
      have hnul : m (a + l.length) = 0 := hl.nul
      have hplace : a + 1 * j + (l.length - j) = a + l.length := by omega
      have hbyte := hbytes (l.length - j) (by omega)
      rw [hplace, hnul, ofList_of_lt (by omega)] at hbyte
      exact hS.nonzero _ (List.getElem_mem _) hbyte.symm
    refine ⟨l.take j, l.drop (j + S.length), ?_⟩
    have hmid : (l.drop j).take S.length = S := by
      apply List.ext_getElem
      · rw [List.length_take, List.length_drop]
        omega
      · intro i hi hi'
        have hbyte := hbytes i hi'
        rw [show a + 1 * j + i = a + (j + i) by omega, hl.bytes _ (by omega),
          ofList_of_lt (by omega), ofList_of_lt hi'] at hbyte
        rw [List.getElem_take, List.getElem_drop]
        exact hbyte
    calc l.take j ++ S ++ l.drop (j + S.length)
        = l.take j ++ ((l.drop j).take S.length ++ (l.drop j).drop S.length) := by
          rw [hmid, List.drop_drop, List.append_assoc]
      _ = l := by rw [List.take_append_drop, List.take_append_drop]
  · rintro ⟨pre, post, rfl⟩
    have hlen : (pre ++ S ++ post).length = pre.length + S.length + post.length := by
      rw [List.length_append, List.length_append]
    have hbytes : ∀ i < S.length, m (a + pre.length + i) = ofList S i := by
      intro i hi
      rw [Nat.add_assoc, hl.bytes _ (by omega), List.append_assoc, ofList_append_right,
        ofList_append_left post hi]
    refine ⟨a + pre.length, List.mem_range'.mpr ⟨pre.length, by omega, by omega⟩, ?_⟩
    rw [decide_eq_true_eq]
    refine ⟨?_, (ece391Strncmp_eq_zero_iff hS).mpr hbytes⟩
    rw [← Nat.add_zero (a + pre.length), hbytes 0 hpos]
    exact hS.bytes 0 (Nat.zero_le _)

/-! ## The lines of the buffer, one after the other -/

variable {args : GrepArgs} {S name : List UInt8} {rounds : Nat}

/-- What is printed for one line. -/
theorem lineOutput_eq (hargs : args.Hold S name) (hname : name.length < rounds)
    (hrounds : X.length < rounds) (hX : NulLast X) (h : Lies m a X) (hend : m (a + X.length) = 0) :
    (if searchLine args S.length m a (a + X.length) then printLine rounds args m a else some [])
      = some (matching S name X) := by
  have hl := hX.isString h hend
  obtain ⟨hlow, hhigh⟩ := hX.length
  have hiff : searchLine args S.length m a (a + X.length) = true ↔ _ :=
    searchLine_iff hargs.string hargs.nonempty hl (by omega) (by omega)
  unfold matching
  by_cases hfound : S <:+: X.takeWhile (· ≠ 0)
  · rw [if_pos (hiff.mpr hfound), if_pos hfound]
    unfold printLine
    rw [ece391Fdputs_eq hargs.name hname, ece391Fdputs_eq hl (by omega)]
    rfl
  · rw [if_neg (mt hiff.mp hfound), if_neg hfound]

theorem grepped_nil (hne : S ≠ []) : grepped S name [] = [] := by
  unfold grepped
  rw [eachLine_single fun a ha => absurd ha List.not_mem_nil]
  unfold matching
  rw [if_neg]
  intro h
  exact hne (List.infix_nil.mp h)

/-- What the inner loop leaves of the bytes `X` from `line_start` on, when `rest` is still to be
read: the bytes `carry` of a cut line, at the start of the buffer. -/
structure LinesDone (S name : List UInt8) (cnt start : Nat) (st : GrepState) (X : List UInt8)
    (st' : GrepState) (out : List (List UInt8)) (carry : List UInt8) : Prop where
  last : st'.last = carry.length
  data : Lies st'.data 0 carry
  beyond : st'.data BUFSIZE = st.data BUFSIZE ∨ st'.data BUFSIZE = 0
  suffix : carry <:+ X
  short : carry.length < BUFSIZE
  atEnd : cnt = 0 → carry = []
  output : ∀ rest, (rest ≠ [] → cnt ≠ 0 ∧ st.data st.last ≠ LF ∧ (start ≠ 0 ∨ LF ∈ X)) →
    grepped S name (X ++ rest) = out ++ grepped S name (carry ++ rest)

/-- Bytes without a line feed that are moved to the start of the buffer. -/
theorem linesDone_carried (S name : List UInt8) {cnt start : Nat} {st : GrepState}
    (hlast : st.last = start + X.length) (hsize : st.last ≤ BUFSIZE) (hX : Lies st.data start X)
    (hnul : NulLast X)
    (hrounds : BUFSIZE < rounds) (hcnt : cnt ≠ 0) (hstart : start ≠ 0) :
    ∃ data, ece391Strcpy rounds (Function.update st.data st.last 0) 0 start = some data ∧
      LinesDone S name cnt start st X ⟨data, st.last - start⟩ [] X := by
  have hlies : Lies (Function.update st.data st.last 0) start X := by
    intro i hi
    rw [Function.update_of_ne (by omega)]
    exact hX i hi
  have hend : Function.update st.data st.last 0 (start + X.length) = 0 := by
    rw [hlast, Function.update_self]
  have hl := hnul.isString hlies hend
  have hlength := hnul.length
  have hcases := hnul.cases
  generalize X.takeWhile (· ≠ 0) = l at hl hlength hcases
  refine ⟨_, ece391Strcpy_eq hl (Nat.zero_le _) (by omega), ?_⟩
  constructor
  · dsimp only
    omega
  · intro i hi
    have hsame : ofList X i = ofList l i := by
      rcases hcases with rfl | rfl
      · rfl
      · rw [ofList_append_nul]
    dsimp only
    rw [hsame, overlay_add _ _ (by omega)]
  · dsimp only
    rw [overlay_out _ _ (by omega)]
    by_cases hfull : st.last = BUFSIZE
    · rw [hfull, Function.update_self]
      exact Or.inr rfl
    · rw [Function.update_of_ne (by omega)]
      exact Or.inl rfl
  · exact List.suffix_refl X
  · omega
  · exact fun h => absurd h hcnt
  · intro rest _
    rfl

/-- Bytes without a line feed that are taken for a line. -/
theorem linesDone_last (hargs : args.Hold S name) {cnt start : Nat} {st : GrepState}
    {data : Mem} (hone : ∀ a ∈ X, (a == LF) = false)
    (hbeyond : data BUFSIZE = st.data BUFSIZE ∨ data BUFSIZE = 0)
    (hcond : ¬(LF ≠ st.data st.last ∧ cnt ≠ 0 ∧ start ≠ 0)) :
    LinesDone S name cnt start st X
      ⟨data, 0⟩ (matching S name X) [] := by
  constructor
  · rfl
  · exact fun i hi => absurd hi (Nat.not_lt_zero i)
  · exact hbeyond
  · exact List.nil_suffix
  · exact Nat.succ_pos _
  · exact fun _ => rfl
  · intro rest hrest
    have hnil : rest = [] := by
      by_contra hne
      obtain ⟨hcnt, hlf, hmore⟩ := hrest hne
      have hstart : start ≠ 0 := by
        refine hmore.resolve_right fun hmem => ?_
        have hno := hone LF hmem
        rw [beq_self_eq_true] at hno
        cases hno
      exact hcond ⟨hlf.symm, hcnt, hstart⟩
    rw [hnil, List.append_nil, List.nil_append, grepped_nil hargs.nonempty, List.append_nil]
    exact eachLine_single hone

/-- A buffer that ends with a line. -/
theorem linesDone_nil (S name : List UInt8) (cnt start : Nat) (st : GrepState) :
    LinesDone S name cnt start st [] ⟨st.data, 0⟩ [] [] := by
  constructor
  · rfl
  · exact fun i hi => absurd hi (Nat.not_lt_zero i)
  · exact Or.inl rfl
  · exact List.suffix_refl []
  · exact Nat.succ_pos _
  · exact fun _ => rfl
  · exact fun rest _ => rfl

/-- The first line of the bytes, with what comes of the others. -/
theorem LinesDone.cons {cnt start next : Nat} {st st₁ st' : GrepState}
    {line X' carry : List UInt8} {out : List (List UInt8)}
    (h : LinesDone S name cnt next st₁ X' st' out carry)
    (hline : ∀ a ∈ line, (a == LF) = false)
    (hbeyond : st₁.data BUFSIZE = st.data BUFSIZE ∨ st₁.data BUFSIZE = 0)
    (hnext : next ≠ 0) (hlast : st₁.data st₁.last = st.data st.last) :
    LinesDone S name cnt start st (line ++ LF :: X') st' (matching S name line ++ out) carry := by
  constructor
  · exact h.last
  · exact h.data
  · rcases h.beyond with heq | hzero
    · rw [heq]
      exact hbeyond
    · exact Or.inr hzero
  · exact h.suffix.trans ((List.suffix_cons LF X').trans (List.suffix_append line _))
  · exact h.short
  · exact h.atEnd
  · intro rest hrest
    have hout := h.output rest fun hne => by
      obtain ⟨hcnt, hlf, _⟩ := hrest hne
      exact ⟨hcnt, by rw [hlast]; exact hlf, Or.inl hnext⟩
    rw [List.append_assoc, List.append_assoc, ← hout]
    exact eachLine_append_cons hline (beq_self_eq_true LF) (X' ++ rest)

/-- **The inner loop.** By induction on its rounds, with the line that starts at `line_start`. -/
theorem grepLines_done (hargs : args.Hold S name) (hname : name.length < rounds)
    (hrounds : BUFSIZE < rounds) (cnt : Nat) : ∀ (n start : Nat) (st : GrepState)
    (X : List UInt8), X.length < n → st.last = start + X.length → st.last ≤ BUFSIZE →
      Lies st.data start X → NulLast X → ∃ st' out carry,
        grepLines rounds args S.length cnt n st start = some (st', out) ∧
          LinesDone S name cnt start st X st' out carry := by
  intro n
  induction n with
  | zero => exact fun _ _ X hn => absurd hn (Nat.not_lt_zero _)
  | succ n ih =>
      intro start st X hn hlast hsize hX hnul
      have hscan : scanLine st.data st.last (st.last - start) start
          = start + (X.takeWhile (· ≠ LF)).length := by
        rw [show st.last - start = X.length by omega]
        exact scanLine_eq hX hlast
      unfold grepLines
      dsimp only
      rw [hscan]
      rcases line_or_lines (p := (· == LF)) X with hone | ⟨line, sep, X', rfl, hsep, hline⟩
      · -- the last bytes of the buffer
        have hall : X.takeWhile (· ≠ LF) = X := by
          rw [List.takeWhile_eq_self_iff]
          intro b hb
          simpa using hone b hb
        rw [hall, ← hlast]
        by_cases hcond : LF ≠ st.data st.last ∧ cnt ≠ 0 ∧ start ≠ 0
        · obtain ⟨data, hcopy, hdone⟩ := linesDone_carried S name hlast hsize hX hnul hrounds
            hcond.2.1 hcond.2.2
          rw [if_pos hcond, hcopy, Option.map_some]
          exact ⟨_, [], X, rfl, hdone⟩
        · have hlies : Lies (Function.update st.data st.last 0) start X := by
            intro i hi
            rw [Function.update_of_ne (by omega)]
            exact hX i hi
          have hend : Function.update st.data st.last 0 (start + X.length) = 0 := by
            rw [hlast, Function.update_self]
          have hline := lineOutput_eq hargs hname (by omega) hnul hlies hend
          rw [← hlast] at hline
          rw [if_neg hcond, hline, Option.bind_some, if_pos (Nat.le_succ _)]
          refine ⟨_, _, [], rfl, linesDone_last hargs hone ?_ hcond⟩
          by_cases hfull : st.last = BUFSIZE
          · rw [hfull, Function.update_self]
            exact Or.inr rfl
          · rw [Function.update_of_ne (by omega)]
            exact Or.inl rfl
      · -- a line that ends in the buffer
        obtain rfl : sep = LF := by simpa using hsep
        have hfirst : (line ++ LF :: X').takeWhile (· ≠ LF) = line := by
          rw [List.takeWhile_append_of_pos fun b hb => by simpa using hline b hb,
            List.takeWhile_cons_of_neg (by simp), List.append_nil]
        have hlen : (line ++ LF :: X').length = line.length + 1 + X'.length := by
          rw [List.length_append, List.length_cons]
          omega
        have hlf : st.data (start + line.length) = LF := by
          rw [hX _ (by omega), ← Nat.add_zero line.length, ofList_append_right]
          rfl
        have hlies : Lies (Function.update st.data (start + line.length) 0) start line := by
          intro i hi
          rw [Function.update_of_ne (by omega), hX i (by omega), ofList_append_left _ hi]
        have hnonzero : NulLast line := by
          intro b hb
          refine hnul b ?_
          rw [List.dropLast_append_of_ne_nil (List.cons_ne_nil LF X')]
          exact List.mem_append_left _ (List.mem_of_mem_dropLast hb)
        have hout := lineOutput_eq hargs hname (by omega) hnonzero hlies (Function.update_self ..)
        have hbeyond : Function.update st.data (start + line.length) 0 BUFSIZE
            = st.data BUFSIZE := by
          rw [Function.update_of_ne (by omega)]
        have hat : Function.update st.data (start + line.length) 0 st.last = st.data st.last := by
          rw [Function.update_of_ne (by omega)]
        rw [hfirst, if_neg fun hc => hc.1 hlf.symm, hout, Option.bind_some]
        by_cases hmore : start + line.length + 1 ≥ st.last
        · obtain rfl : X' = [] := List.length_eq_zero_iff.mp (by omega)
          rw [if_pos hmore]
          refine ⟨_, _, [], ?_, (linesDone_nil S name cnt (start + line.length + 1)
            ⟨Function.update st.data (start + line.length) 0, st.last⟩).cons hline
              (Or.inl hbeyond) (Nat.succ_ne_zero _) hat⟩
          rw [List.append_nil]
        · have hrest : Lies (Function.update st.data (start + line.length) 0)
              (start + line.length + 1) X' := by
            intro i hi
            have hplace : start + line.length + 1 + i = start + (line.length + (1 + i)) := by omega
            rw [Function.update_of_ne (by omega), hplace, hX _ (by omega), ofList_append_right,
              Nat.add_comm 1 i]
            rfl
          have hnul' : NulLast X' := by
            intro b hb
            refine hnul b ?_
            rw [List.dropLast_append_of_ne_nil (List.cons_ne_nil LF X')]
            refine List.mem_append_right _ ?_
            cases X' with
            | nil => cases hb
            | cons c X' => exact List.mem_cons_of_mem LF hb
          obtain ⟨st', out, carry, hrun, hdone⟩ := ih (start + line.length + 1)
            ⟨Function.update st.data (start + line.length) 0, st.last⟩ X' (by omega)
            (by dsimp only; omega) hsize hrest hnul'
          rw [if_neg hmore, hrun, Option.map_some]
          exact ⟨st', _, carry, rfl, hdone.cons hline (Or.inl hbeyond) (Nat.succ_ne_zero _) hat⟩

/-! ## The rounds of the outer loop -/

/-- As many bytes as the buffer has, without a line feed, are only at the end. -/
def Fits (R : List UInt8) : Prop :=
  ∀ pre B post, R = pre ++ (B ++ post) → (∀ b ∈ B, (b == LF) = false) → post ≠ [] →
    B.length < BUFSIZE

theorem Fits.suffix {R R' : List UInt8} (h : Fits R) (hs : R' <:+ R) : Fits R' := by
  obtain ⟨front, rfl⟩ := hs
  intro pre B post heq hB hpost
  refine h (front ++ pre) B post ?_ hB hpost
  rw [heq, List.append_assoc]

theorem NulLast.suffix {R R' : List UInt8} (h : NulLast R) (hs : R' <:+ R) : NulLast R' := by
  obtain ⟨front, rfl⟩ := hs
  intro b hb
  refine h b ?_
  cases R' with
  | nil => cases hb
  | cons c R' =>
      rw [List.dropLast_append_of_ne_nil (List.cons_ne_nil c R')]
      exact List.mem_append_right _ hb

theorem NulLast.of_append {B post : List UInt8} (h : NulLast (B ++ post)) : NulLast B := by
  intro b hb
  refine h b ?_
  cases post with
  | nil =>
      rw [List.append_nil]
      exact hb
  | cons c post =>
      rw [List.dropLast_append_of_ne_nil (List.cons_ne_nil c post)]
      exact List.mem_append_left _ (List.mem_of_mem_dropLast hb)

/-- The state before a read: the buffer holds the beginning `carry` of a line. -/
structure Carries (st : GrepState) (carry : List UInt8) : Prop where
  last : st.last = carry.length
  data : Lies st.data 0 carry
  short : carry.length < BUFSIZE
  behind : st.data BUFSIZE ≠ LF

/-- **A round of the outer loop** reads what fits into the buffer and writes for the lines in
it. -/
theorem grepFilter_next (hargs : args.Hold S name) (hname : name.length < rounds)
    (hrounds : BUFSIZE < rounds) {st : GrepState} {carry rest : List UInt8}
    (hst : Carries st carry) (hnul : NulLast (carry ++ rest)) (hfits : Fits (carry ++ rest)) :
    ∃ st' out carry', Carries st' carry' ∧
      (carry' ++ rest.drop (BUFSIZE - st.last)) <:+ carry ++ rest ∧
      grepped S name (carry ++ rest)
        = out ++ grepped S name (carry' ++ rest.drop (BUFSIZE - st.last)) ∧
      (rest = [] → carry' = []) ∧
      (grepFilter rounds args S.length).next st (rest.take (BUFSIZE - st.last))
        = some (out, if rest = [] then none else some st') := by
  have hlast := hst.last
  have hshort := hst.short
  have hsplit : rest = rest.take (BUFSIZE - st.last) ++ rest.drop (BUFSIZE - st.last) :=
    (List.take_append_drop _ rest).symm
  have htake : (rest.take (BUFSIZE - st.last)).length = min (BUFSIZE - st.last) rest.length :=
    List.length_take
  have hdrop : (rest.drop (BUFSIZE - st.last)).length = rest.length - (BUFSIZE - st.last) :=
    List.length_drop
  have hempty : rest.length = 0 ↔ rest = [] := List.length_eq_zero_iff
  generalize hbytes : rest.take (BUFSIZE - st.last) = bytes at *
  generalize hrest : rest.drop (BUFSIZE - st.last) = rest' at *
  have hX : Lies (overlay st.data st.last bytes.length (ofList bytes)) 0 (carry ++ bytes) := by
    intro i hi
    rw [List.length_append] at hi
    rw [Nat.zero_add]
    by_cases hfront : i < carry.length
    · have hold := hst.data i hfront
      rw [Nat.zero_add] at hold
      rw [overlay_out _ _ (by omega), hold, ofList_append_left bytes hfront]
    · obtain ⟨j, rfl⟩ := Nat.exists_eq_add_of_le (Nat.le_of_not_lt hfront)
      rw [ofList_append_right, ← hlast, overlay_add _ _ (by omega)]
  have hbehind : overlay st.data st.last bytes.length (ofList bytes) BUFSIZE = st.data BUFSIZE :=
    overlay_out _ _ (by omega)
  have hall : carry ++ rest = (carry ++ bytes) ++ rest' := by rw [List.append_assoc, ← hsplit]
  rw [hall] at hnul hfits
  obtain ⟨st', out, carry', hrun, hdone⟩ := grepLines_done hargs hname hrounds bytes.length
    (BUFSIZE + 1) 0 ⟨overlay st.data st.last bytes.length (ofList bytes), st.last + bytes.length⟩
    (carry ++ bytes) (by rw [List.length_append]; omega)
    (by rw [List.length_append]; dsimp only; omega) (by dsimp only; omega) hX hnul.of_append
  have hcarries : Carries st' carry' := by
    refine ⟨hdone.last, hdone.data, hdone.short, ?_⟩
    rcases hdone.beyond with heq | hzero
    · rw [heq]
      exact fun h => hst.behind (hbehind.symm.trans h)
    · rw [hzero]
      decide
  refine ⟨st', out, carry', hcarries, ?_, ?_, ?_, ?_⟩
  · obtain ⟨front, hfront⟩ := hdone.suffix
    refine ⟨front, ?_⟩
    rw [hall, ← hfront, List.append_assoc]
  · rw [hall]
    apply hdone.output
    -- more is left only behind a full buffer, and that holds a line feed
    intro hmore
    have hpos : 0 < rest'.length := List.length_pos_iff.mpr hmore
    have hfull : st.last + bytes.length = BUFSIZE := by omega
    refine ⟨by omega, ?_, Or.inr ?_⟩
    · dsimp only
      rw [hfull, hbehind]
      exact hst.behind
    · by_contra hno
      have hlt := hfits [] (carry ++ bytes) rest' (List.nil_append _).symm (fun b hb => by
        refine beq_eq_false_iff_ne.mpr ?_
        rintro rfl
        exact hno hb) hmore
      rw [List.length_append] at hlt
      omega
  · intro hnil
    have hzero := hempty.mpr hnil
    exact hdone.atEnd (by omega)
  · unfold grepFilter
    dsimp only
    rw [hrun, Option.map_some]
    dsimp only
    by_cases hnil : rest = []
    · have hzero := hempty.mpr hnil
      rw [if_pos hnil, if_pos (by omega)]
    · have hpos := mt hempty.mp hnil
      rw [if_neg hnil, if_neg (by omega)]

/-- **The outer loop.** By induction on what is left to be read. -/
theorem grepFilter_yields (hargs : args.Hold S name) (hname : name.length < rounds)
    (hrounds : BUFSIZE < rounds) : ∀ (n : Nat) (rest : List UInt8) (st : GrepState)
    (carry : List UInt8), rest.length < n → Carries st carry → NulLast (carry ++ rest) →
      Fits (carry ++ rest) → (grepFilter rounds args S.length).Yields FileSize st rest
        (grepped S name (carry ++ rest)) := by
  intro n
  induction n with
  | zero => exact fun rest _ _ h => absurd h (Nat.not_lt_zero _)
  | succ n ih =>
      intro rest st carry hn hst hnul hfits
      obtain ⟨st', out, carry', hcarries, hsuffix, hout, hend, hnext⟩ :=
        grepFilter_next hargs hname hrounds hst hnul hfits
      have hlast := hst.last
      have hshort := hst.short
      have hsize : FileSize ((grepFilter rounds args S.length).want st) := by
        show 0 < BUFSIZE - st.last ∧ BUFSIZE - st.last < 2147483648
        unfold BUFSIZE at hshort ⊢
        omega
      rw [hout]
      by_cases hnil : rest = []
      · rw [if_pos hnil] at hnext
        rw [hend hnil, hnil, List.drop_nil, List.append_nil, grepped_nil hargs.nonempty,
          List.append_nil]
        rw [hnil] at hnext
        exact .last hsize hnext
      · have hpos : 0 < rest.length := List.length_pos_iff.mpr hnil
        have hdrop : (rest.drop (BUFSIZE - st.last)).length = rest.length - (BUFSIZE - st.last) :=
          List.length_drop
        rw [if_neg hnil] at hnext
        refine .more hsize ?_ hnext (ih (rest.drop (BUFSIZE - st.last)) st' carry' (by omega)
          hcarries (hnul.suffix hsuffix) (hfits.suffix hsuffix))
        apply List.ne_nil_of_length_pos
        show 0 < (rest.take (BUFSIZE - st.last)).length
        rw [List.length_take]
        omega

/-! ## The files of a text -/

/-- The bytes that a file of text delivers: none of them NUL, but for one NUL that may be behind
them, and every line shorter than the buffer. -/
structure TextFile (text : List UInt8) (content : List UInt8) : Prop where
  content : content = text ∨ content = text ++ [0]
  nonzero : ∀ b ∈ text, b ≠ 0
  lines : ∀ line ∈ text.splitOnP (· == LF), line.length < BUFSIZE

/-- The lines that hold the string, each with the name of the file in front. -/
def matchingLines (S name text : List UInt8) : List UInt8 :=
  (text.splitOnP (· == LF)).flatMap fun line =>
    if S <:+: line then name ++ ascii ":" ++ line ++ ascii "\n" else []

theorem TextFile.nulLast {text content : List UInt8} (h : TextFile text content) :
    NulLast content := by
  intro b hb
  rcases h.content with rfl | rfl
  · exact h.nonzero b (List.mem_of_mem_dropLast hb)
  · rw [List.dropLast_concat] at hb
    exact h.nonzero b hb

theorem TextFile.fits {text content : List UInt8} (h : TextFile text content) : Fits content := by
  intro pre B post heq hB hpost
  -- something is behind the bytes, so that they are a part of the text
  have hpart : ∃ post', text = pre ++ (B ++ post') := by
    rcases h.content with rfl | rfl
    · exact ⟨post, heq⟩
    · obtain ⟨post', c, rfl⟩ := List.eq_nil_or_concat post |>.resolve_left hpost
      refine ⟨post', ?_⟩
      rw [List.concat_eq_append, ← List.append_assoc, ← List.append_assoc] at heq
      rw [List.append_inj_left' heq rfl, List.append_assoc]
  obtain ⟨post', rfl⟩ := hpart
  obtain ⟨line, hline, hle⟩ := exists_line_of_infix hB pre post'
  exact Nat.lt_of_le_of_lt hle (h.lines line hline)

theorem takeWhile_concat_nul (line : List UInt8) :
    (line ++ [0]).takeWhile (· ≠ 0) = line.takeWhile (· ≠ 0) := by
  induction line with
  | nil => rfl
  | cons b line ih =>
      by_cases hb : b = 0
      · rw [List.cons_append, List.takeWhile_cons_of_neg (by simpa using hb),
          List.takeWhile_cons_of_neg (by simpa using hb)]
      · rw [List.cons_append, List.takeWhile_cons_of_pos (by simpa using hb),
          List.takeWhile_cons_of_pos (by simpa using hb), ih]

/-- What is written for the lines of a text, said of the lines themselves. -/
theorem TextFile.grepped {text content : List UInt8} (h : TextFile text content) :
    (Programs.grepped S name content).flatten = matchingLines S name text := by
  have htext : Programs.grepped S name content = Programs.grepped S name text := by
    rcases h.content with rfl | rfl
    · rfl
    · refine eachLine_concat rfl (fun line => ?_) text
      unfold matching
      rw [takeWhile_concat_nul]
  rw [htext]
  unfold Programs.grepped matchingLines
  rw [flatten_eachLine]
  refine eachLine_congr text fun line hline => ?_
  have hself : line.takeWhile (· ≠ 0) = line := by
    rw [List.takeWhile_eq_self_iff]
    intro b hb
    simpa using h.nonzero b (hline b hb)
  unfold matching
  rw [hself]
  split
  · simp only [List.flatten_cons, List.flatten_nil, List.append_nil, List.append_assoc]
  · rfl

end

/-- **`grep` prints the matching lines.** Process `p` makes the calls of `do_one_file`, on a file
of text and with a string to search for, while anything else happens. Then what it has written is
the beginning of the lines of the file that hold the string, in their order and with the name of
the file in front, and all of these lines when the function returns. -/
theorem doOneFile_prints {fs : FileSys} {k : Kernel} {p : Slot} {inode : Nat} {args : GrepArgs}
    {S name text : List UInt8} {data : Mem} {rounds : Nat} {es : List Event}
    {s : FilterState GrepState} (hready : Ready p k) (hargs : args.Hold S name)
    (hfound : (readDentryByName fs (some name)).bind openedDesc = some (fileDesc inode 0))
    (hi : inode < DIR_ENTRIES) (hl : fs.fileLength inode < 2147483648)
    (htext : TextFile text (fs.fileContent inode)) (hdata : data BUFSIZE ≠ LF)
    (hname : name.length < rounds) (hrounds : BUFSIZE < rounds)
    (hfollow : follow (doOneFile rounds args S.length data).routine fs p ⟨.opens name, []⟩ k es
      = some s) :
    s.printed <+: matchingLines S name text ∧
      ∀ v, (doOneFile rounds args S.length data).routine.returned s = some v →
        v = 0 ∧ s.printed = matchingLines S name text := by
  have hstart : Carries ⟨data, 0⟩ [] :=
    ⟨rfl, fun i hi => absurd hi (Nat.not_lt_zero i), Nat.succ_pos _, hdata⟩
  have hyields := grepFilter_yields hargs hname hrounds _ (fs.fileContent inode) _ []
    (Nat.lt_succ_self _) hstart htext.nulLast htext.fits
  have hok : StepSystem.Guarded (step fs) (fun _ _ => True) k es :=
    StepSystem.guarded_of_forall (fun _ _ => trivial) k es
  have hbefore : ∀ k e k', Ready p k → True → ¬ (k.cur = some p ∧ e.ofProcess) →
      step fs k e = some k' → Ready p k' := fun _ _ _ h _ hother hstep =>
    h.other (.of_other hother) (fun hcur htouch => hother ⟨hcur, htouch.ofProcess⟩) hstep
  refine (doOneFile rounds args S.length data).follow_prints
    (file_source p hi hl fun _ _ => True) (fun _ _ _ _ _ hfails => absurd rfl hfails) hbefore ?_
    hready hok hfollow
  intro k k' fd h hcur hopen
  obtain ⟨i, rfl, hi, hstack, hfd⟩ := h.opens hcur hfound hopen
  exact ⟨fun hfails => by omega, fun _ => ⟨rfl, i, rfl, hi, ⟨⟨hstack, hfd⟩, Nat.zero_le _⟩, _,
    hyields, htext.grepped⟩⟩

/-- `ELF` is searched for in the file `shell`. -/
def grepArgs : GrepArgs := ⟨ofList (ascii "ELF"), ofList shellCommand⟩

/-- The calls of a process that runs `do_one_file` on the small image, with an interrupt. -/
def grepEvents : List Event :=
  [.open (some shellCommand), .read (fun _ => 0) 2 false 1024, .rtc,
    .write 1 (some (ofList shellCommand)) 5, .write 1 (some (ofList (ascii ":"))) 1,
    .write 1 (some (ofList [0x7F, 0x45, 0x4C, 0x46])) 4, .write 1 (some (ofList (ascii "\n"))) 1,
    .read (fun _ => 0) 2 false 1024, .close 2]

/-- On the small image: the first shell makes the calls of `do_one_file`, and it finds the one
line of its file. -/
theorem doOneFile_prints_sample : ∃ (k : Kernel) (s : FilterState GrepState),
    Reachable sampleImage k ∧ k.cur = some 0 ∧
    follow (doOneFile 1025 grepArgs 3 fun _ => 0).routine sampleImage 0
      ⟨.opens shellCommand, []⟩ k grepEvents = some s ∧
    (doOneFile 1025 grepArgs 3 fun _ => 0).routine.returned s = some 0 ∧
    (s.printed <+: matchingLines (ascii "ELF") shellCommand [0x7F, 0x45, 0x4C, 0x46] ∧
      ∀ v, (doOneFile 1025 grepArgs 3 fun _ => 0).routine.returned s = some v →
        v = 0 ∧ s.printed = matchingLines (ascii "ELF") shellCommand [0x7F, 0x45, 0x4C, 0x46]) := by
  have hview : (StepSystem.run (step sampleImage) (boot zeroMemory) [.pit zeroFrame]).map
      (fun k => decide (k.cur = some 0 ∧ ((k.pcb 0).fileDescArray 2).flags = 0))
        = some true := by decide +kernel
  obtain ⟨k, hk, hcur, hfree⟩ := StepSystem.exists_of_map_decide hview
  have hplayed : ((StepSystem.run (step sampleImage) (boot zeroMemory) [.pit zeroFrame]).bind
      fun k => follow (doOneFile 1025 grepArgs 3 fun _ => 0).routine sampleImage 0
        ⟨.opens shellCommand, []⟩ k grepEvents).map (fun s =>
          decide ((doOneFile 1025 grepArgs 3 fun _ => 0).routine.returned s = some 0))
        = some true := by decide +kernel
  obtain ⟨s, hs, hreturned⟩ := StepSystem.exists_of_map_decide hplayed
  rw [hk, Option.bind_some] at hs
  have hreach : Reachable sampleImage k := ⟨zeroMemory, _, hk⟩
  obtain ⟨S, hS⟩ := hreach.sound
  have hready : Ready 0 k :=
    ⟨⟨S, hS, _, hS.top_mem hcur⟩, 2, Nat.le_refl 2, fun hopen => hopen hfree⟩
  have hargs : grepArgs.Hold (ascii "ELF") shellCommand :=
    ⟨isString_ofList (by decide), by decide, isString_ofList (by decide)⟩
  have hcontent : sampleImage.fileContent 0 = [0x7F, 0x45, 0x4C, 0x46] := by decide +kernel
  have htext : TextFile [0x7F, 0x45, 0x4C, 0x46] (sampleImage.fileContent 0) := by
    rw [hcontent]
    exact ⟨Or.inl rfl, by decide +kernel, by decide +kernel⟩
  exact ⟨k, s, hreach, hcur, hs, hreturned, doOneFile_prints hready hargs (by decide +kernel)
    (by decide) (by decide +kernel) htext (by decide) (by decide) (by decide) hs⟩

end Programs

end Ext2Kernel
