import Ext2Kernel.Lib.Itoa

set_option autoImplicit false

/-! # Formatted printing

`printf` of `lib.c` reads its format and its arguments from memory and gives characters to
`putc`. A conversion of a number goes through the local array `conv_buf`, which is at an address
of its own. The characters printed and the stores made are kept in the state of the routine.

Two results: no call stores outside `conv_buf` (`printf_unchanged`), and the conversions print
canonical numerals (`numbers_canonical`).
-/

namespace Ext2Kernel

namespace Lib

open ByteMem Numeral

/-! ## The routine -/

/-- The byte of a character. -/
def chr (c : Char) : UInt8 := UInt8.ofNat c.toNat

/-- `puts` from an index on: the bytes given to `putc`. -/
def puts (m : Mem) (s : Nat) : Nat → Nat → Option (List UInt8)
  | 0, _ => none
  | n + 1, index =>
      if m (s + index) ≠ 0 then (puts m s n (index + 1)).map fun rest => m (s + index) :: rest
      else some []

/-- The variables of `printf`, the memory, the bytes given to `putc` and the stores made. -/
structure PrintfState where
  mem : Mem
  buf : Nat
  esp : Nat
  printed : List UInt8
  stores : List (Nat × UInt8)

namespace PrintfState

variable (rounds convBuf : Nat) (st : PrintfState)

/-- The character under `buf`. -/
def char : UInt8 := st.mem st.buf

/-- The argument under `esp`. -/
def arg : UInt32 := UInt32.ofNat (word st.mem st.esp)

def store (stores : List (Nat × UInt8)) : PrintfState :=
  { st with mem := storeAll stores st.mem, stores := st.stores ++ stores }

def print (l : List UInt8) : PrintfState := { st with printed := st.printed ++ l }

def nextArg : PrintfState := { st with esp := st.esp + 4 }

def nextChar : PrintfState := { st with buf := st.buf + 1 }

/-- `puts`. -/
def putString (s : Nat) : Option PrintfState := (puts st.mem s rounds 0).map st.print

/-- `itoa`. -/
def format (value : UInt32) (buf : Nat) (radix : UInt32) : Option PrintfState :=
  (itoa rounds st.mem value buf radix).map st.store

/-- `%x`, and `%#x` with `alternate`. -/
def printHex (alternate : Bool) : Option PrintfState :=
  if alternate = false then
    (st.format rounds st.arg convBuf 16).bind fun st =>
      (st.putString rounds convBuf).map nextArg
  else
    (st.format rounds st.arg (convBuf + 8) 16).bind fun st =>
      (strlen rounds st.mem (convBuf + 8)).bind fun startingIndex =>
        -- `conv_buf[i] = '0'` for `i` from `starting_index` to 7
        let zeros := List.replicate (8 - startingIndex) (chr '0')
        let st := st.store (storesFrom (convBuf + startingIndex) zeros)
        (st.putString rounds (convBuf + startingIndex)).map nextArg

/-- `%u`. -/
def printUnsigned : Option PrintfState :=
  (st.format rounds st.arg convBuf 10).bind fun st =>
    (st.putString rounds convBuf).map nextArg

/-- `%d`. -/
def printSigned : Option PrintfState :=
  (if asInt32 st.arg.toNat < 0 then
    (st.store [(convBuf, chr '-')]).format rounds (0 - st.arg) (convBuf + 1) 10
  else st.format rounds st.arg convBuf 10).bind fun st =>
    (st.putString rounds convBuf).map nextArg

/-- The conversion specifiers, from `format_char_switch` on. -/
def formatCharSwitch : Nat → Bool → PrintfState → Option PrintfState
  | 0, _, _ => none
  | n + 1, alternate, st =>
      if st.char = chr '%' then some (st.print [chr '%'])
      else if st.char = chr '#' then formatCharSwitch n true st.nextChar
      else if st.char = chr 'x' then st.printHex rounds convBuf alternate
      else if st.char = chr 'u' then st.printUnsigned rounds convBuf
      else if st.char = chr 'd' then st.printSigned rounds convBuf
      else if st.char = chr 'c' then some (st.print [st.arg.toUInt8]).nextArg
      else if st.char = chr 's' then (st.putString rounds st.arg.toNat).map nextArg
      else some st

/-- A round of the loop of `printf`. -/
def round : Option PrintfState :=
  (if st.char = chr '%' then formatCharSwitch rounds convBuf rounds false st.nextChar
  else some (st.print [st.char])).map nextChar

end PrintfState

/-- The loop of `printf`. -/
def printfLoop (rounds convBuf : Nat) : Nat → PrintfState → Option PrintfState
  | 0, _ => none
  | n + 1, st =>
      if st.char ≠ 0 then (st.round rounds convBuf).bind (printfLoop rounds convBuf n)
      else some st

/-- `printf` of the format at an address, with its arguments from `esp` on: the value returned,
and the state. -/
def printf (rounds convBuf : Nat) (m : Mem) (format esp : Nat) : Option (Nat × PrintfState) :=
  (printfLoop rounds convBuf rounds ⟨m, format, esp, [], []⟩).map fun st => (st.buf - format, st)

/-! ## Printing the argument -/

/-- From `st` to `st'` the argument is printed as a string with the property `P`. The stores are
inside the first `size` bytes of `conv_buf`, and so is the string, with its NUL. -/
def PrintsArg (convBuf size : Nat) (P : UInt32 → List UInt8 → Prop) (st st' : PrintfState) :
    Prop :=
  ∃ l stores a, P st.arg l ∧ st'.printed = st.printed ++ l ∧ st'.esp = st.esp + 4 ∧
    st'.mem = storeAll stores st.mem ∧ st'.stores = st.stores ++ stores ∧
    (∀ t ∈ stores, convBuf ≤ t.1 ∧ t.1 < convBuf + size) ∧
    IsString st'.mem a l ∧ convBuf ≤ a ∧ a + l.length < convBuf + size

/-- A round of the loop at the conversion `spec` steps over it and prints the argument. -/
def Converts (rounds convBuf size : Nat) (spec : List UInt8)
    (P : UInt32 → List UInt8 → Prop) : Prop :=
  ∀ st : PrintfState, (∀ i < spec.length, st.mem (st.buf + i) = ofList spec i) →
    ∃ st', st.round rounds convBuf = some st' ∧ st'.buf = st.buf + spec.length ∧
      PrintsArg convBuf size P st st'

/-- The string `l` is the decimal numeral of `z`: that of its absolute value, with a sign in
front of it if it is negative. -/
def CanonicalSigned (l : List UInt8) (z : Int) : Prop :=
  if z < 0 then ∃ k, l = chr '-' :: k ∧ Canonical 10 k z.natAbs else Canonical 10 l z.natAbs

/-- The string `l` consists of 8 hexadecimal digits that evaluate to `n`. -/
def EightHexDigits (l : List UInt8) (n : Nat) : Prop :=
  l.length = 8 ∧
    ∃ ds : List Nat, l = ds.map digitChar ∧ (∀ d ∈ ds, d < 16) ∧ Nat.ofDigits 16 ds.reverse = n

section

variable {rounds convBuf : Nat} {st : PrintfState} {l : List UInt8}

theorem puts_eq {m : Mem} {s n index : Nat} (h : IsString m s l) (hindex : index ≤ l.length)
    (hn : l.length < n + index) : puts m s n index = some (l.drop index) := by
  induction n generalizing index with
  | zero => omega
  | succ n ih =>
      unfold puts
      by_cases hend : index = l.length
      · rw [hend, h.nul, List.drop_length]
        rfl
      · have hlt : index < l.length := Nat.lt_of_le_of_ne hindex hend
        rw [if_pos (h.byte_ne hlt), ih (by omega) (by omega), List.drop_eq_getElem_cons hlt,
          h.bytes index hindex, ofList_of_lt hlt]
        rfl

theorem putString_eq {s : Nat} (h : IsString st.mem s l) (hrounds : l.length < rounds) :
    st.putString rounds s = some (st.print l) := by
  unfold PrintfState.putString
  rw [puts_eq h (Nat.zero_le _) (by omega), List.drop_zero]
  rfl

/-- `itoa` into `conv_buf`. -/
theorem format_eq {radix : UInt32} (hradix : 1 < radix.toNat) (hmax : radix.toNat ≤ 36)
    (hrounds : 33 ≤ rounds) (value : UInt32) (buf : Nat) :
    ∃ stores l, st.format rounds value buf radix = some (st.store stores) ∧
      l = (numeral radix.toNat value.toNat).map digitChar ∧
      IsString (storeAll stores st.mem) buf l ∧
      ∀ t ∈ stores, buf ≤ t.1 ∧ t.1 < buf + l.length + 1 := by
  obtain ⟨stores, hstores, hstring, hin⟩ := itoa_eq hradix hmax hrounds st.mem value buf
  refine ⟨stores, _, ?_, rfl, hstring, ?_⟩
  · unfold PrintfState.format
    rw [hstores]
    rfl
  · rw [List.length_map]
    exact hin

theorem canonical_numeral {r : Nat} (hr : 1 < r) (n : Nat) :
    Canonical r ((numeral r n).map digitChar) n :=
  ⟨_, rfl, isNumeral_numeral hr n⟩

/-- The numeral of a 32-bit number has at most `k` digits if it is below `r ^ k`. -/
theorem numeral_map_length {r k : Nat} (hr : 1 < r) (hk : 0 < k) (hpow : 2 ^ 32 ≤ r ^ k)
    (value : UInt32) : ((numeral r value.toNat).map digitChar).length ≤ k := by
  rw [List.length_map]
  apply numeral_length_le hr hk
  exact Nat.lt_of_lt_of_le value.toNat_lt hpow

/-- A number is formatted at the start of `conv_buf` and printed from there. -/
theorem prints_numeral {radix : UInt32} {k size : Nat} (hradix : 1 < radix.toNat)
    (hmax : radix.toNat ≤ 36) (hrounds : 33 ≤ rounds) (hk : 0 < k)
    (hpow : 2 ^ 32 ≤ radix.toNat ^ k) (hk32 : k ≤ 32) (hsize : k < size) :
    ∃ st', ((st.format rounds st.arg convBuf radix).bind fun st =>
        (st.putString rounds convBuf).map PrintfState.nextArg) = some st' ∧ st'.buf = st.buf ∧
      PrintsArg convBuf size (fun v l => Canonical radix.toNat l v.toNat) st st' := by
  obtain ⟨stores, l, hformat, hl, hstring, hin⟩ :=
    @format_eq rounds st radix hradix hmax hrounds st.arg convBuf
  have hlen : l.length ≤ k := by
    rw [hl]
    exact numeral_map_length hradix hk hpow st.arg
  have hput : (st.store stores).putString rounds convBuf = some ((st.store stores).print l) :=
    putString_eq hstring (by omega)
  rw [hformat, Option.bind_some, hput]
  refine ⟨_, rfl, rfl, l, stores, convBuf, ?_, rfl, rfl, rfl, rfl, fun t ht => ?_, hstring,
    Nat.le_refl _, by omega⟩
  · rw [hl]
    exact canonical_numeral hradix _
  · have := hin t ht
    omega

theorem printHex_eq (hrounds : 33 ≤ rounds) :
    ∃ st', st.printHex rounds convBuf false = some st' ∧ st'.buf = st.buf ∧
      PrintsArg convBuf 64 (fun v l => Canonical 16 l v.toNat) st st' :=
  @prints_numeral _ _ _ 16 8 64 (by decide) (by decide) hrounds (by decide) (by decide)
    (by decide) (by decide)

theorem printUnsigned_eq (hrounds : 33 ≤ rounds) :
    ∃ st', st.printUnsigned rounds convBuf = some st' ∧ st'.buf = st.buf ∧
      PrintsArg convBuf 36 (fun v l => Canonical 10 l v.toNat) st st' :=
  @prints_numeral _ _ _ 10 10 36 (by decide) (by decide) hrounds (by decide) (by decide)
    (by decide) (by decide)

/-- The negation is modulo `2 ^ 32`. -/
theorem natAbs_of_neg {value : UInt32} (h : asInt32 value.toNat < 0) :
    (asInt32 value.toNat).natAbs = (0 - value).toNat := by
  have hlt := value.toNat_lt
  rw [UInt32.toNat_sub]
  unfold asInt32 at h ⊢
  split at h
  · omega
  · rename_i hbig
    rw [if_neg hbig]
    show _ = (2 ^ 32 - value.toNat + 0) % 2 ^ 32
    omega

theorem natAbs_of_nonneg {value : UInt32} (h : ¬ asInt32 value.toNat < 0) :
    (asInt32 value.toNat).natAbs = value.toNat := by
  have hlt := value.toNat_lt
  unfold asInt32 at h ⊢
  split at h
  · rename_i hsmall
    rw [if_pos hsmall]
    omega
  · omega

theorem canonicalSigned_of_neg {value : UInt32} (h : asInt32 value.toNat < 0)
    (hl : Canonical 10 l (0 - value).toNat) :
    CanonicalSigned (chr '-' :: l) (asInt32 value.toNat) := by
  unfold CanonicalSigned
  rw [if_pos h, natAbs_of_neg h]
  exact ⟨l, rfl, hl⟩

theorem canonicalSigned_of_nonneg {value : UInt32} (h : ¬ asInt32 value.toNat < 0)
    (hl : Canonical 10 l value.toNat) : CanonicalSigned l (asInt32 value.toNat) := by
  unfold CanonicalSigned
  rw [if_neg h, natAbs_of_nonneg h]
  exact hl

theorem printSigned_eq (hrounds : 33 ≤ rounds) :
    ∃ st', st.printSigned rounds convBuf = some st' ∧ st'.buf = st.buf ∧
      PrintsArg convBuf 36 (fun v l => CanonicalSigned l (asInt32 v.toNat)) st st' := by
  unfold PrintfState.printSigned
  by_cases hneg : asInt32 st.arg.toNat < 0
  · obtain ⟨stores, l, hformat, hl, hstring, hin⟩ := @format_eq rounds
      (st.store [(convBuf, chr '-')]) 10 (by decide) (by decide) hrounds (0 - st.arg) (convBuf + 1)
    have hlen : l.length ≤ 10 := by
      rw [hl]
      exact numeral_map_length (by decide) (by decide) (by decide) _
    -- the sign stays in front of the numeral
    have hsign : IsString (storeAll stores (st.store [(convBuf, chr '-')]).mem) convBuf
        ([chr '-'] ++ l) := by
      apply hstring.append
      · intro i hi
        obtain rfl : i = 0 := Nat.lt_one_iff.mp hi
        rw [storeAll_out fun t ht => by have := hin t ht; omega]
        exact Function.update_self ..
      · intro b hb
        rw [List.mem_singleton.mp hb]
        decide
    have hput := @putString_eq rounds ((st.store [(convBuf, chr '-')]).store stores) _ convBuf
      hsign (by rw [List.length_append, List.length_singleton]; omega)
    rw [if_pos hneg, hformat, Option.bind_some, hput]
    refine ⟨_, rfl, rfl, [chr '-'] ++ l, [(convBuf, chr '-')] ++ stores, convBuf, ?_, rfl, rfl,
      ?_, ?_, fun t ht => ?_, hsign, Nat.le_refl _, ?_⟩
    · rw [hl]
      exact canonicalSigned_of_neg hneg (canonical_numeral (by decide) _)
    · exact (storeAll_append _ _ _).symm
    · exact List.append_assoc _ _ _
    · rcases List.mem_append.mp ht with ht | ht
      · rw [List.mem_singleton.mp ht]
        dsimp only
        omega
      · have := hin t ht
        omega
    · rw [List.length_append, List.length_singleton]
      omega
  · obtain ⟨st', hst', hbuf, l, stores, a, hcanonical, hrest⟩ :=
      @prints_numeral rounds convBuf st 10 10 36 (by decide) (by decide) hrounds (by decide)
        (by decide) (by decide) (by decide)
    rw [if_neg hneg]
    exact ⟨st', hst', hbuf, l, stores, a, canonicalSigned_of_nonneg hneg hcanonical, hrest⟩

/-- The zeros are put in front of the numeral, up to its start. -/
theorem printHex_alternate_eq (hrounds : 33 ≤ rounds) :
    ∃ st', st.printHex rounds convBuf true = some st' ∧ st'.buf = st.buf ∧
      PrintsArg convBuf 64 (fun v l => EightHexDigits l v.toNat) st st' := by
  obtain ⟨stores, l, hformat, hl, hstring, hin⟩ :=
    @format_eq rounds st 16 (by decide) (by decide) hrounds st.arg (convBuf + 8)
  have hlen : l.length ≤ 8 := by
    rw [hl]
    exact numeral_map_length (by decide) (by decide) (by decide) _
  have hstrlen : strlen rounds (st.store stores).mem (convBuf + 8) = some l.length :=
    strlen_eq hstring (by omega)
  let zeros := List.replicate (8 - l.length) (chr '0')
  let padding := storesFrom (convBuf + l.length) zeros
  have hzeros : zeros.length = 8 - l.length := List.length_replicate
  have hpadded : IsString (storeAll padding (storeAll stores st.mem)) (convBuf + l.length)
      (zeros ++ l) := by
    have hmem := storeAll_storesFrom (storeAll stores st.mem) (convBuf + l.length) zeros
    have hplace : convBuf + l.length + zeros.length = convBuf + 8 := by omega
    rw [hmem]
    apply IsString.append
    · rw [hplace]
      apply hstring.congr
      intro i _
      exact overlay_out _ _ (by omega)
    · intro i hi
      exact overlay_add _ _ hi
    · intro b hb
      rw [List.eq_of_mem_replicate hb]
      decide
  have hsum : (zeros ++ l).length = 8 := by
    rw [List.length_append]
    omega
  have hput := @putString_eq rounds ((st.store stores).store padding) _ (convBuf + l.length)
    hpadded (by omega)
  unfold PrintfState.printHex
  rw [if_neg (by decide), hformat, Option.bind_some, hstrlen, Option.bind_some]
  dsimp only
  rw [hput]
  refine ⟨_, rfl, rfl, zeros ++ l, stores ++ padding, convBuf + l.length, ⟨hsum, ?_⟩, rfl, rfl,
    ?_, ?_, fun t ht => ?_, hpadded, Nat.le_add_right _ _, by omega⟩
  · have hdigits : (numeral 16 st.arg.toNat).map digitChar = l := hl.symm
    refine ⟨List.replicate (8 - l.length) 0 ++ numeral 16 st.arg.toNat, ?_, fun d hd => ?_, ?_⟩
    · rw [List.map_append, List.map_replicate, hdigits]
      rfl
    · rcases List.mem_append.mp hd with hd | hd
      · rw [List.eq_of_mem_replicate hd]
        decide
      · exact numeral_lt (by decide) d hd
    · rw [ofDigits_padded, numeral_value]
  · exact (storeAll_append _ _ _).symm
  · exact List.append_assoc _ _ _
  · rcases List.mem_append.mp ht with ht | ht
    · have := hin t ht
      omega
    · have := mem_storesFrom ht
      omega

/-! ## The conversions -/

theorem printsArg_round {size : Nat} {P : UInt32 → List UInt8 → Prop} {st st' : PrintfState}
    (h : PrintsArg convBuf size P st.nextChar st') : PrintsArg convBuf size P st st'.nextChar := h

theorem round_percent (h : st.char = chr '%') : st.round rounds convBuf
    = (PrintfState.formatCharSwitch rounds convBuf rounds false st.nextChar).map
        PrintfState.nextChar := by
  unfold PrintfState.round
  rw [if_pos h]

/-- A conversion with a specifier of one character. -/
theorem converts_of_switch {size : Nat} {P : UInt32 → List UInt8 → Prop} {c : UInt8}
    {print : PrintfState → Option PrintfState}
    (hswitch : ∀ st : PrintfState, st.char = c →
      PrintfState.formatCharSwitch rounds convBuf rounds false st = print st)
    (hprint : ∀ st, ∃ st', print st = some st' ∧ st'.buf = st.buf ∧
      PrintsArg convBuf size P st st') :
    Converts rounds convBuf size [chr '%', c] P := by
  intro st hspec
  have hchar : st.char = chr '%' := hspec 0 (Nat.succ_pos 1)
  have hnext : st.nextChar.char = c := hspec 1 (Nat.lt_succ_self 1)
  obtain ⟨st', hst', hbuf, hprints⟩ := hprint st.nextChar
  refine ⟨st'.nextChar, ?_, ?_, printsArg_round hprints⟩
  · rw [round_percent hchar, hswitch _ hnext, hst']
    rfl
  · exact congrArg (· + 1) hbuf

section

variable {n : Nat} {alternate : Bool}

theorem switch_hex (h : st.char = chr 'x') :
    PrintfState.formatCharSwitch rounds convBuf (n + 1) alternate st
      = st.printHex rounds convBuf alternate := by
  unfold PrintfState.formatCharSwitch
  rw [h]
  rfl

theorem switch_unsigned (h : st.char = chr 'u') :
    PrintfState.formatCharSwitch rounds convBuf (n + 1) alternate st
      = st.printUnsigned rounds convBuf := by
  unfold PrintfState.formatCharSwitch
  rw [h]
  rfl

theorem switch_signed (h : st.char = chr 'd') :
    PrintfState.formatCharSwitch rounds convBuf (n + 1) alternate st
      = st.printSigned rounds convBuf := by
  unfold PrintfState.formatCharSwitch
  rw [h]
  rfl

theorem switch_alternate (h : st.char = chr '#') :
    PrintfState.formatCharSwitch rounds convBuf (n + 1) alternate st
      = PrintfState.formatCharSwitch rounds convBuf n true st.nextChar := by
  show (if st.char = chr '%' then _ else _) = _
  rw [h]
  rfl

end

theorem converts_hex (hrounds : 33 ≤ rounds) : Converts rounds convBuf 64 (ascii "%x")
    fun v l => Canonical 16 l v.toNat := by
  obtain ⟨n, rfl⟩ : ∃ n, rounds = n + 1 := ⟨rounds - 1, by omega⟩
  exact converts_of_switch (fun _ h => switch_hex h) fun _ => printHex_eq hrounds

theorem converts_unsigned (hrounds : 33 ≤ rounds) : Converts rounds convBuf 36 (ascii "%u")
    fun v l => Canonical 10 l v.toNat := by
  obtain ⟨n, rfl⟩ : ∃ n, rounds = n + 1 := ⟨rounds - 1, by omega⟩
  exact converts_of_switch (fun _ h => switch_unsigned h) fun _ => printUnsigned_eq hrounds

theorem converts_signed (hrounds : 33 ≤ rounds) : Converts rounds convBuf 36 (ascii "%d")
    fun v l => CanonicalSigned l (asInt32 v.toNat) := by
  obtain ⟨n, rfl⟩ : ∃ n, rounds = n + 1 := ⟨rounds - 1, by omega⟩
  exact converts_of_switch (fun _ h => switch_signed h) fun _ => printSigned_eq hrounds

/-- `%#x` passes the switch twice. -/
theorem converts_alternate (hrounds : 33 ≤ rounds) : Converts rounds convBuf 64 (ascii "%#x")
    fun v l => EightHexDigits l v.toNat := by
  obtain ⟨n, rfl⟩ : ∃ n, rounds = n + 2 := ⟨rounds - 2, by omega⟩
  intro st hspec
  have hpercent : st.char = chr '%' := hspec 0 (by decide)
  have halternate : st.nextChar.char = chr '#' := hspec 1 (by decide)
  have hhex : st.nextChar.nextChar.char = chr 'x' := hspec 2 (by decide)
  have hswitch : PrintfState.formatCharSwitch (n + 2) convBuf (n + 2) false st.nextChar
      = st.nextChar.nextChar.printHex (n + 2) convBuf true := by
    rw [switch_alternate halternate, switch_hex hhex]
  obtain ⟨st', hst', hbuf, hprints⟩ :=
    @printHex_alternate_eq (n + 2) convBuf st.nextChar.nextChar hrounds
  refine ⟨st'.nextChar, ?_, congrArg (· + 1) hbuf, hprints⟩
  rw [round_percent hpercent, hswitch, hst']
  rfl

end

/-! ## Whole calls -/

/-- From `st` to `st'` all stores are inside `conv_buf`. -/
def StoresInside (convBuf : Nat) (st st' : PrintfState) : Prop :=
  ∃ stores, st'.mem = storeAll stores st.mem ∧ st'.stores = st.stores ++ stores ∧
    ∀ t ∈ stores, convBuf ≤ t.1 ∧ t.1 < convBuf + 64

section

variable {rounds convBuf : Nat} {st st' st'' : PrintfState}

/-- Nothing is stored. -/
theorem storesInside_of_eq (hmem : st'.mem = st.mem) (hstores : st'.stores = st.stores) :
    StoresInside convBuf st st' :=
  ⟨[], hmem, hstores.trans (List.append_nil _).symm, fun _ ht => absurd ht List.not_mem_nil⟩

theorem StoresInside.trans (h : StoresInside convBuf st st') (h' : StoresInside convBuf st' st'') :
    StoresInside convBuf st st'' := by
  obtain ⟨stores, hmem, hstores, hin⟩ := h
  obtain ⟨stores', hmem', hstores', hin'⟩ := h'
  refine ⟨stores ++ stores', ?_, ?_, fun t ht => ?_⟩
  · rw [hmem', hmem, storeAll_append]
  · rw [hstores', hstores, List.append_assoc]
  · rcases List.mem_append.mp ht with ht | ht
    · exact hin t ht
    · exact hin' t ht

theorem PrintsArg.storesInside {size : Nat} {P : UInt32 → List UInt8 → Prop}
    (h : PrintsArg convBuf size P st st') (hsize : size ≤ 64) : StoresInside convBuf st st' := by
  obtain ⟨_, stores, _, _, _, _, hmem, hstores, hin, _⟩ := h
  refine ⟨stores, hmem, hstores, fun t ht => ?_⟩
  have := hin t ht
  omega

theorem putString_storesInside {s : Nat} (h : st.putString rounds s = some st') :
    StoresInside convBuf st st' := by
  obtain ⟨l, _, rfl⟩ := Option.map_eq_some_iff.mp h
  exact storesInside_of_eq rfl rfl

/-- What a conversion leaves behind. -/
theorem storesInside_of_prints {size : Nat} {P : UInt32 → List UInt8 → Prop}
    {o : Option PrintfState} (h : ∃ st', o = some st' ∧ st'.buf = st.buf ∧
      PrintsArg convBuf size P st st') (hsize : size ≤ 64) (ho : o = some st') :
    StoresInside convBuf st st' := by
  obtain ⟨st₁, rfl, _, hprints⟩ := h
  cases ho
  exact hprints.storesInside hsize

theorem formatCharSwitch_storesInside (hrounds : 33 ≤ rounds) {n : Nat} {alternate : Bool}
    (h : PrintfState.formatCharSwitch rounds convBuf n alternate st = some st') :
    StoresInside convBuf st st' := by
  induction n generalizing alternate st with
  | zero => cases h
  | succ n ih =>
      unfold PrintfState.formatCharSwitch at h
      split_ifs at h
      -- `%%`
      · cases h
        exact storesInside_of_eq rfl rfl
      · have hrest : StoresInside convBuf st.nextChar st' := ih h
        exact hrest
      · cases alternate with
        | false => exact storesInside_of_prints (printHex_eq hrounds) (by decide) h
        | true => exact storesInside_of_prints (printHex_alternate_eq hrounds) (by decide) h
      · exact storesInside_of_prints (printUnsigned_eq hrounds) (by decide) h
      · exact storesInside_of_prints (printSigned_eq hrounds) (by decide) h
      -- `%c`
      · cases h
        exact storesInside_of_eq rfl rfl
      · obtain ⟨st₁, hst₁, rfl⟩ := Option.map_eq_some_iff.mp h
        have hput : StoresInside convBuf st st₁ := putString_storesInside hst₁
        exact hput
      -- another character: nothing is done
      · cases h
        exact storesInside_of_eq rfl rfl

theorem round_storesInside (hrounds : 33 ≤ rounds) (h : st.round rounds convBuf = some st') :
    StoresInside convBuf st st' := by
  obtain ⟨st₁, hst₁, rfl⟩ := Option.map_eq_some_iff.mp h
  split at hst₁
  · have hswitch : StoresInside convBuf st.nextChar st₁ :=
      formatCharSwitch_storesInside hrounds hst₁
    exact hswitch
  · cases hst₁
    exact storesInside_of_eq rfl rfl

theorem printfLoop_storesInside (hrounds : 33 ≤ rounds) {n : Nat}
    (h : printfLoop rounds convBuf n st = some st') : StoresInside convBuf st st' := by
  induction n generalizing st with
  | zero => cases h
  | succ n ih =>
      unfold printfLoop at h
      split at h
      · obtain ⟨st₁, hst₁, hrest⟩ := Option.bind_eq_some_iff.mp h
        exact (round_storesInside hrounds hst₁).trans (ih hrest)
      · cases h
        exact storesInside_of_eq rfl rfl

/-- **A call of `printf` changes no memory outside `conv_buf`**, whatever its format and
arguments. -/
theorem printf_unchanged (hrounds : 33 ≤ rounds) {m : Mem} {format esp : Nat} {r : Nat}
    (h : printf rounds convBuf m format esp = some (r, st')) {x : Nat}
    (hx : x < convBuf ∨ convBuf + 64 ≤ x) : st'.mem x = m x := by
  obtain ⟨st₁, hst₁, heq⟩ := Option.map_eq_some_iff.mp h
  cases heq
  obtain ⟨stores, hmem, _, hin⟩ := printfLoop_storesInside hrounds hst₁
  rw [hmem]
  apply storeAll_out
  intro t ht
  have := hin t ht
  omega

end

/-- **Number formatting is canonical.** For every value and every radix from 2 to 36, `itoa` puts
the canonical numeral with its NUL at the buffer and stores to no other byte, which are at most 33;
`%u`, `%x` and `%d` print the canonical numeral of their argument, and `%#x` eight hexadecimal
digits that evaluate to it, with all stores inside their conversion buffers. -/
theorem numbers_canonical {radix : UInt32} (hmin : 2 ≤ radix.toNat) (hmax : radix.toNat ≤ 36)
    {rounds : Nat} (hrounds : 33 ≤ rounds) :
    (∀ (m : Mem) (value : UInt32) (buf : Nat), ∃ stores l,
      itoa rounds m value buf radix = some stores ∧ IsString (storeAll stores m) buf l ∧
        Canonical radix.toNat l value.toNat ∧ l.length + 1 ≤ 33 ∧
        ∀ t ∈ stores, buf ≤ t.1 ∧ t.1 < buf + (l.length + 1)) ∧
      ∀ convBuf,
        Converts rounds convBuf 36 (ascii "%u") (fun v l => Canonical 10 l v.toNat) ∧
        Converts rounds convBuf 64 (ascii "%x") (fun v l => Canonical 16 l v.toNat) ∧
        Converts rounds convBuf 36 (ascii "%d")
          (fun v l => CanonicalSigned l (asInt32 v.toNat)) ∧
        Converts rounds convBuf 64 (ascii "%#x") (fun v l => EightHexDigits l v.toNat) := by
  constructor
  · intro m value buf
    obtain ⟨stores, hstores, hstring, hin⟩ := itoa_eq hmin hmax hrounds m value buf
    have hlen := numeral_length_le_32 hmin value
    refine ⟨stores, _, hstores, hstring, canonical_numeral hmin _, ?_, ?_⟩
    · rw [List.length_map]
      omega
    · rw [List.length_map]
      exact hin
  · intro convBuf
    exact ⟨converts_unsigned hrounds, converts_hex hrounds, converts_signed hrounds,
      converts_alternate hrounds⟩

/-- A format with the arguments -1 and 255 behind it. -/
def sampleFormat : Mem :=
  ofList (ascii "%d%#x" ++ [0, 0, 0] ++ [255, 255, 255, 255] ++ [255, 0, 0, 0])

/-- 255 to the base 16, and the rounds of `printf` at `%d` and at `%#x`. -/
theorem numbers_canonical_sample :
    (∃ stores l, itoa 33 (fun _ => 0) 255 0 16 = some stores ∧
      IsString (storeAll stores fun _ => 0) 0 l ∧ Canonical 16 l 255 ∧ l.length + 1 ≤ 33 ∧
      ∀ t ∈ stores, 0 ≤ t.1 ∧ t.1 < 0 + (l.length + 1)) ∧
    (∃ st, PrintfState.round 33 100 ⟨sampleFormat, 0, 8, [], []⟩ = some st ∧ st.buf = 2 ∧
      st.esp = 12 ∧ CanonicalSigned st.printed (-1)) ∧
    ∃ st, PrintfState.round 33 100 ⟨sampleFormat, 2, 12, [], []⟩ = some st ∧ st.buf = 5 ∧
      st.esp = 16 ∧ EightHexDigits st.printed 255 := by
  obtain ⟨hitoa, hprintf⟩ := @numbers_canonical 16 (by decide) (by decide) 33 (Nat.le_refl 33)
  obtain ⟨-, -, hsigned, halternate⟩ := hprintf 100
  refine ⟨hitoa (fun _ => 0) 255 0, ?_, ?_⟩
  · obtain ⟨st, hround, hbuf, l, _, _, hl, hprinted, hesp, -⟩ :=
      hsigned ⟨sampleFormat, 0, 8, [], []⟩ (by decide)
    rw [show asInt32 (PrintfState.arg ⟨sampleFormat, 0, 8, [], []⟩).toNat = -1 by decide] at hl
    exact ⟨st, hround, hbuf, hesp, hprinted ▸ hl⟩
  · obtain ⟨st, hround, hbuf, l, _, _, hl, hprinted, hesp, -⟩ :=
      halternate ⟨sampleFormat, 2, 12, [], []⟩ (by decide)
    rw [show (PrintfState.arg ⟨sampleFormat, 2, 12, [], []⟩).toNat = 255 by decide] at hl
    exact ⟨st, hround, hbuf, hesp, hprinted ▸ hl⟩

end Lib

end Ext2Kernel
