import Ext2Kernel.Fish.BlinkList

set_option autoImplicit false

/-! # The characters on the screen

Bit 0 of its status says which of its two characters a listed node shows. ADD sets the bit and
stores the ON character, and the tasklet stores the character of the bit that it is about to set.
SYNC copies the status of another node and chooses the character by it, but the condition of its
`cmovl` is never met, so that it stores the OFF character whatever the bit is. The screen agrees
with the list exactly until that shows (`screenAgrees_iff`).
-/

namespace Ext2Kernel

/-- The character of a node. -/
def BlinkStruct.shownChar (b : BlinkStruct) : UInt8 :=
  if b.status &&& 1 = 1 then b.onChar else b.offChar

namespace Blink

open StepSystem (Along Guarded)

/-! ## The bit -/

theorem status_bit (status : UInt16) : status &&& 1 = 0 ∨ status &&& 1 = 1 := by
  have hbit : (status &&& 1).toNat = status.toNat % 2 := by
    rw [UInt16.toNat_and]
    exact Nat.and_one_is_mod _
  rcases Nat.mod_two_eq_zero_or_one status.toNat with h | h
  · exact Or.inl (UInt16.toNat_inj.mp (hbit.trans h))
  · exact Or.inr (UInt16.toNat_inj.mp (hbit.trans h))

/-- `xorw $0x1` turns the bit. -/
theorem status_turned (status : UInt16) :
    (status ^^^ 1) &&& 1 = if status &&& 1 = 0 then 1 else 0 := by
  have hturn : (status ^^^ 1) &&& 1 = (status &&& 1) ^^^ 1 := by
    apply UInt16.toNat_inj.mp
    simp only [UInt16.toNat_and, UInt16.toNat_xor]
    exact Nat.and_xor_distrib_right
  rw [hturn]
  rcases status_bit status with h | h
  · rw [h]
    rfl
  · rw [h]
    rfl

/-- `test` with `$0x1` never leaves the sign flag set. -/
theorem not_lessAfterTest (status : UInt16) : lessAfterTest status = false := by
  have hsmall : (1 &&& status.toUInt8).toNat ≤ 1 := by
    rw [UInt8.toNat_and]
    exact Nat.and_le_left
  have hzero : (1 &&& status.toUInt8) >>> 7 = 0 := by
    apply UInt8.toNat_inj.mp
    rw [UInt8.toNat_shiftRight]
    show (1 &&& status.toUInt8).toNat >>> 7 = 0
    rw [Nat.shiftRight_eq_div_pow]
    omega
  unfold lessAfterTest
  rw [hzero]
  rfl

/-! ## The screen and the list -/

/-- The bytes of the listed nodes are those of their characters. -/
def Agrees (s : Blink) (l : List BlinkSlot) : Prop :=
  ∀ i ∈ l, s.vmem (offset (s.blinkArray i).location) = (s.blinkArray i).shownChar

/-- After a call: the list ends, and the byte of each node is that of its character. -/
def ScreenAgrees (s : Blink) : Prop := ∃ l, s.list.Lists l ∧ s.Agrees l

/-- The locations of the nodes. -/
def locations (s : Blink) (l : List BlinkSlot) : List UInt16 :=
  l.map fun i => (s.blinkArray i).location

/-- The listed locations are not 0 and pairwise distinct. -/
def DistinctLocations (s : Blink) : Prop := ∃ l, s.Listed l ∧ (s.locations l).Nodup

/-- The nodes that a call of SYNC finds. -/
def SyncFinds (rounds : Nat) (s : Blink) (arg : UInt32) (esi edi : BlinkSlot) : Prop :=
  s.mp1FindHelper rounds (arg >>> 16).toUInt16 = some (some esi) ∧
    s.mp1FindHelper rounds arg.toUInt16 = some (some edi)

/-- A SYNC that finds both its nodes finds the first one off, or the second one with the same
character for on and off. -/
def SyncsOff (rounds : Nat) (s : Blink) : Call → Prop
  | .sync arg => ∀ esi edi, SyncFinds rounds s arg esi edi →
      (s.blinkArray esi).status &&& 1 = 0 ∨ (s.blinkArray edi).onChar = (s.blinkArray edi).offChar
  | _ => True

theorem offset_injective {a b : UInt16} (h : offset a = offset b) : a = b := by
  unfold offset at h
  exact UInt16.toNat_inj.mp (by omega)

/-- At most the node `i` and its byte have changed, and the node is where it was. -/
structure ChangesOne (i : BlinkSlot) (s s' : Blink) : Prop where
  location : (s'.blinkArray i).location = (s.blinkArray i).location
  other : ∀ j ≠ i, s'.blinkArray j = s.blinkArray j
  vmem : ∀ a ≠ offset (s.blinkArray i).location, s'.vmem a = s.vmem a

section

variable {s s' : Blink} {l : List BlinkSlot} {i : BlinkSlot} {rounds : Nat}

theorem eq_of_location (hl : (s.locations l).Nodup) {j : BlinkSlot} (hi : i ∈ l) (hj : j ∈ l)
    (h : (s.blinkArray j).location = (s.blinkArray i).location) : j = i :=
  List.inj_on_of_nodup_map hl hj hi h

theorem locations_congr (h : ∀ j ∈ l, (s'.blinkArray j).location = (s.blinkArray j).location) :
    s'.locations l = s.locations l := List.map_congr_left h

/-- When one node changes, the screen still agrees with the list exactly if it does for this
node: the bytes of the others are elsewhere. -/
theorem Agrees.changesOne (h : s.Agrees l) (hl : (s.locations l).Nodup) (hi : i ∈ l)
    (hone : ChangesOne i s s') : s'.Agrees l ↔
      s'.vmem (offset (s'.blinkArray i).location) = (s'.blinkArray i).shownChar := by
  constructor
  · intro hall
    exact hall i hi
  · intro hself j hj
    by_cases hji : j = i
    · rw [hji]
      exact hself
    · rw [hone.other j hji]
      have hbyte : offset (s.blinkArray j).location ≠ offset (s.blinkArray i).location :=
        fun hoff => hji (eq_of_location hl hi hj (offset_injective hoff))
      rw [hone.vmem _ hbyte]
      exact h j hj

/-! ## The tasklet -/

theorem taskletNode_changesOne (i : BlinkSlot) : ChangesOne i s (s.taskletNode i) := by
  have hother : ∀ (s : Blink) (b : BlinkStruct), ∀ j ≠ i, (s.setSlot i b).blinkArray j
      = s.blinkArray j := fun s b j hj => Function.update_of_ne hj _ _
  refine ⟨(taskletNode_sameList i).location i, ?_, ?_⟩
  · unfold taskletNode
    dsimp only
    split
    · exact hother s _
    · split
      · exact hother _ _
      · exact hother _ _
  · intro a ha
    unfold taskletNode
    dsimp only
    split
    · rfl
    · split
      · exact Function.update_of_ne ha _ _
      · exact Function.update_of_ne ha _ _

/-- A node that counts down shows what it showed, and one that has counted down shows the
character of the turned bit. -/
theorem taskletNode_self
    (h : s.vmem (offset (s.blinkArray i).location) = (s.blinkArray i).shownChar) :
    (s.taskletNode i).vmem (offset ((s.taskletNode i).blinkArray i).location)
      = ((s.taskletNode i).blinkArray i).shownChar := by
  rw [(taskletNode_sameList i).location i]
  unfold taskletNode
  dsimp only
  split
  · show s.vmem _ = BlinkStruct.shownChar (Function.update s.blinkArray i _ i)
    rw [Function.update_self]
    exact h
  · split
    · rename_i hoff
      show Function.update s.vmem _ _ _ = BlinkStruct.shownChar (Function.update s.blinkArray i _ i)
      rw [Function.update_self, Function.update_self]
      unfold BlinkStruct.shownChar
      dsimp only
      rw [status_turned, if_pos hoff, if_pos rfl]
    · rename_i hon
      show Function.update s.vmem _ _ _ = BlinkStruct.shownChar (Function.update s.blinkArray i _ i)
      rw [Function.update_self, Function.update_self]
      unfold BlinkStruct.shownChar
      dsimp only
      rw [status_turned, if_neg hon, if_neg (by decide)]

/-- The tasklet, node after node. -/
theorem Agrees.foldl_taskletNode (h : s.Agrees l) (hl : (s.locations l).Nodup)
    {visited : List BlinkSlot} (hsub : ∀ i ∈ visited, i ∈ l) :
    (visited.foldl taskletNode s).Agrees l := by
  induction visited generalizing s with
  | nil => exact h
  | cons i visited ih =>
      have hi : i ∈ l := hsub i List.mem_cons_self
      have hnext : (s.taskletNode i).Agrees l :=
        (h.changesOne hl hi (taskletNode_changesOne i)).mpr (taskletNode_self (h i hi))
      have hlocs : (s.taskletNode i).locations l = s.locations l :=
        locations_congr fun j _ => (taskletNode_sameList i).location j
      apply ih hnext
      · rw [hlocs]
        exact hl
      · intro j hj
        exact hsub j (List.mem_cons_of_mem i hj)

/-! ## ADD and REMOVE -/

/-- ADD shows the ON character of a node that is on. -/
theorem Agrees.mp1IoctlAdd (h : s.Agrees l) {user : BlinkStruct}
    (hloc : user.location.toNat < BLINK_SLOTS) (hi : s.mp1Malloc = some i) (hfresh : i ∉ l)
    (hl : ((s.mp1IoctlAdd user).2.locations (i :: l)).Nodup) :
    (s.mp1IoctlAdd user).2.Agrees (i :: l) := by
  obtain ⟨_, _, hother, hself, hvmem⟩ := mp1IoctlAdd_eq hloc hi
  intro j hj
  rw [hvmem]
  rcases List.mem_cons.mp hj with rfl | hmem
  · rw [hself]
    show Function.update s.vmem (offset user.location) user.onChar (offset user.location) = _
    rw [Function.update_self]
    unfold BlinkStruct.shownChar
    exact (if_pos (show (1 : UInt16) &&& 1 = 1 by decide)).symm
  · have hne : j ≠ i := fun heq => hfresh (heq ▸ hmem)
    have hbyte : offset (s.blinkArray j).location ≠ offset user.location := by
      intro hoff
      apply hne
      apply eq_of_location hl List.mem_cons_self hj
      rw [hself, hother j hne]
      exact offset_injective hoff
    rw [hother j hne, Function.update_of_ne hbyte]
    exact h j hmem

theorem storeLink_shown (e q : Option BlinkSlot) (j : BlinkSlot) :
    ((s.storeLink e q).blinkArray j).shownChar = (s.blinkArray j).shownChar := by
  cases e with
  | none => rfl
  | some k =>
      by_cases hj : j = k
      · rw [hj]
        show BlinkStruct.shownChar (Function.update s.blinkArray k _ k) = _
        rw [Function.update_self]
        rfl
      · exact congrArg BlinkStruct.shownChar (Function.update_of_ne hj _ _)

theorem storeLink_vmem (e q : Option BlinkSlot) : (s.storeLink e q).vmem = s.vmem := by
  cases e with
  | none => rfl
  | some k => rfl

/-- REMOVE leaves the other nodes and the screen alone. -/
theorem Agrees.mp1IoctlRemove (h : s.Agrees l) {e q : Option BlinkSlot} {l' : List BlinkSlot}
    (hsub : ∀ j ∈ l', j ∈ l) (hi : i ∉ l') :
    ((s.storeLink e q).mp1Free i).Agrees l' := by
  intro j hj
  have hne : j ≠ i := fun heq => hi (heq ▸ hj)
  have hslot : ((s.storeLink e q).mp1Free i).blinkArray j = (s.storeLink e q).blinkArray j :=
    Function.update_of_ne hne _ _
  rw [hslot, storeLink_location, storeLink_shown]
  show (s.storeLink e q).vmem _ = _
  rw [storeLink_vmem]
  exact h j (hsub j hj)

/-! ## SYNC -/

theorem SyncFinds.unique {arg : UInt32} {esi edi esi' edi' : BlinkSlot}
    (h : SyncFinds rounds s arg esi edi) (h' : SyncFinds rounds s arg esi' edi') :
    esi = esi' ∧ edi = edi' := by
  constructor
  · exact Option.some.inj (Option.some.inj (h.1.symm.trans h'.1))
  · exact Option.some.inj (Option.some.inj (h.2.symm.trans h'.2))

theorem syncsOff_iff {arg : UInt32} {esi edi : BlinkSlot}
    (h : SyncFinds rounds s arg esi edi) : SyncsOff rounds s (.sync arg) ↔
      (s.blinkArray esi).status &&& 1 = 0 ∨
        (s.blinkArray edi).onChar = (s.blinkArray edi).offChar := by
  constructor
  · intro hoff
    exact hoff esi edi h
  · intro hoff esi' edi' h'
    obtain ⟨rfl, rfl⟩ := h.unique h'
    exact hoff

/-- When the OFF character is the right one. -/
theorem offChar_right_iff (status : UInt16) (onChar offChar : UInt8) :
    (offChar = if status &&& 1 = 1 then onChar else offChar) ↔
      status &&& 1 = 0 ∨ onChar = offChar := by
  rcases status_bit status with hbit | hbit
  · have hoff : ¬ status &&& 1 = 1 := by
      rw [hbit]
      decide
    rw [if_neg hoff]
    exact iff_of_true rfl (Or.inl hbit)
  · have hon : ¬ status &&& 1 = 0 := by
      rw [hbit]
      decide
    rw [if_pos hbit, or_iff_right hon, eq_comm]

/-- SYNC changes the second node, and shows the OFF character. -/
theorem Listed.mp1IoctlSync_screen (h : Listed s l) (hrounds : BLINK_SLOTS < rounds)
    (arg : UInt32) :
    (s.mp1IoctlSync rounds arg = some (-1, s) ∧ ∀ esi edi, ¬ SyncFinds rounds s arg esi edi) ∨
      ∃ esi edi s', SyncFinds rounds s arg esi edi ∧ edi ∈ l ∧
        s.mp1IoctlSync rounds arg = some (0, s') ∧ ChangesOne edi s s' ∧
        s'.vmem (offset (s'.blinkArray edi).location) = (s.blinkArray edi).offChar ∧
        (s'.blinkArray edi).shownChar = if (s.blinkArray esi).status &&& 1 = 1
          then (s.blinkArray edi).onChar else (s.blinkArray edi).offChar := by
  unfold Blink.mp1IoctlSync SyncFinds
  rw [h.mp1FindHelper hrounds, h.mp1FindHelper hrounds, Option.bind_some]
  cases hesi : l.find? fun i => decide ((s.blinkArray i).location = (arg >>> 16).toUInt16) with
  | none =>
      refine Or.inl ⟨rfl, fun _ _ hfinds => ?_⟩
      cases hfinds.1
  | some esi =>
      cases hedi : l.find? fun i => decide ((s.blinkArray i).location = arg.toUInt16) with
      | none =>
          refine Or.inl ⟨rfl, fun _ _ hfinds => ?_⟩
          cases hfinds.2
      | some edi =>
          right
          refine ⟨esi, edi, _, ⟨rfl, rfl⟩, List.mem_of_find?_eq_some hedi, rfl,
            ⟨?_, fun j hj => ?_, fun a ha => ?_⟩, ?_, ?_⟩
          · show (Function.update s.blinkArray edi _ edi).location = _
            rw [Function.update_self]
          · exact Function.update_of_ne hj _ _
          · exact Function.update_of_ne ha _ _
          · show Function.update s.vmem _ _
              (offset (Function.update s.blinkArray edi _ edi).location) = _
            rw [Function.update_self, Function.update_self, not_lessAfterTest]
            rfl
          · show BlinkStruct.shownChar (Function.update s.blinkArray edi _ edi) = _
            rw [Function.update_self]
            rfl

/-! ## Every call -/

theorem screenAgrees_iff_agrees (hl : s.list.Lists l) : ScreenAgrees s ↔ s.Agrees l := by
  constructor
  · rintro ⟨l', hl', hagrees⟩
    have heq : l' = l := LinkedStacks.Chain.unique hl' hl
    rw [← heq]
    exact hagrees
  · intro hagrees
    exact ⟨l, hl, hagrees⟩

theorem DistinctLocations.nodup (h : DistinctLocations s) (hl : s.list.Lists l) :
    (s.locations l).Nodup := by
  obtain ⟨l', hl', hnodup⟩ := h
  have heq : l' = l := LinkedStacks.Chain.unique hl'.lists hl
  rw [← heq]
  exact hnodup

/-- After an ADD at location 0 a listed location is 0. -/
theorem addsElsewhere_of_distinctLocations {user : BlinkStruct}
    (h : DistinctLocations (s.mp1IoctlAdd user).2) :
    user.location ≠ 0 ∨ s.mp1Malloc = none := by
  by_contra hno
  obtain ⟨hzero, hmalloc⟩ := not_or.mp hno
  obtain ⟨i, hi⟩ := Option.ne_none_iff_exists'.mp hmalloc
  obtain ⟨hlist, hagain⟩ := mp1Malloc_of_add_zero (not_not.mp hzero) hi
  obtain ⟨l, hl, _⟩ := h
  have hhead : l.head? = some i := by
    rw [hl.lists.head?_eq, hlist]
    rfl
  exact hl.mp1Malloc_not_mem hagain (List.mem_of_mem_head? hhead)

theorem Listed.call_tasklet (h : Listed s l) (hrounds : BLINK_SLOTS < rounds) :
    s.call rounds .tasklet = some (0, l.foldl taskletNode s) := by
  show (s.mp1RtcTasklet rounds).map _ = _
  rw [h.mp1RtcTasklet hrounds]
  rfl

theorem step_eq {e : Call} {r : Int} (hcall : s.call rounds e = some (r, s'))
    {s₁ : Blink} (hs₁ : step rounds s e = some s₁) : s₁ = s' := by
  have hstep : step rounds s e = some s' := congrArg (Option.map Prod.snd) hcall
  exact Option.some.inj (hs₁.symm.trans hstep)

/-- A call returns, and the screen agrees with the list afterwards exactly if a SYNC finds its
first node off or its second one with one character for both. -/
theorem screenAgrees_call {e : Call} (hrounds : BLINK_SLOTS < rounds) (hd : DistinctLocations s)
    (hs : ScreenAgrees s) (hnext : ∀ s', step rounds s e = some s' → DistinctLocations s') :
    ∃ r s', s.call rounds e = some (r, s') ∧ (ScreenAgrees s' ↔ SyncsOff rounds s e) := by
  obtain ⟨l, hl, hnodup⟩ := hd
  have hagrees : s.Agrees l := (screenAgrees_iff_agrees hl.lists).mp hs
  cases e with
  | add user =>
      have hok := addsElsewhere_of_distinctLocations (hnext _ rfl)
      rcases hl.mp1IoctlAdd hok with hcall | ⟨i, s', hcall, hs', hi, hloc⟩
      · exact ⟨-1, s, congrArg some hcall, iff_of_true hs trivial⟩
      · refine ⟨0, s', congrArg some hcall, iff_of_true ⟨i :: l, hs'.lists, ?_⟩ trivial⟩
        have hstate : (s.mp1IoctlAdd user).2 = s' := congrArg Prod.snd hcall
        rw [← hstate] at hs' ⊢
        apply hagrees.mp1IoctlAdd hloc hi (hl.mp1Malloc_not_mem hi)
        exact (hnext _ rfl).nodup hs'.lists
  | remove arg =>
      rcases hl.mp1IoctlRemove hrounds arg with hcall | ⟨i, l₁, l₂, s', heq, hcall, hs', hstate⟩
      · exact ⟨-1, s, hcall, iff_of_true hs trivial⟩
      · refine ⟨0, s', hcall, iff_of_true ⟨l₁ ++ l₂, hs'.lists, ?_⟩ trivial⟩
        have hdistinct : (i :: (l₁ ++ l₂)).Nodup := by
          rw [← List.nodup_middle, ← heq]
          exact hl.lists.nodup
        rw [hstate]
        apply hagrees.mp1IoctlRemove
        · intro j hj
          rw [heq, List.perm_middle.mem_iff]
          exact List.mem_cons_of_mem i hj
        · exact (List.nodup_cons.mp hdistinct).1
  | find user =>
      obtain ⟨r, hfind⟩ := hl.mp1IoctlFind hrounds user
      refine ⟨r.1, s, ?_, iff_of_true hs trivial⟩
      show (s.mp1IoctlFind rounds user).map _ = _
      rw [hfind, Option.map_some]
  | sync arg =>
      rcases hl.mp1IoctlSync_screen hrounds arg with
        ⟨hcall, hnone⟩ | ⟨esi, edi, s', hfinds, hedi, hcall, hone, hbyte, hshown⟩
      · exact ⟨-1, s, hcall, iff_of_true hs fun esi edi hfinds => absurd hfinds (hnone esi edi)⟩
      · refine ⟨0, s', hcall, ?_⟩
        have hsame : SameList s s' := by
          obtain ⟨r, s₁, hcall₁, hsame⟩ := hl.mp1IoctlSync hrounds arg
          rw [hcall] at hcall₁
          cases hcall₁
          exact hsame
        rw [screenAgrees_iff_agrees (hl.congr hsame).lists, hagrees.changesOne hnodup hedi hone,
          hbyte, hshown, syncsOff_iff hfinds]
        exact offChar_right_iff _ _ _
  | tasklet =>
      refine ⟨0, l.foldl taskletNode s, hl.call_tasklet hrounds, iff_of_true ⟨l, ?_, ?_⟩ trivial⟩
      · exact (hl.congr (foldl_taskletNode_sameList l)).lists
      · exact hagrees.foldl_taskletNode hnodup fun i hi => hi

end

/-! ## Runs of calls -/

theorem start_distinctLocations (vmem : Nat → UInt8) : DistinctLocations (start vmem) :=
  ⟨[], start_listed vmem, List.nodup_nil⟩

theorem start_screenAgrees (vmem : Nat → UInt8) : ScreenAgrees (start vmem) :=
  ⟨[], (start_listed vmem).lists, fun _ hi => absurd hi List.not_mem_nil⟩

/-- **The screen agrees with the list exactly while a SYNC does not have to show an ON character**:
for every sequence of calls that keeps the listed locations non-zero and distinct, all calls return
and after each of them the byte of every listed node is that of its status, if and only if every
SYNC that finds both its nodes finds bit 0 of the first one's status clear, or the second one with
the same character for on and off. -/
theorem screenAgrees_iff {rounds : Nat} (hrounds : BLINK_SLOTS < rounds) (vmem : Nat → UInt8)
    (es : List Call) (hdistinct : Along (step rounds) DistinctLocations (start vmem) es) :
    (Along (step rounds) ScreenAgrees (start vmem) es ∧
      Guarded (step rounds) (fun s e => (s.call rounds e).isSome = true) (start vmem) es) ↔
      Guarded (step rounds) (SyncsOff rounds) (start vmem) es := by
  let P : Blink → Prop := fun s => DistinctLocations s ∧ ScreenAgrees s
  have hstart : P (start vmem) := ⟨start_distinctLocations vmem, start_screenAgrees vmem⟩
  refine StepSystem.along_and_guarded_iff_within (P := P) (fun s hs => hs.2) ?_ ?_ hstart hdistinct
  · rintro s e ⟨hd, hs⟩ hnext hok
    obtain ⟨r, s', hcall, hiff⟩ := screenAgrees_call hrounds hd hs hnext
    refine ⟨congrArg Option.isSome hcall, fun s₁ hs₁ => ⟨hnext s₁ hs₁, ?_⟩⟩
    rw [step_eq hcall hs₁]
    exact hiff.mpr hok
  · rintro s e ⟨hd, hs⟩ hnext hok ⟨_, hagrees⟩
    obtain ⟨r, s', hcall, hiff⟩ := screenAgrees_call hrounds hd hs hnext
    have hstep : step rounds s e = some s' := congrArg (Option.map Prod.snd) hcall
    exact hok (hiff.mp (hagrees s' hstep))

/-! ## One character and two -/

section

variable {rounds : Nat}

section

variable {s s' : Blink}

theorem DistinctLocations.congr (h : DistinctLocations s) (hsame : SameList s s') :
    DistinctLocations s' := by
  obtain ⟨l, hl, hnodup⟩ := h
  have hlocations : s'.locations l = s.locations l :=
    List.map_congr_left fun i _ => hsame.location i
  exact ⟨l, hl.congr hsame, hlocations ▸ hnodup⟩

/-- The tasklet and SYNC leave the list alone. -/
theorem DistinctLocations.tasklet (h : DistinctLocations s) (hrounds : BLINK_SLOTS < rounds)
    (hstep : step rounds s .tasklet = some s') : DistinctLocations s' := by
  obtain ⟨l, hl, _⟩ := id h
  rw [step_eq (hl.call_tasklet hrounds) hstep]
  exact h.congr (foldl_taskletNode_sameList l)

theorem DistinctLocations.sync (h : DistinctLocations s) (hrounds : BLINK_SLOTS < rounds)
    {arg : UInt32} (hstep : step rounds s (.sync arg) = some s') : DistinctLocations s' := by
  obtain ⟨l, hl, _⟩ := id h
  obtain ⟨r, s₁, hcall, hsame⟩ := hl.mp1IoctlSync hrounds arg
  rw [step_eq (e := .sync arg) hcall hstep]
  exact h.congr hsame

theorem DistinctLocations.pair {i j : BlinkSlot} (hhead : s.mp1ListHead = some i)
    (hnext : (s.blinkArray i).next = some j) (hlast : (s.blinkArray j).next = none)
    (hi : (s.blinkArray i).location ≠ 0) (hj : (s.blinkArray j).location ≠ 0)
    (hne : (s.blinkArray i).location ≠ (s.blinkArray j).location) : DistinctLocations s := by
  refine ⟨[i, j], ⟨?_, ?_⟩, ?_⟩
  · show LinkedStacks.Chain s.list.next s.mp1ListHead _
    rw [hhead]
    refine .cons ?_
    show LinkedStacks.Chain s.list.next (s.blinkArray i).next _
    rw [hnext]
    refine .cons ?_
    show LinkedStacks.Chain s.list.next (s.blinkArray j).next _
    rw [hlast]
    exact .nil
  · simp [hi, hj]
  · simp [locations, hne]

end

theorem Listed.distinctLocations_singleton {s : Blink} {i : BlinkSlot} (h : Listed s [i]) :
    DistinctLocations s := ⟨[i], h, List.nodup_singleton _⟩

/-- The first character. -/
theorem start_add (vmem : Nat → UInt8) (user : BlinkStruct) (hzero : user.location ≠ 0)
    (hloc : user.location.toNat < BLINK_SLOTS) :
    Listed ((start vmem).mp1IoctlAdd user).2 [0] ∧
      ((start vmem).mp1IoctlAdd user).2.blinkArray 0 = { user with
        status := 1
        countdown := user.onLength
        next := none } := by
  obtain ⟨hret, _, _, hself, _⟩ := mp1IoctlAdd_eq hloc (start_mp1Malloc vmem)
  refine ⟨?_, hself⟩
  rcases (start_listed vmem).mp1IoctlAdd (Or.inl hzero) with hcall | ⟨i, s', hcall, hs', hi, _⟩
  · rw [hcall] at hret
    exact absurd (show (-1 : Int) = 0 from hret) (by decide)
  · rw [start_mp1Malloc] at hi
    cases hi
    rw [hcall]
    exact hs'

/-- A SYNC of the only character with itself, while it is on. -/
theorem not_screenAgrees_sync_self {s s' : Blink} {i : BlinkSlot} {arg : UInt32}
    (h : Listed s [i]) (hrounds : BLINK_SLOTS < rounds) (hs : ScreenAgrees s)
    (hhigh : (s.blinkArray i).location = (arg >>> 16).toUInt16)
    (hlow : (s.blinkArray i).location = arg.toUInt16) (hbit : (s.blinkArray i).status &&& 1 = 1)
    (hchars : (s.blinkArray i).onChar ≠ (s.blinkArray i).offChar)
    (hstep : step rounds s (.sync arg) = some s') :
    DistinctLocations s' ∧ ¬ ScreenAgrees s' := by
  have hd : DistinctLocations s' := h.distinctLocations_singleton.sync hrounds hstep
  refine ⟨hd, fun hagrees => ?_⟩
  have hnext : ∀ s₁, step rounds s (.sync arg) = some s₁ → DistinctLocations s₁ := by
    intro s₁ hs₁
    rw [← Option.some.inj (hstep.symm.trans hs₁)]
    exact hd
  obtain ⟨r, s₁, hcall, hiff⟩ :=
    screenAgrees_call hrounds h.distinctLocations_singleton hs hnext
  rw [← step_eq hcall hstep] at hiff
  have hfound : ∀ a, (s.blinkArray i).location = a →
      s.mp1FindHelper rounds a = some (some i) := by
    intro a ha
    rw [h.mp1FindHelper hrounds]
    exact congrArg some (List.find?_cons_of_pos (decide_eq_true ha))
  rcases hiff.mp hagrees i i ⟨hfound _ hhigh, hfound _ hlow⟩ with hoff | hsame
  · rw [hbit] at hoff
    exact absurd hoff (by decide)
  · exact hchars hsame

end

/-- A character at location 5. -/
def sampleBlink : BlinkStruct :=
  { BlinkStruct.zero with location := 5, onChar := 65, offChar := 66 }

/-- The state after its ADD. -/
def sampleAdded : Blink := ((start fun _ => 0).mp1IoctlAdd sampleBlink).2

theorem sampleAdded_step : step 2001 (start fun _ => 0) (.add sampleBlink) = some sampleAdded :=
  rfl

theorem sampleAdded_listed : Listed sampleAdded [0] :=
  (start_add _ sampleBlink (by decide) (by decide)).1

theorem sampleAdded_slot : sampleAdded.blinkArray 0 = { sampleBlink with status := 1 } := by
  have hslot := (start_add (fun _ => 0) sampleBlink (by decide) (by decide)).2
  unfold sampleAdded
  rw [hslot]
  rfl

/-- A slower character at location 6. -/
def sampleSlow : BlinkStruct :=
  { BlinkStruct.zero with location := 6, onChar := 67, offChar := 68, onLength := 2 }

/-- Two characters are added, the first one goes off, and the second one is set in step with it. -/
def twoBlinks : List Call := [.add sampleBlink, .add sampleSlow, .tasklet, .sync 0x00050006]

/-- The two characters agree with the screen, in particular after the SYNC, which finds the first
one off. -/
theorem screenAgrees_iff_two :
    Along (step 2001) ScreenAgrees (start fun _ => 0) twoBlinks ∧
      Guarded (step 2001) (fun s e => (s.call 2001 e).isSome = true) (start fun _ => 0)
        twoBlinks := by
  have hrounds : BLINK_SLOTS < 2001 := by decide
  have hpair : ∀ s, step 2001 sampleAdded (.add sampleSlow) = some s → DistinctLocations s := by
    have hview : (step 2001 sampleAdded (.add sampleSlow)).map (fun s =>
        decide (s.mp1ListHead = some 1 ∧ (s.blinkArray 1).next = some 0 ∧
          (s.blinkArray 0).next = none ∧ (s.blinkArray 1).location = 6 ∧
          (s.blinkArray 0).location = 5)) = some true := by
      decide +kernel
    obtain ⟨s₁, hs₁, hhead, hnext, hlast, hone, hzero⟩ := StepSystem.exists_of_map_decide hview
    intro s hs
    rw [← Option.some.inj (hs₁.symm.trans hs)]
    refine .pair hhead hnext hlast ?_ ?_ ?_
    · rw [hone]
      decide
    · rw [hzero]
      decide
    · rw [hone, hzero]
      decide
  have hoff : ∀ s s', step 2001 sampleAdded (.add sampleSlow) = some s →
      step 2001 s .tasklet = some s' → SyncsOff 2001 s' (.sync 0x00050006) := by
    have hview : ((step 2001 sampleAdded (.add sampleSlow)).bind fun s =>
        step 2001 s .tasklet).map (fun s =>
          decide (s.mp1FindHelper 2001 5 = some (some 0) ∧ (s.blinkArray 0).status = 0))
        = some true := by
      decide +kernel
    obtain ⟨s₂, hs₂, hfound, hstatus⟩ := StepSystem.exists_of_map_decide hview
    intro s s' hs hs' esi edi hfinds
    have hlast : s₂ = s' := by
      rw [hs, Option.bind_some, hs'] at hs₂
      exact (Option.some.inj hs₂).symm
    subst hlast
    have hfirst : esi = 0 := Option.some.inj (Option.some.inj (hfinds.1.symm.trans hfound))
    left
    rw [hfirst, hstatus]
    decide
  have hadd : ∀ s, step 2001 (start fun _ => 0) (.add sampleBlink) = some s → s = sampleAdded :=
    fun s hs => Option.some.inj (hs.symm.trans sampleAdded_step)
  have hdistinct : Along (step 2001) DistinctLocations (start fun _ => 0) twoBlinks := by
    refine ⟨start_distinctLocations _, fun s₁ hs₁ => ?_⟩
    rw [hadd s₁ hs₁]
    refine ⟨sampleAdded_listed.distinctLocations_singleton, fun s₂ hs₂ => ?_⟩
    refine ⟨hpair s₂ hs₂, fun s₃ hs₃ => ?_⟩
    have hthird := (hpair s₂ hs₂).tasklet hrounds hs₃
    exact ⟨hthird, fun s₄ hs₄ => hthird.sync hrounds hs₄⟩
  refine (screenAgrees_iff hrounds _ _ hdistinct).mpr ⟨trivial, fun s₁ hs₁ => ?_⟩
  rw [hadd s₁ hs₁]
  exact ⟨trivial, fun s₂ hs₂ => ⟨trivial, fun s₃ hs₃ => ⟨hoff s₂ s₃ hs₂ hs₃, fun _ _ => trivial⟩⟩⟩

/-- A SYNC of a character that is on with itself shows its OFF character. -/
theorem sync_shows_offChar : ¬ ∀ (rounds : Nat) (vmem : Nat → UInt8) (es : List Call),
    BLINK_SLOTS < rounds → Along (step rounds) DistinctLocations (start vmem) es →
      Along (step rounds) ScreenAgrees (start vmem) es := by
  intro hall
  have hone : DistinctLocations sampleAdded := sampleAdded_listed.distinctLocations_singleton
  have hs : ScreenAgrees sampleAdded := by
    have hnext : ∀ s', step 2001 (start fun _ => 0) (.add sampleBlink) = some s' →
        DistinctLocations s' := by
      intro s' hs'
      rw [← Option.some.inj (sampleAdded_step.symm.trans hs')]
      exact hone
    obtain ⟨r, s', hcall, hiff⟩ := screenAgrees_call (by decide) (start_distinctLocations _)
      (start_screenAgrees fun _ => 0) hnext
    rw [← step_eq hcall sampleAdded_step] at hiff
    exact hiff.mpr trivial
  have hsync : ∀ s', step 2001 sampleAdded (.sync 0x00050005) = some s' →
      DistinctLocations s' ∧ ¬ ScreenAgrees s' := by
    intro s' hs'
    refine not_screenAgrees_sync_self sampleAdded_listed (by decide) hs ?_ ?_ ?_ ?_ hs'
    · rw [sampleAdded_slot]
      decide
    · rw [sampleAdded_slot]
      decide
    · rw [sampleAdded_slot]
      decide
    · rw [sampleAdded_slot]
      decide
  have hdistinct : Along (step 2001) DistinctLocations (start fun _ => 0)
      [.add sampleBlink, .sync 0x00050005] := by
    refine ⟨start_distinctLocations _, fun s hs => ?_⟩
    rw [← Option.some.inj (sampleAdded_step.symm.trans hs)]
    exact ⟨hone, fun s' hs' => (hsync s' hs').1⟩
  have hagrees := hall 2001 _ _ (by decide) hdistinct
  obtain ⟨r, s', hcall, _⟩ :=
    sampleAdded_listed.mp1IoctlSync (show BLINK_SLOTS < 2001 by decide) 0x00050005
  have hstep : step 2001 sampleAdded (.sync 0x00050005) = some s' :=
    congrArg (Option.map Prod.snd) hcall
  exact (hsync s' hstep).2 ((hagrees.2 sampleAdded sampleAdded_step).2 s' hstep)

end Blink

end Ext2Kernel
