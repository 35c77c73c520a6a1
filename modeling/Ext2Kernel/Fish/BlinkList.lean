import Ext2Kernel.Fish.Blink

set_option autoImplicit false

/-! # The list of blinking characters is well formed

`mp1_malloc` takes a slot with location 0 for a free one. While all listed slots have other
locations (`Listed`), a call keeps the list finite and without cycles, its walks end, and the
allocator hands out slots that are not listed. An ADD at location 0 ends this at once: the slot
it has just listed is the one that the allocator hands out next (`wellFormed_iff`).
-/

namespace Ext2Kernel

namespace Blink

open StepSystem (Along Guarded withHistory)

/-! ## Listed slots -/

/-- The list holds the slots `l`, none of which has location 0. -/
structure Listed (s : Blink) (l : List BlinkSlot) : Prop where
  lists : s.list.Lists l
  located : ∀ i ∈ l, (s.blinkArray i).location ≠ 0

/-- The list and the locations of `s'` are those of `s`. -/
structure SameList (s s' : Blink) : Prop where
  list : s'.list = s.list
  location : ∀ i, (s'.blinkArray i).location = (s.blinkArray i).location

theorem SameList.refl (s : Blink) : SameList s s := ⟨rfl, fun _ => rfl⟩

theorem SameList.trans {s s' s'' : Blink} (h : SameList s s') (h' : SameList s' s'') :
    SameList s s'' :=
  ⟨h'.list.trans h.list, fun i => (h'.location i).trans (h.location i)⟩

section

variable {s s' : Blink} {l : List BlinkSlot} {rounds : Nat}

theorem Listed.congr (h : Listed s l) (hsame : SameList s s') : Listed s' l := by
  refine ⟨?_, fun i hi => ?_⟩
  · rw [hsame.list]
    exact h.lists
  · rw [hsame.location i]
    exact h.located i hi

theorem Listed.length (h : Listed s l) : l.length ≤ BLINK_SLOTS := by
  have hcard := h.lists.length_le
  rwa [Fintype.card_fin] at hcard

theorem start_listed (vmem : Nat → UInt8) : Listed (start vmem) [] :=
  ⟨LinkedStacks.Chain.nil, fun _ hi => absurd hi List.not_mem_nil⟩

/-! ## Stores -/

theorem list_setSlot (i : BlinkSlot) (b : BlinkStruct) : (s.setSlot i b).list
    = ⟨s.mp1ListHead, Function.update s.list.next i b.next⟩ := by
  have hnext : (s.setSlot i b).list.next = Function.update s.list.next i b.next := by
    funext j
    unfold setSlot list
    dsimp only
    by_cases hj : j = i
    · rw [hj, Function.update_self, Function.update_self]
    · rw [Function.update_of_ne hj, Function.update_of_ne hj]
  rw [← hnext]
  rfl

theorem list_storeLink (e q : Option BlinkSlot) : (s.storeLink e q).list = s.list.setLink e q := by
  cases e with
  | none => rfl
  | some i => exact list_setSlot i _

theorem location_setSlot_of_ne {i j : BlinkSlot} (hj : j ≠ i) (b : BlinkStruct) :
    ((s.setSlot i b).blinkArray j).location = (s.blinkArray j).location :=
  congrArg BlinkStruct.location (Function.update_of_ne hj _ _)

/-- A store that keeps the location and the link of its slot. -/
theorem setSlot_sameList {i : BlinkSlot} {b : BlinkStruct}
    (hloc : b.location = (s.blinkArray i).location) (hnext : b.next = (s.blinkArray i).next) :
    SameList s (s.setSlot i b) := by
  constructor
  · rw [list_setSlot, hnext]
    have hself : Function.update s.list.next i (s.list.next i) = s.list.next :=
      Function.update_eq_self i _
    exact congrArg (LinkedList.mk s.mp1ListHead) hself
  · intro j
    by_cases hj : j = i
    · rw [hj, ← hloc]
      exact congrArg BlinkStruct.location (Function.update_self ..)
    · exact location_setSlot_of_ne hj b

theorem storeLink_location (e q : Option BlinkSlot) (j : BlinkSlot) :
    ((s.storeLink e q).blinkArray j).location = (s.blinkArray j).location := by
  cases e with
  | none => rfl
  | some i =>
      by_cases hj : j = i
      · rw [hj]
        show (Function.update s.blinkArray i { s.blinkArray i with next := q } i).location = _
        rw [Function.update_self]
      · exact location_setSlot_of_ne hj _

theorem mp1Poke_sameList (eax : Nat) (cl : UInt8) : SameList s (s.mp1Poke eax cl) :=
  ⟨rfl, fun _ => rfl⟩

/-! ## The allocator -/

/-- The slot handed out has location 0. -/
theorem mp1Malloc_location {i : BlinkSlot} (h : s.mp1Malloc = some i) :
    (s.blinkArray i).location = 0 :=
  of_decide_eq_true (Fin.find?_eq_some_iff.mp h).1

/-- The allocator looks at the locations only. -/
theorem mp1Malloc_congr (h : ∀ i, (s'.blinkArray i).location = (s.blinkArray i).location) :
    s'.mp1Malloc = s.mp1Malloc := by
  unfold mp1Malloc
  apply congrArg Fin.find?
  funext i
  rw [h i]

theorem Listed.mp1Malloc_not_mem (h : Listed s l) {i : BlinkSlot} (hi : s.mp1Malloc = some i) :
    i ∉ l :=
  fun hmem => h.located i hmem (mp1Malloc_location hi)

/-! ## The calls -/

/-- `mp1_find_helper` ends. -/
theorem Listed.mp1FindHelper (h : Listed s l) (hrounds : BLINK_SLOTS < rounds) (a : UInt16) :
    s.mp1FindHelper rounds a = some (l.find? fun i => decide ((s.blinkArray i).location = a)) :=
  LinkedList.find_eq h.lists (Nat.lt_of_le_of_lt h.length hrounds)

theorem taskletNode_sameList (i : BlinkSlot) : SameList s (s.taskletNode i) := by
  unfold taskletNode
  dsimp only
  split
  · exact setSlot_sameList rfl rfl
  · split
    · exact (mp1Poke_sameList _ _).trans (setSlot_sameList rfl rfl)
    · exact (mp1Poke_sameList _ _).trans (setSlot_sameList rfl rfl)

/-- The tasklet visits the listed slots, one after the other. -/
theorem taskletLoop_eq {n : Nat} {ebx : Option BlinkSlot}
    (h : LinkedStacks.Chain s.list.next ebx l) (hn : l.length < n) :
    taskletLoop n ebx s = some (l.foldl taskletNode s) := by
  induction l generalizing s n ebx with
  | nil =>
      cases h
      cases n with
      | zero => exact absurd hn (Nat.not_lt_zero _)
      | succ n => rfl
  | cons i l ih =>
      cases h with
      | cons hrest =>
          cases n with
          | zero => exact absurd hn (Nat.not_lt_zero _)
          | succ n =>
              have hlist : (s.taskletNode i).list = s.list := (taskletNode_sameList i).list
              have hnext : ((s.taskletNode i).blinkArray i).next = s.list.next i :=
                congrArg (fun r => LinkedList.next r i) hlist
              unfold taskletLoop
              rw [hnext, List.foldl_cons]
              apply ih
              · rw [hlist]
                exact hrest
              · exact Nat.lt_of_succ_lt_succ hn

theorem foldl_taskletNode_sameList (l : List BlinkSlot) :
    SameList s (l.foldl taskletNode s) := by
  induction l generalizing s with
  | nil => exact SameList.refl s
  | cons i l ih => exact (taskletNode_sameList i).trans ih

theorem Listed.mp1RtcTasklet (h : Listed s l) (hrounds : BLINK_SLOTS < rounds) :
    s.mp1RtcTasklet rounds = some (l.foldl taskletNode s) :=
  taskletLoop_eq h.lists (Nat.lt_of_le_of_lt h.length hrounds)

/-- `mp1_ioctl_add` with the slot of the allocator. -/
theorem mp1IoctlAdd_eq {user : BlinkStruct} (hloc : user.location.toNat < BLINK_SLOTS)
    {i : BlinkSlot} (hi : s.mp1Malloc = some i) :
    (s.mp1IoctlAdd user).1 = 0 ∧ (s.mp1IoctlAdd user).2.list = s.list.insert i ∧
      (∀ j ≠ i, (s.mp1IoctlAdd user).2.blinkArray j = s.blinkArray j) ∧
      (s.mp1IoctlAdd user).2.blinkArray i = { user with
        status := 1
        countdown := user.onLength
        next := s.mp1ListHead } ∧
      (s.mp1IoctlAdd user).2.vmem
        = Function.update s.vmem (offset user.location) user.onChar := by
  unfold mp1IoctlAdd
  rw [if_neg (Nat.not_le.mpr hloc), hi]
  refine ⟨rfl, ?_, fun j hj => ?_, ?_, rfl⟩
  · show LinkedList.mk (some i) (((s.setSlot i _).setSlot i _).list.next) = _
    rw [list_setSlot, list_setSlot]
    exact congrArg (LinkedList.mk (some i)) (Function.update_idem ..)
  · show Function.update (Function.update s.blinkArray i _) i _ j = _
    rw [Function.update_of_ne hj, Function.update_of_ne hj]
  · show Function.update (s.setSlot i _).blinkArray i _ i = _
    rw [Function.update_self]
    rfl

theorem mp1IoctlAdd_fail {user : BlinkStruct}
    (h : BLINK_SLOTS ≤ user.location.toNat ∨ s.mp1Malloc = none) :
    s.mp1IoctlAdd user = (-1, s) := by
  unfold mp1IoctlAdd
  split
  · rfl
  · rename_i hloc
    rw [h.resolve_left hloc]

/-- A call of ADD at another location than 0. -/
theorem Listed.mp1IoctlAdd (h : Listed s l) {user : BlinkStruct}
    (hok : user.location ≠ 0 ∨ s.mp1Malloc = none) :
    (s.mp1IoctlAdd user = (-1, s)) ∨
      ∃ i s', s.mp1IoctlAdd user = (0, s') ∧ Listed s' (i :: l) ∧ s.mp1Malloc = some i ∧
        user.location.toNat < BLINK_SLOTS := by
  by_cases hfail : BLINK_SLOTS ≤ user.location.toNat ∨ s.mp1Malloc = none
  · exact Or.inl (mp1IoctlAdd_fail hfail)
  · right
    obtain ⟨hloc, hmalloc⟩ := not_or.mp hfail
    obtain ⟨i, hi⟩ := Option.ne_none_iff_exists'.mp hmalloc
    obtain ⟨hret, hlist, hother, hself, _⟩ := mp1IoctlAdd_eq (Nat.lt_of_not_le hloc) hi
    have hfresh : i ∉ l := h.mp1Malloc_not_mem hi
    refine ⟨i, _, Prod.ext hret rfl, ⟨?_, fun j hj => ?_⟩, hi, Nat.lt_of_not_le hloc⟩
    · rw [hlist]
      exact h.lists.insert hfresh
    · rcases List.mem_cons.mp hj with rfl | hj
      · rw [hself]
        exact hok.resolve_right hmalloc
      · have hne : j ≠ i := fun heq => hfresh (heq ▸ hj)
        rw [hother j hne]
        exact h.located j hj

/-- A call of REMOVE takes the slot it finds off the list. -/
theorem Listed.mp1IoctlRemove (h : Listed s l) (hrounds : BLINK_SLOTS < rounds) (arg : UInt32) :
    s.mp1IoctlRemove rounds arg = some (-1, s) ∨
      ∃ i l₁ l₂ s', l = l₁ ++ i :: l₂ ∧ s.mp1IoctlRemove rounds arg = some (0, s') ∧
        Listed s' (l₁ ++ l₂) ∧
        s' = (s.storeLink l₁.getLast? (s.blinkArray i).next).mp1Free i := by
  unfold Blink.mp1IoctlRemove
  rw [h.mp1FindHelper hrounds, Option.bind_some]
  cases hfind : l.find? fun i => decide ((s.blinkArray i).location = arg.toUInt16) with
  | none => exact Or.inl rfl
  | some i =>
      obtain ⟨l₁, l₂, hl⟩ := List.append_of_mem (List.mem_of_find?_eq_some hfind)
      right
      have hlen : l₁.length < rounds := by
        have hlength := h.length
        rw [hl, List.length_append, List.length_cons] at hlength
        omega
      subst hl
      have hprev := LinkedList.findLink_eq h.lists hlen
      dsimp only
      rw [hprev, Option.map_some]
      refine ⟨i, l₁, l₂, _, rfl, rfl, ⟨?_, fun j hj => ?_⟩, rfl⟩
      · have hcut := h.lists.setLink
        have hnodup := h.lists.nodup
        have hi : i ∉ l₁ ++ l₂ := by
          rw [List.nodup_middle] at hnodup
          exact (List.nodup_cons.mp hnodup).1
        unfold mp1Free
        rw [list_setSlot]
        show LinkedStacks.Chain _ (s.storeLink l₁.getLast? _).list.head _
        rw [list_storeLink]
        refine LinkedStacks.Chain.congr hcut fun j hj => ?_
        have hne : j ≠ i := fun heq => hi (heq ▸ hj)
        exact Function.update_of_ne hne _ _
      · have hnodup := h.lists.nodup
        rw [List.nodup_middle] at hnodup
        have hne : j ≠ i := fun heq => (List.nodup_cons.mp hnodup).1 (heq ▸ hj)
        have hmem : j ∈ l₁ ++ i :: l₂ := by
          rw [List.perm_middle.mem_iff]
          exact List.mem_cons_of_mem i hj
        unfold mp1Free
        rw [location_setSlot_of_ne hne, storeLink_location]
        exact h.located j hmem

/-- A call of FIND returns. -/
theorem Listed.mp1IoctlFind (h : Listed s l) (hrounds : BLINK_SLOTS < rounds)
    (user : BlinkStruct) : ∃ r, s.mp1IoctlFind rounds user = some r := by
  unfold Blink.mp1IoctlFind
  rw [h.mp1FindHelper hrounds, Option.map_some]
  exact ⟨_, rfl⟩

/-- A call of SYNC keeps the list. -/
theorem Listed.mp1IoctlSync (h : Listed s l) (hrounds : BLINK_SLOTS < rounds) (arg : UInt32) :
    ∃ r s', s.mp1IoctlSync rounds arg = some (r, s') ∧ SameList s s' := by
  unfold Blink.mp1IoctlSync
  rw [h.mp1FindHelper hrounds, h.mp1FindHelper hrounds, Option.bind_some]
  split
  · exact ⟨_, _, rfl, SameList.refl s⟩
  · rw [Option.map_some]
    split
    · exact ⟨_, _, rfl, SameList.refl s⟩
    · refine ⟨_, _, rfl, SameList.trans ?_ (mp1Poke_sameList _ _)⟩
      exact setSlot_sameList rfl rfl

end

/-! ## Runs of calls -/

/-- How many calls of ADD and of REMOVE have succeeded. -/
structure Counts where
  adds : Nat
  removes : Nat

/-- The counts after a call that returned `r`: 0 for success. -/
def Counts.after (n : Counts) (e : Call) (r : Int) : Counts :=
  if r = 0 then
    match e with
    | .add _ => { n with adds := n.adds + 1 }
    | .remove _ => { n with removes := n.removes + 1 }
    | _ => n
  else n

/-- Count the successful calls. -/
def count (rounds : Nat) (s : Blink) (e : Call) (_ : Blink) (n : Counts) : Counts :=
  match s.call rounds e with
  | some r => n.after e r.1
  | none => n

/-- The list is finite, its nodes are distinct, their number is that of the successful ADDs minus
that of the successful REMOVEs, and `mp1_malloc` hands out none of them. -/
def WellFormed (p : Blink × Counts) : Prop :=
  ∃ l, p.1.list.Lists l ∧ l.Nodup ∧ l.length + p.2.removes = p.2.adds ∧
    ∀ i, p.1.mp1Malloc = some i → i ∉ l

/-- The list is well formed after every call, and every call returns. -/
def StaysWellFormed (rounds : Nat) (vmem : Nat → UInt8) (es : List Call) : Prop :=
  Along (withHistory (step rounds) (count rounds)) WellFormed (start vmem, ⟨0, 0⟩) es ∧
    Guarded (step rounds) (fun s e => (s.call rounds e).isSome = true) (start vmem) es

/-- An ADD is not at location 0, or there is no slot for it. -/
def AddsElsewhere (s : Blink) : Call → Prop
  | .add user => user.location ≠ 0 ∨ s.mp1Malloc = none
  | _ => True

/-- What holds while no ADD is at location 0. -/
def Tidy (p : Blink × Counts) : Prop :=
  ∃ l, Listed p.1 l ∧ l.length + p.2.removes = p.2.adds

theorem Tidy.wellFormed {p : Blink × Counts} (h : Tidy p) : WellFormed p := by
  obtain ⟨l, hl, hcount⟩ := h
  exact ⟨l, hl.lists, hl.lists.nodup, hcount, fun i hi => hl.mp1Malloc_not_mem hi⟩

section

variable {rounds : Nat} {s : Blink} {l : List BlinkSlot} {e : Call}

/-- A call that meets the guard returns, and keeps the list in step with the counts. -/
theorem Listed.call (h : Listed s l) (hrounds : BLINK_SLOTS < rounds) (hok : AddsElsewhere s e) :
    ∃ r s' l', s.call rounds e = some (r, s') ∧ Listed s' l' ∧ ∀ n : Counts,
      l.length + n.removes = n.adds → l'.length + (n.after e r).removes = (n.after e r).adds := by
  cases e with
  | add user =>
      rcases h.mp1IoctlAdd hok with hcall | ⟨i, s', hcall, hs', _⟩
      · exact ⟨-1, s, l, congrArg some hcall, h, fun _ hn => hn⟩
      · refine ⟨0, s', i :: l, congrArg some hcall, hs', fun n hn => ?_⟩
        show l.length + 1 + n.removes = n.adds + 1
        omega
  | remove arg =>
      rcases h.mp1IoctlRemove hrounds arg with hcall | ⟨i, l₁, l₂, s', hl, hcall, hs', _⟩
      · exact ⟨-1, s, l, hcall, h, fun _ hn => hn⟩
      · refine ⟨0, s', l₁ ++ l₂, hcall, hs', fun n hn => ?_⟩
        show (l₁ ++ l₂).length + (n.removes + 1) = n.adds
        rw [hl, List.length_append, List.length_cons] at hn
        rw [List.length_append]
        omega
  | find user =>
      obtain ⟨r, hfind⟩ := h.mp1IoctlFind hrounds user
      refine ⟨r.1, s, l, ?_, h, fun n hn => ?_⟩
      · show (s.mp1IoctlFind rounds user).map _ = _
        rw [hfind, Option.map_some]
      · unfold Counts.after
        rw [ite_self]
        exact hn
  | sync arg =>
      obtain ⟨r, s', hcall, hsame⟩ := h.mp1IoctlSync hrounds arg
      refine ⟨r, s', l, hcall, h.congr hsame, fun n hn => ?_⟩
      unfold Counts.after
      rw [ite_self]
      exact hn
  | tasklet =>
      refine ⟨0, _, l, ?_, h.congr (foldl_taskletNode_sameList l), fun _ hn => hn⟩
      show (s.mp1RtcTasklet rounds).map _ = _
      rw [h.mp1RtcTasklet hrounds]
      rfl

/-- An ADD at location 0 lists the slot that the allocator hands out next. -/
theorem mp1Malloc_of_add_zero {user : BlinkStruct} (hzero : user.location = 0) {i : BlinkSlot}
    (hi : s.mp1Malloc = some i) :
    (s.mp1IoctlAdd user).2.list = s.list.insert i ∧
      (s.mp1IoctlAdd user).2.mp1Malloc = some i := by
  have hrange : user.location.toNat < BLINK_SLOTS := by
    rw [hzero]
    exact Nat.succ_pos _
  obtain ⟨_, hlist, hother, hself, _⟩ := mp1IoctlAdd_eq hrange hi
  refine ⟨hlist, ?_⟩
  rw [← hi]
  apply mp1Malloc_congr
  intro j
  by_cases hj : j = i
  · rw [hj, hself, mp1Malloc_location hi]
    exact hzero
  · rw [hother j hj]

end

/-- **The list stays well formed exactly while no ADD is at location 0**: for every sequence of
calls from the zeroed array and the empty list, the list is finite, without cycles and of the
length that the successful calls give, its slots are not handed out again, and all calls return,
if and only if every ADD for which there is a slot is at another location. -/
theorem wellFormed_iff {rounds : Nat} (hrounds : BLINK_SLOTS < rounds) (vmem : Nat → UInt8)
    (es : List Call) :
    StaysWellFormed rounds vmem es ↔ Guarded (step rounds) AddsElsewhere (start vmem) es := by
  let p₀ : Blink × Counts := (start vmem, ⟨0, 0⟩)
  let returns : Blink → Call → Prop := fun s e => (s.call rounds e).isSome = true
  have hstart : Tidy p₀ := ⟨[], start_listed vmem, rfl⟩
  have hrun : (Along (withHistory (step rounds) (count rounds)) WellFormed p₀ es ∧
      Guarded (withHistory (step rounds) (count rounds)) (fun p e => returns p.1 e) p₀ es) ↔
      Guarded (withHistory (step rounds) (count rounds)) (fun p e => AddsElsewhere p.1 e)
        p₀ es := by
    apply StepSystem.along_and_guarded_iff_of_inv (P := Tidy) (fun _ => Tidy.wellFormed) _ _ hstart
    · rintro ⟨s, n⟩ e ⟨l, hl, hn⟩ hok
      obtain ⟨r, s', l', hcall, hl', hcounts⟩ := hl.call hrounds hok
      refine ⟨congrArg Option.isSome hcall, fun p' hp' => ?_⟩
      obtain ⟨s₁, hs₁, rfl⟩ := StepSystem.withHistory_eq_some.mp hp'
      unfold step at hs₁
      rw [hcall] at hs₁
      cases hs₁
      refine ⟨l', hl', ?_⟩
      unfold count
      dsimp only
      rw [hcall]
      exact hcounts n hn
    · rintro ⟨s, n⟩ e _ hok ⟨_, hnext⟩
      cases e with
      | add user =>
          obtain ⟨hzero, hmalloc⟩ := not_or.mp hok
          obtain ⟨i, hi⟩ := Option.ne_none_iff_exists'.mp hmalloc
          obtain ⟨l, hl, _, _, hfree⟩ := hnext _ (StepSystem.withHistory_eq_some.mpr ⟨_, rfl, rfl⟩)
          obtain ⟨hlist, hnew⟩ := mp1Malloc_of_add_zero (not_not.mp hzero) hi
          have hhead : l.head? = some i := by
            rw [hl.head?_eq]
            show (s.mp1IoctlAdd user).2.list.head = some i
            rw [hlist]
            rfl
          exact hfree i hnew (List.mem_of_mem_head? hhead)
      | remove _ => exact hok trivial
      | find _ => exact hok trivial
      | sync _ => exact hok trivial
      | tasklet => exact hok trivial
  rw [StepSystem.guarded_withHistory, StepSystem.guarded_withHistory] at hrun
  exact hrun

/-- A character at location 5 is put on the list and taken off it. -/
theorem wellFormed_iff_five : StaysWellFormed 2001 (fun _ => 0)
    [.add { BlinkStruct.zero with location := 5, onChar := 65 }, .remove 5] :=
  (wellFormed_iff (by decide) _ _).mpr
    ⟨Or.inl (by decide), fun _ _ => ⟨trivial, fun _ _ => trivial⟩⟩

/-! ## Two characters at location 0 -/

section

variable {s : Blink} {user : BlinkStruct}

theorem start_mp1Malloc (vmem : Nat → UInt8) : (start vmem).mp1Malloc = some 0 := by
  apply Fin.find?_eq_some_iff.mpr
  refine ⟨rfl, fun j hj => absurd hj (Nat.not_lt_zero _)⟩

/-- What holds along a run holds along the rest of it after an ADD. -/
theorem along_add {rounds : Nat} {Q : Blink × Counts → Prop} {n : Counts} {es : List Call}
    (h : Along (withHistory (step rounds) (count rounds)) Q (s, n) (.add user :: es)) :
    ∃ n', Along (withHistory (step rounds) (count rounds)) Q ((s.mp1IoctlAdd user).2, n') es :=
  ⟨_, h.2 _ (StepSystem.withHistory_eq_some.mpr ⟨_, rfl, rfl⟩)⟩

/-- The second of two ADDs at location 0 links its slot to itself. -/
theorem not_wellFormed_add_twice (s : Blink) (hzero : user.location = 0) {i : BlinkSlot}
    (hi : s.mp1Malloc = some i) (n : Counts) :
    ¬ WellFormed (((s.mp1IoctlAdd user).2.mp1IoctlAdd user).2, n) := by
  rintro ⟨l, hl, _⟩
  obtain ⟨hlist, hagain⟩ := mp1Malloc_of_add_zero hzero hi
  obtain ⟨hlist', _⟩ := mp1Malloc_of_add_zero hzero hagain
  rw [hlist'] at hl
  refine LinkedList.not_lists_insert_head ?_ hl
  rw [hlist]
  rfl

end

/-- Two characters at location 0 make the list a cycle. -/
theorem zero_location_cycles : ¬ ∀ (rounds : Nat) (vmem : Nat → UInt8) (es : List Call),
    BLINK_SLOTS < rounds → StaysWellFormed rounds vmem es := by
  intro hall
  let user : BlinkStruct := { BlinkStruct.zero with onChar := 65 }
  have hstays := (hall 2001 (fun _ => 0) [.add user, .add user] (by decide)).1
  obtain ⟨n₁, hfirst⟩ := along_add hstays
  obtain ⟨n₂, hsecond⟩ := along_add hfirst
  have hzero : user.location = 0 := rfl
  exact not_wellFormed_add_twice (start fun _ => 0) hzero (start_mp1Malloc _) n₂ hsecond

end Blink

end Ext2Kernel
