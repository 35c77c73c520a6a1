import Ext2Kernel.Basic.LinkedList
import Ext2Kernel.Basic.StepSystem
import Mathlib.Data.Fin.Basic

set_option autoImplicit false

/-! # The blinking characters of the fish program

`blink.S` keeps the blinking characters in a list through `blink_array`, whose slots the
allocator of `fish.c` hands out. A pointer to a slot is the slot, and NULL is `none`. The walks
along the list take a number of rounds; they are `none` when it runs out. The buffer of a caller
is passed by value.
-/

namespace Ext2Kernel

/-- The number of slots of `blink_array`, and of characters on the screen. -/
abbrev BLINK_SLOTS : Nat := 80 * 25

/-- A slot of `blink_array`. -/
abbrev BlinkSlot := Fin BLINK_SLOTS

/-- `struct mp1_blink_struct`. -/
structure BlinkStruct where
  location : UInt16
  onChar : UInt8
  offChar : UInt8
  onLength : UInt16
  offLength : UInt16
  countdown : UInt16
  status : UInt16
  next : Option BlinkSlot
  deriving DecidableEq

/-- A struct of zeros. -/
def BlinkStruct.zero : BlinkStruct := ⟨0, 0, 0, 0, 0, 0, 0, none⟩

/-- `blink_array`, `mp1_list_head` and the video memory from `vmem_base_addr` on. -/
structure Blink where
  blinkArray : BlinkSlot → BlinkStruct
  mp1ListHead : Option BlinkSlot
  vmem : Nat → UInt8

namespace Blink

/-- Before the first call: `main` has zeroed `blink_array`, and the list is empty. -/
def start (vmem : Nat → UInt8) : Blink := ⟨fun _ => BlinkStruct.zero, none, vmem⟩

section

variable (s : Blink)

/-- Store a slot. -/
def setSlot (i : BlinkSlot) (b : BlinkStruct) : Blink :=
  { s with blinkArray := Function.update s.blinkArray i b }

/-- The list as a head and links. -/
def list : LinkedList BlinkSlot := ⟨s.mp1ListHead, fun i => (s.blinkArray i).next⟩

/-- Store a pointer at the address that `edx` holds: `mp1_list_head`, or the NEXT of a slot. -/
def storeLink (edx : Option BlinkSlot) (q : Option BlinkSlot) : Blink :=
  match edx with
  | none => { s with mp1ListHead := q }
  | some i => s.setSlot i { s.blinkArray i with next := q }

/-! ## fish.c -/

/-- `mp1_malloc`: the first slot whose location is 0. -/
def mp1Malloc : Option BlinkSlot := Fin.find? fun i => decide ((s.blinkArray i).location = 0)

/-- `mp1_free`. -/
def mp1Free (i : BlinkSlot) : Blink := s.setSlot i BlinkStruct.zero

/-! ## blink.S -/

/-- `mp1_poke`: a byte at an offset of the video memory. -/
def mp1Poke (eax : Nat) (cl : UInt8) : Blink :=
  { s with vmem := Function.update s.vmem eax cl }

/-- The offset of a location: `shl $1`. -/
def offset (location : UInt16) : Nat := 2 * location.toNat

/-- `mp1_find_helper`: the first slot of the list with the location. -/
def mp1FindHelper (rounds : Nat) (location : UInt16) : Option (Option BlinkSlot) :=
  s.list.find (fun i => decide ((s.blinkArray i).location = location)) rounds s.mp1ListHead

/-- One round of `tasklet_loop`: count down, and at zero show the other character. -/
def taskletNode (i : BlinkSlot) : Blink :=
  let b := s.blinkArray i
  let countdown := b.countdown - 1
  -- `cmpw $0` and `jg`: the countdown is signed here
  if 0 < countdown.toBitVec.toInt then s.setSlot i { b with countdown := countdown }
  else if b.status &&& 1 = 0 then
    (s.mp1Poke (offset b.location) b.onChar).setSlot i
      { b with countdown := b.onLength, status := b.status ^^^ 1 }
  else
    (s.mp1Poke (offset b.location) b.offChar).setSlot i
      { b with countdown := b.offLength, status := b.status ^^^ 1 }

/-- `tasklet_loop` from the pointer in `ebx` on. -/
def taskletLoop : Nat → Option BlinkSlot → Blink → Option Blink
  | 0, _, _ => none
  | _ + 1, none, s => some s
  | n + 1, some i, s =>
      taskletLoop n ((s.taskletNode i).blinkArray i).next (s.taskletNode i)

/-- `mp1_rtc_tasklet`. -/
def mp1RtcTasklet (rounds : Nat) : Option Blink := taskletLoop rounds s.mp1ListHead s

/-- `mp1_ioctl_add`: the value returned, and the state. The copies of `ece391_memcpy` succeed. -/
def mp1IoctlAdd (user : BlinkStruct) : Int × Blink :=
  if BLINK_SLOTS ≤ user.location.toNat then (-1, s)
  else
    let temp := { user with status := 1, countdown := user.onLength }
    match s.mp1Malloc with
    | none => (-1, s)
    | some edx =>
        let s := s.setSlot edx temp
        let s := s.setSlot edx { temp with next := s.mp1ListHead }
        let s := { s with mp1ListHead := some edx }
        (0, s.mp1Poke (offset temp.location) temp.onChar)

/-- `mp1_ioctl_remove`: `remove_find_prev` starts with the address of `mp1_list_head`. It is
`none` too when `remove_find_prev` follows a NULL. -/
def mp1IoctlRemove (rounds : Nat) (arg : UInt32) : Option (Int × Blink) :=
  (s.mp1FindHelper rounds arg.toUInt16).bind fun eax =>
    match eax with
    | none => some (-1, s)
    | some eax =>
        (s.list.findLink eax rounds none).map fun edx =>
          (0, (s.storeLink edx (s.blinkArray eax).next).mp1Free eax)

/-- `mp1_ioctl_find`: the value returned, and the struct copied to the caller. -/
def mp1IoctlFind (rounds : Nat) (user : BlinkStruct) : Option (Int × BlinkStruct) :=
  (s.mp1FindHelper rounds user.location).map fun eax =>
    match eax with
    | none => (-1, user)
    | some eax => (0, s.blinkArray eax)

/-- The condition of `cmovl` after `testb $0x1`: sign and overflow flag differ, where `test`
clears the overflow flag. -/
def lessAfterTest (status : UInt16) : Bool := decide ((1 &&& status.toUInt8) >>> 7 = 1)

/-- `mp1_ioctl_sync`. -/
def mp1IoctlSync (rounds : Nat) (arg : UInt32) : Option (Int × Blink) :=
  (s.mp1FindHelper rounds (arg >>> 16).toUInt16).bind fun esi =>
    match esi with
    | none => some (-1, s)
    | some esi =>
        (s.mp1FindHelper rounds arg.toUInt16).map fun edi =>
          match edi with
          | none => (-1, s)
          | some edi =>
              let source := s.blinkArray esi
              let target := { s.blinkArray edi with
                onLength := source.onLength
                offLength := source.offLength
                countdown := source.countdown
                status := source.status }
              let ecx := if lessAfterTest target.status then target.onChar else target.offChar
              (0, (s.setSlot edi target).mp1Poke (offset target.location) ecx)

end

/-! ## Calls -/

/-- A call of `mp1_ioctl` with one of its commands, or of `mp1_rtc_tasklet`. -/
inductive Call where
  | add (user : BlinkStruct)
  | remove (arg : UInt32)
  | find (user : BlinkStruct)
  | sync (arg : UInt32)
  | tasklet
  deriving DecidableEq

/-- A call with the value it returns, where the tasklet returns none: 0 here; `none` when it does
not return. -/
def call (rounds : Nat) (s : Blink) : Call → Option (Int × Blink)
  | .add user => some (s.mp1IoctlAdd user)
  | .remove arg => s.mp1IoctlRemove rounds arg
  | .find user => (s.mp1IoctlFind rounds user).map fun r => (r.1, s)
  | .sync arg => s.mp1IoctlSync rounds arg
  | .tasklet => (s.mp1RtcTasklet rounds).map fun s' => (0, s')

/-- The state after a call. -/
def step (rounds : Nat) (s : Blink) (e : Call) : Option Blink := (s.call rounds e).map Prod.snd

end Blink

end Ext2Kernel
