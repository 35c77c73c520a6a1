import Ext2Kernel.Console.Agreement
import Ext2Kernel.Process.ConsoleEvents
import Ext2Kernel.Process.TreeRuns

set_option autoImplicit false

/-! # Cursors and keys over runs of the kernel

In every reachable state the cursor of every terminal is on its screen. With this, what the
keyboard handler does in any reachable state follows from what it does on a console.
-/

namespace Ext2Kernel

open ByteMem

namespace Console

/-! ## The cursors stay on the screen -/

theorem Background.allOnScreen {c c' : Console} (h : Background c c') (hc : AllOnScreen c) :
    AllOnScreen c' := by
  induction h with
  | refl => exact hc
  | print l _ ih => exact ih.putcs l
  | store video _ ih => exact ih
  | schedule t _ ih => exact ih
  | shells b _ ih => exact ih
  | shell t b _ ih =>
      refine ih.modify t ?_
      exact fun _ hs => hs
  | typed t _ ih =>
      refine ih.modify t ?_
      exact fun _ hs => hs

theorem allOnScreen_readTerminalStart {c c' : Console} (hc : AllOnScreen c)
    (h : c.readTerminalStart = some c') : AllOnScreen c' := by
  have hmodify : ∀ {c₁ : Console} {f : TermState → TermState}, AllOnScreen c₁ →
      (∀ s, (f s).screenX = s.screenX ∧ (f s).screenY = s.screenY) →
      AllOnScreen (c₁.modify c.processTerminal f) := by
    intro c₁ f h₁ hf
    apply h₁.modify
    intro s hs
    unfold OnScreen
    rw [(hf s).1, (hf s).2]
    exact hs
  have hclear : AllOnScreen (c.modify c.processTerminal clearLine) :=
    hmodify hc fun _ => ⟨rfl, rfl⟩
  rcases readTerminalStart_cases h with ⟨_, rfl⟩ | ⟨_, _, rfl⟩
  · apply hmodify hclear
    exact fun _ => ⟨rfl, rfl⟩
  · apply hmodify
    · apply hmodify
      · have hrestore := hmodify (f := restoreLine) hclear fun _ => ⟨rfl, rfl⟩
        exact hrestore.putcs _
      · exact fun _ => ⟨rfl, rfl⟩
    · exact fun _ => ⟨rfl, rfl⟩

end Console

namespace Kernel

open Console (AllOnScreen)

theorem step_allOnScreen {fs : FileSys} {k k' : Kernel} {e : Event} (hk : AllOnScreen k.console)
    (h : step fs k e = some k') : AllOnScreen k'.console := by
  have hc := step_console h
  cases e with
  | keyboard scancode => exact Console.allOnScreen_keyboardInterrupt hk hc
  | switch n =>
      rw [show k'.console = k.console.switchTerminal n from hc]
      intro t
      rw [Console.switchTerminal_term]
      exact hk t
  | read stack fd bufNull nbytes =>
      rcases hc with hc | hc
      · rw [hc]
        exact hk
      · exact Console.allOnScreen_readTerminalStart hk hc
  | _ => exact Console.Background.allOnScreen hc hk

/-- **The cursors in every reachable state.** -/
theorem Reachable.allOnScreen {fs : FileSys} {k : Kernel} (h : Reachable fs k) :
    AllOnScreen k.console := by
  obtain ⟨m, hm⟩ := h
  exact hm.invariant (P := fun k => AllOnScreen k.console)
    (fun _ _ _ hk hstep => step_allOnScreen hk hstep) fun _ => Console.onScreen_boot

end Kernel

/-! ## Key sequences on two consoles -/

namespace Console

/-- The same key on two consoles. -/
def pairKey (p : Console × Console) (scancode : UInt8) : Option (Console × Console) :=
  (p.1.keyboardInterrupt scancode).bind fun a =>
    (p.2.keyboardInterrupt scancode).map fun b => (a, b)

/-- The key does not switch terminals, and finds the shared flags it reads the same in both. -/
structure PairAgrees (p : Console × Console) (scancode : UInt8) : Prop where
  stays : StaysOn p.1 scancode.toNat
  flags : FlagsAgree p.1 p.2 scancode.toNat

/-- **Keys on two consoles.** Two consoles that show the same terminal in the same state react
to a sequence of keys in the same way. -/
theorem SameVisible.run {c₁ c₂ : Console} (h : SameVisible c₁ c₂) (hs : AllOnScreen c₁)
    {keys : List UInt8} (hok : StepSystem.Guarded pairKey PairAgrees (c₁, c₂) keys) :
    Option.Rel SameVisible (StepSystem.run Console.keyboardInterrupt c₁ keys)
      (StepSystem.run Console.keyboardInterrupt c₂ keys) := by
  induction keys generalizing c₁ c₂ with
  | nil => exact .some h
  | cons scancode keys ih =>
      obtain ⟨hkey, hrest⟩ := hok
      have hrel := h.keyboardInterrupt (hs _) hkey.stays hkey.flags
      unfold StepSystem.run
      cases h₁ : c₁.keyboardInterrupt scancode with
      | none =>
          rw [h₁] at hrel
          generalize c₂.keyboardInterrupt scancode = r₂ at hrel
          cases hrel
          exact .none
      | some a =>
          rw [h₁] at hrel
          cases h₂ : c₂.keyboardInterrupt scancode with
          | none =>
              rw [h₂] at hrel
              cases hrel
          | some b =>
              rw [h₂] at hrel
              cases hrel with
              | some hab =>
                  refine ih hab (allOnScreen_keyboardInterrupt hs h₁) (hrest (a, b) ?_)
                  unfold pairKey
                  dsimp only
                  rw [h₁, h₂]
                  rfl

end Console

namespace Kernel

/-- **Isolation of keyboard input.** In every reachable state, a key that is neither a modifier
nor a terminal switch is handled without a change to the variables of any other terminal
exactly if its stores and copies stay inside the buffers of the visible terminal and Ctrl+L
finds nothing in the row of terminal 0; no key ever changes the screen of another terminal;
and a console that shows the same terminal in the same state reacts to a sequence of keys in
the same way, if the keys find the shared flags they read the same. -/
theorem keyboard_isolated_iff {fs : FileSys} {k : Kernel} (hreach : Reachable fs k) :
    (∀ scancode : UInt8, k.console.Plain scancode.toNat →
      ((∃ k', step fs k (.keyboard scancode) = some k' ∧
          ∀ t, t ≠ k.visibleTerminal → k'.console.term t = k.console.term t)
        ↔ k.console.KeyStays scancode.toNat)) ∧
    (∀ (scancode : UInt8) (k' : Kernel), k.console.Plain scancode.toNat →
      step fs k (.keyboard scancode) = some k' →
        ∀ a, PAGE_4KB ≤ a → k'.console.video a = k.console.video a) ∧
    (∀ (c : Console) (keys : List UInt8), Console.SameVisible k.console c →
      StepSystem.Guarded Console.pairKey Console.PairAgrees (k.console, c) keys →
        Option.Rel Console.SameVisible
          (StepSystem.run Console.keyboardInterrupt k.console keys)
          (StepSystem.run Console.keyboardInterrupt c keys)) := by
  have hs := hreach.allOnScreen
  refine ⟨fun scancode hp => ?_, fun scancode k' hp h a ha => ?_, fun c keys h hok => ?_⟩
  · obtain ⟨r, hr, hblock⟩ := Console.block_keyboardInterrupt (hs _) hp
    rw [← hblock.stays]
    constructor
    · rintro ⟨k', hk', hsame⟩
      obtain ⟨c, hc, rfl⟩ := Option.map_eq_some_iff.mp hk'
      rw [hr] at hc
      obtain ⟨c₁, hc₁, rfl⟩ := Option.map_eq_some_iff.mp hc
      exact ⟨c₁, hc₁, hsame⟩
    · rintro ⟨c₁, hc₁, hsame⟩
      refine ⟨{ k with console := c₁.leave }, Option.map_eq_some_iff.mpr ⟨c₁.leave, ?_, rfl⟩, hsame⟩
      rw [hr, hc₁]
      rfl
  · obtain ⟨c, hc, rfl⟩ := Option.map_eq_some_iff.mp h
    obtain ⟨c₁, hsteady, rfl⟩ := Console.plain_steady (hs _) hp hc
    exact hsteady.hidden a ha
  · exact h.run hs hok

/-- A letter typed on terminal 0, then Alt+F2, and Ctrl held on terminal 1. -/
def typedThenSwitched : List Event :=
  [.keyboard 0x1E, .keyboard 0x38, .keyboard 0x3C, .keyboard 0xB8, .keyboard 0x1D]

/-- Ctrl+L on terminal 1 clears the line typed on terminal 0. -/
theorem ctrlL_clears_other_line : ¬ ∀ (fs : FileSys) (k k' : Kernel) (scancode : UInt8),
    Reachable fs k → k.console.Plain scancode.toNat →
    step fs k (.keyboard scancode) = some k' →
    ∀ t, t ≠ k.visibleTerminal → k'.console.term t = k.console.term t := by
  intro h
  have hbefore : (StepSystem.run (step sampleImage) (boot zeroMemory) typedThenSwitched).map
      (fun k => (k.visibleTerminal, (k.console.term 0).keyboardBuffer 0,
        (k.console.term k.visibleTerminal).altOn)) = some (1, 97, false) := by decide +kernel
  have hafter : (StepSystem.run (step sampleImage) (boot zeroMemory)
      (typedThenSwitched ++ [.keyboard 0x26])).map
      (fun k => (k.console.term 0).keyboardBuffer 0) = some 0 := by decide +kernel
  obtain ⟨k, hk, hview⟩ := Option.map_eq_some_iff.mp hbefore
  obtain ⟨k', hk', hbyte⟩ := Option.map_eq_some_iff.mp hafter
  obtain ⟨m, hm, hlast⟩ := StepSystem.run_append_eq_some.mp hk'
  obtain rfl : k = m := Option.some.inj (hk.symm.trans hm)
  obtain ⟨n, hn, hnil⟩ := StepSystem.run_cons_eq_some.mp hlast
  cases hnil
  simp only [Prod.mk.injEq] at hview
  obtain ⟨hv, hold, halt⟩ := hview
  have hsame := h sampleImage k k' 0x26 ⟨zeroMemory, _, hk⟩ ⟨by decide, fun _ => by decide⟩ hn 0
    (by rw [hv]; decide)
  rw [hsame, hold] at hbyte
  exact absurd hbyte (by decide)

/-- `a` typed on terminal 0, then Alt+F2, and `b` typed on terminal 1. -/
def twoLines : List Event :=
  [.keyboard 0x1E, .keyboard 0x38, .keyboard 0x3C, .keyboard 0xB8, .keyboard 0x30]

/-- The console with terminal 0 as it was at boot. -/
def withoutFirst (c : Console) : Console := c.modify 0 fun _ => TermState.boot

/-- With a line on two terminals: the key `a`, and the keys `a` and Enter on the console with both
lines and on the one where the hidden terminal has none. -/
theorem keyboard_isolated_iff_two_lines : ∃ k,
    StepSystem.run (step sampleImage) (boot zeroMemory) twoLines = some k ∧
    k.visibleTerminal = 1 ∧ (k.console.term 1).keyboardBuffer 0 = 98 ∧
    (k.console.term 0).keyboardBuffer 0 = 97 ∧
    ((withoutFirst k.console).term 0).keyboardBuffer 0 = 0 ∧
    ((∃ k', step sampleImage k (.keyboard 0x1E) = some k' ∧
        ∀ t, t ≠ k.visibleTerminal → k'.console.term t = k.console.term t)
      ↔ k.console.KeyStays 0x1E) ∧
    Option.Rel Console.SameVisible
      (StepSystem.run Console.keyboardInterrupt k.console [0x1E, 0x1C])
      (StepSystem.run Console.keyboardInterrupt (withoutFirst k.console) [0x1E, 0x1C]) := by
  obtain ⟨k, hk, hv, hb, ha, hflags⟩ := StepSystem.exists_of_map_decide
    (o := StepSystem.run (step sampleImage) (boot zeroMemory) twoLines)
    (P := fun k => k.visibleTerminal = 1 ∧ (k.console.term 1).keyboardBuffer 0 = 98 ∧
      (k.console.term 0).keyboardBuffer 0 = 97 ∧
      (Console.pairKey (k.console, withoutFirst k.console) 0x1E).map (fun p =>
        decide (p.2.notInPrevCmdFlag = p.1.notInPrevCmdFlag ∧
          p.2.tooManyShellsFlag = p.1.tooManyShellsFlag)) = some true) (by decide +kernel)
  have hplain : k.console.Plain 0x1E := ⟨by decide, fun _ => by decide⟩
  have hsame : Console.SameVisible k.console (withoutFirst k.console) := by
    refine ⟨rfl, ?_, fun _ _ => rfl, rfl⟩
    rw [show k.console.visibleTerminal = 1 from hv]
    exact Console.modify_term_ne k.console 0 _ (by decide)
  have hstays : ∀ (c : Console) (scancode : UInt8), scancode = 0x1E ∨ scancode = 0x1C →
      Console.StaysOn c scancode.toNat := by
    rintro c scancode (rfl | rfl) _ t ht
    · exact absurd ht (by revert t; decide)
    · exact absurd ht (by revert t; decide)
  obtain ⟨hone, _, hkeys⟩ := keyboard_isolated_iff ⟨zeroMemory, _, hk⟩
  refine ⟨k, hk, hv, hb, ha, rfl, hone 0x1E hplain, hkeys _ _ hsame ?_⟩
  refine ⟨⟨hstays _ _ (Or.inl rfl), fun _ => rfl, fun _ => rfl⟩, fun p hp =>
    ⟨⟨hstays _ _ (Or.inr rfl), fun _ => ?_, fun _ => ?_⟩, fun _ _ => trivial⟩⟩
  · rw [hp] at hflags
    exact (of_decide_eq_true (Option.some.inj hflags)).1
  · rw [hp] at hflags
    exact (of_decide_eq_true (Option.some.inj hflags)).2

end Kernel

end Ext2Kernel
