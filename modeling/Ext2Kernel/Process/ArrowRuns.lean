import Ext2Kernel.Console.Arrows
import Ext2Kernel.Process.EchoRuns

set_option autoImplicit false

/-! # Arrow keys over runs of the kernel

Presses of the left arrow keep the sum of the position and the distance from the right, so that
there is a right press for every cell they went back. Whether as many right presses as left ones
lead back to the cell depends on the row: they must not reach column `NUM_COLS` before they have
undone the left presses (`Retraces`).
-/

namespace Ext2Kernel

/-! ## Distances are not negative -/

namespace LineIdx

theorem distance_erase {l : LineIdx} (h : 0 ≤ l.distance) (typing : Bool) :
    0 ≤ (l.erase.eraseAhead typing).distance := by
  unfold LineIdx.erase LineIdx.eraseAhead
  split_ifs <;> (try dsimp only) <;> omega

theorem distance_insert {l : LineIdx} (h : 0 ≤ l.distance) (copies stores : Bool) :
    0 ≤ ((l.insert.keepCurrent copies).ahead stores).distance := by
  unfold LineIdx.insert LineIdx.keepCurrent LineIdx.ahead
  split_ifs <;> (try dsimp only) <;> omega

theorem distance_enter (l : LineIdx) (shell stores : Bool) :
    (((l.enter shell).keepCurrent true).ahead stores).distance = 0 := by
  unfold LineIdx.ahead
  split <;> rfl

theorem distance_toEnd {l : LineIdx} (h : 0 ≤ l.distance) (n : Int) :
    0 ≤ (l.toEnd n).distance := by
  unfold LineIdx.toEnd
  dsimp only
  omega

end LineIdx

namespace Console

/-- No cursor is behind the end of its line. -/
def AllDistances (c : Console) : Prop := ∀ t, 0 ≤ (c.term t).lineIdx.distance

theorem distance_keyLine {c : Console}
    (h : 0 ≤ (c.term c.visibleTerminal).lineIdx.distance) (pressed : Nat) :
    0 ≤ (c.keyLine pressed).distance := by
  unfold keyLine
  dsimp only
  split_ifs with hup hrecall hdown hshell hback hleft hright hctrl hignored henter
  · exact LineIdx.distance_toEnd h _
  · exact h
  · exact LineIdx.distance_toEnd h _
  · exact h
  · exact LineIdx.distance_erase h _
  · have hr : c.leftArrow.2 = 0 ∨ c.leftArrow.2 = 1 := by
      rw [leftArrow_snd]
      split
      · exact Or.inr rfl
      · exact Or.inl rfl
    unfold LineIdx.left
    split
    · dsimp only
      omega
    · exact h
  · have hr := c.rightArrow_return
    have hpos := hright.2.1
    unfold LineIdx.right
    dsimp only
    omega
  · exact h
  · exact h
  · exact ge_of_eq (LineIdx.distance_enter _ _ _)
  · exact LineIdx.distance_insert h _ _

theorem allDistances_keyboardInterrupt {c c' : Console} {scancode : UInt8} (hs : AllOnScreen c)
    (h : AllDistances c) (hc' : c.keyboardInterrupt scancode = some c') : AllDistances c' := by
  intro t
  by_cases ht : t = c.visibleTerminal ∧ c.Plain scancode.toNat
  · rw [ht.1, keyboardInterrupt_lineIdx ht.2 hc']
    exact distance_keyLine (h _) _
  · rw [keyboardInterrupt_lineIdx_ne (hs _) hc' fun heq hp => ht ⟨heq, hp⟩]
    exact h t

theorem allDistances_readTerminalStart {c c' : Console} (h : AllDistances c)
    (hc' : c.readTerminalStart = some c') : AllDistances c' := by
  intro t
  rw [readTerminalStart_lineIdx hc']
  split
  · exact h t
  · exact h t

end Console

namespace Kernel

open Console (AllDistances AllOnScreen)

/-- What every event keeps. -/
structure Spaced (k : Kernel) : Prop where
  onScreen : AllOnScreen k.console
  distances : AllDistances k.console

theorem step_spaced {fs : FileSys} {k k' : Kernel} {e : Event} (hk : Spaced k)
    (h : step fs k e = some k') : Spaced k' := by
  refine ⟨step_allOnScreen hk.onScreen h, ?_⟩
  have hc := step_console h
  cases e with
  | keyboard scancode => exact Console.allDistances_keyboardInterrupt hk.onScreen hk.distances hc
  | switch n =>
      intro t
      rw [show k'.console = k.console.switchTerminal n from hc, Console.switchTerminal_term]
      exact hk.distances t
  | read stack fd bufNull nbytes =>
      rcases hc with hc | hc
      · rw [hc]
        exact hk.distances
      · exact Console.allDistances_readTerminalStart hk.distances hc
  | _ =>
      intro t
      rw [Console.Background.lineIdx hc]
      exact hk.distances t

theorem boot_spaced (m : BootMemory) : Spaced (boot m) :=
  ⟨fun _ => Console.onScreen_boot, fun _ => le_refl _⟩

/-! ## One press -/

/-- An arrow key moves the cursor by what the routine returns. -/
def MovesByReturn (k : Kernel) : Event → Prop
  | .keyboard scancode =>
      scancode = Console.leftKey ∨ scancode = Console.rightKey →
        ∀ c', k.console.keyboardInterrupt scancode = some c' →
          (c'.position : Int) = k.console.position + k.console.arrowReturn scancode.toNat
  | _ => True

/-- No right arrow changes the row. -/
def StaysInRow (k : Kernel) : Event → Prop
  | .keyboard scancode =>
      ¬ (scancode = Console.rightKey ∧ k.console.CallsRight ∧ k.console.EdgeStep)
  | _ => True

theorem movesByReturn_iff (k : Kernel) (e : Event) : k.MovesByReturn e ↔ k.StaysInRow e := by
  cases e with
  | keyboard scancode =>
      by_cases hright : scancode = Console.rightKey
      · subst hright
        have hpress := Option.isSome_iff_exists.mp
          (show (k.console.keyboardInterrupt Console.rightKey).isSome by
            rw [Console.keyboardInterrupt_right]
            rfl)
        obtain ⟨c', hc'⟩ := hpress
        have hmoves := Console.right_moves_iff hc'
        constructor
        · exact fun h hk => hmoves.mp (h (Or.inr rfl) c' hc') hk.2
        · intro h _ c'' hc''
          exact (Console.right_moves_iff hc'').mpr fun hk => h ⟨rfl, hk⟩
      · refine iff_of_true (fun hkey c' hc' => ?_) fun hk => hright hk.1
        obtain rfl := hkey.resolve_right hright
        exact Console.left_moves hc'
  | _ => exact Iff.rfl

/-! ## Many presses -/

def lefts (n : Nat) : List Event := List.replicate n (.keyboard Console.leftKey)
def rights (n : Nat) : List Event := List.replicate n (.keyboard Console.rightKey)

section

variable (fs : FileSys)

theorem step_left (k : Kernel) : ∃ c', step fs k (.keyboard Console.leftKey)
    = some { k with console := c' } ∧ k.console.keyboardInterrupt Console.leftKey = some c' := by
  have hkey := k.console.keyboardInterrupt_left
  exact ⟨_, congrArg (Option.map _) hkey, hkey⟩

theorem step_right (k : Kernel) : ∃ c', step fs k (.keyboard Console.rightKey)
    = some { k with console := c' } ∧ k.console.keyboardInterrupt Console.rightKey = some c' := by
  have hkey := k.console.keyboardInterrupt_right
  exact ⟨_, congrArg (Option.map _) hkey, hkey⟩

theorem run_lefts (k : Kernel) (n : Nat)
    (hx : (k.console.term k.console.visibleTerminal).screenX ≤ NUM_COLS) : ∃ k₁,
    StepSystem.run (step fs) k (lefts n) = some k₁ ∧
      ∃ j, Console.WentBack k.console k₁.console n j := by
  induction n generalizing k with
  | zero => exact ⟨k, rfl, 0, .refl _⟩
  | succ n ih =>
      obtain ⟨c', hstep, hkey⟩ := step_left fs k
      obtain ⟨r, hfirst, _⟩ := Console.left_wentBack hkey hx
      obtain ⟨k₁, hrun, j, hrest⟩ := ih { k with console := c' } (hfirst.inColumns hx)
      exact ⟨k₁, StepSystem.run_cons_eq_some.mpr ⟨_, hstep, hrun⟩, j + r, hfirst.trans hrest⟩

/-- Whether right presses go `j` cells forward by what the routine returns can be told before. -/
theorem run_rights (k : Kernel) {n j : Nat}
    (hshell : (k.console.term k.console.visibleTerminal).shellFlag = true)
    (hx : (k.console.term k.console.visibleTerminal).screenX ≤ NUM_COLS) (hj : j ≤ n)
    (hd : (j : Int) ≤ (k.console.term k.console.visibleTerminal).distanceFromRight) : ∃ k₁,
      StepSystem.run (step fs) k (rights n) = some k₁ ∧ k.console.position ≤ k₁.console.position ∧
      ((StepSystem.Guarded (step fs) MovesByReturn k (rights n) ∧
          k₁.console.position = k.console.position + j)
        ↔ k.console.Retraces n j) := by
  induction n generalizing k j with
  | zero =>
      obtain rfl : j = 0 := Nat.le_zero.mp hj
      refine ⟨k, rfl, Nat.le_refl _, iff_of_true ⟨trivial, rfl⟩ ?_⟩
      exact ⟨hx, Or.inl rfl, Or.inl rfl⟩
  | succ n ih =>
      obtain ⟨c', hstep, hkey⟩ := step_right fs k
      obtain ⟨hframe, hright⟩ := Console.right_spec hkey
      have hshell' : (c'.term c'.visibleTerminal).shellFlag = true := hframe.shell.trans hshell
      have hle := hright.position_le
      -- the guard of the press and that of the ones behind it
      have hguard : StepSystem.Guarded (step fs) MovesByReturn k (rights (n + 1)) ↔
          ¬ (k.console.CallsRight ∧ k.console.EdgeStep) ∧
            StepSystem.Guarded (step fs) MovesByReturn { k with console := c' } (rights n) := by
        refine and_congr ((movesByReturn_iff k _).trans ?_) ⟨fun h => h _ hstep, fun h k' hk' => ?_⟩
        · exact not_congr (and_iff_right rfl)
        · obtain rfl := Option.some.inj (hstep.symm.trans hk')
          exact h
      have hrun : ∀ {k₁}, StepSystem.run (step fs) { k with console := c' } (rights n) = some k₁ →
          StepSystem.run (step fs) k (rights (n + 1)) = some k₁ := fun h =>
        StepSystem.run_cons_eq_some.mpr ⟨_, hstep, h⟩
      rw [hguard]
      cases hright with
      | stays hstays hx' hy' hcursor hdist =>
          have hpos : c'.position = k.console.position := by
            unfold Console.position TermState.position
            rw [hx', hy']
          have hxc : (c'.term c'.visibleTerminal).screenX ≤ NUM_COLS := hx'.trans_le hx
          have hdc : 0 ≤ (c'.term c'.visibleTerminal).distanceFromRight := by omega
          obtain ⟨k₁, hk₁, hle₁, hiff⟩ :=
            @ih { k with console := c' } 0 hshell' hxc (Nat.zero_le _) hdc
          -- no press behind it moves the cursor either
          have hstays' := Console.stays_again hframe hstays hx' hy' hcursor hdist
          obtain ⟨hrest, hend⟩ := hiff.mpr (Console.retraces_zero hshell' hstays' hxc hdc n)
          have hsame : k₁.console.position = k.console.position := hend.trans hpos
          refine ⟨k₁, hrun hk₁, hsame.ge, fun h => ?_, fun h => ?_⟩
          · obtain rfl : j = 0 := by omega
            exact Console.retraces_zero hshell hstays hx (by omega) _
          · obtain rfl := h.eq_zero hshell hstays hd
            exact ⟨⟨fun hk => (hstays hk.1).2 hk.2, hrest⟩, hsame⟩
      | row hcalls hne hx' hy' hcursor hdist =>
          have hpos : c'.position = k.console.position + 1 := by
            unfold Console.position TermState.position
            rw [hx', hy']
            rfl
          have hxc : (c'.term c'.visibleTerminal).screenX ≤ NUM_COLS := by omega
          have hpass : ¬ (k.console.CallsRight ∧ k.console.EdgeStep) := fun hk => hne hk.2.1
          cases j with
          | zero =>
              have hdc : 0 ≤ (c'.term c'.visibleTerminal).distanceFromRight := by
                have hpositive := hcalls.1
                omega
              obtain ⟨k₁, hk₁, hle₁, _⟩ :=
                @ih { k with console := c' } 0 hshell' hxc (Nat.zero_le _) hdc
              have hfar : c'.position ≤ k₁.console.position := hle₁
              refine ⟨k₁, hrun hk₁, by omega, iff_of_false (fun h => ?_) ?_⟩
              · have hend := h.2
                omega
              · exact Console.not_retraces_zero hcalls (Or.inl hne)
          | succ j =>
              have hdc : (j : Int) ≤ (c'.term c'.visibleTerminal).distanceFromRight := by omega
              obtain ⟨k₁, hk₁, hle₁, hiff⟩ :=
                @ih { k with console := c' } j hshell' hxc (by omega) hdc
              have hfar : c'.position ≤ k₁.console.position := hle₁
              refine ⟨k₁, hrun hk₁, by omega, ?_⟩
              rw [Console.retraces_row hframe hcalls hx' hy' hcursor hdist, and_iff_right hpass]
              refine Iff.trans (and_congr_right' ?_) hiff
              show _ ↔ k₁.console.position = c'.position + j
              omega
      | edge hcalls hedge hx' hy' hdist =>
          have hxc : (c'.term c'.visibleTerminal).screenX ≤ NUM_COLS := hx'.trans_le hx
          have hdc : 0 ≤ (c'.term c'.visibleTerminal).distanceFromRight := by
            have hpositive := hcalls.1
            omega
          obtain ⟨k₁, hk₁, hle₁, _⟩ :=
            @ih { k with console := c' } 0 hshell' hxc (Nat.zero_le _) hdc
          refine ⟨k₁, hrun hk₁, hle.trans hle₁, iff_of_false (fun h => ?_) ?_⟩
          · exact h.1.1 ⟨hcalls, hedge⟩
          · exact Console.not_retraces_edge hcalls hedge

end

/-! ## There and back -/

/-- **The arrow keys.** In a run of the kernel every arrow key moves the cursor by what the routine
returns, exactly if no right arrow changes the row. In the states that are reached `left_arrow`
always does so, and `right_arrow` exactly if it does not change the row. After any number of left
presses on a shell as many right presses do so and lead back to the cell, exactly if `Retraces`
holds for the number of cells gone back; where every left press has moved the cursor, exactly if
these cells are in one row and the index in the line is at most 127. -/
theorem arrows_iff (fs : FileSys) (m : BootMemory) (es : List Event) :
    (StepSystem.Guarded (step fs) MovesByReturn (boot m) es
      ↔ StepSystem.Guarded (step fs) StaysInRow (boot m) es) ∧
    ∀ k, StepSystem.run (step fs) (boot m) es = some k →
      (k.console.leftArrow.1.position : Int) = k.console.position - k.console.leftArrow.2 ∧
      ((k.console.rightArrow.1.position : Int) = k.console.position + k.console.rightArrow.2
        ↔ ¬ k.console.EdgeStep) ∧
      ((k.console.term k.console.visibleTerminal).shellFlag = true →
        ∀ n, ∃ k₁ k₂, StepSystem.run (step fs) k (lefts n) = some k₁ ∧
          StepSystem.run (step fs) k₁ (rights n) = some k₂ ∧
          ((StepSystem.Guarded (step fs) MovesByReturn k₁ (rights n) ∧
              k₂.console.position = k.console.position)
            ↔ k₁.console.Retraces n (k.console.position - k₁.console.position)) ∧
          (k₁.console.position + n = k.console.position →
            ((StepSystem.Guarded (step fs) MovesByReturn k₁ (rights n) ∧
                k₂.console.position = k.console.position)
              ↔ n = 0 ∨ ((k.console.term k.console.visibleTerminal).keyboardCursorIdx ≤ 127 ∧
                  n ≤ (k.console.position - 1) % 80 + 1)))) := by
  refine ⟨?_, fun k hk => ⟨k.console.leftArrow_position, k.console.rightArrow_position_iff,
    fun hshell n => ?_⟩⟩
  · exact StepSystem.guarded_congr (P := fun _ => True) (fun _ _ _ _ _ => trivial)
      (fun k e _ => movesByReturn_iff k e) trivial
  · have hreach : StepSystem.Reachable (step fs) (boot m) k := ⟨es, hk⟩
    have hspaced : Spaced k := hreach.invariant (fun _ _ _ => step_spaced) (boot_spaced m)
    have hx : (k.console.term k.console.visibleTerminal).screenX ≤ NUM_COLS :=
      (hspaced.onScreen _).2
    obtain ⟨k₁, hlefts, j, hback⟩ := run_lefts fs k n hx
    have hpos := hback.position
    have hd : (j : Int) ≤ (k₁.console.term k₁.console.visibleTerminal).distanceFromRight := by
      have hnonneg : 0 ≤ (k.console.term k.console.visibleTerminal).distanceFromRight :=
        hspaced.distances _
      have hdist := hback.distance
      omega
    obtain ⟨k₂, hrights, _, hiff⟩ := run_rights fs k₁ (hback.frame.shell.trans hshell)
      (hback.inColumns hx) hback.le hd
    rw [hpos] at hiff
    refine ⟨k₁, k₂, hlefts, hrights, ?_, fun hall => ?_⟩
    · rw [hiff, show k.console.position - k₁.console.position = j by omega]
    · obtain rfl : j = n := by omega
      exact hiff.trans (hback.retraces_iff hx)

/-- In a line of one character. -/
theorem arrows_iff_a : ∃ k k₁ k₂,
    StepSystem.run (step sampleImage) (boot zeroMemory) [.pit zeroFrame, .switch 1, .keyboard 0x1E]
      = some k ∧
      StepSystem.run (step sampleImage) k (lefts 1) = some k₁ ∧
      StepSystem.run (step sampleImage) k₁ (rights 1) = some k₂ ∧
      k₂.console.position = k.console.position := by
  have hview : (StepSystem.run (step sampleImage) (boot zeroMemory)
      [.pit zeroFrame, .switch 1, .keyboard 0x1E]).map (fun k =>
      decide ((k.console.term k.console.visibleTerminal).shellFlag = true ∧
        k.console.position = 1 ∧
        (k.console.term k.console.visibleTerminal).keyboardCursorIdx = 1 ∧
        (StepSystem.run (step sampleImage) k (lefts 1)).map (fun k => k.console.position)
          = some 0)) = some true := by
    decide +kernel
  obtain ⟨k, hk, hshell, hpos, hcursor, hleft⟩ := StepSystem.exists_of_map_decide hview
  obtain ⟨k₁, k₂, hlefts, hrights, _, hall⟩ :=
    ((arrows_iff sampleImage zeroMemory _).2 k hk).2.2 hshell 1
  rw [hlefts] at hleft
  have hback : k₁.console.position = 0 := Option.some.inj hleft
  refine ⟨k, k₁, k₂, hk, hlefts, hrights, ((hall (by omega)).mpr (Or.inr ⟨?_, ?_⟩)).2⟩
  · rw [hcursor]
    decide
  · exact Nat.le_add_left 1 _

/-! ## A line of two rows -/

/-- On the small image the first shell is shown and `n` times `a` is typed. -/
def typedShell (n : Nat) : List Event :=
  [.pit zeroFrame, .switch 1] ++ List.replicate n (.keyboard 0x1E)

/-- 81 characters fill the first row and begin the second. -/
theorem run_typed_81 : ∃ k,
    StepSystem.run (step sampleImage) (boot zeroMemory) (typedShell 81) = some k ∧
      k.console.shown.shellFlag = true ∧ k.console.shown.screenX = 1 ∧
      k.console.shown.screenY = 1 ∧ k.console.shown.keyboardCursorIdx = 81 ∧
      k.console.shown.distanceFromRight = 0 ∧ k.console.rowEnd 0 ≠ 10 ∧
      k.console.rowEnd 1 ≠ 10 := by
  have hview : (StepSystem.run (step sampleImage) (boot zeroMemory)
      [.pit zeroFrame, .switch 1]).map (fun k =>
      decide (TypesPlain k.console.shown ∧ k.console.shown.distanceFromRight = 0 ∧
        k.console.shown.echoFlag = true ∧ k.console.shown.keyboardCursorIdx = 0 ∧
        k.shownScreen.x = 0 ∧ k.shownScreen.y = 0 ∧
        k.shownScreen.text.cell 1 79 ≠ 10)) = some true := by
    decide +kernel
  obtain ⟨k₀, hk₀, hplain, hdist, hecho, hcur, hx, hy, hcell⟩ :=
    StepSystem.exists_of_map_decide hview
  have hw : k₀.shownScreen.Wraps :=
    run_allWraps hk₀ ⟨trivial, fun _ _ => ⟨trivial, fun _ _ => trivial⟩⟩ _
  have hbegin := Echoing.start hw hdist hecho
  obtain ⟨hguard, hcount, hkeeps⟩ := hbegin.types_a sampleImage hplain 81 (by omega) (by omega)
  obtain ⟨k, hrun, htyped⟩ := hbegin.run_typed hguard (by omega) (by omega)
  have hkplain := hkeeps k hrun
  rw [hcount, Nat.zero_add] at htyped
  obtain ⟨r, hroll, hframed, hshows, _⟩ := htyped.roll
  have hstart : (TextScreen.Roll.of NUM_ROWS NUM_COLS 0 k₀.shownScreen.text).pos = 0 := by
    show NUM_COLS * k₀.shownScreen.y + k₀.shownScreen.x = 0
    rw [hx, hy, Nat.mul_zero]
  have hpos : r.pos = 81 := by rw [hroll.pos, hstart]
  have htop : r.top = 0 := by
    have hle := hroll.top
    rw [hstart] at hle
    exact Nat.le_zero.mp hle
  have hline := htyped.line
  rw [hcur] at hline
  have hcol : k.console.shown.screenX = 81 % NUM_COLS := hpos ▸ hshows.x
  have hrow : k.console.shown.screenY + r.top = 81 / NUM_COLS := hpos ▸ hshows.y
  have hend : ∀ y < NUM_ROWS, k.console.rowEnd y = r.text (NUM_COLS * (0 + y) + 79) := by
    intro y hy
    rw [k.console.rowEnd_eq hy, ← htop]
    exact hshows.cell y hy 79 (by decide)
  refine ⟨k, StepSystem.run_append_eq_some.mpr ⟨k₀, hk₀, hrun⟩, hkplain.1, hcol, ?_,
    hline.cursor, hline.distance, ?_, ?_⟩
  · rw [htop] at hrow
    exact hrow
  · -- the last cell of the first row has been typed
    rw [hend 0 (by decide)]
    exact hroll.kept _ (by rw [hstart]; exact Nat.zero_le _) (by rw [hstart]; decide)
  · -- that of the second has not
    rw [hend 1 (by decide), hroll.outside _ (Or.inr (by rw [hstart]; decide))]
    exact hcell

/-- Two left presses lead to the last cell of the first row. -/
theorem run_lefts_81 : ∃ k k₁,
    StepSystem.run (step sampleImage) (boot zeroMemory) (typedShell 81) = some k ∧
      k.console.shown.shellFlag = true ∧ k.console.position = 81 ∧
      k.console.shown.keyboardCursorIdx = 81 ∧
      StepSystem.run (step sampleImage) k (lefts 2) = some k₁ ∧
      k₁.console.shown.shellFlag = true ∧ k₁.console.shown.screenX = 79 ∧
      k₁.console.shown.screenY = 0 ∧ k₁.console.shown.keyboardCursorIdx = 79 ∧
      k₁.console.shown.distanceFromRight = 2 ∧ k₁.console.rowEnd 1 ≠ 10 := by
  obtain ⟨k, hrun, hshell, hx, hy, hcur, hdist, hfirst, hsecond⟩ := run_typed_81
  have hplace : ∀ c : Console, c.position = 80 * c.shown.screenY + c.shown.screenX :=
    fun _ => rfl
  have hpos : k.console.position = 81 := by
    rw [hplace, hx, hy]
  obtain ⟨c₁, hstep₁, hkey₁⟩ := step_left sampleImage k
  obtain ⟨r₁, h₁, hmoved₁⟩ := Console.left_wentBack hkey₁
    (show k.console.shown.screenX ≤ 80 by omega)
  obtain rfl : r₁ = 1 := by
    apply hmoved₁
    · exact ⟨hshell, show k.console.shown.keyboardCursorIdx > 0 by omega⟩
    · exact ⟨show k.console.shown.keyboardCursorIdx ≠ 0 by omega,
        Or.inl (show k.console.shown.screenX ≠ 0 by omega)⟩
  have hpos₁ : c₁.position + 1 = k.console.position := h₁.position
  have hcur₁ : c₁.shown.keyboardCursorIdx = k.console.shown.keyboardCursorIdx - 1 := h₁.cursor rfl
  have hcol₁ : c₁.shown.screenX < 80 := h₁.column.resolve_left fun hk => absurd hk.1 (by decide)
  have hplace₁ := hplace c₁
  -- in column 0 the row above must not end with a line feed
  obtain ⟨c₂, hstep₂, hkey₂⟩ := step_left sampleImage { k with console := c₁ }
  obtain ⟨r₂, h₂, hmoved₂⟩ := Console.left_wentBack hkey₂
    (show c₁.shown.screenX ≤ 80 by omega)
  obtain rfl : r₂ = 1 := by
    apply hmoved₂
    · exact ⟨h₁.frame.shell.trans hshell, show c₁.shown.keyboardCursorIdx > 0 by omega⟩
    · refine ⟨show c₁.shown.keyboardCursorIdx ≠ 0 by omega,
        Or.inr ⟨show c₁.shown.screenY ≠ 0 by omega, ?_⟩⟩
      show c₁.rowEnd (c₁.shown.screenY - 1) ≠ 10
      rw [show c₁.shown.screenY - 1 = 0 by omega]
      unfold Console.rowEnd
      rw [h₁.frame.video]
      exact hfirst
  have hback := h₁.trans h₂
  have hpos₂ : c₂.position + 2 = k.console.position := hback.position
  have hcur₂ : c₂.shown.keyboardCursorIdx = k.console.shown.keyboardCursorIdx - 2 :=
    hback.cursor rfl
  have hdist₂ : c₂.shown.distanceFromRight = k.console.shown.distanceFromRight + 2 :=
    hback.distance
  have hcol₂ : c₂.shown.screenX < 80 := hback.column.resolve_left fun hk => absurd hk.1 (by decide)
  have hplace₂ := hplace c₂
  refine ⟨k, { k with console := c₂ }, hrun, hshell, hpos, hcur, ?_, hback.frame.shell.trans hshell,
    show c₂.shown.screenX = 79 by omega, show c₂.shown.screenY = 0 by omega,
    show c₂.shown.keyboardCursorIdx = 79 by omega,
    show c₂.shown.distanceFromRight = 2 by omega, ?_⟩
  · exact StepSystem.run_cons_eq_some.mpr ⟨_, hstep₁, StepSystem.run_cons_eq_some.mpr
      ⟨_, hstep₂, rfl⟩⟩
  · unfold Console.rowEnd
    rw [hback.frame.video]
    exact hsecond

/-- Two right presses from there: the second finds the cursor in column 80 and takes it to column
80 of the next row. -/
theorem rights_from_79 {c : Console} (hshell : c.shown.shellFlag = true)
    (hx : c.shown.screenX = 79) (hy : c.shown.screenY = 0) (hcur : c.shown.keyboardCursorIdx = 79)
    (hdist : c.shown.distanceFromRight = 2) (hrow : c.rowEnd 1 ≠ 10) {c₁ c₂ : Console}
    (h₁ : c.keyboardInterrupt Console.rightKey = some c₁)
    (h₂ : c₁.keyboardInterrupt Console.rightKey = some c₂) :
    c₁.shown.shellFlag = true ∧ c₁.position = 80 ∧ c₁.rightArrow.2 = 1 ∧
      c₁.rightArrow.1.position = 160 ∧ c₂.position = 160 := by
  have hplace : ∀ c : Console, c.position = 80 * c.shown.screenY + c.shown.screenX :=
    fun _ => rfl
  obtain ⟨hframe, hright⟩ := Console.right_spec h₁
  have hcalls : c.CallsRight :=
    ⟨show c.shown.distanceFromRight > 0 by omega, show c.shown.keyboardCursorIdx < 127 by omega,
      hshell⟩
  have hne : c.shown.screenX ≠ NUM_COLS := by
    rw [hx]
    decide
  cases hright with
  | stays hstays => exact absurd (hstays hcalls).1 hne
  | edge _ hedge => exact absurd hedge.1 hne
  | row _ _ hx₁ hy₁ hcur₁ hdist₁ =>
      have hx₁' : c₁.shown.screenX = c.shown.screenX + 1 := hx₁
      have hy₁' : c₁.shown.screenY = c.shown.screenY := hy₁
      have hcur₁' : c₁.shown.keyboardCursorIdx = c.shown.keyboardCursorIdx + 1 := hcur₁
      have hdist₁' : c₁.shown.distanceFromRight = c.shown.distanceFromRight - 1 := hdist₁
      have hshell₁ : c₁.shown.shellFlag = true := hframe.shell.trans hshell
      have hcalls₁ : c₁.CallsRight :=
        ⟨show c₁.shown.distanceFromRight > 0 by omega,
          show c₁.shown.keyboardCursorIdx < 127 by omega, hshell₁⟩
      have hedge₁ : c₁.EdgeStep := by
        refine ⟨show c₁.shown.screenX = 80 by omega, show c₁.shown.screenY < 24 by omega,
          show c₁.shown.keyboardCursorIdx ≠ 127 by omega, ?_⟩
        show c₁.rowEnd (c₁.shown.screenY + 1) ≠ 10
        rw [hy₁', hy]
        unfold Console.rowEnd
        rw [hframe.video]
        exact hrow
      have hmoves₁ := (c₁.edgeStep_iff.mp hedge₁).2
      have hreturn : c₁.rightArrow.2 = 1 := by
        rw [Console.rightArrow_snd, if_pos hmoves₁]
      have hpos₁ := hplace c₁
      have hafter : c₁.rightArrow.1.position = c₁.position + NUM_COLS := by
        rw [Console.rightArrow_fst, if_pos hmoves₁, Console.position_modify,
          TermState.position_goRight, if_neg (not_not.mpr hedge₁.1)]
        rfl
      have hend : c₂.position = c₁.position + NUM_COLS := by
        cases (Console.right_spec h₂).2 with
        | stays hstays => exact absurd hedge₁ (hstays hcalls₁).2
        | row _ hne₁ => exact absurd hedge₁.1 hne₁
        | edge _ _ hx₂ hy₂ =>
            have hx₂' : c₂.shown.screenX = c₁.shown.screenX := hx₂
            have hy₂' : c₂.shown.screenY = c₁.shown.screenY + 1 := hy₂
            have hplace₂ := hplace c₂
            unfold NUM_COLS
            omega
      unfold NUM_COLS at hafter hend
      exact ⟨hshell₁, by omega, hreturn, by omega, by omega⟩

/-- Behind 81 characters two left and two right presses do not lead back. -/
theorem right_arrow_skips_row :
    (¬ ∀ (fs : FileSys) (k : Kernel), Reachable fs k → k.console.shown.shellFlag = true →
      k.console.rightArrow.2 = 1 →
        k.console.rightArrow.1.position = k.console.position + 1) ∧
    ¬ ∀ (fs : FileSys) (k k₁ k₂ : Kernel) (n : Nat), Reachable fs k →
      k.console.shown.shellFlag = true → n ≤ k.console.shown.keyboardCursorIdx →
        StepSystem.run (step fs) k (lefts n) = some k₁ →
          StepSystem.run (step fs) k₁ (rights n) = some k₂ →
            k₂.console.position = k.console.position := by
  obtain ⟨k, k₁, hrun, hshell, hpos, hline, hlefts, hshell₁, hx, hy, hcur, hdist, hrow⟩ :=
    run_lefts_81
  obtain ⟨c₂, hstep₂, hkey₂⟩ := step_right sampleImage k₁
  obtain ⟨c₃, hstep₃, hkey₃⟩ := step_right sampleImage { k₁ with console := c₂ }
  obtain ⟨hshell₂, hpos₂, hreturn, hafter, hend⟩ :=
    rights_from_79 hshell₁ hx hy hcur hdist hrow hkey₂ hkey₃
  have hreach : Reachable sampleImage k := ⟨zeroMemory, _, hrun⟩
  constructor
  · intro hall
    obtain ⟨m, hm⟩ := hreach
    have hone := hall sampleImage { k₁ with console := c₂ }
      ⟨m, (hm.trans_run hlefts).trans_step hstep₂⟩ hshell₂ hreturn
    have hone' : c₂.rightArrow.1.position = c₂.position + 1 := hone
    omega
  · intro hall
    have hrights : StepSystem.run (step sampleImage) k₁ (rights 2)
        = some { k₁ with console := c₃ } :=
      StepSystem.run_cons_eq_some.mpr ⟨_, hstep₂, StepSystem.run_cons_eq_some.mpr
        ⟨_, hstep₃, rfl⟩⟩
    have hsame := hall sampleImage k k₁ _ 2 hreach hshell (by omega) hlefts hrights
    have hsame' : c₃.position = k.console.position := hsame
    omega

end Kernel

end Ext2Kernel
