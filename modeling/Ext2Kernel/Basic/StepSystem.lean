import Mathlib.Logic.Basic
import Mathlib.Tactic.TypeStar

set_option autoImplicit false

/-! # Partial step systems

A step system is a function `step : σ → ε → Option σ`: what an event does to a state, where
`none` says that the event has no defined effect there. The file defines runs over a list of
events, reachability, guards on the steps of a run (`Guarded`) and properties of all states
of a run (`Along`), with the induction rules that derive a property of runs from a property
of one step.
-/

namespace StepSystem

variable {σ ε : Type*} (step : σ → ε → Option σ)

/-- The state after a list of events; `none` as soon as one of them is undefined. -/
def run : σ → List ε → Option σ
  | s, [] => some s
  | s, e :: es => (step s e).bind fun s' => run s' es

/-- `s` is reachable from `init` by some list of events. -/
def Reachable (init s : σ) : Prop := ∃ es, run step init es = some s

/-- Every step of the run from `s` meets the guard `ok`, which sees the state before the
step and the event. -/
def Guarded (ok : σ → ε → Prop) : σ → List ε → Prop
  | _, [] => True
  | s, e :: es => ok s e ∧ ∀ s', step s e = some s' → Guarded ok s' es

/-- Every state the run from `s` goes through, `s` included, satisfies `Q`. -/
def Along (Q : σ → Prop) : σ → List ε → Prop
  | s, [] => Q s
  | s, e :: es => Q s ∧ ∀ s', step s e = some s' → Along Q s' es

/-- How many events of a run meet `p`, which sees the state before the step. -/
def count (p : σ → ε → Prop) [∀ s e, Decidable (p s e)] : σ → List ε → Nat
  | _, [] => 0
  | s, e :: es =>
      (if p s e then 1 else 0) +
        match step s e with
        | some s' => count p s' es
        | none => 0

/-- Guards of concrete runs can be evaluated. -/
instance decidableGuarded (ok : σ → ε → Prop) [∀ s e, Decidable (ok s e)] :
    ∀ (s : σ) (es : List ε), Decidable (Guarded step ok s es)
  | _, [] => isTrue trivial
  | s, e :: es =>
      match h : step s e with
      | none =>
          decidable_of_iff (ok s e)
            ⟨fun hok => ⟨hok, fun s' hs' => by rw [h] at hs'; cases hs'⟩, And.left⟩
      | some m =>
          have := decidableGuarded ok m es
          decidable_of_iff (ok s e ∧ Guarded step ok m es)
            ⟨fun ⟨hok, hg⟩ => ⟨hok, fun s' hs' => by rw [h] at hs'; cases hs'; exact hg⟩,
              fun hg => ⟨hg.1, hg.2 m h⟩⟩

/-- A computed result together with a property that has been decided for it. -/
theorem exists_of_map_decide {α : Type*} {o : Option α} {P : α → Prop} [DecidablePred P]
    (h : o.map (fun a => decide (P a)) = some true) : ∃ a, o = some a ∧ P a := by
  cases o with
  | none => cases h
  | some a => exact ⟨a, rfl, of_decide_eq_true (Option.some.inj h)⟩

variable {step}

theorem run_cons_eq_some {s s' : σ} {e : ε} {es : List ε} :
    run step s (e :: es) = some s' ↔ ∃ m, step s e = some m ∧ run step m es = some s' := by
  show (step s e).bind (fun m => run step m es) = some s' ↔ _
  rw [Option.bind_eq_some_iff]

theorem run_append_eq_some {s s' : σ} {es fs : List ε} :
    run step s (es ++ fs) = some s' ↔
      ∃ m, run step s es = some m ∧ run step m fs = some s' := by
  induction es generalizing s with
  | nil => simp [run]
  | cons e es ih =>
      rw [List.cons_append, run_cons_eq_some]
      constructor
      · rintro ⟨m, hm, hrest⟩
        obtain ⟨n, hn, hfs⟩ := ih.mp hrest
        exact ⟨n, run_cons_eq_some.mpr ⟨m, hm, hn⟩, hfs⟩
      · rintro ⟨n, hn, hfs⟩
        obtain ⟨m, hm, hes⟩ := run_cons_eq_some.mp hn
        exact ⟨m, hm, ih.mpr ⟨n, hes, hfs⟩⟩

theorem count_cons {p : σ → ε → Prop} [∀ s e, Decidable (p s e)] {s s' : σ} {e : ε} {es : List ε}
    (h : step s e = some s') :
    count step p s (e :: es) = (if p s e then 1 else 0) + count step p s' es := by
  rw [count, h]

theorem Reachable.refl (s : σ) : Reachable step s s := ⟨[], rfl⟩

theorem Reachable.trans_run {init s s' : σ} {es : List ε} (h : Reachable step init s)
    (hr : run step s es = some s') : Reachable step init s' := by
  obtain ⟨es₀, h₀⟩ := h
  exact ⟨es₀ ++ es, run_append_eq_some.mpr ⟨s, h₀, hr⟩⟩

theorem Reachable.trans_step {init s s' : σ} {e : ε} (h : Reachable step init s)
    (hs : step s e = some s') : Reachable step init s' := by
  have hr : run step s [e] = some s' := run_cons_eq_some.mpr ⟨s', hs, rfl⟩
  exact h.trans_run hr

theorem Guarded.and {ok ok' : σ → ε → Prop} {s : σ} {es : List ε} (h : Guarded step ok s es)
    (h' : Guarded step ok' s es) : Guarded step (fun s e => ok s e ∧ ok' s e) s es := by
  induction es generalizing s with
  | nil => trivial
  | cons e es ih => exact ⟨⟨h.1, h'.1⟩, fun s' hs' => ih (h.2 s' hs') (h'.2 s' hs')⟩

theorem guarded_of_forall {ok : σ → ε → Prop} (h : ∀ s e, ok s e) (s : σ) (es : List ε) :
    Guarded step ok s es := by
  induction es generalizing s with
  | nil => trivial
  | cons e es ih => exact ⟨h s e, fun s' _ => ih s'⟩

theorem guarded_of_imp {ok ok' : σ → ε → Prop} (himp : ∀ s e, ok s e → ok' s e) {s : σ}
    {es : List ε} (h : Guarded step ok s es) : Guarded step ok' s es := by
  induction es generalizing s with
  | nil => trivial
  | cons e es ih => exact ⟨himp s e h.1, fun s' hs' => ih (h.2 s' hs')⟩

/-- The guard on the event after a run. -/
theorem Guarded.last {ok : σ → ε → Prop} {s s' : σ} {es : List ε} {e : ε}
    (h : Guarded step ok s (es ++ [e])) (hr : run step s es = some s') : ok s' e := by
  induction es generalizing s with
  | nil =>
      cases hr
      exact h.1
  | cons e' es ih =>
      obtain ⟨m, hm, hrest⟩ := run_cons_eq_some.mp hr
      exact ih (h.2 m hm) hrest

/-! ## Invariant rules -/

section

variable {P : σ → Prop} {ok : σ → ε → Prop}

/-- What every step preserves, every guarded run preserves. -/
theorem run_invariant_of_guarded
    (hstep : ∀ s e s', P s → ok s e → step s e = some s' → P s')
    {s s' : σ} {es : List ε} (hg : Guarded step ok s es) (hr : run step s es = some s')
    (h : P s) : P s' := by
  induction es generalizing s with
  | nil => cases hr; exact h
  | cons e es ih =>
      obtain ⟨m, hm, hrest⟩ := run_cons_eq_some.mp hr
      exact ih (hg.2 m hm) hrest (hstep s e m h hg.1 hm)

theorem run_invariant (hstep : ∀ s e s', P s → step s e = some s' → P s')
    {s s' : σ} {es : List ε} (hr : run step s es = some s') (h : P s) : P s' := by
  induction es generalizing s with
  | nil => cases hr; exact h
  | cons e es ih =>
      obtain ⟨m, hm, hrest⟩ := run_cons_eq_some.mp hr
      exact ih hrest (hstep s e m h hm)

theorem Reachable.invariant (hstep : ∀ s e s', P s → step s e = some s' → P s')
    {init s : σ} (hr : Reachable step init s) (h : P init) : P s := by
  obtain ⟨es, hes⟩ := hr
  exact run_invariant hstep hes h

/-- Progress and preservation together: a guarded run is defined and ends in `P`. -/
theorem run_total_of_guarded
    (hstep : ∀ s e, P s → ok s e → ∃ s', step s e = some s' ∧ P s')
    {s : σ} {es : List ε} (hg : Guarded step ok s es) (h : P s) :
    ∃ s', run step s es = some s' ∧ P s' := by
  induction es generalizing s with
  | nil => exact ⟨s, rfl, h⟩
  | cons e es ih =>
      obtain ⟨m, hm, hP⟩ := hstep s e h hg.1
      obtain ⟨s', hs', hP'⟩ := ih (hg.2 m hm) hP
      exact ⟨s', run_cons_eq_some.mpr ⟨m, hm, hs'⟩, hP'⟩

end

/-- Two guards that agree in the states of an invariant. -/
theorem guarded_congr {P : σ → Prop} {ok ok' : σ → ε → Prop}
    (hstep : ∀ s e s', P s → step s e = some s' → P s') (hok : ∀ s e, P s → (ok s e ↔ ok' s e))
    {s : σ} {es : List ε} (h : P s) : Guarded step ok s es ↔ Guarded step ok' s es := by
  induction es generalizing s with
  | nil => rfl
  | cons e es ih =>
      refine and_congr (hok s e h) (forall_congr' fun s' => forall_congr' fun hs' => ?_)
      exact ih (hstep s e s' h hs')

/-! ## History variables -/

section

variable {γ : Type*} {upd : σ → ε → σ → γ → γ}

/-- The step system with a history variable, which every step updates from the states before and
after it. -/
def withHistory (step : σ → ε → Option σ) (upd : σ → ε → σ → γ → γ) (p : σ × γ) (e : ε) :
    Option (σ × γ) :=
  (step p.1 e).map fun s' => (s', upd p.1 e s' p.2)

theorem withHistory_eq_some {p p' : σ × γ} {e : ε} : withHistory step upd p e = some p' ↔
    ∃ s', step p.1 e = some s' ∧ (s', upd p.1 e s' p.2) = p' :=
  Option.map_eq_some_iff

/-- A history variable does not change the runs. -/
theorem run_withHistory_fst (p : σ × γ) (es : List ε) :
    (run (withHistory step upd) p es).map Prod.fst = run step p.1 es := by
  induction es generalizing p with
  | nil => rfl
  | cons e es ih =>
      unfold run withHistory
      cases step p.1 e with
      | none => rfl
      | some s' => exact ih (s', upd p.1 e s' p.2)

/-- A guard that does not look at the history variable. -/
theorem guarded_withHistory {ok : σ → ε → Prop} {p : σ × γ} {es : List ε} :
    Guarded (withHistory step upd) (fun p e => ok p.1 e) p es ↔ Guarded step ok p.1 es := by
  induction es generalizing p with
  | nil => rfl
  | cons e es ih =>
      refine and_congr_right fun _ => ⟨fun h s' hs' => ?_, fun h p' hp' => ?_⟩
      · have hp' : withHistory step upd p e = some (s', upd p.1 e s' p.2) :=
          withHistory_eq_some.mpr ⟨s', hs', rfl⟩
        exact ih.mp (h _ hp')
      · obtain ⟨s', hs', rfl⟩ := withHistory_eq_some.mp hp'
        exact ih.mpr (h s' hs')

theorem run_of_withHistory {p p' : σ × γ} {es : List ε}
    (h : run (withHistory step upd) p es = some p') : run step p.1 es = some p'.1 := by
  have hfst : (run (withHistory step upd) p es).map Prod.fst = run step p.1 es :=
    run_withHistory_fst p es
  rw [← hfst, h]
  rfl

end

/-- Functional simulation of total steps: if every step from a state with the invariant keeps
it and is matched by the abstract step, every sequence of steps is. -/
theorem foldl_simulates {τ : Type*} {f : σ → ε → σ} {g : τ → ε → τ} {abs : σ → τ} {P : σ → Prop}
    (hP : ∀ s e, P s → P (f s e)) (habs : ∀ s e, P s → abs (f s e) = g (abs s) e)
    {s : σ} (h : P s) (es : List ε) :
    P (es.foldl f s) ∧ abs (es.foldl f s) = es.foldl g (abs s) := by
  induction es generalizing s with
  | nil => exact ⟨h, rfl⟩
  | cons e es ih =>
      rw [List.foldl_cons, List.foldl_cons, ← habs s e h]
      exact ih (hP s e h)

theorem Along.head {Q : σ → Prop} {s : σ} {es : List ε} (h : Along step Q s es) : Q s := by
  cases es with
  | nil => exact h
  | cons _ _ => exact h.1

/-- When each step, taken from a state with the invariant `P` and the property `Q`, keeps
`Q` exactly if it meets the guard, a run goes through `Q`-states only exactly if all its
steps meet the guard. -/
theorem along_iff_guarded {P Q : σ → Prop} {ok : σ → ε → Prop}
    (hP : ∀ s e s', P s → step s e = some s' → P s')
    (hQ : ∀ s e s', P s → Q s → step s e = some s' → (Q s' ↔ ok s e))
    {s s' : σ} {es : List ε} (hr : run step s es = some s') (h : P s) (hq : Q s) :
    Along step Q s es ↔ Guarded step ok s es := by
  induction es generalizing s with
  | nil => exact ⟨fun _ => trivial, fun _ => hq⟩
  | cons e es ih =>
      obtain ⟨m, hm, hrest⟩ := run_cons_eq_some.mp hr
      have hstep := hQ s e m h hq hm
      have hrec := fun hqm => ih hrest (hP s e m h hm) hqm
      constructor
      · rintro ⟨_, hAll⟩
        have hAm := hAll m hm
        have hqm : Q m := hAm.head
        refine ⟨hstep.mp hqm, fun m' hm' => ?_⟩
        rw [hm] at hm'
        cases hm'
        exact (hrec hqm).mp hAm
      · rintro ⟨hok, hAll⟩
        refine ⟨hq, fun m' hm' => ?_⟩
        have hqm : Q m := hstep.mpr hok
        rw [hm] at hm'
        cases hm'
        exact (hrec hqm).mpr (hAll m hm)

/-- When guarded steps keep the invariant `P` and are as observed by `ok'`, and a step that
misses the guard is either not as observed or leads out of `Q`, a run goes through `Q`-states with
steps as observed exactly if its steps meet the guard. Of the run it is known that it goes through
`D`-states. -/
theorem along_and_guarded_iff_within {P Q D : σ → Prop} {ok ok' : σ → ε → Prop}
    (hPQ : ∀ s, P s → Q s)
    (hgood : ∀ s e, P s → (∀ s', step s e = some s' → D s') → ok s e →
      ok' s e ∧ ∀ s', step s e = some s' → P s')
    (hbad : ∀ s e, P s → (∀ s', step s e = some s' → D s') → ¬ ok s e →
      ¬ (ok' s e ∧ ∀ s', step s e = some s' → Q s'))
    {s : σ} {es : List ε} (h : P s) (hD : Along step D s es) :
    (Along step Q s es ∧ Guarded step ok' s es) ↔ Guarded step ok s es := by
  induction es generalizing s with
  | nil => exact ⟨fun _ => trivial, fun _ => ⟨hPQ s h, trivial⟩⟩
  | cons e es ih =>
      have hDnext : ∀ s', step s e = some s' → D s' := fun s' hs' => (hD.2 s' hs').head
      constructor
      · rintro ⟨⟨_, hAll⟩, hok', hGuard⟩
        have hnext : ∀ s', step s e = some s' → Q s' := fun s' hs' => (hAll s' hs').head
        have hok : ok s e :=
          Classical.not_not.mp fun hne => hbad s e h hDnext hne ⟨hok', hnext⟩
        have hP := (hgood s e h hDnext hok).2
        exact ⟨hok, fun s' hs' =>
          (ih (hP s' hs') (hD.2 s' hs')).mp ⟨hAll s' hs', hGuard s' hs'⟩⟩
      · rintro ⟨hok, hGuard⟩
        obtain ⟨hok', hP⟩ := hgood s e h hDnext hok
        have hrest : ∀ s', step s e = some s' → Along step Q s' es ∧ Guarded step ok' s' es :=
          fun s' hs' => (ih (hP s' hs') (hD.2 s' hs')).mpr (hGuard s' hs')
        exact ⟨⟨hPQ s h, fun s' hs' => (hrest s' hs').1⟩, hok', fun s' hs' => (hrest s' hs').2⟩

/-- The same for every run. -/
theorem along_and_guarded_iff_of_inv {P Q : σ → Prop} {ok ok' : σ → ε → Prop}
    (hPQ : ∀ s, P s → Q s)
    (hgood : ∀ s e, P s → ok s e → ok' s e ∧ ∀ s', step s e = some s' → P s')
    (hbad : ∀ s e, P s → ¬ ok s e → ¬ (ok' s e ∧ ∀ s', step s e = some s' → Q s'))
    {s : σ} {es : List ε} (h : P s) :
    (Along step Q s es ∧ Guarded step ok' s es) ↔ Guarded step ok s es := by
  have htrue : Along step (fun _ => True) s es := by
    clear h
    induction es generalizing s with
    | nil => trivial
    | cons e es ih => exact ⟨trivial, fun s' _ => ih⟩
  exact along_and_guarded_iff_within hPQ (fun s e hs _ => hgood s e hs)
    (fun s e hs _ => hbad s e hs) h htrue

/-- The same when a step from a state with the invariant `P` and the property `Q` is as observed
and keeps `Q` exactly if it meets the guard. -/
theorem along_and_guarded_iff {P Q : σ → Prop} {ok ok' : σ → ε → Prop}
    (hP : ∀ s e s', P s → step s e = some s' → P s')
    (hQ : ∀ s e, P s → Q s → ((ok' s e ∧ ∀ s', step s e = some s' → Q s') ↔ ok s e))
    {s : σ} {es : List ε} (h : P s) (hq : Q s) :
    (Along step Q s es ∧ Guarded step ok' s es) ↔ Guarded step ok s es := by
  refine along_and_guarded_iff_of_inv (P := fun s => P s ∧ Q s) (fun _ hs => hs.2)
    (fun s e hs hok => ?_) (fun s e hs hok hk => hok ((hQ s e hs.1 hs.2).mp hk)) ⟨h, hq⟩
  obtain ⟨hok', hnext⟩ := (hQ s e hs.1 hs.2).mpr hok
  exact ⟨hok', fun s' hs' => ⟨hP s e s' hs.1 hs', hnext s' hs'⟩⟩

end StepSystem
