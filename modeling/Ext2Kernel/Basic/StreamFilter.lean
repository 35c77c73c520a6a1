import Mathlib.Tactic.TypeStar

set_option autoImplicit false

/-! # Filters

A filter reads a stream piece by piece. It says how many items it wants, gets as many of them as
the stream still has, puts some items out, and goes on or ends. `Yields` says what it makes of a
list of which it can only ask for pieces of certain sizes.
-/

/-- A filter in the state `s` wants `want s` items. From those it gets it makes its next output,
and its next state unless it ends; `none` is a computation without a result. -/
structure StreamFilter (α β σ : Type*) where
  want : σ → Nat
  next : σ → List α → Option (List β × Option σ)

namespace StreamFilter

variable {α β σ : Type*}

/-- From the state `s`, the filter makes the output of the list and ends, and at the latest when
it gets no items any more. -/
inductive Yields (filter : StreamFilter α β σ) (fits : Nat → Prop) : σ → List α → List β → Prop
  | last {s : σ} {rest : List α} {out : List β} (hfits : fits (filter.want s))
      (hnext : filter.next s (rest.take (filter.want s)) = some (out, none)) :
      Yields filter fits s rest out
  | more {s s' : σ} {rest : List α} {now later : List β} (hfits : fits (filter.want s))
      (hsome : rest.take (filter.want s) ≠ [])
      (hnext : filter.next s (rest.take (filter.want s)) = some (now, some s'))
      (hlater : Yields filter fits s' (rest.drop (filter.want s)) later) :
      Yields filter fits s rest (now ++ later)

end StreamFilter
