import Mathlib.Logic.Basic

/-!
# Walks along a continuation

A paged view is read by following continuations from its head. `next` gives the position
after a position, `none` at the end; `place next head i` is the position of the `i`-th page.
A reader that visits some positions in order (`Visits`) goes from one place to a later one
and misses none in between (`Visits.place_mem`).
-/

namespace Walk

open List

variable {C : Type*} {next : C → Option C} {head : C}

/-- The position of the `i`-th page from the head. -/
def place (next : C → Option C) (head : C) : Nat → Option C
  | 0 => some head
  | i + 1 => (place next head i).bind next

/-- The positions visited in order from the first one, and the position reached. -/
inductive Visits (next : C → Option C) : Option C → List C → Option C → Prop
  | nil (o : Option C) : Visits next o [] o
  | cons {c : C} {cs : List C} {o : Option C} (h : Visits next (next c) cs o) :
      Visits next (some c) (c :: cs) o

/-- Past the end of the view there is nothing. -/
theorem place_none_of_le {i j : Nat} (h : place next head i = none) (hij : i ≤ j) :
    place next head j = none := by
  induction hij with
  | refl => exact h
  | step _ ih => rw [place, ih, Option.bind_none]

/-- A visit from one place ends as many places later as it has positions. -/
theorem Visits.reached {o o' : Option C} {cs : List C} (h : Visits next o cs o') {i : Nat}
    (hi : place next head i = o) : place next head (i + cs.length) = o' := by
  induction h generalizing i with
  | nil o => exact hi
  | @cons c cs o _ ih =>
    have hstep : place next head (i + 1) = next c := by rw [place, hi, Option.bind_some]
    have := ih hstep
    rw [length_cons, Nat.add_comm cs.length 1, ← Nat.add_assoc]
    exact this

/-- A visit misses no place between its ends. -/
theorem Visits.place_mem {o o' : Option C} {cs : List C} (h : Visits next o cs o') {i : Nat}
    (hi : place next head i = o) {j : Nat} (hij : i ≤ j) (hj : j < i + cs.length) {c : C}
    (hc : place next head j = some c) : c ∈ cs := by
  induction h generalizing i with
  | nil o =>
    rw [length_nil] at hj
    omega
  | @cons d cs o _ ih =>
    by_cases heq : j = i
    · rw [heq, hi] at hc
      cases hc
      exact mem_cons_self
    · have hstep : place next head (i + 1) = next d := by rw [place, hi, Option.bind_some]
      rw [length_cons] at hj
      exact mem_cons_of_mem _ (ih hstep (by omega) (by omega))

end Walk
