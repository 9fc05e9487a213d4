import Mathlib.Data.List.Basic
import Mathlib.Data.List.Count
import Mathlib.Data.List.Induction

/-!
# Logs of things opened and closed

An event of a log may open a resource, recorded as an `R` with the key it is closed by, or
close a key. `outstanding` lists the openings no later event closes. A log is `Balanced`
when every closing event closes exactly one outstanding opening; then, key by key, what was
opened is what was closed and what is outstanding (`Balanced.count`).
-/

namespace Ledger

open List

/-- How a log is read: what an event opens, what it closes, and the key of an opening. -/
structure Reading (E R K : Type*) where
  opens : E → Option R
  closes : E → Option K
  key : R → K
  /-- No event does both. -/
  apart : ∀ e r k, opens e = some r → closes e ≠ some k

variable {E R K : Type*} [DecidableEq K] (L : Reading E R K)

/-- Some event of the log closes the key. -/
def closesIn (log : List E) (k : K) : Bool := log.any fun e => L.closes e = some k

/-- The openings of a log that no later event closes, in order. -/
def outstanding : List E → List R
  | [] => []
  | e :: rest =>
    match L.opens e with
    | none => outstanding rest
    | some r => if closesIn L rest (L.key r) then outstanding rest else r :: outstanding rest

/-- Every closing event closes exactly one opening outstanding before it. -/
def Balanced (log : List E) : Prop :=
  ∀ before e after k, log = before ++ e :: after → L.closes e = some k →
    ∃ r, (outstanding L before).filter (fun r => L.key r = k) = [r]

theorem outstanding_append (log more : List E) :
    outstanding L (log ++ more) =
      (outstanding L log).filter (fun r => !closesIn L more (L.key r)) ++ outstanding L more := by
  induction log with
  | nil => simp [outstanding]
  | cons e rest ih =>
    rw [cons_append, outstanding, outstanding]
    cases L.opens e with
    | none => exact ih
    | some r =>
      dsimp only
      rw [closesIn, any_append, ← closesIn, ← closesIn]
      cases closesIn L rest (L.key r) with
      | true => exact ih
      | false =>
        cases hmore : closesIn L more (L.key r) with
        | true =>
          rw [if_pos (Bool.or_true _), if_neg Bool.false_ne_true,
            filter_cons_of_neg (by simp [hmore])]
          exact ih
        | false =>
          rw [if_neg (by simp), if_neg Bool.false_ne_true,
            filter_cons_of_pos (by simp [hmore]), cons_append]
          exact congrArg _ ih

variable {L}

variable {log : List E}

/-- What is outstanding was opened. -/
theorem mem_outstanding {r : R} (h : r ∈ outstanding L log) : ∃ e ∈ log, L.opens e = some r := by
  induction log with
  | nil => cases h
  | cons e rest ih =>
    rw [outstanding] at h
    have hlater : r ∈ outstanding L rest → ∃ e' ∈ e :: rest, L.opens e' = some r := by
      intro hrest
      obtain ⟨e', he', hopens⟩ := ih hrest
      exact ⟨e', mem_cons_of_mem _ he', hopens⟩
    split at h
    · exact hlater h
    · rename_i r' hopens
      split at h
      · exact hlater h
      · rcases mem_cons.mp h with rfl | h
        · exact ⟨e, mem_cons_self, hopens⟩
        · exact hlater h

/-- An event that neither opens nor closes changes nothing. -/
theorem outstanding_other (log : List E) {e : E} (hopens : L.opens e = none)
    (hcloses : L.closes e = none) : outstanding L (log ++ [e]) = outstanding L log := by
  rw [outstanding_append]
  simp [outstanding, closesIn, hopens, hcloses]

/-- An opening is outstanding at first. -/
theorem outstanding_open (log : List E) {e : E} {r : R} (hopens : L.opens e = some r) :
    outstanding L (log ++ [e]) = outstanding L log ++ [r] := by
  have hcloses : ∀ k, L.closes e ≠ some k := fun k => L.apart e r k hopens
  rw [outstanding_append]
  simp [outstanding, closesIn, hopens, hcloses]

/-- A closing ends all that is outstanding under its key. -/
theorem outstanding_close (log : List E) {e : E} {k : K} (hcloses : L.closes e = some k) :
    outstanding L (log ++ [e]) = (outstanding L log).filter (fun r => L.key r ≠ k) := by
  have hopens : L.opens e = none := by
    cases h : L.opens e with
    | none => rfl
    | some r => exact absurd hcloses (L.apart e r k h)
  rw [outstanding_append]
  simp only [outstanding, closesIn, hopens, hcloses, any_cons, any_nil, Bool.or_false,
    append_nil, Option.some.injEq]
  refine filter_congr fun r _ => ?_
  by_cases h : L.key r = k
  · simp [h]
  · simp [h, Ne.symm h]

theorem balanced_nil : Balanced L [] := by
  intro before e after k h
  cases before <;> cases h

/-- A log stays balanced when the next event closes nothing, or exactly one opening. -/
theorem Balanced.snoc (h : Balanced L log) {e : E}
    (hclose : ∀ k, L.closes e = some k → ∃ r, (outstanding L log).filter (fun r => L.key r = k) =
      [r]) : Balanced L (log ++ [e]) := by
  intro before d after k hsplit hk
  rcases eq_nil_or_concat after with rfl | ⟨init, last, rfl⟩
  · obtain ⟨rfl, ⟨⟩⟩ := append_inj' hsplit rfl
    exact hclose k hk
  · rw [concat_eq_append, ← cons_append, ← append_assoc] at hsplit
    obtain ⟨hlog, -⟩ := append_inj' hsplit rfl
    exact h before d init k hlog hk

/-- Key by key, what was opened was closed or is outstanding. -/
theorem Balanced.count (h : Balanced L log) (k : K) :
    log.countP (fun e => (L.opens e).any fun r => L.key r = k) =
      log.countP (fun e => L.closes e = some k) +
        (outstanding L log).countP (fun r => L.key r = k) := by
  induction log using List.reverseRecOn with
  | nil => simp [outstanding]
  | append_singleton log e ih =>
    have hbefore : Balanced L log := by
      intro before d after k' hsplit
      exact h before d (after ++ [e]) k' (by rw [hsplit]; simp)
    rw [countP_append, countP_append, countP_singleton, countP_singleton, ih hbefore]
    cases hopens : L.opens e with
    | some r =>
      have hcloses : L.closes e ≠ some k := L.apart e r k hopens
      rw [outstanding_open log hopens, countP_append, countP_singleton]
      simp only [hcloses, Option.any_some, decide_false, Bool.false_eq_true, if_false]
      omega
    | none =>
      cases hcloses : L.closes e with
      | none =>
        rw [outstanding_other log hopens hcloses]
        simp
      | some k' =>
        rw [outstanding_close log hcloses, countP_filter]
        by_cases hk : k' = k
        · subst hk
          obtain ⟨r, hr⟩ := h log e [] k' rfl hcloses
          have hone : (outstanding L log).countP (fun r => L.key r = k') = 1 := by
            rw [countP_eq_length_filter, hr]
            rfl
          have hnone : (outstanding L log).countP
              (fun r => decide (L.key r = k') && decide (L.key r ≠ k')) = 0 := by
            rw [countP_eq_zero]
            intro r _
            simp
          rw [hone, hnone]
          simp
        · have hsame : (outstanding L log).countP
              (fun r => decide (L.key r = k) && decide (L.key r ≠ k')) =
                (outstanding L log).countP (fun r => L.key r = k) := by
            refine countP_congr fun r _ => ?_
            simp only [ne_eq, decide_not, Bool.and_eq_true, decide_eq_true_eq,
              Bool.not_eq_eq_eq_not, Bool.not_true, decide_eq_false_iff_not, and_iff_left_iff_imp]
            intro heq heq'
            exact hk (heq'.symm.trans heq)
          rw [hsame]
          simp [hk]

end Ledger
