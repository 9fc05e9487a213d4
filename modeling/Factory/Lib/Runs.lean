import Mathlib.Logic.Basic

/-!
# Runs of a partial step function

A system is a state type `σ`, a type `α` of labels and a partial function
`step : σ → α → Option σ`; a label that is not enabled in a state gives `none`. A run
is a list of labels taken in order (`exec`). The rules below are the inductions over
runs used in the rest of the development.

A property of every state of a run follows from one of its last state, because every
prefix of a run is a run (`exec_append`).
-/

namespace Runs

variable {σ α : Type*} {step : σ → α → Option σ}

/-- The state after taking the labels in order, or `none` if one is not enabled. -/
def exec (step : σ → α → Option σ) : σ → List α → Option σ
  | s, [] => some s
  | s, a :: as => (step s a).bind fun u => exec step u as

/-- Every step of the run from `s` meets the condition `P`. -/
def Meets (step : σ → α → Option σ) (P : σ → α → Prop) : σ → List α → Prop
  | _, [] => True
  | s, a :: as => P s a ∧ ∀ u, step s a = some u → Meets step P u as

@[simp] theorem exec_nil (s : σ) : exec step s [] = some s := rfl

variable {as : List α} {s : σ}

theorem exec_cons {t : σ} {a : α} :
    exec step s (a :: as) = some t ↔ ∃ u, step s a = some u ∧ exec step u as = some t := by
  simp only [exec, Option.bind_eq_some_iff]

/-- A run of two lists is one of the first and then one of the second. -/
theorem exec_append {t : σ} {bs : List α} :
    exec step s (as ++ bs) = some t ↔ ∃ u, exec step s as = some u ∧ exec step u bs = some t := by
  induction as generalizing s with
  | nil => simp
  | cons a as ih =>
    rw [List.cons_append, exec_cons]
    constructor
    · rintro ⟨u, hu, hrest⟩
      obtain ⟨v, hv, hbs⟩ := ih.mp hrest
      exact ⟨v, exec_cons.mpr ⟨u, hu, hv⟩, hbs⟩
    · rintro ⟨v, hv, hbs⟩
      obtain ⟨u, hu, has⟩ := exec_cons.mp hv
      exact ⟨u, hu, ih.mpr ⟨v, has, hbs⟩⟩

/-- The rest of a run, from the state its beginning ends in. -/
theorem exec_rest {u t : σ} {bs : List α} (has : exec step s as = some u)
    (hrun : exec step s (as ++ bs) = some t) : exec step u bs = some t := by
  obtain ⟨v, hv, hrest⟩ := exec_append.mp hrun
  cases has.symm.trans hv
  exact hrest

/-- The rest of a run, from the state its first step ends in. -/
theorem exec_tail {u t : σ} {a : α} (ha : step s a = some u)
    (hrun : exec step s (a :: as) = some t) : exec step u as = some t := by
  obtain ⟨v, hv, hrest⟩ := exec_cons.mp hrun
  cases ha.symm.trans hv
  exact hrest

variable {P : σ → α → Prop}

theorem meets_cons {a : α} :
    Meets step P s (a :: as) ↔ P s a ∧ ∀ u, step s a = some u → Meets step P u as := Iff.rfl

/-- A condition on the steps of a run is one on those of its beginning and of its rest. -/
theorem meets_append {bs : List α} :
    Meets step P s (as ++ bs) ↔
      Meets step P s as ∧ ∀ u, exec step s as = some u → Meets step P u bs := by
  induction as generalizing s with
  | nil =>
    constructor
    · intro h
      refine ⟨trivial, fun u hu => ?_⟩
      cases hu
      exact h
    · intro h
      exact h.2 s rfl
  | cons a as ih =>
    constructor
    · rintro ⟨ha, hrest⟩
      refine ⟨⟨ha, fun u hu => (ih.mp (hrest u hu)).1⟩, fun v hv => ?_⟩
      obtain ⟨u, hu, hexec⟩ := exec_cons.mp hv
      exact (ih.mp (hrest u hu)).2 v hexec
    · rintro ⟨⟨ha, has⟩, hbs⟩
      refine ⟨ha, fun u hu => ih.mpr ⟨has u hu, fun v hv => ?_⟩⟩
      exact hbs v (exec_cons.mpr ⟨u, hu, hv⟩)

/-- A run meets a condition if every step taken in it does. -/
theorem meets_of_steps
    (h : ∀ before a after u, as = before ++ a :: after → exec step s before = some u → P u a) :
    Meets step P s as := by
  induction as generalizing s with
  | nil => trivial
  | cons a as ih =>
    refine meets_cons.mpr ⟨h [] a as s rfl rfl, fun u hu => ih ?_⟩
    rintro before b after v rfl hv
    exact h (a :: before) b after v rfl (exec_cons.mpr ⟨u, hu, hv⟩)

instance decidableMeets (P : σ → α → Prop) [∀ s a, Decidable (P s a)] :
    ∀ (s : σ) (as : List α), Decidable (Meets step P s as)
  | _, [] => isTrue trivial
  | s, a :: as =>
    match h : step s a with
    | none =>
      if hp : P s a then isTrue ⟨hp, fun u hu => by rw [h] at hu; cases hu⟩
      else isFalse fun hm => hp hm.1
    | some v =>
      match decidableMeets P v as with
      | isTrue hv =>
        if hp : P s a then isTrue ⟨hp, fun u hu => by rw [h] at hu; cases hu; exact hv⟩
        else isFalse fun hm => hp hm.1
      | isFalse hv => isFalse fun hm => hv (hm.2 v h)

/-- What every step that meets `P` preserves holds at the end of every run whose steps
all meet `P`. -/
theorem exec_invariant_of_meets {I : σ → Prop}
    (hstep : ∀ s a t, P s a → step s a = some t → I s → I t) {t : σ}
    (hrun : exec step s as = some t) (hmeets : Meets step P s as) (hs : I s) : I t := by
  induction as generalizing s with
  | nil =>
    cases hrun
    exact hs
  | cons a as ih =>
    obtain ⟨u, hu, hrest⟩ := exec_cons.mp hrun
    obtain ⟨hP, hlater⟩ := meets_cons.mp hmeets
    exact ih hrest (hlater u hu) (hstep s a u hP hu hs)

/-- A run whose steps all meet `P` is one whose steps all meet `Q`, when an invariant the steps
that meet `P` preserve gives `Q`. -/
theorem Meets.imp {Q : σ → α → Prop} {I : σ → Prop}
    (hstep : ∀ s a t, P s a → step s a = some t → I s → I t)
    (hQ : ∀ s a t, I s → step s a = some t → P s a → Q s a) {t : σ} (hrun : exec step s as = some t)
    (hs : I s) (hmeets : Meets step P s as) : Meets step Q s as := by
  induction as generalizing s with
  | nil => trivial
  | cons a as ih =>
    obtain ⟨u, hu, hrest⟩ := exec_cons.mp hrun
    obtain ⟨hP, hlater⟩ := meets_cons.mp hmeets
    refine meets_cons.mpr ⟨hQ s a u hs hu hP, fun v hv => ?_⟩
    cases hu.symm.trans hv
    exact ih hrest (hstep s a u hP hu hs) (hlater u hu)

/-- What holds of a run and its last state: the empty run has it, and one more step keeps it. -/
theorem exec_history {I : List α → σ → Prop} {t : σ} (hs : I [] s)
    (hstep : ∀ before u a v, exec step s before = some u → I before u → step u a = some v → I
      (before ++ [a]) v) (hrun : exec step s as = some t) : I as t := by
  -- the run so far is generalised, and the induction is on what is left of it
  suffices h : ∀ before u, exec step s before = some u → I before u →
      exec step u as = some t → I (before ++ as) t from h [] s rfl hs hrun
  clear hrun
  induction as with
  | nil =>
    intro before u _ hI hend
    cases hend
    rwa [List.append_nil]
  | cons a as ih =>
    intro before u hbefore hI hrest
    obtain ⟨v, hv, hend⟩ := exec_cons.mp hrest
    have hsofar : exec step s (before ++ [a]) = some v :=
      exec_append.mpr ⟨u, hbefore, exec_cons.mpr ⟨v, hv, rfl⟩⟩
    have := ih (before ++ [a]) v hsofar (hstep before u a v hbefore hI hv) hend
    rwa [List.append_assoc] at this

/-- A property that holds at the end of a run and not at its start was brought about by one of
its steps. -/
theorem exists_step_of_exec {P : σ → Prop} {t : σ} (hrun : exec step s as = some t) (hs : ¬ P s)
    (ht : P t) :
    ∃ before a after u v, as = before ++ a :: after ∧ exec step s before = some u ∧ ¬ P u ∧
      step u a = some v ∧ P v ∧ exec step v after = some t := by
  induction as generalizing s with
  | nil =>
    cases hrun
    exact absurd ht hs
  | cons a as ih =>
    obtain ⟨u, hu, hrest⟩ := exec_cons.mp hrun
    by_cases hP : P u
    · exact ⟨[], a, as, s, u, rfl, rfl, hs, hu, hP, hrest⟩
    · obtain ⟨before, b, after, w, v, rfl, hw, hnot, hstep, hv, hend⟩ := ih hrest hP
      exact ⟨a :: before, b, after, w, v, rfl, exec_cons.mpr ⟨u, hu, hw⟩, hnot, hstep, hv, hend⟩

/-- What every step preserves holds at the end of every run. -/
theorem exec_invariant {I : σ → Prop} (hstep : ∀ s a t, step s a = some t → I s → I t) {t : σ}
    (hrun : exec step s as = some t) (hs : I s) : I t := by
  induction as generalizing s with
  | nil =>
    cases hrun
    exact hs
  | cons a as ih =>
    obtain ⟨u, hu, hrest⟩ := exec_cons.mp hrun
    exact ih hrest (hstep s a u hu hs)

/-- What the steps preserve under an invariant of theirs holds at the end of every run. -/
theorem exec_invariant_under {I J : σ → Prop} (hI : ∀ s a t, step s a = some t → I s → I t)
    {t : σ} (hrun : exec step s as = some t) (hs : I s) (h : J s)
    (hJ : ∀ s a t, I s → step s a = some t → J s → J t) : J t := by
  have hboth : I t ∧ J t := exec_invariant (I := fun u => I u ∧ J u)
    (fun u a v huv hu => ⟨hI u a v huv hu.1, hJ u a v hu.1 huv hu.2⟩) hrun ⟨hs, h⟩
  exact hboth.2

end Runs
