import Factory.Lib.Threads
import Mathlib.Data.List.Basic

/-!
# Sections of programs

Calls that run side by side enter and leave sections: while inside, a call holds a lock or is one
of those a counter counts. Where a call is in a section is its *phase*, read off what it has asked
so far; the world's own account of who is inside, each by its phase, is the *roster*. A lock has a
roster of at most one entry, a counter one entry for each call it counts.

`System.SectionRule` is `System.Rule` for programs with sections. The account is right in every
state reached (`State.Counted`), so an answer may be taken to be given in a world whose roster has
the call's own phase in it (`SectionRule.answer`).
-/

namespace Threads

open List Dialogue

variable {W Q : Type} {A : Q → Type} {X α E C ι φ : Type}

/-- Sections: the phase of a call that has asked `past`, and the world's account of the calls
inside. -/
structure Sections (W : Type) {Q : Type} (A : Q → Type) (ι φ : Type) where
  phase : ι → List (Sigma A) → Option φ
  roster : ι → W → List φ
  outside : ∀ i, phase i [] = none

/-- The world's account of each section is right. -/
def State.Counted (N : Sections W A ι φ) (σ : State W A X α) : Prop :=
  ∀ i, (σ.threads.filterMap fun t => N.phase i t.asked).Perm (N.roster i σ.world)

/-- One call goes from a phase to another, and the rest of the roster stays. -/
def Moves (source target : Option φ) (before after : List φ) : Prop :=
  ∀ others, before.Perm (source.toList ++ others) → after.Perm (target.toList ++ others)

/-! ## The account over one step -/

theorem exists_split_of_getElem? {β : Type} {l : List β} {i : Nat} {b : β} (h : l[i]? = some b) :
    ∃ front back, l = front ++ b :: back ∧ ∀ c, l.set i c = front ++ c :: back := by
  induction l generalizing i with
  | nil => simp at h
  | cons x xs ih =>
    cases i with
    | zero =>
      rw [getElem?_cons_zero, Option.some.injEq] at h
      subst h
      exact ⟨[], xs, rfl, fun _ => rfl⟩
    | succ i =>
      obtain ⟨front, back, hxs, hset⟩ := ih h
      refine ⟨x :: front, back, by rw [hxs]; rfl, fun c => ?_⟩
      rw [set_cons_succ, hset]
      rfl

theorem filterMap_split {β : Type} (f : β → Option φ) (front back : List β) (b : β) :
    ((front ++ b :: back).filterMap f).Perm
      ((f b).toList ++ (front.filterMap f ++ back.filterMap f)) := by
  rw [filterMap_append, filterMap_cons]
  cases f b with
  | none => exact List.Perm.refl _
  | some p => exact perm_middle

variable {N : Sections W A ι φ}

variable {σ : State W A X α} {t : Thread A X α}

theorem State.Counted.start {x : X} {p : Dialogue A α} (h : σ.Counted N) :
    State.Counted N { σ with threads := σ.threads ++ [{ input := x, rest := p }] } := by
  intro i
  have hnew : [({ input := x, rest := p } : Thread A X α)].filterMap (fun t => N.phase i t.asked)
      = [] := by
    simp only [filterMap_cons, filterMap_nil, N.outside i]
  rw [filterMap_append, hnew, append_nil]
  exact h i

/-- The roster has the phase of each call. -/
theorem State.Counted.roster (h : σ.Counted N) (ht : t ∈ σ.threads) (i : ι) :
    ∃ others, (N.roster i σ.world).Perm ((N.phase i t.asked).toList ++ others) := by
  obtain ⟨front, back, hsplit⟩ := append_of_mem ht
  have hphases := filterMap_split (fun t => N.phase i t.asked) front back t
  rw [← hsplit] at hphases
  exact ⟨_, (h i).symm.trans hphases⟩

theorem State.Counted.answer {j : Nat} {u : Thread A X α} {w : W} (h : σ.Counted N)
    (ht : σ.threads[j]? = some t) (hmoves : ∀ i,
      Moves (N.phase i t.asked) (N.phase i u.asked) (N.roster i σ.world) (N.roster i w)) :
    State.Counted N { world := w, threads := σ.threads.set j u } := by
  intro i
  obtain ⟨front, back, hsplit, hset⟩ := exists_split_of_getElem? ht
  have hbefore := filterMap_split (fun t => N.phase i t.asked) front back t
  rw [← hsplit] at hbefore
  rw [hset]
  exact (filterMap_split _ front back u).trans (hmoves i _ ((h i).symm.trans hbefore)).symm

/-! ## The rule -/

/-- `System.Rule` with sections: the programs ask what `P` says; a world that satisfies `I` keeps
it, what is known of the calls and its account of the sections, over an event and over an answer
to a question that `P` allows, the account being right before. -/
structure System.SectionRule (S : System W A X α E C) (N : Sections W A ι φ)
    (P : X → List (Sigma A) → Q → Prop) (I : W → Prop) (B : W → X → Prop)
    (K : W → X → Sigma A → Prop) : Prop where
  asks : ∀ x, Asks (P x) [] (S.program x)
  begins : ∀ {w x}, I w → S.begins w x = true → B w x
  event : ∀ {w e v}, I w → S.event w e = some v →
    I v ∧ Grows B K w v ∧ ∀ i, N.roster i v = N.roster i w
  answer : ∀ {w x past c q a v}, I w → B w x → (∀ e ∈ past, K w x e) → P x past q →
    (∀ i, ∃ others, (N.roster i w).Perm ((N.phase i past).toList ++ others)) →
    S.answer w x c q = some (a, v) →
    I v ∧ Grows B K w v ∧ K v x ⟨q, a⟩ ∧
      ∀ i, Moves (N.phase i past) (N.phase i (past ++ [⟨q, a⟩])) (N.roster i w) (N.roster i v)

variable {S : System W A X α E C} {P : X → List (Sigma A) → Q → Prop} {I : W → Prop}
  {B : W → X → Prop} {K : W → X → Sigma A → Prop}

/-- The question a call has come to is one its program asks. -/
theorem System.SectionRule.question (hS : S.SectionRule N P I B K) {w : W}
    (ht : t.Known S (B w) (K w)) {q : Q} {k : A q → Dialogue A α} (hrest : t.rest = .ask q k) :
    P t.input t.asked q := by
  have hsteps := ht.steps
  rw [hrest] at hsteps
  exact (hS.asks t.input).of_steps hsteps

/-- Every step keeps the rule and the account of the sections. -/
theorem System.SectionRule.step (hS : S.SectionRule N P I B K) {τ : State W A X α} {act : Act X E C}
    (hstep : S.step σ act = some τ) (h : σ.Standing S I B K ∧ σ.Counted N) :
    τ.Standing S I B K ∧ τ.Counted N := by
  obtain ⟨hstanding, hcounted⟩ := h
  rcases System.step_cases hstep with ⟨e, w, -, hevent, rfl⟩ | ⟨x, -, hbegins, rfl⟩ |
    ⟨i, c, t, q, k, a, w, -, ht, hrest, hanswer, rfl⟩
  · obtain ⟨hI, hgrows, hroster⟩ := hS.event hstanding.world hevent
    refine ⟨hstanding.event hI hgrows, fun i => ?_⟩
    have := hcounted i
    rwa [← hroster i] at this
  · exact ⟨hstanding.start (hS.begins hstanding.world hbegins), hcounted.start⟩
  · have hmem := mem_of_getElem? ht
    have hknown := hstanding.threads t hmem
    obtain ⟨hI, hgrows, hK, hmoves⟩ :=
      hS.answer hstanding.world hknown.input hknown.asked (hS.question hknown hrest)
        (hcounted.roster hmem) hanswer
    exact ⟨hstanding.answer ht hrest hI hgrows hK, hcounted.answer ht hmoves⟩

/-- What the rule says holds in every state a run reaches from a world without calls, whose
sections are empty. -/
theorem System.SectionRule.exec (hS : S.SectionRule N P I B K) {w : W} {acts : List (Act X E C)}
    (hrun : Runs.exec S.step { world := w } acts = some σ) (hw : I w)
    (hempty : ∀ i, N.roster i w = []) : σ.Standing S I B K ∧ σ.Counted N := by
  refine Runs.exec_invariant (fun _ _ _ hstep h => hS.step hstep h) hrun ⟨?_, fun i => ?_⟩
  · exact ⟨hw, fun _ ht => absurd ht not_mem_nil⟩
  · rw [hempty i]
    exact List.Perm.refl _

end Threads
