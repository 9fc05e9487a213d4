import Factory.Lib.Dialogue
import Factory.Lib.Runs

/-!
# Programs side by side

Any number of calls run against one world. Each call is a program (`Dialogue`) and takes one step
for each of its questions, which the world answers and may be changed by; between two questions of
one call the others may be answered, calls may be started, and events of the world's own may
happen. A `System` says what the programs are, what the events do and how the world answers, the
environment's part in an answer being a `choice`.

`System.Rule` is the rule for what holds in every state reached: of the world, of what each call
was started with and of each of its answers, given what the programs ask.
-/

namespace Threads

open List Dialogue

/-- A call: what it was started with, what it has asked so far, and what is left of it. -/
structure Thread {Q : Type} (A : Q → Type) (X α : Type) where
  input : X
  asked : List (Sigma A) := []
  rest : Dialogue A α

/-- The world and the calls started so far. -/
structure State (W : Type) {Q : Type} (A : Q → Type) (X α : Type) where
  world : W
  threads : List (Thread A X α) := []

structure System (W : Type) {Q : Type} (A : Q → Type) (X α E C : Type) where
  /-- The program a call runs. -/
  program : X → Dialogue A α
  /-- The calls that may be started in a world. -/
  begins : W → X → Bool
  event : W → E → Option W
  /-- The answer to a question of a call and the world afterwards; `none` when it cannot be
  answered so. -/
  answer : W → X → C → (q : Q) → Option (A q × W)

/-- What happens next. -/
inductive Act (X E C : Type) where
  | event (e : E)
  | start (input : X)
  | answer (thread : Nat) (choice : C)
deriving DecidableEq

variable {W Q : Type} {A : Q → Type} {X α E C : Type}

/-- What a call that has ended returned. -/
def Thread.returned (t : Thread A X α) : Option α :=
  match t.rest with
  | .ret a => some a
  | .ask _ _ => none

/-- The call with its question answered. -/
def Thread.answered (t : Thread A X α) {q : Q} (a : A q) (rest : Dialogue A α) : Thread A X α :=
  { t with asked := t.asked ++ [⟨q, a⟩], rest := rest }

def System.step (S : System W A X α E C) (σ : State W A X α) : Act X E C → Option (State W A X α)
  | .event e => (S.event σ.world e).map fun w => { σ with world := w }
  | .start x =>
    if S.begins σ.world x then
      some { σ with threads := σ.threads ++ [{ input := x, rest := S.program x }] }
    else none
  | .answer i c =>
    match σ.threads[i]? with
    | none => none
    | some t =>
      match t.rest with
      | .ret _ => none
      | .ask q k =>
        match S.answer σ.world t.input c q with
        | none => none
        | some (a, w) => some { world := w, threads := σ.threads.set i (t.answered a (k a)) }

variable {σ τ : State W A X α}

/-- What a step can be. -/
theorem System.step_cases {S : System W A X α E C} {act : Act X E C} (h : S.step σ act = some τ) :
    (∃ e w, act = .event e ∧ S.event σ.world e = some w ∧ τ = { σ with world := w }) ∨
    (∃ x, act = .start x ∧ S.begins σ.world x = true ∧
      τ = { σ with threads := σ.threads ++ [{ input := x, rest := S.program x }] }) ∨
    ∃ i c t q k a w, act = .answer i c ∧ σ.threads[i]? = some t ∧ t.rest = .ask q k ∧
      S.answer σ.world t.input c q = some (a, w) ∧
      τ = { world := w, threads := σ.threads.set i (t.answered a (k a)) } := by
  cases act with
  | event e =>
    obtain ⟨w, hw, rfl⟩ := Option.map_eq_some_iff.mp h
    exact .inl ⟨e, w, rfl, hw, rfl⟩
  | start x =>
    obtain ⟨hbegins, ⟨⟩⟩ := Option.ite_none_right_eq_some.mp h
    exact .inr (.inl ⟨x, rfl, hbegins, rfl⟩)
  | answer i c =>
    cases ht : σ.threads[i]? with
    | none => simp [System.step, ht] at h
    | some t =>
      cases hrest : t.rest with
      | ret a => simp [System.step, ht, hrest] at h
      | ask q k =>
        cases hanswer : S.answer σ.world t.input c q with
        | none => simp [System.step, ht, hrest, hanswer] at h
        | some out =>
          simp only [System.step, ht, hrest, hanswer, Option.some.injEq] at h
          exact .inr (.inr ⟨i, c, t, q, k, out.1, out.2, rfl, ht, hrest, hanswer, h.symm⟩)

/-- The question a call has come to. -/
def State.question (σ : State W A X α) (i : Nat) : Option Q :=
  match σ.threads[i]? with
  | none => none
  | some t =>
    match t.rest with
    | .ret _ => none
    | .ask q _ => some q

theorem State.question_eq_some {i : Nat} {q : Q} (h : σ.question i = some q) :
    ∃ t k, σ.threads[i]? = some t ∧ t.rest = .ask q k := by
  unfold State.question at h
  split at h
  · cases h
  next t ht =>
  split at h
  · cases h
  next q' k hrest =>
  cases h
  exact ⟨t, k, ht, hrest⟩

variable {t : Thread A X α}

theorem State.question_of_rest {i : Nat} {q : Q} {k : A q → Dialogue A α}
    (ht : σ.threads[i]? = some t) (hrest : t.rest = .ask q k) : σ.question i = some q := by
  unfold State.question
  rw [ht]
  simp only [hrest]

/-! ## What holds in every state -/

/-- What is known of a call: what it has asked and been answered leads to where it is, what it
was started with satisfies `B`, and each of its answers satisfies `K`. -/
structure Thread.Known (S : System W A X α E C) (B : X → Prop) (K : X → Sigma A → Prop)
    (t : Thread A X α) : Prop where
  steps : Steps (S.program t.input) t.asked t.rest
  input : B t.input
  asked : ∀ e ∈ t.asked, K t.input e

/-- The world satisfies `I`, and every call what is known of it there. -/
structure State.Standing (S : System W A X α E C) (I : W → Prop) (B : W → X → Prop)
    (K : W → X → Sigma A → Prop) (σ : State W A X α) : Prop where
  world : I σ.world
  threads : ∀ t ∈ σ.threads, t.Known S (B σ.world) (K σ.world)

/-- What is known of the calls is not lost from one world to another. -/
structure Grows (B : W → X → Prop) (K : W → X → Sigma A → Prop) (w v : W) : Prop where
  input : ∀ x, B w x → B v x
  asked : ∀ x e, K w x e → K v x e

/-- The rule: the programs ask what `P` says, and a world that satisfies `I` keeps it, and all that
is known of the calls, over an event and over an answer to a question that `P` allows. -/
structure System.Rule (S : System W A X α E C) (P : X → List (Sigma A) → Q → Prop)
    (I : W → Prop) (B : W → X → Prop) (K : W → X → Sigma A → Prop) : Prop where
  asks : ∀ x, Asks (P x) [] (S.program x)
  begins : ∀ {w x}, I w → S.begins w x = true → B w x
  event : ∀ {w e v}, I w → S.event w e = some v → I v ∧ Grows B K w v
  answer : ∀ {w x past c q a v}, I w → B w x → (∀ e ∈ past, K w x e) → P x past q →
    S.answer w x c q = some (a, v) → I v ∧ Grows B K w v ∧ K v x ⟨q, a⟩

/-- A call that has ended returned what its program returns to the answers it got. -/
theorem Thread.returns_of_returned {p : Dialogue A α} {a : α} (t : Thread A X α)
    (hsteps : Steps p t.asked t.rest) (h : t.returned = some a) : Returns p t.asked a := by
  unfold Thread.returned at h
  split at h
  · next hrest =>
    cases h
    rwa [hrest] at hsteps
  · cases h

variable {S : System W A X α E C} {P : X → List (Sigma A) → Q → Prop} {I : W → Prop}
  {B : W → X → Prop} {K : W → X → Sigma A → Prop}

theorem Thread.Known.grows {w v : W} (h : t.Known S (B w) (K w)) (hgrows : Grows B K w v) :
    t.Known S (B v) (K v) :=
  ⟨h.steps, hgrows.input _ h.input, fun e he => hgrows.asked _ e (h.asked e he)⟩

/-- The question a call has come to is one its program asks. -/
theorem System.Rule.question (hS : S.Rule P I B K) {w : W} (ht : t.Known S (B w) (K w)) {q : Q}
    {k : A q → Dialogue A α} (hrest : t.rest = .ask q k) : P t.input t.asked q := by
  have hsteps := ht.steps
  rw [hrest] at hsteps
  exact (hS.asks t.input).of_steps hsteps

theorem State.Standing.event {w : W} (h : σ.Standing S I B K) (hI : I w)
    (hgrows : Grows B K σ.world w) : State.Standing S I B K { σ with world := w } :=
  ⟨hI, fun t ht => (h.threads t ht).grows hgrows⟩

/-- A thread that starts with a sound input keeps what stands. -/
theorem State.Standing.start {x : X} (h : σ.Standing S I B K) (hx : B σ.world x) :
    State.Standing S I B K
      { σ with threads := σ.threads ++ [{ input := x, rest := S.program x }] } := by
  refine ⟨h.world, fun t ht => ?_⟩
  rcases mem_append.mp ht with ht | ht
  · exact h.threads t ht
  · rw [mem_singleton] at ht
    subst ht
    exact ⟨.refl _, hx, fun e he => absurd he not_mem_nil⟩

/-- An answer to one thread keeps what stands of all. -/
theorem State.Standing.answer {i : Nat} {q : Q} {k : A q → Dialogue A α} {a : A q} {w : W}
    (h : σ.Standing S I B K) (ht : σ.threads[i]? = some t) (hrest : t.rest = .ask q k) (hI : I w)
    (hgrows : Grows B K σ.world w) (hK : K w t.input ⟨q, a⟩) :
    State.Standing S I B K { world := w, threads := σ.threads.set i (t.answered a (k a)) } := by
  have hknown := h.threads t (mem_of_getElem? ht)
  refine ⟨hI, fun u hu => ?_⟩
  rcases mem_or_eq_of_mem_set hu with hu | rfl
  · exact (h.threads u hu).grows hgrows
  · have hsteps := hknown.steps
    rw [hrest] at hsteps
    refine ⟨hsteps.snoc a, hgrows.input _ hknown.input, fun e he => ?_⟩
    rcases mem_append.mp he with he | he
    · exact hgrows.asked _ e (hknown.asked e he)
    · rw [mem_singleton] at he
      subst he
      exact hK

/-- Every step keeps what the rule says. -/
theorem System.Rule.step (hS : S.Rule P I B K) {act : Act X E C} (hstep : S.step σ act = some τ)
    (h : σ.Standing S I B K) : τ.Standing S I B K := by
  rcases System.step_cases hstep with ⟨e, w, -, hevent, rfl⟩ | ⟨x, -, hbegins, rfl⟩ |
    ⟨i, c, t, q, k, a, w, -, ht, hrest, hanswer, rfl⟩
  · obtain ⟨hI, hgrows⟩ := hS.event h.world hevent
    exact h.event hI hgrows
  · exact h.start (hS.begins h.world hbegins)
  · have hknown := h.threads t (mem_of_getElem? ht)
    obtain ⟨hI, hgrows, hK⟩ :=
      hS.answer h.world hknown.input hknown.asked (hS.question hknown hrest) hanswer
    exact h.answer ht hrest hI hgrows hK

variable {acts : List (Act X E C)}

/-- What the rule says holds in every state a run reaches from a world without calls. -/
theorem System.Rule.exec (hS : S.Rule P I B K) {w : W}
    (hrun : Runs.exec S.step { world := w } acts = some σ) (hw : I w) : σ.Standing S I B K :=
  Runs.exec_invariant (fun _ _ _ hstep h => hS.step hstep h) hrun
    ⟨hw, fun _ ht => absurd ht not_mem_nil⟩

/-! ## What is answered from some state on -/

/-- Every answer in `τ` is one that its call had in `σ`, or satisfies `F`. -/
def State.NewAnswers (F : Sigma A → Prop) (σ τ : State W A X α) : Prop :=
  ∀ (j : Nat) (t : Thread A X α), τ.threads[j]? = some t → ∀ e ∈ t.asked,
    (∃ u : Thread A X α, σ.threads[j]? = some u ∧ e ∈ u.asked) ∨ F e

variable {J : State W A X α → Prop}

/-- Along a run that keeps `J` and whose steps meet `G`, the answers a call gets are as those given
by such steps in states with `J`. -/
theorem System.answers_since {G : Act X E C → Prop} {F : Nat → X → Sigma A → Prop}
    (hJ : ∀ σ act τ, S.step σ act = some τ → J σ → J τ)
    (hF : ∀ {σ i x c q a v}, J σ → G (.answer i c) → S.answer σ.world x c q = some (a, v) → F i x
      ⟨q, a⟩) (hrun : Runs.exec S.step σ acts = some τ) (hacts : ∀ act ∈ acts, G act) (hσ : J σ)
    (j : Nat) (t : Thread A X α) (ht : τ.threads[j]? = some t) :
    ∀ e ∈ t.asked, (∃ u : Thread A X α, σ.threads[j]? = some u ∧ e ∈ u.asked) ∨ F j t.input e := by
  have hmeets : Runs.Meets S.step (fun _ act => G act) σ acts :=
    Runs.meets_of_steps fun before act after _ heq _ =>
      hacts act (heq ▸ mem_append_right _ mem_cons_self)
  refine (Runs.exec_invariant_of_meets (I := fun ρ => J ρ ∧ ∀ (i : Nat) (u : Thread A X α),
    ρ.threads[i]? = some u → ∀ e ∈ u.asked,
      (∃ v : Thread A X α, σ.threads[i]? = some v ∧ e ∈ v.asked) ∨ F i u.input e) ?_ hrun hmeets
    ⟨hσ, fun i u hu e he => .inl ⟨u, hu, he⟩⟩).2 j t ht
  intro ρ act ρ' hG hstep ⟨hρ, hanswers⟩
  refine ⟨hJ ρ act ρ' hstep hρ, fun j t ht e he => ?_⟩
  rcases System.step_cases hstep with ⟨_, w, -, -, rfl⟩ | ⟨x, -, -, rfl⟩ |
    ⟨i, c, u, q, k, a, w, rfl, hu, -, hanswer, rfl⟩
  · exact hanswers j t ht e he
  · by_cases hj : j < ρ.threads.length
    · rw [getElem?_append_left hj] at ht
      exact hanswers j t ht e he
    · rw [getElem?_append_right (Nat.le_of_not_lt hj)] at ht
      rw [mem_singleton.mp (mem_of_getElem? ht)] at he
      exact absurd he not_mem_nil
  · by_cases hij : i = j
    · subst hij
      rw [List.getElem?_set_self (List.getElem?_eq_some_iff.mp hu).1, Option.some.injEq] at ht
      subst ht
      rcases mem_append.mp he with he | he
      · exact hanswers i u hu e he
      · rw [mem_singleton.mp he]
        exact .inr (hF hρ hG hanswer)
    · rw [getElem?_set_ne hij] at ht
      exact hanswers j t ht e he

/-- Along a run that keeps `J`, the new answers are as those given in states with `J`. -/
theorem System.new_answers {F : Sigma A → Prop} (hJ : ∀ σ act τ, S.step σ act = some τ → J σ → J τ)
    (hF : ∀ {σ x c q a v}, J σ → S.answer σ.world x c q = some (a, v) → F ⟨q, a⟩)
    (hrun : Runs.exec S.step σ acts = some τ) (hσ : J σ) : σ.NewAnswers F τ :=
  System.answers_since (G := fun _ => True) (F := fun _ _ => F) hJ
    (fun hρ _ hanswer => hF hρ hanswer) hrun (fun _ _ => trivial) hσ

/-- All the answers of a call that was started later are new. -/
theorem System.answers_of_later {j : Nat} {G : C → Prop} {F : X → Sigma A → Prop}
    (hJ : ∀ σ act τ, S.step σ act = some τ → J σ → J τ)
    (hF : ∀ {σ x c q a v}, J σ → G c → S.answer σ.world x c q = some (a, v) → F x ⟨q, a⟩)
    (hrun : Runs.exec S.step σ acts = some τ) (hacts : ∀ c, .answer j c ∈ acts → G c) (hσ : J σ)
    (hj : σ.threads.length ≤ j) (ht : τ.threads[j]? = some t) : ∀ e ∈ t.asked, F t.input e := by
  intro e he
  have hsince := System.answers_since (G := fun act => ∀ c, act = .answer j c → G c)
    (F := fun i x e => i = j → F x e) hJ ?_ hrun ?_ hσ j t ht e he
  · rcases hsince with ⟨u, hu, -⟩ | hF
    · rw [getElem?_eq_none hj] at hu
      cases hu
    · exact hF rfl
  · rintro ρ i x c q a v hρ hG hanswer rfl
    exact hF hρ (hG c rfl) hanswer
  · rintro act hact c rfl
    exact hacts c hact

/-! ## Calls that end -/

/-- In a system that answers every question, a call answered again and again returns. -/
theorem System.finishes (hS : ∀ w x c q, ∃ a v, S.answer w x c q = some (a, v)) (c : C) {i : Nat}
    (ht : σ.threads[i]? = some t) :
    ∃ n τ u r, Runs.exec S.step σ (List.replicate n (.answer i c)) = some τ ∧
      τ.threads[i]? = some u ∧ u.input = t.input ∧ u.returned = some r := by
  obtain ⟨input, asked, rest⟩ := t
  induction rest generalizing σ asked with
  | ret r => exact ⟨0, σ, _, r, rfl, ht, rfl, rfl⟩
  | ask q k ih =>
    obtain ⟨a, v, hanswer⟩ := hS σ.world input c q
    have hset := getElem?_set_self (a := (⟨input, asked ++ [⟨q, a⟩], k a⟩ : Thread A X α))
      (List.getElem?_eq_some_iff.mp ht).1
    obtain ⟨n, τ, u, r, hrun, hu, hinput, hr⟩ := ih a _ (σ := ⟨v, _⟩) hset
    refine ⟨n + 1, τ, u, r, ?_, hu, hinput, hr⟩
    rw [replicate_succ, Runs.exec_cons]
    refine ⟨_, ?_, hrun⟩
    simp only [System.step, ht, hanswer]
    rfl

end Threads
