import Mathlib.Data.List.Basic

/-!
# Programs that ask their environment

A program asks questions `q : Q`, each answered by a value of `A q`, and returns a value
(`Dialogue A α`). What the environment answers is not fixed by the program. It is given in one
of two ways:

* all at once, as `answers : Nat → (q : Q) → A q`, the answer to the question with that number
  (`run`), for a program that nothing interrupts; or as one answer to each question, for an
  environment that does not change meanwhile (`eval`);
* one answer at a time (`Steps`), for programs that run side by side.

`Returns p log a` says that `p`, answered as `log` says, returns `a`. Its rules for `ret`, `ask`
and `bind` are the ones by which a specification is proved, `Asks` is the rule for what holds
whenever a question is asked, and `Ensures` the one for what is returned to answers of some sort.
-/

/-- A program over the questions `Q`, answered as `A` says, that returns an `α`. -/
inductive Dialogue {Q : Type} (A : Q → Type) (α : Type) where
  | ret (a : α)
  | ask (q : Q) (k : A q → Dialogue A α)

namespace Dialogue

open List

variable {Q : Type} {A : Q → Type} {α β : Type}

/-- Run a program and go on with what it returned. -/
protected def bind : Dialogue A α → (α → Dialogue A β) → Dialogue A β
  | ret a, f => f a
  | ask q k, f => ask q fun a => (k a).bind f

instance : Monad (Dialogue A) where
  pure := ret
  bind := Dialogue.bind

/-- Ask one question and return its answer. -/
def query (q : Q) : Dialogue A (A q) := ask q ret

/-- The state of a program after some questions, each with its answer. -/
inductive Steps : Dialogue A α → List (Sigma A) → Dialogue A α → Prop
  | refl (p : Dialogue A α) : Steps p [] p
  | cons {q : Q} {k : A q → Dialogue A α} {a : A q} {log : List (Sigma A)} {p : Dialogue A α}
      (h : Steps (k a) log p) : Steps (.ask q k) (⟨q, a⟩ :: log) p

/-- Answered as the log says, the program returns `a`. -/
def Returns (p : Dialogue A α) (log : List (Sigma A)) (a : α) : Prop := Steps p log (ret a)

/-! ## Steps -/

variable {log : List (Sigma A)} {p : Dialogue A α} {q : Q}

variable {k : A q → Dialogue A α}

/-- One more question is answered. -/
theorem Steps.snoc (h : Steps p log (ask q k)) (a : A q) : Steps p (log ++ [⟨q, a⟩]) (k a) := by
  generalize hend : Dialogue.ask q k = last at h
  induction h with
  | refl p =>
    subst hend
    exact .cons (.refl _)
  | cons _ ih => exact .cons (ih hend)

theorem returns_ret {a b : α} : Returns (ret a) log b ↔ log = [] ∧ b = a := by
  constructor
  · intro h
    cases h
    exact ⟨rfl, rfl⟩
  · rintro ⟨rfl, rfl⟩
    exact .refl _

theorem returns_ask {b : α} :
    Returns (ask q k) log b ↔ ∃ a rest, log = ⟨q, a⟩ :: rest ∧ Returns (k a) rest b := by
  constructor
  · intro h
    cases h with
    | cons h => exact ⟨_, _, rfl, h⟩
  · rintro ⟨a, rest, rfl, h⟩
    exact .cons h

/-- A sequence returns what its second part returns, after the questions of both. -/
theorem returns_bind {f : α → Dialogue A β} {b : β} :
    Returns (p >>= f) log b ↔
      ∃ first rest a, log = first ++ rest ∧ Returns p first a ∧ Returns (f a) rest b := by
  change Returns (p.bind f) log b ↔ _
  induction p generalizing log with
  | ret a =>
    simp only [returns_ret]
    constructor
    · intro h
      exact ⟨[], log, a, rfl, ⟨rfl, rfl⟩, h⟩
    · rintro ⟨_, rest, _, rfl, ⟨rfl, rfl⟩, h⟩
      exact h
  | ask q k ih =>
    simp only [Dialogue.bind, returns_ask]
    constructor
    · rintro ⟨c, later, rfl, h⟩
      obtain ⟨first, rest, a, rfl, hk, hf⟩ := (ih c).mp h
      exact ⟨⟨q, c⟩ :: first, rest, a, rfl, ⟨c, first, rfl, hk⟩, hf⟩
    · rintro ⟨_, rest, a, rfl, ⟨c, first, rfl, hk⟩, hf⟩
      exact ⟨c, first ++ rest, rfl, (ih c).mpr ⟨first, rest, a, rfl, hk, hf⟩⟩

theorem returns_pure {a b : α} :
    Returns (pure a : Dialogue A α) log b ↔ log = [] ∧ b = a := returns_ret

theorem returns_query {a : A q} : Returns (query q) log a ↔ log = [⟨q, a⟩] := by
  rw [query, returns_ask]
  constructor
  · rintro ⟨b, rest, rfl, h⟩
    obtain ⟨rfl, rfl⟩ := returns_ret.mp h
    rfl
  · rintro rfl
    exact ⟨a, [], rfl, returns_ret.mpr ⟨rfl, rfl⟩⟩

/-- The rule for a question followed by the rest of a program. -/
theorem returns_query_bind {f : A q → Dialogue A β} {b : β} :
    Returns (query q >>= f) log b ↔ ∃ a rest, log = ⟨q, a⟩ :: rest ∧ Returns (f a) rest b :=
  returns_ask

/-! ## Running against given answers -/

/-- The questions asked, each with its answer, and the value returned, when the `i`-th question
from now on is answered by `answers i`. -/
def run (answers : Nat → (q : Q) → A q) : Dialogue A α → Nat → List (Sigma A) × α
  | ret a, _ => ([], a)
  | ask q k, i =>
    let rest := run answers (k (answers i q)) (i + 1)
    (⟨q, answers i q⟩ :: rest.1, rest.2)

/-- A run returns what it returns to its own log. -/
theorem returns_run (answers : Nat → (q : Q) → A q) (p : Dialogue A α) (i : Nat) :
    Returns p (run answers p i).1 (run answers p i).2 := by
  induction p generalizing i with
  | ret a => exact .refl _
  | ask q k ih => exact .cons (ih _ _)

/-- The value returned when a question is answered the same whenever it is asked. -/
def eval (answer : (q : Q) → A q) : Dialogue A α → α
  | ret a => a
  | ask q k => eval answer (k (answer q))

theorem eval_bind (answer : (q : Q) → A q) (p : Dialogue A α) (f : α → Dialogue A β) :
    eval answer (p >>= f) = eval answer (f (eval answer p)) := by
  induction p with
  | ret a => rfl
  | ask q k ih => exact ih (answer q)

/-! ## Parts that ask through a larger interface -/

section Embed

variable {Q' : Type} {B : Q' → Type}

/-- The program, with each of its questions asked as a question of a larger interface. -/
def embed (f : Q → Q') : Dialogue (fun q => B (f q)) α → Dialogue B α
  | ret a => ret a
  | ask q k => ask (f q) fun b => (k b).embed f

/-- An embedded program returns what the program itself returns to the same answers. -/
theorem returns_embed {f : Q → Q'} {p : Dialogue (fun q => B (f q)) α} {log : List (Sigma B)}
    {a : α} (h : Returns (p.embed f) log a) :
    ∃ own : List (Sigma fun q => B (f q)), log = own.map (fun e => ⟨f e.1, e.2⟩) ∧
      Returns p own a := by
  induction p generalizing log with
  | ret b =>
    obtain ⟨rfl, rfl⟩ := returns_ret.mp h
    exact ⟨[], rfl, .refl _⟩
  | ask q k ih =>
    obtain ⟨b, rest, rfl, hrest⟩ := returns_ask.mp h
    obtain ⟨own, rfl, hown⟩ := ih b hrest
    exact ⟨⟨q, b⟩ :: own, rfl, .cons hown⟩

end Embed

/-! ## What holds whenever a question is asked -/

/-- Whenever the program comes to ask a question, `P` holds of what was asked before and of the
question. -/
def Asks (P : List (Sigma A) → Q → Prop) : List (Sigma A) → Dialogue A α → Prop
  | _, ret _ => True
  | past, ask q k => P past q ∧ ∀ a, Asks P (past ++ [⟨q, a⟩]) (k a)

variable {P : List (Sigma A) → Q → Prop} {past : List (Sigma A)}

theorem asks_query (h : P past q) : Asks P past (query q) := ⟨h, fun _ => trivial⟩

theorem asks_pure (a : α) : Asks P past (pure a : Dialogue A α) := trivial

theorem asks_query_bind {f : A q → Dialogue A β} :
    Asks P past (query q >>= f) ↔ P past q ∧ ∀ a, Asks P (past ++ [⟨q, a⟩]) (f a) := Iff.rfl

/-- A sequence asks what its parts ask, the second after the questions of the first. -/
theorem Asks.bind {f : α → Dialogue A β} (hp : Asks P past p)
    (hf : ∀ log a, Returns p log a → Asks P (past ++ log) (f a)) : Asks P past (p >>= f) := by
  induction p generalizing past with
  | ret a =>
    have := hf [] a (.refl _)
    rwa [append_nil] at this
  | ask q k ih =>
    refine ⟨hp.1, fun a => ih a (hp.2 a) fun log b h => ?_⟩
    have := hf (⟨q, a⟩ :: log) b (.cons h)
    rwa [append_cons] at this

/-- The question a program has come to satisfies what all of its questions do. -/
theorem Asks.of_steps (hp : Asks P past p) (h : Steps p log (ask q k)) : P (past ++ log) q := by
  generalize hend : Dialogue.ask q k = last at h
  induction h generalizing past with
  | refl p =>
    subst hend
    rw [append_nil]
    exact hp.1
  | cons _ ih =>
    have := ih (hp.2 _) hend
    rwa [append_assoc] at this

/-- What every question of a program keeps of the questions before it holds of all it has
asked. -/
theorem Asks.history {J : List (Sigma A) → Prop}
    (hJ : ∀ past q a, J past → P past q → J (past ++ [⟨q, a⟩])) {r : Dialogue A α}
    (hp : Asks P past p) (h : Steps p log r) (hpast : J past) : J (past ++ log) := by
  induction h generalizing past with
  | refl p => rwa [append_nil]
  | cons _ ih =>
    have := ih (hp.2 _) (hJ past _ _ hpast hp.1)
    rwa [append_assoc] at this

/-- What is asked may be weakened. -/
theorem Asks.imp {R : List (Sigma A) → Q → Prop} (h : ∀ l q, P l q → R l q) (hp : Asks P past p) :
    Asks R past p := by
  induction p generalizing past with
  | ret a => trivial
  | ask q k ih => exact ⟨h past q hp.1, fun a => ih a (hp.2 a)⟩

/-- What a program asks, it asks after what was asked when it started. -/
theorem Asks.since {start : List (Sigma A)} (hstart : start <+: past) (hp : Asks P past p) :
    Asks (fun l q => start <+: l ∧ P l q) past p := by
  induction p generalizing past with
  | ret a => trivial
  | ask q k ih =>
    exact ⟨⟨hstart, hp.1⟩, fun a => ih a (hstart.trans (prefix_append _ _)) (hp.2 a)⟩

theorem Asks.and {R : List (Sigma A) → Q → Prop} (hP : Asks P past p) (hR : Asks R past p) :
    Asks (fun l q => P l q ∧ R l q) past p := by
  induction p generalizing past with
  | ret a => trivial
  | ask q k ih => exact ⟨⟨hP.1, hR.1⟩, fun a => ih a (hP.2 a) (hR.2 a)⟩

/-! ## Programs that may fail -/

/-- A program that returns an `α` or fails with an `ε`, which ends it. -/
abbrev Fallible (A : Q → Type) (ε α : Type) : Type := ExceptT ε (Dialogue A) α

section Fallible

variable {ε : Type}

/-- Ask one question and return its answer. -/
def Fallible.ask (q : Q) : Fallible A ε (A q) := ExceptT.lift (query q)

theorem returns_ok {a : α} {r : Except ε α} :
    Returns (pure a : Fallible A ε α).run log r ↔ log = [] ∧ r = .ok a := returns_ret

theorem returns_throw {err : ε} {r : Except ε α} :
    Returns (throw err : Fallible A ε α).run log r ↔ log = [] ∧ r = .error err := returns_ret

variable {f : A q → Fallible A ε β}

theorem returns_ask_bind {r : Except ε β} :
    Returns (Fallible.ask q >>= f).run log r ↔
      ∃ a rest, log = ⟨q, a⟩ :: rest ∧ Returns (f a).run rest r :=
  returns_ask

/-- A sequence fails with its first part, or goes on with what that returned. -/
theorem returns_fallible_bind {x : Fallible A ε α} {f : α → Fallible A ε β} {r : Except ε β} :
    Returns (x >>= f).run log r ↔
      (∃ err, r = .error err ∧ Returns x.run log (.error err)) ∨
      ∃ first rest a, log = first ++ rest ∧ Returns x.run first (.ok a) ∧
        Returns (f a).run rest r := by
  refine returns_bind.trans ⟨?_, ?_⟩
  · rintro ⟨first, rest, out, rfl, hx, hf⟩
    cases out with
    | error err =>
      obtain ⟨rfl, rfl⟩ := returns_ret.mp hf
      rw [append_nil]
      exact .inl ⟨err, rfl, hx⟩
    | ok a => exact .inr ⟨first, rest, a, rfl, hx, hf⟩
  · rintro (⟨err, rfl, hx⟩ | ⟨first, rest, a, rfl, hx, hf⟩)
    · exact ⟨log, [], .error err, (append_nil log).symm, hx, returns_ret.mpr ⟨rfl, rfl⟩⟩
    · exact ⟨first, rest, .ok a, rfl, hx, hf⟩

theorem asks_ok (a : α) : Asks P past (pure a : Fallible A ε α).run := trivial

theorem asks_throw (err : ε) : Asks P past (throw err : Fallible A ε α).run := trivial

theorem asks_ask_bind (hq : P past q) (hf : ∀ a, Asks P (past ++ [⟨q, a⟩]) (f a).run) :
    Asks P past (Fallible.ask q >>= f).run := ⟨hq, hf⟩

/-- The rule for a bind of programs that may fail. -/
theorem Asks.fallible_bind {x : Fallible A ε α} {f : α → Fallible A ε β} (hx : Asks P past x.run)
    (hf : ∀ log a, Returns x.run log (.ok a) → Asks P (past ++ log) (f a).run) :
    Asks P past (x >>= f).run := by
  refine Asks.bind hx fun log out hout => ?_
  cases out with
  | error err => exact asks_pure _
  | ok a => exact hf log a hout

/-! ## What is returned to answers of some sort -/

/-- Whenever all its answers satisfy `F`, what the program returns satisfies `R`. -/
def Ensures (F : Sigma A → Prop) (R : α → Prop) (p : Dialogue A α) : Prop :=
  ∀ log a, Returns p log a → (∀ e ∈ log, F e) → R a

variable {F : Sigma A → Prop} {R : Except ε β → Prop}

theorem ensures_ok {b : β} (h : R (.ok b)) : Ensures F R (pure b : Fallible A ε β).run := by
  intro log r hr _
  rw [(returns_ok.mp hr).2]
  exact h

theorem ensures_throw {err : ε} (h : R (.error err)) :
    Ensures F R (throw err : Fallible A ε β).run := by
  intro log r hr _
  rw [(returns_throw.mp hr).2]
  exact h

/-- The rule for a question and what is done with its answer. -/
theorem ensures_ask_bind (h : ∀ a, F ⟨q, a⟩ → Ensures F R (f a).run) :
    Ensures F R (Fallible.ask q >>= f).run := by
  intro log r hr hlog
  obtain ⟨a, rest, rfl, hrest⟩ := returns_ask_bind.mp hr
  exact h a (hlog _ mem_cons_self) rest r hrest (forall_mem_cons.mp hlog).2

end Fallible

end Dialogue
