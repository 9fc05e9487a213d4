import Mathlib.Data.Nat.Basic
import Mathlib.Order.Basic

/-!
# Logs of a sequenced stream with repair instructions

A consumer of a sequenced stream sees records in order and, where the stream may have
skipped some, instructions to read a durable journal up to a tip. Its log is a list of
`Item`s. Two kinds of mark record the position from which the stream answers for every
record:

* `trusted a`: the consumer is taken to hold everything through `a` without being told;
* `told a`: the position `a` was part of a reset sent to the consumer.

`floor l` is the lowest position the stream answers from after the log `l`. A log is
`Gapless` for a set `pub` of sequences when, at each of its records, every member of
`pub` above the floor and below the record was delivered or lies under a reset that
comes before it. `CaughtUp pub l n` says the same of an imagined next record `n + 1`;
it is what lets the next record be appended.

The results are the ways a log may grow: by a record the log has caught up with
(`Gapless.append_record`), and by a mark or a reset followed by any records it covers
(`Gapless.append_plain` and its special cases).
-/

namespace DeliveryLog

open List

/-- One item of a consumer's log. -/
inductive Item where
  | record (seq : Nat)
  | reset (tip : Nat)
  | trusted (pos : Nat)
  | told (pos : Nat)
deriving DecidableEq

/-- The sequences an item accounts for. -/
def Item.Covers : Item → Nat → Prop
  | .record s, p => p = s
  | .reset t, p => p ≤ t
  | _, _ => False

/-- An item that is not a mark. -/
def Item.Plain : Item → Prop
  | .trusted _ => False
  | .told _ => False
  | _ => True

/-- Some item of the log accounts for `p`. -/
def Covered (l : List Item) (p : Nat) : Prop := ∃ x ∈ l, x.Covers p

def floorStep : Option Nat → Item → Option Nat
  | _, .trusted a => some a
  | f, .told a => some (min (f.getD a) a)
  | f, _ => f

/-- The position the stream answers from after a log, if it has one. -/
def floor (l : List Item) : Option Nat := l.foldl floorStep none

/-- Every member of `pub` above the floor and below a record of the log is accounted
for before that record. -/
def Gapless (pub : Nat → Prop) (l : List Item) : Prop :=
  ∀ pre s post, l = pre ++ .record s :: post → ∀ f, floor pre = some f →
    ∀ p, pub p → f < p → p < s → Covered pre p

/-- Every member of `pub` above the floor and at most `n` is accounted for. -/
def CaughtUp (pub : Nat → Prop) (l : List Item) (n : Nat) : Prop :=
  ∀ f, floor l = some f → ∀ p, pub p → f < p → p ≤ n → Covered l p

/-! ## Coverage and floors -/

variable {l m : List Item}

theorem covered_append {p : Nat} : Covered (l ++ m) p ↔ Covered l p ∨ Covered m p := by
  simp only [Covered, mem_append, or_and_right, exists_or]

theorem Covered.mono {p : Nat} (h : Covered l p) (hlm : l ⊆ m) : Covered m p := by
  obtain ⟨x, hx, hp⟩ := h
  exact ⟨x, hlm hx, hp⟩

theorem covered_of_reset {t p : Nat} (h : .reset t ∈ l) (hp : p ≤ t) : Covered l p := ⟨_, h, hp⟩

theorem floorStep_plain {f : Option Nat} {x : Item} (hx : x.Plain) : floorStep f x = f := by
  cases x <;> first | rfl | exact hx.elim

theorem floor_append (l m : List Item) : floor (l ++ m) = m.foldl floorStep (floor l) := by
  simp only [floor, foldl_append]

/-- Only marks move the floor. -/
theorem floor_append_plain (hm : ∀ x ∈ m, x.Plain) : floor (l ++ m) = floor l := by
  rw [floor_append]
  generalize floor l = f
  induction m generalizing f with
  | nil => rfl
  | cons x m ih =>
    rw [foldl_cons, floorStep_plain (hm x mem_cons_self)]
    exact ih (forall_mem_cons.mp hm).2 f

@[simp] theorem floor_append_trusted (l : List Item) (a : Nat) :
    floor (l ++ [.trusted a]) = some a := by
  simp [floor_append, floorStep]

/-- A log that has a floor keeps having one. -/
theorem floor_some_append {b : Nat} (hl : floor l = some b) (m : List Item) :
    ∃ f, floor (l ++ m) = some f := by
  induction m generalizing l b with
  | nil => exact ⟨b, by simpa using hl⟩
  | cons x m ih =>
    rw [append_cons]
    have hx : ∃ c, floor (l ++ [x]) = some c := by
      cases x <;> simp [floor_append, floorStep, hl]
    obtain ⟨c, hc⟩ := hx
    exact ih hc

/-- The floor never rises above a position the log has marked, unless a later trusted
mark raises it. -/
theorem floor_le_of_marks {a f b : Nat} (hl : floor l = some b) (hb : b ≤ a)
    (hm : ∀ c, Item.trusted c ∈ m → c ≤ a) (hf : floor (l ++ m) = some f) : f ≤ a := by
  induction m generalizing l b with
  | nil =>
    rw [append_nil, hl] at hf
    cases hf
    exact hb
  | cons x m ih =>
    rw [append_cons l x m] at hf
    have hm' : ∀ c, Item.trusted c ∈ m → c ≤ a := fun c hc => hm c (mem_cons_of_mem _ hc)
    cases x with
    | record s =>
      refine ih (l := l ++ [.record s]) (b := b) ?_ hb hm' hf
      rw [floor_append_plain (by simp [Item.Plain]), hl]
    | reset t =>
      refine ih (l := l ++ [.reset t]) (b := b) ?_ hb hm' hf
      rw [floor_append_plain (by simp [Item.Plain]), hl]
    | trusted c =>
      exact ih (floor_append_trusted l c) (hm c mem_cons_self) hm' hf
    | told c =>
      refine ih (l := l ++ [.told c]) (b := min b c) ?_ (by omega) hm' hf
      simp [floor_append, floorStep, hl]

/-! ## Growing a gapless log -/

theorem gapless_nil (pub : Nat → Prop) : Gapless pub [] := by
  intro pre s post h
  simp at h

variable {pub : Nat → Prop}

/-- A prefix of a gapless log is gapless. -/
theorem Gapless.left (h : Gapless pub (l ++ m)) : Gapless pub l := by
  intro pre s post hl
  refine h pre s (post ++ m) ?_
  rw [hl, append_assoc, cons_append]

/-- Items without marks may follow a gapless log when every record among them is one
the log already answers for. -/
theorem Gapless.append_plain (h : Gapless pub l) (hm : ∀ x ∈ m, x.Plain)
    (hrec : ∀ s, Item.record s ∈ m → ∀ f, floor l = some f → ∀ p, pub p → f < p → p < s → Covered l
      p) : Gapless pub (l ++ m) := by
  intro pre s post heq f hf p hp hfp hps
  rcases append_eq_append_iff.mp heq with ⟨mid, hpre, hmid⟩ | ⟨mid, hl, hmid⟩
  · subst hpre
    have hmem : Item.record s ∈ m := by
      rw [hmid]
      simp
    have hplain : ∀ x ∈ mid, x.Plain := by
      intro x hx
      exact hm x (by rw [hmid]; simp [hx])
    rw [floor_append_plain hplain] at hf
    exact covered_append.mpr (.inl (hrec s hmem f hf p hp hfp hps))
  · cases mid with
    | nil =>
      have hmem : Item.record s ∈ m := by
        rw [← nil_append m, ← hmid]
        simp
      have hpre : pre = l := by simpa using hl.symm
      subst hpre
      exact hrec s hmem f hf p hp hfp hps
    | cons x mid =>
      obtain ⟨rfl, -⟩ := hmid
      exact h pre s mid hl f hf p hp hfp hps

/-- A mark may follow a gapless log. -/
theorem Gapless.append_mark (h : Gapless pub l) {x : Item} (hx : ∀ s, x ≠ .record s) :
    Gapless pub (l ++ [x]) := by
  intro pre s post heq
  rcases append_eq_append_iff.mp heq with ⟨mid, hpre, hmid⟩ | ⟨mid, hl, hmid⟩
  · cases mid with
    | nil =>
      simp only [nil_append, List.cons.injEq] at hmid
      exact absurd hmid.1 (hx s)
    | cons y mid => simp at hmid
  · cases mid with
    | nil =>
      simp only [nil_append, List.cons.injEq] at hmid
      exact absurd hmid.1.symm (hx s)
    | cons y mid =>
      obtain ⟨rfl, -⟩ := hmid
      exact h pre s mid hl

/-- A log that has caught up with `s - 1` may grow by the record `s`. -/
theorem Gapless.append_record {s : Nat} (h : Gapless pub l)
    (hc : ∀ f, floor l = some f → ∀ p, pub p → f < p → p < s → Covered l p) :
    Gapless pub (l ++ [.record s]) := by
  refine h.append_plain (by simp [Item.Plain]) ?_
  intro s' hs'
  simp only [mem_singleton, Item.record.injEq] at hs'
  subst hs'
  exact hc

/-- Records at or below a trusted position may follow it: the stream no longer answers
for what is below them. -/
theorem Gapless.append_trusted {t : Nat} (h : Gapless pub l) (hm : ∀ x ∈ m, x.Plain)
    (hle : ∀ s, Item.record s ∈ m → s ≤ t) : Gapless pub (l ++ .trusted t :: m) := by
  rw [append_cons]
  refine (h.append_mark (by simp)).append_plain hm ?_
  intro s hs f hf p _ hfp hps
  rw [floor_append_trusted] at hf
  cases hf
  have := hle s hs
  omega

/-- Records at or below a reset's tip may follow the reset. -/
theorem Gapless.append_reset {t : Nat} (h : Gapless pub l) (hm : ∀ x ∈ m, x.Plain)
    (hle : ∀ s, Item.record s ∈ m → s ≤ t) : Gapless pub (l ++ .reset t :: m) := by
  rw [append_cons]
  refine (h.append_mark (by simp)).append_plain hm ?_
  intro s hs f _ p _ _ hps
  have := hle s hs
  exact covered_of_reset (t := t) (by simp) (by omega)

/-! ## Catching up -/

theorem CaughtUp.mono {m n : Nat} (h : CaughtUp pub l n) (hmn : m ≤ n) : CaughtUp pub l m :=
  fun f hf p hp hfp hpm => h f hf p hp hfp (by omega)

/-- A log holding a reset through `t` has caught up with `t`. -/
theorem caughtUp_of_reset {t : Nat} (h : .reset t ∈ l) :
    CaughtUp pub l t := fun _ _ _ _ _ hp => covered_of_reset h hp

end DeliveryLog
