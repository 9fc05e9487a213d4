import Mathlib.Data.List.Basic

/-!
# Streams cut by marks

Some elements of a stream are marks: `mark x = some g` opens the window of `g`. Others belong
to a window: `item x = some g`. A stream is `Windowed` when every item stands in a window of
its own: the last mark before it is the one it names.

A queue may lose items on the way, never marks. `Thins p l l'` says that `l'` is `l` less some
elements that satisfy `p`; thinning keeps the order, everything that does not satisfy `p`, and
the windows (`Thins.windowed`).
-/

namespace Marked

open List

variable {α γ : Type*}

/-! ## Thinning -/

/-- `l'` is `l` with some elements that satisfy `p` left out. -/
inductive Thins (p : α → Bool) : List α → List α → Prop
  | nil : Thins p [] []
  | keep (x : α) {l l' : List α} : Thins p l l' → Thins p (x :: l) (x :: l')
  | drop {x : α} {l l' : List α} : p x = true → Thins p l l' → Thins p (x :: l) l'

namespace Thins

variable {p q : α → Bool} {l l' : List α}

theorem refl (l : List α) : Thins p l l := by
  induction l with
  | nil => exact .nil
  | cons x l ih => exact .keep x ih

/-- What is left is in the order it had. -/
theorem sublist (h : Thins p l l') : l'.Sublist l := by
  induction h with
  | nil => exact List.Sublist.refl _
  | keep x _ ih => exact ih.cons_cons x
  | drop _ _ ih => exact ih.cons _

/-- An element that is left out satisfies the predicate. -/
theorem mem_or (h : Thins p l l') {x : α} (hx : x ∈ l) : x ∈ l' ∨ p x = true := by
  induction h with
  | nil => exact absurd hx not_mem_nil
  | keep y _ ih =>
    rcases mem_cons.mp hx with rfl | hx
    · exact .inl mem_cons_self
    · exact (ih hx).imp_left (mem_cons_of_mem y)
  | drop hy _ ih =>
    rcases mem_cons.mp hx with rfl | hx
    · exact .inr hy
    · exact ih hx

theorem imp (hpq : ∀ x, p x = true → q x = true) (h : Thins p l l') : Thins q l l' := by
  induction h with
  | nil => exact .nil
  | keep x _ ih => exact .keep x ih
  | drop hx _ ih => exact .drop (hpq _ hx) ih

/-- Thinned twice is thinned. -/
theorem trans {m : List α} (h : Thins p l l') (h' : Thins p l' m) : Thins p l m := by
  induction h generalizing m with
  | nil => exact h'
  | keep x _ ih =>
    cases h' with
    | keep _ h' => exact .keep x (ih h')
    | drop hx h' => exact .drop hx (ih h')
  | drop hx _ ih => exact .drop hx (ih h')

/-- Thinning the end of a stream thins the stream. -/
theorem append_left (k : List α) (h : Thins p l l') : Thins p (k ++ l) (k ++ l') := by
  induction k with
  | nil => exact h
  | cons x k ih => exact .keep x ih

/-- Thinning the front of a stream thins the stream. -/
theorem append_right (h : Thins p l l') (k : List α) : Thins p (l ++ k) (l' ++ k) := by
  induction h with
  | nil => exact refl k
  | keep x _ ih => exact .keep x ih
  | drop hx _ ih => exact .drop hx ih

/-- What does not satisfy the predicate is left as it was. -/
theorem filter_not (h : Thins p l l') : l'.filter (!p ·) = l.filter (!p ·) := by
  induction h with
  | nil => rfl
  | keep x _ ih => simp only [filter_cons, ih]
  | drop hx _ ih =>
    rw [ih, filter_cons, hx]
    rfl

end Thins

theorem thins_eraseP (p : α → Bool) (l : List α) : Thins p l (l.eraseP p) := by
  induction l with
  | nil => exact .nil
  | cons x l ih =>
    rw [eraseP_cons]
    cases hx : p x with
    | true => exact .drop hx (Thins.refl l)
    | false => exact .keep x ih

theorem thins_filter (p : α → Bool) (l : List α) : Thins p l (l.filter (!p ·)) := by
  induction l with
  | nil => exact .nil
  | cons x l ih =>
    rw [filter_cons]
    cases hx : p x with
    | true => exact .drop hx ih
    | false => exact .keep x ih

/-! ## Windows -/

variable (mark item : α → Option γ)

/-- The window open after the stream, when `g` was open before it. -/
def lastMark (g : Option γ) (l : List α) : Option γ :=
  l.foldl (fun g x => (mark x).or g) g

/-- Every item of the stream names the window that is open where it stands. -/
def Windowed : Option γ → List α → Prop
  | _, [] => True
  | g, x :: l => (∀ w, item x = some w → g = some w) ∧ Windowed ((mark x).or g) l

variable {mark item} {p : α → Bool} {g : Option γ} {l l' : List α}

/-- The second part of a stream goes on from the last mark of the first. -/
theorem windowed_append {m : List α} :
    Windowed mark item g (l ++ m) ↔
      Windowed mark item g l ∧ Windowed mark item (lastMark mark g l) m := by
  induction l generalizing g with
  | nil => exact (iff_of_eq (true_and _)).symm
  | cons x l ih =>
    constructor
    · rintro ⟨hx, hrest⟩
      exact ⟨⟨hx, (ih.mp hrest).1⟩, (ih.mp hrest).2⟩
    · rintro ⟨⟨hx, hl⟩, hm⟩
      exact ⟨hx, ih.mpr ⟨hl, hm⟩⟩

@[simp] theorem lastMark_snoc (x : α) :
    lastMark mark g (l ++ [x]) = (mark x).or (lastMark mark g l) :=
  foldl_append

/-- Thinning elements that are no marks keeps the last mark. -/
theorem Thins.lastMark (hmark : ∀ x, p x = true → mark x = none) (h : Thins p l l') :
    lastMark mark g l' = lastMark mark g l := by
  induction h generalizing g with
  | nil => rfl
  | keep x _ ih => exact ih
  | @drop x l l' hx _ ih =>
    have hskip : Marked.lastMark mark g (x :: l) = Marked.lastMark mark g l := by
      simp only [Marked.lastMark, foldl_cons, hmark x hx, Option.none_or]
    rw [hskip]
    exact ih

/-- Leaving out items that are no marks moves no other item out of its window. -/
theorem Thins.windowed (hmark : ∀ x, p x = true → mark x = none) (h : Thins p l l')
    (hw : Windowed mark item g l) : Windowed mark item g l' := by
  induction h generalizing g with
  | nil => trivial
  | keep x _ ih => exact ⟨hw.1, ih hw.2⟩
  | @drop x l l' hx _ ih =>
    have hrest := hw.2
    rw [hmark x hx, Option.none_or] at hrest
    exact ih hrest

end Marked
