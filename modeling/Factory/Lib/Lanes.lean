import Mathlib.Data.List.Sort

/-!
# Lanes

A list whose elements belong to lanes, by a key: `lane key k l` is what lane `k` holds and
`others key k l` what all the other lanes hold. Work that is done lane by lane, each element
giving rise only to elements of its own lane, commutes with leaving a lane out
(`others_flatMap`), so what one lane holds is no input to the work of the others.
-/

namespace Lanes

open List

variable {α β K : Type*}

variable {l m : List α}

section
variable [DecidableEq K]

/-- What lane `k` holds. -/
def lane (key : α → K) (k : K) (l : List α) : List α := l.filter (key · = k)

/-- What every lane but `k` holds. -/
def others (key : α → K) (k : K) (l : List α) : List α := l.filter (key · ≠ k)

variable {key : α → K} {keyβ : β → K} {k : K}

@[simp] theorem others_nil : others key k [] = [] := rfl

theorem others_cons (x : α) (l : List α) :
    others key k (x :: l) = if key x ≠ k then x :: others key k l else others key k l := by
  simp only [others, filter_cons, decide_eq_true_eq]

theorem others_append (l m : List α) : others key k (l ++ m) = others key k l ++ others key k m :=
  filter_append ..

theorem append_congr_others {l' m' : List α} (hl : others key k l = others key k l')
    (hm : others key k m = others key k m') : others key k (l ++ m) = others key k (l' ++ m') := by
  rw [others_append, others_append, hl, hm]

/-- Another lane is one of the others. -/
theorem lane_of_others {j : K} (hne : j ≠ k) (h : others key k l = others key k m) :
    lane key j l = lane key j m := by
  have hlane (l : List α) : lane key j l = lane key j (others key k l) := by
    simp only [lane, others, filter_filter]
    apply filter_congr
    intro x _
    by_cases hx : key x = j
    · simp [hx, hne]
    · simp [hx]
  rw [hlane l, hlane m, h]

/-- The lane left out is not among the others. -/
theorem others_eq_nil (h : ∀ x ∈ l, key x = k) : others key k l = [] := by
  apply filter_eq_nil_iff.mpr
  intro x hx
  simp [h x hx]

theorem others_eq_self (h : ∀ x ∈ l, key x ≠ k) : others key k l = l := by
  apply filter_eq_self.mpr
  intro x hx
  simp [h x hx]

/-- Work done lane by lane commutes with leaving a lane out. -/
theorem others_flatMap {f : α → List β} (hf : ∀ x, ∀ y ∈ f x, keyβ y = key x) (l : List α) :
    others keyβ k (l.flatMap f) = (others key k l).flatMap f := by
  induction l with
  | nil => rfl
  | cons x l ih =>
    rw [flatMap_cons, others_append, ih, others_cons]
    split
    next hx =>
      rw [flatMap_cons, others_eq_self]
      intro y hy
      rw [hf x y hy]
      exact hx
    next hx =>
      rw [others_eq_nil, nil_append]
      intro y hy
      rw [hf x y hy]
      exact not_not.mp hx

/-- What the other lanes do is the same when they hold the same. -/
theorem flatMap_congr_others {f g : α → List β} (hf : ∀ x, ∀ y ∈ f x, keyβ y = key x)
    (hg : ∀ x, ∀ y ∈ g x, keyβ y = key x) (hfg : ∀ x, key x ≠ k → f x = g x)
    (h : others key k l = others key k m) :
    others keyβ k (l.flatMap f) = others keyβ k (m.flatMap g) := by
  rw [others_flatMap hf, others_flatMap hg, h]
  apply flatMap_congr
  intro x hx
  exact hfg x (of_decide_eq_true (mem_filter.mp hx).2)

theorem map_congr_others {f : α → β} (hf : ∀ x, keyβ (f x) = key x)
    (h : others key k l = others key k m) : others keyβ k (l.map f) = others keyβ k (m.map f) := by
  rw [map_eq_flatMap, map_eq_flatMap]
  have hmem : ∀ x, ∀ y ∈ [f x], keyβ y = key x := by
    intro x y hy
    rw [mem_singleton.mp hy, hf]
  exact flatMap_congr_others hmem hmem (fun _ _ => rfl) h

end

section
variable [LinearOrder K] {key : α → K} {k : K}

/-- The lanes of a list sorted by its keys stay sorted when work is done lane by lane and leaves
at most one element of each. -/
theorem sorted_flatMap {f : α → Option α} (hf : ∀ x y, f x = some y → key y = key x)
    (hl : l.Pairwise fun x y => key x < key y) :
    (l.flatMap fun x => (f x).toList).Pairwise fun x y => key x < key y := by
  have hmem : ∀ {x y : α}, y ∈ (f x).toList → key y = key x := by
    intro x y hy
    exact hf x y (Option.mem_toList.mp hy)
  rw [pairwise_flatMap]
  constructor
  · intro x _
    cases f x with
    | none => exact List.Pairwise.nil
    | some y => exact pairwise_singleton _ _
  · refine hl.imp ?_
    intro x y hxy u hu v hv
    rw [hmem hu, hmem hv]
    exact hxy

theorem orderedInsert_of_forall_le {x : α} (h : ∀ y ∈ l, key x ≤ key y) :
    l.orderedInsert (fun x y => key x ≤ key y) x = x :: l := by
  cases l with
  | nil => rfl
  | cons y l => rw [List.orderedInsert, if_pos (h y mem_cons_self)]

/-- A new element is in its place among the others. -/
theorem others_orderedInsert (x : α) (hl : l.Pairwise fun x y => key x < key y) :
    others key k (l.orderedInsert (fun x y => key x ≤ key y) x) =
      if key x = k then others key k l
      else (others key k l).orderedInsert (fun x y => key x ≤ key y) x := by
  induction l with
  | nil =>
    rw [orderedInsert_nil, others_cons]
    by_cases hx : key x = k
    · simp [hx]
    · simp [hx]
  | cons y l ih =>
    obtain ⟨hy, hl⟩ := pairwise_cons.mp hl
    rw [List.orderedInsert]
    split
    next hle =>
      rw [others_cons x]
      by_cases hx : key x = k
      · rw [if_neg (not_not_intro hx), if_pos hx]
      · rw [if_pos hx, if_neg hx, orderedInsert_of_forall_le]
        intro z hz
        rcases mem_cons.mp (mem_of_mem_filter hz) with rfl | hz
        · exact hle
        · exact hle.trans (hy z hz).le
    next hnot =>
      rw [others_cons y, ih hl, others_cons y]
      by_cases hk : key y = k
      · rw [if_neg (not_not_intro hk), if_neg (not_not_intro hk)]
      · rw [if_pos hk, if_pos hk]
        split
        · rfl
        · rw [List.orderedInsert, if_neg hnot]

theorem sorted_orderedInsert {x : α} (hl : l.Pairwise fun x y => key x < key y)
    (hx : ∀ y ∈ l, key y ≠ key x) :
    (l.orderedInsert (fun x y => key x ≤ key y) x).Pairwise fun x y => key x < key y := by
  induction l with
  | nil => exact pairwise_singleton _ _
  | cons y l ih =>
    obtain ⟨hy, hl⟩ := pairwise_cons.mp hl
    have hne : key y ≠ key x := hx y mem_cons_self
    rw [List.orderedInsert]
    split
    next hle =>
      refine pairwise_cons.mpr ⟨?_, pairwise_cons.mpr ⟨hy, hl⟩⟩
      intro z hz
      rcases mem_cons.mp hz with rfl | hz
      · exact lt_of_le_of_ne hle hne.symm
      · exact hle.trans_lt (hy z hz)
    next hnot =>
      refine pairwise_cons.mpr ⟨?_, ih hl (forall_mem_cons.mp hx).2⟩
      intro z hz
      rcases (mem_orderedInsert _).mp hz with rfl | hz
      · exact not_le.mp hnot
      · exact hy z hz

end

end Lanes
