import Mathlib.Data.List.Basic

/-!
# What a stream still carries

A pipeline of a sequenced stream is the list of what a consumer will be given: records by
their sequence, and holes, places where an unknown number of records is missing and the
consumer is told so. `Waits ps p` says that a consumer of the pipeline `ps` is given `p`,
or is told of a hole, before it is given anything greater than `p`.

The rules are the ways a pipeline changes: at its end (`Waits.append`,
`waits_append_record`), behind some place (`Waits.append_mono`), and by its head being
consumed (`Waits.tail`).
-/

namespace Pipeline

inductive Part where
  | record (seq : Nat)
  | hole
deriving DecidableEq

/-- The record `p` or a hole comes before any record greater than `p`. -/
def Waits : List Part → Nat → Prop
  | [], _ => False
  | .hole :: _, _ => True
  | .record s :: ps, p => p = s ∨ (s < p ∧ Waits ps p)

variable {ps : List Part} {p : Nat}

/-- A pipeline may grow at its end. -/
theorem Waits.append (h : Waits ps p) (qs : List Part) : Waits (ps ++ qs) p := by
  induction ps with
  | nil => exact h.elim
  | cons x ps ih =>
    cases x with
    | hole => trivial
    | record s =>
      rcases h with rfl | ⟨hlt, h⟩
      · exact .inl rfl
      · exact .inr ⟨hlt, ih h⟩

/-- What lies behind some place may be exchanged for anything in which `p` waits if it
waited before. -/
theorem Waits.append_mono {qs rs : List Part} (h : Waits (ps ++ qs) p)
    (hr : Waits qs p → Waits rs p) : Waits (ps ++ rs) p := by
  induction ps with
  | nil => exact hr h
  | cons x ps ih =>
    cases x with
    | hole => trivial
    | record s =>
      rcases h with rfl | ⟨hlt, h⟩
      · exact .inl rfl
      · exact .inr ⟨hlt, ih h⟩

/-- A record above everything in a pipeline waits once it is at its end, and waits in any
pipeline that has a hole. -/
theorem waits_append_record (h : ∀ s, Part.record s ∈ ps → s < p) {qs : List Part} (hq : Waits qs p)
    : Waits (ps ++ qs) p := by
  induction ps with
  | nil => exact hq
  | cons x ps ih =>
    cases x with
    | hole => trivial
    | record s =>
      refine .inr ⟨h s List.mem_cons_self, ih ?_⟩
      intro s' hs'
      exact h s' (List.mem_cons_of_mem _ hs')

theorem waits_hole (ps : List Part) (p : Nat) : Waits (.hole :: ps) p := trivial

/-- The head of a pipeline is consumed: a record that waited and is not the head waits
behind it. -/
theorem Waits.tail {s : Nat} (h : Waits (.record s :: ps) p) (hne : p ≠ s) :
    s < p ∧ Waits ps p := h.resolve_left hne

/-- Nothing below the head of a pipeline waits in it. -/
theorem Waits.le {s : Nat} (h : Waits (.record s :: ps) p) : s ≤ p := by
  rcases h with rfl | ⟨hlt, -⟩
  · exact Nat.le_refl _
  · exact Nat.le_of_lt hlt

end Pipeline
