import Mathlib.Data.Finmap
import Mathlib.Data.Finset.Card
import Mathlib.Data.List.Perm.Basic

/-!
# Counting entries

`tally m q` is the number of entries of the finite map `m` whose value has the property `q`. An
insertion at a free key adds what the value counts for, an erasure takes it away, and a walk
over the keys in any order counts the same (`tally_enumerate`). For lists, an entry replaced or
removed at an index is one taken out and one put in, up to order, which is all a count sees.
-/

namespace Tally

open List

variable {K V : Type*} [DecidableEq K]

theorem keys_insert (m : Finmap fun _ : K => V) (k : K) (v : V) :
    (m.insert k v).keys = insert k m.keys := by
  ext a
  rw [Finmap.mem_keys, Finset.mem_insert, Finmap.mem_keys, Finmap.mem_insert]

theorem keys_erase (m : Finmap fun _ : K => V) (k : K) : (m.erase k).keys = m.keys.erase k := by
  ext a
  rw [Finmap.mem_keys, Finset.mem_erase, Finmap.mem_keys, Finmap.mem_erase]

variable {m : Finmap fun _ : K => V}

theorem mem_keys_iff_lookup {k : K} : k ∈ m.keys ↔ ∃ v, m.lookup k = some v := by
  rw [Finmap.mem_keys, ← Finmap.lookup_isSome, Option.isSome_iff_exists]

theorem notMem_keys_iff_lookup {k : K} : k ∉ m.keys ↔ m.lookup k = none := by
  rw [Finmap.mem_keys, Finmap.lookup_eq_none]

/-- Inserting at a key is inserting at it once it is free. -/
theorem insert_erase_self (m : Finmap fun _ : K => V) (k : K) (v : V) :
    (m.erase k).insert k v = m.insert k v := by
  refine Finmap.ext_lookup fun a => ?_
  by_cases ha : a = k
  · subst ha
    rw [Finmap.lookup_insert, Finmap.lookup_insert]
  · rw [Finmap.lookup_insert_of_ne _ ha, Finmap.lookup_insert_of_ne _ ha, Finmap.lookup_erase_ne ha]

/-- The number of entries whose value has the property. -/
def tally (m : Finmap fun _ : K => V) (q : V → Bool) : Nat :=
  (m.keys.filter fun k => (m.lookup k).any q).card

@[simp] theorem tally_empty (q : V → Bool) : tally (∅ : Finmap fun _ : K => V) q = 0 := by
  simp [tally]

/-- A new entry is counted once. -/
theorem tally_insert {k : K} (hfree : m.lookup k = none) (v : V) (q : V → Bool) :
    tally (m.insert k v) q = tally m q + (q v).toNat := by
  have hk : k ∉ m.keys := notMem_keys_iff_lookup.mpr hfree
  have hrest : m.keys.filter (fun a => ((m.insert k v).lookup a).any q) =
      m.keys.filter fun a => (m.lookup a).any q := by
    refine Finset.filter_congr fun a ha => ?_
    have hne : a ≠ k := fun heq => hk (heq ▸ ha)
    rw [Finmap.lookup_insert_of_ne _ hne]
  unfold tally
  rw [keys_insert, Finset.filter_insert, hrest, Finmap.lookup_insert, Option.any_some]
  cases hq : q v with
  | true =>
    rw [if_pos rfl, Finset.card_insert_of_notMem fun h => hk (Finset.mem_filter.mp h).1]
    rfl
  | false => rw [if_neg Bool.false_ne_true, Bool.toNat_false, Nat.add_zero]

/-- An erased entry is counted no more. -/
theorem tally_erase {k : K} {v : V} (h : m.lookup k = some v) (q : V → Bool) :
    tally m q = tally (m.erase k) q + (q v).toNat := by
  rw [← tally_insert (Finmap.lookup_erase _ _) v q, insert_erase_self]
  congr 1
  refine Finmap.ext_lookup fun a => ?_
  by_cases ha : a = k
  · subst ha
    rw [Finmap.lookup_insert, h]
  · rw [Finmap.lookup_insert_of_ne _ ha]

/-- Overwriting an entry by one that counts the same. -/
theorem tally_overwrite {k : K} {v : V} (h : m.lookup k = some v) {v' : V} {q : V → Bool}
    (hq : q v' = q v) : tally (m.insert k v') q = tally m q := by
  rw [← insert_erase_self, tally_insert (Finmap.lookup_erase _ _), tally_erase h, hq]

theorem tally_pos {q : V → Bool} : 0 < tally m q ↔ ∃ k v, m.lookup k = some v ∧ q v = true := by
  unfold tally
  rw [Finset.card_pos]
  constructor
  · rintro ⟨k, hk⟩
    obtain ⟨hmem, hany⟩ := Finset.mem_filter.mp hk
    obtain ⟨v, hv⟩ := mem_keys_iff_lookup.mp hmem
    rw [hv] at hany
    exact ⟨k, v, hv, hany⟩
  · rintro ⟨k, v, hv, hq⟩
    refine ⟨k, Finset.mem_filter.mpr ⟨mem_keys_iff_lookup.mpr ⟨v, hv⟩, ?_⟩⟩
    rw [hv]
    exact hq

/-- A walk over the keys, in any order, counts what the tally does. -/
theorem tally_enumerate {order : List K} (hnodup : order.Nodup) (hkeys : order.toFinset = m.keys)
    (q : V → Bool) : (order.filterMap m.lookup).countP q = tally m q := by
  induction order generalizing m with
  | nil =>
    unfold tally
    rw [← hkeys]
    simp
  | cons k rest ih =>
    rw [nodup_cons] at hnodup
    have hk : k ∈ m.keys := by rw [← hkeys]; simp
    obtain ⟨v, hv⟩ := mem_keys_iff_lookup.mp hk
    have hrest : rest.toFinset = (m.erase k).keys := by
      rw [keys_erase, ← hkeys, toFinset_cons, Finset.erase_insert]
      simpa using hnodup.1
    have hsame : rest.filterMap m.lookup = rest.filterMap (m.erase k).lookup := by
      refine filterMap_congr fun a ha => ?_
      have hne : a ≠ k := fun heq => hnodup.1 (heq ▸ ha)
      rw [Finmap.lookup_erase_ne hne]
    have hcons : (k :: rest).filterMap m.lookup = v :: rest.filterMap m.lookup :=
      filterMap_cons_some hv
    rw [hcons, countP_cons, hsame, ih hnodup.2 hrest, tally_erase hv]
    cases q v <;> rfl

/-! ## Lists -/

variable {α : Type*}

theorem perm_cons_eraseIdx {xs : List α} {i : Nat} {x : α} (h : xs[i]? = some x) :
    xs.Perm (x :: xs.eraseIdx i) := by
  obtain ⟨hi, rfl⟩ := List.getElem?_eq_some_iff.mp h
  exact (getElem_cons_eraseIdx_perm hi).symm

theorem set_perm_cons {xs : List α} {i : Nat} {x : α} (h : xs[i]? = some x) (y : α) :
    (xs.set i y).Perm (y :: xs.eraseIdx i) := by
  obtain ⟨hi, -⟩ := List.getElem?_eq_some_iff.mp h
  exact set_perm_cons_eraseIdx hi y

/-- Two entries with a property that at most one has are the same. -/
theorem eq_of_countP_le_one {xs : List α} {q : α → Bool} (h : xs.countP q ≤ 1) {a b : α}
    (ha : a ∈ xs) (hb : b ∈ xs) (hqa : q a = true) (hqb : q b = true) : a = b := by
  rw [countP_eq_length_filter] at h
  have hfound := mem_filter.mpr ⟨ha, hqa⟩
  have hfound' := mem_filter.mpr ⟨hb, hqb⟩
  generalize xs.filter q = found at h hfound hfound'
  match found with
  | [] => cases hfound
  | [x] => rw [mem_singleton.mp hfound, mem_singleton.mp hfound']
  | _ :: _ :: _ => simp at h

end Tally
