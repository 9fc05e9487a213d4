import Factory.Lib.DeliveryLog

/-!
# A log fed through two queues

A record on its way to a consumer waits in a shared route queue, then in the consumer's
own queue, and is then in its log. `Flow pub high tail log q r` is the invariant of one
such path: `log` is what the consumer has seen, `q` and `r` are what waits in the two
queues, `tail` is the position the stream is anchored at, if any, and `high` bounds
every sequence seen so far.

Each lemma is one move of the path: a record is published (`Flow.publish`), moved from
the route queue (`Flow.forward`) or received (`Flow.receive`); the consumer's queue is
discarded for a reset (`Flow.overflow`, `Flow.told`), or the tail is anchored without one
(`Flow.trusted`).
-/

namespace DeliveryLog

open List

/-- The invariant of one path from the source of a stream to a consumer. -/
structure Flow (pub : Nat → Prop) (high : Nat) (tail : Option Nat)
    (log q r : List Item) : Prop where
  queue_plain : ∀ x ∈ q, x.Plain
  route_plain : ∀ x ∈ r, x.Plain
  bounded : ∀ s, Item.record s ∈ q ++ r → s ≤ high
  tail_le : ∀ n, tail = some n → n ≤ high
  unanchored : tail = none → floor log = none
  gapless : Gapless pub (log ++ (q ++ r))
  caught : ∀ n, tail = some n → CaughtUp pub (log ++ (q ++ r)) n

namespace Flow

variable {pub : Nat → Prop} {high t : Nat} {tail : Option Nat} {log q r : List Item}

theorem plain (h : Flow pub high tail log q r) : ∀ x ∈ q ++ r, x.Plain := by
  intro x hx
  rcases mem_append.mp hx with hx | hx
  · exact h.queue_plain x hx
  · exact h.route_plain x hx

/-- The consumer's log is gapless. -/
theorem log_gapless (h : Flow pub high tail log q r) : Gapless pub log := h.gapless.left

/-- The bound may be raised. -/
theorem raise (h : Flow pub high tail log q r) (hle : high ≤ t) : Flow pub t tail log q r where
  queue_plain := h.queue_plain
  route_plain := h.route_plain
  bounded s hs := (h.bounded s hs).trans hle
  tail_le n hn := (h.tail_le n hn).trans hle
  unanchored := h.unanchored
  gapless := h.gapless
  caught := h.caught

/-- A consumer that has just joined. -/
theorem join (hplain : ∀ x ∈ r, x.Plain) (hb : ∀ s, Item.record s ∈ r → s ≤ high)
    (ht : ∀ n, tail = some n → n ≤ high) : Flow pub high tail [] [] r where
  queue_plain x hx := absurd hx not_mem_nil
  route_plain := hplain
  bounded := hb
  tail_le := ht
  unanchored _ := rfl
  gapless := (gapless_nil pub).append_plain hplain fun s _ f hf => by simp [floor] at hf
  caught n _ f hf := by
    rw [nil_append, nil_append, ← nil_append r, floor_append_plain hplain] at hf
    simp [floor] at hf

/-- The head of the consumer's queue is published. -/
theorem publish {xs : List Item} (h : Flow pub high tail log (xs ++ q) r) :
    Flow pub high tail (log ++ xs) q r where
  queue_plain x hx := h.queue_plain x (mem_append_right xs hx)
  route_plain := h.route_plain
  bounded s hs := h.bounded s (by
    rw [append_assoc]
    exact mem_append_right xs hs)
  tail_le := h.tail_le
  unanchored ht := by
    rw [floor_append_plain fun x hx => h.queue_plain x (mem_append_left q hx)]
    exact h.unanchored ht
  gapless := by
    have := h.gapless
    rwa [append_assoc, ← append_assoc log] at this
  caught n hn := by
    have := h.caught n hn
    rwa [append_assoc, ← append_assoc log] at this

/-- The head of the route queue moves to the consumer's queue. -/
theorem forward {xs : List Item} (h : Flow pub high tail log q (xs ++ r)) :
    Flow pub high tail log (q ++ xs) r where
  queue_plain x hx := by
    rcases mem_append.mp hx with hx | hx
    · exact h.queue_plain x hx
    · exact h.route_plain x (mem_append_left r hx)
  route_plain x hx := h.route_plain x (mem_append_right xs hx)
  bounded s hs := h.bounded s (by rwa [← append_assoc])
  tail_le := h.tail_le
  unanchored := h.unanchored
  gapless := by rw [append_assoc]; exact h.gapless
  caught n hn := by rw [append_assoc]; exact h.caught n hn

variable (h : Flow pub high tail log q r)
include h

/-- The consumer's queue is discarded for a reset at a tip above everything seen, and
the tail stays where it was. -/
theorem overflow {r' : List Item} (hr : r' ⊆ r) (hle : high ≤ t) :
    Flow pub t tail log [.reset t] r' where
  queue_plain x hx := by
    cases mem_singleton.mp hx
    trivial
  route_plain x hx := h.route_plain x (hr hx)
  bounded s hs := by
    have hs' : Item.record s ∈ r' := by simpa using hs
    exact (h.bounded s (mem_append_right q (hr hs'))).trans hle
  tail_le n hn := (h.tail_le n hn).trans hle
  unanchored := h.unanchored
  gapless := h.log_gapless.append_reset (fun x hx => h.route_plain x (hr hx))
    fun s hs => (h.bounded s (mem_append_right q (hr hs))).trans hle
  caught n hn := (caughtUp_of_reset (t := t) (by simp)).mono ((h.tail_le n hn).trans hle)

/-- The consumer's queue is discarded for a reset at a tip above everything seen, and
the tail is anchored there. -/
theorem told {r' : List Item} (hr : r' ⊆ r) (hle : high ≤ t) :
    Flow pub t (some t) (log ++ [.told t]) [.reset t] r' where
  queue_plain := (h.overflow hr hle).queue_plain
  route_plain := (h.overflow hr hle).route_plain
  bounded := (h.overflow hr hle).bounded
  tail_le n hn := by cases hn; exact le_refl _
  unanchored hn := by simp at hn
  gapless := (h.log_gapless.append_mark (by simp)).append_reset
    (fun x hx => h.route_plain x (hr hx))
    fun s hs => (h.bounded s (mem_append_right q (hr hs))).trans hle
  caught n hn := by
    cases hn
    exact caughtUp_of_reset (by simp)

/-- The tail is anchored at a tip above everything seen, without a reset. -/
theorem trusted (hle : high ≤ t) : Flow pub t (some t) (log ++ [.trusted t]) q r where
  queue_plain := h.queue_plain
  route_plain := h.route_plain
  bounded s hs := (h.bounded s hs).trans hle
  tail_le n hn := by cases hn; exact le_refl _
  unanchored hn := by simp at hn
  gapless := by
    rw [← append_cons]
    exact h.log_gapless.append_trusted h.plain fun s hs => (h.bounded s hs).trans hle
  caught n hn f hf p _ hfp hpn := by
    cases hn
    rw [floor_append_plain h.plain, floor_append_trusted] at hf
    cases hf
    omega

/-- A record is received when nothing of `pub` lies strictly between the tail and it. -/
theorem receive {s : Nat} (hs : s ≤ high)
    (hgap : ∀ n, tail = some n → ∀ p, pub p → n < p → p < s → False) :
    Flow pub high (tail.map (max · s)) log q (r ++ [.record s]) where
  queue_plain := h.queue_plain
  route_plain x hx := by
    rcases mem_append.mp hx with hx | hx
    · exact h.route_plain x hx
    · cases mem_singleton.mp hx
      trivial
  bounded s' hs' := by
    rw [← append_assoc] at hs'
    rcases mem_append.mp hs' with hs' | hs'
    · exact h.bounded s' hs'
    · cases mem_singleton.mp hs'
      exact hs
  tail_le n hn := by
    obtain ⟨m, hm, rfl⟩ := Option.map_eq_some_iff.mp hn
    exact max_le (h.tail_le m hm) hs
  unanchored hn := h.unanchored (Option.map_eq_none_iff.mp hn)
  gapless := by
    rw [← append_assoc, ← append_assoc, append_assoc log]
    refine h.gapless.append_record ?_
    intro f hf p hp hfp hps
    cases htail : tail with
    | none =>
      rw [floor_append_plain h.plain, h.unanchored htail] at hf
      simp at hf
    | some n =>
      by_cases hpn : p ≤ n
      · exact h.caught n htail f hf p hp hfp hpn
      · exact (hgap n htail p hp (by omega) hps).elim
  caught n hn := by
    obtain ⟨m, hm, rfl⟩ := Option.map_eq_some_iff.mp hn
    rw [← append_assoc, ← append_assoc, append_assoc log]
    intro f hf p hp hfp hpn
    rw [floor_append_plain (by simp [Item.Plain])] at hf
    by_cases hpm : p ≤ m
    · exact covered_append.mpr (.inl (h.caught m hm f hf p hp hfp hpm))
    · rcases Nat.lt_or_ge p s with hlt | hge
      · exact (hgap m hm p hp (by omega) hlt).elim
      · have hps : p = s := by omega
        subst hps
        exact ⟨.record p, by simp, rfl⟩

end Flow

end DeliveryLog
