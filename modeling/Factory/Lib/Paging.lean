import Mathlib.Data.List.Basic

/-!
# Bounded passes over paged views

A view is read page by page: `Shape.next` is the position after a page, and the head stands both
for the start of the view and for "no further page". A pass presents a position, handles the rows
of the page it is answered, and goes on from the page's next position, for a bounded number of
pages (`Reading`). What it keeps is where the next pass over the same view starts.

A sweeper keeps one position for each shard and takes the shards round robin (`Step`); the number
of shards is read anew by every pass, and the positions of shards that are gone are dropped. The
results are about every sequence of passes (`History`), whatever the store answered.
-/

namespace Paging

open List

variable {C P Row : Type*}

/-- What the positions, pages and rows of a view have to do with each other. -/
structure Shape (C P Row : Type*) where
  head : C
  next : P → C
  rows : P → List Row

/-- What a presented position is answered. -/
inductive Answer (P : Type*) where
  | refused
  | failed
  | page (page : P)
deriving DecidableEq

/-- One pass of at most so many pages from a position: the positions presented with their
answers, the rows recorded, whether a fault ended it, and the position it keeps. A row that
faults is not recorded, and the position is then the one its page was read from. -/
inductive Reading (V : Shape C P Row) :
    Nat → C → List (C × Answer P) → List Row → Bool → C → Prop
  | truncated (c : C) : Reading V 0 c [] [] false c
  | refused (n : Nat) (c : C) : Reading V (n + 1) c [(c, .refused)] [] true V.head
  | failed (n : Nat) (c : C) : Reading V (n + 1) c [(c, .failed)] [] true c
  | unfinished (n : Nat) (c : C) {page : P} {part rest : List Row}
      (h : V.rows page = part ++ rest) : Reading V (n + 1) c [(c, .page page)] part true c
  | last (n : Nat) (c : C) {page : P} (h : V.next page = V.head) :
      Reading V (n + 1) c [(c, .page page)] (V.rows page) false V.head
  | more {n : Nat} (c : C) {page : P} {reads : List (C × Answer P)} {recorded : List Row}
      {faulted : Bool} {kept : C} (h : V.next page ≠ V.head)
      (rest : Reading V n (V.next page) reads recorded faulted kept) :
      Reading V (n + 1) c ((c, .page page) :: reads) (V.rows page ++ recorded) faulted kept

/-- One pass of a sweeper: the number of shards it read, the shard it took and what it did. -/
structure Pass (C P Row : Type*) where
  shards : Nat
  shard : Nat
  start : C
  reads : List (C × Answer P)
  recorded : List Row
  faulted : Bool
  kept : C

/-- The next shard to take and the position kept for each shard. -/
structure State (C : Type*) where
  next : Nat
  kept : Nat → C

/-- A sweeper that has made no pass. -/
def State.init (V : Shape C P Row) : State C := ⟨0, fun _ => V.head⟩

/-- One pass as a step of the sweeper. -/
structure Step (V : Shape C P Row) (maxPages : Nat) (s : State C) (p : Pass C P Row)
    (t : State C) : Prop where
  shards_pos : 0 < p.shards
  shard : p.shard = if p.shards ≤ s.next then 0 else s.next
  start : p.start = s.kept p.shard
  reading : Reading V maxPages p.start p.reads p.recorded p.faulted p.kept
  next : t.next = (p.shard + 1) % p.shards
  kept : ∀ k, t.kept k =
    if k = p.shard then p.kept else if p.shards ≤ k then V.head else s.kept k

/-- The passes a sweeper made from one state to another. -/
inductive History (V : Shape C P Row) (maxPages : Nat) :
    State C → List (Pass C P Row) → State C → Prop
  | nil (s : State C) : History V maxPages s [] s
  | snoc {s t u : State C} {passes : List (Pass C P Row)} {p : Pass C P Row}
      (h : History V maxPages s passes t) (hp : Step V maxPages t p u) :
      History V maxPages s (passes ++ [p]) u

variable {V : Shape C P Row} {maxPages : Nat} {p : Pass C P Row} {s t : State C}

theorem Step.shard_lt (h : Step V maxPages s p t) : p.shard < p.shards := by
  have hpos := h.shards_pos
  have hshard := h.shard
  split at hshard <;> omega

variable {passes : List (Pass C P Row)}

theorem History.step_of_mem (h : History V maxPages s passes t) (hp : p ∈ passes) :
    ∃ u v, Step V maxPages u p v := by
  induction h with
  | nil => cases hp
  | snoc _ hstep ih =>
    rcases mem_append.mp hp with hp | hp
    · exact ih hp
    · rw [mem_singleton] at hp
      subst hp
      exact ⟨_, _, hstep⟩

/-! ## What was handled before a kept position -/

/-- The pages met in order on the way from a position to another one. -/
inductive Leads (V : Shape C P Row) : C → List (C × P) → C → Prop
  | nil (c : C) : Leads V c [] c
  | cons {c d : C} {page : P} {walk : List (C × P)} (h : Leads V (V.next page) walk d) :
      Leads V c ((c, page) :: walk) d

variable {c : C} {recorded : List Row}

theorem Leads.append {d e : C} {walk onward : List (C × P)} (h : Leads V c walk d)
    (h' : Leads V d onward e) : Leads V c (walk ++ onward) e := by
  induction h with
  | nil => exact h'
  | cons _ ih => exact .cons (ih h')

/-- The page was read from its position, and every row of it recorded. -/
def Handled (V : Shape C P Row) (reads : List (C × Answer P)) (recorded : List Row)
    (place : C × P) : Prop :=
  (place.1, .page place.2) ∈ reads ∧ V.rows place.2 ⊆ recorded

variable {reads : List (C × Answer P)}

variable {faulted : Bool}

/-- The position a pass keeps is the head, or was reached over pages it handled. -/
theorem Reading.leads {n : Nat} {kept : C} (h : Reading V n c reads recorded faulted kept) :
    kept = V.head ∨ ∃ walk, Leads V c walk kept ∧ ∀ w ∈ walk, Handled V reads recorded w := by
  have hstay : ∀ (c : C) (reads : List (C × Answer P)) (recorded : List Row),
      ∃ walk, Leads V c walk c ∧ ∀ w ∈ walk, Handled V reads recorded w :=
    fun c _ _ => ⟨[], .nil c, fun _ hw => absurd hw not_mem_nil⟩
  induction h with
  | truncated c => exact .inr (hstay c _ _)
  | refused => exact .inl rfl
  | failed n c => exact .inr (hstay c _ _)
  | unfinished n c => exact .inr (hstay c _ _)
  | last => exact .inl rfl
  | @more n c page reads recorded faulted kept _ _ ih =>
    refine ih.imp_right ?_
    rintro ⟨walk, hwalk, hhandled⟩
    refine ⟨(c, page) :: walk, .cons hwalk, fun w hw => ?_⟩
    rcases mem_cons.mp hw with rfl | hw
    · exact ⟨mem_cons_self, subset_append_left _ _⟩
    · obtain ⟨hread, hrows⟩ := hhandled w hw
      exact ⟨mem_cons_of_mem _ hread, List.Subset.trans hrows (subset_append_right _ _)⟩

/-- A page not all of whose rows were recorded is the one the pass goes back to. -/
theorem Reading.rolled_back {n : Nat} {kept : C} (h : Reading V n c reads recorded faulted kept)
    {d : C} {page : P} (hread : (d, .page page) ∈ reads) : V.rows page ⊆ recorded ∨ kept = d := by
  induction h with
  | truncated => cases hread
  | refused | failed => simp at hread
  | unfinished n c =>
    simp only [mem_singleton, Prod.mk.injEq] at hread
    exact .inr hread.1.symm
  | last n c =>
    simp only [mem_singleton, Prod.mk.injEq, Answer.page.injEq] at hread
    obtain ⟨-, rfl⟩ := hread
    exact .inl fun _ hrow => hrow
  | more c _ _ ih =>
    rcases mem_cons.mp hread with heq | hread
    · obtain ⟨-, rfl⟩ := heq
      exact .inl (subset_append_left _ _)
    · exact (ih hread).imp_left fun hrows => List.Subset.trans hrows (subset_append_right _ _)

section Cycles

variable [DecidableEq C]

/-- The passes over a shard since the last one that started at the head. -/
def cycle (V : Shape C P Row) (shard : Nat) (passes : List (Pass C P Row)) : List (Pass C P Row) :=
  passes.foldl
    (fun cycle p =>
      if p.shard = shard then if p.start = V.head then [p] else cycle ++ [p] else cycle) []

theorem cycle_snoc (V : Shape C P Row) (shard : Nat) (passes : List (Pass C P Row))
    (p : Pass C P Row) :
    cycle V shard (passes ++ [p]) =
      if p.shard = shard then if p.start = V.head then [p] else cycle V shard passes ++ [p]
      else cycle V shard passes := by
  rw [cycle, foldl_append]
  rfl

/-- The position kept for each shard was reached from the head, over pages handled by the passes
of the shard's cycle. -/
def Reached (V : Shape C P Row) (passes : List (Pass C P Row)) (kept : Nat → C) : Prop :=
  ∀ shard, ∃ walk, Leads V V.head walk (kept shard) ∧
    ∀ w ∈ walk, ∃ p ∈ cycle V shard passes, Handled V p.reads p.recorded w

theorem Step.reached (h : Step V maxPages s p t) (hs : Reached V passes s.kept) :
    Reached V (passes ++ [p]) t.kept := by
  intro shard
  have hhead : ∃ walk, Leads V V.head walk V.head ∧
      ∀ w ∈ walk, ∃ q ∈ cycle V shard (passes ++ [p]), Handled V q.reads q.recorded w :=
    ⟨[], .nil _, fun _ hw => absurd hw not_mem_nil⟩
  rw [h.kept]
  by_cases hshard : shard = p.shard
  · subst hshard
    rw [if_pos rfl]
    rcases h.reading.leads with hkept | ⟨onward, honward, hhandled⟩
    · rw [hkept]
      exact hhead
    · rw [cycle_snoc, if_pos rfl]
      by_cases hstart : p.start = V.head
      · rw [hstart] at honward
        rw [if_pos hstart]
        exact ⟨onward, honward, fun w hw => ⟨p, mem_singleton.mpr rfl, hhandled w hw⟩⟩
      · obtain ⟨walk, hwalk, hbefore⟩ := hs p.shard
        rw [← h.start] at hwalk
        rw [if_neg hstart]
        refine ⟨walk ++ onward, hwalk.append honward, fun w hw => ?_⟩
        rcases mem_append.mp hw with hw | hw
        · obtain ⟨q, hq, hqw⟩ := hbefore w hw
          exact ⟨q, mem_append_left _ hq, hqw⟩
        · exact ⟨p, mem_concat_self, hhandled w hw⟩
  · rw [if_neg hshard]
    split
    · exact hhead
    · rw [cycle_snoc, if_neg (Ne.symm hshard)]
      exact hs shard

/-- The position kept for a shard is reached from the head over pages whose rows were all recorded
since the last pass from the head. -/
theorem History.reached (h : History V maxPages s passes t) (hs : s = State.init V) :
    Reached V passes t.kept := by
  subst hs
  induction h with
  | nil => exact fun _ => ⟨[], .nil _, fun _ hw => absurd hw not_mem_nil⟩
  | snoc _ hp ih => exact hp.reached ih

end Cycles

/-! ## What is presented again -/

/-- What the store and a sweeper tell each other about the positions of shards. -/
inductive Event (C : Type*) where
  | counted (shards : Nat)
  | presented (shard : Nat) (c : C)
  | refused (shard : Nat) (c : C)
  | issued (shard : Nat) (c : C)
deriving DecidableEq

/-- A position of a view presented and what it was answered. -/
def readEvents (V : Shape C P Row) (shard : Nat) : C × Answer P → List (Event C)
  | (c, .refused) => [.presented shard c, .refused shard c]
  | (c, .failed) => [.presented shard c]
  | (c, .page page) => [.presented shard c, .issued shard (V.next page)]

/-- The events of some passes, in order. -/
def trace (V : Shape C P Row) (passes : List (Pass C P Row)) : List (Event C) :=
  passes.flatMap fun p => .counted p.shards :: p.reads.flatMap (readEvents V p.shard)

/-- After the event the position is no longer one to present for the shard. -/
def Event.Bans (shard : Nat) (c : C) : Event C → Prop
  | .counted shards => shards ≤ shard
  | .refused s d => s = shard ∧ d = c
  | .presented _ _ => False
  | .issued _ _ => False

/-- The position was issued for the shard after every event that bans it. -/
def Standing (shard : Nat) (c : C) (events : List (Event C)) : Prop :=
  ∀ before e after, events = before ++ e :: after → e.Bans shard c → .issued shard c ∈ after

/-- A list with one more element splits in the list, or at that element. -/
theorem split_snoc {α : Type*} {l before after : List α} {a e : α}
    (h : l ++ [a] = before ++ e :: after) :
    (∃ rest, after = rest ++ [a] ∧ l = before ++ e :: rest) ∨ after = [] ∧ e = a ∧ l = before := by
  rcases eq_nil_or_concat after with rfl | ⟨rest, b, rfl⟩
  · obtain ⟨rfl, ⟨⟩⟩ := append_inj' h rfl
    exact .inr ⟨rfl, rfl, rfl⟩
  · rw [concat_eq_append, ← cons_append, ← append_assoc] at h
    obtain ⟨rfl, ⟨⟩⟩ := append_inj' h rfl
    exact .inl ⟨rest, concat_eq_append, rfl⟩

variable {events : List (Event C)}

theorem Standing.snoc {shard : Nat} {e : Event C} (h : Standing shard c events)
    (he : ¬ e.Bans shard c) : Standing shard c (events ++ [e]) := by
  intro before x after hsplit hx
  rcases split_snoc hsplit with ⟨rest, rfl, hrest⟩ | ⟨rfl, rfl, -⟩
  · exact mem_append_left _ (h before x rest hrest hx)
  · exact absurd hx he

theorem standing_issued (shard : Nat) (c : C) (events : List (Event C)) :
    Standing shard c (events ++ [.issued shard c]) := by
  intro before x after hsplit hx
  rcases split_snoc hsplit with ⟨rest, rfl, -⟩ | ⟨rfl, rfl, -⟩
  · exact mem_concat_self
  · exact absurd hx id

/-- Every position presented, other than the head, was standing when it was. -/
def Justified (V : Shape C P Row) (events : List (Event C)) : Prop :=
  ∀ before shard c after, events = before ++ .presented shard c :: after → c ≠ V.head →
    Standing shard c before

theorem Justified.snoc {e : Event C} (h : Justified V events)
    (he : ∀ shard c, e = .presented shard c → c ≠ V.head → Standing shard c events) :
    Justified V (events ++ [e]) := by
  intro before shard c after hsplit hc
  rcases split_snoc hsplit with ⟨rest, -, hrest⟩ | ⟨-, heq, rfl⟩
  · exact h before shard c rest hrest hc
  · exact he shard c heq.symm hc

/-- The two facts about the events so far while a sweeper keeps some positions. -/
structure Trusted (V : Shape C P Row) (kept : Nat → C) (events : List (Event C)) : Prop where
  justified : Justified V events
  standing : ∀ k, kept k ≠ V.head → Standing k (kept k) events

variable {kept : Nat → C}

section

variable (h : Trusted V kept events)
include h

theorem Trusted.mono (kept' : Nat → C) (hkept : ∀ k, kept' k = V.head ∨ kept' k = kept k) :
    Trusted V kept' events := by
  refine ⟨h.justified, fun k hk => ?_⟩
  rcases hkept k with hhead | hsame
  · exact absurd hhead hk
  · rw [hsame] at hk ⊢
    exact h.standing k hk

/-- A count keeps the trust in the positions of the shards there are. -/
theorem Trusted.counted (shards : Nat) (hkept : ∀ k, shards ≤ k → kept k = V.head) :
    Trusted V kept (events ++ [.counted shards]) := by
  refine ⟨h.justified.snoc fun _ _ heq => (nomatch heq), fun k hk => ?_⟩
  refine (h.standing k hk).snoc fun hban => hk (hkept k hban)

/-- Presenting the kept position of a shard is justified. -/
theorem Trusted.presented (shard : Nat) :
    Trusted V kept (events ++ [.presented shard (kept shard)]) := by
  refine ⟨h.justified.snoc ?_, fun k hk => (h.standing k hk).snoc id⟩
  rintro k c heq hc
  cases heq
  exact h.standing shard hc

/-- A refused position is given up. -/
theorem Trusted.refused {kept' : Nat → C} {shard : Nat} (hshard : kept' shard = V.head)
    (hother : ∀ k, k ≠ shard → kept' k = kept k) :
    Trusted V kept' (events ++ [.refused shard c]) := by
  refine ⟨h.justified.snoc fun _ _ heq => (nomatch heq), fun k hk => ?_⟩
  have hne : k ≠ shard := by
    rintro rfl
    exact hk hshard
  rw [hother k hne] at hk ⊢
  exact (h.standing k hk).snoc fun hban => hne hban.1.symm

/-- An issued position may be kept. -/
theorem Trusted.issued {kept' : Nat → C} {shard : Nat}
    (hshard : kept' shard = c ∨ kept' shard = kept shard)
    (hother : ∀ k, k ≠ shard → kept' k = kept k) :
    Trusted V kept' (events ++ [.issued shard c]) := by
  refine ⟨h.justified.snoc fun _ _ heq => (nomatch heq), fun k hk => ?_⟩
  by_cases hne : k = shard
  · subst hne
    rcases hshard with hc | hsame
    · rw [hc]
      exact standing_issued k c events
    · rw [hsame] at hk ⊢
      exact (h.standing k hk).snoc id
  · rw [hother k hne] at hk ⊢
    exact (h.standing k hk).snoc id

end

/-- A pass over a shard presents its start first and then only positions it was just issued. -/
theorem Reading.trusted {n : Nat} {last : C} (h : Reading V n c reads recorded faulted last)
    (shard : Nat) (hevents : Trusted V kept events) (hstart : kept shard = c) :
    Trusted V (fun k => if k = shard then last else kept k)
      (events ++ reads.flatMap (readEvents V shard)) := by
  have hother : ∀ last : C, ∀ k, k ≠ shard → (if k = shard then last else kept k) = kept k :=
    fun _ k hk => if_neg hk
  have hshard : ∀ last : C, (if shard = shard then last else kept shard) = last :=
    fun _ => if_pos rfl
  have hstay : ∀ {kept : Nat → C} {c : C}, kept shard = c →
      ∀ k, (if k = shard then c else kept k) = kept k := by
    rintro kept c rfl k
    split
    · next hk => rw [hk]
    · rfl
  induction h generalizing kept events with
  | truncated c =>
    rw [flatMap_nil, append_nil]
    exact hevents.mono _ fun k => .inr (hstay hstart k)
  | refused n c =>
    have := hevents.presented shard
    rw [hstart] at this
    simpa [readEvents] using this.refused (c := c) (hshard V.head) (hother V.head)
  | failed n c =>
    have := hevents.presented shard
    rw [hstart] at this
    simpa [readEvents] using this.mono _ fun k => .inr (hstay hstart k)
  | @unfinished n c page part rest _ =>
    have := hevents.presented shard
    rw [hstart] at this
    simpa [readEvents] using
      this.issued (c := V.next page) (.inr ((hshard c).trans hstart.symm)) (hother c)
  | @last n c page hnext =>
    have := hevents.presented shard
    rw [hstart] at this
    simpa [readEvents] using
      this.issued (c := V.next page) (.inl ((hshard V.head).trans hnext.symm)) (hother V.head)
  | @more n c page reads recorded faulted last _ _ ih =>
    have hpresented := hevents.presented shard
    rw [hstart] at hpresented
    have hissued : Trusted V (fun k => if k = shard then V.next page else kept k) _ :=
      hpresented.issued (.inl (hshard _)) (hother _)
    have := ih hissued (if_pos rfl) (fun _ k hk => if_neg hk) (fun _ => if_pos rfl)
    have hsame : (fun k => if k = shard then last else if k = shard then V.next page else kept k)
        = fun k => if k = shard then last else kept k := by
      funext k
      split <;> rfl
    rw [hsame] at this
    simpa [readEvents] using this

theorem Step.trusted (h : Step V maxPages s p t) (hs : Trusted V s.kept (trace V passes)) :
    Trusted V t.kept (trace V (passes ++ [p])) := by
  -- the positions left after the count
  have hdropped := hs.mono (fun k => if p.shards ≤ k then V.head else s.kept k) fun k => by
    split
    · exact .inl rfl
    · exact .inr rfl
  have hcounted := hdropped.counted p.shards fun k hk => if_pos hk
  have hstart : (if p.shards ≤ p.shard then V.head else s.kept p.shard) = p.start := by
    rw [if_neg (Nat.not_le.mpr h.shard_lt), h.start]
  have htrusted := (h.reading.trusted p.shard hcounted hstart).mono _ fun k => .inr (h.kept k)
  simpa [trace] using htrusted

/-- A position that was refused, or whose shard was gone, is presented again only after the store
issued it again. -/
theorem History.standing (h : History V maxPages s passes t) (hs : s = State.init V) :
    Trusted V t.kept (trace V passes) := by
  subst hs
  induction h with
  | nil =>
    refine ⟨?_, fun k hk => absurd rfl hk⟩
    intro before shard c after hsplit
    cases before <;> cases hsplit
  | snoc _ hp ih => exact hp.trusted ih

end Paging
