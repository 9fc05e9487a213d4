import Mathlib.Data.List.Perm.Subperm
import Mathlib.Data.List.Nodup
import Mathlib.Data.List.Range
import Mathlib.Data.Nat.ModEq
import Factory.Lib.Paging
import Factory.Lib.Walk

/-!
# Cycles of a sweeper

While the number of shards stays the same the shards are taken in turn, so that as many
consecutive passes as there are shards take each of them once (`History.window_perm`). The passes
over one shard follow on each other (`Consecutive`); while its view does not change and nothing
faults they read it from the head to its end in as many passes as its pages need
(`Consecutive.leg`), and then again (`Consecutive.cycles`).

`LosesNoRow` and `CoversViews` collect what holds of every history of a sweeper.
-/

namespace Paging

open List

variable {C P Row : Type*}

/-! ## The order of the shards -/

variable {V : Shape C P Row} {maxPages : Nat} {t : State C}

variable {s : State C} {n : Nat}

theorem History.split {xs ys : List (Pass C P Row)} (h : History V maxPages s (xs ++ ys) t) :
    ∃ u, History V maxPages s xs u ∧ History V maxPages u ys t := by
  induction ys using List.reverseRecOn generalizing t with
  | nil =>
    rw [append_nil] at h
    exact ⟨t, h, .nil t⟩
  | append_singleton ys p ih =>
    rw [← append_assoc] at h
    generalize hall : xs ++ ys ++ [p] = all at h
    cases h with
    | nil => simp at hall
    | snoc h hp =>
      obtain ⟨rfl, ⟨⟩⟩ := append_inj' hall rfl
      obtain ⟨u, hxs, hys⟩ := ih h
      exact ⟨u, hxs, .snoc hys hp⟩

/-- The shard a state takes next when there are `n`. -/
def State.turn (s : State C) (n : Nat) : Nat := if n ≤ s.next then 0 else s.next

theorem State.turn_mod (s : State C) (n : Nat) : s.turn n % n = s.turn n := by
  unfold turn
  split
  · exact Nat.zero_mod n
  · exact Nat.mod_eq_of_lt (by omega)

variable {passes : List (Pass C P Row)}

/-- With `n` shards all along, the shards are taken in turn. -/
theorem History.shards_in_turn (h : History V maxPages s passes t)
    (hn : ∀ p ∈ passes, p.shards = n) :
    passes.map (·.shard) = (List.range passes.length).map (fun i => (s.turn n + i) % n) ∧
      t.turn n = (s.turn n + passes.length) % n := by
  induction h with
  | nil => exact ⟨rfl, (s.turn_mod n).symm⟩
  | @snoc t u passes p _ hp ih =>
    obtain ⟨hmap, hturn⟩ := ih fun q hq => hn q (mem_append_left _ hq)
    have hcount : p.shards = n := hn p mem_concat_self
    have hshard : p.shard = (s.turn n + passes.length) % n := by
      rw [hp.shard, hcount, ← hturn]
      rfl
    constructor
    · rw [length_append, length_singleton, range_succ, map_append, map_append, hmap]
      simp only [map_cons, map_nil, hshard]
    · have hnext : u.next = (p.shard + 1) % n := by rw [hp.next, hcount]
      have hlt : u.next < n := by
        rw [hnext]
        exact Nat.mod_lt _ (hcount ▸ hp.shards_pos)
      rw [State.turn, if_neg (Nat.not_le.mpr hlt), hnext, hshard, Nat.mod_add_mod,
        length_append, length_singleton, Nat.add_assoc]

/-- The numbers below `n` in turn, from any of them on. -/
theorem range_turn_perm (a n : Nat) :
    ((List.range n).map fun i => (a + i) % n).Perm (List.range n) := by
  have hnodup : ((List.range n).map fun i => (a + i) % n).Nodup := by
    refine List.Nodup.map_on (fun i hi j hj heq => ?_) nodup_range
    rw [mem_range] at hi hj
    have : i ≡ j [MOD n] := Nat.ModEq.add_left_cancel' a heq
    exact Nat.ModEq.eq_of_lt_of_lt this hi hj
  have hsub : ((List.range n).map fun i => (a + i) % n) ⊆ List.range n := by
    intro x hx
    obtain ⟨i, hi, rfl⟩ := mem_map.mp hx
    rw [mem_range] at hi ⊢
    exact Nat.mod_lt _ (by omega)
  exact (hnodup.subperm hsub).perm_of_length_le (by simp)

/-- As many passes in a row as there are shards take each shard once. -/
theorem History.window_perm {before window after : List (Pass C P Row)}
    (h : History V maxPages s (before ++ window ++ after) t)
    (hn : ∀ p ∈ before ++ window ++ after, p.shards = n) (hlength : window.length = n) :
    (window.map (·.shard)).Perm (List.range n) := by
  obtain ⟨u, hbefore, -⟩ := h.split
  obtain ⟨v, -, hwindow⟩ := hbefore.split
  have hcounts : ∀ p ∈ window, p.shards = n := fun p hp =>
    hn p (mem_append_left _ (mem_append_right _ hp))
  rw [(hwindow.shards_in_turn hcounts).1, hlength]
  exact range_turn_perm _ _

/-! ## The passes over one shard -/

/-- The passes over one shard, in order. -/
def passesOver (shard : Nat) (passes : List (Pass C P Row)) : List (Pass C P Row) :=
  passes.filter (·.shard = shard)

/-- Passes each of which starts where the one before it stopped. -/
inductive Consecutive (V : Shape C P Row) (maxPages : Nat) : C → List (Pass C P Row) → C → Prop
  | nil (c : C) : Consecutive V maxPages c [] c
  | cons {c d : C} {p : Pass C P Row} {rest : List (Pass C P Row)} (hstart : p.start = c)
      (hreading : Reading V maxPages p.start p.reads p.recorded p.faulted p.kept)
      (h : Consecutive V maxPages p.kept rest d) : Consecutive V maxPages c (p :: rest) d

theorem Consecutive.snoc {c d : C} (h : Consecutive V maxPages c passes d) {p : Pass C P Row}
    (hstart : p.start = d)
    (hreading : Reading V maxPages p.start p.reads p.recorded p.faulted p.kept) :
    Consecutive V maxPages c (passes ++ [p]) p.kept := by
  induction h with
  | nil => exact .cons hstart hreading (.nil _)
  | cons hs hr _ ih => exact .cons hs hr (ih hstart)

theorem Consecutive.rest {c d : C} {before after : List (Pass C P Row)}
    (h : Consecutive V maxPages c (before ++ after) d) : ∃ e, Consecutive V maxPages e after d := by
  induction before generalizing c with
  | nil => exact ⟨c, h⟩
  | cons p before ih =>
    cases h with
    | cons _ _ h => exact ih h

theorem Consecutive.start_eq {c d : C} {p : Pass C P Row} {rest : List (Pass C P Row)}
    (h : Consecutive V maxPages c (p :: rest) d) : p.start = c := by
  cases h with
  | cons hstart _ _ => exact hstart

/-- While the shard exists, its passes start where the one before them stopped. -/
theorem History.consecutive {shard : Nat} (h : History V maxPages s passes t)
    (hn : ∀ p ∈ passes, p.shards = n) (hshard : shard < n) :
    Consecutive V maxPages (s.kept shard) (passesOver shard passes) (t.kept shard) := by
  induction h with
  | nil => exact .nil _
  | @snoc t u passes p _ hp ih =>
    have ih := ih fun q hq => hn q (mem_append_left _ hq)
    have hcount : p.shards = n := hn p mem_concat_self
    have hkept := hp.kept shard
    rw [passesOver, filter_append]
    by_cases hp' : p.shard = shard
    · subst hp'
      rw [if_pos rfl] at hkept
      rw [hkept, filter_cons_of_pos (by simp)]
      exact ih.snoc hp.start hp.reading
    · rw [if_neg (Ne.symm hp'), if_neg (by omega)] at hkept
      rw [hkept, filter_cons_of_neg (by simpa using hp'), filter_nil, append_nil]
      exact ih

/-! ## Passes over a view that does not change -/

section View

variable [DecidableEq C]

/-- The position after another one in a view, unless it is the last. -/
def Shape.after (V : Shape C P Row) (view : C → P) (c : C) : Option C :=
  if V.next (view c) = V.head then none else some (V.next (view c))

omit [DecidableEq C] in
/-- Nothing faulted, and the pages read were the view's. -/
def Pass.Quiet (view : C → P) (p : Pass C P Row) : Prop :=
  p.faulted = false ∧ ∀ r ∈ p.reads, r.2 = .page (view r.1)

instance [DecidableEq P] (view : C → P) (p : Pass C P Row) : Decidable (p.Quiet view) :=
  inferInstanceAs (Decidable (_ ∧ _))

/-- The pages of some positions, as they are read. -/
def readsOf (view : C → P) (places : List C) : List (C × Answer P) :=
  places.map fun c => (c, .page (view c))

/-- The rows of the pages at some positions. -/
def rowsOf (V : Shape C P Row) (view : C → P) (places : List C) : List Row :=
  places.flatMap fun c => V.rows (view c)

/-- As many passes as it takes to read so many pages: the quotient, rounded up. -/
def passesFor (pages maxPages : Nat) : Nat := (pages + maxPages - 1) / maxPages

theorem passesFor_le {pages : Nat} (hpos : 0 < pages) (hle : pages ≤ maxPages) :
    passesFor pages maxPages = 1 := by
  unfold passesFor
  rw [Nat.div_eq_iff (by omega)]
  omega

theorem passesFor_gt {pages : Nat} (hpos : 0 < maxPages) (hlt : maxPages < pages) :
    passesFor pages maxPages = passesFor (pages - maxPages) maxPages + 1 := by
  unfold passesFor
  rw [← Nat.add_div_right _ hpos]
  congr 1
  omega

theorem passesFor_pos {pages : Nat} (hpages : 0 < pages) (hpos : 0 < maxPages) :
    0 < passesFor pages maxPages := by
  rcases Nat.lt_or_ge maxPages pages with hlt | hge
  · rw [passesFor_gt hpos hlt]
    omega
  · rw [passesFor_le hpages hge]
    omega

/-- What a pass without a fault does over a view from a place with so many places left. -/
structure Stretch (V : Shape C P Row) (view : C → P) (n : Nat) (places : List C)
    (reads : List (C × Answer P)) (recorded : List Row) (kept : C) : Prop where
  reads : reads = readsOf view (places.take n)
  recorded : recorded = rowsOf V view (places.take n)
  ended : places.length ≤ n → kept = V.head
  left : n < places.length → Walk.Visits (V.after view) (some kept) (places.drop n) none
  inside : 0 < n → n < places.length → kept ≠ V.head

variable {places : List C} {view : C → P}

theorem Reading.quiet {c kept : C} {reads : List (C × Answer P)} {recorded : List Row}
    {faulted : Bool} (h : Reading V n c reads recorded faulted kept) (hfault : faulted = false)
    (hview : ∀ r ∈ reads, r.2 = .page (view r.1))
    (hplaces : Walk.Visits (V.after view) (some c) places none) :
    Stretch V view n places reads recorded kept := by
  induction h generalizing places with
  | truncated c =>
    refine ⟨rfl, rfl, fun hle => ?_, fun _ => hplaces, fun hpos => absurd hpos (by omega)⟩
    cases hplaces
    rw [length_cons] at hle
    omega
  | refused | failed | unfinished => cases hfault
  | @last n c page hnext =>
    have hpage : page = view c := Answer.page.inj (hview _ mem_cons_self)
    subst hpage
    cases hplaces with
    | @cons c places _ hrest =>
      rw [Shape.after, if_pos hnext] at hrest
      cases hrest
      exact ⟨by simp [readsOf], by simp [rowsOf], fun _ => rfl, fun hlt => by simp at hlt,
        fun _ hlt => by simp at hlt⟩
  | @more n c page reads recorded faulted kept hnext hreading ih =>
    have hpage : page = view c := Answer.page.inj (hview _ mem_cons_self)
    subst hpage
    cases hplaces with
    | @cons c places _ hrest =>
      rw [Shape.after, if_neg hnext] at hrest
      have hstretch := ih hfault (forall_mem_cons.mp hview).2 hrest
      refine ⟨?_, ?_, fun hle => hstretch.ended ?_, fun hlt => hstretch.left ?_, fun _ hlt => ?_⟩
      · rw [take_succ_cons, hstretch.reads]
        rfl
      · rw [take_succ_cons, hstretch.recorded]
        rfl
      · exact Nat.le_of_succ_le_succ hle
      · exact Nat.lt_of_succ_lt_succ hlt
      · -- a pass that goes on from a position inside the view stops inside it
        rcases Nat.eq_zero_or_pos n with hn | hn
        · subst hn
          cases hreading
          exact hnext
        · exact hstretch.inside hn (Nat.lt_of_succ_lt_succ hlt)

/-- The passes over a view from one of its places, up to its end. -/
structure Leg (V : Shape C P Row) (maxPages : Nat) (view : C → P) (places : List C)
    (passes : List (Pass C P Row)) (d : C) : Prop where
  reads : passesFor places.length maxPages ≤ passes.length →
    (passes.take (passesFor places.length maxPages)).flatMap (·.reads) = readsOf view places
  recorded : passesFor places.length maxPages ≤ passes.length →
    (passes.take (passesFor places.length maxPages)).flatMap (·.recorded) = rowsOf V view places
  inside : ∀ k p, 0 < k → k < passesFor places.length maxPages → passes[k]? = some p →
    p.start ≠ V.head
  ended : passesFor places.length maxPages ≤ passes.length →
    Consecutive V maxPages V.head (passes.drop (passesFor places.length maxPages)) d

theorem Consecutive.leg {c d : C} (h : Consecutive V maxPages c passes d) (hpos : 0 < maxPages)
    (hquiet : ∀ p ∈ passes, p.Quiet view)
    (hplaces : Walk.Visits (V.after view) (some c) places none) :
    Leg V maxPages view places passes d := by
  have hsome : ∀ {c : C} {places : List C}, Walk.Visits (V.after view) (some c) places none →
      0 < places.length := by
    intro c places h
    cases h
    exact Nat.succ_pos _
  induction h generalizing places with
  | nil c =>
    have hT := passesFor_pos (hsome hplaces) hpos
    refine ⟨fun hle => ?_, fun hle => ?_, fun k p _ _ hp => ?_, fun hle => ?_⟩
    · exact absurd hle (Nat.not_le.mpr hT)
    · exact absurd hle (Nat.not_le.mpr hT)
    · cases hp
    · exact absurd hle (Nat.not_le.mpr hT)
  | @cons c d p rest hstart hreading hrest ih =>
    obtain ⟨hfault, hview⟩ := hquiet p mem_cons_self
    rw [hstart] at hreading
    have hstretch := hreading.quiet hfault hview hplaces
    rcases Nat.lt_or_ge maxPages places.length with hlt | hge
    · -- the pass stops inside the view, and the rest of the passes read the rest of it
      have hleg := ih (forall_mem_cons.mp hquiet).2 (hstretch.left hlt)
      have hT := passesFor_gt hpos hlt
      rw [← length_drop] at hT
      constructor <;> rw [hT]
      · intro hle
        rw [take_succ_cons, flatMap_cons, hleg.reads (Nat.le_of_succ_le_succ hle),
          hstretch.reads, readsOf, readsOf, readsOf, ← map_append, take_append_drop]
      · intro hle
        rw [take_succ_cons, flatMap_cons, hleg.recorded (Nat.le_of_succ_le_succ hle),
          hstretch.recorded, rowsOf, rowsOf, rowsOf, ← flatMap_append, take_append_drop]
      · intro k q hk hkT hq
        cases k with
        | zero => omega
        | succ k =>
          rcases Nat.eq_zero_or_pos k with rfl | hk
          · cases hrest with
            | nil => cases hq
            | cons hs _ _ =>
              cases hq
              rw [hs]
              exact hstretch.inside hpos hlt
          · exact hleg.inside k q hk (by omega) hq
      · intro hle
        exact hleg.ended (Nat.le_of_succ_le_succ hle)
    · -- the pass reads the view to its end
      have hT := passesFor_le (hsome hplaces) hge
      have htake : places.take maxPages = places := take_of_length_le hge
      constructor <;> rw [hT]
      · intro _
        rw [take_succ_cons, take_zero, flatMap_cons, flatMap_nil, append_nil, hstretch.reads, htake]
      · intro _
        rw [take_succ_cons, take_zero, flatMap_cons, flatMap_nil,
          append_nil, hstretch.recorded, htake]
      · intro k q hk hkT
        omega
      · intro _
        rw [hstretch.ended hge] at hrest
        exact hrest

/-- Passes over a shard that read its view in whole cycles from the head: each cycle takes the
passes its pages need, reads every page of the view once and records every row of it once. -/
structure Cycles (V : Shape C P Row) (maxPages : Nat) (view : C → P) (places : List C)
    (passes : List (Pass C P Row)) : Prop where
  starts : ∀ k p, passes[k]? = some p →
    (p.start = V.head ↔ k % passesFor places.length maxPages = 0)
  reads : ∀ j, (j + 1) * passesFor places.length maxPages ≤ passes.length →
    ((passes.drop (j * passesFor places.length maxPages)).take
      (passesFor places.length maxPages)).flatMap (·.reads) = readsOf view places
  recorded : ∀ j, (j + 1) * passesFor places.length maxPages ≤ passes.length →
    ((passes.drop (j * passesFor places.length maxPages)).take
      (passesFor places.length maxPages)).flatMap (·.recorded) = rowsOf V view places

theorem Consecutive.cycles {d : C} (h : Consecutive V maxPages V.head passes d)
    (hpos : 0 < maxPages) (hquiet : ∀ p ∈ passes, p.Quiet view)
    (hplaces : Walk.Visits (V.after view) (some V.head) places none) :
    Cycles V maxPages view places passes := by
  have hT : 0 < passesFor places.length maxPages := by
    refine passesFor_pos ?_ hpos
    cases hplaces
    exact Nat.succ_pos _
  generalize hTdef : passesFor places.length maxPages = T at hT
  have hquietFrom : ∀ j, ∀ p ∈ passes.drop j, p.Quiet view :=
    fun j p hp => hquiet p (mem_of_mem_drop hp)
  -- every cycle starts at the head
  have hfrom : ∀ j, j * T ≤ passes.length →
      Consecutive V maxPages V.head (passes.drop (j * T)) d := by
    intro j
    induction j with
    | zero =>
      intro _
      rwa [Nat.zero_mul, drop_zero]
    | succ j ih =>
      intro hj
      rw [Nat.succ_mul] at hj ⊢
      have hleg := (ih (by omega)).leg hpos (hquietFrom _) hplaces
      have hended := hleg.ended (by rw [length_drop]; omega)
      rwa [drop_drop, hTdef] at hended
  have hwhole : ∀ j, (j + 1) * T ≤ passes.length →
      Leg V maxPages view places (passes.drop (j * T)) d ∧ T ≤ (passes.drop (j * T)).length := by
    intro j hj
    rw [Nat.succ_mul] at hj
    refine ⟨(hfrom j (by omega)).leg hpos (hquietFrom _) hplaces, ?_⟩
    rw [length_drop]
    omega
  constructor
  · intro k p hp
    rw [hTdef]
    obtain ⟨hk, -⟩ := List.getElem?_eq_some_iff.mp hp
    have hdiv : k / T * T ≤ k := Nat.div_mul_le_self k T
    have hindex : (passes.drop (k / T * T))[k % T]? = some p := by
      rw [getElem?_drop, Nat.div_add_mod']
      exact hp
    have hfrom := hfrom (k / T) (by omega)
    constructor
    · intro hstart
      by_contra hne
      have hleg := hfrom.leg hpos (hquietFrom _) hplaces
      exact hleg.inside (k % T) p (by omega) (by rw [hTdef]; exact Nat.mod_lt k hT) hindex hstart
    · intro hzero
      rw [hzero] at hindex
      generalize passes.drop (k / T * T) = later at hfrom hindex
      cases later with
      | nil => cases hindex
      | cons q later =>
        cases hindex
        exact hfrom.start_eq
  · intro j hj
    rw [hTdef] at hj ⊢
    obtain ⟨hleg, hlength⟩ := hwhole j hj
    have hreads := hleg.reads
    rw [hTdef] at hreads
    exact hreads hlength
  · intro j hj
    rw [hTdef] at hj ⊢
    obtain ⟨hleg, hlength⟩ := hwhole j hj
    have hrecorded := hleg.recorded
    rw [hTdef] at hrecorded
    exact hrecorded hlength

/-! ## What holds of every history -/

/-- What a sweeper's passes never lose, whatever faults they met. -/
structure LosesNoRow (V : Shape C P Row) (passes : List (Pass C P Row)) (kept : Nat → C) :
    Prop where
  /-- The pages before a kept position were handled in the shard's cycle. -/
  reached : Reached V passes kept
  /-- A pass goes back to a page it left a row of unrecorded. -/
  rolledBack : ∀ p ∈ passes, ∀ c page, (c, .page page) ∈ p.reads →
    V.rows page ⊆ p.recorded ∨ p.kept = c
  /-- A refused continuation is presented again only after it was issued again. -/
  refused : ∀ before shard c between after,
    trace V passes = before ++ .refused shard c :: (between ++ .presented shard c :: after) →
      c ≠ V.head → .issued shard c ∈ between
  /-- A position is not presented after a count that leaves out its shard, unless it was issued
  after that count. -/
  excluded : ∀ before shards shard c between after,
    trace V passes = before ++ .counted shards :: (between ++ .presented shard c :: after) →
      shards ≤ shard → c ≠ V.head → .issued shard c ∈ between

theorem History.losesNoRow (h : History V maxPages (State.init V) passes t) :
    LosesNoRow V passes t.kept := by
  have hjustified := (h.standing rfl).justified
  refine ⟨h.reached rfl, fun p hp c page hread => ?_, ?_, ?_⟩
  · obtain ⟨_, _, hstep⟩ := h.step_of_mem hp
    exact hstep.reading.rolled_back hread
  · intro before shard c between after htrace hc
    have hstanding := hjustified (before ++ .refused shard c :: between) shard c after
      (by rw [htrace, append_assoc, cons_append]) hc
    exact hstanding before _ between rfl ⟨rfl, rfl⟩
  · intro before shards shard c between after htrace hle hc
    have hstanding := hjustified (before ++ .counted shards :: between) shard c after
      (by rw [htrace, append_assoc, cons_append]) hc
    exact hstanding before _ between rfl hle

/-- What a sweeper covers while the number of shards is `n`, from the positions `kept` on. -/
structure CoversViews (V : Shape C P Row) (maxPages n : Nat) (kept : Nat → C)
    (passes : List (Pass C P Row)) : Prop where
  /-- Every `n` passes in a row take each shard once. -/
  windows : ∀ before window after, passes = before ++ window ++ after → window.length = n →
    (window.map (·.shard)).Perm (List.range n)
  /-- From the first pass over the shard at the head on, its view is read in whole cycles. -/
  cycles : ∀ shard view places, (∀ p ∈ passesOver shard passes, p.Quiet view) →
    Walk.Visits (V.after view) (some V.head) places none →
    ∀ earlier p later, passesOver shard passes = earlier ++ p :: later → p.start = V.head →
      Cycles V maxPages view places (p :: later)
  /-- There is such a pass once the continuation of the kept position was read to its end. -/
  resumes : ∀ shard view places, (∀ p ∈ passesOver shard passes, p.Quiet view) →
    Walk.Visits (V.after view) (some (kept shard)) places none →
    ∀ p, (passesOver shard passes)[passesFor places.length maxPages]? = some p → p.start = V.head

theorem History.coversViews (h : History V maxPages s passes t) (hn : ∀ p ∈ passes, p.shards = n)
    (hpos : 0 < maxPages) : CoversViews V maxPages n s.kept passes := by
  -- a shard some pass took is one of the `n`
  have hlt : ∀ shard, passesOver shard passes ≠ [] → shard < n := by
    intro shard hne
    obtain ⟨p, hp⟩ := exists_mem_of_ne_nil _ hne
    obtain ⟨hmem, hshard⟩ := mem_filter.mp hp
    obtain ⟨_, _, hstep⟩ := h.step_of_mem hmem
    have hshards := hstep.shard_lt
    rw [hn p hmem] at hshards
    have : p.shard = shard := by simpa using hshard
    omega
  refine ⟨?_, ?_, ?_⟩
  · rintro before window after rfl hlength
    exact h.window_perm hn hlength
  · intro shard view places hquiet hplaces earlier p later hover hstart
    have hconsecutive := h.consecutive hn (hlt shard (by rw [hover]; simp))
    rw [hover] at hconsecutive hquiet
    obtain ⟨e, hrest⟩ := hconsecutive.rest
    rw [← hrest.start_eq, hstart] at hrest
    exact hrest.cycles hpos (fun q hq => hquiet q (mem_append_right _ hq)) hplaces
  · intro shard view places hquiet hplaces p hp
    obtain ⟨hlength, -⟩ := List.getElem?_eq_some_iff.mp hp
    have hconsecutive := h.consecutive hn
      (hlt shard fun hnil => by rw [hnil] at hlength; exact absurd hlength (Nat.not_lt_zero _))
    have hended := (hconsecutive.leg hpos hquiet hplaces).ended (Nat.le_of_lt hlength)
    generalize hlater :
      (passesOver shard passes).drop (passesFor places.length maxPages) = later at hended
    have hfirst : later[0]? = some p := by
      rw [← hlater, getElem?_drop]
      exact hp
    cases later with
    | nil => cases hfirst
    | cons q later =>
      cases hfirst
      exact hended.start_eq

end View

end Paging
