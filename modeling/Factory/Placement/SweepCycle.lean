import Factory.Lib.Walk
import Factory.Placement.SweepCoverage

/-!
# Cycles of the placement sweep

A cycle follows the positions of a due view from its head to its end, over as many passes as
it takes. `Covers` says what holds of the position kept for a shard while the view does not
change: every page before it was read by a pass that handed over all of its sessions that
need a Host. A pass that is not interrupted keeps it (`Covers.step`), so a cycle in which no
pass is interrupted misses no session.
-/

namespace Factory.Placement

open List

/-! ## Cycles over an unchanging view -/

/-- The pages a pass read over a shard are those of the view. -/
def Pass.Unchanging (pass : Pass) (view : Cursor → DuePage) (shard : Nat) : Prop :=
  pass.shard = shard → ∀ r ∈ pass.collected.read, r.2 = view r.1

/-- The pass read the last page of its shard's view. -/
def Pass.ReachedEnd (pass : Pass) : Prop :=
  pass.collected.fault = none ∧ pass.collected.cursor = ""

/-- The position of the `i`-th page of a view. -/
def pageAt (view : Cursor → DuePage) (i : Nat) : Option Cursor :=
  Walk.place (fun c => (view c).after) "" i

/-- Some pass over the shard read the page and handed every session with a command on it
that needs a Host, at the pass's clock, to the placer. -/
def HandledIn (view : Cursor → DuePage) (shard : Nat) (passes : List Pass) (c : Cursor) : Prop :=
  ∃ pass ∈ passes, pass.shard = shard ∧ c ∈ pass.collected.read.map (·.1) ∧
    ∀ e ∈ (view c).commands, e.needsHost pass.now = true → e.key ∈ pass.handed

variable {view : Cursor → DuePage}

theorem HandledIn.append {shard : Nat} {passes : List Pass} {c : Cursor}
    (h : HandledIn view shard passes c) (later : List Pass) :
    HandledIn view shard (passes ++ later) c := by
  obtain ⟨pass, hmem, hrest⟩ := h
  exact ⟨pass, mem_append_left _ hmem, hrest⟩

/-- Pages read one after the other visit the view in its order. -/
theorem Reads.visits {a o : Option Cursor} {read : List (Cursor × DuePage)} (h : Reads a read o)
    (hview : ∀ r ∈ read, r.2 = view r.1) :
    Walk.Visits (fun c => (view c).after) a (read.map (·.1)) o := by
  induction h with
  | nil o => exact .nil o
  | @cons c page rest o _ ih =>
    have hpage : page = view c := hview (c, page) mem_cons_self
    have hrest := ih (forall_mem_cons.mp hview).2
    rw [hpage] at hrest
    exact .cons hrest

/-- The invariant of a cycle: the position kept for the shard is a page of the view, and
every page before it was handled; and once a pass reached the end, every page was. -/
structure Covers (view : Cursor → DuePage) (shard : Nat) (σ : Sweeps) : Prop where
  kept : ∃ i, pageAt view i = some (σ.sweeper.cursors shard) ∧
    ∀ j < i, ∀ c, pageAt view j = some c → HandledIn view shard σ.passes c
  ended : ∀ pass ∈ σ.passes, pass.shard = shard → pass.ReachedEnd →
    ∀ j c, pageAt view j = some c → HandledIn view shard σ.passes c

theorem covers_init (view : Cursor → DuePage) (shard : Nat) : Covers view shard {} where
  kept := ⟨0, rfl, fun j hj => absurd hj (Nat.not_lt_zero j)⟩
  ended _ hmem := absurd hmem not_mem_nil

variable {cfg : PendingSweeperConfig}

theorem begin_cursors {s s₁ : PendingSweeper} {shards shard : Nat} {start : Cursor}
    (h : s.begin cfg shards = some (shard, start, s₁)) :
    start = s₁.cursors shard ∧ ∀ k, s₁.cursors k = "" ∨ s₁.cursors k = s.cursors k := by
  unfold PendingSweeper.begin at h
  split at h
  · cases h
  · cases h
    refine ⟨rfl, fun k => ?_⟩
    dsimp only
    split
    · exact .inl rfl
    · exact .inr rfl

variable {input : SweepInput} {s' : PendingSweeper}

theorem SweepSpec.handled {s : PendingSweeper} {pass : Pass} (h : SweepSpec cfg s input s' pass)
    (hun : Uninterrupted cfg input) (hfault : pass.collected.fault ≠ some .refusedCursor)
    (hview : ∀ r ∈ pass.collected.read, r.2 = view r.1) {c : Cursor}
    (hc : c ∈ pass.collected.read.map (·.1)) :
    ∀ e ∈ (view c).commands, e.needsHost pass.now = true → e.key ∈ pass.handed := by
  intro e he hneeds
  obtain ⟨r, hr, rfl⟩ := mem_map.mp hc
  rw [← hview r hr] at he
  have hinv := inventory_spec input.now (entriesOf (pagesOf input.pages cfg.maxPages 0))
  have hentry : e ∈ entriesOf (pagesOf input.pages cfg.maxPages 0) := by
    rw [← h.pages]
    exact mem_flatMap.mpr ⟨r.2, mem_map_of_mem hr, he⟩
  obtain ⟨t, ht, hkey⟩ := hinv.listed e hentry
  have hall := (h.stepsOverNothing_iff hfault).mp (h.uninterrupted_iff.mpr hun)
  rw [← hkey]
  refine hall t (mem_filter.mpr ⟨ht, (hinv.needs t ht).mpr ⟨e, hentry, hkey.symm, ?_⟩⟩)
  rw [← h.now]
  exact hneeds

/-- A pass that reached the end of the view is at no further position. -/
theorem SweepSpec.end_reached {s : PendingSweeper} {pass : Pass} (h : SweepSpec cfg s input s' pass)
    (hend : pass.ReachedEnd) {o : Option Cursor}
    (hreads : Reads (some pass.start) pass.collected.read o)
    (hcursor : pass.collected.cursor = o.getD "") : o = none := by
  have hpages : pagesOf input.pages cfg.maxPages 0 ≠ [] := by
    have hfault := h.collected.fault
    rw [hend.1] at hfault
    intro hnil
    have hpos := cfg.maxPages_pos
    generalize cfg.maxPages = n at hnil hpos hfault
    cases n with
    | zero => omega
    | succ n =>
      unfold faultOf at hfault
      unfold pagesOf at hnil
      split at hnil <;> simp_all
  cases hlast : pass.collected.read.getLast? with
  | none =>
    rw [getLast?_eq_none_iff] at hlast
    rw [← h.pages, hlast] at hpages
    exact absurd rfl hpages
  | some last =>
    have hafter := hreads.last hlast
    rw [hend.2, ← hafter, DuePage.after_getD] at hcursor
    rw [← hafter, DuePage.after, if_pos hcursor.symm]

theorem Covers.pass {σ : Sweeps} {pass : Pass} (hcov : Covers view pass.shard σ)
    (h : SweepSpec cfg σ.sweeper input s' pass) (hun : Uninterrupted cfg input)
    (hview : pass.Unchanging view pass.shard) :
    Covers view pass.shard { sweeper := s', passes := σ.passes ++ [pass] } := by
  obtain ⟨s₁, hbegin, -⟩ := h.begun
  obtain ⟨hstart, hdropped⟩ := begin_cursors hbegin
  obtain ⟨read, o, hread, -, hreads, hrefused, hkept, -⟩ := h.collected.read
  have hread' : pass.collected.read = read := hread
  subst hread'
  have hvisits := hreads.visits (hview rfl)
  -- the place the pass starts at, with everything before it handled
  obtain ⟨i, hi, hbefore⟩ : ∃ i, pageAt view i = some pass.start ∧
      ∀ j < i, ∀ c, pageAt view j = some c → HandledIn view pass.shard σ.passes c := by
    rcases hdropped pass.shard with hempty | hsame
    · refine ⟨0, ?_, fun j hj => absurd hj (Nat.not_lt_zero j)⟩
      rw [hstart, hempty]
      rfl
    · rw [hstart, hsame]
      exact hcov.kept
  have hreached : pageAt view (i + _) = o := hvisits.reached hi
  have hhandled : pass.collected.fault ≠ some .refusedCursor →
      ∀ j < i + (pass.collected.read.map (·.1)).length, ∀ c, pageAt view j = some c →
        HandledIn view pass.shard (σ.passes ++ [pass]) c := by
    intro hfault j hj c hc
    by_cases hij : j < i
    · exact (hbefore j hij c hc).append _
    · have hmem := hvisits.place_mem hi (by omega) hj hc
      exact ⟨pass, by simp, rfl, hmem, h.handled hun hfault (hview rfl) hmem⟩
  have hhead : ∃ i, pageAt view i = some "" ∧ ∀ j < i, ∀ c, pageAt view j = some c →
      HandledIn view pass.shard (σ.passes ++ [pass]) c :=
    ⟨0, rfl, fun j hj => absurd hj (Nat.not_lt_zero j)⟩
  constructor
  · rw [h.kept]
    by_cases hfault : pass.collected.fault = some .refusedCursor
    · rw [(hrefused hfault).1]
      exact hhead
    · rw [hkept hfault]
      cases o with
      | none => exact hhead
      | some c => exact ⟨_, hreached, hhandled hfault⟩
  · intro p hp hshard hend j c hc
    rcases mem_append.mp hp with hp | hp
    · exact (hcov.ended p hp hshard hend j c hc).append _
    · rw [mem_singleton] at hp
      subst hp
      have hfault : p.collected.fault ≠ some .refusedCursor := by simp [hend.1]
      have hnone := h.end_reached hend hreads (hkept hfault)
      rcases Nat.lt_or_ge j (i + (p.collected.read.map (·.1)).length) with hj | hj
      · exact hhandled hfault j hj c hc
      · rw [hnone] at hreached
        have hpast := Walk.place_none_of_le hreached hj
        rw [pageAt, hpast] at hc
        cases hc

theorem Covers.other {shard : Nat} {σ : Sweeps} {pass : Pass} (hcov : Covers view shard σ)
    (h : SweepSpec cfg σ.sweeper input s' pass) (hne : pass.shard ≠ shard) :
    Covers view shard { sweeper := s', passes := σ.passes ++ [pass] } := by
  obtain ⟨s₁, hbegin, rfl⟩ := h.begun
  obtain ⟨-, hdropped⟩ := begin_cursors hbegin
  have hcursor : (s₁.commit pass.shard pass.collected.cursor).cursors shard = s₁.cursors shard := by
    simp [PendingSweeper.commit, Ne.symm hne]
  constructor
  · rw [hcursor]
    rcases hdropped shard with hempty | hsame
    · rw [hempty]
      exact ⟨0, rfl, fun j hj => absurd hj (Nat.not_lt_zero j)⟩
    · rw [hsame]
      obtain ⟨i, hi, hbefore⟩ := hcov.kept
      exact ⟨i, hi, fun j hj c hc => (hbefore j hj c hc).append _⟩
  · intro p hp hshard hend j c hc
    rcases mem_append.mp hp with hp | hp
    · exact (hcov.ended p hp hshard hend j c hc).append _
    · rw [mem_singleton] at hp
      subst hp
      exact absurd hshard hne

theorem Covers.step {shard : Nat} {σ σ' : Sweeps}
    (hun : ∀ pass, (σ.sweeper.sweep cfg input).2 = some pass → pass.shard = shard → Uninterrupted
      cfg input) (hstep : Sweeps.step cfg σ input = some σ')
    (hcov : (∀ pass ∈ σ.passes, pass.Unchanging view shard) → Covers view shard σ) :
    (∀ pass ∈ σ'.passes, pass.Unchanging view shard) → Covers view shard σ' := by
  unfold Sweeps.step at hstep
  cases hsweep : σ.sweeper.sweep cfg input with
  | mk s' made =>
    rw [hsweep] at hstep hun
    cases hstep
    intro hview
    have hcov := hcov fun pass hpass => hview pass (mem_append_left _ hpass)
    cases made with
    | none =>
      have hsame : s' = σ.sweeper := by
        unfold PendingSweeper.sweep at hsweep
        split at hsweep
        · split at hsweep <;> cases hsweep
          rfl
        · cases hsweep
          rfl
      simpa only [Option.toList_none, append_nil, hsame] using hcov
    | some pass =>
      have hspec := sweep_spec hsweep
      by_cases hshard : pass.shard = shard
      · subst hshard
        exact hcov.pass hspec (hun pass rfl rfl) (hview pass (by simp))
      · exact hcov.other hspec hshard

/-- A pass steps over nothing exactly when it was not interrupted; and a cycle over an
unchanging view in which no pass was interrupted handles every page of the view. -/
theorem PendingSweeper.steps_over_nothing (cfg : PendingSweeperConfig) :
    (∀ (s : PendingSweeper) (input : SweepInput) (s' : PendingSweeper) (pass : Pass),
      s.sweep cfg input = (s', some pass) →
        (pass.StepsOverNothing (s'.cursors pass.shard) ↔ Uninterrupted cfg input)) ∧
    (∀ (view : Cursor → DuePage) (shard : Nat) (inputs : List SweepInput) (σ : Sweeps),
      Runs.exec (Sweeps.step cfg) {} inputs = some σ →
      Runs.Meets (Sweeps.step cfg) (fun σ input => ∀ pass,
        (σ.sweeper.sweep cfg input).2 = some pass → pass.shard = shard →
          Uninterrupted cfg input) {} inputs →
      (∀ pass ∈ σ.passes, pass.Unchanging view shard) →
      (∃ pass ∈ σ.passes, pass.shard = shard ∧ pass.ReachedEnd) →
        ∀ i c, pageAt view i = some c → HandledIn view shard σ.passes c) := by
  constructor
  · intro s input s' pass hsweep
    exact (sweep_spec hsweep).uninterrupted_iff
  · intro view shard inputs σ hrun hmeets hview hend i c hc
    have hcov := Runs.exec_invariant_of_meets
      (I := fun σ => (∀ pass ∈ σ.passes, pass.Unchanging view shard) → Covers view shard σ)
      (fun _ _ _ hP hstep => Covers.step hP hstep) hrun hmeets fun _ => covers_init view shard
    obtain ⟨pass, hmem, hshard, hreached⟩ := hend
    exact (hcov hview).ended pass hmem hshard hreached i c hc

/-! ## Two passes over two pages -/

/-- A view of two pages, each with a pending command of its own session. -/
def twoPages (c : Cursor) : DuePage :=
  let entry (session : SessionID) : InboxEntry :=
    { descriptor := { tenant := "t", session := session, command := "c", kind := .input }
      state := .pending, applyDeadline := 10 }
  if c = "" then { commands := [entry "first"], nextCursor := "page-2" }
  else { commands := [entry "second"] }

/-- A sweeper that reads one page a pass, or two. -/
def pagesAPass (n : Nat) (h : 0 < n) : PendingSweeperConfig :=
  { horizon := 20, pageLimit := 1, maxPages := n, minControlShards := 1
    horizon_pos := by decide, pageLimit_pos := Nat.one_pos, maxPages_pos := h
    minControlShards_pos := Nat.one_pos }

/-- A pass of one shard over some pages, whose placements all leave the session unplaced. -/
def passOver (pages : Nat → Except PageFault DuePage) : SweepInput :=
  { shards := 1, now := 0, pages := pages, reconciles := fun _ => .placed false .noCapacity false }

/-- Each pass reads its page. -/
def wholeCycle : List SweepInput :=
  [passOver fun _ => .ok (twoPages ""), passOver fun _ => .ok (twoPages "page-2")]

/-- The second page fails after the first was read; the next pass resumes behind it. -/
def faultedCycle : List SweepInput :=
  [passOver fun i => if i = 0 then .ok (twoPages "") else .error .other,
    passOver fun _ => .ok (twoPages "page-2")]

theorem passOver_uninterrupted {n : Nat} {h : 0 < n} {pages : Nat → Except PageFault DuePage}
    (hfault : faultOf pages n 0 = none) : Uninterrupted (pagesAPass n h) (passOver pages) := by
  constructor
  · intro hother
    rw [show faultOf (passOver pages).pages (pagesAPass n h).maxPages 0 = none from hfault]
      at hother
    cases hother
  · intro _ k _ hfail
    cases hfail

theorem steps_over_nothing_wholeCycle :
    (∃ s' pass, PendingSweeper.sweep (pagesAPass 1 (by decide)) {}
        (passOver fun _ => .ok (twoPages "")) = (s', some pass) ∧
      pass.StepsOverNothing (s'.cursors pass.shard)) ∧
    ∃ σ, Runs.exec (Sweeps.step (pagesAPass 1 (by decide))) {} wholeCycle = some σ ∧
      ∀ i c, pageAt twoPages i = some c → HandledIn twoPages 0 σ.passes c := by
  have hclaim := PendingSweeper.steps_over_nothing (pagesAPass 1 (by decide))
  have hmeets : Runs.Meets (Sweeps.step (pagesAPass 1 (by decide))) (fun σ input => ∀ pass,
      (σ.sweeper.sweep (pagesAPass 1 (by decide)) input).2 = some pass → pass.shard = 0 →
        Uninterrupted (pagesAPass 1 (by decide)) input) {} wholeCycle :=
    ⟨fun _ _ _ => passOver_uninterrupted rfl, fun _ _ =>
      ⟨fun _ _ _ => passOver_uninterrupted rfl, fun _ _ => trivial⟩⟩
  obtain ⟨σ, hrun, hview, hend⟩ : ∃ σ,
      Runs.exec (Sweeps.step (pagesAPass 1 (by decide))) {} wholeCycle = some σ ∧
      (∀ pass ∈ σ.passes, pass.Unchanging twoPages 0) ∧
      ∃ pass ∈ σ.passes, pass.shard = 0 ∧ pass.ReachedEnd := by
    refine ⟨_, rfl, ?_⟩
    simp only [Pass.Unchanging, Pass.ReachedEnd]
    decide +kernel
  exact ⟨⟨_, _, rfl, (hclaim.1 _ _ _ _ rfl).mpr (passOver_uninterrupted rfl)⟩,
    σ, hrun, hclaim.2 twoPages 0 wholeCycle σ hrun hmeets hview hend⟩

/-- The first page's session needs a Host, and the cycle ends without a pass that handed it
over: the pass that read it kept the position behind it and placed nothing. -/
theorem faulted_page_stepped_over :
    (∃ s' pass, PendingSweeper.sweep (pagesAPass 2 (by decide)) {}
        (passOver fun i => if i = 0 then .ok (twoPages "") else .error .other) = (s', some pass) ∧
      ¬ pass.StepsOverNothing (s'.cursors pass.shard)) ∧
    ∃ σ, Runs.exec (Sweeps.step (pagesAPass 2 (by decide))) {} faultedCycle = some σ ∧
      (∀ pass ∈ σ.passes, pass.Unchanging twoPages 0) ∧
      (∃ pass ∈ σ.passes, pass.shard = 0 ∧ pass.ReachedEnd) ∧
      pageAt twoPages 0 = some "" ∧ ¬ HandledIn twoPages 0 σ.passes "" := by
  constructor
  · refine ⟨_, _, rfl, fun hover => ?_⟩
    have hmem := hover _ rfl rfl _ mem_cons_self _ mem_cons_self _ mem_cons_self rfl rfl
    revert hmem
    decide +kernel
  · refine ⟨_, rfl, ?_⟩
    simp only [Pass.Unchanging, Pass.ReachedEnd, HandledIn]
    decide +kernel

end Factory.Placement
