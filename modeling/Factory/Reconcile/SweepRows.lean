import Factory.Admission.DispositionsSpec
import Factory.Reconcile.GatesSpec

/-!
# The gate and the disposition sweep lose no row

Both sweeps keep a position for each shard, go back to the start of a page one of whose rows
faulted, keep the position over any other fault, and drop it when it was refused or its shard is
gone. `sweeps_lose_no_row` says what follows for every sequence of sweeps, whatever the store
answered, and what is covered while nothing faults.
-/

namespace Factory.Reconcile

open Admission

/-- Passes of the gate sweep, with their page reads and the rows they accounted for. -/
def gatePasses (made : List (List (Sigma GateAnswer) × SweepPass GateSweepResult)) :
    List (Paging.Pass Cursor DueGatePage GateRow) :=
  made.map (SweepPass.paged gateRead GateSweepResult.rows)

/-- Passes of the disposition sweep, with their page reads and the rows they accounted for. -/
def dispositionPasses (made : List (List (Sigma DispositionAnswer) × SweepPass SweepResult)) :
    List (Paging.Pass Cursor DispositionDueCommandPage DispositionInboxEntry) :=
  made.map (SweepPass.paged dispositionRead SweepResult.rows)

/-- In every run of one-at-a-time sweeps no kept position is past a row its cycle did not account
for, and neither a refused position nor one of an excluded shard is presented again. From any
point on, while the number of shards stays the same, every shard is taken once in as many passes;
and while nothing faults over a shard and its view stays the same, its passes read the whole view
from the head, each page and each row once, in the passes its pages need. -/
theorem sweeps_lose_no_row :
    (∀ (cfg : GateSweeperConfig) (inputs : List (Nat → (q : GateAsk) → GateAnswer q))
      (σ : Sweeps GateAnswer GateSweepResult),
      Runs.exec (Sweeps.step (GateSweeper.sweep cfg)) {} inputs = some σ →
        Paging.LosesNoRow gateShape (gatePasses σ.passes) σ.rotor.cursors ∧
        (∀ p ∈ σ.passes, GateAccounted p.1 p.2) ∧
        ∀ n later τ made, Runs.exec (Sweeps.step (GateSweeper.sweep cfg)) σ later = some τ →
          τ.passes = σ.passes ++ made → (∀ p ∈ made, p.2.shards = n) →
          Paging.CoversViews gateShape cfg.maxPages n σ.rotor.cursors (gatePasses made)) ∧
    (∀ (cfg : DispositionReconcilerConfig)
      (inputs : List (Nat → (q : DispositionAsk) → DispositionAnswer q))
      (σ : Sweeps DispositionAnswer SweepResult),
      Runs.exec (Sweeps.step (DispositionReconciler.sweep cfg)) {} inputs = some σ →
        Paging.LosesNoRow dispositionShape (dispositionPasses σ.passes) σ.rotor.cursors ∧
        (∀ p ∈ σ.passes, DispositionAccounted p.1 p.2) ∧
        ∀ n later τ made,
          Runs.exec (Sweeps.step (DispositionReconciler.sweep cfg)) σ later = some τ →
          τ.passes = σ.passes ++ made → (∀ p ∈ made, p.2.shards = n) →
          Paging.CoversViews dispositionShape cfg.maxPages n σ.rotor.cursors
            (dispositionPasses made)) := by
  constructor
  · intro cfg inputs σ hrun
    obtain ⟨hloses, hcovers⟩ := (gates_sweepsPages cfg).loses_no_row rfl cfg.maxPages_pos hrun
    exact ⟨hloses, Sweeps.passes_all gates_accounted hrun, hcovers⟩
  · intro cfg inputs σ hrun
    obtain ⟨hloses, hcovers⟩ :=
      (dispositions_sweepsPages cfg).loses_no_row rfl cfg.maxPages_pos hrun
    exact ⟨hloses, Sweeps.passes_all dispositions_accounted hrun, hcovers⟩

/-! ## A fault, a refused cursor and two cycles over two pages -/

/-- What a gate sweep over one shard is answered: what reading comes to, and retiring. -/
def gateAnswers (read : Cursor → Except SeamError DueGatePage) (retired : Option SeamError) :
    Nat → (q : GateAsk) → GateAnswer q
  | _, .authorizeServiceSweep => none
  | _, .controlShards => 1
  | _, .now => 100
  | _, .listDueGates request => read request.cursor
  | _, .retireGateDeadlineIntent _ => retired

/-- A remnant on the first page and an open gate on the second. -/
def twoGatePages (c : Cursor) : DueGatePage :=
  if c = "" then { remnants := [⟨"t", "s", "remnant", 3⟩], nextCursor := "page-2" }
  else { gates := [⟨"t", "s", "open"⟩] }

/-- A row faults; then the first page is done; then the kept cursor is refused. -/
def troubledGates : List (Nat → (q : GateAsk) → GateAnswer q) :=
  [gateAnswers (.ok <| twoGatePages ·) (some {}), gateAnswers (.ok <| twoGatePages ·) none,
    gateAnswers (fun _ => .error { catalog := some { code := .cursor } }) none]

/-- A sweeper that reads one page a pass. -/
def onePageGates : GateSweeperConfig :=
  { pageLimit := 1, maxPages := 1, minControlShards := 1, pageLimit_pos := Nat.one_pos
    maxPages_pos := Nat.one_pos, minControlShards_pos := Nat.one_pos }

/-- What a disposition sweep over one shard is answered: what reading comes to, and rejecting. -/
def dispositionAnswers (read : Cursor → Except SeamError DispositionDueCommandPage)
    (rejected : Except SeamError Bool) : Nat → (q : DispositionAsk) → DispositionAnswer q
  | _, .authorizeServiceSweep => none
  | _, .controlShards => 1
  | _, .now => 100
  | _, .listDueDispositionCommands request => read request.cursor
  | _, .acquireReconciliationClaim _ => none
  | _, .rejectDispositionCommand _ => rejected
  | _, .releaseReconciliationClaim _ => none

/-- A command past its deadline on the first page and an applying one on the second. -/
def twoCommandPages (c : Cursor) : DispositionDueCommandPage :=
  if c = "" then
    { commands := [⟨⟨⟨"t", "s", "expired"⟩, .pending, none, none, 10⟩, 1⟩]
      nextCursor := "page-2" }
  else { commands := [⟨⟨⟨"t", "s", "applying"⟩, .applying, none, none, 10⟩, 2⟩] }

/-- The same troubles for the disposition sweep. -/
def troubledDispositions : List (Nat → (q : DispositionAsk) → DispositionAnswer q) :=
  [dispositionAnswers (.ok <| twoCommandPages ·) (.error {}),
    dispositionAnswers (.ok <| twoCommandPages ·) (.ok true),
    dispositionAnswers (fun _ => .error { inbox := some .cursor }) (.ok true)]

/-- A reconciler that reads one page a pass. -/
def onePageDispositions : DispositionReconcilerConfig :=
  { holderID := "replica", claimTTL := 1, pageLimit := 1, maxPages := 1, minControlShards := 1
    holderID_ne := by decide, claimTTL_pos := Int.zero_lt_one, pageLimit_pos := Nat.one_pos
    maxPages_pos := Nat.one_pos, minControlShards_pos := Nat.one_pos }

theorem split_runs {Q : Type} {A : Q → Type} {P R X : Type} {V : Paging.Shape Cursor P X}
    {sweep : Rotor → Dialogue A (Rotor × Except SweepError (SweepPass R))} {maxPages : Nat}
    {readOf : Sigma A → Option (Cursor × Paging.Answer P)} {rows : R → List X}
    (h : SweepsPages sweep V maxPages readOf rows) (first later : List (Nat → (q : Q) → A q))
    (n : Nat) (I J : List (List (Sigma A) × SweepPass R) → Prop) [DecidablePred I]
    [DecidablePred J]
    (hfirst : (Runs.exec (Sweeps.step sweep) {} first).map
      (fun σ => (σ.passes.length, decide (I σ.passes))) = some (n, true))
    (hall : (Runs.exec (Sweeps.step sweep) {} (first ++ later)).map
      (fun τ => decide (J (τ.passes.drop n))) = some true) :
    ∃ σ τ made, Runs.exec (Sweeps.step sweep) {} first = some σ ∧ I σ.passes ∧
      Runs.exec (Sweeps.step sweep) σ later = some τ ∧ τ.passes = σ.passes ++ made ∧ J made := by
  obtain ⟨σ, hσ, heq⟩ := Option.map_eq_some_iff.mp hfirst
  obtain ⟨hlength, hI⟩ := Prod.mk.inj heq
  obtain ⟨τ, hτ, hJ⟩ := Option.map_eq_some_iff.mp hall
  have hlater := Runs.exec_rest hσ hτ
  obtain ⟨made, hmade, -⟩ := h.history hlater
  refine ⟨σ, τ, made, hσ, of_decide_eq_true hI, hlater, hmade, ?_⟩
  rw [hmade, List.drop_left' hlength] at hJ
  exact of_decide_eq_true hJ

/-- The passes are over one shard and read a view from its head without a fault. -/
def Undisturbed {P Row : Type} (view : Cursor → P) (passes : List (Paging.Pass Cursor P Row)) :
    Prop :=
  (∀ p ∈ passes, p.shards = 1) ∧ (∀ p ∈ Paging.passesOver 0 passes, p.Quiet view) ∧
    (Paging.passesOver 0 passes).head?.map (·.start) = some ""

instance {P Row : Type} [DecidableEq P] (view : Cursor → P)
    (passes : List (Paging.Pass Cursor P Row)) : Decidable (Undisturbed view passes) :=
  inferInstanceAs (Decidable (_ ∧ _ ∧ _))

theorem Undisturbed.cycles {P Row : Type} {V : Paging.Shape Cursor P Row} (hhead : V.head = "")
    {view : Cursor → P} {maxPages : Nat} {kept : Nat → Cursor}
    {passes : List (Paging.Pass Cursor P Row)} (h : Undisturbed view passes)
    (hcovers : Paging.CoversViews V maxPages 1 kept passes)
    (hfirst : V.after view "" = some "page-2") (hsecond : V.after view "page-2" = none) :
    Paging.Cycles V maxPages view ["", "page-2"] (Paging.passesOver 0 passes) := by
  have hview : Walk.Visits (V.after view) (some V.head) ["", "page-2"] none := by
    rw [hhead]
    refine .cons ?_
    rw [hfirst]
    refine .cons ?_
    rw [hsecond]
    exact .nil _
  obtain ⟨-, hquiet, hstart⟩ := h
  have hcycles := hcovers.cycles 0 view _ hquiet hview []
  generalize Paging.passesOver 0 passes = overZero at hstart hcycles ⊢
  cases overZero with
  | nil => cases hstart
  | cons p later =>
    refine hcycles p later rfl ?_
    rw [hhead]
    exact Option.some.inj hstart

/-- After a pass whose row faulted and one whose cursor was refused, four passes read two whole
cycles, in the gate sweep and in the disposition sweep. -/
theorem sweeps_lose_no_row_twoCycles :
    (∃ σ τ made, Runs.exec (Sweeps.step (GateSweeper.sweep onePageGates)) {} troubledGates =
        some σ ∧
      (∃ p ∈ gatePasses σ.passes, p.reads = [("page-2", .refused)]) ∧
      Runs.exec (Sweeps.step (GateSweeper.sweep onePageGates)) σ
        (List.replicate 4 (gateAnswers (.ok <| twoGatePages ·) none)) = some τ ∧
      τ.passes = σ.passes ++ made ∧
      Paging.LosesNoRow gateShape (gatePasses σ.passes) σ.rotor.cursors ∧
      Paging.Cycles gateShape 1 twoGatePages ["", "page-2"]
        (Paging.passesOver 0 (gatePasses made))) ∧
    (∃ σ τ made, Runs.exec (Sweeps.step (DispositionReconciler.sweep onePageDispositions)) {}
        troubledDispositions = some σ ∧
      (∃ p ∈ dispositionPasses σ.passes, p.reads = [("page-2", .refused)]) ∧
      Runs.exec (Sweeps.step (DispositionReconciler.sweep onePageDispositions)) σ
        (List.replicate 4 (dispositionAnswers (.ok <| twoCommandPages ·) (.ok true))) = some τ ∧
      τ.passes = σ.passes ++ made ∧
      Paging.LosesNoRow dispositionShape (dispositionPasses σ.passes) σ.rotor.cursors ∧
      Paging.Cycles dispositionShape 1 twoCommandPages ["", "page-2"]
        (Paging.passesOver 0 (dispositionPasses made))) := by
  constructor
  · obtain ⟨σ, τ, made, hσ, hrefused, hτ, hmade, hquiet⟩ := split_runs
      (gates_sweepsPages onePageGates) troubledGates
      (List.replicate 4 (gateAnswers (.ok <| twoGatePages ·) none)) 3
      (fun passes => ∃ p ∈ gatePasses passes, p.reads = [("page-2", .refused)])
      (fun made => Undisturbed twoGatePages (gatePasses made))
      (by decide +kernel) (by decide +kernel)
    obtain ⟨hloses, -, hcovers⟩ := sweeps_lose_no_row.1 onePageGates _ σ hσ
    have hshards : ∀ p ∈ made, p.2.shards = 1 := fun p hp => hquiet.1 _ (List.mem_map_of_mem hp)
    refine ⟨σ, τ, made, hσ, hrefused, hτ, hmade, hloses, ?_⟩
    exact hquiet.cycles rfl (hcovers 1 _ τ made hτ hmade hshards) (by decide +kernel)
      (by decide +kernel)
  · obtain ⟨σ, τ, made, hσ, hrefused, hτ, hmade, hquiet⟩ := split_runs
      (dispositions_sweepsPages onePageDispositions) troubledDispositions
      (List.replicate 4 (dispositionAnswers (.ok <| twoCommandPages ·) (.ok true))) 3
      (fun passes => ∃ p ∈ dispositionPasses passes, p.reads = [("page-2", .refused)])
      (fun made => Undisturbed twoCommandPages (dispositionPasses made))
      (by decide +kernel) (by decide +kernel)
    obtain ⟨hloses, -, hcovers⟩ := sweeps_lose_no_row.2 onePageDispositions _ σ hσ
    have hshards : ∀ p ∈ made, p.2.shards = 1 := fun p hp => hquiet.1 _ (List.mem_map_of_mem hp)
    refine ⟨σ, τ, made, hσ, hrefused, hτ, hmade, hloses, ?_⟩
    exact hquiet.cycles rfl (hcovers 1 _ τ made hτ hmade hshards) (by decide +kernel)
      (by decide +kernel)

end Factory.Reconcile
