import Factory.Admission.RotorSpec
import Factory.Reconcile.Gates

/-!
# What a pass of the gate sweep does

The gate sweep as bounded passes over the due views of its shards (`gates_sweepsPages`), and what
its counters count (`GateAccounted`). A row of a due page is a gate that is still open, which
reading the page records, or a remnant, which retiring it records.
-/

namespace Factory.Reconcile

open List Admission Dialogue

/-- The due view of a shard: the empty cursor is its head and its end. -/
def gateShape : Paging.Shape Cursor DueGatePage GateRow where
  head := ""
  next page := page.nextCursor
  rows page := page.gates.map .openPastDeadline ++ page.remnants.map .remnant

/-- The page read a question was, with what it came to: a cursor is refused by a catalog error
with the code `cursor`. -/
def gateRead : Sigma GateAnswer → Option (Cursor × Paging.Answer DueGatePage)
  | ⟨.listDueGates request, answer⟩ =>
    some (request.cursor, pageAnswer (fun e => e.catalog.map (·.code) = some .cursor) answer)
  | _ => none

/-- The shard a page read was of. -/
def gateShardOf : Sigma GateAnswer → Option Nat
  | ⟨.listDueGates request, _⟩ => some request.shard
  | _ => none

/-- The rows a result accounts for. -/
def GateSweepResult.rows (r : GateSweepResult) : List GateRow := r.recorded.map GateRecord.row

/-! ## Counters -/

def GateRecord.isOpenPastDeadline : GateRecord → Bool
  | .openPastDeadline _ => true
  | .disposed _ _ => false

def GateRecord.isDisposedAs (d : GateDisposition) : GateRecord → Bool
  | .openPastDeadline _ => false
  | .disposed _ disposition => d = disposition

/-- The counters of a result count the rows it accounts for. -/
structure GateSweepResult.Tallied (r : GateSweepResult) : Prop where
  openPastDeadline : r.openPastDeadline = r.recorded.countP GateRecord.isOpenPastDeadline
  dispositions : ∀ d, r.dispositions d = r.recorded.countP (GateRecord.isDisposedAs d)
  retired : r.retired = r.dispositions .retired

variable {r : GateSweepResult}

theorem GateSweepResult.Tallied.countPage (h : r.Tallied) (page : DueGatePage)
    : (GateSweepResult.countPage page r).Tallied := by
  have hopen : (page.gates.map GateRecord.openPastDeadline).countP
      GateRecord.isOpenPastDeadline = page.gates.length := by
    rw [countP_map]
    exact countP_eq_length.mpr fun _ _ => rfl
  have hdisposed : ∀ d, (page.gates.map GateRecord.openPastDeadline).countP
      (GateRecord.isDisposedAs d) = 0 := by
    intro d
    rw [countP_map]
    exact countP_eq_zero.mpr fun _ _ => Bool.false_ne_true
  refine ⟨?_, fun d => ?_, h.retired⟩
  · simp only [GateSweepResult.countPage, countP_append, hopen, h.openPastDeadline]
  · simp only [GateSweepResult.countPage, countP_append, hdisposed, h.dispositions, Nat.add_zero]

theorem GateSweepResult.Tallied.dispose (h : r.Tallied) (remnant : RemnantGateIntent)
    (disposition : GateDisposition) : (r.dispose remnant disposition).Tallied := by
  refine ⟨?_, fun d => ?_, ?_⟩
  · simp [GateSweepResult.dispose, h.openPastDeadline, GateRecord.isOpenPastDeadline]
  · by_cases hd : d = disposition
    · simp [GateSweepResult.dispose, h.dispositions, GateRecord.isDisposedAs, hd]
    · simp [GateSweepResult.dispose, h.dispositions, GateRecord.isDisposedAs, hd]
  · by_cases hd : disposition = .retired
    · simp [GateSweepResult.dispose, h.retired, hd]
    · simp [GateSweepResult.dispose, h.retired, hd, Ne.symm hd]

/-! ## The page loop -/

variable {log : List (Sigma GateAnswer)}

theorem retire_spec {remnant : RemnantGateIntent} {r' : GateSweepResult} {fault : Option SweepError}
    (h : Returns (GateSweeper.retire remnant r) log (fault, r')) :
    (∃ request answer, log = [⟨.retireGateDeadlineIntent request, answer⟩]) ∧
      ((∃ e, fault = some e ∧ r' = { r with queries := r.queries + 1 }) ∨
        ∃ d, fault = none ∧ r' = { r with queries := r.queries + 1 }.dispose remnant d) := by
  obtain ⟨err, rest, rfl, hrest⟩ := returns_query_bind.mp h
  split at hrest
  · obtain ⟨rfl, ⟨⟩⟩ := returns_pure.mp hrest
    exact ⟨⟨_, err, rfl⟩, .inl ⟨_, rfl, rfl⟩⟩
  · obtain ⟨rfl, ⟨⟩⟩ := returns_pure.mp hrest
    exact ⟨⟨_, err, rfl⟩, .inr ⟨_, rfl, rfl⟩⟩

theorem refusedCursor_eq (e : SeamError) :
    refusedCursor e = decide (e.catalog.map (·.code) = some .cursor) := by
  unfold refusedCursor
  cases e.catalog <;> simp

theorem gates_loopReads (cfg : GateSweeperConfig) (shard : Nat) (now : Int) :
    LoopReads (GateSweeper.pageLoop cfg shard now) gateShape gateRead GateSweepResult.rows
      (fun page => page.gates.map .openPastDeadline) .remnant where
  head := rfl
  next _ := rfl
  rows _ := rfl
  list h := by
    rw [returns_query.mp h, show (GateSweeper.pageLoop cfg shard now).refusedCursor = _ from
      funext refusedCursor_eq]
    rfl
  unread h := by
    obtain ⟨⟨_, _, rfl⟩, -⟩ := retire_spec h
    rfl
  queried _ := rfl
  count page r := by
    simp only [GateSweeper.pageLoop, GateSweepResult.countPage, GateSweepResult.rows,
      map_append, map_map]
    rfl
  worked h := by
    obtain ⟨-, ⟨_, hnone, -⟩ | ⟨d, -, rfl⟩⟩ := retire_spec h
    · cases hnone
    · simp only [GateSweepResult.dispose, GateSweepResult.rows, map_append]
      rfl
  faulted h := by
    obtain ⟨-, ⟨_, -, rfl⟩ | ⟨_, hnone, -⟩⟩ := retire_spec h
    · rfl
    · cases hnone
  exhausted _ := rfl
  truncated _ := rfl

theorem gates_keeps (cfg : GateSweeperConfig) (shard : Nat) (now : Int) :
    (GateSweeper.pageLoop cfg shard now).Keeps
      fun log r => ReadsShard gateShardOf shard log ∧ r.Tallied where
  list := by
    rintro past c log a r ⟨hshard, htally⟩ hlist
    refine ⟨hshard.append ?_, htally.1, htally.2, htally.3⟩
    rw [returns_query.mp hlist]
    intro e he k hk
    rw [mem_singleton.mp he] at hk
    cases hk
    rfl
  count := fun ⟨hshard, htally⟩ => ⟨hshard, htally.countPage _⟩
  work := by
    rintro past row r log fault r' ⟨hshard, htally⟩ hwork
    have hqueried : { r with queries := r.queries + 1 }.Tallied :=
      ⟨htally.1, htally.2, htally.3⟩
    obtain ⟨⟨_, _, rfl⟩, ⟨_, -, rfl⟩ | ⟨d, -, rfl⟩⟩ := retire_spec hwork
    all_goals
      refine ⟨hshard.append fun e he k hk => ?_, ?_⟩
      · rw [mem_singleton.mp he] at hk
        cases hk
    · exact hqueried
    · exact hqueried.dispose row d
  exhausted := fun ⟨hshard, htally⟩ => ⟨hshard, htally.1, htally.2, htally.3⟩
  truncated := fun ⟨hshard, htally⟩ => ⟨hshard, htally.1, htally.2, htally.3⟩

/-! ## The sweep -/

/-- What a pass asked and what its result counts. -/
structure GateAccounted (log : List (Sigma GateAnswer)) (pass : SweepPass GateSweepResult) :
    Prop where
  readsShard : ReadsShard gateShardOf pass.shard log
  tallied : pass.result.Tallied

/-- A call of `Sweep` returns before its pass, or asks the authorizer, the shard count and the
clock and then runs the page loop over the shard it was given. -/
theorem gates_sweep_cases {cfg : GateSweeperConfig} {s s' : GateSweeper}
    {out : Except SweepError (SweepPass GateSweepResult)}
    (h : Returns (GateSweeper.sweep cfg s) log (s', out)) :
    (∃ e, out = .error e ∧ s' = s) ∨
    ∃ shards shard cursor s₁ now rest next fault result,
      s.begin cfg.minControlShards shards = some (shard, cursor, s₁) ∧
      log = ⟨.authorizeServiceSweep, none⟩ :: ⟨.controlShards, shards⟩ :: ⟨.now, now⟩ :: rest ∧
      Returns ((GateSweeper.pageLoop cfg shard now).pages cfg.maxPages cursor
        { shard := shard, resumed := cursor ≠ "" }) rest (next, fault, result) ∧
      s' = s₁.commit shard next ∧
      out = .ok { shards := shards, shard := shard, start := cursor, kept := next
                  result := result, fault := fault } := by
  obtain ⟨denied, rest, rfl, hauthorized⟩ := returns_query_bind.mp h
  cases denied with
  | some err =>
    obtain ⟨rfl, ⟨⟩⟩ := returns_pure.mp hauthorized
    exact .inl ⟨_, rfl, rfl⟩
  | none =>
    obtain ⟨shards, rest, rfl, hcounted⟩ := returns_query_bind.mp hauthorized
    cases hbegin : s.begin cfg.minControlShards shards with
    | none =>
      rw [hbegin] at hcounted
      obtain ⟨rfl, ⟨⟩⟩ := returns_pure.mp hcounted
      exact .inl ⟨_, rfl, rfl⟩
    | some begun =>
      obtain ⟨shard, cursor, s₁⟩ := begun
      rw [hbegin] at hcounted
      obtain ⟨paged, last, ⟨next, fault, result⟩, rfl, hpage, hend⟩ := returns_bind.mp hcounted
      obtain ⟨rfl, ⟨⟩⟩ := returns_pure.mp hend
      obtain ⟨now, rest, rfl, hpages⟩ := returns_query_bind.mp hpage
      rw [append_nil]
      exact .inr ⟨shards, shard, cursor, s₁, now, rest, next, fault, result, hbegin, rfl,
        hpages, rfl, rfl⟩

/-- The gate sweep is a bounded pass of the round robin. -/
theorem gates_sweepsPages (cfg : GateSweeperConfig) :
    SweepsPages (GateSweeper.sweep cfg) gateShape cfg.maxPages gateRead GateSweepResult.rows where
  idle h := by
    rcases gates_sweep_cases h with ⟨_, -, rfl⟩ | ⟨_, _, _, _, _, _, _, _, _, -, -, -, -, hout⟩
    · rfl
    · cases hout
  pass h := by
    rcases gates_sweep_cases h with ⟨_, hout, -⟩ |
      ⟨shards, shard, cursor, s₁, now, rest, next, fault, result, hbegin, rfl, hpages, rfl, hout⟩
    · cases hout
    · cases hout
      obtain ⟨new, hrows, hreading⟩ := (gates_loopReads cfg shard now).pages hpages
      have hnew : result.rows = new := hrows
      subst hnew
      exact Rotor.paging_step rfl cfg.minControlShards_pos hbegin hreading

/-- What a pass of the gate sweep counts is what it was answered. -/
theorem gates_accounted {cfg : GateSweeperConfig} {s s' : GateSweeper}
    {pass : SweepPass GateSweepResult} (h : Returns (GateSweeper.sweep cfg s) log (s', .ok pass))
    : GateAccounted log pass := by
  rcases gates_sweep_cases h with ⟨_, hout, -⟩ |
    ⟨shards, shard, cursor, s₁, now, rest, next, fault, result, -, rfl, hpages, -, hout⟩
  · cases hout
  · cases hout
    have hstart : ReadsShard gateShardOf shard [⟨.authorizeServiceSweep, none⟩,
        ⟨.controlShards, shards⟩, ⟨.now, now⟩] := by
      simp [ReadsShard, gateShardOf]
    obtain ⟨hshard, htally⟩ := (gates_keeps cfg shard now).pages
      ⟨hstart, ⟨rfl, fun _ => rfl, rfl⟩⟩ hpages
    exact ⟨hshard, htally⟩

end Factory.Reconcile
