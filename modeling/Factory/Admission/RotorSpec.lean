import Factory.Admission.Rotor
import Factory.Lib.PagingCycles
import Factory.Lib.Runs

/-!
# The passes of a sweep as bounded reads of a paged view

The page loop of a sweep, whatever its rows and its work on them, is a bounded pass over a paged
view (`LoopReads.pages`), and a sweep that runs it between `begin` and `commit` of its rotor is a
step of the round robin of `Paging` (`Rotor.paging_step`). A run of such sweeps is then a history
of passes (`SweepsPages.history`).

`PageLoop.Keeps` is the rule for what the loop preserves: of the result it hands on and of what
has been asked.
-/

namespace Factory.Admission

open List Dialogue

variable {Q : Type} {A : Q → Type} {P Row R X : Type}

/-! ## The page loop -/

/-- What a page read came to, given which errors refuse the cursor. -/
def pageAnswer (refused : SeamError → Bool) : Except SeamError P → Paging.Answer P
  | .error e => if refused e then .refused else .failed
  | .ok page => .page page

/-- How the loop of a sweep reads a view: `readOf` picks the page reads out of what was asked,
and `recorded` is what the result says of the rows. Counting a page records `opened` of its rows,
and the work on a row records that row unless it faults. -/
structure LoopReads (l : PageLoop A P Row R) (V : Paging.Shape Cursor P X)
    (readOf : Sigma A → Option (Cursor × Paging.Answer P)) (recorded : R → List X)
    (opened : P → List X) (embed : Row → X) : Prop where
  head : V.head = ""
  next : ∀ page, V.next page = l.nextCursor page
  rows : ∀ page, V.rows page = opened page ++ (l.rows page).map embed
  list : ∀ {c log a}, Returns (l.list c) log a →
    log.filterMap readOf = [(c, pageAnswer l.refusedCursor a)]
  unread : ∀ {row r log out}, Returns (l.work row r) log out → log.filterMap readOf = []
  queried : ∀ r, recorded (l.queried r) = recorded r
  count : ∀ page r, recorded (l.count page r) = recorded r ++ opened page
  worked : ∀ {row r log r'}, Returns (l.work row r) log (none, r') →
    recorded r' = recorded r ++ [embed row]
  faulted : ∀ {row r log e r'}, Returns (l.work row r) log (some e, r') → recorded r' = recorded r
  exhausted : ∀ r, recorded (l.exhausted r) = recorded r
  truncated : ∀ r, recorded (l.truncated r) = recorded r

variable {readOf : Sigma A → Option (Cursor × Paging.Answer P)} {log : List (Sigma A)}
  {fault : Option SweepError}

section Loop

variable {l : PageLoop A P Row R} {V : Paging.Shape Cursor P X} {recorded : R → List X}
  {opened : P → List X} {embed : Row → X}

theorem LoopReads.workAll (h : LoopReads l V readOf recorded opened embed) {rows : List Row}
    {r r' : R} (hrun : Returns (l.workAll rows r) log (fault, r')) :
    log.filterMap readOf = [] ∧ ∃ part rest, rows.map embed = part ++ rest ∧
      recorded r' = recorded r ++ part ∧ (fault = none → rest = []) := by
  induction rows generalizing r log with
  | nil =>
    obtain ⟨rfl, ⟨⟩⟩ := returns_pure.mp hrun
    exact ⟨rfl, [], [], rfl, (append_nil _).symm, fun _ => rfl⟩
  | cons row rows ih =>
    obtain ⟨first, later, ⟨fault₁, r₁⟩, rfl, hwork, hrest⟩ := returns_bind.mp hrun
    rw [filterMap_append, h.unread hwork, nil_append]
    cases fault₁ with
    | some e =>
      obtain ⟨rfl, ⟨⟩⟩ := returns_pure.mp hrest
      refine ⟨rfl, [], _, rfl, ?_, fun hnone => (nomatch hnone)⟩
      rw [h.faulted hwork, append_nil]
    | none =>
      obtain ⟨hnil, part, rest, hrows, hrecorded, hdone⟩ := ih hrest
      refine ⟨hnil, embed row :: part, rest, ?_, ?_, hdone⟩
      · rw [map_cons, hrows, cons_append]
      · rw [hrecorded, h.worked hwork, append_assoc, singleton_append]

/-- The page loop is a reading of the shard's view. -/
theorem LoopReads.pages (h : LoopReads l V readOf recorded opened embed) {n : Nat} {c kept : Cursor}
    {r r' : R} (hrun : Returns (l.pages n c r) log (kept, fault, r')) :
    ∃ new, recorded r' = recorded r ++ new ∧
      Paging.Reading V n c (log.filterMap readOf) new fault.isSome kept := by
  induction n generalizing c r log with
  | zero =>
    obtain ⟨rfl, ⟨⟩⟩ := returns_pure.mp hrun
    exact ⟨[], by rw [h.truncated, append_nil], .truncated kept⟩
  | succ n ih =>
    obtain ⟨first, later, answer, rfl, hlist, hrest⟩ := returns_bind.mp hrun
    rw [filterMap_append, h.list hlist]
    cases answer with
    | error e =>
      dsimp only at hrest
      split at hrest
      · next hrefused =>
        obtain ⟨rfl, ⟨⟩⟩ := returns_pure.mp hrest
        rw [pageAnswer, if_pos hrefused, ← h.head]
        exact ⟨[], by rw [h.queried, append_nil], .refused n c⟩
      · next hfailed =>
        obtain ⟨rfl, ⟨⟩⟩ := returns_pure.mp hrest
        rw [pageAnswer, if_neg hfailed]
        exact ⟨[], by rw [h.queried, append_nil], .failed n kept⟩
    | ok page =>
      obtain ⟨worked, onward, ⟨fault₁, r₁⟩, rfl, hwork, hnext⟩ := returns_bind.mp hrest
      obtain ⟨hnil, part, rest, hrows, hrecorded, hdone⟩ := h.workAll hwork
      have hpage : V.rows page = opened page ++ part ++ rest := by
        rw [h.rows, hrows, append_assoc]
      rw [h.count, h.queried, append_assoc] at hrecorded
      rw [filterMap_append, hnil, nil_append]
      cases fault₁ with
      | some e =>
        obtain ⟨rfl, ⟨⟩⟩ := returns_pure.mp hnext
        exact ⟨_, hrecorded, .unfinished n _ hpage⟩
      | none =>
        rw [hdone rfl, append_nil] at hpage
        rw [← hpage] at hrecorded
        dsimp only at hnext
        split at hnext
        · next hend =>
          obtain ⟨rfl, ⟨⟩⟩ := returns_pure.mp hnext
          rw [← h.next, ← h.head] at hend
          refine ⟨V.rows page, by rw [h.exhausted, hrecorded], ?_⟩
          rw [← h.head]
          exact .last n c hend
        · next hmore =>
          obtain ⟨new, hnew, hreading⟩ := ih hnext
          rw [← h.next, ← h.head] at hmore
          rw [← h.next] at hreading
          refine ⟨V.rows page ++ new, ?_, .more c hmore hreading⟩
          rw [hnew, hrecorded, append_assoc]

end Loop

/-- What holds of the result and of what has been asked while the loop goes on (`I`) and once it
has ended (`J`): work on a row that faults ends it. -/
structure PageLoop.Ends (l : PageLoop A P Row R) (I J : List (Sigma A) → R → Prop) : Prop where
  list : ∀ {past c log a r}, I past r → Returns (l.list c) log a → I (past ++ log) (l.queried r)
  count : ∀ {past page r}, I past r → I past (l.count page r)
  worked : ∀ {past row r log r'}, I past r → Returns (l.work row r) log (none, r') →
    I (past ++ log) r'
  faulted : ∀ {past row r log e r'}, I past r → Returns (l.work row r) log (some e, r') →
    J (past ++ log) r'
  exhausted : ∀ {past r}, I past r → I past (l.exhausted r)
  truncated : ∀ {past r}, I past r → I past (l.truncated r)
  ended : ∀ {past r}, I past r → J past r

variable {past : List (Sigma A)} {l : PageLoop A P Row R} {I : List (Sigma A) → R → Prop}

theorem PageLoop.Ends.workAll {J : List (Sigma A) → R → Prop} (h : l.Ends I J) {rows : List Row}
    {r r' : R} (hI : I past r) (hrun : Returns (l.workAll rows r) log (fault, r')) :
    J (past ++ log) r' ∧ (fault = none → I (past ++ log) r') := by
  induction rows generalizing past r log with
  | nil =>
    obtain ⟨rfl, ⟨⟩⟩ := returns_pure.mp hrun
    rw [append_nil]
    exact ⟨h.ended hI, fun _ => hI⟩
  | cons row rows ih =>
    obtain ⟨first, later, ⟨fault₁, r₁⟩, rfl, hwork, hrest⟩ := returns_bind.mp hrun
    rw [← append_assoc]
    cases fault₁ with
    | some e =>
      obtain ⟨rfl, ⟨⟩⟩ := returns_pure.mp hrest
      rw [append_nil]
      exact ⟨h.faulted hI hwork, fun hnone => (nomatch hnone)⟩
    | none => exact ih (h.worked hI hwork) hrest

/-- However the loop ends, what then holds follows from one iteration. -/
theorem PageLoop.Ends.pages {J : List (Sigma A) → R → Prop} (h : l.Ends I J) {n : Nat}
    {c kept : Cursor} {r r' : R} (hI : I past r)
    (hrun : Returns (l.pages n c r) log (kept, fault, r')) : J (past ++ log) r' := by
  induction n generalizing c past r log with
  | zero =>
    obtain ⟨rfl, ⟨⟩⟩ := returns_pure.mp hrun
    rw [append_nil]
    exact h.ended (h.truncated hI)
  | succ n ih =>
    obtain ⟨first, later, answer, rfl, hlist, hrest⟩ := returns_bind.mp hrun
    have hI := h.list hI hlist
    rw [← append_assoc]
    cases answer with
    | error e =>
      dsimp only at hrest
      split at hrest
      all_goals
        obtain ⟨rfl, ⟨⟩⟩ := returns_pure.mp hrest
        rw [append_nil]
        exact h.ended hI
    | ok page =>
      obtain ⟨worked, onward, ⟨fault₁, r₁⟩, rfl, hwork, hnext⟩ := returns_bind.mp hrest
      obtain ⟨hended, hgoes⟩ := h.workAll (h.count hI) hwork
      rw [← append_assoc]
      cases fault₁ with
      | some e =>
        obtain ⟨rfl, ⟨⟩⟩ := returns_pure.mp hnext
        rwa [append_nil]
      | none =>
        dsimp only at hnext
        split at hnext
        · obtain ⟨rfl, ⟨⟩⟩ := returns_pure.mp hnext
          rw [append_nil]
          exact h.ended (h.exhausted (hgoes rfl))
        · exact ih (hgoes rfl) hnext

/-- What every part of the loop preserves of the result and of what has been asked. -/
structure PageLoop.Keeps (l : PageLoop A P Row R) (I : List (Sigma A) → R → Prop) : Prop where
  list : ∀ {past c log a r}, I past r → Returns (l.list c) log a → I (past ++ log) (l.queried r)
  count : ∀ {past page r}, I past r → I past (l.count page r)
  work : ∀ {past row r log fault r'}, I past r → Returns (l.work row r) log (fault, r') →
    I (past ++ log) r'
  exhausted : ∀ {past r}, I past r → I past (l.exhausted r)
  truncated : ∀ {past r}, I past r → I past (l.truncated r)

theorem PageLoop.Keeps.ends (h : l.Keeps I) : l.Ends I I :=
  ⟨h.list, h.count, h.work, h.work, h.exhausted, h.truncated, id⟩

/-- The loop preserves what its parts preserve. -/
theorem PageLoop.Keeps.pages (h : l.Keeps I) {n : Nat} {c kept : Cursor} {r r' : R} (hI : I past r)
    (hrun : Returns (l.pages n c r) log (kept, fault, r')) : I (past ++ log) r' :=
  h.ends.pages hI hrun

/-- What holds whenever the loop asks something: of its page reads, and of its work on a row of a
page it was answered. -/
structure PageLoop.AsksOnly (l : PageLoop A P Row R) (I : List (Sigma A) → Q → Prop)
    (known : List (Sigma A) → Prop) : Prop where
  mono : ∀ {past log}, known past → known (past ++ log)
  list : ∀ {past c}, known past → Asks I past (l.list c)
  work : ∀ {past row r}, known past →
    (∃ c log page, Returns (l.list c) log (.ok page) ∧ log ⊆ past ∧ row ∈ l.rows page) →
    Asks I past (l.work row r)

theorem PageLoop.AsksOnly.workAll {I : List (Sigma A) → Q → Prop} {known : List (Sigma A) → Prop}
    (h : l.AsksOnly I known) {c : Cursor} {page : P} (hlist : Returns (l.list c) log (.ok page))
    {rows : List Row} (hrows : rows ⊆ l.rows page) (hlog : log ⊆ past) (hpast : known past)
    (r : R) : Asks I past (l.workAll rows r) := by
  induction rows generalizing past r with
  | nil => exact asks_pure _
  | cons row rows ih =>
    refine (h.work hpast ⟨c, log, page, hlist, hlog, hrows mem_cons_self⟩).bind ?_
    rintro worked ⟨_ | _, r'⟩ -
    · exact ih (fun _ hrow => hrows (mem_cons_of_mem _ hrow))
        (subset_append_of_subset_left _ hlog) (h.mono hpast) r'
    · exact asks_pure _

/-- The loop asks only what its parts ask. -/
theorem PageLoop.AsksOnly.pages {I : List (Sigma A) → Q → Prop} {known : List (Sigma A) → Prop}
    (h : l.AsksOnly I known) (n : Nat) (c : Cursor) (r : R) (hpast : known past) :
    Asks I past (l.pages n c r) := by
  induction n generalizing c r past with
  | zero => exact asks_pure _
  | succ n ih =>
    refine (h.list hpast).bind fun log answer hlist => ?_
    cases answer with
    | error e =>
      dsimp only
      split <;> exact asks_pure _
    | ok page =>
      refine (h.workAll hlist (fun _ hrow => hrow) (subset_append_right _ _)
        (h.mono hpast) _).bind ?_
      rintro worked ⟨_ | _, r'⟩ -
      · dsimp only
        split
        · exact asks_pure _
        · exact ih _ r' (h.mono (h.mono hpast))
      · exact asks_pure _

/-- The page reads of what was asked are all of one shard; `shardOf` is the shard a page read
is of. -/
def ReadsShard (shardOf : Sigma A → Option Nat) (shard : Nat) (log : List (Sigma A)) : Prop :=
  ∀ e ∈ log, ∀ k, shardOf e = some k → k = shard

theorem ReadsShard.append {shardOf : Sigma A → Option Nat} {shard : Nat} {later : List (Sigma A)}
    (h : ReadsShard shardOf shard log) (hlater : ReadsShard shardOf shard later) :
    ReadsShard shardOf shard (log ++ later) :=
  fun e he => (mem_append.mp he).elim (h e) (hlater e)

/-! ## The rotor -/

/-- The rotor as the state of a round robin. -/
def Rotor.state (r : Rotor) : Paging.State Cursor := ⟨r.next, r.cursors⟩

/-- A pass as the round robin sees it, with what its reads and its rows are. -/
def SweepPass.paged (readOf : Sigma A → Option (Cursor × Paging.Answer P)) (rows : R → List X)
    (made : List (Sigma A) × SweepPass R) : Paging.Pass Cursor P X :=
  { shards := made.2.shards, shard := made.2.shard, start := made.2.start
    reads := made.1.filterMap readOf, recorded := rows made.2.result
    faulted := made.2.fault.isSome, kept := made.2.kept }

variable {V : Paging.Shape Cursor P X}

variable {maxPages : Nat}

/-- A pass begun and committed is a step of the round robin. -/
theorem Rotor.paging_step (hhead : V.head = "") {minControlShards : Nat}
    (hmin : 0 < minControlShards) {r r₁ : Rotor} {p : Paging.Pass Cursor P X}
    (hbegin : r.begin minControlShards p.shards = some (p.shard, p.start, r₁))
    (hreading : Paging.Reading V maxPages p.start p.reads p.recorded p.faulted p.kept) :
    Paging.Step V maxPages r.state p (r₁.commit p.shard p.kept).state := by
  unfold Rotor.begin Rotor.rotate at hbegin
  by_cases hfew : p.shards < minControlShards
  · rw [if_pos hfew] at hbegin
    cases hbegin
  · rw [if_neg hfew] at hbegin
    simp only [Option.some.injEq, Prod.mk.injEq] at hbegin
    obtain ⟨hshard, hstart, rfl⟩ := hbegin
    have hlt : p.shard < p.shards := by
      rw [← hshard]
      split <;> omega
    refine ⟨by omega, hshard.symm, ?_, hreading, ?_, fun k => ?_⟩
    · rw [hshard, if_neg (Nat.not_le.mpr hlt)] at hstart
      exact hstart.symm
    · rw [← hshard]
      rfl
    · rw [hhead]
      rfl

/-! ## Runs -/

/-- A sweep makes a bounded pass of the round robin, or returns before one and changes nothing. -/
structure SweepsPages (sweep : Rotor → Dialogue A (Rotor × Except SweepError (SweepPass R)))
    (V : Paging.Shape Cursor P X) (maxPages : Nat)
    (readOf : Sigma A → Option (Cursor × Paging.Answer P)) (rows : R → List X) : Prop where
  idle : ∀ {r log r' e}, Returns (sweep r) log (r', .error e) → r' = r
  pass : ∀ {r log r' pass}, Returns (sweep r) log (r', .ok pass) →
    Paging.Step V maxPages r.state (SweepPass.paged readOf rows (log, pass)) r'.state

variable {sweep : Rotor → Dialogue A (Rotor × Except SweepError (SweepPass R))}

variable {σ τ : Sweeps A R}

theorem Sweeps.step_inv {answers : Nat → (q : Q) → A q} (h : σ.step sweep answers = some τ) :
    (∃ log e, Returns (sweep σ.rotor) log (τ.rotor, .error e) ∧ τ.passes = σ.passes) ∨
    ∃ log pass, Returns (sweep σ.rotor) log (τ.rotor, .ok pass) ∧
      τ.passes = σ.passes ++ [(log, pass)] := by
  have hrun := returns_run answers (sweep σ.rotor) 0
  unfold Sweeps.step at h
  rcases hout : (sweep σ.rotor).run answers 0 with ⟨log, rotor, pass | pass⟩
  · rw [hout] at h hrun
    cases h
    exact .inl ⟨log, pass, hrun, rfl⟩
  · rw [hout] at h hrun
    cases h
    exact .inr ⟨log, pass, hrun, rfl⟩

variable {inputs : List (Nat → (q : Q) → A q)}

/-- The passes of a run are a history of the round robin. -/
theorem SweepsPages.history {rows : R → List X} (h : SweepsPages sweep V maxPages readOf rows)
    (hrun : Runs.exec (Sweeps.step sweep) σ inputs = some τ) :
    ∃ made, τ.passes = σ.passes ++ made ∧
      Paging.History V maxPages σ.rotor.state (made.map (SweepPass.paged readOf rows))
        τ.rotor.state := by
  refine Runs.exec_invariant
    (I := fun τ => ∃ made, τ.passes = σ.passes ++ made ∧ Paging.History V maxPages σ.rotor.state
      (made.map (SweepPass.paged readOf rows)) τ.rotor.state) ?_ hrun
    ⟨[], (append_nil _).symm, .nil _⟩
  rintro u answers v hstep ⟨made, hmade, hhistory⟩
  rcases Sweeps.step_inv hstep with ⟨log, e, hreturns, hpasses⟩ | ⟨log, pass, hreturns, hpasses⟩
  · rw [hpasses, h.idle hreturns]
    exact ⟨made, hmade, hhistory⟩
  · refine ⟨made ++ [(log, pass)], by rw [hpasses, hmade, append_assoc], ?_⟩
    rw [map_append]
    exact .snoc hhistory (h.pass hreturns)

/-- What a run of such sweeps loses and covers: nothing whatever they were answered, and the
whole views of the shards while their number and the views stay the same. -/
theorem SweepsPages.loses_no_row {rows : R → List X} (h : SweepsPages sweep V maxPages readOf rows)
    (hhead : V.head = "") (hpos : 0 < maxPages)
    (hrun : Runs.exec (Sweeps.step sweep) {} inputs = some σ) :
    Paging.LosesNoRow V (σ.passes.map (SweepPass.paged readOf rows)) σ.rotor.cursors ∧
      ∀ n later τ made, Runs.exec (Sweeps.step sweep) σ later = some τ →
        τ.passes = σ.passes ++ made → (∀ p ∈ made, p.2.shards = n) →
        Paging.CoversViews V maxPages n σ.rotor.cursors
          (made.map (SweepPass.paged readOf rows)) := by
  constructor
  · obtain ⟨made, hmade, hhistory⟩ := h.history hrun
    have hinit : Rotor.state {} = Paging.State.init V := by
      rw [Paging.State.init, hhead]
      rfl
    rw [show σ.passes = made from hmade]
    exact Paging.History.losesNoRow (hinit ▸ hhistory)
  · intro n later τ made hlater hpasses hn
    obtain ⟨made', hmade, hhistory⟩ := h.history hlater
    rw [hmade] at hpasses
    rw [← append_cancel_left hpasses] at hn ⊢
    refine hhistory.coversViews (fun p hp => ?_) hpos
    obtain ⟨q, hq, rfl⟩ := mem_map.mp hp
    exact hn q hq

/-- What holds of every pass a sweep returns holds of every pass of a run. -/
theorem Sweeps.passes_all {J : List (Sigma A) → SweepPass R → Prop}
    (h : ∀ {r log r' pass}, Returns (sweep r) log (r', .ok pass) → J log pass)
    (hrun : Runs.exec (Sweeps.step sweep) {} inputs = some τ) : ∀ p ∈ τ.passes, J p.1 p.2 := by
  refine Runs.exec_invariant (I := fun τ : Sweeps A R => ∀ p ∈ τ.passes, J p.1 p.2) ?_ hrun
    fun p hp => absurd hp not_mem_nil
  intro u answers v hstep hu p hp
  rcases Sweeps.step_inv hstep with ⟨log, e, -, hpasses⟩ | ⟨log, pass, hreturns, hpasses⟩
  · rw [hpasses] at hp
    exact hu p hp
  · rw [hpasses] at hp
    rcases mem_append.mp hp with hp | hp
    · exact hu p hp
    · rw [mem_singleton] at hp
      subst hp
      exact h hreturns

end Factory.Admission
