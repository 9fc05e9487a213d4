import Factory.Placement.Desired

/-!
# The calls that place sessions

The two triggers of `internal/placement/pending.go` as programs over the seams of placement: the
periodic `Sweep`, which hands the sessions of one shard's due view to `Reconcile`, and
`PlaceAdmissionWith`, which inventories one session for a command just admitted.

`PendingSweep` models the same `Sweep` as a function of everything it is answered;
`sweeping_returns` says that the program computes that function.
-/

namespace Factory.Placement

open Dialogue
open Admission (SeamError)

/-! ## The sweep -/

/-- `collectPages`, with so many pages left. -/
def collecting (cfg : PendingSweeperConfig) (shard : Nat) (now : Int) :
    Nat → Collected → Dialogue PlaceAnswer Collected
  | 0, c => pure { c with truncated := true }
  | n + 1, c => do
    let request : ListDueRequest :=
      { shard := shard, limit := cfg.pageLimit, cursor := c.cursor
        dueAtOrBefore := if c.cursor = "" then some (now + cfg.horizon) else none }
    let c := { c with requests := c.requests ++ [request] }
    match ← seam (.listDueDispositionCommands request) with
    | .error .refusedCursor =>
      pure { c with order := [], cursor := "", fault := some .refusedCursor }
    | .error .other => pure { c with order := [], fault := some .other }
    | .ok page =>
      let c :=
        { c with
          order := page.commands.foldl (addEntry now) c.order
          read := c.read ++ [(c.cursor, page)]
          cursor := page.nextCursor }
      if page.nextCursor = "" then pure c else collecting cfg shard now n c

/-- How the loop of `Sweep` counts what `Reconcile` returned. -/
def sweepAnswer : Except ReconcileFault Reconciled → Dialogue PlaceAnswer ReconcileAnswer
  | .error .sessionReleased => pure .released
  | .error .noWorkloadController => pure .noController
  | .error _ => do
    let done ← seam .contextDone
    pure (.failed done)
  | .ok placed =>
    pure (.placed placed.deferred placed.result.decision.outcome placed.result.attached.isSome)

/-- The request of a session, which names no desire of its own. -/
def OpenSession.reconcileRequest (session : OpenSession) : ReconcileRequest :=
  { session.request with }

/-- The loop of `Sweep` over the collected sessions. -/
def placing (placer : PlacerConfig) : List OpenSession → Placed → Dialogue PlaceAnswer Placed
  | [], p => pure p
  | session :: rest, p =>
    if session.needsHost then do
      let out ← placer.reconcile session.reconcileRequest
      let answer ← sweepAnswer out
      let counted := { p.result with sessions := p.result.sessions + 1 }.count answer
      let p := { p with result := counted, handed := p.handed ++ [session.request] }
      if answer = .failed true then pure { p with aborted := true } else placing placer rest p
    else placing placer rest p

variable (cfg : PendingSweeperConfig)

/-- `Sweep`. -/
def PendingSweeper.sweeping (placer : PlacerConfig) (s : PendingSweeper) :
    Dialogue PlaceAnswer (PendingSweeper × Option Pass) := do
  match ← seam .authorizeServiceSweep with
  | some _ => pure (s, none)
  | none =>
    let shards ← seam .controlShards
    match s.begin cfg shards with
    | none => pure (s, none)
    | some (shard, start, s) =>
      let now ← seam .now
      let c ← collecting cfg shard now cfg.maxPages { cursor := start }
      let s := s.commit shard c.cursor
      let placed : Placed := { result := c.result shard start }
      let placed ← if c.fault = none then placing placer c.order placed else pure placed
      pure (s, some { shard := shard, now := now, start := start, collected := c
                      placed := placed })

/-! ## The admission trigger -/

structure AdmissionNotice where
  key : SessionKey
  command : CommandID
  acceptedOrder : Nat
  deadline : Int
  pending : Bool
deriving DecidableEq

/-- What of `PendingSweeperConfig` only the admission trigger reads: whether the catalog and the
directory are set, and whether the session's own inbox is. -/
structure AdmissionSeams where
  fastPath : Bool
  sessionCommands : Bool
deriving DecidableEq

/-- Why `PlaceAdmissionWith` failed. -/
inductive AdmissionFault where
  | seam (err : SeamError)
  | page (fault : PageFault)
  | pageDidNotAdvance
  | reconcile (fault : ReconcileFault)
deriving DecidableEq

/-- `collectAdmissionFallback`, from a shard on with so many pages left. -/
def admissionFallback (cfg : PendingSweeperConfig) (notice : AdmissionNotice) :
    List Nat → Nat → Dialogue PlaceAnswer (Except AdmissionFault (Option OpenSession))
  | [], _ => pure (.ok none)
  | shard :: rest, remaining =>
    if remaining = 0 then pure (.ok none)
    else do
      let now ← seam .now
      let c ← collecting cfg shard now remaining { cursor := "" }
      match c.fault with
      | some fault => pure (.error (.page fault))
      | none =>
        match c.order.find? (·.key = notice.key) with
        | some session =>
          pure (.ok (if c.truncated || !session.wake.contains notice.command then none
            else some session))
        | none => admissionFallback cfg notice rest (remaining - c.read.length)

def collectAdmissionFallback (notice : AdmissionNotice) :
    Dialogue PlaceAnswer (Except AdmissionFault (Option OpenSession)) := do
  let shards ← seam .controlShards
  admissionFallback cfg notice (List.range shards) 2

/-- The entries of one page, each added at the clock of its own turn. -/
def addCommands : List InboxEntry → OpenSession → Dialogue PlaceAnswer OpenSession
  | [], target => pure target
  | entry :: rest, target => do
    let now ← seam .now
    addCommands rest (target.add entry now)

/-- The loop of `collectAdmissionSession`, with so many pages left. -/
def sessionPages (cfg : PendingSweeperConfig) (notice : AdmissionNotice) :
    Nat → Nat → OpenSession → Dialogue PlaceAnswer (Except AdmissionFault OpenSession)
  | 0, _, target => pure (.ok target)
  | n + 1, after, target => do
    match ← seam (.listSessionDispositionCommands notice.key after cfg.pageLimit) with
    | .error err => pure (.error (.seam err))
    | .ok page =>
      if page.commands.isEmpty then pure (.ok target)
      else if page.nextAfterOrder ≤ after then pure (.error .pageDidNotAdvance)
      else do
        let target ← addCommands page.commands target
        if notice.acceptedOrder ≤ page.nextAfterOrder ∧ notice.command ∈ target.wake then
          pure (.ok target)
        else if page.commands.length < cfg.pageLimit then pure (.ok target)
        else sessionPages cfg notice n page.nextAfterOrder target

def collectAdmissionSession (notice : AdmissionNotice) :
    Dialogue PlaceAnswer (Except AdmissionFault (Option OpenSession)) := do
  match ← sessionPages cfg notice cfg.maxPages 0 { key := notice.key } with
  | .error fault => pure (.error fault)
  | .ok target =>
    if notice.command ∈ target.wake then pure (.ok (some target))
    else collectAdmissionFallback cfg notice

/-- The inventory of `PlaceAdmissionWith`. -/
def collectAdmission (seams : AdmissionSeams) (notice : AdmissionNotice) :
    Dialogue PlaceAnswer (Except AdmissionFault (Option OpenSession)) :=
  if seams.sessionCommands then collectAdmissionSession cfg notice
  else collectAdmissionFallback cfg notice

/-- What `PlaceAdmissionWith` does with the session it found. -/
def placeFound (placer : PlacerConfig) : Except AdmissionFault (Option OpenSession) →
    Dialogue PlaceAnswer (Except AdmissionFault Reconciled)
  | .error fault => pure (.error fault)
  | .ok none => pure (.ok {})
  | .ok (some target) =>
    if target.needsHost then do
      match ← placer.reconcile target.reconcileRequest with
      | .error fault => pure (.error (.reconcile fault))
      | .ok placed => pure (.ok placed)
    else pure (.ok {})

def placeInventory (seams : AdmissionSeams) (placer : PlacerConfig) (notice : AdmissionNotice) :
    Dialogue PlaceAnswer (Except AdmissionFault Reconciled) := do
  let found ← collectAdmission cfg seams notice
  placeFound placer found

def placeAdmissionWith (seams : AdmissionSeams) (placer : PlacerConfig) (notice : AdmissionNotice) :
    Dialogue PlaceAnswer (Except AdmissionFault Reconciled) := do
  match ← seam .authorizeServiceSweep with
  | some err => pure (.error (.seam err))
  | none =>
    if !notice.pending then pure (.ok {})
    else do
      let now ← seam .now
      if notice.deadline ≤ now then pure (.ok {})
      else if seams.fastPath then do
        match ← seam (.getCatalogEntry notice.key) with
        | .error err => pure (.error (.seam err))
        | .ok entry =>
          match ← seam (.owner notice.key) with
          | .error err => pure (.error (.seam err))
          | .ok none => placeInventory cfg seams placer notice
          | .ok (some owner) =>
            let now ← seam .now
            if settledOwner entry.record now owner then pure (.ok {})
            else placeInventory cfg seams placer notice
      else placeInventory cfg seams placer notice

/-! ## The program computes the pass -/

/-- The answers a function of the call number gives from a number on. -/
def AnswersFrom {α : Type} (answers : Nat → α) (i : Nat) (given : List α) : Prop :=
  ∀ j a, given[j]? = some a → answers (i + j) = a

theorem AnswersFrom.head {α : Type} {answers : Nat → α} {i : Nat} {a : α} {given : List α}
    (h : AnswersFrom answers i (a :: given)) : answers i = a := h 0 a rfl

theorem AnswersFrom.tail {α : Type} {answers : Nat → α} {i : Nat} {a : α} {given : List α}
    (h : AnswersFrom answers i (a :: given)) : AnswersFrom answers (i + 1) given := by
  intro j b hb
  have hnumber : i + 1 + j = i + (j + 1) := by omega
  rw [hnumber]
  exact h (j + 1) b hb

theorem answersFrom_getD {α : Type} (given : List α) (a : α) :
    AnswersFrom (fun i => given.getD i a) 0 given := by
  intro j b hb
  rw [Nat.zero_add]
  simp only [List.getD_eq_getElem?_getD, hb, Option.getD_some]

variable {log : List (Sigma PlaceAnswer)}

theorem collecting_returns {cfg : PendingSweeperConfig} {shard : Nat} {now : Int} {n : Nat}
    {c out : Collected} (h : Returns (collecting cfg shard now n c) log out) :
    ∃ given, ∀ pages i, AnswersFrom pages i given →
      collectPages cfg shard now pages n i c = out := by
  induction n generalizing c log with
  | zero =>
    obtain ⟨-, rfl⟩ := returns_pure.mp h
    exact ⟨[], fun _ _ _ => rfl⟩
  | succ n ih =>
    obtain ⟨answer, rest, -, hrest⟩ := returns_query_bind.mp h
    match answer, hrest with
    | .error fault, hrest =>
      refine ⟨[.error fault], fun pages i hgiven => ?_⟩
      cases fault <;> obtain ⟨-, rfl⟩ := returns_pure.mp hrest <;>
        simp only [collectPages, hgiven.head]
    | .ok page, hrest =>
      dsimp only at hrest
      split at hrest
      · next hlast =>
        obtain ⟨-, rfl⟩ := returns_pure.mp hrest
        refine ⟨[.ok page], fun pages i hgiven => ?_⟩
        simp only [collectPages, hgiven.head, if_pos hlast]
      · next hmore =>
        obtain ⟨given, hih⟩ := ih hrest
        refine ⟨.ok page :: given, fun pages i hgiven => ?_⟩
        simp only [collectPages, hgiven.head, if_neg hmore]
        exact hih pages (i + 1) hgiven.tail

theorem placing_returns {placer : PlacerConfig} {sessions : List OpenSession} {p out : Placed}
    (h : Returns (placing placer sessions p) log out) :
    ∃ given, ∀ answers i, AnswersFrom answers i given → placeAll answers sessions i p = out := by
  induction sessions generalizing p log with
  | nil =>
    obtain ⟨-, rfl⟩ := returns_pure.mp h
    exact ⟨[], fun _ _ _ => rfl⟩
  | cons session sessions ih =>
    unfold placing at h
    split at h
    · next hneeds =>
      obtain ⟨_, _, _, -, -, hreconciled⟩ := returns_bind.mp h
      obtain ⟨_, _, answer, -, -, hanswer⟩ := returns_bind.mp hreconciled
      split at hanswer
      · next haborted =>
        obtain ⟨-, rfl⟩ := returns_pure.mp hanswer
        refine ⟨[answer], fun answers i hgiven => ?_⟩
        simp only [placeAll, hneeds, if_true, hgiven.head, if_pos haborted]
      · next hgoes =>
        obtain ⟨given, hih⟩ := ih hanswer
        refine ⟨answer :: given, fun answers i hgiven => ?_⟩
        simp only [placeAll, hneeds, if_true, hgiven.head, if_neg hgoes]
        exact hih answers (i + 1) hgiven.tail
    · next hneeds =>
      obtain ⟨given, hih⟩ := ih h
      refine ⟨given, fun answers i hgiven => ?_⟩
      simp only [placeAll, hneeds]
      exact hih answers i hgiven

/-- The program of a sweep is the sweep, for some answers. -/
theorem sweeping_returns {cfg : PendingSweeperConfig} {placer : PlacerConfig} {s : PendingSweeper}
    {out : PendingSweeper × Option Pass} (h : Returns (s.sweeping cfg placer) log out)
    : ∃ input, s.sweep cfg input = out := by
  obtain ⟨refused, rest, -, hrest⟩ := returns_query_bind.mp h
  cases refused with
  | some err =>
    obtain ⟨-, rfl⟩ := returns_pure.mp hrest
    exact ⟨{ authorized := false, shards := 0, now := 0, pages := fun _ => .error .other
             reconciles := fun _ => .released }, rfl⟩
  | none =>
    obtain ⟨shards, rest, -, hrest⟩ := returns_query_bind.mp hrest
    cases hbegin : s.begin cfg shards with
    | none =>
      simp only [hbegin] at hrest
      obtain ⟨-, rfl⟩ := returns_pure.mp hrest
      refine ⟨{ shards := shards, now := 0, pages := fun _ => .error .other
                reconciles := fun _ => .released }, ?_⟩
      simp only [PendingSweeper.sweep, hbegin, if_true]
    | some begun =>
      obtain ⟨shard, start, s'⟩ := begun
      simp only [hbegin] at hrest
      obtain ⟨now, rest, -, hrest⟩ := returns_query_bind.mp hrest
      obtain ⟨_, _, c, -, hcollected, hrest⟩ := returns_bind.mp hrest
      obtain ⟨pages, hpages⟩ := collecting_returns hcollected
      have hc := hpages _ 0 (answersFrom_getD pages (.error .other))
      split at hrest
      · next hfault =>
        obtain ⟨_, _, placed, -, hplaced, hrest⟩ := returns_bind.mp hrest
        obtain ⟨-, rfl⟩ := returns_pure.mp hrest
        obtain ⟨answers, hanswers⟩ := placing_returns hplaced
        have hp := hanswers _ 0 (answersFrom_getD answers .released)
        refine ⟨{ shards := shards, now := now, pages := fun i => pages.getD i (.error .other)
                  reconciles := fun i => answers.getD i .released }, ?_⟩
        simp only [PendingSweeper.sweep, hbegin, if_true, hc, if_pos hfault, hp]
      · next hfault =>
        obtain ⟨-, rfl⟩ := returns_pure.mp hrest
        refine ⟨{ shards := shards, now := now, pages := fun i => pages.getD i (.error .other)
                  reconciles := fun _ => .released }, ?_⟩
        simp only [PendingSweeper.sweep, hbegin, if_true, hc, if_neg hfault]

/-! ## What a pass counts -/

/-- One session and one answer of the placer are counted for each request handed to it. -/
def Placed.Accounts : Placed → Prop
  | ⟨r, handed, _⟩ => r.sessions = handed.length ∧
    r.released + r.noController + r.failures + r.deferred + r.outcomes .undecided +
      r.outcomes .reuseOwner + r.outcomes .attachPooled + r.outcomes .reconcileDedicated +
      r.outcomes .noCapacity = handed.length

theorem Placed.Accounts.next {p : Placed} (h : p.Accounts) (request : Request)
    (answer : ReconcileAnswer) (aborted : Bool) :
    Placed.Accounts ⟨{ p.result with sessions := p.result.sessions + 1 }.count answer,
      p.handed ++ [request], aborted⟩ := by
  obtain ⟨hsessions, hanswers⟩ := h
  rcases answer with _ | _ | _ | ⟨_ | _, _ | _, _⟩ <;>
    simp [PendingSweepResult.count, Accounts] <;> omega

theorem placeAll_accounts {answers order i} {p : Placed} (hp : p.Accounts) :
    (placeAll answers order i p).Accounts := by
  fun_induction placeAll answers order i p <;> grind [Placed.Accounts.next]

theorem sweep_accounts {cfg s' input pass} {s : PendingSweeper}
    (h : s.sweep cfg input = (s', some pass)) : pass.placed.Accounts := by
  have hbegun (c : Collected) n k : Placed.Accounts { result := c.result n k } := ⟨rfl, rfl⟩
  grind [PendingSweeper.sweep, placeAll_accounts]

end Factory.Placement
