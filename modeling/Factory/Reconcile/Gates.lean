import Factory.Admission.Rotor

/-!
# The gate deadline sweep

Model of `internal/reconcile/gates.go`. A pass of `GateSweeper` counts the gates of a due page
that are still open past their deadline, and asks the store to retire each remnant intent of the
page. `GateSweepResult.recorded` is not in the source: it lists, in order, the rows the counters
`OpenPastDeadline` and `Dispositions` were moved for.
-/

namespace Factory.Reconcile

open Admission

abbrev GateID := String

structure RemnantGateIntent where
  tenant : TenantID
  session : SessionID
  gate : GateID
  revision : Nat
deriving DecidableEq

/-- A due gate the session's record still projects as open; the sweep only counts it. -/
structure DueGate where
  tenant : TenantID
  session : SessionID
  gate : GateID
deriving DecidableEq

structure DueGatePage where
  gates : List DueGate := []
  remnants : List RemnantGateIntent := []
  examined : Nat := 0
  unreadable : Nat := 0
  nextCursor : Cursor := ""
deriving DecidableEq

/-- `sessionstore.ListDueGatesRequest`; the bound is set at the head only. -/
structure ListDueGatesRequest where
  shard : Nat
  limit : Nat
  cursor : Cursor
  dueAtOrBefore : Option Int
deriving DecidableEq

structure RetireGateDeadlineIntentRequest where
  tenant : TenantID
  session : SessionID
  gate : GateID
  revision : Nat
deriving DecidableEq

/-- What the sweep asks of its seams. -/
inductive GateAsk where
  | authorizeServiceSweep
  | controlShards
  | now
  | listDueGates (request : ListDueGatesRequest)
  | retireGateDeadlineIntent (request : RetireGateDeadlineIntentRequest)
deriving DecidableEq

/-- What each question is answered; an error is `some`. -/
abbrev GateAnswer : GateAsk → Type
  | .authorizeServiceSweep => Option SeamError
  | .controlShards => Nat
  | .now => Int
  | .listDueGates _ => Except SeamError DueGatePage
  | .retireGateDeadlineIntent _ => Option SeamError

inductive GateDisposition where
  | retired
  | tooSoon
  | reopened
  | raceLost
  | absent
deriving DecidableEq

/-- A readable row of a due page. -/
inductive GateRow where
  | openPastDeadline (gate : DueGate)
  | remnant (intent : RemnantGateIntent)
deriving DecidableEq

/-- A row a pass accounted for. -/
inductive GateRecord where
  | openPastDeadline (gate : DueGate)
  | disposed (intent : RemnantGateIntent) (disposition : GateDisposition)
deriving DecidableEq

def GateRecord.row : GateRecord → GateRow
  | .openPastDeadline gate => .openPastDeadline gate
  | .disposed intent _ => .remnant intent

structure GateSweepResult where
  shard : Nat := 0
  pages : Nat := 0
  examined : Nat := 0
  unreadable : Nat := 0
  remnants : Nat := 0
  openPastDeadline : Nat := 0
  retired : Nat := 0
  dispositions : GateDisposition → Nat := fun _ => 0
  queries : Nat := 0
  resumed : Bool := false
  exhausted : Bool := false
  truncated : Bool := false
  recorded : List GateRecord := []

/-- `GateSweeperConfig`, less its seams. `NewGateSweeper` refuses bounds that are not positive,
and the store has at least one control shard. -/
structure GateSweeperConfig where
  pageLimit : Nat
  maxPages : Nat
  minControlShards : Nat
  pageLimit_pos : 0 < pageLimit
  maxPages_pos : 0 < maxPages
  minControlShards_pos : 0 < minControlShards

/-- `GateSweeper`, less its configuration: the rotor and the cursors. -/
abbrev GateSweeper := Rotor

/-- `classifyRetirement`; `none` is an answer there is no disposition for. -/
def classifyRetirement : Option SeamError → Option GateDisposition
  | none => some .retired
  | some err =>
    match err.catalog with
    | none => none
    | some catalog =>
      if catalog.code = .tooSoon then some .tooSoon
      else if catalog.code = .conflict ∧ catalog.field = "gate_id" then some .reopened
      else if catalog.code = .conflict ∧ catalog.field = "gate_intent" then some .raceLost
      else if catalog.code = .notFound ∧ catalog.field = "gate_intent" then some .absent
      else none

def refusedCursor (err : SeamError) : Bool :=
  match err.catalog with
  | none => false
  | some catalog => catalog.code = .cursor

/-- The counters one disposition moves. -/
def GateSweepResult.dispose (r : GateSweepResult) (remnant : RemnantGateIntent)
    (disposition : GateDisposition) : GateSweepResult :=
  { r with
    dispositions := fun d => if d = disposition then r.dispositions d + 1 else r.dispositions d
    retired := if disposition = .retired then r.retired + 1 else r.retired
    recorded := r.recorded ++ [.disposed remnant disposition] }

def GateSweeper.retire (remnant : RemnantGateIntent) (result : GateSweepResult) :
    Dialogue GateAnswer (Option SweepError × GateSweepResult) := do
  let result := { result with queries := result.queries + 1 }
  let err ← Dialogue.query (A := GateAnswer) (.retireGateDeadlineIntent
    { tenant := remnant.tenant, session := remnant.session, gate := remnant.gate
      revision := remnant.revision })
  match classifyRetirement err with
  | none =>
    let text := "reconcile: retire gate deadline intent " ++ remnant.tenant ++ "/" ++
      remnant.session ++ "/" ++ remnant.gate
    pure (some ⟨text, err⟩, result)
  | some disposition => pure (none, result.dispose remnant disposition)

/-- What a page read adds to the result, before its remnants are retired. -/
def GateSweepResult.countPage (page : DueGatePage) (r : GateSweepResult) : GateSweepResult :=
  { r with
    pages := r.pages + 1
    examined := r.examined + page.examined
    unreadable := r.unreadable + page.unreadable
    remnants := r.remnants + page.remnants.length
    openPastDeadline := r.openPastDeadline + page.gates.length
    recorded := r.recorded ++ page.gates.map .openPastDeadline }

/-- The loop of `page` over a shard, at the clock reading of the pass. -/
def GateSweeper.pageLoop (cfg : GateSweeperConfig) (shard : Nat) (now : Int) :
    PageLoop GateAnswer DueGatePage RemnantGateIntent GateSweepResult where
  list cursor := Dialogue.query (A := GateAnswer) (.listDueGates
    { shard := shard, limit := cfg.pageLimit, cursor := cursor
      dueAtOrBefore := if cursor = "" then some now else none })
  refusedCursor := refusedCursor
  resumeText := "reconcile: resume gate shard " ++ toString shard
  pageText := "reconcile: page gate shard " ++ toString shard
  nextCursor page := page.nextCursor
  rows page := page.remnants
  queried result := { result with queries := result.queries + 1 }
  count := GateSweepResult.countPage
  work := GateSweeper.retire
  exhausted result := { result with exhausted := true }
  truncated result := { result with truncated := true }

def GateSweeper.page (cfg : GateSweeperConfig) (shard : Nat) (cursor : Cursor)
    (result : GateSweepResult) :
    Dialogue GateAnswer (Cursor × Option SweepError × GateSweepResult) := do
  let now ← Dialogue.query (A := GateAnswer) .now
  (GateSweeper.pageLoop cfg shard now).pages cfg.maxPages cursor result

/-- `Sweep`: the sweeper afterwards, and the pass or the error it returned before one. -/
def GateSweeper.sweep (cfg : GateSweeperConfig) (s : GateSweeper) :
    Dialogue GateAnswer (GateSweeper × Except SweepError (SweepPass GateSweepResult)) := do
  match ← Dialogue.query (A := GateAnswer) .authorizeServiceSweep with
  | some err => pure (s, .error ⟨"", some err⟩)
  | none =>
    let shards ← Dialogue.query (A := GateAnswer) .controlShards
    match s.begin cfg.minControlShards shards with
    | none =>
      let text := "reconcile: the store reports " ++ toString shards ++
        " control shards, so no shard can be swept"
      pure (s, .error ⟨text, none⟩)
    | some (shard, cursor, s) =>
      let (next, fault, result) ← GateSweeper.page cfg shard cursor
        { shard := shard, resumed := cursor ≠ "" }
      pure (s.commit shard next,
        .ok { shards := shards, shard := shard, start := cursor, kept := next, result := result
              fault := fault })

end Factory.Reconcile
