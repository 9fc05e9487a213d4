import Factory.Admission.Dispositions

/-!
# The legacy deadline sweep

Model of `Reconciler` of `internal/admission/reconciler.go`, which settles the expired commands of
the legacy inbox. It shares the rotor and the claimant with the disposition sweep, and asks for
its claims through them (`claimant`); its page loop always starts at the head of the due view and
keeps no position.
-/

namespace Factory.Admission

/-! ## Commands -/

/-- The members of `sessionstore.InboxRecord` the sweep reads. An unclaimed record has the zero
claim, which expired at the zero instant. -/
structure InboxRecord where
  tenant : TenantID
  session : SessionID
  command : CommandID
  state : InboxState
  claim : CommandClaim
  applyDeadline : Int
deriving DecidableEq

structure InboxEntry where
  record : InboxRecord
  revision : Nat
deriving DecidableEq

def InboxEntry.key (entry : InboxEntry) : SessionKey := ⟨entry.record.tenant, entry.record.session⟩

structure DueCommandPage where
  commands : List InboxEntry := []
  examined : Nat := 0
  unreadable : Nat := 0
  nextCursor : Cursor := ""
deriving DecidableEq

/-! ## Seams -/

/-- `sessionstore.ListDueCommandsRequest`; the bound is set at the head only. -/
structure ListDueCommandsRequest where
  shard : Nat
  limit : Nat
  cursor : Cursor
  dueAtOrBefore : Option Int
deriving DecidableEq

/-- `sessionstore.RejectCommandRequest`; the lease epoch is zero. -/
structure RejectCommandRequest where
  tenant : TenantID
  session : SessionID
  command : CommandID
  expectedRevision : Nat
  rejection : ErrorDetail
deriving DecidableEq

/-- What the sweep asks of its seams: what both sweeps ask, and the legacy inbox. -/
inductive ReconcilerAsk where
  | shared (ask : DispositionAsk)
  | listDueCommands (request : ListDueCommandsRequest)
  | rejectCommand (request : RejectCommandRequest)
deriving DecidableEq

/-- What each question is answered; an error is `some`. -/
abbrev ReconcilerAnswer : ReconcilerAsk → Type
  | .shared ask => DispositionAnswer ask
  | .listDueCommands _ => Except SeamError DueCommandPage
  | .rejectCommand _ => Option SeamError

/-- `ReconcilerConfig`, whose members the disposition sweep's mean the same as. -/
abbrev ReconcilerConfig := DispositionReconcilerConfig

/-- A part of the sweep that is the disposition sweep's too. -/
def claimant {α : Type} (part : Dialogue DispositionAnswer α) : Dialogue ReconcilerAnswer α :=
  Dialogue.embed (B := ReconcilerAnswer) .shared part

/-! ## Settling a row -/

def settleable (record : InboxRecord) (now : Int) : Disposition :=
  if record.state = .applied ∨ record.state = .rejected then .terminal
  else if record.state = .applying then .applying
  else if now < record.claim.expiresAt then .claimLive
  else if now < record.applyDeadline then .unexpired
  else .settleable

/-- `settlementRefusal`; `none` is a fault. -/
def settlementRefusal (err : SeamError) : Option Disposition :=
  match err.inbox with
  | none => none
  | some .evidence => some .evidence
  | some .claimHeld => some .claimLive
  | some .claimLost => some .applying
  | some .conflict => some .raceLost
  | some .terminal | some .notFound | some .deleted => some .terminal
  | some .cursor | some .state | some (.other _) => none

def expiredCommandRejection : ErrorDetail := { code := .runtimeUnavailable }

/-- The request `settle` makes for a row. -/
def InboxEntry.rejection (entry : InboxEntry) : RejectCommandRequest :=
  { tenant := entry.record.tenant, session := entry.record.session
    command := entry.record.command, expectedRevision := entry.revision
    rejection := expiredCommandRejection }

/-- `Dispositions[disposition]++`. -/
def Working.tally (w : Working) (disposition : Disposition) : Working :=
  { w with
    result :=
      { w.result with
        dispositions := fun d =>
          if d = disposition then w.result.dispositions d + 1 else w.result.dispositions d } }

/-- What `settle` makes of the answer to its rejection. -/
def Reconciler.settled (w : Working) : Option SeamError → Option SweepError × Working
  | none =>
    let w := { w with result := { w.result with rejected := w.result.rejected + 1 } }
    (none, w.tally .rejected)
  | some err =>
    match settlementRefusal err with
    | some disposition => (none, w.tally disposition)
    | none => (some ⟨"admission: settle the expired command", some err⟩, w)

variable (cfg : ReconcilerConfig)

def Reconciler.settle (now : Int) (entry : InboxEntry) (w : Working) :
    Dialogue ReconcilerAnswer (Option SweepError × Working) :=
  let disposition := settleable entry.record now
  if disposition ≠ .settleable then pure (none, w.tally disposition)
  else do
    match ← claimant (claim cfg entry.key now w) with
    | (.error err, w) => pure (some err, w)
    | (.ok false, w) => pure (none, w.tally .deferred)
    | (.ok true, w) =>
      let w := w.queried
      let answer ← Dialogue.query (A := ReconcilerAnswer) (.rejectCommand entry.rejection)
      pure (Reconciler.settled w answer)

/-! ## The sweep -/

/-- What a page read adds to the result, before its rows are settled. -/
def Working.countDue (page : DueCommandPage) (w : Working) : Working :=
  { w with
    result :=
      { w.result with
        pages := w.result.pages + 1
        examined := w.result.examined + page.examined
        unreadable := w.result.unreadable + page.unreadable
        due := w.result.due + page.commands.length } }

/-- The loop of `page` over a shard, at the clock reading of the pass. No error of a page read is
told apart as a refused cursor. -/
def Reconciler.pageLoop (shard : Nat) (now : Int) :
    PageLoop ReconcilerAnswer DueCommandPage InboxEntry Working where
  list cursor := Dialogue.query (A := ReconcilerAnswer) (.listDueCommands
    { shard := shard, limit := cfg.pageLimit, cursor := cursor
      dueAtOrBefore := if cursor = "" then some now else none })
  refusedCursor _ := false
  resumeText := ""
  pageText := "admission: page control shard " ++ toString shard ++ " for due commands"
  nextCursor page := page.nextCursor
  rows page := page.commands
  queried := Working.queried
  count := Working.countDue
  work := Reconciler.settle cfg now
  exhausted w := w
  truncated w := { w with result := { w.result with truncated := true } }

/-- `page`: the position the loop stopped at is dropped. -/
def Reconciler.page (shard : Nat) (w : Working) :
    Dialogue ReconcilerAnswer (Option SweepError × Working) := do
  let now ← Dialogue.query (A := ReconcilerAnswer) (.shared .now)
  let (_, fault, w) ← (Reconciler.pageLoop cfg shard now).pages cfg.maxPages "" w
  pure (fault, w)

/-- `Sweep`: the rotor afterwards, and the pass or the error it returned before one. A pass starts
at the head and keeps no position. -/
def Reconciler.sweep (rotor : Rotor) :
    Dialogue ReconcilerAnswer (Rotor × Except SweepError (SweepPass SweepResult)) := do
  match ← Dialogue.query (A := ReconcilerAnswer) (.shared .authorizeServiceSweep) with
  | some err => pure (rotor, .error ⟨"", some err⟩)
  | none =>
    let shards ← Dialogue.query (A := ReconcilerAnswer) (.shared .controlShards)
    match rotor.rotate cfg.minControlShards shards with
    | none =>
      let text := "admission: the store reports " ++ toString shards ++
        " control shards, so no shard can be swept"
      pure (rotor, .error ⟨text, none⟩)
    | some (shard, rotor) =>
      let (fault, w) ← Reconciler.page cfg shard { result := { shard := shard } }
      let result ← claimant (release cfg w.held w.result)
      pure (rotor,
        .ok { shards := shards, shard := shard, start := "", kept := "", result := result
              fault := fault })

end Factory.Admission
