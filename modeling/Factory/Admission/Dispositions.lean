import Factory.Admission.Rotor

/-!
# The disposition deadline sweep

Model of `internal/admission/dispositions.go` and of the claimant of `reconciler.go`. A pass of
`DispositionReconciler` reads due commands, decides each row by `dispositionSettleable` at the
clock reading of the pass, and asks the store to reject the rows it may, under the session's
reconciliation claim. `SweepResult.recorded` is not in the source: it lists, in order, the rows
`Dispositions` was moved for.

The memo of claims is a list in the order of its entries; the source's map is walked in no
particular order when the claims are given back. Times are nanoseconds.
-/

namespace Factory.Admission

/-! ## Commands -/

/-- `sessionstore.InboxState`; a newer store may have states this build does not know. -/
inductive InboxState where
  | pending
  | claimed
  | applying
  | applied
  | rejected
  | unknown (state : String)
deriving DecidableEq

/-- A Host's claim of a command. -/
structure CommandClaim where
  holder : HostID
  expiresAt : Int
deriving DecidableEq

/-- The evidence that a runtime was authorized to dispatch the command. -/
structure Attempt where
  id : String
deriving DecidableEq

/-- The members of a command's descriptor the sweep reads. -/
structure CommandDescriptor where
  tenant : TenantID
  session : SessionID
  command : CommandID
deriving DecidableEq

structure DispositionInboxRecord where
  descriptor : CommandDescriptor
  state : InboxState
  claim : Option CommandClaim := none
  attempt : Option Attempt := none
  applyDeadline : Int
deriving DecidableEq

/-- `sessionstore.DispositionInboxEntry`: a record with the revision it was read at. -/
structure DispositionInboxEntry where
  record : DispositionInboxRecord
  revision : Nat
deriving DecidableEq

structure DispositionDueCommandPage where
  commands : List DispositionInboxEntry := []
  examined : Nat := 0
  unreadable : Nat := 0
  nextCursor : Cursor := ""
deriving DecidableEq

inductive Disposition where
  | settleable
  | rejected
  | unexpired
  | claimLive
  | applying
  | terminal
  | evidence
  | raceLost
  | deferred
  | unrecognized
deriving DecidableEq

/-! ## Seams -/

/-- `sessionstore.ListDueDispositionCommandsRequest`; the bound is set at the head only. -/
structure ListDueDispositionCommandsRequest where
  shard : Nat
  limit : Nat
  cursor : Cursor
  dueAtOrBefore : Option Int
deriving DecidableEq

structure AcquireReconciliationClaimRequest where
  key : SessionKey
  holder : String
  expiresAt : Int
deriving DecidableEq

structure ReleaseReconciliationClaimRequest where
  key : SessionKey
  holder : String
deriving DecidableEq

/-- `sessionstore.RejectDispositionCommandRequest`; the residency epoch is zero. -/
structure RejectDispositionCommandRequest where
  descriptor : CommandDescriptor
  expectedRevision : Nat
deriving DecidableEq

/-- What the sweep asks of its seams. -/
inductive DispositionAsk where
  | authorizeServiceSweep
  | controlShards
  | now
  | listDueDispositionCommands (request : ListDueDispositionCommandsRequest)
  | acquireReconciliationClaim (request : AcquireReconciliationClaimRequest)
  | rejectDispositionCommand (request : RejectDispositionCommandRequest)
  | releaseReconciliationClaim (request : ReleaseReconciliationClaimRequest)
deriving DecidableEq

/-- What each question is answered; an error is `some`. The answer to a rejection says whether
this call rejected the command. -/
abbrev DispositionAnswer : DispositionAsk → Type
  | .authorizeServiceSweep => Option SeamError
  | .controlShards => Nat
  | .now => Int
  | .listDueDispositionCommands _ => Except SeamError DispositionDueCommandPage
  | .acquireReconciliationClaim _ => Option SeamError
  | .rejectDispositionCommand _ => Except SeamError Bool
  | .releaseReconciliationClaim _ => Option SeamError

/-- `DispositionReconcilerConfig`, less its seams. `NewDispositionReconciler` refuses bounds that
are not positive, and the store has at least one control shard. -/
structure DispositionReconcilerConfig where
  holderID : String
  claimTTL : Int
  pageLimit : Nat
  maxPages : Nat
  minControlShards : Nat
  holderID_ne : holderID ≠ ""
  claimTTL_pos : 0 < claimTTL
  pageLimit_pos : 0 < pageLimit
  maxPages_pos : 0 < maxPages
  minControlShards_pos : 0 < minControlShards

structure SweepResult where
  shard : Nat := 0
  pages : Nat := 0
  examined : Nat := 0
  unreadable : Nat := 0
  due : Nat := 0
  rejected : Nat := 0
  claimed : Nat := 0
  released : Nat := 0
  dispositions : Disposition → Nat := fun _ => 0
  queries : Nat := 0
  releaseFailures : Nat := 0
  truncated : Bool := false
  resumed : Bool := false
  recorded : List (DispositionInboxEntry × Disposition) := []

/-- The result and the memo of claims, which a pass hands from row to row. -/
structure Working where
  result : SweepResult
  held : List (SessionKey × Bool) := []

/-- One more store call. -/
def Working.queried (w : Working) : Working :=
  { w with result := { w.result with queries := w.result.queries + 1 } }

/-- The memo with a session's answer. -/
def Working.hold (w : Working) (key : SessionKey) (taken : Bool) : Working :=
  { w with held := w.held ++ [(key, taken)] }

/-- The counters one disposition moves. -/
def Working.dispose (w : Working) (entry : DispositionInboxEntry) (disposition : Disposition) :
    Working :=
  { w with
    result :=
      { w.result with
        dispositions := fun d =>
          if d = disposition then w.result.dispositions d + 1 else w.result.dispositions d
        recorded := w.result.recorded ++ [(entry, disposition)] } }

/-! ## Claims -/

/-- What `claim` makes of the last error of its attempts. -/
def unresolvedClaim (key : SessionKey) (err : Option SeamError) (w : Working) :
    Except SweepError Bool × Working :=
  if err.bind (·.reconcile) = some .conflict then (.ok false, w.hold key false)
  else (.error ⟨"admission: claim the session's reconciliation work", err⟩, w)

/-- The attempts of `claim`. -/
def acquireClaim (cfg : DispositionReconcilerConfig) (key : SessionKey) (now : Int) :
    Nat → Option SeamError → Working → Dialogue DispositionAnswer (Except SweepError Bool × Working)
  | 0, err, w => pure (unresolvedClaim key err w)
  | attempts + 1, _, w => do
    let w := w.queried
    match ← Dialogue.query (A := DispositionAnswer) (.acquireReconciliationClaim
      { key := key, holder := cfg.holderID, expiresAt := now + cfg.claimTTL }) with
    | none =>
      let w := w.hold key true
      pure (.ok true, { w with result := { w.result with claimed := w.result.claimed + 1 } })
    | some err =>
      match err.reconcile with
      | some .held => pure (.ok false, w.hold key false)
      | some .conflict => acquireClaim cfg key now attempts (some err) w
      | some (.other _) => pure (unresolvedClaim key (some err) w)
      | none => pure (unresolvedClaim key (some err) w)

variable (cfg : DispositionReconcilerConfig)

/-- `claim`: at most once a sweep for each session. -/
def claim (key : SessionKey) (now : Int) (w : Working) :
    Dialogue DispositionAnswer (Except SweepError Bool × Working) :=
  match w.held.lookup key with
  | some answer => pure (.ok answer, w)
  | none => acquireClaim cfg key now 2 none w

/-- `release`, over what is left of the memo. -/
def release (cfg : DispositionReconcilerConfig) :
    List (SessionKey × Bool) → SweepResult → Dialogue DispositionAnswer SweepResult
  | [], result => pure result
  | (_, false) :: rest, result => release cfg rest result
  | (key, true) :: rest, result => do
    let result := { result with queries := result.queries + 1 }
    match ← Dialogue.query (A := DispositionAnswer) (.releaseReconciliationClaim
      { key := key, holder := cfg.holderID }) with
    | some _ => release cfg rest { result with releaseFailures := result.releaseFailures + 1 }
    | none => release cfg rest { result with released := result.released + 1 }

/-! ## Settling a row -/

def dispositionSettleable (record : DispositionInboxRecord) (now : Int) : Disposition :=
  match record.state with
  | .applied | .rejected => .terminal
  | .applying => .applying
  | .unknown _ => .unrecognized
  | .pending | .claimed =>
    if record.attempt.isSome then .applying
    else if record.claim.any (now < ·.expiresAt) then .claimLive
    else if now < record.applyDeadline then .unexpired
    else .settleable

def sessionAbsent (err : SeamError) : Bool :=
  err.catalog.any (fun catalog =>
    catalog.code = .notFound || catalog.code = .deleted || catalog.code = .identity) ||
  err.keyspace = some .bindingNotFound

/-- `dispositionRefusal`; `none` is a fault. -/
def dispositionRefusal (err : SeamError) : Option Disposition :=
  if sessionAbsent err then some .terminal
  else
    match err.inbox with
    | none => none
    | some .state => some .applying
    | some .claimHeld => some .claimLive
    | some .conflict => some .raceLost
    | some .terminal | some .notFound | some .deleted => some .terminal
    | some .cursor | some .evidence | some .claimLost | some (.other _) => none

def refusedDispositionCursor (err : SeamError) : Bool := err.inbox = some .cursor

/-- The request `settle` makes for a row. -/
def DispositionInboxEntry.rejection (entry : DispositionInboxEntry) :
    RejectDispositionCommandRequest :=
  { descriptor := entry.record.descriptor, expectedRevision := entry.revision }

def DispositionInboxEntry.key (entry : DispositionInboxEntry) : SessionKey :=
  ⟨entry.record.descriptor.tenant, entry.record.descriptor.session⟩

/-- What `settle` makes of the answer to its rejection. -/
def settled (entry : DispositionInboxEntry) (w : Working) :
    Except SeamError Bool → Option SweepError × Working
  | .ok false => (none, w.dispose entry .terminal)
  | .ok true =>
    let w := { w with result := { w.result with rejected := w.result.rejected + 1 } }
    (none, w.dispose entry .rejected)
  | .error err =>
    match dispositionRefusal err with
    | some disposition => (none, w.dispose entry disposition)
    | none => (some ⟨"admission: reject the expired disposition command", some err⟩, w)

def DispositionReconciler.settle (now : Int) (entry : DispositionInboxEntry) (w : Working) :
    Dialogue DispositionAnswer (Option SweepError × Working) :=
  let disposition := dispositionSettleable entry.record now
  if disposition ≠ .settleable then pure (none, w.dispose entry disposition)
  else do
    match ← claim cfg entry.key now w with
    | (.error err, w) => pure (some err, w)
    | (.ok false, w) => pure (none, w.dispose entry .deferred)
    | (.ok true, w) =>
      let w := w.queried
      let answer ← Dialogue.query (A := DispositionAnswer)
        (.rejectDispositionCommand entry.rejection)
      pure (settled entry w answer)

/-! ## The sweep -/

/-- What a page read adds to the result, before its rows are settled. -/
def Working.countPage (page : DispositionDueCommandPage) (w : Working) : Working :=
  { w with
    result :=
      { w.result with
        pages := w.result.pages + 1
        examined := w.result.examined + page.examined
        unreadable := w.result.unreadable + page.unreadable
        due := w.result.due + page.commands.length } }

/-- The loop of `page` over a shard, at the clock reading of the pass. -/
def DispositionReconciler.pageLoop (shard : Nat) (now : Int) :
    PageLoop DispositionAnswer DispositionDueCommandPage DispositionInboxEntry Working where
  list cursor := Dialogue.query (A := DispositionAnswer) (.listDueDispositionCommands
    { shard := shard, limit := cfg.pageLimit, cursor := cursor
      dueAtOrBefore := if cursor = "" then some now else none })
  refusedCursor := refusedDispositionCursor
  resumeText := "admission: resume disposition shard " ++ toString shard
  pageText := "admission: page control shard " ++ toString shard ++ " for due disposition commands"
  nextCursor page := page.nextCursor
  rows page := page.commands
  queried := Working.queried
  count := Working.countPage
  work := DispositionReconciler.settle cfg now
  exhausted w := w
  truncated w := { w with result := { w.result with truncated := true } }

def DispositionReconciler.page (shard : Nat) (cursor : Cursor) (w : Working) :
    Dialogue DispositionAnswer (Cursor × Option SweepError × Working) := do
  let now ← Dialogue.query (A := DispositionAnswer) .now
  (DispositionReconciler.pageLoop cfg shard now).pages cfg.maxPages cursor w

/-- `Sweep`: the rotor afterwards, and the pass or the error it returned before one. -/
def DispositionReconciler.sweep (rotor : Rotor) :
    Dialogue DispositionAnswer (Rotor × Except SweepError (SweepPass SweepResult)) := do
  match ← Dialogue.query (A := DispositionAnswer) .authorizeServiceSweep with
  | some err => pure (rotor, .error ⟨"", some err⟩)
  | none =>
    let shards ← Dialogue.query (A := DispositionAnswer) .controlShards
    match rotor.begin cfg.minControlShards shards with
    | none =>
      let text := "admission: the store reports " ++ toString shards ++
        " control shards, so no shard can be swept"
      pure (rotor, .error ⟨text, none⟩)
    | some (shard, cursor, rotor) =>
      let (next, fault, w) ← DispositionReconciler.page cfg shard cursor
        { result := { shard := shard, resumed := cursor ≠ "" } }
      let rotor := rotor.commit shard next
      let result ← release cfg w.held w.result
      pure (rotor,
        .ok { shards := shards, shard := shard, start := cursor, kept := next, result := result
              fault := fault })

end Factory.Admission
