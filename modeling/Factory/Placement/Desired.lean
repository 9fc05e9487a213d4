import Factory.Admission.Dispositions
import Factory.Placement.Attach

/-!
# Desired state

Model of `internal/placement/reconciler.go`: `Reconcile` with the two writers of a session's
desired state, `ensureDesired` and `reviveReleased`. Both run one loop over the record they were
handed: it is kept as it is, or a compare-and-swap at its revision is asked for, and a conflict
reads the record again (`rewrite`).

What `Reconcile` does once the desire is settled (`wake`, `placePooled` and `placeDedicated`, which
write no catalog record) is one question of it here; `Attach` models the pooled arm. Errors are
those `errors.As` finds, as in the sweeps.
-/

namespace Factory.Placement

open Admission (SeamError AcquireReconciliationClaimRequest ReleaseReconciliationClaimRequest)

/-! ## Records -/

structure DesiredWorkload where
  payloadVersion : String := ""
  payload : Bytes := []
deriving DecidableEq

structure Desired where
  placement : HostPlacement
  runtimeCompatibility : String
  workload : DesiredWorkload
deriving DecidableEq

/-- `sessionstore.CatalogRecord` with what a desired-state write reads and writes: the workload,
the idempotency key of the last write, and the workload the public create kept, if the session was
created by one. -/
structure DesiredRecord extends CatalogRecord where
  desiredWorkload : DesiredWorkload
  idempotencyKey : String
  publicCreate : Option DesiredWorkload
deriving DecidableEq

structure CatalogEntry where
  record : DesiredRecord
  revision : Nat
deriving DecidableEq

def firstDesiredGeneration : Nat := 1

def released (record : DesiredRecord) : Bool :=
  record.desiredPlacement == .dedicated &&
    decide (firstDesiredGeneration < record.desiredGeneration) &&
    record.desiredWorkload.payloadVersion == "" && record.desiredWorkload.payload.isEmpty

def launchTemplate (record : DesiredRecord) : Option DesiredWorkload :=
  record.publicCreate.filter fun workload =>
    !(workload.payloadVersion == "" || workload.payload.isEmpty)

def storedDesired (record : DesiredRecord) (desired : Desired) : Bool :=
  record.desiredPlacement == desired.placement &&
    record.runtimeCompatibility == desired.runtimeCompatibility &&
    record.desiredWorkload.payloadVersion == desired.workload.payloadVersion &&
    record.desiredWorkload.payload == desired.workload.payload

/-! ## Keys -/

def HostPlacement.name : HostPlacement → String
  | .pooled => "pooled"
  | .dedicated => "dedicated"
  | .other name => name

/-- `framedDigest`: the hash of the fields, each as its decimal length, a NUL and its bytes. -/
def framedDigest (sha256 : Bytes → String) (fields : List Bytes) : String :=
  sha256 (fields.flatMap (Framing.counted 0))

/-- The fields of an intent for a session, as both keys frame them. -/
def intentFields (key : SessionKey) (desired : Desired) : List Bytes :=
  [key.tenant, key.session, desired.placement.name, desired.runtimeCompatibility,
    desired.workload.payloadVersion].map Framing.utf8 ++ [desired.workload.payload]

def desiredKey (sha256 : Bytes → String) (key : SessionKey) (desired : Desired) : String :=
  "placement-" ++ framedDigest sha256 (intentFields key desired)

def reviveKey (sha256 : Bytes → String) (key : SessionKey) (desired : Desired)
    (releasedGeneration : Nat) : String :=
  "revive-" ++ framedDigest sha256
    (intentFields key desired ++ [Framing.utf8 (toString releasedGeneration)])

/-! ## Seams -/

structure UpdateCatalogDesiredStateRequest where
  key : SessionKey
  expectedRevision : Nat
  idempotencyKey : String
  desired : Desired
deriving DecidableEq

/-- `Request`, whole. -/
structure ReconcileRequest extends Request where
  desired : Option Desired := none
deriving DecidableEq

/-- Why `Reconcile` failed. -/
inductive ReconcileFault where
  | seam (err : SeamError)
  | noLaunchTemplate (session : SessionID)
  | sessionReleased
  | noWorkloadController
deriving DecidableEq

/-- What `Reconcile` returned without an error. -/
structure Reconciled where
  result : Result := {}
  deferred : Bool := false
deriving DecidableEq

/-- What placement asks of its seams. `ensureWorkload` is given the record whose intent it is, and
its error is that of the intent or of the controller. -/
inductive PlaceAsk where
  | authorizeServiceSweep
  | controlShards
  | now
  | contextDone
  | listDueDispositionCommands (request : ListDueRequest)
  | listSessionDispositionCommands (key : SessionKey) (afterOrder limit : Nat)
  | getCatalogEntry (key : SessionKey)
  | owner (key : SessionKey)
  | acquireReconciliationClaim (request : AcquireReconciliationClaimRequest)
  | releaseReconciliationClaim (request : ReleaseReconciliationClaimRequest)
  | updateCatalogDesiredState (request : UpdateCatalogDesiredStateRequest)
  | candidates (agent runtimeCompatibility : String) (placement : HostPlacement) (limit : Nat)
  | ensureWorkload (record : DesiredRecord)
  | wake (req : Request) (owner : OwnerObservation)
  | placePooled (req : Request) (writes : Nat)
  | placeDedicated (req : Request) (writes : Nat) (record : DesiredRecord)
deriving DecidableEq

/-- `sessionstore.SessionDispositionCommandPage`. -/
structure SessionPage where
  commands : List InboxEntry := []
  nextAfterOrder : Nat := 0
deriving DecidableEq

/-- What each question is answered; an error is `some`. -/
abbrev PlaceAnswer : PlaceAsk → Type
  | .authorizeServiceSweep => Option SeamError
  | .controlShards => Nat
  | .now => Int
  | .contextDone => Bool
  | .listDueDispositionCommands _ => Except PageFault DuePage
  | .listSessionDispositionCommands _ _ _ => Except SeamError SessionPage
  | .getCatalogEntry _ => Except SeamError CatalogEntry
  | .owner _ => Except SeamError (Option OwnerObservation)
  | .acquireReconciliationClaim _ => Option SeamError
  | .releaseReconciliationClaim _ => Option SeamError
  | .updateCatalogDesiredState _ => Except SeamError CatalogEntry
  | .candidates _ _ _ _ => Except SeamError (List HostLinkCapacityReport)
  | .ensureWorkload _ => Option SeamError
  | .wake _ _ => Except ReconcileFault Reconciled
  | .placePooled _ _ => Except ReconcileFault Reconciled
  | .placeDedicated _ _ _ => Except ReconcileFault Reconciled

/-- Ask a seam of placement. -/
def seam (q : PlaceAsk) : Dialogue PlaceAnswer (PlaceAnswer q) := Dialogue.query q

/-- `Config`, less its seams: whether it has links and a workload controller. -/
structure PlacerConfig where
  holderID : String
  claimTTL : Int
  candidateLimit : Nat
  links : Bool
  workloads : Bool
  sha256 : Bytes → String

/-! ## The desired-state writers -/

/-- What a writer makes of the record it read. -/
inductive Rewrite where
  | keep
  | refuse (fault : ReconcileFault)
  | write (desired : Desired) (idempotencyKey : String)
deriving DecidableEq

/-- The error is a conflict of the catalog's compare-and-swap. -/
def conflicts (err : SeamError) : Bool := err.catalog.any (·.code = .conflict)

/-- The loop of `ensureDesired` and `reviveReleased`, with so many attempts left: the record, or an
error, and the write calls counted. `failed` is the count returned with a store's error. -/
def rewrite (key : SessionKey) (decide : DesiredRecord → Rewrite) (failed : Nat → Nat) :
    Nat → CatalogEntry → Nat → Dialogue PlaceAnswer (Except ReconcileFault CatalogEntry × Nat)
  | 0, entry, writes => pure (.ok entry, writes)
  | attempts + 1, entry, writes =>
    match decide entry.record with
    | .keep => pure (.ok entry, writes)
    | .refuse fault => pure (.error fault, writes)
    | .write desired idempotencyKey => do
      let writes := writes + 1
      match ← seam (.updateCatalogDesiredState
        { key := key, expectedRevision := entry.revision, idempotencyKey := idempotencyKey
          desired := desired }) with
      | .ok updated => pure (.ok updated, writes)
      | .error err =>
        if !conflicts err || attempts == 0 then pure (.error (.seam err), failed writes)
        else
          match ← seam (.getCatalogEntry key) with
          | .error err => pure (.error (.seam err), failed writes)
          | .ok entry => rewrite key decide failed attempts entry writes

variable (sha256 : Bytes → String) (key : SessionKey)

/-- What `ensureDesired` makes of a record. -/
def ensuring (desired : Desired) (record : DesiredRecord) : Rewrite :=
  if storedDesired record desired then .keep
  else .write desired (desiredKey sha256 key desired)

def ensureDesired (desired : Desired) (entry : CatalogEntry) :
    Dialogue PlaceAnswer (Except ReconcileFault CatalogEntry × Nat) :=
  rewrite key (ensuring sha256 key desired) (fun _ => 0) 2 entry 0

/-- What `reviveReleased` makes of a record. -/
def reviving (record : DesiredRecord) : Rewrite :=
  if !released record then .keep
  else
    match launchTemplate record with
    | none => .refuse (.noLaunchTemplate key.session)
    | some template =>
      let desired : Desired :=
        { placement := record.desiredPlacement
          runtimeCompatibility := record.runtimeCompatibility, workload := template }
      .write desired (reviveKey sha256 key desired record.desiredGeneration)

def reviveReleased (entry : CatalogEntry) :
    Dialogue PlaceAnswer (Except ReconcileFault CatalogEntry × Nat) :=
  rewrite key (reviving sha256 key) id 2 entry 0

/-! ## Reconcile -/

/-- The owner is the session's, at the desired generation if it is dedicated. -/
def settledOwner (record : DesiredRecord) (now : Int) (owner : OwnerObservation) : Bool :=
  reusableOwner owner record.toCatalogRecord now &&
    (record.desiredPlacement != .dedicated || owner.hostGeneration == record.desiredGeneration)

def deferToHolder (req : ReconcileRequest) :
    Dialogue PlaceAnswer (Except ReconcileFault Reconciled) := do
  match ← seam (.getCatalogEntry req.key) with
  | .error err => pure (.error (.seam err))
  | .ok entry =>
    match ← seam (.owner req.key) with
    | .error err => pure (.error (.seam err))
    | .ok owner =>
      let now ← seam .now
      match owner.filter (settledOwner entry.record now) with
      | some owner =>
        let decision : Decision := { outcome := .reuseOwner, owner := some owner }
        pure (.ok { result := { decision := decision } })
      | none => pure (.ok { deferred := true })

/-- The arms of `Reconcile` over a settled desire. -/
def PlacerConfig.place (cfg : PlacerConfig) (req : ReconcileRequest)
    (owner : Option OwnerObservation) (now : Int) (entry : CatalogEntry) (writes : Nat) :
    Dialogue PlaceAnswer (Except ReconcileFault Reconciled) :=
  let record := entry.record
  match record.desiredPlacement with
  | .pooled =>
    if cfg.links then seam (.placePooled req.toRequest writes)
    else do
      match ← seam (.candidates record.agent record.runtimeCompatibility record.desiredPlacement
        cfg.candidateLimit) with
      | .error err => pure (.error (.seam err))
      | .ok hosts =>
        let decision : Decision :=
          match owner.filter fun owner => reusableOwner owner record.toCatalogRecord now with
          | some owner => { outcome := .reuseOwner, owner := some owner }
          | none =>
            match hosts.find? fun candidate => admissible candidate record.toCatalogRecord with
            | some candidate => { outcome := .attachPooled, target := some candidate }
            | none => { outcome := .noCapacity }
        pure (.ok { result := { decision := decision, desiredWrites := writes } })
  | .dedicated =>
    if released record then pure (.error .sessionReleased)
    else if !cfg.workloads then pure (.error .noWorkloadController)
    else do
      match ← seam (.ensureWorkload record) with
      | some err => pure (.error (.seam err))
      | none => seam (.placeDedicated req.toRequest writes record)
  | .other _ => pure (.ok { result := { desiredWrites := writes } })

/-- `Reconcile` between the claim it took and its release. -/
def PlacerConfig.underClaim (cfg : PlacerConfig) (req : ReconcileRequest)
    (owner : Option OwnerObservation) (now : Int) :
    Dialogue PlaceAnswer (Except ReconcileFault Reconciled) := do
  match ← seam (.getCatalogEntry req.key) with
  | .error err => pure (.error (.seam err))
  | .ok entry =>
    let ensured ← match req.desired with
      | some desired => ensureDesired cfg.sha256 req.key desired entry
      | none => pure (.ok entry, 0)
    match ensured with
    | (.error fault, _) => pure (.error fault)
    | (.ok entry, writes) =>
      let revived ←
        if req.restoreRequested then reviveReleased cfg.sha256 req.key entry
        else pure (.ok entry, 0)
      match revived with
      | (.error fault, _) => pure (.error fault)
      | (.ok entry, more) => cfg.place req owner now entry (writes + more)

def PlacerConfig.reconcile (cfg : PlacerConfig) (req : ReconcileRequest) :
    Dialogue PlaceAnswer (Except ReconcileFault Reconciled) := do
  match ← seam (.getCatalogEntry req.key) with
  | .error err => pure (.error (.seam err))
  | .ok entry =>
    match ← seam (.owner req.key) with
    | .error err => pure (.error (.seam err))
    | .ok owner =>
      let now ← seam .now
      match owner.filter (settledOwner entry.record now) with
      | some owner => seam (.wake req.toRequest owner)
      | none =>
        match ← seam (.acquireReconciliationClaim
          { key := req.key, holder := cfg.holderID, expiresAt := now + cfg.claimTTL }) with
        | some err =>
          if err.reconcile = some .held then deferToHolder req else pure (.error (.seam err))
        | none =>
          let out ← cfg.underClaim req owner now
          let _ ← seam (.releaseReconciliationClaim { key := req.key, holder := cfg.holderID })
          pure out

end Factory.Placement
