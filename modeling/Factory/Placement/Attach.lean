import Factory.Lib.Framing
import Factory.Placement.PendingSweep

/-!
# Pooled placement

Model of `placePooled` of `internal/placement/attach.go` with the policy it decides by
(`policy.go`): the record read under the claim, the rounds of owner read and ranked page, the
three capability filters and the attach of each candidate, and the bind and wake of the
residency it finds or makes.

A Go error is the list of the errors in its tree in the order `errors.Is` and `errors.As` visit
them. The seams answer a question about a candidate by the round and the rank it is asked at,
which is asked at most once there, so that any answers at all are covered. Log lines and the
texts made for them are left out, and so are the members of `Result` this path never writes.
-/

namespace Factory.Placement

/-! ## Records -/

inductive HostPlacement where
  | pooled
  | dedicated
  | other (name : String)
deriving DecidableEq

/-- `sessionstore.CatalogRecord`, the members placement reads. -/
structure CatalogRecord where
  tenant : TenantID
  session : SessionID
  agent : String
  runtimeCompatibility : String
  desiredPlacement : HostPlacement
  desiredGeneration : Nat := 0
  lastJournalSeq : Nat := 0
  checkpointJournalSeq : Nat := 0
deriving DecidableEq

/-- The members of a registry observation that only the owner's reuse reads. -/
structure OwnerObservation extends HostLinkRegistryObservation where
  placement : HostPlacement
  resident : Bool
  accepting : Bool
  expiresAt : Int
deriving DecidableEq

/-- `sessionwire.HostLinkCapacityReport`; `crossTenantIsolated` says whether its isolation
class is that one. -/
structure HostLinkCapacityReport where
  host : HostID
  hostGeneration : Nat
  internalEndpoint : InternalEndpoint
  agent : String
  runtimeCompatibility : String
  placement : HostPlacement
  crossTenantIsolated : Bool
  accepting : Bool
  availableCapacity : Nat
deriving DecidableEq

def reusableOwner (owner : OwnerObservation) (record : CatalogRecord) (now : Int) : Bool :=
  owner.tenant == record.tenant && owner.session == record.session &&
    owner.agent == record.agent && owner.runtimeCompatibility == record.runtimeCompatibility &&
    owner.placement == record.desiredPlacement &&
    owner.resident && owner.accepting && decide (now < owner.expiresAt)

def admissible (candidate : HostLinkCapacityReport) (record : CatalogRecord) : Bool :=
  candidate.agent == record.agent &&
    candidate.runtimeCompatibility == record.runtimeCompatibility &&
    candidate.placement == record.desiredPlacement &&
    candidate.crossTenantIsolated && candidate.accepting && decide (0 < candidate.availableCapacity)

structure Decision where
  outcome : Outcome := .undecided
  owner : Option OwnerObservation := none
  target : Option HostLinkCapacityReport := none
deriving DecidableEq

/-! ## Errors -/

inductive HostLinkErrorCode where
  | epochMismatch
  | other (code : String)
deriving DecidableEq

structure HostLinkError where
  code : HostLinkErrorCode
  currentLeaseEpoch : Option Nat := none
deriving DecidableEq

/-- What `errors.Is` and `errors.As` find in an error of the HostLink pool. -/
inductive PoolCause where
  | noTenantEndpoint
  | dialFailed
  | linkReconnecting
  | linkLimit
  | unsupportedProtocol
  | linkClosed
  | poolClosed
  | unsupportedMethod
  | hostFailed
  | hostRefusal (refusal : HostLinkError)
  | endpoint (code : String)
  | other (text : String)
deriving DecidableEq

/-- An error of the HostLink pool. -/
abbrev PoolErr := List PoolCause

/-- What they find in an error placement meets. -/
inductive Cause where
  | attachUnsupported
  | hostUnreachable
  | attachFailed
  | tenantUnaddressable
  | registryStale
  | bindAfterAttach
  | attachRefusal (refusal : HostLinkError)
  | gateResponderUnavailable
  | principalResponderUnavailable
  | pool (cause : PoolCause)
  | other (text : String)
deriving DecidableEq

abbrev Err := List Cause

/-- The error `errors.As` finds for an `*AttachRefusal`. -/
def Err.attachRefusal (err : Err) : Option HostLinkError :=
  err.findSome? fun
    | .attachRefusal refusal => some refusal
    | _ => none

/-! ## Seams -/

/-- The capabilities a request can require of a Host, `capabilities` in the order
`placePooled` filters by them. -/
inductive Capability where
  | gateResponses
  | payloadReferences
  | commandPrincipal
deriving DecidableEq

def capabilities : List Capability := [.gateResponses, .payloadReferences, .commandPrincipal]

/-- The commands of a request that require a capability. -/
def Request.requiring (req : Request) : Capability → List CommandID
  | .gateResponses => req.gateResponses
  | .payloadReferences => req.payloadReferences
  | .commandPrincipal => req.principalCommands

/-- `sessionwire.HostLinkAttachMode`. -/
inductive AttachMode where
  | create
  | restore
deriving DecidableEq

def AttachMode.name : AttachMode → String
  | .create => "create"
  | .restore => "restore"

/-- `sessionwire.HostLinkAttachRequest`, whole. -/
structure AttachRequest extends HostLinkAttachRequest where
  version : Nat
  mode : AttachMode
  actor : String
  idempotencyKey : String
deriving DecidableEq

/-- The answers of `HostLinks`: those of a candidate by the round and its rank, those of the
Host a route was just bound to, and those to the deliveries by their number. -/
structure HostLinks where
  acceptsGateResponses : Nat → Nat → Except Err Bool
  acceptsPayloadReferences : Nat → Nat → Except Err Bool
  acceptsCommandPrincipal : Nat → Nat → Except Err Bool
  attach : Nat → Nat → Except Err HostLinkRegistryObservation
  routeFor : Option HostID
  bind : Option Err
  boundAccepts : Capability → Except Err Bool
  deliverCommand : Nat → Option Err

def HostLinks.accepts (links : HostLinks) : Capability → Nat → Nat → Except Err Bool
  | .gateResponses => links.acceptsGateResponses
  | .payloadReferences => links.acceptsPayloadReferences
  | .commandPrincipal => links.acceptsCommandPrincipal

/-- The answers of the other seams, by round. -/
structure Seams where
  getCatalogEntry : Except Err CatalogRecord
  wait : Nat → Option Err
  owner : Nat → Except Err (Option OwnerObservation)
  now : Nat → Int
  candidates : Nat → Except Err (List HostLinkCapacityReport)

/-- A call of a seam. -/
inductive Call where
  | getCatalogEntry (key : SessionKey)
  | wait (round : Nat) (duration : Nat)
  | owner (round : Nat) (key : SessionKey)
  | candidates (round : Nat) (agent runtimeCompatibility : String) (placement : HostPlacement)
      (limit : Nat)
  | accepts (capability : Capability) (round rank : Nat) (of : HostLinkRegistryObservation)
  | attach (round rank : Nat) (endpoint : InternalEndpoint) (req : AttachRequest)
  | routeFor (key : SessionKey)
  | bind (endpoint : InternalEndpoint) (req : HostLinkBindRequest)
  | boundAccepts (capability : Capability) (of : HostLinkRegistryObservation)
  | deliverCommand (key : SessionKey) (delivery : HostLinkCommandDelivery)
  | unbind (req : HostLinkUnbindRequest)
deriving DecidableEq

/-- `Config`, less its seams, as `attachConfigError` accepts it. Durations are nanoseconds. -/
structure ReconcilerConfig where
  actorID : String
  candidateLimit : Nat
  replaceAttempts : Nat
  replaceBackoff : Nat
  currentWireVersion : Nat
  sha256 : Bytes → String
  actorID_ne : actorID ≠ ""
  replaceAttempts_le : replaceAttempts ≤ 10
  replaceBackoff_le : replaceBackoff ≤ 5 * 10 ^ 9

variable (cfg : ReconcilerConfig)

/-- `replaceAttempts`. -/
def ReconcilerConfig.attempts : Nat :=
  if cfg.replaceAttempts = 0 then 3 else cfg.replaceAttempts

def maxReplaceBackoff : Nat := 5 * 10 ^ 9

/-- The loop of `backoff`: at most `n` doublings, none from the cap on. -/
def doubled : Nat → Nat → Nat
  | 0, d => d
  | n + 1, d => if d < maxReplaceBackoff then doubled n (d * 2) else d

def ReconcilerConfig.backoff (n : Nat) : Nat :=
  let d := if cfg.replaceBackoff = 0 then 200 * 10 ^ 6 else cfg.replaceBackoff
  min (doubled (n - 1) d) maxReplaceBackoff

/-! ## Requests -/

def attachMode (record : CatalogRecord) : AttachMode :=
  if record.lastJournalSeq = 0 ∧ record.checkpointJournalSeq = 0 then .create else .restore

/-- The fields, each as its decimal byte length, a NUL and its bytes. -/
def framed (fields : List String) : Bytes :=
  (fields.map Framing.utf8).flatMap (Framing.counted 0)

def ReconcilerConfig.framedKey (domain : String) (fields : List String) : String :=
  cfg.sha256 (framed (domain :: fields))

def ReconcilerConfig.attachKey (record : CatalogRecord) (mode : AttachMode) : String :=
  cfg.framedKey "placement-attach/v1"
    [record.tenant, record.session, record.agent, record.runtimeCompatibility, mode.name,
      toString record.desiredGeneration]

def ReconcilerConfig.attachRequest (record : CatalogRecord) (candidate : HostLinkCapacityReport)
    (mode : AttachMode) : AttachRequest :=
  { version := cfg.currentWireVersion, tenant := record.tenant, session := record.session
    host := candidate.host, hostGeneration := candidate.hostGeneration, agent := record.agent
    runtimeCompatibility := record.runtimeCompatibility, mode := mode, actor := cfg.actorID
    idempotencyKey := cfg.attachKey record mode }

def ReconcilerConfig.bindRequestFor (observation : HostLinkRegistryObservation) :
    HostLinkBindRequest :=
  { version := cfg.currentWireVersion, tenant := observation.tenant
    session := observation.session, host := observation.host
    hostGeneration := observation.hostGeneration, leaseEpoch := observation.leaseEpoch
    runtimeCompatibility := observation.runtimeCompatibility
    idempotencyKey := cfg.framedKey "placement-bind/v1"
      [observation.tenant, observation.session, observation.host,
        toString observation.hostGeneration, toString observation.leaseEpoch] }

def unbindRequestFor (bind : HostLinkBindRequest) : HostLinkUnbindRequest :=
  { version := bind.version, tenant := bind.tenant, session := bind.session, host := bind.host
    hostGeneration := bind.hostGeneration, leaseEpoch := bind.leaseEpoch
    idempotencyKey := bind.idempotencyKey }

/-- The observation a candidate is questioned by. -/
def questioned (req : Request) (candidate : HostLinkCapacityReport) :
    HostLinkRegistryObservation :=
  { tenant := req.key.tenant, session := req.key.session, host := candidate.host
    hostGeneration := candidate.hostGeneration, leaseEpoch := 0
    internalEndpoint := candidate.internalEndpoint }

/-! ## Results -/

structure CandidateRefusal where
  host : HostID
  hostGeneration : Nat
  code : HostLinkErrorCode
deriving DecidableEq

structure Result where
  decision : Decision := {}
  desiredWrites : Nat := 0
  attached : Option HostLinkRegistryObservation := none
  bound : Bool := false
  delivered : Nat := 0
  deliveryFailures : Nat := 0
  withheldGateResponses : Nat := 0
  withheldPrincipalCommands : Nat := 0
  excluded : List HostID := []
  unreachable : List HostID := []
  unaddressable : List HostID := []
  incapable : List HostID := []
  refused : List CandidateRefusal := []
  failed : List HostID := []
  replacements : Nat := 0
deriving DecidableEq

/-- What a placement has done so far: its result and its calls. -/
structure Tried where
  result : Result
  log : List Call := []
deriving DecidableEq

def Tried.call (t : Tried) (c : Call) : Tried := { t with log := t.log ++ [c] }

structure Returned where
  tried : Tried
  err : Option Err := none
deriving DecidableEq

def Tried.returns (t : Tried) : Returned := { tried := t }

def Tried.fails (t : Tried) (err : Err) : Returned := { tried := t, err := some err }

def Tried.decides (t : Tried) (d : Decision) : Tried :=
  { t with result := { t.result with decision := d } }

/-! ## The wake -/

/-- The lazily asked capabilities of the Host a route was bound to. -/
structure Memo where
  payloadReferences : Option (Except Err Bool) := none
  gateResponses : Option (Except Err Bool) := none
  commandPrincipal : Option (Except Err Bool) := none

def Memo.get (m : Memo) : Capability → Option (Except Err Bool)
  | .payloadReferences => m.payloadReferences
  | .gateResponses => m.gateResponses
  | .commandPrincipal => m.commandPrincipal

def Memo.set (m : Memo) (answer : Except Err Bool) : Capability → Memo
  | .payloadReferences => { m with payloadReferences := some answer }
  | .gateResponses => { m with gateResponses := some answer }
  | .commandPrincipal => { m with commandPrincipal := some answer }

/-- Where the loop of `bindAndDeliver` is. -/
structure Waking where
  tried : Tried
  memo : Memo := {}

/-- One capability test of a wake: whether the command may still be delivered. The Host is
asked when the answer is not held yet. -/
def Waking.test (w : Waking) (links : HostLinks) (req : Request)
    (observation : HostLinkRegistryObservation) (command : CommandID) (capability : Capability) :
    Bool × Waking :=
  if command ∈ req.requiring capability then
    match w.memo.get capability with
    | some answer => (answer.toOption == some true, w)
    | none =>
      let answer := links.boundAccepts capability
      (answer.toOption == some true,
        { tried := w.tried.call (.boundAccepts capability observation)
          memo := w.memo.set answer capability })
  else (true, w)

/-- One command of the wake. A withheld gate response or principal command is counted, a
withheld payload reference is not. -/
def Waking.command (w : Waking) (links : HostLinks) (req : Request)
    (observation : HostLinkRegistryObservation) (i : Nat) (command : CommandID) : Waking :=
  match w.test links req observation command .payloadReferences with
  | (false, w) => w
  | (true, w) =>
    match w.test links req observation command .gateResponses with
    | (false, w) =>
      { w with tried := { w.tried with result := { w.tried.result with
          withheldGateResponses := w.tried.result.withheldGateResponses + 1 } } }
    | (true, w) =>
      match w.test links req observation command .commandPrincipal with
      | (false, w) =>
        { w with tried := { w.tried with result := { w.tried.result with
            withheldPrincipalCommands := w.tried.result.withheldPrincipalCommands + 1 } } }
      | (true, w) =>
        let t := w.tried.call (.deliverCommand req.key ⟨command⟩)
        match links.deliverCommand i with
        | some _ =>
          { w with tried := { t with result := { t.result with
              deliveryFailures := t.result.deliveryFailures + 1 } } }
        | none =>
          { w with tried := { t with result := { t.result with
              delivered := t.result.delivered + 1 } } }

/-- The loop of `bindAndDeliver`, from the `i`-th command of the wake on. -/
def Waking.commands (w : Waking) (links : HostLinks) (req : Request)
    (observation : HostLinkRegistryObservation) : Nat → List CommandID → Waking
  | _, [] => w
  | i, command :: rest =>
    (w.command links req observation i command).commands links req observation (i + 1) rest

def Tried.bindAndDeliver (t : Tried) (cfg : ReconcilerConfig) (links : HostLinks) (req : Request)
    (observation : HostLinkRegistryObservation) (attached : Bool) : Returned :=
  let bind := cfg.bindRequestFor observation
  let t := (t.call (.routeFor req.key)).call (.bind observation.internalEndpoint bind)
  match links.bind with
  | some err => t.fails (if attached then .bindAfterAttach :: err else err)
  | none =>
    let t := { t with result := { t.result with bound := true } }
    let w := Waking.commands { tried := t } links req observation 0 req.wake
    if links.routeFor.isNone then (w.tried.call (.unbind (unbindRequestFor bind))).returns
    else w.tried.returns

/-- `wake`, of a reconciler that has links. -/
def Tried.wake (t : Tried) (cfg : ReconcilerConfig) (links : HostLinks) (req : Request)
    (owner : HostLinkRegistryObservation) : Returned :=
  if req.wake = [] then t.returns else t.bindAndDeliver cfg links req owner false

/-! ## Candidates -/

inductive GateCapability where
  | capable
  | incapable
  | unaddressable
  | unreachable
  | abort (err : Err)
deriving DecidableEq

/-- `classifyGateCapability`; only the aborting error is used. -/
def classifyGateCapability : Except Err Bool → GateCapability
  | .ok true => .capable
  | .ok false => .incapable
  | .error err =>
    if .tenantUnaddressable ∈ err then .unaddressable
    else if .hostUnreachable ∈ err then .unreachable
    else .abort err

/-- `answer`, with what its branch uses of the attach's outcome. -/
inductive Answer where
  | abort (err : Err)
  | accepted (observation : HostLinkRegistryObservation)
  | stale (code : HostLinkErrorCode)
  | refused (code : HostLinkErrorCode)
  | unsupported
  | unreachable
  | failed
  | unaddressable
deriving DecidableEq

def attachAnswer : Except Err HostLinkRegistryObservation → Answer
  | .ok observation => .accepted observation
  | .error err =>
    match err.attachRefusal with
    | some refusal =>
      if refusal.code = .epochMismatch then .stale refusal.code else .refused refusal.code
    | none =>
      if .attachUnsupported ∈ err then .unsupported
      else if .tenantUnaddressable ∈ err then .unaddressable
      else if .hostUnreachable ∈ err then .unreachable
      else if .attachFailed ∈ err then .failed
      else .abort err

/-- How the body of the candidate loop ended. -/
inductive Ended where
  | next
  | stale
  | accepted (candidate : HostLinkCapacityReport) (observation : HostLinkRegistryObservation)
  | abort (err : Err)
deriving DecidableEq

def Tried.skipUnaddressable (t : Tried) (host : HostID) : Tried :=
  { t with result := { t.result with unaddressable := t.result.unaddressable ++ [host] } }

def Tried.skipIncapable (t : Tried) (host : HostID) : Tried :=
  { t with result := { t.result with incapable := t.result.incapable ++ [host] } }

def Tried.skipUnreachable (t : Tried) (host : HostID) : Tried :=
  { t with result := { t.result with unreachable := t.result.unreachable ++ [host] } }

def Tried.skipExcluded (t : Tried) (host : HostID) : Tried :=
  { t with result := { t.result with excluded := t.result.excluded ++ [host] } }

def Tried.skipFailed (t : Tried) (host : HostID) : Tried :=
  { t with result := { t.result with failed := t.result.failed ++ [host] } }

def Tried.refusedBy (t : Tried) (candidate : HostLinkCapacityReport) (code : HostLinkErrorCode) :
    Tried :=
  { t with result := { t.result with
      refused := t.result.refused ++ [⟨candidate.host, candidate.hostGeneration, code⟩] } }

/-- One placement: the configuration, the answers of its links, the request and the record it
read under the claim. -/
structure Placing where
  cfg : ReconcilerConfig
  links : HostLinks
  req : Request
  record : CatalogRecord

/-- The capability filters of one candidate; `none` when it passed them all. -/
def Placing.filters (p : Placing) (round rank : Nat) (candidate : HostLinkCapacityReport) :
    List Capability → Tried → Option Ended × Tried
  | [], t => (none, t)
  | capability :: rest, t =>
    if p.req.requiring capability = [] then p.filters round rank candidate rest t
    else
      let t := t.call (.accepts capability round rank (questioned p.req candidate))
      match classifyGateCapability (p.links.accepts capability round rank) with
      | .capable => p.filters round rank candidate rest t
      | .unaddressable => (some .next, t.skipUnaddressable candidate.host)
      | .incapable => (some .next, t.skipIncapable candidate.host)
      | .unreachable => (some .next, t.skipUnreachable candidate.host)
      | .abort err => (some (.abort err), t)

/-- The attach of one candidate. -/
def Placing.attach (p : Placing) (round rank : Nat) (candidate : HostLinkCapacityReport)
    (t : Tried) : Ended × Tried :=
  let t := t.call (.attach round rank candidate.internalEndpoint
    (p.cfg.attachRequest p.record candidate (attachMode p.record)))
  match attachAnswer (p.links.attach round rank) with
  | .accepted observation => (.accepted candidate observation, t)
  | .stale code => (.stale, t.refusedBy candidate code)
  | .refused code => (.next, t.refusedBy candidate code)
  | .unsupported => (.next, t.skipExcluded candidate.host)
  | .unreachable => (.next, t.skipUnreachable candidate.host)
  | .unaddressable => (.next, t.skipUnaddressable candidate.host)
  | .failed => (.next, t.skipFailed candidate.host)
  | .abort err => (.abort err, t)

/-- The body of the candidate loop. -/
def Placing.candidate (p : Placing) (round rank : Nat) (candidate : HostLinkCapacityReport)
    (t : Tried) : Ended × Tried :=
  if admissible candidate p.record then
    match p.filters round rank candidate capabilities t with
    | (some ended, t) => (ended, t)
    | (none, t) => p.attach round rank candidate t
  else (.next, t)

/-- The candidate loop, from a rank on. It ends with `next` when the page is exhausted. -/
def Placing.candidates (p : Placing) (round : Nat) :
    Nat → List HostLinkCapacityReport → Tried → Ended × Tried
  | _, [], t => (.next, t)
  | rank, candidate :: rest, t =>
    match p.candidate round rank candidate t with
    | (.next, t) => p.candidates round (rank + 1) rest t
    | ended => ended

/-- What a round reads before it asks a candidate: the page, or what the placement returns. -/
def Placing.opening (p : Placing) (seams : Seams) (round : Nat) (t : Tried) :
    Tried × Except Returned (List HostLinkCapacityReport) :=
  let waited :=
    if round = 0 then t
    else
      let t := { t with result := { t.result with replacements := t.result.replacements + 1 } }
      t.call (.wait round (p.cfg.backoff round))
  match (if round = 0 then none else seams.wait round) with
  | some err => (waited, .error (waited.fails err))
  | none =>
    let t := waited.call (.owner round p.req.key)
    match seams.owner round with
    | .error err => (t, .error (t.fails err))
    | .ok owner =>
      match owner.filter fun owner => reusableOwner owner p.record (seams.now round) with
      | some owner =>
        let t := t.decides { outcome := .reuseOwner, owner := some owner }
        (t, .error (t.wake p.cfg p.links p.req owner.toHostLinkRegistryObservation))
      | none =>
        let t := t.call (.candidates round p.record.agent p.record.runtimeCompatibility
          p.record.desiredPlacement p.cfg.candidateLimit)
        match seams.candidates round with
        | .error err => (t, .error (t.fails err))
        | .ok hosts => (t, .ok hosts)

/-- The rounds, from one on with `left` to follow it. -/
def Placing.rounds (p : Placing) (seams : Seams) : Nat → Nat → Tried → Returned
  | left, round, t =>
    match p.opening seams round t with
    | (_, .error returned) => returned
    | (t, .ok hosts) =>
      match p.candidates round 0 hosts t with
      | (.next, t) => (t.decides { outcome := .noCapacity }).returns
      | (.accepted candidate observation, t) =>
        let t := t.decides { outcome := .attachPooled, target := some candidate }
        let t := { t with result := { t.result with attached := some observation } }
        t.bindAndDeliver p.cfg p.links p.req observation true
      | (.abort err, t) => t.fails err
      | (.stale, t) =>
        match left with
        | 0 => (t.decides { outcome := .noCapacity }).fails [.registryStale]
        | left + 1 => p.rounds seams left (round + 1) t

def placePooled (cfg : ReconcilerConfig) (links : HostLinks) (seams : Seams) (req : Request)
    (writes : Nat) : Returned :=
  let t := Tried.call { result := { desiredWrites := writes } } (.getCatalogEntry req.key)
  match seams.getCatalogEntry with
  | .error err => t.fails err
  | .ok record =>
    if record.desiredPlacement = .pooled then
      Placing.rounds ⟨cfg, links, req, record⟩ seams (cfg.attempts - 1) 0 t
    else (t.decides {}).returns

end Factory.Placement
