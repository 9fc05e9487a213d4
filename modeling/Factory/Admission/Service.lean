import Factory.Placement.PlacementCalls

/-!
# The admission service

Model of `internal/admission/service.go` and `create.go`: the five entry points of `Service`, each
a program that asks its seams (`ServiceAsk`) and ends with the entry it returns and whether it
created it, or with an error.

Core's and the standard library's part is in `Codec`: the validation and the encoding of a request,
and SHA-256. Of a request only the members the service reads are here by name; the rest is
`content`. The end of an admission's turn at the fence is modelled with the fence
(`Compose/Server`), and texts that only a log shows are left out.
-/

namespace Factory.Admission

open Dialogue
open Placement (HostPlacement DesiredWorkload OwnerObservation CatalogRecord AdmissionNotice
  reusableOwner)

/-! ## Identities and records -/

/-- The kinds of command the service admits. -/
inductive CommandKind where
  | create
  | input
  | interrupt
  | restore
  | gateResponse
deriving DecidableEq

/-- `sessionwire.Principal`. -/
structure WirePrincipal where
  tenant : TenantID
  subject : String
  kind : String
deriving DecidableEq

/-- `identity.Principal`. -/
structure Principal where
  tenant : TenantID
  subject : String
  kind : String
deriving DecidableEq

def Principal.wire (p : Principal) : WirePrincipal := ⟨p.tenant, p.subject, p.kind⟩

abbrev MessageMetadata := List (String × String)

inductive ProtocolMode where
  | legacy
  | disposition
deriving DecidableEq

structure SessionBinding where
  storageBindingID : String
  bindingVersion : String
  runtimeSessionID : String
  protocolMode : ProtocolMode
deriving DecidableEq

structure HostTargetKey where
  agent : String
  runtimeCompatibility : String
  placement : HostPlacement
deriving DecidableEq

structure Target where
  key : HostTargetKey
  workload : DesiredWorkload
deriving DecidableEq

/-- `sessionwire.GateProjection`, the members admission reads; `resident` says whether its
answerability is that one. -/
structure GateProjection where
  gateID : String
  deadline : Int
  openedEventID : String
  openedJournalSeq : Nat
  resident : Bool
deriving DecidableEq

/-- `sessionstore.CatalogRecord` with what admission reads of it. -/
structure SessionRecord extends CatalogRecord where
  openGates : List GateProjection
  binding : SessionBinding
deriving DecidableEq

def catalogTarget (record : SessionRecord) : HostTargetKey :=
  ⟨record.agent, record.runtimeCompatibility, record.desiredPlacement⟩

/-- What of a `sessionstore.DispositionInboxRecord` is written when the command is accepted, and
never again. -/
structure Acceptance where
  key : CommandDescriptor
  binding : SessionBinding
  runtimeCommandID : String
  kind : CommandKind
  payloadDigest : Bytes
  payloadSize : Nat
  acceptedAt : Int
  applyDeadline : Int
  acceptedOrder : Nat
  principal : Option WirePrincipal
  metadata : MessageMetadata
deriving DecidableEq

/-- `sessionstore.DispositionInboxEntry`: an acceptance and the progress of the command. -/
structure CommandEntry where
  acceptance : Acceptance
  state : InboxState := .pending
  claim : Option CommandClaim := none
  attempt : Option Attempt := none
  revision : Nat := 1
deriving DecidableEq

/-- `placement.Notice`. -/
def CommandEntry.notice (entry : CommandEntry) : AdmissionNotice where
  key := ⟨entry.acceptance.key.tenant, entry.acceptance.key.session⟩
  command := entry.acceptance.key.command
  acceptedOrder := entry.acceptance.acceptedOrder
  deadline := entry.acceptance.applyDeadline
  pending := entry.state = .pending

/-! ## Requests -/

/-- What every request has: the session and the command it names, the principal it carries and the
members the service does not read. -/
structure CommandHead where
  session : SessionID
  command : CommandID
  principal : Option WirePrincipal := none
  content : Bytes := []
deriving DecidableEq

structure CreateRequest extends CommandHead where
  agent : String
  metadata : MessageMetadata := []
deriving DecidableEq

structure InputRequest extends CommandHead where
  metadata : MessageMetadata := []
deriving DecidableEq

structure InterruptRequest extends CommandHead
deriving DecidableEq

structure RestoreRequest extends CommandHead
deriving DecidableEq

structure GateResponseRequest extends CommandHead where
  gateID : String
  expectedOpenEventID : String := ""
  expectedOpenJournalSeq : Nat := 0
deriving DecidableEq

inductive CommandRequest where
  | create (request : CreateRequest)
  | input (request : InputRequest)
  | interrupt (request : InterruptRequest)
  | restore (request : RestoreRequest)
  | gateResponse (request : GateResponseRequest)
deriving DecidableEq

def CommandRequest.kind : CommandRequest → CommandKind
  | .create _ => .create
  | .input _ => .input
  | .interrupt _ => .interrupt
  | .restore _ => .restore
  | .gateResponse _ => .gateResponse

def CommandRequest.head : CommandRequest → CommandHead
  | .create request => request.toCommandHead
  | .input request => request.toCommandHead
  | .interrupt request => request.toCommandHead
  | .restore request => request.toCommandHead
  | .gateResponse request => request.toCommandHead

def CommandRequest.metadata : CommandRequest → MessageMetadata
  | .create request => request.metadata
  | .input request => request.metadata
  | .interrupt _ | .restore _ | .gateResponse _ => []

/-- The request with the principal it is stamped with. -/
def CommandRequest.withPrincipal (principal : Option WirePrincipal) :
    CommandRequest → CommandRequest
  | .create request => .create { request with principal := principal }
  | .input request => .input { request with principal := principal }
  | .interrupt request => .interrupt { request with principal := principal }
  | .restore request => .restore { request with principal := principal }
  | .gateResponse request => .gateResponse { request with principal := principal }

/-- What is not the service's own: `Validate` of each request, `json.Marshal` and SHA-256. -/
structure Codec where
  validate : CommandRequest → Bool
  marshal : CommandRequest → Option Bytes
  sha256 : Bytes → Bytes

/-! ## Errors -/

inductive AdmitCause where
  | clientPrincipal
  | invalid
  | encode
  | createBindingUnconfigured
  | gateResponseTooLarge (size : Nat)
  | gateResponseUnsupported
  | metadataUnsupported
  | legacySessionUnsupported (err : SeamError)
  | store (err : SeamError)
deriving DecidableEq

/-- What an entry point fails with: an `*Error`, `ErrAdmissionQuiesced`, or the error of a seam
with what it is wrapped in. -/
inductive AdmitError where
  | refusal (code : ErrorCode) (cause : Option AdmitCause := none)
  | quiesced
  | fault (text : String) (err : SeamError)
deriving DecidableEq

/-- `sessionstore.InboxErrorCommandMismatch`, which the sweeps do not tell from other codes. -/
def InboxErrorCode.commandMismatch : InboxErrorCode := .other "command_mismatch"

def legacyProtocolField : String := "binding.protocol_mode"

def legacyProtocol (err : SeamError) : Bool :=
  err.catalog.any fun catalog =>
    catalog.field = legacyProtocolField && (catalog.code = .invalid || catalog.code = .conflict)

/-- `commandRefusal` of an error wrapped in a text. -/
def commandRefusal (text : String) (err : SeamError) : AdmitError :=
  if legacyProtocol err then .refusal .runtimeUnavailable (some (.legacySessionUnsupported err))
  else if err.inbox = some InboxErrorCode.commandMismatch then
    .refusal .commandRejected (some (.store err))
  else .fault text err

def commandNotFound (err : SeamError) : Bool :=
  err.inbox = some .notFound || sessionAbsent err

def createRefusal (err : SeamError) : AdmitError :=
  if err.inbox = some InboxErrorCode.commandMismatch then
    .refusal .commandRejected (some (.store err))
  else if err.catalog.any (·.code = .conflict) then
    .refusal .commandRejected (some (.store err))
  else .fault "admission: admit the public create" err

/-! ## Seams -/

/-- `sessionstore.PutCommandPayloadRequest`, less the body and its media type. -/
structure PutCommandPayloadRequest where
  key : SessionKey
  sizeBytes : Nat
  sha256 : Bytes
deriving DecidableEq

structure ObjectMetadata where
  reference : String
  sizeBytes : Nat
  sha256 : Bytes
deriving DecidableEq

/-- The payload of an admission: kept inline, or by reference. -/
inductive PayloadContent where
  | inline (payload : Bytes)
  | object (object : ObjectMetadata)
deriving DecidableEq

structure AdmitDispositionCommandRequest where
  key : CommandDescriptor
  binding : SessionBinding
  proposedRuntimeCommandID : String
  kind : CommandKind
  acceptedAt : Int
  applyDeadline : Int
  principal : Option WirePrincipal
  metadata : MessageMetadata
  content : PayloadContent
deriving DecidableEq

structure PublicCreateIdentity where
  key : CommandDescriptor
  target : HostTargetKey
  binding : SessionBinding
  kind : CommandKind
  payloadDigest : Bytes
  payloadSize : Nat
deriving DecidableEq

structure PreparePublicCreateRequest where
  identity : PublicCreateIdentity
  proposedRuntimeCommandID : String
  acceptedAt : Int
  applyDeadline : Int
  initialWorkload : DesiredWorkload
deriving DecidableEq

structure AdmitPublicCreateRequest where
  identity : PublicCreateIdentity
  principal : Option WirePrincipal
  metadata : MessageMetadata
  content : PayloadContent
deriving DecidableEq

/-- What the service asks of its fence and its seams. -/
inductive ServiceAsk where
  | beginAdmission
  | authorizeControl (principal : Principal) (session : SessionID) (kind : CommandKind)
  | resolveAgent (agent : String)
  | isKnown (target : HostTargetKey)
  | getCatalogEntry (key : SessionKey)
  | getDispositionCommand (key : CommandDescriptor)
  | newUUID
  | now
  | putCommandPayload (request : PutCommandPayloadRequest)
  | admitDispositionCommand (request : AdmitDispositionCommandRequest)
  | owner (key : SessionKey)
  | acceptsGateResponses (owner : OwnerObservation)
  | acceptsCommandPrincipal (owner : OwnerObservation)
  | preparePublicCreate (request : PreparePublicCreateRequest)
  | admitPublicCreate (request : AdmitPublicCreateRequest)
  | onAdmitted (notice : AdmissionNotice)
deriving DecidableEq

@[reducible]
def ServiceAsk.Answer : ServiceAsk → Type
  | .beginAdmission => Bool
  | .authorizeControl _ _ _ => Except SeamError Unit
  | .resolveAgent _ => Except SeamError (Option Target)
  | .isKnown _ => Except SeamError Bool
  | .getCatalogEntry _ => Except SeamError SessionRecord
  | .getDispositionCommand _ => Except SeamError CommandEntry
  | .newUUID => Except SeamError String
  | .now => Int
  | .putCommandPayload _ => Except SeamError ObjectMetadata
  | .admitDispositionCommand _ => Except SeamError (CommandEntry × Bool)
  | .owner _ => Except SeamError (Option OwnerObservation)
  | .acceptsGateResponses _ => Except SeamError Bool
  | .acceptsCommandPrincipal _ => Except SeamError Bool
  | .preparePublicCreate _ => Except SeamError Unit
  | .admitPublicCreate _ => Except SeamError (CommandEntry × Bool)
  | .onAdmitted _ => Unit

abbrev ServiceProgram (α : Type) : Type := Fallible ServiceAsk.Answer AdmitError α

def serviceSeam (q : ServiceAsk) : ServiceProgram q.Answer := Fallible.ask q

/-- Go on with the answer of a seam, or fail with its error wrapped in a text. -/
def orFault {α : Type} (text : String) : Except SeamError α → ServiceProgram α
  | .ok a => pure a
  | .error err => throw (.fault text err)

/-! ## Configuration -/

structure SessionBindingTemplate where
  storageBindingID : String := ""
  bindingVersion : String := ""
deriving DecidableEq

def SessionBindingTemplate.configured (t : SessionBindingTemplate) : Bool :=
  t.storageBindingID ≠ "" && t.bindingVersion ≠ ""

/-- `Config`: which of the optional seams are composed, and the settings. -/
structure ServiceConfig where
  stampPrincipal : Bool := false
  gateResponders : Bool := true
  principalResponders : Bool := true
  publicCreates : Bool := true
  binding : SessionBindingTemplate := {}
  applyDeadline : Int := 0
  onAdmitted : Bool := true
deriving DecidableEq

variable (cfg : ServiceConfig)

def ServiceConfig.createsServed : Bool :=
  cfg.publicCreates && cfg.binding.configured

def maxInboxPayloadBytes : Nat := 64 * 1024

/-! ## The parts of an admission -/

structure Members where
  principal : Option WirePrincipal
  metadata : MessageMetadata
deriving DecidableEq

/-- The fence at the head of every entry point. -/
def beginAdmission : ServiceProgram Unit := do
  match ← serviceSeam .beginAdmission with
  | true => pure ()
  | false => throw .quiesced

/-- `attribute`: the principal the request is to carry. -/
def attributePrincipal (principal : Principal) (carried : Option WirePrincipal) :
    ServiceProgram (Option WirePrincipal) :=
  match carried with
  | some _ => throw (.refusal .invalidRequest (some .clientPrincipal))
  | none => pure (if cfg.stampPrincipal then some principal.wire else none)

def validate (codec : Codec) (request : CommandRequest) : ServiceProgram Unit :=
  if codec.validate request then pure ()
  else throw (.refusal .invalidRequest (some .invalid))

def canonicalCommand (codec : Codec) (request : CommandRequest) : ServiceProgram Bytes :=
  match codec.marshal request with
  | some payload => pure payload
  | none => throw (.refusal .invalidRequest (some .encode))

def authorizeControl (principal : Principal) (session : SessionID) (kind : CommandKind) :
    ServiceProgram Unit := do
  orFault "" (← serviceSeam (.authorizeControl principal session kind))

/-- `putCommandPayload` of a payload above the inline bound, whose error is classified by
`refuse`; a smaller payload stays inline. -/
def storePayload (codec : Codec) (refuse : String → SeamError → AdmitError)
    (key : CommandDescriptor) (payload : Bytes) : ServiceProgram PayloadContent :=
  if maxInboxPayloadBytes < payload.length then do
    let request := { key := ⟨key.tenant, key.session⟩, sizeBytes := payload.length
                     sha256 := codec.sha256 payload }
    match ← serviceSeam (.putCommandPayload request) with
    | .error err => throw (refuse "admission: store the oversized command payload" err)
    | .ok object => pure (.object object)
  else pure (.inline payload)

def notify (entry : CommandEntry) : ServiceProgram Unit :=
  if cfg.onAdmitted then serviceSeam (.onAdmitted entry.notice) else pure ()

/-- `admit`. -/
def admitCommand (codec : Codec) (key : CommandDescriptor) (kind : CommandKind)
    (binding : SessionBinding) (payload : Bytes) (m : Members) :
    ServiceProgram (CommandEntry × Bool) := do
  let runtimeID ← orFault "" (← serviceSeam .newUUID)
  let now ← serviceSeam .now
  let content ← storePayload codec commandRefusal key payload
  let request :=
    { key := key, binding := binding, proposedRuntimeCommandID := runtimeID, kind := kind
      acceptedAt := now, applyDeadline := now + cfg.applyDeadline
      principal := m.principal, metadata := m.metadata, content := content }
  match ← serviceSeam (.admitDispositionCommand request) with
  | .error err => throw (commandRefusal "" err)
  | .ok (entry, created) => do
    notify cfg entry
    pure (entry, created)

/-- `retry`; `none` when there is no durable command to resolve. -/
def retry (codec : Codec) (key : CommandDescriptor) (kind : CommandKind) (payload : Bytes)
    (m : Members) : ServiceProgram (Option CommandEntry) := do
  match ← serviceSeam (.getDispositionCommand key) with
  | .error err => if commandNotFound err then pure none else throw (commandRefusal "" err)
  | .ok found => do
    let (entry, _) ← admitCommand cfg codec key kind found.acceptance.binding payload m
    pure (some entry)

def existingCompatible (key : SessionKey) : ServiceProgram SessionRecord := do
  match ← serviceSeam (.getCatalogEntry key) with
  | .error err =>
    if sessionAbsent err then throw (.refusal .sessionNotFound (some (.store err)))
    else throw (.fault "" err)
  | .ok record => do
    let known ← orFault "admission: read the configured launch targets"
      (← serviceSeam (.isKnown (catalogTarget record)))
    if known then pure record else throw (.refusal .runtimeUnavailable)

def ownerAppliesPrincipal (key : SessionKey) (record : SessionRecord) (m : Members) :
    ServiceProgram Unit :=
  if m.principal = none ∧ m.metadata = [] then pure ()
  else do
    match ← orFault "admission: observe the session's owner" (← serviceSeam (.owner key)) with
    | none => pure ()
    | some owner => do
      let now ← serviceSeam .now
      if reusableOwner owner record.toCatalogRecord now then
        if cfg.principalResponders then do
          let accepts ← orFault
            "admission: ask the owner whether it applies command principal and metadata"
            (← serviceSeam (.acceptsCommandPrincipal owner))
          if accepts then pure ()
          else throw (.refusal .runtimeUnavailable (some .metadataUnsupported))
        else throw (.refusal .runtimeUnavailable (some .metadataUnsupported))
      else pure ()

/-- `gateAdmission`; `none` admits. -/
def gateAdmission (gates : List GateProjection) (request : GateResponseRequest) (now : Int) :
    Option ErrorCode :=
  match gates.find? (·.gateID = request.gateID) with
  | none => some .gateResolved
  | some gate =>
    if ¬now < gate.deadline then some .gateExpired
    else if ¬(request.expectedOpenEventID ≠ "" ∧ gate.openedEventID = request.expectedOpenEventID ∨
        request.expectedOpenJournalSeq ≠ 0 ∧
          gate.openedJournalSeq = request.expectedOpenJournalSeq) then some .gateResolved
    else if ¬gate.resident then some .gateNotResumable
    else none

def ownerAppliesGateResponses (owner : OwnerObservation) : ServiceProgram Unit :=
  if cfg.gateResponders then do
    let accepts ← orFault "admission: ask the owner whether it applies gate responses"
      (← serviceSeam (.acceptsGateResponses owner))
    if accepts then pure ()
    else throw (.refusal .gateNotResumable (some .gateResponseUnsupported))
  else throw (.refusal .gateNotResumable (some .gateResponseUnsupported))

def gateOwnerAnswers (key : SessionKey) (record : SessionRecord) (now : Int) :
    ServiceProgram Unit := do
  match ← orFault "admission: observe the session's owner" (← serviceSeam (.owner key)) with
  | none => throw (.refusal .gateNotResumable)
  | some owner =>
    if reusableOwner owner record.toCatalogRecord now then ownerAppliesGateResponses cfg owner
    else throw (.refusal .gateNotResumable)

/-! ## Commands of an existing session -/

def admitExisting (codec : Codec) (principal : Principal) (request : CommandRequest) (m : Members) :
    ServiceProgram (CommandEntry × Bool) := do
  let key := ⟨principal.tenant, request.head.session, request.head.command⟩
  let payload ← canonicalCommand codec request
  authorizeControl principal request.head.session request.kind
  match ← retry cfg codec key request.kind payload m with
  | some entry => pure (entry, false)
  | none => do
    let record ← existingCompatible ⟨principal.tenant, request.head.session⟩
    ownerAppliesPrincipal cfg ⟨principal.tenant, request.head.session⟩ record m
    admitCommand cfg codec key request.kind record.binding payload m

/-- What `AdmitInput`, `AdmitInterrupt` and `AdmitRestore` have in common. -/
def admitAttributed (codec : Codec) (principal : Principal) (request : CommandRequest) :
    ServiceProgram (CommandEntry × Bool) := do
  beginAdmission
  let carried ← attributePrincipal cfg principal request.head.principal
  validate codec (request.withPrincipal carried)
  admitExisting cfg codec principal (request.withPrincipal carried) ⟨carried, request.metadata⟩

def admitInput (codec : Codec) (principal : Principal) (request : InputRequest) :
    ServiceProgram (CommandEntry × Bool) :=
  admitAttributed cfg codec principal (.input request)

def admitInterrupt (codec : Codec) (principal : Principal) (request : InterruptRequest) :
    ServiceProgram (CommandEntry × Bool) :=
  admitAttributed cfg codec principal (.interrupt request)

def admitRestore (codec : Codec) (principal : Principal) (request : RestoreRequest) :
    ServiceProgram (CommandEntry × Bool) :=
  admitAttributed cfg codec principal (.restore request)

/-- `AdmitGateResponse` for a response that is not a retry. -/
def admitOpenGate (codec : Codec) (principal : Principal) (request : GateResponseRequest)
    (payload : Bytes) (m : Members) :
    ServiceProgram (CommandEntry × Bool) := do
  let session : SessionKey := ⟨principal.tenant, request.session⟩
  if maxInboxPayloadBytes < payload.length then
    throw (.refusal .invalidRequest (some (.gateResponseTooLarge payload.length)))
  else do
    let record ← existingCompatible session
    let now ← serviceSeam .now
    match gateAdmission record.openGates request now with
    | some code => throw (.refusal code)
    | none => do
      gateOwnerAnswers cfg session record now
      ownerAppliesPrincipal cfg session record m
      admitCommand cfg codec ⟨principal.tenant, request.session, request.command⟩ .gateResponse
        record.binding payload m

def admitGateResponse (codec : Codec) (principal : Principal) (request : GateResponseRequest) :
    ServiceProgram (CommandEntry × Bool) := do
  beginAdmission
  let carried ← attributePrincipal cfg principal request.principal
  let stamped := { request with principal := carried }
  validate codec (.gateResponse stamped)
  let payload ← canonicalCommand codec (.gateResponse stamped)
  authorizeControl principal request.session .gateResponse
  match ← retry cfg codec ⟨principal.tenant, request.session, request.command⟩ .gateResponse payload
      ⟨carried, []⟩ with
  | some entry => pure (entry, false)
  | none => admitOpenGate cfg codec principal stamped payload ⟨carried, []⟩

/-! ## Creates -/

def runtimeSessionNamespace : String := "looprig/factory/runtime-session-id/v1"

/-- What `deriveRuntimeSessionID` hashes of members of any bytes: the namespace, then each after a
bar, as its length in decimal, a colon and its bytes. -/
def runtimeSessionBytes (tenant session command : Bytes) : Bytes :=
  Framing.utf8 runtimeSessionNamespace ++
    [tenant, session, command].flatMap fun member => 124 :: Framing.counted 58 member

/-- The bytes `deriveRuntimeSessionID` hashes. -/
def runtimeSessionPreimage (key : CommandDescriptor) : Bytes :=
  runtimeSessionBytes (Framing.utf8 key.tenant) (Framing.utf8 key.session)
    (Framing.utf8 key.command)

def hexDigit (n : Nat) : Char := if n < 10 then Char.ofNat (48 + n) else Char.ofNat (87 + n)

/-- `hex.EncodeToString`. -/
def hexEncode (bytes : Bytes) : List Char :=
  bytes.flatMap fun b => [hexDigit (b.toNat / 16), hexDigit (b.toNat % 16)]

/-- The version and the variant of a version-8 UUID, in the bytes that hold them. -/
def stampUUID (raw : Bytes) : Bytes :=
  (raw.modify 6 fun b => (b &&& 0x0f) ||| 0x80).modify 8 fun b => (b &&& 0x3f) ||| 0x80

def deriveRuntimeSessionID (sha256 : Bytes → Bytes) (key : CommandDescriptor) : String :=
  let h := hexEncode (stampUUID ((sha256 (runtimeSessionPreimage key)).take 16))
  let part := fun i j => (h.take j).drop i
  String.ofList (part 0 8 ++ '-' :: part 8 12 ++ '-' :: part 12 16 ++ '-' :: part 16 20 ++
    '-' :: part 20 32)

/-- `bind`. -/
def bindSession (codec : Codec) (key : CommandDescriptor) : SessionBinding where
  storageBindingID := cfg.binding.storageBindingID
  bindingVersion := cfg.binding.bindingVersion
  runtimeSessionID := deriveRuntimeSessionID codec.sha256 key
  protocolMode := .disposition

def createIdentity (codec : Codec) (key : CommandDescriptor) (target : Target) (payload : Bytes) :
    PublicCreateIdentity where
  key := key
  target := target.key
  binding := bindSession cfg codec key
  kind := .create
  payloadDigest := codec.sha256 payload
  payloadSize := payload.length

def admitPublicCreate (cfg : ServiceConfig) (codec : Codec) (key : CommandDescriptor)
    (request : CreateRequest) (target : Target) (payload : Bytes) :
    ServiceProgram (CommandEntry × Bool) := do
  let identity := createIdentity cfg codec key target payload
  let runtimeID ← orFault "" (← serviceSeam .newUUID)
  let now ← serviceSeam .now
  let prepare :=
    { identity := identity, proposedRuntimeCommandID := runtimeID, acceptedAt := now
      applyDeadline := now + cfg.applyDeadline, initialWorkload := target.workload }
  match ← serviceSeam (.preparePublicCreate prepare) with
  | .error err => throw (createRefusal err)
  | .ok _ => do
    let content ← storePayload codec .fault key payload
    let admission :=
      { identity := identity, principal := request.principal, metadata := request.metadata
        content := content }
    match ← serviceSeam (.admitPublicCreate admission) with
    | .error err => throw (createRefusal err)
    | .ok (entry, created) => do
      notify cfg entry
      pure (entry, created)

def admitCreate (codec : Codec) (principal : Principal) (request : CreateRequest) :
    ServiceProgram (CommandEntry × Bool) := do
  beginAdmission
  let carried ← attributePrincipal cfg principal request.principal
  let stamped := { request with principal := carried }
  validate codec (.create stamped)
  let payload ← canonicalCommand codec (.create stamped)
  authorizeControl principal request.session .create
  match ← orFault "admission: resolve the launch target"
      (← serviceSeam (.resolveAgent request.agent)) with
  | none => throw (.refusal .runtimeUnavailable)
  | some target =>
    if target.key.agent ≠ request.agent then throw (.refusal .runtimeUnavailable)
    else if cfg.createsServed then
      admitPublicCreate cfg codec ⟨principal.tenant, request.session, request.command⟩ stamped
        target payload
    else throw (.refusal .runtimeUnavailable (some .createBindingUnconfigured))

/-! ## Calls -/

/-- One replica's service: its configuration and its launch targets. -/
structure Replica where
  config : ServiceConfig
  resolveAgent : String → Option Target
  isKnown : HostTargetKey → Bool

/-- A call of one of the entry points. -/
structure ServiceCall where
  replica : Replica
  principal : Principal
  request : CommandRequest

def ServiceCall.program (codec : Codec) (call : ServiceCall) :
    ServiceProgram (CommandEntry × Bool) :=
  match call.request with
  | .create request => admitCreate call.replica.config codec call.principal request
  | .input request => admitInput call.replica.config codec call.principal request
  | .interrupt request => admitInterrupt call.replica.config codec call.principal request
  | .restore request => admitRestore call.replica.config codec call.principal request
  | .gateResponse request => admitGateResponse call.replica.config codec call.principal request

end Factory.Admission
