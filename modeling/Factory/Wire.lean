import Mathlib.Algebra.Ring.Nat

/-!
# The wire vocabulary

The identities and records of Core's `sessionwire/v1` that the modelled packages read,
and Core's decoders. Core is not part of the repository: its decoders are the fields of
`Core`, about which nothing is assumed here.
-/

namespace Factory

abbrev Bytes := List UInt8
abbrev TenantID := String
abbrev SessionID := String
abbrev HostID := String
abbrev CommandID := String
abbrev InternalEndpoint := String
abbrev Cursor := String

/-- One session of one tenant: a session id is unique within its tenant only. -/
structure SessionKey where
  tenant : TenantID
  session : SessionID
deriving DecidableEq

/-- `sessionwire.SessionRecordType`, with every repair control in one case. -/
inductive SessionRecordType where
  | enduringPublication
  | ephemeralPublication
  | control (name : String)
deriving DecidableEq

/-- `sessionwire.EnduringPublication`, less the event id and the opaque body. -/
structure EnduringPublication where
  tenant : TenantID
  session : SessionID
  journalSeq : Nat
  coveredThrough : Nat
deriving DecidableEq

structure EphemeralPublication where
  tenant : TenantID
  session : SessionID
deriving DecidableEq

structure SessionReset where
  tenant : TenantID
  session : SessionID
  lastContiguous : Nat
  journalTip : Nat
deriving DecidableEq

/-- `sessionwire.JournalPage`: the sequences of its events, how far the scan got and the
tip captured before it. -/
structure JournalPage where
  events : List Nat
  coveredThrough : Nat
  capturedTip : Nat
deriving DecidableEq

/-- Why Core refused to decode a record: a typed refusal of one field, or anything else. -/
inductive DecodeError where
  | requestValidation (field : String)
  | other
deriving DecidableEq

/-- Core's decoders and its encoder of a reset, `marshalReset` telling whether
`SessionReset.MarshalJSON` succeeds. -/
structure Core where
  sessionRecordTypeOf : Bytes → Option SessionRecordType
  unmarshalEnduring : Bytes → Except DecodeError EnduringPublication
  unmarshalEphemeral : Bytes → Option EphemeralPublication
  marshalReset : SessionReset → Bool

/-- The published bytes of a record: a frame exactly as it was received, or the
encoding of a reset, which determines the reset. -/
inductive Encoded where
  | frame (bytes : Bytes)
  | reset (reset : SessionReset)
deriving DecidableEq

inductive ErrorCode where
  | invalidRequest
  | unsupportedVersion
  | sessionNotFound
  | commandRejected
  | gateResolved
  | gateNotResumable
  | gateExpired
  | gateResponseInvalid
  | runtimeUnavailable
deriving DecidableEq

structure ErrorDetail where
  code : ErrorCode
  message : String := ""
  retryable : Bool := false
deriving DecidableEq

/-! ## HostLink records -/

/-- `sessionwire.HostLinkRegistryObservation`: a session's residency on a Host, as the
registry has it. -/
structure HostLinkRegistryObservation where
  tenant : TenantID
  session : SessionID
  host : HostID
  hostGeneration : Nat
  leaseEpoch : Nat
  internalEndpoint : InternalEndpoint := ""
  agent : String := ""
  runtimeCompatibility : String := ""
deriving DecidableEq

structure HostLinkBindRequest where
  version : Nat
  tenant : TenantID
  session : SessionID
  host : HostID
  hostGeneration : Nat
  leaseEpoch : Nat
  runtimeCompatibility : String
  idempotencyKey : String
deriving DecidableEq

structure HostLinkUnbindRequest where
  version : Nat
  tenant : TenantID
  session : SessionID
  host : HostID
  hostGeneration : Nat
  leaseEpoch : Nat
  idempotencyKey : String
deriving DecidableEq

/-- `sessionwire.HostLinkAttachRequest`, less its idempotency key. -/
structure HostLinkAttachRequest where
  tenant : TenantID
  session : SessionID
  host : HostID
  hostGeneration : Nat
  agent : String := ""
  runtimeCompatibility : String := ""
deriving DecidableEq

structure HostLinkCommandDelivery where
  command : CommandID
deriving DecidableEq

/-- `n + 1` on `uint64`. -/
def succ64 (n : Nat) : Nat := (n + 1) % 2 ^ 64

/-- `a - b` on `uint64`. -/
def sub64 (a b : Nat) : Nat := (a + (2 ^ 64 - b % 2 ^ 64)) % 2 ^ 64

theorem succ64_le (n : Nat) : succ64 n ≤ n + 1 := Nat.mod_le _ _

end Factory
