import Factory.Wire
import Factory.Delivery.Queue

/-!
# Parsing an enduring publication

Model of `ParseEnduring` in `internal/realtime/delivery/queue.go`: the routing and
sequence envelope is read, the bytes are forwarded unchanged, and the watermark is
bounded twice, below by Core's own rule and above by the Host's committed append
sequence.
-/

namespace Factory.Delivery

/-- The refusals of `ParseEnduring`. -/
inductive ParseError where
  | notEnduring (recordType : Option SessionRecordType)
  | watermarkNotItsEventSequence
  | malformed
  | watermarkAboveCommitted (coveredThrough committedAppend : Nat)
deriving DecidableEq

/-- `Enduring`: a parsed publication and the record exactly as received. -/
structure Enduring where
  publication : EnduringPublication
  encoded : Bytes

def Enduring.record (e : Enduring) : Record Encoded :=
  { cls := .enduring, encoded := .frame e.encoded, seq := e.publication.journalSeq }

def parseEnduring (core : Core) (encoded : Bytes) (committedAppend : Nat) :
    Except ParseError Enduring :=
  match core.sessionRecordTypeOf encoded with
  | some .enduringPublication =>
    match core.unmarshalEnduring encoded with
    | .error (.requestValidation field) =>
      if field = "covered_through" then .error .watermarkNotItsEventSequence
      else .error .malformed
    | .error .other => .error .malformed
    | .ok publication =>
      if committedAppend < publication.coveredThrough then
        .error (.watermarkAboveCommitted publication.coveredThrough committedAppend)
      else .ok ⟨publication, encoded⟩
  | recordType => .error (.notEnduring recordType)

end Factory.Delivery
