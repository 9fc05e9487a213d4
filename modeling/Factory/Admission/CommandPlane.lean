import Factory.Admission.Service
import Factory.Lib.Threads
import Mathlib.Logic.Function.Basic

/-!
# The command plane

Any number of admissions, on any replicas, against one store. The store keeps the immutable binding
of each session that exists, the reservation of each public create and the commands it accepted
(`CommandPlane`); `AdmitDispositionCommand` compares a command it holds by kind, payload digest and
size, and binding, and a public create is compared by its whole identity. Everything else an
admission asks (the clock, the registry, the owner's capabilities, the open gates and the desired
state of the catalog record) is answered by the environment, and a seam may fail, the write it was
asked for having been made or not.

`serviceSystem_rule` is what all admissions keep: a command, once accepted, keeps what was accepted.
-/

namespace Factory.Admission

open Function Dialogue Threads
open Placement (OwnerObservation CatalogRecord)

/-! ## The store -/

def CommandDescriptor.sessionKey (key : CommandDescriptor) : SessionKey := ⟨key.tenant, key.session⟩

/-- A public create is reserved by its command under the tenant, not under the session. -/
def CommandDescriptor.createKey (key : CommandDescriptor) : TenantID × CommandID :=
  (key.tenant, key.command)

structure CommandPlane where
  bindings : SessionKey → Option SessionBinding := fun _ => none
  reserved : TenantID × CommandID → Option PreparePublicCreateRequest := fun _ => none
  commands : CommandDescriptor → Option CommandEntry := fun _ => none
  accepted : Nat := 0

/-- The errors of the store. -/
def sessionNotFound : SeamError := { catalog := some { code := .notFound } }
def protocolMismatch : SeamError :=
  { catalog := some { code := .invalid, field := legacyProtocolField } }
def sessionConflict : SeamError := { catalog := some { code := .conflict } }
def commandAbsent : SeamError := { inbox := some .notFound }
def commandMismatch : SeamError := { inbox := some InboxErrorCode.commandMismatch }

/-- The digest and the size the store compares. -/
def PayloadContent.identity (codec : Codec) : PayloadContent → Bytes × Nat
  | .inline payload => (codec.sha256 payload, payload.length)
  | .object stored => (stored.sha256, stored.sizeBytes)

/-- An accepted command is the create of this identity. -/
def Acceptance.OfIdentity (a : Acceptance) (identity : PublicCreateIdentity) : Prop :=
  a.kind = .create ∧ a.payloadDigest = identity.payloadDigest ∧ a.payloadSize = identity.payloadSize

instance (a : Acceptance) (identity : PublicCreateIdentity) : Decidable (a.OfIdentity identity) :=
  inferInstanceAs (Decidable (_ ∧ _ ∧ _))

/-- An accepted command is the one a request asks for. -/
def Acceptance.Matches (codec : Codec) (a : Acceptance) (request : AdmitDispositionCommandRequest) :
    Prop :=
  a.kind = request.kind ∧ (a.payloadDigest, a.payloadSize) = request.content.identity codec ∧
    a.binding = request.binding

instance (codec : Codec) (a : Acceptance) (request : AdmitDispositionCommandRequest) :
    Decidable (a.Matches codec request) := inferInstanceAs (Decidable (_ ∧ _ ∧ _))

namespace CommandPlane

/-- The binding of a session of the disposition protocol. -/
def dispositionBinding (w : CommandPlane) (key : SessionKey) : Except SeamError SessionBinding :=
  match w.bindings key with
  | none => .error sessionNotFound
  | some binding =>
    if binding.protocolMode = .disposition then .ok binding else .error protocolMismatch

def getDispositionCommand (w : CommandPlane) (key : CommandDescriptor) :
    Except SeamError CommandEntry :=
  match w.dispositionBinding key.sessionKey with
  | .error err => .error err
  | .ok _ =>
    match w.commands key with
    | none => .error commandAbsent
    | some entry => .ok entry

/-- A command that was not there is written. -/
def write (w : CommandPlane) (a : Acceptance) : CommandPlane :=
  { w with
    commands := Function.update w.commands a.key (some { acceptance := a })
    accepted := w.accepted + 1 }

theorem write_commands_self (w : CommandPlane) (a : Acceptance) :
    (w.write a).commands a.key = some { acceptance := a } := update_self _ _ _

/-- A session gets its binding. -/
def pin (w : CommandPlane) (session : SessionKey) (binding : SessionBinding) : CommandPlane :=
  { w with bindings := Function.update w.bindings session (some binding) }

/-- A public create is reserved. -/
def reserve (w : CommandPlane) (request : PreparePublicCreateRequest) : CommandPlane :=
  { w with
    reserved := Function.update w.reserved request.identity.key.createKey (some request) }

def newCommand (codec : Codec) (w : CommandPlane) (request : AdmitDispositionCommandRequest) :
    Acceptance where
  key := request.key
  binding := request.binding
  runtimeCommandID := request.proposedRuntimeCommandID
  kind := request.kind
  payloadDigest := (request.content.identity codec).1
  payloadSize := (request.content.identity codec).2
  acceptedAt := request.acceptedAt
  applyDeadline := request.applyDeadline
  acceptedOrder := w.accepted + 1
  principal := request.principal
  metadata := request.metadata

def admitDispositionCommand (codec : Codec) (w : CommandPlane)
    (request : AdmitDispositionCommandRequest) :
    Except SeamError (CommandEntry × Bool) × CommandPlane :=
  match w.dispositionBinding request.key.sessionKey with
  | .error err => (.error err, w)
  | .ok binding =>
    -- The command of the session's own create is reserved before it is written.
    if (w.reserved request.key.createKey).any (·.identity.key = request.key) then
      (.error commandMismatch, w)
    else if request.binding ≠ binding then (.error commandMismatch, w)
    else
      match w.commands request.key with
      | some entry =>
        if entry.acceptance.Matches codec request then (.ok (entry, false), w)
        else (.error commandMismatch, w)
      | none =>
        (.ok ({ acceptance := w.newCommand codec request }, true),
          w.write (w.newCommand codec request))

def preparePublicCreate (w : CommandPlane) (request : PreparePublicCreateRequest) :
    Except SeamError Unit × CommandPlane :=
  match w.reserved request.identity.key.createKey with
  | some reservation =>
    if reservation.identity = request.identity then (.ok (), w) else (.error commandMismatch, w)
  | none =>
    match w.bindings request.identity.key.sessionKey with
    | some _ => (.error sessionConflict, w)
    | none =>
      if request.identity.binding.protocolMode = .disposition then
        (.ok (), (w.pin request.identity.key.sessionKey request.identity.binding).reserve request)
      else (.error protocolMismatch, w)

def newCreate (w : CommandPlane) (reservation : PreparePublicCreateRequest)
    (request : AdmitPublicCreateRequest) : Acceptance where
  key := reservation.identity.key
  binding := reservation.identity.binding
  runtimeCommandID := reservation.proposedRuntimeCommandID
  kind := .create
  payloadDigest := reservation.identity.payloadDigest
  payloadSize := reservation.identity.payloadSize
  acceptedAt := reservation.acceptedAt
  applyDeadline := reservation.applyDeadline
  acceptedOrder := w.accepted + 1
  principal := request.principal
  metadata := request.metadata

def admitPublicCreate (w : CommandPlane) (request : AdmitPublicCreateRequest) :
    Except SeamError (CommandEntry × Bool) × CommandPlane :=
  match w.reserved request.identity.key.createKey with
  | none => (.error commandMismatch, w)
  | some reservation =>
    if reservation.identity ≠ request.identity then (.error commandMismatch, w)
    else
      match w.commands request.identity.key with
      | some entry =>
        if entry.acceptance.OfIdentity request.identity then (.ok (entry, false), w)
        else (.error commandMismatch, w)
      | none =>
        (.ok ({ acceptance := w.newCreate reservation request }, true),
          w.write (w.newCreate reservation request))

end CommandPlane

/-! ## Answers -/

/-- The environment's part in an answer: whether the command store, the upload or the ID source
fails, and if it does whether the write it was asked for was made; whether another seam fails; and
what a seam outside the store answers. -/
structure ServiceChoice where
  fault : Option SeamError := none
  otherFault : Option SeamError := none
  committed : Bool := false
  begun : Bool := true
  refused : Option SeamError := none
  id : String := ""
  instant : Int := 0
  reference : String := ""
  record : CatalogRecord := ⟨"", "", "", "", .pooled, 0, 0, 0⟩
  openGates : List GateProjection := []
  owner : Option OwnerObservation := none
  accepts : Bool := true

/-- The answer, or the error of a seam that failed. -/
def orFail {α : Type} (fault : Option SeamError) (out : Except SeamError α) : Except SeamError α :=
  match fault with
  | some err => .error err
  | none => out

/-- A write, or one whose answer was lost. -/
def ServiceChoice.orLose {α : Type} (choice : ServiceChoice) (w : CommandPlane)
    (out : Except SeamError α × CommandPlane) : Except SeamError α × CommandPlane :=
  match choice.fault with
  | some err => (.error err, if choice.committed then out.2 else w)
  | none => out

/-- The catalog record of a session: the binding is the store's, and nothing else of it is fixed. -/
def ServiceChoice.catalogRecord (choice : ServiceChoice) (key : SessionKey)
    (binding : SessionBinding) : SessionRecord :=
  { choice.record with
    tenant := key.tenant, session := key.session, openGates := choice.openGates
    binding := binding }

def CommandPlane.answer (codec : Codec) (w : CommandPlane) (call : ServiceCall)
    (choice : ServiceChoice) : (q : ServiceAsk) → q.Answer × CommandPlane
  | .beginAdmission => (choice.begun, w)
  | .authorizeControl _ _ _ =>
    (match choice.refused with
      | some err => .error err
      | none => .ok (), w)
  | .resolveAgent agent => (orFail choice.otherFault (.ok (call.replica.resolveAgent agent)), w)
  | .isKnown target => (orFail choice.otherFault (.ok (call.replica.isKnown target)), w)
  | .getCatalogEntry key =>
    (orFail choice.otherFault (match w.bindings key with
      | none => .error sessionNotFound
      | some binding => .ok (choice.catalogRecord key binding)), w)
  | .getDispositionCommand key => (orFail choice.fault (w.getDispositionCommand key), w)
  | .newUUID => (orFail choice.fault (.ok choice.id), w)
  | .now => (choice.instant, w)
  | .putCommandPayload request =>
    (orFail choice.fault (.ok ⟨choice.reference, request.sizeBytes, request.sha256⟩), w)
  | .admitDispositionCommand request => choice.orLose w (w.admitDispositionCommand codec request)
  | .owner _ => (orFail choice.otherFault (.ok choice.owner), w)
  | .acceptsGateResponses _ => (orFail choice.otherFault (.ok choice.accepts), w)
  | .acceptsCommandPrincipal _ => (orFail choice.otherFault (.ok choice.accepts), w)
  | .preparePublicCreate request => choice.orLose w (w.preparePublicCreate request)
  | .admitPublicCreate request => choice.orLose w (w.admitPublicCreate request)
  | .onAdmitted _ => ((), w)

/-- What others do to the store: create a session, and move a command on. -/
inductive PlaneEvent where
  | createSession (key : SessionKey) (binding : SessionBinding)
  | progress (key : CommandDescriptor) (state : InboxState) (claim : Option CommandClaim)
      (attempt : Option Attempt) (revision : Nat)
deriving DecidableEq

def CommandPlane.event (w : CommandPlane) : PlaneEvent → Option CommandPlane
  | .createSession key binding =>
    match w.bindings key with
    | some _ => none
    | none => some (w.pin key binding)
  | .progress key state claim attempt revision =>
    match w.commands key with
    | none => none
    | some entry =>
      some { w with
        commands := Function.update w.commands key
          (some { entry with
            state := state, claim := claim, attempt := attempt, revision := revision }) }

abbrev AdmitResult : Type := Except AdmitError (CommandEntry × Bool)

def serviceSystem (codec : Codec) :
    System CommandPlane ServiceAsk.Answer ServiceCall AdmitResult PlaneEvent ServiceChoice where
  program call := (call.program codec).run
  begins _ _ := true
  event := CommandPlane.event
  answer w call choice q := some (w.answer codec call choice q)

abbrev ServiceRun : Type := State CommandPlane ServiceAsk.Answer ServiceCall AdmitResult

abbrev ServiceAct : Type := Act ServiceCall PlaneEvent ServiceChoice

/-! ## What holds of the store -/

namespace CommandPlane

/-- The commands and the reservations are of sessions that exist, under their bindings, and the
command of a reservation is its create. -/
structure Pinned (w : CommandPlane) : Prop where
  command : ∀ key entry, w.commands key = some entry →
    w.bindings key.sessionKey = some entry.acceptance.binding ∧
      entry.acceptance.binding.protocolMode = .disposition
  reservation : ∀ key reservation, w.reserved key = some reservation →
    w.bindings reservation.identity.key.sessionKey = some reservation.identity.binding ∧
      reservation.identity.binding.protocolMode = .disposition
  own : ∀ key entry reservation, w.commands key = some entry →
    w.reserved key.createKey = some reservation → reservation.identity.key = key →
      entry.acceptance.OfIdentity reservation.identity

/-- What no step takes back: a session keeps its binding, a reservation stays, and a command keeps
what was accepted. -/
structure Later (w v : CommandPlane) : Prop where
  binding : ∀ session binding, w.bindings session = some binding → v.bindings session = some binding
  reservation : ∀ key reservation, w.reserved key = some reservation →
    v.reserved key = some reservation
  command : ∀ key entry, w.commands key = some entry →
    ∃ entry', v.commands key = some entry' ∧ entry'.acceptance = entry.acceptance

theorem Later.refl (w : CommandPlane) : w.Later w :=
  ⟨fun _ _ => id, fun _ _ => id, fun _ entry h => ⟨entry, h, rfl⟩⟩

variable {v : CommandPlane}

theorem Later.trans {u w : CommandPlane} (h : u.Later v) (h' : v.Later w) : u.Later w where
  binding session binding hb := h'.binding _ _ (h.binding session binding hb)
  reservation key reservation hr := h'.reservation _ _ (h.reservation key reservation hr)
  command key entry he := by
    obtain ⟨entry₁, he₁, hsame₁⟩ := h.command key entry he
    obtain ⟨entry₂, he₂, hsame₂⟩ := h'.command key entry₁ he₁
    exact ⟨entry₂, he₂, hsame₂.trans hsame₁⟩

/-- A step that keeps what holds of the store. -/
structure Keeps (w v : CommandPlane) : Prop where
  pinned : v.Pinned
  later : w.Later v

theorem Keeps.trans {u w : CommandPlane} (h : u.Keeps v) (h' : v.Keeps w) : u.Keeps w :=
  ⟨h'.pinned, h.later.trans h'.later⟩

variable {w : CommandPlane}

theorem Pinned.keeps_self (h : w.Pinned) : w.Keeps w := ⟨h, .refl w⟩

theorem pinned_empty : CommandPlane.Pinned {} where
  command := by rintro key entry ⟨⟩
  reservation := by rintro key reservation ⟨⟩
  own := by rintro key entry reservation ⟨⟩

theorem Pinned.refused (h : w.Pinned) (err : SeamError) (P : CommandEntry → Prop) :
    w.Keeps w ∧ ∀ entry created,
      (Except.error err : Except SeamError (CommandEntry × Bool)) = .ok (entry, created) →
        P entry := by
  refine ⟨h.keeps_self, ?_⟩
  rintro entry created ⟨⟩

theorem Pinned.write (h : w.Pinned) {a : Acceptance} (hnew : w.commands a.key = none)
    (hbinding : w.bindings a.key.sessionKey = some a.binding)
    (hmode : a.binding.protocolMode = .disposition)
    (hown : ∀ reservation, w.reserved a.key.createKey = some reservation →
      reservation.identity.key = a.key → a.OfIdentity reservation.identity) :
    w.Keeps (w.write a) := by
  -- The entry at a key of the new store is the new one or an old one.
  have hcases : ∀ key entry, (w.write a).commands key = some entry →
      (key = a.key ∧ entry.acceptance = a) ∨ w.commands key = some entry := by
    intro key entry hentry
    by_cases hkey : key = a.key
    · subst hkey
      rw [write_commands_self, Option.some.injEq] at hentry
      subst hentry
      exact .inl ⟨rfl, rfl⟩
    · exact .inr ((update_of_ne hkey _ _).symm.trans hentry)
  refine ⟨⟨?_, h.reservation, ?_⟩, fun _ _ => id, fun _ _ => id, ?_⟩
  · intro key entry hentry
    rcases hcases key entry hentry with ⟨rfl, rfl⟩ | hold
    · exact ⟨hbinding, hmode⟩
    · exact h.command key entry hold
  · intro key entry reservation hentry hreserved hkey
    rcases hcases key entry hentry with ⟨rfl, rfl⟩ | hold
    · exact hown reservation hreserved hkey
    · exact h.own key entry reservation hold hreserved hkey
  · intro key entry hentry
    have hne : key ≠ a.key := by
      rintro rfl
      cases hnew.symm.trans hentry
    exact ⟨entry, (update_of_ne hne _ _).trans hentry, rfl⟩

variable {session : SessionKey}

theorem dispositionBinding_ok {binding : SessionBinding}
    (h : w.dispositionBinding session = .ok binding) :
    w.bindings session = some binding ∧ binding.protocolMode = .disposition := by
  unfold dispositionBinding at h
  split at h
  · cases h
  · next found hfound =>
    split at h
    · next hmode =>
      cases h
      exact ⟨hfound, hmode⟩
    · cases h

theorem dispositionBinding_eq {binding : SessionBinding} (h : w.bindings session = some binding)
    (hmode : binding.protocolMode = .disposition) : w.dispositionBinding session = .ok binding := by
  unfold dispositionBinding
  rw [h]
  exact if_pos hmode

/-- What is known of a command that was accepted, or found accepted. -/
def Holds (codec : Codec) (w : CommandPlane) (request : AdmitDispositionCommandRequest)
    (entry : CommandEntry) : Prop :=
  ∃ found, w.commands request.key = some found ∧ found.acceptance = entry.acceptance ∧
    entry.acceptance.Matches codec request

/-- An admission takes back nothing, and what it answers the store holds. -/
theorem Pinned.admitDispositionCommand (h : w.Pinned) (codec : Codec)
    (request : AdmitDispositionCommandRequest) :
    w.Keeps (w.admitDispositionCommand codec request).2 ∧
      ∀ entry created, (w.admitDispositionCommand codec request).1 = .ok (entry, created) →
        (w.admitDispositionCommand codec request).2.Holds codec request entry := by
  unfold CommandPlane.admitDispositionCommand
  split
  · exact h.refused _ _
  next binding hbinding =>
  obtain ⟨hpin, hmode⟩ := dispositionBinding_ok hbinding
  split
  · exact h.refused _ _
  next hown =>
  split
  · exact h.refused _ _
  next hsame =>
  have heq : request.binding = binding := not_not.mp hsame
  subst heq
  split
  · next entry hentry =>
    split
    · next hmatches =>
      refine ⟨h.keeps_self, ?_⟩
      rintro _ _ ⟨⟩
      exact ⟨entry, hentry, rfl, hmatches⟩
    · exact h.refused _ _
  · next hnew =>
    refine ⟨h.write hnew hpin hmode ?_, ?_⟩
    · intro reservation hreserved hkey
      refine absurd ?_ hown
      rw [show w.reserved request.key.createKey = some reservation from hreserved]
      exact decide_eq_true hkey
    · rintro _ _ ⟨⟩
      exact ⟨_, write_commands_self w _, rfl, rfl, rfl, rfl⟩

theorem Pinned.pin (h : w.Pinned) (hnone : w.bindings session = none) (binding : SessionBinding)
    : w.Keeps (w.pin session binding) := by
  have hold : ∀ s b, w.bindings s = some b → (w.pin session binding).bindings s = some b := by
    intro s b hb
    have hne : s ≠ session := by
      rintro rfl
      cases hnone.symm.trans hb
    exact (update_of_ne hne _ _).trans hb
  refine ⟨⟨?_, ?_, h.own⟩, hold, fun _ _ => id, fun _ entry he => ⟨entry, he, rfl⟩⟩
  · intro key entry hentry
    obtain ⟨hb, hm⟩ := h.command key entry hentry
    exact ⟨hold _ _ hb, hm⟩
  · intro s reservation hreserved
    obtain ⟨hb, hm⟩ := h.reservation s reservation hreserved
    exact ⟨hold _ _ hb, hm⟩

theorem Pinned.reserve (h : w.Pinned) {request : PreparePublicCreateRequest}
    (hfree : w.reserved request.identity.key.createKey = none)
    (hbinding : w.bindings request.identity.key.sessionKey = some request.identity.binding)
    (hmode : request.identity.binding.protocolMode = .disposition)
    (hnew : ∀ key entry, w.commands key = some entry →
      key.sessionKey ≠ request.identity.key.sessionKey) : w.Keeps (w.reserve request) := by
  have hcases : ∀ key reservation, (w.reserve request).reserved key = some reservation →
      reservation = request ∨ w.reserved key = some reservation := by
    intro key reservation hreserved
    by_cases hkey : key = request.identity.key.createKey
    · subst hkey
      exact .inl (Option.some.inj (hreserved.symm.trans (update_self _ _ _)))
    · exact .inr ((update_of_ne hkey _ _).symm.trans hreserved)
  refine ⟨⟨h.command, ?_, ?_⟩, fun _ _ => id, ?_, fun _ entry he => ⟨entry, he, rfl⟩⟩
  · intro key reservation hreserved
    rcases hcases key reservation hreserved with rfl | hold
    · exact ⟨hbinding, hmode⟩
    · exact h.reservation key reservation hold
  · intro key entry reservation hentry hreserved hkey
    rcases hcases _ reservation hreserved with rfl | hold
    · exact absurd (congrArg CommandDescriptor.sessionKey hkey.symm) (hnew key entry hentry)
    · exact h.own key entry reservation hentry hold hkey
  · intro key reservation hreserved
    have hne : key ≠ request.identity.key.createKey := by
      rintro rfl
      cases hfree.symm.trans hreserved
    exact (update_of_ne hne _ _).trans hreserved

/-- A reservation takes back nothing. -/
theorem Pinned.preparePublicCreate (h : w.Pinned) (request : PreparePublicCreateRequest) :
    w.Keeps (w.preparePublicCreate request).2 := by
  unfold CommandPlane.preparePublicCreate
  split
  · split
    · exact h.keeps_self
    · exact h.keeps_self
  next hfree =>
  split
  · exact h.keeps_self
  next hnone =>
  split
  · next hmode =>
    have hpin := h.pin hnone request.identity.binding
    refine hpin.trans (hpin.pinned.reserve hfree (update_self _ _ _) hmode ?_)
    -- A session that did not exist has no command.
    intro key entry hentry hsession
    have hb := (h.command key entry hentry).1
    rw [hsession, hnone] at hb
    cases hb
  · exact h.keeps_self

/-- What is known of a create that was accepted, or found accepted. -/
def HoldsCreate (w : CommandPlane) (identity : PublicCreateIdentity) (entry : CommandEntry) :
    Prop :=
  (∃ reservation, w.reserved identity.key.createKey = some reservation ∧
    reservation.identity = identity) ∧
  ∃ found, w.commands identity.key = some found ∧ found.acceptance = entry.acceptance ∧
    entry.acceptance.OfIdentity identity

/-- A public create takes back nothing, and what it answers the store holds. -/
theorem Pinned.admitPublicCreate (h : w.Pinned) (request : AdmitPublicCreateRequest) :
    w.Keeps (w.admitPublicCreate request).2 ∧
      ∀ entry created, (w.admitPublicCreate request).1 = .ok (entry, created) →
        (w.admitPublicCreate request).2.HoldsCreate request.identity entry := by
  unfold CommandPlane.admitPublicCreate
  split
  · exact h.refused _ _
  next reservation hreserved =>
  split
  · exact h.refused _ _
  next hsame =>
  have heq : reservation.identity = request.identity := not_not.mp hsame
  split
  · next entry hentry =>
    split
    · next hidentity =>
      refine ⟨h.keeps_self, ?_⟩
      rintro _ _ ⟨⟩
      exact ⟨⟨reservation, hreserved, heq⟩, entry, hentry, rfl, hidentity⟩
    · exact h.refused _ _
  · next hnew =>
    obtain ⟨hb, hm⟩ := h.reservation _ _ hreserved
    rw [← heq] at hnew hreserved
    refine ⟨h.write hnew hb hm fun other hother _ => ?_, ?_⟩
    · cases Option.some.inj (hreserved.symm.trans hother)
      exact ⟨rfl, rfl, rfl⟩
    · rintro _ _ ⟨⟩
      rw [← heq]
      exact ⟨⟨reservation, hreserved, rfl⟩, _, write_commands_self w _, rfl, rfl, rfl, rfl⟩

/-- What happens beside the calls takes back nothing. -/
theorem Pinned.event (h : w.Pinned) {e : PlaneEvent} (hv : w.event e = some v) : w.Keeps v := by
  cases e with
  | createSession key binding =>
    simp only [CommandPlane.event] at hv
    split at hv
    · cases hv
    next hnone =>
    cases hv
    exact h.pin hnone binding
  | progress key state claim attempt revision =>
    simp only [CommandPlane.event] at hv
    split at hv
    · cases hv
    next entry hentry =>
    cases hv
    have hcases : ∀ k found, Function.update w.commands key
        (some { entry with
          state := state, claim := claim, attempt := attempt, revision := revision }) k =
          some found → ∃ old, w.commands k = some old ∧ old.acceptance = found.acceptance := by
      intro k found hfound
      by_cases hk : k = key
      · subst hk
        rw [update_self, Option.some.injEq] at hfound
        subst hfound
        exact ⟨entry, hentry, rfl⟩
      · rw [update_of_ne hk] at hfound
        exact ⟨found, hfound, rfl⟩
    refine ⟨⟨?_, h.reservation, ?_⟩, fun _ _ => id, fun _ _ => id, ?_⟩
    · intro k found hfound
      obtain ⟨old, hold, hsame⟩ := hcases k found hfound
      rw [← hsame]
      exact h.command k old hold
    · intro k found reservation hfound hreserved hkey
      obtain ⟨old, hold, hsame⟩ := hcases k found hfound
      rw [← hsame]
      exact h.own k old reservation hold hreserved hkey
    · intro k found hfound
      by_cases hk : k = key
      · subst hk
        cases hentry.symm.trans hfound
        exact ⟨_, update_self _ _ _, rfl⟩
      · exact ⟨found, (update_of_ne hk _ _).trans hfound, rfl⟩

end CommandPlane

end Factory.Admission
