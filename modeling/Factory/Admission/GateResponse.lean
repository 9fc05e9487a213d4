import Factory.Admission.ServiceRule

/-!
# When a gate response is written

`admitGateResponse` asks eight questions of four seams before it writes. A command that the retry
read does not find is written on one path only: every check on it passed, and the questions of the
path are exactly `GateAnswers.log`, in that order (`Answerable`). The owner is read once for the
capability and, when the command carries a principal, once more for the second; the two reads may
disagree, and each is held against its own instant.

Nothing else is written on the way there, and `OnAdmitted` is called after the write only
(`GateWrites`). A durable command is re-admitted without any of the checks.
-/

namespace Factory.Admission

open List Dialogue
open Placement (OwnerObservation reusableOwner)

/-! ## What each part of the path was answered -/

variable {record : SessionRecord}

section Parts

variable {cfg : ServiceConfig} {log : List (Sigma ServiceAsk.Answer)}

theorem returns_orFault {α : Type} {text : String} {out : Except SeamError α} {a : α}
    (h : Returns (orFault text out).run log (.ok a)) : log = [] ∧ out = .ok a := by
  cases out with
  | error err => cases (returns_throw.mp h).2
  | ok b =>
    obtain ⟨rfl, ⟨⟩⟩ := returns_ok.mp h
    exact ⟨rfl, rfl⟩

theorem returns_orFault_bind {α β : Type} {text : String} {out : Except SeamError α}
    {f : α → ServiceProgram β} {b : β}
    (h : Returns (orFault text out >>= f).run log (.ok b)) :
    ∃ a, out = .ok a ∧ Returns (f a).run log (.ok b) := by
  rcases returns_fallible_bind.mp h with ⟨err, herr, -⟩ | ⟨first, rest, a, rfl, ha, hrest⟩
  · cases herr
  · obtain ⟨rfl, rfl⟩ := returns_orFault ha
    exact ⟨a, rfl, hrest⟩

variable {u : Unit}

theorem authorizeControl_ok {principal : Principal} {session : SessionID} {kind : CommandKind}
    (h : Returns (authorizeControl principal session kind).run log (.ok u)) :
    log = [⟨.authorizeControl principal session kind, .ok ()⟩] := by
  obtain ⟨out, rest, rfl, hrest⟩ := returns_ask_bind.mp h
  obtain ⟨rfl, rfl⟩ := returns_orFault hrest
  rfl

variable {key : SessionKey}

theorem existingCompatible_ok (h : Returns (existingCompatible key).run log (.ok record)) :
    log = [⟨.getCatalogEntry key, .ok record⟩, ⟨.isKnown (catalogTarget record), .ok true⟩] := by
  obtain ⟨out, rest, rfl, hrest⟩ := returns_ask_bind.mp h
  cases out with
  | error err =>
    dsimp only at hrest
    split at hrest
    · cases (returns_throw.mp hrest).2
    · cases (returns_throw.mp hrest).2
  | ok read =>
    obtain ⟨out, rest, rfl, hout⟩ := returns_ask_bind.mp hrest
    obtain ⟨known, rfl, hknown⟩ := returns_orFault_bind hout
    cases known with
    | false => cases (returns_throw.mp hknown).2
    | true =>
      obtain ⟨rfl, ⟨⟩⟩ := returns_ok.mp hknown
      rfl

theorem ownerAppliesGateResponses_ok {owner : OwnerObservation}
    (h : Returns (ownerAppliesGateResponses cfg owner).run log (.ok u)) :
    cfg.gateResponders = true ∧ log = [⟨.acceptsGateResponses owner, .ok true⟩] := by
  unfold ownerAppliesGateResponses at h
  split at h
  · next hcomposed =>
    obtain ⟨out, rest, rfl, hrest⟩ := returns_ask_bind.mp h
    obtain ⟨accepts, rfl, haccepts⟩ := returns_orFault_bind hrest
    cases accepts with
    | false => cases (returns_throw.mp haccepts).2
    | true =>
      obtain ⟨rfl, -⟩ := returns_ok.mp haccepts
      exact ⟨hcomposed, rfl⟩
  · cases (returns_throw.mp h).2

/-- The owner observed is the session's, resident and accepting, and the observation has not
expired. -/
structure Fresh (owner : OwnerObservation) (record : SessionRecord) (now : Int) : Prop where
  tenant : owner.tenant = record.tenant
  session : owner.session = record.session
  agent : owner.agent = record.agent
  runtimeCompatibility : owner.runtimeCompatibility = record.runtimeCompatibility
  placement : owner.placement = record.desiredPlacement
  resident : owner.resident = true
  accepting : owner.accepting = true
  unexpired : now < owner.expiresAt

theorem reusableOwner_iff {owner : OwnerObservation} {now : Int} :
    reusableOwner owner record.toCatalogRecord now = true ↔ Fresh owner record now := by
  simp only [reusableOwner, Bool.and_eq_true, beq_iff_eq, decide_eq_true_eq]
  constructor
  · rintro ⟨⟨⟨⟨⟨⟨⟨htenant, hsession⟩, hagent⟩, hcompatible⟩, hplacement⟩, hresident⟩, haccepting⟩,
      hunexpired⟩
    exact ⟨htenant, hsession, hagent, hcompatible, hplacement, hresident, haccepting, hunexpired⟩
  · intro h
    exact ⟨⟨⟨⟨⟨⟨⟨h.tenant, h.session⟩, h.agent⟩, h.runtimeCompatibility⟩, h.placement⟩,
      h.resident⟩, h.accepting⟩, h.unexpired⟩

theorem gateOwnerAnswers_ok {now : Int}
    (h : Returns (gateOwnerAnswers cfg key record now).run log (.ok u)) :
    cfg.gateResponders = true ∧ ∃ owner, Fresh owner record now ∧
      log = [⟨.owner key, .ok (some owner)⟩, ⟨.acceptsGateResponses owner, .ok true⟩] := by
  obtain ⟨out, rest, rfl, hrest⟩ := returns_ask_bind.mp h
  obtain ⟨owner, rfl, howner⟩ := returns_orFault_bind hrest
  cases owner with
  | none => cases (returns_throw.mp howner).2
  | some owner =>
    dsimp only at howner
    split at howner
    · next hfresh =>
      obtain ⟨hcomposed, rfl⟩ := ownerAppliesGateResponses_ok howner
      exact ⟨hcomposed, owner, reusableOwner_iff.mp hfresh, rfl⟩
    · cases (returns_throw.mp howner).2

/-- The answers to the check of the principal, for a command that goes on: a command without one is
not checked; otherwise the owner read is none that is fresh and matches the record, or affirmed the
capability. -/
inductive PrincipalApplied (key : SessionKey) (record : SessionRecord) :
    Option WirePrincipal → List (Sigma ServiceAsk.Answer) → Prop
  | unattributed : PrincipalApplied key record none []
  | unowned (principal : WirePrincipal) :
      PrincipalApplied key record (some principal) [⟨.owner key, .ok none⟩]
  | stale (principal : WirePrincipal) (owner : OwnerObservation) (now : Int)
      (hstale : ¬ Fresh owner record now) :
      PrincipalApplied key record (some principal) [⟨.owner key, .ok (some owner)⟩, ⟨.now, now⟩]
  | affirmed (principal : WirePrincipal) (owner : OwnerObservation) (now : Int) :
      PrincipalApplied key record (some principal)
        [⟨.owner key, .ok (some owner)⟩, ⟨.now, now⟩, ⟨.acceptsCommandPrincipal owner, .ok true⟩]

theorem ownerAppliesPrincipal_ok {carried : Option WirePrincipal}
    (h : Returns (ownerAppliesPrincipal cfg key record ⟨carried, []⟩).run log (.ok u)) :
    PrincipalApplied key record carried log := by
  cases carried with
  | none =>
    obtain ⟨rfl, -⟩ := returns_ok.mp h
    exact .unattributed
  | some principal =>
    obtain ⟨out, rest, rfl, hrest⟩ := returns_ask_bind.mp h
    obtain ⟨owner, rfl, howner⟩ := returns_orFault_bind hrest
    cases owner with
    | none =>
      obtain ⟨rfl, -⟩ := returns_ok.mp howner
      exact .unowned principal
    | some owner =>
      obtain ⟨now, rest, rfl, hnow⟩ := returns_ask_bind.mp howner
      split at hnow
      · split at hnow
        · obtain ⟨out, rest, rfl, hout⟩ := returns_ask_bind.mp hnow
          obtain ⟨accepts, rfl, haccepts⟩ := returns_orFault_bind hout
          cases accepts with
          | false => cases (returns_throw.mp haccepts).2
          | true =>
            obtain ⟨rfl, -⟩ := returns_ok.mp haccepts
            exact .affirmed principal owner now
        · cases (returns_throw.mp hnow).2
      · next hstale =>
        obtain ⟨rfl, -⟩ := returns_ok.mp hnow
        exact .stale principal owner now (mt reusableOwner_iff.mpr hstale)

end Parts

/-- The version of the gate is one the response expects, which it states. -/
def GateProjection.OpenedAs (gate : GateProjection) (request : GateResponseRequest) : Prop :=
  request.expectedOpenEventID ≠ "" ∧ gate.openedEventID = request.expectedOpenEventID ∨
    request.expectedOpenJournalSeq ≠ 0 ∧ gate.openedJournalSeq = request.expectedOpenJournalSeq

theorem gateAdmission_eq_none {gates : List GateProjection} {request : GateResponseRequest}
    {now : Int} (h : gateAdmission gates request now = none) :
    ∃ gate, gates.find? (·.gateID = request.gateID) = some gate ∧ now < gate.deadline ∧
      gate.OpenedAs request ∧ gate.resident = true := by
  unfold gateAdmission at h
  split at h
  · cases h
  next gate hfind =>
  split at h
  · cases h
  next hopen =>
  split at h
  · cases h
  next hversion =>
  split at h
  · cases h
  next hresident =>
  exact ⟨gate, hfind, not_not.mp hopen, not_not.mp hversion, not_not.mp hresident⟩

/-! ## The path to the write -/

/-- A question that writes to the store. -/
def ServiceAsk.Writes : ServiceAsk → Prop
  | .putCommandPayload _ | .admitDispositionCommand _ | .preparePublicCreate _
  | .admitPublicCreate _ => True
  | _ => False

/-- The retry read found the command. -/
def FoundDurable (key : CommandDescriptor) (past : List (Sigma ServiceAsk.Answer)) : Prop :=
  ∃ found, ⟨.getDispositionCommand key, .ok found⟩ ∈ past

/-- What a response that is not a retry was answered, up to the write. -/
structure GateAnswers where
  payload : Bytes
  missing : SeamError
  record : SessionRecord
  now : Int
  gate : GateProjection
  owner : OwnerObservation
  principalCheck : List (Sigma ServiceAsk.Answer)
  runtimeID : String
  acceptedAt : Int

section Response

variable (cfg : ServiceConfig) (codec : Codec) (principal : Principal)
  (request : GateResponseRequest)

def responseKey : CommandDescriptor := ⟨principal.tenant, request.session, request.command⟩

/-- The response as it is validated, encoded and written. -/
def stampedResponse : GateResponseRequest :=
  { request with principal := stampedPrincipal cfg principal }

namespace GateAnswers

/-- The questions before the write, each with its answer. -/
def log (a : GateAnswers) : List (Sigma ServiceAsk.Answer) :=
  [⟨.beginAdmission, true⟩,
    ⟨.authorizeControl principal request.session .gateResponse, .ok ()⟩,
    ⟨.getDispositionCommand (responseKey principal request), .error a.missing⟩,
    ⟨.getCatalogEntry ⟨principal.tenant, request.session⟩, .ok a.record⟩,
    ⟨.isKnown (catalogTarget a.record), .ok true⟩,
    ⟨.now, a.now⟩,
    ⟨.owner ⟨principal.tenant, request.session⟩, .ok (some a.owner)⟩,
    ⟨.acceptsGateResponses a.owner, .ok true⟩] ++ a.principalCheck ++
  [⟨.newUUID, .ok a.runtimeID⟩, ⟨.now, a.acceptedAt⟩]

/-- The write itself. -/
def written (a : GateAnswers) : AdmitDispositionCommandRequest where
  key := responseKey principal request
  binding := a.record.binding
  proposedRuntimeCommandID := a.runtimeID
  kind := .gateResponse
  acceptedAt := a.acceptedAt
  applyDeadline := a.acceptedAt + cfg.applyDeadline
  principal := stampedPrincipal cfg principal
  metadata := []
  content := .inline a.payload

end GateAnswers

/-- Answered like this, the gate can be answered and the response is one that may be written. -/
structure Answerable (a : GateAnswers) : Prop where
  unattributed : request.principal = none
  valid : codec.validate (.gateResponse (stampedResponse cfg principal request)) = true
  encoded : codec.marshal (.gateResponse (stampedResponse cfg principal request)) = some a.payload
  bounded : a.payload.length ≤ maxInboxPayloadBytes
  absent : commandNotFound a.missing = true
  listed : a.gate ∈ a.record.openGates
  named : a.gate.gateID = request.gateID
  unexpired : a.now < a.gate.deadline
  version : a.gate.OpenedAs request
  resident : a.gate.resident = true
  fresh : Fresh a.owner a.record a.now
  composed : cfg.gateResponders = true
  applied : PrincipalApplied ⟨principal.tenant, request.session⟩ a.record
    (stampedPrincipal cfg principal) a.principalCheck

/-- What holds whenever the response asks: a command that the retry read did not find is written for
a gate that can be answered, nothing else is written for it, and `OnAdmitted` is called after the
write. -/
def GateWrites (past : List (Sigma ServiceAsk.Answer)) : ServiceAsk → Prop
  | .admitDispositionCommand written =>
    FoundDurable (responseKey principal request) past ∨
      ∃ a : GateAnswers, Answerable cfg codec principal request a ∧
        past = a.log principal request ∧ written = a.written cfg principal request
  | .putCommandPayload _ => FoundDurable (responseKey principal request) past
  | .preparePublicCreate _ | .admitPublicCreate _ => False
  | .onAdmitted _ => ∃ written out, ⟨.admitDispositionCommand written, .ok out⟩ ∈ past
  | _ => True

variable {cfg codec principal request} {past : List (Sigma ServiceAsk.Answer)}

theorem GateWrites.other (past : List (Sigma ServiceAsk.Answer)) (q : ServiceAsk)
    (hq : ¬q.OfCommand) : GateWrites cfg codec principal request past q := by
  cases q <;> first | trivial | exact absurd trivial hq

theorem FoundDurable.append {key : CommandDescriptor} (h : FoundDurable key past)
    (log : List (Sigma ServiceAsk.Answer)) : FoundDurable key (past ++ log) :=
  h.imp fun _ hfound => mem_append_left log hfound

variable {payload : Bytes}

theorem retry_gateWrites {m : Members} :
    Dialogue.Asks (GateWrites cfg codec principal request) past
      (retry cfg codec (responseKey principal request) .gateResponse payload m).run := by
  refine asks_ask_bind trivial fun out => ?_
  cases out with
  | error err =>
    dsimp only
    split
    · exact asks_ok _
    · exact asks_throw _
  | ok found =>
    have hfound : FoundDurable (responseKey principal request)
        (past ++ [⟨.getDispositionCommand (responseKey principal request), .ok found⟩]) :=
      ⟨found, mem_append_right _ mem_cons_self⟩
    refine (asks_admitCommand GateWrites.other ?_ ?_ ?_).fallible_bind fun _ _ _ => asks_ok _
    · intro _ log _
      exact hfound.append log
    · intro runtimeID now log content _
      rw [append_assoc]
      exact .inl (hfound.append _)
    · intro log written out
      exact ⟨written, out, mem_append_right _ mem_cons_self⟩

theorem retry_none {key : CommandDescriptor} {kind : CommandKind} {m : Members}
    {log : List (Sigma ServiceAsk.Answer)}
    (h : Returns (retry cfg codec key kind payload m).run log (.ok none)) :
    ∃ missing, commandNotFound missing = true ∧
      log = [⟨.getDispositionCommand key, .error missing⟩] := by
  obtain ⟨out, rest, rfl, hrest⟩ := returns_ask_bind.mp h
  cases out with
  | error missing =>
    dsimp only at hrest
    split at hrest
    · next habsent =>
      obtain ⟨rfl, -⟩ := returns_ok.mp hrest
      exact ⟨missing, habsent, rfl⟩
    · cases (returns_throw.mp hrest).2
  | ok found =>
    rcases returns_fallible_bind.mp hrest with ⟨err, herr, -⟩ | ⟨_, _, entry, -, -, hlast⟩
    · cases herr
    · cases (returns_ok.mp hlast).2

theorem admitOpenGate_gateWrites {missing : SeamError} (hunattributed : request.principal = none)
    (hvalid : codec.validate (.gateResponse (stampedResponse cfg principal request)) = true)
    (hencoded : codec.marshal (.gateResponse (stampedResponse cfg principal request)) = some
      payload) (habsent : commandNotFound missing = true)
    (hpast : past = [⟨.beginAdmission, true⟩, ⟨.authorizeControl principal request.session
      .gateResponse, .ok ()⟩, ⟨.getDispositionCommand (responseKey principal request), .error
      missing⟩]) :
    Dialogue.Asks (GateWrites cfg codec principal request) past
      (admitOpenGate cfg codec principal (stampedResponse cfg principal request) payload
        ⟨stampedPrincipal cfg principal, []⟩).run := by
  dsimp only [admitOpenGate]
  split
  · exact asks_throw _
  next hbounded =>
  refine (existingCompatible_asks GateWrites.other).fallible_bind fun log record hrecord => ?_
  refine asks_ask_bind trivial fun now => ?_
  split
  · exact asks_throw _
  next hgate =>
  obtain ⟨gate, hfind, hunexpired, hversion, hresident⟩ := gateAdmission_eq_none hgate
  refine (gateOwnerAnswers_asks GateWrites.other).fallible_bind fun log _ howner => ?_
  refine (ownerAppliesPrincipal_asks GateWrites.other).fallible_bind fun check _ hcheck => ?_
  obtain ⟨hcomposed, owner, hfresh, rfl⟩ := gateOwnerAnswers_ok howner
  have hnamed := find?_some hfind
  rw [decide_eq_true_iff] at hnamed
  refine asks_admitCommand GateWrites.other ?_ ?_ ?_
  · intro hlarge
    exact absurd hlarge hbounded
  · intro runtimeID acceptedAt log content hcontent
    unfold storePayload at hcontent
    rw [if_neg hbounded] at hcontent
    obtain ⟨rfl, hcontent⟩ := returns_ok.mp hcontent
    cases hcontent
    refine .inr ⟨⟨payload, missing, record, now, gate, owner, check, runtimeID, acceptedAt⟩,
      ⟨hunattributed, hvalid, hencoded, not_lt.mp hbounded, habsent,
        mem_of_find?_eq_some hfind, hnamed, hunexpired, hversion, hresident, hfresh, hcomposed,
        ownerAppliesPrincipal_ok hcheck⟩,
      ?_, rfl⟩
    rw [existingCompatible_ok hrecord, hpast]
    simp [GateAnswers.log, stampedResponse]
  · intro log written out
    exact ⟨written, out, mem_append_right _ mem_cons_self⟩

theorem admitGateResponse_gateWrites :
    Dialogue.Asks (GateWrites cfg codec principal request) []
      (admitGateResponse cfg codec principal request).run := by
  refine asks_attributed GateWrites.other (.gateResponse request) fun hunattributed hvalid => ?_
  unfold canonicalCommand
  split
  · next payload hencoded =>
    refine (authorizeControl_asks GateWrites.other).fallible_bind fun log _ hauthorized => ?_
    refine retry_gateWrites.fallible_bind fun log found hretry => ?_
    cases found with
    | some entry => exact asks_ok _
    | none =>
      obtain ⟨missing, habsent, rfl⟩ := retry_none hretry
      refine admitOpenGate_gateWrites hunattributed hvalid hencoded habsent ?_
      rw [authorizeControl_ok hauthorized]
      rfl
  · exact asks_throw _

/-- Until the command is admitted nothing is announced, and nothing is written for a command that
is not durable. -/
def Unwritten (key : CommandDescriptor) (log : List (Sigma ServiceAsk.Answer)) : Prop :=
  (∀ e ∈ log, ∀ written, e.1 ≠ .admitDispositionCommand written) →
    (∀ e ∈ log, ∀ notice, e.1 ≠ .onAdmitted notice) ∧
    (¬FoundDurable key log → ∀ e ∈ log, ¬e.1.Writes)

theorem unwritten_nil (key : CommandDescriptor) : Unwritten key [] :=
  fun _ => ⟨fun _ he => absurd he not_mem_nil, fun _ _ he => absurd he not_mem_nil⟩

theorem GateWrites.unwritten {q : ServiceAsk} (a : q.Answer)
    (hpast : Unwritten (responseKey principal request) past)
    (hq : GateWrites cfg codec principal request past q) :
    Unwritten (responseKey principal request) (past ++ [⟨q, a⟩]) := by
  intro hnone
  have hbefore : ∀ e ∈ past, ∀ written, e.1 ≠ .admitDispositionCommand written :=
    fun e he => hnone e (mem_append_left _ he)
  have hlast : ∀ written, q ≠ .admitDispositionCommand written :=
    hnone ⟨q, a⟩ (mem_append_right _ mem_cons_self)
  obtain ⟨hsilent, hclean⟩ := hpast hbefore
  constructor
  · intro e he notice heq
    rcases mem_append.mp he with he | he
    · exact hsilent e he notice heq
    · cases mem_singleton.mp he
      subst heq
      obtain ⟨written, out, hwritten⟩ := hq
      exact hbefore _ hwritten written rfl
  · intro hmissing e he hwrites
    have hmissing' : ¬FoundDurable (responseKey principal request) past :=
      fun hfound => hmissing (hfound.append _)
    rcases mem_append.mp he with he | he
    · exact hclean hmissing' e he hwrites
    · cases mem_singleton.mp he
      cases q with
      | admitDispositionCommand written => exact hlast written rfl
      | putCommandPayload put => exact hmissing' hq
      | preparePublicCreate | admitPublicCreate => exact hq
      | _ => exact hwrites

/-- A response to a gate is written for a command that is durable already, or for a gate that can be
answered; whatever ends a run before the write, the store is unwritten and nothing is announced. -/
theorem admitGateResponse_writes_answerable (cfg : ServiceConfig) (codec : Codec)
    (principal : Principal) (request : GateResponseRequest) :
    (∀ log written k,
      Steps (admitGateResponse cfg codec principal request).run log
        (ask (.admitDispositionCommand written) k) →
      FoundDurable (responseKey principal request) log ∨
        ∃ a : GateAnswers, Answerable cfg codec principal request a ∧
          log = a.log principal request ∧ written = a.written cfg principal request) ∧
    (∀ log rest, Steps (admitGateResponse cfg codec principal request).run log rest →
      (∀ e ∈ log, ∀ written, e.1 ≠ .admitDispositionCommand written) →
      (∀ e ∈ log, ∀ notice, e.1 ≠ .onAdmitted notice) ∧
      (¬FoundDurable (responseKey principal request) log → ∀ e ∈ log, ¬e.1.Writes)) := by
  constructor
  · intro log written k hsteps
    exact admitGateResponse_gateWrites.of_steps hsteps
  · intro log rest hsteps
    have hlog : Unwritten (responseKey principal request) ([] ++ log) :=
      admitGateResponse_gateWrites.history
        (fun _ _ a hpast hq => GateWrites.unwritten a hpast hq) hsteps (unwritten_nil _)
    exact hlog

end Response

/-- The answers to a response whose gate is open on a resident owner that takes it. -/
def openGateAnswers : GateAnswers where
  payload := [1]
  missing := { inbox := some .notFound }
  record :=
    { tenant := "t", session := "s", agent := "a", runtimeCompatibility := "rc"
      desiredPlacement := .pooled, openGates := [⟨"g", 10, "opened", 1, true⟩]
      binding := ⟨"storage", "v1", "runtime", .disposition⟩ }
  now := 5
  gate := ⟨"g", 10, "opened", 1, true⟩
  owner :=
    { tenant := "t", session := "s", host := "h", hostGeneration := 1, leaseEpoch := 1, agent := "a"
      runtimeCompatibility := "rc", placement := .pooled, resident := true, accepting := true
      expiresAt := 10 }
  principalCheck := [⟨.owner ⟨"t", "s"⟩, .ok none⟩]
  runtimeID := "id"
  acceptedAt := 6

/-- A stamped response to it is written. -/
theorem admitGateResponse_writes_answerable_openGate :
    ∃ cfg codec principal request written k,
      Steps (admitGateResponse cfg codec principal request).run
        (openGateAnswers.log principal request) (ask (.admitDispositionCommand written) k) ∧
      cfg.stampPrincipal = true ∧ ∃ a : GateAnswers, Answerable cfg codec principal request a ∧
        a.log principal request = openGateAnswers.log principal request ∧
        written = a.written cfg principal request := by
  let codec : Codec := ⟨fun _ => true, fun _ => some [1], id⟩
  let request : GateResponseRequest :=
    { session := "s", command := "c", content := [], gateID := "g", expectedOpenJournalSeq := 1 }
  have hsteps : ∃ written k, Steps (admitGateResponse { stampPrincipal := true } codec
      ⟨"t", "subject", "user"⟩ request).run (openGateAnswers.log ⟨"t", "subject", "user"⟩ request)
        (ask (.admitDispositionCommand written) k) :=
    ⟨_, _, .cons <| .cons <| .cons <| .cons <| .cons <| .cons <| .cons <| .cons <| .cons <| .cons <|
      .cons <| .refl _⟩
  obtain ⟨written, k, hsteps⟩ := hsteps
  refine ⟨_, codec, _, request, written, k, hsteps, rfl, ?_⟩
  rcases (admitGateResponse_writes_answerable _ codec _ request).1 _ written k hsteps with
    ⟨found, hfound⟩ | ⟨a, hanswerable, hlog, hwritten⟩
  · simp [GateAnswers.log, openGateAnswers] at hfound
  · exact ⟨a, hanswerable, hlog.symm, hwritten⟩

end Factory.Admission
