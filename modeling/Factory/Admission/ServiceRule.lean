import Factory.Admission.CommandPlane

/-!
# What an admission asks of the store

Every question an entry point puts to the store is about the call's own command: its key and its
kind, the digest and the size of its canonical payload, and for a create the identity assembled from
the launch target it resolved (`ServiceCall.Asks`, `program_asks`). With it the rule for all
admissions: a command the store answered for is in the store from then on, as it was accepted, and
is of the content of the call it was answered to (`ServiceCall.Knows`, `serviceSystem_rule`).
-/

namespace Factory.Admission

open List Dialogue Threads

/-! ## The command of a call -/

namespace CommandRequest

/-- The agent a create names. -/
def agent : CommandRequest → String
  | .create request => request.agent
  | .input _ | .interrupt _ | .restore _ | .gateResponse _ => ""

variable (request : CommandRequest) (principal : Option WirePrincipal)

@[simp] theorem withPrincipal_kind : (request.withPrincipal principal).kind = request.kind := by
  cases request <;> rfl

@[simp] theorem withPrincipal_session :
    (request.withPrincipal principal).head.session = request.head.session := by
  cases request <;> rfl

@[simp] theorem withPrincipal_command :
    (request.withPrincipal principal).head.command = request.head.command := by
  cases request <;> rfl

end CommandRequest

/-- The principal a request without one is stamped with. -/
def stampedPrincipal (cfg : ServiceConfig) (principal : Principal) : Option WirePrincipal :=
  if cfg.stampPrincipal then some principal.wire else none

namespace ServiceCall

def key (call : ServiceCall) : CommandDescriptor :=
  ⟨call.principal.tenant, call.request.head.session, call.request.head.command⟩

/-- The principal the request is stamped with. -/
def carried (call : ServiceCall) : Option WirePrincipal :=
  stampedPrincipal call.replica.config call.principal

/-- The canonical content of the request; `none` when the request is refused before it has any. -/
def payload (codec : Codec) (call : ServiceCall) : Option Bytes :=
  match call.request.head.principal with
  | some _ => none
  | none =>
    if codec.validate (call.request.withPrincipal call.carried) then
      codec.marshal (call.request.withPrincipal call.carried)
    else none

/-- When a call has canonical content, and what it is. -/
theorem payload_eq_some {codec : Codec} {call : ServiceCall} {payload : Bytes} :
    call.payload codec = some payload ↔
      call.request.head.principal = none ∧
      codec.validate (call.request.withPrincipal call.carried) = true ∧
      codec.marshal (call.request.withPrincipal call.carried) = some payload := by
  unfold ServiceCall.payload
  split
  · next principal hprincipal => simp [hprincipal]
  · next hprincipal => simp [hprincipal]

/-- The programs of the calls: a create, a gate response, and the others. -/
theorem program_cases (codec : Codec) (call : ServiceCall) :
    (∃ request, call.request = .create request ∧
      call.program codec = admitCreate call.replica.config codec call.principal request) ∨
    (call.request.kind ≠ .create ∧ call.program codec =
      admitAttributed call.replica.config codec call.principal call.request) ∨
    ∃ request, call.request = .gateResponse request ∧
      call.program codec = admitGateResponse call.replica.config codec call.principal request := by
  obtain ⟨replica, principal, request⟩ := call
  cases request with
  | create request => exact .inl ⟨request, rfl, rfl⟩
  | input | interrupt | restore => exact .inr (.inl ⟨nofun, rfl⟩)
  | gateResponse request => exact .inr (.inr ⟨request, rfl, rfl⟩)

end ServiceCall

/-- The content is the payload, inline or as it was uploaded. -/
def Carries (codec : Codec) (past : List (Sigma ServiceAsk.Answer)) (key : CommandDescriptor)
    (payload : Bytes) : PayloadContent → Prop
  | .inline inlined => inlined = payload
  | .object stored =>
    ⟨.putCommandPayload ⟨key.sessionKey, payload.length, codec.sha256 payload⟩, .ok stored⟩ ∈ past

/-- The identity is that of the call's create, for the target that was resolved, on a replica that
serves creates. -/
def ServiceCall.Creates (codec : Codec) (call : ServiceCall)
    (past : List (Sigma ServiceAsk.Answer)) (identity : PublicCreateIdentity) : Prop :=
  call.request.kind = .create ∧ call.replica.config.createsServed = true ∧
  ∃ target payload,
    ⟨.resolveAgent call.request.agent, .ok (some target)⟩ ∈ past ∧
    target.key.agent = call.request.agent ∧
    call.payload codec = some payload ∧
    identity = createIdentity call.replica.config codec call.key target payload

/-- What a call asks of the store. -/
def ServiceCall.Asks (codec : Codec) (call : ServiceCall) (past : List (Sigma ServiceAsk.Answer)) :
    ServiceAsk → Prop
  | .getDispositionCommand key => key = call.key
  | .admitDispositionCommand request =>
    request.key = call.key ∧ request.kind = call.request.kind ∧ request.kind ≠ .create ∧
      ∃ payload, call.payload codec = some payload ∧
        Carries codec past call.key payload request.content
  | .preparePublicCreate request => call.Creates codec past request.identity
  | .admitPublicCreate request => call.Creates codec past request.identity
  | _ => True

/-! ## The parts of an admission -/

/-- A question about a command: the retry read, the writes and the notification. -/
def ServiceAsk.OfCommand : ServiceAsk → Prop
  | .getDispositionCommand _ | .putCommandPayload _ | .admitDispositionCommand _
  | .preparePublicCreate _ | .admitPublicCreate _ | .onAdmitted _ => True
  | _ => False

variable {codec : Codec} {payload : Bytes} {cfg : ServiceConfig} {key : CommandDescriptor}
  {call : ServiceCall} {m : Members} {past : List (Sigma ServiceAsk.Answer)}

section Parts

variable {P : List (Sigma ServiceAsk.Answer) → ServiceAsk → Prop}

theorem asks_orFault_bind {α β : Type} {text : String} {out : Except SeamError α}
    {f : α → ServiceProgram β} (hf : ∀ a, out = .ok a → Dialogue.Asks P past (f a).run) :
    Dialogue.Asks P past (orFault text out >>= f).run := by
  cases out with
  | error err => exact asks_throw _
  | ok a => exact hf a rfl

theorem storePayload_asks {refuse : String → SeamError → AdmitError}
    (hput : maxInboxPayloadBytes < payload.length →
      ∀ request, P past (.putCommandPayload request)) :
    Dialogue.Asks P past (storePayload codec refuse key payload).run := by
  unfold storePayload
  split
  · next hlarge =>
    refine asks_ask_bind (hput hlarge _) fun out => ?_
    cases out with
    | error err => exact asks_throw _
    | ok stored => exact asks_ok _
  · exact asks_ok _

theorem notify_asks {entry : CommandEntry} (hnotify : P past (.onAdmitted entry.notice)) :
    Dialogue.Asks P past (notify cfg entry).run := by
  unfold notify
  split
  · exact ⟨hnotify, fun _ => trivial⟩
  · exact asks_ok _

theorem storePayload_carries {refuse : String → SeamError → AdmitError}
    {log : List (Sigma ServiceAsk.Answer)} {content : PayloadContent}
    (h : Returns (storePayload codec refuse key payload).run log (.ok content)) :
    Carries codec (past ++ log) key payload content := by
  unfold storePayload at h
  split at h
  · obtain ⟨out, rest, rfl, hrest⟩ := returns_ask_bind.mp h
    cases out with
    | error err => cases (returns_throw.mp hrest).2
    | ok stored =>
      cases (returns_ok.mp hrest).2
      exact mem_append_right _ mem_cons_self
  · cases (returns_ok.mp h).2
    exact rfl

-- Of the questions below only those about a command are told apart.
variable (hP : ∀ past q, ¬q.OfCommand → P past q)

include hP

/-- The head that all entry points have: past the fence, a request without a principal is stamped
and validated. -/
theorem asks_attributed {β : Type} {principal : Principal} (request : CommandRequest)
    {f : Option WirePrincipal → ServiceProgram β}
    (hf : request.head.principal = none →
      codec.validate (request.withPrincipal (stampedPrincipal cfg principal)) = true →
      Dialogue.Asks P (past ++ [⟨.beginAdmission, true⟩])
        (f (stampedPrincipal cfg principal)).run) :
    Dialogue.Asks P past (do
      beginAdmission
      let carried ← attributePrincipal cfg principal request.head.principal
      validate codec (request.withPrincipal carried)
      f carried).run := by
  refine asks_ask_bind (hP _ _ id) fun begun => ?_
  cases begun with
  | false => exact asks_throw _
  | true =>
    cases hprincipal : request.head.principal with
    | some principal => exact asks_throw _
    | none =>
      change Dialogue.Asks P (past ++ [⟨.beginAdmission, true⟩])
        (validate codec (request.withPrincipal (stampedPrincipal cfg principal)) >>= fun _ =>
          f (stampedPrincipal cfg principal)).run
      unfold validate
      split
      · next hvalid => exact hf hprincipal hvalid
      · exact asks_throw _

theorem authorizeControl_asks {principal : Principal} {session : SessionID} {kind : CommandKind} :
    Dialogue.Asks P past (authorizeControl principal session kind).run := by
  refine asks_ask_bind (hP _ _ id) fun out => ?_
  cases out with
  | error err => exact asks_throw _
  | ok _ => exact asks_ok _

/-- The questions of `admit`: a large payload is put, then the command is admitted. -/
theorem asks_admitCommand {kind : CommandKind} {binding : SessionBinding}
    (hput : maxInboxPayloadBytes < payload.length →
      ∀ log request, P (past ++ log) (.putCommandPayload request))
    (hanswer : ∀ runtimeID now log content,
      Returns (storePayload codec commandRefusal key payload).run log (.ok content) →
      P (past ++ [⟨.newUUID, .ok runtimeID⟩, ⟨.now, now⟩] ++ log) (.admitDispositionCommand
        { key := key, binding := binding, proposedRuntimeCommandID := runtimeID, kind := kind
          acceptedAt := now, applyDeadline := now + cfg.applyDeadline
          principal := m.principal, metadata := m.metadata, content := content }))
    (hnotify : ∀ log request out,
      P (past ++ log ++ [⟨.admitDispositionCommand request, .ok out⟩]) (.onAdmitted out.1.notice)) :
    Dialogue.Asks P past (admitCommand cfg codec key kind binding payload m).run := by
  refine asks_ask_bind (hP _ _ id) fun id => asks_orFault_bind fun runtimeID hid => ?_
  subst hid
  refine asks_ask_bind (hP _ _ (fun h => h)) fun now => ?_
  rw [append_assoc]
  refine (storePayload_asks fun hlarge => hput hlarge _).fallible_bind fun log content hc => ?_
  refine asks_ask_bind (hanswer runtimeID now log content hc) fun out => ?_
  cases out with
  | error err => exact asks_throw _
  | ok found =>
    rw [append_assoc past]
    exact (notify_asks (hnotify _ _ found)).fallible_bind fun _ _ _ => asks_ok _

variable {key : SessionKey}

theorem existingCompatible_asks : Dialogue.Asks P past (existingCompatible key).run := by
  refine asks_ask_bind (hP _ _ id) fun out => ?_
  cases out with
  | error err =>
    dsimp only
    split
    · exact asks_throw _
    · exact asks_throw _
  | ok record =>
    refine asks_ask_bind (hP _ _ id) fun out => asks_orFault_bind fun known _ => ?_
    split
    · exact asks_ok _
    · exact asks_throw _

theorem ownerAppliesPrincipal_asks {record : SessionRecord} :
    Dialogue.Asks P past (ownerAppliesPrincipal cfg key record m).run := by
  unfold ownerAppliesPrincipal
  split
  · exact asks_ok _
  refine asks_ask_bind (hP _ _ id) fun out => asks_orFault_bind fun owner _ => ?_
  cases owner with
  | none => exact asks_ok _
  | some owner =>
    refine asks_ask_bind (hP _ _ id) fun now => ?_
    split
    · split
      · refine asks_ask_bind (hP _ _ id) fun out => asks_orFault_bind fun accepts _ => ?_
        split
        · exact asks_ok _
        · exact asks_throw _
      · exact asks_throw _
    · exact asks_ok _

theorem gateOwnerAnswers_asks {record : SessionRecord} {now : Int} :
    Dialogue.Asks P past (gateOwnerAnswers cfg key record now).run := by
  refine asks_ask_bind (hP _ _ id) fun out => asks_orFault_bind fun owner _ => ?_
  cases owner with
  | none => exact asks_throw _
  | some owner =>
    dsimp only
    split
    · unfold ownerAppliesGateResponses
      split
      · refine asks_ask_bind (hP _ _ id) fun out => asks_orFault_bind fun accepts _ => ?_
        split
        · exact asks_ok _
        · exact asks_throw _
      · exact asks_throw _
    · exact asks_throw _

end Parts

/-! ## The questions of a call -/

section Call

theorem ServiceCall.asks_other (past : List (Sigma ServiceAsk.Answer)) (q : ServiceAsk)
    (hq : ¬q.OfCommand) : call.Asks codec past q := by
  cases q <;> first | trivial | exact absurd trivial hq

variable (call) in
theorem admitCommand_asks {binding : SessionBinding} (hkind : call.request.kind ≠ .create)
    (hpayload : call.payload codec = some payload) :
    Dialogue.Asks (call.Asks codec) past
      (admitCommand cfg codec call.key call.request.kind binding payload m).run := by
  refine asks_admitCommand ServiceCall.asks_other (fun _ _ _ => trivial) ?_ (fun _ _ _ => trivial)
  intro runtimeID now log content hcontent
  exact ⟨rfl, rfl, hkind, payload, hpayload, storePayload_carries hcontent⟩

variable (call) in
theorem retry_asks (hkind : call.request.kind ≠ .create)
    (hpayload : call.payload codec = some payload) :
    Dialogue.Asks (call.Asks codec) past
      (retry cfg codec call.key call.request.kind payload m).run := by
  refine asks_ask_bind rfl fun out => ?_
  cases out with
  | error err =>
    dsimp only
    split
    · exact asks_ok _
    · exact asks_throw _
  | ok found => exact (admitCommand_asks call hkind hpayload).fallible_bind fun _ _ _ => asks_ok _

theorem admitAttributed_asks (hkind : call.request.kind ≠ .create) :
    Dialogue.Asks (call.Asks codec) past
      (admitAttributed call.replica.config codec call.principal call.request).run := by
  refine asks_attributed ServiceCall.asks_other call.request fun hprincipal hvalid => ?_
  unfold admitExisting canonicalCommand
  simp only [CommandRequest.withPrincipal_kind, CommandRequest.withPrincipal_session,
    CommandRequest.withPrincipal_command]
  split
  · next payload hmarshal =>
    have hpayload := ServiceCall.payload_eq_some.mpr ⟨hprincipal, hvalid, hmarshal⟩
    refine (authorizeControl_asks ServiceCall.asks_other).fallible_bind fun log _ _ => ?_
    refine (retry_asks call hkind hpayload).fallible_bind fun log found _ => ?_
    cases found with
    | some entry => exact asks_ok _
    | none =>
      refine (existingCompatible_asks ServiceCall.asks_other).fallible_bind fun log record _ => ?_
      refine (ownerAppliesPrincipal_asks ServiceCall.asks_other).fallible_bind fun log _ _ => ?_
      exact admitCommand_asks call hkind hpayload
  · exact asks_throw _

theorem admitGateResponse_asks {request : GateResponseRequest}
    (hrequest : call.request = .gateResponse request) :
    Dialogue.Asks (call.Asks codec) past
      (admitGateResponse call.replica.config codec call.principal request).run := by
  obtain ⟨replica, principal, _⟩ := call
  subst hrequest
  refine asks_attributed ServiceCall.asks_other (.gateResponse request) fun hprincipal hvalid => ?_
  unfold canonicalCommand
  split
  · next payload hmarshal =>
    have hpayload := ServiceCall.payload_eq_some.mpr ⟨hprincipal, hvalid, hmarshal⟩
    refine (authorizeControl_asks ServiceCall.asks_other).fallible_bind fun log _ _ => ?_
    refine (retry_asks ⟨replica, principal, .gateResponse request⟩ nofun
      hpayload).fallible_bind fun log found _ => ?_
    cases found with
    | some entry => exact asks_ok _
    | none =>
      dsimp only [admitOpenGate]
      split
      · exact asks_throw _
      refine (existingCompatible_asks ServiceCall.asks_other).fallible_bind fun log record _ => ?_
      refine asks_ask_bind trivial fun now => ?_
      split
      · exact asks_throw _
      · refine (gateOwnerAnswers_asks ServiceCall.asks_other).fallible_bind fun log _ _ => ?_
        refine (ownerAppliesPrincipal_asks ServiceCall.asks_other).fallible_bind fun log _ _ => ?_
        exact admitCommand_asks ⟨replica, principal, .gateResponse request⟩ nofun hpayload
  · exact asks_throw _

theorem admitPublicCreate_asks {request : CreateRequest} {target : Target}
    (hcreates : ∀ log,
      call.Creates codec (past ++ log) (createIdentity cfg codec key target payload)) :
    Dialogue.Asks (call.Asks codec) past
      (admitPublicCreate cfg codec key request target payload).run := by
  refine asks_ask_bind trivial fun id => asks_orFault_bind fun runtimeID _ => ?_
  refine asks_ask_bind trivial fun now => ?_
  rw [append_assoc]
  refine asks_ask_bind (hcreates _) fun out => ?_
  cases out with
  | error err => exact asks_throw _
  | ok _ =>
    rw [append_assoc]
    refine (storePayload_asks fun _ _ => trivial).fallible_bind fun log content _ => ?_
    rw [append_assoc]
    refine asks_ask_bind (hcreates _) fun out => ?_
    cases out with
    | error err => exact asks_throw _
    | ok found => exact (notify_asks trivial).fallible_bind fun _ _ _ => asks_ok _

theorem admitCreate_asks {request : CreateRequest} (hrequest : call.request = .create request) :
    Dialogue.Asks (call.Asks codec) past
      (admitCreate call.replica.config codec call.principal request).run := by
  obtain ⟨replica, principal, _⟩ := call
  subst hrequest
  refine asks_attributed ServiceCall.asks_other (.create request) fun hprincipal hvalid => ?_
  unfold canonicalCommand
  split
  · next payload hmarshal =>
    have hpayload := ServiceCall.payload_eq_some.mpr ⟨hprincipal, hvalid, hmarshal⟩
    refine (authorizeControl_asks ServiceCall.asks_other).fallible_bind fun log _ _ => ?_
    refine asks_ask_bind trivial fun out => asks_orFault_bind fun found hfound => ?_
    subst hfound
    cases found with
    | none => exact asks_throw _
    | some target =>
      dsimp only
      split
      · exact asks_throw _
      next hagent =>
      split
      · next hserved =>
        refine admitPublicCreate_asks fun log =>
          ⟨rfl, hserved, target, payload, ?_, not_not.mp hagent, hpayload, rfl⟩
        exact mem_append_left _ (mem_append_right _ mem_cons_self)
      · exact asks_throw _
  · exact asks_throw _

end Call

theorem ServiceCall.program_asks (codec : Codec) (call : ServiceCall) :
    Dialogue.Asks (call.Asks codec) [] (call.program codec).run := by
  rcases call.program_cases codec with ⟨request, hrequest, hprogram⟩ | ⟨hkind, hprogram⟩ |
    ⟨request, hrequest, hprogram⟩
  · rw [hprogram]
    exact admitCreate_asks hrequest
  · rw [hprogram]
    exact admitAttributed_asks hkind
  · rw [hprogram]
    exact admitGateResponse_asks hrequest

/-! ## The rule for all admissions -/

/-- The accepted command is of this kind and content. -/
def Acceptance.OfContent (codec : Codec) (a : Acceptance) (kind : CommandKind) (payload : Bytes) :
    Prop :=
  a.kind = kind ∧ a.payloadDigest = codec.sha256 payload ∧ a.payloadSize = payload.length

/-- The store holds the call's command as it was answered, and it is of the call's content. -/
def ServiceCall.Accepted (codec : Codec) (w : CommandPlane) (call : ServiceCall)
    (a : Acceptance) : Prop :=
  (∃ found, w.commands call.key = some found ∧ found.acceptance = a) ∧
  ∃ payload, call.payload codec = some payload ∧ a.OfContent codec call.request.kind payload

/-- The call is a create, and its command is reserved under the identity the call assembles: its
replica serves creates and resolves the agent. -/
def ServiceCall.Reserved (codec : Codec) (w : CommandPlane) (call : ServiceCall) : Prop :=
  call.request.kind = .create ∧ call.replica.config.createsServed = true ∧
  ∃ target payload reservation, call.replica.resolveAgent call.request.agent = some target ∧
    target.key.agent = call.request.agent ∧ call.payload codec = some payload ∧
    w.reserved call.key.createKey = some reservation ∧
    reservation.identity = createIdentity call.replica.config codec call.key target payload

/-- What the answers a call has got tell it. -/
def ServiceCall.Knows (codec : Codec) (w : CommandPlane) (call : ServiceCall) :
    Sigma ServiceAsk.Answer → Prop
  | ⟨.resolveAgent agent, .ok target⟩ => target = call.replica.resolveAgent agent
  | ⟨.putCommandPayload request, .ok stored⟩ =>
    stored.sha256 = request.sha256 ∧ stored.sizeBytes = request.sizeBytes
  | ⟨.admitDispositionCommand _, .ok out⟩ => call.Accepted codec w out.1.acceptance
  | ⟨.admitPublicCreate _, .ok out⟩ =>
    call.Accepted codec w out.1.acceptance ∧ call.Reserved codec w
  | _ => True

namespace CommandPlane

variable {w v : CommandPlane}

/-- What was accepted stays accepted as it was. -/
theorem Later.holds (h : w.Later v) {a : Acceptance}
    (hw : ∃ found, w.commands key = some found ∧ found.acceptance = a) :
    ∃ found, v.commands key = some found ∧ found.acceptance = a := by
  obtain ⟨found, hfound, rfl⟩ := hw
  exact h.command key found hfound

theorem Later.knows (h : w.Later v) : ∀ e, call.Knows codec w e → call.Knows codec v e := by
  intro e he
  unfold ServiceCall.Knows at he ⊢
  split
  · exact he
  · exact he
  · exact ⟨h.holds he.1, he.2⟩
  · obtain ⟨⟨hfound, hcontent⟩, hkind, hserved, target, payload, reservation, htarget, hagent,
      hpayload, hreserved, hidentity⟩ := he
    exact ⟨⟨h.holds hfound, hcontent⟩, hkind, hserved, target, payload, reservation, htarget,
      hagent, hpayload, h.reservation _ _ hreserved, hidentity⟩
  · trivial

theorem Later.grows (h : w.Later v) :
    Grows (fun _ _ => True) (fun u (call : ServiceCall) => call.Knows codec u) w v :=
  ⟨fun _ => id, fun _ => h.knows⟩

end CommandPlane

section Answers

variable {w : CommandPlane} {choice : ServiceChoice}

theorem Carries.identity {content : PayloadContent} (h : Carries codec past key payload content)
    (hpast : ∀ e ∈ past, call.Knows codec w e) :
    content.identity codec = (codec.sha256 payload, payload.length) := by
  cases content with
  | inline inlined =>
    cases h
    rfl
  | object stored =>
    obtain ⟨hdigest, hsize⟩ := hpast _ h
    exact Prod.ext hdigest hsize

theorem keeps_orLose {α : Type} {out : Except SeamError α × CommandPlane} (hw : w.Pinned)
    (h : w.Keeps out.2) : w.Keeps (choice.orLose w out).2 := by
  unfold ServiceChoice.orLose
  split
  · split
    · exact h
    · exact hw.keeps_self
  · exact h

theorem orLose_ok {α : Type} {out : Except SeamError α × CommandPlane} {a : α}
    (h : (choice.orLose w out).1 = .ok a) : choice.orLose w out = out := by
  unfold ServiceChoice.orLose at h ⊢
  split at h
  · cases h
  · rfl

theorem CommandPlane.Pinned.answer (hw : w.Pinned) (q : ServiceAsk) :
    w.Keeps (w.answer codec call choice q).2 := by
  cases q with
  | admitDispositionCommand request =>
    exact keeps_orLose hw (hw.admitDispositionCommand codec request).1
  | preparePublicCreate request => exact keeps_orLose hw (hw.preparePublicCreate request)
  | admitPublicCreate request => exact keeps_orLose hw (hw.admitPublicCreate request).1
  | _ => exact hw.keeps_self

theorem CommandPlane.Pinned.answer_knows (hw : w.Pinned)
    (hpast : ∀ e ∈ past, call.Knows codec w e) {q : ServiceAsk} (hq : call.Asks codec past q) :
    call.Knows codec (w.answer codec call choice q).2 ⟨q, (w.answer codec call choice q).1⟩ := by
  cases q with
  | resolveAgent agent =>
    simp only [CommandPlane.answer, orFail]
    cases choice.otherFault with
    | some err => trivial
    | none => exact rfl
  | putCommandPayload request =>
    simp only [CommandPlane.answer, orFail]
    cases choice.fault with
    | some err => trivial
    | none => exact ⟨rfl, rfl⟩
  | admitDispositionCommand request =>
    obtain ⟨hkey, hkind, -, payload, hpayload, hcarries⟩ := hq
    simp only [CommandPlane.answer]
    cases hout : (choice.orLose w (w.admitDispositionCommand codec request)).1 with
    | error err => trivial
    | ok out =>
      have heq := orLose_ok hout
      rw [heq] at hout ⊢
      obtain ⟨found, hfound, hsame, hmatches⟩ :=
        (hw.admitDispositionCommand codec request).2 out.1 out.2 hout
      rw [hkey] at hfound
      obtain ⟨hk, hcontent, -⟩ := hmatches
      rw [hcarries.identity hpast] at hcontent
      exact ⟨⟨found, hfound, hsame⟩, payload, hpayload, hk.trans hkind,
        congrArg Prod.fst hcontent, congrArg Prod.snd hcontent⟩
  | admitPublicCreate request =>
    obtain ⟨hkind, hserved, target, payload, htarget, hagent, hpayload, hidentity⟩ := hq
    simp only [CommandPlane.answer]
    cases hout : (choice.orLose w (w.admitPublicCreate request)).1 with
    | error err => trivial
    | ok out =>
      have heq := orLose_ok hout
      rw [heq] at hout ⊢
      obtain ⟨⟨reservation, hreserved, hsame⟩, found, hfound, hacceptance, hcreate⟩ :=
        (hw.admitPublicCreate request).2 out.1 out.2 hout
      rw [hidentity] at hreserved hfound hcreate
      obtain ⟨hk, hdigest, hsize⟩ := hcreate
      exact ⟨⟨⟨found, hfound, hacceptance⟩, payload, hpayload, hk.trans hkind.symm, hdigest, hsize⟩,
        hkind, hserved, target, payload, reservation, (hpast _ htarget).symm, hagent, hpayload,
        hreserved, hsame.trans hidentity⟩
  | _ => trivial

end Answers

theorem serviceSystem_answer {w v : CommandPlane} {choice : ServiceChoice} {q : ServiceAsk}
    {a : q.Answer} (h : (serviceSystem codec).answer w call choice q = some (a, v)) :
    a = (w.answer codec call choice q).1 ∧ v = (w.answer codec call choice q).2 := by
  have heq : w.answer codec call choice q = (a, v) := Option.some.inj h
  rw [heq]
  exact ⟨rfl, rfl⟩

/-- What all admissions keep, however they interleave. -/
theorem serviceSystem_rule (codec : Codec) :
    (serviceSystem codec).Rule (fun call => call.Asks codec) CommandPlane.Pinned
      (fun _ _ => True) (fun w call => call.Knows codec w) where
  asks := ServiceCall.program_asks codec
  begins _ _ := trivial
  event hw hv := ⟨(hw.event hv).pinned, (hw.event hv).later.grows⟩
  answer hw _ hpast hq hanswer := by
    obtain ⟨rfl, rfl⟩ := serviceSystem_answer hanswer
    exact ⟨(hw.answer _).pinned, (hw.answer _).later.grows, hw.answer_knows hpast hq⟩

/-- What is known in every state of a service run. -/
abbrev ServiceStanding (codec : Codec) (σ : ServiceRun) : Prop :=
  σ.Standing (serviceSystem codec) CommandPlane.Pinned (fun _ _ => True)
    (fun w call => call.Knows codec w)

variable {σ : ServiceRun}

/-- What is known of the store and of every call in every run. -/
theorem service_standing {acts : List ServiceAct}
    (hrun : Runs.exec (serviceSystem codec).step { world := {} } acts = some σ) :
    ServiceStanding codec σ :=
  (serviceSystem_rule codec).exec hrun CommandPlane.pinned_empty

/-- A step takes back nothing that was accepted. -/
theorem service_step {τ : ServiceRun} {act : ServiceAct} (hσ : ServiceStanding codec σ)
    (hstep : (serviceSystem codec).step σ act = some τ) :
    ServiceStanding codec τ ∧ σ.world.Later τ.world := by
  refine ⟨(serviceSystem_rule codec).step hstep hσ, ?_⟩
  rcases System.step_cases hstep with ⟨e, w, -, hevent, rfl⟩ | ⟨x, -, -, rfl⟩ |
    ⟨i, c, t, q, k, a, w, -, -, -, hanswer, rfl⟩
  · exact (hσ.world.event hevent).later
  · exact .refl _
  · obtain ⟨-, rfl⟩ := serviceSystem_answer hanswer
    exact (hσ.world.answer q).later

/-- A run takes back nothing that was accepted. -/
theorem service_later {acts : List ServiceAct} {τ : ServiceRun} (hσ : ServiceStanding codec σ)
    (hrun : Runs.exec (serviceSystem codec).step σ acts = some τ) :
    ServiceStanding codec τ ∧ σ.world.Later τ.world := by
  refine Runs.exec_invariant
    (I := fun ρ : ServiceRun => ServiceStanding codec ρ ∧ σ.world.Later ρ.world) ?_ hrun
    ⟨hσ, .refl _⟩
  intro ρ act ρ' hstep ⟨hρ, hlater⟩
  obtain ⟨hρ', hlater'⟩ := service_step hρ hstep
  exact ⟨hρ', hlater.trans hlater'⟩

end Factory.Admission
