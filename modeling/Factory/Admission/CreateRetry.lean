import Factory.Admission.Retry

/-!
# A retry of a create

A create is not read back before it is admitted. Its identity is assembled anew from the launch
target the agent resolves to and from the binding template of the replica that answers, and the
store compares the whole identity with the one it reserved. So a repetition is answered with the
create as it was accepted exactly when the replica that answers assembles the same identity
(`create_retry_keeps_answer`); a default that changed meanwhile turns an accepted create into a
refusal (`create_retry_refused`), against what `retry` says of every other kind.
-/

namespace Factory.Admission

open Dialogue Threads

/-! ## The store's answers about a create it holds -/

namespace CommandPlane

variable {w : CommandPlane}

theorem preparePublicCreate_eq {request : PreparePublicCreateRequest}
    {reservation : PreparePublicCreateRequest}
    (hreserved : w.reserved request.identity.key.createKey = some reservation) :
    w.preparePublicCreate request =
      (if reservation.identity = request.identity then .ok () else .error commandMismatch, w) := by
  unfold CommandPlane.preparePublicCreate
  rw [hreserved]
  dsimp only
  split
  · rfl
  · rfl

theorem Pinned.admitPublicCreate_eq (h : w.Pinned) {request : AdmitPublicCreateRequest}
    {reservation : PreparePublicCreateRequest} {found : CommandEntry}
    (hreserved : w.reserved request.identity.key.createKey = some reservation)
    (hkey : reservation.identity.key = request.identity.key)
    (hfound : w.commands request.identity.key = some found) :
    w.admitPublicCreate request =
      (if reservation.identity = request.identity then .ok (found, false)
        else .error commandMismatch, w) := by
  unfold CommandPlane.admitPublicCreate
  rw [hreserved]
  dsimp only
  by_cases hsame : reservation.identity = request.identity
  · have hcreate := h.own _ found reservation hfound hreserved hkey
    rw [hsame] at hcreate
    rw [if_neg (not_not.mpr hsame), if_pos hsame, hfound]
    exact if_pos hcreate
  · rw [if_pos hsame, if_neg hsame]

end CommandPlane

/-- What is answered about a create while the store holds it as it was reserved and accepted. -/
def KeptCreate (identity : PublicCreateIdentity) (a : Acceptance) (call : ServiceCall) :
    Sigma ServiceAsk.Answer → Prop
  | ⟨.resolveAgent agent, out⟩ => out = .ok (call.replica.resolveAgent agent)
  | ⟨.preparePublicCreate request, out⟩ =>
    request.identity.key = identity.key →
      out = if identity = request.identity then .ok () else .error commandMismatch
  | ⟨.admitPublicCreate request, out⟩ =>
    request.identity.key = identity.key → identity = request.identity →
      ∃ found, out = .ok (found, false) ∧ found.acceptance = a
  | _ => True

/-- The store holds a create as it was reserved and accepted. -/
def CommandPlane.HeldCreate (w : CommandPlane) (identity : PublicCreateIdentity) (a : Acceptance) :
    Prop :=
  (∃ reservation, w.reserved identity.key.createKey = some reservation ∧
    reservation.identity = identity) ∧
  ∃ found, w.commands identity.key = some found ∧ found.acceptance = a

theorem CommandPlane.Later.heldCreate {w v : CommandPlane} (h : w.Later v)
    {identity : PublicCreateIdentity} {a : Acceptance} (hw : w.HeldCreate identity a) :
    v.HeldCreate identity a := by
  obtain ⟨⟨reservation, hreserved, hidentity⟩, hheld⟩ := hw
  exact ⟨⟨reservation, h.reservation _ _ hreserved, hidentity⟩, h.holds hheld⟩

theorem keptCreate_answer {codec : Codec} {w : CommandPlane} (hw : w.Pinned)
    {identity : PublicCreateIdentity} {a : Acceptance} (hheld : w.HeldCreate identity a)
    {choice : ServiceChoice} (hplain : choice.Plain) (hresolves : choice.otherFault = none)
    (call : ServiceCall) (q : ServiceAsk) :
    KeptCreate identity a call ⟨q, (w.answer codec call choice q).1⟩ := by
  obtain ⟨⟨reservation, hreserved, rfl⟩, found, hfound, rfl⟩ := hheld
  cases q with
  | resolveAgent agent =>
    simp only [CommandPlane.answer, hresolves]
    exact rfl
  | preparePublicCreate request =>
    intro hkey
    rw [← hkey] at hreserved
    simp only [CommandPlane.answer, hplain.orLose, CommandPlane.preparePublicCreate_eq hreserved]
  | admitPublicCreate request =>
    intro hkey hsame
    rw [← hkey] at hreserved hfound
    simp only [CommandPlane.answer, hplain.orLose,
      hw.admitPublicCreate_eq hreserved hkey.symm hfound]
    rw [if_pos hsame]
    exact ⟨found, rfl, rfl⟩
  | _ => trivial

/-! ## A call for a create the store holds -/

/-- The replica assembles this identity for the call. -/
def ServiceCall.Assembles (codec : Codec) (call : ServiceCall) (payload : Bytes)
    (identity : PublicCreateIdentity) : Prop :=
  call.replica.config.createsServed = true ∧
  ∃ target, call.replica.resolveAgent call.request.agent = some target ∧
    target.key.agent = call.request.agent ∧
    identity = createIdentity call.replica.config codec call.key target payload

/-- The call is answered with the create as it was accepted when its replica assembles the identity
that was reserved, and refused otherwise. -/
def SettlesCreate (codec : Codec) (call : ServiceCall) (payload : Bytes)
    (identity : PublicCreateIdentity) (a : Acceptance) (r : AdmitResult) : Prop :=
  (call.Assembles codec payload identity → ∃ out, r = .ok out ∧ Retried a out) ∧
  (¬call.Assembles codec payload identity → ∃ code cause, r = .error (.refusal code cause))

section Create

variable {codec : Codec} {call : ServiceCall} {identity : PublicCreateIdentity} {a : Acceptance}
  {payload : Bytes} {F : Sigma ServiceAsk.Answer → Prop} (hF : ∀ e, F e → PlainAnswer e)
  (hkept : ∀ e, F e → KeptCreate identity a call e) (hkey : call.key = identity.key)

include hF hkept hkey

variable (call) in
theorem admitPublicCreate_settles {target : Target} {request : CreateRequest}
    (hserved : call.replica.config.createsServed = true)
    (htarget : call.replica.resolveAgent call.request.agent = some target)
    (hagent : target.key.agent = call.request.agent) :
    Ensures F (SettlesCreate codec call payload identity a)
      (admitPublicCreate call.replica.config codec call.key request target payload).run := by
  refine ensures_newUUID_bind hF fun id => ensures_ask_bind fun now _ => ?_
  refine ensures_ask_bind fun out hout => ?_
  have hprepared := hkept _ hout hkey
  by_cases hsame : identity = createIdentity call.replica.config codec call.key target payload
  · have hassembles : call.Assembles codec payload identity :=
      ⟨hserved, target, htarget, hagent, hsame⟩
    rw [if_pos hsame] at hprepared
    subst hprepared
    refine ensures_storePayload_bind codec hF fun content _ => ?_
    refine ensures_ask_bind fun out hout => ?_
    obtain ⟨found, hok, hfound⟩ := hkept _ hout hkey hsame
    subst hok
    exact ensures_notify_bind
      (ensures_ok ⟨fun _ => ⟨_, rfl, hfound, rfl⟩, fun h => absurd hassembles h⟩)
  · rw [if_neg hsame] at hprepared
    subst hprepared
    refine ensures_throw ⟨fun ⟨_, other, hother, _, hidentity⟩ => ?_, fun _ => ⟨_, _, rfl⟩⟩
    cases htarget.symm.trans hother
    exact absurd hidentity hsame

theorem create_settles (hkind : call.request.kind = .create)
    (hpayload : call.payload codec = some payload) :
    Ensures F (SettlesCreate codec call payload identity a) (call.program codec).run := by
  obtain ⟨hprincipal, hvalid, hmarshal⟩ := ServiceCall.payload_eq_some.mp hpayload
  obtain ⟨replica, principal, request⟩ := call
  cases request with
  | create request =>
    refine ensures_attributed ⟨replica, principal, .create request⟩ hF hprincipal hvalid ?_
    unfold canonicalCommand
    rw [show codec.marshal (.create _) = some payload from hmarshal]
    refine ensures_authorized hF (ensures_ask_bind fun out hout => ?_)
    have hresolved := hkept _ hout
    subst hresolved
    cases htarget : replica.resolveAgent request.agent with
    | none =>
      refine ensures_throw ⟨fun ⟨_, other, hother, _⟩ => ?_, fun _ => ⟨_, _, rfl⟩⟩
      rw [show replica.resolveAgent request.agent = some other from hother] at htarget
      cases htarget
    | some target =>
      change Ensures F _ (ite (target.key.agent ≠ request.agent) _ _ : ServiceProgram _).run
      split
      · next hagent =>
        refine ensures_throw ⟨fun ⟨_, other, hother, hother', _⟩ => ?_, fun _ => ⟨_, _, rfl⟩⟩
        rw [show replica.resolveAgent request.agent = some other from hother] at htarget
        cases htarget
        exact absurd hother' hagent
      next hagent =>
      split
      · next hserved =>
        exact admitPublicCreate_settles ⟨replica, principal, .create request⟩ hF hkept
          hkey hserved htarget (not_not.mp hagent)
      · next hserved =>
        exact ensures_throw ⟨fun h => absurd h.1 hserved, fun _ => ⟨_, _, rfl⟩⟩
  | _ => cases hkind

end Create

/-! ## Runs -/

/-- A replica that answers a repeated create has the defaults of the one that accepted it: the agent
resolves to a target of the same key, the binding template is the same, and creates are served. -/
def Replica.SameDefaults (replica first : Replica) (agent : String) : Prop :=
  (replica.resolveAgent agent).map Target.key = (first.resolveAgent agent).map Target.key ∧
    replica.config.binding = first.config.binding ∧ replica.config.publicCreates = true

instance (replica first : Replica) (agent : String) :
    Decidable (replica.SameDefaults first agent) := inferInstanceAs (Decidable (_ ∧ _ ∧ _))

/-- Of what a replica configures, the identity of a create holds the key of the target and the
binding template. -/
theorem createIdentity_eq_iff {codec : Codec} {cfg cfg' : ServiceConfig} {key : CommandDescriptor}
    {target target' : Target} {payload : Bytes} :
    createIdentity cfg codec key target payload = createIdentity cfg' codec key target' payload ↔
      target.key = target'.key ∧ cfg.binding = cfg'.binding := by
  constructor
  · intro h
    have hbinding := congrArg PublicCreateIdentity.binding h
    have hid := congrArg SessionBinding.storageBindingID hbinding
    have hversion := congrArg SessionBinding.bindingVersion hbinding
    refine ⟨congrArg PublicCreateIdentity.target h, ?_⟩
    cases hcfg : cfg.binding
    cases hcfg' : cfg'.binding
    simp only [createIdentity, bindSession, hcfg, hcfg'] at hid hversion
    rw [hid, hversion]
  · rintro ⟨htarget, hbinding⟩
    unfold createIdentity bindSession
    rw [htarget, hbinding]

/-- A replica assembles the identity of an accepted create exactly when it has the defaults it was
accepted under. -/
theorem assembles_iff (codec : Codec) (payload : Bytes) {call first : ServiceCall}
    (hrepeats : call.Repeats first) {target : Target}
    (hserved : first.replica.config.createsServed = true)
    (htarget : first.replica.resolveAgent first.request.agent = some target)
    (hagent : target.key.agent = first.request.agent) :
    call.Assembles codec payload
        (createIdentity first.replica.config codec first.key target payload) ↔
      call.replica.SameDefaults first.replica first.request.agent := by
  unfold ServiceCall.Assembles Replica.SameDefaults ServiceConfig.createsServed at *
  rw [hrepeats.key_eq, hrepeats.1, htarget]
  obtain ⟨-, hconfigured⟩ := Bool.and_eq_true_iff.mp hserved
  constructor
  · rintro ⟨hcreates, other, hother, -, hidentity⟩
    obtain ⟨hkey, hbinding⟩ := createIdentity_eq_iff.mp hidentity
    rw [hother, Option.map_some, Option.map_some, hkey]
    exact ⟨rfl, hbinding.symm, (Bool.and_eq_true_iff.mp hcreates).1⟩
  · rintro ⟨hkeys, hbinding, hcreates⟩
    obtain ⟨other, hother, hkey⟩ := Option.map_eq_some_iff.mp hkeys
    refine ⟨?_, other, hother, ?_, createIdentity_eq_iff.mpr ⟨hkey.symm, hbinding.symm⟩⟩
    · rw [hcreates, hbinding, hconfigured]
      rfl
    · rw [hkey, hagent]

theorem create_answer_unchanged {codec : Codec} {w : CommandPlane} {call : ServiceCall}
    {choice : ServiceChoice} {past : List (Sigma ServiceAsk.Answer)} (hw : w.Pinned)
    {identity : PublicCreateIdentity} {a : Acceptance} (hheld : w.HeldCreate identity a)
    (hkey : identity.key = call.key) (q : ServiceAsk) (hq : call.Asks codec past q) :
    (w.answer codec call choice q).2 = w := by
  obtain ⟨⟨reservation, hreserved, rfl⟩, found, hfound, -⟩ := hheld
  rw [hkey] at hreserved hfound
  cases q with
  | admitDispositionCommand request =>
    rw [← hq.1] at hfound
    exact orLose_unchanged (CommandPlane.admitDispositionCommand_of_found hfound)
  | preparePublicCreate request =>
    obtain ⟨-, -, target, payload, -, -, -, hidentity⟩ := hq
    have hown : request.identity.key = call.key := congrArg PublicCreateIdentity.key hidentity
    rw [← hown] at hreserved
    exact orLose_unchanged (congrArg Prod.snd (CommandPlane.preparePublicCreate_eq hreserved))
  | admitPublicCreate request =>
    obtain ⟨-, -, target, payload, -, -, -, hidentity⟩ := hq
    have hown : request.identity.key = call.key := congrArg PublicCreateIdentity.key hidentity
    rw [← hown] at hreserved hfound hkey
    exact orLose_unchanged (congrArg Prod.snd (hw.admitPublicCreate_eq hreserved hkey hfound))
  | _ => rfl

/-- Once a create is durably accepted, a later repetition of it that meets no fault ends without
changing the store, on every replica. It is answered with the create as it was accepted exactly
when the replica that answers has the defaults of the one that accepted it. -/
theorem create_retry_keeps_answer {codec : Codec} {acts more : List ServiceAct} {σ τ : ServiceRun}
    (hrun : Runs.exec (serviceSystem codec).step { world := {} } acts = some σ)
    (hmore : Runs.exec (serviceSystem codec).step σ more = some τ)
    {j : Nat} {t : Thread ServiceAsk.Answer ServiceCall AdmitResult}
    (hj : σ.threads.length ≤ j) (ht : τ.threads[j]? = some t)
    (hplain : ∀ choice, .answer j choice ∈ more → choice.Plain ∧ choice.otherFault = none) :
    (∀ u ∈ σ.threads, ∀ request out, ⟨.admitPublicCreate request, .ok out⟩ ∈ u.asked →
      u.input.Accepted codec σ.world out.1.acceptance ∧ u.input.Reserved codec σ.world) ∧
    ∀ (first : ServiceCall) (a : Acceptance), first.Accepted codec σ.world a →
      first.Reserved codec σ.world → t.input.Repeats first →
        (∀ choice ρ, (serviceSystem codec).step τ (.answer j choice) = some ρ → ρ.world = τ.world) ∧
        (∀ choice, ∃ n ρ u r,
          Runs.exec (serviceSystem codec).step τ (List.replicate n (.answer j choice)) = some ρ ∧
            ρ.threads[j]? = some u ∧ u.input = t.input ∧ u.returned = some r) ∧
        ∀ r, t.returned = some r →
          ((∃ entry, r = .ok (entry, false) ∧ entry.acceptance = a) ↔
            t.input.replica.SameDefaults first.replica first.request.agent) := by
  have hσ := service_standing hrun
  obtain ⟨hτ, hlater⟩ := service_later hσ hmore
  constructor
  · intro u hu request out hmem
    exact (hσ.threads u hu).asked _ hmem
  · rintro first a ⟨hheld, -⟩ ⟨hkind, hserved, target, payload, reservation, htarget, hagent,
      hpayload, hreserved, hidentity⟩ hrepeats
    have hcreate : σ.world.HeldCreate
        (createIdentity first.replica.config codec first.key target payload) a :=
      ⟨⟨reservation, hreserved, hidentity⟩, hheld⟩
    refine ⟨fun choice ρ hstep => ?_, fun choice => ?_, fun r hr => ?_⟩
    · exact step_unchanged hτ ht (create_answer_unchanged hτ.world (hlater.heldCreate hcreate)
        hrepeats.key_eq.symm) hstep
    · exact System.finishes (fun w call c q => ⟨_, _, rfl⟩) choice ht
    have hanswers := later_answers (F := KeptCreate _ a) hσ hmore
      (fun hlater => hlater.heldCreate) hcreate And.left (fun hw hheld hchoice call q =>
        keptCreate_answer hw hheld hchoice.1 hchoice.2 call q) hj ht hplain
    have hreturns := t.returns_of_returned (hτ.threads t (List.mem_of_getElem? ht)).steps hr
    rw [← hrepeats.payload_eq codec] at hpayload
    rw [← hrepeats.1] at hkind
    have hsettled := create_settles (fun e he => he.1) (fun e he => he.2) hrepeats.key_eq hkind
      hpayload t.asked r hreturns hanswers
    rw [← assembles_iff codec payload hrepeats hserved htarget hagent]
    constructor
    · rintro ⟨entry, rfl, -⟩
      by_contra hother
      obtain ⟨code, cause, ⟨⟩⟩ := hsettled.2 hother
    · intro hassembles
      obtain ⟨⟨entry, created⟩, hok, hentry, rfl⟩ := hsettled.1 hassembles
      exact ⟨entry, hok, hentry⟩

namespace Sample

/-- A replica by the default target of its agent. -/
def createReplica (target : Option HostTargetKey) : Replica where
  config := { binding := ⟨"storage", "v1"⟩ }
  resolveAgent _ := target.map fun key => ⟨key, {}⟩
  isKnown _ := true

def create (target : Option HostTargetKey) : ServiceCall where
  replica := createReplica target
  principal := ⟨"tenant", "subject", "user"⟩
  request := .create
    { session := "session", command := "command", content := [1], agent := "agent" }

/-- The default target when the create is accepted. -/
def target : HostTargetKey := ⟨"agent", "runtime-v1", .pooled⟩

def createAccepted : List ServiceAct :=
  .start (create (some target)) :: List.replicate 8 (.answer 0 {})

/-- The create is repeated under the same default. -/
def createRepeated : List ServiceAct :=
  .start (create (some target)) :: List.replicate 8 (.answer 1 {})

/-- The create is repeated after the default has moved to another runtime, and after it is gone. -/
def createMoved : List ServiceAct :=
  .start (create (some { target with runtimeCompatibility := "runtime-v2" })) ::
    List.replicate 6 (.answer 1 {}) ++
  .start (create none) :: List.replicate 3 (.answer 2 {})

/-- The create as it was accepted. -/
def createAcceptance : Acceptance where
  key := ⟨"tenant", "session", "command"⟩
  binding := bindSession (createReplica (some target)).config codec (create (some target)).key
  runtimeCommandID := ""
  kind := .create
  payloadDigest := [1]
  payloadSize := 1
  acceptedAt := 0
  applyDeadline := 0
  acceptedOrder := 1
  principal := none
  metadata := []

end Sample

theorem create_retry_keeps_answer_sample : ∃ σ τ t entry,
    Runs.exec (serviceSystem Sample.codec).step { world := {} } Sample.createAccepted = some σ ∧
    Runs.exec (serviceSystem Sample.codec).step σ Sample.createRepeated = some τ ∧
    τ.threads[1]? = some t ∧ t.returned = some (.ok (entry, false)) ∧
    entry.acceptance = Sample.createAcceptance := by
  have hsample :
      (Runs.exec (serviceSystem Sample.codec).step { world := {} } Sample.createAccepted).bind
      (fun σ => (Runs.exec (serviceSystem Sample.codec).step σ Sample.createRepeated).bind fun τ =>
        τ.threads[1]?.map fun t => decide (σ.threads.length = 1 ∧
          (σ.world.commands ⟨"tenant", "session", "command"⟩).map CommandEntry.acceptance =
            some Sample.createAcceptance ∧
          (σ.world.reserved ("tenant", "command")).map PreparePublicCreateRequest.identity =
            some (createIdentity (Sample.createReplica (some Sample.target)).config Sample.codec
              (Sample.create (some Sample.target)).key ⟨Sample.target, {}⟩ [1]) ∧
          t.returned.isSome = true ∧ t.input.Repeats (Sample.create (some Sample.target)) ∧
          t.input.replica.SameDefaults (Sample.createReplica (some Sample.target)) "agent")) =
        some true := by
    decide +kernel
  obtain ⟨σ, hrun, hrest⟩ := Option.bind_eq_some_iff.mp hsample
  obtain ⟨τ, hmore, hlast⟩ := Option.bind_eq_some_iff.mp hrest
  obtain ⟨t, ht, hall⟩ := Option.map_eq_some_iff.mp hlast
  obtain ⟨hlength, hheld, hidentity, hreturned, hrepeats, hsame⟩ := of_decide_eq_true hall
  obtain ⟨r, hr⟩ := Option.isSome_iff_exists.mp hreturned
  have haccepted : (Sample.create (some Sample.target)).Accepted Sample.codec σ.world
      Sample.createAcceptance := ⟨Option.map_eq_some_iff.mp hheld, [1], rfl, rfl, rfl, rfl⟩
  have hreserved : (Sample.create (some Sample.target)).Reserved Sample.codec σ.world := by
    obtain ⟨reservation, hreserved, hsame⟩ := Option.map_eq_some_iff.mp hidentity
    exact ⟨rfl, by decide, ⟨Sample.target, {}⟩, [1], reservation, rfl, rfl, rfl, hreserved, hsame⟩
  have hkept := (create_retry_keeps_answer hrun hmore (Nat.le_of_eq hlength) ht
    (Sample.answered ⟨⟨rfl, rfl, rfl⟩, rfl⟩)).2 _ _ haccepted hreserved hrepeats
  obtain ⟨entry, rfl, hentry⟩ := (hkept.2.2 r hr).mpr hsame
  exact ⟨σ, τ, t, entry, hrun, hmore, ht, hr, hentry⟩

/-- A create is accepted; after the default target of its agent has moved to another runtime the
repetition is rejected, and after the default is gone the runtime is unavailable. -/
theorem create_retry_refused : ∃ τ,
    Runs.exec (serviceSystem Sample.codec).step { world := {} }
      (Sample.createAccepted ++ Sample.createMoved) = some τ ∧
    (∀ t ∈ τ.threads, t.input.Repeats (Sample.create (some Sample.target))) ∧
    τ.threads.map Thread.returned =
      [some (.ok ({ acceptance := Sample.createAcceptance }, true)),
        some (.error commandRejected), some (.error (.refusal .runtimeUnavailable))] := by
  have hsample : (Runs.exec (serviceSystem Sample.codec).step { world := {} }
      (Sample.createAccepted ++ Sample.createMoved)).map (fun τ => decide (
        (∀ t ∈ τ.threads, t.input.Repeats (Sample.create (some Sample.target))) ∧
        τ.threads.map Thread.returned =
          [some (.ok ({ acceptance := Sample.createAcceptance }, true)),
            some (.error commandRejected), some (.error (.refusal .runtimeUnavailable))])) =
      some true := by
    decide +kernel
  obtain ⟨τ, hrun, hτ⟩ := Option.map_eq_some_iff.mp hsample
  exact ⟨τ, hrun, of_decide_eq_true hτ⟩

end Factory.Admission
