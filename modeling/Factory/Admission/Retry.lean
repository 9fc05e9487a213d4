import Factory.Admission.ServiceRule

/-!
# A retry keeps its answer

Once the store holds a command, a later call for its key reads it before anything that may have
changed since, and re-enters the ordinary write under the binding it was accepted with. So a call
of the same kind and canonical content is answered with the command as it was accepted, whatever
the gates, the owners, the launch targets and the clock are by then, and a call of another kind or
another content is refused (`program_settles`, `accepted_command_keeps_answer`). Neither writes.
-/

namespace Factory.Admission

open List Dialogue Threads

/-! ## Answers without a fault -/

/-- The command store, the upload and the ID source do not fail, the fence is open, and the caller
is authorized. -/
def ServiceChoice.Plain (choice : ServiceChoice) : Prop :=
  choice.fault = none ∧ choice.begun = true ∧ choice.refused = none

/-- What the fence, the authorizer, the ID source and the upload answer then. -/
def PlainAnswer : Sigma ServiceAsk.Answer → Prop
  | ⟨.beginAdmission, begun⟩ => begun = true
  | ⟨.authorizeControl _ _ _, out⟩ => out = .ok ()
  | ⟨.newUUID, out⟩ => ∃ id, out = .ok id
  | ⟨.putCommandPayload request, out⟩ =>
    ∃ stored, out = .ok stored ∧ stored.sha256 = request.sha256 ∧
      stored.sizeBytes = request.sizeBytes
  | _ => True

section Repeats

variable {codec : Codec} {choice : ServiceChoice} {w : CommandPlane} {found : CommandEntry}
  {call : ServiceCall} {a : Acceptance} {payload : Bytes} {key : CommandDescriptor}
  {cfg : ServiceConfig}

theorem ServiceChoice.Plain.orFail {α : Type} (h : choice.Plain) (out : Except SeamError α) :
    orFail choice.fault out = out := by
  rw [h.1]
  rfl

theorem ServiceChoice.Plain.orLose {α : Type} (h : choice.Plain) (w : CommandPlane)
    (out : Except SeamError α × CommandPlane) : choice.orLose w out = out := by
  unfold ServiceChoice.orLose
  rw [h.1]

theorem ServiceChoice.Plain.answer (h : choice.Plain) (codec : Codec) (w : CommandPlane)
    (call : ServiceCall) (q : ServiceAsk) : PlainAnswer ⟨q, (w.answer codec call choice q).1⟩ := by
  cases q with
  | beginAdmission => exact h.2.1
  | authorizeControl principal session kind =>
    simp only [CommandPlane.answer, h.2.2]
    exact rfl
  | newUUID => exact ⟨choice.id, h.orFail _⟩
  | putCommandPayload request => exact ⟨_, h.orFail _, rfl, rfl⟩
  | _ => trivial

section Plain

variable {F : Sigma ServiceAsk.Answer → Prop} (hF : ∀ e, F e → PlainAnswer e) {β : Type}
  {R : Except AdmitError β → Prop}

include hF

variable (call) in
/-- A plain call gets through the part all entry points begin with. -/
theorem ensures_attributed {f : Option WirePrincipal → ServiceProgram β}
    (hprincipal : call.request.head.principal = none)
    (hvalid : codec.validate (call.request.withPrincipal call.carried) = true)
    (h : Ensures F R (f call.carried).run) :
    Ensures F R (do
      beginAdmission
      let carried ←
        attributePrincipal call.replica.config call.principal call.request.head.principal
      validate codec (call.request.withPrincipal carried)
      f carried).run := by
  refine ensures_ask_bind fun begun hbegun => ?_
  have hopen : begun = true := hF _ hbegun
  subst hopen
  rw [hprincipal]
  change Ensures F R
    (validate codec (call.request.withPrincipal call.carried) >>= fun _ => f call.carried).run
  rw [validate, if_pos hvalid]
  exact h

/-- Where every answer authorises, what is ensured past the authorizer is ensured. -/
theorem ensures_authorized {principal : Principal} {session : SessionID} {kind : CommandKind}
    {f : Unit → ServiceProgram β} (h : Ensures F R (f ()).run) :
    Ensures F R (authorizeControl principal session kind >>= f).run := by
  refine ensures_ask_bind fun out hout => ?_
  have hok : out = .ok () := hF _ hout
  subst hok
  exact h

theorem ensures_newUUID_bind {f : String → ServiceProgram β} (h : ∀ id, Ensures F R (f id).run) :
    Ensures F R (serviceSeam .newUUID >>= fun out => orFault "" out >>= f).run := by
  refine ensures_ask_bind fun out hout => ?_
  obtain ⟨id, hid⟩ : ∃ id, out = .ok id := hF _ hout
  subst hid
  exact h id

variable (codec) in
/-- Stored content, inline or by reference, has the payload's identity. -/
theorem ensures_storePayload_bind {refuse : String → SeamError → AdmitError}
    {f : PayloadContent → ServiceProgram β}
    (h : ∀ content, content.identity codec = (codec.sha256 payload, payload.length) →
      Ensures F R (f content).run) :
    Ensures F R (storePayload codec refuse key payload >>= f).run := by
  unfold storePayload
  split
  · refine ensures_ask_bind fun out hout => ?_
    obtain ⟨stored, hstored, hdigest, hsize⟩ := hF _ hout
    subst hstored
    exact h (.object stored) (Prod.ext hdigest hsize)
  · exact h (.inline payload) rfl

end Plain

/-- The notice returns nothing that could change what is ensured. -/
theorem ensures_notify_bind {F : Sigma ServiceAsk.Answer → Prop} {β : Type}
    {R : Except AdmitError β → Prop} {entry : CommandEntry} {f : Unit → ServiceProgram β}
    (h : Ensures F R (f ()).run) : Ensures F R (notify cfg entry >>= f).run := by
  unfold notify
  split
  · exact ensures_ask_bind fun _ _ => h
  · exact h

/-! ## The store's answers about a command it holds -/

namespace CommandPlane

theorem Pinned.getDispositionCommand_eq (h : w.Pinned) (hfound : w.commands key = some found) :
    w.getDispositionCommand key = .ok found := by
  obtain ⟨hb, hm⟩ := h.command key found hfound
  unfold CommandPlane.getDispositionCommand
  rw [dispositionBinding_eq hb hm, hfound]

/-- A command that is there is not written again. -/
theorem admitDispositionCommand_of_found {request : AdmitDispositionCommandRequest}
    (hfound : w.commands request.key = some found) :
    (w.admitDispositionCommand codec request).2 = w := by
  unfold CommandPlane.admitDispositionCommand
  split
  · rfl
  split
  · rfl
  split
  · rfl
  rw [hfound]
  dsimp only
  split
  · rfl
  · rfl

theorem Pinned.admitDispositionCommand_eq (h : w.Pinned) {request : AdmitDispositionCommandRequest}
    (hfound : w.commands request.key = some found) (hkind : request.kind ≠ .create)
    (hbinding : request.binding = found.acceptance.binding) :
    w.admitDispositionCommand codec request =
      if found.acceptance.Matches codec request then (.ok (found, false), w)
      else (.error commandMismatch, w) := by
  obtain ⟨hb, hm⟩ := h.command _ found hfound
  unfold CommandPlane.admitDispositionCommand
  rw [dispositionBinding_eq hb hm]
  dsimp only
  split
  · next hown =>
    -- The session's own create is of another kind.
    obtain ⟨reservation, hreserved, hkey⟩ := Option.any_eq_true _ _ |>.mp hown
    have hcreate := (h.own _ found reservation hfound hreserved (of_decide_eq_true hkey)).1
    rw [if_neg fun hmatches => hkind (hmatches.1.symm.trans hcreate)]
  · rw [if_neg (not_not.mpr hbinding), hfound]

end CommandPlane

/-- What is answered about a command while the store holds it as it was accepted. -/
def Kept (codec : Codec) (key : CommandDescriptor) (a : Acceptance) : Sigma ServiceAsk.Answer → Prop
  | ⟨.getDispositionCommand k, out⟩ => k = key → ∃ found, out = .ok found ∧ found.acceptance = a
  | ⟨.admitDispositionCommand request, out⟩ =>
    request.key = key → request.kind ≠ .create → request.binding = a.binding →
      (a.Matches codec request → ∃ found, out = .ok (found, false) ∧ found.acceptance = a) ∧
      (¬a.Matches codec request → out = .error commandMismatch)
  | _ => True

theorem kept_answer (hw : w.Pinned) (hfound : w.commands key = some found) (hplain : choice.Plain)
    (call : ServiceCall) (q : ServiceAsk) :
    Kept codec key found.acceptance ⟨q, (w.answer codec call choice q).1⟩ := by
  cases q with
  | getDispositionCommand k =>
    rintro rfl
    exact ⟨found, (hplain.orFail _).trans (hw.getDispositionCommand_eq hfound), rfl⟩
  | admitDispositionCommand request =>
    rintro rfl hkind hbinding
    simp only [CommandPlane.answer, hplain.orLose,
      hw.admitDispositionCommand_eq hfound hkind hbinding]
    refine ⟨fun hmatches => ?_, fun hmatches => ?_⟩
    · rw [if_pos hmatches]
      exact ⟨found, rfl, rfl⟩
    · rw [if_neg hmatches]
  | _ => trivial

/-! ## A call for a command the store holds -/

/-- The refusal of a request that is not the command accepted under its key. -/
def commandRejected : AdmitError := .refusal .commandRejected (some (.store commandMismatch))

/-- The call is answered as the accepted command says: with what `P` says when it is of this kind
and content, and refused otherwise. -/
def SettlesCommand (codec : Codec) (a : Acceptance) (kind : CommandKind) (payload : Bytes)
    {α : Type} (P : α → Prop) (r : Except AdmitError α) : Prop :=
  (a.OfContent codec kind payload → ∃ out, r = .ok out ∧ P out) ∧
  (¬a.OfContent codec kind payload → r = .error commandRejected)

/-- The answer to a retry. -/
abbrev Retried (a : Acceptance) (out : CommandEntry × Bool) : Prop :=
  out.1.acceptance = a ∧ out.2 = false

section SettlesCommand

variable {kind : CommandKind} {α β : Type} {P : α → Prop}
theorem ensures_settles_bind {F : Sigma ServiceAsk.Answer → Prop} {P' : β → Prop}
    {x : ServiceProgram α} {f : α → ServiceProgram β}
    (hx : Ensures F (SettlesCommand codec a kind payload P) x.run)
    (hf : ∀ out, P out → Ensures F (fun r => ∃ out', r = .ok out' ∧ P' out') (f out).run) :
    Ensures F (SettlesCommand codec a kind payload P') (x >>= f).run := by
  intro log r hr hlog
  rcases returns_fallible_bind.mp hr with ⟨err, rfl, hxr⟩ | ⟨first, rest, out, rfl, hxr, hfr⟩
  · have hsettled := hx log _ hxr hlog
    refine ⟨fun hcontent => ?_, fun hcontent => ?_⟩
    · obtain ⟨out, ⟨⟩, -⟩ := hsettled.1 hcontent
    · cases hsettled.2 hcontent
      rfl
  · have hsettled := hx first _ hxr fun e he => hlog e (mem_append_left _ he)
    refine ⟨fun hcontent => ?_, fun hcontent => ?_⟩
    · obtain ⟨_, ⟨⟩, hout⟩ := hsettled.1 hcontent
      exact hf out hout rest r hfr fun e he => hlog e (mem_append_right _ he)
    · cases hsettled.2 hcontent

theorem Acceptance.matches_iff {request : AdmitDispositionCommandRequest}
    (hbinding : request.binding = a.binding) (hkind : request.kind = kind)
    (hcontent : request.content.identity codec = (codec.sha256 payload, payload.length)) :
    a.Matches codec request ↔ a.OfContent codec kind payload := by
  unfold Acceptance.Matches Acceptance.OfContent
  rw [hcontent, hkind, hbinding, Prod.mk.injEq]
  exact ⟨fun h => ⟨h.1, h.2.1⟩, fun h => ⟨h.1, h.2, rfl⟩⟩

end SettlesCommand

section Retry

variable {F : Sigma ServiceAsk.Answer → Prop} (hF : ∀ e, F e → PlainAnswer e)
  (hkept : ∀ e, F e → Kept codec call.key a e) (hkind : call.request.kind ≠ .create)

include hF hkept hkind

theorem admitCommand_settles {m : Members} :
    Ensures F (SettlesCommand codec a call.request.kind payload (Retried a))
      (admitCommand cfg codec call.key call.request.kind a.binding payload m).run := by
  refine ensures_newUUID_bind hF fun id => ensures_ask_bind fun now _ => ?_
  refine ensures_storePayload_bind codec hF fun content hcontent => ?_
  refine ensures_ask_bind fun out hout => ?_
  obtain ⟨hmatch, hmismatch⟩ := hkept _ hout rfl hkind rfl
  rw [Acceptance.matches_iff rfl rfl hcontent] at hmatch hmismatch
  by_cases hsame : a.OfContent codec call.request.kind payload
  · obtain ⟨found, hok, hfound⟩ := hmatch hsame
    subst hok
    exact ensures_notify_bind (ensures_ok ⟨fun _ => ⟨_, rfl, hfound, rfl⟩, fun h => absurd hsame h⟩)
  · have herror := hmismatch hsame
    subst herror
    exact ensures_throw ⟨fun h => absurd h hsame, fun _ => rfl⟩

variable (call) in
theorem retry_settles {m : Members} :
    Ensures F (SettlesCommand codec a call.request.kind payload
        fun found => ∃ entry, found = some entry ∧ entry.acceptance = a)
      (retry cfg codec call.key call.request.kind payload m).run := by
  refine ensures_ask_bind fun out hout => ?_
  obtain ⟨found, hok, hfound⟩ := hkept _ hout rfl
  subst hok
  subst hfound
  refine ensures_settles_bind (admitCommand_settles hF hkept hkind) fun out hret => ?_
  exact ensures_ok ⟨_, rfl, _, rfl, hret.1⟩

theorem program_settles (hpayload : call.payload codec = some payload) :
    Ensures F (SettlesCommand codec a call.request.kind payload (Retried a))
      (call.program codec).run := by
  obtain ⟨hprincipal, hvalid, hmarshal⟩ := ServiceCall.payload_eq_some.mp hpayload
  rcases call.program_cases codec with ⟨request, hrequest, -⟩ | ⟨-, hprogram⟩ |
    ⟨request, hrequest, hprogram⟩
  · rw [hrequest] at hkind
    exact absurd rfl hkind
  · rw [hprogram]
    refine ensures_attributed call hF hprincipal hvalid ?_
    unfold admitExisting canonicalCommand
    simp only [CommandRequest.withPrincipal_kind, CommandRequest.withPrincipal_session,
      CommandRequest.withPrincipal_command, hmarshal]
    refine ensures_authorized hF ?_
    refine ensures_settles_bind (retry_settles call hF hkept hkind) ?_
    rintro _ ⟨entry, rfl, hentry⟩
    exact ensures_ok ⟨_, rfl, hentry, rfl⟩
  · obtain ⟨replica, principal, _⟩ := call
    subst hrequest
    refine ensures_attributed ⟨replica, principal, .gateResponse request⟩ hF hprincipal hvalid ?_
    unfold canonicalCommand
    rw [show codec.marshal (.gateResponse _) = some payload from hmarshal]
    refine ensures_authorized hF ?_
    refine ensures_settles_bind
      (retry_settles ⟨replica, principal, .gateResponse request⟩ hF hkept hkind) ?_
    rintro _ ⟨entry, rfl, hentry⟩
    exact ensures_ok ⟨_, rfl, hentry, rfl⟩

end Retry

/-! ## Runs -/

/-- The call repeats another: the same request by the same principal, under the same stamping
setting. -/
def ServiceCall.Repeats (call first : ServiceCall) : Prop :=
  call.request = first.request ∧ call.principal = first.principal ∧
    call.replica.config.stampPrincipal = first.replica.config.stampPrincipal

instance (call first : ServiceCall) : Decidable (call.Repeats first) :=
  inferInstanceAs (Decidable (_ ∧ _ ∧ _))

theorem ServiceCall.Repeats.key_eq {first : ServiceCall} (h : call.Repeats first) :
    call.key = first.key := by
  unfold ServiceCall.key
  rw [h.1, h.2.1]

/-- A repetition has the same canonical content. -/
theorem ServiceCall.Repeats.payload_eq {first : ServiceCall} (h : call.Repeats first)
    (codec : Codec) : call.payload codec = first.payload codec := by
  unfold ServiceCall.payload ServiceCall.carried stampedPrincipal
  rw [h.1, h.2.1, h.2.2]

/-- A call was answered that its command is accepted. -/
def AnsweredAccepted (asked : List (Sigma ServiceAsk.Answer)) (a : Acceptance) : Prop :=
  (∃ request out, ⟨.admitDispositionCommand request, .ok out⟩ ∈ asked ∧ out.1.acceptance = a) ∨
  ∃ request out, ⟨.admitPublicCreate request, .ok out⟩ ∈ asked ∧ out.1.acceptance = a

theorem accepted_of_answered {σ : ServiceRun} (hσ : ServiceStanding codec σ)
    {u : Thread ServiceAsk.Answer ServiceCall AdmitResult} (hu : u ∈ σ.threads)
    (h : AnsweredAccepted u.asked a) : u.input.Accepted codec σ.world a := by
  rcases h with ⟨request, out, hmem, rfl⟩ | ⟨request, out, hmem, rfl⟩
  · exact (hσ.threads u hu).asked _ hmem
  · exact ((hσ.threads u hu).asked _ hmem).1

/-- What a call started later is answered, while what held then still does. -/
theorem later_answers {σ τ : ServiceRun} {more : List ServiceAct} (hσ : ServiceStanding codec σ)
    (hmore : Runs.exec (serviceSystem codec).step σ more = some τ) {J : CommandPlane → Prop}
    (hJ : ∀ {w v : CommandPlane}, w.Later v → J w → J v) (hheld : J σ.world)
    {C : ServiceChoice → Prop} (hC : ∀ {choice : ServiceChoice}, C choice → choice.Plain)
    {F : ServiceCall → Sigma ServiceAsk.Answer → Prop}
    (hF : ∀ {w : CommandPlane} {choice : ServiceChoice}, w.Pinned → J w → C choice →
      ∀ call q, F call ⟨q, (w.answer codec call choice q).1⟩) {j : Nat}
    {t : Thread ServiceAsk.Answer ServiceCall AdmitResult} (hj : σ.threads.length ≤ j)
    (ht : τ.threads[j]? = some t) (hplain : ∀ choice, .answer j choice ∈ more → C choice) :
    ∀ e ∈ t.asked, PlainAnswer e ∧ F t.input e := by
  refine System.answers_of_later
    (J := fun ρ : ServiceRun => ServiceStanding codec ρ ∧ J ρ.world)
    (F := fun call e => PlainAnswer e ∧ F call e) ?_ ?_ hmore hplain ⟨hσ, hheld⟩ hj ht
  · intro ρ act ρ' hstep ⟨hρ, hw⟩
    obtain ⟨hρ', hlater⟩ := service_step hρ hstep
    exact ⟨hρ', hJ hlater hw⟩
  · intro ρ call choice q out v ⟨hρ, hw⟩ hchoice hanswer
    obtain ⟨rfl, -⟩ := serviceSystem_answer hanswer
    exact ⟨(hC hchoice).answer codec _ call q, hF hρ.world hw hchoice call q⟩

theorem orLose_unchanged {α : Type} {out : Except SeamError α × CommandPlane} (h : out.2 = w) :
    (choice.orLose w out).2 = w := by
  unfold ServiceChoice.orLose
  split
  · split
    · exact h
    · rfl
  · exact h

/-- A call changes nothing by questions that change nothing. -/
theorem step_unchanged {τ ρ : ServiceRun} {j : Nat}
    {t : Thread ServiceAsk.Answer ServiceCall AdmitResult} (hτ : ServiceStanding codec τ)
    (ht : τ.threads[j]? = some t)
    (h : ∀ q, t.input.Asks codec t.asked q → (τ.world.answer codec t.input choice q).2 = τ.world)
    (hstep : (serviceSystem codec).step τ (.answer j choice) = some ρ) : ρ.world = τ.world := by
  rcases System.step_cases hstep with ⟨_, _, ⟨⟩, -, -⟩ | ⟨_, ⟨⟩, -, -⟩ |
    ⟨_, _, u, q, k, out, w, ⟨⟩, hu, hrest, hanswer, rfl⟩
  cases ht.symm.trans hu
  obtain ⟨-, rfl⟩ := serviceSystem_answer hanswer
  exact h q ((serviceSystem_rule codec).question (hτ.threads t (mem_of_getElem? ht)) hrest)

theorem answer_unchanged {past : List (Sigma ServiceAsk.Answer)}
    (hkind : call.request.kind ≠ .create) (hfound : w.commands call.key = some found)
    (q : ServiceAsk) (hq : call.Asks codec past q) : (w.answer codec call choice q).2 = w := by
  cases q with
  | admitDispositionCommand request =>
    rw [← hq.1] at hfound
    exact orLose_unchanged (CommandPlane.admitDispositionCommand_of_found hfound)
  | preparePublicCreate | admitPublicCreate => exact absurd hq.1 hkind
  | _ => rfl

/-- Once a command is durably accepted, every later call of one of the four kinds for its key that
meets no fault is answered by it. A repetition of the request that was accepted is answered with
the command as it was accepted then, and a call of another kind or another canonical content is
refused. No step of the call changes the store, and the call ends. -/
theorem accepted_command_keeps_answer {codec : Codec} (hsha : Function.Injective codec.sha256)
    {acts more : List ServiceAct} {σ τ : ServiceRun}
    (hrun : Runs.exec (serviceSystem codec).step { world := {} } acts = some σ)
    (hmore : Runs.exec (serviceSystem codec).step σ more = some τ)
    {j : Nat} {t : Thread ServiceAsk.Answer ServiceCall AdmitResult}
    (hj : σ.threads.length ≤ j) (ht : τ.threads[j]? = some t)
    (hkind : t.input.request.kind ≠ .create)
    (hplain : ∀ choice, .answer j choice ∈ more → choice.Plain) :
    (∀ u ∈ σ.threads, ∀ a, AnsweredAccepted u.asked a → u.input.Accepted codec σ.world a) ∧
    ∀ (first : ServiceCall) (a : Acceptance), first.Accepted codec σ.world a →
      t.input.key = first.key →
        (∀ choice ρ, (serviceSystem codec).step τ (.answer j choice) = some ρ → ρ.world = τ.world) ∧
        (∀ choice, ∃ n ρ u r,
          Runs.exec (serviceSystem codec).step τ (List.replicate n (.answer j choice)) = some ρ ∧
            ρ.threads[j]? = some u ∧ u.input = t.input ∧ u.returned = some r) ∧
        ∀ r, t.returned = some r →
          (t.input.Repeats first → ∃ entry, r = .ok (entry, false) ∧ entry.acceptance = a) ∧
          ∀ payload, t.input.payload codec = some payload →
            (t.input.request.kind ≠ first.request.kind ∨ first.payload codec ≠ some payload) →
              r = .error commandRejected := by
  have hσ := service_standing hrun
  obtain ⟨hτ, hlater⟩ := service_later hσ hmore
  refine ⟨fun u hu a => accepted_of_answered hσ hu, ?_⟩
  rintro first a ⟨hheld, payload₁, hpayload₁, hcontent₁⟩ hkey
  refine ⟨fun choice ρ hstep => ?_, fun choice => ?_, fun r hr => ?_⟩
  · obtain ⟨found, hfound, -⟩ := hlater.holds hheld
    rw [← hkey] at hfound
    exact step_unchanged hτ ht (answer_unchanged hkind hfound) hstep
  · exact System.finishes (fun w call c q => ⟨_, _, rfl⟩) choice ht
  rw [← hkey] at hheld
  have hanswers := later_answers (F := fun _ => Kept codec t.input.key a) hσ hmore
    (fun hlater => hlater.holds) hheld id (fun hw ⟨_, hfound, hsame⟩ hchoice call q =>
      hsame ▸ kept_answer hw hfound hchoice call q) hj ht hplain
  have hreturns := t.returns_of_returned (hτ.threads t (mem_of_getElem? ht)).steps hr
  have hsettled : ∀ payload, t.input.payload codec = some payload →
      SettlesCommand codec a t.input.request.kind payload (Retried a) r := fun payload hpayload =>
    program_settles (fun e he => he.1) (fun e he => he.2) hkind hpayload t.asked r hreturns hanswers
  refine ⟨fun hrepeats => ?_, fun payload hpayload hother => ?_⟩
  · rw [← hrepeats.payload_eq codec] at hpayload₁
    rw [← hrepeats.1] at hcontent₁
    obtain ⟨⟨entry, created⟩, hr', hentry, rfl⟩ := (hsettled payload₁ hpayload₁).1 hcontent₁
    exact ⟨entry, hr', hentry⟩
  · refine (hsettled payload hpayload).2 fun hcontent => ?_
    rcases hother with hne | hne
    · exact hne (hcontent.1.symm.trans hcontent₁.1)
    · rw [hsha (hcontent.2.1.symm.trans hcontent₁.2.1)] at hne
      exact hne hpayload₁

end Repeats

namespace Sample

/-- A codec whose digest is the content itself. -/
def codec : Codec where
  validate _ := true
  marshal request := some request.head.content
  sha256 := id

/-- A replica that may not know the session's target, with a deadline of its own. -/
def replica (known : Bool) (applyDeadline : Int) : Replica where
  config := { applyDeadline := applyDeadline }
  resolveAgent _ := none
  isKnown _ := known

/-- An input to a session. -/
def input (replica : Replica) : ServiceCall where
  replica := replica
  principal := ⟨"tenant", "subject", "user"⟩
  request := .input { session := "session", command := "command", content := [1] }

/-- The session exists, and its input is accepted. -/
def accepted : List ServiceAct :=
  [.event (.createSession ⟨"tenant", "session"⟩ ⟨"storage", "v1", "runtime", .disposition⟩),
    .start (input (replica true 30))] ++ List.replicate 9 (.answer 0 {})

/-- The input is repeated, on a replica that does not know the target. -/
def repeated : List ServiceAct :=
  .start (input (replica false 60)) :: List.replicate 7 (.answer 1 { instant := 100 })

/-- The input as it was accepted. -/
def acceptance : Acceptance where
  key := ⟨"tenant", "session", "command"⟩
  binding := ⟨"storage", "v1", "runtime", .disposition⟩
  runtimeCommandID := ""
  kind := .input
  payloadDigest := [1]
  payloadSize := 1
  acceptedAt := 0
  applyDeadline := 30
  acceptedOrder := 1
  principal := none
  metadata := []

end Sample

theorem Sample.answered {j n : Nat} {C : ServiceChoice → Prop} {given : ServiceChoice}
    (h : C given) : ∀ choice, .answer j choice ∈
      (.start call :: List.replicate n (.answer j given) : List ServiceAct) → C choice := by
  intro choice hchoice
  rcases mem_cons.mp hchoice with hstart | hanswer
  · cases hstart
  · cases eq_of_mem_replicate hanswer
    exact h

theorem accepted_command_keeps_answer_sample : ∃ σ τ t entry,
    Runs.exec (serviceSystem Sample.codec).step { world := {} } Sample.accepted = some σ ∧
    Runs.exec (serviceSystem Sample.codec).step σ Sample.repeated = some τ ∧
    τ.threads[1]? = some t ∧ t.returned = some (.ok (entry, false)) ∧
    entry.acceptance = Sample.acceptance := by
  have hsample : (Runs.exec (serviceSystem Sample.codec).step { world := {} } Sample.accepted).bind
      (fun σ => (Runs.exec (serviceSystem Sample.codec).step σ Sample.repeated).bind fun τ =>
        τ.threads[1]?.map fun t => decide (σ.threads.length = 1 ∧
          (σ.world.commands ⟨"tenant", "session", "command"⟩).map CommandEntry.acceptance =
            some Sample.acceptance ∧ t.returned.isSome = true ∧
          t.input.Repeats (Sample.input (Sample.replica true 30)))) = some true := by
    decide +kernel
  obtain ⟨σ, hrun, hrest⟩ := Option.bind_eq_some_iff.mp hsample
  obtain ⟨τ, hmore, hlast⟩ := Option.bind_eq_some_iff.mp hrest
  obtain ⟨t, ht, hall⟩ := Option.map_eq_some_iff.mp hlast
  obtain ⟨hlength, hheld, hreturned, hrepeats⟩ := of_decide_eq_true hall
  obtain ⟨r, hr⟩ := Option.isSome_iff_exists.mp hreturned
  have haccepted : (Sample.input (Sample.replica true 30)).Accepted Sample.codec σ.world
      Sample.acceptance := ⟨Option.map_eq_some_iff.mp hheld, [1], rfl, rfl, rfl, rfl⟩
  have hkind : t.input.request.kind ≠ .create := by
    rw [hrepeats.1]
    nofun
  have hkept := (accepted_command_keeps_answer Function.injective_id hrun hmore
    (Nat.le_of_eq hlength) ht hkind (Sample.answered ⟨rfl, rfl, rfl⟩)).2 _ _ haccepted
    hrepeats.key_eq
  obtain ⟨entry, rfl, hentry⟩ := (hkept.2.2 r hr).1 hrepeats
  exact ⟨σ, τ, t, entry, hrun, hmore, ht, hr, hentry⟩

end Factory.Admission
