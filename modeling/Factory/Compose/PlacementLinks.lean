import Factory.Placement.AttachSpec

/-!
# The adapter between placement and the HostLink pool

Model of `placementLinks` of `compose.go`, the one place where an error of the pool is put in
placement's vocabulary, and of its composition with `placePooled`: whether a candidate that could
not be asked lets the next one be asked.

Each of the three capability questions and the attach has its own classification. That of
`AcceptsPayloadReferences` names fewer errors than its two siblings.
-/

namespace Factory.Compose

open List Factory.Placement

/-! ## The adapter -/

/-- The answers of the pool to placement, as `HostLinks` gives them: by round and rank for a
candidate, by capability for the Host a route was bound to. -/
structure PoolAnswers where
  acceptsGateResponses : Nat → Nat → Except PoolErr Bool
  acceptsPayloadReferences : Nat → Nat → Except PoolErr Bool
  acceptsCommandPrincipal : Nat → Nat → Except PoolErr Bool
  attach : Nat → Nat → Except PoolErr HostLinkRegistryObservation
  routeFor : Option HostID := none
  bind : Option PoolErr := none
  boundAccepts : Capability → Except PoolErr Bool := fun _ => .ok true
  deliverCommand : Nat → Option PoolErr := fun _ => none

/-- An error of the pool, returned as itself. -/
def asIs (err : PoolErr) : Err := err.map .pool

/-- The error `errors.As` finds for a `*hostlink.HostRefusal`. -/
def hostRefusal (err : PoolErr) : Option HostLinkError :=
  err.findSome? fun
    | .hostRefusal refusal => some refusal
    | _ => none

def classifyCapabilityRead (err : PoolErr) (unavailable : Cause) : Err :=
  if [PoolCause.linkReconnecting, .linkLimit, .dialFailed, .unsupportedProtocol, .poolClosed,
      .linkClosed].any (· ∈ err)
  then unavailable :: asIs err else asIs err

/-- What `AcceptsGateResponses` and `AcceptsCommandPrincipal` do alike: the responder's own
classification first, then placement's. -/
def acceptsThrough (unavailable : Cause) : Except PoolErr Bool → Except Err Bool
  | .ok capable => .ok capable
  | .error err =>
    let read := classifyCapabilityRead err unavailable
    if .pool .noTenantEndpoint ∈ read then .error (.tenantUnaddressable :: read)
    else if unavailable ∈ read then .error (.hostUnreachable :: read)
    else .error read

/-- `placementLinks.AcceptsGateResponses`. -/
def acceptsGateResponses : Except PoolErr Bool → Except Err Bool :=
  acceptsThrough .gateResponderUnavailable

/-- `placementLinks.AcceptsCommandPrincipal`. -/
def acceptsCommandPrincipal : Except PoolErr Bool → Except Err Bool :=
  acceptsThrough .principalResponderUnavailable

/-- `placementLinks.AcceptsPayloadReferences`, which asks the pool itself and knows two of the
errors its siblings know. -/
def acceptsPayloadReferences : Except PoolErr Bool → Except Err Bool
  | .ok capable => .ok capable
  | .error err =>
    if .noTenantEndpoint ∈ err then .error (.tenantUnaddressable :: asIs err)
    else if .linkReconnecting ∈ err ∨ .linkClosed ∈ err then
      .error (.hostUnreachable :: asIs err)
    else .error (asIs err)

def classifyAttach (err : PoolErr) : Err :=
  match hostRefusal err with
  | some refusal => [.attachRefusal refusal]
  | none =>
    if .noTenantEndpoint ∈ err then .tenantUnaddressable :: asIs err
    else if .unsupportedMethod ∈ err then .attachUnsupported :: asIs err
    else if .dialFailed ∈ err ∨ .linkReconnecting ∈ err ∨ .linkLimit ∈ err ∨
        .unsupportedProtocol ∈ err ∨ .linkClosed ∈ err then .hostUnreachable :: asIs err
    else if .hostFailed ∈ err then .attachFailed :: asIs err
    else asIs err

def placementLinks (pool : PoolAnswers) : HostLinks :=
  { acceptsGateResponses := fun round rank =>
      acceptsGateResponses (pool.acceptsGateResponses round rank)
    acceptsPayloadReferences := fun round rank =>
      acceptsPayloadReferences (pool.acceptsPayloadReferences round rank)
    acceptsCommandPrincipal := fun round rank =>
      acceptsCommandPrincipal (pool.acceptsCommandPrincipal round rank)
    attach := fun round rank => (pool.attach round rank).mapError classifyAttach
    routeFor := pool.routeFor
    bind := pool.bind.map asIs
    boundAccepts := fun
      | .gateResponses => acceptsGateResponses (pool.boundAccepts .gateResponses)
      | .payloadReferences => acceptsPayloadReferences (pool.boundAccepts .payloadReferences)
      | .commandPrincipal => acceptsCommandPrincipal (pool.boundAccepts .commandPrincipal)
    deliverCommand := fun i => (pool.deliverCommand i).map asIs }

/-! ## Candidates that could not be asked -/

/-- The pool's errors in which nothing reached the Host. -/
def NotSent (err : PoolErr) : Prop :=
  .dialFailed ∈ err ∨ .linkReconnecting ∈ err ∨ .linkLimit ∈ err ∨ .unsupportedProtocol ∈ err ∨
    .linkClosed ∈ err ∨ .noTenantEndpoint ∈ err

/-- The attach failed before it was sent, the Host does not support it, refused with a code
other than `epoch_mismatch`, or answered a failure without a code. -/
def AttachPassedOver : Except PoolErr HostLinkRegistryObservation → Prop
  | .ok _ => False
  | .error err =>
    match hostRefusal err with
    | some refusal => refusal.code ≠ .epochMismatch
    | none => NotSent err ∨ .unsupportedMethod ∈ err ∨ .hostFailed ∈ err

def PoolAnswers.accepts (pool : PoolAnswers) : Capability → Nat → Nat → Except PoolErr Bool
  | .gateResponses => pool.acceptsGateResponses
  | .payloadReferences => pool.acceptsPayloadReferences
  | .commandPrincipal => pool.acceptsCommandPrincipal

/-- The first of the required capabilities that a candidate did not affirm was denied, or its
question was not sent; or all were affirmed and its attach was passed over. -/
def PassedOver (pool : PoolAnswers) (req : Request) (round rank : Nat) : List Capability → Prop
  | [] => AttachPassedOver (pool.attach round rank)
  | capability :: rest =>
    if req.requiring capability = [] then PassedOver pool req round rank rest
    else
      match pool.accepts capability round rank with
      | .ok true => PassedOver pool req round rank rest
      | .ok false => True
      | .error err => NotSent err

/-- The candidate is asked about payload references, and that question fails with an error the
adapter leaves as it is. -/
def ReferencesUnclassified (pool : PoolAnswers) (req : Request) (round rank : Nat) : Prop :=
  req.payloadReferences ≠ [] ∧
    (req.gateResponses ≠ [] → pool.acceptsGateResponses round rank = .ok true) ∧
    ∃ err, pool.acceptsPayloadReferences round rank = .error err ∧
      .noTenantEndpoint ∉ err ∧ .linkReconnecting ∉ err ∧ .linkClosed ∉ err

/-- The first call a candidate is asked by: its first required capability, or its attach. -/
def firstAsk (cfg : ReconcilerConfig) (req : Request) (record : CatalogRecord) (round rank : Nat)
    (candidate : HostLinkCapacityReport) : Call :=
  match capabilities.find? (fun capability => req.requiring capability ≠ []) with
  | some capability => .accepts capability round rank (questioned req candidate)
  | none => .attach round rank candidate.internalEndpoint
      (cfg.attachRequest record candidate (attachMode record))

/-! ## What the adapter makes of each answer -/

/-- The verdict skips the candidate and goes on to the next. -/
def Skips (verdict : GateCapability) : Prop :=
  verdict = .incapable ∨ verdict = .unaddressable ∨ verdict = .unreachable

theorem skips_of_unaddressable (err : Err) :
    Skips (classifyGateCapability (.error (.tenantUnaddressable :: err))) := by
  simp [Skips, classifyGateCapability]

theorem skips_of_unreachable (err : Err) :
    Skips (classifyGateCapability (.error (.hostUnreachable :: err))) := by
  simp only [Skips, classifyGateCapability, mem_cons, true_or, if_true]
  split
  · exact .inr (.inl rfl)
  · exact .inr (.inr rfl)

variable {err : PoolErr}

theorem not_mem_asIs {cause : Cause} (err : PoolErr) (hcause : ∀ inner, cause ≠ .pool inner) :
    cause ∉ asIs err := by
  intro h
  obtain ⟨inner, -, rfl⟩ := mem_map.mp h
  exact hcause inner rfl

theorem classifyCapabilityRead_of_transient (unavailable : Cause)
    (h : .linkReconnecting ∈ err ∨ .linkLimit ∈ err ∨ .dialFailed ∈ err ∨ .unsupportedProtocol ∈ err
      ∨ .linkClosed ∈ err) : classifyCapabilityRead err unavailable = unavailable :: asIs err := by
  unfold classifyCapabilityRead
  rcases h with h | h | h | h | h
  all_goals simp [h]

theorem acceptsThrough_skips (unavailable : Cause) (h : NotSent err) :
    Skips (classifyGateCapability (acceptsThrough unavailable (.error err))) := by
  unfold acceptsThrough
  dsimp only
  by_cases hbase : .noTenantEndpoint ∈ err
  · have hread : .pool .noTenantEndpoint ∈ classifyCapabilityRead err unavailable := by
      unfold classifyCapabilityRead
      split
      · exact mem_cons_of_mem _ (mem_map_of_mem hbase)
      · exact mem_map_of_mem hbase
    rw [if_pos hread]
    exact skips_of_unaddressable _
  · have htransient : classifyCapabilityRead err unavailable = unavailable :: asIs err := by
      refine classifyCapabilityRead_of_transient unavailable ?_
      rcases h with h | h | h | h | h | h
      · exact .inr (.inr (.inl h))
      · exact .inl h
      · exact .inr (.inl h)
      · exact .inr (.inr (.inr (.inl h)))
      · exact .inr (.inr (.inr (.inr h)))
      · exact absurd h hbase
    split
    · exact skips_of_unaddressable _
    · rw [if_pos (by rw [htransient]; exact mem_cons_self)]
      exact skips_of_unreachable _

theorem acceptsPayloadReferences_skips
    (h : .noTenantEndpoint ∈ err ∨ .linkReconnecting ∈ err ∨ .linkClosed ∈ err) :
    Skips (classifyGateCapability (acceptsPayloadReferences (.error err))) := by
  unfold acceptsPayloadReferences
  dsimp only
  split
  · exact skips_of_unaddressable _
  · rename_i hbase
    rw [if_pos (h.resolve_left hbase)]
    exact skips_of_unreachable _

theorem attachRefusal_asIs (cause : Cause) (err : PoolErr)
    (hcause : ∀ refusal, cause ≠ .attachRefusal refusal) :
    Err.attachRefusal (cause :: asIs err) = none := by
  unfold Err.attachRefusal
  rw [findSome?_eq_none_iff]
  intro c hc
  rcases mem_cons.mp hc with rfl | hc
  · split
    · exact absurd rfl (hcause _)
    · rfl
  · obtain ⟨d, -, rfl⟩ := mem_map.mp hc
    rfl

theorem attachAnswer_goesOn (h : AttachPassedOver (.error err)) :
    (attachAnswer (.error (classifyAttach err))).goesOn = true := by
  simp only [AttachPassedOver] at h
  unfold classifyAttach
  cases hrefusal : hostRefusal err with
  | some refusal =>
    rw [hrefusal] at h
    simp [attachAnswer, Err.attachRefusal, show refusal.code ≠ .epochMismatch from h, Answer.goesOn]
  | none =>
    rw [hrefusal] at h
    by_cases hbase : .noTenantEndpoint ∈ err
    · simp [hbase, attachAnswer, attachRefusal_asIs, not_mem_asIs, Answer.goesOn]
    by_cases hmethod : .unsupportedMethod ∈ err
    · simp [hbase, hmethod, attachAnswer, attachRefusal_asIs, Answer.goesOn]
    rw [if_neg hbase, if_neg hmethod]
    by_cases hsent : .dialFailed ∈ err ∨ .linkReconnecting ∈ err ∨ .linkLimit ∈ err ∨
        .unsupportedProtocol ∈ err ∨ .linkClosed ∈ err
    · rw [if_pos hsent]
      simp [attachAnswer, attachRefusal_asIs, not_mem_asIs, Answer.goesOn]
    · have hfailed : .hostFailed ∈ err := by
        rcases h with hnot | h | h
        · rcases hnot with h | h | h | h | h | h
          · exact absurd (.inl h) hsent
          · exact absurd (.inr (.inl h)) hsent
          · exact absurd (.inr (.inr (.inl h))) hsent
          · exact absurd (.inr (.inr (.inr (.inl h)))) hsent
          · exact absurd (.inr (.inr (.inr (.inr h)))) hsent
          · exact absurd h hbase
        · exact absurd h hmethod
        · exact h
      rw [if_neg hsent, if_pos hfailed]
      simp [attachAnswer, attachRefusal_asIs, not_mem_asIs, Answer.goesOn]

/-! ## One candidate -/

section Candidate

variable (cfg : ReconcilerConfig) (pool : PoolAnswers) (req : Request) (record : CatalogRecord)
  (round rank : Nat) (candidate : HostLinkCapacityReport)

/-- The placement over the pool. -/
def placing : Placing := ⟨cfg, placementLinks pool, req, record⟩

/-- How a candidate ends from one of its questions on. -/
def endsFrom (cs : List Capability) : Ended :=
  match ((placing cfg pool req record).filters round rank candidate cs blank).1 with
  | some ended => ended
  | none => ((placing cfg pool req record).attach round rank candidate blank).1

variable {c : Capability}

theorem endsFrom_unneeded (cs : List Capability) (h : req.requiring c = []) :
    endsFrom cfg pool req record round rank candidate (c :: cs) =
      endsFrom cfg pool req record round rank candidate cs := by
  unfold endsFrom
  rw [Placing.filters, if_pos (show (placing cfg pool req record).req.requiring c = [] from h)]

theorem endsFrom_needed (cs : List Capability) (h : req.requiring c ≠ []) :
    endsFrom cfg pool req record round rank candidate (c :: cs) =
      match classifyGateCapability ((placementLinks pool).accepts c round rank) with
      | .capable => endsFrom cfg pool req record round rank candidate cs
      | .abort err => .abort err
      | _ => .next := by
  unfold endsFrom
  rw [Placing.filters, if_neg (show ¬ (placing cfg pool req record).req.requiring c = [] from h)]
  rw [show (placing cfg pool req record).links = placementLinks pool from rfl]
  cases hv : classifyGateCapability ((placementLinks pool).accepts c round rank)
  · rw [((placing cfg pool req record).filters_alike round rank candidate cs _ blank).1]
  all_goals rfl

theorem endsFrom_nil (h : AttachPassedOver (pool.attach round rank)) :
    endsFrom cfg pool req record round rank candidate [] = .next := by
  change ((placing cfg pool req record).attach round rank candidate blank).1 = .next
  unfold Placing.attach
  rw [show (placing cfg pool req record).links.attach round rank =
    (pool.attach round rank).mapError classifyAttach from rfl]
  cases hanswer : pool.attach round rank with
  | ok observation =>
    rw [hanswer] at h
    exact absurd h id
  | error err =>
    rw [hanswer] at h
    have hgoes := attachAnswer_goesOn h
    dsimp only [Except.mapError]
    cases hanswer : attachAnswer (.error (classifyAttach err)) with
    | abort | accepted | stale =>
      rw [hanswer] at hgoes
      cases hgoes
    | _ => rfl

/-- A gate or principal question, passed over: it is answered and the next question counts, or
it lets the next candidate be asked. -/
theorem endsFrom_passedOver {cs : List Capability} (hsibling : c ≠ .payloadReferences)
    (h : PassedOver pool req round rank (c :: cs)) :
    ((req.requiring c ≠ [] → pool.accepts c round rank = .ok true) ∧
        PassedOver pool req round rank cs ∧
        endsFrom cfg pool req record round rank candidate (c :: cs) =
          endsFrom cfg pool req record round rank candidate cs) ∨
      (req.requiring c ≠ [] ∧ pool.accepts c round rank ≠ .ok true ∧
        endsFrom cfg pool req record round rank candidate (c :: cs) = .next) := by
  unfold PassedOver at h
  split at h
  · rename_i hunneeded
    exact .inl ⟨fun hc => absurd hunneeded hc, h,
      endsFrom_unneeded cfg pool req record round rank candidate cs hunneeded⟩
  · rename_i hneeded
    have hends := endsFrom_needed cfg pool req record round rank candidate cs hneeded
    split at h
    · rename_i hok
      have hlinks : (placementLinks pool).accepts c round rank = .ok true := by
        cases c <;> simp_all [placementLinks, HostLinks.accepts, PoolAnswers.accepts,
          acceptsGateResponses, acceptsCommandPrincipal, acceptsThrough]
      rw [hlinks] at hends
      exact .inl ⟨fun _ => hok, h, hends⟩
    · rename_i hno
      have hlinks : (placementLinks pool).accepts c round rank = .ok false := by
        cases c <;> simp_all [placementLinks, HostLinks.accepts, PoolAnswers.accepts,
          acceptsGateResponses, acceptsCommandPrincipal, acceptsThrough]
      rw [hlinks] at hends
      exact .inr ⟨hneeded, by rw [hno]; simp, hends⟩
    · rename_i err herr
      have hskips :
          Skips (classifyGateCapability ((placementLinks pool).accepts c round rank)) := by
        cases c with
        | payloadReferences => exact absurd rfl hsibling
        | gateResponses =>
          rw [show (placementLinks pool).accepts .gateResponses round rank =
            acceptsThrough .gateResponderUnavailable
              (pool.acceptsGateResponses round rank) from rfl,
            show pool.acceptsGateResponses round rank = .error err from herr]
          exact acceptsThrough_skips _ h
        | commandPrincipal =>
          rw [show (placementLinks pool).accepts .commandPrincipal round rank =
            acceptsThrough .principalResponderUnavailable
              (pool.acceptsCommandPrincipal round rank) from rfl,
            show pool.acceptsCommandPrincipal round rank = .error err from herr]
          exact acceptsThrough_skips _ h
      refine .inr ⟨hneeded, by rw [herr]; simp, ?_⟩
      rcases hskips with hv | hv | hv
      all_goals rw [hends, hv]

/-- The payload reference question, passed over: as its siblings, unless its error is left as it
is, which ends the placement. -/
theorem endsFrom_references {cs : List Capability}
    (h : PassedOver pool req round rank (.payloadReferences :: cs)) :
    ((req.payloadReferences ≠ [] → pool.acceptsPayloadReferences round rank = .ok true) ∧
        PassedOver pool req round rank cs ∧
        endsFrom cfg pool req record round rank candidate (.payloadReferences :: cs) =
          endsFrom cfg pool req record round rank candidate cs) ∨
      (endsFrom cfg pool req record round rank candidate (.payloadReferences :: cs) = .next ∧
        (pool.acceptsPayloadReferences round rank = .ok false ∨
          ∃ err, pool.acceptsPayloadReferences round rank = .error err ∧
            (.noTenantEndpoint ∈ err ∨ .linkReconnecting ∈ err ∨ .linkClosed ∈ err))) ∨
      (∃ err, req.payloadReferences ≠ [] ∧
        pool.acceptsPayloadReferences round rank = .error err ∧
        (.noTenantEndpoint ∉ err ∧ .linkReconnecting ∉ err ∧ .linkClosed ∉ err) ∧
        endsFrom cfg pool req record round rank candidate (.payloadReferences :: cs) =
          .abort (asIs err)) := by
  unfold PassedOver at h
  split at h
  · rename_i hunneeded
    exact .inl ⟨fun hc => absurd hunneeded hc, h,
      endsFrom_unneeded cfg pool req record round rank candidate cs hunneeded⟩
  · rename_i hneeded
    have hends := endsFrom_needed cfg pool req record round rank candidate cs hneeded
    rw [show (placementLinks pool).accepts .payloadReferences round rank =
      acceptsPayloadReferences (pool.acceptsPayloadReferences round rank) from rfl] at hends
    simp only [PoolAnswers.accepts] at h
    split at h
    · rename_i hok
      rw [hok] at hends
      exact .inl ⟨fun _ => hok, h, hends⟩
    · rename_i hno
      rw [hno] at hends
      exact .inr (.inl ⟨hends, .inl hno⟩)
    · rename_i err herr
      rw [herr] at hends
      by_cases hknown : .noTenantEndpoint ∈ err ∨ .linkReconnecting ∈ err ∨ .linkClosed ∈ err
      · refine .inr (.inl ⟨?_, .inr ⟨err, herr, hknown⟩⟩)
        rcases acceptsPayloadReferences_skips hknown with hv | hv | hv
        all_goals rw [hends, hv]
      · simp only [not_or] at hknown
        refine .inr (.inr ⟨err, hneeded, herr, hknown, ?_⟩)
        simp [hends, acceptsPayloadReferences, hknown, classifyGateCapability, not_mem_asIs]

/-- An admissible candidate that was passed over lets the next one be asked, unless its payload
reference question failed with an error the adapter leaves as it is. -/
theorem ends_next_iff (hadmissible : admissible candidate record = true)
    (h : PassedOver pool req round rank capabilities) :
    (placing cfg pool req record).ends round rank candidate = .next ↔
      ¬ ReferencesUnclassified pool req round rank := by
  have hends : (placing cfg pool req record).ends round rank candidate =
      endsFrom cfg pool req record round rank candidate capabilities := by
    unfold Placing.ends Placing.candidate endsFrom
    rw [if_pos (show admissible candidate (placing cfg pool req record).record = true from
      hadmissible)]
    rcases hf : (placing cfg pool req record).filters round rank candidate capabilities blank
      with ⟨_ | ended, t⟩
    · exact ((placing cfg pool req record).attach_alike round rank candidate t blank).1
    · rfl
  rw [hends]
  unfold capabilities at h ⊢
  rcases endsFrom_passedOver cfg pool req record round rank candidate (by simp) h with
    ⟨hgate, h, hends⟩ | ⟨hneeded, hgate, hends⟩
  · rw [hends]
    rcases endsFrom_references cfg pool req record round rank candidate h with
      ⟨hreferences, h, hends⟩ | ⟨hends, hanswer⟩ | ⟨err, hneeded, herr, hunknown, hends⟩
    · have hnext : endsFrom cfg pool req record round rank candidate [.commandPrincipal] =
          .next := by
        rcases endsFrom_passedOver cfg pool req record round rank candidate (by simp) h with
          ⟨-, h, hends⟩ | ⟨-, -, hends⟩
        · rw [hends]
          exact endsFrom_nil cfg pool req record round rank candidate h
        · exact hends
      rw [hends]
      refine iff_of_true hnext ?_
      rintro ⟨hneeded, -, err, herr, -⟩
      rw [hreferences hneeded] at herr
      cases herr
    · refine iff_of_true hends ?_
      rintro ⟨-, -, err, herr, hunknown⟩
      rcases hanswer with hno | ⟨err', herr', hknown⟩
      · cases hno.symm.trans herr
      · cases herr'.symm.trans herr
        rcases hknown with hknown | hknown | hknown
        · exact hunknown.1 hknown
        · exact hunknown.2.1 hknown
        · exact hunknown.2.2 hknown
    · refine iff_of_false (by rw [hends]; simp) (not_not_intro ?_)
      exact ⟨hneeded, hgate, err, herr, hunknown⟩
  · refine iff_of_true hends ?_
    rintro ⟨-, hok, -⟩
    exact hgate (hok hneeded)

theorem firstAsk_mem (hadmissible : admissible candidate record = true) :
    firstAsk cfg req record round rank candidate ∈
      (placing cfg pool req record).asks round rank candidate := by
  unfold Placing.asks Placing.candidate firstAsk
  rw [if_pos (show admissible candidate (placing cfg pool req record).record = true from
    hadmissible)]
  cases hfirst : capabilities.find? (fun capability => req.requiring capability ≠ []) with
  | some capability =>
    have hmem := (placing cfg pool req record).first_mem_filters round rank candidate hfirst blank
    rcases hf : (placing cfg pool req record).filters round rank candidate capabilities blank
      with ⟨_ | ended, t⟩
    · rw [hf] at hmem
      obtain ⟨-, calls, hlog, -⟩ :=
        (placing cfg pool req record).attach_alike round rank candidate t blank
      rw [hlog]
      exact mem_append_left _ hmem
    · rw [hf] at hmem
      exact hmem
  | none =>
    have hunneeded : ∀ c ∈ capabilities, req.requiring c = [] := by
      intro c hc
      simpa using find?_eq_none.mp hfirst c hc
    rw [(placing cfg pool req record).filters_of_unneeded hunneeded blank]
    exact (placing cfg pool req record).attach_mem_attach blank

end Candidate

/-! ## The placement -/

/-- **A candidate that could not be asked blocks placement for one reason only.** In every run of
`placePooled` over the pool and every round of it that reads a page: when every admissible
candidate ranked before an admissible one is passed over, that one is asked exactly if none of
them failed its payload reference question with an error the adapter leaves unclassified. -/
theorem candidate_asked_iff (cfg : ReconcilerConfig) (pool : PoolAnswers) (seams : Seams)
    (req : Request) (writes round rank : Nat) (record : CatalogRecord)
    (hosts : List HostLinkCapacityReport) (candidate : HostLinkCapacityReport)
    (hrecord : seams.getCatalogEntry = .ok record)
    (hpage : seams.candidates round = .ok hosts)
    (hread : ∃ c ∈ (placePooled cfg (placementLinks pool) seams req writes).tried.log,
      Placing.page c = some round)
    (hcandidate : hosts[rank]? = some candidate)
    (hadmissible : admissible candidate record = true)
    (hbefore : ∀ k < rank, ∀ earlier, hosts[k]? = some earlier →
      admissible earlier record = true → PassedOver pool req round k capabilities) :
    firstAsk cfg req record round rank candidate ∈
        (placePooled cfg (placementLinks pool) seams req writes).tried.log ↔
      ∀ k < rank, ∀ earlier, hosts[k]? = some earlier → admissible earlier record = true →
        ¬ ReferencesUnclassified pool req round k := by
  have hmem := firstAsk_mem cfg pool req record round rank candidate hadmissible
  have hplace := Placing.place_of_mem_asks _ hmem
  rw [mem_placePooled hrecord hpage hread hplace]
  constructor
  · rintro ⟨k, host, hk, hnext, hasked⟩ j hj earlier hearlier hadm
    have hplace' := Placing.place_of_mem_asks _ hasked
    rw [hplace] at hplace'
    simp only [Nat.zero_add, Option.some.injEq, Prod.mk.injEq, true_and] at hplace'
    subst hplace'
    have := hnext j hj earlier hearlier
    rw [Nat.zero_add] at this
    exact (ends_next_iff cfg pool req record round j earlier hadm
      (hbefore j hj earlier hearlier hadm)).mp this
  · intro hclassified
    refine ⟨rank, candidate, hcandidate, ?_, ?_⟩
    · intro k hk earlier hearlier
      rw [Nat.zero_add]
      by_cases hadm : admissible earlier record = true
      · exact (ends_next_iff cfg pool req record round k earlier hadm
          (hbefore k hk earlier hearlier hadm)).mpr (hclassified k hk earlier hearlier hadm)
      · unfold Placing.ends Placing.candidate
        rw [if_neg hadm]
    · rw [Nat.zero_add]
      exact hmem

/-! A page of two Hosts for a session whose pending input is stored by reference. -/

def plainConfig : ReconcilerConfig :=
  { actorID := "factory", candidateLimit := 8, replaceAttempts := 0, replaceBackoff := 0
    currentWireVersion := 1, sha256 := fun _ => "key", actorID_ne := by decide
    replaceAttempts_le := by decide, replaceBackoff_le := by decide }

def plainRecord : CatalogRecord :=
  { tenant := "t", session := "s", agent := "a", runtimeCompatibility := "r"
    desiredPlacement := .pooled }

def plainHost (host : HostID) : HostLinkCapacityReport :=
  { host := host, hostGeneration := 1, internalEndpoint := host, agent := "a"
    runtimeCompatibility := "r", placement := .pooled, crossTenantIsolated := true
    accepting := true, availableCapacity := 1 }

def plainSeams : Seams :=
  { getCatalogEntry := .ok plainRecord, wait := fun _ => none, owner := fun _ => .ok none
    now := fun _ => 0, candidates := fun _ => .ok [plainHost "h1", plainHost "h2"] }

def referencedRequest : Request :=
  { key := ⟨"t", "s"⟩, wake := ["c"], gateResponses := [], payloadReferences := ["c"]
    principalCommands := [], restoreRequested := false }

/-- The first Host's payload reference question fails with `err`; everything else succeeds. -/
def firstUnasked (err : PoolErr) : PoolAnswers :=
  { acceptsGateResponses := fun _ _ => .ok true
    acceptsPayloadReferences := fun _ rank => if rank = 0 then .error err else .ok true
    acceptsCommandPrincipal := fun _ _ => .ok true
    attach := fun _ _ => .ok { tenant := "t", session := "s", host := "h2", hostGeneration := 1
                               leaseEpoch := 1 } }

/-- The link to the first Host is reconnecting: the second is asked. -/
theorem candidate_asked_past_reconnecting :
    firstAsk plainConfig referencedRequest plainRecord 0 1 (plainHost "h2") ∈
      (placePooled plainConfig (placementLinks (firstUnasked [.linkReconnecting])) plainSeams
        referencedRequest 0).tried.log := by
  refine (candidate_asked_iff plainConfig (firstUnasked [.linkReconnecting]) plainSeams
    referencedRequest 0 0 1 plainRecord _ (plainHost "h2") rfl rfl
    ⟨.candidates 0 "a" "r" .pooled 8, by decide, rfl⟩ rfl (by decide) ?_).mpr ?_
  · intro k hk earlier hearlier hadm
    obtain rfl : k = 0 := by omega
    simp [PassedOver, capabilities, Request.requiring, referencedRequest, PoolAnswers.accepts,
      firstUnasked, NotSent]
  · rintro k hk earlier hearlier hadm ⟨-, -, err, herr, -, hreconnecting, -⟩
    obtain rfl : k = 0 := by omega
    cases herr
    simp at hreconnecting

/-- The dial of the first Host failed, so nothing reached it, and the second is not asked. -/
theorem candidate_unasked_past_failed_dial :
    (∃ c ∈ (placePooled plainConfig (placementLinks (firstUnasked [.dialFailed])) plainSeams
        referencedRequest 0).tried.log, Placing.page c = some 0) ∧
      PassedOver (firstUnasked [.dialFailed]) referencedRequest 0 0 capabilities ∧
      admissible (plainHost "h2") plainRecord = true ∧
      firstAsk plainConfig referencedRequest plainRecord 0 1 (plainHost "h2") ∉
        (placePooled plainConfig (placementLinks (firstUnasked [.dialFailed])) plainSeams
          referencedRequest 0).tried.log := by
  refine ⟨⟨.candidates 0 "a" "r" .pooled 8, by decide, rfl⟩, ?_, by decide, by decide⟩
  simp [PassedOver, capabilities, Request.requiring, referencedRequest, PoolAnswers.accepts,
    firstUnasked, NotSent]

end Factory.Compose
