import Factory.Admission.GateResponse

/-!
# The gates read and the gate write

Model of `overlayAnswerability` of `internal/httpapi/sessions.go` with the admission service's
`GateResponsesAnswerable` behind it. A page holds its gates in a slice, and a slice is an array in
memory that others may hold too: here the arrays are listed (`GateMemory`) and a page names one, so
that it can be said of the array the page was given with that nothing is written to it.

The write decides in another package, from the catalog record (`gateAdmission`) and from the owner
(`gateOwnerAnswers`). The read shows a gate resident exactly when that decision lets a response to
it pass (`overlay_agrees_with_write`). A response states the version of the gate it answers; to a
gate with neither an opened event nor an opened sequence there is no such response.
-/

namespace Factory.Httpapi

open List Dialogue Admission

inductive GateAnswerability where
  | resident
  | unavailable
  | other (value : String)
deriving DecidableEq

/-- `sessionwire.GateProjection` of a page; `content` is the members that nothing here reads. -/
structure PageGate where
  gateID : String
  deadline : Int
  openedEventID : String
  openedJournalSeq : Nat
  answerability : GateAnswerability
  content : Bytes := []
deriving DecidableEq

/-- The gate as admission reads it of the catalog record. -/
def PageGate.projection (gate : PageGate) : GateProjection where
  gateID := gate.gateID
  deadline := gate.deadline
  openedEventID := gate.openedEventID
  openedJournalSeq := gate.openedJournalSeq
  resident := gate.answerability = .resident

/-- The arrays of gates, by address. -/
abbrev GateMemory := List (List PageGate)

/-- `sessionwire.GatePage`: the address of its gates, and its other members. -/
structure GatePage where
  gates : Nat
  content : Bytes := []
deriving DecidableEq

def GateMemory.gates (memory : GateMemory) (page : GatePage) : List PageGate :=
  memory.getD page.gates []

/-! ## The overlay -/

def gateResponsesAnswerable (cfg : ServiceConfig) (tenant : TenantID) (record : SessionRecord) :
    Dialogue ServiceAsk.Answer (Except AdmitError Bool) := do
  let now ← query .now
  match ← (gateOwnerAnswers cfg ⟨tenant, record.session⟩ record now).run with
  | .ok _ => pure (.ok true)
  | .error (.refusal _ _) => pure (.ok false)
  | .error err => pure (.error err)

/-- The body of the loop over the copied gates. -/
def withdraw (gate : PageGate) : PageGate :=
  if gate.answerability = .resident then { gate with answerability := .unavailable } else gate

/-- `overlayAnswerability`; `gateOwners` is the service it is composed with. -/
def overlayAnswerability (gateOwners : Option ServiceConfig) (tenant : TenantID)
    (record : SessionRecord) (memory : GateMemory) (page : GatePage) :
    Dialogue ServiceAsk.Answer (GateMemory × GatePage) :=
  match gateOwners with
  | none => pure (memory, page)
  | some cfg =>
    if (memory.gates page).any (·.answerability = .resident) then do
      match ← gateResponsesAnswerable cfg tenant record with
      | .ok true => pure (memory, page)
      | _ =>
        -- the copy is a new array, and the loop writes to that one
        let copied := memory ++ [memory.gates page]
        pure (copied.modify memory.length (·.map withdraw), { page with gates := memory.length })
    else pure (memory, page)

/-! ## What the two sides decide -/

section Decisions

variable {seams : (q : ServiceAsk) → q.Answer} {cfg : ServiceConfig} {tenant : TenantID}
  {record : SessionRecord}

/-- The response passes the write's owner check. -/
def OwnerPasses (seams : (q : ServiceAsk) → q.Answer) (cfg : ServiceConfig) (tenant : TenantID)
    (record : SessionRecord) : Prop :=
  (gateOwnerAnswers cfg ⟨tenant, record.session⟩ record (seams .now)).run.eval seams = .ok ()

theorem gateResponsesAnswerable_eq_ok_true :
    (gateResponsesAnswerable cfg tenant record).eval seams = .ok true ↔
      OwnerPasses seams cfg tenant record := by
  unfold gateResponsesAnswerable OwnerPasses
  have hnow : eval seams (query ServiceAsk.now) = seams .now := rfl
  rw [eval_bind, eval_bind, hnow]
  cases (gateOwnerAnswers cfg ⟨tenant, record.session⟩ record (seams .now)).run.eval seams with
  | ok u => exact ⟨fun _ => rfl, fun _ => rfl⟩
  | error err =>
    cases err <;> exact ⟨nofun, nofun⟩

theorem find_gateID {gates : List GateProjection} {gate : GateProjection}
    (hdistinct : (gates.map (·.gateID)).Nodup) (hgate : gate ∈ gates) :
    gates.find? (·.gateID = gate.gateID) = some gate := by
  induction gates with
  | nil => cases hgate
  | cons head rest ih =>
    rw [map_cons, nodup_cons] at hdistinct
    rcases mem_cons.mp hgate with rfl | hrest
    · exact find?_cons_of_pos (by simp)
    · have hother : head.gateID ≠ gate.gateID := fun heq =>
        hdistinct.1 (heq ▸ mem_map_of_mem hrest)
      rw [find?_cons_of_neg (by simpa using hother)]
      exact ih hdistinct.2 hrest

/-- Before its deadline, a listed gate is refused to a response of its version only when it is not
stored resident. -/
theorem gateAdmission_iff_resident {gates : List GateProjection} {gate : GateProjection}
    {request : GateResponseRequest} {now : Int} (hdistinct : (gates.map (·.gateID)).Nodup)
    (hgate : gate ∈ gates) (hnamed : request.gateID = gate.gateID)
    (hversion : gate.OpenedAs request) (hopen : now < gate.deadline) :
    gateAdmission gates request now = none ↔ gate.resident = true := by
  unfold GateProjection.OpenedAs at hversion
  unfold gateAdmission
  rw [hnamed, find_gateID hdistinct hgate]
  dsimp only
  rw [if_neg (not_not.mpr hopen), if_neg (not_not.mpr hversion)]
  split
  · next hresident => exact ⟨nofun, fun h => absurd h hresident⟩
  · next hresident => exact ⟨fun _ => not_not.mp hresident, fun _ => rfl⟩

end Decisions

/-! ## The shown page -/

section Shown

variable {seams : (q : ServiceAsk) → q.Answer} {cfg : ServiceConfig} {tenant : TenantID}
  {record : SessionRecord} {memory : GateMemory} {page : GatePage}

theorem withdraw_not_resident (gate : PageGate) : (withdraw gate).answerability ≠ .resident := by
  unfold withdraw
  split
  · nofun
  · next h => exact h

/-- The page is shown as it is, or with every resident gate of a copy withdrawn; the second happens
exactly when some gate is stored resident and the owner does not pass. -/
theorem overlay_cases (seams : (q : ServiceAsk) → q.Answer) (cfg : ServiceConfig)
    (tenant : TenantID) (record : SessionRecord) (memory : GateMemory) (page : GatePage) :
    ((overlayAnswerability (some cfg) tenant record memory page).eval seams = (memory, page) ∧
      ((∃ gate ∈ memory.gates page, gate.answerability = .resident) →
        OwnerPasses seams cfg tenant record)) ∨
    ((overlayAnswerability (some cfg) tenant record memory page).eval seams =
        (memory ++ [(memory.gates page).map withdraw], { page with gates := memory.length }) ∧
      ¬OwnerPasses seams cfg tenant record) := by
  unfold overlayAnswerability
  dsimp only
  split
  · rw [eval_bind]
    by_cases hpasses : OwnerPasses seams cfg tenant record
    · rw [gateResponsesAnswerable_eq_ok_true.mpr hpasses]
      exact .inl ⟨rfl, fun _ => hpasses⟩
    · refine .inr ⟨?_, hpasses⟩
      have hanswer := mt gateResponsesAnswerable_eq_ok_true.mp hpasses
      split
      · next h => exact absurd h hanswer
      · change ((memory ++ [memory.gates page]).modify memory.length (·.map withdraw),
          ({ page with gates := memory.length } : GatePage)) = _
        simp [modify_eq_take_cons_drop]
  · next hnone =>
    refine .inl ⟨rfl, fun ⟨gate, hgate, hresident⟩ => absurd ?_ hnone⟩
    exact any_eq_true.mpr ⟨gate, hgate, decide_eq_true hresident⟩

theorem overlay_shown (seams : (q : ServiceAsk) → q.Answer) (cfg : ServiceConfig)
    (tenant : TenantID) (record : SessionRecord) (memory : GateMemory) (page : GatePage) :
    ∃ memory' page' f,
      (overlayAnswerability (some cfg) tenant record memory page).eval seams = (memory', page') ∧
      (∀ address < memory.length, memory'[address]? = memory[address]?) ∧
      page'.content = page.content ∧
      memory'.gates page' = (memory.gates page).map f ∧
      (∀ gate, f gate = gate ∨ f gate = withdraw gate) ∧
      ∀ gate ∈ memory.gates page,
        ((f gate).answerability = .resident ↔
          gate.answerability = .resident ∧ OwnerPasses seams cfg tenant record) := by
  rcases overlay_cases seams cfg tenant record memory page with ⟨heq, hpasses⟩ | ⟨heq, hfails⟩
  · refine ⟨memory, page, id, heq, fun _ _ => rfl, rfl, by simp, fun gate => .inl rfl, ?_⟩
    intro gate hgate
    exact ⟨fun h => ⟨h, hpasses ⟨gate, hgate, h⟩⟩, fun h => h.1⟩
  · refine ⟨_, _, withdraw, heq, ?_, rfl, ?_, fun gate => .inr rfl, ?_⟩
    · intro address haddress
      exact getElem?_append_left haddress
    · simp [GateMemory.gates]
    · intro gate _
      exact ⟨fun h => absurd h (withdraw_not_resident gate), fun h => absurd h.2 hfails⟩

/-- The gates read and the gate write agree: a gate is shown resident exactly when a response of its
version, before its deadline, passes the checks of the write. A gate not stored resident is shown as
it is stored, and of the others at most the answerability changes; the arrays that the page and
others hold stay as they are. -/
theorem overlay_agrees_with_write (seams : (q : ServiceAsk) → q.Answer) (cfg : ServiceConfig)
    (tenant : TenantID) (record : SessionRecord) (memory : GateMemory) (page : GatePage)
    (hopen : (memory.gates page).map PageGate.projection = record.openGates)
    (hdistinct : (record.openGates.map (·.gateID)).Nodup) :
    ∃ memory' page',
      (overlayAnswerability (some cfg) tenant record memory page).eval seams = (memory', page') ∧
      (∀ address < memory.length, memory'[address]? = memory[address]?) ∧
      page'.content = page.content ∧
      (memory'.gates page').length = (memory.gates page).length ∧
      ∀ (i : Nat) (gate : PageGate), (memory.gates page)[i]? = some gate →
        ∃ shown : PageGate, (memory'.gates page')[i]? = some shown ∧
          shown = { gate with answerability := shown.answerability } ∧
          (gate.answerability ≠ .resident → shown = gate) ∧
          ∀ request : GateResponseRequest, request.session = record.session →
            request.gateID = gate.gateID → gate.projection.OpenedAs request →
            seams .now < gate.deadline →
            (shown.answerability = .resident ↔
              gateAdmission record.openGates request (seams .now) = none ∧
              (gateOwnerAnswers cfg ⟨tenant, request.session⟩ record
                (seams .now)).run.eval seams = .ok ()) := by
  obtain ⟨memory', page', f, heq, hkept, hcontent, hgates, hf, hshown⟩ :=
    overlay_shown seams cfg tenant record memory page
  refine ⟨memory', page', heq, hkept, hcontent, by rw [hgates, length_map], ?_⟩
  intro i gate hi
  have hgate : gate ∈ memory.gates page := mem_of_getElem? hi
  have hlisted : gate.projection ∈ record.openGates := hopen ▸ mem_map_of_mem hgate
  refine ⟨f gate, ?_, ?_, ?_, ?_⟩
  · rw [hgates, getElem?_map, hi, Option.map_some]
  · rcases hf gate with hsame | hwithdrawn
    · rw [hsame]
    · rw [hwithdrawn, withdraw]
      split <;> rfl
  · intro hstored
    rcases hf gate with hsame | hwithdrawn
    · exact hsame
    · rw [hwithdrawn, withdraw, if_neg hstored]
  · intro request hsession hnamed hversion hdeadline
    rw [hsession, gateAdmission_iff_resident hdistinct hlisted hnamed hversion hdeadline]
    exact (hshown gate hgate).trans (and_congr_left fun _ => decide_eq_true_iff.symm)

/-- A session with a fresh owner that applies gate responses, and with one resident gate. -/
def residentGate : PageGate := ⟨"gate", 10, "opened", 3, .resident, []⟩

def residentRecord : SessionRecord where
  tenant := "tenant"
  session := "session"
  agent := "agent"
  runtimeCompatibility := "v1"
  desiredPlacement := .pooled
  openGates := [residentGate.projection]
  binding := ⟨"store", "v1", "runtime", .disposition⟩

def affirmingSeams : (q : ServiceAsk) → q.Answer
  | .beginAdmission => true
  | .authorizeControl _ _ _ => .ok ()
  | .resolveAgent _ => .ok none
  | .isKnown _ => .ok true
  | .getCatalogEntry _ => .ok residentRecord
  | .getDispositionCommand _ => .error {}
  | .newUUID => .ok "runtime"
  | .now => 5
  | .putCommandPayload _ => .error {}
  | .admitDispositionCommand _ => .error {}
  | .owner _ => .ok (some
      { tenant := "tenant", session := "session", host := "host", hostGeneration := 1
        leaseEpoch := 1, agent := "agent", runtimeCompatibility := "v1", placement := .pooled
        resident := true, accepting := true, expiresAt := 9 })
  | .acceptsGateResponses _ => .ok true
  | .acceptsCommandPrincipal _ => .ok true
  | .preparePublicCreate _ => .error {}
  | .admitPublicCreate _ => .error {}
  | .onAdmitted _ => ()

theorem overlay_shows_resident :
    ∃ memory' page' shown,
      (overlayAnswerability (some {}) "tenant" residentRecord [[residentGate]] ⟨0, []⟩).eval
        affirmingSeams = (memory', page') ∧
      (GateMemory.gates memory' page')[0]? = some shown ∧ shown.answerability = .resident := by
  obtain ⟨memory', page', heq, -, -, -, hshown⟩ := overlay_agrees_with_write affirmingSeams {}
    "tenant" residentRecord [[residentGate]] ⟨0, []⟩ rfl (by decide)
  obtain ⟨shown, hi, -, -, hiff⟩ := hshown 0 residentGate rfl
  refine ⟨memory', page', shown, heq, hi, ?_⟩
  refine (hiff
    { session := "session", command := "command", gateID := "gate", expectedOpenJournalSeq := 3 }
    rfl rfl (.inr ⟨by decide, rfl⟩) (by decide)).mpr ⟨by decide, ?_⟩
  rfl

end Shown

end Factory.Httpapi
