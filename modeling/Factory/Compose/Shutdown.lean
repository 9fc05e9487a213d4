import Factory.Compose.ServerRule

/-!
# Quiescing, stopping and serving

What the calls of a Server may take for granted once another one has returned, whatever the order
in which any number of calls are started, answered and left waiting. A second `Stop` after one that
gave up on a loop finds the Server stopped, and returns nil at once (`stop_nil_while_running`).
After a `Start` that failed, `Serve` takes `ErrAlreadyStarted` for success
(`serve_after_failed_start`).
-/

namespace Factory.Compose

open List Dialogue Threads

/-! ## From one state to a later one -/

variable {cfg : ServerConfig} {σ τ : ServerRun} {acts : List ServerAct} {act : ServerAct}

/-- What is known of a state that a run can reach. -/
def ServerReached (cfg : ServerConfig) (σ : ServerRun) : Prop :=
  ServerStanding cfg σ ∧ σ.Counted serverSections

theorem ServerReached.step (h : ServerReached cfg σ)
    (hstep : (serverSystem cfg).step σ act = some τ) :
    ServerReached cfg τ ∧ σ.world.Later τ.world := by
  refine ⟨(serverSystem_rule cfg).step hstep h, ?_⟩
  obtain ⟨hstanding, hcounted⟩ := h
  rcases System.step_cases hstep with ⟨e, w, -, hevent, rfl⟩ | ⟨x, -, -, rfl⟩ |
    ⟨i, c, t, q, k, a, w, -, ht, hrest, hanswer, rfl⟩
  · exact (hstanding.world.event hevent).later
  · exact .refl _
  · have hmem := mem_of_getElem? ht
    have hknown := hstanding.threads t hmem
    exact (answered hstanding.world hknown.asked (agrees_of_rosters (hcounted.roster hmem))
      ((serverSystem_rule cfg).question hknown hrest) hanswer).keeps.later

theorem ServerReached.exec (h : ServerReached cfg σ)
    (hrun : Runs.exec (serverSystem cfg).step σ acts = some τ) :
    ServerReached cfg τ ∧ σ.world.Later τ.world := by
  refine Runs.exec_invariant (I := fun ρ => ServerReached cfg ρ ∧ σ.world.Later ρ.world) ?_ hrun
    ⟨h, .refl _⟩
  intro ρ act ρ' hstep ⟨hρ, hlater⟩
  obtain ⟨hρ', hstep'⟩ := hρ.step hstep
  exact ⟨hρ', hlater.trans hstep'⟩

variable {q : ServerAsk}

theorem ServerReached.question (h : ServerReached cfg σ) {i : Nat} (hq : σ.question i = some q) :
    ∃ past, Allowed past q ∧ (∀ e ∈ past, σ.world.Known e) ∧ Agrees σ.world past := by
  obtain ⟨t, k, ht, hrest⟩ := State.question_eq_some hq
  have hmem := mem_of_getElem? ht
  have hknown := h.1.threads t hmem
  exact ⟨t.asked, (serverSystem_rule cfg).question hknown hrest, hknown.asked,
    agrees_of_rosters (h.2.roster hmem)⟩

/-! ## The fence -/

/-- A call between `beginAdmission` and its end. -/
def Admitting (t : Thread ServerAsk.Answer ServerCall (List ServerError)) : Prop :=
  Section.admitting.phase t.asked = some .entered

/-- From `σ` to `τ` no admission has begun. -/
def BeginsNone (σ τ : ServerRun) : Prop :=
  σ.NewAnswers (fun e => e ≠ ⟨.beginAdmission, true⟩) τ

variable {w : ServerWorld}

theorem beginAdmission_fenced {v : ServerWorld} {choice : ServerChoice} {a : q.Answer}
    (hgate : w.gateClosed = true) (h : w.answer choice q = some (a, v)) :
    (⟨q, a⟩ : Sigma ServerAsk.Answer) ≠ ⟨.beginAdmission, true⟩ := by
  rintro ⟨⟩
  have hpair : w.beginAdmission = (true, v) := Option.some.inj h
  rw [ServerWorld.beginAdmission, if_pos hgate] at hpair
  cases hpair

theorem ServerReached.begins_none (h : ServerReached cfg σ) (hgate : σ.world.gateClosed = true)
    (hrun : Runs.exec (serverSystem cfg).step σ acts = some τ) : BeginsNone σ τ := by
  refine System.new_answers
    (J := fun ρ => ServerReached cfg ρ ∧ ρ.world.gateClosed = true) ?_ ?_ hrun ⟨h, hgate⟩
  · intro ρ act ρ' hstep ⟨hρ, hclosed⟩
    obtain ⟨hρ', hlater⟩ := hρ.step hstep
    exact ⟨hρ', hlater.gate hclosed⟩
  · intro ρ x c q a v ⟨_, hclosed⟩ hanswer
    exact beginAdmission_fenced hclosed hanswer

theorem ServerReached.active_eq_zero (h : ServerReached cfg σ) :
    σ.world.active = 0 ↔ ∀ t ∈ σ.threads, ¬Admitting t := by
  have hcount := h.2 .admitting
  change (σ.threads.filterMap fun t => Section.admitting.phase t.asked).Perm
    (List.replicate σ.world.active Held.entered) at hcount
  constructor
  · intro hzero t ht hadmitting
    rw [hzero] at hcount
    have hnone := filterMap_eq_nil_iff.mp hcount.eq_nil t ht
    cases hadmitting.symm.trans hnone
  · intro hnone
    by_contra hactive
    have hmem : Held.entered ∈ List.replicate σ.world.active Held.entered :=
      mem_replicate.mpr ⟨hactive, rfl⟩
    obtain ⟨t, ht, hphase⟩ := mem_filterMap.mp (hcount.symm.subset hmem)
    exact hnone t ht hphase

theorem ServerWorld.Sound.drained_iff (h : w.Sound) :
    w.drainedCloses ≤ 1 ∧ (w.drained = .closed ↔ w.drainedCloses = 1) ∧
      (w.drainedCloses = 1 ↔ w.gateClosed = true ∧ w.active = 0) := by
  cases hgate : w.gateClosed with
  | false =>
    obtain ⟨hdrained, hcloses⟩ := h.unfenced hgate
    rw [hdrained, hcloses]
    simp
  | true =>
    by_cases hactive : w.active = 0
    · obtain ⟨hdrained, hcloses⟩ := h.idle hgate hactive
      rw [hdrained, hcloses]
      simp [hactive]
    · obtain ⟨hdrained, hcloses⟩ := h.busy hgate hactive
      rw [hdrained, hcloses]
      simp [hactive]

theorem ended_of_begun {log : List (Sigma ServerAsk.Answer)}
    (hbegun : ⟨.beginAdmission, true⟩ ∈ log)
    (hphase : Section.admitting.phase log ≠ some .entered) : ⟨.endAdmission, ()⟩ ∈ log := by
  by_contra hnot
  -- Once the call has begun, only the end takes it out.
  have hkept : ∀ (rest : List (Sigma ServerAsk.Answer)), ⟨.endAdmission, ()⟩ ∉ rest →
      rest.foldl Section.admitting.next (some .entered) = some .entered := by
    intro rest hrest
    induction rest with
    | nil => rfl
    | cons e rest ih =>
      rw [mem_cons, not_or] at hrest
      have hnext : Section.admitting.next (some .entered) e = some .entered := by
        obtain ⟨q, a⟩ := e
        cases q with
        | endAdmission => exact absurd rfl hrest.1
        | beginAdmission => cases a <;> rfl
        | _ => rfl
      rw [foldl_cons, hnext]
      exact ih hrest.2
  obtain ⟨front, back, rfl⟩ := append_of_mem hbegun
  apply hphase
  rw [Section.phase, foldl_append, foldl_cons]
  refine hkept back fun hback => hnot ?_
  exact mem_append_right _ (mem_cons_of_mem _ hback)

theorem ServerReached.quiesced (h : ServerReached cfg σ)
    {t : Thread ServerAsk.Answer ServerCall (List ServerError)} (ht : t ∈ σ.threads)
    (hinput : t.input = .quiesce) (hreturned : t.returned = some []) :
    σ.world.quiesceDone = .closed := by
  have hknown := h.1.threads t ht
  have hsteps : Steps (t.input.program cfg) t.asked t.rest := hknown.steps
  rw [hinput] at hsteps
  rcases (quiesce_returns (t.returns_of_returned hsteps hreturned) rfl).1 with hpolled | hwoken
  · exact hknown.asked _ hpolled rfl
  · exact hknown.asked _ hwoken rfl

theorem realtime_of_unreachable (h : w.Unreachable) :
    w.realtimeHandler = false ∧ w.clientLink = false := by
  refine ⟨if_pos h, ?_⟩
  unfold ServerWorld.clientLink
  rcases h with hnode | hdone
  · rw [hnode, ite_self]
  · exact if_pos hdone

theorem ServerReached.closed (h : ServerReached cfg σ)
    (hclosed : σ.world.quiesceDone = .closed) :
    (∀ t ∈ σ.threads, ¬Admitting t) ∧ σ.world.gateClosed = true ∧
      σ.world.realtimeHandler = false ∧ σ.world.clientLink = false ∧
      ∀ i, σ.question i ≠ some .publishRealtime := by
  have hsound := h.1.world
  obtain ⟨hfinished, hnode, hdrained⟩ := hsound.quiesced hclosed
  obtain ⟨-, hcloses, hidle⟩ := hsound.drained_iff
  obtain ⟨hgate, hactive⟩ := hidle.mp (hcloses.mp hdrained)
  refine ⟨h.active_eq_zero.mp hactive, hgate, (realtime_of_unreachable hnode).1,
    (realtime_of_unreachable hnode).2, fun i hi => ?_⟩
  obtain ⟨past, hallowed, -, hagrees⟩ := h.question hi
  exact hsound.fencedLock (.inr hfinished) (hagrees.lifecycle _ hallowed)

/-- The admission fence is exact, and a quiesce closes the door for good.

In every state reached: once the fence has been set by some call, no admission begins in any
continuation; `drained` is closed at most once, and it is closed exactly if the fence is set and no
admission is under way. Once a `Quiesce` has returned nil, then in every continuation every
admission that ever began is over, none has begun since, neither `realtimeHandler` nor `clientLink`
answers a node, and no `Start` is about to publish one. -/
theorem quiesce_closes {cfg : ServerConfig} {acts : List ServerAct} {σ : ServerRun}
    (hrun : Runs.exec (serverSystem cfg).step { world := {} } acts = some σ) :
    (∀ t ∈ σ.threads, ⟨.fence, ()⟩ ∈ t.asked → ∀ more τ,
      Runs.exec (serverSystem cfg).step σ more = some τ → BeginsNone σ τ) ∧
    σ.world.drainedCloses ≤ 1 ∧
    (σ.world.drained = .closed ↔ σ.world.drainedCloses = 1) ∧
    (σ.world.drainedCloses = 1 ↔ σ.world.gateClosed = true ∧ ∀ t ∈ σ.threads, ¬Admitting t) ∧
    ∀ t ∈ σ.threads, t.input = .quiesce → t.returned = some [] → ∀ more τ,
      Runs.exec (serverSystem cfg).step σ more = some τ →
        (∀ u ∈ τ.threads, ⟨.beginAdmission, true⟩ ∈ u.asked → ⟨.endAdmission, ()⟩ ∈ u.asked) ∧
        BeginsNone σ τ ∧ τ.world.realtimeHandler = false ∧ τ.world.clientLink = false ∧
        ∀ i, τ.question i ≠ some .publishRealtime := by
  have hσ : ServerReached cfg σ := server_standing hrun
  obtain ⟨honce, hclosed, hidle⟩ := hσ.1.world.drained_iff
  refine ⟨?_, honce, hclosed, ?_, ?_⟩
  · intro t ht hfence more τ hmore
    exact hσ.begins_none ((hσ.1.threads t ht).asked _ hfence) hmore
  · rw [hidle, hσ.active_eq_zero]
  · intro t ht hinput hreturned more τ hmore
    have hquiesced := hσ.quiesced ht hinput hreturned
    obtain ⟨hτ, hlater⟩ := hσ.exec hmore
    obtain ⟨hnone, -, hhandler, hlink, hpublish⟩ := hτ.closed (hlater.quiesced hquiesced)
    exact ⟨fun u hu hbegun => ended_of_begun hbegun (hnone u hu),
      hσ.begins_none (hσ.closed hquiesced).2.1 hmore, hhandler, hlink, hpublish⟩

/-- `n` answers to a call, without an error and without a context that ends. -/
def answers (i n : Nat) : List ServerAct := List.replicate n (.answer i {})

/-- What can be compared of a call. -/
def callAt (σ : ServerRun) (i : Nat) : Option (ServerCall × Option (List ServerError)) :=
  σ.threads[i]?.map fun t => (t.input, t.returned)

theorem mem_of_callAt {σ : ServerRun} {i : Nat} {call : ServerCall}
    {returned : Option (List ServerError)} (h : callAt σ i = some (call, returned)) :
    ∃ t ∈ σ.threads, t.input = call ∧ t.returned = returned := by
  obtain ⟨t, ht, hpair⟩ := Option.map_eq_some_iff.mp h
  exact ⟨t, mem_of_getElem? ht, congrArg Prod.fst hpair, congrArg Prod.snd hpair⟩

/-- A Server is started, and is quiesced while an admission is under way: the quiesce waits for it
to end. -/
def sampleQuiesce : List ServerAct :=
  .start .start :: answers 0 8 ++ .start .admission :: answers 1 1 ++
    .start .quiesce :: answers 2 2 ++ .start .finishQuiesce :: answers 3 4 ++ answers 1 1 ++
    answers 3 5 ++ answers 2 2

theorem quiesce_closes_sample :
    ∃ σ, Runs.exec (serverSystem ⟨1, false⟩).step { world := {} } sampleQuiesce = some σ ∧
      (∃ t ∈ σ.threads, t.input = .quiesce ∧ t.returned = some []) ∧
      σ.world.drainedCloses = 1 ∧ σ.world.realtimeHandler = false ∧ σ.world.running = 1 := by
  have hsample :
      (Runs.exec (serverSystem ⟨1, false⟩).step { world := {} } sampleQuiesce).map
        (fun σ => decide (callAt σ 2 = some (.quiesce, some []) ∧
          σ.world.drainedCloses = 1 ∧ σ.world.running = 1)) = some true := by
    decide +kernel
  obtain ⟨σ, hrun, hσ⟩ := Option.map_eq_some_iff.mp hsample
  obtain ⟨hcall, hcloses, hrunning⟩ := of_decide_eq_true hσ
  obtain ⟨t, ht, hinput, hreturned⟩ := mem_of_callAt hcall
  obtain ⟨-, -, -, -, hquiesced⟩ := quiesce_closes hrun
  exact ⟨σ, hrun, ⟨t, ht, hinput, hreturned⟩, hcloses,
    (hquiesced t ht hinput hreturned [] σ rfl).2.2.1, hrunning⟩

/-! ## Runs that meet a condition -/

/-- A `Stop` finds the Server stopped only once no loop is running. -/
def StoppedOnce (σ : ServerRun) : ServerAct → Prop
  | .answer i _ =>
    σ.question i = some .claimStop → σ.world.state = .stopped → σ.world.running = 0
  | _ => True

/-- No `Start` is refused as a second one after one that failed, and a node that does not start
does not answer so. -/
def StartedOnce (σ : ServerRun) : ServerAct → Prop
  | .answer i choice =>
    (σ.question i = some .claimStart → σ.world.claimStart.1 = some .alreadyStarted →
      σ.world.startFailed = false) ∧
    (σ.question i = some .newHandler → .alreadyStarted ∉ choice.errs)
  | _ => True

instance : DecidableRel StoppedOnce
  | _, .answer _ _ => inferInstanceAs (Decidable (_ → _ → _))
  | _, .event _ => isTrue trivial
  | _, .start _ => isTrue trivial

instance : DecidableRel StartedOnce
  | _, .answer _ _ => inferInstanceAs (Decidable (_ ∧ _))
  | _, .event _ => isTrue trivial
  | _, .start _ => isTrue trivial

/-- In a run whose steps meet `P`, a call may rely on more than `Known` after an answer: on `K`,
when no step takes it back and every answer given in a step that meets `P` brings it. -/
theorem told_of_meets {P : ServerRun → ServerAct → Prop}
    {K : ServerWorld → Sigma ServerAsk.Answer → Prop}
    (hlater : ∀ {w v e}, w.Known e → w.Later v → K w e → K v e)
    (hanswer : ∀ {ρ : ServerRun} {i choice q a v}, P ρ (.answer i choice) →
      ρ.question i = some q → ρ.world.answer choice q = some (a, v) → v.Known ⟨q, a⟩ → K v ⟨q, a⟩)
    (hrun : Runs.exec (serverSystem cfg).step { world := {} } acts = some σ)
    (hmeets : Runs.Meets (serverSystem cfg).step P { world := {} } acts) :
    ∀ t ∈ σ.threads, ∀ e ∈ t.asked, K σ.world e := by
  have hinit : ServerReached cfg { world := {} } := server_standing (Runs.exec_nil _)
  refine (Runs.exec_invariant_of_meets (I := fun ρ => ServerReached cfg ρ ∧
    ∀ t ∈ ρ.threads, ∀ e ∈ t.asked, K ρ.world e) ?_ hrun hmeets ⟨hinit, nofun⟩).2
  intro ρ act ρ' hP hstep ⟨hρ, htold⟩
  obtain ⟨hρ', hlater'⟩ := hρ.step hstep
  refine ⟨hρ', fun t ht e he => ?_⟩
  have hkept : ∀ u ∈ ρ.threads, e ∈ u.asked → K ρ'.world e := fun u hu he =>
    hlater ((hρ.1.threads u hu).asked e he) hlater' (htold u hu e he)
  rcases System.step_cases hstep with ⟨_, _, -, -, rfl⟩ | ⟨x, -, -, rfl⟩ |
    ⟨i, c, u, q, k, a, w, rfl, hu, hrest, hanswered, rfl⟩
  · exact hkept t ht he
  · rcases mem_append.mp ht with ht | ht
    · exact hkept t ht he
    · rw [mem_singleton.mp ht] at he
      cases he
  · rcases mem_or_eq_of_mem_set ht with hold | rfl
    · exact hkept t hold he
    · have hknown := (hρ'.1.threads _ ht).asked e he
      rcases mem_append.mp he with he | he
      · exact hkept u (mem_of_getElem? hu) he
      · rw [mem_singleton.mp he] at hknown ⊢
        exact hanswer hP (State.question_of_rest hu hrest) hanswered hknown

/-! ## Stop -/

variable {log : List (Sigma ServerAsk.Answer)} {errs : List ServerError}

/-- What a `Stop` that returns nil was told: that the Server was stopped before, or that the
channel of its loops is closed. -/
theorem teardown_returns {quiesceErr : List ServerError}
    (h : Returns (teardown quiesceErr) log []) :
    ⟨.claimStop, StopClaim.already⟩ ∈ log ∨ ⟨.awaitSweeps, Woken.done⟩ ∈ log := by
  obtain ⟨_, log₁, rfl, h₁⟩ := returns_query_bind.mp h
  obtain ⟨claim, log₂, rfl, h₂⟩ := returns_query_bind.mp h₁
  cases claim with
  | already => exact .inl (mem_cons_of_mem _ mem_cons_self)
  | fresh server cancel =>
    right
    obtain ⟨_, _, _, rfl, -, h₃⟩ := returns_bind.mp h₂
    obtain ⟨_, _, _, rfl, -, h₄⟩ := returns_bind.mp h₃
    obtain ⟨_, _, rfl, h₅⟩ := returns_query_bind.mp h₄
    obtain ⟨_, _, _, rfl, -, h₆⟩ := returns_bind.mp h₅
    obtain ⟨_, _, sweeps, rfl, hsweeps, h₇⟩ := returns_bind.mp h₆
    obtain ⟨_, _, _, rfl, -, h₈⟩ := returns_bind.mp h₇
    obtain ⟨_, _, rfl, h₉⟩ := returns_query_bind.mp h₈
    obtain ⟨woken, _, rfl, hwoken⟩ := returns_query_bind.mp hsweeps
    have herrs := (returns_pure.mp h₉).2
    cases woken with
    | done => simp
    | contextDone =>
      obtain ⟨-, rfl⟩ := returns_pure.mp hwoken
      simp at herrs

theorem stop_returns (h : Returns stop log []) :
    ⟨.claimStop, StopClaim.already⟩ ∈ log ∨ ⟨.awaitSweeps, Woken.done⟩ ∈ log := by
  obtain ⟨_, log₁, quiesceErr, rfl, -, h₁⟩ := returns_bind.mp h
  split at h₁
  · exact (teardown_returns h₁).imp (mem_append_right _) (mem_append_right _)
  next herr =>
  obtain ⟨polled, log₂, rfl, h₂⟩ := returns_query_bind.mp h₁
  cases polled with
  | false =>
    obtain ⟨-, hnil⟩ := returns_pure.mp h₂
    exact absurd hnil.symm herr
  | true =>
    obtain ⟨completedErr, log₃, rfl, h₃⟩ := returns_query_bind.mp h₂
    refine (teardown_returns h₃).imp (fun hmem => ?_) fun hmem => ?_
    all_goals
      refine mem_append_right _ ?_
      exact mem_cons_of_mem _ (mem_cons_of_mem _ hmem)

/-- What a `Stop` was told that found the Server stopped, in a run in which it finds it so only
once no loop is running. -/
theorem already_told (hrun : Runs.exec (serverSystem cfg).step { world := {} } acts = some σ)
    (hmeets : Runs.Meets (serverSystem cfg).step StoppedOnce { world := {} } acts) :
    ∀ t ∈ σ.threads, ∀ e ∈ t.asked, e = ⟨.claimStop, StopClaim.already⟩ → σ.world.running = 0 := by
  refine told_of_meets (K := fun w e => e = ⟨.claimStop, StopClaim.already⟩ → w.running = 0)
    ?_ ?_ hrun hmeets
  · rintro w v e hknown hlater hK rfl
    exact hlater.quiet (hknown rfl) (hK rfl)
  · rintro ρ i choice q a v hP hq hanswer - ⟨⟩
    have hpair : ρ.world.claimStop = (.already, v) := Option.some.inj hanswer
    unfold ServerWorld.claimStop at hpair
    split at hpair
    · next hstopped =>
      cases hpair
      exact hP hq hstopped
    · cases hpair

/-- The claims of `Start` and `Serve` are refused because the Server is stopped. -/
def RefusedStopped : Sigma ServerAsk.Answer → Prop
  | ⟨.claimStart, claim⟩ => claim = some .serverStopped
  | ⟨.claimServe, claim⟩ => claim = some .serverStopped
  | _ => True

theorem answer_stopped {v : ServerWorld} {choice : ServerChoice} {a : q.Answer}
    (hstopped : w.state = .stopped) (h : w.answer choice q = some (a, v)) :
    RefusedStopped ⟨q, a⟩ := by
  cases q with
  | claimStart =>
    have hpair : w.claimStart = (a, v) := Option.some.inj h
    rw [ServerWorld.claimStart, if_pos hstopped] at hpair
    exact (congrArg Prod.fst hpair).symm
  | claimServe =>
    have hpair : w.claimServe = (a, v) := Option.some.inj h
    rw [ServerWorld.claimServe, if_neg (by rw [hstopped]; decide), if_pos hstopped] at hpair
    exact (congrArg Prod.fst hpair).symm
  | _ => trivial

theorem start_refused (h : Returns (start cfg) log errs) (hlog : ∀ e ∈ log, RefusedStopped e) :
    errs = [.serverStopped] := by
  obtain ⟨_, log₁, rfl, h₁⟩ := returns_query_bind.mp h
  obtain ⟨claim, log₂, rfl, h₂⟩ := returns_query_bind.mp h₁
  have hclaim : claim = some .serverStopped :=
    hlog _ (mem_cons_of_mem _ mem_cons_self)
  subst hclaim
  obtain ⟨_, log₃, rfl, h₃⟩ := returns_query_bind.mp h₂
  exact (returns_pure.mp h₃).2

theorem serve_refused (h : Returns (serve cfg) log errs) (hlog : ∀ e ∈ log, RefusedStopped e) :
    errs = [.serverStopped] := by
  obtain ⟨claim, log₁, rfl, h₁⟩ := returns_query_bind.mp h
  have hclaim : claim = some .serverStopped := hlog _ mem_cons_self
  subst hclaim
  exact (returns_pure.mp h₁).2

theorem ServerReached.refused (h : ServerReached cfg σ) (hstopped : σ.world.state = .stopped)
    (hrun : Runs.exec (serverSystem cfg).step σ acts = some τ) {j : Nat}
    {t : Thread ServerAsk.Answer ServerCall (List ServerError)} (hj : σ.threads.length ≤ j)
    (ht : τ.threads[j]? = some t) (hinput : t.input = .start ∨ t.input = .serve)
    (hreturned : t.returned = some errs) : errs = [.serverStopped] := by
  have hanswers : σ.NewAnswers RefusedStopped τ := by
    refine System.new_answers (J := fun ρ => ServerReached cfg ρ ∧ ρ.world.state = .stopped)
      ?_ ?_ hrun ⟨h, hstopped⟩
    · intro ρ act ρ' hstep ⟨hρ, hs⟩
      obtain ⟨hρ', hlater⟩ := hρ.step hstep
      exact ⟨hρ', hlater.stopped hs⟩
    · intro ρ x c q a v ⟨_, hs⟩ hanswer
      exact answer_stopped hs hanswer
  have hlog : ∀ e ∈ t.asked, RefusedStopped e := by
    intro e he
    rcases hanswers j t ht e he with ⟨u, hu, -⟩ | hrefused
    · rw [getElem?_eq_none hj] at hu
      cases hu
    · exact hrefused
  have hsteps : Steps (t.input.program cfg) t.asked t.rest :=
    ((h.exec hrun).1.1.threads t (mem_of_getElem? ht)).steps
  have hreturns := t.returns_of_returned hsteps hreturned
  rcases hinput with hinput | hinput
  · rw [hinput] at hreturns
    exact start_refused hreturns hlog
  · rw [hinput] at hreturns
    exact serve_refused hreturns hlog

/-- A `Stop` that returns nil means stopped, in a run in which no `Stop` finds the Server stopped
while a loop is running: then and in every continuation no sweep and no admission worker is
running, and every `Start` and `Serve` called later is refused. -/
theorem stop_nil_means_stopped {cfg : ServerConfig} {acts : List ServerAct} {σ : ServerRun}
    (hrun : Runs.exec (serverSystem cfg).step { world := {} } acts = some σ)
    (hmeets : Runs.Meets (serverSystem cfg).step StoppedOnce { world := {} } acts)
    {t : Thread ServerAsk.Answer ServerCall (List ServerError)} (ht : t ∈ σ.threads)
    (hinput : t.input = .stop) (hreturned : t.returned = some []) :
    ∀ more τ, Runs.exec (serverSystem cfg).step σ more = some τ →
      τ.world.running = 0 ∧
      ∀ j u errs, σ.threads.length ≤ j → τ.threads[j]? = some u →
        u.input = .start ∨ u.input = .serve → u.returned = some errs → errs = [.serverStopped] := by
  intro more τ hmore
  have hσ : ServerReached cfg σ := server_standing hrun
  have hknown := hσ.1.threads t ht
  have hsteps : Steps (t.input.program cfg) t.asked t.rest := hknown.steps
  rw [hinput] at hsteps
  obtain ⟨hstopped, hzero⟩ : σ.world.state = .stopped ∧ σ.world.running = 0 := by
    rcases stop_returns (t.returns_of_returned hsteps hreturned) with halready | hdone
    · exact ⟨hknown.asked _ halready rfl, already_told hrun hmeets t ht _ halready rfl⟩
    · exact ⟨(hknown.asked _ hdone).1, (hknown.asked _ hdone).2 rfl⟩
  refine ⟨(hσ.exec hmore).2.quiet hstopped hzero, ?_⟩
  intro j u errs hj hu hcall hreturns
  exact hσ.refused hstopped hmore hj hu hcall hreturns

/-- A Server is started and stopped, and its one loop returns when it is cancelled. -/
def sampleStop : List ServerAct :=
  .start .start :: answers 0 8 ++ .start .stop :: answers 1 2 ++
    .start .finishQuiesce :: answers 2 9 ++ answers 1 9 ++
    .event .workerReturns :: .event .loopsDone :: answers 1 6

theorem stop_nil_means_stopped_sample :
    ∃ σ, Runs.exec (serverSystem ⟨1, false⟩).step { world := {} } sampleStop = some σ ∧
      Runs.Meets (serverSystem ⟨1, false⟩).step StoppedOnce { world := {} } sampleStop ∧
      (∃ t ∈ σ.threads, t.input = .stop ∧ t.returned = some []) ∧ σ.world.running = 0 := by
  have hsample :
      (Runs.exec (serverSystem ⟨1, false⟩).step { world := {} } sampleStop).map
        (fun σ => callAt σ 1) = some (some (.stop, some [])) := by decide +kernel
  have hmeets : Runs.Meets (serverSystem ⟨1, false⟩).step StoppedOnce { world := {} }
      sampleStop := by decide +kernel
  obtain ⟨σ, hrun, hcall⟩ := Option.map_eq_some_iff.mp hsample
  obtain ⟨t, ht, hinput, hreturned⟩ := mem_of_callAt hcall
  exact ⟨σ, hrun, hmeets, ⟨t, ht, hinput, hreturned⟩,
    (stop_nil_means_stopped hrun hmeets ht hinput hreturned [] σ rfl).1⟩

/-- A first `Stop` gives up on the loop, which has not noticed that it is cancelled; a second `Stop`
finds the Server stopped. -/
def sampleStopTwice : List ServerAct :=
  .start .start :: answers 0 8 ++ .start .stop :: answers 1 2 ++
    .start .finishQuiesce :: answers 2 9 ++ answers 1 9 ++
    .answer 1 { contextDone := true } :: answers 1 5 ++ .start .stop :: answers 3 6

/-- The second `Stop` returns nil while the loop is still running. -/
theorem stop_nil_while_running :
    ∃ σ, Runs.exec (serverSystem ⟨1, false⟩).step { world := {} } sampleStopTwice = some σ ∧
      (∃ t ∈ σ.threads, t.input = .stop ∧ t.returned = some [.contextDone]) ∧
      (∃ t ∈ σ.threads, t.input = .stop ∧ t.returned = some []) ∧ σ.world.running = 1 := by
  have hsample :
      (Runs.exec (serverSystem ⟨1, false⟩).step { world := {} } sampleStopTwice).map
        (fun σ => decide (callAt σ 1 = some (.stop, some [.contextDone]) ∧
          callAt σ 3 = some (.stop, some []) ∧ σ.world.running = 1)) = some true := by
    decide +kernel
  obtain ⟨σ, hrun, hσ⟩ := Option.map_eq_some_iff.mp hsample
  obtain ⟨hfirst, hsecond, hrunning⟩ := of_decide_eq_true hσ
  exact ⟨σ, hrun, mem_of_callAt hfirst, mem_of_callAt hsecond, hrunning⟩

/-! ## Serve -/

/-- What a call was told by a `Start`, in a run in which none is refused as a second one after one
that failed. -/
theorem started_told (hrun : Runs.exec (serverSystem cfg).step { world := {} } acts = some σ)
    (hmeets : Runs.Meets (serverSystem cfg).step StartedOnce { world := {} } acts) :
    ∀ t ∈ σ.threads, ∀ e ∈ t.asked,
      (e = ⟨.claimStart, some ServerError.alreadyStarted⟩ → σ.world.startReturned = true) ∧
      ∀ errs : List ServerError, e = ⟨.newHandler, errs⟩ → .alreadyStarted ∉ errs := by
  refine told_of_meets (K := fun w e =>
    (e = ⟨.claimStart, some ServerError.alreadyStarted⟩ → w.startReturned = true) ∧
    ∀ errs : List ServerError, e = ⟨.newHandler, errs⟩ → .alreadyStarted ∉ errs) ?_ ?_ hrun hmeets
  · exact fun _ hlater hK => ⟨fun he => hlater.returned (hK.1 he), hK.2⟩
  · intro ρ i choice q a v hP hq hanswer hknown
    constructor
    · rintro ⟨⟩
      have hpair : ρ.world.claimStart = (some .alreadyStarted, v) := Option.some.inj hanswer
      have hclear := hP.1 hq (congrArg Prod.fst hpair)
      have hsame : v.startFailed = ρ.world.startFailed := by
        rw [show v = ρ.world.claimStart.2 from (congrArg Prod.snd hpair).symm]
        unfold ServerWorld.claimStart
        split_ifs <;> rfl
      refine (hknown rfl).resolve_right ?_
      rw [hsame, hclear]
      nofun
    · rintro errs ⟨⟩
      cases hanswer
      exact hP.2 hq

/-- `server.Serve(ln)` is entered after a `Start` has returned nil, with its loops launched and its
node published, in a run in which no `Start` is refused as a second one after one that failed. -/
theorem serve_after_start {cfg : ServerConfig} {acts : List ServerAct} {σ : ServerRun}
    (hrun : Runs.exec (serverSystem cfg).step { world := {} } acts = some σ)
    (hmeets : Runs.Meets (serverSystem cfg).step StartedOnce { world := {} } acts) {i : Nat}
    (hserve : σ.question i = some .serve) :
    σ.world.startReturned = true ∧ σ.world.waiter = true ∧ σ.world.Published := by
  have hσ : ServerReached cfg σ := server_standing hrun
  obtain ⟨t, k, ht, hrest⟩ := State.question_eq_some hserve
  have hmem := mem_of_getElem? ht
  have hknown := hσ.1.threads t hmem
  have htold := started_told hrun hmeets t hmem
  have hallowed : Allowed t.asked .serve := (serverSystem_rule cfg).question hknown hrest
  have hreturned : σ.world.startReturned = true := by
    rcases hallowed with halready | hnil | ⟨errs, hhandler, hmem⟩
    · exact (htold _ halready).1 rfl
    · exact hknown.asked _ hnil rfl
    · exact absurd hmem ((htold _ hhandler).2 errs rfl)
  exact ⟨hreturned, hσ.1.world.returned hreturned⟩

/-- `Serve` on a Server that has not been started starts it first. -/
theorem serve_after_start_sample :
    ∃ σ, Runs.exec (serverSystem ⟨1, false⟩).step { world := {} }
        (.start .serve :: answers 0 9) = some σ ∧
      σ.question 0 = some .serve ∧ σ.world.startReturned = true := by
  have hsample :
      (Runs.exec (serverSystem ⟨1, false⟩).step { world := {} }
        (.start .serve :: answers 0 9)).map (fun σ => σ.question 0) = some (some .serve) := by
    decide +kernel
  have hmeets : Runs.Meets (serverSystem ⟨1, false⟩).step StartedOnce { world := {} }
      (.start .serve :: answers 0 9) := by decide +kernel
  obtain ⟨σ, hrun, hserve⟩ := Option.map_eq_some_iff.mp hsample
  exact ⟨σ, hrun, hserve, (serve_after_start hrun hmeets hserve).1⟩

/-- A `Start` whose node does not start, and a `Serve` after it. -/
def sampleFailedStart : List ServerAct :=
  .start .start :: answers 0 2 ++ .answer 0 { errs := [.component 1] } :: answers 0 1 ++
    .start .serve :: answers 1 4

/-- The only `Start` has failed, nothing has been launched and no node is published, and the
listener is served. -/
theorem serve_after_failed_start :
    ∃ σ, Runs.exec (serverSystem ⟨1, false⟩).step { world := {} } sampleFailedStart = some σ ∧
      (∃ t ∈ σ.threads, t.input = .start ∧ t.returned = some [.component 1]) ∧
      σ.question 1 = some .serve ∧ σ.world.startReturned = false ∧ σ.world.running = 0 ∧
      σ.world.realtime = false := by
  have hsample :
      (Runs.exec (serverSystem ⟨1, false⟩).step { world := {} } sampleFailedStart).map
        (fun σ => decide (callAt σ 0 = some (.start, some [.component 1]) ∧
          σ.question 1 = some .serve ∧ σ.world.startReturned = false ∧ σ.world.running = 0 ∧
          σ.world.realtime = false)) = some true := by
    decide +kernel
  obtain ⟨σ, hrun, hσ⟩ := Option.map_eq_some_iff.mp hsample
  obtain ⟨hfailed, hrest⟩ := of_decide_eq_true hσ
  exact ⟨σ, hrun, mem_of_callAt hfailed, hrest⟩

end Factory.Compose
