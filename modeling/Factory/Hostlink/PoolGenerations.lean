import Factory.Hostlink.PoolAcquire

/-!
# The advertisements a pooled link was acquired on

A pooled link records the newest generation it was acquired on at its own address, and is replaced
only by a newer one elsewhere (`Steady`). One section returns a link without recording the
generation it was asked for: `acquireUnlocked` after its dial, when it finds the link of a racer.
The rule holds in the runs where no such section had a newer generation to record (`Observes`),
and in no others (`generations_kept_iff`).
-/

namespace Factory.Hostlink

open List Runs

/-- An acquire of the run returned `a`. -/
def Reported (cfg : PoolConfig) (acts : List PoolAct) (a : Acquisition) : Prop :=
  ∃ before act after σ, acts = before ++ act :: after ∧
    exec (PoolRun.step cfg) {} before = some σ ∧ σ.acquisition cfg act = some a

/-- What a run that is in `σ` has to have kept: an older advertisement drags no link back. -/
structure Steady (cfg : PoolConfig) (acts : List PoolAct) (σ : PoolRun) : Prop where
  /-- A link returned at its own address has the generation it was asked for, from then on. -/
  recorded : ∀ a, Reported cfg acts a → ∀ pooled, σ.pool.links.lookup a.linked = some pooled →
    pooled.link = a.link → pooled.endpoint = a.dial.endpoint → a.dial.generation ≤ pooled.generation
  /-- The generation of a link never decreases. -/
  rising : ∀ before after τ linked earlier pooled, acts = before ++ after →
    exec (PoolRun.step cfg) {} before = some τ → τ.pool.links.lookup linked = some earlier →
    σ.pool.links.lookup linked = some pooled → pooled.link = earlier.link →
      earlier.generation ≤ pooled.generation
  /-- A link is replaced by an acquire of another in its place. -/
  replaced : ∀ act σ' linked old new, σ.step cfg act = some σ' →
    σ.pool.links.lookup linked = some old → σ'.pool.links.lookup linked = some new →
    new.link ≠ old.link → ∃ a, σ.acquisition cfg act = some a ∧ a.linked = linked ∧
      a.link = new.link ∧ a.replaced = some old.link
  /-- Such an acquire is at another address, and of a generation above every one the link was
  returned for at its own. -/
  newer : ∀ act σ' a l, σ.step cfg act = some σ' → σ.acquisition cfg act = some a →
    a.replaced = some l → ∃ old, σ.pool.links.lookup a.linked = some old ∧ old.link = l ∧
      a.dial.endpoint ≠ old.endpoint ∧
      ∀ b, Reported cfg acts b → b.linked = a.linked → b.link = l →
        b.dial.endpoint = old.endpoint → b.dial.generation < a.dial.generation
  /-- An acquire whose dial fails changes nothing. -/
  failed : ∀ act σ' calls t, σ.step cfg act = some σ' → σ'.log = σ.log ++ calls →
    .dial t none ∈ calls → σ'.pool.links = σ.pool.links ∧ σ'.pool.routes = σ.pool.routes

/-- A section of `acquireUnlocked` after its dial that finds a link at the address it dialled finds
its generation recorded. -/
def Observes (σ : PoolRun) : PoolAct → Prop
  | .resume i _ =>
    match σ.flights[i]? with
    | some ⟨[], .dialled linked target _⟩ =>
      match σ.pool.links.lookup linked with
      | some existing =>
        existing.endpoint = target.endpoint → target.generation ≤ existing.generation
      | none => True
    | _ => True
  | _ => True

instance (σ : PoolRun) (act : PoolAct) : Decidable (Observes σ act) := by
  unfold Observes
  split
  · split
    · split <;> infer_instance
    · infer_instance
  · infer_instance

theorem observe_generation (l : PooledLink) (dial : Target) :
    l.generation ≤ (l.observe dial).generation ∧
      (l.endpoint = dial.endpoint → dial.generation ≤ (l.observe dial).generation) := by
  unfold PooledLink.observe
  split
  · rename_i h
    exact ⟨Nat.le_of_lt h.2, fun _ => le_rfl⟩
  · rename_i h
    refine ⟨le_rfl, fun he => ?_⟩
    by_contra hlt
    exact h ⟨he.symm, Nat.lt_of_not_le hlt⟩

variable {linked : LinkKey}

theorem stored_in_log {log : List PoolCall} {l : LinkID} (h : .stored linked l ∈ log) :
    0 < log.countP (PoolCall.stores l) :=
  countP_pos_iff.mpr ⟨_, h, decide_eq_true rfl⟩

variable {cfg : PoolConfig} {σ σ' : PoolRun} {act : PoolAct}

theorem PoolRun.Inv.rises (hinv : σ.Inv cfg) (h : σ.step cfg act = some σ') {l : LinkID}
    (hhome : .stored linked l ∈ σ.log) {new : PooledLink}
    (hnew : σ'.pool.links.lookup linked = some new) (hlink : new.link = l) :
    ∃ old, σ.pool.links.lookup linked = some old ∧ old.link = l ∧ new.endpoint = old.endpoint ∧
      old.generation ≤ new.generation := by
  obtain ⟨calls, hlog, hturns, -⟩ := step_acquires h
  have hstays : ∀ {mid}, Stays (some mid) (σ'.pool.links.lookup linked) →
      new.link = mid.link ∧ new.endpoint = mid.endpoint ∧ new.generation = mid.generation := by
    intro mid hmid
    obtain ⟨_, ⟨⟩, hsame⟩ := hmid new hnew
    exact hsame
  by_cases hacq : ∃ a, σ.acquisition cfg act = some a ∧ a.linked = linked
  · obtain ⟨a, ha, rfl⟩ := hacq
    cases hturns.turn a ha with
    | observed old hlookup _ _ hafter =>
      obtain ⟨hl, he, hg⟩ := hstays hafter
      rw [observe_link] at hl
      rw [observe_endpoint] at he
      exact ⟨old, hlookup, hl.symm.trans hlink, he, hg ▸ (observe_generation old a.dial).1⟩
    | surplus _ old hlookup _ _ hafter =>
      obtain ⟨hl, he, hg⟩ := hstays hafter
      exact ⟨old, hlookup, hl.symm.trans hlink, he, Nat.le_of_eq hg.symm⟩
    | stored now hcalls _ hafter =>
      -- a link is stored once, so the one just stored is not the one stored before
      obtain ⟨hl, -, -⟩ := hstays hafter
      rw [show (newPooledLink a.link a.dial now).link = a.link from rfl, hlink] at hl
      subst hl
      have hinv' : σ'.Inv cfg := PoolRun.Inv.step σ act σ' h hinv
      have hhomes := hinv'.homes a.link
      have honce := hinv'.once a.link
      have hbefore := stored_in_log hhome
      have hnow := stored_in_log hcalls
      have hcount : σ'.log.countP (PoolCall.stores a.link) =
          σ.log.countP (PoolCall.stores a.link) + calls.countP (PoolCall.stores a.link) := by
        rw [hlog, countP_append]
      omega
  · obtain ⟨old, hold, hl, he, hg⟩ := hturns.elsewhere linked
      (fun a ha heq => hacq ⟨a, ha, heq⟩) new hnew
    exact ⟨old, hold, hl.symm.trans hlink, he, Nat.le_of_eq hg.symm⟩

variable {a : Acquisition}

theorem PoolRun.Inv.records (hinv : σ.Inv cfg) (h : σ.step cfg act = some σ')
    (ha : σ.acquisition cfg act = some a) :
    .stored a.linked a.link ∈ σ'.log ∧
      (Observes σ act → ∀ pooled, σ'.pool.links.lookup a.linked = some pooled →
        pooled.endpoint = a.dial.endpoint → a.dial.generation ≤ pooled.generation) := by
  obtain ⟨calls, hlog, hturns, -⟩ := step_acquires h
  rw [hlog]
  cases hturns.turn a ha with
  | observed old hlookup hlink _ hafter =>
    refine ⟨?_, fun _ pooled hpooled hendpoint => ?_⟩
    · rw [hlink]
      exact mem_append_left _ (hinv.homed a.linked old hlookup).2.2
    · obtain ⟨_, ⟨⟩, -, he, hg⟩ := hafter pooled hpooled
      rw [he, observe_endpoint] at hendpoint
      rw [hg]
      exact (observe_generation old a.dial).2 hendpoint
  | surplus hlate old hlookup hlink _ hafter =>
    refine ⟨?_, fun hobserves pooled hpooled hendpoint => ?_⟩
    · rw [hlink]
      exact mem_append_left _ (hinv.homed a.linked old hlookup).2.2
    · obtain ⟨_, ⟨⟩, -, he, hg⟩ := hafter pooled hpooled
      rw [hg]
      rw [he] at hendpoint
      cases act with
      | resume i answer =>
        simp only [PoolRun.acquisition] at ha
        simp only [Observes] at hobserves
        split at ha
        · rename_i linked dial link hf
          simp only [hf] at hobserves
          obtain ⟨hlinked, hdial⟩ : a.linked = linked ∧ a.dial = dial := by
            unfold Section.acquisition at ha
            split at ha
            · cases ha
              exact ⟨rfl, rfl⟩
            · cases ha
          rw [hlinked] at hlookup
          simp only [hlookup] at hobserves
          rw [hdial] at hendpoint ⊢
          exact hobserves hendpoint
        · cases ha
      | _ => cases hlate
  | stored now hcalls _ hafter =>
    refine ⟨mem_append_right _ hcalls, fun _ pooled hpooled _ => ?_⟩
    obtain ⟨_, ⟨⟩, -, -, hg⟩ := hafter pooled hpooled
    rw [hg]
    exact le_rfl

theorem Reported.of_append {before : List PoolAct} (h : Reported cfg (before ++ [act]) a)
    (hσ : exec (PoolRun.step cfg) {} before = some σ) :
    Reported cfg before a ∨ σ.acquisition cfg act = some a := by
  obtain ⟨first, act', rest, τ, heq, hτ, ha⟩ := h
  rcases eq_nil_or_concat rest with rfl | ⟨rest, last, rfl⟩
  · obtain ⟨rfl, ⟨⟩⟩ := append_inj' heq rfl
    cases hσ.symm.trans hτ
    exact .inr ha
  · rw [concat_eq_append, ← cons_append, ← append_assoc] at heq
    obtain ⟨rfl, -⟩ := append_inj' heq rfl
    exact .inl ⟨first, act', rest, τ, rfl, hτ, ha⟩

variable {acts : List PoolAct}

theorem recorded_of_meets (hrun : exec (PoolRun.step cfg) {} acts = some σ)
    (hmeets : Meets (PoolRun.step cfg) Observes {} acts) :
    ∀ a, Reported cfg acts a → .stored a.linked a.link ∈ σ.log ∧
      ∀ pooled, σ.pool.links.lookup a.linked = some pooled → pooled.link = a.link →
        pooled.endpoint = a.dial.endpoint → a.dial.generation ≤ pooled.generation := by
  refine Runs.exec_history (I := fun acts σ => Meets (PoolRun.step cfg) Observes {} acts →
    ∀ a, Reported cfg acts a → .stored a.linked a.link ∈ σ.log ∧
      ∀ pooled, σ.pool.links.lookup a.linked = some pooled → pooled.link = a.link →
        pooled.endpoint = a.dial.endpoint → a.dial.generation ≤ pooled.generation)
    ?_ ?_ hrun hmeets
  · rintro - a ⟨first, act, rest, _, heq, -⟩
    simp at heq
  · intro before u act v hbefore ih hstep hmeets a ha
    have hinv : u.Inv cfg := PoolRun.inv_exec hbefore
    obtain ⟨hearlier, hlast⟩ := meets_append.mp hmeets
    have hobserves : Observes u act := (meets_cons.mp (hlast u hbefore)).1
    rcases ha.of_append hbefore with hold | hnew
    · obtain ⟨hhome, hrecorded⟩ := ih hearlier a hold
      obtain ⟨calls, hlog, -, -⟩ := step_acquires hstep
      refine ⟨hlog ▸ mem_append_left _ hhome, fun pooled hpooled hlink hendpoint => ?_⟩
      obtain ⟨old, hlookup, hl, he, hg⟩ := hinv.rises hstep hhome hpooled hlink
      exact Nat.le_trans (hrecorded old hlookup hl (he.symm.trans hendpoint)) hg
    · obtain ⟨hhome, hrecorded⟩ := hinv.records hstep hnew
      exact ⟨hhome, fun pooled hpooled _ => hrecorded hobserves pooled hpooled⟩

theorem PoolRun.Inv.rises_exec (hinv : σ.Inv cfg) (hrun : exec (PoolRun.step cfg) σ acts = some σ')
    {earlier pooled : PooledLink} (hearlier : σ.pool.links.lookup linked = some earlier)
    (hpooled : σ'.pool.links.lookup linked = some pooled) (hlink : pooled.link = earlier.link) :
    earlier.generation ≤ pooled.generation := by
  have hall : .stored linked earlier.link ∈ σ'.log ∧
      ∀ pooled, σ'.pool.links.lookup linked = some pooled → pooled.link = earlier.link →
        earlier.generation ≤ pooled.generation := by
    apply exec_invariant_under PoolRun.Inv.step hrun hinv
    · refine ⟨(hinv.homed linked earlier hearlier).2.2, fun pooled hp _ => ?_⟩
      cases hearlier.symm.trans hp
      exact le_rfl
    · rintro τ act τ' hτ hstep ⟨hhome, hle⟩
      obtain ⟨calls, hlog, -, -⟩ := step_acquires hstep
      refine ⟨hlog ▸ mem_append_left _ hhome, ?_⟩
      intro new hnew hl
      obtain ⟨old, hold, hl', -, hg⟩ := hτ.rises hstep hhome hnew hl
      exact Nat.le_trans (hle old hold hl') hg
  exact hall.2 pooled hpooled hlink

theorem acquisition_of_replaced (h : σ.step cfg act = some σ') {old new : PooledLink}
    (hold : σ.pool.links.lookup linked = some old) (hnew : σ'.pool.links.lookup linked = some new)
    (hne : new.link ≠ old.link) :
    ∃ a, σ.acquisition cfg act = some a ∧ a.linked = linked ∧ a.link = new.link ∧
      a.replaced = some old.link := by
  obtain ⟨calls, -, hturns, -⟩ := step_acquires h
  by_cases hacq : ∃ a, σ.acquisition cfg act = some a ∧ a.linked = linked
  · obtain ⟨a, ha, rfl⟩ := hacq
    refine ⟨a, ha, rfl, ?_⟩
    cases hturns.turn a ha with
    | observed found hlookup _ _ hafter =>
      obtain ⟨_, ⟨⟩, hl, -⟩ := hafter new hnew
      cases hold.symm.trans hlookup
      exact absurd (hl.trans (observe_link _ _)) hne
    | surplus _ found hlookup _ _ hafter =>
      obtain ⟨_, ⟨⟩, hl, -⟩ := hafter new hnew
      cases hold.symm.trans hlookup
      exact absurd hl hne
    | stored now _ hbefore hafter =>
      obtain ⟨_, ⟨⟩, hl, -⟩ := hafter new hnew
      refine ⟨hl.symm, ?_⟩
      rcases hbefore with ⟨hnone, -⟩ | ⟨found, hlookup, -, hreplaced⟩
      · cases hold.symm.trans hnone
      · cases hold.symm.trans hlookup
        exact hreplaced
  · obtain ⟨found, hfound, hl, -⟩ := hturns.elsewhere linked
      (fun a ha heq => hacq ⟨a, ha, heq⟩) new hnew
    cases hold.symm.trans hfound
    exact absurd hl hne

theorem superseded_of_replaced (h : σ.step cfg act = some σ') (ha : σ.acquisition cfg act = some a)
    {l : LinkID} (hreplaced : a.replaced = some l) :
    ∃ old, σ.pool.links.lookup a.linked = some old ∧ old.link = l ∧
      a.dial.endpoint ≠ old.endpoint ∧ old.generation < a.dial.generation := by
  obtain ⟨calls, -, hturns, -⟩ := step_acquires h
  cases hturns.turn a ha with
  | observed _ _ _ hnone _ =>
    cases hreplaced.symm.trans hnone
  | surplus _ _ _ _ hnone _ =>
    cases hreplaced.symm.trans hnone
  | stored now _ hbefore _ =>
    rcases hbefore with ⟨-, hnone⟩ | ⟨old, hlookup, hsuper, hold⟩
    · cases hreplaced.symm.trans hnone
    · cases hreplaced.symm.trans hold
      simp only [PooledLink.supersededBy, decide_eq_true_eq] at hsuper
      exact ⟨old, hlookup, rfl, hsuper⟩

theorem steady_of_meets (hrun : exec (PoolRun.step cfg) {} acts = some σ)
    (hmeets : Meets (PoolRun.step cfg) Observes {} acts) : Steady cfg acts σ where
  recorded a ha := (recorded_of_meets hrun hmeets a ha).2
  rising before after τ linked earlier pooled hsplit hτ hearlier hpooled hlink := by
    subst hsplit
    exact (PoolRun.inv_exec hτ).rises_exec (exec_rest hτ hrun) hearlier hpooled hlink
  replaced act σ' linked old new hstep hold hnew hne := acquisition_of_replaced hstep hold hnew hne
  newer act σ' a l hstep ha hreplaced := by
    obtain ⟨old, hlookup, hlink, hendpoint, hgeneration⟩ :=
      superseded_of_replaced hstep ha hreplaced
    refine ⟨old, hlookup, hlink, hendpoint, fun b hb hlinked hl he => ?_⟩
    have hle := (recorded_of_meets hrun hmeets b hb).2 old (hlinked ▸ hlookup)
      (hlink.trans hl.symm) he.symm
    omega
  failed act σ' calls t hstep hlog ht := by
    obtain ⟨calls', hlog', -, hfailed⟩ := step_acquires hstep
    rw [hlog] at hlog'
    cases append_cancel_left hlog'
    rw [hfailed t ht]
    exact ⟨rfl, rfl⟩

theorem observes_of_steady {before : List PoolAct}
    (hbefore : exec (PoolRun.step cfg) {} before = some σ) (hstep : σ.step cfg act = some σ')
    (hsteady : Steady cfg (before ++ [act]) σ') : Observes σ act := by
  have hrep : Rep cfg σ.pool := (PoolRun.inv_exec hbefore).rep
  unfold Observes
  split
  · rename_i i answer
    split
    · rename_i linked target link hf
      split
      · rename_i existing hlookup
        intro hendpoint
        -- it is not superseded at its own address, so the section returns it
        have hopen : σ.pool.closed = false := hrep.open_of_lookup hlookup
        have hsuper : existing.supersededBy target = false := by
          simp [PooledLink.supersededBy, hendpoint]
        have hsection : σ.pool.dialled cfg linked target link answer.now =
            { pool := σ.pool
              flight := { closes := [link], next := .negotiate linked existing.link } } := by
          simp [Pool.dialled, hopen, hlookup, hsuper]
        have ha : σ.acquisition cfg (.resume i answer) =
            some ⟨linked, target, existing.link, none⟩ := by
          simp [PoolRun.acquisition, hf, hsection, Section.acquisition, hlookup, hsuper]
        have hpool : σ'.pool = σ.pool := by
          simp only [PoolRun.step, hf, Flight.resume, hsection] at hstep
          cases hstep
          rfl
        refine hsteady.recorded _ ⟨before, _, [], σ, rfl, hbefore, ha⟩ existing ?_ rfl hendpoint
        rw [hpool]
        exact hlookup
      · trivial
    · trivial
  · trivial

/-- An older advertisement drags no link back in the runs, and in no others, in which every
acquire that finds a link at the address it dialled finds its generation recorded. -/
theorem generations_kept_iff (cfg : PoolConfig) {acts : List PoolAct} {σ : PoolRun}
    (hrun : exec (PoolRun.step cfg) {} acts = some σ) :
    (∀ before after τ, acts = before ++ after → exec (PoolRun.step cfg) {} before = some τ →
      Steady cfg before τ) ↔ Meets (PoolRun.step cfg) Observes {} acts := by
  constructor
  · intro h
    refine meets_of_steps fun before act after u hsplit hu => ?_
    subst hsplit
    obtain ⟨v, hv, -⟩ := exec_cons.mp (exec_rest hu hrun)
    refine observes_of_steady hu hv (h (before ++ [act]) after v (by simp) ?_)
    exact exec_append.mpr ⟨u, hu, exec_cons.mpr ⟨v, hv, rfl⟩⟩
  · rintro hmeets before after τ rfl hτ
    exact steady_of_meets hτ (meets_append.mp hmeets).1

/-- A tenant's link is dialled, found by a newer advertisement at its address, and replaced by one
of a Host that moved. -/
def movedLink : List PoolAct :=
  [.accepts ⟨"h", "a", 1⟩ "t", .resume 0 {}, .resume 0 {}, .accepts ⟨"h", "a", 5⟩ "t",
    .accepts ⟨"h", "b", 3⟩ "t", .accepts ⟨"h", "b", 6⟩ "t", .resume 3 {}, .resume 3 {}]

theorem generations_kept_movedLink : ∃ σ pooled,
    exec (PoolRun.step plainPool) {} movedLink = some σ ∧
      σ.pool.links.lookup ⟨"h", "t"⟩ = some pooled ∧ pooled.endpoint = "b/t" ∧
      pooled.generation = 6 ∧
      ∀ before after τ, movedLink = before ++ after →
        exec (PoolRun.step plainPool) {} before = some τ → Steady plainPool before τ := by
  obtain ⟨σ, pooled, hrun, hlookup, hpooled⟩ : ∃ σ pooled,
      exec (PoolRun.step plainPool) {} movedLink = some σ ∧
        σ.pool.links.lookup ⟨"h", "t"⟩ = some pooled ∧ pooled.endpoint = "b/t" ∧
        pooled.generation = 6 := ⟨_, _, rfl, rfl, by decide +kernel⟩
  exact ⟨σ, pooled, hrun, hlookup, hpooled.1, hpooled.2,
    (generations_kept_iff plainPool hrun).mpr (by decide +kernel)⟩

/-- A capability read on generation 5 dials, a bind on generation 1 stores its own link at that
address meanwhile, and the read returns it. -/
def unobservedRace : List PoolAct :=
  let request (generation : Nat) : HostLinkBindRequest :=
    { version := 1, tenant := "t", session := "s", host := "h", hostGeneration := generation
      leaseEpoch := 1, runtimeCompatibility := "", idempotencyKey := "" }
  [.accepts ⟨"h", "a", 5⟩ "t", .bind ⟨"h", "a", 0⟩ (request 1) true none 0, .resume 0 {},
    .resume 0 {}, .bind ⟨"h", "b", 0⟩ (request 3) true none 0]

/-- The link returned for generation 5 at its address has generation 1, and a bind on generation 3
at another address replaces it, with the session's route. -/
theorem unobservedRace_drags : ∃ σ σ' old new,
    exec (PoolRun.step plainPool) {} (unobservedRace.take 4) = some σ ∧
      Reported plainPool (unobservedRace.take 4) ⟨⟨"h", "t"⟩, ⟨"h", "a/t", 5⟩, 1, none⟩ ∧
      σ.pool.links.lookup ⟨"h", "t"⟩ = some old ∧ old.link = 1 ∧ old.endpoint = "a/t" ∧
      old.generation = 1 ∧
      exec (PoolRun.step plainPool) {} unobservedRace = some σ' ∧
      σ'.pool.links.lookup ⟨"h", "t"⟩ = some new ∧ new.endpoint = "b/t" ∧ new.generation = 3 ∧
      ¬ Steady plainPool (unobservedRace.take 4) σ := by
  obtain ⟨σ, old, hrun, hlookup, hold⟩ : ∃ σ old,
      exec (PoolRun.step plainPool) {} (unobservedRace.take 4) = some σ ∧
        σ.pool.links.lookup ⟨"h", "t"⟩ = some old ∧ old.link = 1 ∧ old.endpoint = "a/t" ∧
        old.generation = 1 := ⟨_, _, rfl, rfl, by decide +kernel⟩
  obtain ⟨σ', new, hrun', hlookup', hnew⟩ : ∃ σ' new,
      exec (PoolRun.step plainPool) {} unobservedRace = some σ' ∧
        σ'.pool.links.lookup ⟨"h", "t"⟩ = some new ∧ new.endpoint = "b/t" ∧
        new.generation = 3 := ⟨_, _, rfl, rfl, by decide +kernel⟩
  have hreported : Reported plainPool (unobservedRace.take 4)
      ⟨⟨"h", "t"⟩, ⟨"h", "a/t", 5⟩, 1, none⟩ :=
    ⟨unobservedRace.take 3, .resume 0 {}, [], _, rfl, rfl, by decide +kernel⟩
  refine ⟨σ, σ', old, new, hrun, hreported, hlookup, hold.1, hold.2.1, hold.2.2, hrun', hlookup',
    hnew.1, hnew.2, fun hsteady => ?_⟩
  have hle := hsteady.recorded _ hreported old hlookup hold.1 hold.2.1
  rw [hold.2.2] at hle
  exact absurd hle (by decide)

end Factory.Hostlink
