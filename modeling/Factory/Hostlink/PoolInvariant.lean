import Factory.Hostlink.PoolSections

/-!
# The pool over whole runs

Two accounts hold in every run. The log of calls and the pool agree on where each link is at
home: it was dialled at an address derived for its tenant, stored under one key, and what is
sent for a tenant goes over a link of that tenant. And every link ever dialled is in one place:
stored, owed by an operation still under way, or closed.
-/

namespace Factory.Hostlink

open List Runs Tally

/-! ## Steps -/

/-- The links a flight has to close, and the one it dialled and has not placed. -/
def Flight.owes (f : Flight) : List LinkID := f.closes ++ f.next.waiting

/-- What a step does: a section of an operation, which takes up a flight or starts one, an
operation's return, or one close. -/
inductive Advances (cfg : PoolConfig) (σ : PoolRun) : PoolRun → Prop
  | ran (gone others flights : List Flight) (prior : Next) (s : Section) (new : List Storing)
      (removed : List LinkID) (hgone : gone = [] ∧ prior = .done ∨ gone = [⟨[], prior⟩])
      (hbefore : σ.flights.Perm (gone ++ others)) (hafter : flights.Perm (s.flight :: others))
      (hdoes : Does cfg σ.pool σ.fresh prior s new removed) : Advances cfg σ (σ.after flights s)
  | returned (flights : List Flight) (hbefore : σ.flights.Perm (⟨[], .done⟩ :: flights)) :
      Advances cfg σ { σ with flights := flights }
  | closed (f : Flight) (others flights : List Flight) (link : LinkID) (closes : List LinkID)
      (hbefore : σ.flights.Perm (f :: others)) (hlink : f.closes.Perm (link :: closes))
      (hafter : flights.Perm ({ f with closes := closes } :: others)) :
      Advances cfg σ { σ with flights := flights, log := σ.log ++ [.close link] }

variable {cfg : PoolConfig} {σ : PoolRun}

variable {s : Section} {new : List Storing} {removed : List LinkID} {l : LinkID}
  {acts : List PoolAct}

theorem begin_advances (h : ∃ new rest, Started cfg σ.pool σ.fresh s new rest) :
    Advances cfg σ (σ.begin s) := by
  obtain ⟨new, rest, hstarted⟩ := h
  exact .ran [] σ.flights _ .done s new _ (.inl ⟨rfl, rfl⟩) (.refl _)
    (perm_append_singleton _ _) hstarted.does

theorem step_advances {σ' : PoolRun} (hrep : Rep cfg σ.pool)
    (hsound : ∀ f ∈ σ.flights, f.next.Sound cfg (AtHome σ.log) (DialledIn σ.log)) {act : PoolAct}
    (h : σ.step cfg act = some σ') : Advances cfg σ σ' := by
  cases act with
  | bind target req ok answer now =>
    cases h
    exact begin_advances (bind_started hrep ..)
  | attach target req ok now =>
    cases h
    exact begin_advances (attach_started hrep ..)
  | accepts target tenant =>
    cases h
    exact begin_advances (accepts_started ..)
  | unbind req answer now =>
    cases h
    exact begin_advances (unbind_started hrep ..)
  | deliverCommand tenant session delivery =>
    cases h
    exact begin_advances (deliverCommand_started ..)
  | subscribe tenant session =>
    cases h
    exact begin_advances (subscribe_started ..)
  | unsubscribe tenant session order =>
    obtain ⟨-, ⟨⟩⟩ := Option.ite_none_right_eq_some.mp h
    exact begin_advances (unsubscribe_started ..)
  | reapIdle now order =>
    obtain ⟨-, ⟨⟩⟩ := Option.ite_none_right_eq_some.mp h
    exact begin_advances (reapIdle_started ..)
  | close order =>
    obtain ⟨henum, ⟨⟩⟩ := Option.ite_none_right_eq_some.mp h
    exact begin_advances ⟨_, _, started_quiet _ (.clear _ order henum) rfl trivial rfl⟩
  | closeLink i j =>
    simp only [PoolRun.step] at h
    split at h
    · cases h
    rename_i f hf
    split at h
    · cases h
    rename_i link hlink
    cases h
    exact .closed f _ _ link _ (perm_cons_eraseIdx hf) (perm_cons_eraseIdx hlink)
      (set_perm_cons hf _)
  | resume i answer =>
    simp only [PoolRun.step] at h
    split at h
    · cases h
    rename_i f hf
    split at h
    · rename_i hcloses
      obtain ⟨closes, prior⟩ := f
      subst hcloses
      split at h
      · rename_i hdone
        cases h
        obtain rfl := resume_none hdone
        exact .returned _ (perm_cons_eraseIdx hf)
      · rename_i s hs
        cases h
        obtain ⟨new, removed, hdoes⟩ :=
          resume_does hrep σ.fresh answer (hsound _ (mem_of_getElem? hf)) hs
        exact .ran [_] _ _ prior s new removed (.inr rfl) (perm_cons_eraseIdx hf)
          (set_perm_cons hf _) hdoes
    · cases h

/-! ## The invariant -/

structure PoolRun.Inv (cfg : PoolConfig) (σ : PoolRun) : Prop where
  rep : Rep cfg σ.pool
  homed : Homed cfg σ.log σ.pool
  sound : ∀ f ∈ σ.flights, f.next.Sound cfg (AtHome σ.log) (DialledIn σ.log)
  sent : SentHome σ.log
  /-- Every link dialled is closed, stored or owed by a flight. -/
  census : ∀ l, σ.log.countP (PoolCall.dials l) =
    σ.log.countP (PoolCall.closes l) + σ.pool.stored l + (σ.flights.flatMap Flight.owes).count l
  /-- A link is stored at most once for each time it was dialled. -/
  homes : ∀ l, σ.log.countP (PoolCall.stores l) +
    (σ.flights.flatMap fun f => f.next.waiting).count l ≤ σ.log.countP (PoolCall.dials l)
  once : ∀ l, σ.log.countP (PoolCall.dials l) ≤ 1
  fresh : ∀ l, σ.fresh ≤ l → σ.log.countP (PoolCall.dials l) = 0

theorem PoolRun.inv_init (cfg : PoolConfig) : PoolRun.Inv cfg {} where
  rep := rep_init cfg
  homed linked pooled h := by cases h
  sound f hf := by cases hf
  sent before call after h := by simp at h
  census l := by simp [Pool.stored]
  homes l := by simp
  once l := by simp
  fresh l _ := by simp

variable {prior : Next}

theorem Does.homed {p : Pool} {fresh : LinkID} (h : Does cfg p fresh prior s new removed)
    {log : List PoolCall} (hhomed : Homed cfg log p)
    (hprior : prior.Sound cfg (AtHome log) (DialledIn log)) :
    Homed cfg (log ++ s.calls) s.pool := by
  intro linked pooled hlookup
  rcases h.moves.kept hlookup with ⟨old, hold, hlink, hendpoint⟩ | hnew
  · rw [← hlink, ← hendpoint]
    obtain ⟨hderives, hdialled, hstored⟩ := hhomed linked old hold
    exact ⟨hderives, mem_append_left _ hdialled, mem_append_left _ hstored⟩
  · obtain ⟨hderives, hstored, hdialled⟩ := h.storing _ hnew
    refine ⟨hderives, ?_, mem_append_right _ hstored⟩
    rcases hdialled with hdialled | ⟨target, rfl, hendpoint⟩
    · exact mem_append_right _ hdialled
    · obtain ⟨hhost, -, hbefore⟩ := hprior
      rw [Target.dialable, hhost, hendpoint] at hbefore
      exact mem_append_left _ hbefore

variable {flights : List Flight}

theorem count_flatMap_perm {flights' : List Flight} (h : flights.Perm flights')
    (owed : Flight → List LinkID) (l : LinkID) :
    (flights.flatMap owed).count l = (flights'.flatMap owed).count l :=
  (h.flatMap_right owed).count_eq l

theorem Does.dials_of_ne {p : Pool} {fresh : LinkID} (h : Does cfg p fresh prior s new removed)
    (hl : fresh ≠ l) : s.calls.countP (PoolCall.dials l) = 0 := by
  have hdials := h.dials l
  rw [count_eq_zero.mpr (fun hmem => hl (mem_singleton.mp hmem).symm)] at hdials
  exact Nat.le_zero.mp hdials

/-- A section keeps the invariant: what it dials, stores and leaves to be closed is what its
flight is gone or left with. -/
theorem PoolRun.Inv.ran (hinv : σ.Inv cfg) {gone others : List Flight}
    (hgone : gone = [] ∧ prior = .done ∨ gone = [⟨[], prior⟩])
    (hbefore : σ.flights.Perm (gone ++ others)) (hafter : flights.Perm (s.flight :: others))
    (hdoes : Does cfg σ.pool σ.fresh prior s new removed) : (σ.after flights s).Inv cfg := by
  have hprior : prior.Sound cfg (AtHome σ.log) (DialledIn σ.log) := by
    rcases hgone with ⟨-, rfl⟩ | rfl
    · trivial
    · exact hinv.sound ⟨[], prior⟩ (hbefore.mem_iff.mpr (by simp))
  have howes : ∀ l, (gone.flatMap Flight.owes).count l = prior.waiting.count l := by
    intro l
    rcases hgone with ⟨rfl, rfl⟩ | rfl <;> simp [Flight.owes, Next.waiting]
  have hwaits : ∀ l, (gone.flatMap fun f => f.next.waiting).count l = prior.waiting.count l := by
    intro l
    rcases hgone with ⟨rfl, rfl⟩ | rfl <;> simp [Next.waiting]
  refine ⟨hdoes.moves.rep hinv.rep, hdoes.homed hinv.homed hprior, ?_,
    hdoes.sent _ hinv.homed hprior hinv.sent, ?_, ?_, ?_, ?_⟩
  · intro f hf
    rcases mem_cons.mp (hafter.mem_iff.mp hf) with rfl | hf
    · exact hdoes.next _ hinv.homed hprior
    · exact (hinv.sound f (hbefore.mem_iff.mpr (mem_append_right _ hf))).grow
        (subset_append_left _ _)
  · intro l
    have hcensus := hinv.census l
    have hmoved := hdoes.moves.balance l
    have hsection := hdoes.census l
    have hquiet := hdoes.closes l
    rw [count_flatMap_perm hbefore, flatMap_append, count_append, howes] at hcensus
    simp only [PoolRun.after]
    rw [count_flatMap_perm hafter, flatMap_cons, count_append, Flight.owes,
      count_append, countP_append, countP_append]
    omega
  · intro l
    have hhomes := hinv.homes l
    have hsection := hdoes.census l
    have hstores := hdoes.stores l
    have hleft := hdoes.left l
    rw [count_flatMap_perm hbefore, flatMap_append, count_append, hwaits] at hhomes
    simp only [PoolRun.after]
    rw [count_flatMap_perm hafter, flatMap_cons, count_append, countP_append, countP_append]
    omega
  · intro l
    have honce := hinv.once l
    simp only [PoolRun.after]
    rw [countP_append]
    by_cases hl : σ.fresh = l
    · have hdials := hdoes.dials l
      have hnone := hinv.fresh l (Nat.le_of_eq hl)
      rw [hl, count_singleton_self] at hdials
      omega
    · rw [hdoes.dials_of_ne hl]
      exact honce
  · intro l hl
    have hnone := hinv.fresh l (Nat.le_of_lt hl)
    simp only [PoolRun.after]
    rw [countP_append, hdoes.dials_of_ne (Nat.ne_of_lt hl), hnone]

theorem PoolRun.Inv.returned (hinv : σ.Inv cfg)
    (hbefore : σ.flights.Perm (⟨[], .done⟩ :: flights)) :
    PoolRun.Inv cfg { σ with flights := flights } := by
  refine ⟨hinv.rep, hinv.homed, ?_, hinv.sent, ?_, ?_, hinv.once, hinv.fresh⟩
  · intro f hf
    exact hinv.sound f (hbefore.mem_iff.mpr (mem_cons_of_mem _ hf))
  · intro l
    have hcensus := hinv.census l
    rw [count_flatMap_perm hbefore] at hcensus
    exact hcensus
  · intro l
    have hhomes := hinv.homes l
    rw [count_flatMap_perm hbefore] at hhomes
    exact hhomes

theorem PoolRun.Inv.closed (hinv : σ.Inv cfg) {f : Flight} {others : List Flight} {link : LinkID}
    {closes : List LinkID} (hbefore : σ.flights.Perm (f :: others))
    (hlink : f.closes.Perm (link :: closes))
    (hafter : flights.Perm ({ f with closes := closes } :: others)) :
    PoolRun.Inv cfg { σ with flights := flights, log := σ.log ++ [.close link] } := by
  have hgrow : σ.log ⊆ σ.log ++ [.close link] := subset_append_left _ _
  have hdials : ∀ l, (σ.log ++ [PoolCall.close link]).countP (PoolCall.dials l) =
      σ.log.countP (PoolCall.dials l) := by
    intro l
    rw [countP_append]
    rfl
  refine ⟨hinv.rep, ?_, ?_, ?_, ?_, ?_, ?_, ?_⟩
  · intro linked pooled hlookup
    obtain ⟨hderives, hdialled, hstored⟩ := hinv.homed linked pooled hlookup
    exact ⟨hderives, hgrow hdialled, hgrow hstored⟩
  · intro g hg
    rcases mem_cons.mp (hafter.mem_iff.mp hg) with rfl | hg
    · exact (hinv.sound f (hbefore.mem_iff.mpr mem_cons_self)).grow hgrow
    · exact (hinv.sound g (hbefore.mem_iff.mpr (mem_cons_of_mem _ hg))).grow hgrow
  · exact hinv.sent.append (forall_mem_singleton.mpr trivial)
  · intro l
    have hcensus := hinv.census l
    have howed := hlink.count_eq l
    rw [count_flatMap_perm hbefore, flatMap_cons, count_append, Flight.owes,
      count_append] at hcensus
    rw [count_cons] at howed
    rw [hdials, count_flatMap_perm hafter, flatMap_cons, count_append, Flight.owes,
      count_append, countP_append, countP_cons, countP_nil]
    simp only [PoolCall.closes, beq_iff_eq, decide_eq_true_eq] at howed ⊢
    omega
  · intro l
    have hhomes := hinv.homes l
    rw [count_flatMap_perm hbefore, flatMap_cons, count_append] at hhomes
    rw [hdials, count_flatMap_perm hafter, flatMap_cons, count_append, countP_append]
    exact hhomes
  · intro l
    rw [hdials]
    exact hinv.once l
  · intro l hl
    rw [hdials]
    exact hinv.fresh l hl

/-- Every step keeps the invariant of the pool. -/
theorem PoolRun.Inv.step (σ : PoolRun) (act : PoolAct) (σ' : PoolRun) (h : σ.step cfg act = some σ')
    (hinv : σ.Inv cfg) : σ'.Inv cfg := by
  cases step_advances hinv.rep hinv.sound h with
  | ran gone others flights prior s new removed hgone hbefore hafter hdoes =>
    exact hinv.ran hgone hbefore hafter hdoes
  | returned flights hbefore => exact hinv.returned hbefore
  | closed f others flights link closes hbefore hlink hafter =>
    exact hinv.closed hbefore hlink hafter

/-- The invariant of the pool holds in every run. -/
theorem PoolRun.inv_exec (hrun : exec (PoolRun.step cfg) {} acts = some σ) : σ.Inv cfg :=
  exec_invariant PoolRun.Inv.step hrun (PoolRun.inv_init cfg)

/-! ## Isolation of the tenants -/

theorem PoolRun.Inv.one_home (hinv : σ.Inv cfg) {linked linked' : LinkKey}
    (h : PoolCall.stored linked l ∈ σ.log) (h' : PoolCall.stored linked' l ∈ σ.log) :
    linked = linked' := by
  have hhomes := hinv.homes l
  have honce := hinv.once l
  have hcount : σ.log.countP (PoolCall.stores l) ≤ 1 := by omega
  have hsame := eq_of_countP_le_one hcount h h' (decide_eq_true rfl) (decide_eq_true rfl)
  exact (PoolCall.stored.inj hsame).1

theorem PoolRun.Inv.one_dial (hinv : σ.Inv cfg) {target target' : Target}
    (h : PoolCall.dial target (some l) ∈ σ.log) (h' : PoolCall.dial target' (some l) ∈ σ.log) :
    target = target' := by
  have hsame := eq_of_countP_le_one (hinv.once l) h h' (decide_eq_true rfl) (decide_eq_true rfl)
  exact (PoolCall.dial.inj hsame).1

/-- In every run the routes and the bindings agree, tenants and the ceiling are kept, every
stored link was dialled for its Host at the address derived for its tenant, and what is sent
for a tenant is sent over a link stored for it before, and never for another. -/
theorem Pool.isolates_tenants (cfg : PoolConfig) {acts : List PoolAct} {σ : PoolRun}
    (hrun : exec (PoolRun.step cfg) {} acts = some σ) :
    (∀ tenant session host, σ.pool.routes ⟨tenant, session⟩ = some host ↔
      ∃ pooled, σ.pool.links.lookup ⟨host, tenant⟩ = some pooled ∧
        ⟨tenant, session⟩ ∈ pooled.bindings) ∧
      (∀ linked pooled, σ.pool.links.lookup linked = some pooled →
        (∀ key ∈ pooled.bindings, key.tenant = linked.tenant) ∧
        (∃ base, cfg.core.hostLinkEndpoint base linked.tenant = some pooled.endpoint) ∧
        ∀ target, PoolCall.dial target (some pooled.link) ∈ σ.log ↔
          target = { host := linked.host, endpoint := pooled.endpoint }) ∧
      σ.pool.links.keys.card ≤ cfg.maxLinks ∧
      ∀ before call after, σ.log = before ++ call :: after →
        call.SentOver fun tenant link =>
          ∃ host, PoolCall.stored ⟨host, tenant⟩ link ∈ before ∧
            ∀ linked, PoolCall.stored linked link ∈ σ.log → linked = ⟨host, tenant⟩ := by
  have hinv := PoolRun.inv_exec hrun
  refine ⟨?_, ?_, hinv.rep.ceiling, ?_⟩
  · intro tenant session host
    rw [hinv.rep.routes, mem_carries]
    rfl
  · intro linked pooled hlookup
    obtain ⟨hderives, hdialled, -⟩ := hinv.homed linked pooled hlookup
    refine ⟨?_, hderives, fun target => ⟨fun hmem => hinv.one_dial hmem hdialled, ?_⟩⟩
    · intro key hkey
      exact hinv.rep.tenants linked key (by rw [carries_of_lookup hlookup]; exact hkey)
    · rintro rfl
      exact hdialled
  · intro before call after hsplit
    refine (hinv.sent before call after hsplit).mono fun tenant link hhome => ?_
    obtain ⟨host, hstored⟩ := hhome
    refine ⟨host, hstored, fun linked hlinked => hinv.one_home hlinked ?_⟩
    rw [hsplit]
    exact mem_append_left _ hstored

/-- Core as a run of the pool sees it when every request is valid. -/
def plainPoolCore : PoolCore where
  validTarget _ := true
  validBind _ := true
  validUnbind _ := true
  validAttach _ := true
  validDelivery _ := true
  hostLinkEndpoint base tenant := some (base ++ "/" ++ tenant)

def plainPool : PoolConfig := ⟨plainPoolCore, 2, 60, by decide, by decide⟩

/-- Two tenants are bound to a Host, the Host moves and the second tenant is bound again, while
a command is delivered for the first over its old link. -/
def movedHost : List PoolAct :=
  let request (tenant : TenantID) (generation : Nat) : HostLinkBindRequest :=
    { version := 1, tenant := tenant, session := "s", host := "h", hostGeneration := generation
      leaseEpoch := 1, runtimeCompatibility := "", idempotencyKey := "" }
  [.bind ⟨"h", "a", 0⟩ (request "t" 1) true none 0,
    .bind ⟨"h", "a", 0⟩ (request "u" 1) true none 0,
    .deliverCommand "t" "s" { command := "c" },
    .bind ⟨"h", "b", 0⟩ (request "u" 2) true none 1, .resume 2 {}, .closeLink 3 0]

theorem isolates_tenants_movedHost :
    ∃ σ, exec (PoolRun.step plainPool) {} movedHost = some σ ∧
      σ.pool.routes ⟨"u", "s"⟩ = some "h" ∧ σ.log.length = 11 ∧
      (∃ pooled, σ.pool.links.lookup ⟨"h", "u"⟩ = some pooled ∧ ⟨"u", "s"⟩ ∈ pooled.bindings) ∧
      ∀ before call after, σ.log = before ++ call :: after →
        call.SentOver fun tenant link =>
          ∃ host, PoolCall.stored ⟨host, tenant⟩ link ∈ before ∧
            ∀ linked, PoolCall.stored linked link ∈ σ.log → linked = ⟨host, tenant⟩ := by
  obtain ⟨σ, hrun, hroute, hlength⟩ : ∃ σ, exec (PoolRun.step plainPool) {} movedHost = some σ ∧
      σ.pool.routes ⟨"u", "s"⟩ = some "h" ∧ σ.log.length = 11 := ⟨_, rfl, by decide +kernel⟩
  obtain ⟨hroutes, -, -, hsent⟩ := Pool.isolates_tenants plainPool hrun
  exact ⟨σ, hrun, hroute, hlength, (hroutes "u" "s" "h").mp hroute, hsent⟩

/-! ## No link is leaked -/

theorem stored_pos {p : Pool} :
    0 < p.stored l ↔ ∃ linked pooled, p.links.lookup linked = some pooled ∧ pooled.link = l := by
  unfold Pool.stored
  simp only [tally_pos, decide_eq_true_eq]

theorem countP_closes (log : List PoolCall) (l : LinkID) :
    log.countP (PoolCall.closes l) = log.count (.close l) := by
  refine countP_congr fun call _ => ?_
  cases call <;> simp [PoolCall.closes]

theorem closed_exec {σ' : PoolRun} (hrun : exec (PoolRun.step cfg) σ acts = some σ')
    (hinv : σ.Inv cfg) (hclosed : σ.pool.closed = true) : σ'.pool.closed = true := by
  apply exec_invariant_under PoolRun.Inv.step hrun hinv hclosed
  intro τ act τ' hτ hstep hτclosed
  cases step_advances hτ.rep hτ.sound hstep with
  | ran gone others flights prior s new removed hgone hbefore hafter hdoes =>
    exact hdoes.moves.closed hτclosed
  | _ => exact hτclosed

theorem closed_of_close (hrun : exec (PoolRun.step cfg) {} acts = some σ) {order : List LinkKey}
    (hclose : .close order ∈ acts) : σ.pool.closed = true := by
  obtain ⟨as, bs, rfl⟩ := append_of_mem hclose
  obtain ⟨τ, hbefore, hrest⟩ := exec_append.mp hrun
  obtain ⟨τ', hstep, hafter⟩ := exec_cons.mp hrest
  have hinv := PoolRun.Inv.step τ _ τ' hstep (PoolRun.inv_exec hbefore)
  refine closed_exec hafter hinv ?_
  obtain ⟨-, ⟨⟩⟩ := Option.ite_none_right_eq_some.mp hstep
  rfl

/-- No link is closed twice; once no operation is under way, every link ever dialled is the one
stored for its Host and tenant, never closed, or is closed once and not stored; and when the
pool was closed too, none is stored and each is closed once. -/
theorem Pool.leaks_no_link (cfg : PoolConfig) {acts : List PoolAct} {σ : PoolRun}
    (hrun : exec (PoolRun.step cfg) {} acts = some σ) :
    (∀ link, σ.log.count (.close link) ≤ 1) ∧
      (σ.flights = [] → ∀ target link, PoolCall.dial target (some link) ∈ σ.log →
        (∃ tenant base pooled, σ.pool.links.lookup ⟨target.host, tenant⟩ = some pooled ∧
            pooled.link = link ∧ cfg.core.hostLinkEndpoint base tenant = some target.endpoint ∧
            σ.log.count (.close link) = 0) ∨
          (∀ linked pooled, σ.pool.links.lookup linked = some pooled → pooled.link ≠ link) ∧
            σ.log.count (.close link) = 1) ∧
      ((∃ order, .close order ∈ acts) → σ.flights = [] →
        σ.pool.links = ∅ ∧
          ∀ target link, PoolCall.dial target (some link) ∈ σ.log →
            σ.log.count (.close link) = 1) := by
  have hinv := PoolRun.inv_exec hrun
  have hsettled : σ.flights = [] → ∀ target link, PoolCall.dial target (some link) ∈ σ.log →
      σ.log.count (.close link) + σ.pool.stored link = 1 := by
    intro hdone target link hdial
    have hcensus := hinv.census link
    have honce := hinv.once link
    have hpos : 0 < σ.log.countP (PoolCall.dials link) :=
      countP_pos_iff.mpr ⟨_, hdial, decide_eq_true rfl⟩
    rw [hdone, flatMap_nil, count_nil, countP_closes] at hcensus
    omega
  refine ⟨?_, ?_, ?_⟩
  · intro link
    have hcensus := hinv.census link
    have honce := hinv.once link
    rw [countP_closes] at hcensus
    omega
  · intro hdone target link hdial
    have hsum := hsettled hdone target link hdial
    by_cases hstored : 0 < σ.pool.stored link
    · obtain ⟨linked, pooled, hlookup, rfl⟩ := stored_pos.mp hstored
      obtain ⟨⟨base, hbase⟩, hdialled, -⟩ := hinv.homed linked pooled hlookup
      obtain rfl := hinv.one_dial hdial hdialled
      exact .inl ⟨linked.tenant, base, pooled, hlookup, rfl, hbase, by omega⟩
    · refine .inr ⟨?_, by omega⟩
      intro linked pooled hlookup hlink
      exact hstored (stored_pos.mpr ⟨linked, pooled, hlookup, hlink⟩)
  · rintro ⟨order, hclose⟩ hdone
    have hempty := hinv.rep.emptied (closed_of_close hrun hclose)
    refine ⟨hempty, fun target link hdial => ?_⟩
    have hsum := hsettled hdone target link hdial
    have hnone : σ.pool.stored link = 0 := by
      rw [Pool.stored, hempty]
      exact tally_empty _
    omega

/-- Two capability reads dial a link each, the second is surplus, and the pool is closed. -/
def racedDial : List PoolAct :=
  let target : Target := { host := "h", endpoint := "a" }
  [.accepts target "t", .accepts target "t", .resume 0 {}, .resume 1 {}, .resume 0 {},
    .resume 1 {}, .close [⟨"h", "t"⟩], .closeLink 1 0, .closeLink 2 0, .resume 2 {}, .resume 1 {},
    .resume 1 {}, .resume 0 {}, .resume 0 {}]

theorem leaks_no_link_racedDial :
    ∃ σ, exec (PoolRun.step plainPool) {} racedDial = some σ ∧
      σ.pool.links = ∅ ∧ σ.log.count (.close 2) = 1 ∧ σ.log.count (.close 3) = 1 := by
  obtain ⟨σ, hrun, hdone, hfirst, hsecond⟩ :
      ∃ σ, exec (PoolRun.step plainPool) {} racedDial = some σ ∧ σ.flights = [] ∧
        PoolCall.dial { host := "h", endpoint := "a/t" } (some 2) ∈ σ.log ∧
        PoolCall.dial { host := "h", endpoint := "a/t" } (some 3) ∈ σ.log :=
    ⟨_, rfl, by decide +kernel⟩
  obtain ⟨-, -, hclosed⟩ := Pool.leaks_no_link plainPool hrun
  obtain ⟨hempty, hclosed⟩ := hclosed ⟨[⟨"h", "t"⟩], by simp [racedDial]⟩ hdone
  exact ⟨σ, hrun, hempty, hclosed _ 2 hfirst, hclosed _ 3 hsecond⟩

end Factory.Hostlink
