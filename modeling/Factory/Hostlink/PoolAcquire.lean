import Factory.Hostlink.PoolInvariant

/-!
# What the pool's sections do to the link they acquire

`PoolRun.acquisition` reads off each step the acquire that returns in it. An acquire records the
generation of its advertisement on the link it finds, stores the link it dialled, or, after a dial
that lost a race, returns the racer's link as it stands (`Turn`); every other section leaves the
generation and the address of every link it does not remove (`Stays`).
-/

namespace Factory.Hostlink

open Runs

/-! ## Acquisitions -/

/-- An acquire that returned: for which Host and tenant, on which advertisement, the link it
returned and the link that one replaced. -/
structure Acquisition where
  linked : LinkKey
  dial : Target
  link : LinkID
  replaced : Option LinkID := none
deriving DecidableEq

/-- What `Bind` acquires a link for. -/
def Pool.bindDial (cfg : PoolConfig) (p : Pool) (target : Target) (req : HostLinkBindRequest) :
    Option (LinkKey × Target) :=
  if cfg.core.validTarget target ∧ req.host = target.host ∧ cfg.core.validBind req ∧
      p.closed = false ∧ (p.routes ⟨req.tenant, req.session⟩).any (· ≠ target.host) = false then
    (cfg.core.tenantTarget target req.tenant).map fun dial =>
      (linkOf ⟨req.tenant, req.session⟩ target.host, { dial with generation := req.hostGeneration })
  else none

/-- What `Attach` acquires a link for. -/
def Pool.attachDial (cfg : PoolConfig) (p : Pool) (target : Target) (req : HostLinkAttachRequest) :
    Option (LinkKey × Target) :=
  if cfg.core.validTarget target ∧ req.host = target.host ∧ cfg.core.validAttach req ∧
      p.closed = false then
    (cfg.core.tenantTarget target req.tenant).map fun dial =>
      (⟨target.host, req.tenant⟩, { dial with generation := req.hostGeneration })
  else none

/-- What the capability read acquires a link for. -/
def PoolConfig.acceptsDial (cfg : PoolConfig) (target : Target) (tenant : TenantID) :
    Option (LinkKey × Target) :=
  if cfg.core.validTarget target then
    (cfg.core.tenantTarget target tenant).map fun dial => (⟨target.host, tenant⟩, dial)
  else none

/-- What `acquireLocked` returned. -/
def Acquired.acquisition (a : Acquired) (linked : LinkKey) (dial : Target) : Option Acquisition :=
  match a.result with
  | .error _ => none
  | .ok (pooled, replaced) => some ⟨linked, dial, pooled.link, replaced⟩

/-- What a section of `acquireUnlocked` returned: its flight goes on to the negotiated reply. -/
def Section.acquisition (s : Section) (p : Pool) (linked : LinkKey) (dial : Target) :
    Option Acquisition :=
  match s.flight.next with
  | .negotiate _ link =>
    some ⟨linked, dial, link, ((p.links.lookup linked).filter (·.supersededBy dial)).map (·.link)⟩
  | _ => none

/-- The acquire that returns a link in a step. -/
def PoolRun.acquisition (cfg : PoolConfig) (σ : PoolRun) : PoolAct → Option Acquisition
  | .bind target req ok _ now =>
    (σ.pool.bindDial cfg target req).bind fun (linked, dial) =>
      (σ.pool.acquireLocked cfg linked dial σ.fresh ok now).acquisition linked dial
  | .attach target req ok now =>
    (σ.pool.attachDial cfg target req).bind fun (linked, dial) =>
      (σ.pool.acquireLocked cfg linked dial σ.fresh ok now).acquisition linked dial
  | .accepts target tenant =>
    (cfg.acceptsDial target tenant).bind fun (linked, dial) =>
      (σ.pool.acquireUnlocked cfg linked dial).acquisition σ.pool linked dial
  | .resume i answer =>
    match σ.flights[i]? with
    | some ⟨[], .dialled linked dial link⟩ =>
      (σ.pool.dialled cfg linked dial link answer.now).acquisition σ.pool linked dial
    | _ => none
  | _ => none

/-! ## What a section does to a stored link -/

/-- A link stored after was stored before, at the same address and generation. -/
def Stays (before after : Option PooledLink) : Prop :=
  ∀ new, after = some new → ∃ old, before = some old ∧ new.link = old.link ∧
    new.endpoint = old.endpoint ∧ new.generation = old.generation

theorem Stays.refl (l : Option PooledLink) : Stays l l := fun new h => ⟨new, h, rfl, rfl, rfl⟩

theorem Stays.trans {a b c : Option PooledLink} (h : Stays a b) (h' : Stays b c) : Stays a c := by
  intro new hnew
  obtain ⟨mid, hmid, hlink, hendpoint, hgeneration⟩ := h' new hnew
  obtain ⟨old, hold, hlink', hendpoint', hgeneration'⟩ := h mid hmid
  exact ⟨old, hold, hlink.trans hlink', hendpoint.trans hendpoint', hgeneration.trans hgeneration'⟩

/-- Every stored link stays, or is removed. -/
def Pool.Stay (p p' : Pool) : Prop :=
  ∀ linked, Stays (p.links.lookup linked) (p'.links.lookup linked)

theorem Pool.Stay.refl (p : Pool) : p.Stay p := fun _ => .refl _

variable {p : Pool}

theorem Pool.Stay.trans {p' p'' : Pool} (h : p.Stay p') (h' : p'.Stay p'') : p.Stay p'' :=
  fun linked => (h linked).trans (h' linked)

variable {linked : LinkKey}

theorem stay_insert {p' : Pool} (old : PooledLink) {new : PooledLink}
    (hlinks : p'.links = p.links.insert linked new) (hlookup : p.links.lookup linked = some old)
    (hlink : new.link = old.link) (hendpoint : new.endpoint = old.endpoint)
    (hgeneration : new.generation = old.generation) : p.Stay p' := by
  intro k found hfound
  rw [hlinks] at hfound
  by_cases hk : k = linked
  · subst hk
    rw [Finmap.lookup_insert] at hfound
    cases hfound
    exact ⟨old, hlookup, hlink, hendpoint, hgeneration⟩
  · rw [Finmap.lookup_insert_of_ne _ hk] at hfound
    exact ⟨found, hfound, rfl, rfl, rfl⟩

theorem stay_erase {p' : Pool} (hlinks : p'.links = p.links.erase linked) : p.Stay p' := by
  intro k found hfound
  rw [hlinks] at hfound
  by_cases hk : k = linked
  · subst hk
    rw [Finmap.lookup_erase] at hfound
    cases hfound
  · rw [Finmap.lookup_erase_ne hk] at hfound
    exact ⟨found, hfound, rfl, rfl, rfl⟩

theorem stay_drop (p : Pool) (linked : LinkKey) (stale : LinkID) :
    p.Stay (p.dropLinkLocked linked stale).1 := by
  rcases dropLinkLocked_cases p linked stale with ⟨old, hlookup, rfl⟩ | hkept
  · rw [dropLinkLocked_of_lookup hlookup]
    exact stay_erase rfl
  · rw [hkept]
    exact .refl p

theorem stay_reapLoop (deadline : Int) (order : List LinkKey) (p : Pool) (reaped : List LinkID) :
    p.Stay (Pool.reapLoop deadline order p reaped).1 := by
  induction order generalizing p reaped with
  | nil => exact .refl p
  | cons linked rest ih =>
    unfold Pool.reapLoop
    split
    · exact ih p reaped
    · split
      · exact ih p reaped
      · split
        · exact ih p reaped
        · exact Pool.Stay.trans (stay_erase rfl) (ih _ _)

theorem stay_unbind (cfg : PoolConfig) (p : Pool) (req : HostLinkUnbindRequest)
    (answer : Option LinkError) (now : Int) : p.Stay (p.unbind cfg req answer now).pool := by
  unfold Pool.unbind
  dsimp only
  split
  · exact .refl p
  split
  · exact .refl p
  split
  · exact .refl p
  split
  · exact .refl p
  split
  · exact fun _ => .refl _
  · rename_i pooled hlookup
    exact stay_insert pooled rfl hlookup rfl rfl rfl

/-- What an acquire does to the link stored under its key: it records the generation, finds the
link of a racer after its dial (`late`) and records nothing, or stores the link it dialled. -/
inductive Turn (late : Bool) (p p' : Pool) (calls : List PoolCall) (a : Acquisition) : Prop
  | observed (old : PooledLink) (hlookup : p.links.lookup a.linked = some old)
      (hlink : a.link = old.link) (hreplaced : a.replaced = none)
      (hafter : Stays (some (old.observe a.dial)) (p'.links.lookup a.linked))
  | surplus (hlate : late = true) (old : PooledLink)
      (hlookup : p.links.lookup a.linked = some old)
      (hlink : a.link = old.link) (hreplaced : a.replaced = none)
      (hafter : Stays (some old) (p'.links.lookup a.linked))
  | stored (now : Int) (hcalls : .stored a.linked a.link ∈ calls)
      (hbefore : p.links.lookup a.linked = none ∧ a.replaced = none ∨
        ∃ old, p.links.lookup a.linked = some old ∧ old.supersededBy a.dial = true ∧
          a.replaced = some old.link)
      (hafter : Stays (some (newPooledLink a.link a.dial now)) (p'.links.lookup a.linked))

/-- What a section that returns the acquire, if it does return one, does to the stored links. -/
structure Turns (late : Bool) (p p' : Pool) (calls : List PoolCall)
    (acquired : Option Acquisition) : Prop where
  turn : ∀ a, acquired = some a → Turn late p p' calls a
  elsewhere : ∀ linked, (∀ a, acquired = some a → a.linked ≠ linked) →
    Stays (p.links.lookup linked) (p'.links.lookup linked)

theorem Pool.Stay.turns {p' : Pool} (h : p.Stay p') (late : Bool) (calls : List PoolCall) :
    Turns late p p' calls none := ⟨nofun, fun linked _ => h linked⟩

theorem Turns.stay {late : Bool} {p' p'' : Pool} {calls : List PoolCall}
    {acquired : Option Acquisition} (h : Turns late p p' calls acquired) (hstay : p'.Stay p'')
    (more : List PoolCall) : Turns late p p'' (calls ++ more) acquired := by
  refine ⟨fun a ha => ?_, fun linked hne => (h.elsewhere linked hne).trans (hstay linked)⟩
  cases h.turn a ha with
  | observed old hlookup hlink hreplaced hafter =>
    exact .observed old hlookup hlink hreplaced (hafter.trans (hstay _))
  | surplus hlate old hlookup hlink hreplaced hafter =>
    exact .surplus hlate old hlookup hlink hreplaced (hafter.trans (hstay _))
  | stored now hcalls hbefore hafter =>
    exact .stored now (List.mem_append_left more hcalls) hbefore (hafter.trans (hstay _))

theorem storeLocked_turns (late : Bool) (p : Pool) (linked : LinkKey) (dial : Target)
    (link : LinkID) (now : Int)
    (hsuper : ∀ old, p.links.lookup linked = some old → old.supersededBy dial = true)
    (calls : List PoolCall) (hcalls : .stored linked link ∈ calls) :
    (p.storeLocked linked dial link now).2.1.link = link ∧
      (p.storeLocked linked dial link now).2.2 = (p.links.lookup linked).map (·.link) ∧
      Turns late p (p.storeLocked linked dial link now).1 calls
        (some ⟨linked, dial, link, (p.links.lookup linked).map (·.link)⟩) := by
  have hinsert : ∀ (links : Finmap fun _ : LinkKey => PooledLink),
      (links.insert linked (newPooledLink link dial now)).lookup linked =
        some (newPooledLink link dial now) := fun links => Finmap.lookup_insert _
  unfold Pool.storeLocked
  cases hlookup : p.links.lookup linked with
  | none =>
    refine ⟨rfl, rfl, ?_, ?_⟩
    · rintro _ ⟨⟩
      refine .stored now hcalls (.inl ⟨hlookup, rfl⟩) ?_
      rw [hinsert]
      exact .refl _
    · intro k hk
      rw [Finmap.lookup_insert_of_ne _ (hk _ rfl).symm]
      exact .refl _
  | some old =>
    dsimp only
    rw [dropLinkLocked_of_lookup hlookup]
    refine ⟨rfl, rfl, ?_, ?_⟩
    · rintro _ ⟨⟩
      refine .stored now hcalls (.inr ⟨old, hlookup, hsuper old hlookup, rfl⟩) ?_
      rw [hinsert]
      exact .refl _
    · intro k hk
      have hne : k ≠ linked := (hk _ rfl).symm
      rw [Finmap.lookup_insert_of_ne _ hne, Finmap.lookup_erase_ne hne]
      exact .refl _

theorem observe_turns {old : PooledLink} (dial : Target)
    (hlookup : p.links.lookup linked = some old) (calls : List PoolCall) :
    Turns false p { p with links := p.links.insert linked (old.observe dial) } calls
      (some ⟨linked, dial, old.link, none⟩) := by
  refine ⟨?_, fun k hk => ?_⟩
  · rintro _ ⟨⟩
    refine .observed old hlookup rfl rfl ?_
    rw [Finmap.lookup_insert]
    exact .refl _
  · rw [Finmap.lookup_insert_of_ne _ (hk _ rfl).symm]
    exact .refl _

/-- `acquireLocked` fails and changes nothing, records the generation on the link it finds, or
stores the one it dialled. -/
theorem acquireLocked_cases (cfg : PoolConfig) (p : Pool) (linked : LinkKey) (dial : Target)
    (fresh : LinkID) (ok : Bool) (now : Int) :
    (∃ calls e, p.acquireLocked cfg linked dial fresh ok now = ⟨p, calls, .error e⟩) ∨
      (∃ old, p.links.lookup linked = some old ∧ p.acquireLocked cfg linked dial fresh ok now =
        ⟨{ p with links := p.links.insert linked (old.observe dial) }, [],
          .ok (old.observe dial, none)⟩) ∨
      (∀ old, p.links.lookup linked = some old → old.supersededBy dial = true) ∧
        p.acquireLocked cfg linked dial fresh ok now =
          ⟨(p.storeLocked linked dial fresh now).1,
            [.dial dial.dialable (some fresh), .stored linked fresh],
            .ok (p.storeLocked linked dial fresh now).2⟩ := by
  unfold Pool.acquireLocked
  cases hlookup : p.links.lookup linked with
  | some old =>
    cases hsuper : old.supersededBy dial with
    | true =>
      cases ok with
      | true =>
        refine .inr (.inr ⟨?_, by simp [hsuper]⟩)
        rintro _ ⟨⟩
        exact hsuper
      | false => exact .inl ⟨_, _, by simp [hsuper]; exact ⟨rfl, rfl⟩⟩
    | false => exact .inr (.inl ⟨old, rfl, by simp [hsuper]⟩)
  | none =>
    by_cases hfull : cfg.maxLinks ≤ p.links.keys.card
    · exact .inl ⟨[], .linkLimit, by simp [hfull]⟩
    · cases ok with
      | true => exact .inr (.inr ⟨nofun, by simp [hfull]⟩)
      | false => exact .inl ⟨_, _, by simp [hfull]; exact ⟨rfl, rfl⟩⟩

/-- The rest of an operation that acquired a link under the lock. -/
structure Goes (a : Acquired) (s : Section) : Prop where
  stay : a.pool.Stay s.pool
  calls : ∃ more, s.calls = a.calls ++ more ∧ ∀ t, .dial t none ∉ more
  refused : ∀ e, a.result = .error e → s.pool = a.pool

/-- What a section that acquires a link does, and that one whose dial failed changes nothing. -/
structure Acquires (late : Bool) (p : Pool) (s : Section) (acquired : Option Acquisition) :
    Prop where
  turns : Turns late p s.pool s.calls acquired
  failed : ∀ t, .dial t none ∈ s.calls → s.pool = p

theorem Pool.Stay.acquires {late : Bool} {s : Section} (h : p.Stay s.pool)
    (hcalls : ∀ t, .dial t none ∉ s.calls) : Acquires late p s none :=
  ⟨h.turns late s.calls, fun t ht => absurd ht (hcalls t)⟩

theorem acquires_quiet {late : Bool} {s : Section} (hpool : s.pool = p)
    (hcalls : ∀ t, .dial t none ∉ s.calls) : Acquires late p s none :=
  Pool.Stay.acquires (hpool ▸ .refl p) hcalls

variable {cfg : PoolConfig}

theorem Goes.acquires {dial : Target} {fresh : LinkID} {ok : Bool} {now : Int} {s : Section}
    (h : Goes (p.acquireLocked cfg linked dial fresh ok now) s) :
    Acquires false p s
      ((p.acquireLocked cfg linked dial fresh ok now).acquisition linked dial) := by
  obtain ⟨hstay, ⟨more, hcalls, hmore⟩, hrefused⟩ := h
  rcases acquireLocked_cases cfg p linked dial fresh ok now with
    ⟨calls, e, heq⟩ | ⟨old, hlookup, heq⟩ | ⟨hsuper, heq⟩
  · rw [heq] at hrefused ⊢
    have hpool : s.pool = p := hrefused e rfl
    refine ⟨?_, fun _ _ => hpool⟩
    rw [hpool]
    exact (Pool.Stay.refl p).turns false s.calls
  · rw [heq] at hstay hcalls ⊢
    refine ⟨?_, fun t ht => ?_⟩
    · rw [hcalls]
      simp only [Acquired.acquisition, observe_link]
      exact (observe_turns dial hlookup []).stay hstay more
    · rw [hcalls] at ht
      exact absurd ht (hmore t)
  · rw [heq] at hstay hcalls ⊢
    obtain ⟨hlink, hreplaced, hturns⟩ := storeLocked_turns false p linked dial fresh now hsuper
      [.dial dial.dialable (some fresh), .stored linked fresh] (by simp)
    refine ⟨?_, fun t ht => ?_⟩
    · rw [hcalls]
      simp only [Acquired.acquisition, hlink, hreplaced]
      exact hturns.stay hstay more
    · rw [hcalls] at ht
      rcases List.mem_append.mp ht with ht | ht
      · simp at ht
      · exact absurd ht (hmore t)

theorem acquireLocked_lookup {dial : Target} {fresh : LinkID} {ok : Bool} {now : Int}
    {pooled : PooledLink} {replaced : Option LinkID}
    (h : (p.acquireLocked cfg linked dial fresh ok now).result = .ok (pooled, replaced)) :
    (p.acquireLocked cfg linked dial fresh ok now).pool.links.lookup linked = some pooled := by
  rcases acquireLocked_cases cfg p linked dial fresh ok now with
    ⟨calls, e, heq⟩ | ⟨old, hlookup, heq⟩ | ⟨hsuper, heq⟩
  · rw [heq] at h
    cases h
  · rw [heq] at h ⊢
    cases h
    exact Finmap.lookup_insert _
  · rw [heq] at h ⊢
    cases Except.ok.inj h
    exact Finmap.lookup_insert _

/-- A check that refuses: what is acquired is acquired past it. -/
theorem acquires_check {d c rest : Prop} [Decidable d] [Decidable c] [Decidable rest]
    {next : Section} {err : Option PoolError} {x : Option (LinkKey × Target)}
    {f : LinkKey × Target → Option Acquisition} (hd : d ↔ ¬ c)
    (hnext : c → Acquires false p next ((if rest then x else none).bind f)) :
    Acquires false p (if d then { pool := p, err := err } else next)
      ((if c ∧ rest then x else none).bind f) := by
  by_cases hc : c
  · rw [if_neg fun h => hd.mp h hc]
    simpa only [hc, true_and] using hnext hc
  · rw [if_pos (hd.mpr hc), if_neg fun h => hc h.1]
    exact acquires_quiet rfl (by simp)

variable (cfg p) (fresh : LinkID) (target : Target)

theorem bind_acquires (req : HostLinkBindRequest) (ok : Bool) (answer : Option LinkError)
    (now : Int) :
    Acquires false p (p.bind cfg fresh target req ok answer now)
      ((p.bindDial cfg target req).bind fun (linked, dial) =>
        (p.acquireLocked cfg linked dial fresh ok now).acquisition linked dial) := by
  refine acquires_check (by simp) fun _ => acquires_check Iff.rfl fun _ =>
    acquires_check (by simp) fun _ => ?_
  cases htarget : cfg.core.tenantTarget target req.tenant with
  | none =>
    simp only [Option.map_none, ite_self, Option.bind_none]
    exact acquires_quiet rfl (by simp)
  | some dial =>
    refine acquires_check (by simp) fun _ => ?_
    split
    · rename_i hbound
      rw [hbound, if_neg (by simp)]
      exact acquires_quiet rfl (by simp)
    rename_i hbound
    rw [if_pos (Bool.eq_false_of_not_eq_true hbound)]
    simp only [Option.map_some, Option.bind_some]
    refine Goes.acquires ?_
    have hlookup := @acquireLocked_lookup p (linkOf ⟨req.tenant, req.session⟩ target.host) cfg
      { dial with generation := req.hostGeneration } fresh ok now
    generalize p.acquireLocked cfg _ _ fresh ok now = a at hlookup ⊢
    cases hresult : a.result with
    | error e => exact ⟨.refl _, ⟨[], by simp⟩, fun _ _ => rfl⟩
    | ok r =>
      obtain ⟨pooled, moved⟩ := r
      have hstored := hlookup hresult
      cases answer with
      | none =>
        refine ⟨stay_insert pooled rfl hstored rfl rfl rfl, ⟨_, rfl, by simp⟩, ?_⟩
        intro e he
        cases hresult.symm.trans he
      | some e =>
        refine ⟨?_, ⟨_, rfl, by simp⟩, ?_⟩
        · dsimp only
          split
          · exact stay_drop _ _ _
          · exact .refl _
        · intro e he
          cases hresult.symm.trans he

theorem attach_acquires (req : HostLinkAttachRequest) (ok : Bool) (now : Int) :
    Acquires false p (p.attach cfg fresh target req ok now)
      ((p.attachDial cfg target req).bind fun (linked, dial) =>
        (p.acquireLocked cfg linked dial fresh ok now).acquisition linked dial) := by
  refine acquires_check (by simp) fun _ => acquires_check Iff.rfl fun _ =>
    acquires_check (by simp) fun _ => ?_
  cases htarget : cfg.core.tenantTarget target req.tenant with
  | none =>
    simp only [Option.map_none, ite_self, Option.bind_none]
    exact acquires_quiet rfl (by simp)
  | some dial =>
    dsimp only
    split
    · rename_i hclosed
      rw [hclosed, if_neg (by simp)]
      exact acquires_quiet rfl (by simp)
    rename_i hclosed
    rw [if_pos (Bool.eq_false_of_not_eq_true hclosed)]
    refine Goes.acquires ?_
    generalize p.acquireLocked cfg _ _ fresh ok now = a
    cases hresult : a.result <;> exact ⟨.refl _, ⟨[], by simp⟩, fun _ _ => rfl⟩

theorem acquireUnlocked_acquires (linked : LinkKey) (dial : Target) :
    Acquires false p (p.acquireUnlocked cfg linked dial)
      ((p.acquireUnlocked cfg linked dial).acquisition p linked dial) := by
  have hsame : ∀ flight err, (∀ k link, flight.next ≠ .negotiate k link) →
      Acquires false p { pool := p, flight := flight, err := err }
        (Section.acquisition { pool := p, flight := flight, err := err } p linked dial) := by
    intro flight err hnext
    have hnone : Section.acquisition { pool := p, flight := flight, err := err } p linked dial =
        none := by
      unfold Section.acquisition
      split
      · rename_i k link heq
        exact absurd heq (hnext k link)
      · rfl
    rw [hnone]
    exact acquires_quiet rfl (by simp)
  unfold Pool.acquireUnlocked
  split
  · exact hsame _ _ (by simp)
  · split
    · rename_i old hlookup
      split
      · exact hsame _ _ (by simp)
      · rename_i hsuper
        refine ⟨?_, by simp⟩
        simp only [Section.acquisition, hlookup, Option.filter_some, hsuper]
        exact observe_turns dial hlookup []
    · split
      · exact hsame _ _ (by simp)
      · exact hsame _ _ (by simp)

theorem dialled_acquires (linked : LinkKey) (dial : Target) (link : LinkID) (now : Int) :
    Acquires true p (p.dialled cfg linked dial link now)
      ((p.dialled cfg linked dial link now).acquisition p linked dial) := by
  have hkept : (∀ old, p.links.lookup linked = some old → old.supersededBy dial = true) →
      Turns true p (p.storeLocked linked dial link now).1 [.stored linked link]
        (some ⟨linked, dial, (p.storeLocked linked dial link now).2.1.link,
          ((p.links.lookup linked).filter (·.supersededBy dial)).map (·.link)⟩) := by
    intro hsuper
    obtain ⟨hlink, -, hturns⟩ := storeLocked_turns true p linked dial link now hsuper
      [.stored linked link] (by simp)
    have hfilter :
        (p.links.lookup linked).filter (·.supersededBy dial) = p.links.lookup linked := by
      cases hlookup : p.links.lookup linked with
      | none => rfl
      | some old => simp [hsuper old hlookup]
    rw [hlink, hfilter]
    exact hturns
  unfold Pool.dialled
  dsimp only
  split
  · exact acquires_quiet rfl (by simp)
  · split
    · rename_i old hlookup
      split
      · rename_i hsuper
        refine ⟨hkept ?_, by simp⟩
        intro old' hold'
        cases hlookup.symm.trans hold'
        exact hsuper
      · rename_i hsuper
        refine ⟨⟨?_, ?_⟩, by simp⟩
        · simp only [Section.acquisition, hlookup, Option.filter_some, hsuper]
          rintro _ ⟨⟩
          refine .surplus rfl old hlookup rfl rfl ?_
          rw [hlookup]
          exact .refl _
        · exact fun _ _ => .refl _
    · rename_i hlookup
      split
      · exact acquires_quiet rfl (by simp)
      · refine ⟨hkept ?_, by simp⟩
        intro old hold
        cases hlookup.symm.trans hold

theorem accepts_acquires (target : Target) (tenant : TenantID) :
    Acquires false p (p.accepts cfg target tenant)
      ((cfg.acceptsDial target tenant).bind fun (linked, dial) =>
        (p.acquireUnlocked cfg linked dial).acquisition p linked dial) := by
  unfold PoolConfig.acceptsDial Pool.accepts
  cases cfg.core.validTarget target with
  | false => exact acquires_quiet rfl (by simp)
  | true =>
    cases cfg.core.tenantTarget target tenant with
    | none => exact acquires_quiet rfl (by simp)
    | some dial => exact acquireUnlocked_acquires ..

theorem unbind_acquires (req : HostLinkUnbindRequest) (answer : Option LinkError) (now : Int) :
    Acquires false p (p.unbind cfg req answer now) none := by
  refine Pool.Stay.acquires (stay_unbind _ _ _ _ _) ?_
  intro t ht
  unfold Pool.unbind at ht
  dsimp only at ht
  split at ht
  · cases ht
  split at ht
  · cases ht
  split at ht
  · cases ht
  split at ht
  · cases ht
  split at ht
  · cases ht
  · simp at ht

theorem deliverCommand_acquires (tenant : TenantID) (session : SessionID)
    (delivery : HostLinkCommandDelivery) :
    Acquires false p (p.deliverCommand cfg tenant session delivery) none := by
  unfold Pool.deliverCommand
  split
  · exact acquires_quiet rfl (by simp)
  split
  · exact acquires_quiet rfl (by simp)
  split
  · exact acquires_quiet rfl (by simp)
  · exact acquires_quiet rfl (by simp)

theorem subscribe_acquires (tenant : TenantID) (session : SessionID) :
    Acquires false p (p.subscribe tenant session) none := by
  unfold Pool.subscribe
  split
  · exact acquires_quiet rfl (by simp)
  split
  · exact acquires_quiet rfl (by simp)
  · exact acquires_quiet rfl (by simp)

variable {cfg p}

theorem resume_acquires {fresh : LinkID} {answer : Answer} {prior : Next} {s : Section}
    (hprior : ∀ linked dial link, prior ≠ .dialled linked dial link)
    (hs : Flight.resume cfg p fresh answer prior = some s) : Acquires true p s none := by
  cases prior with
  | done => cases hs
  | dialled linked dial link => exact absurd rfl (hprior linked dial link)
  | evict linked link =>
    cases hs
    exact Pool.Stay.acquires (stay_drop _ _ _) (by simp [Pool.evict])
  | dial linked target =>
    simp only [Flight.resume] at hs
    split at hs
    · cases hs
      exact acquires_quiet rfl (by simp)
    · cases hs
      exact ⟨(Pool.Stay.refl _).turns _ _, fun _ _ => rfl⟩
  | subscribe link tenant session =>
    simp only [Flight.resume] at hs
    split at hs
    · cases hs
      exact acquires_quiet rfl (by simp)
    · cases hs
      exact acquires_quiet rfl (by simp)
  | _ =>
    cases hs
    exact acquires_quiet rfl (by simp)

/-! ## Steps -/

/-- The steps that may be a section of `acquireUnlocked` after its dial. -/
def PoolAct.late : PoolAct → Bool
  | .resume _ _ => true
  | _ => false

/-- What a step does for the acquire that returns in it. -/
theorem step_acquires {σ σ' : PoolRun} {act : PoolAct} (h : σ.step cfg act = some σ') :
    ∃ calls, σ'.log = σ.log ++ calls ∧
      Turns act.late σ.pool σ'.pool calls (σ.acquisition cfg act) ∧
      ∀ t, .dial t none ∈ calls → σ'.pool = σ.pool := by
  have hsection : ∀ {flights s}, Acquires act.late σ.pool s (σ.acquisition cfg act) →
      ∃ calls, (σ.after flights s).log = σ.log ++ calls ∧
        Turns act.late σ.pool (σ.after flights s).pool calls (σ.acquisition cfg act) ∧
        ∀ t, .dial t none ∈ calls → (σ.after flights s).pool = σ.pool :=
    fun hacquires => ⟨_, rfl, hacquires.turns, hacquires.failed⟩
  cases act with
  | bind target req ok answer now =>
    cases h
    exact hsection (bind_acquires ..)
  | attach target req ok now =>
    cases h
    exact hsection (attach_acquires ..)
  | accepts target tenant =>
    cases h
    exact hsection (accepts_acquires ..)
  | unbind req answer now =>
    cases h
    exact hsection (unbind_acquires ..)
  | deliverCommand tenant session delivery =>
    cases h
    exact hsection (deliverCommand_acquires ..)
  | subscribe tenant session =>
    cases h
    exact hsection (subscribe_acquires ..)
  | unsubscribe tenant session order =>
    obtain ⟨-, ⟨⟩⟩ := Option.ite_none_right_eq_some.mp h
    exact hsection (acquires_quiet rfl (by simp [Pool.unsubscribe]))
  | reapIdle now order =>
    obtain ⟨-, ⟨⟩⟩ := Option.ite_none_right_eq_some.mp h
    exact hsection (Pool.Stay.acquires (stay_reapLoop _ _ _ _) (by simp [Pool.reapIdle]))
  | close order =>
    obtain ⟨-, ⟨⟩⟩ := Option.ite_none_right_eq_some.mp h
    exact hsection (Pool.Stay.acquires (fun linked => nofun) (by simp [Pool.close]))
  | closeLink i j =>
    simp only [PoolRun.step] at h
    split at h
    · cases h
    split at h
    · cases h
    cases h
    exact ⟨_, rfl, (Pool.Stay.refl _).turns _ _, by simp⟩
  | resume i answer =>
    simp only [PoolRun.step] at h
    split at h
    · cases h
    rename_i f hf
    obtain ⟨closes, prior⟩ := f
    split at h
    · rename_i hcloses
      cases hcloses
      have hnone : (∀ linked dial link, prior ≠ .dialled linked dial link) →
          σ.acquisition cfg (.resume i answer) = none := by
        intro hprior
        simp only [PoolRun.acquisition, hf]
        split
        · rename_i linked dial link heq
          cases heq
          exact absurd rfl (hprior linked dial link)
        · rfl
      split at h
      · rename_i hdone
        cases h
        have hprior : prior = .done := resume_none hdone
        rw [hnone (by rw [hprior]; simp)]
        exact ⟨[], (List.append_nil _).symm, (Pool.Stay.refl _).turns _ _, by simp⟩
      · rename_i s hs
        cases h
        refine hsection ?_
        by_cases hdialled : ∃ linked dial link, prior = .dialled linked dial link
        · obtain ⟨linked, dial, link, rfl⟩ := hdialled
          cases hs
          simp only [PoolRun.acquisition, hf]
          exact dialled_acquires ..
        · have hprior : ∀ linked dial link, prior ≠ .dialled linked dial link :=
            fun linked dial link heq => hdialled ⟨linked, dial, link, heq⟩
          rw [hnone hprior]
          exact resume_acquires hprior hs
    · cases h

end Factory.Hostlink
