import Factory.Hostlink.PoolSpec

/-!
# The sections of the pool's operations

What each operation does in its first critical section (`Started`), and what a flight does in a
later one (`Flight.resume_spec`): how it moves the pool, which links it dials, stores and leaves
to be closed, and over which links it sends.
-/

namespace Factory.Hostlink

open List

/-! ## What a section does -/

/-- The address a link is stored with is derived for its tenant. -/
def PoolConfig.Derives (cfg : PoolConfig) (linked : LinkKey) (endpoint : InternalEndpoint) : Prop :=
  ∃ base, cfg.core.hostLinkEndpoint base linked.tenant = some endpoint

/-- What a section that dials and stores a link calls. -/
def Storing.calls (st : Storing) : List PoolCall :=
  [.dial { host := st.linked.host, endpoint := st.endpoint } (some st.link),
    .stored st.linked st.link]

/-- A call that neither returns a link, nor stores nor closes one. -/
def PoolCall.Plain : PoolCall → Prop
  | .dial _ link => link = none
  | .stored _ _ => False
  | .close _ => False
  | _ => True

/-- What is sent for a tenant is sent over a link that is at home with the tenant. -/
def PoolCall.SentOver (home : TenantID → LinkID → Prop) : PoolCall → Prop
  | .bind link req => home req.tenant link
  | .unbind link req => home req.tenant link
  | .attach link req => home req.tenant link
  | .deliverCommand link tenant _ _ => home tenant link
  | .subscribe link tenant _ => home tenant link
  | .unsubscribe link tenant _ => home tenant link
  | _ => True

/-- What a flight will send is sound in the same sense, and what it will dial is the address
derived for the tenant it is stored under. -/
def Next.Sound (cfg : PoolConfig) (home : TenantID → LinkID → Prop)
    (dialled : Target → LinkID → Prop) : Next → Prop
  | .attach _ link req => home req.tenant link
  | .dial linked target => target.host = linked.host ∧ cfg.Derives linked target.endpoint
  | .dialled linked target link =>
    target.host = linked.host ∧ cfg.Derives linked target.endpoint ∧ dialled target.dialable link
  | .deliver link tenant _ _ => home tenant link
  | .subscribe link tenant _ => home tenant link
  | .unsubscribe links tenant _ => ∀ link ∈ links, home tenant link
  | _ => True

/-- The link a flight dialled and has not found a place for. -/
def Next.waiting : Next → List LinkID
  | .dialled _ _ link => [link]
  | _ => []

/-- The pool stores the link for the tenant, or the section does. -/
def Reaches (p : Pool) (new : List Storing) (tenant : TenantID) (link : LinkID) : Prop :=
  (∃ linked pooled, p.links.lookup linked = some pooled ∧ pooled.link = link ∧
    linked.tenant = tenant) ∨ ∃ st ∈ new, st.link = link ∧ st.linked.tenant = tenant

variable {cfg : PoolConfig} {p : Pool} {new : List Storing} {linked : LinkKey}

theorem Moves.reaches {p' : Pool} {removed : List LinkID} (h : Moves cfg p new removed p')
    {pooled : PooledLink} (hlookup : p'.links.lookup linked = some pooled) :
    Reaches p new linked.tenant pooled.link := by
  rcases h.kept hlookup with ⟨old, hold, hlink, -⟩ | hnew
  · exact .inl ⟨linked, old, hold, hlink, rfl⟩
  · exact .inr ⟨_, hnew, rfl, rfl⟩

/-- What the first section of an operation does. -/
structure Started (cfg : PoolConfig) (p : Pool) (fresh : LinkID) (s : Section)
    (new : List Storing) (rest : List PoolCall) : Prop where
  moves : Moves cfg p new s.flight.closes s.pool
  calls : s.calls = new.flatMap Storing.calls ++ rest
  single : new.length ≤ 1
  storing : ∀ st ∈ new, st.link = fresh ∧ cfg.Derives st.linked st.endpoint
  plain : ∀ call ∈ rest, call.Plain ∧ call.SentOver (Reaches p new)
  next : s.flight.next.Sound cfg (Reaches p new) fun _ _ => False
  placed : s.flight.next.waiting = []

theorem started_refused (cfg : PoolConfig) (p : Pool) (fresh : LinkID) (err : Option PoolError)
    {rest : List PoolCall} (hrest : ∀ call ∈ rest, call.Plain ∧ call.SentOver (Reaches p [])) :
    Started cfg p fresh { pool := p, calls := rest, err := err } [] rest :=
  ⟨.refl p, rfl, by simp, by simp, hrest, trivial, rfl⟩

theorem started_error (cfg : PoolConfig) (p : Pool) (fresh : LinkID) (err : Option PoolError) :
    ∃ new rest, Started cfg p fresh { pool := p, err := err } new rest :=
  ⟨[], [], started_refused cfg p fresh err (by simp)⟩

theorem storeLocked_moves (hrep : Rep cfg p) (hopen : p.closed = false)
    (hroom : p.links.lookup linked = none → p.links.keys.card < cfg.maxLinks) (dial : Target)
    (link : LinkID) (now : Int) :
    Moves cfg p [⟨linked, dial.endpoint, link⟩] (p.storeLocked linked dial link now).2.2.toList
        (p.storeLocked linked dial link now).1 ∧
      (p.storeLocked linked dial link now).2.1 = newPooledLink link dial now ∧
      (p.storeLocked linked dial link now).1.links.lookup linked =
        some (newPooledLink link dial now) ∧
      ∀ key host, (p.storeLocked linked dial link now).1.routes key = some host →
        p.routes key = some host := by
  unfold Pool.storeLocked
  cases hlookup : p.links.lookup linked with
  | none =>
    refine ⟨?_, rfl, Finmap.lookup_insert _, fun key host h => h⟩
    exact .store p linked dial link now hlookup (hroom hlookup) hopen
  | some current =>
    dsimp only
    have hdrop : Moves cfg p [] _ _ := .drop p linked current hlookup
    have hcard := card_keys_erase hlookup
    have hceiling := hrep.ceiling
    rw [dropLinkLocked_of_lookup hlookup] at hdrop ⊢
    refine ⟨?_, rfl, Finmap.lookup_insert _, ?_⟩
    · refine hdrop.trans (.store _ linked dial link now (Finmap.lookup_erase _ _) ?_ hopen)
      dsimp only
      omega
    · intro key host hroute
      exact (Option.filter_eq_some_iff.mp hroute).1

/-- What acquiring a link did, when it did not fail: it stores at most the link just dialled,
and no session changes its Host. -/
structure Acquiring (cfg : PoolConfig) (p : Pool) (linked : LinkKey) (dial : Target)
    (fresh : LinkID) (a : Acquired) (pooled : PooledLink) (replaced : Option LinkID)
    (new : List Storing) : Prop where
  moves : Moves cfg p new replaced.toList a.pool
  calls : a.calls = new.flatMap Storing.calls
  single : new.length ≤ 1
  storing : ∀ st ∈ new, st = ⟨linked, dial.endpoint, fresh⟩
  lookup : a.pool.links.lookup linked = some pooled
  routes : ∀ key host, a.pool.routes key = some host → p.routes key = some host

theorem acquireLocked_spec (hrep : Rep cfg p) (hopen : p.closed = false) (linked : LinkKey)
    (dial : Target) (hhost : dial.host = linked.host) (fresh : LinkID) (ok : Bool) (now : Int) :
    match (p.acquireLocked cfg linked dial fresh ok now).result with
    | .error _ =>
      (p.acquireLocked cfg linked dial fresh ok now).pool = p ∧
        ((p.acquireLocked cfg linked dial fresh ok now).calls = [] ∨
          (p.acquireLocked cfg linked dial fresh ok now).calls = [.dial dial.dialable none])
    | .ok (pooled, replaced) =>
      ∃ new, Acquiring cfg p linked dial fresh (p.acquireLocked cfg linked dial fresh ok now)
        pooled replaced new := by
  have hstore : (p.links.lookup linked = none → p.links.keys.card < cfg.maxLinks) →
      Acquiring cfg p linked dial fresh
        { pool := (p.storeLocked linked dial fresh now).1
          calls := [.dial dial.dialable (some fresh), .stored linked fresh]
          result := .ok (p.storeLocked linked dial fresh now).2 }
        (p.storeLocked linked dial fresh now).2.1 (p.storeLocked linked dial fresh now).2.2
        [⟨linked, dial.endpoint, fresh⟩] := by
    intro hroom
    obtain ⟨hmoves, hpooled, hlookup, hroutes⟩ := storeLocked_moves hrep hopen hroom dial fresh now
    refine ⟨hmoves, ?_, Nat.le_refl 1, by simp, hpooled ▸ hlookup, hroutes⟩
    simp [Storing.calls, Target.dialable, hhost]
  unfold Pool.acquireLocked
  cases hlookup : p.links.lookup linked with
  | some current =>
    by_cases hsuper : current.supersededBy dial = true
    · cases ok with
      | false => simp [hsuper]
      | true =>
        simp only [hsuper, if_true]
        exact ⟨_, hstore (fun hnone => by rw [hlookup] at hnone; cases hnone)⟩
    · simp only [hsuper]
      refine ⟨[], ?_, rfl, Nat.zero_le 1, by simp, Finmap.lookup_insert _, fun key host h => h⟩
      exact .overwrite p linked current _ hlookup (observe_link current dial)
        (observe_endpoint current dial) (observe_bindings current dial)
  | none =>
    by_cases hfull : cfg.maxLinks ≤ p.links.keys.card
    · simp [hfull]
    · cases ok with
      | false => simp [hfull]
      | true =>
        simp only [hfull, if_false, if_true]
        exact ⟨_, hstore (fun _ => Nat.lt_of_not_le hfull)⟩

/-! ## First sections -/

variable {tenant : TenantID}

theorem tenantTarget_some {core : PoolCore} {base dial : Target}
    (h : core.tenantTarget base tenant = some dial) :
    dial.host = base.host ∧ core.hostLinkEndpoint base.endpoint tenant = some dial.endpoint := by
  obtain ⟨endpoint, hendpoint, hdial⟩ := Option.map_eq_some_iff.mp h
  subst hdial
  exact ⟨rfl, hendpoint⟩

variable {calls : List PoolCall}

theorem refused_plain {dial : Target} (h : calls = [] ∨ calls = [.dial dial.dialable none]) :
    ∀ call ∈ calls, call.Plain ∧ call.SentOver (Reaches p []) := by
  intro call hcall
  rcases h with h | h
  · simp [h] at hcall
  · rw [h, mem_singleton] at hcall
    subst hcall
    exact ⟨rfl, trivial⟩

theorem Acquiring.started {dial : Target} {fresh : LinkID} {a : Acquired} {pooled : PooledLink}
    {replaced : Option LinkID} (h : Acquiring cfg p linked dial fresh a pooled replaced new)
    (hderives : cfg.Derives linked dial.endpoint) {s : Section} {rest : List PoolCall}
    {more : List LinkID} (hmoves : Moves cfg a.pool [] more s.pool)
    (hcloses : s.flight.closes = replaced.toList ++ more) (hcalls : s.calls = a.calls ++ rest)
    (hrest : ∀ call ∈ rest, call.Plain ∧ call.SentOver (Reaches p new))
    (hnext : s.flight.next.Sound cfg (Reaches p new) fun _ _ => False)
    (hplaced : s.flight.next.waiting = []) : Started cfg p fresh s new rest := by
  refine ⟨?_, by rw [hcalls, h.calls], h.single, ?_, hrest, hnext, hplaced⟩
  · have hall := h.moves.trans hmoves
    rw [append_nil, ← hcloses] at hall
    exact hall
  · intro st hst
    rw [h.storing st hst]
    exact ⟨rfl, hderives⟩

/-- The first section of `Bind`. -/
theorem bind_started (hrep : Rep cfg p) (fresh : LinkID) (target : Target)
    (req : HostLinkBindRequest) (ok : Bool) (answer : Option LinkError) (now : Int) :
    ∃ new rest, Started cfg p fresh (p.bind cfg fresh target req ok answer now) new rest := by
  unfold Pool.bind
  split
  · exact started_error ..
  split
  · exact started_error ..
  split
  · exact started_error ..
  cases htarget : cfg.core.tenantTarget target req.tenant with
  | none => exact started_error ..
  | some dial =>
    obtain ⟨hhost, hendpoint⟩ := tenantTarget_some htarget
    dsimp only
    split
    · exact started_error ..
    rename_i hclosed
    split
    · exact started_error ..
    rename_i hfree
    have hspec := acquireLocked_spec hrep (Bool.eq_false_of_not_eq_true hclosed)
      (linkOf ⟨req.tenant, req.session⟩ target.host)
      { dial with generation := req.hostGeneration } hhost fresh ok now
    generalize p.acquireLocked cfg _ _ fresh ok now = a at hspec ⊢
    cases hresult : a.result with
    | error e =>
      rw [hresult] at hspec
      obtain ⟨hpool, hcalls⟩ := hspec
      rw [hpool]
      exact ⟨_, _, started_refused cfg p fresh _ (refused_plain hcalls)⟩
    | ok r =>
      obtain ⟨pooled, moved⟩ := r
      rw [hresult] at hspec
      obtain ⟨new, hacq⟩ := hspec
      have hsent : ∀ call ∈ [PoolCall.bind pooled.link req],
          call.Plain ∧ call.SentOver (Reaches p new) := by
        intro call hcall
        rw [mem_singleton] at hcall
        subst hcall
        exact ⟨trivial, hacq.moves.reaches hacq.lookup⟩
      refine ⟨new, [.bind pooled.link req], ?_⟩
      cases answer with
      | none =>
        refine hacq.started ⟨_, hendpoint⟩ ?_ (append_nil _).symm rfl hsent trivial rfl
        refine .bind a.pool ⟨req.tenant, req.session⟩ target.host pooled hacq.lookup ?_
        intro bound hbound
        have hbefore := hacq.routes _ bound hbound
        simp only [hbefore, Option.any_some, ne_eq, decide_not, Bool.not_eq_true',
          decide_eq_false_iff_not, not_not] at hfree
        exact hfree
      | some e =>
        have hdead : Moves cfg a.pool [] _ _ := .drop a.pool _ pooled hacq.lookup
        by_cases hterminal : e = .terminal
        · simp only [hterminal, if_true]
          rw [dropLinkLocked_of_lookup hacq.lookup] at hdead ⊢
          exact hacq.started ⟨_, hendpoint⟩ hdead rfl rfl hsent trivial rfl
        · simp only [hterminal, if_false]
          exact hacq.started ⟨_, hendpoint⟩ (.refl _) rfl rfl hsent trivial rfl

/-- The first section of `Attach`. -/
theorem attach_started (hrep : Rep cfg p) (fresh : LinkID) (target : Target)
    (req : HostLinkAttachRequest) (ok : Bool) (now : Int) :
    ∃ new rest, Started cfg p fresh (p.attach cfg fresh target req ok now) new rest := by
  unfold Pool.attach
  split
  · exact started_error ..
  split
  · exact started_error ..
  split
  · exact started_error ..
  cases htarget : cfg.core.tenantTarget target req.tenant with
  | none => exact started_error ..
  | some dial =>
    obtain ⟨hhost, hendpoint⟩ := tenantTarget_some htarget
    dsimp only
    split
    · exact started_error ..
    rename_i hclosed
    have hspec := acquireLocked_spec hrep (Bool.eq_false_of_not_eq_true hclosed)
      ⟨target.host, req.tenant⟩ { dial with generation := req.hostGeneration } hhost fresh ok now
    generalize p.acquireLocked cfg _ _ fresh ok now = a at hspec ⊢
    cases hresult : a.result with
    | error e =>
      rw [hresult] at hspec
      obtain ⟨hpool, hcalls⟩ := hspec
      rw [hpool]
      exact ⟨_, _, started_refused cfg p fresh _ (refused_plain hcalls)⟩
    | ok r =>
      obtain ⟨pooled, replaced⟩ := r
      rw [hresult] at hspec
      obtain ⟨new, hacq⟩ := hspec
      refine ⟨new, [], hacq.started ⟨_, hendpoint⟩ (.refl _) (append_nil _).symm
        (append_nil _).symm (by simp) ?_ rfl⟩
      exact hacq.moves.reaches hacq.lookup

/-- A first section that stores nothing and calls nothing. -/
theorem started_quiet (fresh : LinkID) {s : Section}
    (hmoves : Moves cfg p [] s.flight.closes s.pool) (hcalls : s.calls = [])
    (hnext : s.flight.next.Sound cfg (Reaches p []) fun _ _ => False)
    (hplaced : s.flight.next.waiting = []) : Started cfg p fresh s [] [] :=
  ⟨hmoves, hcalls, Nat.zero_le 1, by simp, by simp, hnext, hplaced⟩

/-- The first section of a capability question. -/
theorem accepts_started (cfg : PoolConfig) (p : Pool) (fresh : LinkID) (target : Target)
    (tenant : TenantID) :
    ∃ new rest, Started cfg p fresh (p.accepts cfg target tenant) new rest := by
  unfold Pool.accepts
  split
  · exact started_error ..
  cases htarget : cfg.core.tenantTarget target tenant with
  | none => exact started_error ..
  | some dial =>
    obtain ⟨hhost, hendpoint⟩ := tenantTarget_some htarget
    dsimp only [Pool.acquireUnlocked]
    split
    · exact started_error ..
    split
    · rename_i current hlookup
      split
      · exact ⟨_, _, started_quiet fresh (.refl p) rfl ⟨hhost, _, hendpoint⟩ rfl⟩
      · refine ⟨_, _, started_quiet fresh ?_ rfl trivial rfl⟩
        exact .overwrite p _ current _ hlookup (observe_link current dial)
          (observe_endpoint current dial) (observe_bindings current dial)
    · split
      · exact started_error ..
      · exact ⟨_, _, started_quiet fresh (.refl p) rfl ⟨hhost, _, hendpoint⟩ rfl⟩

/-- The first section of `Unbind`. -/
theorem unbind_started (hrep : Rep cfg p) (fresh : LinkID) (req : HostLinkUnbindRequest)
    (answer : Option LinkError) (now : Int) :
    ∃ new rest, Started cfg p fresh (p.unbind cfg req answer now) new rest := by
  unfold Pool.unbind
  dsimp only
  split
  · exact started_error ..
  split
  · exact started_error ..
  cases hroute : p.routes ⟨req.tenant, req.session⟩ with
  | none => exact started_error ..
  | some host =>
    obtain ⟨pooled, hlookup, -⟩ := mem_carries.mp ((hrep.routes _ host).mp hroute)
    dsimp only
    split
    · exact started_error ..
    rw [hlookup]
    refine ⟨[], [.unbind pooled.link req],
      .unbind p ⟨req.tenant, req.session⟩ host pooled _ hroute hlookup, rfl, Nat.zero_le 1,
      by simp, ?_, trivial, rfl⟩
    intro call hcall
    rw [mem_singleton] at hcall
    subst hcall
    exact ⟨trivial, .inl ⟨_, pooled, hlookup, rfl, rfl⟩⟩

theorem linkFor_reaches {session : SessionID} {pooled : PooledLink}
    (h : p.linkFor ⟨tenant, session⟩ = some pooled) : Reaches p [] tenant pooled.link := by
  obtain ⟨host, -, hlookup⟩ := Option.bind_eq_some_iff.mp h
  exact .inl ⟨_, pooled, hlookup, rfl, rfl⟩

variable (cfg p) (fresh : LinkID) (tenant) (session : SessionID)

theorem deliverCommand_started (delivery : HostLinkCommandDelivery) :
    ∃ new rest, Started cfg p fresh (p.deliverCommand cfg tenant session delivery) new rest := by
  unfold Pool.deliverCommand
  split
  · exact started_error ..
  split
  · exact started_error ..
  split
  · exact started_error ..
  · rename_i pooled hlink
    exact ⟨_, _, started_quiet fresh (.refl p) rfl (linkFor_reaches hlink) rfl⟩

theorem subscribe_started :
    ∃ new rest, Started cfg p fresh (p.subscribe tenant session) new rest := by
  unfold Pool.subscribe
  split
  · exact started_error ..
  split
  · exact started_error ..
  · rename_i pooled hlink
    exact ⟨_, _, started_quiet fresh (.refl p) rfl (linkFor_reaches hlink) rfl⟩

/-- The first section of `Unsubscribe`. -/
theorem unsubscribe_started (order : List LinkKey) :
    ∃ new rest, Started cfg p fresh (p.unsubscribe tenant session order) new rest := by
  refine ⟨_, _, started_quiet fresh (.refl p) rfl ?_ rfl⟩
  intro link hlink
  obtain ⟨linked, hlinked, hfound⟩ := mem_filterMap.mp hlink
  obtain ⟨pooled, hlookup, rfl⟩ := Option.map_eq_some_iff.mp hfound
  have htenant := (mem_filter.mp hlinked).2
  exact .inl ⟨linked, pooled, hlookup, rfl, of_decide_eq_true htenant⟩

variable {cfg p tenant}

theorem reapLoop_moves (cfg : PoolConfig) (deadline : Int) (order : List LinkKey) :
    ∀ (p : Pool) (reaped : List LinkID), ∃ more,
      (Pool.reapLoop deadline order p reaped).2 = reaped ++ more ∧
        Moves cfg p [] more (Pool.reapLoop deadline order p reaped).1 := by
  induction order with
  | nil => exact fun p reaped => ⟨[], (append_nil _).symm, .refl p⟩
  | cons linked rest ih =>
    intro p reaped
    unfold Pool.reapLoop
    split
    · exact ih p reaped
    rename_i pooled hlookup
    split
    · exact ih p reaped
    rename_i hbound
    split
    · exact ih p reaped
    have hidle : pooled.bindings = ∅ := Finset.card_eq_zero.mp (Nat.eq_zero_of_not_pos hbound)
    obtain ⟨more, hmore, hmoves⟩ :=
      ih { p with links := p.links.erase linked } (reaped ++ [pooled.link])
    refine ⟨pooled.link :: more, by rw [hmore, append_assoc]; rfl, ?_⟩
    exact (Moves.reap p linked pooled hlookup hidle).trans hmoves

/-- The first section of `ReapIdle`. -/
theorem reapIdle_started (cfg : PoolConfig) (p : Pool) (fresh : LinkID) (now : Int)
    (order : List LinkKey) :
    ∃ new rest, Started cfg p fresh (p.reapIdle cfg now order) new rest := by
  obtain ⟨more, hmore, hmoves⟩ := reapLoop_moves cfg (now - cfg.idleTimeout) order p []
  refine ⟨_, _, started_quiet fresh ?_ rfl trivial rfl⟩
  unfold Pool.reapIdle
  dsimp only
  rw [hmore]
  exact hmoves

/-! ## Sections and the log of calls -/

def PoolCall.dials (l : LinkID) : PoolCall → Bool
  | .dial _ (some link) => link = l
  | _ => false

def PoolCall.stores (l : LinkID) : PoolCall → Bool
  | .stored _ link => link = l
  | _ => false

def PoolCall.closes (l : LinkID) : PoolCall → Bool
  | .close link => link = l
  | _ => false

/-- The link was stored for the tenant. -/
def AtHome (log : List PoolCall) (tenant : TenantID) (link : LinkID) : Prop :=
  ∃ host, PoolCall.stored ⟨host, tenant⟩ link ∈ log

/-- The link was returned by a dial of the target. -/
def DialledIn (log : List PoolCall) (target : Target) (link : LinkID) : Prop :=
  PoolCall.dial target (some link) ∈ log

/-- Every link the pool stores was dialled for its Host, at an address derived for its tenant,
and stored under its key. -/
def Homed (cfg : PoolConfig) (log : List PoolCall) (p : Pool) : Prop :=
  ∀ linked pooled, p.links.lookup linked = some pooled →
    cfg.Derives linked pooled.endpoint ∧
      DialledIn log { host := linked.host, endpoint := pooled.endpoint } pooled.link ∧
      PoolCall.stored linked pooled.link ∈ log

/-- What was sent for a tenant was sent over a link stored for it before. -/
def SentHome (log : List PoolCall) : Prop :=
  ∀ before call after, log = before ++ call :: after → call.SentOver (AtHome before)

variable {log : List PoolCall}

theorem AtHome.mono {log' : List PoolCall} (hsub : log ⊆ log') {link : LinkID}
    (h : AtHome log tenant link) : AtHome log' tenant link := by
  obtain ⟨host, hmem⟩ := h
  exact ⟨host, hsub hmem⟩

variable {home : TenantID → LinkID → Prop}

theorem PoolCall.SentOver.mono {home' : TenantID → LinkID → Prop}
    (himp : ∀ tenant link, home tenant link → home' tenant link) {call : PoolCall}
    (h : call.SentOver home) : call.SentOver home' := by
  cases call <;> first | exact himp _ _ h | exact h

theorem Next.Sound.mono {home' : TenantID → LinkID → Prop}
    {dialled dialled' : Target → LinkID → Prop}
    (himp : ∀ tenant link, home tenant link → home' tenant link)
    (himp' : ∀ target link, dialled target link → dialled' target link) {next : Next}
    (h : next.Sound cfg home dialled) : next.Sound cfg home' dialled' := by
  cases next with
  | dialled linked target link => exact ⟨h.1, h.2.1, himp' _ _ h.2.2⟩
  | unsubscribe links tenant session => exact fun link hlink => himp _ _ (h link hlink)
  | _ => first | exact himp _ _ h | exact h

theorem Next.Sound.grow {log' : List PoolCall} (hsub : log ⊆ log') {next : Next}
    (h : next.Sound cfg (AtHome log) (DialledIn log)) :
    next.Sound cfg (AtHome log') (DialledIn log') :=
  h.mono (fun _ _ hhome => hhome.mono hsub) fun _ _ hdial => hsub hdial

theorem SentHome.append (h : SentHome log) (hcalls : ∀ call ∈ calls, call.SentOver (AtHome log)) :
    SentHome (log ++ calls) := by
  intro before call after hsplit
  rcases append_eq_append_iff.mp hsplit with ⟨mid, hbefore, hcall⟩ | ⟨mid, hlog, hcall⟩
  · have hmem : call ∈ calls := by rw [hcall]; simp
    refine (hcalls call hmem).mono fun tenant link hhome => hhome.mono ?_
    rw [hbefore]
    exact subset_append_left log mid
  · cases mid with
    | nil =>
      have hmem : call ∈ calls := by
        rw [nil_append] at hcall
        rw [← hcall]
        exact mem_cons_self
      rw [append_nil] at hlog
      rw [← hlog]
      exact hcalls call hmem
    | cons c rest =>
      rw [cons_append, List.cons.injEq] at hcall
      rw [hcall.1]
      exact h before c rest hlog

theorem Reaches.atHome {log' : List PoolCall} (hhomed : Homed cfg log p) (hsub : log ⊆ log')
    (hnew : ∀ st ∈ new, PoolCall.stored st.linked st.link ∈ log') {link : LinkID}
    (h : Reaches p new tenant link) : AtHome log' tenant link := by
  rcases h with ⟨linked, pooled, hlookup, rfl, rfl⟩ | ⟨st, hst, rfl, rfl⟩
  · exact ⟨linked.host, hsub (hhomed linked pooled hlookup).2.2⟩
  · exact ⟨st.linked.host, hnew st hst⟩

/-- What a section does: `prior` is what the operation had left to do. -/
structure Does (cfg : PoolConfig) (p : Pool) (fresh : LinkID) (prior : Next) (s : Section)
    (new : List Storing) (removed : List LinkID) : Prop where
  moves : Moves cfg p new removed s.pool
  storing : ∀ st ∈ new, cfg.Derives st.linked st.endpoint ∧
    PoolCall.stored st.linked st.link ∈ s.calls ∧
    (DialledIn s.calls { host := st.linked.host, endpoint := st.endpoint } st.link ∨
      ∃ target, prior = .dialled st.linked target st.link ∧ target.endpoint = st.endpoint)
  stores : ∀ l, s.calls.countP (PoolCall.stores l) = storedIn new l
  dials : ∀ l, s.calls.countP (PoolCall.dials l) ≤ [fresh].count l
  closes : ∀ l, s.calls.countP (PoolCall.closes l) = 0
  census : ∀ l, s.calls.countP (PoolCall.dials l) + prior.waiting.count l + removed.count l =
    storedIn new l + s.flight.closes.count l + s.flight.next.waiting.count l
  left : ∀ l, removed.count l ≤ s.flight.closes.count l
  sent : ∀ log, Homed cfg log p → prior.Sound cfg (AtHome log) (DialledIn log) →
    SentHome log → SentHome (log ++ s.calls)
  next : ∀ log, Homed cfg log p → prior.Sound cfg (AtHome log) (DialledIn log) →
    s.flight.next.Sound cfg (AtHome (log ++ s.calls)) (DialledIn (log ++ s.calls))

variable (new) (l : LinkID)

theorem storing_dials : (new.flatMap Storing.calls).countP (PoolCall.dials l) = storedIn new l := by
  unfold storedIn
  induction new with
  | nil => rfl
  | cons st rest ih =>
    rw [flatMap_cons, countP_append, ih, countP_cons]
    simp [Storing.calls, PoolCall.dials, countP_cons, Nat.add_comm]

theorem storing_stores :
    (new.flatMap Storing.calls).countP (PoolCall.stores l) = storedIn new l := by
  unfold storedIn
  induction new with
  | nil => rfl
  | cons st rest ih =>
    rw [flatMap_cons, countP_append, ih, countP_cons]
    simp [Storing.calls, PoolCall.stores, countP_cons, Nat.add_comm]

theorem storing_closes : (new.flatMap Storing.calls).countP (PoolCall.closes l) = 0 := by
  rw [countP_eq_zero]
  intro call hcall
  obtain ⟨st, -, hmem⟩ := mem_flatMap.mp hcall
  simp only [Storing.calls, mem_cons, not_mem_nil, or_false] at hmem
  rcases hmem with rfl | rfl <;> simp [PoolCall.closes]

variable {new}

theorem PoolCall.Plain.quiet {call : PoolCall} (h : call.Plain) (l : LinkID) :
    call.dials l = false ∧ call.stores l = false ∧ call.closes l = false := by
  cases call with
  | dial target link =>
    cases h
    exact ⟨rfl, rfl, rfl⟩
  | stored | close => exact h.elim
  | _ => exact ⟨rfl, rfl, rfl⟩

theorem countP_plain {counts : PoolCall → Bool} (hplain : ∀ call ∈ calls, call.Plain)
    (hquiet : ∀ call : PoolCall, call.Plain → counts call = false) : calls.countP counts = 0 := by
  rw [countP_eq_zero]
  intro call hcall
  rw [hquiet call (hplain call hcall)]
  exact Bool.false_ne_true

section

variable (h : ∀ call ∈ calls, call.Plain) (l : LinkID)
include h

theorem countP_dials_plain : calls.countP (PoolCall.dials l) = 0 :=
  countP_plain h fun _ hplain => (hplain.quiet l).1

theorem countP_stores_plain : calls.countP (PoolCall.stores l) = 0 :=
  countP_plain h fun _ hplain => (hplain.quiet l).2.1

theorem countP_closes_plain : calls.countP (PoolCall.closes l) = 0 :=
  countP_plain h fun _ hplain => (hplain.quiet l).2.2

end

theorem storedIn_le {fresh : LinkID} (hsingle : new.length ≤ 1)
    (hlink : ∀ st ∈ new, st.link = fresh) (l : LinkID) : storedIn new l ≤ [fresh].count l := by
  by_cases hl : fresh = l
  · subst hl
    rw [count_singleton_self]
    exact Nat.le_trans countP_le_length hsingle
  · have hnone : storedIn new l = 0 := by
      rw [storedIn, countP_eq_zero]
      intro st hst
      rw [hlink st hst, decide_eq_true_eq]
      exact hl
    omega

/-- A first section, of an operation that had nothing left to do. -/
theorem Started.does {fresh : LinkID} {s : Section} {rest : List PoolCall}
    (h : Started cfg p fresh s new rest) : Does cfg p fresh .done s new s.flight.closes := by
  have hplain : ∀ call ∈ rest, call.Plain := fun call hcall => (h.plain call hcall).1
  have hdials : ∀ l, s.calls.countP (PoolCall.dials l) = storedIn new l := by
    intro l
    rw [h.calls, countP_append, storing_dials, countP_dials_plain hplain, Nat.add_zero]
  have hcall : ∀ st ∈ new, ∀ call ∈ st.calls, call ∈ new.flatMap Storing.calls :=
    fun st hst call hmem => mem_flatMap.mpr ⟨st, hst, hmem⟩
  have hstored : ∀ st ∈ new, PoolCall.stored st.linked st.link ∈ new.flatMap Storing.calls :=
    fun st hst => hcall st hst _ (by simp [Storing.calls])
  refine ⟨h.moves, ?_, ?_, ?_, ?_, ?_, fun l => le_rfl, ?_, ?_⟩
  · intro st hst
    refine ⟨(h.storing st hst).2, ?_, .inl ?_⟩
    · rw [h.calls]
      exact mem_append_left _ (hstored st hst)
    · rw [DialledIn, h.calls]
      exact mem_append_left _ (hcall st hst _ (by simp [Storing.calls]))
  · intro l
    rw [h.calls, countP_append, storing_stores, countP_stores_plain hplain, Nat.add_zero]
  · intro l
    rw [hdials]
    exact storedIn_le h.single (fun st hst => (h.storing st hst).1) l
  · intro l
    rw [h.calls, countP_append, storing_closes, countP_closes_plain hplain]
  · intro l
    rw [hdials, h.placed]
    rfl
  · intro log hhomed _ hsent
    have hfirst : SentHome (log ++ new.flatMap Storing.calls) := by
      refine hsent.append fun call hmem => ?_
      obtain ⟨st, -, hst⟩ := mem_flatMap.mp hmem
      simp only [Storing.calls, mem_cons, not_mem_nil, or_false] at hst
      rcases hst with rfl | rfl <;> trivial
    rw [h.calls, ← append_assoc]
    refine hfirst.append fun call hmem => (h.plain call hmem).2.mono fun tenant link hreach => ?_
    exact hreach.atHome hhomed (subset_append_left _ _)
      fun st hst => mem_append_right _ (hstored st hst)
  · intro log hhomed _
    refine h.next.mono (fun tenant link hreach => ?_) fun _ _ hfalse => hfalse.elim
    refine hreach.atHome hhomed (subset_append_left _ _) fun st hst => ?_
    rw [h.calls]
    exact mem_append_right _ (mem_append_left _ (hstored st hst))

/-! ## Later sections -/

theorem does_plain (fresh : LinkID) {prior : Next} {s : Section} (hpool : s.pool = p)
    (hplain : ∀ call ∈ s.calls, call.Plain) (hprior : prior.waiting = [])
    (hcloses : s.flight.closes = []) (hplaced : s.flight.next.waiting = [])
    (hsent : ∀ home dialled, prior.Sound cfg home dialled → (∀ call ∈ s.calls, call.SentOver home) ∧
      s.flight.next.Sound cfg home dialled) : Does cfg p fresh prior s [] [] := by
  refine ⟨?_, by simp, countP_stores_plain hplain, ?_, countP_closes_plain hplain, ?_, ?_, ?_, ?_⟩
  · rw [hpool]
    exact .refl p
  · intro l
    rw [countP_dials_plain hplain]
    exact Nat.zero_le _
  · intro l
    rw [countP_dials_plain hplain, hprior, hcloses, hplaced]
    rfl
  · intro l
    exact Nat.zero_le _
  · intro log _ hsound hbefore
    exact hbefore.append (hsent _ _ hsound).1
  · intro log _ hsound
    exact (hsent _ _ hsound).2.grow (subset_append_left _ _)

theorem dialled_does (hrep : Rep cfg p) (fresh : LinkID) {target : Target}
    (hderives : cfg.Derives linked target.endpoint) (link : LinkID) (now : Int) :
    ∃ new removed, Does cfg p fresh (.dialled linked target link)
      (p.dialled cfg linked target link now) new removed := by
  have hsurplus : ∀ (next : Next) (err : Option PoolError), next.waiting = [] →
      (∀ home dialled, next.Sound cfg home dialled) →
      Does cfg p fresh (.dialled linked target link)
        { pool := p, flight := { closes := [link], next := next }, err := err } [] [] := by
    intro next err hplaced hsound
    refine ⟨.refl p, by simp, fun l => rfl, fun l => Nat.zero_le _, fun l => rfl, ?_,
      fun l => Nat.zero_le _, ?_, fun log _ _ => hsound _ _⟩
    · rw [hplaced]
      simp [Next.waiting, storedIn]
    · intro log _ _ hsent
      rw [append_nil]
      exact hsent
  have hkept : p.closed = false →
      (p.links.lookup linked = none → p.links.keys.card < cfg.maxLinks) →
      Does cfg p fresh (.dialled linked target link)
        { pool := (p.storeLocked linked target link now).1
          calls := [.stored linked link]
          flight :=
            { closes := (p.storeLocked linked target link now).2.2.toList
              next := .negotiate linked (p.storeLocked linked target link now).2.1.link } }
        [⟨linked, target.endpoint, link⟩] (p.storeLocked linked target link now).2.2.toList := by
    intro hopen hroom
    obtain ⟨hmoves, -, -, -⟩ := storeLocked_moves hrep hopen hroom target link now
    refine ⟨hmoves, ?_, ?_, fun l => Nat.zero_le _, fun l => rfl, ?_, fun l => le_rfl, ?_,
      fun log _ _ => trivial⟩
    · intro st hst
      rw [mem_singleton] at hst
      subst hst
      exact ⟨hderives, mem_singleton_self _, .inr ⟨target, rfl, rfl⟩⟩
    · simp [PoolCall.stores, storedIn, countP_cons]
    · simp [PoolCall.dials, storedIn, Next.waiting, countP_cons, count_singleton]
    · intro log _ _ hsent
      refine hsent.append fun call hcall => ?_
      rw [mem_singleton] at hcall
      subst hcall
      trivial
  unfold Pool.dialled
  dsimp only
  split
  · exact ⟨_, _, hsurplus .done _ rfl fun _ _ => trivial⟩
  rename_i hclosed
  have hopen := Bool.eq_false_of_not_eq_true hclosed
  split
  · rename_i existing hlookup
    split
    · exact ⟨_, _, hkept hopen fun hnone => by rw [hlookup] at hnone; cases hnone⟩
    · exact ⟨_, _, hsurplus (.negotiate linked existing.link) none rfl fun _ _ => trivial⟩
  · split
    · exact ⟨_, _, hsurplus .done _ rfl fun _ _ => trivial⟩
    · rename_i hfull
      exact ⟨_, _, hkept hopen fun _ => Nat.lt_of_not_le hfull⟩

theorem evict_does (cfg : PoolConfig) (p : Pool) (fresh : LinkID) (linked : LinkKey)
    (stale : LinkID) :
    ∃ new removed, Does cfg p fresh (.evict linked stale) (p.evict linked stale) new removed := by
  unfold Pool.evict
  rcases dropLinkLocked_cases p linked stale with ⟨old, hlookup, rfl⟩ | hkept
  · have hdrop : Moves cfg p [] _ _ := .drop p linked old hlookup
    rw [dropLinkLocked_of_lookup hlookup] at hdrop ⊢
    refine ⟨[], [old.link], hdrop, by simp, fun l => rfl, fun l => Nat.zero_le _, fun l => rfl,
      fun l => by simp [Next.waiting, storedIn], fun l => le_rfl, ?_, fun log _ _ => trivial⟩
    intro log _ _ hsent
    rw [append_nil]
    exact hsent
  · rw [hkept]
    exact ⟨_, _, does_plain fresh rfl (by simp) rfl rfl rfl fun _ _ _ => ⟨by simp, trivial⟩⟩

theorem dial_does (p : Pool) (fresh : LinkID) {target : Target} :
    Does cfg p fresh (.dial linked target)
      { pool := p, calls := [.dial target.dialable (some fresh)]
        flight := { next := .dialled linked target fresh } } [] [] := by
  refine ⟨.refl p, by simp, fun l => rfl, ?_, fun l => rfl, ?_, fun l => Nat.zero_le _, ?_, ?_⟩
  · simp [PoolCall.dials, countP_cons, count_singleton]
  · simp [PoolCall.dials, countP_cons, count_singleton, Next.waiting, storedIn]
  · intro log _ _ hsent
    refine hsent.append fun call hcall => ?_
    rw [mem_singleton] at hcall
    subst hcall
    trivial
  · intro log _ hsound
    exact ⟨hsound.1, hsound.2, mem_concat_self⟩

/-- Only an operation that is over has no later section. -/
theorem resume_none {fresh : LinkID} {answer : Answer} {prior : Next}
    (h : Flight.resume cfg p fresh answer prior = none) : prior = .done := by
  cases prior with
  | done => rfl
  | dial | subscribe =>
    simp only [Flight.resume] at h
    split at h <;> cases h
  | _ => cases h

/-- What the later sections of all operations do. -/
theorem resume_does (hrep : Rep cfg p) (fresh : LinkID) (answer : Answer) {prior : Next}
    {dialled : Target → LinkID → Prop} (hsound : prior.Sound cfg home dialled) {s : Section}
    (h : Flight.resume cfg p fresh answer prior = some s) :
    ∃ new removed, Does cfg p fresh prior s new removed := by
  cases prior with
  | done => cases h
  | attach linked link req =>
    cases h
    refine ⟨_, _, does_plain fresh rfl (forall_mem_singleton.mpr trivial) rfl rfl ?_
      fun home _ hs => ⟨forall_mem_singleton.mpr hs, ?_⟩⟩
    · split <;> rfl
    · split <;> trivial
  | dial linked target =>
    simp only [Flight.resume] at h
    split at h
    · cases h
      exact ⟨_, _, dial_does p fresh⟩
    · cases h
      exact ⟨_, _, does_plain fresh rfl (forall_mem_singleton.mpr rfl) rfl rfl rfl
        fun _ _ _ => ⟨forall_mem_singleton.mpr trivial, trivial⟩⟩
  | dialled linked target link =>
    cases h
    exact dialled_does hrep fresh hsound.2.1 link answer.now
  | negotiate linked link =>
    cases h
    refine ⟨_, _, does_plain fresh rfl (by simp) rfl rfl ?_ fun _ _ _ => ⟨by simp, ?_⟩⟩
    · split <;> rfl
    · split <;> trivial
  | evict linked link =>
    cases h
    exact evict_does cfg p fresh linked link
  | deliver link tenant session delivery =>
    cases h
    exact ⟨_, _, does_plain fresh rfl (forall_mem_singleton.mpr trivial) rfl rfl rfl
      fun home _ hs => ⟨forall_mem_singleton.mpr hs, trivial⟩⟩
  | subscribe link tenant session =>
    simp only [Flight.resume] at h
    split at h
    · cases h
      exact ⟨_, _, does_plain fresh rfl (forall_mem_singleton.mpr trivial) rfl rfl rfl
        fun home _ hs => ⟨forall_mem_singleton.mpr hs, trivial⟩⟩
    · cases h
      exact ⟨_, _, does_plain fresh rfl (by simp) rfl rfl rfl fun home _ hs => ⟨by simp, trivial⟩⟩
  | unsubscribe links tenant session =>
    cases h
    refine ⟨_, _, does_plain fresh rfl ?_ rfl rfl rfl fun home _ hs => ⟨?_, trivial⟩⟩
    · intro call hcall
      obtain ⟨link, -, rfl⟩ := mem_map.mp hcall
      trivial
    · intro call hcall
      obtain ⟨link, hlink, rfl⟩ := mem_map.mp hcall
      exact hs link (mem_of_mem_filter hlink)

end Factory.Hostlink
