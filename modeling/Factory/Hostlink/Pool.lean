import Factory.Lib.Runs
import Factory.Wire
import Mathlib.Data.Finmap

/-!
# The HostLink pool

Model of the pool of `internal/realtime/hostlink/link.go`, with the capability read of
`capability.go` and the pool's half of `subscribe.go`: at most one connection for each Host and
tenant, and the session routes multiplexed over it.

An operation is one or more critical sections of the pool's lock, with closes and RPCs made
outside it. Its first section is a step; what it still has to do is its `Flight`, and every
close, RPC, dial and later section of it is a step of its own, so that other operations run in
between. A `Link` is identified by the number of the dial that returned it, and the
`*pooledLink` that wraps it by the same number: the source makes one of the other.

Core's validations and its `HostLinkEndpoint` are the fields of `PoolCore`.
-/

namespace Factory.Hostlink

/-! ## Keys and targets -/

structure LinkKey where
  host : HostID
  tenant : TenantID
deriving DecidableEq

/-- `routeKey.link`; a `routeKey` is a `SessionKey`. -/
def linkOf (key : SessionKey) (host : HostID) : LinkKey := ⟨host, key.tenant⟩

/-- The identity of a `Link`. -/
abbrev LinkID := Nat

structure Target where
  host : HostID
  endpoint : InternalEndpoint
  generation : Nat := 0
deriving DecidableEq

def Target.dialable (t : Target) : Target := { host := t.host, endpoint := t.endpoint }

/-- What the pool takes from Core. -/
structure PoolCore where
  validTarget : Target → Bool
  validBind : HostLinkBindRequest → Bool
  validUnbind : HostLinkUnbindRequest → Bool
  validAttach : HostLinkAttachRequest → Bool
  validDelivery : HostLinkCommandDelivery → Bool
  hostLinkEndpoint : InternalEndpoint → TenantID → Option InternalEndpoint

/-- `Limits`, those the pool itself reads; `Validate` refuses others. -/
structure PoolConfig where
  core : PoolCore
  maxLinks : Nat
  idleTimeout : Int
  maxLinks_pos : 0 < maxLinks
  idleTimeout_pos : 0 < idleTimeout

def PoolCore.tenantTarget (core : PoolCore) (base : Target) (tenant : TenantID) : Option Target :=
  (core.hostLinkEndpoint base.endpoint tenant).map fun endpoint =>
    { host := base.host, endpoint := endpoint, generation := base.generation }

/-! ## Errors and calls -/

/-- An error of a link: terminal as `terminalLinkError` says, the Host's refusal, or another. -/
inductive LinkError where
  | terminal
  | refusal
  | other
deriving DecidableEq

inductive PoolError where
  | invalid
  | targetMismatch
  | noTenantEndpoint
  | poolClosed
  | bindingConflict
  | linkLimit
  | unknownBinding
  | attachMismatch
  | commandUndelivered
  | subscribeUnsupported
  | dial
  | link (e : LinkError)
deriving DecidableEq

/-- A call of the dialer or of a link. `stored` is no call: it records under which key the pool
stored a link. -/
inductive PoolCall where
  | dial (target : Target) (link : Option LinkID)
  | stored (linked : LinkKey) (link : LinkID)
  | bind (link : LinkID) (req : HostLinkBindRequest)
  | unbind (link : LinkID) (req : HostLinkUnbindRequest)
  | attach (link : LinkID) (req : HostLinkAttachRequest)
  | deliverCommand (link : LinkID) (tenant : TenantID) (session : SessionID)
      (delivery : HostLinkCommandDelivery)
  | subscribe (link : LinkID) (tenant : TenantID) (session : SessionID)
  | unsubscribe (link : LinkID) (tenant : TenantID) (session : SessionID)
  | close (link : LinkID)
deriving DecidableEq

/-! ## The pool -/

/-- `pooledLink`; `idleSince` is in nanoseconds. -/
structure PooledLink where
  link : LinkID
  endpoint : InternalEndpoint
  generation : Nat
  bindings : Finset SessionKey := ∅
  idleSince : Int
deriving DecidableEq

/-- `Pool`, less its seams. -/
structure Pool where
  closed : Bool := false
  links : Finmap fun _ : LinkKey => PooledLink := ∅
  routes : SessionKey → Option HostID := fun _ => none

/-- What an operation has left to do once its links are closed. -/
inductive Next where
  | done
  | attach (linked : LinkKey) (link : LinkID) (req : HostLinkAttachRequest)
  | dial (linked : LinkKey) (target : Target)
  | dialled (linked : LinkKey) (target : Target) (link : LinkID)
  | negotiate (linked : LinkKey) (link : LinkID)
  | evict (linked : LinkKey) (link : LinkID)
  | deliver (link : LinkID) (tenant : TenantID) (session : SessionID)
      (delivery : HostLinkCommandDelivery)
  | subscribe (link : LinkID) (tenant : TenantID) (session : SessionID)
  | unsubscribe (links : List LinkID) (tenant : TenantID) (session : SessionID)
deriving DecidableEq

/-- An operation outside the lock: the links it has to close, and what it does then. -/
structure Flight where
  closes : List LinkID := []
  next : Next := .done
deriving DecidableEq

/-- What a critical section did: the pool, the calls it made, what is left of its operation,
and the error it returns, if that is decided. -/
structure Section where
  pool : Pool
  calls : List PoolCall := []
  flight : Flight := {}
  err : Option PoolError := none

def PooledLink.supersededBy (l : PooledLink) (dial : Target) : Bool :=
  dial.endpoint ≠ l.endpoint ∧ l.generation < dial.generation

def PooledLink.observe (l : PooledLink) (dial : Target) : PooledLink :=
  if dial.endpoint = l.endpoint ∧ l.generation < dial.generation
  then { l with generation := dial.generation } else l

def newPooledLink (link : LinkID) (dial : Target) (now : Int) : PooledLink :=
  { link := link, endpoint := dial.endpoint, generation := dial.generation, idleSince := now }

/-- `dropLinkLocked`: whether it removed the link. -/
def Pool.dropLinkLocked (p : Pool) (linked : LinkKey) (stale : LinkID) : Pool × Bool :=
  match p.links.lookup linked with
  | none => (p, false)
  | some current =>
    if current.link ≠ stale then (p, false)
    else
      ({ p with
          links := p.links.erase linked
          routes := fun key =>
            (p.routes key).filter fun routed => linkOf key routed ≠ linked },
        true)

/-- What acquiring a link did: the link with the one it replaced, or an error. -/
structure Acquired where
  pool : Pool
  calls : List PoolCall := []
  result : Except PoolError (PooledLink × Option LinkID)

/-- The link just dialled replaces what the pool had for its Host and tenant. -/
def Pool.storeLocked (p : Pool) (linked : LinkKey) (dial : Target) (link : LinkID) (now : Int) :
    Pool × PooledLink × Option LinkID :=
  let (p, replaced) :=
    match p.links.lookup linked with
    | none => (p, none)
    | some current =>
      let (p, dropped) := p.dropLinkLocked linked current.link
      (p, if dropped then some current.link else none)
  let pooled := newPooledLink link dial now
  ({ p with links := p.links.insert linked pooled }, pooled, replaced)

variable (cfg : PoolConfig)

/-- `acquireLocked`. The dial returns a link under the number `fresh`, or fails. -/
def Pool.acquireLocked (p : Pool) (linked : LinkKey) (dial : Target) (fresh : LinkID) (ok : Bool)
    (now : Int) : Acquired :=
  let dialling : Acquired :=
    if ok then
      let (p, pooled, replaced) := p.storeLocked linked dial fresh now
      { pool := p
        calls := [.dial dial.dialable (some fresh), .stored linked fresh]
        result := .ok (pooled, replaced) }
    else { pool := p, calls := [.dial dial.dialable none], result := .error .dial }
  match p.links.lookup linked with
  | some current =>
    if current.supersededBy dial then dialling
    else
      let current := current.observe dial
      { pool := { p with links := p.links.insert linked current }, result := .ok (current, none) }
  | none =>
    if cfg.maxLinks ≤ p.links.keys.card then { pool := p, result := .error .linkLimit }
    else dialling

def Pool.bind (cfg : PoolConfig) (p : Pool) (fresh : LinkID) (target : Target)
    (req : HostLinkBindRequest) (ok : Bool) (answer : Option LinkError) (now : Int) : Section :=
  if !cfg.core.validTarget target then { pool := p, err := some .invalid }
  else if req.host ≠ target.host then { pool := p, err := some .targetMismatch }
  else if !cfg.core.validBind req then { pool := p, err := some .invalid }
  else
    match cfg.core.tenantTarget target req.tenant with
    | none => { pool := p, err := some .noTenantEndpoint }
    | some dial =>
      let dial := { dial with generation := req.hostGeneration }
      let key : SessionKey := ⟨req.tenant, req.session⟩
      let linked := linkOf key target.host
      if p.closed then { pool := p, err := some .poolClosed }
      else if (p.routes key).any (· ≠ target.host) then { pool := p, err := some .bindingConflict }
      else
        let acquired := p.acquireLocked cfg linked dial fresh ok now
        let p := acquired.pool
        match acquired.result with
        | .error e => { pool := p, calls := acquired.calls, err := some e }
        | .ok (pooled, moved) =>
          let calls := acquired.calls ++ [.bind pooled.link req]
          match answer with
          | some e =>
            let (p, dropped) :=
              if e = .terminal then p.dropLinkLocked linked pooled.link else (p, false)
            let dead := if dropped then some pooled.link else none
            { pool := p, calls := calls, flight := { closes := moved.toList ++ dead.toList }
              err := some (.link e) }
          | none =>
            let pooled := { pooled with bindings := insert key pooled.bindings }
            { pool :=
                { p with
                  links := p.links.insert linked pooled
                  routes := Function.update p.routes key (some target.host) }
              calls := calls
              flight := { closes := moved.toList } }

/-- `Attach` up to its unlock. -/
def Pool.attach (cfg : PoolConfig) (p : Pool) (fresh : LinkID) (target : Target)
    (req : HostLinkAttachRequest) (ok : Bool) (now : Int) : Section :=
  if !cfg.core.validTarget target then { pool := p, err := some .invalid }
  else if req.host ≠ target.host then { pool := p, err := some .targetMismatch }
  else if !cfg.core.validAttach req then { pool := p, err := some .invalid }
  else
    match cfg.core.tenantTarget target req.tenant with
    | none => { pool := p, err := some .noTenantEndpoint }
    | some dial =>
      let dial := { dial with generation := req.hostGeneration }
      let linked : LinkKey := ⟨target.host, req.tenant⟩
      if p.closed then { pool := p, err := some .poolClosed }
      else
        let acquired := p.acquireLocked cfg linked dial fresh ok now
        match acquired.result with
        | .error e => { pool := acquired.pool, calls := acquired.calls, err := some e }
        | .ok (pooled, replaced) =>
          { pool := acquired.pool, calls := acquired.calls
            flight := { closes := replaced.toList, next := .attach linked pooled.link req } }

def attachAnswers (req : HostLinkAttachRequest) (observation : HostLinkRegistryObservation) :
    Option PoolError :=
  if observation.tenant ≠ req.tenant ∨ observation.session ≠ req.session then some .attachMismatch
  else if observation.host ≠ req.host ∨ observation.hostGeneration ≠ req.hostGeneration then
    some .attachMismatch
  else if observation.agent ≠ req.agent ∨
      observation.runtimeCompatibility ≠ req.runtimeCompatibility then some .attachMismatch
  else none

/-- `evict` up to its unlock. -/
def Pool.evict (p : Pool) (linked : LinkKey) (stale : LinkID) : Section :=
  let (p, dropped) := p.dropLinkLocked linked stale
  { pool := p, flight := { closes := if dropped then [stale] else [] } }

/-- `Unbind`. The route of a session whose Host has no link is dropped. -/
def Pool.unbind (cfg : PoolConfig) (p : Pool) (req : HostLinkUnbindRequest)
    (answer : Option LinkError) (now : Int) : Section :=
  let key : SessionKey := ⟨req.tenant, req.session⟩
  if !cfg.core.validUnbind req then { pool := p, err := some .invalid }
  else if p.closed then { pool := p, err := some .poolClosed }
  else
    match p.routes key with
    | none => { pool := p, err := some .unknownBinding }
    | some host =>
      if req.host ≠ host then { pool := p, err := some .targetMismatch }
      else
        let p := { p with routes := Function.update p.routes key none }
        match p.links.lookup (linkOf key host) with
        | none => { pool := p, err := some .unknownBinding }
        | some pooled =>
          let bindings := pooled.bindings.erase key
          let idleSince := if bindings = ∅ then now else pooled.idleSince
          let pooled := { pooled with bindings := bindings, idleSince := idleSince }
          { pool := { p with links := p.links.insert (linkOf key host) pooled }
            calls := [.unbind pooled.link req]
            err := answer.map .link }

/-- The link of a session's route. -/
def Pool.linkFor (p : Pool) (key : SessionKey) : Option PooledLink :=
  (p.routes key).bind fun host => p.links.lookup (linkOf key host)

/-- `DeliverCommand` up to its unlock. -/
def Pool.deliverCommand (p : Pool) (tenant : TenantID) (session : SessionID)
    (delivery : HostLinkCommandDelivery) : Section :=
  if !cfg.core.validDelivery delivery then { pool := p, err := some .invalid }
  else if p.closed then { pool := p, err := some .poolClosed }
  else
    match p.linkFor ⟨tenant, session⟩ with
    | none => { pool := p, err := some .unknownBinding }
    | some pooled =>
      { pool := p, flight := { next := .deliver pooled.link tenant session delivery } }

/-- `Subscribe` up to its unlock. -/
def Pool.subscribe (p : Pool) (tenant : TenantID) (session : SessionID) : Section :=
  if p.closed then { pool := p, err := some .poolClosed }
  else
    match p.linkFor ⟨tenant, session⟩ with
    | none => { pool := p, err := some .unknownBinding }
    | some pooled => { pool := p, flight := { next := .subscribe pooled.link tenant session } }

/-- `Unsubscribe` up to its unlock, over the links in the order the map gives them. -/
def Pool.unsubscribe (p : Pool) (tenant : TenantID) (session : SessionID) (order : List LinkKey) :
    Section :=
  let links := (order.filter (·.tenant = tenant)).filterMap fun linked =>
    (p.links.lookup linked).map (·.link)
  { pool := p, flight := { next := .unsubscribe links tenant session } }

/-- The loop of `ReapIdle`: the pool and the links reaped. -/
def Pool.reapLoop (deadline : Int) : List LinkKey → Pool → List LinkID → Pool × List LinkID
  | [], p, reaped => (p, reaped)
  | linked :: rest, p, reaped =>
    match p.links.lookup linked with
    | none => Pool.reapLoop deadline rest p reaped
    | some pooled =>
      if 0 < pooled.bindings.card then Pool.reapLoop deadline rest p reaped
      else if deadline < pooled.idleSince then Pool.reapLoop deadline rest p reaped
      else
        Pool.reapLoop deadline rest { p with links := p.links.erase linked }
          (reaped ++ [pooled.link])

/-- `ReapIdle` up to its unlock. -/
def Pool.reapIdle (p : Pool) (now : Int) (order : List LinkKey) : Section :=
  let (p, reaped) := Pool.reapLoop (now - cfg.idleTimeout) order p []
  { pool := p, flight := { closes := reaped } }

/-- `Close` up to its unlock. -/
def Pool.close (p : Pool) (order : List LinkKey) : Section :=
  let links := order.filterMap fun linked => (p.links.lookup linked).map (·.link)
  { pool := { p with closed := true, links := ∅, routes := fun _ => none }
    flight := { closes := links } }

/-! ### The capability read -/

/-- `acquireUnlocked` up to its dial. -/
def Pool.acquireUnlocked (p : Pool) (linked : LinkKey) (dial : Target) : Section :=
  if p.closed then { pool := p, err := some .poolClosed }
  else
    match p.links.lookup linked with
    | some current =>
      if current.supersededBy dial then { pool := p, flight := { next := .dial linked dial } }
      else
        { pool := { p with links := p.links.insert linked (current.observe dial) }
          flight := { next := .negotiate linked current.link } }
    | none =>
      if cfg.maxLinks ≤ p.links.keys.card then { pool := p, err := some .linkLimit }
      else { pool := p, flight := { next := .dial linked dial } }

/-- `acquireUnlocked` from its dial on: the link is kept, or is surplus. -/
def Pool.dialled (p : Pool) (linked : LinkKey) (dial : Target) (link : LinkID) (now : Int) :
    Section :=
  let kept : Section :=
    let (p, pooled, replaced) := p.storeLocked linked dial link now
    { pool := p, calls := [.stored linked link]
      flight := { closes := replaced.toList, next := .negotiate linked pooled.link } }
  if p.closed then { pool := p, flight := { closes := [link] }, err := some .poolClosed }
  else
    match p.links.lookup linked with
    | some existing =>
      if existing.supersededBy dial then kept
      else { pool := p, flight := { closes := [link], next := .negotiate linked existing.link } }
    | none =>
      if cfg.maxLinks ≤ p.links.keys.card then
        { pool := p, flight := { closes := [link] }, err := some .linkLimit }
      else kept

/-- `accepts` up to its first unlock. -/
def Pool.accepts (p : Pool) (target : Target) (tenant : TenantID) : Section :=
  if !cfg.core.validTarget target then { pool := p, err := some .invalid }
  else
    match cfg.core.tenantTarget target tenant with
    | none => { pool := p, err := some .noTenantEndpoint }
    | some dial => p.acquireUnlocked cfg ⟨target.host, tenant⟩ dial

/-! ## Runs -/

/-- The answers to what a flight does next: whether a dial returns a link, whether a link is a
`Subscriber`, the error of an RPC or of a capability read, the Host's observation, and the
clock. -/
structure Answer where
  ok : Bool := true
  subscriber : LinkID → Bool := fun _ => true
  err : Option LinkError := none
  observation : Option HostLinkRegistryObservation := none
  now : Int := 0

/-- A step: the first section of an operation, one close of a flight, or what it does next. -/
inductive PoolAct where
  | bind (target : Target) (req : HostLinkBindRequest) (ok : Bool) (answer : Option LinkError)
      (now : Int)
  | attach (target : Target) (req : HostLinkAttachRequest) (ok : Bool) (now : Int)
  | accepts (target : Target) (tenant : TenantID)
  | unbind (req : HostLinkUnbindRequest) (answer : Option LinkError) (now : Int)
  | deliverCommand (tenant : TenantID) (session : SessionID) (delivery : HostLinkCommandDelivery)
  | subscribe (tenant : TenantID) (session : SessionID)
  | unsubscribe (tenant : TenantID) (session : SessionID) (order : List LinkKey)
  | reapIdle (now : Int) (order : List LinkKey)
  | close (order : List LinkKey)
  | closeLink (i j : Nat)
  | resume (i : Nat) (answer : Answer)

/-- The pool, the number of the next dial, the operations outside the lock and every call made. -/
structure PoolRun where
  pool : Pool := {}
  fresh : LinkID := 0
  flights : List Flight := []
  log : List PoolCall := []

/-- What a flight with nothing left to close does next. A flight that is done returns. -/
def Flight.resume (p : Pool) (fresh : LinkID) (answer : Answer) : Next → Option Section
  | .done => none
  | .attach linked link req =>
    let err :=
      match answer.err, answer.observation with
      | some e, _ => some (.link e)
      | none, some observation => attachAnswers req observation
      | none, none => none
    some
      { pool := p, calls := [.attach link req]
        flight := { next := if answer.err = some .terminal then .evict linked link else .done }
        err := err }
  | .dial linked target =>
    if answer.ok then
      some
        { pool := p, calls := [.dial target.dialable (some fresh)]
          flight := { next := .dialled linked target fresh } }
    else some { pool := p, calls := [.dial target.dialable none], err := some .dial }
  | .dialled linked target link => some (p.dialled cfg linked target link answer.now)
  | .negotiate linked link =>
    some
      { pool := p
        flight := { next := if answer.err = some .terminal then .evict linked link else .done }
        err := answer.err.map .link }
  | .evict linked link => some (p.evict linked link)
  | .deliver link tenant session delivery =>
    some
      { pool := p, calls := [.deliverCommand link tenant session delivery]
        err := answer.err.map fun e => if e = .refusal then .link e else .commandUndelivered }
  | .subscribe link tenant session =>
    if answer.subscriber link then
      some { pool := p, calls := [.subscribe link tenant session], err := answer.err.map .link }
    else some { pool := p, err := some .subscribeUnsupported }
  | .unsubscribe links tenant session =>
    some
      { pool := p
        calls := (links.filter answer.subscriber).map fun link =>
          .unsubscribe link tenant session }

/-- The run after a section that started an operation, or went on with the flight at `i`. -/
def PoolRun.after (σ : PoolRun) (flights : List Flight) (s : Section) : PoolRun :=
  { pool := s.pool, fresh := σ.fresh + 1, flights := flights, log := σ.log ++ s.calls }

def PoolRun.begin (σ : PoolRun) (s : Section) : PoolRun := σ.after (σ.flights ++ [s.flight]) s

/-- The order a loop takes a map's keys in. -/
def Pool.Enumerates (p : Pool) (order : List LinkKey) : Prop :=
  order.Nodup ∧ order.toFinset = p.links.keys

instance (p : Pool) (order : List LinkKey) : Decidable (p.Enumerates order) :=
  inferInstanceAs (Decidable (_ ∧ _))

def PoolRun.step (σ : PoolRun) : PoolAct → Option PoolRun
  | .bind target req ok answer now =>
    some (σ.begin (σ.pool.bind cfg σ.fresh target req ok answer now))
  | .attach target req ok now => some (σ.begin (σ.pool.attach cfg σ.fresh target req ok now))
  | .accepts target tenant => some (σ.begin (σ.pool.accepts cfg target tenant))
  | .unbind req answer now => some (σ.begin (σ.pool.unbind cfg req answer now))
  | .deliverCommand tenant session delivery =>
    some (σ.begin (σ.pool.deliverCommand cfg tenant session delivery))
  | .subscribe tenant session => some (σ.begin (σ.pool.subscribe tenant session))
  | .unsubscribe tenant session order =>
    if σ.pool.Enumerates order then some (σ.begin (σ.pool.unsubscribe tenant session order))
    else none
  | .reapIdle now order =>
    if σ.pool.Enumerates order then some (σ.begin (σ.pool.reapIdle cfg now order)) else none
  | .close order =>
    if σ.pool.Enumerates order then some (σ.begin (σ.pool.close order)) else none
  | .closeLink i j =>
    match σ.flights[i]? with
    | none => none
    | some f =>
      match f.closes[j]? with
      | none => none
      | some link =>
        some
          { σ with
            flights := σ.flights.set i { f with closes := f.closes.eraseIdx j }
            log := σ.log ++ [.close link] }
  | .resume i answer =>
    match σ.flights[i]? with
    | none => none
    | some f =>
      if f.closes = [] then
        match Flight.resume cfg σ.pool σ.fresh answer f.next with
        | none => some { σ with flights := σ.flights.eraseIdx i }
        | some s => some (σ.after (σ.flights.set i s.flight) s)
      else none

end Factory.Hostlink
