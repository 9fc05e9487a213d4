import Factory.Routing.Bindings

/-!
# The demand plane

Model of `internal/routing/demand.go`: the local subscribers of each session, the one unit of
the routing table's demand the plane holds for a session it could bind, and the poll that is
armed for every watched session.

Every operation holds the plane's lock from its start to its end, so it is one step, except
that the routing table below has a lock of its own: between two calls an operation makes of
the table, others may push observations and deliver commands. An operation is therefore given
what reached the table before each of its calls (`Push`), next to what the seams answer.

A timer is outstanding from when it is armed to when its callback returns. Its callback
starts at `Act.fire` and gets the plane's lock at `Act.poll`; a stop prevents a callback
exactly when it has not started. Entries are pointers in the source: `ptr` is the identity of
an entry, and no two entries ever made share one.
-/

namespace Factory.Routing

/-! ## Configuration -/

/-- `DemandLimits`, in nanoseconds. `Validate` refuses others. -/
structure DemandLimits where
  ownershipPollInterval : Int
  heldPollInterval : Int := 0
  pollTimeout : Int
  ownershipPollInterval_pos : 0 < ownershipPollInterval
  pollTimeout_pos : 0 < pollTimeout

/-- The plane's parameters: the table's, its limits, Core's validation of a hint, and whether
the binder is a `RouteReporter`. -/
structure DemandConfig where
  core : BindCore
  limits : DemandLimits
  validateTip : SessionKey → Nat → Bool
  reporter : Bool

/-- A call of a seam of the plane itself. -/
inductive DemandCall where
  | watching (key : SessionKey)
  | served (key : SessionKey)
  | unwatched (key : SessionKey)
  | owner (key : SessionKey)
  | routeHeld (key : SessionKey)
  | readTip (key : SessionKey)
  | publishTip (key : SessionKey) (tip : Nat)
deriving DecidableEq

inductive DemandError where
  | demandClosed
  | noDemand
  | context
  | table (e : RouteError)
deriving DecidableEq

/-! ## Below the plane -/

/-- What others do to the routing table: push an observation, or deliver a command. -/
inductive Push where
  | observe (observed : HostLinkRegistryObservation) (seams : Seams)
  | deliver (key : SessionKey) (delivery : HostLinkCommandDelivery) (seams : Seams)
  | rpc (i : Nat)

def Push.op : Push → TableOp
  | .observe observed seams => .observe observed seams
  | .deliver key delivery seams => .deliver key delivery seams
  | .rpc i => .rpc i

/-- What lies below the plane: the routing table, and the calls made of the plane's own
seams. -/
structure Below where
  routed : Routed := {}
  calls : List DemandCall := []

def Below.table (w : Below) : Bindings := w.routed.table

variable (cfg : DemandConfig)

def Below.push (w : Below) (p : Push) : Below :=
  { w with routed := (w.routed.step cfg.core p.op).getD w.routed }

def Below.pushed (w : Below) (pushes : List Push) : Below :=
  pushes.foldl (Below.push cfg) w

def Below.call (w : Below) (c : DemandCall) : Below := { w with calls := w.calls ++ [c] }

/-- The answers to one `Bindings.Release`, and what reached the table before it. -/
structure Give where
  before : List Push := []
  seams : Seams

/-- `Bindings.Release` as the plane calls it. -/
def Below.release (cfg : DemandConfig) (w : Below) (key : SessionKey) (give : Give) :
    Below × Except RouteError Unit :=
  let w := w.pushed cfg give.before
  let did := w.table.release cfg.core give.seams key
  ({ w with routed := w.routed.after did }, did.result)

/-- The answers to one `serveLocked`: those of `Bindings.Acquire`, with what reached the table
before it, and the captured tip, or none when the journal could not be read. -/
structure Serve where
  before : List Push := []
  seams : Seams
  tip : Option Nat := none

/-- `bindLocked`: whether the plane now holds a unit of the table's demand. -/
def Below.bindLocked (w : Below) (key : SessionKey) (serve : Serve) : Below × Bool :=
  let w := w.pushed cfg serve.before
  let did := w.table.acquire cfg.core serve.seams key
  let w := { w with routed := w.routed.after did }
  match did.result with
  | .error _ => (w, false)
  | .ok _ => (w, true)

def Below.hintLocked (w : Below) (key : SessionKey) (serve : Serve) : Below :=
  let w := w.call (.readTip key)
  match serve.tip with
  | none => w
  | some tip => if cfg.validateTip key tip then w.call (.publishTip key tip) else w

/-- `serveLocked` of an entry that holds a unit or not: whether it does afterwards. -/
def Below.serveLocked (w : Below) (key : SessionKey) (held : Bool) (serve : Serve) : Below × Bool :=
  let (w, held) := if held then (w, held) else w.bindLocked cfg key serve
  if held then (w, held) else (w.hintLocked cfg key serve, held)

/-- The answers to one `refreshLocked`: the registry's, what reaches the table before its
`Observe` and `Binding`, the answer of `RouteHeld`, and those of the `Release`. -/
structure Refresh where
  owner : Except SeamError (Option HostLinkRegistryObservation)
  beforeObserve : List Push := []
  observe : Seams
  beforeBinding : List Push := []
  routeHeld : Bool := true
  give : Give

def Below.transportHolds (w : Below) (key : SessionKey) (answer : Bool) : Below × Bool :=
  if cfg.reporter then (w.call (.routeHeld key), answer) else (w, true)

/-- `refreshLocked` of an entry that holds a unit: whether it does afterwards. -/
def Below.refreshLocked (w : Below) (key : SessionKey) (refresh : Refresh) : Below × Bool :=
  let w := w.call (.owner key)
  match refresh.owner with
  | .error _ => (w, true)
  | .ok none => ((w.release cfg key refresh.give).1, false)
  | .ok (some observed) =>
    let w := w.pushed cfg refresh.beforeObserve
    let did := w.table.observe cfg.core refresh.observe observed
    let w := { w with routed := w.routed.after did }
    let w := w.pushed cfg refresh.beforeBinding
    if (w.table.binding key).isSome then
      let (w, holds) := w.transportHolds cfg key refresh.routeHeld
      if holds then (w, true) else ((w.release cfg key refresh.give).1, false)
    else ((w.release cfg key refresh.give).1, false)

/-! ## The plane -/

/-- `demandSession`; `stop` is the timer its stop function stops. -/
structure DemandSession where
  ptr : Nat
  subscribers : Nat
  held : Bool := false
  stop : Option Nat := none
deriving DecidableEq

/-- An outstanding timer: the session and the entry its callback captured, the interval it
was armed for, and whether its callback has started. -/
structure Timer where
  id : Nat
  key : SessionKey
  entry : Nat
  interval : Int
  running : Bool := false
deriving DecidableEq

/-- `Demand` with its clock and what lies below it. The last two count the `Acquire`s that
returned `nil` and the `Release`s that found an entry. -/
structure Demand where
  closed : Bool := false
  sessions : Finmap fun _ : SessionKey => DemandSession := ∅
  timers : List Timer := []
  nextPtr : Nat := 0
  nextTimer : Nat := 0
  below : Below := {}
  acquired : SessionKey → Nat := fun _ => 0
  released : SessionKey → Nat := fun _ => 0

/-- A write to the map, or through the pointer it holds. -/
def Demand.store (d : Demand) (key : SessionKey) (entry : DemandSession) : Demand :=
  { d with sessions := d.sessions.insert key entry }

/-- A new entry. -/
def Demand.entry (d : Demand) (subscribers : Nat) (held : Bool) : DemandSession × Demand :=
  ({ ptr := d.nextPtr, subscribers := subscribers, held := held },
    { d with nextPtr := d.nextPtr + 1 })

def Demand.cancelPoll (d : Demand) (entry : DemandSession) : Demand :=
  match entry.stop with
  | none => d
  | some id => { d with timers := d.timers.filter fun t => t.id ≠ id ∨ t.running }

def Demand.scheduleLocked (d : Demand) (key : SessionKey) (entry : DemandSession) : Demand :=
  let interval :=
    if entry.held ∧ 0 < cfg.limits.heldPollInterval then cfg.limits.heldPollInterval
    else cfg.limits.ownershipPollInterval
  let timer : Timer := { id := d.nextTimer, key := key, entry := entry.ptr, interval := interval }
  { d with timers := d.timers ++ [timer], nextTimer := d.nextTimer + 1 }.store key
    { entry with stop := some d.nextTimer }

def Demand.rescheduleLocked (d : Demand) (key : SessionKey) (entry : DemandSession) : Demand :=
  let d := d.cancelPoll entry
  let (next, d) := d.entry entry.subscribers entry.held
  (d.store key next).scheduleLocked cfg key next

def Demand.teardownLocked (d : Demand) (key : SessionKey) (entry : DemandSession) (give : Give) :
    Demand × Except RouteError Unit :=
  let d := d.cancelPoll entry
  let d := { d with sessions := d.sessions.erase key, below := d.below.call (.unwatched key) }
  if entry.held then
    let (w, result) := d.below.release cfg key give
    ({ d with below := w }, result)
  else (d, .ok ())

def Demand.acquire (d : Demand) (key : SessionKey) (serve : Serve) :
    Demand × Except DemandError Unit :=
  if d.closed then (d, .error .demandClosed)
  else
    let d := { d with acquired := Function.update d.acquired key (d.acquired key + 1) }
    match d.sessions.lookup key with
    | some entry => (d.store key { entry with subscribers := entry.subscribers + 1 }, .ok ())
    | none =>
      let (entry, d) := d.entry 1 false
      let d := d.store key entry
      let (w, held) := (d.below.call (.watching key)).serveLocked cfg key entry.held serve
      let d := { d with below := w.call (.served key) }
      (d.scheduleLocked cfg key { entry with held := held }, .ok ())

def Demand.release (d : Demand) (key : SessionKey) (give : Give) :
    Demand × Except DemandError Unit :=
  if d.closed then (d, .error .demandClosed)
  else
    match d.sessions.lookup key with
    | none => (d, .error .noDemand)
    | some entry =>
      if entry.subscribers = 0 then (d, .error .noDemand)
      else
        let d := { d with released := Function.update d.released key (d.released key + 1) }
        let entry := { entry with subscribers := entry.subscribers - 1 }
        if 0 < entry.subscribers then (d.store key entry, .ok ())
        else
          let (d, result) := d.teardownLocked cfg key entry give
          (d, result.mapError .table)

/-- When the context of a `Rebind` is done: before it holds the lock, between the unbind and
the serve, before it returns, or never. -/
inductive Expiry where
  | beforeLock
  | beforeServe
  | beforeReturn
  | never
deriving DecidableEq

/-- `ctx.Err()` at the end. -/
def Expiry.err (ctx : Expiry) : List DemandError := if ctx = .never then [] else [.context]

/-- The error of a `Release` inside a join. -/
def joined : Except RouteError Unit → List DemandError
  | .ok () => []
  | .error e => [.table e]

/-- `Rebind`; the errors joined, none for `nil`. -/
def Demand.rebind (d : Demand) (key : SessionKey) (ctx : Expiry) (give : Give) (serve : Serve) :
    Demand × List DemandError :=
  if ctx = .beforeLock then (d, ctx.err)
  else if d.closed then (d, [.demandClosed])
  else
    match d.sessions.lookup key with
    | none => (d, [.noDemand])
    | some entry =>
      if entry.held then
        let (w, result) := d.below.release cfg key give
        let d := { d with below := w }
        let entry := { entry with held := false }
        if ctx = .beforeServe then
          (d.rescheduleLocked cfg key entry, joined result ++ ctx.err)
        else
          let (w, held) := d.below.serveLocked cfg key entry.held serve
          let d := { d with below := w }
          (d.rescheduleLocked cfg key { entry with held := held }, joined result ++ ctx.err)
      else
        let (w, held) := d.below.serveLocked cfg key entry.held serve
        let d := { d with below := w }
        (d.rescheduleLocked cfg key { entry with held := held }, ctx.err)

/-- `poll`, of the entry its timer captured. -/
def Demand.poll (d : Demand) (key : SessionKey) (scheduled : Nat) (refresh : Refresh)
    (serve : Serve) : Demand :=
  match d.sessions.lookup key with
  | none => d
  | some entry =>
    if entry.ptr ≠ scheduled then d
    else
      let (w, held) :=
        if entry.held then d.below.refreshLocked cfg key refresh else (d.below, entry.held)
      let (w, held) := w.serveLocked cfg key held serve
      { d with below := w }.scheduleLocked cfg key { entry with held := held }

/-- The loop of `Close` over the sessions in the order the map gives them. -/
def Demand.closeLoop (cfg : DemandConfig) (give : SessionKey → Give) :
    List SessionKey → Demand → List RouteError → Demand × List RouteError
  | [], d, failures => (d, failures)
  | key :: rest, d, failures =>
    match d.sessions.lookup key with
    | none => Demand.closeLoop cfg give rest d failures
    | some entry =>
      let (d, result) := d.teardownLocked cfg key entry (give key)
      match result with
      | .error e =>
        let failures := if e = .seam .routeGone then failures else failures ++ [e]
        Demand.closeLoop cfg give rest d failures
      | .ok () => Demand.closeLoop cfg give rest d failures

def Demand.close (d : Demand) (order : List SessionKey) (give : SessionKey → Give) :
    Demand × List RouteError :=
  Demand.closeLoop cfg give order { d with closed := true } []

/-! ## Runs -/

/-- A step of the plane, of its clock or of its surroundings. The table is closed after the
plane. -/
inductive Act where
  | acquire (key : SessionKey) (serve : Serve)
  | release (key : SessionKey) (give : Give)
  | rebind (key : SessionKey) (ctx : Expiry) (give : Give) (serve : Serve)
  | close (order : List SessionKey) (give : SessionKey → Give)
  | fire (i : Nat)
  | poll (i : Nat) (refresh : Refresh) (serve : Serve)
  | push (p : Push)
  | closeTable (order : List SessionKey) (seams : Seams)

def Demand.step (cfg : DemandConfig) (d : Demand) : Act → Option Demand
  | .acquire key serve => some (d.acquire cfg key serve).1
  | .release key give => some (d.release cfg key give).1
  | .rebind key ctx give serve => some (d.rebind cfg key ctx give serve).1
  | .close order give =>
    if order.Nodup ∧ order.toFinset = d.sessions.keys then some (d.close cfg order give).1
    else none
  | .fire i =>
    match d.timers[i]? with
    | none => none
    | some t => if t.running then none
      else some { d with timers := d.timers.set i { t with running := true } }
  | .poll i refresh serve =>
    match d.timers[i]? with
    | none => none
    | some t =>
      if t.running then
        some ({ d with timers := d.timers.eraseIdx i }.poll cfg t.key t.entry refresh serve)
      else none
  | .push p => some { d with below := d.below.push cfg p }
  | .closeTable order seams =>
    if d.closed then
      (d.below.routed.step cfg.core (.close order seams)).map fun routed =>
        { d with below := { d.below with routed := routed } }
    else none

end Factory.Routing
