import Factory.Lib.Framing
import Factory.Lib.Runs
import Factory.Wire
import Mathlib.Data.Finmap

/-!
# The routing table

Model of `internal/routing/bindings.go`: which Host each session this replica serves is
bound to, and how many local holders want it. Every operation runs under the table's lock,
the registry read and the bind included, except the Host's RPC of a delivery, which runs
after it (`TableOp.rpc`).

The registry and the binder are seams: an operation is given their answers (`Seams`) and
leaves the calls it made of them. Core's validation of a bind request, its wire version and
the digest behind the idempotency key are the fields of `BindCore`.
-/

namespace Factory.Routing

/-! ## Keys and requests -/

/-- `BindingKey`: the whole ownership tuple. -/
structure BindingKey where
  tenant : TenantID := ""
  session : SessionID := ""
  host : HostID := ""
  hostGeneration : Nat := 0
  leaseEpoch : Nat := 0
deriving DecidableEq

/-- `Binding`; the default is the zero value. -/
structure Binding where
  key : BindingKey := {}
  endpoint : InternalEndpoint := ""
  runtimeCompatibility : String := ""
deriving DecidableEq

/-- What the table takes from Core and from the digest: the hexadecimal text of `sha256`. -/
structure BindCore where
  currentWireVersion : Nat
  validateBind : HostLinkBindRequest → Bool
  digest : Bytes → String

/-- `frame`: the decimal byte length, a NUL, the bytes. -/
def frame (field : String) : Bytes := Framing.counted 0 (Framing.utf8 field)

variable (core : BindCore)

def bindIdempotencyKey (key : BindingKey) : String :=
  core.digest (frame "hostbind/v1" ++ frame key.tenant ++ frame key.session ++ frame key.host ++
    frame (toString key.hostGeneration) ++ frame (toString key.leaseEpoch))

def bindRequest (binding : Binding) : HostLinkBindRequest :=
  { version := core.currentWireVersion
    tenant := binding.key.tenant
    session := binding.key.session
    host := binding.key.host
    hostGeneration := binding.key.hostGeneration
    leaseEpoch := binding.key.leaseEpoch
    runtimeCompatibility := binding.runtimeCompatibility
    idempotencyKey := bindIdempotencyKey core binding.key }

def unbindRequest (binding : Binding) : HostLinkUnbindRequest :=
  { version := core.currentWireVersion
    tenant := binding.key.tenant
    session := binding.key.session
    host := binding.key.host
    hostGeneration := binding.key.hostGeneration
    leaseEpoch := binding.key.leaseEpoch
    idempotencyKey := bindIdempotencyKey core binding.key }

/-! ## Seams -/

/-- An error of a seam; `routeGone` is one that wraps `ErrRouteGone`. -/
inductive SeamError where
  | routeGone
  | other
deriving DecidableEq

inductive RouteError where
  | bindingsClosed
  | noOwner
  | unroutableOwner
  | noBinding
  | noDemand
  | seam (e : SeamError)
deriving DecidableEq

/-- What `Resolver` and `Binder` answer one operation. -/
structure Seams where
  owner : SessionKey → Except SeamError (Option HostLinkRegistryObservation)
  bind : InternalEndpoint → HostLinkBindRequest → Option SeamError
  unbind : HostLinkUnbindRequest → Option SeamError

/-- A call of a seam, with the answer of the calls that change a Host. -/
inductive BindingCall where
  | owner (key : SessionKey)
  | bind (endpoint : InternalEndpoint) (req : HostLinkBindRequest) (err : Option SeamError)
  | unbind (req : HostLinkUnbindRequest) (err : Option SeamError)
  | deliverCommand (tenant : TenantID) (session : SessionID) (delivery : HostLinkCommandDelivery)
deriving DecidableEq

/-! ## The table -/

structure SessionRoute where
  demand : Nat := 0
  binding : Binding := {}
  bound : Bool := false
deriving DecidableEq

/-- `Bindings`, less its seams. -/
structure Bindings where
  closed : Bool := false
  sessions : Finmap fun _ : SessionKey => SessionRoute := ∅

/-- What an operation did: the table afterwards, the calls it made and what it returned. -/
structure Did (α : Type) where
  table : Bindings
  calls : List BindingCall := []
  result : α

/-- The binding an owner gives a session. -/
def bindingOf (key : SessionKey) (observed : HostLinkRegistryObservation) : Binding :=
  { key :=
      { tenant := key.tenant, session := key.session, host := observed.host
        hostGeneration := observed.hostGeneration, leaseEpoch := observed.leaseEpoch }
    endpoint := observed.internalEndpoint
    runtimeCompatibility := observed.runtimeCompatibility }

def Bindings.bindLocked (b : Bindings) (seams : Seams) (key : SessionKey) :
    Did (Except RouteError Binding) :=
  match seams.owner key with
  | .error e => { table := b, calls := [.owner key], result := .error (.seam e) }
  | .ok none => { table := b, calls := [.owner key], result := .error .noOwner }
  | .ok (some observed) =>
    let binding := bindingOf key observed
    let req := bindRequest core binding
    if core.validateBind req then
      let err := seams.bind binding.endpoint req
      { table := b
        calls := [.owner key, .bind binding.endpoint req err]
        result :=
          match err with
          | some e => .error (.seam e)
          | none => .ok binding }
    else { table := b, calls := [.owner key], result := .error .unroutableOwner }

/-- `routeLocked`. A session with no route gets one without demand. -/
def Bindings.routeLocked (b : Bindings) (seams : Seams) (key : SessionKey) :
    Did (Except RouteError SessionRoute) :=
  let route := (b.sessions.lookup key).getD {}
  if route.bound then { table := b, result := .ok route }
  else
    let did := b.bindLocked core seams key
    match did.result with
    | .error e => { table := b, calls := did.calls, result := .error e }
    | .ok binding =>
      let route := { route with binding := binding, bound := true }
      { table := { b with sessions := b.sessions.insert key route }
        calls := did.calls
        result := .ok route }

def Bindings.acquire (b : Bindings) (seams : Seams) (key : SessionKey) :
    Did (Except RouteError Binding) :=
  if b.closed then { table := b, result := .error .bindingsClosed }
  else
    let did := b.routeLocked core seams key
    match did.result with
    | .error e => { did with result := .error e }
    | .ok route =>
      let table := did.table
      { table :=
          { table with
            sessions := table.sessions.insert key { route with demand := route.demand + 1 } }
        calls := did.calls
        result := .ok route.binding }

def Bindings.release (b : Bindings) (seams : Seams) (key : SessionKey) :
    Did (Except RouteError Unit) :=
  if b.closed then { table := b, result := .error .bindingsClosed }
  else
    match b.sessions.lookup key with
    | none => { table := b, result := .error .noDemand }
    | some route =>
      if route.demand = 0 then { table := b, result := .error .noDemand }
      else if 0 < route.demand - 1 then
        let route := { route with demand := route.demand - 1 }
        { table := { b with sessions := b.sessions.insert key route }, result := .ok () }
      else
        let table := { b with sessions := b.sessions.erase key }
        if route.bound then
          let req := unbindRequest core route.binding
          { table := table
            calls := [.unbind req (seams.unbind req)]
            result :=
              match seams.unbind req with
              | some e => .error (.seam e)
              | none => .ok () }
        else { table := table, result := .ok () }

/-- `Deliver` up to its unlock: the target of the delivery. -/
def Bindings.deliver (b : Bindings) (seams : Seams) (key : SessionKey) :
    Did (Except RouteError BindingKey) :=
  if b.closed then { table := b, result := .error .bindingsClosed }
  else
    match b.sessions.lookup key with
    | none => { table := b, result := .error .noBinding }
    | some route =>
      if route.demand = 0 then { table := b, result := .error .noBinding }
      else
        let did := b.routeLocked core seams key
        match did.result with
        | .error e => { did with result := .error e }
        | .ok route => { did with result := .ok route.binding.key }

def Bindings.observe (b : Bindings) (seams : Seams) (observed : HostLinkRegistryObservation) :
    Did Bool :=
  let key : SessionKey := ⟨observed.tenant, observed.session⟩
  if b.closed then { table := b, result := false }
  else
    match b.sessions.lookup key with
    | none => { table := b, result := false }
    | some route =>
      let held := route.binding.key
      if !route.bound then { table := b, result := false }
      else if observed.leaseEpoch < held.leaseEpoch then { table := b, result := false }
      else if observed.host = held.host ∧ observed.hostGeneration = held.hostGeneration ∧
          observed.leaseEpoch = held.leaseEpoch then { table := b, result := false }
      else
        let req := unbindRequest core route.binding
        let route := { route with binding := {}, bound := false }
        { table := { b with sessions := b.sessions.insert key route }
          calls := [.unbind req (seams.unbind req)]
          result := true }

/-- The loop of `Close` over the sessions in the order the map gives them, with the failures
so far. -/
def Bindings.closeLoop (core : BindCore) (seams : Seams) :
    List SessionKey → Bindings → List SeamError → Did (List SeamError)
  | [], b, failures => { table := b, result := failures }
  | key :: rest, b, failures =>
    let route := (b.sessions.lookup key).getD {}
    let b := { b with sessions := b.sessions.erase key }
    if route.bound then
      let req := unbindRequest core route.binding
      let err := seams.unbind req
      let failures := failures ++ (err.filter (· ≠ .routeGone)).toList
      let did := Bindings.closeLoop core seams rest b failures
      { did with calls := .unbind req err :: did.calls }
    else Bindings.closeLoop core seams rest b failures

/-- `Close`; no failure is a `nil` error. -/
def Bindings.close (b : Bindings) (seams : Seams) (order : List SessionKey) :
    Did (List SeamError) :=
  Bindings.closeLoop core seams order { b with closed := true } []

def Bindings.binding (b : Bindings) (key : SessionKey) : Option Binding :=
  match b.sessions.lookup key with
  | none => none
  | some route => if route.bound then some route.binding else none

def Bindings.demand (b : Bindings) (key : SessionKey) : Nat :=
  match b.sessions.lookup key with
  | none => 0
  | some route => route.demand

/-! ## Runs -/

/-- An operation of the table. `rpc` is the Host's RPC of a delivery whose section is done;
`close` visits the sessions in the order given. -/
inductive TableOp where
  | acquire (key : SessionKey) (seams : Seams)
  | release (key : SessionKey) (seams : Seams)
  | deliver (key : SessionKey) (delivery : HostLinkCommandDelivery) (seams : Seams)
  | rpc (i : Nat)
  | observe (observed : HostLinkRegistryObservation) (seams : Seams)
  | close (order : List SessionKey) (seams : Seams)

/-- The table, the calls made so far and the deliveries whose RPC is to come. -/
structure Routed where
  table : Bindings := {}
  log : List BindingCall := []
  delivering : List (BindingKey × HostLinkCommandDelivery) := []

/-- The table after an operation, its calls added to the log. -/
def Routed.after {α : Type} (σ : Routed) (did : Did α) : Routed :=
  { σ with table := did.table, log := σ.log ++ did.calls }

def Routed.step (σ : Routed) : TableOp → Option Routed
  | .acquire key seams => some (σ.after (σ.table.acquire core seams key))
  | .release key seams => some (σ.after (σ.table.release core seams key))
  | .deliver key delivery seams =>
    let did := σ.table.deliver core seams key
    let σ := σ.after did
    match did.result with
    | .error _ => some σ
    | .ok target => some { σ with delivering := σ.delivering ++ [(target, delivery)] }
  | .rpc i =>
    match σ.delivering[i]? with
    | none => none
    | some (target, delivery) =>
      some
        { σ with
          log := σ.log ++ [.deliverCommand target.tenant target.session delivery]
          delivering := σ.delivering.eraseIdx i }
  | .observe observed seams => some (σ.after (σ.table.observe core seams observed))
  | .close order seams =>
    if order.Nodup ∧ order.toFinset = σ.table.sessions.keys
    then some (σ.after (σ.table.close core seams order)) else none

end Factory.Routing
