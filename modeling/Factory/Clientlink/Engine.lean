import Factory.Lib.Runs
import Factory.Wire
import Mathlib.Data.Finmap

/-!
# The demand of the ClientLink edge

Model of `internal/realtime/clientlink/demand.go`: the delivery bindings of each session and the
one unit of the routing plane's demand held for them, given back a debounce after the last.

Every operation holds the engine's lock from its start to its end, so it is one step. A release
handle is a `sync.Once`, so of its calls the first is a step and the others do nothing. A timer is
outstanding from when it is armed to when its callback returns: its callback starts at `Act.fire`
and gets the lock at `Act.drain`, and a stop prevents a callback exactly when it has not started.
Entries are pointers in the source: `ptr` is the identity of an entry, and no two entries ever made
share one. A generation is a `uint64` that a re-acquire raises by one; here it is not bounded.
-/

namespace Factory.Clientlink

/-! ## Channels -/

/-- `identity.Principal`, what the edge reads of it. -/
structure Principal where
  tenant : TenantID
deriving DecidableEq

/-- Core's validations of identifiers. -/
structure Identifiers where
  validTenant : TenantID → Bool
  validSession : SessionID → Bool

/-- Why `Bind` returned no binding: the authorizer's error, `ErrUnroutableChannel` with what is
wrong, `identity.ErrUnauthorized`, or the demand plane's error. -/
inductive BindError where
  | denied
  | unroutable (what : String)
  | anotherTenant
  | demand
deriving DecidableEq

def channelPrefix : List Char := "session:".toList

def demandKeyOf (core : Identifiers) (principal : Principal) (channel : String) :
    Except BindError SessionKey :=
  if !channelPrefix.isPrefixOf channel.toList then .error (.unroutable "not a session channel")
  else
    let rest := channel.toList.drop channelPrefix.length
    let tenant := String.ofList (rest.takeWhile (· ≠ ':'))
    match rest.dropWhile (· ≠ ':') with
    | [] => .error (.unroutable "a session channel has three segments")
    | _ :: session =>
      -- the cut is at the first colon, so a fourth segment is still in the session's
      if ':' ∈ session then .error (.unroutable "a session channel has three segments")
      else if !core.validTenant tenant then
        .error (.unroutable "the tenant segment is not an identity Core carries")
      else if !core.validSession (String.ofList session) then
        .error (.unroutable "the session segment is not an identity Core carries")
      else if tenant ≠ principal.tenant then .error .anotherTenant
      else .ok ⟨principal.tenant, String.ofList session⟩

/-! ## The engine -/

/-- `demandEntry`; `stop` is the timer its stop function stops. -/
structure DemandEntry where
  ptr : Nat
  bindings : Nat
  generation : Nat := 0
  stop : Option Nat := none
deriving DecidableEq

/-- An outstanding timer: what its callback captured, and whether the callback has started. -/
structure Timer where
  id : Nat
  key : SessionKey
  entry : Nat
  generation : Nat
  running : Bool := false
deriving DecidableEq

/-- A release handle `Bind` returned, and whether it was called. -/
structure Handle where
  key : SessionKey
  released : Bool := false
deriving DecidableEq

/-- A call of the demand plane, and whether it returned `nil`. -/
inductive DemandCall where
  | acquire (key : SessionKey) (ok : Bool)
  | release (key : SessionKey) (ok : Bool)
deriving DecidableEq

/-- `Engine`, its demand table, with its clock, the handles it returned and the calls it made. -/
structure Engine where
  demand : Finmap fun _ : SessionKey => DemandEntry := ∅
  timers : List Timer := []
  nextPtr : Nat := 0
  nextTimer : Nat := 0
  handles : List Handle := []
  log : List DemandCall := []

/-- A write to the map, or through the pointer it holds. -/
def Engine.store (e : Engine) (key : SessionKey) (entry : DemandEntry) : Engine :=
  { e with demand := e.demand.insert key entry }

/-- The stop function of a timer. -/
def Engine.stopTimer (e : Engine) (id : Nat) : Engine :=
  { e with timers := e.timers.filter fun t => t.id ≠ id ∨ t.running }

def Engine.cancelRelease (e : Engine) (entry : DemandEntry) : Engine × DemandEntry :=
  match entry.stop with
  | none => (e, entry)
  | some id => (e.stopTimer id, { entry with stop := none, generation := entry.generation + 1 })

/-- `acquire`. The demand plane's `Acquire` returns `nil` when `ok`. -/
def Engine.acquire (e : Engine) (key : SessionKey) (ok : Bool) : Engine × Bool :=
  match e.demand.lookup key with
  | some entry =>
    let (e, entry) := e.cancelRelease { entry with bindings := entry.bindings + 1 }
    (e.store key entry, true)
  | none =>
    let e := { e with log := e.log ++ [.acquire key ok] }
    if ok then
      ({ e with nextPtr := e.nextPtr + 1 }.store key { ptr := e.nextPtr, bindings := 1 }, true)
    else (e, false)

/-- `Bind`: the handle is the last of the engine's. -/
def Engine.bind (core : Identifiers) (e : Engine) (principal : Principal) (channel : String)
    (authorized ok : Bool) : Engine × Except BindError Unit :=
  if !authorized then (e, .error .denied)
  else
    match demandKeyOf core principal channel with
    | .error err => (e, .error err)
    | .ok key =>
      let (e, acquired) := e.acquire key ok
      if acquired then ({ e with handles := e.handles ++ [{ key := key }] }, .ok ())
      else (e, .error .demand)

def Engine.releaseBinding (e : Engine) (key : SessionKey) : Engine :=
  match e.demand.lookup key with
  | none => e
  | some entry =>
    if entry.bindings = 0 then e
    else
      let entry := { entry with bindings := entry.bindings - 1 }
      if 0 < entry.bindings then e.store key entry
      else
        let timer : Timer :=
          { id := e.nextTimer, key := key, entry := entry.ptr, generation := entry.generation }
        { e with timers := e.timers ++ [timer], nextTimer := e.nextTimer + 1 }.store key
          { entry with stop := some e.nextTimer }

/-- A call of the handle at `i`. -/
def Engine.release (e : Engine) (i : Nat) : Engine :=
  match e.handles[i]? with
  | none => e
  | some handle =>
    if handle.released then e
    else
      { e with handles := e.handles.set i { handle with released := true } }.releaseBinding
        handle.key

/-- `releaseDemandLocked`, with the entry deleted. -/
def Engine.giveBack (e : Engine) (key : SessionKey) (ok : Bool) : Engine :=
  { e with demand := e.demand.erase key, log := e.log ++ [.release key ok] }

def Engine.drain (e : Engine) (key : SessionKey) (scheduled generation : Nat) (ok : Bool) :
    Engine :=
  match e.demand.lookup key with
  | none => e
  | some entry =>
    if entry.ptr ≠ scheduled ∨ entry.generation ≠ generation ∨ entry.bindings ≠ 0 then e
    else e.giveBack key ok

/-- The loop of `ReleaseIdleDemand`, over the keys in the order the map gives them. -/
def Engine.releaseIdle (ok : SessionKey → Bool) : List SessionKey → Engine → Engine
  | [], e => e
  | key :: rest, e =>
    match e.demand.lookup key with
    | none => Engine.releaseIdle ok rest e
    | some entry =>
      if 0 < entry.bindings ∨ entry.stop = none then Engine.releaseIdle ok rest e
      else
        -- what is cancelled is of an entry that is deleted, so only its timer is left of it
        Engine.releaseIdle ok rest ((e.cancelRelease entry).1.giveBack key (ok key))

/-! ## Runs -/

/-- A step: an operation, or a timer's callback starting or getting the lock. -/
inductive Act where
  | bind (principal : Principal) (channel : String) (authorized ok : Bool)
  | release (i : Nat)
  | releaseIdleDemand (order : List SessionKey) (ok : SessionKey → Bool)
  | fire (i : Nat)
  | drain (i : Nat) (ok : Bool)

def Engine.step (core : Identifiers) (e : Engine) : Act → Option Engine
  | .bind principal channel authorized ok => some (e.bind core principal channel authorized ok).1
  | .release i => if i < e.handles.length then some (e.release i) else none
  | .releaseIdleDemand order ok =>
    if order.Nodup ∧ order.toFinset = e.demand.keys then some (Engine.releaseIdle ok order e)
    else none
  | .fire i =>
    match e.timers[i]? with
    | none => none
    | some t =>
      if t.running then none
      else some { e with timers := e.timers.set i { t with running := true } }
  | .drain i ok =>
    match e.timers[i]? with
    | none => none
    | some t =>
      if t.running then
        some ({ e with timers := e.timers.eraseIdx i }.drain t.key t.entry t.generation ok)
      else none

end Factory.Clientlink
