import Factory.Lib.Threads

/-!
# The Server's life

Starting, serving, quiescing and stopping one Server, with the admission gate of its service and
the node its components publish. Any number of calls run side by side. A call is a program
(`ServerAsk`): each question is one section under a mutex of the source, one wait on a channel, or
one call out of this package, and is answered at once in a `ServerWorld`.

Errors are lists: `nil` is the empty list and `errors.Join` is `++`.

`ServerWorld` holds the fields of `Server`, `components` and `admission.Service` that these calls
read or write, the goroutines they launch, and a record of what happened, which no call reads: the
part of its section the holder of `lifecycle` is in, how often `drained` was closed, and whether a
`Start` failed or returned nil. What the router does once it is told to quiesce is not modelled.
-/

namespace Factory.Compose

open Dialogue

inductive ServerState where
  | idle
  | serving
  | stopped
deriving DecidableEq

inductive ServerError where
  | alreadyServing
  | alreadyStarted
  | serverStopped
  | serverQuiesced
  | admissionQuiesced
  | contextDone
  /-- An error of a component or of the transport. -/
  | component (code : Nat)
deriving DecidableEq

/-- A channel that is made once and closed once. -/
inductive Signal where
  | unmade
  | waiting
  | closed
deriving DecidableEq

/-- The part of its section that the holder of `lifecycle` is in: it has just taken the lock, it is
a `Start` that has been let in, or one that has launched its loops, or it is the `Stop` that marked
the Server stopped. -/
inductive Held where
  | entered
  | starting
  | launched
  | stopping
deriving DecidableEq

/-- The goroutine of `finishQuiesce`: not launched, launched, up to its release of `lifecycle`,
after it, and ended. -/
inductive Finisher where
  | unborn
  | launched
  | fencing
  | draining
  | finished
deriving DecidableEq

structure ServerWorld where
  state : ServerState := .idle
  http : Bool := false
  quiescing : Bool := false
  started : Bool := false
  stop : Bool := false
  /-- `New` makes it closed, so `Stop` always has a channel to wait on. -/
  done : Signal := .closed
  quiesceDone : Signal := .unmade
  quiesceErr : List ServerError := []
  lifecycle : Option Held := none
  realtime : Bool := false
  realtimeDone : Signal := .unmade
  realtimeErr : List ServerError := []
  gateClosed : Bool := false
  active : Nat := 0
  drained : Signal := .unmade
  /-- The loops' context is cancelled. -/
  cancelled : Bool := false
  /-- The sweeps and admission workers that have been launched and have not returned. -/
  running : Nat := 0
  /-- `warnIncapableHosts` has been launched and has not returned. -/
  probing : Bool := false
  /-- The goroutine that waits for the loops and closes `done` has been launched. -/
  waiter : Bool := false
  finisher : Finisher := .unborn
  drainedCloses : Nat := 0
  startFailed : Bool := false
  startReturned : Bool := false
deriving DecidableEq

/-- The ClientLink node as the router's supplier sees it. -/
def ServerWorld.realtimeHandler (w : ServerWorld) : Bool :=
  if w.realtime = false ∨ w.realtimeDone ≠ .unmade then false else true

/-- The ClientLink node as the live-tail plane sees it. -/
def ServerWorld.clientLink (w : ServerWorld) : Bool :=
  if w.realtimeDone ≠ .unmade then false else w.realtime

/-! ## What the calls ask -/

/-- The planes `Stop` closes last. -/
inductive Plane where
  | demand
  | bindings
  | live
  | pool
deriving DecidableEq

inductive ServerAsk where
  | lockLifecycle
  | unlockLifecycle
  | claimStart
  | newHandler
  | publishRealtime
  | publishLoop
  /-- Launch one sweep or one admission worker. -/
  | launch
  | launchProbe
  | launchWaiter
  /-- Return from `Start`, and release `lifecycle`. -/
  | returnStart (errs : List ServerError)
  | claimServe
  | closeListener
  | serve
  | claimQuiesce
  | pollQuiesce
  | awaitQuiesce
  | readQuiesceErr
  | beginFinish
  | fence
  /-- The release of `lifecycle` in `finishQuiesce`. -/
  | unlockFinish
  /-- The wait for `drained`, under a context that can expire or under one that cannot. -/
  | awaitDrained (bounded : Bool)
  | closeQuiesce (errs : List ServerError)
  | claimRealtime
  | awaitRealtime
  | readRealtimeErr
  | shutdownRealtime
  | closeRealtime (errs : List ServerError)
  | claimStop
  | shutdownServer
  | stopWakes
  | cancelLoop
  | awaitSweeps
  | closePlane (plane : Plane)
  | beginAdmission
  | endAdmission
deriving DecidableEq

/-- How a wait on a channel or on the context ended. -/
inductive Woken where
  | done
  | contextDone
deriving DecidableEq

/-- What `stopRealtime` found: a shutdown under way or over, no node, or a node to shut down. -/
inductive RealtimeClaim where
  | joined
  | absent
  | owned
deriving DecidableEq

/-- What `Stop` found: a stopped Server, or one to stop, with or without an `http.Server` and a
cancel function. -/
inductive StopClaim where
  | already
  | fresh (server cancel : Bool)
deriving DecidableEq

@[reducible]
def ServerAsk.Answer : ServerAsk → Type
  | .claimStart | .claimServe => Option ServerError
  | .newHandler | .serve | .readQuiesceErr | .readRealtimeErr | .shutdownRealtime
  | .shutdownServer | .stopWakes | .closePlane _ => List ServerError
  | .pollQuiesce | .beginAdmission => Bool
  | .awaitQuiesce | .awaitDrained _ | .awaitRealtime | .awaitSweeps => Woken
  | .claimRealtime => RealtimeClaim
  | .claimStop => StopClaim
  | .lockLifecycle | .unlockLifecycle | .publishRealtime | .publishLoop | .launch | .launchProbe
  | .launchWaiter | .returnStart _ | .closeListener | .claimQuiesce | .beginFinish | .fence
  | .unlockFinish | .closeQuiesce _ | .closeRealtime _ | .cancelLoop | .endAdmission => Unit

/-! ## The calls -/

abbrev ServerProgram (α : Type) : Type := Dialogue ServerAsk.Answer α

def seam (q : ServerAsk) : ServerProgram q.Answer := Dialogue.query q

/-- What `Start` launches: `workers` sweeps and admission workers, and the probe when principals
are stamped. -/
structure ServerConfig where
  workers : Nat
  stampPrincipal : Bool

def launchAll : Nat → ServerProgram Unit
  | 0 => pure ()
  | n + 1 => do
    seam .launch
    launchAll n

def launchProbe (cfg : ServerConfig) : ServerProgram Unit :=
  if cfg.stampPrincipal then seam .launchProbe else pure ()

variable (cfg : ServerConfig)

def start : ServerProgram (List ServerError) := do
  seam .lockLifecycle
  match ← seam .claimStart with
  | some err =>
    seam (.returnStart [err])
    pure [err]
  | none =>
    match ← seam .newHandler with
    | err :: errs =>
      seam (.returnStart (err :: errs))
      pure (err :: errs)
    | [] =>
      seam .publishRealtime
      seam .publishLoop
      launchAll cfg.workers
      launchProbe cfg
      seam .launchWaiter
      seam (.returnStart [])
      pure []

/-- What `Serve` does with the answer of its `Start`. -/
def serveAfter (errs : List ServerError) : ServerProgram (List ServerError) :=
  if errs = [] ∨ .alreadyStarted ∈ errs then seam .serve
  else do
    seam .closeListener
    if .serverStopped ∈ errs ∨ .serverQuiesced ∈ errs then pure [] else pure errs

def serve : ServerProgram (List ServerError) := do
  match ← seam .claimServe with
  | some err => pure [err]
  | none => do
    let errs ← start cfg
    serveAfter errs

def quiesce : ServerProgram (List ServerError) := do
  seam .claimQuiesce
  match ← seam .pollQuiesce with
  | true => seam .readQuiesceErr
  | false =>
    match ← seam .awaitQuiesce with
    | .done => seam .readQuiesceErr
    | .contextDone => pure [.contextDone]

def stopRealtime : ServerProgram (List ServerError) := do
  match ← seam .claimRealtime with
  | .joined =>
    match ← seam .awaitRealtime with
    | .done => seam .readRealtimeErr
    | .contextDone => pure [.contextDone]
  | .absent => pure []
  | .owned => do
    let errs ← seam .shutdownRealtime
    seam (.closeRealtime errs)
    pure errs

/-- The context has no end here, so the second case is never taken. -/
def shutdownDrained : Woken → ServerProgram (List ServerError)
  | .done => stopRealtime
  | .contextDone => pure [.contextDone]

def finishQuiesce : ServerProgram (List ServerError) := do
  seam .beginFinish
  seam .lockLifecycle
  seam .fence
  seam .unlockFinish
  let woken ← seam (.awaitDrained false)
  let errs ← shutdownDrained woken
  seam (.closeQuiesce errs)
  pure errs

def shutdownServer (server : Bool) : ServerProgram (List ServerError) :=
  if server then seam .shutdownServer else pure []

def cancelLoop (cancel : Bool) : ServerProgram Unit :=
  if cancel then seam .cancelLoop else pure ()

/-- The channel is never nil, whether or not a `Start` replaced the one of `New`. -/
def awaitSweeps : ServerProgram (List ServerError) := do
  match ← seam .awaitSweeps with
  | .done => pure []
  | .contextDone => pure [.contextDone]

def closePlanes : ServerProgram (List ServerError) := do
  let demand : List ServerError ← seam (.closePlane .demand)
  let bindings : List ServerError ← seam (.closePlane .bindings)
  let live : List ServerError ← seam (.closePlane .live)
  let pool : List ServerError ← seam (.closePlane .pool)
  pure (demand ++ bindings ++ live ++ pool)

/-- `Stop` under `lifecycle`. -/
def teardown (quiesceErr : List ServerError) : ServerProgram (List ServerError) := do
  seam .lockLifecycle
  match ← seam .claimStop with
  | .already =>
    seam .unlockLifecycle
    pure []
  | .fresh server cancel => do
    let listener ← shutdownServer server
    let node ← stopRealtime
    let wakes : List ServerError ← seam .stopWakes
    cancelLoop cancel
    let sweeps ← awaitSweeps
    let planes ← closePlanes
    seam .unlockLifecycle
    pure (quiesceErr ++ listener ++ node ++ wakes ++ sweeps ++ planes)

/-- The error of a quiesce that completed after the caller's wait for it was over. -/
def joinCompleted (quiesceErr completedErr : List ServerError) : List ServerError :=
  if completedErr ⊆ quiesceErr then quiesceErr else quiesceErr ++ completedErr

def stop : ServerProgram (List ServerError) := do
  let quiesceErr ← quiesce
  if quiesceErr = [] then teardown []
  else
    match ← seam .pollQuiesce with
    | true => do
      let completedErr ← seam .readQuiesceErr
      teardown (joinCompleted quiesceErr completedErr)
    | false => pure quiesceErr

def fenceAdmissions : ServerProgram (List ServerError) := do
  seam .fence
  pure []

/-- `Service.Quiesce`. -/
def quiesceAdmissions : ServerProgram (List ServerError) := do
  seam .fence
  match ← seam (.awaitDrained true) with
  | .done => pure []
  | .contextDone => pure [.contextDone]

/-- Any call of the service between `beginAdmission` and the function it returned. -/
def admission : ServerProgram (List ServerError) := do
  match ← seam .beginAdmission with
  | true => do
    seam .endAdmission
    pure []
  | false => pure [.admissionQuiesced]

inductive ServerCall where
  | start
  | serve
  | quiesce
  | stop
  /-- The goroutine that the first `Quiesce` launches. It is not called: a run of it is answered
  from `beginFinish` on, and that only once it has been launched. -/
  | finishQuiesce
  | admission
  | fenceAdmissions
  | quiesceAdmissions
deriving DecidableEq

def ServerCall.program : ServerCall → ServerProgram (List ServerError)
  | .start => Compose.start cfg
  | .serve => Compose.serve cfg
  | .quiesce => Compose.quiesce
  | .stop => Compose.stop
  | .finishQuiesce => Compose.finishQuiesce
  | .admission => Compose.admission
  | .fenceAdmissions => Compose.fenceAdmissions
  | .quiesceAdmissions => Compose.quiesceAdmissions

/-! ## How the world answers -/

/-- The environment's part in an answer: what a call out of the package returned, and whether the
context ended a wait. -/
structure ServerChoice where
  errs : List ServerError := []
  contextDone : Bool := false
deriving DecidableEq

/-- A wait is over when its channel is closed or when the environment says that the context
ended. -/
def Signal.wait (signal : Signal) (choice : ServerChoice) : Option Woken :=
  if choice.contextDone then some .contextDone
  else if signal = .closed then some .done
  else none

def ServerWorld.claimStart (w : ServerWorld) : Option ServerError × ServerWorld :=
  if w.state = .stopped then (some .serverStopped, w)
  else if w.quiescing then (some .serverQuiesced, w)
  else if w.started then (some .alreadyStarted, w)
  else (none, { w with started := true, lifecycle := some .starting })

def ServerWorld.claimServe (w : ServerWorld) : Option ServerError × ServerWorld :=
  if w.state = .serving then (some .alreadyServing, w)
  else if w.state = .stopped then (some .serverStopped, w)
  else if w.quiescing then (some .serverQuiesced, w)
  else (none, { w with state := .serving, http := true })

def ServerWorld.claimQuiesce (w : ServerWorld) : ServerWorld :=
  if w.quiescing then w
  else { w with quiescing := true, quiesceDone := .waiting, finisher := .launched }

def ServerWorld.claimRealtime (w : ServerWorld) : RealtimeClaim × ServerWorld :=
  if w.realtimeDone ≠ .unmade then (.joined, w)
  else if w.realtime = false then (.absent, w)
  else (.owned, { w with realtimeDone := .waiting })

def ServerWorld.closeRealtime (w : ServerWorld) (errs : List ServerError) : ServerWorld :=
  { w with
    realtimeErr := errs
    realtime := if errs = [] then false else w.realtime
    realtimeDone := .closed }

def ServerWorld.claimStop (w : ServerWorld) : StopClaim × ServerWorld :=
  if w.state = .stopped then (.already, w)
  else (.fresh w.http w.stop, { w with state := .stopped, lifecycle := some .stopping })

def ServerWorld.fence (w : ServerWorld) : ServerWorld :=
  if w.gateClosed then w
  else if w.active = 0 then
    { w with gateClosed := true, drained := .closed, drainedCloses := w.drainedCloses + 1 }
  else { w with gateClosed := true, drained := .waiting }

def ServerWorld.beginAdmission (w : ServerWorld) : Bool × ServerWorld :=
  if w.gateClosed then (false, w) else (true, { w with active := w.active + 1 })

/-- The function `beginAdmission` returned. -/
def ServerWorld.endAdmission (w : ServerWorld) : ServerWorld :=
  if w.gateClosed ∧ w.active - 1 = 0 then
    { w with active := w.active - 1, drained := .closed, drainedCloses := w.drainedCloses + 1 }
  else { w with active := w.active - 1 }

def ServerWorld.answer (w : ServerWorld) (choice : ServerChoice) :
    (q : ServerAsk) → Option (q.Answer × ServerWorld)
  | .lockLifecycle =>
    if w.lifecycle = none then some ((), { w with lifecycle := some .entered }) else none
  | .unlockLifecycle => some ((), { w with lifecycle := none })
  | .claimStart => some w.claimStart
  | .newHandler =>
    some (choice.errs, { w with startFailed := w.startFailed || !choice.errs.isEmpty })
  | .publishRealtime => some ((), { w with realtime := true })
  | .publishLoop => some ((), { w with stop := true, done := .waiting })
  | .launch => some ((), { w with running := w.running + 1 })
  | .launchProbe => some ((), { w with probing := true })
  | .launchWaiter => some ((), { w with waiter := true, lifecycle := some .launched })
  | .returnStart errs =>
    some ((), { w with lifecycle := none, startReturned := w.startReturned || errs.isEmpty })
  | .claimServe => some w.claimServe
  | .closeListener => some ((), w)
  | .serve => some (choice.errs, w)
  | .claimQuiesce => some ((), w.claimQuiesce)
  | .pollQuiesce => some (decide (w.quiesceDone = .closed), w)
  | .awaitQuiesce => (w.quiesceDone.wait choice).map fun woken => (woken, w)
  | .readQuiesceErr => some (w.quiesceErr, w)
  | .beginFinish =>
    if w.finisher = .launched then some ((), { w with finisher := .fencing }) else none
  | .fence => some ((), w.fence)
  | .unlockFinish => some ((), { w with lifecycle := none, finisher := .draining })
  | .awaitDrained bounded =>
    (w.drained.wait { choice with contextDone := bounded && choice.contextDone }).map
      fun woken => (woken, w)
  | .closeQuiesce errs =>
    some ((), { w with quiesceErr := errs, quiesceDone := .closed, finisher := .finished })
  | .claimRealtime => some w.claimRealtime
  | .awaitRealtime => (w.realtimeDone.wait choice).map fun woken => (woken, w)
  | .readRealtimeErr => some (w.realtimeErr, w)
  | .shutdownRealtime => some (choice.errs, w)
  | .closeRealtime errs => some ((), w.closeRealtime errs)
  | .claimStop => some w.claimStop
  | .shutdownServer => some (choice.errs, w)
  | .stopWakes => some (choice.errs, w)
  | .cancelLoop => some ((), { w with cancelled := true })
  | .awaitSweeps => (w.done.wait choice).map fun woken => (woken, w)
  | .closePlane _ => some (choice.errs, w)
  | .beginAdmission => some w.beginAdmission
  | .endAdmission => some ((), w.endAdmission)

/-- What goroutines of the Server do on their own. -/
inductive ServerEvent where
  /-- A sweep or an admission worker notices that its context is cancelled, and returns. -/
  | workerReturns
  | probeReturns
  | loopsDone
deriving DecidableEq

def ServerWorld.event (w : ServerWorld) : ServerEvent → Option ServerWorld
  | .workerReturns =>
    if w.cancelled ∧ w.running ≠ 0 then some { w with running := w.running - 1 } else none
  | .probeReturns => if w.probing then some { w with probing := false } else none
  | .loopsDone =>
    if w.waiter ∧ w.running = 0 ∧ w.probing = false ∧ w.done = .waiting then
      some { w with done := .closed }
    else none

abbrev ServerRun : Type :=
  Threads.State ServerWorld ServerAsk.Answer ServerCall (List ServerError)

/-- A Server: its calls, started at any time, and its goroutines. -/
def serverSystem :
    Threads.System ServerWorld ServerAsk.Answer ServerCall (List ServerError) ServerEvent
      ServerChoice where
  program := ServerCall.program cfg
  begins _ _ := true
  event := ServerWorld.event
  answer w _ choice q := w.answer choice q

abbrev ServerAct : Type := Threads.Act ServerCall ServerEvent ServerChoice

end Factory.Compose
