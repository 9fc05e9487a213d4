import Mathlib.Logic.Function.Basic
import Factory.Lib.Runs

/-!
# One channel's subscription on one link

Small-step model of `internal/realtime/hostlink/subscribe.go` for one channel of one
`centrifugeLink`. A step is one critical section of `mu` or of `regMu`, one transport
call made under `regMu`, or one call of a sink; everything between two of them may
interleave. Any number of `Subscribe` and `Unsubscribe` calls run beside the transport's
callbacks, whose bodies run one at a time (`Callback`), and the withdrawals callbacks
hand to goroutines (`discards`).

An entry is named by the order of its reservation. Its `Subscribe` call registers at
most one transport subscription for it, so the same name stands for that subscription
in the transport's registry, which the transport keys by channel. Two facts about the
transport are built in: a subscription is accepted, or hears a publication, only after
its subscribe was sent; and a subscribe whose send failed was not sent.
-/

namespace Factory.Hostlink

/-- An entry's recorded outcome: a nil error, or any other. -/
inductive Outcome where
  | accepted
  | refused
deriving DecidableEq

/-- One call of a `SessionSink`. -/
inductive SinkCall where
  | subscribed
  | publication
  | ended
  | restored
deriving DecidableEq

/-- Ghost: what removed an entry from the link's table. -/
inductive Removal where
  | owner
  | expiry
  | withdrawal
  | loss
deriving DecidableEq

/-- `sessionSub`. `sent` and `discarded` are the transport's: its subscribe was sent,
its registration was removed. `heard` and `removed` are ghost. -/
structure Entry where
  live : Bool := false
  settled : Option Outcome := none
  sub : Bool := false
  sent : Bool := false
  discarded : Bool := false
  heard : List SinkCall := []
  removed : Option Removal := none
deriving DecidableEq

/-- Where a `Subscribe` or `Unsubscribe` call stands. -/
inductive Pc where
  | idle
  /-- `Subscribe`: the entry is reserved, `newSubscription` comes next. -/
  | reserved (e : Nat)
  /-- The callbacks are installed, the first check comes next. -/
  | registered (e : Nat)
  /-- Found withdrawn: `discard` and then `await` come next. -/
  | withdrawn (e : Nat)
  /-- `entry.sub` is set, `regMu` comes next. -/
  | checked (e : Nat)
  /-- Holds `regMu`, the re-check comes next. -/
  | sending (e : Nat)
  /-- Holds `regMu`, found current, the send comes next. -/
  | sendable (e : Nat)
  /-- An error path: `withdraw` comes next. -/
  | failed (e : Nat)
  | failedSettle (e : Nat)
  /-- In the select of `await`. -/
  | awaiting (e : Nat)
  /-- The context or the timer was taken. -/
  | expired (e : Nat)
  | expiredSettle (e : Nat) (discard : Bool)
  | expiredDiscard (e : Nat)
  /-- The last receive of `await`. -/
  | answering (e : Nat)
  | returned (e : Option Nat) (outcome : Outcome)
  /-- `Unsubscribe`: the entry is removed, its outcome comes next. -/
  | unsubscribing (e : Nat)
  | unsubscribeRead (e : Nat)
  | unsubscribeDiscard (e : Nat)
  | unsubscribed
deriving DecidableEq

/-- Where the running callback stands. -/
inductive Callback where
  | idle
  /-- `OnSubscribed`: live is set, the sink is told next. -/
  | accepting (e : Nat)
  /-- The sink was told, the outcome is recorded next. -/
  | accepted (e : Nat)
  | publishing (e : Nat)
  /-- `OnSubscribing` found the entry live: `lose` comes next. -/
  | resubscribing (e : Nat)
  /-- `lose` removed a live entry: its sink hears `Ended` next. -/
  | ending (e : Nat)
  /-- A pending entry was removed: its outcome is recorded next. -/
  | refusing (e : Nat)
  /-- `endAllSubscriptions` comes next. -/
  | dropAll (orphan : Bool)
  /-- `endAllSubscriptions` removed the entry: it is read next. -/
  | dropping (e : Nat)
  | dropEnding (e : Nat)
  | dropRefusing (e : Nat)
  /-- `restoreOrphans` comes next. -/
  | restoreAll
  | restoring (e : Nat)
deriving DecidableEq

/-- One channel of one link. -/
structure State where
  terminal : Bool := false
  connecting : Bool := false
  current : Option Nat := none
  entries : Nat → Entry := fun _ => {}
  next : Nat := 0
  orphan : Option Nat := none
  registry : Option Nat := none
  regHeld : Bool := false
  transportClosed : Bool := false
  discards : List Nat := []
  calls : Nat → Pc := fun _ => .idle
  cb : Callback := .idle

/-- A transport event that runs a callback. -/
inductive Event where
  | subscribed (e : Nat)
  | publication (e : Nat)
  | unsubscribed (e : Nat)
  | subscribing (e : Nat)
  | error (e : Nat)
  | connecting
  | disconnected
  | connected (verified : Bool)
deriving DecidableEq

/-- One step. `advance c choice` moves call `c`; where the call depends on what it is
answered, `choice` says: whether a registration or a send succeeds, and whether the
select of `await` takes the outcome rather than the context or the timer. -/
inductive Act where
  | subscribe (c : Nat)
  | unsubscribe (c : Nat)
  | advance (c : Nat) (choice : Bool)
  | discard (e : Nat)
  | event (event : Event)
  | callback
  | fail
  | closeTransport
deriving DecidableEq

namespace State

/-! ## The moves a step is made of -/

def update (s : State) (e : Nat) (f : Entry → Entry) : State :=
  { s with entries := Function.update s.entries e (f (s.entries e)) }

def setCall (s : State) (c : Nat) (pc : Pc) : State :=
  { s with calls := Function.update s.calls c pc }

def setCb (s : State) (cb : Callback) : State := { s with cb := cb }

def setOrphan (s : State) (orphan : Option Nat) : State := { s with orphan := orphan }

/-- `settle`: the first outcome is the entry's. -/
def settle (s : State) (e : Nat) (outcome : Outcome) : State :=
  s.update e fun entry =>
    { entry with settled := entry.settled.or (some outcome) }

/-- Delete the entry from the table while it is the current one. -/
def drop (s : State) (e : Nat) (why : Removal) : State :=
  if s.current = some e then
    { s with current := none }.update e fun entry => { entry with removed := some why }
  else s

/-- The sink is called. -/
def hear (s : State) (e : Nat) (call : SinkCall) : State :=
  s.update e fun entry => { entry with heard := entry.heard ++ [call] }

/-- The transport's registration of a subscription is unsubscribed and removed. -/
def unregister (s : State) (e : Nat) : State :=
  { s with registry := none }.update e fun entry => { entry with discarded := true }

/-- `discard`, with `regMu` free. -/
def discard (s : State) (e : Nat) : State :=
  if s.transportClosed then s
  else if s.registry = some e then s.unregister e
  else s

/-- Hand a withdrawal to a goroutine. -/
def goDiscard (s : State) (e : Nat) : State := { s with discards := e :: s.discards }

/-- `newSubscription` with `regMu` free: what is left and whether there is a new
registration. A registration left for the channel is removed first, whosever it is. -/
def newSubscription (s : State) (e : Nat) (ok : Bool) : State × Bool :=
  if s.transportClosed then (s, false)
  else
    let s := match s.registry with
      | none => s
      | some old => s.unregister old
    if ok then ({ s with registry := some e }, true) else (s, false)

/-! ## Calls -/

/-- The first critical section of `Subscribe`. -/
def subscribe (s : State) (c : Nat) : State :=
  if s.terminal ∨ s.connecting then s.setCall c (.returned none .refused)
  else
    match s.current with
    | some e => s.setCall c (.awaiting e)
    | none => { s with current := some s.next, next := s.next + 1 }.setCall c (.reserved s.next)

/-- The first critical section of `Unsubscribe`. -/
def unsubscribe (s : State) (c : Nat) : State :=
  match s.current with
  | none => s.setCall c .unsubscribed
  | some e => (s.drop e .owner).setCall c (.unsubscribing e)

/-- The call returns the entry's recorded outcome, once there is one. -/
def answer (s : State) (c e : Nat) : Option State :=
  (s.entries e).settled.map fun outcome => s.setCall c (.returned (some e) outcome)

/-- A step that needs `regMu`. -/
def locked (s : State) (t : State) : Option State := if s.regHeld then none else some t

def advance (s : State) (c : Nat) (choice : Bool) : Option State :=
  match s.calls c with
  | .reserved e =>
    let r := s.newSubscription e choice
    s.locked (r.1.setCall c (if r.2 then .registered e else .failed e))
  | .registered e =>
    if s.current = some e then
      some ((s.update e fun entry => { entry with sub := true }).setCall c (.checked e))
    else some (s.setCall c (.withdrawn e))
  | .withdrawn e => s.locked ((s.discard e).setCall c (.awaiting e))
  | .checked e =>
    s.locked (if s.transportClosed then s.setCall c (.failed e)
      else { s with regHeld := true }.setCall c (.sending e))
  | .sending e =>
    if s.current = some e then some (s.setCall c (.sendable e))
    else some ({ s with regHeld := false }.setCall c (.withdrawn e))
  | .sendable e =>
    if choice then
      some (({ s with regHeld := false }.update e fun entry =>
        { entry with sent := true }).setCall c (.awaiting e))
    else some ({ s with regHeld := false }.setCall c (.failed e))
  | .failed e => some ((s.drop e .withdrawal).setCall c (.failedSettle e))
  | .failedSettle e => some ((s.settle e .refused).setCall c (.returned (some e) .refused))
  | .awaiting e => if choice then s.answer c e else some (s.setCall c (.expired e))
  | .expired e =>
    some ((s.drop e .expiry).setCall c
      (.expiredSettle e (decide (s.current = some e) && (s.entries e).sub)))
  | .expiredSettle e discard =>
    some ((s.settle e .refused).setCall c (if discard then .expiredDiscard e else .answering e))
  | .expiredDiscard e => s.locked ((s.discard e).setCall c (.answering e))
  | .answering e => s.answer c e
  | .unsubscribing e => some ((s.settle e .refused).setCall c (.unsubscribeRead e))
  | .unsubscribeRead e =>
    some (s.setCall c (if (s.entries e).sub then .unsubscribeDiscard e else .unsubscribed))
  | .unsubscribeDiscard e => s.locked ((s.discard e).setCall c .unsubscribed)
  | .idle => none
  | .returned _ _ => none
  | .unsubscribed => none

/-! ## Callbacks -/

/-- The critical section of `lose`. -/
def lose (s : State) (e : Nat) : State :=
  if s.current = some e then
    (s.drop e .loss).setCb (if (s.entries e).live then .ending e else .refusing e)
  else s.setCb .idle

/-- The first critical section of a callback. -/
def onEvent (s : State) : Event → Option State
  | .subscribed e =>
    if (s.entries e).sent = false then none
    else if s.current = some e ∧ (s.entries e).live = false then
      some ((s.update e fun entry => { entry with live := true }).setCb (.accepting e))
    else some s
  | .publication e =>
    if (s.entries e).sent = false then none
    else if s.current = some e ∧ (s.entries e).live then some (s.setCb (.publishing e))
    else some s
  | .unsubscribed e => some (s.lose e)
  | .subscribing e =>
    if s.current = some e ∧ (s.entries e).live then some (s.setCb (.resubscribing e))
    else some s
  | .error e =>
    if s.current = some e ∧ (s.entries e).live = false then
      some ((s.drop e .loss).setCb (.refusing e))
    else some s
  | .connecting =>
    if s.terminal then some s else some ({ s with connecting := true }.setCb (.dropAll true))
  | .disconnected => some ({ s with terminal := true }.setCb (.dropAll false))
  | .connected verified =>
    if verified then
      some ({ s with connecting := if s.terminal then s.connecting else false }.setCb .restoreAll)
    else some ({ s with terminal := true }.setCb (.dropAll false))

/-- The next step of the running callback. -/
def onCallback (s : State) : Option State :=
  match s.cb with
  | .idle => none
  | .accepting e => some ((s.hear e .subscribed).setCb (.accepted e))
  | .accepted e => some ((s.settle e .accepted).setCb .idle)
  | .publishing e => some ((s.hear e .publication).setCb .idle)
  | .resubscribing e => some (s.lose e)
  | .ending e => some (((s.hear e .ended).goDiscard e).setCb .idle)
  | .refusing e => some (((s.settle e .refused).goDiscard e).setCb .idle)
  | .dropAll orphan =>
    let kept := if orphan then s.orphan else none
    match s.current with
    | none => some ((s.setOrphan kept).setCb .idle)
    | some e =>
      let kept := if orphan ∧ (s.entries e).live then some e else kept
      some (((s.setOrphan kept).drop e .loss).setCb (.dropping e))
  | .dropping e =>
    let t := if (s.entries e).sub then s.goDiscard e else s
    some (t.setCb (if (s.entries e).live then .dropEnding e else .dropRefusing e))
  | .dropEnding e => some ((s.hear e .ended).setCb .idle)
  | .dropRefusing e => some ((s.settle e .refused).setCb .idle)
  | .restoreAll =>
    match s.orphan with
    | none => some (s.setCb .idle)
    | some e => some ((s.setOrphan none).setCb (.restoring e))
  | .restoring e => some ((s.hear e .restored).setCb .idle)

/-- One step of the link; `none` when the step is not enabled. -/
def step (s : State) : Act → Option State
  | .subscribe c => if s.calls c = .idle then some (s.subscribe c) else none
  | .unsubscribe c => if s.calls c = .idle then some (s.unsubscribe c) else none
  | .advance c choice => s.advance c choice
  | .discard e =>
    if e ∈ s.discards then s.locked { s.discard e with discards := s.discards.erase e }
    else none
  | .event event => if s.cb = .idle then s.onEvent event else none
  | .callback => s.onCallback
  | .fail => some { s with terminal := true }
  | .closeTransport =>
    if s.terminal then s.locked { s with transportClosed := true } else none

end State

end Factory.Hostlink
