import Mathlib.Data.List.Infix
import Factory.Routing.Relay

/-!
# The mailbox of one watched session

Model of `internal/realtime/livetail/plane.go` for one session: the entry of
`Plane.sessions` with the sinks that fill its mailbox and the drainer that empties it.
Every function below is one critical section of `Plane.mu`, except `handle`, which is
the work a drainer does on one event while it holds no lock.

`handle` drives the relay of `Routing/Relay.lean`. The session has one delivery binding
there, its ClientLink channel, so the relay's links are `Unit`; `Plane.Publish` answers
nil or an error and never that it would block.
-/

namespace Factory.Livetail

open Factory.Routing

/-- `event`: one entry of a session's mailbox. -/
inductive Event where
  | live (initial : Bool)
  | frame (data : Bytes) (ephemeral : Bool)
  | lost
  | restored
  | forget
deriving DecidableEq

/-- The event is a frame that was marked droppable when it was queued. -/
def Event.ephemeral : Event → Bool
  | .frame _ ephemeral => ephemeral
  | _ => false

def Event.isFrame : Event → Bool
  | .frame _ _ => true
  | _ => false

/-- `sessionState`, less its key. -/
structure SessionState where
  watched : Bool := false
  initial : Bool := false
  gen : Nat := 0
  events : List Event := []
  running : Bool := false
deriving DecidableEq

/-- The guard of `Publication` and `Ended`. -/
def SessionState.accepts (s : SessionState) (gen : Nat) : Bool :=
  s.watched && s.gen != 0 && s.gen == gen

/-- `Plane` with the one entry of its `sessions`. `New` refuses a limit below one. -/
structure Plane where
  limit : Nat
  limit_pos : 0 < limit
  closed : Bool := false
  droppedEphemerals : Nat := 0
  nextGen : Nat := 0
  session : Option SessionState := none
deriving DecidableEq

namespace Plane

def pushLocked (p : Plane) (s : SessionState) (ev : Event) : Plane :=
  if p.closed then { p with session := some s }
  else { p with session := some { s with events := s.events ++ [ev], running := true } }

/-! ## routing.Watcher and routing.Tail -/

def watching (p : Plane) : Plane :=
  { p with session := some { p.session.getD {} with watched := true, initial := true } }

def served (p : Plane) : Plane :=
  { p with session := p.session.map fun s => { s with initial := false } }

def unwatched (p : Plane) : Plane :=
  match p.session with
  | none => p
  | some s => p.pushLocked { s with watched := false, initial := false, gen := 0 } .forget

/-- The locked part of `stopTail`. -/
def stopTail (p : Plane) : Plane :=
  { p with session := p.session.map fun s => { s with gen := 0 } }

/-! ## The sink -/

/-- `newSink`: the generation the sink carries. -/
def newSink (p : Plane) : Nat × Plane := (p.nextGen + 1, { p with nextGen := p.nextGen + 1 })

/-- `sink.Subscribed`. -/
def subscribed (p : Plane) (gen : Nat) : Plane :=
  match p.session with
  | none => p
  | some s =>
    if s.watched then
      p.pushLocked { s with gen := gen, initial := false } (.live s.initial)
    else p

/-- One round of the eviction loop at a time: the oldest queued ephemeral frame goes while
the mailbox is full and holds one. The fuel is the length of the mailbox. -/
def evict (limit : Nat) : Nat → List Event → Nat × List Event
  | 0, events => (0, events)
  | n + 1, events =>
    if limit ≤ events.length ∧ events.any (·.ephemeral) then
      let (dropped, events) := evict limit n (events.eraseP (·.ephemeral))
      (dropped + 1, events)
    else (0, events)

/-- `sink.Publication`, with the answer of `sink.classify`. -/
def publication (p : Plane) (gen : Nat) (data : Bytes) (ephemeral : Bool) : Plane :=
  match p.session with
  | none => p
  | some s =>
    if s.accepts gen then
      if p.limit ≤ s.events.length then
        if ephemeral then { p with droppedEphemerals := p.droppedEphemerals + 1 }
        else
          let (dropped, events) := evict p.limit s.events.length s.events
          let p := { p with droppedEphemerals := p.droppedEphemerals + dropped }
          if p.limit ≤ events.length then
            -- an irreducible overflow: the tail is lost and every queued frame with it
            p.pushLocked { s with events := events.filter (!·.isFrame), gen := 0 } .lost
          else p.pushLocked { s with events := events } (.frame data ephemeral)
      else p.pushLocked s (.frame data ephemeral)
    else p

/-- `sink.Ended`. -/
def ended (p : Plane) (gen : Nat) : Plane :=
  match p.session with
  | none => p
  | some s => if s.accepts gen then p.pushLocked { s with gen := 0 } .lost else p

/-- `sink.Restored`. -/
def restored (p : Plane) : Plane :=
  match p.session with
  | none => p
  | some s => if s.watched then p.pushLocked s .restored else p

/-! ## The drainer -/

/-- The locked section of one iteration of `drain`: the event taken, or `none` when
the drainer ends. -/
def drain (p : Plane) : Option Event × Plane :=
  match p.session with
  | none => (none, p)
  | some s =>
    match p.closed, s.events with
    | false, ev :: events => (some ev, { p with session := some { s with events := events } })
    | _, _ =>
      (none, { p with
        session := if s.watched then some { s with events := [], running := false } else none })

end Plane

/-! ## Frames -/

/-- The text every ephemeral publication has. -/
def ephemeralTag : Bytes := "\"ephemeral_publication\"".toUTF8.toList

def droppableEphemeral (cfg : Config) (data : Bytes) : Bool :=
  if ephemeralTag <:+: data then
    match cfg.core.sessionRecordTypeOf data with
    | some .ephemeralPublication =>
      match cfg.core.unmarshalEphemeral data with
      | some publication => cfg.owns publication.tenant publication.session
      | none => false
    | _ => false
  else false

def coveredThrough (core : Core) (data : Bytes) : Nat :=
  match core.sessionRecordTypeOf data with
  | some .enduringPublication =>
    match core.unmarshalEnduring data with
    | .ok publication => publication.coveredThrough
    | .error _ => 0
  | _ => 0

/-- The frame `handle` gives to `Receive`: its append fence is its own watermark. -/
def frameOf (cfg : Config) (data : Bytes) : Frame :=
  { encoded := data, committedAppendSeq := coveredThrough cfg.core data }

/-! ## Handling one event -/

/-- What the seams answer while one event is handled: those of the first call of the
relay, those of the repair of a refused frame, the tips `Pump` reads and whether each of
its publishes succeeded. -/
structure Seams where
  call : Answers := {}
  repair : Answers := {}
  tips : List (Option Nat) := []
  published : List Bool := []

/-- `Plane.Publish`: nil or an error. -/
def publishAnswer (ok : Bool) : PublishAnswer := if ok then .ok else .failed

/-- The answers `Pump` is given. -/
def Seams.pump (a : Seams) : Answers :=
  { tips := a.tips, publishes := a.published.map publishAnswer }

/-- The switch of `handle`, on a session whose HostBinding and channel binding are open. -/
def dispatch (cfg : Config) (σ : Session Unit) (a : Seams) : Event → Session Unit
  | .live false => (apply cfg σ (.resync a.call)).1
  | .live true => (apply cfg σ (.anchor a.call)).1
  | .frame data _ =>
    match apply cfg σ (.receive (frameOf cfg data) a.call) with
    | (σ, []) => σ
    | (σ, _ :: _) => (apply cfg σ (.hostLinkClosed a.repair)).1
  | .lost => (apply cfg σ (.hostLinkClosed a.call)).1
  | .restored => σ
  | .forget => σ

/-- `handle`, less the re-bind a restored link asks for, which is no call of the relay. -/
def handle (cfg : Config) (σ : Session Unit) (a : Seams) (ev : Event) : Session Unit :=
  match ev with
  | .forget => (apply cfg σ .forget).1
  | .restored => σ
  | ev =>
    match apply cfg σ .opened with
    | (σ, _ :: _) => σ
    | (σ, []) =>
      match apply cfg σ (.subscribe ()) with
      | (σ, _ :: _) => σ
      | (σ, []) => (apply cfg (dispatch cfg σ a ev) (.pump a.pump)).1

end Factory.Livetail
