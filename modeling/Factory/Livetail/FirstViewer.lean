import Factory.Livetail.Served

/-!
# The first viewer of a session

A session's first viewer subscribes, and after its `Acquire` has returned it reads the
durable journal once. The system below is everything that may run beside it: the Host,
which commits records and relays some of them over the tail; the transport, which calls
the sink in the order of the wire; the drainer, which handles one mailbox event at a time
while the journal moves on; and the publishes of one event, which reach the viewer one by
one.

The drainer takes an event and finishes it in two steps. What the store answered in
between is any sequence of tips between the journal's positions at the two (`Fresh`).
The tail may end and start again at any time, with or without a word to the sink.
-/

namespace Factory.Livetail

open Factory.Delivery Factory.Routing
open DeliveryLog (Item)

/-- A session to watch: which journal positions are public, which of them the Host
relays, and the frame it relays one as. The limits are ones `NewRelay` takes, and Core
reads back the sequence of a relayed frame. -/
structure Setting where
  cfg : Config
  pub : Nat → Bool
  relayed : Nat → Bool
  encode : Nat → Bytes
  limits_ok : cfg.limits.validate = .ok ()
  encode_seq : ∀ s, relayed s = true → seqOf cfg (encode s) = some s

/-- A message of the transport to the sink of one generation. -/
inductive Message where
  | subscribed (gen : Nat)
  | publication (gen : Nat) (data : Bytes)
  | ended (gen : Nat)
deriving DecidableEq

/-- Where the first `Acquire` is: not called, between `Watching` and `Served`, returned. -/
inductive Phase where
  | idle
  | window
  | returned
deriving DecidableEq

/-- The first viewer: on the channel once its `Acquire` has returned, with the tip its
durable read reached and what the tail has brought it. -/
structure Viewer where
  joined : Bool := false
  closed : Bool := false
  read : Option Nat := none
  log : List Item := []
deriving DecidableEq

/-- One call of the publisher as the viewer sees it. -/
def Viewer.hear (v : Viewer) (call : PublisherCall Unit) : Viewer :=
  if v.joined && !v.closed then
    match call with
    | .closeLink _ _ => { v with closed := true }
    | .publish _ record .ok => { v with log := v.log ++ (itemOf record).toList }
    | .publish _ _ _ => v
  else v

/-- The session's state: the journal's position, the records the Host has still to relay,
the generation of the subscription live at the Host, the wire, the plane, the event the
drainer is handling with the journal's position when it took it, the relay, the publishes
the event still owes, and the first viewer. -/
structure System where
  committed : Nat
  backlog : List Nat := []
  tail : Option Nat := none
  wire : List Message := []
  plane : Plane
  hand : Option (Event × Nat) := none
  relay : Session Unit := {}
  outbox : List (PublisherCall Unit) := []
  phase : Phase := .idle
  viewer : Viewer := {}

/-- A session nobody watches, with some records in its journal. -/
def System.init (limit : Nat) (hlimit : 0 < limit) (committed : Nat) : System :=
  { committed := committed, plane := { limit := limit, limit_pos := hlimit } }

/-- One step of one of the parties. -/
inductive Act where
  /-- The Host commits the next record. -/
  | commit
  /-- The Host relays the oldest record it has still to relay. -/
  | relay
  /-- The Host publishes a frame that is no enduring record the relay accepts. -/
  | noise (data : Bytes)
  /-- The Host accepts the subscription of a new sink. -/
  | accept
  /-- The subscription at the Host ends, and the sink is told or not. -/
  | drop (notify : Bool)
  /-- The tail is stopped on this side. -/
  | stopTail
  /-- The transport hands the sink the next message. -/
  | receive
  /-- The link the tail was lost to is usable again. -/
  | restored
  | watching
  | served
  /-- The viewer reads the journal to its tip. -/
  | read
  /-- The drainer takes the next event, or ends. -/
  | take
  /-- The drainer finishes the event it took. -/
  | finish (a : Seams)
  /-- The next publish of the event takes effect. -/
  | publish

instance {pub : Nat → Prop} [DecidablePred pub] (request : ProbeRequest) (page : JournalPage) :
    Decidable (Truthful pub request page) := by
  unfold Truthful
  split
  · rename_i first rest hevents
    exact decidable_of_iff (∀ p < first, ¬ (pub p ∧ request.fromSeq ≤ p))
      ⟨fun h p hp hfrom hlt => h p hlt ⟨hp, hfrom⟩, fun h p hlt hp => h p hp.1 hp.2 hlt⟩
  · exact decidable_of_iff (∀ p < page.coveredThrough + 1, ¬ (pub p ∧ request.fromSeq ≤ p))
      ⟨fun h p hp hfrom hle => h p (Nat.lt_succ_of_le hle) ⟨hp, hfrom⟩,
        fun h p hlt hp => h p hp.1 hp.2 (Nat.le_of_lt_succ hlt)⟩

/-- A page is truthful, an answer that is no page being so by itself. -/
def TruthfulEvent (pub : Nat → Prop) : StoreEvent → Prop
  | .page request page => Truthful pub request page
  | _ => True

instance {pub : Nat → Prop} [DecidablePred pub] (e : StoreEvent) :
    Decidable (TruthfulEvent pub e) := by
  cases e <;> unfold TruthfulEvent <;> infer_instance

instance {pub : Nat → Prop} [DecidablePred pub] (lo hi : Nat) (reads : List StoreEvent) :
    Decidable (Fresh pub lo hi reads) :=
  decidable_of_iff
    ((∀ e ∈ reads, e.isAnswer → lo ≤ e.value ∧ e.value ≤ hi) ∧
      (∀ e ∈ reads, TruthfulEvent pub e) ∧
      reads.Pairwise fun e e' => e.isAnswer → e'.isAnswer → e.value ≤ e'.value)
    ⟨fun h => ⟨h.1, fun request page hp => h.2.1 _ hp, h.2.2⟩, fun h => ⟨h.range, fun e he => by
      cases e with
      | page request page => exact h.truthful request page he
      | sent s => trivial
      | tip t => trivial, h.monotone⟩⟩

namespace System

/-- The sink call a message of the transport makes. -/
def deliver (S : Setting) (plane : Plane) : Message → Plane
  | .subscribed gen => plane.subscribed gen
  | .publication gen data => plane.publication gen data (droppableEphemeral S.cfg data)
  | .ended gen => plane.ended gen

/-- What the store answered while an event was handled. -/
def readsOf (S : Setting) (σ : System) (a : Seams) (ev : Event) : List StoreEvent :=
  (handle S.cfg σ.relay a ev).logs.reads.drop σ.relay.logs.reads.length

/-- The calls handling an event made of the publisher. -/
def callsOf (S : Setting) (σ : System) (a : Seams) (ev : Event) : List (PublisherCall Unit) :=
  (handle S.cfg σ.relay a ev).logs.calls.drop σ.relay.logs.calls.length

/-- One step, `none` when it is not enabled. A journal position is a `uint64`, and the
last ones are never reached. -/
def step (S : Setting) (σ : System) : Act → Option System
  | .commit =>
    if σ.committed + 2 < 2 ^ 64 then
      some { σ with
        committed := σ.committed + 1
        backlog := if S.relayed (σ.committed + 1) then σ.backlog ++ [σ.committed + 1]
          else σ.backlog }
    else none
  | .relay =>
    match σ.backlog with
    | [] => none
    | s :: backlog =>
      match σ.tail with
      | none => some { σ with backlog := backlog }
      | some gen =>
        some { σ with backlog := backlog, wire := σ.wire ++ [.publication gen (S.encode s)] }
  | .noise data =>
    match σ.tail with
    | none => none
    | some gen =>
      if seqOf S.cfg data = none then
        some { σ with wire := σ.wire ++ [.publication gen data] }
      else none
  | .accept =>
    if σ.phase = .idle then none
    else
      let (gen, plane) := σ.plane.newSink
      some { σ with plane := plane, tail := some gen, wire := σ.wire ++ [.subscribed gen] }
  | .drop notify =>
    match σ.tail with
    | none => none
    | some gen =>
      some { σ with tail := none, wire := if notify then σ.wire ++ [.ended gen] else σ.wire }
  | .stopTail => some { σ with plane := σ.plane.stopTail, tail := none }
  | .receive =>
    match σ.wire with
    | [] => none
    | message :: wire => some { σ with wire := wire, plane := deliver S σ.plane message }
  | .restored => some { σ with plane := σ.plane.restored }
  | .watching =>
    if σ.phase = .idle then some { σ with phase := .window, plane := σ.plane.watching }
    else none
  | .served =>
    if σ.phase = .window then
      some { σ with
        phase := .returned
        plane := σ.plane.served
        viewer := { σ.viewer with joined := true } }
    else none
  | .read =>
    if σ.viewer.joined ∧ σ.viewer.read = none then
      some { σ with viewer := { σ.viewer with read := some σ.committed } }
    else none
  | .take =>
    if σ.hand = none ∧ σ.outbox = [] then
      match σ.plane.drain with
      | (some ev, plane) => some { σ with plane := plane, hand := some (ev, σ.committed) }
      | (none, plane) => some { σ with plane := plane }
    else none
  | .finish a =>
    match σ.hand with
    | none => none
    | some (ev, taken) =>
      if Fresh (fun p => S.pub p = true) taken σ.committed (readsOf S σ a ev) then
        some { σ with
          hand := none
          relay := handle S.cfg σ.relay a ev
          outbox := callsOf S σ a ev }
      else none
  | .publish =>
    match σ.outbox with
    | [] => none
    | call :: outbox => some { σ with outbox := outbox, viewer := σ.viewer.hear call }

/-- The condition under which the first tail has no hole. When the drainer anchors the
tail at a tip it reads after the viewer's own read, every public record between the two
reads is one the Host relays. And while no tip could be read, every public record between
the viewer's read and an arriving record is one the Host relays. -/
def Anchorable (S : Setting) (σ : System) : Act → Prop
  | .finish a =>
    match σ.hand, σ.viewer.read with
    | some (.live true, _), some r =>
      ∀ tip ∈ a.call.tips.head?.join, ∀ p ≤ tip, r < p → S.pub p = true → S.relayed p = true
    | some (.frame data _, _), some r =>
      tailOf σ.relay = none →
        ∀ s ∈ seqOf S.cfg data, ∀ p < s, r < p → S.pub p = true → S.relayed p = true
    | _, _ => True
  | _ => True

instance (S : Setting) (σ : System) (act : Act) : Decidable (Anchorable S σ act) := by
  cases act
  case finish a =>
    dsimp only [Anchorable]
    split <;> infer_instance
  all_goals exact isTrue trivial

end System

end Factory.Livetail
