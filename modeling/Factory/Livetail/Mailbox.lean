import Factory.Lib.Marked
import Factory.Livetail.Plane

/-!
# The mailbox under every interleaving

`Plane` says what one locked section does to the session's entry. Here the sections run in any
order: those of `routing.Watcher` and `routing.Tail`, the callbacks of any number of sinks, and
the loop of every drainer `pushLocked` has started. A drainer holds a pointer to the entry it
was started for, so the entries of the session are told apart by a number, and it holds the event
it is handling while it holds no lock.

The rest of `MailRun` is history: which sink queued each event and when it arrived, what was
queued and what was handled. No step reads it but through the mailbox, whose events are those of
the plane (`MailRun.Inv.events`).
-/

namespace Factory.Livetail

open Factory.Routing Marked

/-- An event with its place in the order of arrivals and the generation of the sink that
queued it, 0 if none did. -/
structure Mail where
  arrival : Nat
  gen : Nat
  event : Event
deriving DecidableEq

namespace Mail

def isFrame (m : Mail) : Bool := m.event.isFrame

def ephemeral (m : Mail) : Bool := m.event.ephemeral

/-- The generation whose tail an event starts. -/
def starts (m : Mail) : Option Nat :=
  match m.event with
  | .live _ => some m.gen
  | _ => none

/-- The generation whose publication an event carries. -/
def carries (m : Mail) : Option Nat :=
  match m.event with
  | .frame _ _ => some m.gen
  | _ => none

end Mail

/-- A drainer: the entry it was started for, and the event it is handling. -/
structure Drainer where
  entry : Nat
  mail : Option Mail := none
deriving DecidableEq

/-- The plane's entry for one session with its drainers. -/
structure MailRun where
  plane : Plane
  entry : Nat := 0
  drainers : List Drainer := []
  arrivals : Nat := 0
  box : List Mail := []
  queued : List Mail := []
  handled : List Mail := []

namespace MailRun

/-- A drainer runs for the entry. -/
def running (σ : MailRun) : Bool := σ.plane.session.any (·.running)

/-- The accepted generation, 0 if there is none. -/
def gen (σ : MailRun) : Nat := (σ.plane.session.map (·.gen)).getD 0

/-- The events the plane holds for the session. -/
def events (σ : MailRun) : List Event := (σ.plane.session.map (·.events)).getD []

/-- What the drainers are handling. -/
def inHand (σ : MailRun) : List Mail := σ.drainers.filterMap (·.mail)

/-- Every event that was not dropped: handled, in hand or in the mailbox. -/
def kept (σ : MailRun) : List Mail := σ.handled ++ σ.inHand ++ σ.box

/-- A locked section that left `kept` of the mailbox and queued an event, as
`pushLocked` does: the drainer is started if none runs. -/
def push (σ : MailRun) (plane : Plane) (kept : List Mail) (mail : Mail) : MailRun :=
  { σ with
    plane := plane
    drainers := if σ.running then σ.drainers else σ.drainers ++ [{ entry := σ.entry }]
    arrivals := mail.arrival + 1
    box := kept ++ [mail]
    queued := σ.queued ++ [mail] }

def unwatched (σ : MailRun) : MailRun :=
  match σ.plane.session with
  | none => σ
  | some _ => σ.push σ.plane.unwatched σ.box ⟨σ.arrivals, 0, .forget⟩

/-- `sink.Subscribed`. -/
def subscribed (σ : MailRun) (gen : Nat) : MailRun :=
  match σ.plane.session with
  | none => σ
  | some s =>
    if s.watched then
      σ.push (σ.plane.subscribed gen) σ.box ⟨σ.arrivals, gen, .live s.initial⟩
    else σ

/-- The eviction loop of `sink.Publication`, on the mailbox with its history. -/
def evict (limit : Nat) : Nat → List Mail → List Mail
  | 0, box => box
  | n + 1, box =>
    if limit ≤ box.length ∧ box.any (·.ephemeral) then
      evict limit n (box.eraseP (·.ephemeral))
    else box

/-- `sink.Publication`. -/
def publication (cfg : Config) (σ : MailRun) (gen : Nat) (data : Bytes) : MailRun :=
  let ephemeral := droppableEphemeral cfg data
  let plane := σ.plane.publication gen data ephemeral
  let mail : Mail := ⟨σ.arrivals, gen, .frame data ephemeral⟩
  match σ.plane.session with
  | none => σ
  | some s =>
    if s.accepts gen then
      if σ.plane.limit ≤ σ.box.length then
        if ephemeral then { σ with plane := plane }
        else
          let box := evict σ.plane.limit σ.box.length σ.box
          if σ.plane.limit ≤ box.length then
            -- the loss is queued behind the place the publication would have had
            σ.push plane (box.filter (!·.isFrame)) ⟨σ.arrivals + 1, 0, .lost⟩
          else σ.push plane box mail
      else σ.push plane σ.box mail
    else σ

/-- `sink.Ended`. -/
def ended (σ : MailRun) (gen : Nat) : MailRun :=
  match σ.plane.session with
  | none => σ
  | some s =>
    if s.accepts gen then σ.push (σ.plane.ended gen) σ.box ⟨σ.arrivals, gen, .lost⟩ else σ

/-- `sink.Restored`. -/
def restored (σ : MailRun) (gen : Nat) : MailRun :=
  match σ.plane.session with
  | none => σ
  | some s =>
    if s.watched then σ.push σ.plane.restored σ.box ⟨σ.arrivals, gen, .restored⟩ else σ

/-- The locked section of `drain` in the `i`-th drainer, which was started for `entry`. An entry
that is no longer the session's has an empty mailbox, and its drainer just ends. -/
def drain (σ : MailRun) (i entry : Nat) : MailRun :=
  if entry = σ.entry then
    match σ.plane.drain, σ.box with
    | (some _, plane), mail :: box =>
      { σ with
        plane := plane
        box := box
        drainers := σ.drainers.set i { entry := entry, mail := some mail } }
    | (_, plane), _ =>
      { σ with
        plane := plane
        box := []
        drainers := σ.drainers.eraseIdx i
        entry := if plane.session.isSome then σ.entry else σ.entry + 1 }
  else { σ with drainers := σ.drainers.eraseIdx i }

end MailRun

/-- The sections that interleave. -/
inductive MailAct where
  | watching
  | served
  | unwatched
  | stopTail
  | newSink
  | subscribed (gen : Nat)
  | publication (gen : Nat) (data : Bytes)
  | ended (gen : Nat)
  | restored (gen : Nat)
  | drain (i : Nat)
  | handle (i : Nat)
deriving DecidableEq

namespace MailRun

/-- A sink of the generation has been handed out. -/
def Sink (σ : MailRun) (gen : Nat) : Prop := 0 < gen ∧ gen ≤ σ.plane.nextGen

instance (σ : MailRun) (gen : Nat) : Decidable (σ.Sink gen) :=
  inferInstanceAs (Decidable (_ ∧ _))

def step (cfg : Config) (σ : MailRun) : MailAct → Option MailRun
  | .watching => some { σ with plane := σ.plane.watching }
  | .served => some { σ with plane := σ.plane.served }
  | .unwatched => some σ.unwatched
  | .stopTail => some { σ with plane := σ.plane.stopTail }
  | .newSink => some { σ with plane := σ.plane.newSink.2 }
  | .subscribed gen => if σ.Sink gen then some (σ.subscribed gen) else none
  | .publication gen data => if σ.Sink gen then some (σ.publication cfg gen data) else none
  | .ended gen => if σ.Sink gen then some (σ.ended gen) else none
  | .restored gen => if σ.Sink gen then some (σ.restored gen) else none
  | .drain i =>
    match σ.drainers[i]? with
    | some ⟨entry, none⟩ => some (σ.drain i entry)
    | _ => none
  | .handle i =>
    match σ.drainers[i]? with
    | some ⟨entry, some mail⟩ =>
      some { σ with
        drainers := σ.drainers.set i { entry := entry }
        handled := σ.handled ++ [mail] }
    | _ => none

/-- A new plane that has not been told of the session. -/
def init (limit : Nat) (hlimit : 0 < limit) : MailRun :=
  { plane := { limit := limit, limit_pos := hlimit } }

end MailRun

end Factory.Livetail
