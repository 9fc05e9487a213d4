import Mathlib.Data.List.Sort
import Factory.Lib.Runs
import Factory.Lib.DeliveryLog
import Factory.Delivery.Enduring

/-!
# The relay of one session

Model of `internal/routing/repair.go` for one session, under its stated precondition
that the calls of one session are serialised by the caller. One `Session` is the entry
of `Relay.hosts` for the session's key; every method is a function of it. The answers
of the store, the tail, the rebinder and the publisher are arguments of each call
(`Answers`), taken in the order the call asks for them; a list of answers that has run
out answers with an error.

Three ghost records are kept beside the state. `DeliveryBinding.log` is what was
published to the link, with the positions the tail was anchored at while the binding was
present; `Logs.reads` is the order in which enduring frames arrived and tips were
read; `Logs.resets` has one entry for each binding a reset path touched.
-/

namespace Factory.Routing

open Factory.Delivery
open DeliveryLog (Item)

/-- The errors the relay's methods answer with. -/
inductive RelayError where
  | relayClosed
  | noHostBinding
  | malformed
  | parse (err : ParseError)
  | foreignRecord
  | unexpectedControl (recordType : String)
  | delivery (err : DeliveryError)
  | tipUnavailable
  | incoherentReset
  | publishFailed
  | stopFailed
  | rebindFailed
  | resumeFailed
deriving DecidableEq

structure RepairLimits where
  hostBindingQueue : Int
  deliveryBindingQueue : Int
deriving DecidableEq

/-- `RepairLimits.Validate`: the field refused and its value. -/
def RepairLimits.validate (l : RepairLimits) : Except (String × Int) Unit :=
  if l.hostBindingQueue < 1 then .error ("HostBindingQueue", l.hostBindingQueue)
  else if l.deliveryBindingQueue < 1 then .error ("DeliveryBindingQueue", l.deliveryBindingQueue)
  else .ok ()

/-- `Frame`: one record arriving on a session's live tail. -/
structure Frame where
  encoded : Bytes
  committedAppendSeq : Nat
  coalesceKey : String := ""
deriving DecidableEq

/-- What one relay was composed with: Core, the session's key, the limits and
`maxGapProbe`. -/
structure Config where
  core : Core
  key : SessionKey
  limits : RepairLimits
  maxGapProbe : Nat

/-- A record as the two queues hold it. -/
abbrev Rec := Record Encoded

/-! ## State -/

/-- One ClientLink's outbound queue for one session. `log` is ghost. -/
structure DeliveryBinding (Link : Type) where
  link : Link
  queue : Queue Encoded
  lastContiguous : Nat := 0
  forwarded : Nat := 0
  log : List Item := []

/-- One session's inbound route queue and the clients it feeds, in link order. -/
structure HostBinding (Link : Type) where
  queue : Queue Encoded
  stopped : Bool := false
  deliveries : List (DeliveryBinding Link) := []
  tailSeq : Nat := 0
  tailKnown : Bool := false

/-- A publisher's answer to `Publish`. -/
inductive PublishAnswer where
  | ok
  | wouldBlock
  | failed
deriving DecidableEq

/-- One call made of the publisher; a publish carries the record whose encoding it was
given. -/
inductive PublisherCall (Link : Type) where
  | publish (link : Link) (record : Rec) (answer : PublishAnswer)
  | closeLink (link : Link) (reason : String)
deriving DecidableEq

/-- The members of `sessionstore.ReadPublicJournalRequest` a gap probe sets, less the
session's key. -/
structure ProbeRequest where
  fromSeq : Nat
  limit : Nat
  scanLimit : Nat
deriving DecidableEq

/-- One event of the store as the relay saw it: an enduring frame arrived, a tip was
answered, a page was answered to a probe. -/
inductive StoreEvent where
  | sent (seq : Nat)
  | tip (tip : Nat)
  | page (request : ProbeRequest) (page : JournalPage)
deriving DecidableEq

/-- The four paths that reset a binding. -/
inductive ResetPath where
  | overflow
  | resync
  | repair
  | gap
deriving DecidableEq

/-- One binding a reset path touched: the binding before, what is left of it (`none`
when it was closed), the record declined on it, the tip it was reset to, and the tail
position the call left. -/
structure ResetCall (Link : Type) where
  path : ResetPath
  before : DeliveryBinding Link
  after : Option (DeliveryBinding Link)
  declined : Option Rec
  tip : Nat
  tailSeq : Nat
  tailKnown : Bool

/-- The ghost records of one session. -/
structure Logs (Link : Type) where
  reads : List StoreEvent := []
  calls : List (PublisherCall Link) := []
  resets : List (ResetCall Link) := []

/-- The part of the relay that belongs to one session, and the relay's own `closed`
and `foreign`. -/
structure Session (Link : Type) where
  host : Option (HostBinding Link) := none
  closed : Bool := false
  foreign : Nat := 0
  logs : Logs Link := {}

/-- What the relay's seams answer during one call. -/
structure Answers where
  tips : List (Option Nat) := []
  page : Option JournalPage := none
  publishes : List PublishAnswer := []
  stopOk : Bool := true
  rebindOk : Bool := true
  resumeOk : Bool := true

/-- The answers still to come and the logs so far, threaded through one call. -/
structure World (Link : Type) where
  answers : Answers
  logs : Logs Link

variable {Link : Type}

namespace World

/-- `readTip`: `none` is an error. -/
def readTip (w : World Link) : Option Nat × World Link :=
  match w.answers.tips with
  | [] => (none, w)
  | none :: tips => (none, { w with answers := { w.answers with tips := tips } })
  | some tip :: tips =>
    (some tip,
      { answers := { w.answers with tips := tips }
        logs := { w.logs with reads := w.logs.reads ++ [.tip tip] } })

/-- `Publisher.Publish` of a record's encoding. -/
def publish (w : World Link) (link : Link) (record : Rec) : PublishAnswer × World Link :=
  let answer := w.answers.publishes.headD .failed
  (answer,
    { answers := { w.answers with publishes := w.answers.publishes.tail }
      logs := { w.logs with calls := w.logs.calls ++ [.publish link record answer] } })

/-- `Publisher.CloseLink`, whose error is not read. -/
def closeLink (w : World Link) (link : Link) (reason : String) : World Link :=
  { w with logs := { w.logs with calls := w.logs.calls ++ [.closeLink link reason] } }

/-- Ghost: an enduring frame arrived. -/
def noteSent (w : World Link) (seq : Nat) : World Link :=
  { w with logs := { w.logs with reads := w.logs.reads ++ [.sent seq] } }

/-- Ghost: a page was answered. -/
def notePage (w : World Link) (request : ProbeRequest) (page : JournalPage) : World Link :=
  { w with logs := { w.logs with reads := w.logs.reads ++ [.page request page] } }

/-- Ghost: a reset path touched these bindings. -/
def noteResets (w : World Link) (calls : List (ResetCall Link)) : World Link :=
  { w with logs := { w.logs with resets := w.logs.resets ++ calls } }

end World

/-! ## Records -/

/-- What a record is to the link it is published to; an ephemeral one is nothing. -/
def itemOf (record : Rec) : Option Item :=
  match record.cls, record.encoded with
  | .enduring, _ => some (.record record.seq)
  | .control, .reset reset => some (.reset reset.journalTip)
  | _, _ => none

variable (cfg : Config)

/-- `sessionKey.owns`. -/
def Config.owns (tenant : TenantID) (session : SessionID) : Bool :=
  tenant == cfg.key.tenant && session == cfg.key.session

/-- `Relay.classify`. -/
def classify (frame : Frame) : Except RelayError Rec :=
  match cfg.core.sessionRecordTypeOf frame.encoded with
  | none => .error .malformed
  | some .enduringPublication =>
    match parseEnduring cfg.core frame.encoded frame.committedAppendSeq with
    | .error err => .error (.parse err)
    | .ok parsed =>
      if cfg.owns parsed.publication.tenant parsed.publication.session then .ok parsed.record
      else .error .foreignRecord
  | some .ephemeralPublication =>
    match cfg.core.unmarshalEphemeral frame.encoded with
    | none => .error .malformed
    | some publication =>
      if cfg.owns publication.tenant publication.session then
        .ok { cls := .ephemeral, encoded := .frame frame.encoded
              coalesceKey := frame.coalesceKey }
      else .error .foreignRecord
  | some (.control name) => .error (.unexpectedControl name)

/-- `deliveryBinding.advance`, and the ghost log of what was published. -/
def DeliveryBinding.advance (b : DeliveryBinding Link) (record : Rec) : DeliveryBinding Link :=
  let b := { b with log := b.log ++ (itemOf record).toList }
  if record.cls ≠ .enduring then b
  else
    { b with
      lastContiguous :=
        if b.forwarded = 0 ∨ record.seq = succ64 b.lastContiguous then record.seq
        else b.lastContiguous
      forwarded := succ64 b.forwarded }

/-! ## Resets -/

/-- The session.reset of one binding at a tip. -/
def resetOf (b : DeliveryBinding Link) (tip : Nat) : SessionReset :=
  { tenant := cfg.key.tenant, session := cfg.key.session
    lastContiguous := b.lastContiguous, journalTip := tip }

/-- The control record a reset is queued as. -/
def controlOf (reset : SessionReset) : Rec := { cls := .control, encoded := .reset reset }

/-- `resetBindingLocked`: what is left of the binding, `none` when it was closed. -/
def resetBindingLocked (b : DeliveryBinding Link) (tip : Nat) (w : World Link) :
    Option (DeliveryBinding Link) × World Link × List RelayError :=
  let reset := resetOf cfg b tip
  if cfg.core.marshalReset reset then
    match b.queue.repair (controlOf reset) with
    | (queue, none) => (some { b with queue := queue }, w, [])
    | (_, some err) =>
      (none, w.closeLink b.link "repair control could not be queued", [.delivery err])
  else (none, w.closeLink b.link "repair control is incoherent", [.incoherentReset])

/-- The loop of `resetBindingLocked` over every binding: each one with what is left
of it. -/
def resetAll (cfg : Config) (tip : Nat) :
    List (DeliveryBinding Link) → World Link →
      List (DeliveryBinding Link × Option (DeliveryBinding Link)) × World Link × List RelayError
  | [], w => ([], w, [])
  | b :: bs, w =>
    let (after, w, errs) := resetBindingLocked cfg b tip w
    let (rest, w, errs') := resetAll cfg tip bs w
    ((b, after) :: rest, w, errs ++ errs')

/-- `closeBindingLocked` of every binding; `reason` is the same for all of them. -/
def closeAll (reason : String) (bs : List (DeliveryBinding Link)) (w : World Link) : World Link :=
  bs.foldl (fun w b => w.closeLink b.link reason) w

/-- `anchorLocked`, with the ghost mark it leaves on every binding present. -/
def HostBinding.anchorLocked (h : HostBinding Link) (mark : Nat → Item) (tip : Nat) :
    HostBinding Link :=
  { h with
    tailSeq := tip
    tailKnown := true
    deliveries := h.deliveries.map fun b => { b with log := b.log ++ [mark tip] } }

/-- The ghost entries of a reset path that went over every binding. -/
def resetCalls (path : ResetPath) (tip : Nat) (h : HostBinding Link)
    (pairs : List (DeliveryBinding Link × Option (DeliveryBinding Link))) :
    List (ResetCall Link) :=
  pairs.map fun pair =>
    { path := path, before := pair.1, after := pair.2, declined := none
      tip := tip, tailSeq := h.tailSeq, tailKnown := h.tailKnown }

/-- Reset every binding to one tip and anchor the tail there: the step `Resync`,
`repair` and `resetForGapLocked` share. -/
def resetToTip (path : ResetPath) (h : HostBinding Link) (tip : Nat) (w : World Link) :
    HostBinding Link × World Link × List RelayError :=
  let (pairs, w, errs) := resetAll cfg tip h.deliveries w
  let h := { h with deliveries := pairs.filterMap Prod.snd }.anchorLocked .told tip
  (h, w.noteResets (resetCalls path tip h pairs), errs)

/-! ## Fan-out -/

/-- `fanOutLocked`: what is left of the binding, `none` when it was closed. -/
def fanOutLocked (h : HostBinding Link) (b : DeliveryBinding Link) (record : Rec) (w : World Link) :
    Option (DeliveryBinding Link) × World Link × List RelayError :=
  match b.queue.enqueue record with
  | (queue, none) => (some { b with queue := queue }, w, [])
  | (queue, some .dropped) => (some { b with queue := queue }, w, [])
  | (_, some .overflow) =>
    match w.readTip with
    | (none, w) => (none, w.closeLink b.link "repair tip unavailable", [.tipUnavailable])
    | (some tip, w) =>
      let (after, w, errs) := resetBindingLocked cfg b tip w
      (after,
        w.noteResets [{ path := .overflow, before := b, after := after, declined := some record
                        tip := tip, tailSeq := h.tailSeq, tailKnown := h.tailKnown }],
        errs)
  | (_, some err) => (some b, w, [.delivery err])

/-- One record to every binding, in link order. -/
def fanOutAll (cfg : Config) (h : HostBinding Link) (record : Rec) :
    List (DeliveryBinding Link) → World Link →
      List (DeliveryBinding Link) × World Link × List RelayError
  | [], w => ([], w, [])
  | b :: bs, w =>
    let (after, w, errs) := fanOutLocked cfg h b record w
    let (rest, w, errs') := fanOutAll cfg h record bs w
    (after.toList ++ rest, w, errs ++ errs')

/-- The first loop of `Pump`. The fuel is the length of the route queue, which every
iteration shortens. -/
def fanOutQueue (cfg : Config) :
    Nat → HostBinding Link → World Link → HostBinding Link × World Link × List RelayError
  | 0, h, w => (h, w, [])
  | n + 1, h, w =>
    match h.queue.next with
    | none => (h, w, [])
    | some (record, queue) =>
      let h := { h with queue := queue }
      let (deliveries, w, errs) := fanOutAll cfg h record h.deliveries w
      let (h, w, errs') := fanOutQueue cfg n { h with deliveries := deliveries } w
      (h, w, errs ++ errs')

/-- `drainLocked`, the fuel being the length of the binding's queue: the head is
published and removed only after the transport took it. -/
def drainLocked :
    Nat → DeliveryBinding Link → World Link →
      Option (DeliveryBinding Link) × World Link × List RelayError
  | 0, b, w => (some b, w, [])
  | n + 1, b, w =>
    match b.queue.next with
    | none => (some b, w, [])
    | some (record, queue) =>
      match w.publish b.link record with
      | (.wouldBlock, w) => (some b, w, [])
      | (.failed, w) => (none, w.closeLink b.link "publish failed", [.publishFailed])
      | (.ok, w) => drainLocked n ({ b with queue := queue }.advance record) w

/-- The second loop of `Pump`. -/
def drainAll :
    List (DeliveryBinding Link) → World Link →
      List (DeliveryBinding Link) × World Link × List RelayError
  | [], w => ([], w, [])
  | b :: bs, w =>
    let (after, w, errs) := drainLocked b.queue.len b w
    let (rest, w, errs') := drainAll bs w
    (after.toList ++ rest, w, errs ++ errs')

/-- `Pump` of an open session. -/
def pumpHost (h : HostBinding Link) (w : World Link) :
    HostBinding Link × World Link × List RelayError :=
  let (h, w, errs) := fanOutQueue cfg h.queue.len h w
  let (deliveries, w, errs') := drainAll h.deliveries w
  ({ h with deliveries := deliveries }, w, errs ++ errs')

/-! ## Repairs -/

/-- `repair`, entered with the session's `stopped` set. -/
def repair (cfg : Config) (h : HostBinding Link) (w : World Link) :
    HostBinding Link × World Link × List RelayError :=
  let stopErrs := if w.answers.stopOk then [] else [RelayError.stopFailed]
  let (h, w, errs) :=
    match w.readTip with
    | (none, w) =>
      ({ h with deliveries := [] }, closeAll "repair tip unavailable" h.deliveries w,
        [RelayError.tipUnavailable])
    | (some tip, w) => resetToTip cfg .repair h tip w
  let rebindErrs := if w.answers.rebindOk then [] else [RelayError.rebindFailed]
  let resumeErrs := if w.answers.resumeOk then [] else [RelayError.resumeFailed]
  ({ h with queue := h.queue.clear, stopped := false }, w,
    stopErrs ++ errs ++ rebindErrs ++ resumeErrs)

/-- `Resync` of an open session. -/
def resyncHost (h : HostBinding Link) (w : World Link) :
    HostBinding Link × World Link × List RelayError :=
  match w.readTip with
  | (none, w) =>
    ({ h with deliveries := [], queue := h.queue.clear },
      closeAll "resync tip unavailable" h.deliveries w, [.tipUnavailable])
  | (some tip, w) =>
    let (h, w, errs) := resetToTip cfg .resync h tip w
    ({ h with queue := h.queue.clear }, w, errs)

/-! ## Gaps in the tail -/

/-- The request of the probe of the positions between `last` and `seq`. -/
def probeRequest (last seq : Nat) : ProbeRequest :=
  { fromSeq := succ64 last, limit := 1
    scanLimit := min (sub64 (sub64 seq last) 1) cfg.maxGapProbe }

/-- `probeGap`: whether there is a hole, the captured tip, and whether the probe
failed. -/
def probeGap (last seq : Nat) (w : World Link) : (Bool × Nat × Bool) × World Link :=
  match w.answers.page with
  | none => ((true, 0, true), w)
  | some page =>
    let w := w.notePage (probeRequest cfg last seq) page
    match page.events with
    | first :: _ => ((decide (first < seq), page.capturedTip, false), w)
    | [] => ((decide (succ64 page.coveredThrough < seq), page.capturedTip, false), w)

/-- The tip a gap is repaired from: the probe's, or one read again when it failed. -/
def gapTip (tip : Nat) (probeErr : Bool) (w : World Link) : Nat × World Link :=
  if probeErr then
    match w.readTip with
    | (none, w) => (0, w)
    | (some read, w) => (read, w)
  else (tip, w)

def resetForGapLocked (h : HostBinding Link) (seq tip : Nat) (probeErr : Bool) (w : World Link) :
    HostBinding Link × World Link :=
  let (tip, w) := gapTip tip probeErr w
  if succ64 tip < seq then
    ({ h with deliveries := [], tailKnown := false },
      closeAll "a gap in the tail cannot be repaired from the journal tip" h.deliveries w)
  else
    let (h, w, _) := resetToTip cfg .gap h tip w
    (h, w)

/-- The probe of `Receive` and the reset a hole owes. -/
def probe (h : HostBinding Link) (seq : Nat) (w : World Link) : HostBinding Link × World Link :=
  if h.tailKnown ∧ succ64 h.tailSeq < seq then
    let ((hole, tip, probeErr), w) := probeGap cfg h.tailSeq seq w
    if hole then resetForGapLocked cfg h seq tip probeErr w else (h, w)
  else (h, w)

/-- The tail position after an enduring record was received. -/
def HostBinding.raiseTail (h : HostBinding Link) (seq : Nat) : HostBinding Link :=
  if h.tailKnown = false ∨ h.tailSeq < seq then { h with tailSeq := seq } else h

/-- The switch that ends `Receive`: the record is queued, or an overflow is repaired. -/
def enqueueHost (h : HostBinding Link) (record : Rec) (w : World Link) :
    HostBinding Link × World Link × List RelayError :=
  match h.queue.enqueue record with
  | (queue, none) => ({ h with queue := queue }, w, [])
  | (queue, some .dropped) => ({ h with queue := queue }, w, [])
  | (_, some .overflow) => repair cfg { h with stopped := true } w
  | (_, some err) => (h, w, [.delivery err])

/-- `Receive` of a classified record on an open session that is not stopped. -/
def receiveHost (h : HostBinding Link) (record : Rec) (w : World Link) :
    HostBinding Link × World Link × List RelayError :=
  if record.cls = .enduring then
    let (h, w) := probe cfg h record.seq (w.noteSent record.seq)
    enqueueHost cfg (h.raiseTail record.seq) record w
  else enqueueHost cfg h record w

/-! ## The methods -/

/-- One call of a method of the relay, with what its seams answer. -/
inductive Op (Link : Type) where
  | opened
  | subscribe (link : Link)
  | unsubscribe (link : Link)
  | receive (frame : Frame) (answers : Answers)
  | pump (answers : Answers)
  | hostLinkClosed (answers : Answers)
  | resync (answers : Answers)
  | anchor (answers : Answers)
  | forget
  | close

/-- A method that needs the session's HostBinding and has the seams' answers. -/
def Session.withHost (σ : Session Link) (answers : Answers)
    (f : HostBinding Link → World Link → HostBinding Link × World Link × List RelayError) :
    Session Link × List RelayError :=
  if σ.closed then (σ, [.relayClosed])
  else
    match σ.host with
    | none => (σ, [.noHostBinding])
    | some h =>
      let (h, w, errs) := f h ⟨answers, σ.logs⟩
      ({ σ with host := some h, logs := w.logs }, errs)

/-- `Open`. -/
def Session.opened (σ : Session Link) : Session Link × List RelayError :=
  if σ.closed then (σ, [.relayClosed])
  else
    match σ.host with
    | some _ => (σ, [])
    | none =>
      match Queue.new cfg.limits.hostBindingQueue with
      | .error err => (σ, [.delivery err])
      | .ok queue => ({ σ with host := some { queue := queue } }, [])

def Session.subscribe [LinearOrder Link] (cfg : Config) (σ : Session Link) (link : Link) :
    Session Link × List RelayError :=
  if σ.closed then (σ, [.relayClosed])
  else
    match σ.host with
    | none => (σ, [.noHostBinding])
    | some h =>
      if h.deliveries.any (·.link = link) then (σ, [])
      else
        match Queue.new cfg.limits.deliveryBindingQueue with
        | .error err => (σ, [.delivery err])
        | .ok queue =>
          let deliveries := h.deliveries.orderedInsert (fun a b => a.link ≤ b.link)
            { link := link, queue := queue }
          ({ σ with host := some { h with deliveries := deliveries } }, [])

def Session.unsubscribe [DecidableEq Link] (σ : Session Link) (link : Link) : Session Link :=
  { σ with
    host := σ.host.map fun h => { h with deliveries := h.deliveries.filter (·.link ≠ link) } }

def Session.receive (σ : Session Link) (frame : Frame) (answers : Answers) :
    Session Link × List RelayError :=
  if σ.closed then (σ, [.relayClosed])
  else
    match σ.host with
    | none => (σ, [.noHostBinding])
    | some h =>
      if h.stopped then (σ, [])
      else
        match classify cfg frame with
        | .error .foreignRecord =>
          ({ σ with foreign := succ64 σ.foreign }, [.foreignRecord])
        | .error err => (σ, [err])
        | .ok record => σ.withHost answers fun h w => receiveHost cfg h record w

/-- `Anchor`: a tip that cannot be read anchors nothing. -/
def Session.anchor (σ : Session Link) (answers : Answers) : Session Link × List RelayError :=
  σ.withHost answers fun h w =>
    match w.readTip with
    | (none, w) => (h, w, [.tipUnavailable])
    | (some tip, w) => (h.anchorLocked .trusted tip, w, [])

/-- One call: the session afterwards and the errors joined in its answer, none for
a nil one. -/
def apply [LinearOrder Link] (cfg : Config) (σ : Session Link) :
    Op Link → Session Link × List RelayError
  | .opened => σ.opened cfg
  | .subscribe link => σ.subscribe cfg link
  | .unsubscribe link => (σ.unsubscribe link, [])
  | .receive frame answers => σ.receive cfg frame answers
  | .pump answers => σ.withHost answers (pumpHost cfg)
  | .hostLinkClosed answers =>
    σ.withHost answers fun h w => repair cfg { h with stopped := true } w
  | .resync answers => σ.withHost answers (resyncHost cfg)
  | .anchor answers => σ.anchor answers
  | .forget => ({ σ with host := none }, [])
  | .close => ({ σ with host := none, closed := true }, [])

/-- One call as a step of the session: every call is enabled in every state. -/
def step [LinearOrder Link] (cfg : Config) (σ : Session Link) (op : Op Link) :
    Option (Session Link) := some (apply cfg σ op).1

/-! ## A session to run -/

/-- A decoder to run the model with: one byte is an enduring publication of that
sequence, any other nonempty frame is ephemeral, and a reset marshals when it is
coherent. -/
def byteCore : Core where
  sessionRecordTypeOf bytes :=
    match bytes with
    | [] => none
    | [_] => some .enduringPublication
    | _ => some .ephemeralPublication
  unmarshalEnduring bytes :=
    .ok { tenant := "t", session := "s"
          journalSeq := (bytes.headD 0).toNat, coveredThrough := (bytes.headD 0).toNat }
  unmarshalEphemeral _ := some { tenant := "t", session := "s" }
  marshalReset reset := decide (reset.lastContiguous ≤ reset.journalTip)

/-- A session of `byteCore` with the given queue capacities. -/
def byteConfig (host delivery : Int) : Config where
  core := byteCore
  key := { tenant := "t", session := "s" }
  limits := { hostBindingQueue := host, deliveryBindingQueue := delivery }
  maxGapProbe := 1000

/-- The frame of one enduring publication. -/
def byteFrame (seq : UInt8) : Frame := { encoded := [seq], committedAppendSeq := seq.toNat }

end Factory.Routing
