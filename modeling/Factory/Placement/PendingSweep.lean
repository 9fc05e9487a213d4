import Factory.Lib.Runs
import Factory.Wire

/-!
# The sweep over durable pending work

Model of the periodic half of `internal/placement/pending.go`: one `Sweep` is one pass over
one control shard, the shards taken round robin. A pass reads pages of the shard's due view
from the position the last pass kept, groups the open commands by session in first-seen
order, keeps the position it reached, and only then hands the sessions that need a Host to
the placer.

The store and the placer answer by the number of the call in the pass. Times are
nanoseconds. `PendingSweeper.cursors` is the map of the source with the empty cursor for an
absent shard, which is what reading the map gives and what `commit` deletes.
-/

namespace Factory.Placement

/-! ## Commands -/

/-- `sessionstore.InboxState`; a terminal state is not open work. -/
inductive InboxState where
  | pending
  | claimed
  | applying
  | terminal
deriving DecidableEq

/-- The command kinds `openSession.add` tells apart. -/
inductive CommandKind where
  | createSession
  | input
  | gateResponse
  | restore
  | other (kind : String)
deriving DecidableEq

/-- The members of a command's descriptor the sweep reads; the last three say whether it
has a principal, metadata and a payload object. -/
structure Descriptor where
  tenant : TenantID
  session : SessionID
  command : CommandID
  kind : CommandKind
  principal : Bool := false
  metadata : Bool := false
  payloadObject : Bool := false
deriving DecidableEq

/-- `sessionstore.DispositionInboxEntry`. -/
structure InboxEntry where
  descriptor : Descriptor
  state : InboxState
  applyDeadline : Int
  acceptedOrder : Nat := 0
deriving DecidableEq

def InboxEntry.key (e : InboxEntry) : SessionKey := ⟨e.descriptor.tenant, e.descriptor.session⟩

/-- The command is still inside its apply deadline. -/
def InboxEntry.live (e : InboxEntry) (now : Int) : Bool := now < e.applyDeadline

/-- `openSession`: one session's open work as a pass saw it. -/
structure OpenSession where
  key : SessionKey
  wake : List CommandID := []
  needsHost : Bool := false
  gates : List CommandID := []
  references : List CommandID := []
  principals : List CommandID := []
  restore : Bool := false
deriving DecidableEq

def OpenSession.add (session : OpenSession) (entry : InboxEntry) (now : Int) : OpenSession :=
  let d := entry.descriptor
  let carries := d.principal || d.metadata
  let withPrincipal := if carries then session.principals ++ [d.command] else session.principals
  match entry.state with
  | .pending =>
    if entry.live now then
      { session with
        wake := session.wake ++ [d.command]
        references :=
          if d.payloadObject && (d.kind == .createSession || d.kind == .input)
          then session.references ++ [d.command] else session.references
        principals := withPrincipal
        gates := if d.kind = .gateResponse then session.gates ++ [d.command] else session.gates
        restore := session.restore || d.kind == .restore
        needsHost := true }
    else session
  | .claimed =>
    if entry.live now then { session with needsHost := true, principals := withPrincipal }
    else session
  | .applying => { session with needsHost := true }
  | .terminal => session

@[simp] theorem OpenSession.add_key (s : OpenSession) (e : InboxEntry) (now : Int) :
    (s.add e now).key = s.key := by
  unfold OpenSession.add
  split
  · split <;> rfl
  · split <;> rfl
  · rfl
  · rfl

/-- The command gives its session a reason to be resident. -/
def InboxEntry.needsHost (e : InboxEntry) (now : Int) : Bool :=
  match e.state with
  | .pending => e.live now
  | .claimed => e.live now
  | .applying => true
  | .terminal => false

/-- One entry of a page, added to its session, which is new when none has its key. -/
def addEntry (now : Int) (order : List OpenSession) (entry : InboxEntry) : List OpenSession :=
  if order.any (·.key = entry.key) then
    order.map fun session => if session.key = entry.key then session.add entry now else session
  else order ++ [OpenSession.add { key := entry.key } entry now]

/-- The sessions of some entries, in first-seen order. -/
def inventory (now : Int) (entries : List InboxEntry) : List OpenSession :=
  entries.foldl (addEntry now) []

/-! ## Pages -/

/-- `sessionstore.DispositionDueCommandPage`. -/
structure DuePage where
  commands : List InboxEntry
  examined : Nat := 0
  unreadable : Nat := 0
  nextCursor : Cursor := ""
deriving DecidableEq

/-- Why a page was not read: the store refused the cursor itself, or anything else. -/
inductive PageFault where
  | refusedCursor
  | other
deriving DecidableEq

/-- `sessionstore.ListDueDispositionCommandsRequest`; the bound is set at the head only. -/
structure ListDueRequest where
  shard : Nat
  limit : Nat
  cursor : Cursor
  dueAtOrBefore : Option Int
deriving DecidableEq

/-- `PendingSweeperConfig`, less its seams. `NewPendingSweeper` refuses bounds that are
not positive, and the store has at least one control shard. -/
structure PendingSweeperConfig where
  horizon : Int
  pageLimit : Nat
  maxPages : Nat
  minControlShards : Nat
  horizon_pos : 0 < horizon
  pageLimit_pos : 0 < pageLimit
  maxPages_pos : 0 < maxPages
  minControlShards_pos : 0 < minControlShards

/-- What a pass has read so far: the sessions, the position, the pages with the position
each was read from, and the requests made. -/
structure Collected where
  order : List OpenSession := []
  cursor : Cursor
  read : List (Cursor × DuePage) := []
  requests : List ListDueRequest := []
  truncated : Bool := false
  fault : Option PageFault := none

/-- `collectPages`, at the number of its next page read. On a fault nothing collected is
returned but the position. -/
def collectPages (cfg : PendingSweeperConfig) (shard : Nat) (now : Int)
    (pages : Nat → Except PageFault DuePage) : Nat → Nat → Collected → Collected
  | 0, _, c => { c with truncated := true }
  | n + 1, i, c =>
    let request : ListDueRequest :=
      { shard := shard, limit := cfg.pageLimit, cursor := c.cursor
        dueAtOrBefore := if c.cursor = "" then some (now + cfg.horizon) else none }
    let c := { c with requests := c.requests ++ [request] }
    match pages i with
    | .error .refusedCursor => { c with order := [], cursor := "", fault := some .refusedCursor }
    | .error .other => { c with order := [], fault := some .other }
    | .ok page =>
      let c :=
        { c with
          order := page.commands.foldl (addEntry now) c.order
          read := c.read ++ [(c.cursor, page)]
          cursor := page.nextCursor }
      if page.nextCursor = "" then c else collectPages cfg shard now pages n (i + 1) c

/-! ## Placing -/

/-- `placement.Outcome`. -/
inductive Outcome where
  | undecided
  | reuseOwner
  | attachPooled
  | reconcileDedicated
  | noCapacity
deriving DecidableEq

/-- `placement.Request` as the sweep fills it. -/
structure Request where
  key : SessionKey
  wake : List CommandID
  gateResponses : List CommandID
  payloadReferences : List CommandID
  principalCommands : List CommandID
  restoreRequested : Bool
deriving DecidableEq

def OpenSession.request (s : OpenSession) : Request :=
  { key := s.key, wake := s.wake, gateResponses := s.gates, payloadReferences := s.references
    principalCommands := s.principals, restoreRequested := s.restore }

/-- An answer of `Placer.Reconcile`. A failure carries whether the context was done when
the sweep looked at it. -/
inductive ReconcileAnswer where
  | released
  | noController
  | failed (contextDone : Bool)
  | placed (deferred : Bool) (outcome : Outcome) (attached : Bool)
deriving DecidableEq

structure PendingSweepResult where
  shard : Nat := 0
  pages : Nat := 0
  examined : Nat := 0
  unreadable : Nat := 0
  truncated : Bool := false
  resumed : Bool := false
  sessions : Nat := 0
  outcomes : Outcome → Nat := fun _ => 0
  attached : Nat := 0
  deferred : Nat := 0
  noController : Nat := 0
  released : Nat := 0
  failures : Nat := 0

/-- The counters one answer moves. -/
def PendingSweepResult.count (r : PendingSweepResult) : ReconcileAnswer → PendingSweepResult
  | .released => { r with released := r.released + 1 }
  | .noController => { r with noController := r.noController + 1 }
  | .failed _ => { r with failures := r.failures + 1 }
  | .placed true _ _ => { r with deferred := r.deferred + 1 }
  | .placed false outcome attached =>
    { r with
      outcomes := fun o => if o = outcome then r.outcomes o + 1 else r.outcomes o
      attached := if attached then r.attached + 1 else r.attached }

/-- What the loop of `Sweep` has done: the result, the requests handed to the placer, and
whether it returned the context's error. -/
structure Placed where
  result : PendingSweepResult
  handed : List Request := []
  aborted : Bool := false

/-- The loop of `Sweep` over the collected sessions, at the number of its next call. -/
def placeAll (answers : Nat → ReconcileAnswer) : List OpenSession → Nat → Placed → Placed
  | [], _, p => p
  | session :: rest, i, p =>
    if session.needsHost then
      let counted := { p.result with sessions := p.result.sessions + 1 }.count (answers i)
      let p := { p with result := counted, handed := p.handed ++ [session.request] }
      if answers i = .failed true then { p with aborted := true }
      else placeAll answers rest (i + 1) p
    else placeAll answers rest i p

/-! ## The sweeper -/

/-- `PendingSweeper`: the rotor and the position kept for each shard. -/
structure PendingSweeper where
  next : Nat := 0
  cursors : Nat → Cursor := fun _ => ""

/-- `begin`, with the store's shard count; `none` when there are too few. -/
def PendingSweeper.begin (cfg : PendingSweeperConfig) (s : PendingSweeper) (shards : Nat) :
    Option (Nat × Cursor × PendingSweeper) :=
  if shards < cfg.minControlShards then none
  else
    let shard := if shards ≤ s.next then 0 else s.next
    let cursors := fun k => if shards ≤ k then "" else s.cursors k
    some (shard, cursors shard, { next := (shard + 1) % shards, cursors := cursors })

def PendingSweeper.commit (s : PendingSweeper) (shard : Nat) (cursor : Cursor) :
    PendingSweeper :=
  { s with cursors := fun k => if k = shard then cursor else s.cursors k }

/-- What one call of `Sweep` is answered by its seams. -/
structure SweepInput where
  authorized : Bool := true
  shards : Nat
  now : Int
  pages : Nat → Except PageFault DuePage
  reconciles : Nat → ReconcileAnswer

/-- One pass: the shard, the clock it read, where it started, what it collected and what it
placed. -/
structure Pass where
  shard : Nat
  now : Int
  start : Cursor
  collected : Collected
  placed : Placed

/-- The keys of the sessions a pass handed to the placer. -/
def Pass.handed (pass : Pass) : List SessionKey := pass.placed.handed.map (·.key)

/-- The result's counters of what was read. -/
def Collected.result (c : Collected) (shard : Nat) (start : Cursor) : PendingSweepResult :=
  { shard := shard, pages := c.read.length, resumed := start ≠ "", truncated := c.truncated
    examined := (c.read.map (·.2.examined)).sum
    unreadable := (c.read.map (·.2.unreadable)).sum }

/-- `Sweep`: the sweeper afterwards, and the pass when there was one. The position is kept
between reading and placing. -/
def PendingSweeper.sweep (cfg : PendingSweeperConfig) (s : PendingSweeper) (input : SweepInput) :
    PendingSweeper × Option Pass :=
  if input.authorized then
    match s.begin cfg input.shards with
    | none => (s, none)
    | some (shard, start, s) =>
      let c := collectPages cfg shard input.now input.pages cfg.maxPages 0 { cursor := start }
      let s := s.commit shard c.cursor
      let placed : Placed := { result := c.result shard start }
      let placed := if c.fault = none then placeAll input.reconciles c.order 0 placed else placed
      (s, some { shard := shard, now := input.now, start := start, collected := c
                 placed := placed })
  else (s, none)

/-- A sweeper and the passes it has made. -/
structure Sweeps where
  sweeper : PendingSweeper := {}
  passes : List Pass := []

def Sweeps.step (cfg : PendingSweeperConfig) (σ : Sweeps) (input : SweepInput) : Option Sweeps :=
  let (sweeper, pass) := σ.sweeper.sweep cfg input
  some { sweeper := sweeper, passes := σ.passes ++ pass.toList }

end Factory.Placement
