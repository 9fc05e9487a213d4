import Factory.Admission.Dispositions
import Factory.Lib.Runs

/-!
# Disposition sweeps beside the Hosts

Any number of disposition sweeps run against one store while Hosts work on the same commands. A
sweep takes one step for each of its calls; between two of them time may pass, commands may be
admitted, Hosts may move commands on, and other sweeps, of this or another replica, may take
steps of their own.

The store is modelled by what the sweeps rely on. A record has a revision, which every write
raises. `RejectDispositionCommand` writes only when the record is at the expected revision, and
checks nothing else; it may refuse for any reason, and the answer of a write may be lost. A due
page holds versions its records have had, the newest or an older one. The replicas' clocks are the
store's. What the other seams answer is left open.
-/

namespace Factory.Admission

/-! ## The store -/

/-- The inbox: the time, and the versions of each command's record, the newest first. -/
structure Inbox where
  time : Int
  versions : CommandDescriptor → List DispositionInboxEntry

/-- An inbox with one version of each command there is. -/
def Inbox.init (time : Int) (commands : CommandDescriptor → Option DispositionInboxEntry) :
    Inbox where
  time := time
  versions d :=
    ((commands d).map fun e => { e with record := { e.record with descriptor := d } }).toList

def Inbox.current (s : Inbox) (d : CommandDescriptor) : Option DispositionInboxEntry :=
  (s.versions d).head?

/-- The inbox with a newer version of a record. -/
def Inbox.write (s : Inbox) (record : DispositionInboxRecord) (revision : Nat) : Inbox :=
  { s with
    versions := fun d =>
      if d = record.descriptor then ⟨record, revision⟩ :: s.versions d else s.versions d }

def InboxState.isTerminal : InboxState → Bool
  | .applied | .rejected => true
  | .pending | .claimed | .applying | .unknown _ => false

/-- What a Host may do to a command that is not terminal. The store's own conditions are
narrower. -/
inductive HostTransition where
  | claim (held : CommandClaim)
  | expireClaim
  | renewClaim (expiresAt : Int)
  | beginApplying
  | recordAttempt (attempt : Attempt)
  | apply
deriving DecidableEq

def HostTransition.next (record : DispositionInboxRecord) : HostTransition → DispositionInboxRecord
  | .claim held => { record with state := .claimed, claim := some held }
  | .expireClaim => { record with state := .pending, claim := none }
  | .renewClaim expiresAt =>
    { record with claim := record.claim.map fun held => { held with expiresAt := expiresAt } }
  | .beginApplying => { record with state := .applying }
  | .recordAttempt attempt => { record with attempt := some attempt }
  | .apply => { record with state := .applied }

/-- One Host transition, at the revision the store gives it. -/
def Inbox.host (s : Inbox) (d : CommandDescriptor) (t : HostTransition) (revision : Nat) :
    Option Inbox :=
  match s.current d with
  | none => none
  | some entry =>
    if entry.record.state.isTerminal = false ∧ entry.revision < revision then
      some (s.write (t.next entry.record) revision)
    else none

/-- A new command. -/
def Inbox.accept (s : Inbox) (record : DispositionInboxRecord) (revision : Nat) : Option Inbox :=
  if s.versions record.descriptor = [] then some (s.write record revision) else none

/-- The rows of a due page are versions of their records. -/
def Inbox.lists (s : Inbox) : Except SeamError DispositionDueCommandPage → Bool
  | .error _ => true
  | .ok page => page.commands.all fun e => e ∈ s.versions e.record.descriptor

/-- How the environment answers one call. -/
inductive Choice where
  | reply (err : Option SeamError)
  | count (shards : Nat)
  | clock
  | page (answer : Except SeamError DispositionDueCommandPage)
  | refuse (err : SeamError)
  | unchanged
  | write (revision : Nat) (lost : Option SeamError)

/-- `RejectDispositionCommand`: refused, or already rejected and returned unchanged, or written
at the expected revision. -/
def Inbox.reject (s : Inbox) (request : RejectDispositionCommandRequest) :
    Choice → Option (Except SeamError Bool × Inbox)
  | .refuse err => some (.error err, s)
  | .unchanged =>
    if (s.current request.descriptor).any (·.record.state = .rejected) then some (.ok false, s)
    else none
  | .write revision lost =>
    match s.current request.descriptor with
    | none => none
    | some entry =>
      if entry.revision = request.expectedRevision ∧ entry.revision < revision then
        some (lost.elim (.ok true) .error,
          s.write { entry.record with state := .rejected } revision)
      else none
  | .reply _ | .count _ | .clock | .page _ => none

/-- The answer to a call and the inbox afterwards; `none` when the call cannot be answered so. -/
def Inbox.answer (s : Inbox) (choice : Choice) :
    (q : DispositionAsk) → Option (DispositionAnswer q × Inbox)
  | .authorizeServiceSweep =>
    match choice with
    | .reply err => some (err, s)
    | _ => none
  | .controlShards =>
    match choice with
    | .count shards => some (shards, s)
    | _ => none
  | .now =>
    match choice with
    | .clock => some (s.time, s)
    | _ => none
  | .listDueDispositionCommands _ =>
    match choice with
    | .page answer => if s.lists answer then some (answer, s) else none
    | _ => none
  | .acquireReconciliationClaim _ =>
    match choice with
    | .reply err => some (err, s)
    | _ => none
  | .rejectDispositionCommand request => s.reject request choice
  | .releaseReconciliationClaim _ =>
    match choice with
    | .reply err => some (err, s)
    | _ => none

/-! ## The sweeps -/

/-- One call of `Sweep`: what it was started with, what it has asked, and what is left of it. -/
structure SweepThread where
  cfg : DispositionReconcilerConfig
  rotor : Rotor
  asked : List (Sigma DispositionAnswer) := []
  rest : Dialogue DispositionAnswer (Rotor × Except SweepError (SweepPass SweepResult))

/-- The pass of a sweep that has returned from one. -/
def SweepThread.pass (t : SweepThread) : Option (SweepPass SweepResult) :=
  match t.rest with
  | .ret (_, .ok pass) => some pass
  | .ret (_, .error _) => none
  | .ask _ _ => none

/-- The inbox and the sweeps started so far. -/
structure Fleet where
  inbox : Inbox
  threads : List SweepThread := []

/-- The passes of the sweeps that have returned. -/
def Fleet.passes (σ : Fleet) : List (SweepPass SweepResult) := σ.threads.filterMap (·.pass)

/-- What happens next. A sweep may be started at any position of its rotor, as a replica's sweeps
may run one after another or at once. -/
inductive FleetAct where
  | tick (elapsed : Nat)
  | accept (record : DispositionInboxRecord) (revision : Nat)
  | host (d : CommandDescriptor) (t : HostTransition) (revision : Nat)
  | start (cfg : DispositionReconcilerConfig) (rotor : Rotor)
  | call (thread : Nat) (choice : Choice)

/-- The sweep's next call is answered. -/
def SweepThread.call (t : SweepThread) (s : Inbox) (choice : Choice) :
    Option (SweepThread × Inbox) :=
  match t.rest with
  | .ret _ => none
  | .ask q k =>
    match s.answer choice q with
    | none => none
    | some (a, s) => some ({ t with asked := t.asked ++ [⟨q, a⟩], rest := k a }, s)

def Fleet.step (σ : Fleet) : FleetAct → Option Fleet
  | .tick elapsed => some { σ with inbox := { σ.inbox with time := σ.inbox.time + elapsed } }
  | .accept record revision =>
    (σ.inbox.accept record revision).map fun inbox => { σ with inbox := inbox }
  | .host d t revision => (σ.inbox.host d t revision).map fun inbox => { σ with inbox := inbox }
  | .start cfg rotor =>
    some { σ with
      threads := σ.threads ++
        [{ cfg := cfg, rotor := rotor, rest := DispositionReconciler.sweep cfg rotor }] }
  | .call i choice =>
    match σ.threads[i]? with
    | none => none
    | some t =>
      (t.call σ.inbox choice).map fun out =>
        { inbox := out.2, threads := σ.threads.set i out.1 }

end Factory.Admission
