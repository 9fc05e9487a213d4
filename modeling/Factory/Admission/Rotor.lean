import Factory.Lib.Dialogue
import Factory.Wire

/-!
# Passes over control shards

What the service-plane sweeps of `internal/admission` and `internal/reconcile` have in common.
A sweep takes the control shards round robin, one shard a pass, and keeps for each shard the
position its last pass stopped at (`rotor`). A pass reads at most `MaxPages` pages of the shard's
due view from that position and works their rows in order (`PageLoop.pages`); `gates.go` and
`dispositions.go` spell the loop out for their own pages and rows.

The store, the authorizer and the clock are asked by the sweeps (`Dialogue`), and nothing is
assumed of their answers here.
-/

namespace Factory.Admission

/-! ## Errors of the seams -/

/-- The codes of `sessionstore.CatalogError` the package tells apart. -/
inductive CatalogErrorCode where
  | cursor
  | tooSoon
  | invalid
  | conflict
  | notFound
  | deleted
  | identity
  | other (code : String)
deriving DecidableEq

structure CatalogError where
  code : CatalogErrorCode
  field : String := ""
deriving DecidableEq

/-- The codes of `sessionstore.InboxError` the sweeps tell apart. -/
inductive InboxErrorCode where
  | cursor
  | state
  | evidence
  | claimHeld
  | claimLost
  | conflict
  | terminal
  | notFound
  | deleted
  | other (code : String)
deriving DecidableEq

/-- The codes of `sessionstore.ReconcileError` the sweeps tell apart. -/
inductive ReconcileErrorCode where
  | held
  | conflict
  | other (code : String)
deriving DecidableEq

/-- The codes of `sessionstore.KeyspaceError` the sweeps tell apart. -/
inductive KeyspaceErrorCode where
  | bindingNotFound
  | other (code : String)
deriving DecidableEq

/-- An error a seam returned: what `errors.As` finds in it of each type the sweeps ask for. -/
structure SeamError where
  catalog : Option CatalogError := none
  inbox : Option InboxErrorCode := none
  reconcile : Option ReconcileErrorCode := none
  keyspace : Option KeyspaceErrorCode := none
deriving DecidableEq

/-- An error a sweep returns: its text, and the error of a seam it wraps. -/
structure SweepError where
  text : String
  cause : Option SeamError := none
deriving DecidableEq

/-! ## The rotor -/

/-- `rotor`: the next shard, and the position kept for each shard. The empty cursor stands for
an absent key, which is what reading the map gives and what `commit` deletes. -/
structure Rotor where
  next : Nat := 0
  cursors : Nat → Cursor := fun _ => ""

/-- `rotate`; `none` when the store reports too few shards. -/
def Rotor.rotate (minControlShards : Nat) (r : Rotor) (shards : Nat) : Option (Nat × Rotor) :=
  if shards < minControlShards then none
  else
    let shard := if shards ≤ r.next then 0 else r.next
    some (shard, { r with next := (shard + 1) % shards })

/-- `begin`: the shard, the position kept for it, and the rotor without the positions of shards
that are gone. -/
def Rotor.begin (minControlShards : Nat) (r : Rotor) (shards : Nat) :
    Option (Nat × Cursor × Rotor) :=
  match r.rotate minControlShards shards with
  | none => none
  | some (shard, r) =>
    let cursors := fun k => if shards ≤ k then "" else r.cursors k
    some (shard, cursors shard, { r with cursors := cursors })

def Rotor.commit (r : Rotor) (shard : Nat) (cursor : Cursor) : Rotor :=
  { r with cursors := fun k => if k = shard then cursor else r.cursors k }

/-! ## The page loop -/

/-- What a sweep puts into the loop of `page`: its page read with the test for a refused cursor
and the texts of its two errors, the counters it moves, and its work on one row. -/
structure PageLoop {Q : Type} (A : Q → Type) (P Row R : Type) where
  list : Cursor → Dialogue A (Except SeamError P)
  refusedCursor : SeamError → Bool
  resumeText : String
  pageText : String
  nextCursor : P → Cursor
  rows : P → List Row
  queried : R → R
  count : P → R → R
  work : Row → R → Dialogue A (Option SweepError × R)
  exhausted : R → R
  truncated : R → R

variable {Q : Type} {A : Q → Type} {P Row R : Type}

/-- The inner loop: the rows of a page in order, up to the first that faults. -/
def PageLoop.workAll (l : PageLoop A P Row R) : List Row → R → Dialogue A (Option SweepError × R)
  | [], r => pure (none, r)
  | row :: rest, r => do
    match ← l.work row r with
    | (some e, r) => pure (some e, r)
    | (none, r) => l.workAll rest r

/-- The loop of `page`, with so many pages left: the position to keep, the error and the
result. -/
def PageLoop.pages (l : PageLoop A P Row R) :
    Nat → Cursor → R → Dialogue A (Cursor × Option SweepError × R)
  | 0, cursor, r => pure (cursor, none, l.truncated r)
  | n + 1, cursor, r => do
    match ← l.list cursor with
    | .error e =>
      if l.refusedCursor e then pure ("", some ⟨l.resumeText, some e⟩, l.queried r)
      else pure (cursor, some ⟨l.pageText, some e⟩, l.queried r)
    | .ok page =>
      match ← l.workAll (l.rows page) (l.count page (l.queried r)) with
      | (some e, r) => pure (cursor, some e, r)
      | (none, r) =>
        if l.nextCursor page = "" then pure ("", none, l.exhausted r)
        else l.pages n (l.nextCursor page) r

/-- A pass a sweep made: the shard count it read, the shard, where it started, the position it
kept, and what it returned. -/
structure SweepPass (R : Type) where
  shards : Nat
  shard : Nat
  start : Cursor
  kept : Cursor
  result : R
  fault : Option SweepError

/-- A sweeper's rotor and the passes it has made, each with all that was asked and answered. -/
structure Sweeps (A : Q → Type) (R : Type) where
  rotor : Rotor := {}
  passes : List (List (Sigma A) × SweepPass R) := []

/-- One call of `sweep`, which nothing interrupts. A call that returned before its pass began
makes none. -/
def Sweeps.step (sweep : Rotor → Dialogue A (Rotor × Except SweepError (SweepPass R)))
    (σ : Sweeps A R) (answers : Nat → (q : Q) → A q) : Option (Sweeps A R) :=
  match (sweep σ.rotor).run answers 0 with
  | (_, rotor, .error _) => some { σ with rotor := rotor }
  | (log, rotor, .ok pass) => some { rotor := rotor, passes := σ.passes ++ [(log, pass)] }

end Factory.Admission
