import Factory.Lib.Threads
import Factory.Placement.Desired

/-!
# The catalog record of one session

SessionStore's side of a desired-state write, for one session. A record has a revision, which
every write raises. A write whose idempotency key is the record's own is absorbed: it succeeds and
changes nothing. Any other applies only at the expected revision, and then raises the desired
generation by one and keeps the key. A call may fail for any reason, with nothing written, and the
answer of one that wrote may be lost.

`CatalogStore.applied` is not in the source: it lists the desired-state writes that applied, with
the versions before and after each.
-/

namespace Factory.Placement

open List
open Admission (SeamError)

/-- A desired-state write that applied: by one of the calls, or by another writer. -/
structure Applied where
  called : Bool
  before : CatalogEntry
  after : CatalogEntry
deriving DecidableEq

/-- The record: its current version and those before it, at lower revisions. What the public
create kept is immutable. -/
structure CatalogStore where
  current : CatalogEntry
  past : List CatalogEntry := []
  applied : List Applied := []
  older : ∀ e ∈ past, e.revision < current.revision
  kept : ∀ e ∈ past, e.record.publicCreate = current.record.publicCreate

/-- The versions the record has had. -/
def CatalogStore.versions (s : CatalogStore) : List CatalogEntry := s.current :: s.past

/-- The record with a new version. -/
def CatalogStore.put (s : CatalogStore) (next : CatalogEntry)
    (hnewer : s.current.revision < next.revision)
    (hkept : next.record.publicCreate = s.current.record.publicCreate) : CatalogStore where
  current := next
  past := s.versions
  applied := s.applied
  older e he := (mem_cons.mp he).elim (fun heq => heq ▸ hnewer) fun hpast =>
    Nat.lt_trans (s.older e hpast) hnewer
  kept e he := (mem_cons.mp he).elim (fun heq => heq ▸ hkept.symm) fun hpast =>
    (s.kept e hpast).trans hkept.symm

/-- The record with an intent stored at its next generation. -/
def DesiredRecord.store (record : DesiredRecord) (desired : Desired) (idempotencyKey : String) :
    DesiredRecord :=
  { record with
    desiredPlacement := desired.placement, runtimeCompatibility := desired.runtimeCompatibility
    desiredWorkload := desired.workload, idempotencyKey := idempotencyKey
    desiredGeneration := record.desiredGeneration + 1 }

/-- How the store answers a write: it fails, or it decides it, at this revision if it applies, and
the answer may be lost. -/
inductive WriteChoice where
  | fail (err : SeamError)
  | serve (revision : Nat) (lost : Option SeamError)
deriving DecidableEq

/-- The answer of a write that was served, or the error it was lost to. -/
def answered (lost : Option SeamError) (entry : CatalogEntry) : Except SeamError CatalogEntry :=
  lost.elim (.ok entry) .error

/-- The conflict of a write at another revision. -/
def revisionConflict : SeamError := { catalog := some { code := .conflict } }

/-- `UpdateCatalogDesiredState`. -/
def CatalogStore.update (s : CatalogStore) (called : Bool)
    (req : UpdateCatalogDesiredStateRequest) :
    WriteChoice → Option (Except SeamError CatalogEntry × CatalogStore)
  | .fail err => some (.error err, s)
  | .serve revision lost =>
    if req.idempotencyKey = s.current.record.idempotencyKey then
      some (answered lost s.current, s)
    else if req.expectedRevision = s.current.revision then
      let next : CatalogEntry :=
        { record := s.current.record.store req.desired req.idempotencyKey, revision := revision }
      if h : s.current.revision < next.revision then
        let written := s.put next h rfl
        some (answered lost next,
          { written with
            applied := s.applied ++ [{ called := called, before := s.current, after := next }] })
      else none
    else some (.error revisionConflict, s)

/-- What other writers do to the record: a desired-state write of their own (a release among
them), or a write of the members that are not desired state. -/
inductive CatalogEvent where
  | write (req : UpdateCatalogDesiredStateRequest) (revision : Nat)
  | touch (lastJournalSeq checkpointJournalSeq revision : Nat)
deriving DecidableEq

def CatalogStore.event (s : CatalogStore) : CatalogEvent → Option CatalogStore
  | .write req revision => (s.update false req (.serve revision none)).map (·.2)
  | .touch lastJournalSeq checkpointJournalSeq revision =>
    let next : CatalogEntry :=
      { record := { s.current.record with
          lastJournalSeq := lastJournalSeq, checkpointJournalSeq := checkpointJournalSeq }
        revision := revision }
    if h : s.current.revision < next.revision then some (s.put next h rfl) else none

/-- How the environment answers one question of a writer. -/
inductive CatalogChoice where
  | read
  | fail (err : SeamError)
  | write (choice : WriteChoice)
deriving DecidableEq

/-- How the record answers a writer of its session, who asks of nothing else. -/
def CatalogStore.answer (key : SessionKey) (s : CatalogStore) (choice : CatalogChoice) :
    (q : PlaceAsk) → Option (PlaceAnswer q × CatalogStore)
  | .getCatalogEntry asked =>
    if asked = key then
      match choice with
      | .read => some (.ok s.current, s)
      | .fail err => some (.error err, s)
      | .write _ => none
    else none
  | .updateCatalogDesiredState req =>
    if req.key = key then
      match choice with
      | .write choice => s.update true req choice
      | .read => none
      | .fail _ => none
    else none
  | _ => none

/-! ## What a write does -/

variable {s v : CatalogStore}

/-- A write changes nothing, or replaces the version it names. -/
theorem CatalogStore.update_cases {called : Bool} {req : UpdateCatalogDesiredStateRequest}
    {choice : WriteChoice} {a : Except SeamError CatalogEntry}
    (h : s.update called req choice = some (a, v)) :
    (v = s ∧ ∀ e, a = .ok e → e = s.current ∧
      req.idempotencyKey = s.current.record.idempotencyKey) ∨
    (req.idempotencyKey ≠ s.current.record.idempotencyKey ∧
      req.expectedRevision = s.current.revision ∧ s.current.revision < v.current.revision ∧
      v.current.record = s.current.record.store req.desired req.idempotencyKey ∧
      v.past = s.versions ∧
      v.applied = s.applied ++ [{ called := called, before := s.current, after := v.current }] ∧
      ∀ e, a = .ok e → e = v.current) := by
  have hanswered : ∀ {lost : Option SeamError} {entry e : CatalogEntry},
      answered lost entry = .ok e → e = entry := by
    rintro (_ | lost) entry e heq
    · cases heq
      rfl
    · cases heq
  cases choice with
  | fail err =>
    cases h
    exact .inl ⟨rfl, fun e he => (nomatch he)⟩
  | serve revision lost =>
    unfold CatalogStore.update at h
    dsimp only at h
    split at h
    · next hkey =>
      cases h
      exact .inl ⟨rfl, fun e he => ⟨hanswered he, hkey⟩⟩
    · next hkey =>
      split at h
      · next hrevision =>
        split at h
        · next hlt =>
          cases h
          exact .inr ⟨hkey, hrevision, hlt, rfl, rfl, rfl, fun e he => hanswered he⟩
        · cases h
      · cases h
        exact .inl ⟨rfl, fun e he => (nomatch he)⟩

variable {e : CatalogEntry}

/-- A version at the current revision is the current one. -/
theorem CatalogStore.eq_current (he : e ∈ s.versions) (h : e.revision = s.current.revision)
    : e = s.current := by
  rcases mem_cons.mp he with rfl | he
  · rfl
  · have := s.older e he
    omega

/-- What a write that applied did: it replaced the current version. -/
structure CatalogStore.Replaces (s v : CatalogStore) (called : Bool) (desired : Desired)
    (idempotencyKey : String) : Prop where
  fresh : idempotencyKey ≠ s.current.record.idempotencyKey
  record : v.current.record = s.current.record.store desired idempotencyKey
  versions : v.versions = v.current :: s.versions
  applied : v.applied = s.applied ++ [{ called := called, before := s.current, after := v.current }]

/-- What happens to the record in one step: nothing that was said of it changes, or a write
replaced its current version. -/
inductive CatalogStore.Move (s : CatalogStore) : CatalogStore → Prop
  | same : Move s s
  | touched {v : CatalogStore} (lastJournalSeq checkpointJournalSeq : Nat)
      (hrecord : v.current.record = { s.current.record with
        lastJournalSeq := lastJournalSeq, checkpointJournalSeq := checkpointJournalSeq })
      (hversions : v.versions = v.current :: s.versions) (happlied : v.applied = s.applied) :
      Move s v
  | replaced {v : CatalogStore} {called : Bool} {desired : Desired} {idempotencyKey : String}
      (h : s.Replaces v called desired idempotencyKey) : Move s v

/-- No version is forgotten. -/
theorem CatalogStore.Move.versions (h : s.Move v) (he : e ∈ s.versions) : e ∈ v.versions := by
  cases h with
  | same => exact he
  | touched _ _ _ hversions =>
    rw [hversions]
    exact mem_cons_of_mem _ he
  | replaced h =>
    rw [h.versions]
    exact mem_cons_of_mem _ he

/-- A touch moves the journal positions and no desired state. -/
theorem CatalogStore.touch_move {l c revision : Nat} (h : s.event (.touch l c revision) = some v) :
    v.current.record = { s.current.record with lastJournalSeq := l, checkpointJournalSeq := c } ∧
      v.versions = v.current :: s.versions ∧ v.applied = s.applied := by
  unfold CatalogStore.event at h
  dsimp only at h
  split at h
  · cases h
    exact ⟨rfl, rfl, rfl⟩
  · cases h

/-- A write is refused, or it replaces the desired state. -/
theorem CatalogStore.write_move {req : UpdateCatalogDesiredStateRequest} {revision : Nat}
    (h : s.event (.write req revision) = some v) :
    v = s ∨ s.Replaces v false req.desired req.idempotencyKey := by
  obtain ⟨⟨answer, v'⟩, hupdate, ⟨⟩⟩ := Option.map_eq_some_iff.mp h
  rcases CatalogStore.update_cases hupdate with ⟨rfl, -⟩ |
    ⟨hfresh, -, -, hrecord, hpast, happlied, -⟩
  · exact .inl rfl
  · refine .inr ⟨hfresh, hrecord, ?_, happlied⟩
    rw [CatalogStore.versions, hpast]

/-- What other writers do is a move of the record. -/
theorem CatalogStore.event_move {e : CatalogEvent} (h : s.event e = some v) : s.Move v := by
  cases e with
  | write req revision =>
    rcases CatalogStore.write_move h with rfl | hreplaces
    · exact .same
    · exact .replaced hreplaces
  | touch l c revision =>
    obtain ⟨hrecord, hversions, happlied⟩ := CatalogStore.touch_move h
    exact .touched l c hrecord hversions happlied

/-- All versions have one public create. -/
theorem CatalogStore.kept_of_mem (h : e ∈ s.versions) :
    e.record.publicCreate = s.current.record.publicCreate := by
  rcases mem_cons.mp h with rfl | h
  · rfl
  · exact s.kept e h

end Factory.Placement
