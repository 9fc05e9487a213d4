import Factory.Placement.DesiredWrites

/-!
# Replicas that agree on an intent

Any number of `ensureDesired` calls for one intent race on one record. The first write that
applies stores the intent under the key derived from it; from then on every write of the same
intent is absorbed by that key, and every call that reads the record again finds the intent there.
So the generation advances at most once, however stale the versions are the calls start from
(`ensureDesired_advances_once`).
-/

namespace Factory.Placement

open Dialogue
open Admission (SeamError)

/-- The calls of `ensureDesired` for one intent. -/
def ensureSystem (sha256 : Bytes → String) (key : SessionKey) (desired : Desired)
    (allowed : CatalogEvent → Bool) :
    Threads.System CatalogStore PlaceAnswer CatalogEntry
      (Except ReconcileFault CatalogEntry × Nat) CatalogEvent CatalogChoice :=
  { rewriteSystem key (ensuring sha256 key desired) (fun _ => 0) allowed with
    program := ensureDesired sha256 key desired }

/-- The event writes no desired state. -/
def CatalogEvent.isTouch : CatalogEvent → Bool
  | .write _ _ => false
  | .touch _ _ _ => true

def DesiredRecord.intent (record : DesiredRecord) : Desired :=
  ⟨record.desiredPlacement, record.runtimeCompatibility, record.desiredWorkload⟩

/-- What a desired-state write can change is the same in both records. -/
structure SameDesire (r r' : DesiredRecord) : Prop where
  intent : r'.intent = r.intent
  idempotencyKey : r'.idempotencyKey = r.idempotencyKey
  generation : r'.desiredGeneration = r.desiredGeneration

variable {sha256 : Bytes → String} {desired : Desired} {record : DesiredRecord}

/-- `storedDesired` tests that the record carries the intent. -/
theorem storedDesired_iff : storedDesired record desired = true ↔ record.intent = desired := by
  obtain ⟨placement, runtimeCompatibility, ⟨payloadVersion, payload⟩⟩ := desired
  obtain ⟨_, ⟨_, _⟩, _, _⟩ := record
  simp [storedDesired, DesiredRecord.intent, and_assoc]

theorem ensuring_write {key : SessionKey} {d : Desired} {idempotencyKey : String}
    (h : ensuring sha256 key desired record = .write d idempotencyKey) :
    record.intent ≠ desired ∧ d = desired ∧ idempotencyKey = desiredKey sha256 key desired := by
  unfold ensuring at h
  split at h
  · cases h
  · next hstored =>
    cases h
    exact ⟨mt storedDesired_iff.mpr hstored, rfl, rfl⟩

theorem ensuring_keep {key : SessionKey} (h : ensuring sha256 key desired record = .keep) :
    record.intent = desired := by
  unfold ensuring at h
  split at h
  · next hstored => exact storedDesired_iff.mp hstored
  · cases h

/-- How far the calls have come from a record that was started from: its desire is unchanged, or
the intent was stored once, which the record did not carry. -/
inductive Stage (sha256 : Bytes → String) (key : SessionKey) (desired : Desired)
    (start record : DesiredRecord) : Prop
  | before (h : SameDesire start record)
  | after (hstart : start.intent ≠ desired)
      (hgeneration : record.desiredGeneration = start.desiredGeneration + 1)
      (hstored : record.intent = desired)
      (hkey : record.idempotencyKey = desiredKey sha256 key desired)

section Ensure

variable {key : SessionKey} {w₀ : CatalogStore}

theorem Stage.touch {start : DesiredRecord} (h : Stage sha256 key desired start record)
    (l c : Nat) :
    Stage sha256 key desired start
      { record with lastJournalSeq := l, checkpointJournalSeq := c } := by
  cases h with
  | before h => exact .before ⟨h.intent, h.idempotencyKey, h.generation⟩
  | after hstart hgeneration hstored hkey => exact .after hstart hgeneration hstored hkey

theorem ensureSystem_rule
    (hkey : w₀.current.record.idempotencyKey = desiredKey sha256 key desired →
      w₀.current.record.intent = desired) :
    (ensureSystem sha256 key desired CatalogEvent.isTouch).Rule
      (WriterAsks key (ensuring sha256 key desired))
      (fun w => Stage sha256 key desired w₀.current.record w.current.record)
      (fun w handed => handed ∈ w.versions)
      (fun w _ e => WriterKnows key (fun entry => entry.record.intent = desired) w e) := by
  refine rewriteSystem_rule ?_ ?_ ?_
  · intro w e v hallowed hstage hevent
    cases e with
    | write req revision => cases hallowed
    | touch l c revision =>
      rw [(CatalogStore.touch_move hevent).1]
      exact hstage.touch l c
  · intro w v d idempotencyKey hstage hdecide hreplaces
    obtain ⟨hnot, rfl, rfl⟩ := ensuring_write hdecide
    have hstored : v.current.record.intent = d := by
      rw [hreplaces.record]
      rfl
    refine ⟨?_, hstored⟩
    cases hstage with
    | before hsame =>
      rw [hsame.intent] at hnot
      refine .after hnot ?_ hstored ?_
      · rw [hreplaces.record, ← hsame.generation]
        rfl
      · rw [hreplaces.record]
        rfl
    | after _ _ hcarries => exact absurd hcarries hnot
  · intro w old d hstage hdecide
    obtain ⟨-, -, hderived⟩ := ensuring_write hdecide
    cases hstage with
    | before hsame =>
      rw [hsame.intent]
      exact hkey (hsame.idempotencyKey ▸ hderived)
    | after _ _ hcarries => exact hcarries

theorem ensureDesired_kept {entry : CatalogEntry} {log : List (Sigma PlaceAnswer)}
    {rest : Dialogue PlaceAnswer (Except ReconcileFault CatalogEntry × Nat)}
    (hstored : entry.record.intent = desired)
    (h : Steps (ensureDesired sha256 key desired entry) log rest) : log = [] := by
  have hkeep : ensuring sha256 key desired entry.record = .keep :=
    if_pos (storedDesired_iff.mpr hstored)
  have hpure : ensureDesired sha256 key desired entry = .ret (.ok entry, 0) := by
    rw [ensureDesired, rewrite, hkeep]
    rfl
  rw [hpure] at h
  cases h
  rfl

/-- A call that returns without an error returns a version that carries the intent, when the
writes it made were answered so. -/
theorem ensureDesired_returns {entry out : CatalogEntry} {w : CatalogStore} {n : Nat}
    {log : List (Sigma PlaceAnswer)}
    (hlog : ∀ e ∈ log, WriterKnows key (fun entry => entry.record.intent = desired) w e)
    (h : Returns (ensureDesired sha256 key desired entry) log (.ok out, n)) :
    out.record.intent = desired := by
  rcases rewrite_returns (Nat.succ_ne_zero 1) h with ⟨-, hkeep⟩ | ⟨request, hrequest⟩
  · exact ensuring_keep hkeep
  · exact (hlog _ hrequest).written request out rfl

end Ensure

/-- Replicas that agree on an intent advance the generation at most once, whatever versions they
start from, and beside other writers none of them overwrites a version it has not read. -/
theorem ensureDesired_advances_once (sha256 : Bytes → String) (key : SessionKey)
    (desired : Desired) (w₀ : CatalogStore)
    (hkey : w₀.current.record.idempotencyKey = desiredKey sha256 key desired →
      w₀.current.record.intent = desired) :
    (∀ acts σ,
      Runs.exec (ensureSystem sha256 key desired CatalogEvent.isTouch).step
        { world := w₀ } acts = some σ →
      σ.world.current.record.desiredGeneration ≤ w₀.current.record.desiredGeneration + 1 ∧
      (w₀.current.record.intent = desired →
        σ.world.current.record.desiredGeneration = w₀.current.record.desiredGeneration) ∧
      ∀ t ∈ σ.threads, updates t.asked ≤ 2 ∧
        (t.input.record.intent = desired → updates t.asked = 0) ∧
        ∀ entry n, t.returned = some (.ok entry, n) → entry.record.intent = desired) ∧
    ∀ acts σ i choice τ t,
      Runs.exec (ensureSystem sha256 key desired fun _ => true).step { world := w₀ } acts = some σ →
      (ensureSystem sha256 key desired fun _ => true).step σ (.answer i choice) = some τ →
      σ.threads[i]? = some t →
      τ.world = σ.world ∨ HasRead key t.input t.asked σ.world.current := by
  refine ⟨fun acts σ hrun => ?_, fun acts σ i choice τ t hrun hstep ht => ?_⟩
  · have hstanding := (ensureSystem_rule hkey).exec hrun (.before ⟨rfl, rfl, rfl⟩)
    refine ⟨?_, fun hstart => ?_, fun t ht => ?_⟩
    · cases hstanding.world with
      | before hsame =>
        rw [hsame.generation]
        exact Nat.le_succ _
      | after _ hgeneration => exact Nat.le_of_eq hgeneration
    · cases hstanding.world with
      | before hsame => exact hsame.generation
      | after hnot => exact absurd hstart hnot
    · have hknown := hstanding.threads t ht
      have hsteps : Steps (ensureDesired sha256 key desired t.input) t.asked t.rest :=
        hknown.steps
      refine ⟨updates_le_two hsteps, fun hstored => ?_, fun entry n hreturned => ?_⟩
      · rw [ensureDesired_kept hstored hknown.steps]
        rfl
      · exact ensureDesired_returns hknown.asked (t.returns_of_returned hknown.steps hreturned)
  · have hrewrites : ensureSystem sha256 key desired (fun _ => true) =
        rewriteSystem key (ensuring sha256 key desired) (fun _ => 0) fun _ => true := rfl
    rw [hrewrites] at hrun hstep
    rcases rewriteSystem_step hrun hstep ht with hsame | ⟨_, _, hread, -⟩
    · exact .inl hsame
    · exact .inr hread

/-- Two replicas are handed the same version of a record and both ask to write: the second write
is absorbed. -/
theorem ensureDesired_advances_once_race :
    ∃ w₀ : CatalogStore, ∃ acts σ,
      Runs.exec (ensureSystem (fun _ => "") ⟨"t", "s"⟩ ⟨.pooled, "rc", {}⟩
        CatalogEvent.isTouch).step { world := w₀ } acts = some σ ∧
      σ.world.current.record.desiredGeneration = 2 ∧
      σ.world.current.record.desiredGeneration ≤ w₀.current.record.desiredGeneration + 1 ∧
      σ.threads.map (updates ·.asked) = [1, 1] := by
  let record : DesiredRecord :=
    { tenant := "t", session := "s", agent := "a", runtimeCompatibility := "old"
      desiredPlacement := .pooled, desiredGeneration := 1, desiredWorkload := {}
      idempotencyKey := "create", publicCreate := none }
  let w₀ : CatalogStore := { current := ⟨record, 1⟩, older := by simp, kept := by simp }
  let acts : List (Threads.Act CatalogEntry CatalogEvent CatalogChoice) :=
    [.start ⟨record, 1⟩, .start ⟨record, 1⟩, .answer 0 (.write (.serve 2 none)),
      .answer 1 (.write (.serve 3 none))]
  have hrun : (Runs.exec (ensureSystem (fun _ => "") ⟨"t", "s"⟩ ⟨.pooled, "rc", {}⟩
      CatalogEvent.isTouch).step { world := w₀ } acts).map
      (fun σ => (σ.world.current.record.desiredGeneration, σ.threads.map (updates ·.asked))) =
      some (2, [1, 1]) := by decide +kernel
  obtain ⟨σ, hσ, heq⟩ := Option.map_eq_some_iff.mp hrun
  obtain ⟨hgeneration, hupdates⟩ := Prod.mk.inj heq
  refine ⟨w₀, acts, σ, hσ, hgeneration, ?_, hupdates⟩
  exact ((ensureDesired_advances_once (fun _ => "") ⟨"t", "s"⟩ ⟨.pooled, "rc", {}⟩ w₀
    (by decide +kernel)).1 acts σ hσ).1

end Factory.Placement
