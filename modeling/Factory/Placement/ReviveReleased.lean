import Factory.Placement.DesiredWrites

/-!
# Revivals of a released session

Any number of `reviveReleased` calls race on one record with releases and with other writers of
the desired state. A call writes only over a released version, with the workload the public create
kept; the write raises the generation, so no second one replaces the same release
(`reviveReleased_once`).
-/

namespace Factory.Placement

open List Dialogue

/-- The calls of `reviveReleased`, beside any other writers. -/
def reviveSystem (sha256 : Bytes → String) (key : SessionKey) :
    Threads.System CatalogStore PlaceAnswer CatalogEntry
      (Except ReconcileFault CatalogEntry × Nat) CatalogEvent CatalogChoice :=
  { rewriteSystem key (reviving sha256 key) id (fun _ => true) with
    program := reviveReleased sha256 key }

/-- What a revival writes, and over what. -/
theorem reviving_write {sha256 : Bytes → String} {key : SessionKey} {desired : Desired}
    {record : DesiredRecord} {idempotencyKey : String}
    (h : reviving sha256 key record = .write desired idempotencyKey) :
    released record = true ∧ launchTemplate record = some desired.workload ∧
      desired.placement = record.desiredPlacement ∧
      desired.runtimeCompatibility = record.runtimeCompatibility := by
  unfold reviving at h
  split at h
  · cases h
  · next hreleased =>
    split at h
    · cases h
    · next template htemplate =>
      cases h
      exact ⟨by simpa using hreleased, htemplate, rfl, rfl⟩

variable {w : CatalogStore}

/-- What a revival is: it replaces a released version, with the workload the public create kept and
the version's own placement and runtime. -/
structure Revived (a : Applied) : Prop where
  released : released a.before.record = true
  template : a.before.record.publicCreate = some a.after.record.desiredWorkload
  placement : a.after.record.desiredPlacement = a.before.record.desiredPlacement
  runtimeCompatibility : a.after.record.runtimeCompatibility = a.before.record.runtimeCompatibility

theorem Revived.workload {a : Applied} (h : Revived a) :
    a.before.record.desiredWorkload = { payloadVersion := "", payload := [] } := by
  have hreleased := h.released
  simp only [Placement.released, Bool.and_eq_true, beq_iff_eq, List.isEmpty_iff] at hreleased
  obtain ⟨⟨-, hversion⟩, hpayload⟩ := hreleased
  cases hworkload : a.before.record.desiredWorkload with
  | mk payloadVersion payload =>
    rw [hworkload] at hversion hpayload
    cases hversion
    cases hpayload
    rfl

/-- What the record's history satisfies: each applied write raised the generation, and those of
the calls are revivals. -/
structure Revivals (w : CatalogStore) : Prop where
  increasing : w.applied.Pairwise fun a b =>
    a.before.record.desiredGeneration < b.before.record.desiredGeneration
  below : ∀ a ∈ w.applied, a.before.record.desiredGeneration < w.current.record.desiredGeneration
  revived : ∀ a ∈ w.applied, a.called = true → Revived a

theorem Revivals.touched {v : CatalogStore} (h : Revivals w) {l c revision : Nat}
    (hevent : w.event (.touch l c revision) = some v) : Revivals v := by
  obtain ⟨hrecord, -, happlied⟩ := CatalogStore.touch_move hevent
  refine ⟨?_, ?_, ?_⟩
  · rw [happlied]
    exact h.increasing
  · rw [happlied, hrecord]
    exact h.below
  · rw [happlied]
    exact h.revived

theorem Revivals.replaced {v : CatalogStore} {called : Bool} {desired : Desired}
    {idempotencyKey : String} (h : Revivals w)
    (hreplaces : w.Replaces v called desired idempotencyKey)
    (hcalled : called = true → Revived ⟨called, w.current, v.current⟩) : Revivals v := by
  have hgeneration : v.current.record.desiredGeneration =
      w.current.record.desiredGeneration + 1 := by
    rw [hreplaces.record]
    rfl
  refine ⟨?_, ?_, ?_⟩
  · rw [hreplaces.applied]
    refine pairwise_append.mpr ⟨h.increasing, pairwise_singleton _ _, ?_⟩
    intro a ha b hb
    rw [mem_singleton] at hb
    subst hb
    exact h.below a ha
  · rw [hreplaces.applied, hgeneration]
    intro a ha
    rcases mem_append.mp ha with ha | ha
    · exact Nat.lt_succ_of_lt (h.below a ha)
    · rw [mem_singleton] at ha
      subst ha
      exact Nat.lt_succ_self _
  · rw [hreplaces.applied]
    intro a ha
    rcases mem_append.mp ha with ha | ha
    · exact h.revived a ha
    · rw [mem_singleton] at ha
      subst ha
      exact hcalled

theorem Revivals.once (h : Revivals w) (p : Applied → Bool) (g : Nat)
    (hp : ∀ a, p a = true → a.before.record.desiredGeneration = g) : w.applied.countP p ≤ 1 := by
  rw [countP_eq_length_filter]
  have hincreasing := h.increasing.filter p
  have hmem : ∀ a ∈ w.applied.filter p, a.before.record.desiredGeneration = g :=
    fun a ha => hp a (mem_filter.mp ha).2
  cases hlist : w.applied.filter p with
  | nil => exact Nat.zero_le 1
  | cons a rest =>
    cases rest with
    | nil => exact Nat.le_refl 1
    | cons b rest =>
      rw [hlist] at hincreasing hmem
      have hlt := rel_of_pairwise_cons hincreasing mem_cons_self
      have ha := hmem a mem_cons_self
      have hb := hmem b (mem_cons_of_mem _ mem_cons_self)
      omega

section Revive

variable {sha256 : Bytes → String} {key : SessionKey}

theorem reviveSystem_rule :
    (reviveSystem sha256 key).Rule (WriterAsks key (reviving sha256 key)) Revivals
      (fun w handed => handed ∈ w.versions) (fun w _ e => WriterKnows key (fun _ => True) w e) := by
  change (rewriteSystem key (reviving sha256 key) id fun _ => true).Rule _ _ _ _
  refine rewriteSystem_rule ?_ ?_ ?_
  · intro w e v _ hrevivals hevent
    cases e with
    | write req revision =>
      rcases CatalogStore.write_move hevent with rfl | hreplaces
      · exact hrevivals
      · exact hrevivals.replaced hreplaces fun hcalled => (nomatch hcalled)
    | touch l c revision => exact hrevivals.touched hevent
  · intro w v desired idempotencyKey hrevivals hdecide hreplaces
    obtain ⟨hreleased, htemplate, hplacement, hruntime⟩ := reviving_write hdecide
    refine ⟨hrevivals.replaced hreplaces fun _ => ⟨hreleased, ?_, ?_, ?_⟩, trivial⟩
    · rw [hreplaces.record]
      exact (Option.filter_eq_some_iff.mp htemplate).1
    · rw [hreplaces.record]
      exact hplacement
    · rw [hreplaces.record]
      exact hruntime
  · intro _ _ _ _ _
    trivial

end Revive

/-- Each release is revived at most once, with the template the public create kept; a call makes at
most two write calls, and none when there is no template. -/
theorem reviveReleased_once (sha256 : Bytes → String) (key : SessionKey) (w₀ : CatalogStore)
    (happlied : w₀.applied = []) (acts : List (Threads.Act CatalogEntry CatalogEvent
      CatalogChoice)) (σ : Threads.State CatalogStore PlaceAnswer CatalogEntry
      (Except ReconcileFault CatalogEntry × Nat))
    (hrun : Runs.exec (reviveSystem sha256 key).step { world := w₀ } acts = some σ) :
    (∀ g, σ.world.applied.countP
      (fun a => a.called && a.before.record.desiredGeneration == g) ≤ 1) ∧
    (∀ a ∈ σ.world.applied, a.called = true →
      released a.before.record = true ∧
      a.before.record.desiredWorkload = { payloadVersion := "", payload := [] } ∧
      a.before.record.publicCreate = some a.after.record.desiredWorkload ∧
      a.after.record.desiredPlacement = a.before.record.desiredPlacement ∧
      a.after.record.runtimeCompatibility = a.before.record.runtimeCompatibility) ∧
    ∀ t ∈ σ.threads, updates t.asked ≤ 2 ∧
      (launchTemplate σ.world.current.record = none → updates t.asked = 0) := by
  have hnone : Revivals w₀ := by
    refine ⟨?_, ?_, ?_⟩ <;> rw [happlied] <;> simp
  have hstanding := reviveSystem_rule.exec hrun hnone
  refine ⟨fun g => ?_, fun a ha hcalled => ?_, fun t ht => ?_⟩
  · refine hstanding.world.once _ g fun a ha => ?_
    rw [Bool.and_eq_true, beq_iff_eq] at ha
    exact ha.2
  · have hrevived := hstanding.world.revived a ha hcalled
    exact ⟨hrevived.released, hrevived.workload, hrevived.template, hrevived.placement,
      hrevived.runtimeCompatibility⟩
  · have hknown := hstanding.threads t ht
    have hsteps : Steps (reviveReleased sha256 key t.input) t.asked t.rest := hknown.steps
    refine ⟨updates_le_two hsteps, fun htemplate => countP_eq_zero.mpr fun e he hupdate => ?_⟩
    obtain ⟨entry, desired, idempotencyKey, hread, hdecide⟩ := update_decided hsteps he hupdate
    have hmem := hread.mem_versions hknown.input hknown.asked
    rw [launchTemplate, ← CatalogStore.kept_of_mem hmem, ← launchTemplate] at htemplate
    rw [(reviving_write hdecide).2.1] at htemplate
    cases htemplate

/-- Two replicas revive one release, the session is released again, and a third call revives the
second release. -/
theorem reviveReleased_once_twice_released :
    ∃ w₀ : CatalogStore, w₀.applied = [] ∧ ∃ acts σ,
      Runs.exec (reviveSystem (fun _ => "") ⟨"t", "s"⟩).step { world := w₀ } acts = some σ ∧
      σ.world.applied.map (fun a => (a.called, a.before.record.desiredGeneration)) =
        [(true, 2), (false, 3), (true, 4)] ∧
      σ.threads.map (updates ·.asked) = [1, 1, 1] ∧
      ∀ g, σ.world.applied.countP
        (fun a => a.called && a.before.record.desiredGeneration == g) ≤ 1 := by
  let record : DesiredRecord :=
    { tenant := "t", session := "s", agent := "a", runtimeCompatibility := "rc"
      desiredPlacement := .dedicated, desiredGeneration := 2, desiredWorkload := {}
      idempotencyKey := "release", publicCreate := some ⟨"v1", [1]⟩ }
  let w₀ : CatalogStore := { current := ⟨record, 1⟩, older := by simp, kept := by simp }
  let release : UpdateCatalogDesiredStateRequest :=
    { key := ⟨"t", "s"⟩, expectedRevision := 2, idempotencyKey := "again"
      desired := ⟨.dedicated, "rc", {}⟩ }
  let again : CatalogEntry :=
    ⟨{ record with desiredGeneration := 4, idempotencyKey := "again" }, 3⟩
  let acts : List (Threads.Act CatalogEntry CatalogEvent CatalogChoice) :=
    [.start ⟨record, 1⟩, .start ⟨record, 1⟩, .answer 0 (.write (.serve 2 none)),
      .answer 1 (.write (.serve 3 none)), .event (.write release 3), .start again,
      .answer 2 (.write (.serve 4 none))]
  have hrun : (Runs.exec (reviveSystem (fun _ => "") ⟨"t", "s"⟩).step { world := w₀ } acts).map
      (fun σ => (σ.world.applied.map (fun a => (a.called, a.before.record.desiredGeneration)),
        σ.threads.map (updates ·.asked))) =
      some ([(true, 2), (false, 3), (true, 4)], [1, 1, 1]) := by decide +kernel
  obtain ⟨σ, hσ, heq⟩ := Option.map_eq_some_iff.mp hrun
  obtain ⟨happlied, hupdates⟩ := Prod.mk.inj heq
  exact ⟨w₀, rfl, acts, σ, hσ, happlied, hupdates,
    (reviveReleased_once (fun _ => "") ⟨"t", "s"⟩ w₀ rfl acts σ hσ).1⟩

end Factory.Placement
