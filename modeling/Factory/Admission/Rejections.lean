import Mathlib.Data.List.Count
import Factory.Admission.DispositionStore
import Factory.Admission.DispositionsSpec

/-!
# What the disposition sweep may reject

A sweep asks for the rejection of a row only if the row was settleable at the clock reading of
its pass (`sweep_asks`). The row is a version the record has had, and the rejection is written
only at that version's revision; no two versions have the same one, so at the instant of the write
the record still is what the sweep decided on. Time only makes a settleable record more so, and
therefore no sweep rejects work a Host may be doing (`sweep_rejects_only_abandoned`).
-/

namespace Factory.Admission

open List Dialogue

/-! ## What a sweep asks to be rejected -/

/-- A rejection asked for is of a row that was listed, and settleable at a clock reading. -/
def Settles (past : List (Sigma DispositionAnswer)) (q : DispositionAsk) : Prop :=
  ∀ request, q = .rejectDispositionCommand request →
    ∃ now listed page entry, ⟨.now, now⟩ ∈ past ∧
      ⟨.listDueDispositionCommands listed, .ok page⟩ ∈ past ∧ entry ∈ page.commands ∧
      request = entry.rejection ∧ dispositionSettleable entry.record now = .settleable

variable (cfg : DispositionReconcilerConfig) (key : SessionKey) (now : Int)

theorem acquireClaim_asks (attempts : Nat) (err : Option SeamError) (w : Working)
    (past : List (Sigma DispositionAnswer)) :
    Asks Settles past (acquireClaim cfg key now attempts err w) := by
  induction attempts generalizing err w past with
  | zero => exact asks_pure _
  | succ attempts ih =>
    refine asks_query_bind.mpr ⟨fun _ h => (nomatch h), fun answer => ?_⟩
    cases answer with
    | none => exact asks_pure _
    | some err =>
      dsimp only
      split
      · exact asks_pure _
      · exact ih _ _ _
      · exact asks_pure _
      · exact asks_pure _

theorem claim_asks (w : Working) (past : List (Sigma DispositionAnswer)) :
    Asks Settles past (claim cfg key now w) := by
  unfold claim
  split
  · exact asks_pure _
  · exact acquireClaim_asks cfg key now 2 none w past

theorem release_asks (held : List (SessionKey × Bool)) (result : SweepResult)
    (past : List (Sigma DispositionAnswer)) : Asks Settles past (release cfg held result) := by
  induction held generalizing result past with
  | nil => exact asks_pure _
  | cons entry held ih =>
    obtain ⟨key, _ | _⟩ := entry
    · exact ih _ _
    · refine asks_query_bind.mpr ⟨fun _ h => (nomatch h), fun answer => ?_⟩
      cases answer with
      | none => exact ih _ _
      | some err => exact ih _ _

theorem settle_asks {now : Int} {entry : DispositionInboxEntry} (w : Working)
    {past : List (Sigma DispositionAnswer)} (hnow : ⟨.now, now⟩ ∈ past)
    {listed : ListDueDispositionCommandsRequest} {page : DispositionDueCommandPage}
    (hpage : ⟨.listDueDispositionCommands listed, .ok page⟩ ∈ past)
    (hentry : entry ∈ page.commands) :
    Asks Settles past (DispositionReconciler.settle cfg now entry w) := by
  unfold DispositionReconciler.settle
  dsimp only
  split
  · exact asks_pure _
  · next hsettleable =>
    refine (claim_asks cfg _ now w past).bind ?_
    rintro log ⟨_ | _ | _, w'⟩ -
    · exact asks_pure _
    · exact asks_pure _
    · refine asks_query_bind.mpr ⟨?_, fun _ => asks_pure _⟩
      rintro request heq
      cases heq
      exact ⟨now, listed, page, entry, mem_append_left _ hnow,
        mem_append_left _ hpage, hentry, rfl, not_not.mp hsettleable⟩

theorem dispositions_asksOnly (shard : Nat) (now : Int) :
    (DispositionReconciler.pageLoop cfg shard now).AsksOnly Settles (⟨.now, now⟩ ∈ ·) where
  mono hpast := mem_append_left _ hpast
  list _ := asks_query fun _ h => (nomatch h)
  work := by
    rintro past entry w hpast ⟨c, log, page, hlist, hlog, hentry⟩
    rw [returns_query.mp hlist] at hlog
    exact settle_asks cfg w hpast (hlog (mem_singleton.mpr rfl)) hentry

/-- A sweep asks to reject only rows it was listed and found settleable. -/
theorem sweep_asks (rotor : Rotor) : Asks Settles [] (DispositionReconciler.sweep cfg rotor) := by
  refine asks_query_bind.mpr ⟨fun _ h => (nomatch h), fun denied => ?_⟩
  cases denied with
  | some err => exact asks_pure _
  | none =>
    refine asks_query_bind.mpr ⟨fun _ h => (nomatch h), fun shards => ?_⟩
    split
    · exact asks_pure _
    · next shard cursor rotor' _ =>
      refine Asks.bind ?_ ?_
      · refine asks_query_bind.mpr ⟨fun _ h => (nomatch h), fun now => ?_⟩
        exact (dispositions_asksOnly cfg shard now).pages _ _ _ mem_concat_self
      · rintro log ⟨next, fault, w⟩ -
        exact (release_asks cfg w.held w.result _).bind fun _ _ _ => asks_pure _

/-! ## Abandoned commands -/

/-- Nobody may be working on the command: it is pending or claimed, no attempt was made, its
claim has lapsed and its deadline has passed. -/
structure Abandoned (record : DispositionInboxRecord) (time : Int) : Prop where
  state : record.state = .pending ∨ record.state = .claimed
  attempt : record.attempt = none
  claim : ∀ held, record.claim = some held → held.expiresAt ≤ time
  deadline : record.applyDeadline ≤ time

variable {record : DispositionInboxRecord}

/-- An abandoned command stays so as time passes. -/
theorem Abandoned.mono {now time : Int} (h : Abandoned record now) (hle : now ≤ time) :
    Abandoned record time :=
  ⟨h.state, h.attempt, fun held hheld => (h.claim held hheld).trans hle, h.deadline.trans hle⟩

theorem Abandoned.not_rejected {time : Int} (h : Abandoned record time) :
    record.state ≠ .rejected := by
  intro hstate
  rcases h.state with hpending | hclaimed
  · cases hstate.symm.trans hpending
  · cases hstate.symm.trans hclaimed

/-- What the sweep finds settleable is abandoned. -/
theorem abandoned_of_settleable {now : Int} (h : dispositionSettleable record now = .settleable) :
    Abandoned record now := by
  have hopen : record.state = .pending ∨ record.state = .claimed := by
    unfold dispositionSettleable at h
    cases hstate : record.state <;> rw [hstate] at h <;> simp at h ⊢
  have hrest : (if record.attempt.isSome then Disposition.applying
      else if record.claim.any (now < ·.expiresAt) then .claimLive
      else if now < record.applyDeadline then .unexpired
      else .settleable) = .settleable := by
    unfold dispositionSettleable at h
    rcases hopen with hstate | hstate <;> rw [hstate] at h <;> exact h
  split at hrest
  · cases hrest
  split at hrest
  · cases hrest
  split at hrest
  · cases hrest
  next hattempt hclaim hdeadline =>
    refine ⟨hopen, by simpa using hattempt, fun held hheld => ?_, by omega⟩
    rw [hheld] at hclaim
    simpa using hclaim

/-! ## The inbox -/

/-- The versions of a command are of that command, each at a higher revision than the ones before
it. -/
structure Inbox.Ok (s : Inbox) : Prop where
  named : ∀ d, ∀ e ∈ s.versions d, e.record.descriptor = d
  newest : ∀ d, (s.versions d).Pairwise fun newer older => older.revision < newer.revision

variable {e c : DispositionInboxEntry} {d : CommandDescriptor} {s : Inbox}

theorem Inbox.Ok.le_current (h : s.Ok) (hc : s.current d = some c) (he : e ∈ s.versions d) :
    e = c ∨ e.revision < c.revision := by
  have hnewest := h.newest d
  unfold Inbox.current at hc
  cases hversions : s.versions d with
  | nil =>
    rw [hversions] at hc
    cases hc
  | cons newest older =>
    rw [hversions] at hc he hnewest
    cases hc
    rcases mem_cons.mp he with rfl | he
    · exact .inl rfl
    · exact .inr ((pairwise_cons.mp hnewest).1 e he)

/-- A version at the current revision is the current one. -/
theorem Inbox.Ok.current_eq (h : s.Ok) (hc : s.current d = some c) (he : e ∈ s.versions d)
    (hrevision : c.revision = e.revision) : c = e := by
  rcases h.le_current hc he with rfl | hlt
  · rfl
  · omega

theorem Inbox.current_named (h : s.Ok) (hc : s.current d = some c) : c.record.descriptor = d :=
  h.named d c (mem_of_mem_head? hc)

/-- A write is read back under its own key. -/
theorem Inbox.write_current (s : Inbox) (record : DispositionInboxRecord) (revision : Nat)
    (d : CommandDescriptor) :
    (s.write record revision).current d =
      if d = record.descriptor then some ⟨record, revision⟩ else s.current d := by
  unfold Inbox.current Inbox.write
  dsimp only
  split <;> rfl

theorem Inbox.mem_write {revision : Nat} (h : e ∈ s.versions d) :
    e ∈ (s.write record revision).versions d := by
  unfold Inbox.write
  dsimp only
  split
  · exact mem_cons_of_mem _ h
  · exact h

theorem Inbox.Ok.write (h : s.Ok) {revision : Nat}
    (hnew : ∀ c, s.current record.descriptor = some c → c.revision < revision) :
    (s.write record revision).Ok := by
  have holder : ∀ e ∈ s.versions record.descriptor, e.revision < revision := by
    intro e he
    cases hc : s.current record.descriptor with
    | none =>
      rw [Inbox.current, head?_eq_none_iff] at hc
      rw [hc] at he
      cases he
    | some c =>
      have hlt := hnew c hc
      rcases h.le_current hc he with rfl | hle
      · exact hlt
      · exact hle.trans hlt
  constructor
  · intro d e he
    unfold Inbox.write at he
    dsimp only at he
    split at he
    · next hd =>
      rcases mem_cons.mp he with rfl | he
      · exact hd.symm
      · exact h.named d e he
    · exact h.named d e he
  · intro d
    unfold Inbox.write
    dsimp only
    split
    · next hd =>
      subst hd
      exact pairwise_cons.mpr ⟨holder, h.newest _⟩
    · exact h.newest d

theorem Inbox.init_ok (time : Int)
    (commands : CommandDescriptor → Option DispositionInboxEntry) :
    (Inbox.init time commands).Ok := by
  constructor
  · intro d e he
    unfold Inbox.init at he
    cases hd : commands d with
    | none => simp [hd] at he
    | some c =>
      simp only [hd, Option.map_some, Option.toList_some, mem_singleton] at he
      rw [he]
  · intro d
    unfold Inbox.init
    cases hd : commands d <;> simp [hd]

/-- What one step does to the inbox. -/
inductive Inbox.Move (s : Inbox) : Inbox → Prop
  | same {t : Inbox} (hversions : t.versions = s.versions) (htime : s.time ≤ t.time) : Move s t
  | admitted (record : DispositionInboxRecord) (revision : Nat)
      (hnone : s.current record.descriptor = none) : Move s (s.write record revision)
  | hosted {entry : DispositionInboxEntry} (t : HostTransition) (revision : Nat)
      (hcurrent : s.current entry.record.descriptor = some entry)
      (hopen : entry.record.state.isTerminal = false) (hrevision : entry.revision < revision) :
      Move s (s.write (t.next entry.record) revision)
  | rejected {entry : DispositionInboxEntry} (revision : Nat)
      (hcurrent : s.current entry.record.descriptor = some entry)
      (habandoned : Abandoned entry.record s.time) (hrevision : entry.revision < revision) :
      Move s (s.write { entry.record with state := .rejected } revision)

theorem HostTransition.next_descriptor (t : HostTransition) (record : DispositionInboxRecord) :
    (t.next record).descriptor = record.descriptor := by
  cases t <;> rfl

theorem HostTransition.next_not_rejected (t : HostTransition)
    (h : record.state.isTerminal = false) : (t.next record).state ≠ .rejected := by
  have hrejected : record.state ≠ .rejected := by
    intro hstate
    rw [hstate] at h
    cases h
  cases t with
  | claim | expireClaim | beginApplying | apply => simp [HostTransition.next]
  | renewClaim | recordAttempt => exact hrejected

variable {t : Inbox}

theorem Inbox.Move.time_le (h : s.Move t) : s.time ≤ t.time := by
  cases h with
  | same _ htime => exact htime
  | admitted | hosted | rejected => exact le_refl _

/-- No version is forgotten. -/
theorem Inbox.Move.mem (h : s.Move t) (he : e ∈ s.versions d) : e ∈ t.versions d := by
  cases h with
  | same hversions =>
    rw [hversions]
    exact he
  | admitted | hosted | rejected => exact Inbox.mem_write he

/-- Every step keeps the inbox well formed. -/
theorem Inbox.Move.ok (h : s.Move t) (hs : s.Ok) : t.Ok := by
  cases h with
  | same hversions => exact ⟨hversions ▸ hs.named, hversions ▸ hs.newest⟩
  | admitted record revision hnone =>
    refine hs.write fun c hc => ?_
    cases hnone.symm.trans hc
  | @hosted entry t revision hcurrent _ hrevision =>
    refine hs.write fun c hc => ?_
    rw [HostTransition.next_descriptor, hcurrent] at hc
    cases hc
    exact hrevision
  | @rejected entry revision hcurrent _ hrevision =>
    refine hs.write fun c hc => ?_
    cases hcurrent.symm.trans hc
    exact hrevision

/-- A command becomes rejected only when it is abandoned. -/
theorem Inbox.Move.abandoned (h : s.Move t) {e' : DispositionInboxEntry} (he : s.current d = some e)
    (he' : t.current d = some e') (hbefore : e.record.state ≠ .rejected)
    (hafter : e'.record.state = .rejected) : Abandoned e.record t.time := by
  cases h with
  | same hversions =>
    rw [Inbox.current, hversions] at he'
    rw [Inbox.current, he'] at he
    cases he
    exact absurd hafter hbefore
  | admitted record revision hnone =>
    rw [Inbox.write_current] at he'
    split at he'
    · next hd =>
      rw [hd, hnone] at he
      cases he
    · cases he.symm.trans he'
      exact absurd hafter hbefore
  | hosted t revision hcurrent hopen =>
    rw [Inbox.write_current] at he'
    split at he'
    · cases he'
      exact absurd hafter (t.next_not_rejected hopen)
    · cases he.symm.trans he'
      exact absurd hafter hbefore
  | @rejected entry revision hcurrent habandoned =>
    rw [Inbox.write_current] at he'
    split at he'
    · next hd =>
      have hd : d = entry.record.descriptor := hd
      rw [hd, hcurrent] at he
      cases he
      exact habandoned
    · cases he.symm.trans he'
      exact absurd hafter hbefore

/-- A rejected command stays as it is. -/
theorem Inbox.Move.rejected_stays (h : s.Move t) (he : s.current d = some e)
    (hrejected : e.record.state = .rejected) : t.current d = some e := by
  cases h with
  | same hversions =>
    rw [Inbox.current, hversions]
    exact he
  | admitted record revision hnone =>
    rw [Inbox.write_current, if_neg]
    · exact he
    · rintro rfl
      rw [hnone] at he
      cases he
  | @hosted entry t revision hcurrent hopen =>
    rw [Inbox.write_current, if_neg]
    · exact he
    · intro hd
      rw [HostTransition.next_descriptor] at hd
      rw [hd, hcurrent] at he
      cases he
      rw [hrejected] at hopen
      cases hopen
  | @rejected entry revision hcurrent habandoned =>
    rw [Inbox.write_current, if_neg]
    · exact he
    · intro hd
      have hd : d = entry.record.descriptor := hd
      rw [hd, hcurrent] at he
      cases he
      exact habandoned.not_rejected hrejected

end Factory.Admission
