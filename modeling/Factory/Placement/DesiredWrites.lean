import Mathlib.Data.List.Count
import Factory.Placement.DesiredStore

/-!
# The loop of the desired-state writers

What the loop of `ensureDesired` and `reviveReleased` asks and returns, whatever it makes of a
record (`rewrite`), and what any number of such calls do to one record beside other writers. A
call writes only at the revision of a version it has read, and no two versions have the same
revision, so a write that applies replaces a version its call has read and decided on
(`rewriteSystem_step`).
-/

namespace Factory.Placement

open List Dialogue
open Admission (SeamError)

/-! ## What the loop asks -/

def PlaceAsk.isUpdate : PlaceAsk → Bool
  | .updateCatalogDesiredState _ => true
  | _ => false

/-- The write calls of what was asked. -/
def updates (log : List (Sigma PlaceAnswer)) : Nat := log.countP (·.1.isUpdate)

theorem updates_append (log later : List (Sigma PlaceAnswer)) :
    updates (log ++ later) = updates log + updates later := countP_append ..

/-- The version is the one the call was handed or one it has read since. -/
def HasRead (key : SessionKey) (handed : CatalogEntry) (past : List (Sigma PlaceAnswer))
    (entry : CatalogEntry) : Prop :=
  entry = handed ∨ ⟨.getCatalogEntry key, .ok entry⟩ ∈ past

variable {past : List (Sigma PlaceAnswer)} {handed entry : CatalogEntry}

theorem HasRead.append {key : SessionKey} (h : HasRead key handed past entry)
    (log : List (Sigma PlaceAnswer)) : HasRead key handed (past ++ log) entry :=
  h.imp_right fun hmem => mem_append_left _ hmem

/-- The request a writer makes for a version it decided to write over. -/
def writeRequest (key : SessionKey) (entry : CatalogEntry) (desired : Desired)
    (idempotencyKey : String) : UpdateCatalogDesiredStateRequest :=
  { key := key, expectedRevision := entry.revision, idempotencyKey := idempotencyKey
    desired := desired }

/-- The loop reads the record, or writes over a version it has read and decided on. -/
def Rewrites (key : SessionKey) (decide : DesiredRecord → Rewrite) (handed : CatalogEntry)
    (past : List (Sigma PlaceAnswer)) (q : PlaceAsk) : Prop :=
  q = .getCatalogEntry key ∨ ∃ entry desired idempotencyKey, HasRead key handed past entry ∧
    decide entry.record = .write desired idempotencyKey ∧
    q = .updateCatalogDesiredState (writeRequest key entry desired idempotencyKey)

/-- The program makes at most `limit` write calls. -/
def WritesAtMost (limit : Nat) (past : List (Sigma PlaceAnswer)) (q : PlaceAsk) : Prop :=
  q.isUpdate = true → updates past < limit

section Loop

variable {key : SessionKey} {decide : DesiredRecord → Rewrite} {failed : Nat → Nat}

/-- A write is over a version that was read and decided on. -/
theorem rewrite_asks (attempts : Nat) (writes : Nat) (hread : HasRead key handed past entry) :
    Asks (Rewrites key decide handed) past (rewrite key decide failed attempts entry writes) := by
  induction attempts generalizing entry writes past with
  | zero => exact asks_pure _
  | succ attempts ih =>
    unfold rewrite
    split
    · exact asks_pure _
    · exact asks_pure _
    · next desired idempotencyKey hdecide =>
      refine asks_query_bind.mpr
        ⟨.inr ⟨entry, desired, idempotencyKey, hread, hdecide, rfl⟩, fun answer => ?_⟩
      cases answer with
      | ok updated => exact asks_pure _
      | error err =>
        dsimp only
        split
        · exact asks_pure _
        · refine asks_query_bind.mpr ⟨.inl rfl, fun answer => ?_⟩
          cases answer with
          | error err => exact asks_pure _
          | ok again =>
            exact ih _ (.inr mem_concat_self)

theorem rewrite_writesAtMost {limit attempts : Nat} (entry : CatalogEntry) (writes : Nat)
    (h : updates past + attempts ≤ limit) :
    Asks (WritesAtMost limit) past (rewrite key decide failed attempts entry writes) := by
  induction attempts generalizing entry writes past with
  | zero => exact asks_pure _
  | succ attempts ih =>
    unfold rewrite
    split
    · exact asks_pure _
    · exact asks_pure _
    · refine asks_query_bind.mpr ⟨fun _ => by omega, fun answer => ?_⟩
      cases answer with
      | ok updated => exact asks_pure _
      | error err =>
        dsimp only
        split
        · exact asks_pure _
        · refine asks_query_bind.mpr ⟨fun hupdate => (nomatch hupdate), fun answer => ?_⟩
          cases answer with
          | error err => exact asks_pure _
          | ok again =>
            refine ih again _ ?_
            rw [updates_append, updates_append]
            change updates past + 1 + 0 + attempts ≤ limit
            omega

/-- What is returned was found to need no write, or was written. -/
theorem rewrite_returns {attempts : Nat} (hattempts : attempts ≠ 0) {out : CatalogEntry}
    {writes n : Nat} {log : List (Sigma PlaceAnswer)}
    (h : Returns (rewrite key decide failed attempts entry writes) log (.ok out, n)) :
    (HasRead key entry log out ∧ decide out.record = .keep) ∨
      ∃ request, ⟨.updateCatalogDesiredState request, .ok out⟩ ∈ log := by
  induction attempts generalizing entry writes log with
  | zero => exact absurd rfl hattempts
  | succ attempts ih =>
    unfold rewrite at h
    split at h
    · next hkeep =>
      obtain ⟨rfl, ⟨⟩⟩ := returns_pure.mp h
      exact .inl ⟨.inl rfl, hkeep⟩
    · obtain ⟨rfl, ⟨⟩⟩ := returns_pure.mp h
    · obtain ⟨answer, rest, rfl, hrest⟩ := returns_query_bind.mp h
      cases answer with
      | ok updated =>
        obtain ⟨rfl, ⟨⟩⟩ := returns_pure.mp hrest
        exact .inr ⟨_, mem_cons_self⟩
      | error err =>
        dsimp only at hrest
        split at hrest
        · obtain ⟨rfl, ⟨⟩⟩ := returns_pure.mp hrest
        · next hmore =>
          obtain ⟨answer, later, rfl, hlater⟩ := returns_query_bind.mp hrest
          cases answer with
          | error err =>
            obtain ⟨rfl, ⟨⟩⟩ := returns_pure.mp hlater
          | ok again =>
            have hleft : attempts ≠ 0 := by
              rintro rfl
              simp at hmore
            rcases ih hleft hlater with ⟨rfl | hread, hkeep⟩ | ⟨request, hrequest⟩
            · exact .inl ⟨.inr (mem_cons_of_mem _ mem_cons_self), hkeep⟩
            · exact .inl ⟨.inr (mem_cons_of_mem _ (mem_cons_of_mem _ hread)), hkeep⟩
            · exact .inr ⟨request, mem_cons_of_mem _ (mem_cons_of_mem _ hrequest)⟩

end Loop

/-! ## Calls beside other writers -/

/-- Calls of one writer on one session's record, each started from a version the record has had,
beside the events of other writers that are `allowed`. -/
def rewriteSystem (key : SessionKey) (decide : DesiredRecord → Rewrite) (failed : Nat → Nat)
    (allowed : CatalogEvent → Bool) :
    Threads.System CatalogStore PlaceAnswer CatalogEntry
      (Except ReconcileFault CatalogEntry × Nat) CatalogEvent CatalogChoice where
  program entry := rewrite key decide failed 2 entry 0
  begins w entry := entry ∈ w.versions
  event w e := if allowed e then w.event e else none
  answer w _ choice q := w.answer key choice q

/-- What the loop asks: it writes over versions it has read, and at most twice. -/
def WriterAsks (key : SessionKey) (decide : DesiredRecord → Rewrite) (handed : CatalogEntry)
    (past : List (Sigma PlaceAnswer)) (q : PlaceAsk) : Prop :=
  Rewrites key decide handed past q ∧ WritesAtMost 2 past q

/-- What is known of an answer: a version read is one the record has had, and the answer of a
write satisfies `U`. -/
structure WriterKnows (key : SessionKey) (U : CatalogEntry → Prop) (w : CatalogStore)
    (e : Sigma PlaceAnswer) : Prop where
  read : ∀ entry, e = ⟨.getCatalogEntry key, .ok entry⟩ → entry ∈ w.versions
  written : ∀ request entry, e = ⟨.updateCatalogDesiredState request, .ok entry⟩ → U entry

section Writers

variable {key : SessionKey} {decide : DesiredRecord → Rewrite} {failed : Nat → Nat}
  {allowed : CatalogEvent → Bool} {U : CatalogEntry → Prop}

variable {w : CatalogStore}

theorem HasRead.mem_versions (h : HasRead key handed past entry) (hhanded : handed ∈ w.versions)
    (hpast : ∀ e ∈ past, WriterKnows key U w e) : entry ∈ w.versions := by
  rcases h with rfl | h
  · exact hhanded
  · exact (hpast _ h).read entry rfl

/-- What one answer to a writer is and does: the record is read or the write is absorbed and
nothing changes, or the write replaces the current version, which its call has read and decided
on. -/
inductive WriterMove (key : SessionKey) (decide : DesiredRecord → Rewrite) (handed : CatalogEntry)
    (past : List (Sigma PlaceAnswer)) (w : CatalogStore) : Sigma PlaceAnswer → CatalogStore → Prop
  | unchanged {e : Sigma PlaceAnswer}
      (hread : ∀ entry, e = ⟨.getCatalogEntry key, .ok entry⟩ → entry = w.current)
      (habsorbed : ∀ request entry, e = ⟨.updateCatalogDesiredState request, .ok entry⟩ →
        entry = w.current ∧ ∃ old desired, decide old =
          .write desired w.current.record.idempotencyKey) :
      WriterMove key decide handed past w e w
  | replaced {e : Sigma PlaceAnswer} {v : CatalogStore} {desired : Desired}
      {idempotencyKey : String} (hread : HasRead key handed past w.current)
      (hdecide : decide w.current.record = .write desired idempotencyKey)
      (hreplaces : w.Replaces v true desired idempotencyKey)
      (hwritten : ∀ entry, e ≠ ⟨.getCatalogEntry key, .ok entry⟩)
      (hanswer : ∀ request entry, e = ⟨.updateCatalogDesiredState request, .ok entry⟩ →
        entry = v.current) :
      WriterMove key decide handed past w e v

variable {v : CatalogStore}

theorem answer_writer {choice : CatalogChoice} {q : PlaceAsk} {a : PlaceAnswer q}
    (hhanded : handed ∈ w.versions) (hpast : ∀ e ∈ past, WriterKnows key U w e)
    (hasks : Rewrites key decide handed past q) (h : w.answer key choice q = some (a, v)) :
    WriterMove key decide handed past w ⟨q, a⟩ v := by
  rcases hasks with rfl | ⟨entry, desired, idempotencyKey, hread, hdecide, rfl⟩
  · simp only [CatalogStore.answer, if_true] at h
    cases choice with
    | read =>
      cases h
      refine .unchanged (fun entry he => ?_) fun request entry he => ?_
      · cases he
        rfl
      · cases he
    | fail err =>
      cases h
      refine .unchanged (fun entry he => ?_) fun request entry he => ?_
      · cases he
      · cases he
    | write choice => cases h
  · simp only [CatalogStore.answer, writeRequest, if_true] at h
    cases choice with
    | read | fail => cases h
    | write choice =>
      rcases CatalogStore.update_cases h with ⟨rfl, hok⟩ |
        ⟨hfresh, hrevision, -, hrecord, hversions, happlied, hok⟩
      · refine .unchanged (fun entry' he => ?_) fun request entry' he => ?_
        · cases he
        · cases he
          obtain ⟨heq, hkey⟩ := hok _ rfl
          refine ⟨heq, entry.record, desired, ?_⟩
          rw [← hkey]
          exact hdecide
      · have hcurrent : entry = w.current :=
          CatalogStore.eq_current (hread.mem_versions hhanded hpast) hrevision
        rw [hcurrent] at hread hdecide
        refine .replaced hread hdecide ⟨hfresh, hrecord, ?_, happlied⟩ (fun entry' he => ?_)
          fun request entry' he => ?_
        · rw [CatalogStore.versions, hversions]
        · cases he
        · cases he
          exact hok _ rfl

theorem WriterMove.move {e : Sigma PlaceAnswer} (h : WriterMove key decide handed past w e v)
    : w.Move v := by
  cases h with
  | unchanged => exact .same
  | replaced _ _ hreplaces => exact .replaced hreplaces

theorem grows_of_move (h : w.Move v) :
    Threads.Grows (fun w handed => handed ∈ CatalogStore.versions w)
      (fun w (_ : CatalogEntry) e => WriterKnows key U w e) w v where
  input _ hmem := h.versions hmem
  asked _ _ hknows := ⟨fun entry he => h.versions (hknows.read entry he), hknows.written⟩

/-- The rule for calls of a writer: an invariant of the record that the allowed events keep, and
that a write over a record the writer decided to write over keeps. `U` is known of the answers of
the writes that were absorbed and of those that applied. -/
theorem rewriteSystem_rule {J : CatalogStore → Prop}
    (hevent : ∀ {w e v}, allowed e = true → J w → w.event e = some v → J v)
    (hwrite : ∀ {w v desired idempotencyKey}, J w →
      decide w.current.record = .write desired idempotencyKey →
      w.Replaces v true desired idempotencyKey → J v ∧ U v.current)
    (habsorbed : ∀ {w old desired}, J w →
      decide old = .write desired w.current.record.idempotencyKey → U w.current) :
    (rewriteSystem key decide failed allowed).Rule (WriterAsks key decide) J
      (fun w handed => handed ∈ w.versions) (fun w _ e => WriterKnows key U w e) where
  asks handed :=
    (rewrite_asks 2 0 (.inl rfl)).and (rewrite_writesAtMost handed 0 (Nat.le_refl 2))
  begins _ hbegins := of_decide_eq_true hbegins
  event := by
    intro w e v hJ hstep
    obtain ⟨hallowed, hstep⟩ := Option.ite_none_right_eq_some.mp hstep
    exact ⟨hevent hallowed hJ hstep, grows_of_move (CatalogStore.event_move hstep)⟩
  answer := by
    intro w handed past choice q a v hJ hhanded hpast hasks hanswer
    have hmove := answer_writer hhanded hpast hasks.1 hanswer
    refine ⟨?_, grows_of_move hmove.move, ?_⟩
    · cases hmove with
      | unchanged => exact hJ
      | replaced _ hdecide hreplaces => exact (hwrite hJ hdecide hreplaces).1
    · cases hmove with
      | unchanged hread hold =>
        refine ⟨fun entry he => ?_, fun request entry he => ?_⟩
        · rw [hread entry he]
          exact mem_cons_self
        · obtain ⟨rfl, old, desired, hdecide⟩ := hold request entry he
          exact habsorbed hJ hdecide
      | replaced _ hdecide hreplaces hwritten hok =>
        refine ⟨fun entry he => absurd he (hwritten entry), fun request entry he => ?_⟩
        rw [hok request entry he]
        exact (hwrite hJ hdecide hreplaces).2

variable {t : Threads.Thread PlaceAnswer CatalogEntry (Except ReconcileFault CatalogEntry × Nat)}

/-- An answer to a call leaves the record as it is, or replaces a version the call has read and
decided to write over. -/
theorem rewriteSystem_step {acts : List (Threads.Act CatalogEntry CatalogEvent CatalogChoice)}
    {i : Nat} {choice : CatalogChoice}
    {σ τ : Threads.State CatalogStore PlaceAnswer CatalogEntry (Except ReconcileFault CatalogEntry ×
      Nat)}
    (hrun : Runs.exec (rewriteSystem key decide failed allowed).step { world := w } acts = some σ)
    (hstep : (rewriteSystem key decide failed allowed).step σ (.answer i choice) = some τ)
    (ht : σ.threads[i]? = some t) :
    τ.world = σ.world ∨ ∃ desired idempotencyKey, HasRead key t.input t.asked σ.world.current ∧
      decide σ.world.current.record = .write desired idempotencyKey ∧
      σ.world.Replaces τ.world true desired idempotencyKey := by
  have hrule : (rewriteSystem key decide failed allowed).Rule (WriterAsks key decide)
      (fun _ => True) (fun w handed => handed ∈ w.versions)
      (fun w _ e => WriterKnows key (fun _ => True) w e) :=
    rewriteSystem_rule (fun _ _ _ => trivial) (fun _ _ _ => ⟨trivial, trivial⟩) fun _ _ => trivial
  have hstanding := hrule.exec hrun trivial
  rcases Threads.System.step_cases hstep with ⟨_, _, heq, _⟩ | ⟨_, heq, _⟩ |
    ⟨i', choice', t', q, k, a, v, heq, ht', hrest, hanswer, rfl⟩
  · cases heq
  · cases heq
  · cases heq
    cases ht.symm.trans ht'
    have hknown := hstanding.threads t (mem_of_getElem? ht)
    have hmove := answer_writer hknown.input hknown.asked (hrule.question hknown hrest).1 hanswer
    cases hmove with
    | unchanged => exact .inl rfl
    | replaced hread hdecide hreplaces => exact .inr ⟨_, _, hread, hdecide, hreplaces⟩

/-- A call writes at most twice. -/
theorem updates_le_two (h : Steps (rewrite key decide failed 2 t.input 0) t.asked t.rest) :
    updates t.asked ≤ 2 := by
  have hasks : Asks (WritesAtMost 2) [] (rewrite key decide failed 2 t.input 0) :=
    rewrite_writesAtMost t.input 0 (Nat.le_refl 2)
  refine hasks.history (J := fun past => updates past ≤ 2) ?_ h (Nat.zero_le 2)
  intro past q a hle hq
  rw [updates_append]
  cases hupdate : q.isUpdate with
  | true =>
    have hlt := hq hupdate
    have hone : updates [⟨q, a⟩] = 1 := countP_cons_of_pos hupdate
    omega
  | false =>
    have hnone : updates [⟨q, a⟩] = 0 := by
      rw [updates, countP_singleton, hupdate]
      rfl
    omega

/-- Every write was decided on a version that was read. -/
theorem update_decided (h : Steps (rewrite key decide failed 2 t.input 0) t.asked t.rest)
    {e : Sigma PlaceAnswer} (he : e ∈ t.asked) (hupdate : e.1.isUpdate = true) :
    ∃ entry desired idempotencyKey, HasRead key t.input t.asked entry ∧
      decide entry.record = .write desired idempotencyKey := by
  have hasks : Asks (Rewrites key decide t.input) [] (rewrite key decide failed 2 t.input 0) :=
    rewrite_asks 2 0 (.inl rfl)
  refine hasks.history (J := fun past => ∀ e ∈ past, e.1.isUpdate = true →
    ∃ entry desired idempotencyKey, HasRead key t.input past entry ∧
      decide entry.record = .write desired idempotencyKey) ?_ h (by simp) e he hupdate
  intro past q a hpast hq e he hupdate
  rcases mem_append.mp he with he | he
  · obtain ⟨entry, desired, idempotencyKey, hread, hdecide⟩ := hpast e he hupdate
    exact ⟨entry, desired, idempotencyKey, hread.append _, hdecide⟩
  · rw [mem_singleton] at he
    subst he
    rcases hq with rfl | ⟨entry, desired, idempotencyKey, hread, hdecide, rfl⟩
    · cases hupdate
    · exact ⟨entry, desired, idempotencyKey, hread.append _, hdecide⟩

end Writers

end Factory.Placement
