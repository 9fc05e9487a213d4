import Mathlib.Data.List.Count
import Factory.Admission.Rejections

/-!
# Rejections over whole runs

The invariant of a fleet of sweeps beside its Hosts (`Fleet.Inv`): every sweep is somewhere in its
own program, has listed only versions of records, and has read only clock times that have passed;
and a rejection a sweep was told it made is of a command that is rejected, and told only once. One
step keeps it and moves the inbox as `Inbox.Move` says (`Fleet.Inv.step`).
-/

namespace Factory.Admission

open List Dialogue

/-! ## One answer -/

/-- What was listed are versions of records, and the clock was read before now. -/
structure Seen (s : Inbox) (asked : List (Sigma DispositionAnswer)) : Prop where
  listed : ∀ request page, ⟨.listDueDispositionCommands request, .ok page⟩ ∈ asked →
    ∀ e ∈ page.commands, e ∈ s.versions e.record.descriptor
  clock : ∀ now, ⟨.now, now⟩ ∈ asked → now ≤ s.time

variable {s : Inbox} {choice : Choice} {t : SweepThread}

theorem Seen.move {t : Inbox} {asked : List (Sigma DispositionAnswer)} (h : Seen s asked)
    (hmove : s.Move t) : Seen t asked :=
  ⟨fun request page hmem e he => hmove.mem (h.listed request page hmem e he),
    fun now hmem => (h.clock now hmem).trans hmove.time_le⟩

theorem Seen.snoc {asked : List (Sigma DispositionAnswer)} (h : Seen s asked)
    {e : Sigma DispositionAnswer} (he : Seen s [e]) : Seen s (asked ++ [e]) := by
  constructor
  · intro request page hmem
    exact (mem_append.mp hmem).elim (h.listed request page) (he.listed request page)
  · intro now hmem
    exact (mem_append.mp hmem).elim (h.clock now) (he.clock now)

/-- The rejection of a request was written, and the caller told so or not. -/
def RejectionWritten (s t : Inbox) (q : DispositionAsk) (a : DispositionAnswer q) : Prop :=
  ∃ request entry revision, q = .rejectDispositionCommand request ∧
    s.current request.descriptor = some entry ∧ entry.revision = request.expectedRevision ∧
    entry.revision < revision ∧ t = s.write { entry.record with state := .rejected } revision ∧
    (acceptedRejection ⟨q, a⟩ = none ∨ acceptedRejection ⟨q, a⟩ = some request.descriptor)

theorem Inbox.answer_cases {t : Inbox} {q : DispositionAsk} {a : DispositionAnswer q}
    (h : s.answer choice q = some (a, t)) :
    (t = s ∧ acceptedRejection ⟨q, a⟩ = none ∧ Seen s [⟨q, a⟩]) ∨ RejectionWritten s t q a := by
  cases q with
  | authorizeServiceSweep | controlShards =>
    cases choice <;> cases h
    exact .inl ⟨rfl, rfl, by simp, by simp⟩
  | now =>
    cases choice <;> cases h
    refine .inl ⟨rfl, rfl, by simp, fun now hmem => ?_⟩
    cases mem_singleton.mp hmem
    exact le_refl _
  | listDueDispositionCommands request =>
    cases choice with
    | page answer =>
      obtain ⟨hlists, ⟨⟩⟩ := Option.ite_none_right_eq_some.mp h
      refine .inl ⟨rfl, rfl, fun request page hmem e he => ?_, by simp⟩
      cases mem_singleton.mp hmem
      exact of_decide_eq_true (all_eq_true.mp hlists e he)
    | reply | count | clock | refuse | unchanged | write => cases h
  | acquireReconciliationClaim request =>
    cases choice <;> cases h
    exact .inl ⟨rfl, rfl, by simp, by simp⟩
  | rejectDispositionCommand request =>
    have h : s.reject request choice = some (a, t) := h
    unfold Inbox.reject at h
    cases choice with
    | refuse err =>
      cases h
      exact .inl ⟨rfl, rfl, by simp, by simp⟩
    | unchanged =>
      obtain ⟨-, ⟨⟩⟩ := Option.ite_none_right_eq_some.mp h
      exact .inl ⟨rfl, rfl, by simp, by simp⟩
    | write revision lost =>
      cases hcurrent : s.current request.descriptor with
      | none =>
        rw [hcurrent] at h
        cases h
      | some entry =>
        rw [hcurrent] at h
        obtain ⟨⟨hexpected, hrevision⟩, ⟨⟩⟩ := Option.ite_none_right_eq_some.mp h
        refine .inr ⟨request, entry, revision, rfl, hcurrent, hexpected, hrevision, rfl, ?_⟩
        cases lost with
        | none => exact .inr rfl
        | some err => exact .inl rfl
    | reply | count | clock | page => cases h
  | releaseReconciliationClaim request =>
    cases choice <;> cases h
    exact .inl ⟨rfl, rfl, by simp, by simp⟩

/-! ## The invariant -/

/-- A sweep is somewhere in its own program. -/
structure SweepThread.Ok (t : SweepThread) (s : Inbox) : Prop where
  steps : Steps (DispositionReconciler.sweep t.cfg t.rotor) t.asked t.rest
  seen : Seen s t.asked

/-- The rejections a sweep was told it made. -/
def SweepThread.accepted (t : SweepThread) : List CommandDescriptor :=
  t.asked.filterMap acceptedRejection

/-- The rejections all sweeps were told they made. -/
def Fleet.accepted (σ : Fleet) : List CommandDescriptor := σ.threads.flatMap (·.accepted)

structure Fleet.Inv (σ : Fleet) : Prop where
  inbox : σ.inbox.Ok
  threads : ∀ t ∈ σ.threads, t.Ok σ.inbox
  once : ∀ d, σ.accepted.count d ≤ 1
  told : ∀ d ∈ σ.accepted, ∃ e, σ.inbox.current d = some e ∧ e.record.state = .rejected

theorem Fleet.inv_init (time : Int)
    (commands : CommandDescriptor → Option DispositionInboxEntry) :
    Fleet.Inv { inbox := Inbox.init time commands } where
  inbox := Inbox.init_ok time commands
  threads _ h := absurd h not_mem_nil
  once _ := Nat.zero_le _
  told _ h := absurd h not_mem_nil

variable {σ : Fleet}

theorem Fleet.Inv.move (h : σ.Inv) (hmove : σ.inbox.Move s) :
    Fleet.Inv { σ with inbox := s } where
  inbox := hmove.ok h.inbox
  threads t ht := ⟨(h.threads t ht).steps, (h.threads t ht).seen.move hmove⟩
  once := h.once
  told d hd := by
    obtain ⟨e, he, hrejected⟩ := h.told d hd
    exact ⟨e, hmove.rejected_stays he hrejected, hrejected⟩

theorem SweepThread.Ok.abandoned (h : t.Ok s) (hs : s.Ok)
    {request : RejectDispositionCommandRequest} {k} {entry : DispositionInboxEntry}
    (hrest : t.rest = .ask (.rejectDispositionCommand request) k)
    (hcurrent : s.current request.descriptor = some entry)
    (hrevision : entry.revision = request.expectedRevision) : Abandoned entry.record s.time := by
  have hsteps := h.steps
  rw [hrest] at hsteps
  obtain ⟨now, listed, page, row, hnow, hlisted, hrow, rfl, hsettleable⟩ :=
    (sweep_asks t.cfg t.rotor).of_steps hsteps request rfl
  -- the row the sweep decided on is the record, as it has the record's revision
  have hversion := h.seen.listed listed page hlisted row hrow
  have hsame : entry = row := hs.current_eq hcurrent hversion hrevision
  rw [hsame]
  exact (abandoned_of_settleable hsettleable).mono (h.seen.clock now hnow)

variable {t' : SweepThread}

theorem SweepThread.call_inv {s' : Inbox} (h : t.call s choice = some (t', s')) :
    ∃ q k a, t.rest = .ask q k ∧ s.answer choice q = some (a, s') ∧
      t' = { t with asked := t.asked ++ [⟨q, a⟩], rest := k a } := by
  unfold SweepThread.call at h
  cases hrest : t.rest with
  | ret out =>
    rw [hrest] at h
    cases h
  | ask q k =>
    rw [hrest] at h
    dsimp only at h
    cases hanswer : s.answer choice q with
    | none =>
      rw [hanswer] at h
      cases h
    | some out =>
      rw [hanswer] at h
      cases h
      exact ⟨q, k, out.1, rfl, hanswer, rfl⟩

/-- One more call of a sweep: the inbox is as it was and the sweep was told of no rejection, or
an abandoned command was rejected and the sweep was told so or not. -/
theorem SweepThread.Ok.call {s' : Inbox} (h : t.Ok s) (hs : s.Ok)
    (hcall : t.call s choice = some (t', s')) :
    s.Move s' ∧ t'.Ok s' ∧ (t'.accepted = t.accepted ∨
      ∃ d e e', t'.accepted = t.accepted ++ [d] ∧ s.current d = some e ∧
        e.record.state ≠ .rejected ∧ s'.current d = some e' ∧ e'.record.state = .rejected) := by
  obtain ⟨q, k, a, hrest, hanswer, rfl⟩ := SweepThread.call_inv hcall
  have hsteps := h.steps
  rw [hrest] at hsteps
  have haccepted : SweepThread.accepted { t with asked := t.asked ++ [⟨q, a⟩], rest := k a } =
      t.accepted ++ (acceptedRejection ⟨q, a⟩).toList := by
    simp only [SweepThread.accepted, filterMap_append]
    cases hnew : acceptedRejection ⟨q, a⟩ <;> simp [hnew]
  rcases Inbox.answer_cases hanswer with ⟨rfl, hnone, hseen⟩ |
    ⟨request, entry, revision, rfl, hcurrent, hexpected, hrevision, rfl, hnew⟩
  · refine ⟨.same rfl (le_refl _), ⟨hsteps.snoc a, h.seen.snoc hseen⟩, .inl ?_⟩
    rw [haccepted, hnone, Option.toList_none, append_nil]
  · have habandoned := h.abandoned hs hrest hcurrent hexpected
    have hnamed := Inbox.current_named hs hcurrent
    have hmove : s.Move (s.write { entry.record with state := .rejected } revision) := by
      rw [← hnamed] at hcurrent
      exact .rejected revision hcurrent habandoned hrevision
    have hseen : Seen (s.write { entry.record with state := .rejected } revision)
        [⟨.rejectDispositionCommand request, a⟩] := ⟨by simp, by simp⟩
    refine ⟨hmove, ⟨hsteps.snoc a, (h.seen.move hmove).snoc hseen⟩, ?_⟩
    rw [haccepted]
    rcases hnew with hnew | hnew
    · rw [hnew, Option.toList_none, append_nil]
      exact .inl rfl
    · rw [hnew, Option.toList_some]
      refine .inr ⟨request.descriptor, entry,
        ⟨{ entry.record with state := .rejected }, revision⟩, rfl, hcurrent,
        habandoned.not_rejected, ?_, rfl⟩
      rw [Inbox.write_current, if_pos hnamed.symm]

theorem count_flatMap_set {α β : Type} [DecidableEq β] {f : α → List β} {l : List α} {i : Nat}
    {a a' : α} (ha : l[i]? = some a) {new : List β} (hnew : f a' = f a ++ new) (b : β) :
    ((l.set i a').flatMap f).count b = (l.flatMap f).count b + new.count b := by
  induction l generalizing i with
  | nil => cases ha
  | cons c l ih =>
    cases i with
    | zero =>
      cases ha
      rw [set_cons_zero, flatMap_cons, flatMap_cons, hnew]
      simp only [count_append]
      omega
    | succ i =>
      rw [set_cons_succ, flatMap_cons, flatMap_cons, count_append, count_append, ih ha]
      omega

theorem Fleet.Inv.called (h : σ.Inv) {i : Nat} (ht : σ.threads[i]? = some t)
    (hcall : t.call σ.inbox choice = some (t', s)) :
    σ.inbox.Move s ∧ Fleet.Inv { inbox := s, threads := σ.threads.set i t' } := by
  obtain ⟨hmove, hok, haccepted⟩ := (h.threads t (mem_of_getElem? ht)).call h.inbox hcall
  have hmoved := h.move hmove
  have hthreads : ∀ u ∈ σ.threads.set i t', u.Ok s := by
    intro u hu
    rcases mem_or_eq_of_mem_set hu with hu | rfl
    · exact hmoved.threads u hu
    · exact hok
  refine ⟨hmove, ?_⟩
  have hcount : ∀ new, t'.accepted = t.accepted ++ new → ∀ d,
      (Fleet.accepted { inbox := s, threads := σ.threads.set i t' }).count d =
        σ.accepted.count d + new.count d :=
    fun new hnew d => count_flatMap_set ht hnew d
  rcases haccepted with hsame | ⟨d, e, e', hnew, hcurrent, hbefore, hcurrent', hafter⟩
  · have hcount := hcount [] (by rw [hsame, append_nil])
    refine ⟨hmoved.inbox, hthreads, fun c => ?_, fun c hc => hmoved.told c ?_⟩
    · rw [hcount, count_nil, Nat.add_zero]
      exact h.once c
    · rw [← count_pos_iff, hcount, count_nil, Nat.add_zero, count_pos_iff] at hc
      exact hc
  · -- a command told to be rejected was not yet told to be
    have hfresh : d ∉ σ.accepted := by
      intro hmem
      obtain ⟨c, hc, hrejected⟩ := h.told d hmem
      cases hcurrent.symm.trans hc
      exact hbefore hrejected
    have hcount := hcount [d] hnew
    refine ⟨hmoved.inbox, hthreads, fun c => ?_, fun c hc => ?_⟩
    · rw [hcount]
      by_cases hcd : c = d
      · subst hcd
        rw [count_eq_zero.mpr hfresh, count_singleton_self]
      · rw [count_eq_zero.mpr fun hmem => hcd (mem_singleton.mp hmem), Nat.add_zero]
        exact h.once c
    · by_cases hcd : c = d
      · subst hcd
        exact ⟨e', hcurrent', hafter⟩
      · refine hmoved.told c ?_
        rw [← count_pos_iff, hcount,
          count_eq_zero.mpr fun hmem => hcd (mem_singleton.mp hmem), Nat.add_zero,
          count_pos_iff] at hc
        exact hc

theorem Fleet.Inv.step {τ : Fleet} {act : FleetAct} (h : σ.Inv) (hstep : σ.step act = some τ) :
    σ.inbox.Move τ.inbox ∧ τ.Inv := by
  cases act with
  | tick elapsed =>
    cases hstep
    have hmove : σ.inbox.Move { σ.inbox with time := σ.inbox.time + elapsed } :=
      .same rfl (by dsimp only; omega)
    exact ⟨hmove, h.move hmove⟩
  | accept record revision =>
    obtain ⟨s, hs, rfl⟩ := Option.map_eq_some_iff.mp hstep
    obtain ⟨hnone, ⟨⟩⟩ := Option.ite_none_right_eq_some.mp hs
    have hmove : σ.inbox.Move (σ.inbox.write record revision) :=
      .admitted record revision (by rw [Inbox.current, hnone, head?_nil])
    exact ⟨hmove, h.move hmove⟩
  | host d t revision =>
    obtain ⟨s, hs, rfl⟩ := Option.map_eq_some_iff.mp hstep
    unfold Inbox.host at hs
    cases hcurrent : σ.inbox.current d with
    | none =>
      rw [hcurrent] at hs
      cases hs
    | some entry =>
      rw [hcurrent] at hs
      obtain ⟨⟨hopen, hrevision⟩, ⟨⟩⟩ := Option.ite_none_right_eq_some.mp hs
      rw [← Inbox.current_named h.inbox hcurrent] at hcurrent
      have hmove := Inbox.Move.hosted t revision hcurrent hopen hrevision
      exact ⟨hmove, h.move hmove⟩
  | start cfg rotor =>
    cases hstep
    have haccepted : Fleet.accepted { σ with
        threads := σ.threads ++
          [{ cfg := cfg, rotor := rotor, rest := DispositionReconciler.sweep cfg rotor }] } =
        σ.accepted := by
      simp [Fleet.accepted, SweepThread.accepted]
    refine ⟨.same rfl (le_refl _), h.inbox, fun t ht => ?_, ?_, ?_⟩
    · rcases mem_append.mp ht with ht | ht
      · exact h.threads t ht
      · rw [mem_singleton] at ht
        subst ht
        exact ⟨.refl _, by simp, by simp⟩
    · rw [haccepted]
      exact h.once
    · rw [haccepted]
      exact h.told
  | call i choice =>
    unfold Fleet.step at hstep
    dsimp only at hstep
    cases ht : σ.threads[i]? with
    | none =>
      rw [ht] at hstep
      cases hstep
    | some t =>
      rw [ht] at hstep
      obtain ⟨out, hcall, rfl⟩ := Option.map_eq_some_iff.mp hstep
      exact h.called ht hcall

theorem Fleet.inv_of_run {time : Int} {commands : CommandDescriptor → Option DispositionInboxEntry}
    {acts : List FleetAct}
    (hrun : Runs.exec Fleet.step { inbox := Inbox.init time commands } acts = some σ) : σ.Inv :=
  Runs.exec_invariant (fun _ _ _ hstep h => (Fleet.Inv.step h hstep).2) hrun
    (Fleet.inv_init time commands)

/-! ## What is counted -/

theorem SweepThread.Ok.pass (h : t.Ok s) {pass : SweepPass SweepResult}
    (hpass : t.pass = some pass) :
    DispositionAccounted t.asked pass := by
  unfold SweepThread.pass at hpass
  have hsteps := h.steps
  rcases hrest : t.rest with ⟨rotor, out⟩ | ⟨q, k⟩
  · rw [hrest] at hpass hsteps
    cases out with
    | error e => cases hpass
    | ok made =>
      cases hpass
      exact dispositions_accounted hsteps
  · rw [hrest] at hpass
    cases hpass

theorem SweepResult.Tallied.rejected_eq {r : SweepResult} (h : r.Tallied) :
    r.rejected = r.rejections.length := by
  rw [h.rejected, h.dispositions, SweepResult.rejections, length_map, countP_eq_length_filter]

theorem count_rejections_le {threads : List SweepThread} (h : ∀ t ∈ threads, t.Ok s)
    (d : CommandDescriptor) :
    ((threads.filterMap (·.pass)).flatMap (·.result.rejections)).count d ≤
      (threads.flatMap (·.accepted)).count d := by
  induction threads with
  | nil => exact le_refl _
  | cons t threads ih =>
    have ih := ih (forall_mem_cons.mp h).2
    rw [flatMap_cons, count_append]
    cases hpass : t.pass with
    | none =>
      rw [filterMap_cons_none hpass]
      exact ih.trans (Nat.le_add_left _ _)
    | some pass =>
      have hcounted := ((h t mem_cons_self).pass hpass).rejections
      rw [filterMap_cons_some hpass, flatMap_cons, count_append, hcounted]
      exact Nat.add_le_add_left ih _

/-- Whatever the interleaving of sweeps, Hosts and time: a step that moves a command to rejected
finds it abandoned, a rejected command stays as it is, and all passes together count a command as
rejected at most once. -/
theorem sweep_rejects_only_abandoned (time : Int)
    (commands : CommandDescriptor → Option DispositionInboxEntry) (acts : List FleetAct)
    (σ : Fleet)
    (hrun : Runs.exec Fleet.step { inbox := Inbox.init time commands } acts = some σ) :
    (∀ act τ d e e', σ.step act = some τ → σ.inbox.current d = some e →
      τ.inbox.current d = some e' → e.record.state ≠ .rejected → e'.record.state = .rejected →
        Abandoned e.record τ.inbox.time) ∧
    (∀ act τ d e, σ.step act = some τ → σ.inbox.current d = some e →
      e.record.state = .rejected → τ.inbox.current d = some e) ∧
    (∀ pass ∈ σ.passes, pass.result.rejected = pass.result.rejections.length) ∧
    ∀ d, (σ.passes.flatMap (·.result.rejections)).count d ≤ 1 := by
  have hinv := Fleet.inv_of_run hrun
  refine ⟨?_, ?_, ?_, ?_⟩
  · intro act τ d e e' hstep he he' hbefore hafter
    exact (hinv.step hstep).1.abandoned he he' hbefore hafter
  · intro act τ d e hstep he hrejected
    exact (hinv.step hstep).1.rejected_stays he hrejected
  · intro pass hpass
    obtain ⟨t, ht, hreturned⟩ := mem_filterMap.mp hpass
    exact ((hinv.threads t ht).pass hreturned).tallied.rejected_eq
  · intro d
    exact (count_rejections_le hinv.threads d).trans (hinv.once d)

/-! ## Two replicas and one expired command -/

/-- A replica that reads one page a pass. -/
def onePageReplica (holder : String) (h : holder ≠ "") : DispositionReconcilerConfig :=
  { holderID := holder, claimTTL := 1, pageLimit := 1, maxPages := 1, minControlShards := 1
    holderID_ne := h, claimTTL_pos := Int.zero_lt_one, pageLimit_pos := Nat.one_pos
    maxPages_pos := Nat.one_pos, minControlShards_pos := Nat.one_pos }

def expiredCommand : DispositionInboxEntry :=
  ⟨⟨⟨"t", "s", "expired"⟩, .claimed, some ⟨"host", 20⟩, none, 10⟩, 1⟩

/-- A sweep up to its first rejection: authorized, one shard, the clock, the page, the claim. -/
def upToRejection (thread : Nat) : List FleetAct :=
  [.call thread (.reply none), .call thread (.count 1), .call thread .clock,
    .call thread (.page (.ok { commands := [expiredCommand] })), .call thread (.reply none)]

/-- Both replicas have listed the command, whose claim and deadline have passed. -/
def bothListed : List FleetAct :=
  [.start (onePageReplica "a" (by decide)) {}, .start (onePageReplica "b" (by decide)) {}] ++
    upToRejection 0 ++ upToRejection 1

/-- One replica's rejection is written, the other's is refused, and both return. -/
def oneRejects : List FleetAct :=
  [.call 0 (.write 2 none), .call 1 (.refuse { inbox := some .conflict }), .call 0 (.reply none),
    .call 1 (.reply none)]

def onlyExpired (d : CommandDescriptor) : Option DispositionInboxEntry :=
  if d = expiredCommand.record.descriptor then some expiredCommand else none

theorem sweep_rejects_only_abandoned_bothListed :
    ∃ σ τ υ, Runs.exec Fleet.step { inbox := Inbox.init 100 onlyExpired } bothListed = some σ ∧
      σ.step (.call 0 (.write 2 none)) = some τ ∧ Abandoned expiredCommand.record τ.inbox.time ∧
      Runs.exec Fleet.step { inbox := Inbox.init 100 onlyExpired } (bothListed ++ oneRejects) =
        some υ ∧
      υ.passes.map (·.result.rejected) = [1, 0] ∧
      ∀ d, (υ.passes.flatMap (·.result.rejections)).count d ≤ 1 := by
  obtain ⟨σ, hσ, hlisted⟩ := Option.map_eq_some_iff.mp
    (show (Runs.exec Fleet.step { inbox := Inbox.init 100 onlyExpired } bothListed).map
        (fun σ => (σ.inbox.current expiredCommand.record.descriptor,
          (σ.step (.call 0 (.write 2 none))).map fun τ =>
            τ.inbox.current expiredCommand.record.descriptor)) =
      some (some expiredCommand,
        some (some ⟨{ expiredCommand.record with state := .rejected }, 2⟩)) by decide +kernel)
  obtain ⟨υ, hυ, hcounted⟩ := Option.map_eq_some_iff.mp
    (show (Runs.exec Fleet.step { inbox := Inbox.init 100 onlyExpired }
        (bothListed ++ oneRejects)).map (fun υ => υ.passes.map (·.result.rejected)) =
      some [1, 0] by decide +kernel)
  obtain ⟨hbefore, hwrite⟩ := Prod.mk.inj hlisted
  obtain ⟨τ, hτ, hafter⟩ := Option.map_eq_some_iff.mp hwrite
  have habandoned := (sweep_rejects_only_abandoned 100 onlyExpired bothListed σ hσ).1 _ τ _ _ _
    hτ hbefore hafter (by decide) rfl
  exact ⟨σ, τ, υ, hσ, hτ, habandoned, hυ, hcounted,
    (sweep_rejects_only_abandoned 100 onlyExpired _ υ hυ).2.2.2⟩

end Factory.Admission
