import Factory.Compose.ServerInvariant

/-!
# The Server as a system of calls

Every answer keeps what `ServerInvariant` says and the account of the sections (`answered`), so
both hold in every state that any calls, started in any order and answered in any order, can reach
(`server_standing`).
-/

namespace Factory.Compose

open List Dialogue Threads

/-! ## What the account tells the call -/

/-- What the account of the sections tells a call that has asked `past`. -/
structure Agrees (w : ServerWorld) (past : List (Sigma ServerAsk.Answer)) : Prop where
  lifecycle : ∀ held, Section.lifecycle.phase past = some held → w.lifecycle = some held
  unlocked : w.lifecycle = none → Section.lifecycle.phase past = none
  finishing : ∀ held, Section.finishing.phase past = some held → w.Finishing
  unfinishing : ¬w.Finishing → Section.finishing.phase past = none
  admitting : ∀ held, Section.admitting.phase past = some held → w.active ≠ 0

theorem eq_of_toList_perm {o p : Option Held} {others : List Held}
    (h : o.toList.Perm (p.toList ++ others)) (hp : p ≠ none) : o = p := by
  cases p with
  | none => exact absurd rfl hp
  | some held =>
    cases o with
    | none => exact absurd h.symm.eq_nil (cons_ne_nil _ _)
    | some held' =>
      have hsingle := singleton_perm.mp h
      rw [(cons_eq_cons.mp hsingle).1]

theorem eq_none_of_nil_perm {p : Option Held} {others : List Held}
    (h : List.Perm [] (p.toList ++ others)) : p = none := by
  cases p with
  | none => rfl
  | some held => exact absurd h.symm.eq_nil (cons_ne_nil _ _)

variable {w : ServerWorld} {past : List (Sigma ServerAsk.Answer)} {choice : ServerChoice}

/-- A call whose phases are on the rosters agrees with the account. -/
theorem agrees_of_rosters
    (h : ∀ s : Section, ∃ others, (s.roster w).Perm ((s.phase past).toList ++ others)) :
    Agrees w past where
  lifecycle held hheld := by
    obtain ⟨others, hperm⟩ := h .lifecycle
    rw [hheld] at hperm
    exact eq_of_toList_perm hperm (Option.some_ne_none _)
  unlocked hfree := by
    obtain ⟨others, hperm⟩ := h .lifecycle
    rw [Section.roster, hfree] at hperm
    exact eq_none_of_nil_perm hperm
  finishing held hheld := by
    obtain ⟨others, hperm⟩ := h .finishing
    by_contra hnot
    unfold ServerWorld.Finishing at hnot
    rw [Section.roster, if_neg hnot] at hperm
    rw [eq_none_of_nil_perm hperm] at hheld
    cases hheld
  unfinishing hnot := by
    obtain ⟨others, hperm⟩ := h .finishing
    unfold ServerWorld.Finishing at hnot
    rw [Section.roster, if_neg hnot] at hperm
    exact eq_none_of_nil_perm hperm
  admitting held hheld := by
    obtain ⟨others, hperm⟩ := h .admitting
    intro hzero
    rw [Section.roster, hzero] at hperm
    rw [eq_none_of_nil_perm hperm] at hheld
    cases hheld

theorem Agrees.phase_eq (h : Agrees w past) {held : Held}
    (hphase : Section.lifecycle.phase past = some held) :
    Section.lifecycle.phase past = w.lifecycle :=
  hphase.trans (h.lifecycle held hphase).symm

/-! ## What an answer does to the account -/

section

variable {v : ServerWorld} {e : Sigma ServerAsk.Answer}

/-- The account of a section over one answer. -/
def Accounted (w v : ServerWorld) (past : List (Sigma ServerAsk.Answer))
    (e : Sigma ServerAsk.Answer) (s : Section) : Prop :=
  Moves (s.phase past) (s.phase (past ++ [e])) (s.roster w) (s.roster v)

theorem accounted_still {s : Section} (hnext : s.next (s.phase past) e = s.phase past)
    (hroster : s.roster v = s.roster w) : Accounted w v past e s := by
  unfold Accounted
  rw [phase_snoc, hnext, hroster]
  exact fun _ h => h

theorem accounted_lifecycle (hbefore : Section.lifecycle.phase past = w.lifecycle)
    (hafter : Section.lifecycle.next w.lifecycle e = v.lifecycle) :
    Accounted w v past e .lifecycle := by
  intro others hperm
  rw [hbefore] at hperm
  rw [phase_snoc, hbefore, hafter]
  -- Nobody else is on the roster of a lock.
  have hlength := hperm.length_eq
  rw [length_append] at hlength
  have hnil : others = [] := by
    apply eq_nil_of_length_eq_zero
    simp only [Section.roster] at hlength
    omega
  rw [hnil, append_nil]
  exact List.Perm.refl _

theorem accounted_begun (hphase : Section.admitting.phase past = none) :
    Accounted w w.beginAdmission.2 past ⟨.beginAdmission, w.beginAdmission.1⟩ .admitting := by
  intro others hperm
  rw [phase_snoc]
  rw [hphase] at hperm ⊢
  unfold ServerWorld.beginAdmission
  split
  · exact hperm
  · exact hperm.cons _

theorem endAdmission_active : w.endAdmission.active = w.active - 1 := by
  unfold ServerWorld.endAdmission
  split
  · rfl
  · rfl

theorem accounted_ended (hphase : Section.admitting.phase past = some .entered) :
    Accounted w w.endAdmission past ⟨.endAdmission, ()⟩ .admitting := by
  intro others hperm
  rw [phase_snoc]
  rw [hphase] at hperm ⊢
  rw [Section.roster, endAdmission_active]
  change (List.replicate w.active Held.entered).Perm (.entered :: others) at hperm
  cases hactive : w.active with
  | zero =>
    rw [hactive] at hperm
    exact absurd hperm.symm.eq_nil (cons_ne_nil _ _)
  | succ n =>
    rw [hactive, replicate_succ] at hperm
    exact hperm.cons_inv

/-- What holds after an answer. -/
structure Answered (w v : ServerWorld) (past : List (Sigma ServerAsk.Answer))
    (e : Sigma ServerAsk.Answer) : Prop where
  keeps : w.Keeps v
  known : v.Known e
  account : ∀ s, Accounted w v past e s

theorem answered_still (hkeeps : w.Keeps v) (hknown : v.Known e)
    (hnext : ∀ (s : Section) h, s.next h e = h) (hroster : ∀ s : Section, s.roster v = s.roster w) :
    Answered w v past e :=
  ⟨hkeeps, hknown, fun s => accounted_still (hnext s _) (hroster s)⟩

theorem answered_lifecycle (hkeeps : w.Keeps v) (hknown : v.Known e)
    (hbefore : Section.lifecycle.phase past = w.lifecycle)
    (hafter : Section.lifecycle.next w.lifecycle e = v.lifecycle)
    (hfinishing : Accounted w v past e .finishing) (hadmitting : Accounted w v past e .admitting) :
    Answered w v past e := by
  refine ⟨hkeeps, hknown, fun s => ?_⟩
  cases s with
  | lifecycle => exact accounted_lifecycle hbefore hafter
  | finishing => exact hfinishing
  | admitting => exact hadmitting

end

/-! ## Every answer -/

section

variable {v : ServerWorld}

section

variable (hw : w.Sound)
include hw

theorem answered_same {q : ServerAsk} {a : q.Answer} (hknown : w.Known ⟨q, a⟩)
    (hnext : ∀ (s : Section) h, s.next h ⟨q, a⟩ = h) : Answered w w past ⟨q, a⟩ :=
  answered_still hw.keeps_self hknown hnext fun _ => rfl

theorem lock_answered (hagrees : Agrees w past) (hfree : w.lifecycle = none) :
    Answered w { w with lifecycle := some .entered } past ⟨.lockLifecycle, ()⟩ := by
  refine answered_lifecycle (hw.lock hfree) trivial ?_ rfl ?_ ?_
  · rw [hfree]
    exact hagrees.unlocked hfree
  · exact accounted_still rfl rfl
  · exact accounted_still rfl rfl

theorem unlock_answered (hagrees : Agrees w past) (hallowed : Allowed past .unlockLifecycle) :
    Answered w { w with lifecycle := none } past ⟨.unlockLifecycle, ()⟩ := by
  have hheld : w.lifecycle = some .entered ∨ w.lifecycle = some .stopping :=
    hallowed.imp (hagrees.lifecycle _) (hagrees.lifecycle _)
  refine answered_lifecycle (hw.unlock hheld) trivial ?_ rfl ?_ ?_
  · exact hallowed.elim hagrees.phase_eq hagrees.phase_eq
  · exact accounted_still rfl rfl
  · exact accounted_still rfl rfl

theorem claimStart_answered (hagrees : Agrees w past)
    (hphase : Section.lifecycle.phase past = some .entered) :
    Answered w w.claimStart.2 past ⟨.claimStart, w.claimStart.1⟩ := by
  have hheld := hagrees.lifecycle _ hphase
  obtain ⟨hkeeps, hknown⟩ := hw.claimStart hheld
  refine answered_lifecycle hkeeps hknown (hagrees.phase_eq hphase) ?_
    (accounted_still rfl ?_) (accounted_still rfl ?_)
  all_goals
    unfold ServerWorld.claimStart
    split_ifs
  all_goals rfl

theorem returnStart_answered (hpast : ∀ e ∈ past, w.Known e) (hagrees : Agrees w past)
    {errs : List ServerError} (hallowed : Allowed past (.returnStart errs)) :
    Answered w { w with lifecycle := none, startReturned := w.startReturned || errs.isEmpty } past
      ⟨.returnStart errs, ()⟩ := by
  have hnil : errs = [] → w.lifecycle = some .launched := by
    rintro rfl
    exact hagrees.lifecycle _ hallowed
  have herrs : errs ≠ [] → w.lifecycle = some .entered ∨
      w.lifecycle = some .starting ∧ w.startFailed = true := by
    intro herrs
    obtain ⟨err, rest, rfl⟩ := exists_cons_of_ne_nil herrs
    rcases hallowed with hphase | ⟨hphase, err', rest', hmem⟩
    · exact .inl (hagrees.lifecycle _ hphase)
    · exact .inr ⟨hagrees.lifecycle _ hphase, hpast _ hmem (cons_ne_nil _ _)⟩
  have hbefore : Section.lifecycle.phase past = w.lifecycle := by
    cases errs with
    | nil => exact hagrees.phase_eq hallowed
    | cons err rest =>
      rcases hallowed with hphase | ⟨hphase, -⟩
      · exact hagrees.phase_eq hphase
      · exact hagrees.phase_eq hphase
  obtain ⟨hkeeps, hknown⟩ := hw.returnStart hnil herrs
  exact answered_lifecycle hkeeps hknown hbefore rfl (accounted_still rfl rfl)
    (accounted_still rfl rfl)

theorem claimServe_answered : Answered w w.claimServe.2 past ⟨.claimServe, w.claimServe.1⟩ := by
  refine answered_still hw.claimServe trivial (fun s _ => by cases s <;> rfl) fun s => ?_
  unfold ServerWorld.claimServe
  split_ifs
  all_goals rfl

theorem claimQuiesce_answered : Answered w w.claimQuiesce past ⟨.claimQuiesce, ()⟩ := by
  refine answered_still hw.claimQuiesce trivial (fun s _ => by cases s <;> rfl) fun s => ?_
  unfold ServerWorld.claimQuiesce
  split
  · rfl
  next hquiescing =>
  cases s with
  | lifecycle | admitting => rfl
  | finishing =>
    simp only [Section.roster, hw.unborn (Bool.eq_false_iff.mpr hquiescing)]
    rfl

theorem beginFinish_answered (hagrees : Agrees w past) (hfinisher : w.finisher = .launched) :
    Answered w { w with finisher := .fencing } past ⟨.beginFinish, ()⟩ := by
  refine ⟨hw.beginFinish hfinisher, trivial, fun s => ?_⟩
  cases s with
  | lifecycle | admitting => exact accounted_still rfl rfl
  | finishing =>
    intro others hperm
    have hnot : ¬w.Finishing := by
      rintro (hf | hf)
      · cases hfinisher.symm.trans hf
      · cases hfinisher.symm.trans hf
    rw [phase_snoc]
    rw [hagrees.unfinishing hnot] at hperm ⊢
    simp only [Section.roster, hfinisher] at hperm
    exact hperm.cons Held.entered

theorem fence_answered : Answered w w.fence past ⟨.fence, ()⟩ := by
  obtain ⟨hkeeps, hgate⟩ := hw.fence
  refine answered_still hkeeps hgate (fun s _ => by cases s <;> rfl) fun s => ?_
  unfold ServerWorld.fence
  split_ifs
  all_goals rfl

theorem unlockFinish_answered (hpast : ∀ e ∈ past, w.Known e) (hagrees : Agrees w past)
    (hallowed : Allowed past .unlockFinish) :
    Answered w { w with lifecycle := none, finisher := .draining } past ⟨.unlockFinish, ()⟩ := by
  obtain ⟨hphase, hfinishing, hfence⟩ := hallowed
  have hheld := hagrees.lifecycle _ hphase
  have hrun := hagrees.finishing _ hfinishing
  refine answered_lifecycle (hw.unlockFinish hheld hrun (hpast _ hfence)) (.inl rfl)
    (hagrees.phase_eq hphase) rfl (accounted_still rfl ?_) (accounted_still rfl rfl)
  unfold ServerWorld.Finishing at hrun
  rw [Section.roster, Section.roster, if_pos hrun]
  rfl

theorem closeQuiesce_answered (hpast : ∀ e ∈ past, w.Known e) (hagrees : Agrees w past)
    {errs : List ServerError} (hallowed : Allowed past (.closeQuiesce errs)) :
    Answered w { w with quiesceErr := errs, quiesceDone := .closed, finisher := .finished } past
      ⟨.closeQuiesce errs, ()⟩ := by
  obtain ⟨hfinishing, hunlocked, hover⟩ := hallowed
  have hrun := hagrees.finishing _ hfinishing
  have hfenced : w.Fenced := hpast _ hunlocked
  have hfacts : w.Unreachable ∧ w.drained = .closed := by
    rcases hover with ⟨⟨claim, hclaim⟩, hdrained⟩ | hcontext
    · exact ⟨(hpast _ hclaim).2, (hpast _ hdrained).1 rfl⟩
    · cases (hpast _ hcontext).2 rfl
  refine ⟨hw.closeQuiesce errs hrun hfenced hfacts.1 hfacts.2, trivial, fun s => ?_⟩
  cases s with
  | lifecycle | admitting => exact accounted_still rfl rfl
  | finishing =>
    intro others hperm
    unfold ServerWorld.Finishing at hrun
    rw [phase_snoc]
    rw [hfinishing, Section.roster, if_pos hrun] at hperm
    exact hperm.cons_inv

theorem claimRealtime_answered (hpast : ∀ e ∈ past, w.Known e) (hallowed : KnowsFence past) :
    Answered w w.claimRealtime.2 past ⟨.claimRealtime, w.claimRealtime.1⟩ := by
  have hfenced : w.Fenced := by
    rcases hallowed with h | h | h
    · exact hpast _ h
    · exact hw.fenced_of_quiesced (hpast _ h rfl)
    · exact hw.fenced_of_quiesced (hpast _ h rfl)
  obtain ⟨hkeeps, hnode⟩ := hw.claimRealtime
  refine answered_still hkeeps ⟨hkeeps.later.fenced hfenced, hnode⟩
    (fun s _ => by cases s <;> rfl) fun s => ?_
  unfold ServerWorld.claimRealtime
  split_ifs
  all_goals rfl

theorem claimStop_answered (hagrees : Agrees w past)
    (hphase : Section.lifecycle.phase past = some .entered) :
    Answered w w.claimStop.2 past ⟨.claimStop, w.claimStop.1⟩ := by
  have hheld := hagrees.lifecycle _ hphase
  obtain ⟨hkeeps, hknown⟩ := hw.claimStop hheld
  refine answered_lifecycle hkeeps hknown (hagrees.phase_eq hphase) ?_
    (accounted_still rfl ?_) (accounted_still rfl ?_)
  all_goals
    unfold ServerWorld.claimStop
    split_ifs
  all_goals rfl

theorem beginAdmission_answered (hphase : Section.admitting.phase past = none) :
    Answered w w.beginAdmission.2 past ⟨.beginAdmission, w.beginAdmission.1⟩ := by
  refine ⟨hw.beginAdmission, trivial, fun s => ?_⟩
  cases s with
  | admitting => exact accounted_begun hphase
  | _ =>
    refine accounted_still rfl ?_
    unfold ServerWorld.beginAdmission
    split_ifs <;> rfl

theorem endAdmission_answered (hagrees : Agrees w past)
    (hphase : Section.admitting.phase past = some .entered) :
    Answered w w.endAdmission past ⟨.endAdmission, ()⟩ := by
  refine ⟨hw.endAdmission (hagrees.admitting _ hphase), trivial, fun s => ?_⟩
  cases s with
  | admitting => exact accounted_ended hphase
  | _ =>
    refine accounted_still rfl ?_
    unfold ServerWorld.endAdmission
    split_ifs <;> rfl

end

theorem wait_done {signal : Signal} (h : signal.wait choice = some .done) : signal = .closed := by
  unfold Signal.wait at h
  split at h
  · cases h
  split at h
  · next hclosed => exact hclosed
  · cases h

theorem wait_contextDone {signal : Signal} (h : signal.wait choice = some .contextDone) :
    choice.contextDone = true := by
  unfold Signal.wait at h
  split at h
  · next hcontext => exact hcontext
  split at h
  · cases h
  · cases h

theorem answered_pair {q : ServerAsk} {a : q.Answer} {r : q.Answer × ServerWorld}
    (h : some r = some (a, v)) (hr : Answered w r.2 past ⟨q, r.1⟩) : Answered w v past ⟨q, a⟩ := by
  cases h
  exact hr

/-- Every answer keeps the invariant and the account of the sections. -/
theorem answered (hw : w.Sound) (hpast : ∀ e ∈ past, w.Known e) (hagrees : Agrees w past)
    {q : ServerAsk} {a : q.Answer} (hallowed : Allowed past q)
    (h : w.answer choice q = some (a, v)) : Answered w v past ⟨q, a⟩ := by
  cases q with
  | lockLifecycle =>
    obtain ⟨hfree, ⟨⟩⟩ := Option.ite_none_right_eq_some.mp h
    exact lock_answered hw hagrees hfree
  | unlockLifecycle =>
    cases h
    exact unlock_answered hw hagrees hallowed
  | claimStart => exact answered_pair h (claimStart_answered hw hagrees hallowed)
  | newHandler =>
    cases h
    refine answered_still (hw.newHandler _) (fun herrs => ?_) (fun s _ => by cases s <;> rfl)
      fun s => by cases s <;> rfl
    rw [isEmpty_eq_false_iff.mpr herrs]
    exact Bool.or_true _
  | publishRealtime =>
    cases h
    exact answered_still (hw.publishRealtime (hagrees.lifecycle _ hallowed)) (.inl rfl)
      (fun s _ => by cases s <;> rfl) fun s => by cases s <;> rfl
  | publishLoop =>
    cases h
    exact answered_still hw.publishLoop (.inl rfl)
      (fun s _ => by cases s <;> rfl) fun s => by cases s <;> rfl
  | launch =>
    cases h
    exact answered_still (hw.launch (hagrees.lifecycle _ hallowed.1) (hpast _ hallowed.2)) trivial
      (fun s _ => by cases s <;> rfl) fun s => by cases s <;> rfl
  | launchProbe =>
    cases h
    exact answered_still ⟨{ hw with }, { ServerWorld.Later.refl w with }⟩ trivial
      (fun s _ => by cases s <;> rfl) fun s => by cases s <;> rfl
  | launchWaiter =>
    cases h
    have hheld := hagrees.lifecycle _ hallowed.1
    exact answered_lifecycle (hw.launchWaiter hheld (hpast _ hallowed.2)) trivial
      (hallowed.1.trans hheld.symm) rfl (accounted_still rfl rfl) (accounted_still rfl rfl)
  | returnStart errs =>
    cases h
    exact returnStart_answered hw hpast hagrees hallowed
  | claimServe => exact answered_pair h (claimServe_answered hw)
  | claimQuiesce =>
    cases h
    exact claimQuiesce_answered hw
  | pollQuiesce =>
    cases h
    exact answered_same hw of_decide_eq_true fun s _ => by cases s <;> rfl
  | awaitQuiesce =>
    obtain ⟨woken, hwoken, ⟨⟩⟩ := Option.map_eq_some_iff.mp h
    refine answered_same hw (fun hdone => ?_) fun s _ => by cases s <;> rfl
    exact wait_done (hwoken.trans (congrArg some hdone))
  | beginFinish =>
    obtain ⟨hfinisher, ⟨⟩⟩ := Option.ite_none_right_eq_some.mp h
    exact beginFinish_answered hw hagrees hfinisher
  | fence =>
    cases h
    exact fence_answered hw
  | unlockFinish =>
    cases h
    exact unlockFinish_answered hw hpast hagrees hallowed
  | awaitDrained bounded =>
    obtain ⟨woken, hwoken, ⟨⟩⟩ := Option.map_eq_some_iff.mp h
    refine answered_same hw ⟨fun hdone => ?_, fun hcontext => ?_⟩ fun s _ => by cases s <;> rfl
    · exact wait_done (hwoken.trans (congrArg some hdone))
    · have := wait_contextDone (hwoken.trans (congrArg some hcontext))
      exact (Bool.and_eq_true_iff.mp this).1
  | closeQuiesce errs =>
    cases h
    exact closeQuiesce_answered hw hpast hagrees hallowed
  | claimRealtime => exact answered_pair h (claimRealtime_answered hw hpast hallowed)
  | awaitRealtime =>
    obtain ⟨woken, hwoken, ⟨⟩⟩ := Option.map_eq_some_iff.mp h
    exact answered_same hw trivial fun s _ => by cases s <;> rfl
  | closeRealtime errs =>
    cases h
    exact answered_still (hw.hideNode nofun rfl) trivial (fun s _ => by cases s <;> rfl)
      fun s => by cases s <;> rfl
  | claimStop => exact answered_pair h (claimStop_answered hw hagrees hallowed)
  | cancelLoop =>
    cases h
    exact answered_still ⟨{ hw with }, { ServerWorld.Later.refl w with }⟩ trivial
      (fun s _ => by cases s <;> rfl) fun s => by cases s <;> rfl
  | awaitSweeps =>
    obtain ⟨woken, hwoken, ⟨⟩⟩ := Option.map_eq_some_iff.mp h
    refine answered_same hw ⟨hw.stopping (hagrees.lifecycle _ hallowed), fun hdone => ?_⟩
      fun s _ => by cases s <;> rfl
    exact hw.closed (wait_done (hwoken.trans (congrArg some hdone)))
  | beginAdmission => exact answered_pair h (beginAdmission_answered hw hallowed)
  | endAdmission =>
    cases h
    exact endAdmission_answered hw hagrees hallowed
  | _ =>
    -- What is left reads the world, or calls out of the package.
    cases h
    exact answered_same hw trivial fun s _ => by cases s <;> rfl

end

/-! ## Every state -/

theorem event_roster {v : ServerWorld} {e : ServerEvent} (h : w.event e = some v) (s : Section) :
    s.roster v = s.roster w := by
  cases e <;> obtain ⟨_, ⟨⟩⟩ := Option.ite_none_right_eq_some.mp h <;> cases s <;> rfl

/-- What all calls of a Server keep, however they interleave. -/
theorem serverSystem_rule (cfg : ServerConfig) :
    (serverSystem cfg).SectionRule serverSections (fun _ => Allowed) ServerWorld.Sound
      (fun _ _ => True) (fun w _ => w.Known) where
  asks call := program_asks cfg call
  begins _ _ := trivial
  event hw hv := by
    have hkeeps := hw.event hv
    exact ⟨hkeeps.sound, ⟨fun _ => id, fun _ _ hknown => hknown.later hkeeps.later⟩,
      event_roster hv⟩
  answer hw _ hpast hallowed hrosters hv := by
    have hanswered := answered hw hpast (agrees_of_rosters hrosters) hallowed hv
    exact ⟨hanswered.keeps.sound,
      ⟨fun _ => id, fun _ _ hknown => hknown.later hanswered.keeps.later⟩,
      hanswered.known, hanswered.account⟩

/-- What is known of every call in a state. -/
abbrev ServerStanding (cfg : ServerConfig) (σ : ServerRun) : Prop :=
  σ.Standing (serverSystem cfg) ServerWorld.Sound (fun _ _ => True) fun w _ => w.Known

/-- What is known of the Server and of every call in every run. -/
theorem server_standing {cfg : ServerConfig} {acts : List ServerAct} {σ : ServerRun}
    (hrun : Runs.exec (serverSystem cfg).step { world := {} } acts = some σ) :
    ServerStanding cfg σ ∧ σ.Counted serverSections := by
  refine (serverSystem_rule cfg).exec hrun ServerWorld.sound_init fun s => ?_
  cases s <;> rfl

end Factory.Compose
