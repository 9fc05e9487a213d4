import Factory.Compose.Server
import Factory.Lib.Sections

/-!
# The sections of the Server's calls

Three sections decide what a call may find: `lifecycle`, which one call holds at a time; the one
run of `finishQuiesce`; and the admissions between `beginAdmission` and its end, which `active`
counts. `Allowed` is what every program of the Server keeps to when it asks: the part of its
section it is in, and what it has been told before.
-/

namespace Factory.Compose

open List Dialogue

inductive Section where
  | lifecycle
  | finishing
  | admitting
deriving DecidableEq

/-- What one answer does to the phase of the call it is given to. -/
def Section.next (s : Section) (h : Option Held) (e : Sigma ServerAsk.Answer) : Option Held :=
  match s, e with
  | .lifecycle, ⟨.lockLifecycle, _⟩ => some .entered
  | .lifecycle, ⟨.claimStart, claim⟩ =>
    match (claim : Option ServerError) with
    | none => some .starting
    | some _ => h
  | .lifecycle, ⟨.launchWaiter, _⟩ => some .launched
  | .lifecycle, ⟨.claimStop, claim⟩ =>
    match (claim : StopClaim) with
    | .already => h
    | .fresh _ _ => some .stopping
  | .lifecycle, ⟨.returnStart _, _⟩ => none
  | .lifecycle, ⟨.unlockFinish, _⟩ => none
  | .lifecycle, ⟨.unlockLifecycle, _⟩ => none
  | .finishing, ⟨.beginFinish, _⟩ => some .entered
  | .finishing, ⟨.closeQuiesce _, _⟩ => none
  | .admitting, ⟨.beginAdmission, begun⟩ =>
    match (begun : Bool) with
    | true => some .entered
    | false => h
  | .admitting, ⟨.endAdmission, _⟩ => none
  | _, _ => h

def Section.phase (s : Section) (past : List (Sigma ServerAsk.Answer)) : Option Held :=
  past.foldl s.next none

/-- The calls in a section by the account of the world. -/
def Section.roster (w : ServerWorld) : Section → List Held
  | .lifecycle => w.lifecycle.toList
  | .finishing => if w.finisher = .fencing ∨ w.finisher = .draining then [.entered] else []
  | .admitting => List.replicate w.active .entered

def serverSections : Threads.Sections ServerWorld ServerAsk.Answer Section Held where
  phase := Section.phase
  roster s w := s.roster w
  outside _ := rfl

theorem phase_snoc (s : Section) (past : List (Sigma ServerAsk.Answer))
    (e : Sigma ServerAsk.Answer) : s.phase (past ++ [e]) = s.next (s.phase past) e := by
  rw [Section.phase, foldl_append]
  rfl

theorem asks_seam {β : Type} {P : List (Sigma ServerAsk.Answer) → ServerAsk → Prop}
    {past : List (Sigma ServerAsk.Answer)} {q : ServerAsk} {f : q.Answer → ServerProgram β}
    (hq : P past q) (hf : ∀ a, Asks P (past ++ [⟨q, a⟩]) (f a)) : Asks P past (seam q >>= f) :=
  asks_query_bind.mpr ⟨hq, hf⟩

/-- A question whose answer leaves a call where it is in a section. -/
def ServerAsk.Neutral (s : Section) (q : ServerAsk) : Prop := ∀ h a, s.next h ⟨q, a⟩ = h

variable {log : List (Sigma ServerAsk.Answer)}

theorem phase_of_neutral {α : Type} {s : Section} {p : ServerProgram α}
    {past : List (Sigma ServerAsk.Answer)} {a : α} (hp : Asks (fun _ q => q.Neutral s) past p)
    (h : Returns p log a) : s.phase (past ++ log) = s.phase past := by
  refine Asks.history (J := fun l => s.phase l = s.phase past) ?_ hp h rfl
  intro l q a hl hq
  rw [phase_snoc, hl, hq]

/-! ## What the programs keep to -/

/-- The Server's quiesce is known to be past its fence. -/
def KnowsFence (past : List (Sigma ServerAsk.Answer)) : Prop :=
  ⟨.unlockFinish, ()⟩ ∈ past ∨ ⟨.pollQuiesce, true⟩ ∈ past ∨ ⟨.awaitQuiesce, Woken.done⟩ ∈ past

/-- Where a call is when it asks, and what it has been told before. -/
def Allowed (past : List (Sigma ServerAsk.Answer)) : ServerAsk → Prop
  | .claimStart | .claimStop => Section.lifecycle.phase past = some .entered
  | .newHandler | .publishRealtime | .publishLoop =>
    Section.lifecycle.phase past = some .starting
  | .launch | .launchProbe =>
    Section.lifecycle.phase past = some .starting ∧ ⟨.publishLoop, ()⟩ ∈ past
  | .launchWaiter =>
    Section.lifecycle.phase past = some .starting ∧ ⟨.publishRealtime, ()⟩ ∈ past
  | .returnStart [] => Section.lifecycle.phase past = some .launched
  | .returnStart (_ :: _) =>
    Section.lifecycle.phase past = some .entered ∨
      Section.lifecycle.phase past = some .starting ∧
        ∃ err errs, ⟨.newHandler, (err :: errs : List ServerError)⟩ ∈ past
  | .serve =>
    ⟨.claimStart, some ServerError.alreadyStarted⟩ ∈ past ∨ ⟨.returnStart [], ()⟩ ∈ past ∨
      ∃ errs : List ServerError, ⟨.newHandler, errs⟩ ∈ past ∧ .alreadyStarted ∈ errs
  | .readQuiesceErr => ⟨.pollQuiesce, true⟩ ∈ past ∨ ⟨.awaitQuiesce, Woken.done⟩ ∈ past
  | .unlockFinish =>
    Section.lifecycle.phase past = some .entered ∧
      Section.finishing.phase past = some .entered ∧ ⟨.fence, ()⟩ ∈ past
  | .closeQuiesce _ =>
    Section.finishing.phase past = some .entered ∧ ⟨.unlockFinish, ()⟩ ∈ past ∧
      ((∃ claim, ⟨.claimRealtime, claim⟩ ∈ past) ∧ ⟨.awaitDrained false, Woken.done⟩ ∈ past ∨
        ⟨.awaitDrained false, Woken.contextDone⟩ ∈ past)
  | .claimRealtime => KnowsFence past
  | .awaitSweeps => Section.lifecycle.phase past = some .stopping
  | .unlockLifecycle =>
    Section.lifecycle.phase past = some .entered ∨ Section.lifecycle.phase past = some .stopping
  | .beginAdmission => Section.admitting.phase past = none
  | .endAdmission => Section.admitting.phase past = some .entered
  | _ => True

section

variable {past : List (Sigma ServerAsk.Answer)}

theorem launchAll_asks (n : Nat) (hheld : Section.lifecycle.phase past = some .starting)
    (hloop : ⟨.publishLoop, ()⟩ ∈ past) : Asks Allowed past (launchAll n) := by
  induction n generalizing past with
  | zero => exact asks_pure ()
  | succ n ih =>
    refine asks_seam ⟨hheld, hloop⟩ fun a => ih ?_ (mem_append_left _ hloop)
    rw [phase_snoc, hheld]
    rfl

theorem launchAll_neutral (n : Nat) :
    Asks (fun _ q => q.Neutral .lifecycle) past (launchAll n) := by
  induction n generalizing past with
  | zero => exact asks_pure ()
  | succ n ih => exact asks_seam (fun _ _ => rfl) fun a => ih

theorem launchProbe_asks (cfg : ServerConfig)
    (hheld : Section.lifecycle.phase past = some .starting)
    (hloop : ⟨.publishLoop, ()⟩ ∈ past) : Asks Allowed past (launchProbe cfg) := by
  obtain ⟨workers, stamp⟩ := cfg
  cases stamp with
  | true => exact asks_query ⟨hheld, hloop⟩
  | false => exact asks_pure ()

theorem launchProbe_neutral (cfg : ServerConfig) :
    Asks (fun _ q => q.Neutral .lifecycle) past (launchProbe cfg) := by
  obtain ⟨workers, stamp⟩ := cfg
  cases stamp with
  | true => exact asks_query fun _ _ => rfl
  | false => exact asks_pure ()

theorem start_asks (cfg : ServerConfig) : Asks Allowed past (start cfg) := by
  refine asks_seam trivial fun _ => asks_seam (phase_snoc _ _ _) fun claim => ?_
  cases claim with
  | some err =>
    refine asks_seam (.inl ?_) fun _ => asks_pure _
    rw [phase_snoc, phase_snoc]
    rfl
  | none =>
    refine asks_seam (phase_snoc _ _ _) fun handler => ?_
    cases handler with
    | cons err errs =>
      refine asks_seam (.inr ⟨?_, err, errs, ?_⟩) fun _ => asks_pure _
      · rw [phase_snoc, phase_snoc]
        rfl
      · exact mem_concat_self
    | nil =>
      have hheld : ∀ u, Section.lifecycle.phase (past ++ [⟨.lockLifecycle, u⟩] ++
          [⟨.claimStart, none⟩] ++ [⟨.newHandler, []⟩]) = some .starting := by
        intro u
        rw [phase_snoc, phase_snoc]
        rfl
      refine asks_seam (hheld _) fun _ => asks_seam ?_ fun _ => ?_
      · exact (phase_snoc _ _ _).trans (hheld _)
      -- From here on the phase is `starting` and both publications are behind the call.
      generalize hpast : past ++ [_] ++ [_] ++ [_] ++ [_] ++ [_] = before
      have hheld : Section.lifecycle.phase before = some .starting := by
        rw [← hpast, phase_snoc, phase_snoc]
        exact hheld _
      have hloop : ⟨.publishLoop, ()⟩ ∈ before := by
        rw [← hpast]
        exact mem_concat_self
      have hnode : ⟨.publishRealtime, ()⟩ ∈ before := by
        rw [← hpast]
        exact mem_append_left _ mem_concat_self
      refine Asks.bind (launchAll_asks _ hheld hloop) fun log _ hlog => ?_
      have hheld' : Section.lifecycle.phase (before ++ log) = some .starting := by
        rw [phase_of_neutral (launchAll_neutral _) hlog, hheld]
      refine Asks.bind (launchProbe_asks _ hheld' (mem_append_left _ hloop)) fun log' _ hlog' => ?_
      refine asks_seam ⟨?_, ?_⟩ fun _ => asks_seam ?_ fun _ => asks_pure _
      · rw [phase_of_neutral (launchProbe_neutral _) hlog', hheld']
      · exact mem_append_left _ (mem_append_left _ hnode)
      · exact phase_snoc _ _ _

variable {errs : List ServerError}

theorem start_returns {cfg : ServerConfig} (h : Returns (start cfg) log errs)
    (herrs : errs = [] ∨ .alreadyStarted ∈ errs) :
    ⟨.claimStart, some ServerError.alreadyStarted⟩ ∈ log ∨ ⟨.returnStart [], ()⟩ ∈ log ∨
      ∃ errs : List ServerError, ⟨.newHandler, errs⟩ ∈ log ∧ .alreadyStarted ∈ errs := by
  obtain ⟨_, log₁, rfl, h₁⟩ := returns_query_bind.mp h
  obtain ⟨claim, log₂, rfl, h₂⟩ := returns_query_bind.mp h₁
  cases claim with
  | some err =>
    obtain ⟨_, log₃, rfl, h₃⟩ := returns_query_bind.mp h₂
    obtain ⟨rfl, rfl⟩ := returns_pure.mp h₃
    rcases herrs with herrs | herrs
    · cases herrs
    · rw [mem_singleton] at herrs
      subst herrs
      exact .inl (mem_cons_of_mem _ mem_cons_self)
  | none =>
    obtain ⟨handler, log₃, rfl, h₃⟩ := returns_query_bind.mp h₂
    cases handler with
    | cons err errs =>
      obtain ⟨_, _, rfl, h₄⟩ := returns_query_bind.mp h₃
      obtain ⟨-, rfl⟩ := returns_pure.mp h₄
      refine .inr (.inr ⟨err :: errs, ?_, herrs.resolve_left nofun⟩)
      exact mem_cons_of_mem _ (mem_cons_of_mem _ mem_cons_self)
    | nil =>
      refine .inr (.inl ?_)
      obtain ⟨_, log₄, rfl, h₄⟩ := returns_query_bind.mp h₃
      obtain ⟨_, log₅, rfl, h₅⟩ := returns_query_bind.mp h₄
      obtain ⟨_, _, _, rfl, -, h₆⟩ := returns_bind.mp h₅
      obtain ⟨_, _, _, rfl, -, h₇⟩ := returns_bind.mp h₆
      obtain ⟨_, _, rfl, h₈⟩ := returns_query_bind.mp h₇
      obtain ⟨_, _, rfl, -⟩ := returns_query_bind.mp h₈
      simp

theorem serve_asks (cfg : ServerConfig) : Asks Allowed past (serve cfg) := by
  refine asks_seam trivial fun claim => ?_
  cases claim with
  | some err => exact asks_pure _
  | none =>
    refine Asks.bind (start_asks cfg) fun log errs hlog => ?_
    unfold serveAfter
    by_cases herrs : errs = [] ∨ .alreadyStarted ∈ errs
    · rw [if_pos herrs]
      refine asks_query ?_
      rcases start_returns hlog herrs with h | h | ⟨errs, h, hmem⟩
      · exact .inl (mem_append_right _ h)
      · exact .inr (.inl (mem_append_right _ h))
      · exact .inr (.inr ⟨errs, mem_append_right _ h, hmem⟩)
    · rw [if_neg herrs]
      refine asks_seam trivial fun _ => ?_
      split
      · exact asks_pure _
      · exact asks_pure _

theorem quiesce_asks : Asks Allowed past quiesce := by
  refine asks_seam trivial fun _ => asks_seam trivial fun polled => ?_
  cases polled with
  | true => exact asks_query (.inl mem_concat_self)
  | false =>
    refine asks_seam trivial fun woken => ?_
    cases woken with
    | done => exact asks_query (.inr mem_concat_self)
    | contextDone => exact asks_pure _

/-- A `Quiesce` that returns nil was told that it is over, and how. -/
theorem quiesce_returns (h : Returns quiesce log errs) (herrs : errs = []) :
    (⟨.pollQuiesce, true⟩ ∈ log ∨ ⟨.awaitQuiesce, Woken.done⟩ ∈ log) ∧
      ⟨.readQuiesceErr, ([] : List ServerError)⟩ ∈ log := by
  subst herrs
  obtain ⟨_, log₁, rfl, h₁⟩ := returns_query_bind.mp h
  obtain ⟨polled, log₂, rfl, h₂⟩ := returns_query_bind.mp h₁
  cases polled with
  | true =>
    rw [returns_query.mp h₂]
    simp
  | false =>
    obtain ⟨woken, log₃, rfl, h₃⟩ := returns_query_bind.mp h₂
    cases woken with
    | done =>
      rw [returns_query.mp h₃]
      simp
    | contextDone =>
      obtain ⟨-, ⟨⟩⟩ := returns_pure.mp h₃

theorem stopRealtime_asks (h : KnowsFence past) : Asks Allowed past stopRealtime := by
  refine asks_seam h fun claim => ?_
  cases claim with
  | joined =>
    refine asks_seam trivial fun woken => ?_
    cases woken with
    | done => exact asks_query trivial
    | contextDone => exact asks_pure _
  | absent => exact asks_pure _
  | owned => exact asks_seam trivial fun _ => asks_seam trivial fun _ => asks_pure _

theorem stopRealtime_neutral (s : Section) : Asks (fun _ q => q.Neutral s) past stopRealtime := by
  refine asks_seam (fun _ _ => ?_) fun claim => ?_
  · cases s <;> rfl
  cases claim with
  | joined =>
    refine asks_seam (fun _ _ => ?_) fun woken => ?_
    · cases s <;> rfl
    cases woken with
    | done =>
      refine asks_query fun _ _ => ?_
      cases s <;> rfl
    | contextDone => exact asks_pure _
  | absent => exact asks_pure _
  | owned =>
    refine asks_seam (fun _ _ => ?_) fun _ => asks_seam (fun _ _ => ?_) fun _ => asks_pure _
    · cases s <;> rfl
    · cases s <;> rfl

theorem finishQuiesce_asks : Asks Allowed past finishQuiesce := by
  refine asks_seam trivial fun _ => asks_seam trivial fun _ => asks_seam trivial fun _ =>
    asks_seam ⟨?_, ?_, ?_⟩ fun _ => asks_seam trivial fun woken => ?_
  · rw [phase_snoc, phase_snoc]
    rfl
  · rw [phase_snoc, phase_snoc, phase_snoc]
    rfl
  · exact mem_concat_self
  generalize hpast : past ++ [_] ++ [_] ++ [_] ++ [_] = before
  have hphase : Section.finishing.phase before = some .entered := by
    rw [← hpast, phase_snoc, phase_snoc, phase_snoc, phase_snoc]
    rfl
  have hunlocked : ⟨.unlockFinish, ()⟩ ∈ before := by
    rw [← hpast]
    exact mem_concat_self
  cases woken with
  | contextDone =>
    refine asks_seam ⟨?_, mem_append_left _ hunlocked, .inr ?_⟩ fun _ => asks_pure _
    · rw [phase_snoc, hphase]
      rfl
    · exact mem_concat_self
  | done =>
    have hfence : KnowsFence (before ++ [⟨.awaitDrained false, Woken.done⟩]) :=
      .inl (mem_append_left _ hunlocked)
    refine Asks.bind (stopRealtime_asks hfence) fun log errs hlog =>
      asks_seam ⟨?_, ?_, .inl ⟨?_, ?_⟩⟩ fun _ => asks_pure _
    · rw [phase_of_neutral (stopRealtime_neutral .finishing) hlog, phase_snoc, hphase]
      rfl
    · exact mem_append_left _ (mem_append_left _ hunlocked)
    · obtain ⟨claim, log₁, rfl, -⟩ := returns_query_bind.mp hlog
      exact ⟨claim, mem_append_right _ mem_cons_self⟩
    · exact mem_append_left _ mem_concat_self

theorem shutdownServer_asks (server : Bool) : Asks Allowed past (shutdownServer server) := by
  cases server with
  | true => exact asks_query trivial
  | false => exact asks_pure _

theorem shutdownServer_neutral (server : Bool) :
    Asks (fun _ q => q.Neutral .lifecycle) past (shutdownServer server) := by
  cases server with
  | true => exact asks_query fun _ _ => rfl
  | false => exact asks_pure _

theorem cancelLoop_asks (cancel : Bool) : Asks Allowed past (cancelLoop cancel) := by
  cases cancel with
  | true => exact asks_query trivial
  | false => exact asks_pure _

theorem cancelLoop_neutral (cancel : Bool) :
    Asks (fun _ q => q.Neutral .lifecycle) past (cancelLoop cancel) := by
  cases cancel with
  | true => exact asks_query fun _ _ => rfl
  | false => exact asks_pure _

theorem awaitSweeps_asks (h : Section.lifecycle.phase past = some .stopping) :
    Asks Allowed past awaitSweeps := by
  refine asks_seam h fun woken => ?_
  cases woken <;> exact asks_pure _

theorem awaitSweeps_neutral : Asks (fun _ q => q.Neutral .lifecycle) past awaitSweeps := by
  refine asks_seam (fun _ _ => rfl) fun woken => ?_
  cases woken <;> exact asks_pure _

theorem closePlanes_asks : Asks Allowed past closePlanes :=
  asks_seam trivial fun _ => asks_seam trivial fun _ => asks_seam trivial fun _ =>
    asks_seam trivial fun _ => asks_pure _

theorem closePlanes_neutral : Asks (fun _ q => q.Neutral .lifecycle) past closePlanes :=
  asks_seam (fun _ _ => rfl) fun _ => asks_seam (fun _ _ => rfl) fun _ =>
    asks_seam (fun _ _ => rfl) fun _ => asks_seam (fun _ _ => rfl) fun _ => asks_pure _

theorem KnowsFence.append (h : KnowsFence past) (log : List (Sigma ServerAsk.Answer)) :
    KnowsFence (past ++ log) := by
  rcases h with h | h | h
  · exact .inl (mem_append_left _ h)
  · exact .inr (.inl (mem_append_left _ h))
  · exact .inr (.inr (mem_append_left _ h))

theorem teardown_asks (errs : List ServerError) (hfence : KnowsFence past) :
    Asks Allowed past (teardown errs) := by
  refine asks_seam trivial fun _ => asks_seam (phase_snoc _ _ _) fun claim => ?_
  cases claim with
  | already =>
    refine asks_seam (.inl ?_) fun _ => asks_pure _
    rw [phase_snoc, phase_snoc]
    rfl
  | fresh server cancel =>
    have hphase : Section.lifecycle.phase
        (past ++ [⟨.lockLifecycle, ()⟩] ++ [⟨.claimStop, .fresh server cancel⟩]) =
          some .stopping := phase_snoc _ _ _
    have hfence' := (hfence.append [⟨.lockLifecycle, ()⟩]).append
      [⟨.claimStop, .fresh server cancel⟩]
    -- Each part keeps the phase.
    refine Asks.bind (shutdownServer_asks server) fun log₁ _ hlog₁ => ?_
    rw [← phase_of_neutral (shutdownServer_neutral server) hlog₁] at hphase
    refine Asks.bind (stopRealtime_asks (hfence'.append log₁)) fun log₂ _ hlog₂ => ?_
    rw [← phase_of_neutral (stopRealtime_neutral .lifecycle) hlog₂] at hphase
    refine asks_seam trivial fun wakes => ?_
    replace hphase := (phase_snoc .lifecycle _ ⟨.stopWakes, wakes⟩).trans hphase
    refine Asks.bind (cancelLoop_asks cancel) fun log₃ _ hlog₃ => ?_
    rw [← phase_of_neutral (cancelLoop_neutral cancel) hlog₃] at hphase
    refine Asks.bind (awaitSweeps_asks hphase) fun log₄ _ hlog₄ => ?_
    rw [← phase_of_neutral awaitSweeps_neutral hlog₄] at hphase
    refine Asks.bind closePlanes_asks fun log₅ _ hlog₅ => ?_
    rw [← phase_of_neutral closePlanes_neutral hlog₅] at hphase
    exact asks_seam (.inr hphase) fun _ => asks_pure _

theorem stop_asks : Asks Allowed past stop := by
  refine Asks.bind quiesce_asks fun log errs hlog => ?_
  split
  · next herrs =>
    refine teardown_asks _ (.inr ?_)
    exact (quiesce_returns hlog herrs).1.imp (mem_append_right _) (mem_append_right _)
  · refine asks_seam trivial fun polled => ?_
    cases polled with
    | false => exact asks_pure _
    | true =>
      have hpolled : ⟨.pollQuiesce, true⟩ ∈ past ++ log ++ [⟨.pollQuiesce, true⟩] :=
        mem_concat_self
      refine asks_seam (.inl hpolled) fun _ => teardown_asks _ ?_
      exact .inr (.inl (mem_append_left _ hpolled))

theorem admission_asks : Asks Allowed [] admission := by
  refine asks_seam rfl fun begun => ?_
  cases begun with
  | true => exact asks_seam rfl fun _ => asks_pure _
  | false => exact asks_pure _

theorem quiesceAdmissions_asks : Asks Allowed past quiesceAdmissions := by
  refine asks_seam trivial fun _ => asks_seam trivial fun woken => ?_
  cases woken <;> exact asks_pure _

/-- Every call asks its questions in their place. -/
theorem program_asks (cfg : ServerConfig) (call : ServerCall) :
    Asks Allowed [] (call.program cfg) := by
  cases call with
  | start => exact start_asks cfg
  | serve => exact serve_asks cfg
  | quiesce => exact quiesce_asks
  | stop => exact stop_asks
  | finishQuiesce => exact finishQuiesce_asks
  | admission => exact admission_asks
  | fenceAdmissions => exact asks_seam trivial fun _ => asks_pure _
  | quiesceAdmissions => exact quiesceAdmissions_asks

end

end Factory.Compose
