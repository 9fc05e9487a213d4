import Factory.Compose.ServerSections

/-!
# What holds of a Server in every state

`ServerWorld.Sound` says how the fields of a Server hang together, `ServerWorld.Known` what a call
may rely on after an answer, and `ServerWorld.Later` what no step undoes. One lemma for each
question whose answer changes the world shows that all of it is kept, and `serverSystem_rule` puts
them together: the answer is given while the call is where `Allowed` says it is, and by the account
of the sections nobody else is in `lifecycle` then.
-/

namespace Factory.Compose

open Dialogue

namespace ServerWorld

/-- The quiesce has released `lifecycle` after its fence. -/
def Fenced (w : ServerWorld) : Prop := w.finisher = .draining ∨ w.finisher = .finished

/-- Neither `realtimeHandler` nor `clientLink` answers the node. -/
def Unreachable (w : ServerWorld) : Prop := w.realtime = false ∨ w.realtimeDone ≠ .unmade

/-- A node has been published, and may have been shut down since. -/
def Published (w : ServerWorld) : Prop := w.realtime = true ∨ w.realtimeDone ≠ .unmade

/-- A `Start` has published its loop: the channel is the one its goroutine closes. -/
def Looped (w : ServerWorld) : Prop := w.done = .waiting ∨ w.waiter = true

/-- How the fields of a Server hang together. -/
structure Sound (w : ServerWorld) : Prop where
  unfenced : w.gateClosed = false → w.drained = .unmade ∧ w.drainedCloses = 0
  idle : w.gateClosed = true → w.active = 0 → w.drained = .closed ∧ w.drainedCloses = 1
  busy : w.gateClosed = true → w.active ≠ 0 → w.drained = .waiting ∧ w.drainedCloses = 0
  unborn : w.quiescing = false → w.finisher = .unborn
  quiesced : w.quiesceDone = .closed → w.finisher = .finished ∧ w.Unreachable ∧ w.drained = .closed
  fencedLock : w.Fenced → w.lifecycle ≠ some .starting
  fencedGate : w.Fenced → w.gateClosed = true
  unstarted : w.started = false → w.waiter = false
  closed : w.done = .closed → w.running = 0
  starting : w.lifecycle = some .starting → w.waiter = false ∧ w.started = true
  stopping : w.lifecycle = some .stopping → w.state = .stopped
  stopped : w.state = .stopped → w.lifecycle ≠ some .starting
  started : w.started = true → (w.startReturned = true ∨ w.startFailed = true) ∨
    w.lifecycle = some .starting ∨ w.lifecycle = some .launched
  launched : w.lifecycle = some .launched → w.waiter = true ∧ w.Published
  returned : w.startReturned = true → w.waiter = true ∧ w.Published

/-- A Server that was never started. -/
theorem sound_init : ServerWorld.Sound {} := by
  constructor <;> simp [Fenced, Unreachable, Published]

/-- What no step takes back. -/
structure Later (w v : ServerWorld) : Prop where
  published : w.Published → v.Published
  loop : w.Looped → v.Looped
  failed : w.startFailed = true → v.startFailed = true
  returned : w.startReturned = true → v.startReturned = true
  quiesced : w.quiesceDone = .closed → v.quiesceDone = .closed
  gate : w.gateClosed = true → v.gateClosed = true
  fenced : w.Fenced → v.Fenced
  drained : w.drained = .closed → v.drained = .closed
  unreachable : w.Fenced → w.Unreachable → v.Unreachable
  stopped : w.state = .stopped → v.state = .stopped
  quiet : w.state = .stopped → w.running = 0 → v.running = 0

theorem Later.refl (w : ServerWorld) : w.Later w :=
  ⟨id, id, id, id, id, id, id, id, fun _ => id, id, fun _ => id⟩

variable {v : ServerWorld}

theorem Later.trans {u w : ServerWorld} (h : u.Later v) (h' : v.Later w) : u.Later w where
  published hp := h'.published (h.published hp)
  loop hd := h'.loop (h.loop hd)
  failed hf := h'.failed (h.failed hf)
  returned hr := h'.returned (h.returned hr)
  quiesced hq := h'.quiesced (h.quiesced hq)
  gate hg := h'.gate (h.gate hg)
  fenced hf := h'.fenced (h.fenced hf)
  drained hd := h'.drained (h.drained hd)
  unreachable hf hu := h'.unreachable (h.fenced hf) (h.unreachable hf hu)
  stopped hs := h'.stopped (h.stopped hs)
  quiet hs hr := h'.quiet (h.stopped hs) (h.quiet hs hr)

/-- What a call may rely on after an answer. -/
def Known (w : ServerWorld) : Sigma ServerAsk.Answer → Prop
  | ⟨.publishRealtime, _⟩ => w.Published
  | ⟨.publishLoop, _⟩ => w.Looped
  | ⟨.newHandler, errs⟩ => errs ≠ [] → w.startFailed = true
  | ⟨.claimStart, claim⟩ =>
    claim = some .alreadyStarted → w.startReturned = true ∨ w.startFailed = true
  | ⟨.returnStart errs, _⟩ => errs = [] → w.startReturned = true
  | ⟨.pollQuiesce, polled⟩ => polled = true → w.quiesceDone = .closed
  | ⟨.awaitQuiesce, woken⟩ => woken = .done → w.quiesceDone = .closed
  | ⟨.fence, _⟩ => w.gateClosed = true
  | ⟨.unlockFinish, _⟩ => w.Fenced
  | ⟨.awaitDrained bounded, woken⟩ =>
    (woken = .done → w.drained = .closed) ∧ (woken = .contextDone → bounded = true)
  | ⟨.claimRealtime, _⟩ => w.Fenced ∧ w.Unreachable
  | ⟨.claimStop, claim⟩ => claim = .already → w.state = .stopped
  | ⟨.awaitSweeps, woken⟩ => w.state = .stopped ∧ (woken = .done → w.running = 0)
  | _ => True

/-- What a call was told stays true. -/
theorem Known.later {w : ServerWorld} {e : Sigma ServerAsk.Answer} (h : w.Known e)
    (hlater : w.Later v) : v.Known e := by
  obtain ⟨q, a⟩ := e
  cases q with
  | publishRealtime => exact hlater.published h
  | publishLoop => exact hlater.loop h
  | newHandler => exact fun herrs => hlater.failed (h herrs)
  | claimStart => exact fun hclaim => (h hclaim).imp hlater.returned hlater.failed
  | returnStart errs => exact fun herrs => hlater.returned (h herrs)
  | pollQuiesce => exact fun hpolled => hlater.quiesced (h hpolled)
  | awaitQuiesce => exact fun hwoken => hlater.quiesced (h hwoken)
  | fence => exact hlater.gate h
  | unlockFinish => exact hlater.fenced h
  | awaitDrained bounded => exact ⟨fun hwoken => hlater.drained (h.1 hwoken), h.2⟩
  | claimRealtime => exact ⟨hlater.fenced h.1, hlater.unreachable h.1 h.2⟩
  | claimStop => exact fun hclaim => hlater.stopped (h hclaim)
  | awaitSweeps => exact ⟨hlater.stopped h.1, fun hwoken => hlater.quiet h.1 (h.2 hwoken)⟩
  | _ => trivial

/-- A step that keeps what holds. -/
structure Keeps (w v : ServerWorld) : Prop where
  sound : v.Sound
  later : w.Later v

variable {w : ServerWorld}

theorem Sound.keeps_self (h : w.Sound) : w.Keeps w := ⟨h, .refl w⟩

theorem Sound.start_over (h : w.Sound) {held : Option Held} (hheld : w.lifecycle = held)
    (hstarting : held ≠ some .starting) (hlaunched : held ≠ some .launched)
    (hstarted : w.started = true) : w.startReturned = true ∨ w.startFailed = true := by
  subst hheld
  rcases h.started hstarted with h | h | h
  · exact h
  · exact absurd h hstarting
  · exact absurd h hlaunched

theorem Sound.fenced_of_quiesced (h : w.Sound) (hclosed : w.quiesceDone = .closed) : w.Fenced :=
  .inr (h.quiesced hclosed).1

/-! ## The lock -/

theorem Sound.relock (h : w.Sound) {held : Option Held}
    (hheld : held = none ∨ held = some .entered)
    (hstart : w.started = true → w.startReturned = true ∨ w.startFailed = true) :
    w.Keeps { w with lifecycle := held } := by
  have hne : ∀ p, p ≠ .entered → held ≠ some p := by
    rintro p hp rfl
    rcases hheld with hheld | hheld
    · cases hheld
    · cases hheld
      exact hp rfl
  have hstarting : held ≠ some .starting := hne _ (by decide)
  refine ⟨?_, { Later.refl w with }⟩
  exact { h with
    fencedLock := fun _ => hstarting
    starting := fun hs => absurd hs hstarting
    stopping := fun hs => absurd hs (hne _ (by decide))
    stopped := fun _ => hstarting
    started := fun hs => .inl (hstart hs)
    launched := fun hs => absurd hs (hne _ (by decide)) }

theorem Sound.lock (h : w.Sound) (hfree : w.lifecycle = none) :
    w.Keeps { w with lifecycle := some .entered } :=
  h.relock (.inr rfl) (h.start_over hfree nofun nofun)

theorem Sound.unlock (h : w.Sound)
    (hheld : w.lifecycle = some .entered ∨ w.lifecycle = some .stopping) :
    w.Keeps { w with lifecycle := none } := by
  rcases hheld with hheld | hheld
  all_goals exact h.relock (.inl rfl) (h.start_over hheld (by decide) (by decide))

/-! ## Start -/

section

variable (h : w.Sound)
include h

/-- The section in which `Start` is refused or goes on. -/
theorem Sound.claimStart (hheld : w.lifecycle = some .entered) :
    w.Keeps w.claimStart.2 ∧ w.claimStart.2.Known ⟨.claimStart, w.claimStart.1⟩ := by
  unfold ServerWorld.claimStart
  split
  · exact ⟨h.keeps_self, nofun⟩
  split
  · exact ⟨h.keeps_self, nofun⟩
  split
  · next hstarted =>
    exact ⟨h.keeps_self, fun _ => h.start_over hheld (by decide) (by decide) hstarted⟩
  next hstopped hquiescing hstarted =>
  have hunborn := h.unborn (Bool.eq_false_iff.mpr hquiescing)
  have hfresh := h.unstarted (Bool.eq_false_iff.mpr hstarted)
  refine ⟨⟨?_, { Later.refl w with }⟩, nofun⟩
  exact { h with
    fencedLock := by
      rintro (hf | hf)
      · cases hunborn.symm.trans hf
      · cases hunborn.symm.trans hf
    unstarted := nofun
    starting := fun _ => ⟨hfresh, rfl⟩
    stopping := nofun
    stopped := fun hs => absurd hs hstopped
    started := fun _ => .inr (.inl rfl)
    launched := nofun }

theorem Sound.newHandler (failed : Bool) :
    w.Keeps { w with startFailed := w.startFailed || failed } := by
  have hor : w.startFailed = true → (w.startFailed || failed) = true := by
    intro hf
    rw [hf]
    rfl
  refine ⟨?_, { Later.refl w with failed := hor }⟩
  exact { h with started := fun hs => (h.started hs).imp_left (Or.imp_right hor) }

theorem Sound.publishRealtime (hheld : w.lifecycle = some .starting) :
    w.Keeps { w with realtime := true } := by
  refine ⟨?_, { Later.refl w with published := fun _ => .inl rfl, unreachable := ?_ }⟩
  · exact { h with
      quiesced := fun hq => absurd hheld (h.fencedLock (h.fenced_of_quiesced hq))
      launched := fun hl => ⟨(h.launched hl).1, .inl rfl⟩
      returned := fun hr => ⟨(h.returned hr).1, .inl rfl⟩ }
  · exact fun hf => absurd hheld (h.fencedLock hf)

theorem Sound.publishLoop : w.Keeps { w with stop := true, done := .waiting } := by
  refine ⟨?_, { Later.refl w with loop := fun _ => .inl rfl }⟩
  exact { h with closed := nofun }

theorem Sound.launch (hheld : w.lifecycle = some .starting) (hloop : w.Looped) :
    w.Keeps { w with running := w.running + 1 } := by
  refine ⟨?_, { Later.refl w with quiet := fun hs => absurd hheld (h.stopped hs) }⟩
  -- the goroutine that closes the channel is launched later
  have hwaiting : w.done = .waiting := by
    refine hloop.resolve_right ?_
    rw [(h.starting hheld).1]
    nofun
  exact { h with
    closed := fun hd => by
      have := hwaiting.symm.trans hd
      cases this }

/-- The last goroutine `Start` launches, with a node published. -/
theorem Sound.launchWaiter (hheld : w.lifecycle = some .starting) (hnode : w.Published) :
    w.Keeps { w with waiter := true, lifecycle := some .launched } := by
  refine ⟨?_, { Later.refl w with loop := fun _ => .inr rfl }⟩
  exact { h with
    fencedLock := nofun
    unstarted := fun hs => by
      have := (h.starting hheld).2.symm.trans hs
      cases this
    starting := nofun
    stopping := nofun
    stopped := nofun
    started := fun _ => .inr (.inr rfl)
    launched := fun _ => ⟨rfl, hnode⟩
    returned := fun hr => ⟨rfl, (h.returned hr).2⟩ }

theorem Sound.startReturns (hheld : w.lifecycle = some .launched) :
    w.Keeps { w with lifecycle := none, startReturned := true } := by
  have hreturned : ServerWorld.Sound { w with startReturned := true } := { h with
    started := fun _ => .inl (.inl rfl)
    returned := fun _ => h.launched hheld }
  have hkept := hreturned.relock (.inl rfl) fun _ => .inl rfl
  exact ⟨hkept.sound, { Later.refl w with returned := fun _ => rfl }⟩

/-- `Start` returns nil with its loops launched, and an error otherwise. -/
theorem Sound.returnStart {errs : List ServerError}
    (hnil : errs = [] → w.lifecycle = some .launched)
    (herrs : errs ≠ [] → w.lifecycle = some .entered ∨ w.lifecycle = some .starting ∧ w.startFailed
      = true) :
    w.Keeps { w with lifecycle := none, startReturned := w.startReturned || errs.isEmpty } ∧
      (errs = [] → (w.startReturned || errs.isEmpty) = true) := by
  cases errs with
  | nil =>
    rw [List.isEmpty_nil, Bool.or_true]
    exact ⟨h.startReturns (hnil rfl), fun _ => rfl⟩
  | cons err errs =>
    rw [List.isEmpty_cons, Bool.or_false]
    refine ⟨?_, nofun⟩
    rcases herrs (List.cons_ne_nil _ _) with hheld | ⟨hheld, hfailed⟩
    · exact h.unlock (.inl hheld)
    · exact h.relock (.inl rfl) fun _ => .inr hfailed

end

/-! ## Serve -/

theorem Sound.claimServe (h : w.Sound) : w.Keeps w.claimServe.2 := by
  unfold ServerWorld.claimServe
  split
  · exact h.keeps_self
  split
  · exact h.keeps_self
  split
  · exact h.keeps_self
  next hstopped _ =>
  refine ⟨?_, { Later.refl w with stopped := fun hs => absurd hs hstopped }⟩
  exact { h with
    stopping := fun hs => absurd (h.stopping hs) hstopped
    stopped := nofun }

/-! ## Quiesce -/

theorem not_fenced {finisher : Finisher} (hfinisher : w.finisher = finisher)
    (hdraining : finisher ≠ .draining) (hfinished : finisher ≠ .finished) : ¬w.Fenced := by
  subst hfinisher
  rintro (hf | hf)
  · exact hdraining hf
  · exact hfinished hf

theorem Sound.quiescing (h : w.Sound) {finisher : Finisher} (hfinisher : w.finisher = finisher)
    (hunborn : finisher ≠ .unborn) : w.quiescing ≠ false := by
  subst hfinisher
  exact fun hq => hunborn (h.unborn hq)

/-- The section that launches `finishQuiesce` once. -/
theorem Sound.claimQuiesce (h : w.Sound) : w.Keeps w.claimQuiesce := by
  unfold ServerWorld.claimQuiesce
  split
  · exact h.keeps_self
  next hquiescing =>
  have hunborn := h.unborn (Bool.eq_false_iff.mpr hquiescing)
  have hnot : ¬w.Fenced := not_fenced hunborn (by decide) (by decide)
  have hnot' : ¬ServerWorld.Fenced
      { w with quiescing := true, quiesceDone := .waiting, finisher := .launched } := by
    rintro (hf | hf)
    · cases hf
    · cases hf
  refine ⟨?_, { Later.refl w with
    quiesced := fun hq => absurd (h.fenced_of_quiesced hq) hnot
    fenced := fun hf => absurd hf hnot
    unreachable := fun hf => absurd hf hnot }⟩
  exact { h with
    unborn := nofun
    quiesced := nofun
    fencedLock := fun hf => absurd hf hnot'
    fencedGate := fun hf => absurd hf hnot' }

theorem Sound.beginFinish (h : w.Sound) (hfinisher : w.finisher = .launched) :
    w.Keeps { w with finisher := .fencing } := by
  have hnot : ¬w.Fenced := not_fenced hfinisher (by decide) (by decide)
  have hnot' : ¬ServerWorld.Fenced { w with finisher := .fencing } := by
    rintro (hf | hf)
    · cases hf
    · cases hf
  refine ⟨?_, { Later.refl w with
    fenced := fun hf => absurd hf hnot
    unreachable := fun hf => absurd hf hnot }⟩
  exact { h with
    unborn := fun hq => absurd hq (h.quiescing hfinisher (by decide))
    quiesced := fun hq => absurd (h.fenced_of_quiesced hq) hnot
    fencedLock := fun hf => absurd hf hnot'
    fencedGate := fun hf => absurd hf hnot' }

/-- The fence closes the gate, and `drained` when nothing is admitted. -/
theorem Sound.fence (h : w.Sound) : w.Keeps w.fence ∧ w.fence.gateClosed = true := by
  unfold ServerWorld.fence
  split
  · next hgate => exact ⟨h.keeps_self, hgate⟩
  next hgate =>
  obtain ⟨hunmade, hcloses⟩ := h.unfenced (Bool.eq_false_iff.mpr hgate)
  have hopen : w.drained ≠ .closed := by
    rw [hunmade]
    nofun
  have hquiesced : w.quiesceDone ≠ .closed := fun hq => hopen (h.quiesced hq).2.2
  split
  · next hactive =>
    refine ⟨⟨?_, { Later.refl w with gate := fun _ => rfl, drained := fun _ => rfl }⟩, rfl⟩
    exact { h with
      unfenced := nofun
      idle := fun _ _ => ⟨rfl, congrArg Nat.succ hcloses⟩
      busy := fun _ ha => absurd hactive ha
      quiesced := fun hq => absurd hq hquiesced
      fencedGate := fun _ => rfl }
  · next hactive =>
    refine ⟨⟨?_, { Later.refl w with
      gate := fun _ => rfl
      drained := fun hd => absurd hd hopen }⟩, rfl⟩
    exact { h with
      unfenced := nofun
      idle := fun _ ha => absurd ha hactive
      busy := fun _ _ => ⟨rfl, hcloses⟩
      quiesced := fun hq => absurd hq hquiesced
      fencedGate := fun _ => rfl }

/-- The run of `finishQuiesce` is under way. -/
def Finishing (w : ServerWorld) : Prop := w.finisher = .fencing ∨ w.finisher = .draining

theorem Sound.quiescing_of_finishing (h : w.Sound) (hfinishing : w.Finishing) :
    w.quiescing ≠ false := by
  rcases hfinishing with hf | hf
  · exact h.quiescing hf (by decide)
  · exact h.quiescing hf (by decide)

theorem Sound.unlockFinish (h : w.Sound) (hheld : w.lifecycle = some .entered)
    (hfinishing : w.Finishing) (hgate : w.gateClosed = true) :
    w.Keeps { w with lifecycle := none, finisher := .draining } := by
  have hquiesced : w.quiesceDone ≠ .closed := by
    intro hq
    have hfinished := (h.quiesced hq).1
    rcases hfinishing with hf | hf
    · cases hf.symm.trans hfinished
    · cases hf.symm.trans hfinished
  have hunlocked := (h.unlock (.inl hheld)).sound
  refine ⟨?_, { Later.refl w with fenced := fun _ => .inl rfl }⟩
  exact { hunlocked with
    unborn := fun hq => absurd hq (h.quiescing_of_finishing hfinishing)
    quiesced := fun hq => absurd hq hquiesced
    fencedLock := nofun
    fencedGate := fun _ => hgate }

/-- `finishQuiesce` ends when nothing is reachable or admitted. -/
theorem Sound.closeQuiesce (h : w.Sound) (errs : List ServerError) (hfinishing : w.Finishing)
    (hfenced : w.Fenced) (hnode : w.Unreachable) (hdrained : w.drained = .closed) :
    w.Keeps { w with quiesceErr := errs, quiesceDone := .closed, finisher := .finished } := by
  refine ⟨?_, { Later.refl w with quiesced := fun _ => rfl, fenced := fun _ => .inr rfl }⟩
  exact { h with
    unborn := fun hq => absurd hq (h.quiescing_of_finishing hfinishing)
    quiesced := fun _ => ⟨rfl, hnode, hdrained⟩
    fencedLock := fun _ => h.fencedLock hfenced
    fencedGate := fun _ => h.fencedGate hfenced }

/-! ## The node -/

theorem Sound.hideNode (h : w.Sound) (hdone : v.realtimeDone ≠ .unmade)
    (hv : v = { w with realtime := v.realtime, realtimeDone := v.realtimeDone, realtimeErr :=
      v.realtimeErr }) : w.Keeps v := by
  have hpublished : v.Published := .inr hdone
  have hnode : v.Unreachable := .inr hdone
  rw [hv] at hpublished hnode ⊢
  refine ⟨?_, { Later.refl w with
    published := fun _ => hpublished
    unreachable := fun _ _ => hnode }⟩
  exact { h with
    quiesced := fun hq => ⟨(h.quiesced hq).1, hnode, (h.quiesced hq).2.2⟩
    launched := fun hl => ⟨(h.launched hl).1, hpublished⟩
    returned := fun hr => ⟨(h.returned hr).1, hpublished⟩ }

theorem Sound.claimRealtime (h : w.Sound) :
    w.Keeps w.claimRealtime.2 ∧ w.claimRealtime.2.Unreachable := by
  unfold ServerWorld.claimRealtime
  split
  · next hdone => exact ⟨h.keeps_self, .inr hdone⟩
  split
  · next hnode => exact ⟨h.keeps_self, .inl hnode⟩
  · exact ⟨h.hideNode nofun rfl, .inr nofun⟩

/-! ## Stop -/

/-- The section in which `Stop` finds the Server stopped or stops it. -/
theorem Sound.claimStop (h : w.Sound) (hheld : w.lifecycle = some .entered) :
    w.Keeps w.claimStop.2 ∧ w.claimStop.2.Known ⟨.claimStop, w.claimStop.1⟩ := by
  have hover := h.start_over hheld (by decide) (by decide)
  unfold ServerWorld.claimStop
  split
  · next hstopped => exact ⟨h.keeps_self, fun _ => hstopped⟩
  refine ⟨⟨?_, { Later.refl w with stopped := fun _ => rfl }⟩, nofun⟩
  exact { h with
    fencedLock := nofun
    starting := nofun
    stopping := fun _ => rfl
    stopped := nofun
    started := fun hs => .inl (hover hs)
    launched := nofun }

/-! ## Admissions -/

theorem Sound.beginAdmission (h : w.Sound) : w.Keeps w.beginAdmission.2 := by
  unfold ServerWorld.beginAdmission
  split
  · exact h.keeps_self
  next hgate =>
  refine ⟨?_, { Later.refl w with }⟩
  exact { h with
    idle := fun hg => absurd hg hgate
    busy := fun hg => absurd hg hgate }

/-- The last admission behind the fence closes `drained`. -/
theorem Sound.endAdmission (h : w.Sound) (hactive : w.active ≠ 0) : w.Keeps w.endAdmission := by
  have hopen : w.drained ≠ .closed := by
    intro hclosed
    cases hgate : w.gateClosed with
    | false =>
      rw [(h.unfenced hgate).1] at hclosed
      cases hclosed
    | true =>
      rw [(h.busy hgate hactive).1] at hclosed
      cases hclosed
  have hquiesced : w.quiesceDone ≠ .closed := fun hq => hopen (h.quiesced hq).2.2
  unfold ServerWorld.endAdmission
  split
  · next hlast =>
    obtain ⟨hgate, hlast⟩ := hlast
    refine ⟨?_, { Later.refl w with drained := fun _ => rfl }⟩
    exact { h with
      unfenced := fun hg => by
        have := hg.symm.trans hgate
        cases this
      idle := fun _ _ => ⟨rfl, congrArg Nat.succ (h.busy hgate hactive).2⟩
      busy := fun _ ha => absurd hlast ha
      quiesced := fun hq => absurd hq hquiesced }
  · next hlast =>
    refine ⟨?_, { Later.refl w with }⟩
    exact { h with
      idle := fun hg ha => absurd ⟨hg, ha⟩ hlast
      busy := fun hg _ => h.busy hg hactive }

/-! ## The goroutines -/

/-- What happens beside the calls keeps the invariant. -/
theorem Sound.event (h : w.Sound) {e : ServerEvent} (hv : w.event e = some v) : w.Keeps v := by
  cases e with
  | workerReturns =>
    obtain ⟨_, ⟨⟩⟩ := Option.ite_none_right_eq_some.mp hv
    refine ⟨?_, { Later.refl w with quiet := fun _ hr => by rw [hr] }⟩
    exact { h with closed := fun hd => by rw [h.closed hd] }
  | probeReturns =>
    obtain ⟨_, ⟨⟩⟩ := Option.ite_none_right_eq_some.mp hv
    exact ⟨{ h with }, { Later.refl w with }⟩
  | loopsDone =>
    obtain ⟨⟨hwaiter, hrunning, -, -⟩, ⟨⟩⟩ := Option.ite_none_right_eq_some.mp hv
    refine ⟨?_, { Later.refl w with loop := fun _ => .inr hwaiter }⟩
    exact { h with closed := fun _ => hrunning }

end ServerWorld

end Factory.Compose
