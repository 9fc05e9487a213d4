import Factory.Livetail.Mailbox

/-!
# What one section does to the mailbox

`MailRun.Inv` is what holds between sections, and `MailRun.Move` lists what a section can do from
such a state: leave the mailbox alone, queue an event that is no frame, queue a frame after
dropping ephemeral ones, drop every frame and queue the loss, or take, finish or end as the
drainer does. Every section is one of these (`MailRun.step_move`).
-/

namespace Factory.Livetail

open List Factory.Routing Marked

namespace Mail

theorem isFrame_of_ephemeral (m : Mail) (h : m.ephemeral = true) : m.isFrame = true := by
  obtain ⟨_, _, event⟩ := m
  cases event with
  | frame => rfl
  | _ => cases h

theorem starts_of_isFrame (m : Mail) (h : m.isFrame = true) : m.starts = none := by
  obtain ⟨_, _, event⟩ := m
  cases event with
  | frame => rfl
  | _ => cases h

theorem carries_of_isFrame {m : Mail} (h : m.isFrame = true) : ∃ g, m.carries = some g := by
  obtain ⟨_, g, event⟩ := m
  cases event with
  | frame => exact ⟨g, rfl⟩
  | _ => cases h

theorem starts_of_carries {m : Mail} {g : Nat} (h : m.carries = some g) : m.starts = none := by
  obtain ⟨_, _, event⟩ := m
  cases event with
  | frame => rfl
  | _ => cases h

theorem carries_of_not_frame {m : Mail} (h : m.isFrame = false) : m.carries = none := by
  obtain ⟨_, _, event⟩ := m
  cases event with
  | frame => cases h
  | _ => rfl

end Mail

variable {s : SessionState}

namespace MailRun

/-! ## Evicting -/

theorem thins_evict (limit n : Nat) (box : List Mail) :
    Thins Mail.ephemeral box (evict limit n box) := by
  induction n generalizing box with
  | zero => exact Thins.refl box
  | succ n ih =>
    unfold evict
    split
    · exact (thins_eraseP _ box).trans (ih _)
    · exact Thins.refl box

theorem evict_events (limit n : Nat) (box : List Mail) :
    (evict limit n box).map Mail.event = (Plane.evict limit n (box.map Mail.event)).2 := by
  induction n generalizing box with
  | zero => rfl
  | succ n ih =>
    have hany : (box.map Mail.event).any (·.ephemeral) = box.any (·.ephemeral) := any_map
    unfold evict Plane.evict
    rw [length_map, hany]
    split
    · rw [ih, eraseP_map]
      rfl
    · rfl

theorem filter_events (box : List Mail) :
    (box.filter (!·.isFrame)).map Mail.event = (box.map Mail.event).filter (!·.isFrame) := by
  rw [filter_map]
  rfl

/-! ## What holds between sections -/

/-- The invariant of the mailbox and its drainers. -/
structure Inv (σ : MailRun) : Prop where
  hopen : σ.plane.closed = false
  events : σ.box.map Mail.event = σ.events
  idle : σ.running = false → σ.drainers = [] ∧ σ.box = []
  busy : σ.running = true → ∃ mail, σ.drainers = [⟨σ.entry, mail⟩]
  order : σ.kept.Sublist σ.queued
  sorted : σ.queued.Pairwise fun m n => m.arrival < n.arrival
  past : ∀ m ∈ σ.queued, m.arrival < σ.arrivals
  windows : Windowed Mail.starts Mail.carries none σ.kept
  accepted : σ.gen ≠ 0 → lastMark Mail.starts none σ.kept = some σ.gen
  control : ∀ m ∈ σ.queued, m.isFrame = false → m ∈ σ.kept
  room : σ.box.countP Mail.isFrame ≤ σ.plane.limit

/-! ## The moves -/

/-- Nothing is queued and nothing is taken. -/
structure Still (σ σ' : MailRun) : Prop where
  limit : σ'.plane.limit = σ.plane.limit
  closed : σ'.plane.closed = σ.plane.closed
  entry : σ'.entry = σ.entry
  drainers : σ'.drainers = σ.drainers
  arrivals : σ'.arrivals = σ.arrivals
  box : σ'.box = σ.box
  queued : σ'.queued = σ.queued
  handled : σ'.handled = σ.handled
  running : σ'.running = σ.running
  events : σ'.events = σ.events
  gen : σ'.gen = 0 ∨ σ'.gen = σ.gen

/-- `mail` is queued behind what is left of the mailbox. -/
structure Pushes (σ σ' : MailRun) (rest : List Mail) (mail : Mail) : Prop where
  limit : σ'.plane.limit = σ.plane.limit
  closed : σ'.plane.closed = σ.plane.closed
  entry : σ'.entry = σ.entry
  drainers : σ'.drainers = if σ.running then σ.drainers else σ.drainers ++ [⟨σ.entry, none⟩]
  box : σ'.box = rest ++ [mail]
  queued : σ'.queued = σ.queued ++ [mail]
  handled : σ'.handled = σ.handled
  running : σ'.running = true
  events : σ'.events = σ'.box.map Mail.event
  fresh : σ.arrivals ≤ mail.arrival
  past : mail.arrival < σ'.arrivals

/-- The tail is given up: every queued frame goes, no generation is accepted any more, and the
loss is queued behind all that is left. -/
structure Purges (σ σ' : MailRun) : Prop where
  accepted : σ.gen ≠ 0
  cleared : σ'.gen = 0
  lost : ∃ mail, mail.event = .lost ∧ mail ∉ σ.queued ∧ σ'.box = σ.box.filter (!·.isFrame) ++ [mail]

/-- What the drainer's sections leave alone. -/
structure Drains (σ σ' : MailRun) : Prop where
  limit : σ'.plane.limit = σ.plane.limit
  closed : σ'.plane.closed = σ.plane.closed
  arrivals : σ'.arrivals = σ.arrivals
  queued : σ'.queued = σ.queued
  events : σ'.events = σ'.box.map Mail.event
  gen : σ'.gen = 0 ∨ σ'.gen = σ.gen

/-- What one section can do. -/
inductive Move (σ σ' : MailRun) : Prop
  | still (h : Still σ σ')
  | control (mail : Mail) (h : Pushes σ σ' σ.box mail) (hframe : mail.isFrame = false)
      (hgen : σ'.gen = 0 ∨ mail.starts = some σ'.gen ∨ mail.starts = none ∧ σ'.gen = σ.gen)
  | frame (rest : List Mail) (mail : Mail) (h : Pushes σ σ' rest mail)
      (hthin : Thins Mail.ephemeral σ.box rest) (hcarries : mail.carries = some σ.gen)
      (hne : σ.gen ≠ 0) (hgen : σ'.gen = σ.gen) (hroom : rest.length < σ.plane.limit)
  | purge (mail : Mail) (h : Pushes σ σ' (σ.box.filter (!·.isFrame)) mail)
      (hlost : mail.event = .lost) (hne : σ.gen ≠ 0) (hgen : σ'.gen = 0)
  | take (mail : Mail) (h : Drains σ σ') (hentry : σ'.entry = σ.entry)
      (hrunning : σ'.running = σ.running) (hhandled : σ'.handled = σ.handled)
      (hbox : σ.box = mail :: σ'.box) (hbefore : σ.drainers = [⟨σ.entry, none⟩])
      (hafter : σ'.drainers = [⟨σ.entry, some mail⟩])
  | handled (mail : Mail) (h : Drains σ σ') (hentry : σ'.entry = σ.entry)
      (hrunning : σ'.running = σ.running) (hhandled : σ'.handled = σ.handled ++ [mail])
      (hbox : σ'.box = σ.box) (hbefore : σ.drainers = [⟨σ.entry, some mail⟩])
      (hafter : σ'.drainers = [⟨σ.entry, none⟩])
  | finish (h : Drains σ σ') (hrunning : σ'.running = false)
      (hhandled : σ'.handled = σ.handled) (hbox : σ.box = []) (hbox' : σ'.box = [])
      (hbefore : σ.drainers = [⟨σ.entry, none⟩]) (hafter : σ'.drainers = [])

variable {σ σ' : MailRun}

@[simp] theorem gen_some (h : σ.plane.session = some s) : σ.gen = s.gen := by
  rw [gen, h]
  rfl

theorem events_some (h : σ.plane.session = some s) : σ.events = s.events := by
  rw [events, h]
  rfl

theorem Inv.box_events (hinv : Inv σ) (hs : σ.plane.session = some s) :
    σ.box.map Mail.event = s.events := hinv.events.trans (events_some hs)

/-- The drainer that is found is the only one, and it runs for the session's entry. -/
theorem Inv.one_running (hinv : Inv σ) {i : Nat} {d : Drainer} (hi : σ.drainers[i]? = some d) :
    σ.running = true ∧ i = 0 ∧ d.entry = σ.entry ∧ σ.drainers = [d] := by
  cases hr : σ.running with
  | false =>
    rw [(hinv.idle hr).1] at hi
    cases hi
  | true =>
    obtain ⟨mail, hdrainers⟩ := hinv.busy hr
    rw [hdrainers] at hi ⊢
    cases i with
    | zero =>
      cases hi
      exact ⟨rfl, rfl, rfl, rfl⟩
    | succ i => cases hi

theorem push_pushes (hinv : Inv σ) {p : Plane} (s : SessionState) {rest : List Mail} (mail : Mail)
    (hlimit : p.limit = σ.plane.limit) (hclosed : p.closed = σ.plane.closed)
    (hrest : rest.map Mail.event = s.events) (hfresh : σ.arrivals ≤ mail.arrival) :
    Pushes σ (σ.push (p.pushLocked s mail.event) rest mail) rest mail ∧
      (σ.push (p.pushLocked s mail.event) rest mail).gen = s.gen := by
  have hpush : p.pushLocked s mail.event =
      { p with
        session := some { s with events := s.events ++ [mail.event], running := true } } := by
    rw [Plane.pushLocked, hclosed, hinv.hopen]
    rfl
  rw [hpush]
  refine ⟨⟨hlimit, hclosed, rfl, rfl, rfl, rfl, rfl, rfl, ?_, hfresh, Nat.lt_succ_self _⟩, rfl⟩
  rw [push, map_append, hrest]
  rfl

theorem Still.refl (σ : MailRun) : Still σ σ :=
  ⟨rfl, rfl, rfl, rfl, rfl, rfl, rfl, rfl, rfl, rfl, .inr rfl⟩

/-! ## The sections of the watcher -/

theorem watching_move (σ : MailRun) : Move σ { σ with plane := σ.plane.watching } := by
  refine .still ⟨rfl, rfl, rfl, rfl, rfl, rfl, rfl, rfl, ?_, ?_, .inr ?_⟩
  all_goals
    cases hs : σ.plane.session <;>
      simp [running, events, gen, Plane.watching, hs]

theorem served_move (σ : MailRun) : Move σ { σ with plane := σ.plane.served } := by
  refine .still ⟨rfl, rfl, rfl, rfl, rfl, rfl, rfl, rfl, ?_, ?_, .inr ?_⟩
  all_goals
    cases hs : σ.plane.session <;>
      simp [running, events, gen, Plane.served, hs]

theorem stopTail_move (σ : MailRun) : Move σ { σ with plane := σ.plane.stopTail } := by
  refine .still ⟨rfl, rfl, rfl, rfl, rfl, rfl, rfl, rfl, ?_, ?_, .inl ?_⟩
  all_goals
    cases hs : σ.plane.session <;>
      simp [running, events, gen, Plane.stopTail, hs]

theorem unwatched_move (hinv : Inv σ) : Move σ σ.unwatched := by
  unfold unwatched
  split
  · exact .still (Still.refl σ)
  next s hs =>
    have hbox := hinv.box_events hs
    have hplane : σ.plane.unwatched =
        σ.plane.pushLocked { s with watched := false, initial := false, gen := 0 } .forget := by
      simp only [Plane.unwatched, hs]
    rw [hplane]
    obtain ⟨hpush, hgen⟩ := push_pushes hinv
      { s with watched := false, initial := false, gen := 0 } ⟨σ.arrivals, 0, .forget⟩
      rfl rfl hbox le_rfl
    exact .control _ hpush rfl (.inl hgen)

/-! ## The sections of the sinks -/

theorem subscribed_move (hinv : Inv σ) (g : Nat) : Move σ (σ.subscribed g) := by
  unfold subscribed
  split
  · exact .still (Still.refl σ)
  next s hs =>
    have hbox := hinv.box_events hs
    split
    next hwatched =>
      have hplane : σ.plane.subscribed g =
          σ.plane.pushLocked { s with gen := g, initial := false } (.live s.initial) := by
        simp only [Plane.subscribed, hs, hwatched, if_true]
      rw [hplane]
      obtain ⟨hpush, hgen⟩ := push_pushes hinv { s with gen := g, initial := false }
        ⟨σ.arrivals, g, .live s.initial⟩ rfl rfl hbox le_rfl
      refine .control _ hpush rfl (.inr (.inl ?_))
      rw [hgen]
      rfl
    · exact .still (Still.refl σ)

theorem accepts_gen {g : Nat} (hs : σ.plane.session = some s) (h : s.accepts g = true) :
    σ.gen = g ∧ σ.gen ≠ 0 := by
  simp only [SessionState.accepts, Bool.and_eq_true, bne_iff_ne, beq_iff_eq] at h
  rw [gen_some hs]
  exact ⟨h.2, h.1.2⟩

theorem ended_move (hinv : Inv σ) (g : Nat) : Move σ (σ.ended g) := by
  unfold ended
  split
  · exact .still (Still.refl σ)
  next s hs =>
    have hbox := hinv.box_events hs
    split
    next haccepts =>
      have hplane : σ.plane.ended g = σ.plane.pushLocked { s with gen := 0 } .lost := by
        simp only [Plane.ended, hs, haccepts, if_true]
      rw [hplane]
      obtain ⟨hpush, hgen⟩ := push_pushes hinv { s with gen := 0 } ⟨σ.arrivals, g, .lost⟩
        rfl rfl hbox le_rfl
      exact .control _ hpush rfl (.inl hgen)
    · exact .still (Still.refl σ)

theorem restored_move (hinv : Inv σ) (g : Nat) : Move σ (σ.restored g) := by
  unfold restored
  split
  · exact .still (Still.refl σ)
  next s hs =>
    split
    next hwatched =>
      have hplane : σ.plane.restored = σ.plane.pushLocked s .restored := by
        simp only [Plane.restored, hs, hwatched, if_true]
      rw [hplane]
      obtain ⟨hpush, hgen⟩ := push_pushes hinv s ⟨σ.arrivals, g, .restored⟩
        rfl rfl (hinv.box_events hs) le_rfl
      refine .control _ hpush rfl (.inr (.inr ⟨rfl, ?_⟩))
      rw [hgen, gen_some hs]
    · exact .still (Still.refl σ)

/-- What a publication of the accepted generation does: an ephemeral one may be dropped on
arrival, one that is not is queued, after dropping ephemeral ones, or gives the tail up. -/
inductive Published (cfg : Config) (σ σ' : MailRun) (g : Nat) (data : Bytes) : Prop
  | dropped (hephemeral : droppableEphemeral cfg data = true) (h : Still σ σ')
  | queued (rest : List Mail)
      (h : Pushes σ σ' rest ⟨σ.arrivals, g, .frame data (droppableEphemeral cfg data)⟩)
      (hthin : Thins Mail.ephemeral σ.box rest) (hgen : σ'.gen = σ.gen)
      (hroom : rest.length < σ.plane.limit)
  | purged (mail : Mail) (h : Pushes σ σ' (σ.box.filter (!·.isFrame)) mail)
      (hlost : mail.event = .lost) (hgen : σ'.gen = 0)

/-- What an accepted publication does to the mailbox. -/
theorem publication_published (cfg : Config) (hinv : Inv σ) (hs : σ.plane.session = some s)
    {g : Nat} (haccepts : s.accepts g = true) (data : Bytes) :
    Published cfg σ (σ.publication cfg g data) g data := by
  have hbox := hinv.box_events hs
  have hlen : s.events.length = σ.box.length := by rw [← hbox, length_map]
  have hevict := evict_events σ.plane.limit σ.box.length σ.box
  rw [hbox] at hevict
  simp only [publication, hs, haccepts, if_true, Plane.publication, hlen]
  split
  next hfull =>
    cases hephemeral : droppableEphemeral cfg data with
    | true =>
      refine .dropped hephemeral ⟨rfl, rfl, rfl, rfl, rfl, rfl, rfl, rfl, ?_, ?_, .inr ?_⟩
      all_goals simp [running, events, gen, hs]
    | false =>
      simp only [Bool.false_eq_true, if_false]
      rw [← hevict, length_map]
      split
      · rw [← filter_events, (thins_evict _ _ σ.box).imp Mail.isFrame_of_ephemeral |>.filter_not]
        have hlost (p : Plane) (hp : p.limit = σ.plane.limit ∧ p.closed = σ.plane.closed) :=
          push_pushes hinv (p := p)
            { s with events := (σ.box.filter (!·.isFrame)).map Mail.event, gen := 0 }
            ⟨σ.arrivals + 1, 0, .lost⟩ hp.1 hp.2 rfl (Nat.le_succ _)
        refine .purged _ (hlost _ ?_).1 rfl (hlost _ ?_).2
        all_goals exact ⟨rfl, rfl⟩
      next hroom =>
        have hframe (p : Plane) (hp : p.limit = σ.plane.limit ∧ p.closed = σ.plane.closed) :=
          push_pushes hinv (p := p)
            { s with events := (evict σ.plane.limit σ.box.length σ.box).map Mail.event }
            ⟨σ.arrivals, g, .frame data false⟩ hp.1 hp.2 rfl le_rfl
        rw [← hephemeral] at hframe ⊢
        refine .queued _ (hframe _ ?_).1 (thins_evict _ _ σ.box) ((hframe _ ?_).2.trans ?_)
          (Nat.lt_of_not_le hroom)
        · exact ⟨rfl, rfl⟩
        · exact ⟨rfl, rfl⟩
        · rw [gen_some hs]
  next hroom =>
    obtain ⟨hpush, hgen⟩ := push_pushes hinv s
      ⟨σ.arrivals, g, .frame data (droppableEphemeral cfg data)⟩ rfl rfl hbox le_rfl
    refine .queued _ hpush (Thins.refl _) ?_ (Nat.lt_of_not_le hroom)
    rw [gen_some hs]
    exact hgen

theorem publication_move (cfg : Config) (hinv : Inv σ) (g : Nat) (data : Bytes) :
    Move σ (σ.publication cfg g data) := by
  cases hs : σ.plane.session with
  | none =>
    simp only [publication, hs]
    exact .still (Still.refl σ)
  | some s =>
    cases haccepts : s.accepts g with
    | false =>
      simp only [publication, hs, haccepts, Bool.false_eq_true, if_false]
      exact .still (Still.refl σ)
    | true =>
      obtain ⟨rfl, hne⟩ := accepts_gen hs haccepts
      cases publication_published cfg hinv hs haccepts data with
      | dropped _ h => exact .still h
      | queued rest h hthin hgen hroom => exact .frame rest _ h hthin rfl hne hgen hroom
      | purged mail h hlost hgen => exact .purge mail h hlost hne hgen

/-! ## The sections of the drainer -/

/-- A drain takes the oldest event. -/
theorem plane_drain_cons (hinv : Inv σ) (hs : σ.plane.session = some s) {m : Mail} {box : List Mail}
    (hbox : σ.box = m :: box) :
    σ.plane.drain = (some m.event, { σ.plane with
      session := some { s with events := box.map Mail.event } }) := by
  have hevents : s.events = m.event :: box.map Mail.event := by
    rw [← events_some hs, ← hinv.events, hbox, map_cons]
  simp only [Plane.drain, hs, hinv.hopen, hevents]

theorem drain_move (hinv : Inv σ) {i entry : Nat} (hi : σ.drainers[i]? = some ⟨entry, none⟩) :
    Move σ (σ.drain i entry) := by
  obtain ⟨hrunning, rfl, rfl, hdrainers⟩ := hinv.one_running hi
  cases hs : σ.plane.session with
  | none =>
    rw [running, hs] at hrunning
    cases hrunning
  | some s =>
    have hbox := hinv.box_events hs
    cases hmail : σ.box with
    | nil =>
      rw [hmail] at hbox
      have hdrain : σ.plane.drain = (none, { σ.plane with
          session := if s.watched then some { s with events := [], running := false }
            else none }) := by
        simp only [Plane.drain, hs, hinv.hopen, ← hbox, map_nil]
      simp only [drain, if_true, hdrain, hmail]
      cases s.watched with
      | true =>
        refine .finish ⟨rfl, rfl, rfl, rfl, rfl, .inr ?_⟩ rfl rfl hmail rfl hdrainers ?_
        · rw [gen_some hs]
          rfl
        · simp only [hdrainers]
          rfl
      | false =>
        refine .finish ⟨rfl, rfl, rfl, rfl, rfl, .inl rfl⟩ rfl rfl hmail rfl hdrainers ?_
        simp only [hdrainers]
        rfl
    | cons m box =>
      simp only [drain, if_true, plane_drain_cons hinv hs hmail, hmail]
      refine .take m ⟨rfl, rfl, rfl, rfl, rfl, .inr ?_⟩ rfl ?_ rfl hmail hdrainers ?_
      · rw [gen_some hs]
        rfl
      · unfold running
        rw [hs]
        rfl
      · simp only [hdrainers]
        rfl

theorem handle_move (hinv : Inv σ) {i entry : Nat} {mail : Mail}
    (hi : σ.drainers[i]? = some ⟨entry, some mail⟩) :
    Move σ { σ with
      drainers := σ.drainers.set i { entry := entry }
      handled := σ.handled ++ [mail] } := by
  obtain ⟨-, rfl, rfl, hdrainers⟩ := hinv.one_running hi
  refine .handled mail ⟨rfl, rfl, rfl, rfl, hinv.events.symm, .inr rfl⟩ rfl rfl rfl rfl hdrainers ?_
  simp only [hdrainers]
  rfl

/-- Every section is one of the moves. -/
theorem step_move {cfg : Config} {a : MailAct} (hinv : Inv σ) (h : step cfg σ a = some σ') :
    Move σ σ' := by
  cases a with
  | watching => cases h; exact watching_move σ
  | served => cases h; exact served_move σ
  | unwatched => cases h; exact unwatched_move hinv
  | stopTail => cases h; exact stopTail_move σ
  | newSink =>
    cases h
    exact .still ⟨rfl, rfl, rfl, rfl, rfl, rfl, rfl, rfl, rfl, rfl, .inr rfl⟩
  | subscribed g =>
    obtain ⟨_, ⟨⟩⟩ := Option.ite_none_right_eq_some.mp h
    exact subscribed_move hinv g
  | publication g data =>
    obtain ⟨_, ⟨⟩⟩ := Option.ite_none_right_eq_some.mp h
    exact publication_move cfg hinv g data
  | ended g =>
    obtain ⟨_, ⟨⟩⟩ := Option.ite_none_right_eq_some.mp h
    exact ended_move hinv g
  | restored g =>
    obtain ⟨_, ⟨⟩⟩ := Option.ite_none_right_eq_some.mp h
    exact restored_move hinv g
  | drain i =>
    simp only [step] at h
    split at h
    next entry hi =>
      cases h
      exact drain_move hinv hi
    · cases h
  | handle i =>
    simp only [step] at h
    split at h
    next entry mail hi =>
      cases h
      exact handle_move hinv hi
    · cases h

end MailRun

end Factory.Livetail
