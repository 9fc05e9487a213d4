import Factory.Livetail.MailboxMoves

/-!
# No event is lost but with its tail

The invariant of the mailbox is kept by every section (`MailRun.Inv.move`), so it holds in every
state any interleaving reaches. What it leaves open is what becomes of a frame: `kept_or` says
that a section drops one only if it is ephemeral or if the section gives the tail up, and
`exists_drained` that the drainer, left alone, handles everything that was not dropped.
-/

namespace Factory.Livetail

open List Factory.Routing Marked

variable {cfg : Config} {acts : List MailAct} {m : Mail}

namespace MailRun

variable {σ σ' : MailRun}

/-! ## The invariant -/

theorem init_inv (limit : Nat) (hlimit : 0 < limit) : Inv (init limit hlimit) where
  hopen := rfl
  events := rfl
  idle _ := ⟨rfl, rfl⟩
  busy h := nomatch h
  order := List.Sublist.refl _
  sorted := List.Pairwise.nil
  past _ h := absurd h not_mem_nil
  windows := trivial
  accepted h := absurd rfl h
  control _ h := absurd h not_mem_nil
  room := Nat.zero_le _

theorem Still.kept (h : Still σ σ') : σ'.kept = σ.kept := by
  simp only [MailRun.kept, inHand, h.handled, h.drainers, h.box]

variable {rest : List Mail} {mail : Mail}

theorem Pushes.kept (h : Pushes σ σ' rest mail) :
    σ'.kept = (σ.handled ++ σ.inHand ++ rest) ++ [mail] := by
  have hhand : σ'.inHand = σ.inHand := by
    rw [inHand, h.drainers]
    split
    · rfl
    · rw [filterMap_append]
      exact append_nil _
  rw [MailRun.kept, h.handled, hhand, h.box, append_assoc _ rest]

theorem Inv.push (hinv : Inv σ) (h : Pushes σ σ' rest mail)
    (hthin : Thins Mail.isFrame σ.box rest)
    (hcarries : ∀ g, mail.carries = some g → σ.gen ≠ 0 ∧ σ.gen = g ∧ rest.length < σ.plane.limit)
    (hgen : σ'.gen = 0 ∨ mail.starts = some σ'.gen ∨ mail.starts = none ∧ σ'.gen = σ.gen) :
    Inv σ' := by
  have hwhole : Thins Mail.isFrame σ.kept (σ.handled ++ σ.inHand ++ rest) :=
    hthin.append_left _
  have hmark := hwhole.lastMark (g := none) Mail.starts_of_isFrame
  constructor
  case hopen => exact h.closed.trans hinv.hopen
  case events => exact h.events.symm
  case idle =>
    intro hr
    cases h.running.symm.trans hr
  case busy =>
    intro _
    rw [h.drainers, h.entry]
    cases hr : σ.running with
    | true =>
      exact hinv.busy hr
    | false =>
      rw [if_neg Bool.false_ne_true, (hinv.idle hr).1]
      exact ⟨none, rfl⟩
  case order =>
    rw [h.kept, h.queued]
    exact (hwhole.sublist.trans hinv.order).append (List.Sublist.refl _)
  case sorted =>
    rw [h.queued, pairwise_append]
    refine ⟨hinv.sorted, pairwise_singleton _ _, ?_⟩
    intro m hm n hn
    rw [mem_singleton.mp hn]
    exact (hinv.past m hm).trans_le h.fresh
  case past =>
    intro m hm
    rw [h.queued] at hm
    rcases mem_append.mp hm with hm | hm
    · exact ((hinv.past m hm).trans_le h.fresh).trans h.past
    · rw [mem_singleton.mp hm]
      exact h.past
  case windows =>
    rw [h.kept, windowed_append]
    refine ⟨hwhole.windowed Mail.starts_of_isFrame hinv.windows, ?_, trivial⟩
    intro g hg
    obtain ⟨hne, rfl, _⟩ := hcarries g hg
    rw [hmark]
    exact hinv.accepted hne
  case accepted =>
    intro hne
    rw [h.kept, lastMark_snoc]
    rcases hgen with hzero | hstarts | ⟨hstarts, hsame⟩
    · exact absurd hzero hne
    · rw [hstarts]
      rfl
    · rw [hsame] at hne ⊢
      rw [hstarts, Option.none_or, hmark]
      exact hinv.accepted hne
  case control =>
    intro m hm hframe
    rw [h.kept]
    rw [h.queued] at hm
    rcases mem_append.mp hm with hm | hm
    · rcases hwhole.mem_or (hinv.control m hm hframe) with hmem | hdrop
      · exact mem_append_left _ hmem
      · cases hframe.symm.trans hdrop
    · exact mem_append_right _ hm
  case room =>
    rw [h.box, h.limit, countP_append, countP_singleton]
    split
    next hframe =>
      -- a frame is queued only while the whole mailbox is below the limit
      obtain ⟨g, hg⟩ : ∃ g, mail.carries = some g := Mail.carries_of_isFrame hframe
      have hle : rest.countP Mail.isFrame ≤ rest.length := countP_le_length
      have hroom := (hcarries g hg).2.2
      omega
    · exact (hthin.sublist.countP_le).trans hinv.room

theorem Inv.drains (hinv : Inv σ) (h : Drains σ σ') (hkept : σ'.kept = σ.kept)
    (hidle : σ'.running = false → σ'.drainers = [] ∧ σ'.box = [])
    (hbusy : σ'.running = true → ∃ mail, σ'.drainers = [⟨σ'.entry, mail⟩])
    (hbox : σ'.box.Sublist σ.box) : Inv σ' where
  hopen := h.closed.trans hinv.hopen
  events := h.events.symm
  idle := hidle
  busy := hbusy
  order := by
    rw [hkept, h.queued]
    exact hinv.order
  sorted := by
    rw [h.queued]
    exact hinv.sorted
  past m hm := by
    rw [h.queued] at hm
    rw [h.arrivals]
    exact hinv.past m hm
  windows := by
    rw [hkept]
    exact hinv.windows
  accepted hne := by
    rcases h.gen with hgen | hgen
    · exact absurd hgen hne
    · rw [hgen] at hne ⊢
      rw [hkept]
      exact hinv.accepted hne
  control m hm hframe := by
    rw [h.queued] at hm
    rw [hkept]
    exact hinv.control m hm hframe
  room := by
    rw [h.limit]
    exact hbox.countP_le.trans hinv.room

theorem Inv.still (hinv : Inv σ) (h : Still σ σ') : Inv σ' := by
  have hevents : σ'.events = σ'.box.map Mail.event := by rw [h.events, h.box, hinv.events]
  refine hinv.drains ⟨h.limit, h.closed, h.arrivals, h.queued, hevents, h.gen⟩ h.kept ?_ ?_ ?_
  · rw [h.running, h.drainers, h.box]
    exact hinv.idle
  · rw [h.running, h.drainers, h.entry]
    exact hinv.busy
  · rw [h.box]

theorem inHand_one {e : Nat} {held : Option Mail} (h : σ.drainers = [⟨e, held⟩]) :
    σ.inHand = held.toList := by
  rw [inHand, h]
  cases held <;> rfl

theorem kept_take (hhandled : σ'.handled = σ.handled) (hbox : σ.box = mail :: σ'.box)
    (hbefore : σ.drainers = [⟨σ.entry, none⟩])
    (hafter : σ'.drainers = [⟨σ.entry, some mail⟩]) : σ'.kept = σ.kept := by
  rw [kept, kept, inHand_one hbefore, inHand_one hafter, hhandled, hbox]
  simp only [Option.toList_some, Option.toList_none, append_nil, append_assoc, singleton_append]

theorem kept_handled (hhandled : σ'.handled = σ.handled ++ [mail]) (hbox : σ'.box = σ.box)
    (hbefore : σ.drainers = [⟨σ.entry, some mail⟩])
    (hafter : σ'.drainers = [⟨σ.entry, none⟩]) : σ'.kept = σ.kept := by
  rw [kept, kept, inHand_one hbefore, inHand_one hafter, hhandled, hbox]
  simp only [Option.toList_some, Option.toList_none, append_nil]

theorem kept_finish (hhandled : σ'.handled = σ.handled) (hbox : σ.box = []) (hbox' : σ'.box = [])
    (hbefore : σ.drainers = [⟨σ.entry, none⟩]) (hafter : σ'.drainers = []) :
    σ'.kept = σ.kept := by
  have hhand : σ'.inHand = [] := by
    rw [inHand, hafter]
    rfl
  rw [kept, kept, inHand_one hbefore, hhand, hhandled, hbox, hbox']
  rfl

theorem Inv.move (hinv : Inv σ) (h : Move σ σ') : Inv σ' := by
  cases h with
  | still h => exact hinv.still h
  | control mail h hframe hgen =>
    refine hinv.push h (Thins.refl _) ?_ hgen
    intro g hg
    rw [Mail.carries_of_not_frame hframe] at hg
    cases hg
  | frame rest mail h hthin hcarries hne hgen hroom =>
    refine hinv.push h (hthin.imp Mail.isFrame_of_ephemeral) ?_ ?_
    · intro g hg
      rw [hcarries] at hg
      exact ⟨hne, Option.some.inj hg, hroom⟩
    · exact .inr (.inr ⟨Mail.starts_of_carries hcarries, hgen⟩)
  | purge mail h hlost hne hgen =>
    refine hinv.push h (thins_filter _ _) ?_ (.inl hgen)
    intro g hg
    rw [Mail.carries, hlost] at hg
    cases hg
  | take mail h hentry hrunning hhandled hbox hbefore hafter =>
    refine hinv.drains h (kept_take hhandled hbox hbefore hafter) ?_ ?_ ?_
    · intro hr
      rw [hrunning] at hr
      rw [(hinv.idle hr).1] at hbefore
      cases hbefore
    · intro _
      exact ⟨some mail, by rw [hafter, hentry]⟩
    · rw [hbox]
      exact sublist_cons_self _ _
  | handled mail h hentry hrunning hhandled hbox hbefore hafter =>
    refine hinv.drains h (kept_handled hhandled hbox hbefore hafter) ?_ ?_ ?_
    · intro hr
      rw [hrunning] at hr
      rw [(hinv.idle hr).1] at hbefore
      cases hbefore
    · intro _
      exact ⟨none, by rw [hafter, hentry]⟩
    · rw [hbox]
  | finish h hrunning hhandled hbox hbox' hbefore hafter =>
    refine hinv.drains h (kept_finish hhandled hbox hbox' hbefore hafter) ?_ ?_ ?_
    · intro _
      exact ⟨hafter, hbox'⟩
    · intro hr
      cases hrunning.symm.trans hr
    · rw [hbox, hbox']

theorem run_inv {limit : Nat} {hlimit : 0 < limit}
    (hrun : Runs.exec (step cfg) (init limit hlimit) acts = some σ) : Inv σ :=
  Runs.exec_invariant (fun _ _ _ hstep hinv => hinv.move (step_move hinv hstep)) hrun
    (init_inv limit hlimit)

/-! ## What is dropped -/

theorem Purges.of_pushes (hinv : Inv σ)
    (h : Pushes σ σ' (σ.box.filter (!·.isFrame)) mail) (hlost : mail.event = .lost)
    (hne : σ.gen ≠ 0) (hgen : σ'.gen = 0) : Purges σ σ' := by
  refine ⟨hne, hgen, mail, hlost, ?_, h.box⟩
  intro hmem
  exact Nat.lt_irrefl _ ((hinv.past mail hmem).trans_le h.fresh)

theorem kept_or (hinv : Inv σ) (h : Move σ σ') (hm : m ∈ σ.kept) :
    m ∈ σ'.kept ∨ m.ephemeral = true ∨ Purges σ σ' := by
  cases h with
  | still h =>
    rw [h.kept]
    exact .inl hm
  | control mail h _ _ =>
    rw [h.kept]
    exact .inl (mem_append_left _ hm)
  | frame rest mail h hthin _ _ _ _ =>
    rw [h.kept]
    rcases (hthin.append_left (σ.handled ++ σ.inHand)).mem_or hm with hmem | hdrop
    · exact .inl (mem_append_left _ hmem)
    · exact .inr (.inl hdrop)
  | purge mail h hlost hne hgen => exact .inr (.inr (Purges.of_pushes hinv h hlost hne hgen))
  | take mail _ _ _ hhandled hbox hbefore hafter =>
    rw [kept_take hhandled hbox hbefore hafter]
    exact .inl hm
  | handled mail _ _ _ hhandled hbox hbefore hafter =>
    rw [kept_handled hhandled hbox hbefore hafter]
    exact .inl hm
  | finish _ _ hhandled hbox hbox' hbefore hafter =>
    rw [kept_finish hhandled hbox hbox' hbefore hafter]
    exact .inl hm

/-- A section that gave the tail up happened in a run. -/
def GivenUp (cfg : Config) (σ τ : MailRun) (acts : List MailAct) (m : Mail) : Prop :=
  ∃ before a after u v, acts = before ++ a :: after ∧
    Runs.exec (step cfg) σ before = some u ∧ step cfg u a = some v ∧
    Runs.exec (step cfg) v after = some τ ∧ Purges u v ∧ m ∉ v.kept

theorem kept_or_givenUp {τ : MailRun} (hinv : Inv σ) (hrun : Runs.exec (step cfg) σ acts = some τ)
    (hm : m ∈ σ.kept) (hephemeral : m.ephemeral = false) : m ∈ τ.kept ∨ GivenUp cfg σ τ acts m := by
  by_cases hmem : m ∈ τ.kept
  · exact .inl hmem
  · right
    obtain ⟨before, a, after, u, v, hacts, hu, hkept, hstep, hv, hrest⟩ :=
      Runs.exists_step_of_exec (P := fun τ => m ∉ τ.kept) hrun (not_not_intro hm) hmem
    have hinvu : Inv u := Runs.exec_invariant
      (fun _ _ _ hstep hinv => hinv.move (step_move hinv hstep)) hu hinv
    rcases kept_or hinvu (step_move hinvu hstep) (not_not.mp hkept) with hin | hdrop | hpurge
    · exact absurd hin hv
    · cases hephemeral.symm.trans hdrop
    · exact ⟨before, a, after, u, v, hacts, hu, hstep, hrest, hpurge, hv⟩

/-! ## The drainer left alone -/

/-- The sections of the drainer. -/
def Draining (acts : List MailAct) : Prop := ∀ a ∈ acts, a = .drain 0 ∨ a = .handle 0

theorem exists_emptied (cfg : Config) (box : List Mail) {σ : MailRun} (hinv : Inv σ)
    (hbox : σ.box = box) (hdrainers : σ.drainers = [⟨σ.entry, none⟩]) :
    ∃ acts τ, Draining acts ∧ Runs.exec (step cfg) σ acts = some τ ∧ τ.handled = σ.kept := by
  induction box generalizing σ with
  | nil =>
    refine ⟨[], σ, by simp [Draining], rfl, ?_⟩
    rw [kept, inHand_one hdrainers, hbox]
    simp only [Option.toList_none, append_nil]
  | cons m box ih =>
    have hrunning := (hinv.one_running (i := 0) (by rw [hdrainers]; rfl)).1
    cases hs : σ.plane.session with
    | none =>
      rw [running, hs] at hrunning
      cases hrunning
    | some s =>
      -- the event is taken and handled, and the rest is as before
      have hdrain : ∃ p : Plane, σ.drain 0 σ.entry =
          { σ with plane := p, box := box, drainers := [⟨σ.entry, some m⟩] } := by
        simp only [drain, if_true, plane_drain_cons hinv hs hbox, hbox, hdrainers]
        exact ⟨_, rfl⟩
      obtain ⟨p, hp⟩ := hdrain
      have htake : step cfg σ (.drain 0) =
          some { σ with plane := p, box := box, drainers := [⟨σ.entry, some m⟩] } := by
        simp only [step, hdrainers, getElem?_cons_zero, hp]
      have hhandle : step cfg { σ with plane := p, box := box, drainers := [⟨σ.entry, some m⟩] }
          (.handle 0) = some { σ with
            plane := p, box := box, drainers := [⟨σ.entry, none⟩], handled := σ.handled ++ [m] } :=
        rfl
      have hinv' := hinv.move (step_move hinv htake)
      obtain ⟨acts, τ, hacts, hrun, hhandled⟩ := ih (hinv'.move (step_move hinv' hhandle)) rfl rfl
      refine ⟨.drain 0 :: .handle 0 :: acts, τ, ?_, ?_, ?_⟩
      · simpa [Draining] using hacts
      · exact Runs.exec_cons.mpr ⟨_, htake, Runs.exec_cons.mpr ⟨_, hhandle, hrun⟩⟩
      · rw [hhandled]
        simp only [kept, inHand_one hdrainers, hbox]
        simp [inHand]

theorem exists_drained (cfg : Config) (hinv : Inv σ) :
    ∃ acts τ, Draining acts ∧ Runs.exec (step cfg) σ acts = some τ ∧ τ.handled = σ.kept := by
  cases hrunning : σ.running with
  | false =>
    obtain ⟨hdrainers, hbox⟩ := hinv.idle hrunning
    refine ⟨[], σ, by simp [Draining], rfl, ?_⟩
    simp only [kept, inHand, hdrainers, hbox, filterMap_nil, append_nil]
  | true =>
    obtain ⟨held, hdrainers⟩ := hinv.busy hrunning
    cases held with
    | none => exact exists_emptied cfg σ.box hinv rfl hdrainers
    | some m =>
      have hhandle : step cfg σ (.handle 0) = some { σ with
          drainers := [⟨σ.entry, none⟩], handled := σ.handled ++ [m] } := by
        simp only [step, hdrainers, getElem?_cons_zero]
        rfl
      have hinv' := hinv.move (step_move hinv hhandle)
      obtain ⟨acts, τ, hacts, hrun, hhandled⟩ := exists_emptied cfg σ.box hinv' rfl rfl
      refine ⟨.handle 0 :: acts, τ, ?_, Runs.exec_cons.mpr ⟨_, hhandle, hrun⟩, ?_⟩
      · simpa [Draining] using hacts
      · rw [hhandled]
        exact kept_handled rfl rfl hdrainers rfl

/-! ## Where events come from -/

end MailRun

/-- The section queues the event. -/
def MailAct.Queues (cfg : Config) (m : Mail) : MailAct → Prop
  | .unwatched => m.event = .forget
  | .subscribed gen => m.gen = gen ∧ ∃ initial, m.event = .live initial
  | .publication gen data =>
    m.event = .lost ∨ m.gen = gen ∧ m.event = .frame data (droppableEphemeral cfg data)
  | .ended _ => m.event = .lost
  | .restored _ => m.event = .restored
  | _ => False

namespace MailRun

variable {σ σ' : MailRun}

theorem push_queued {plane : Plane} {rest : List Mail} {mail : Mail}
    (h : m ∈ (σ.push plane rest mail).queued) : m ∈ σ.queued ∨ m = mail := by
  rcases mem_append.mp h with h | h
  · exact .inl h
  · exact .inr (mem_singleton.mp h)

theorem publication_queued {g : Nat} {data : Bytes} (h : m ∈ (σ.publication cfg g data).queued) :
    m ∈ σ.queued ∨ MailAct.Queues cfg m (.publication g data) := by
  simp only [publication] at h
  split at h
  · exact .inl h
  · split at h
    · split at h
      · split at h
        · exact .inl h
        · split at h
          · refine (push_queued h).imp_right fun heq => .inl ?_
            rw [heq]
          · refine (push_queued h).imp_right fun heq => .inr ?_
            rw [heq]
            exact ⟨rfl, rfl⟩
      · refine (push_queued h).imp_right fun heq => .inr ?_
        rw [heq]
        exact ⟨rfl, rfl⟩
    · exact .inl h

theorem drain_queued (σ : MailRun) (i entry : Nat) : (σ.drain i entry).queued = σ.queued := by
  unfold drain
  split
  · split <;> rfl
  · rfl

theorem step_queues {a : MailAct} (h : step cfg σ a = some σ') (hm : m ∈ σ'.queued) :
    m ∈ σ.queued ∨ a.Queues cfg m := by
  cases a with
  | watching | served | stopTail | newSink => cases h; exact .inl hm
  | unwatched =>
    cases h
    unfold unwatched at hm
    split at hm
    · exact .inl hm
    · refine (push_queued hm).imp_right fun heq => ?_
      rw [heq]
      rfl
  | subscribed g =>
    obtain ⟨_, ⟨⟩⟩ := Option.ite_none_right_eq_some.mp h
    unfold subscribed at hm
    split at hm
    · exact .inl hm
    · split at hm
      · refine (push_queued hm).imp_right fun heq => ?_
        rw [heq]
        exact ⟨rfl, _, rfl⟩
      · exact .inl hm
  | publication g data =>
    obtain ⟨_, ⟨⟩⟩ := Option.ite_none_right_eq_some.mp h
    exact publication_queued hm
  | ended g =>
    obtain ⟨_, ⟨⟩⟩ := Option.ite_none_right_eq_some.mp h
    unfold ended at hm
    split at hm
    · exact .inl hm
    · split at hm
      · refine (push_queued hm).imp_right fun heq => ?_
        rw [heq]
        rfl
      · exact .inl hm
  | restored g =>
    obtain ⟨_, ⟨⟩⟩ := Option.ite_none_right_eq_some.mp h
    unfold restored at hm
    split at hm
    · exact .inl hm
    · split at hm
      · refine (push_queued hm).imp_right fun heq => ?_
        rw [heq]
        rfl
      · exact .inl hm
  | drain i =>
    simp only [step] at h
    split at h
    · cases h
      rw [drain_queued] at hm
      exact .inl hm
    · cases h
  | handle i =>
    simp only [step] at h
    split at h
    · cases h
      exact .inl hm
    · cases h

theorem run_sources {limit : Nat} {hlimit : 0 < limit}
    (hrun : Runs.exec (step cfg) (init limit hlimit) acts = some σ) :
    ∀ m ∈ σ.queued, ∃ a ∈ acts, a.Queues cfg m := by
  refine Runs.exec_history (I := fun acts σ => ∀ m ∈ σ.queued, ∃ a ∈ acts, a.Queues cfg m)
    (fun m hm => absurd hm not_mem_nil) ?_ hrun
  intro before u a v _ hu hstep m hm
  rcases step_queues hstep hm with hm | hqueues
  · obtain ⟨b, hb, hqueues⟩ := hu m hm
    exact ⟨b, mem_append_left _ hb, hqueues⟩
  · exact ⟨a, mem_append_right _ mem_cons_self, hqueues⟩

theorem run_limit {limit : Nat} {hlimit : 0 < limit}
    (hrun : Runs.exec (step cfg) (init limit hlimit) acts = some σ) : σ.plane.limit = limit := by
  apply Runs.exec_invariant_under (fun _ _ _ hstep hinv => hinv.move (step_move hinv hstep)) hrun
    (init_inv limit hlimit)
  · rfl
  intro s a t hinv hstep hs
  rw [← hs]
  cases step_move hinv hstep with
  | still h => exact h.limit
  | control _ h => exact h.limit
  | frame _ _ h => exact h.limit
  | purge _ h => exact h.limit
  | take _ h => exact h.limit
  | handled _ h => exact h.limit
  | finish h => exact h.limit

/-! ## The mailbox in every run -/

/-- What a run that ends in `σ` has kept of its events. -/
structure Delivers (cfg : Config) (limit : Nat) (hlimit : 0 < limit) (acts : List MailAct)
    (σ : MailRun) : Prop where
  /-- At most one drainer runs. -/
  one_drainer : σ.drainers.length ≤ 1
  /-- The mailbox is the plane's. -/
  events : σ.box.map Mail.event = σ.events
  sources : ∀ m ∈ σ.queued, ∃ a ∈ acts, a.Queues cfg m
  /-- What was handled, is in hand or waits is in the order it was queued, and so arrived. -/
  order : σ.kept.Sublist σ.queued
  arrival : σ.queued.Pairwise fun m n => m.arrival < n.arrival
  /-- The tail a frame belongs to is the last one that was started before it. -/
  windows : ∀ before m after g, σ.handled = before ++ m :: after → m.carries = some g →
    lastMark Mail.starts none before = some g
  /-- A publication of the accepted generation that is not ephemeral is dropped only with
  the tail. -/
  published : ∀ before g data after u s, acts = before ++ .publication g data :: after →
    Runs.exec (step cfg) (init limit hlimit) before = some u → u.plane.session = some s →
    s.accepts g = true → droppableEphemeral cfg data = false →
      ⟨u.arrivals, g, .frame data false⟩ ∈ σ.kept ∨
        GivenUp cfg u σ (.publication g data :: after) ⟨u.arrivals, g, .frame data false⟩
  /-- What is no frame is never dropped. -/
  control : ∀ m ∈ σ.queued, m.isFrame = false → m ∈ σ.kept
  /-- Short of giving the tail up, a section drops ephemeral frames only. -/
  evicted : ∀ a σ', step cfg σ a = some σ' → ∀ m ∈ σ.kept,
    m ∈ σ'.kept ∨ m.ephemeral = true ∨ Purges σ σ'
  room : σ.box.countP Mail.isFrame ≤ limit
  /-- The drainer, left alone, handles everything that was not dropped. -/
  drained : ∃ more τ, Draining more ∧ Runs.exec (step cfg) σ more = some τ ∧ τ.handled = σ.kept

theorem Inv.one_drainer (hinv : Inv σ) : σ.drainers.length ≤ 1 := by
  cases hr : σ.running with
  | false =>
    rw [(hinv.idle hr).1]
    exact Nat.zero_le 1
  | true =>
    obtain ⟨mail, hdrainers⟩ := hinv.busy hr
    rw [hdrainers]
    exact Nat.le_refl 1

/-- A publication of the accepted generation that is not ephemeral, from the section it arrives
in to the end of the run. -/
theorem published_or_givenUp (hinv : Inv σ) {s : SessionState} {τ : MailRun} {g : Nat}
    {data : Bytes} {after : List MailAct}
    (hrun : Runs.exec (step cfg) σ (.publication g data :: after) = some τ)
    (hs : σ.plane.session = some s) (haccepts : s.accepts g = true)
    (hdata : droppableEphemeral cfg data = false) :
    ⟨σ.arrivals, g, .frame data false⟩ ∈ τ.kept ∨
      GivenUp cfg σ τ (.publication g data :: after) ⟨σ.arrivals, g, .frame data false⟩ := by
  obtain ⟨v, hstep, hrest⟩ := Runs.exec_cons.mp hrun
  have hv : v = σ.publication cfg g data := by
    obtain ⟨_, ⟨⟩⟩ := Option.ite_none_right_eq_some.mp hstep
    rfl
  have hinvv : Inv v := hinv.move (step_move hinv hstep)
  have hpub := publication_published cfg hinv hs haccepts data
  rw [← hv] at hpub
  cases hpub with
  | dropped hephemeral _ =>
    cases hdata.symm.trans hephemeral
  | queued rest h _ _ _ =>
    rw [hdata] at h
    have hmem : ⟨σ.arrivals, g, .frame data false⟩ ∈ v.kept := by
      rw [h.kept]
      exact mem_append_right _ mem_cons_self
    -- from here on it is one of the events that are kept
    refine (kept_or_givenUp hinvv hrest hmem rfl).imp_right ?_
    rintro ⟨before, a, later, u, w, rfl, hu, hw, hend, hpurge, hgone⟩
    exact ⟨.publication g data :: before, a, later, u, w, rfl,
      Runs.exec_cons.mpr ⟨v, hstep, hu⟩, hw, hend, hpurge, hgone⟩
  | purged mail h hlost hgen =>
    right
    refine ⟨[], _, after, σ, v, rfl, rfl, hstep, hrest,
      Purges.of_pushes hinv h hlost (accepts_gen hs haccepts).2 hgen, ?_⟩
    -- the publication itself was never queued
    intro hmem
    have hqueued := hinvv.order.subset hmem
    rw [h.queued] at hqueued
    rcases mem_append.mp hqueued with hold | hnew
    · exact Nat.lt_irrefl _ (hinv.past _ hold)
    · rw [← mem_singleton.mp hnew] at hlost
      cases hlost

/-- **The mailbox.** Under every interleaving of the sections, with any limit, one drainer
handles the events in the order they were queued; frames are handled in the window of their own
subscription; and what is not ephemeral is dropped only with the whole tail. -/
theorem mailbox_delivers (cfg : Config) (limit : Nat) (hlimit : 0 < limit) (acts : List MailAct)
    (σ : MailRun) (hrun : Runs.exec (step cfg) (init limit hlimit) acts = some σ) :
    Delivers cfg limit hlimit acts σ := by
  have hinv := run_inv hrun
  constructor
  case one_drainer => exact hinv.one_drainer
  case events => exact hinv.events
  case sources => exact run_sources hrun
  case order => exact hinv.order
  case arrival => exact hinv.sorted
  case windows =>
    intro before m after g hhandled hcarries
    have hwindows := hinv.windows
    rw [kept, hhandled, append_assoc, append_assoc, cons_append] at hwindows
    exact (windowed_append.mp hwindows).2.1 _ hcarries
  case published =>
    intro before g data after u s hacts hu hs haccepts hdata
    rw [hacts] at hrun
    exact published_or_givenUp (run_inv hu) (Runs.exec_rest hu hrun) hs haccepts hdata
  case control => exact hinv.control
  case evicted =>
    intro a σ' hstep m hm
    exact kept_or hinv (step_move hinv hstep) hm
  case room =>
    rw [← run_limit hrun]
    exact hinv.room
  case drained => exact exists_drained cfg hinv

/-- A mailbox of one event: the frame of the first subscription and the one that follows it go
when the second arrives, and the second subscription's is handled in its own window. -/
def overflowRun : List MailAct :=
  [.watching, .newSink, .subscribed 1, .served, .drain 0, .handle 0, .publication 1 [1],
    .publication 1 [2], .drain 0, .handle 0, .newSink, .subscribed 2, .drain 0, .publication 1 [3],
    .publication 2 [4], .handle 0, .drain 0, .handle 0, .drain 0]

theorem mailbox_delivers_overflowRun :
    ∃ σ, Runs.exec (step (byteConfig 4 4)) (init 1 (by decide)) overflowRun = some σ ∧
      σ.handled.map (fun m => (m.gen, m.event)) = [(1, .live true), (0, .lost), (2, .live false),
        (2, .frame [4] false)] ∧
      Delivers (byteConfig 4 4) 1 (by decide) overflowRun σ := by
  have hrun : (Runs.exec (step (byteConfig 4 4)) (init 1 (by decide)) overflowRun).map
      (fun σ => σ.handled.map fun m => (m.gen, m.event)) =
        some [(1, .live true), (0, .lost), (2, .live false), (2, .frame [4] false)] := by
    decide +kernel
  obtain ⟨σ, hσ, hhandled⟩ := Option.map_eq_some_iff.mp hrun
  exact ⟨σ, hσ, hhandled, mailbox_delivers _ 1 (by decide) _ σ hσ⟩

end MailRun

end Factory.Livetail
