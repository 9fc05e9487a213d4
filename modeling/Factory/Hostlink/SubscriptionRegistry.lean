import Factory.Hostlink.SubscriptionTable

/-!
# The transport's registration of a channel

The transport keys its registrations by channel, so that giving up one of them gives up
whatever the channel maps to. `discard` looks before it does; `newSubscription` does not: the
registration it finds may be that of a newer entry. The registration of the current entry is its
own, and no step takes it away, exactly in the runs in which no late `newSubscription` meets it
(`registration_kept_iff`).
-/

namespace Factory.Hostlink

variable {c : Nat} {pc : Pc}

namespace State

variable {s t : State} {e : Nat}

/-- A `newSubscription` for an entry that is no longer current does not find the registration
of the current one. -/
def Timely (s : State) : Act → Prop
  | .advance c _ =>
    match s.calls c with
    | .reserved e =>
      s.transportClosed = true ∨ s.current = some e ∨ s.registry = none ∨ s.current ≠ s.registry
    | _ => True
  | _ => True

instance (s : State) (act : Act) : Decidable (s.Timely act) := by
  unfold Timely
  split
  · split <;> infer_instance
  · infer_instance

/-- Once its subscribe was sent, the current entry's subscription is the one registered. -/
def RegistersCurrent (s : State) : Prop :=
  ∀ e, s.current = some e → (s.entries e).sent = true → s.registry = some e

/-- The step does not unsubscribe or remove the current entry's registration. -/
def SparesCurrent (s : State) (act : Act) : Prop :=
  ∀ t e, s.step act = some t → s.current = some e → s.registry = some e →
    t.registry = some e ∧ (t.entries e).discarded = (s.entries e).discarded

/-! ## The invariant -/

/-- The entry has been registered: its subscribe was sent, or a call is about to send it. -/
def Registered (s : State) (e : Nat) : Prop :=
  (s.entries e).sent = true ∨ ∃ c, (s.calls c).registers = some e

structure RegInv (s : State) : Prop where
  table : s.Table
  registered : ∀ e, s.current = some e → s.Registered e → s.registry = some e
  fresh : ∀ c e, s.calls c = .reserved e → s.registry ≠ some e

theorem regInv_init : ({} : State).RegInv where
  table := table_init
  registered _ h := by cases h
  fresh _ _ h := by cases h

/-- A change that leaves registrations and calls alone. -/
structure Aside (s t : State) : Prop where
  calls : t.calls = s.calls
  registry : t.registry = s.registry
  current : t.current = s.current ∨ t.current = none
  sent : ∀ e, (t.entries e).sent = (s.entries e).sent
  discarded : ∀ e, (t.entries e).discarded = (s.entries e).discarded

namespace Aside

theorem refl (s : State) : Aside s s := ⟨rfl, rfl, .inl rfl, fun _ => rfl, fun _ => rfl⟩

theorem trans {u : State} (h : Aside s t) (h' : Aside t u) : Aside s u := by
  refine ⟨h'.calls.trans h.calls, h'.registry.trans h.registry, ?_,
    fun e => (h'.sent e).trans (h.sent e), fun e => (h'.discarded e).trans (h.discarded e)⟩
  rcases h'.current with hcur | hcur
  · rw [hcur]
    exact h.current
  · exact .inr hcur

theorem update {f : Entry → Entry} (hsent : (f (s.entries e)).sent = (s.entries e).sent)
    (hdiscarded : (f (s.entries e)).discarded = (s.entries e).discarded) :
    Aside s (s.update e f) := by
  exact ⟨rfl, rfl, .inl rfl, update_keeps Entry.sent hsent, update_keeps Entry.discarded hdiscarded⟩

theorem drop (s : State) (e : Nat) (why : Removal) : Aside s (s.drop e why) := by
  refine ⟨drop_calls s e why, drop_registry s e why, ?_,
    drop_keeps Entry.sent (fun _ _ => rfl) s e why,
    drop_keeps Entry.discarded (fun _ _ => rfl) s e why⟩
  unfold State.drop
  split
  · exact .inr rfl
  · exact .inl rfl

theorem callback (h : CallbackMove s t) : Aside s t := by
  obtain ⟨base, hbase, hsame, -⟩ := h
  have h' : Aside s base := by
    cases hbase with
    | pass => exact refl s
    | accept | hear | settle => exact update rfl rfl
    | lose _ => exact drop s _ .loss
  exact h'.trans ⟨hsame.calls, hsame.registry, .inl hsame.current,
    fun e => by rw [hsame.entries], fun e => by rw [hsame.entries]⟩

end Aside

theorem RegInv.aside (h : s.RegInv) (ht : t.Table) (haside : Aside s t) : t.RegInv := by
  refine ⟨ht, fun e hcur hreg => ?_, fun c e hc => ?_⟩
  · have hcur' : s.current = some e := by
      rcases haside.current with hsame | hnone
      · rw [← hsame]
        exact hcur
      · cases hnone.symm.trans hcur
    rw [haside.registry]
    refine h.registered e hcur' ?_
    unfold Registered at hreg ⊢
    rwa [haside.sent, haside.calls] at hreg
  · rw [haside.calls] at hc
    rw [haside.registry]
    exact h.fresh c e hc

theorem RegInv.setCall (h : s.RegInv) (ht : (s.setCall c pc).Table)
    (hregisters : pc.registers = none ∨ pc.registers = (s.calls c).registers)
    (hpc : ∀ e, pc ≠ .reserved e) : (s.setCall c pc).RegInv := by
  refine ⟨ht, fun e hcur hreg => h.registered e hcur ?_, fun c' e hc => ?_⟩
  · rcases hreg with hsent | ⟨c', hc'⟩
    · exact .inl hsent
    · rw [setCall_calls] at hc'
      split at hc'
      · rcases hregisters with hnone | hsame
        · cases hnone.symm.trans hc'
        · exact .inr ⟨c, by rw [← hsame]; exact hc'⟩
      · exact .inr ⟨c', hc'⟩
  · rw [setCall_calls] at hc
    split at hc
    · exact absurd hc (hpc e)
    · exact h.fresh c' e hc

theorem cleared_registry (s : State) : s.cleared.registry = none := by
  rcases cleared_cases s with ⟨hreg, heq⟩ | ⟨old, -, heq⟩
  · rw [heq, hreg]
  · rw [heq]
    rfl

theorem cleared_current (s : State) : s.cleared.current = s.current := by
  rcases cleared_cases s with ⟨-, heq⟩ | ⟨old, -, heq⟩ <;> rw [heq] <;> rfl

theorem cleared_sent (s : State) (e : Nat) : (s.cleared.entries e).sent = (s.entries e).sent := by
  rcases cleared_cases s with ⟨-, heq⟩ | ⟨old, -, heq⟩
  · rw [heq]
  · rw [heq, unregister_keeps Entry.sent fun _ => rfl]

theorem Registered.of_setCall (h : (s.setCall c pc).Registered e) (hpc : pc.registers ≠ some e) :
    s.Registered e := by
  rcases h with hsent | ⟨c', hc'⟩
  · exact .inl hsent
  · rw [setCall_calls] at hc'
    split at hc'
    · exact absurd hc' hpc
    · exact .inr ⟨c', hc'⟩

/-! ## Giving up a registration -/

theorem discard_spares (h : s.Table) (hr : (s.entries e).removed ≠ none) {e' : Nat}
    (hcur : s.current = some e') (hreg : s.registry = some e') : s.discard e = s := by
  have hne : e' ≠ e := by
    rintro rfl
    exact hr (h.not_removed hcur)
  unfold discard
  simp [hreg, hne]

theorem RegInv.discard (h : s.RegInv) (hr : (s.entries e).removed ≠ none) :
    (s.discard e).RegInv := by
  have htable := h.table.discard e
  rcases discard_cases s e with heq | ⟨hreg, heq⟩
  · rwa [heq]
  · rw [heq] at htable ⊢
    refine ⟨htable, fun e' hcur hregistered => ?_, fun c e' _ => by
      simp [State.unregister, State.update]⟩
    -- a registered current entry would be the one given up, which has been removed
    unfold Registered at hregistered
    rw [unregister_keeps Entry.sent fun _ => rfl] at hregistered
    have hown := h.registered e' hcur hregistered
    cases hreg.symm.trans hown
    exact absurd hcur (h.table.not_current hr)

theorem RegInv.unmet (h : s.RegInv) (hpc : s.calls c = .reserved e)
    (htimely : s.transportClosed = true ∨ s.current = some e ∨ s.registry = none ∨
      s.current ≠ s.registry) (hopen : s.transportClosed = false) {e' : Nat}
    (hcur : s.current = some e') (hreg : s.registry = some e') : False := by
  rcases htimely with hclosed | hown | hnone | hne
  · cases hopen.symm.trans hclosed
  · cases hown.symm.trans hcur
    exact h.fresh c e hpc hreg
  · cases hnone.symm.trans hreg
  · exact hne (hcur.trans hreg.symm)

theorem RegInv.register (h : s.RegInv) (choice : Bool) (hpc : s.calls c = .reserved e)
    (htimely : s.transportClosed = true ∨ s.current = some e ∨ s.registry = none ∨
      s.current ≠ s.registry) :
    ((s.newSubscription e choice).1.setCall c
      (if (s.newSubscription e choice).2 then .registered e else .failed e)).RegInv := by
  have htable := h.table.move (.register choice hpc)
  have hcreates : (s.calls c).creates = some e := by rw [hpc]; rfl
  rcases newSubscription_cases s e choice with ⟨-, heq⟩ | ⟨hopen, -, heq⟩ | ⟨hopen, -, heq⟩
  · rw [heq] at htable ⊢
    exact h.setCall htable (.inl rfl) (by simp)
  · rw [heq] at htable ⊢
    refine ⟨htable, fun e' hcur hreg => ?_, fun c' e' hc => ?_⟩
    · change s.cleared.current = some e' at hcur
      rw [cleared_current] at hcur
      by_cases hsame : e' = e
      · rw [hsame]
        rfl
      · -- another current entry would have had its registration replaced
        have hold := hreg.of_setCall (by simpa [Pc.registers] using Ne.symm hsame)
        unfold Registered at hold
        rw [cleared_sent, cleared_calls] at hold
        exact (h.unmet hpc htimely hopen hcur (h.registered e' hcur hold)).elim
    · rw [setCall_calls] at hc
      split at hc
      · cases hc
      · rename_i hne
        rintro heq'
        cases heq'
        rw [cleared_calls] at hc
        exact hne (h.table.creates_inj c' c e (by rw [hc]; rfl) hcreates)
  · rw [heq] at htable ⊢
    refine ⟨htable, fun e' hcur hreg => ?_, fun c' e' hc => ?_⟩
    · change s.cleared.current = some e' at hcur
      rw [cleared_current] at hcur
      have hold := hreg.of_setCall (by simp [Pc.registers])
      unfold Registered at hold
      rw [cleared_sent, cleared_calls] at hold
      exact (h.unmet hpc htimely hopen hcur (h.registered e' hcur hold)).elim
    · change s.cleared.registry ≠ _
      rw [cleared_registry]
      simp

/-! ## Steps -/

theorem Pc.registers_of_creates (h : pc.creates = none) : pc.registers = none := by
  cases pc <;> simp_all [Pc.registers, Pc.creates]

theorem RegInv.move (h : s.RegInv) {base : State} (hmove : CallMove s c base pc)
    (htimely : ∀ e, s.calls c = .reserved e → s.transportClosed = true ∨ s.current = some e ∨
      s.registry = none ∨ s.current ≠ s.registry) : (base.setCall c pc).RegInv := by
  have htable := h.table.move hmove
  have hreserved : ∀ {pc : Pc}, pc.creates = none → ∀ e, pc ≠ .reserved e := by
    rintro pc hnone e rfl
    cases hnone
  cases hmove with
  | still held hpc _ hregisters _ _ =>
    have h' : ({ s with regHeld := held } : State).RegInv :=
      h.aside (h.table.congr rfl rfl rfl rfl rfl rfl rfl)
        ⟨rfl, rfl, .inl rfl, fun _ => rfl, fun _ => rfl⟩
    exact h'.setCall htable hregisters hpc
  | register choice hpc => exact h.register choice hpc (htimely _ hpc)
  | @link e hpc hcur =>
    have h' := h.aside (h.table.update (f := fun entry => { entry with sub := true }) (e := e) rfl
      (.inl rfl)) (.update rfl rfl)
    refine h'.setCall htable (.inr ?_) (by simp)
    change _ = (s.calls c).registers
    rw [hpc]
    rfl
  | @send e hpc =>
    refine ⟨htable, fun e' hcur hreg => h.registered e' hcur ?_, fun c' e' hc => ?_⟩
    · by_cases hsame : e' = e
      · exact .inr ⟨c, by rw [hsame, hpc]; rfl⟩
      · rcases hreg.of_setCall (by simp [Pc.registers]) with hsent | hcall
        · rw [update_entries, if_neg hsame] at hsent
          exact .inl hsent
        · exact .inr hcall
    · rw [setCall_calls] at hc
      split at hc
      · cases hc
      · exact h.fresh c' e' hc
  | withdraw | expire =>
    exact (h.aside (h.table.drop _ _) (.drop _ _ _)).setCall htable (.inl rfl) (by simp)
  | @settle e _ hcreates _ _ =>
    have h' := h.aside (h.table.update (f := fun entry : Entry =>
      { entry with settled := entry.settled.or (some .refused) }) (e := e) rfl (.inl rfl))
      (.update rfl rfl)
    exact h'.setCall htable (.inl (Pc.registers_of_creates hcreates)) (hreserved hcreates)
  | discard hpc hcreates _ _ =>
    exact (h.discard (h.table.removes c _ hpc)).setCall htable
      (.inl (Pc.registers_of_creates hcreates)) (hreserved hcreates)

theorem RegInv.reserve (h : s.RegInv) (hcur : s.current = none) (c : Nat) :
    ({ s with current := some s.next, next := s.next + 1 }.setCall c
      (.reserved s.next)).RegInv := by
  refine ⟨h.table.reserve hcur c, fun e he hreg => ?_, fun c' e hc => ?_⟩
  · cases he
    rcases hreg.of_setCall (by simp [Pc.registers]) with hsent | ⟨c', hc'⟩
    · rw [show _ = false from (h.table.unused s.next (Nat.le_refl _)).1] at hsent
      cases hsent
    · have := (h.table.creates c' s.next (Pc.creates_of_registers hc')).1
      omega
  · rw [setCall_calls] at hc
    split at hc
    · cases hc
      intro hreg
      have := h.table.registry_lt s.next hreg
      omega
    · exact h.fresh c' e hc

variable {act : Act}

theorem Timely.of_call (h : s.Timely act)
    (hfrom : s.calls c = .idle ∨ ∃ choice, act = .advance c choice) (hpc : s.calls c = .reserved e)
    : s.transportClosed = true ∨ s.current = some e ∨
      s.registry = none ∨ s.current ≠ s.registry := by
  rcases hfrom with hidle | ⟨choice, rfl⟩
  · cases hidle.symm.trans hpc
  · simpa [Timely, hpc] using h

theorem RegInv.step (h : s.RegInv) (htimely : s.Timely act) (ht : s.step act = some t)
    : t.RegInv := by
  have htable := h.table.step ht
  cases step_move ht with
  | call _ hfrom hmove => exact h.move hmove fun e hpc => htimely.of_call hfrom hpc
  | reserve hcur => exact h.reserve hcur _
  | unsubscribe hcur =>
    exact (h.aside (h.table.drop _ .owner) (.drop _ _ _)).setCall htable (.inl rfl) (by simp)
  | discard hmem =>
    exact (h.discard (h.table.queued _ hmem)).aside htable
      ⟨rfl, rfl, .inl rfl, fun _ => rfl, fun _ => rfl⟩
  | close => exact h.aside htable ⟨rfl, rfl, .inl rfl, fun _ => rfl, fun _ => rfl⟩
  | callback _ hmove => exact h.aside htable (.callback hmove)

theorem RegInv.move_spares (h : s.RegInv) {base : State} (hmove : CallMove s c base pc)
    (htimely : ∀ e, s.calls c = .reserved e → s.transportClosed = true ∨ s.current = some e ∨
      s.registry = none ∨ s.current ≠ s.registry) (hcur : s.current = some e)
    (hreg : s.registry = some e) :
    base.registry = some e ∧ (base.entries e).discarded = (s.entries e).discarded := by
  have haside : Aside s base → base.registry = some e ∧
      (base.entries e).discarded = (s.entries e).discarded :=
    fun h => ⟨h.registry.trans hreg, h.discarded e⟩
  cases hmove with
  | still held _ _ _ _ _ => exact ⟨hreg, rfl⟩
  | @register e' choice hpc =>
    rcases newSubscription_cases s e' choice with ⟨-, heq⟩ | ⟨hopen, -, -⟩ | ⟨hopen, -, -⟩
    · rw [heq]
      exact ⟨hreg, rfl⟩
    · exact (h.unmet hpc (htimely e' hpc) hopen hcur hreg).elim
    · exact (h.unmet hpc (htimely e' hpc) hopen hcur hreg).elim
  | link _ _ => exact haside (.update rfl rfl)
  | @send e' _ =>
    exact ⟨hreg, update_keeps (s := { s with regHeld := false }) Entry.discarded rfl e⟩
  | withdraw | expire => exact haside (.drop _ _ _)
  | settle _ _ _ => exact haside (.update rfl rfl)
  | discard hpc _ _ _ =>
    rw [discard_spares h.table (h.table.removes c _ hpc) hcur hreg]
    exact ⟨hreg, rfl⟩

theorem RegInv.spares (h : s.RegInv) (htimely : s.Timely act) : s.SparesCurrent act := by
  intro t e ht hcur hreg
  have haside : ∀ {u : State}, Aside s u → u.registry = some e ∧
      (u.entries e).discarded = (s.entries e).discarded :=
    fun h => ⟨h.registry.trans hreg, h.discarded e⟩
  cases step_move ht with
  | call _ hfrom hmove =>
    have hspared := h.move_spares hmove (fun e' hpc => htimely.of_call hfrom hpc) hcur hreg
    exact hspared
  | reserve hnone =>
    cases hnone.symm.trans hcur
  | @unsubscribe _ e' _ =>
    have hspared := haside (.drop s e' .owner)
    exact hspared
  | discard hmem =>
    rw [discard_spares h.table (h.table.queued _ hmem) hcur hreg]
    exact ⟨hreg, rfl⟩
  | close => exact ⟨hreg, rfl⟩
  | callback _ hmove => exact haside (.callback hmove)

theorem timely_of_spares (ht : s.step act = some t) (h : s.SparesCurrent act) : s.Timely act := by
  unfold Timely
  split
  · rename_i c choice
    split
    · rename_i e hpc
      by_contra hlate
      simp only [not_or, Bool.not_eq_true, not_not] at hlate
      obtain ⟨hopen, hother, hsome, hmeets⟩ := hlate
      obtain ⟨r, hr⟩ := Option.ne_none_iff_exists'.mp hsome
      obtain ⟨hkept, -⟩ := h t r ht (hmeets.trans hr) hr
      simp only [State.step, State.advance, hpc] at ht
      rw [← locked_eq ht] at hkept
      rcases newSubscription_cases s e choice with ⟨hclosed, -⟩ | ⟨-, -, heq⟩ | ⟨-, -, heq⟩
      · rw [hopen] at hclosed
        cases hclosed
      · rw [heq] at hkept
        exact hother (hmeets.trans (hr.trans hkept.symm))
      · rw [heq] at hkept
        change s.cleared.registry = some r at hkept
        rw [cleared_registry] at hkept
        cases hkept
    · trivial
  · trivial

/-! ## Runs -/

/-- **The registration of the current entry is kept exactly by the timely runs.** In every run,
every state registers the current entry's own subscription once its subscribe was sent, and no
step takes the current entry's registration away, if and only if every `newSubscription` made for
an entry that is no longer current finds no registration of the current one. -/
theorem registration_kept_iff {acts : List Act} (hrun : Runs.exec State.step {} acts = some s) :
    (Runs.Meets State.step (fun s act => s.RegistersCurrent ∧ s.SparesCurrent act) {} acts ∧
        s.RegistersCurrent) ↔
      Runs.Meets State.step Timely {} acts := by
  constructor
  · rintro ⟨hkept, -⟩
    exact Runs.Meets.imp (I := fun _ => True) (fun _ _ _ _ _ _ => trivial)
      (fun _ _ _ _ ht h => timely_of_spares ht h.2) hrun trivial hkept
  · intro htimely
    have hreg : ∀ {u : State}, u.RegInv → u.RegistersCurrent :=
      fun h e hcur hsent => h.registered e hcur (.inl hsent)
    refine ⟨Runs.Meets.imp (I := RegInv) (fun _ _ _ hp ht h => h.step hp ht)
      (fun _ _ _ h _ hp => ⟨hreg h, h.spares hp⟩) hrun regInv_init htimely, ?_⟩
    exact hreg (Runs.exec_invariant_of_meets (fun _ _ _ hp ht h => h.step hp ht) hrun htimely
      regInv_init)

/-- One entry is withdrawn between its reservation and its registration, and a newer one is
reserved, registered and sent. -/
def supersededRun (late : Bool) : List Act :=
  [.subscribe 0, .unsubscribe 1, .advance 1 true, .advance 1 true, .subscribe 2] ++
    (if late then [] else [.advance 0 true]) ++ [.advance 2 true, .advance 2 true] ++
    (if late then [.advance 0 true] else []) ++
    [.advance 2 true, .advance 2 true, .advance 2 true, .event (.subscribed 1), .callback,
      .callback]

/-- The withdrawn entry registers before the newer one: the newer one's registration stands. -/
theorem registration_kept_early :
    ∃ s, Runs.exec State.step {} (supersededRun false) = some s ∧ s.current = some 1 ∧
      (s.entries 1).live = true ∧ s.registry = some 1 := by
  obtain ⟨s, hrun, hcur, hsent, hlive⟩ : ∃ s, Runs.exec State.step {} (supersededRun false) =
      some s ∧ s.current = some 1 ∧ (s.entries 1).sent = true ∧ (s.entries 1).live = true :=
    ⟨_, rfl, rfl, rfl, rfl⟩
  exact ⟨s, hrun, hcur, hlive, ((registration_kept_iff hrun).mpr (by decide)).2 1 hcur hsent⟩

/-- The withdrawn entry registers after the newer one: the newer one is live on the link while
the transport routes the channel to the withdrawn one. -/
theorem registration_lost_late :
    ∃ s, Runs.exec State.step {} (supersededRun true) = some s ∧ s.current = some 1 ∧
      (s.entries 1).sent = true ∧ (s.entries 1).live = true ∧ s.registry = some 0 ∧
      ¬ s.RegistersCurrent := by
  refine ⟨_, rfl, rfl, rfl, rfl, rfl, fun h => ?_⟩
  exact absurd (h 1 rfl rfl) (by decide)

end State

end Factory.Hostlink
