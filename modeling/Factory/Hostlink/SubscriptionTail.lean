import Factory.Hostlink.SubscriptionSink

/-!
# A successful subscribe and its tail

In every run whose steps are `Orderly`, once a `Subscribe` call has answered nil for an entry,
the entry is current, live and registered, or its sink has been told `Ended`, or its owner has
unsubscribed it (`subscribed_tail_tended`).

A step is not `Orderly` when an expired `await` withdraws an entry that is already
accepted, when an acceptance is recorded for an entry an expired `await` has already
withdrawn, or when `newSubscription` replaces the registration of the current entry.
-/

namespace Factory.Hostlink

namespace State

variable {s t : State} {e : Nat}

/-- The steps of the runs the main theorem is about. -/
def Orderly (s : State) : Act → Prop
  | .advance c _ =>
    match s.calls c with
    | .reserved _ => s.transportClosed = true ∨ s.registry = none ∨ s.current ≠ s.registry
    | .expired e => s.current = some e → (s.entries e).settled ≠ some .accepted
    | _ => True
  | .callback =>
    match s.cb with
    | .accepted e => (s.entries e).removed = some .expiry → (s.entries e).settled ≠ none
    | _ => True
  | _ => True

instance (s : State) : DecidablePred s.Orderly
  | .advance c _ => by
    dsimp only [Orderly]
    exact match s.calls c with
      | .reserved _ => inferInstanceAs (Decidable (_ ∨ _))
      | .expired _ => inferInstanceAs (Decidable (_ → _))
      | .idle | .registered _ | .withdrawn _ | .checked _ | .sending _ | .sendable _ | .failed _
      | .failedSettle _ | .awaiting _ | .expiredSettle _ _ | .expiredDiscard _ | .answering _
      | .returned _ _ | .unsubscribing _ | .unsubscribeRead _ | .unsubscribeDiscard _
      | .unsubscribed => isTrue trivial
  | .callback => by
    dsimp only [Orderly]
    exact match s.cb with
      | .accepted _ => inferInstanceAs (Decidable (_ → _))
      | .idle | .accepting _ | .publishing _ | .resubscribing _ | .ending _ | .refusing _
      | .dropAll _ | .dropping _ | .dropEnding _ | .dropRefusing _ | .restoreAll
      | .restoring _ => isTrue trivial
  | .subscribe _ | .unsubscribe _ | .discard _ | .event _ | .fail | .closeTransport =>
    isTrue trivial

/-! ## Entries and outcomes -/

/-- What holds of an entry in the runs whose steps are orderly. -/
structure Upright (x : Entry) : Prop where
  live_sent : x.live = true → x.sent = true
  accepted_live : x.settled = some .accepted → x.live = true
  withdrawal : x.removed = some .withdrawal → x.live = false
  expiry : x.removed = some .expiry → x.settled ≠ some .accepted
  discarded : x.discarded = true → x.removed ≠ none

/-- Every entry of `t` is upright. -/
def AllUpright (t : State) : Prop := ∀ e, Upright (t.entries e)

/-- Every entry is upright, and a call that answered nil answered the entry's outcome. -/
structure Told (s : State) : Prop where
  entry : s.AllUpright
  returned : ∀ c e, s.calls c = .returned (some e) .accepted →
    (s.entries e).settled = some .accepted

theorem told_init : ({} : State).Told := ⟨fun _ => ⟨nofun, nofun, nofun, nofun, nofun⟩, nofun⟩

section

variable (h : s.AllUpright)
include h

theorem AllUpright.update {f : Entry → Entry} (hf : Upright (f (s.entries e))) :
    (s.update e f).AllUpright := by
  intro e'
  rw [update_entries]
  split
  · exact hf
  · exact h e'

theorem AllUpright.drop {why : Removal}
    (hwithdrawal : why = .withdrawal → (s.entries e).live = false)
    (hexpiry : why = .expiry → s.current = some e → (s.entries e).settled ≠ some .accepted) :
    (s.drop e why).AllUpright := by
  intro e'
  rw [drop_entries]
  split
  · rename_i hcond
    have hx := h e
    refine ⟨hx.live_sent, hx.accepted_live, fun hr => ?_, fun hr => ?_, fun _ => by simp⟩
    · exact hwithdrawal (Option.some.inj hr)
    · exact hexpiry (Option.some.inj hr) hcond.1
  · exact h e'

theorem AllUpright.settle_refused (e : Nat) : (s.settle e .refused).AllUpright := by
  have hx := h e
  have hor : (s.entries e).settled.or (some .refused) = some .accepted →
      (s.entries e).settled = some .accepted := by
    cases (s.entries e).settled <;> simp
  exact h.update ⟨hx.live_sent, fun ho => hx.accepted_live (hor ho), hx.withdrawal,
    fun hr ho => hx.expiry hr (hor ho), hx.discarded⟩

theorem AllUpright.settle_accepted (hlive : (s.entries e).live = true)
    (hexpiry : (s.entries e).removed = some .expiry → (s.entries e).settled ≠ none) :
    (s.settle e .accepted).AllUpright := by
  have hx := h e
  refine h.update ⟨hx.live_sent, fun _ => hlive, hx.withdrawal, fun hr ho => ?_, hx.discarded⟩
  obtain ⟨o, ho'⟩ := Option.ne_none_iff_exists'.mp (hexpiry hr)
  refine hx.expiry hr ?_
  rw [ho'] at ho ⊢
  exact ho

theorem AllUpright.unregister (hr : (s.entries e).removed ≠ none) :
    (s.unregister e).AllUpright := by
  intro e'
  rw [unregister_entries]
  split
  · have hx := h e
    exact ⟨hx.live_sent, hx.accepted_live, hx.withdrawal, hx.expiry, fun _ => hr⟩
  · exact h e'

theorem AllUpright.discard (hr : (s.entries e).removed ≠ none) : (s.discard e).AllUpright := by
  rcases discard_cases s e with heq | ⟨-, heq⟩
  · rwa [heq]
  · rw [heq]
    exact h.unregister hr

theorem AllUpright.cleared (htable : s.Table) (hreg : s.registry = none ∨ s.current ≠ s.registry) :
    s.cleared.AllUpright := by
  rcases cleared_cases s with ⟨-, heq⟩ | ⟨old, hold, heq⟩
  · rwa [heq]
  · rw [heq]
    refine h.unregister (htable.removed_of_not_current (htable.registry_lt old hold) ?_)
    rcases hreg with hnone | hne
    · cases hnone.symm.trans hold
    · rwa [hold] at hne

end

/-! ## Steps -/

variable {base : State}

theorem AllUpright.move (h : s.AllUpright) (htable : s.Table) {c : Nat} {choice : Bool} {pc : Pc}
    (hord : s.Orderly (.advance c choice)) (hmove : CallMove s c base pc) : base.AllUpright := by
  simp only [Orderly] at hord
  cases hmove with
  | still _ _ _ _ _ _ => exact h
  | @register e choice hpc =>
    simp only [hpc] at hord
    rcases newSubscription_cases s e choice with ⟨-, heq⟩ | ⟨hopen, -, heq⟩ | ⟨hopen, -, heq⟩
    · rw [heq]
      exact h
    · rw [heq]
      exact h.cleared htable (hord.resolve_left (Bool.not_eq_true _ ▸ hopen))
    · rw [heq]
      exact h.cleared htable (hord.resolve_left (Bool.not_eq_true _ ▸ hopen))
  | @link e _ _ =>
    have hx := h e
    exact h.update ⟨hx.live_sent, hx.accepted_live, hx.withdrawal, hx.expiry, hx.discarded⟩
  | @send e _ =>
    have hx := h e
    exact AllUpright.update (s := { s with regHeld := false }) h
      ⟨fun _ => rfl, hx.accepted_live, hx.withdrawal, hx.expiry, hx.discarded⟩
  | @withdraw e hpc =>
    -- an entry whose subscribe was not sent is not live
    refine h.drop (fun _ => ?_) nofun
    have hsent := (htable.creates c e (by rw [hpc]; rfl)).2
    cases hlive : (s.entries e).live with
    | false => rfl
    | true =>
      rw [(h e).live_sent hlive] at hsent
      cases hsent
  | expire hpc =>
    simp only [hpc] at hord
    exact h.drop nofun fun _ => hord
  | settle _ _ _ => exact h.settle_refused _
  | discard hpc _ _ _ => exact h.discard (htable.removes c _ hpc)

theorem AllUpright.callback (h : s.AllUpright) (hinv : s.SinkInv) (hord : s.Orderly .callback)
    (hmove : EntryMove s base) : base.AllUpright := by
  simp only [Orderly] at hord
  cases hmove with
  | pass => exact h
  | @accept e _ hcur hsent =>
    have hx := h e
    refine h.update ⟨fun _ => hsent, fun _ => rfl, fun hr => ?_, hx.expiry, hx.discarded⟩
    rw [show (s.entries e).removed = none from hinv.table.not_removed hcur] at hr
    cases hr
  | hear e call =>
    have hx := h e
    exact h.update ⟨hx.live_sent, hx.accepted_live, hx.withdrawal, hx.expiry, hx.discarded⟩
  | settle e outcome hcb =>
    cases outcome with
    | refused => exact h.settle_refused e
    | accepted =>
      have haccepted := hcb rfl
      simp only [haccepted] at hord
      exact h.settle_accepted ((hinv.sink e).serving (.inr (.inl haccepted))).1 hord
  | lose _ => exact h.drop nofun nofun

theorem returned_of_move {c : Nat} {pc : Pc} (hmove : CallMove s c base pc)
    (hpc : pc = .returned (some e) .accepted) : (s.entries e).settled = some .accepted := by
  cases hmove with
  | still _ _ _ _ _ hreturned => exact hreturned e _ hpc
  | register choice _ => split at hpc <;> cases hpc
  | settle _ _ hreturned => cases hreturned e _ hpc
  | discard _ _ _ hreturned => exact absurd hpc (hreturned e _)
  | _ => cases hpc

theorem Told.step (h : s.Told) (hinv : s.SinkInv) {act : Act} (hord : s.Orderly act)
    (ht : s.step act = some t) : t.Told := by
  have hall := h.entry
  refine ⟨?_, fun c e hret => ?_⟩
  · have htable := hinv.table
    cases step_move ht with
    | @call _ c base pc _ hfrom hmove =>
      have hcall : s.Orderly (.advance c true) := by
        rcases hfrom with hidle | ⟨choice, rfl⟩
        · simp [Orderly, hidle]
        · exact hord
      have hbase : base.AllUpright := hall.move htable hcall hmove
      exact hbase
    | reserve | close => exact hall
    | @unsubscribe _ e _ =>
      have hdrop : (s.drop e .owner).AllUpright := hall.drop nofun nofun
      exact hdrop
    | discard hmem => exact hall.discard (htable.queued _ hmem)
    | callback hact hmove =>
      obtain ⟨base, hmove, hsame, -⟩ := hmove
      rw [AllUpright, hsame.entries]
      refine hall.callback hinv ?_ hmove
      cases act with
      | event event =>
        simp only [State.step] at ht
        split at ht
        · rename_i hidle
          simp [Orderly, hidle]
        · cases ht
      | callback => exact hord
      | _ => cases hact
  · -- the outcome a call answered was recorded before the step
    refine hinv.table.settled_step ht ?_
    by_cases hact : act.call = some c
    · cases step_move ht with
      | call hcall _ hmove =>
        cases hact.symm.trans hcall
        exact returned_of_move hmove (by simpa using hret)
      | reserve | unsubscribe =>
        cases hact
        simp at hret
      | discard => cases hact
      | close _ _ hclose => rcases hclose with rfl | rfl <;> cases hact
      | callback hcb _ =>
        cases act with
        | event | callback => cases hact
        | _ => cases hcb
    · rw [step_calls ht hact] at hret
      exact h.returned c e hret

/-! ## Runs -/

theorem SinkOk.loss_told (h : s.SinkOk e) (hloss : (s.entries e).removed = some .loss)
    (hlive : (s.entries e).live = true) : .ended ∈ (s.entries e).heard ∨ s.Telling e := by
  by_cases htell : s.Telling e
  · exact .inr htell
  · refine .inl ?_
    rcases h.closed hlive hloss htell with ⟨before, -, heq⟩ | ⟨-, before, -, heq⟩ <;>
      rw [heq] <;> simp

/-- The tail of an entry is not silently dead: the entry is current, live and not
discarded, or its sink has been told `Ended` or is being told by the running callback,
or its owner has unsubscribed it. -/
def Tended (s : State) (e : Nat) : Prop :=
  (s.current = some e ∧ (s.entries e).live = true ∧ (s.entries e).discarded = false) ∨
    (.ended ∈ (s.entries e).heard ∨ s.Telling e) ∨ (s.entries e).removed = some .owner

theorem Told.tended (h : s.Told) (hinv : s.SinkInv) (hs : (s.entries e).settled = some .accepted) :
    s.Tended e := by
  have hx := h.entry e
  have hlive := hx.accepted_live hs
  cases hr : (s.entries e).removed with
  | none =>
    have helt : e < s.next := by
      by_contra hge
      have := (hinv.table.unused e (Nat.not_lt.mp hge)).1
      rw [hx.live_sent hlive] at this
      cases this
    refine .inl ⟨(hinv.table.table e helt).mp hr, hlive, ?_⟩
    by_contra hd
    rw [Bool.not_eq_false] at hd
    exact hx.discarded hd hr
  | some why =>
    cases why with
    | owner => exact .inr (.inr hr)
    | expiry => exact absurd hs (hx.expiry hr)
    | withdrawal =>
      rw [hx.withdrawal hr] at hlive
      cases hlive
    | loss => exact .inr (.inl ((hinv.sink e).loss_told hr hlive))

/-- In every state of every orderly run, the tail of every entry for which a `Subscribe`
call has answered nil is tended. -/
theorem subscribed_tail_tended {acts : List Act} (hrun : Runs.exec State.step {} acts = some s)
    (hord : Runs.Meets State.step Orderly {} acts) {c : Nat}
    (hret : s.calls c = .returned (some e) .accepted) : s.Tended e := by
  obtain ⟨hinv, htold⟩ : s.SinkInv ∧ s.Told := by
    refine Runs.exec_invariant_of_meets (I := fun s => s.SinkInv ∧ s.Told) ?_ hrun hord
      ⟨sinkInv_init, told_init⟩
    rintro u act v hp hv ⟨hinv, htold⟩
    exact ⟨hinv.step hv, htold.step hinv hp hv⟩
  exact htold.tended hinv (htold.returned c e hret)

/-- One `Subscribe` call, its subscribe sent and accepted, and its return. -/
def acceptedRun : List Act :=
  [.subscribe 0, .advance 0 true, .advance 0 true, .advance 0 true, .advance 0 true,
   .advance 0 true, .event (.subscribed 0), .callback, .callback, .advance 0 true]

/-- After an accepted subscribe the Host removes the subscription: its sink has been told
`Ended`. -/
theorem subscribed_tail_tended_lost :
    ∃ s, Runs.exec step {} (acceptedRun ++ [.event (.unsubscribed 0), .callback]) = some s ∧
      s.calls 0 = .returned (some 0) .accepted ∧ s.current = none ∧ s.Tended 0 := by
  obtain ⟨s, hrun, hret, hcur⟩ : ∃ s, Runs.exec step {}
      (acceptedRun ++ [.event (.unsubscribed 0), .callback]) = some s ∧
      s.calls 0 = .returned (some 0) .accepted ∧ s.current = none := ⟨_, rfl, rfl, rfl⟩
  exact ⟨s, hrun, hret, hcur, subscribed_tail_tended hrun (by decide) hret⟩

/-- A second `Subscribe` finds the live entry with its context expired: its `await` takes
the context, withdraws and discards the entry, and answers its recorded nil. -/
def withdrawnRun : List Act :=
  acceptedRun ++ [.subscribe 1, .advance 1 false, .advance 1 false, .advance 1 false,
    .advance 1 false, .advance 1 false]

/-- Both calls of `withdrawnRun` answer nil for entry 0, which is removed and discarded
while its sink hears nothing and its owner has not unsubscribed it. -/
theorem withdrawnRun_dead :
    ∃ s, Runs.exec step {} withdrawnRun = some s ∧ s.calls 0 = .returned (some 0) .accepted ∧
      s.calls 1 = .returned (some 0) .accepted ∧ s.current = none ∧
      (s.entries 0).discarded = true ∧ (s.entries 0).heard = [.subscribed] ∧ ¬ s.Tended 0 := by
  refine ⟨_, rfl, rfl, rfl, rfl, rfl, rfl, ?_⟩
  rintro (⟨hcur, -⟩ | (hheard | ht | ht | ⟨ht, -⟩) | hr)
  · cases hcur
  · revert hheard
    decide
  · cases ht
  · cases ht
  · cases ht
  · cases hr

end State

end Factory.Hostlink
