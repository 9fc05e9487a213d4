import Factory.Hostlink.SubscriptionSink

/-!
# The session sink protocol

The whole of what the owner of a subscription may rely on, over every run of a link
(`sink_protocol`): the order of what its sink hears, which removals end in `Ended`, that
`Restored` follows a verified handshake, and that the outcome of an entry is recorded once and
no later than its remover returns.
-/

namespace Factory.Hostlink

open List

def Pc.Returned (pc : Pc) : Prop := pc = .unsubscribed ∨ ∃ e outcome, pc = .returned e outcome

/-- The call has removed the entry, or found its wait expired, and records its outcome next. -/
def Pc.Owes (pc : Pc) (e : Nat) : Prop :=
  pc = .unsubscribing e ∨ pc = .failedSettle e ∨ ∃ discard, pc = .expiredSettle e discard

namespace State

variable {s t : State} {e : Nat}

/-! ## Who removed an entry -/

theorem owes_of_move {c : Nat} {base : State} {pc : Pc} (hmove : CallMove s c base pc)
    (hs : (s.entries e).removed = none) (ht : (base.entries e).removed ≠ none) : pc.Owes e := by
  have hdrop : ∀ {e' : Nat} {why : Removal}, ((s.drop e' why).entries e).removed ≠ none →
      e = e' := by
    intro e' why hne
    rw [drop_entries] at hne
    split at hne
    · rename_i hcond
      exact hcond.2
    · exact absurd hs hne
  have hkept : ∀ {base : State}, (base.entries e).removed = (s.entries e).removed →
      (base.entries e).removed ≠ none → pc.Owes e := by
    intro base hsame hne
    exact absurd (hsame.trans hs) hne
  have hcleared : (s.cleared.entries e).removed = (s.entries e).removed := by
    rcases cleared_cases s with ⟨-, heq⟩ | ⟨old, -, heq⟩
    · rw [heq]
    · rw [heq, unregister_keeps Entry.removed fun _ => rfl]
  cases hmove with
  | still _ _ _ _ _ _ => exact absurd hs ht
  | @register e' choice _ =>
    rcases newSubscription_cases s e' choice with ⟨-, heq⟩ | ⟨-, -, heq⟩ | ⟨-, -, heq⟩
    · rw [heq] at ht
      exact absurd hs ht
    · rw [heq] at ht
      exact hkept hcleared ht
    · rw [heq] at ht
      exact hkept hcleared ht
  | link _ _ => exact hkept (update_keeps Entry.removed rfl e) ht
  | send _ =>
    exact hkept (update_keeps (s := { s with regHeld := false }) Entry.removed rfl e) ht
  | withdraw _ =>
    cases hdrop ht
    exact .inr (.inl rfl)
  | expire _ =>
    cases hdrop ht
    exact .inr (.inr ⟨_, rfl⟩)
  | settle _ _ _ =>
    rw [settle_removed] at ht
    exact absurd hs ht
  | discard _ _ _ _ =>
    rw [discard_removed] at ht
    exact absurd hs ht

/-- What removed an entry records its outcome before it returns, or has recorded it. -/
def Owed (s : State) (act : Act) (e : Nat) : Prop :=
  (s.entries e).settled ≠ none ∨ (∃ c, act.call = some c ∧ (s.calls c).Owes e) ∨
    act.call = none ∧ s.cb.leaves = some e

theorem Table.leaves_of_removed (h : s.Table) {act : Act} (hact : act.plain = false)
    (ht : s.step act = some t) (hs : (s.entries e).removed = none)
    (hr : (t.entries e).removed ≠ none) : t.cb.leaves = some e := by
  have htable : t.Table := h.step ht
  obtain ⟨base, hbase, hsame, hcur, -⟩ := callback_of_not_plain hact ht
  have hnext : t.next = s.next := by
    rw [hsame.next]
    cases hbase with
    | lose _ => rw [drop_next]
    | _ => rfl
  have he : e < s.next := by
    rcases Nat.lt_or_ge e s.next with hlt | hge
    · exact hlt
    · exact absurd (htable.unused e (by rw [hnext]; exact hge)).2 hr
  have hcurrent : s.current = some e := (h.table e he).mp hs
  rcases hcur with hkept | ⟨e', he', hleaves⟩
  · exact absurd (hkept.trans hcurrent) (htable.not_current hr)
  · cases hcurrent.symm.trans he'
    exact hleaves

theorem Table.owed_of_removed (h : s.Table) {act : Act} (ht : s.step act = some t)
    (hs : (s.entries e).removed = none) (hr : (t.entries e).removed ≠ none) : t.Owed act e := by
  cases step_move ht with
  | call hact _ hmove =>
    exact .inr (.inl ⟨_, hact, by simpa using owes_of_move hmove hs hr⟩)
  | reserve | close => exact absurd hs hr
  | @unsubscribe c e' _ =>
    change ((s.drop e' .owner).entries e).removed ≠ none at hr
    rw [drop_entries] at hr
    split at hr
    · rename_i hcond
      obtain ⟨-, rfl⟩ := hcond
      exact .inr (.inl ⟨c, rfl, .inl (by simp)⟩)
    · exact absurd hs hr
  | discard _ => exact absurd hs (discard_removed s _ e ▸ hr)
  | callback hact _ =>
    refine .inr (.inr ⟨?_, h.leaves_of_removed hact ht hs hr⟩)
    cases act with
    | event | callback => rfl
    | _ => cases hact

theorem SinkInv.leaves_step (h : s.SinkInv) (ht : s.onCallback = some t)
    (hleaves : s.cb.leaves = some e) :
    (t.entries e).settled ≠ none ∨ t.cb.leaves = some e := by
  have hlive : s.cb = .ending e ∨ s.cb = .dropEnding e → (s.entries e).settled ≠ none := by
    intro hcb
    refine (h.sink e).settled_of_live ((h.sink e).ending hcb) ?_ ?_
    · rcases hcb with hcb | hcb <;> rw [hcb] <;> simp
    · rcases hcb with hcb | hcb <;> rw [hcb] <;> simp
  have hrefused : ((s.settle e .refused).entries e).settled ≠ none := by
    rw [settle_entries, if_pos rfl]
    cases (s.entries e).settled <;> simp
  unfold State.onCallback at ht
  cases hcb : s.cb with
  | ending e' =>
    rw [hcb] at hleaves
    cases hleaves
    simp only [hcb] at ht
    cases ht
    refine .inl ?_
    change ((s.hear e .ended).entries e).settled ≠ none
    rw [hear_entries, if_pos rfl]
    exact hlive (.inl hcb)
  | refusing e' =>
    rw [hcb] at hleaves
    cases hleaves
    simp only [hcb] at ht
    cases ht
    exact .inl hrefused
  | dropping e' =>
    rw [hcb] at hleaves
    cases hleaves
    simp only [hcb] at ht
    cases ht
    refine .inr ?_
    change Callback.leaves (if (s.entries e).live then .dropEnding e else .dropRefusing e) = _
    split <;> rfl
  | dropEnding e' =>
    rw [hcb] at hleaves
    cases hleaves
    simp only [hcb] at ht
    cases ht
    refine .inl ?_
    rw [setCb_entries, hear_entries, if_pos rfl]
    exact hlive (.inr hcb)
  | dropRefusing e' =>
    rw [hcb] at hleaves
    cases hleaves
    simp only [hcb] at ht
    cases ht
    exact .inl hrefused
  | _ =>
    rw [hcb] at hleaves
    cases hleaves

theorem SinkInv.owed_step (h : s.SinkInv) {act act' : Act} (ht : s.step act' = some t)
    (howed : s.Owed act e) : t.Owed act e := by
  rcases howed with hsettled | ⟨c, hc, howes⟩ | ⟨hcall, hleaves⟩
  · obtain ⟨o, ho⟩ := Option.ne_none_iff_exists'.mp hsettled
    exact .inl (by rw [h.table.settled_step ht ho]; simp)
  · by_cases hact : act'.call = some c
    · -- the call that owes the outcome moves: the step records it
      refine .inl ?_
      have hbusy : s.calls c ≠ .idle := by
        rcases howes with hpc | hpc | ⟨_, hpc⟩ <;> rw [hpc] <;> simp
      have hrecord : ∀ pc, (((s.settle e .refused).setCall c pc).entries e).settled ≠ none := by
        intro pc
        change ((s.settle e .refused).entries e).settled ≠ none
        rw [settle_entries, if_pos rfl]
        cases (s.entries e).settled <;> simp
      cases act' with
      | subscribe | unsubscribe =>
        cases hact
        simp [State.step, hbusy] at ht
      | advance c' choice =>
        cases hact
        simp only [State.step, State.advance] at ht
        rcases howes with hpc | hpc | ⟨_, hpc⟩
        · simp only [hpc] at ht
          cases ht
          exact hrecord _
        · simp only [hpc] at ht
          cases ht
          exact hrecord _
        · simp only [hpc] at ht
          cases ht
          exact hrecord _
      | _ => cases hact
    · exact .inr (.inl ⟨c, hc, by rw [step_calls ht hact]; exact howes⟩)
  · cases hact : act'.plain with
    | true => exact .inr (.inr ⟨hcall, by rw [(h.table.plain hact ht).cb]; exact hleaves⟩)
    | false =>
      cases act' with
      | event event =>
        simp only [State.step] at ht
        split at ht
        · rename_i hidle
          rw [hidle] at hleaves
          cases hleaves
        · cases ht
      | callback =>
        rcases h.leaves_step ht hleaves with hsettled | hstill
        · exact .inl hsettled
        · exact .inr (.inr ⟨hcall, hstill⟩)
      | _ => cases hact

/-! ## The handshake before a restoration -/

/-- A verified handshake of the run came after the entry's `Ended` and before its `Restored`. -/
def Handshaken (acts : List Act) (e : Nat) : Prop :=
  ∃ before after u, acts = before ++ .event (.connected true) :: after ∧
    Runs.exec State.step {} before = some u ∧
    SinkCall.ended ∈ (u.entries e).heard ∧ SinkCall.restored ∉ (u.entries e).heard

theorem Handshaken.append {acts : List Act} (h : Handshaken acts e) (more : List Act) :
    Handshaken (acts ++ more) e := by
  obtain ⟨before, after, u, rfl, hu⟩ := h
  exact ⟨before, after ++ more, u, by simp, hu⟩

/-- Whose `Restored` comes next, and who has heard it, has its handshake. -/
structure Restores (acts : List Act) (s : State) : Prop where
  next : s.cb = .restoreAll → ∀ e, s.orphan = some e → Handshaken acts e
  telling : ∀ e, s.cb = .restoring e → Handshaken acts e
  told : ∀ e, SinkCall.restored ∈ (s.entries e).heard → Handshaken acts e

theorem Opened.not_mem {heard : List SinkCall} (h : Opened heard) :
    SinkCall.ended ∉ heard ∧ SinkCall.restored ∉ heard := by
  obtain ⟨n, rfl⟩ := h
  simp [mem_replicate]

theorem SinkOk.of_orphan (h : s.SinkOk e) (hidle : s.cb = .idle) (horphan : s.orphan = some e) :
    SinkCall.ended ∈ (s.entries e).heard ∧ SinkCall.restored ∉ (s.entries e).heard := by
  obtain ⟨hlive, hloss⟩ := h.orphaned horphan
  have hquiet : ¬ s.Telling e := by
    unfold Telling
    rw [hidle]
    simp
  rcases h.closed hlive hloss hquiet with ⟨before, hbefore, heq⟩ | ⟨hnot, -⟩
  · rw [heq]
    simp [hbefore.not_mem.2]
  · exact absurd (.inl horphan) hnot

/-! ### What the sinks have heard -/

theorem drop_heard (s : State) (e : Nat) (why : Removal) (e' : Nat) :
    ((s.drop e why).entries e').heard = (s.entries e').heard :=
  drop_keeps Entry.heard (fun _ _ => rfl) s e why e'

theorem mem_hear {e e' : Nat} {call found : SinkCall}
    (h : found ∈ ((s.hear e call).entries e').heard) :
    found ∈ (s.entries e').heard ∨ (e' = e ∧ found = call) := by
  rw [hear_entries] at h
  split at h
  · next heq =>
    subst heq
    exact (mem_append.mp h).imp_right fun hnew => ⟨rfl, mem_singleton.mp hnew⟩
  · exact .inl h

/-- An event tells no sink at once, and only a verified handshake begins to restore. -/
theorem EventMove.heard {event : Event} (hidle : s.cb = .idle) (h : EventMove s event t) :
    (∀ e, (t.entries e).heard = (s.entries e).heard) ∧ (∀ e, t.cb ≠ .restoring e) ∧
      (t.cb = .restoreAll → event = .connected true ∧ t.orphan = s.orphan) := by
  cases h with
  | stay =>
    rw [hidle]
    exact ⟨fun _ => rfl, by simp, by simp⟩
  | @accept e =>
    refine ⟨fun e' => ?_, by rintro e' ⟨⟩, by rintro ⟨⟩⟩
    rw [setCb_entries]
    exact update_keeps Entry.heard rfl e'
  | publish => exact ⟨fun _ => rfl, by rintro e' ⟨⟩, by rintro ⟨⟩⟩
  | lose e =>
    unfold State.lose
    split
    · refine ⟨drop_heard s e .loss, fun e' => ?_, fun hall => absurd hall ?_⟩
      all_goals
        change (if (s.entries e).live then Callback.ending e else .refusing e) ≠ _
        split <;> simp
    · exact ⟨fun _ => rfl, by rintro e' ⟨⟩, by rintro ⟨⟩⟩
  | begin _ _ hcb =>
    refine ⟨fun _ => rfl, fun e => ?_, fun hall => ?_⟩
    · rcases hcb with ⟨e', rfl⟩ | ⟨orphan, rfl⟩ | ⟨rfl, -⟩ <;> rintro ⟨⟩
    · rcases hcb with ⟨e', rfl⟩ | ⟨orphan, rfl⟩ | ⟨-, hevent⟩
      · cases hall
      · cases hall
      · exact ⟨hevent, rfl⟩

theorem onCallback_heard (ht : s.onCallback = some t) :
    t.cb ≠ .restoreAll ∧
      (∀ e, t.cb = .restoring e → s.cb = .restoreAll ∧ s.orphan = some e) ∧
      (∀ e, SinkCall.restored ∈ (t.entries e).heard →
        SinkCall.restored ∈ (s.entries e).heard ∨ s.cb = .restoring e) := by
  have hhear : ∀ {e call}, call ≠ .restored ∨ s.cb = .restoring e → ∀ e',
      SinkCall.restored ∈ ((s.hear e call).entries e').heard →
        SinkCall.restored ∈ (s.entries e').heard ∨ s.cb = .restoring e' := by
    intro e call hcall e' hmem
    rcases mem_hear hmem with hold | ⟨rfl, hnew⟩
    · exact .inl hold
    · exact .inr (hcall.resolve_left fun hne => hne hnew.symm)
  have hsettle : ∀ {e outcome} e', SinkCall.restored ∈ ((s.settle e outcome).entries e').heard →
      SinkCall.restored ∈ (s.entries e').heard ∨ s.cb = .restoring e' := by
    intro e outcome e' hmem
    rw [State.settle, update_keeps Entry.heard rfl] at hmem
    exact .inl hmem
  unfold State.onCallback at ht
  split at ht
  · cases ht
  · cases ht
    exact ⟨by rintro ⟨⟩, by rintro e' ⟨⟩, hhear (.inl (by simp))⟩
  · cases ht
    exact ⟨by rintro ⟨⟩, by rintro e' ⟨⟩, hsettle⟩
  · cases ht
    exact ⟨by rintro ⟨⟩, by rintro e' ⟨⟩, hhear (.inl (by simp))⟩
  · rename_i e _
    cases ht
    unfold State.lose
    split
    · refine ⟨?_, fun e' => ?_, fun e' hmem => .inl (drop_heard s e .loss e' ▸ hmem)⟩
      · change (if (s.entries e).live then Callback.ending e else .refusing e) ≠ _
        split <;> simp
      · change (if (s.entries e).live then Callback.ending e else .refusing e) = _ → _
        split <;> simp
    · exact ⟨by rintro ⟨⟩, by rintro e' ⟨⟩, fun e' hmem => .inl hmem⟩
  · cases ht
    exact ⟨by rintro ⟨⟩, by rintro e' ⟨⟩, hhear (.inl (by simp))⟩
  · cases ht
    exact ⟨by rintro ⟨⟩, by rintro e' ⟨⟩, hsettle⟩
  · dsimp only at ht
    split at ht
    · cases ht
      exact ⟨by rintro ⟨⟩, by rintro e' ⟨⟩, fun e' hmem => .inl hmem⟩
    · cases ht
      refine ⟨by rintro ⟨⟩, by rintro e' ⟨⟩, fun e' hmem => .inl ?_⟩
      rw [setCb_entries, drop_heard] at hmem
      exact hmem
  · rename_i e _
    cases ht
    refine ⟨?_, fun e' => ?_, fun e' hmem => .inl ?_⟩
    · change (if (s.entries e).live then Callback.dropEnding e else .dropRefusing e) ≠ _
      split <;> simp
    · change (if (s.entries e).live then Callback.dropEnding e else .dropRefusing e) = _ → _
      split <;> simp
    · split at hmem <;> exact hmem
  · cases ht
    exact ⟨by rintro ⟨⟩, by rintro e' ⟨⟩, hhear (.inl (by simp))⟩
  · cases ht
    exact ⟨by rintro ⟨⟩, by rintro e' ⟨⟩, hsettle⟩
  · rename_i hcase
    split at ht
    · cases ht
      exact ⟨by rintro ⟨⟩, by rintro e' ⟨⟩, fun e' hmem => .inl hmem⟩
    · rename_i e horphan
      cases ht
      refine ⟨by rintro ⟨⟩, ?_, fun e' hmem => .inl hmem⟩
      rintro e' ⟨⟩
      exact ⟨hcase, horphan⟩
  · rename_i e hcase
    cases ht
    exact ⟨by rintro ⟨⟩, by rintro e' ⟨⟩, hhear (.inr hcase)⟩

theorem restores_exec {acts : List Act} (hrun : Runs.exec State.step {} acts = some s) :
    Restores acts s := by
  refine Runs.exec_history ⟨by simp, by simp, by simp⟩ ?_ hrun
  intro before u act v hbefore hu hv
  have hinv : u.SinkInv := SinkInv.exec hbefore
  cases hact : act.plain with
  | true =>
    obtain ⟨hcb, horphan, hentry⟩ := hinv.table.plain hact hv
    refine ⟨fun h e he => ?_, fun e h => ?_, fun e h => ?_⟩
    · rw [hcb] at h
      rw [horphan] at he
      exact (hu.next h e he).append _
    · rw [hcb] at h
      exact (hu.telling e h).append _
    · rw [(hentry e).heard] at h
      exact (hu.told e h).append _
  | false =>
    cases act with
    | event event =>
      simp only [State.step] at hv
      split at hv
      · rename_i hidle
        obtain ⟨hheard, hrestoring, hall⟩ := (onEvent_eventMove hv).heard hidle
        refine ⟨fun h e he => ?_, fun e h => absurd h (hrestoring e), fun e h => ?_⟩
        · obtain ⟨rfl, horphan⟩ := hall h
          rw [horphan] at he
          exact ⟨before, [], u, rfl, hbefore, (hinv.sink e).of_orphan hidle he⟩
        · rw [hheard] at h
          exact (hu.told e h).append _
      · cases hv
    | callback =>
      obtain ⟨hall, hrestoring, htold⟩ := onCallback_heard hv
      refine ⟨fun h => absurd h hall, fun e h => ?_, fun e h => ?_⟩
      · obtain ⟨hcb, horphan⟩ := hrestoring e h
        exact (hu.next hcb e horphan).append _
      · rcases htold e h with h | h
        · exact (hu.told e h).append _
        · exact (hu.telling e h).append _
    | _ => cases hact

/-! ## The protocol -/

/-- What a sink may hear: nothing, or `Subscribed`, then publications, then at most an `Ended`
and at most a `Restored` after it. -/
def Conforms (heard : List SinkCall) : Prop :=
  heard = [] ∨ ∃ n tail, heard = .subscribed :: (List.replicate n .publication ++ tail) ∧
    tail ∈ [[], [SinkCall.ended], [.ended, .restored]]

theorem SinkOk.conforms (h : s.SinkOk e) : Conforms (s.entries e).heard := by
  cases hlive : (s.entries e).live with
  | false => exact .inl (h.silent hlive)
  | true =>
    by_cases haccepting : s.cb = .accepting e
    · exact .inl (h.accepting haccepting)
    · by_cases hopen : (s.entries e).removed ≠ some .loss ∨ s.Telling e
      · obtain ⟨n, hn⟩ := h.opened hlive haccepting hopen
        exact .inr ⟨n, [], by rw [hn, append_nil], by simp⟩
      · rw [not_or, not_not] at hopen
        rcases h.closed hlive hopen.1 hopen.2 with
          ⟨_, ⟨n, rfl⟩, heq⟩ | ⟨-, _, ⟨n, rfl⟩, heq⟩
        · exact .inr ⟨n, _, by rw [heq, cons_append], by simp⟩
        · exact .inr ⟨n, _, by rw [heq, cons_append], by simp⟩

theorem SinkOk.of_ended (h : s.SinkOk e) (hended : SinkCall.ended ∈ (s.entries e).heard) :
    (s.entries e).live = true ∧ (s.entries e).removed = some .loss := by
  have hlive : (s.entries e).live = true := by
    cases hlive : (s.entries e).live with
    | false =>
      rw [h.silent hlive] at hended
      cases hended
    | true => rfl
  have haccepting : s.cb ≠ .accepting e := by
    intro hcb
    rw [h.accepting hcb] at hended
    cases hended
  refine ⟨hlive, ?_⟩
  by_cases hloss : (s.entries e).removed = some .loss
  · exact hloss
  · exact absurd hended (h.opened hlive haccepting (.inl hloss)).not_mem.1

end State

/-- The call or callback the step belongs to has returned in `s`. -/
def Act.Over (act : Act) (s : State) : Prop :=
  (∀ c, act.call = some c → (s.calls c).Returned) ∧ (act.call = none → s.cb = .idle)

namespace State

variable {s t : State} {e : Nat}

/-- The step, taken after `before`, is the one that removed the entry from the table. -/
def RemovedBy (before : List Act) (act : Act) (e : Nat) (u v : State) : Prop :=
  Runs.exec State.step {} before = some u ∧ u.step act = some v ∧
    (u.entries e).removed = none ∧ (v.entries e).removed ≠ none

/-- What a run has to have done by an entry when it is in `s`. -/
structure SinkProtocol (acts : List Act) (s : State) (e : Nat) : Prop where
  heard : Conforms (s.entries e).heard
  /-- Who hears `Ended` was live and current when a callback lost it. -/
  ended : SinkCall.ended ∈ (s.entries e).heard → ∃ before act after u v,
    acts = before ++ act :: after ∧ RemovedBy before act e u v ∧ act.plain = false ∧
      u.current = some e ∧ (u.entries e).live = true ∧ v.current ≠ some e
  /-- Who was removed by a call hears no `Ended`. -/
  withdrawn : ∀ before act after u v, acts = before ++ act :: after →
    RemovedBy before act e u v → act.plain = true → SinkCall.ended ∉ (s.entries e).heard
  /-- `Restored` comes after a verified handshake that came after `Ended`. -/
  restored : SinkCall.restored ∈ (s.entries e).heard → Handshaken acts e
  /-- An outcome that was recorded is the entry's. -/
  settled : ∀ before after u o, acts = before ++ after →
    Runs.exec State.step {} before = some u → (u.entries e).settled = some o →
      (s.entries e).settled = some o
  /-- The outcome is recorded when what removed the entry has returned. -/
  remover : ∀ before act after later u v w, acts = before ++ act :: (after ++ later) →
    RemovedBy before act e u v → Runs.exec State.step v after = some w → act.Over w →
      (s.entries e).settled ≠ none
  /-- One entry that was reserved is not removed, the current one. -/
  current : ∀ e', e < s.next → e' < s.next → (s.entries e).removed = none →
    (s.entries e').removed = none → e = e' ∧ s.current = some e
  /-- A publication for an entry that is not current reaches no sink. -/
  publication : ∀ t, s.current ≠ some e → s.step (.event (.publication e)) = some t → t = s

variable {acts : List Act}

theorem SinkInv.kept (h : s.SinkInv) (hrun : Runs.exec State.step s acts = some t) :
    (∀ o, (s.entries e).settled = some o → (t.entries e).settled = some o) ∧
      ((s.entries e).removed ≠ none → (t.entries e).removed = (s.entries e).removed ∧
        (t.entries e).live = (s.entries e).live) := by
  apply Runs.exec_invariant_under (fun _ _ _ hv hu => SinkInv.step hu hv) hrun h
  · exact ⟨fun _ => id, fun _ => ⟨rfl, rfl⟩⟩
  · rintro u act v hu hv ⟨hsettled, hremoved⟩
    refine ⟨fun o ho => hu.table.settled_step hv (hsettled o ho), fun hr => ?_⟩
    obtain ⟨hsame, hlive⟩ := hremoved hr
    obtain ⟨hsame', hlive'⟩ := hu.table.removed_step hv (by rw [hsame]; exact hr)
    exact ⟨hsame'.trans hsame, hlive'.trans hlive⟩

theorem SinkInv.owed_exec (h : s.SinkInv) {act : Act} (hrun : Runs.exec State.step s acts = some t)
    (howed : s.Owed act e) : t.Owed act e := by
  apply Runs.exec_invariant_under (fun _ _ _ hv hu => SinkInv.step hu hv) hrun h howed
  exact fun _ _ _ hu hv howed => hu.owed_step hv howed

theorem Owed.settled {act : Act} (howed : s.Owed act e) (hover : act.Over s) :
    (s.entries e).settled ≠ none := by
  rcases howed with hsettled | ⟨c, hc, howes⟩ | ⟨hcall, hleaves⟩
  · exact hsettled
  · rcases hover.1 c hc with hpc | ⟨_, _, hpc⟩ <;> rcases howes with h | h | ⟨_, h⟩ <;>
      rw [hpc] at h <;> cases h
  · rw [hover.2 hcall] at hleaves
    cases hleaves

theorem ended_lost (hrun : Runs.exec State.step {} acts = some s)
    (hended : SinkCall.ended ∈ (s.entries e).heard) : ∃ before act after u v,
      acts = before ++ act :: after ∧ RemovedBy before act e u v ∧ act.plain = false ∧
        u.current = some e ∧ (u.entries e).live = true ∧ v.current ≠ some e := by
  obtain ⟨hlive, hloss⟩ := ((SinkInv.exec hrun).sink e).of_ended hended
  obtain ⟨before, act, after, u, v, heq, hbefore, hu, hstep, hv, hafter⟩ :=
    Runs.exists_step_of_exec (P := fun s => (s.entries e).removed = some .loss) hrun (by simp) hloss
  have hinv : u.SinkInv := SinkInv.exec hbefore
  obtain ⟨hcur, hgone, hsame⟩ := hinv.table.loss_step hstep hu hv
  obtain ⟨-, hkept⟩ := ((hinv.step hstep).kept (e := e) hafter).2 (by rw [hv]; simp)
  refine ⟨before, act, after, u, v, heq,
    ⟨hbefore, hstep, hinv.table.not_removed hcur, by rw [hv]; simp⟩, ?_, hcur, ?_, hgone⟩
  · cases hact : act.plain with
    | false => rfl
    | true =>
      rcases ((hinv.table.plain hact hstep).entry e).removed with hr | ⟨-, why, hwhy, hne⟩
      · exact absurd (hr.symm.trans hv) hu
      · rw [hv] at hwhy
        exact absurd (Option.some.inj hwhy).symm hne
  · rw [← hsame, ← hkept]
    exact hlive

/-- The session sink protocol: it is kept by every run of a link, whatever calls interleave with
the callbacks. -/
theorem sink_protocol {acts : List Act} (hrun : Runs.exec State.step {} acts = some s) (e : Nat) :
    SinkProtocol acts s e := by
  have hinv : s.SinkInv := SinkInv.exec hrun
  refine ⟨(hinv.sink e).conforms, ended_lost hrun, ?_, (restores_exec hrun).told e, ?_, ?_, ?_, ?_⟩
  · rintro before act after u v rfl ⟨hbefore, hstep, hu, hv⟩ hact hended
    obtain ⟨-, hloss⟩ := (hinv.sink e).of_ended hended
    have huinv : u.SinkInv := SinkInv.exec hbefore
    have hafter := Runs.exec_tail hstep (Runs.exec_rest hbefore hrun)
    obtain ⟨hsame, -⟩ := ((huinv.step hstep).kept (e := e) hafter).2 hv
    rcases ((huinv.table.plain hact hstep).entry e).removed with hr | ⟨-, why, hwhy, hne⟩
    · exact hv (hr.trans hu)
    · rw [hsame, hwhy] at hloss
      exact hne (Option.some.inj hloss)
  · rintro before after u o rfl hbefore ho
    exact ((SinkInv.exec hbefore).kept (Runs.exec_rest hbefore hrun)).1 o ho
  · rintro before act after later u v w rfl ⟨hbefore, hstep, hu, hv⟩ hafter hover
    have huinv : u.SinkInv := SinkInv.exec hbefore
    have hvinv : v.SinkInv := huinv.step hstep
    have howed : w.Owed act e :=
      hvinv.owed_exec hafter (huinv.table.owed_of_removed hstep hu hv)
    have hlater := Runs.exec_rest hafter (Runs.exec_tail hstep (Runs.exec_rest hbefore hrun))
    obtain ⟨o, ho⟩ := Option.ne_none_iff_exists'.mp (howed.settled hover)
    have hwinv : w.SinkInv := Runs.exec_invariant (fun _ _ _ hs h => h.step hs) hafter hvinv
    rw [(hwinv.kept hlater).1 o ho]
    simp
  · intro e' he he' hr hr'
    have hcur := (hinv.table.table e he).mp hr
    have hcur' := (hinv.table.table e' he').mp hr'
    exact ⟨Option.some.inj (hcur.symm.trans hcur'), hcur⟩
  · intro t hcur ht
    simp only [State.step, State.onEvent] at ht
    split at ht
    · split at ht
      · cases ht
      · split at ht
        · rename_i hcond
          exact absurd hcond.1 hcur
        · cases ht
          rfl
    · cases ht

/-- A subscription that is accepted, hears a publication, is lost with its connection and is told
of the next handshake. -/
def restoredRun : List Act :=
  [.subscribe 0, .advance 0 true, .advance 0 true, .advance 0 true, .advance 0 true,
    .advance 0 true, .event (.subscribed 0), .callback, .callback, .advance 0 true,
    .event (.publication 0), .callback, .event .connecting, .callback, .callback, .callback,
    .event (.connected true), .callback, .callback]

theorem sink_protocol_restored : ∃ s, Runs.exec State.step {} restoredRun = some s ∧
    (s.entries 0).heard = [.subscribed, .publication, .ended, .restored] ∧
    SinkProtocol restoredRun s 0 :=
  ⟨_, rfl, rfl, sink_protocol rfl 0⟩

end State

end Factory.Hostlink
