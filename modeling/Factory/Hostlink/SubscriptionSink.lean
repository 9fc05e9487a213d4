import Factory.Hostlink.SubscriptionSteps

/-!
# What a session sink hears

Whatever calls interleave with the callbacks of a link, whose bodies run one at a time, the sink
of an entry hears nothing, or `Subscribed`, then publications, and then nothing more, `Ended`, or
`Ended` and `Restored` (`Conforms`). Calls change an entry's outcome and whether it is in the
table (`Plain`); what the sink hears is the callbacks' alone, and `SinkOk` says where each stands
with its entry.
-/

namespace Factory.Hostlink

/-- The entry a callback is about to do something for. -/
def Callback.about : Callback → Option Nat
  | .accepting e => some e
  | .accepted e => some e
  | .publishing e => some e
  | .ending e => some e
  | .refusing e => some e
  | .dropping e => some e
  | .dropEnding e => some e
  | .dropRefusing e => some e
  | .restoring e => some e
  | _ => none

namespace State

variable {s t : State} {e : Nat}

/-- The running callback has removed the live entry and stands before its `Ended`. -/
def Telling (s : State) (e : Nat) : Prop :=
  s.cb = .ending e ∨ s.cb = .dropEnding e ∨ (s.cb = .dropping e ∧ (s.entries e).live = true)

/-! ## Callbacks -/

/-- `Subscribed` and then publications only. -/
def Opened (heard : List SinkCall) : Prop :=
  ∃ n, heard = .subscribed :: List.replicate n .publication

/-- Then `Ended`, and at most a `Restored` after it; `again` says whether one may still come. -/
def Closed (heard : List SinkCall) (again : Prop) : Prop :=
  (∃ before, Opened before ∧ heard = before ++ [.ended]) ∨
    (¬ again ∧ ∃ before, Opened before ∧ heard = before ++ [.ended, .restored])

/-- What the sink of an entry has heard, and where the running callback stands with it. -/
structure SinkOk (s : State) (e : Nat) : Prop where
  silent : (s.entries e).live = false → (s.entries e).heard = []
  live_settled : (s.entries e).live = true →
    (s.entries e).settled ≠ none ∨ s.cb = .accepting e ∨ s.cb = .accepted e
  accepting : s.cb = .accepting e → (s.entries e).heard = []
  serving : s.cb = .accepting e ∨ s.cb = .accepted e ∨ s.cb = .publishing e →
    (s.entries e).live = true ∧ (s.entries e).removed ≠ some .loss
  opened : (s.entries e).live = true → s.cb ≠ .accepting e →
    (s.entries e).removed ≠ some .loss ∨ s.Telling e → Opened (s.entries e).heard
  closed : (s.entries e).live = true → (s.entries e).removed = some .loss → ¬ s.Telling e →
    Closed (s.entries e).heard (s.orphan = some e ∨ s.cb = .restoring e)
  orphaned : s.orphan = some e → (s.entries e).live = true ∧ (s.entries e).removed = some .loss
  restoring : s.cb = .restoring e →
    (s.entries e).live = true ∧ (s.entries e).removed = some .loss ∧ s.orphan ≠ some e
  ending : s.cb = .ending e ∨ s.cb = .dropEnding e → (s.entries e).live = true
  refusing : s.cb = .refusing e ∨ s.cb = .dropRefusing e → (s.entries e).live = false

theorem cb_ne_of_about (hcb : s.cb.about ≠ some e) (cb : Callback) (habout : cb.about = some e) :
    s.cb ≠ cb := by
  rintro rfl
  exact hcb habout

theorem not_telling (hcb : s.cb.about ≠ some e) : ¬ s.Telling e := by
  rintro (h | h | ⟨h, -⟩) <;> exact cb_ne_of_about hcb _ rfl h

theorem SinkOk.of_other (hcb : s.cb.about ≠ some e)
    (hsilent : (s.entries e).live = false → (s.entries e).heard = [])
    (hsettled : (s.entries e).live = true → (s.entries e).settled ≠ none)
    (hopened : (s.entries e).live = true → (s.entries e).removed ≠ some .loss →
      Opened (s.entries e).heard)
    (hclosed : (s.entries e).live = true → (s.entries e).removed = some .loss →
      Closed (s.entries e).heard (s.orphan = some e))
    (horphaned : s.orphan = some e →
      (s.entries e).live = true ∧ (s.entries e).removed = some .loss) : s.SinkOk e := by
  have hne := cb_ne_of_about hcb
  have hquiet := not_telling hcb
  refine ⟨hsilent, fun hl => .inl (hsettled hl), fun h => absurd h (hne _ rfl), ?_, ?_, ?_,
    horphaned, fun h => absurd h (hne _ rfl), ?_, ?_⟩
  · rintro (h | h | h) <;> exact absurd h (hne _ rfl)
  · rintro hl - (hr | ht)
    · exact hopened hl hr
    · exact absurd ht hquiet
  · intro hl hr _
    rcases hclosed hl hr with hended | ⟨hnot, hrestored⟩
    · exact .inl hended
    · refine .inr ⟨?_, hrestored⟩
      rintro (h | h)
      · exact hnot h
      · exact hne _ rfl h
  · rintro (h | h) <;> exact absurd h (hne _ rfl)
  · rintro (h | h) <;> exact absurd h (hne _ rfl)

/-- A live entry whose acceptance is over has its outcome. -/
theorem SinkOk.settled_of_live (h : s.SinkOk e) (hlive : (s.entries e).live = true)
    (haccepting : s.cb ≠ .accepting e) (haccepted : s.cb ≠ .accepted e) :
    (s.entries e).settled ≠ none :=
  (h.live_settled hlive).resolve_right fun hcb => hcb.elim haccepting haccepted

theorem SinkOk.facts (h : s.SinkOk e) (hcb : s.cb.about ≠ some e) :
    ((s.entries e).live = true → (s.entries e).settled ≠ none) ∧
      ((s.entries e).live = true → (s.entries e).removed ≠ some .loss →
        Opened (s.entries e).heard) ∧
      ((s.entries e).live = true → (s.entries e).removed = some .loss →
        Closed (s.entries e).heard (s.orphan = some e)) := by
  have hne := cb_ne_of_about hcb
  have hquiet := not_telling hcb
  refine ⟨fun hl => ?_, fun hl hr => h.opened hl (hne _ rfl) (.inl hr), fun hl hr => ?_⟩
  · exact h.settled_of_live hl (hne _ rfl) (hne _ rfl)
  · rcases h.closed hl hr hquiet with hended | ⟨hnot, hrestored⟩
    · exact .inl hended
    · exact .inr ⟨fun ho => hnot (.inl ho), hrestored⟩

theorem Closed.mono {heard : List SinkCall} {p q : Prop} (h : Closed heard p) (hpq : q → p) :
    Closed heard q :=
  h.imp id fun ⟨hnot, hrestored⟩ => ⟨fun hq => hnot (hpq hq), hrestored⟩

theorem SinkOk.other (h : s.SinkOk e) (hent : t.entries e = s.entries e)
    (horphan : t.orphan = some e → s.orphan = some e) (hs : s.cb.about ≠ some e)
    (ht : t.cb.about ≠ some e) : t.SinkOk e := by
  obtain ⟨hsettled, hopened, hclosed⟩ := h.facts hs
  rw [← hent] at hsettled hopened hclosed
  refine SinkOk.of_other ht (by rw [hent]; exact h.silent) hsettled hopened
    (fun hl hr => (hclosed hl hr).mono horphan) fun ho => ?_
  rw [hent]
  exact h.orphaned (horphan ho)

theorem SinkOk.plain (h : s.SinkOk e) (hplain : Plain s t) : t.SinkOk e := by
  obtain ⟨hcb, horphan, hentry⟩ := hplain
  obtain ⟨hlive, hheard, hsettled, hremoved⟩ := hentry e
  have hloss : (t.entries e).removed = some .loss ↔ (s.entries e).removed = some .loss := by
    rcases hremoved with hsame | ⟨hnone, why, hwhy, hne⟩
    · rw [hsame]
    · simp [hnone, hwhy, hne]
  have htelling : t.Telling e ↔ s.Telling e := by
    unfold Telling
    rw [hcb, hlive]
  refine ⟨?_, fun hl => ?_, ?_, ?_, ?_, ?_, ?_, ?_, ?_, ?_⟩
  · rw [hlive, hheard]
    exact h.silent
  · rw [hlive] at hl
    rw [hcb]
    rcases h.live_settled hl with hs | hs
    · obtain ⟨o, ho⟩ := Option.ne_none_iff_exists'.mp hs
      exact .inl (by rw [hsettled o ho]; simp)
    · exact .inr hs
  · rw [hcb, hheard]
    exact h.accepting
  · rw [hcb, hlive, ne_eq, hloss]
    exact h.serving
  · rw [hcb, hlive, hheard, htelling, ne_eq, ne_eq, hloss]
    exact h.opened
  · rw [hcb, hlive, hheard, htelling, hloss, horphan]
    exact h.closed
  · rw [horphan, hlive, hloss]
    exact h.orphaned
  · rw [hcb, hlive, hloss, horphan]
    exact h.restoring
  · rw [hcb, hlive]
    exact h.ending
  · rw [hcb, hlive]
    exact h.refusing

theorem SinkOk.lost (h : s.SinkOk e) (hs : s.cb.about ≠ some e)
    (hr : (s.entries e).removed = none)
    (hent : t.entries e = { s.entries e with removed := some .loss })
    (hcb : (t.cb = .ending e ∧ (s.entries e).live = true) ∨
      (t.cb = .refusing e ∧ (s.entries e).live = false) ∨ t.cb = .dropping e)
    (horphan : t.orphan = some e → (s.entries e).live = true) : t.SinkOk e := by
  obtain ⟨hsettled, hopened, -⟩ := h.facts hs
  have hopen : (s.entries e).live = true → Opened (s.entries e).heard :=
    fun hl => hopened hl (by rw [hr]; simp)
  have htelling : (s.entries e).live = true → t.Telling e := by
    intro hl
    rcases hcb with ⟨hcb, -⟩ | ⟨-, hdead⟩ | hcb
    · exact .inl hcb
    · cases hl.symm.trans hdead
    · exact .inr (.inr ⟨hcb, by rw [hent]; exact hl⟩)
  have hnot : ∀ cb : Callback, cb = .accepting e ∨ cb = .accepted e ∨ cb = .publishing e ∨
      cb = .restoring e ∨ cb = .dropEnding e ∨ cb = .dropRefusing e → t.cb ≠ cb := by
    rintro cb (rfl | rfl | rfl | rfl | rfl | rfl) <;>
      rcases hcb with ⟨hcb, -⟩ | ⟨hcb, -⟩ | hcb <;> rw [hcb] <;> simp
  refine ⟨?_, ?_, ?_, ?_, ?_, ?_, ?_, ?_, ?_, ?_⟩
  · rw [hent]
    exact h.silent
  · rw [hent]
    exact fun hl => .inl (hsettled hl)
  · exact fun hc => absurd hc (hnot _ (by simp))
  · rintro (hc | hc | hc) <;> exact absurd hc (hnot _ (by simp))
  · rw [hent]
    exact fun hl _ _ => hopen hl
  · rw [hent]
    exact fun hl _ hquiet => absurd (htelling hl) hquiet
  · rw [hent]
    exact fun ho => ⟨horphan ho, rfl⟩
  · exact fun hc => absurd hc (hnot _ (by simp))
  · rw [hent]
    rintro (hc | hc)
    · rcases hcb with ⟨-, hl⟩ | ⟨hcb, -⟩ | hcb
      · exact hl
      · cases hcb.symm.trans hc
      · cases hcb.symm.trans hc
    · exact absurd hc (hnot _ (by simp))
  · rw [hent]
    rintro (hc | hc)
    · rcases hcb with ⟨hcb, -⟩ | ⟨-, hl⟩ | hcb
      · cases hcb.symm.trans hc
      · exact hl
      · cases hcb.symm.trans hc
    · exact absurd hc (hnot _ (by simp))

theorem sinkOk_dropLoss (htable : s.Table) (h : ∀ e, s.SinkOk e) (hs : s.cb.about = none)
    (hcur : s.current = some e) (orphan : Option Nat) {cb : Callback}
    (hcb : (cb = .ending e ∧ (s.entries e).live = true) ∨
      (cb = .refusing e ∧ (s.entries e).live = false) ∨ cb = .dropping e)
    (horphan : ∀ e', orphan = some e' → s.orphan = some e' ∨ (e' = e ∧ (s.entries e).live = true)) :
    ∀ e', (((s.setOrphan orphan).drop e .loss).setCb cb).SinkOk e' := by
  have hentries : ∀ e', (((s.setOrphan orphan).drop e .loss).setCb cb).entries e' =
      if e' = e then { s.entries e with removed := some .loss } else s.entries e' := by
    intro e'
    change ((s.setOrphan orphan).drop e .loss).entries e' = _
    rw [drop_entries]
    have hcur' : (s.setOrphan orphan).current = some e := hcur
    simp only [hcur', true_and]
    rfl
  have horphan' : (((s.setOrphan orphan).drop e .loss).setCb cb).orphan = orphan :=
    drop_orphan (s.setOrphan orphan) e .loss
  have habout : cb.about = some e := by
    rcases hcb with ⟨rfl, -⟩ | ⟨rfl, -⟩ | rfl <;> rfl
  intro e'
  by_cases heq : e' = e
  · subst heq
    refine (h e').lost (by rw [hs]; simp) (htable.not_removed hcur)
      (by rw [hentries, if_pos rfl]) hcb fun ho => ?_
    rw [horphan'] at ho
    rcases horphan e' ho with hold | ⟨-, hl⟩
    · exact ((h e').orphaned hold).1
    · exact hl
  · refine (h e').other (by rw [hentries, if_neg heq]) (fun ho => ?_) (by rw [hs]; simp) ?_
    · rw [horphan'] at ho
      exact (horphan e' ho).resolve_right fun ⟨hsame, _⟩ => heq hsame
    · change cb.about ≠ some e'
      rw [habout]
      simpa using Ne.symm heq

theorem sinkOk_lose (htable : s.Table) (h : ∀ e, s.SinkOk e) (hs : s.cb.about = none) (e : Nat) :
    ∀ e', (s.lose e).SinkOk e' := by
  unfold lose
  split
  · rename_i hcur
    refine sinkOk_dropLoss htable h hs hcur s.orphan ?_ fun e' ho => .inl ho
    cases hl : (s.entries e).live
    · exact .inr (.inl ⟨rfl, rfl⟩)
    · exact .inl ⟨rfl, rfl⟩
  · intro e'
    exact (h e').other rfl id (by rw [hs]; simp) (by simp [setCb, Callback.about])

theorem EventMove.sinkOk (htable : s.Table) (h : ∀ e, s.SinkOk e) (hidle : s.cb = .idle)
    {event : Event} (hmove : EventMove s event t) : ∀ e', t.SinkOk e' := by
  have hs : s.cb.about = none := by rw [hidle]; rfl
  cases hmove with
  | stay => exact h
  | @accept e hcur hlive =>
    intro e'
    by_cases heq : e' = e
    · subst heq
      have hheard := (h e').silent hlive
      have hr := htable.not_removed hcur
      have horphan : s.orphan ≠ some e' := by
        intro ho
        have := ((h e').orphaned ho).2
        cases hr.symm.trans this
      refine ⟨?_, ?_, ?_, ?_, ?_, ?_, ?_, ?_, ?_, ?_⟩ <;>
        simp [setCb, update, hheard, hr, horphan]
    · refine (h e').other ?_ id (by rw [hs]; simp) ?_
      · simp [heq]
      · simpa [setCb, Callback.about] using Ne.symm heq
  | @publish e hcur hlive =>
    intro e'
    by_cases heq : e' = e
    · subst heq
      have hr := htable.not_removed hcur
      obtain ⟨hsettled, hopened, -⟩ := (h e').facts (by rw [hs]; simp)
      have horphan := (h e').orphaned
      refine ⟨?_, ?_, ?_, ?_, ?_, ?_, ?_, ?_, ?_, ?_⟩
      · exact (h e').silent
      · exact fun hl => .inl (hsettled hl)
      · simp [setCb]
      · intro _
        exact ⟨hlive, by change (s.entries e').removed ≠ _; rw [hr]; simp⟩
      · exact fun hl _ _ => hopened hl (by rw [hr]; simp)
      · intro _ hloss
        cases hr.symm.trans hloss
      · exact horphan
      · simp [setCb]
      · simp [setCb]
      · simp [setCb]
    · refine (h e').other rfl id (by rw [hs]; simp) ?_
      simpa [setCb, Callback.about] using Ne.symm heq
  | lose e => exact sinkOk_lose htable h hs e
  | begin _ _ hcb =>
    intro e'
    refine (h e').other rfl id (by rw [hs]; simp) ?_
    rcases hcb with ⟨e, rfl⟩ | ⟨orphan, rfl⟩ | ⟨rfl, -⟩ <;> simp [setCb, Callback.about]

theorem sinkOk_of_self (h : ∀ e, s.SinkOk e) (hs : s.cb.about = some e)
    (hent : ∀ e', e' ≠ e → t.entries e' = s.entries e') (horphan : t.orphan = s.orphan)
    (ht : t.cb.about = none ∨ t.cb.about = some e) (hself : t.SinkOk e) : ∀ e', t.SinkOk e' := by
  intro e'
  by_cases heq : e' = e
  · rw [heq]
    exact hself
  · refine (h e').other (hent e' heq) (by rw [horphan]; exact id) ?_ ?_
    · rw [hs]
      simpa using Ne.symm heq
    · rcases ht with ht | ht
      · rw [ht]
        simp
      · rw [ht]
        simpa using Ne.symm heq

theorem Opened.publication {heard : List SinkCall} (h : Opened heard) :
    Opened (heard ++ [.publication]) := by
  obtain ⟨n, rfl⟩ := h
  refine ⟨n + 1, ?_⟩
  rw [List.replicate_succ', List.cons_append]

theorem SinkOk.tellAccepted (h : s.SinkOk e) (hs : s.cb = .accepting e) :
    ((s.hear e .subscribed).setCb (.accepted e)).SinkOk e := by
  obtain ⟨hlive, hloss⟩ := h.serving (.inl hs)
  have hheard := h.accepting hs
  have horphan := h.orphaned
  refine ⟨?_, ?_, ?_, ?_, ?_, ?_, ?_, ?_, ?_, ?_⟩ <;>
    simp [setCb, hear, update, hlive, hloss, hheard]
  · exact ⟨0, rfl⟩
  · exact fun ho => absurd (horphan ho).2 hloss

theorem SinkOk.recordAccepted (h : s.SinkOk e) (hs : s.cb = .accepted e) {o : Outcome} :
    ((s.settle e o).setCb .idle).SinkOk e := by
  obtain ⟨hlive, hloss⟩ := h.serving (.inr (.inl hs))
  have hopen := h.opened hlive (by rw [hs]; simp) (.inl hloss)
  have horphan := h.orphaned
  refine SinkOk.of_other (by simp [setCb, Callback.about]) ?_ ?_ ?_ ?_ ?_ <;>
    simp [setCb, settle, update, hlive, hloss, hopen]
  exact fun ho => absurd (horphan ho).2 hloss

theorem SinkOk.publish (h : s.SinkOk e) (hs : s.cb = .publishing e) :
    ((s.hear e .publication).setCb .idle).SinkOk e := by
  obtain ⟨hlive, hloss⟩ := h.serving (.inr (.inr hs))
  have hopen := h.opened hlive (by rw [hs]; simp) (.inl hloss)
  have hsettled := h.settled_of_live hlive (by rw [hs]; simp) (by rw [hs]; simp)
  have horphan := h.orphaned
  refine SinkOk.of_other (by simp [setCb, Callback.about]) ?_ ?_ ?_ ?_ ?_ <;>
    simp [setCb, hear, update, hlive, hloss, hopen.publication, hsettled]
  exact fun ho => absurd (horphan ho).2 hloss

theorem SinkOk.tellEnded (h : s.SinkOk e) (htable : s.Table)
    (hs : s.cb = .ending e ∨ s.cb = .dropEnding e)
    (hent : t.entries e = { s.entries e with heard := (s.entries e).heard ++ [.ended] })
    (hcb : t.cb = .idle) : t.SinkOk e := by
  have hlive := h.ending hs
  have hloss : (s.entries e).removed = some .loss := by
    refine htable.leaving e ?_
    rcases hs with hs | hs <;> rw [hs] <;> rfl
  have hopen : Opened (s.entries e).heard := by
    refine h.opened hlive ?_ (.inr ?_)
    · rcases hs with hs | hs <;> rw [hs] <;> simp
    · exact hs.imp id .inl
  have hsettled : (s.entries e).settled ≠ none := by
    refine h.settled_of_live hlive ?_ ?_
    · rcases hs with hs | hs <;> rw [hs] <;> simp
    · rcases hs with hs | hs <;> rw [hs] <;> simp
  refine SinkOk.of_other (by rw [hcb]; simp [Callback.about]) ?_ ?_ ?_ ?_ ?_
  · rw [hent]
    intro hl
    cases hlive.symm.trans hl
  · rw [hent]
    exact fun _ => hsettled
  · rw [hent]
    exact fun _ hr => absurd hloss hr
  · rw [hent]
    exact fun _ _ => .inl ⟨_, hopen, rfl⟩
  · rw [hent]
    exact fun _ => ⟨hlive, hloss⟩

theorem SinkOk.recordRefused (h : s.SinkOk e)
    (hs : s.cb = .refusing e ∨ s.cb = .dropRefusing e) {o : Option Outcome}
    (hent : t.entries e = { s.entries e with settled := o })
    (horphan : t.orphan = s.orphan) (hcb : t.cb = .idle) : t.SinkOk e := by
  have hdead := h.refusing hs
  have hcontra : ∀ {P : Prop}, (t.entries e).live = true → P := by
    intro P hl
    rw [hent] at hl
    cases hdead.symm.trans hl
  refine SinkOk.of_other (by rw [hcb]; simp [Callback.about]) ?_ (fun hl => hcontra hl)
    (fun hl => hcontra hl) (fun hl => hcontra hl) ?_
  · rw [hent]
    exact h.silent
  · rw [horphan, hent]
    exact h.orphaned

theorem SinkOk.dropped (h : s.SinkOk e) (hs : s.cb = .dropping e)
    (hent : t.entries e = s.entries e) (horphan : t.orphan = s.orphan)
    (hcb : t.cb = if (s.entries e).live then .dropEnding e else .dropRefusing e) : t.SinkOk e := by
  have hsettled : (s.entries e).live = true → (s.entries e).settled ≠ none :=
    fun hl => h.settled_of_live hl (by rw [hs]; simp) (by rw [hs]; simp)
  have hsilent := h.silent
  have horphaned := h.orphaned
  have hopen : (s.entries e).live = true → Opened (s.entries e).heard :=
    fun hl => h.opened hl (by rw [hs]; simp) (.inr (.inr (.inr ⟨hs, hl⟩)))
  cases hl : (s.entries e).live with
  | true =>
    refine ⟨?_, ?_, ?_, ?_, ?_, ?_, ?_, ?_, ?_, ?_⟩ <;>
      simp [hcb, hent, hl, Telling, hsettled hl, hopen hl, horphan]
    exact fun ho => (horphaned ho).2
  | false =>
    refine ⟨?_, ?_, ?_, ?_, ?_, ?_, ?_, ?_, ?_, ?_⟩ <;>
      simp [hcb, hent, hl, hsilent hl, horphan]
    exact fun ho => by simp [(horphaned ho).1] at hl

theorem sinkOk_onCallback (htable : s.Table) (h : ∀ e, s.SinkOk e)
    (ht : s.onCallback = some t) : ∀ e', t.SinkOk e' := by
  unfold State.onCallback at ht
  cases hcase : s.cb with
  | idle => simp [hcase] at ht
  | accepting e =>
    simp only [hcase] at ht
    cases ht
    exact sinkOk_of_self h (by rw [hcase]; rfl)
      (fun e' hne => by simp [hear_entries, hne]) rfl (.inr rfl) ((h e).tellAccepted hcase)
  | accepted e =>
    simp only [hcase] at ht
    cases ht
    exact sinkOk_of_self h (by rw [hcase]; rfl)
      (fun e' hne => by simp [settle_entries, hne]) rfl (.inl rfl) ((h e).recordAccepted hcase)
  | publishing e =>
    simp only [hcase] at ht
    cases ht
    exact sinkOk_of_self h (by rw [hcase]; rfl)
      (fun e' hne => by simp [hear_entries, hne]) rfl (.inl rfl) ((h e).publish hcase)
  | resubscribing e =>
    simp only [hcase] at ht
    cases ht
    exact sinkOk_lose htable h (by rw [hcase]; rfl) e
  | ending e =>
    simp only [hcase] at ht
    cases ht
    refine sinkOk_of_self h (by rw [hcase]; rfl)
      (fun e' hne => by simp [hear_entries, hne]) rfl (.inl rfl) ?_
    exact (h e).tellEnded htable (.inl hcase) (by simp [hear_entries]) rfl
  | refusing e =>
    simp only [hcase] at ht
    cases ht
    refine sinkOk_of_self h (by rw [hcase]; rfl)
      (fun e' hne => by simp [settle_entries, hne]) rfl (.inl rfl) ?_
    exact (h e).recordRefused (.inl hcase) (by simp [settle_entries]; rfl) rfl rfl
  | dropAll orphan =>
    have hs : s.cb.about = none := by rw [hcase]; rfl
    simp only [hcase] at ht
    split at ht
    · cases ht
      intro e'
      refine (h e').other rfl (fun ho => ?_) (by rw [hs]; simp) (by simp [setCb, Callback.about])
      split at ho
      · exact ho
      · cases ho
    · rename_i e hcur
      cases ht
      refine sinkOk_dropLoss htable h hs hcur _ (.inr (.inr rfl)) fun e' ho => ?_
      split at ho
      · rename_i hcond
        cases ho
        exact .inr ⟨rfl, hcond.2⟩
      · split at ho
        · exact .inl ho
        · cases ho
  | dropping e =>
    simp only [hcase] at ht
    cases ht
    have hent : (if (s.entries e).sub then s.goDiscard e else s).entries = s.entries := by
      split <;> rfl
    have horphan : (if (s.entries e).sub then s.goDiscard e else s).orphan = s.orphan := by
      split <;> rfl
    refine sinkOk_of_self h (by rw [hcase]; rfl) (fun e' _ => congrFun hent e') horphan ?_ ?_
    · right
      change Callback.about (if (s.entries e).live then .dropEnding e else .dropRefusing e) = _
      split <;> rfl
    · exact (h e).dropped hcase (congrFun hent e) horphan rfl
  | dropEnding e =>
    simp only [hcase] at ht
    cases ht
    refine sinkOk_of_self h (by rw [hcase]; rfl)
      (fun e' hne => by simp [hear_entries, hne]) rfl (.inl rfl) ?_
    exact (h e).tellEnded htable (.inr hcase) (by simp [hear_entries]) rfl
  | dropRefusing e =>
    simp only [hcase] at ht
    cases ht
    refine sinkOk_of_self h (by rw [hcase]; rfl)
      (fun e' hne => by simp [settle_entries, hne]) rfl (.inl rfl) ?_
    exact (h e).recordRefused (.inr hcase) (by simp [settle_entries]; rfl) rfl rfl
  | restoreAll =>
    have hs : s.cb.about = none := by rw [hcase]; rfl
    simp only [hcase] at ht
    split at ht
    · cases ht
      intro e'
      exact (h e').other rfl id (by rw [hs]; simp) (by simp [setCb, Callback.about])
    · rename_i e horphan
      cases ht
      obtain ⟨hlive, hloss⟩ := (h e).orphaned horphan
      obtain ⟨hsettled, -, hclosed⟩ := (h e).facts (by rw [hs]; simp)
      have hended := (hclosed hlive hloss).resolve_right fun hnot => hnot.1 horphan
      intro e'
      by_cases heq : e' = e
      · subst heq
        refine ⟨(h e').silent, fun hl => .inl (hsettled hl), ?_, ?_, ?_, ?_, ?_, ?_, ?_, ?_⟩ <;>
          simp [setCb, setOrphan, hlive, hloss, Telling]
        exact .inl hended
      · refine (h e').other rfl (fun ho => by cases ho) (by rw [hs]; simp) ?_
        simpa [setCb, Callback.about] using Ne.symm heq
  | restoring e =>
    simp only [hcase] at ht
    cases ht
    obtain ⟨hlive, hloss, horphan⟩ := (h e).restoring hcase
    have hsettled := (h e).settled_of_live hlive (by rw [hcase]; simp) (by rw [hcase]; simp)
    have hquiet : ¬ s.Telling e := by simp [Telling, hcase]
    obtain ⟨before, hopen, hheard⟩ :=
      ((h e).closed hlive hloss hquiet).resolve_right fun hnot => hnot.1 (.inr hcase)
    refine sinkOk_of_self h (by rw [hcase]; rfl) (fun e' hne => by simp [hear_entries, hne]) rfl
      (.inl rfl) ?_
    refine SinkOk.of_other (by simp [setCb, Callback.about]) ?_ ?_ ?_ ?_ ?_ <;>
      simp [hear_entries, hlive, hloss, hsettled]
    exact .inr ⟨horphan, before, hopen, by rw [hheard, List.append_assoc]; rfl⟩

/-! ## Runs -/

/-- What holds of a channel and of its sinks in every run. -/
structure SinkInv (s : State) : Prop where
  table : s.Table
  sink : ∀ e, s.SinkOk e

theorem sinkInv_init : ({} : State).SinkInv where
  table := table_init
  sink e := by
    refine SinkOk.of_other (by simp [Callback.about]) ?_ ?_ ?_ ?_ ?_ <;> simp

/-- Every step keeps what the sinks have heard. -/
theorem SinkInv.step (h : s.SinkInv) {act : Act} (ht : s.step act = some t) : t.SinkInv := by
  refine ⟨h.table.step ht, ?_⟩
  cases hact : act.plain with
  | true => exact fun e => (h.sink e).plain (h.table.plain hact ht)
  | false =>
    cases act with
    | event event =>
      simp only [State.step] at ht
      split at ht
      · rename_i hidle
        exact (onEvent_eventMove ht).sinkOk h.table h.sink hidle
      · cases ht
    | callback => exact sinkOk_onCallback h.table h.sink ht
    | _ => cases hact

/-- What holds of the sinks in every run. -/
theorem SinkInv.exec {acts : List Act} (hrun : Runs.exec State.step {} acts = some s) : s.SinkInv :=
  Runs.exec_invariant (fun _ _ _ hs h => h.step hs) hrun sinkInv_init

end State

end Factory.Hostlink
