import Factory.Hostlink.SubscriptionMoves

/-!
# The table of one channel of a link

What holds of the entries of a channel in every run, whatever its steps: the current entry is
the one that has not been removed, each entry is created by one call, and whatever a call, a
callback or a goroutine may still discard has been removed (`Table`).
-/

namespace Factory.Hostlink

namespace State

variable {s t : State} {e : Nat}

/-! ## The table -/

/-- What holds of a channel in every run. -/
structure Table (s : State) : Prop where
  current_lt : ∀ e, s.current = some e → e < s.next
  registry_lt : ∀ e, s.registry = some e → e < s.next
  unused : ∀ e, s.next ≤ e → (s.entries e).sent = false ∧ (s.entries e).removed = none
  table : ∀ e, e < s.next → ((s.entries e).removed = none ↔ s.current = some e)
  creates : ∀ c e, (s.calls c).creates = some e → e < s.next ∧ (s.entries e).sent = false
  creates_inj : ∀ c c' e, (s.calls c).creates = some e → (s.calls c').creates = some e → c = c'
  removes : ∀ c e, (s.calls c).removes = some e → (s.entries e).removed ≠ none
  queued : ∀ e ∈ s.discards, (s.entries e).removed ≠ none
  leaving : ∀ e, s.cb.leaves = some e → (s.entries e).removed = some .loss

theorem table_init : ({} : State).Table where
  current_lt _ h := by cases h
  registry_lt _ h := by cases h
  unused _ _ := ⟨rfl, rfl⟩
  table e h := absurd h (Nat.not_lt_zero e)
  creates _ _ h := by cases h
  creates_inj _ _ _ h := by cases h
  removes _ _ h := by cases h
  queued _ h := absurd h List.not_mem_nil
  leaving _ h := by cases h

namespace Table

section

variable (h : s.Table)
include h

theorem removed_of_not_current (he : e < s.next) (hc : s.current ≠ some e) :
    (s.entries e).removed ≠ none := fun hr => hc ((h.table e he).mp hr)

/-- The current entry was not removed. -/
theorem not_removed (hc : s.current = some e) : (s.entries e).removed = none :=
  (h.table e (h.current_lt e hc)).mpr hc

theorem not_current (hr : (s.entries e).removed ≠ none) : s.current ≠ some e :=
  fun hc => hr (h.not_removed hc)

theorem update {f : Entry → Entry} (hremoved : (f (s.entries e)).removed = (s.entries e).removed)
    (hsent : (f (s.entries e)).sent = (s.entries e).sent ∨ (e < s.next ∧ ∀ c, (s.calls c).creates ≠
      some e)) : (s.update e f).Table := by
  have hkept := update_keeps Entry.removed hremoved
  have hunsent : ∀ e', ((s.update e f).entries e').sent = (s.entries e').sent ∨
      (e' < s.next ∧ ∀ c, (s.calls c).creates ≠ some e') := by
    intro e'
    rw [update_entries]
    split
    · rename_i heq
      rw [heq]
      exact hsent
    · exact .inl rfl
  refine ⟨h.current_lt, h.registry_lt, fun e' hn => ?_, fun e' hn => ?_, fun c e' hc => ?_,
    h.creates_inj, fun c e' hc => ?_, fun e' he' => ?_, fun e' he' => ?_⟩
  · rw [hkept]
    rcases hunsent e' with hsame | ⟨hlt, -⟩
    · rw [hsame]
      exact h.unused e' hn
    · exact absurd hlt (Nat.not_lt.mpr hn)
  · rw [hkept]
    exact h.table e' hn
  · obtain ⟨hlt, hold⟩ := h.creates c e' hc
    rcases hunsent e' with hsame | ⟨-, hnone⟩
    · exact ⟨hlt, hsame.trans hold⟩
    · exact absurd hc (hnone c)
  · rw [hkept]
    exact h.removes c e' hc
  · rw [hkept]
    exact h.queued e' he'
  · rw [hkept]
    exact h.leaving e' he'

theorem setCall {c : Nat} {pc : Pc}
    (hcreates : pc.creates = none ∨ pc.creates = (s.calls c).creates)
    (hremoves : ∀ e, pc.removes = some e → (s.entries e).removed ≠ none) :
    (s.setCall c pc).Table := by
  have hback : ∀ c' e, ((s.setCall c pc).calls c').creates = some e →
      (s.calls c').creates = some e := by
    intro c' e hc
    rw [setCall_calls] at hc
    split at hc
    · rename_i heq
      rw [heq]
      rcases hcreates with hnone | hsame
      · cases hnone.symm.trans hc
      · rw [← hsame]
        exact hc
    · exact hc
  refine ⟨h.current_lt, h.registry_lt, h.unused, h.table,
    fun c' e hc => h.creates c' e (hback c' e hc),
    fun c₁ c₂ e h₁ h₂ => h.creates_inj c₁ c₂ e (hback c₁ e h₁) (hback c₂ e h₂),
    fun c' e hc => ?_, h.queued, h.leaving⟩
  rw [setCall_calls] at hc
  split at hc
  · exact hremoves e hc
  · exact h.removes c' e hc

theorem setRegistry {r : Option Nat} (hr : ∀ e, r = some e → e < s.next) :
    ({ s with registry := r } : State).Table :=
  ⟨h.current_lt, hr, h.unused, h.table, h.creates, h.creates_inj, h.removes, h.queued, h.leaving⟩

theorem congr (hcur : t.current = s.current) (hent : t.entries = s.entries)
    (hnext : t.next = s.next) (hreg : t.registry = s.registry) (hdis : t.discards = s.discards)
    (hcalls : t.calls = s.calls) (hcb : t.cb = s.cb) : t.Table := by
  obtain ⟨t1, t2, t3, t4, t5, t6, t7, t8, t9, t10, t11, t12⟩ := t
  subst hcur hent hnext hreg hdis hcalls hcb
  exact ⟨h.current_lt, h.registry_lt, h.unused, h.table, h.creates, h.creates_inj, h.removes,
    h.queued, h.leaving⟩

theorem drop (e : Nat) (why : Removal) : (s.drop e why).Table := by
  by_cases hcur : s.current = some e
  · have hremoved : ∀ e', (s.entries e').removed ≠ none →
        (s.drop e why).entries e' = s.entries e' := by
      intro e' hr
      rw [drop_entries, if_neg]
      rintro ⟨-, rfl⟩
      exact hr (h.not_removed hcur)
    refine ⟨fun e' he' => ?_, ?_, fun e' hn => ?_, fun e' hn => ?_, fun c e' hc => ?_, ?_,
      fun c e' hc => ?_, fun e' he' => ?_, fun e' he' => ?_⟩
    · rw [State.drop, if_pos hcur] at he'
      cases he'
    · rw [drop_registry, drop_next]
      exact h.registry_lt
    · rw [drop_next] at hn
      have hne : e' ≠ e := by
        rintro rfl
        exact absurd (h.current_lt e' hcur) (Nat.not_lt.mpr hn)
      rw [drop_entries, if_neg (by simp [hne])]
      exact h.unused e' hn
    · rw [drop_next] at hn
      by_cases heq : e' = e
      · subst heq
        simp [drop_removed hcur, drop_current]
      · rw [drop_entries, if_neg (by simp [heq]), h.table e' hn, State.drop, if_pos hcur]
        simp [State.update, hcur, Ne.symm heq]
    · rw [drop_calls] at hc
      obtain ⟨hlt, hsent⟩ := h.creates c e' hc
      exact ⟨by rwa [drop_next], by rwa [drop_keeps Entry.sent fun _ _ => rfl]⟩
    · rw [drop_calls]
      exact h.creates_inj
    · rw [drop_calls] at hc
      rw [hremoved e' (h.removes c e' hc)]
      exact h.removes c e' hc
    · have hold : e' ∈ s.discards := by
        rw [State.drop, if_pos hcur] at he'
        exact he'
      rw [hremoved e' (h.queued e' hold)]
      exact h.queued e' hold
    · rw [drop_cb] at he'
      have hold := h.leaving e' he'
      rw [hremoved e' (by rw [hold]; simp)]
      exact hold
  · rw [State.drop, if_neg hcur]
    exact h

theorem unregister (e : Nat) : (s.unregister e).Table := by
  have h' : ({ s with registry := none } : State).Table := h.setRegistry (by simp)
  exact h'.update rfl (.inl rfl)

theorem discard (e : Nat) : (s.discard e).Table := by
  rcases discard_cases s e with heq | ⟨-, heq⟩
  · rwa [heq]
  · rw [heq]
    exact h.unregister e

theorem cleared : s.cleared.Table := by
  rcases cleared_cases s with ⟨-, heq⟩ | ⟨old, -, heq⟩
  · rwa [heq]
  · rw [heq]
    exact h.unregister old

theorem newSubscription (he : e < s.next) (ok : Bool) : (s.newSubscription e ok).1.Table := by
  rcases newSubscription_cases s e ok with ⟨-, heq⟩ | ⟨-, -, heq⟩ | ⟨-, -, heq⟩
  · rw [heq]
    exact h
  · rw [heq]
    refine h.cleared.setRegistry fun e' he' => ?_
    cases he'
    rwa [cleared_next]
  · rw [heq]
    exact h.cleared

theorem reserve (hcur : s.current = none) (c : Nat) :
    ({ s with current := some s.next, next := s.next + 1 }.setCall c (.reserved s.next)).Table := by
  have hfresh := h.unused s.next (Nat.le_refl _)
  refine ⟨fun e he => ?_, fun e he => Nat.lt_succ_of_lt (h.registry_lt e he),
    fun e hn => h.unused e (Nat.le_of_succ_le hn), fun e hn => ?_, fun c' e hc => ?_,
    fun c₁ c₂ e h₁ h₂ => ?_, fun c' e hc => ?_, h.queued, h.leaving⟩
  · cases he
    exact Nat.lt_succ_self _
  · rcases Nat.lt_succ_iff_lt_or_eq.mp hn with hlt | rfl
    · have := h.table e hlt
      rw [hcur] at this
      have hne : s.next ≠ e := by omega
      simpa [State.setCall, hne] using this
    · simpa [State.setCall] using hfresh.2
  · rw [setCall_calls] at hc
    split at hc
    · cases hc
      exact ⟨Nat.lt_succ_self _, hfresh.1⟩
    · have := h.creates c' e hc
      exact ⟨Nat.lt_succ_of_lt this.1, this.2⟩
  · rw [setCall_calls] at h₁ h₂
    -- a call that already creates something creates an older entry
    have hold : ∀ c', (s.calls c').creates = some e → e ≠ s.next := by
      intro c' hc'
      have := (h.creates c' e hc').1
      omega
    split at h₁ <;> split at h₂
    · simp_all
    · cases h₁
      exact absurd rfl (hold _ h₂)
    · cases h₂
      exact absurd rfl (hold _ h₁)
    · exact h.creates_inj c₁ c₂ e h₁ h₂
  · rw [setCall_calls] at hc
    split at hc
    · cases hc
    · exact h.removes c' e hc

end

/-! ## Steps -/

/-- A step of a call keeps the table. -/
theorem move {c : Nat} {base : State} {pc : Pc} (h : s.Table) (hmove : CallMove s c base pc) :
    (base.setCall c pc).Table := by
  cases hmove with
  | still held _ hcreates _ hremoves _ =>
    have h' : ({ s with regHeld := held } : State).Table := h.congr rfl rfl rfl rfl rfl rfl rfl
    refine h'.setCall hcreates fun e he => ?_
    rcases hremoves e he with hold | ⟨hcreates, hcur⟩
    · exact h.removes c e hold
    · exact h.removed_of_not_current (h.creates c e hcreates).1 hcur
  | @register e choice hpc =>
    have hcreates : (s.calls c).creates = some e := by rw [hpc]; rfl
    refine (h.newSubscription (h.creates c e hcreates).1 choice).setCall (.inr ?_) ?_
    · rw [newSubscription_calls, hcreates]
      split <;> rfl
    · intro e' he'
      split at he' <;> cases he'
  | link hpc hcur =>
    refine (h.update (f := fun entry => { entry with sub := true }) rfl (.inl rfl)).setCall
      (.inr ?_) (by simp [Pc.removes])
    change _ = (s.calls c).creates
    rw [hpc]
    rfl
  | @send e hpc =>
    have hcreates : (s.calls c).creates = some e := by rw [hpc]; rfl
    have h' : ({ s with regHeld := false } : State).Table := h.congr rfl rfl rfl rfl rfl rfl rfl
    have h'' : ({ s with regHeld := false }.setCall c (.awaiting e)).Table :=
      h'.setCall (.inl rfl) (by simp [Pc.removes])
    refine h''.update (f := fun entry => { entry with sent := true }) rfl
      (.inr ⟨(h.creates c e hcreates).1, fun c' hc' => ?_⟩)
    -- the call that creates the entry is the one that sends
    rw [setCall_calls] at hc'
    split at hc'
    · cases hc'
    · rename_i hne
      exact hne (h.creates_inj c' c e hc' hcreates)
  | withdraw hpc =>
    refine (h.drop _ _).setCall (.inr ?_) (by simp [Pc.removes])
    rw [drop_calls, hpc]
    rfl
  | @expire e hpc =>
    refine (h.drop _ _).setCall (.inl rfl) fun e' he' => ?_
    by_cases hcur : s.current = some e
    · have hsame : e' = e := by
        cases hsub : (s.entries e).sub <;> simp [Pc.removes, hcur, hsub] at he'
        exact he'.symm
      subst hsame
      simp [drop_removed hcur]
    · simp [Pc.removes, hcur] at he'
  | settle hcreates hremoves _ =>
    refine (h.update rfl (.inl rfl)).setCall (.inl hcreates) fun e' he' => ?_
    exact settle_removed s _ _ e' ▸ h.removes c e' (hremoves e' he')
  | discard hpc hcreates hremoves _ =>
    refine (h.discard _).setCall (.inl hcreates) fun e' he' => ?_
    cases hremoves.symm.trans he'

theorem callback (h : s.Table) (hmove : CallbackMove s t) : t.Table := by
  obtain ⟨base, hbase, hsame, -, hdiscards, hleaves⟩ := hmove
  have h' : base.Table := by
    cases hbase with
    | pass => exact h
    | accept | hear | settle => exact h.update rfl (.inl rfl)
    | lose _ => exact h.drop _ _
  have hleft : ∀ e, s.cb.leaves = some e → (base.entries e).removed = some .loss := by
    intro e he
    have hr := h.leaving e he
    cases hbase with
    | pass => exact hr
    | accept _ _ _ => exact (update_keeps Entry.removed rfl e).trans hr
    | hear e' call => rw [hear_removed, hr]
    | settle _ _ _ => rw [settle_removed, hr]
    | lose hcur =>
      rw [drop_entries, if_neg]
      · exact hr
      · rintro ⟨-, rfl⟩
        rw [h.not_removed hcur] at hr
        cases hr
  obtain ⟨hcur, hent, hnext, hreg, hcalls⟩ := hsame
  refine ⟨by rw [hcur, hnext]; exact h'.current_lt, by rw [hreg, hnext]; exact h'.registry_lt,
    by rw [hent, hnext]; exact h'.unused, by rw [hent, hnext, hcur]; exact h'.table,
    by rw [hent, hnext, hcalls]; exact h'.creates, by rw [hcalls]; exact h'.creates_inj,
    by rw [hent, hcalls]; exact h'.removes, ?_, ?_⟩
  · intro e he
    rw [hent]
    rcases hdiscards with hsame | ⟨e', hleaving, hcons⟩
    · exact h'.queued e (by rw [hbase.discards, ← hsame]; exact he)
    · rw [hcons] at he
      rcases List.mem_cons.mp he with rfl | he
      · rw [hleft e hleaving]
        simp
      · exact h'.queued e (by rw [hbase.discards]; exact he)
  · intro e he
    rw [hent]
    rcases hleaves e he with hleaving | hlost
    · exact hleft e hleaving
    · exact hlost

/-- Every step keeps the table. -/
theorem step (h : s.Table) {act : Act} (ht : s.step act = some t) : t.Table := by
  cases step_move ht with
  | call _ _ hmove => exact h.move hmove
  | reserve hcur => exact h.reserve hcur _
  | unsubscribe hcur =>
    refine (h.drop _ .owner).setCall (.inl rfl) fun e' he' => ?_
    cases he'
    simp [drop_removed hcur]
  | discard _ =>
    refine { h.discard _ with queued := fun e' he' => ?_ }
    rw [discard_removed]
    exact h.queued e' (List.mem_of_mem_erase he')
  | close => exact h.congr rfl rfl rfl rfl rfl rfl rfl
  | callback _ hmove => exact h.callback hmove

end Table

end State

end Factory.Hostlink
