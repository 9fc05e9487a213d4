import Factory.Hostlink.SubscriptionTable

/-!
# What a step does to an entry

A step outside the callbacks may record the outcome of an entry and remove it for a reason other
than a loss (`Table.plain`). From that and the moves of the callbacks: an outcome is recorded
once, a removal is for good, and a loss is the loss of the current entry by a callback.
-/

namespace Factory.Hostlink

namespace State

variable {s t : State} {e : Nat}

/-! ## Calls -/

/-- What a step outside the callbacks does to an entry: it may record its outcome and remove it
for a reason other than a loss. -/
structure PlainEntry (x y : Entry) : Prop where
  live : y.live = x.live
  heard : y.heard = x.heard
  settled : ∀ o, x.settled = some o → y.settled = some o
  removed : y.removed = x.removed ∨ x.removed = none ∧ ∃ why, y.removed = some why ∧ why ≠ .loss

theorem PlainEntry.refl (x : Entry) : PlainEntry x x := ⟨rfl, rfl, fun _ => id, .inl rfl⟩

/-- A step outside the callbacks. -/
structure Plain (s t : State) : Prop where
  cb : t.cb = s.cb
  orphan : t.orphan = s.orphan
  entry : ∀ e, PlainEntry (s.entries e) (t.entries e)

namespace Plain

theorem refl (s : State) : Plain s s := ⟨rfl, rfl, fun _ => .refl _⟩

theorem update {f : Entry → Entry} (hf : PlainEntry (s.entries e) (f (s.entries e))) :
    Plain s (s.update e f) := by
  refine ⟨rfl, rfl, fun e' => ?_⟩
  rw [update_entries]
  split
  · rename_i heq
    rw [heq]
    exact hf
  · exact .refl _

theorem settle (s : State) (e : Nat) (outcome : Outcome) : Plain s (s.settle e outcome) :=
  update ⟨rfl, rfl, fun o ho => by simp [ho], .inl rfl⟩

theorem drop {why : Removal} (h : s.Table) (hwhy : why ≠ .loss) (e : Nat) :
    Plain s (s.drop e why) := by
  refine ⟨drop_cb s e why, drop_orphan s e why, fun e' => ?_⟩
  · rw [drop_entries]
    split
    · rename_i hcond
      obtain ⟨hcur, rfl⟩ := hcond
      exact ⟨rfl, rfl, fun _ => id, .inr ⟨h.not_removed hcur, why, rfl, hwhy⟩⟩
    · exact .refl _

theorem unregister (s : State) (e : Nat) : Plain s (s.unregister e) := by
  refine ⟨rfl, rfl, fun e' => ?_⟩
  rw [unregister_entries]
  split
  · rename_i heq
    rw [heq]
    exact ⟨rfl, rfl, fun _ => id, .inl rfl⟩
  · exact .refl _

theorem discard (s : State) (e : Nat) : Plain s (s.discard e) := by
  rcases discard_cases s e with heq | ⟨-, heq⟩
  · rw [heq]
    exact refl s
  · rw [heq]
    exact unregister s e

theorem cleared (s : State) : Plain s s.cleared := by
  rcases cleared_cases s with ⟨-, heq⟩ | ⟨old, -, heq⟩
  · rw [heq]
    exact refl s
  · rw [heq]
    exact unregister s old

theorem congr {u : State} (h : Plain s t) (hcb : u.cb = t.cb) (horphan : u.orphan = t.orphan)
    (hent : u.entries = t.entries) : Plain s u :=
  ⟨hcb.trans h.cb, horphan.trans h.orphan, fun e => by rw [hent]; exact h.entry e⟩

theorem move {c : Nat} {base : State} {pc : Pc} (h : s.Table) (hmove : CallMove s c base pc) :
    Plain s (base.setCall c pc) := by
  have hbase : Plain s base := by
    cases hmove with
    | still _ _ _ _ _ _ => exact (refl s).congr rfl rfl rfl
    | @register e choice _ =>
      rcases newSubscription_cases s e choice with ⟨-, heq⟩ | ⟨-, -, heq⟩ | ⟨-, -, heq⟩
      · rw [heq]
        exact refl s
      · rw [heq]
        exact (cleared s).congr rfl rfl rfl
      · rw [heq]
        exact cleared s
    | link _ _ => exact update ⟨rfl, rfl, fun _ => id, .inl rfl⟩
    | @send e _ =>
      have h' : Plain s (s.update e fun entry => { entry with sent := true }) :=
        update ⟨rfl, rfl, fun _ => id, .inl rfl⟩
      exact h'.congr rfl rfl rfl
    | withdraw | expire => exact drop h (by simp) _
    | settle _ _ _ => exact settle s _ _
    | discard _ _ _ _ => exact discard s _
  exact hbase.congr rfl rfl rfl

end Plain

variable {act : Act}

/-- What a step outside the callbacks may change. -/
theorem Table.plain (h : s.Table) (hact : act.plain = true) (ht : s.step act = some t)
    : Plain s t := by
  cases step_move ht with
  | call _ _ hmove => exact Plain.move h hmove
  | reserve _ | close => exact (Plain.refl s).congr rfl rfl rfl
  | unsubscribe _ => exact (Plain.drop h (by simp) _).congr rfl rfl rfl
  | discard _ => exact (Plain.discard s _).congr rfl rfl rfl
  | callback hcb _ =>
    cases hact.symm.trans hcb

/-! ## Every step -/

theorem callback_of_not_plain (hact : act.plain = false) (ht : s.step act = some t)
    : CallbackMove s t := by
  cases step_move ht with
  | call hcall _ _ =>
    cases act with
    | event | callback => cases hcall
    | _ => cases hact
  | reserve | unsubscribe | discard => cases hact
  | close _ _ hclose => rcases hclose with rfl | rfl <;> cases hact
  | callback _ hmove => exact hmove

/-- An outcome, once recorded, stays. -/
theorem Table.settled_step (h : s.Table) (ht : s.step act = some t) {o : Outcome}
    (ho : (s.entries e).settled = some o) : (t.entries e).settled = some o := by
  cases hact : act.plain with
  | true => exact ((h.plain hact ht).entry e).settled o ho
  | false =>
    obtain ⟨base, hbase, hsame, -⟩ := callback_of_not_plain hact ht
    rw [hsame.entries]
    cases hbase with
    | pass => exact ho
    | accept | hear => exact (update_keeps Entry.settled rfl e).trans ho
    | settle _ _ _ =>
      rw [settle_entries]
      split
      · rename_i heq
        rw [← heq, ho]
        rfl
      · exact ho
    | lose _ => exact (drop_keeps Entry.settled (fun _ _ => rfl) s _ _ e).trans ho

/-- A removed entry stays as it is. -/
theorem Table.removed_step (h : s.Table) (ht : s.step act = some t)
    (hr : (s.entries e).removed ≠ none) :
    (t.entries e).removed = (s.entries e).removed ∧ (t.entries e).live = (s.entries e).live := by
  cases hact : act.plain with
  | true =>
    have hentry := (h.plain hact ht).entry e
    exact ⟨hentry.removed.resolve_right fun hnew => hr hnew.1, hentry.live⟩
  | false =>
    obtain ⟨base, hbase, hsame, -⟩ := callback_of_not_plain hact ht
    rw [hsame.entries]
    have hne : ∀ {e'}, s.current = some e' → e ≠ e' := by
      rintro e' hcur rfl
      exact h.not_current hr hcur
    cases hbase with
    | pass => exact ⟨rfl, rfl⟩
    | accept _ hcur _ => rw [update_entries, if_neg (hne hcur)]; exact ⟨rfl, rfl⟩
    | hear | settle =>
      exact ⟨update_keeps Entry.removed rfl e, update_keeps Entry.live rfl e⟩
    | lose hcur => rw [drop_entries, if_neg fun hc => hne hcur hc.2]; exact ⟨rfl, rfl⟩

/-- An entry is lost only while it is current. -/
theorem Table.loss_step (h : s.Table) (ht : s.step act = some t)
    (hs : (s.entries e).removed ≠ some .loss) (hloss : (t.entries e).removed = some .loss) :
    s.current = some e ∧ t.current ≠ some e ∧ (t.entries e).live = (s.entries e).live := by
  have hgone : t.current ≠ some e := (h.step ht).not_current (by rw [hloss]; simp)
  cases hact : act.plain with
  | true =>
    rcases ((h.plain hact ht).entry e).removed with hsame | ⟨-, why, hwhy, hne⟩
    · exact absurd (hsame.symm.trans hloss) hs
    · rw [hwhy] at hloss
      exact absurd (Option.some.inj hloss) hne
  | false =>
    obtain ⟨base, hbase, hsame, -⟩ := callback_of_not_plain hact ht
    rw [hsame.entries] at hloss ⊢
    cases hbase with
    | pass => exact absurd hloss hs
    | accept _ _ _ => exact absurd ((update_keeps Entry.removed rfl e).symm.trans hloss) hs
    | hear e' call => exact absurd (hear_removed s e' call e ▸ hloss) hs
    | settle e' outcome _ => exact absurd (settle_removed s e' outcome e ▸ hloss) hs
    | lose hcur =>
      rw [drop_entries] at hloss ⊢
      split at hloss
      · rename_i hcond
        obtain ⟨-, rfl⟩ := hcond
        exact ⟨hcur, hgone, by rw [if_pos ⟨hcur, rfl⟩]⟩
      · exact absurd hloss hs

theorem discard_calls (s : State) (e : Nat) : (s.discard e).calls = s.calls := by
  rcases discard_cases s e with heq | ⟨-, heq⟩ <;> rw [heq] <;> rfl

/-- A step moves only the call it belongs to. -/
theorem step_calls (ht : s.step act = some t) {c : Nat} (hc : act.call ≠ some c) :
    t.calls c = s.calls c := by
  have hother : ∀ {base : State} {c' : Nat} {pc : Pc}, some c' ≠ some c →
      base.calls = s.calls → (base.setCall c' pc).calls c = s.calls c := by
    intro base c' pc hne hbase
    rw [setCall_calls, if_neg fun heq => hne (by rw [heq]), hbase]
  cases step_move ht with
  | call hact _ hmove =>
    rw [hact] at hc
    refine hother hc ?_
    cases hmove with
    | register choice _ => exact newSubscription_calls ..
    | withdraw | expire => exact drop_calls ..
    | discard _ _ _ _ => exact discard_calls ..
    | _ => rfl
  | reserve _ => exact hother hc rfl
  | unsubscribe _ => exact hother hc (drop_calls ..)
  | discard _ => exact congrFun (discard_calls s _) c
  | close => rfl
  | callback _ hmove =>
    obtain ⟨base, hbase, hsame, -⟩ := hmove
    rw [hsame.calls]
    cases hbase with
    | lose _ => rw [drop_calls]
    | _ => rfl

end State

end Factory.Hostlink
