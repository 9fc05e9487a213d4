import Factory.Hostlink.Subscription

/-!
# The moves of one channel of a link

A step of a call is one of eight moves (`advance_move`), and a step of a callback is one of five
on the entries (`EventMove.callbackMove`, `onCallback_move`), so that what is kept by the moves
is kept by every step (`step_move`).
-/

namespace Factory.Hostlink

open Function

/-- The acts outside the callbacks. -/
def Act.plain : Act → Bool
  | .event _ => false
  | .callback => false
  | _ => true

/-- The call a step belongs to. -/
def Act.call : Act → Option Nat
  | .subscribe c => some c
  | .unsubscribe c => some c
  | .advance c _ => some c
  | _ => none

/-- The entry a call is registering and has not sent a subscribe for. -/
def Pc.creates : Pc → Option Nat
  | .reserved e => some e
  | .registered e => some e
  | .withdrawn e => some e
  | .checked e => some e
  | .sending e => some e
  | .sendable e => some e
  | .failed e => some e
  | .failedSettle e => some e
  | _ => none

/-- The entry a call has seen removed and may discard. -/
def Pc.removes : Pc → Option Nat
  | .withdrawn e => some e
  | .expiredSettle e true => some e
  | .expiredDiscard e => some e
  | .unsubscribing e => some e
  | .unsubscribeRead e => some e
  | .unsubscribeDiscard e => some e
  | _ => none

/-- The entry a call has registered and may still send a subscribe for. -/
def Pc.registers : Pc → Option Nat
  | .registered e => some e
  | .checked e => some e
  | .sending e => some e
  | .sendable e => some e
  | _ => none

/-- The entry the running callback has removed. -/
def Callback.leaves : Callback → Option Nat
  | .ending e => some e
  | .refusing e => some e
  | .dropping e => some e
  | .dropEnding e => some e
  | .dropRefusing e => some e
  | _ => none

theorem Pc.creates_of_registers {pc : Pc} {e : Nat} (h : pc.registers = some e) :
    pc.creates = some e := by
  cases pc <;> simp_all [Pc.registers, Pc.creates]

namespace State

variable {s t : State} {e : Nat}

@[simp] theorem update_entries (s : State) (e : Nat) (f : Entry → Entry) (e' : Nat) :
    (s.update e f).entries e' = if e' = e then f (s.entries e) else s.entries e' := by
  simp only [update, update_apply]

/-- What an update leaves alone in its entry it leaves alone in all. -/
theorem update_keeps {α : Type} (g : Entry → α) {f : Entry → Entry}
    (hg : g (f (s.entries e)) = g (s.entries e)) (e' : Nat) :
    g ((s.update e f).entries e') = g (s.entries e') := by
  rw [update_entries]
  split
  · rename_i heq
    rw [heq, hg]
  · rfl

@[simp] theorem setCall_calls (s : State) (c : Nat) (pc : Pc) (c' : Nat) :
    (s.setCall c pc).calls c' = if c' = c then pc else s.calls c' := by
  simp only [setCall, update_apply]

@[simp] theorem setCb_entries (s : State) (cb : Callback) : (s.setCb cb).entries = s.entries := rfl

@[simp] theorem goDiscard_entries (s : State) (e : Nat) : (s.goDiscard e).entries = s.entries := rfl

theorem hear_entries (s : State) (e : Nat) (call : SinkCall) (e' : Nat) :
    (s.hear e call).entries e' =
      if e' = e then { s.entries e with heard := (s.entries e).heard ++ [call] }
      else s.entries e' := update_entries ..

theorem settle_entries (s : State) (e : Nat) (o : Outcome) (e' : Nat) :
    (s.settle e o).entries e' =
      if e' = e then { s.entries e with settled := (s.entries e).settled.or (some o) }
      else s.entries e' := update_entries ..

theorem locked_eq {t u : State} (h : s.locked t = some u) : t = u := by
  unfold locked at h
  split at h
  · cases h
  · exact Option.some.inj h

/-! ## The moves of a call -/

/-- A step of call `c`: what it did to the channel, and where the call stands then. -/
inductive CallMove (s : State) (c : Nat) : State → Pc → Prop where
  /-- Nothing but `regMu` changed. -/
  | still (held : Bool) {pc : Pc} (hpc : ∀ e, pc ≠ .reserved e)
      (hcreates : pc.creates = none ∨ pc.creates = (s.calls c).creates)
      (hregisters : pc.registers = none ∨ pc.registers = (s.calls c).registers)
      (hremoves : ∀ e, pc.removes = some e → (s.calls c).removes = some e ∨
        ((s.calls c).creates = some e ∧ s.current ≠ some e))
      (hreturned : ∀ e outcome, pc = .returned (some e) outcome →
        (s.entries e).settled = some outcome)
      : CallMove s c { s with regHeld := held } pc
  | register {e : Nat} (choice : Bool) (hpc : s.calls c = .reserved e)
      : CallMove s c (s.newSubscription e choice).1
          (if (s.newSubscription e choice).2 then .registered e else .failed e)
  | link {e : Nat} (hpc : s.calls c = .registered e) (hcur : s.current = some e)
      : CallMove s c (s.update e fun entry => { entry with sub := true }) (.checked e)
  | send {e : Nat} (hpc : s.calls c = .sendable e)
      : CallMove s c
          ({ s with regHeld := false }.update e fun entry => { entry with sent := true })
          (.awaiting e)
  | withdraw {e : Nat} (hpc : s.calls c = .failed e)
      : CallMove s c (s.drop e .withdrawal) (.failedSettle e)
  | expire {e : Nat} (hpc : s.calls c = .expired e)
      : CallMove s c (s.drop e .expiry)
          (.expiredSettle e (decide (s.current = some e) && (s.entries e).sub))
  | settle {e : Nat} {pc : Pc} (hcreates : pc.creates = none)
      (hremoves : ∀ e, pc.removes = some e → (s.calls c).removes = some e)
      (hreturned : ∀ e outcome, pc = .returned (some e) outcome → outcome = .refused)
      : CallMove s c (s.settle e .refused) pc
  | discard {e : Nat} {pc : Pc} (hpc : (s.calls c).removes = some e) (hcreates : pc.creates = none)
      (hremoves : pc.removes = none) (hreturned : ∀ e outcome, pc ≠ .returned (some e) outcome)
      : CallMove s c (s.discard e) pc

theorem advance_move {c : Nat} {choice : Bool} (h : s.advance c choice = some t) :
    ∃ base pc, CallMove s c base pc ∧ t = base.setCall c pc := by
  unfold advance at h
  -- a call that answers answers the entry's outcome
  have hanswer : ∀ e, s.answer c e = some t → (s.calls c).creates = none →
      ∃ base pc, CallMove s c base pc ∧ t = base.setCall c pc := by
    intro e ht hnone
    obtain ⟨outcome, ho, rfl⟩ := Option.map_eq_some_iff.mp ht
    refine ⟨_, _, .still s.regHeld (by simp) (.inl rfl) (.inl rfl) (by simp [Pc.removes]) ?_, rfl⟩
    intro e' outcome' heq
    cases heq
    exact ho
  cases hpc : s.calls c with
  | idle | returned | unsubscribed => simp [hpc] at h
  | reserved e =>
    simp only [hpc] at h
    exact ⟨_, _, .register choice hpc, (locked_eq h).symm⟩
  | registered e =>
    simp only [hpc] at h
    split at h
    · rename_i hcur
      cases h
      exact ⟨_, _, .link hpc hcur, rfl⟩
    · rename_i hcur
      cases h
      refine ⟨_, _, .still s.regHeld (by simp) (.inr (by rw [hpc]; rfl)) (.inl rfl) ?_
        (by simp), rfl⟩
      intro e' he'
      cases he'
      exact .inr ⟨by rw [hpc]; rfl, hcur⟩
  | withdrawn e =>
    simp only [hpc] at h
    exact ⟨_, _, .discard (by rw [hpc]; rfl) rfl rfl (by simp), (locked_eq h).symm⟩
  | checked e =>
    simp only [hpc] at h
    have ht := locked_eq h
    split at ht
    · exact ⟨_, _, .still s.regHeld (by simp) (.inr (by rw [hpc]; rfl)) (.inl rfl)
        (by simp [Pc.removes]) (by simp), ht.symm⟩
    · exact ⟨_, _, .still true (by simp) (.inr (by rw [hpc]; rfl)) (.inr (by rw [hpc]; rfl))
        (by simp [Pc.removes]) (by simp), ht.symm⟩
  | sending e =>
    simp only [hpc] at h
    split at h
    · cases h
      exact ⟨_, _, .still s.regHeld (by simp) (.inr (by rw [hpc]; rfl))
        (.inr (by rw [hpc]; rfl)) (by simp [Pc.removes]) (by simp), rfl⟩
    · rename_i hcur
      cases h
      refine ⟨_, _, .still false (by simp) (.inr (by rw [hpc]; rfl)) (.inl rfl) ?_ (by simp), rfl⟩
      intro e' he'
      cases he'
      exact .inr ⟨by rw [hpc]; rfl, hcur⟩
  | sendable e =>
    simp only [hpc] at h
    split at h
    · cases h
      exact ⟨_, _, .send hpc, rfl⟩
    · cases h
      exact ⟨_, _, .still false (by simp) (.inr (by rw [hpc]; rfl)) (.inl rfl)
        (by simp [Pc.removes]) (by simp), rfl⟩
  | failed e =>
    simp only [hpc] at h
    cases h
    exact ⟨_, _, .withdraw hpc, rfl⟩
  | failedSettle e =>
    simp only [hpc] at h
    cases h
    exact ⟨_, _, .settle rfl (by simp [Pc.removes]) (by simp), rfl⟩
  | awaiting e =>
    simp only [hpc] at h
    split at h
    · exact hanswer e h (by rw [hpc]; rfl)
    · cases h
      exact ⟨_, _, .still s.regHeld (by simp) (.inl rfl) (.inl rfl) (by simp [Pc.removes])
        (by simp), rfl⟩
  | expired e =>
    simp only [hpc] at h
    cases h
    exact ⟨_, _, .expire hpc, rfl⟩
  | expiredSettle e discard =>
    simp only [hpc] at h
    cases h
    cases discard with
    | false => exact ⟨_, _, .settle rfl (by simp [Pc.removes]) (by simp), rfl⟩
    | true => exact ⟨_, _, .settle rfl (by simp [Pc.removes, hpc]) (by simp), rfl⟩
  | expiredDiscard e =>
    simp only [hpc] at h
    exact ⟨_, _, .discard (by rw [hpc]; rfl) rfl rfl (by simp), (locked_eq h).symm⟩
  | answering e =>
    simp only [hpc] at h
    exact hanswer e h (by rw [hpc]; rfl)
  | unsubscribing e =>
    simp only [hpc] at h
    cases h
    exact ⟨_, _, .settle rfl (by simp [Pc.removes, hpc]) (by simp), rfl⟩
  | unsubscribeRead e =>
    simp only [hpc] at h
    cases h
    refine ⟨_, _, .still s.regHeld ?_ (.inl ?_) (.inl ?_) ?_ ?_, rfl⟩
    · intro e'
      split <;> simp
    · split <;> rfl
    · split <;> rfl
    · intro e' he'
      split at he'
      · exact .inl (by rw [hpc]; exact he')
      · cases he'
    · intro e' outcome heq
      split at heq <;> cases heq
  | unsubscribeDiscard e =>
    simp only [hpc] at h
    exact ⟨_, _, .discard (by rw [hpc]; rfl) rfl rfl (by simp), (locked_eq h).symm⟩

variable (s e) (why : Removal)

@[simp] theorem drop_calls : (s.drop e why).calls = s.calls := by
  unfold drop
  split <;> rfl

@[simp] theorem drop_cb : (s.drop e why).cb = s.cb := by
  unfold drop
  split <;> rfl

theorem drop_orphan : (s.drop e why).orphan = s.orphan := by
  unfold drop
  split <;> rfl

@[simp] theorem drop_next : (s.drop e why).next = s.next := by
  unfold drop
  split <;> rfl

@[simp] theorem drop_registry : (s.drop e why).registry = s.registry := by
  unfold drop
  split <;> rfl

/-- `drop` removes the entry when it is current. -/
theorem drop_entries (e' : Nat) :
    (s.drop e why).entries e' =
      if s.current = some e ∧ e' = e then { s.entries e with removed := some why }
      else s.entries e' := by
  unfold drop
  split
  · rename_i hcur
    simp [hcur]
  · rename_i hcur
    simp [hcur]

/-- `drop` leaves everything but the removal. -/
theorem drop_keeps {α : Type} (g : Entry → α)
    (hg : ∀ (x : Entry) (r : Option Removal), g { x with removed := r } = g x) (s : State)
    (e : Nat) (why : Removal) (e' : Nat) : g ((s.drop e why).entries e') = g (s.entries e') := by
  rw [drop_entries]
  split
  · next hcond => rw [hg, hcond.2]
  · rfl

theorem drop_removed {s : State} {e : Nat} (hcur : s.current = some e) (why : Removal) :
    ((s.drop e why).entries e).removed = some why := by
  simp [drop_entries, hcur]

theorem drop_current : (s.drop e why).current ≠ some e := by
  unfold drop
  split
  · simp [State.update]
  · assumption

/-- What `newSubscription` does to a registration that is left: it is given up. -/
def cleared (s : State) : State :=
  match s.registry with
  | none => s
  | some old => s.unregister old

/-- Removing a registration withdraws its subscription. -/
theorem cleared_cases :
    s.registry = none ∧ s.cleared = s ∨ ∃ old, s.registry = some old ∧
      s.cleared = s.unregister old := by
  unfold cleared
  split
  · rename_i hreg
    exact .inl ⟨hreg, rfl⟩
  · rename_i old hreg
    exact .inr ⟨old, hreg, rfl⟩

/-- `newSubscription` fails, or replaces the registration. -/
theorem newSubscription_cases (ok : Bool) :
    (s.transportClosed = true ∧ s.newSubscription e ok = (s, false)) ∨
      (s.transportClosed = false ∧ ok = true ∧
        s.newSubscription e ok = ({ s.cleared with registry := some e }, true)) ∨
      (s.transportClosed = false ∧ ok = false ∧ s.newSubscription e ok = (s.cleared, false)) := by
  unfold newSubscription cleared
  cases hclosed : s.transportClosed with
  | true => exact .inl ⟨rfl, by simp⟩
  | false =>
    cases ok with
    | true => exact .inr (.inl ⟨rfl, rfl, by cases s.registry <;> rfl⟩)
    | false => exact .inr (.inr ⟨rfl, rfl, by cases s.registry <;> rfl⟩)

theorem cleared_next : s.cleared.next = s.next := by
  unfold cleared
  split <;> rfl

theorem cleared_calls : s.cleared.calls = s.calls := by
  unfold cleared
  split <;> rfl

theorem newSubscription_calls (ok : Bool) : (s.newSubscription e ok).1.calls = s.calls := by
  rcases newSubscription_cases s e ok with ⟨-, heq⟩ | ⟨-, -, heq⟩ | ⟨-, -, heq⟩
  · rw [heq]
  · rw [heq]
    exact cleared_calls s
  · rw [heq]
    exact cleared_calls s

@[simp] theorem settle_removed (o : Outcome) (e' : Nat) :
    ((s.settle e o).entries e').removed = (s.entries e').removed :=
  update_keeps Entry.removed rfl e'

@[simp] theorem hear_removed (call : SinkCall) (e' : Nat) :
    ((s.hear e call).entries e').removed = (s.entries e').removed :=
  update_keeps Entry.removed rfl e'

theorem unregister_entries (e' : Nat) :
    (s.unregister e).entries e' =
      if e' = e then { s.entries e with discarded := true } else s.entries e' := by
  rw [unregister, update_entries]

theorem unregister_keeps {α : Type} (g : Entry → α)
    (hg : ∀ x : Entry, g { x with discarded := true } = g x) (s : State) (e e' : Nat) :
    g ((s.unregister e).entries e') = g (s.entries e') :=
  update_keeps (s := { s with registry := none }) g (hg _) e'

/-- `discard` removes the registration when it is the entry's own. -/
theorem discard_cases : s.discard e = s ∨ s.registry = some e ∧ s.discard e = s.unregister e := by
  unfold discard
  split
  · exact .inl rfl
  · split
    · rename_i hreg
      exact .inr ⟨hreg, rfl⟩
    · exact .inl rfl

@[simp] theorem discard_removed (e' : Nat) :
    ((s.discard e).entries e').removed = (s.entries e').removed := by
  rcases discard_cases s e with heq | ⟨-, heq⟩
  · rw [heq]
  · rw [heq]
    exact unregister_keeps Entry.removed (fun _ => rfl) s e e'

/-! ## The moves of a callback -/

variable {s e}

/-- What a step of a callback did to the entries. -/
inductive EntryMove (s : State) : State → Prop where
  | pass : EntryMove s s
  | accept {e : Nat} (hidle : s.cb = .idle) (hcur : s.current = some e)
      (hsent : (s.entries e).sent = true)
      : EntryMove s (s.update e fun entry => { entry with live := true })
  | hear (e : Nat) (call : SinkCall) : EntryMove s (s.hear e call)
  | settle (e : Nat) (outcome : Outcome) (hcb : outcome = .accepted → s.cb = .accepted e)
      : EntryMove s (s.settle e outcome)
  | lose {e : Nat} (hcur : s.current = some e) : EntryMove s (s.drop e .loss)

/-- The same entries, table, calls and registration. -/
structure Same (s t : State) : Prop where
  current : t.current = s.current
  entries : t.entries = s.entries
  next : t.next = s.next
  registry : t.registry = s.registry
  calls : t.calls = s.calls

/-- A step of a callback: what it did to the entries, the withdrawal it handed to a goroutine
and the entry it has removed. -/
def CallbackMove (s t : State) : Prop :=
  ∃ base, EntryMove s base ∧ Same base t ∧
    (t.current = s.current ∨ ∃ e, s.current = some e ∧ t.cb.leaves = some e) ∧
    (t.discards = s.discards ∨ ∃ e, s.cb.leaves = some e ∧ t.discards = e :: s.discards) ∧
    ∀ e, t.cb.leaves = some e → s.cb.leaves = some e ∨ (base.entries e).removed = some .loss

theorem drop_discards (s : State) (e : Nat) (why : Removal) :
    (s.drop e why).discards = s.discards := by
  unfold drop
  split <;> rfl

theorem EntryMove.discards {base : State} (h : EntryMove s base) : base.discards = s.discards := by
  cases h with
  | lose _ => exact drop_discards _ _ _
  | _ => rfl

theorem CallbackMove.of_quiet {base : State} (hmove : EntryMove s base) (hsame : Same base t)
    (hcur : t.current = s.current) (hdiscards : t.discards = s.discards)
    (hcb : t.cb.leaves = none) : CallbackMove s t :=
  ⟨base, hmove, hsame, .inl hcur, .inl hdiscards, fun e he => by rw [hcb] at he; cases he⟩

theorem CallbackMove.of_lose (hcur : s.current = some e) {cb : Callback}
    (hcb : cb.leaves = some e) : CallbackMove s ((s.drop e .loss).setCb cb) := by
  refine ⟨_, .lose hcur, ⟨rfl, rfl, rfl, rfl, rfl⟩, .inr ⟨e, hcur, hcb⟩,
    .inl (drop_discards s e .loss), ?_⟩
  intro e' he'
  have : e = e' := Option.some.inj (hcb.symm.trans he')
  subst this
  exact .inr (drop_removed hcur .loss)

theorem lose_move (s : State) (e : Nat) : CallbackMove s (s.lose e) := by
  unfold lose
  split
  · rename_i hcur
    refine .of_lose hcur ?_
    split <;> rfl
  · exact .of_quiet .pass ⟨rfl, rfl, rfl, rfl, rfl⟩ rfl rfl rfl

/-- The first section of a callback: nothing to do, a first acceptance, a publication to hand on,
a loss, or the start of a callback that has no entry in hand yet. -/
inductive EventMove (s : State) (event : Event) : State → Prop where
  | stay : EventMove s event s
  | accept {e : Nat} (hcur : s.current = some e) (hlive : (s.entries e).live = false)
      (hsent : (s.entries e).sent = true) : EventMove s event
        ((s.update e fun entry => { entry with live := true }).setCb (.accepting e))
  | publish {e : Nat} (hcur : s.current = some e) (hlive : (s.entries e).live = true) :
      EventMove s event (s.setCb (.publishing e))
  | lose (e : Nat) : EventMove s event (s.lose e)
  | begin (connecting terminal : Bool) {cb : Callback}
      (hcb : (∃ e, cb = .resubscribing e) ∨ (∃ orphan, cb = .dropAll orphan) ∨
        cb = .restoreAll ∧ event = .connected true) :
      EventMove s event ({ s with connecting := connecting, terminal := terminal }.setCb cb)

/-- What an event starts is one of these moves. -/
theorem onEvent_eventMove {event : Event} (ht : s.onEvent event = some t) :
    EventMove s event t := by
  cases event with
  | subscribed e =>
    simp only [State.onEvent] at ht
    split at ht
    · cases ht
    · rename_i hsent
      split at ht <;> cases ht
      · rename_i hcond
        exact .accept hcond.1 hcond.2 (by simpa using hsent)
      · exact .stay
  | publication e =>
    simp only [State.onEvent] at ht
    split at ht
    · cases ht
    · split at ht <;> cases ht
      · rename_i hcond
        exact .publish hcond.1 hcond.2
      · exact .stay
  | unsubscribed e =>
    cases ht
    exact .lose e
  | subscribing e =>
    simp only [State.onEvent] at ht
    split at ht <;> cases ht
    · exact .begin s.connecting s.terminal (.inl ⟨e, rfl⟩)
    · exact .stay
  | error e =>
    simp only [State.onEvent] at ht
    split at ht <;> cases ht
    · rename_i hcond
      have hlose : s.lose e = (s.drop e .loss).setCb (.refusing e) := by simp [State.lose, hcond]
      rw [← hlose]
      exact .lose e
    · exact .stay
  | connecting =>
    simp only [State.onEvent] at ht
    split at ht <;> cases ht
    · exact .stay
    · exact .begin true s.terminal (.inr (.inl ⟨true, rfl⟩))
  | disconnected =>
    cases ht
    exact .begin s.connecting true (.inr (.inl ⟨false, rfl⟩))
  | connected verified =>
    cases verified <;> cases ht
    · exact .begin s.connecting true (.inr (.inl ⟨false, rfl⟩))
    · exact .begin _ s.terminal (.inr (.inr ⟨rfl, rfl⟩))

theorem EventMove.callbackMove {event : Event} (hidle : s.cb = .idle) (h : EventMove s event t) :
    CallbackMove s t := by
  cases h with
  | stay => exact .of_quiet .pass ⟨rfl, rfl, rfl, rfl, rfl⟩ rfl rfl (by rw [hidle]; rfl)
  | accept hcur _ hsent =>
    exact .of_quiet (.accept hidle hcur hsent) ⟨rfl, rfl, rfl, rfl, rfl⟩ rfl rfl rfl
  | publish => exact .of_quiet .pass ⟨rfl, rfl, rfl, rfl, rfl⟩ rfl rfl rfl
  | lose e => exact lose_move s e
  | begin _ _ hcb =>
    refine .of_quiet .pass ⟨rfl, rfl, rfl, rfl, rfl⟩ rfl rfl ?_
    rcases hcb with ⟨e, rfl⟩ | ⟨orphan, rfl⟩ | ⟨rfl, -⟩ <;> rfl

theorem onCallback_move (ht : s.onCallback = some t) : CallbackMove s t := by
  unfold State.onCallback at ht
  split at ht
  · cases ht
  · rename_i e hcase
    cases ht
    exact .of_quiet (.hear e .subscribed) ⟨rfl, rfl, rfl, rfl, rfl⟩ rfl rfl rfl
  · rename_i e hcase
    cases ht
    exact .of_quiet (.settle e .accepted fun _ => hcase) ⟨rfl, rfl, rfl, rfl, rfl⟩ rfl rfl rfl
  · rename_i e hcase
    cases ht
    exact .of_quiet (.hear e .publication) ⟨rfl, rfl, rfl, rfl, rfl⟩ rfl rfl rfl
  · rename_i e hcase
    cases ht
    exact lose_move s e
  · rename_i e hcase
    cases ht
    exact ⟨_, .hear e .ended, ⟨rfl, rfl, rfl, rfl, rfl⟩, .inl rfl,
      .inr ⟨e, by rw [hcase]; rfl, rfl⟩,
      fun e' he' => by cases he'⟩
  · rename_i e hcase
    cases ht
    exact ⟨_, .settle e .refused nofun, ⟨rfl, rfl, rfl, rfl, rfl⟩, .inl rfl,
      .inr ⟨e, by rw [hcase]; rfl, rfl⟩,
      fun e' he' => by cases he'⟩
  · rename_i orphan hcase
    dsimp only at ht
    split at ht
    · cases ht
      exact .of_quiet .pass ⟨rfl, rfl, rfl, rfl, rfl⟩ rfl rfl rfl
    · rename_i e hcur
      cases ht
      refine ⟨_, .lose hcur, ?_, .inr ⟨e, hcur, rfl⟩, .inl ?_, ?_⟩
      · simp only [State.drop, State.setOrphan, State.setCb, hcur, if_true]
        exact ⟨rfl, rfl, rfl, rfl, rfl⟩
      · exact drop_discards _ _ _
      · intro e' he'
        cases he'
        exact .inr (drop_removed hcur .loss)
  · rename_i e hcase
    cases ht
    refine ⟨s, .pass, ?_, .inl ?_, ?_, ?_⟩
    · split <;> exact ⟨rfl, rfl, rfl, rfl, rfl⟩
    · split <;> rfl
    · split
      · exact .inr ⟨e, by rw [hcase]; rfl, rfl⟩
      · exact .inl rfl
    · intro e' he'
      refine .inl ?_
      rw [hcase]
      rw [← he']
      change _ = Callback.leaves (if (s.entries e).live then .dropEnding e else .dropRefusing e)
      split <;> rfl
  · rename_i e hcase
    cases ht
    exact .of_quiet (.hear e .ended) ⟨rfl, rfl, rfl, rfl, rfl⟩ rfl rfl rfl
  · rename_i e hcase
    cases ht
    exact .of_quiet (.settle e .refused nofun) ⟨rfl, rfl, rfl, rfl, rfl⟩ rfl rfl rfl
  · rename_i hcase
    split at ht
    · cases ht
      exact .of_quiet .pass ⟨rfl, rfl, rfl, rfl, rfl⟩ rfl rfl rfl
    · cases ht
      exact .of_quiet .pass ⟨rfl, rfl, rfl, rfl, rfl⟩ rfl rfl rfl
  · rename_i e hcase
    cases ht
    exact .of_quiet (.hear e .restored) ⟨rfl, rfl, rfl, rfl, rfl⟩ rfl rfl rfl

/-! ## Steps -/

/-- A step: a call that has nothing to do at first or advances, a reservation, an `Unsubscribe`
of the current entry, a withdrawal by a goroutine, the end of the link or a step of a callback. -/
inductive StepMove (s : State) : Act → State → Prop where
  | call {act : Act} {c : Nat} {base : State} {pc : Pc} (hact : act.call = some c)
      (hfrom : s.calls c = .idle ∨ ∃ choice, act = .advance c choice)
      (hmove : CallMove s c base pc) : StepMove s act (base.setCall c pc)
  | reserve {c : Nat} (hcur : s.current = none) : StepMove s (.subscribe c)
      ({ s with current := some s.next, next := s.next + 1 }.setCall c (.reserved s.next))
  | unsubscribe {c e : Nat} (hcur : s.current = some e) : StepMove s (.unsubscribe c)
      ((s.drop e .owner).setCall c (.unsubscribing e))
  | discard {e : Nat} (hmem : e ∈ s.discards) : StepMove s (.discard e)
      { s.discard e with discards := s.discards.erase e }
  | close {act : Act} (terminal closed : Bool) (hact : act = .fail ∨ act = .closeTransport)
      : StepMove s act { s with terminal := terminal, transportClosed := closed }
  | callback {act : Act} {t : State} (hact : act.plain = false) (hmove : CallbackMove s t)
      : StepMove s act t

/-- Every step is one of the moves. -/
theorem step_move {act : Act} (ht : s.step act = some t) : StepMove s act t := by
  have hbegin : ∀ {act : Act} {c : Nat} {pc : Pc}, act.call = some c → s.calls c = .idle →
      pc.creates = none → pc.registers = none → pc.removes = none →
      (∀ e outcome, pc ≠ .returned (some e) outcome) → StepMove s act (s.setCall c pc) := by
    intro act c pc hact hidle hcreates hregisters hremoves hreturned
    refine .call hact (.inl hidle) (.still s.regHeld ?_ (.inl hcreates) (.inl hregisters) ?_
      fun e outcome heq => absurd heq (hreturned e outcome))
    · rintro e rfl
      cases hcreates
    · intro e he
      cases hremoves.symm.trans he
  cases act with
  | subscribe c =>
    simp only [State.step] at ht
    split at ht
    · rename_i hidle
      cases ht
      unfold State.subscribe
      split
      · exact hbegin rfl hidle rfl rfl rfl (by simp)
      · split
        · exact hbegin rfl hidle rfl rfl rfl (by simp)
        · rename_i hcur
          exact .reserve hcur
    · cases ht
  | unsubscribe c =>
    simp only [State.step] at ht
    split at ht
    · rename_i hidle
      cases ht
      unfold State.unsubscribe
      split
      · exact hbegin rfl hidle rfl rfl rfl (by simp)
      · rename_i e hcur
        exact .unsubscribe hcur
    · cases ht
  | advance c choice =>
    obtain ⟨base, pc, hmove, rfl⟩ := advance_move ht
    exact .call rfl (.inr ⟨choice, rfl⟩) hmove
  | discard e =>
    simp only [State.step] at ht
    split at ht
    · rename_i hmem
      cases locked_eq ht
      exact .discard hmem
    · cases ht
  | event event =>
    simp only [State.step] at ht
    split at ht
    · rename_i hidle
      exact .callback rfl ((onEvent_eventMove ht).callbackMove hidle)
    · cases ht
  | callback => exact .callback rfl (onCallback_move ht)
  | fail =>
    cases ht
    exact .close true s.transportClosed (.inl rfl)
  | closeTransport =>
    simp only [State.step] at ht
    split at ht
    · cases locked_eq ht
      exact .close s.terminal true (.inr rfl)
    · cases ht

end State

end Factory.Hostlink
