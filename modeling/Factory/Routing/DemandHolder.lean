import Factory.Routing.DemandBelow

/-!
# One demand holder per session

The demand plane holds one unit of the routing table's demand for every entry that says so,
and nobody else holds any (`Demand.Live`). Two counters in two tables are kept in step through
failed binds, failed unbinds, contexts that end, polls, and observations and deliveries that
reach the lower table in between.
-/

namespace Factory.Routing

open Function

/-! ## The plane -/

def Demand.watching (d : Demand) (key : SessionKey) : Nat :=
  match d.sessions.lookup key with
  | none => 0
  | some entry => entry.subscribers

/-- Whether the plane holds a unit of the table's demand for a session. -/
def Demand.holds (d : Demand) (key : SessionKey) : Bool :=
  match d.sessions.lookup key with
  | none => false
  | some entry => entry.held

/-- What holds of a plane that is not closed. -/
structure Demand.Live (d : Demand) : Prop where
  openBelow : d.below.table.closed = false
  units : ∀ key, d.below.table.demand key = (d.holds key).toNat
  demanded : d.below.table.Demanded
  subscribers : ∀ key entry, d.sessions.lookup key = some entry → 1 ≤ entry.subscribers
  counted : ∀ key, d.acquired key = d.released key + d.watching key

/-- What holds of a closed one. -/
structure Demand.Ended (d : Demand) : Prop where
  emptied : ∀ key, d.sessions.lookup key = none
  units : ∀ key, d.below.table.demand key = 0

structure Demand.Inv (d : Demand) : Prop where
  live : d.closed = false → d.Live
  ended : d.closed = true → d.Ended

theorem demand_init : Demand.Inv {} where
  live _ :=
    { openBelow := rfl
      units := fun key => by simp [Below.table, Bindings.demand, Demand.holds]
      demanded := fun key route h => by
        cases h
      subscribers := fun key entry h => by
        cases h
      counted := fun key => by simp [Demand.watching] }
  ended h := by cases h

variable {d : Demand}

/-- An operation on one session: its entry afterwards, if it has one, with the unit the entry
holds, and the counters moved with its subscribers. -/
theorem Demand.Live.update {d' : Demand} (h : d.Live) (key : SessionKey)
    (entry : Option DemandSession) (hself : d'.sessions.lookup key = entry)
    (hothers : ∀ k, k ≠ key → d'.sessions.lookup k = d.sessions.lookup k)
    (hbelow : d.below.Moves d'.below (Function.update d.below.table.demand key ((entry.map
      (·.held)).getD false).toNat)) (hsubscribers : ∀ e, entry = some e → 1 ≤ e.subscribers)
    (hcounts : ∀ k, k ≠ key → d'.acquired k = d.acquired k ∧ d'.released k = d.released k)
    (hcount : d'.acquired key = d'.released key + ((entry.map (·.subscribers)).getD 0)) :
    d'.Live := by
  refine ⟨hbelow.closed.trans h.openBelow, ?_, hbelow.demanded h.demanded, ?_, ?_⟩
  · intro k
    rw [hbelow.demand]
    by_cases hk : k = key
    · subst hk
      rw [update_self, Demand.holds, hself]
      cases entry <;> rfl
    · rw [update_of_ne hk, h.units, Demand.holds, Demand.holds, hothers k hk]
  · intro k e he
    by_cases hk : k = key
    · subst hk
      exact hsubscribers e (hself.symm.trans he)
    · rw [hothers k hk] at he
      exact h.subscribers k e he
  · intro k
    by_cases hk : k = key
    · subst hk
      rw [hcount, Demand.watching, hself]
      cases entry <;> rfl
    · obtain ⟨hacquired, hreleased⟩ := hcounts k hk
      rw [hacquired, hreleased, h.counted, Demand.watching, Demand.watching, hothers k hk]

/-! ### What the helpers leave alone -/

section Frame

variable (cfg : DemandConfig) (d : Demand) (key : SessionKey) (entry : DemandSession)

@[simp] theorem cancelPoll_sessions : (d.cancelPoll entry).sessions = d.sessions := by
  unfold Demand.cancelPoll
  split <;> rfl

@[simp] theorem cancelPoll_below : (d.cancelPoll entry).below = d.below := by
  unfold Demand.cancelPoll
  split <;> rfl

@[simp] theorem cancelPoll_closed : (d.cancelPoll entry).closed = d.closed := by
  unfold Demand.cancelPoll
  split <;> rfl

@[simp] theorem cancelPoll_counts : (d.cancelPoll entry).acquired = d.acquired ∧
    (d.cancelPoll entry).released = d.released := by
  unfold Demand.cancelPoll
  split <;> exact ⟨rfl, rfl⟩

@[simp] theorem scheduleLocked_lookup (k : SessionKey) :
    (d.scheduleLocked cfg key entry).sessions.lookup k =
      if k = key then some { entry with stop := some d.nextTimer } else d.sessions.lookup k := by
  unfold Demand.scheduleLocked Demand.store
  by_cases hk : k = key
  · subst hk
    simp
  · simp [hk, Finmap.lookup_insert_of_ne]

@[simp] theorem rescheduleLocked_lookup (k : SessionKey) :
    (d.rescheduleLocked cfg key entry).sessions.lookup k =
      if k = key then
        some { ptr := (d.cancelPoll entry).nextPtr, subscribers := entry.subscribers
               held := entry.held, stop := some (d.cancelPoll entry).nextTimer }
      else d.sessions.lookup k := by
  unfold Demand.rescheduleLocked Demand.entry
  by_cases hk : k = key
  · simp [hk, Demand.store]
  · simp [hk, Demand.store, Finmap.lookup_insert_of_ne]

@[simp] theorem rescheduleLocked_below :
    (d.rescheduleLocked cfg key entry).below = d.below := cancelPoll_below d entry

@[simp] theorem rescheduleLocked_closed :
    (d.rescheduleLocked cfg key entry).closed = d.closed := cancelPoll_closed d entry

@[simp] theorem rescheduleLocked_counts :
    (d.rescheduleLocked cfg key entry).acquired = d.acquired ∧
      (d.rescheduleLocked cfg key entry).released = d.released := cancelPoll_counts d entry

end Frame

variable {entry : DemandSession} {key : SessionKey}

theorem Demand.holds_of_lookup (h : d.sessions.lookup key = some entry) :
    d.holds key = entry.held := by
  simp [Demand.holds, h]

/-- A session is watched by the subscribers of its entry. -/
theorem Demand.watching_of_lookup (h : d.sessions.lookup key = some entry) :
    d.watching key = entry.subscribers := by
  simp [Demand.watching, h]

theorem Demand.Live.unit (h : d.Live) (hlookup : d.sessions.lookup key = some entry) :
    d.below.table.demand key = entry.held.toNat := by
  rw [h.units, Demand.holds_of_lookup hlookup]

theorem Demand.Live.moves_unit (h : d.Live) (hlookup : d.sessions.lookup key = some entry) :
    d.below.Moves d.below (Function.update d.below.table.demand key entry.held.toNat) := by
  rw [update_eq_self_iff.mpr (h.unit hlookup).symm]
  exact .refl _

variable (cfg : DemandConfig)

theorem teardownLocked_below (d : Demand) (key : SessionKey) (entry : DemandSession) (give : Give)
    (hopen : d.below.table.closed = false) (hunit : d.below.table.demand key = entry.held.toNat) :
    d.below.Moves (d.teardownLocked cfg key entry give).1.below
      (Function.update d.below.table.demand key 0) := by
  unfold Demand.teardownLocked
  simp only [cancelPoll_below]
  have hcall : d.below.Moves (d.below.call (.unwatched key)) d.below.table.demand :=
    ⟨rfl, rfl, id⟩
  cases hheld : entry.held with
  | true =>
    rw [hheld, Bool.toNat_true] at hunit
    have hrelease := (d.below.call (.unwatched key)).release_moves cfg key give hopen
    rw [hcall.demand, hunit] at hrelease
    exact hcall.trans hrelease
  | false =>
    rw [hheld, Bool.toNat_false] at hunit
    rw [← hunit, update_eq_self]
    exact hcall

theorem teardownLocked_frame (d : Demand) (key : SessionKey) (entry : DemandSession) (give : Give) :
    (d.teardownLocked cfg key entry give).1.sessions = d.sessions.erase key ∧
      (d.teardownLocked cfg key entry give).1.closed = d.closed ∧
      (d.teardownLocked cfg key entry give).1.acquired = d.acquired ∧
      (d.teardownLocked cfg key entry give).1.released = d.released := by
  unfold Demand.teardownLocked
  split <;> simp

theorem Demand.Live.acquire (h : d.Live) (hopen : d.closed = false) (cfg : DemandConfig)
    (key : SessionKey) (serve : Serve) :
    (d.acquire cfg key serve).1.Live ∧ (d.acquire cfg key serve).1.closed = false := by
  unfold Demand.acquire
  rw [if_neg (by simp [hopen])]
  dsimp only
  split
  · rename_i entry hlookup
    refine ⟨h.update key (some { entry with subscribers := entry.subscribers + 1 })
      (Finmap.lookup_insert _) (fun k hk => Finmap.lookup_insert_of_ne _ hk) ?_ ?_ ?_ ?_, hopen⟩
    · have hmoves := h.moves_unit hlookup
      exact hmoves
    · intro e he
      cases he
      exact Nat.le_add_left 1 _
    · intro k hk
      exact ⟨update_of_ne hk _ _, rfl⟩
    · simp only [Demand.store, update_self, h.counted, Option.map_some, Option.getD_some,
        Demand.watching_of_lookup hlookup]
      omega
  · rename_i hlookup
    have hunit : d.below.table.demand key = (false : Bool).toNat := by
      rw [h.units, Demand.holds, hlookup]
    have hwatching : d.watching key = 0 := by simp [Demand.watching, hlookup]
    have hcall : d.below.Moves (d.below.call (.watching key)) d.below.table.demand :=
      ⟨rfl, rfl, id⟩
    have hserve := hcall.trans
      ((d.below.call (.watching key)).serveLocked_moves cfg key false serve hunit)
    unfold Demand.entry Demand.store
    generalize (d.below.call (.watching key)).serveLocked cfg key false serve = served at hserve
    obtain ⟨w, held⟩ := served
    refine ⟨h.update key (some { ptr := d.nextPtr, subscribers := 1, held := held
                                 stop := some d.nextTimer }) ?_ ?_ ?_ ?_ ?_ ?_, hopen⟩
    · rw [scheduleLocked_lookup, if_pos rfl]
    · intro k hk
      rw [scheduleLocked_lookup, if_neg hk]
      exact Finmap.lookup_insert_of_ne _ hk
    · exact ⟨hserve.demand, hserve.closed, hserve.demanded⟩
    · intro e he
      cases he
      exact Nat.le_refl 1
    · intro k hk
      exact ⟨update_of_ne hk _ _, rfl⟩
    · simp only [Demand.scheduleLocked, Demand.store, update_self, h.counted, hwatching,
        Option.map_some, Option.getD_some, Nat.add_zero]

theorem Demand.Live.release (h : d.Live) (hopen : d.closed = false) (cfg : DemandConfig)
    (key : SessionKey) (give : Give) :
    (d.release cfg key give).1.Live ∧ (d.release cfg key give).1.closed = false := by
  unfold Demand.release
  rw [if_neg (by simp [hopen])]
  split
  · exact ⟨h, hopen⟩
  · rename_i entry hlookup
    split
    · exact ⟨h, hopen⟩
    · rename_i hsome
      have hcount := h.counted key
      rw [Demand.watching_of_lookup hlookup] at hcount
      dsimp only
      split
      · rename_i hmore
        refine ⟨h.update key (some { entry with subscribers := entry.subscribers - 1 })
          (Finmap.lookup_insert _) (fun k hk => Finmap.lookup_insert_of_ne _ hk) ?_ ?_ ?_ ?_, hopen⟩
        · have hmoves := h.moves_unit hlookup
          exact hmoves
        · intro e he
          cases he
          exact hmore
        · intro k hk
          exact ⟨rfl, update_of_ne hk _ _⟩
        · simp only [Demand.store, update_self, Option.map_some, Option.getD_some]
          omega
      · -- the last subscriber
        rename_i hlast
        have hunit : d.below.table.demand key = entry.held.toNat := h.unit hlookup
        have hbelow := teardownLocked_below cfg
          { d with released := Function.update d.released key (d.released key + 1) } key
          { entry with subscribers := entry.subscribers - 1 } give h.openBelow hunit
        obtain ⟨hsessions, hclosed, hacquired, hreleased⟩ := teardownLocked_frame cfg
          { d with released := Function.update d.released key (d.released key + 1) } key
          { entry with subscribers := entry.subscribers - 1 } give
        refine ⟨h.update key none ?_ ?_ hbelow ?_ ?_ ?_, hclosed.trans hopen⟩
        · rw [hsessions, Finmap.lookup_erase]
        · intro k hk
          rw [hsessions, Finmap.lookup_erase_ne hk]
        · intro e he
          cases he
        · intro k hk
          rw [hacquired, hreleased]
          exact ⟨rfl, update_of_ne hk _ _⟩
        · rw [hacquired, hreleased]
          simp only [update_self, Option.map_none, Option.getD_none]
          omega

theorem Demand.Live.reschedule (h : d.Live) (hlookup : d.sessions.lookup key = some entry)
    (cfg : DemandConfig) {w : Below} (held : Bool)
    (hbelow : d.below.Moves w (Function.update d.below.table.demand key held.toNat)) :
    (({ d with below := w } : Demand).rescheduleLocked cfg key
      { entry with held := held }).Live := by
  have hcounts := rescheduleLocked_counts cfg { d with below := w } key { entry with held := held }
  refine h.update key _ (rescheduleLocked_lookup cfg _ key _ key) ?_ ?_ ?_ ?_ ?_
  · intro k hk
    rw [rescheduleLocked_lookup, if_neg hk]
  · rw [rescheduleLocked_below, if_pos rfl]
    exact hbelow
  · intro e he
    rw [if_pos rfl] at he
    cases he
    exact h.subscribers key entry hlookup
  · intro k _
    rw [hcounts.1, hcounts.2]
    exact ⟨rfl, rfl⟩
  · rw [hcounts.1, hcounts.2, if_pos rfl]
    simp only [Option.map_some, Option.getD_some]
    rw [h.counted, Demand.watching_of_lookup hlookup]

theorem Demand.Live.rebind (h : d.Live) (hopen : d.closed = false) (cfg : DemandConfig)
    (key : SessionKey) (ctx : Expiry) (give : Give) (serve : Serve) :
    (d.rebind cfg key ctx give serve).1.Live ∧
      (d.rebind cfg key ctx give serve).1.closed = false := by
  unfold Demand.rebind
  split
  · exact ⟨h, hopen⟩
  · rw [if_neg (by simp [hopen])]
    split
    · exact ⟨h, hopen⟩
    · rename_i entry hlookup
      have hunit := h.unit hlookup
      split
      · rename_i hheld
        have hrelease := d.below.release_moves cfg key give h.openBelow
        rw [hunit, hheld] at hrelease
        generalize d.below.release cfg key give = gave at hrelease
        obtain ⟨w, result⟩ := gave
        dsimp only at hrelease ⊢
        split
        · exact ⟨h.reschedule hlookup cfg false hrelease, (rescheduleLocked_closed ..).trans hopen⟩
        · have hserve := hrelease.trans (w.serveLocked_moves cfg key false serve
            (by rw [hrelease.demand, update_self]; rfl))
          generalize w.serveLocked cfg key false serve = served at hserve
          obtain ⟨w', held⟩ := served
          rw [hrelease.demand, update_idem] at hserve
          exact ⟨h.reschedule hlookup cfg _ hserve, (rescheduleLocked_closed ..).trans hopen⟩
      · have hserve := d.below.serveLocked_moves cfg key entry.held serve hunit
        generalize d.below.serveLocked cfg key entry.held serve = served at hserve
        obtain ⟨w, held⟩ := served
        exact ⟨h.reschedule hlookup cfg _ hserve, (rescheduleLocked_closed ..).trans hopen⟩

theorem Demand.Live.poll (h : d.Live) (hopen : d.closed = false) (cfg : DemandConfig)
    (key : SessionKey) (scheduled : Nat) (refresh : Refresh) (serve : Serve) :
    (d.poll cfg key scheduled refresh serve).Live ∧
      (d.poll cfg key scheduled refresh serve).closed = false := by
  unfold Demand.poll
  split
  · exact ⟨h, hopen⟩
  · rename_i entry hlookup
    split
    · exact ⟨h, hopen⟩
    · have hunit := h.unit hlookup
      -- after the refresh, the table has the unit the entry is left with
      have hrefresh : ∀ refreshed : Below × Bool,
          refreshed = (if entry.held then d.below.refreshLocked cfg key refresh
            else (d.below, entry.held)) →
          d.below.Moves refreshed.1
            (Function.update d.below.table.demand key refreshed.2.toNat) := by
        rintro _ rfl
        split
        · rename_i hheld
          rw [hheld] at hunit
          exact d.below.refreshLocked_moves cfg key refresh h.openBelow hunit
        · rw [← hunit, update_eq_self]
          exact .refl _
      dsimp only
      generalize (if entry.held then d.below.refreshLocked cfg key refresh
        else (d.below, entry.held)) = refreshed at hrefresh
      replace hrefresh := hrefresh refreshed rfl
      have hserve := hrefresh.trans (refreshed.1.serveLocked_moves cfg key refreshed.2 serve
        (by rw [hrefresh.demand, update_self]))
      rw [hrefresh.demand, update_idem] at hserve
      generalize refreshed.1.serveLocked cfg key refreshed.2 serve = served at hserve
      refine ⟨h.update key _ (scheduleLocked_lookup ..) ?_ ?_ ?_ ?_ ?_, hopen⟩
      · intro k hk
        rw [scheduleLocked_lookup, if_neg hk]
      · rw [if_pos rfl]
        exact hserve
      · intro e he
        rw [if_pos rfl] at he
        cases he
        exact h.subscribers key entry hlookup
      · intro k _
        exact ⟨rfl, rfl⟩
      · rw [if_pos rfl]
        simp only [Demand.scheduleLocked, Demand.store, Option.map_some, Option.getD_some]
        rw [h.counted, Demand.watching_of_lookup hlookup]

theorem closeLoop_ended (give : SessionKey → Give) (order : List SessionKey) (d : Demand)
    (failures : List RouteError) (hopen : d.below.table.closed = false)
    (hunits : ∀ key, d.below.table.demand key = (d.holds key).toNat)
    (hvisits : ∀ key, key ∉ order → d.sessions.lookup key = none) :
    (Demand.closeLoop cfg give order d failures).1.Ended ∧
      (Demand.closeLoop cfg give order d failures).1.closed = d.closed := by
  induction order generalizing d failures with
  | nil =>
    have hnone : ∀ key, d.sessions.lookup key = none := fun key => hvisits key List.not_mem_nil
    refine ⟨⟨hnone, fun key => ?_⟩, rfl⟩
    rw [Demand.closeLoop, hunits, Demand.holds, hnone]
    rfl
  | cons key rest ih =>
    rw [Demand.closeLoop]
    split
    · rename_i hlookup
      refine ih d failures hopen hunits fun k hk => ?_
      by_cases heq : k = key
      · exact heq ▸ hlookup
      · exact hvisits k (by simp [heq, hk])
    · rename_i entry hlookup
      have hunit : d.below.table.demand key = entry.held.toNat := by
        rw [hunits, Demand.holds_of_lookup hlookup]
      have hbelow := teardownLocked_below cfg d key entry (give key) hopen hunit
      obtain ⟨hsessions, hclosed, -⟩ := teardownLocked_frame cfg d key entry (give key)
      generalize d.teardownLocked cfg key entry (give key) = torn at hbelow hsessions hclosed
      obtain ⟨d', result⟩ := torn
      dsimp only at hbelow hsessions hclosed ⊢
      have hopen' : d'.below.table.closed = false := hbelow.closed.trans hopen
      have hunits' : ∀ k, d'.below.table.demand k = (d'.holds k).toNat := by
        intro k
        rw [hbelow.demand]
        by_cases heq : k = key
        · subst heq
          rw [update_self, Demand.holds, hsessions, Finmap.lookup_erase]
          rfl
        · rw [update_of_ne heq, hunits, Demand.holds, Demand.holds, hsessions,
            Finmap.lookup_erase_ne heq]
      have hvisits' : ∀ k, k ∉ rest → d'.sessions.lookup k = none := by
        intro k hk
        rw [hsessions]
        by_cases heq : k = key
        · subst heq
          exact Finmap.lookup_erase _ _
        · rw [Finmap.lookup_erase_ne heq]
          exact hvisits k (by simp [heq, hk])
      rw [← hclosed]
      split
      · exact ih d' _ hopen' hunits' hvisits'
      · exact ih d' _ hopen' hunits' hvisits'

theorem Demand.Inv.of_live (h : d.Live ∧ d.closed = false) : d.Inv :=
  ⟨fun _ => h.1, fun hclosed => absurd (h.2.symm.trans hclosed) Bool.false_ne_true⟩

theorem Demand.Inv.of_ended (h : d.Ended) (hclosed : d.closed = true) : d.Inv :=
  ⟨fun hopen => absurd (hopen.symm.trans hclosed) Bool.false_ne_true, fun _ => h⟩

theorem Demand.Live.step {cfg : DemandConfig} {d' : Demand} {act : Act} (h : d.Live)
    (hopen : d.closed = false) (hstep : d.step cfg act = some d') : d'.Inv := by
  cases act with
  | acquire key serve =>
    cases hstep
    exact .of_live (h.acquire hopen cfg key serve)
  | release key give =>
    cases hstep
    exact .of_live (h.release hopen cfg key give)
  | rebind key ctx give serve =>
    cases hstep
    exact .of_live (h.rebind hopen cfg key ctx give serve)
  | close order give =>
    obtain ⟨horder, ⟨⟩⟩ := Option.ite_none_right_eq_some.mp hstep
    obtain ⟨hended, hclosed⟩ := closeLoop_ended cfg give order { d with closed := true } []
      h.openBelow h.units fun key hkey => by
        rw [← List.mem_toFinset, horder.2, Finmap.mem_keys] at hkey
        exact Finmap.lookup_eq_none.mpr hkey
    exact .of_ended hended hclosed
  | fire i =>
    simp only [Demand.step] at hstep
    split at hstep
    · cases hstep
    · split at hstep
      · cases hstep
      · cases hstep
        exact .of_live ⟨⟨h.openBelow, h.units, h.demanded, h.subscribers, h.counted⟩, hopen⟩
  | poll i refresh serve =>
    simp only [Demand.step] at hstep
    split at hstep
    · cases hstep
    · rename_i t _
      split at hstep
      · cases hstep
        have hlive : ({ d with timers := d.timers.eraseIdx i } : Demand).Live :=
          ⟨h.openBelow, h.units, h.demanded, h.subscribers, h.counted⟩
        exact .of_live (hlive.poll hopen cfg t.key t.entry refresh serve)
      · cases hstep
  | push p =>
    cases hstep
    have hpush := d.below.push_moves cfg p
    refine .of_live ⟨⟨hpush.closed.trans h.openBelow, fun key => ?_, hpush.demanded h.demanded,
      h.subscribers, h.counted⟩, hopen⟩
    rw [hpush.demand]
    exact h.units key
  | closeTable order seams => simp [Demand.step, hopen] at hstep

theorem Demand.Ended.step {cfg : DemandConfig} {d' : Demand} {act : Act} (h : d.Ended)
    (hclosed : d.closed = true) (hstep : d.step cfg act = some d') : d'.Inv := by
  cases act with
  | acquire key serve =>
    simp only [Demand.step, Demand.acquire, hclosed, if_true] at hstep
    cases hstep
    exact .of_ended h hclosed
  | release key give =>
    simp only [Demand.step, Demand.release, hclosed, if_true] at hstep
    cases hstep
    exact .of_ended h hclosed
  | rebind key ctx give serve =>
    simp only [Demand.step, Demand.rebind, hclosed, if_true] at hstep
    split at hstep <;> cases hstep <;> exact .of_ended h hclosed
  | close order give =>
    obtain ⟨horder, ⟨⟩⟩ := Option.ite_none_right_eq_some.mp hstep
    have hnil : order = [] := by
      refine List.eq_nil_iff_forall_not_mem.mpr fun key hkey => ?_
      rw [← List.mem_toFinset, horder.2, Finmap.mem_keys] at hkey
      exact (Finmap.lookup_eq_none.mp (h.emptied key)) hkey
    subst hnil
    exact .of_ended ⟨h.emptied, h.units⟩ rfl
  | fire i =>
    simp only [Demand.step] at hstep
    split at hstep
    · cases hstep
    · split at hstep
      · cases hstep
      · cases hstep
        exact .of_ended ⟨h.emptied, h.units⟩ hclosed
  | poll i refresh serve =>
    simp only [Demand.step] at hstep
    split at hstep
    · cases hstep
    · rename_i t _
      split at hstep
      · cases hstep
        unfold Demand.poll
        rw [show ({ d with timers := d.timers.eraseIdx i } : Demand).sessions.lookup t.key = none
          from h.emptied t.key]
        exact .of_ended ⟨h.emptied, h.units⟩ hclosed
      · cases hstep
  | push p =>
    cases hstep
    refine .of_ended ⟨h.emptied, fun key => ?_⟩ hclosed
    rw [(d.below.push_moves cfg p).demand]
    exact h.units key
  | closeTable order seams =>
    simp only [Demand.step, hclosed, if_true, Option.map_eq_some_iff] at hstep
    obtain ⟨routed, hrouted, rfl⟩ := hstep
    refine .of_ended ⟨h.emptied, fun key => ?_⟩ rfl
    simp only [Routed.step] at hrouted
    split at hrouted
    · cases hrouted
      have heffect := closeLoop_effect cfg.core seams order
        { d.below.routed.table with closed := true } []
      refine (congrFun heffect.demand key).trans ?_
      split
      · rfl
      · exact h.units key
    · cases hrouted

/-- Every step keeps the invariant of the plane. -/
theorem Demand.Inv.step {cfg : DemandConfig} {d' : Demand} {act : Act}
    (hstep : d.step cfg act = some d') (h : d.Inv) : d'.Inv := by
  cases hclosed : d.closed with
  | false => exact (h.live hclosed).step hclosed hstep
  | true => exact (h.ended hclosed).step hclosed hstep

/-! ## The holder's last release and its rebinds -/

theorem Bindings.Demanded.lookup_none {b : Bindings} (h : b.Demanded) (hzero : b.demand key = 0) :
    b.sessions.lookup key = none := by
  cases hlookup : b.sessions.lookup key with
  | none => rfl
  | some route =>
    have := h key route hlookup
    rw [demand_of_lookup hlookup] at hzero
    omega

theorem binding_none {b : Bindings} (h : b.sessions.lookup key = none) : b.binding key = none := by
  simp [Bindings.binding, h]

theorem Below.release_unbinds (w : Below) (key : SessionKey) (give : Give)
    (hopen : w.table.closed = false) (hunit : w.table.demand key = 1) :
    (w.release cfg key give).1.table.sessions.lookup key = none ∧
      ∀ binding, (w.pushed cfg give.before).table.binding key = some binding →
        (w.release cfg key give).1.routed.log = (w.pushed cfg give.before).routed.log ++
          [.unbind (unbindRequest cfg.core binding)
            (give.seams.unbind (unbindRequest cfg.core binding))] := by
  have hpushed := w.pushed_moves cfg give.before
  obtain ⟨hgone, hcalls⟩ := release_last cfg.core (b := (w.pushed cfg give.before).table)
    give.seams (hpushed.closed.trans hopen) ((congrFun hpushed.demand key).trans hunit)
  refine ⟨hgone, fun binding hbinding => ?_⟩
  unfold Below.release Routed.after
  dsimp only
  rw [hcalls binding hbinding]

theorem Below.serveLocked_reads (w : Below) (key : SessionKey) (serve : Serve)
    (hopen : w.table.closed = false)
    (hnone : (w.pushed cfg serve.before).table.binding key = none) :
    ∃ later, (w.serveLocked cfg key false serve).1.routed.log =
      (w.pushed cfg serve.before).routed.log ++ .owner key :: later := by
  have hpushed := w.pushed_moves cfg serve.before
  obtain ⟨later, hcalls⟩ := acquire_reads cfg.core serve.seams (hpushed.closed.trans hopen) hnone
  have hbind : (w.bindLocked cfg key serve).1.routed.log =
      (w.pushed cfg serve.before).routed.log ++ .owner key :: later := by
    unfold Below.bindLocked
    dsimp only
    rw [← hcalls]
    split <;> rfl
  refine ⟨later, ?_⟩
  rw [← hbind]
  unfold Below.serveLocked
  generalize w.bindLocked cfg key serve = bound
  obtain ⟨w', held⟩ := bound
  cases held with
  | true => rfl
  | false =>
    simp only [Bool.false_eq_true, if_false]
    unfold Below.hintLocked
    split
    · rfl
    · split <;> rfl

section

variable (h : d.Live) (hopen : d.closed = false) (cfg : DemandConfig) (give : Give)
include h hopen

theorem Demand.Live.release_unbinds (hlookup : d.sessions.lookup key = some entry)
    (hlast : entry.subscribers = 1) (hheld : entry.held = true) :
    (d.release cfg key give).1.below.table.sessions.lookup key = none ∧
      ∀ binding, (d.below.pushed cfg give.before).table.binding key = some binding →
        (d.release cfg key give).1.below.routed.log =
          (d.below.pushed cfg give.before).routed.log ++
            [.unbind (unbindRequest cfg.core binding)
              (give.seams.unbind (unbindRequest cfg.core binding))] := by
  have hunit := h.unit hlookup
  rw [hheld, Bool.toNat_true] at hunit
  have hrelease := (d.below.call (.unwatched key)).release_unbinds cfg key give h.openBelow hunit
  have hcall : ∀ (w : Below) (c : DemandCall) (pushes : List Push),
      ((w.call c).pushed cfg pushes).routed = (w.pushed cfg pushes).routed := by
    intro w c pushes
    induction pushes generalizing w with
    | nil => rfl
    | cons p rest ih => exact ih (w.push cfg p)
  have hbelow : (d.release cfg key give).1.below =
      ((d.below.call (.unwatched key)).release cfg key give).1 := by
    unfold Demand.release Demand.teardownLocked
    simp [hopen, hlookup, hlast, hheld]
  rw [hbelow]
  simp only [Below.table, hcall] at hrelease ⊢
  exact hrelease

/-- A rebind of a held session under a context that is not done before it serves: the old
route is out of the table, and the owner is read again. -/
theorem Demand.Live.rebind_reads {ctx : Expiry} (serve : Serve)
    (hlookup : d.sessions.lookup key = some entry) (hheld : entry.held = true)
    (hctx : ctx = .beforeReturn ∨ ctx = .never) :
    ((d.below.release cfg key give).1.pushed cfg serve.before).table.sessions.lookup key = none ∧
      ∃ later, (d.rebind cfg key ctx give serve).1.below.routed.log =
        ((d.below.release cfg key give).1.pushed cfg serve.before).routed.log ++
          .owner key :: later := by
  have hunit := h.unit hlookup
  rw [hheld, Bool.toNat_true] at hunit
  have hrelease := d.below.release_moves cfg key give h.openBelow
  rw [hunit] at hrelease
  have hbelow : (d.rebind cfg key ctx give serve).1.below =
      ((d.below.release cfg key give).1.serveLocked cfg key false serve).1 := by
    unfold Demand.rebind
    rcases hctx with rfl | rfl <;> simp [hopen, hlookup, hheld]
  rw [hbelow]
  generalize (d.below.release cfg key give).1 = w at hrelease
  have hpushed := hrelease.trans (w.pushed_moves cfg serve.before)
  have hgone : (w.pushed cfg serve.before).table.sessions.lookup key = none := by
    refine (hpushed.demanded h.demanded).lookup_none ?_
    rw [hpushed.demand, hrelease.demand, update_self]
  exact ⟨hgone, w.serveLocked_reads cfg key serve (hrelease.closed.trans h.openBelow)
    (binding_none hgone)⟩

/-- A rebind of a held session whose context is done after the unbind leaves the session
unheld and out of the table. -/
theorem Demand.Live.rebind_unheld (serve : Serve) (hlookup : d.sessions.lookup key = some entry)
    (hheld : entry.held = true) :
    (d.rebind cfg key .beforeServe give serve).1.holds key = false ∧
      (d.rebind cfg key .beforeServe give serve).1.below.table.sessions.lookup key = none := by
  have hunit := h.unit hlookup
  rw [hheld, Bool.toNat_true] at hunit
  have hrebind : (d.rebind cfg key .beforeServe give serve).1 =
      ({ d with below := (d.below.release cfg key give).1 } : Demand).rescheduleLocked cfg key
        { entry with held := false } := by
    unfold Demand.rebind
    simp [hopen, hlookup, hheld]
  rw [hrebind]
  constructor
  · simp [Demand.holds]
  · rw [rescheduleLocked_below]
    exact (d.below.release_unbinds cfg key give h.openBelow hunit).1

end

/-- In every run of the plane: the table's demand for a session is one if the plane's entry
says it holds it, and none otherwise; an entry's subscribers are the acquires less the
releases; a closed plane is empty. The last release of a held session unbinds, and a rebind
of one reads the owner again unless its context is done first: before it has the lock, when
nothing changes, or after the unbind, when the session is left without a route. -/
theorem Demand.one_holder (cfg : DemandConfig) {acts : List Act} {d : Demand}
    (hrun : Runs.exec (Demand.step cfg) {} acts = some d) :
    (∀ key, d.below.table.demand key = (d.holds key).toNat) ∧
    (∀ key entry, d.sessions.lookup key = some entry → 1 ≤ entry.subscribers) ∧
    (d.closed = false → ∀ key,
      ((d.sessions.lookup key).isSome ↔ d.released key < d.acquired key) ∧
        d.acquired key = d.released key + d.watching key) ∧
    (d.closed = true → d.sessions = ∅) ∧
    (∀ key entry give, d.closed = false → d.sessions.lookup key = some entry →
      entry.subscribers = 1 → entry.held = true →
        (d.release cfg key give).1.below.table.sessions.lookup key = none ∧
        ∀ binding, (d.below.pushed cfg give.before).table.binding key = some binding →
          (d.release cfg key give).1.below.routed.log =
            (d.below.pushed cfg give.before).routed.log ++
              [.unbind (unbindRequest cfg.core binding)
                (give.seams.unbind (unbindRequest cfg.core binding))]) ∧
    (∀ key entry (ctx : Expiry) give serve, d.closed = false →
      d.sessions.lookup key = some entry →
      entry.held = true →
        match ctx with
        | .beforeLock => d.rebind cfg key ctx give serve = (d, [.context])
        | .beforeServe =>
          (d.rebind cfg key ctx give serve).1.holds key = false ∧
            (d.rebind cfg key ctx give serve).1.below.table.sessions.lookup key = none
        | .beforeReturn | .never =>
          ((d.below.release cfg key give).1.pushed cfg serve.before).table.sessions.lookup key =
              none ∧
            ∃ later, (d.rebind cfg key ctx give serve).1.below.routed.log =
              ((d.below.release cfg key give).1.pushed cfg serve.before).routed.log ++
                .owner key :: later) := by
  have hinv : d.Inv :=
    Runs.exec_invariant (fun _ _ _ hstep => Demand.Inv.step hstep) hrun demand_init
  refine ⟨?_, ?_, ?_, ?_, ?_, ?_⟩
  · intro key
    cases hclosed : d.closed with
    | false => exact (hinv.live hclosed).units key
    | true =>
      rw [(hinv.ended hclosed).units, Demand.holds, (hinv.ended hclosed).emptied]
      rfl
  · intro key entry hlookup
    cases hclosed : d.closed with
    | false => exact (hinv.live hclosed).subscribers key entry hlookup
    | true =>
      rw [(hinv.ended hclosed).emptied] at hlookup
      cases hlookup
  · intro hopen key
    have hlive := hinv.live hopen
    have hcount := hlive.counted key
    refine ⟨?_, hcount⟩
    rw [hcount]
    cases hlookup : d.sessions.lookup key with
    | none => simp [Demand.watching, hlookup]
    | some entry =>
      have := hlive.subscribers key entry hlookup
      rw [Demand.watching_of_lookup hlookup]
      simp only [Option.isSome_some, true_iff]
      omega
  · intro hclosed
    refine Finmap.ext_lookup fun key => ?_
    rw [(hinv.ended hclosed).emptied, Finmap.lookup_empty]
  · intro key entry give hopen hlookup hlast hheld
    exact (hinv.live hopen).release_unbinds hopen cfg give hlookup hlast hheld
  · intro key entry ctx give serve hopen hlookup hheld
    have hlive := hinv.live hopen
    cases ctx with
    | beforeLock => rfl
    | beforeServe => exact hlive.rebind_unheld hopen cfg give serve hlookup hheld
    | beforeReturn =>
      exact hlive.rebind_reads hopen cfg give serve hlookup hheld (.inl rfl)
    | never => exact hlive.rebind_reads hopen cfg give serve hlookup hheld (.inr rfl)

/-- A plane over a registry with one owner, polling every second. -/
def plainPlane : DemandConfig :=
  { core := plainCore
    limits :=
      { ownershipPollInterval := 1000000000, pollTimeout := 1000000000
        ownershipPollInterval_pos := by decide, pollTimeout_pos := by decide }
    validateTip := fun _ _ => true
    reporter := false }

/-- A session has an owner, which accepts every bind and unbind. -/
def ownedSeams : Seams :=
  { owner := fun key =>
      .ok (some { tenant := key.tenant, session := key.session, host := "h", hostGeneration := 1
                  leaseEpoch := 1 })
    bind := fun _ _ => none
    unbind := fun _ => none }

theorem one_holder_acquired :
    ∃ d, Runs.exec (Demand.step plainPlane) {} [.acquire ⟨"t", "s"⟩ { seams := ownedSeams }] =
        some d ∧
      d.below.table.demand ⟨"t", "s"⟩ = 1 ∧
      ∃ later, (d.rebind plainPlane ⟨"t", "s"⟩ .never { seams := ownedSeams }
          { seams := ownedSeams }).1.below.routed.log =
        ((d.below.release plainPlane ⟨"t", "s"⟩ { seams := ownedSeams }).1.pushed plainPlane
          []).routed.log ++ .owner ⟨"t", "s"⟩ :: later := by
  obtain ⟨d, hrun, hopen, hsome, hheld⟩ : ∃ d, Runs.exec (Demand.step plainPlane) {}
      [.acquire ⟨"t", "s"⟩ { seams := ownedSeams }] = some d ∧ d.closed = false ∧
      (d.sessions.lookup ⟨"t", "s"⟩).isSome ∧ d.holds ⟨"t", "s"⟩ = true :=
    ⟨_, rfl, by decide +kernel⟩
  obtain ⟨entry, hlookup⟩ := Option.isSome_iff_exists.mp hsome
  rw [Demand.holds_of_lookup hlookup] at hheld
  obtain ⟨hunits, -, -, -, -, hrebind⟩ := Demand.one_holder plainPlane hrun
  refine ⟨d, hrun, ?_, (hrebind _ entry .never { seams := ownedSeams } { seams := ownedSeams } hopen
    hlookup hheld).2⟩
  rw [hunits, Demand.holds_of_lookup hlookup, hheld]
  rfl

/-- What a rebind of the session leaves below the plane. -/
def reboundBelow (d : Demand) (ctx : Expiry) : Below :=
  (d.rebind plainPlane ⟨"t", "s"⟩ ctx { seams := ownedSeams } { seams := ownedSeams }).1.below

/-- Rebinds of a held session that do not read the owner: with the context done before the
lock the old route stays, and with it done after the unbind there is none. -/
theorem rebind_without_read :
    ∃ d, Runs.exec (Demand.step plainPlane) {} [.acquire ⟨"t", "s"⟩ { seams := ownedSeams }] =
        some d ∧
      d.holds ⟨"t", "s"⟩ = true ∧
      (reboundBelow d .beforeLock).routed.log = d.below.routed.log ∧
      (reboundBelow d .beforeLock).table.binding ⟨"t", "s"⟩ = d.below.table.binding ⟨"t", "s"⟩ ∧
      ((reboundBelow d .beforeServe).routed.log.drop d.below.routed.log.length).all
        (· ≠ .owner ⟨"t", "s"⟩) = true ∧
      (reboundBelow d .beforeServe).table.binding ⟨"t", "s"⟩ = none :=
  ⟨_, rfl, by decide +kernel⟩

end Factory.Routing
