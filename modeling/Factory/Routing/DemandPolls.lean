import Factory.Routing.DemandHolder

/-!
# One poll chain per watched session

In every state between two critical sections, a watched session has exactly one outstanding
timer that captured its current entry (`Polled`); every other outstanding timer has a callback
that started before it was stopped, and that finds another entry, or none, when it gets the
lock (`poll_superseded`).

Inside a section the timer of one session is missing: it was stopped, or its callback is what
runs. `Idle` is the invariant with that session left out. A section takes `Polled` to `Idle`
and arms a timer, or forgets the session, to come back.
-/

namespace Factory.Routing

open List

def Timer.captured (t : Timer) (key : SessionKey) (entry : DemandSession) : Bool :=
  t.key = key ∧ t.entry = entry.ptr

/-- The timer captured the entry its session has now. -/
def Demand.Current (d : Demand) (t : Timer) : Prop :=
  ∃ entry, d.sessions.lookup t.key = some entry ∧ entry.ptr = t.entry

/-- What holds of the timers and of the entries' identities in any state. -/
structure Fresh (d : Demand) : Prop where
  ids : (d.timers.map (·.id)).Nodup
  timers : ∀ t ∈ d.timers, t.id < d.nextTimer ∧ t.entry < d.nextPtr
  entries : ∀ key entry, d.sessions.lookup key = some entry → entry.ptr < d.nextPtr

/-- The session has exactly one outstanding timer that captured its entry, and it is the one
the entry's stop function stops. -/
def Chained (d : Demand) (key : SessionKey) (entry : DemandSession) : Prop :=
  ∃ t, d.timers.filter (·.captured key entry) = [t] ∧ entry.stop = some t.id

/-- Between two critical sections. -/
structure Polled (d : Demand) : Prop where
  fresh : Fresh d
  one : ∀ key entry, d.sessions.lookup key = some entry → Chained d key entry
  late : ∀ t ∈ d.timers, ¬ d.Current t → t.running = true

/-- Inside a section of one session. -/
structure Idle (d : Demand) (key : SessionKey) : Prop where
  fresh : Fresh d
  one : ∀ k entry, k ≠ key → d.sessions.lookup k = some entry → Chained d k entry
  late : ∀ t ∈ d.timers, t.key = key ∨ ¬ d.Current t → t.running = true

variable {entry : DemandSession} {key : SessionKey} {t : Timer}

theorem captured_iff :
    t.captured key entry = true ↔ t.key = key ∧ t.entry = entry.ptr := decide_eq_true_iff

theorem polled_init : Polled {} where
  fresh :=
    { ids := nodup_nil
      timers := fun t h => by cases h
      entries := fun key entry h => by
        cases h }
  one key entry h := by
    cases h
  late t h := by cases h

/-! ## Into a section -/

variable {d : Demand}

theorem Polled.idle_of_unwatched (h : Polled d) (hnone : d.sessions.lookup key = none) :
    Idle d key where
  fresh := h.fresh
  one k entry _ hlookup := h.one k entry hlookup
  late t ht hor := by
    refine h.late t ht ?_
    rintro ⟨entry, hlookup, hptr⟩
    rcases hor with hkey | hnot
    · rw [hkey, hnone] at hlookup
      cases hlookup
    · exact hnot ⟨entry, hlookup, hptr⟩

theorem Polled.running_of_not_captured (h : Polled d) (hlookup : d.sessions.lookup key = some entry)
    (ht : t ∈ d.timers) (hkey : t.key = key) (hnot : t.captured key entry = false) :
    t.running = true := by
  refine h.late t ht ?_
  rintro ⟨entry', hlookup', hptr⟩
  rw [hkey, hlookup, Option.some.injEq] at hlookup'
  subst hlookup'
  rw [captured_iff.mpr ⟨hkey, hptr.symm⟩] at hnot
  cases hnot

variable {d' : Demand}

theorem Chained.filter {k : SessionKey} (h : Chained d k entry) (hk : k ≠ key) (p : Timer → Bool)
    (htimers : d'.timers = d.timers.filter p)
    (hremoved : ∀ t ∈ d.timers, p t = false → t.key = key) : Chained d' k entry := by
  obtain ⟨t, hfilter, hstop⟩ := h
  refine ⟨t, ?_, hstop⟩
  rw [htimers, filter_filter, ← hfilter]
  refine filter_congr fun u hu => ?_
  by_cases hcap : u.captured k entry = true
  · have hp : p u = true := by
      by_contra hp
      have hkey := hremoved u hu (by simpa using hp)
      exact hk ((captured_iff.mp hcap).1.symm.trans hkey)
    rw [hcap, hp]
    rfl
  · simp [hcap]

theorem Fresh.filter (h : Fresh d) (p : Timer → Bool) (htimers : d'.timers = d.timers.filter p)
    (hsessions : d'.sessions = d.sessions)
    (hnext : d'.nextTimer = d.nextTimer ∧ d'.nextPtr = d.nextPtr) : Fresh d' where
  ids := by
    rw [htimers]
    exact h.ids.sublist (List.Sublist.map _ filter_sublist)
  timers t ht := by
    rw [htimers] at ht
    rw [hnext.1, hnext.2]
    exact h.timers t (mem_filter.mp ht).1
  entries key entry hlookup := by
    rw [hsessions] at hlookup
    rw [hnext.2]
    exact h.entries key entry hlookup

theorem Fresh.eq_of_id (h : Fresh d) {u : Timer} (ht : t ∈ d.timers) (hu : u ∈ d.timers)
    (hid : t.id = u.id) : t = u :=
  inj_on_of_nodup_map h.ids ht hu hid

variable {i : Nat}

theorem eraseIdx_eq_filter {timers : List Timer} (hids : (timers.map (·.id)).Nodup)
    (hi : timers[i]? = some t) : timers.eraseIdx i = timers.filter (fun u => u.id ≠ t.id) := by
  induction timers generalizing i with
  | nil => simp at hi
  | cons u rest ih =>
    rw [map_cons, nodup_cons] at hids
    cases i with
    | zero =>
      simp only [getElem?_cons_zero, Option.some.injEq] at hi
      subst hi
      rw [eraseIdx_cons_zero, filter_cons_of_neg (by simp), filter_eq_self.mpr]
      intro v hv
      have hne : v.id ≠ u.id := fun heq => hids.1 (heq ▸ mem_map_of_mem hv)
      simpa using hne
    | succ i =>
      have hne : u.id ≠ t.id := by
        intro heq
        exact hids.1 (heq ▸ mem_map_of_mem (mem_of_getElem? hi))
      rw [eraseIdx_cons_succ, filter_cons_of_pos (by simpa using hne), ih hids.2 hi]

variable {entry' : DemandSession}

theorem Polled.idle_cancel (h : Polled d) (hlookup : d.sessions.lookup key = some entry)
    (hstop : entry'.stop = entry.stop) : Idle (d.cancelPoll entry') key := by
  obtain ⟨t, hfilter, hid⟩ := h.one key entry hlookup
  have hmem : t ∈ d.timers.filter (·.captured key entry) := by
    rw [hfilter]
    exact mem_singleton_self t
  have ht := mem_filter.mp hmem
  have hcancel : d.cancelPoll entry' =
      { d with timers := d.timers.filter fun u => u.id ≠ t.id ∨ u.running } := by
    unfold Demand.cancelPoll
    rw [hstop, hid]
  rw [hcancel]
  refine ⟨h.fresh.filter _ rfl rfl ⟨rfl, rfl⟩, ?_, ?_⟩
  · intro k e hk he
    refine (h.one k e he).filter hk _ rfl fun u hu hremoved => ?_
    have hsame : u.id = t.id := by
      simp only [ne_eq, decide_eq_false_iff_not, not_or, not_not] at hremoved
      exact hremoved.1
    rw [h.fresh.eq_of_id hu ht.1 hsame]
    exact (captured_iff.mp ht.2).1
  · intro u hu hor
    obtain ⟨hu, hleft⟩ := mem_filter.mp hu
    rcases hor with hkey | hnot
    · by_cases hcap : u.captured key entry = true
      · have hmem : u ∈ d.timers.filter (·.captured key entry) := mem_filter.mpr ⟨hu, hcap⟩
        rw [hfilter, mem_singleton] at hmem
        subst hmem
        simpa using hleft
      · exact h.running_of_not_captured hlookup hu hkey (by simpa using hcap)
    · exact h.late u hu hnot

theorem Polled.idle_poll (h : Polled d) (hi : d.timers[i]? = some t)
    (hlookup : d.sessions.lookup t.key = some entry) (hptr : entry.ptr = t.entry) :
    Idle { d with timers := d.timers.eraseIdx i } t.key ∧
      ∀ u ∈ d.timers.eraseIdx i, u.key = t.key → u.entry ≠ entry.ptr := by
  have ht : t ∈ d.timers := mem_of_getElem? hi
  have hcap : t.captured t.key entry = true := captured_iff.mpr ⟨rfl, hptr.symm⟩
  obtain ⟨t', hfilter, -⟩ := h.one t.key entry hlookup
  have hself : t ∈ d.timers.filter (·.captured t.key entry) := mem_filter.mpr ⟨ht, hcap⟩
  rw [hfilter, mem_singleton] at hself
  subst hself
  rw [eraseIdx_eq_filter h.fresh.ids hi]
  have hgone : ∀ u ∈ d.timers.filter (fun u => u.id ≠ t.id), u.captured t.key entry = false := by
    intro u hu
    obtain ⟨hu, hne⟩ := mem_filter.mp hu
    by_contra hucap
    have hmem : u ∈ d.timers.filter (·.captured t.key entry) :=
      mem_filter.mpr ⟨hu, by simpa using hucap⟩
    rw [hfilter, mem_singleton] at hmem
    subst hmem
    simp at hne
  refine ⟨⟨h.fresh.filter _ rfl rfl ⟨rfl, rfl⟩, ?_, ?_⟩, ?_⟩
  · intro k e hk he
    refine (h.one k e he).filter hk _ rfl fun u hu hremoved => ?_
    have hsame : u.id = t.id := by simpa using hremoved
    rw [h.fresh.eq_of_id hu ht hsame]
  · intro u hu hor
    rcases hor with hkey | hnot
    · exact h.running_of_not_captured hlookup (mem_filter.mp hu).1 hkey (hgone u hu)
    · exact h.late u (mem_filter.mp hu).1 hnot
  · intro u hu hkey hentry
    have := hgone u hu
    rw [captured_iff.mpr ⟨hkey, hentry⟩] at this
    cases this

/-! ## Out of a section -/

theorem Idle.frame (h : Idle d key) (htimers : d'.timers = d.timers) (hptr : d.nextPtr ≤ d'.nextPtr)
    (hnext : d'.nextTimer = d.nextTimer)
    (hothers : ∀ k, k ≠ key → d'.sessions.lookup k = d.sessions.lookup k)
    (hself : ∀ entry, d'.sessions.lookup key = some entry → entry.ptr < d'.nextPtr) :
    Idle d' key := by
  refine ⟨⟨?_, ?_, ?_⟩, ?_, ?_⟩
  · rw [htimers]
    exact h.fresh.ids
  · intro t ht
    rw [htimers] at ht
    obtain ⟨hid, hentry⟩ := h.fresh.timers t ht
    exact ⟨hnext ▸ hid, Nat.lt_of_lt_of_le hentry hptr⟩
  · intro k entry hlookup
    by_cases hk : k = key
    · subst hk
      exact hself entry hlookup
    · rw [hothers k hk] at hlookup
      exact Nat.lt_of_lt_of_le (h.fresh.entries k entry hlookup) hptr
  · intro k entry hk hlookup
    rw [hothers k hk] at hlookup
    unfold Chained
    rw [htimers]
    exact h.one k entry hk hlookup
  · intro t ht hor
    rw [htimers] at ht
    refine h.late t ht ?_
    by_cases hk : t.key = key
    · exact .inl hk
    · refine .inr fun hcurrent => ?_
      obtain ⟨entry, hlookup, hptr'⟩ := hcurrent
      refine (hor.resolve_left hk) ⟨entry, ?_, hptr'⟩
      rw [hothers t.key hk]
      exact hlookup

theorem Idle.erase (h : Idle d key) (htimers : d'.timers = d.timers)
    (hsessions : d'.sessions = d.sessions.erase key)
    (hnext : d'.nextTimer = d.nextTimer ∧ d'.nextPtr = d.nextPtr) : Polled d' := by
  have hnone : d'.sessions.lookup key = none := by rw [hsessions, Finmap.lookup_erase]
  have h' : Idle d' key := by
    refine h.frame htimers (Nat.le_of_eq hnext.2.symm) hnext.1 ?_ ?_
    · intro k hk
      rw [hsessions, Finmap.lookup_erase_ne hk]
    · intro entry hlookup
      cases hnone.symm.trans hlookup
  refine ⟨h'.fresh, ?_, fun t ht hnot => h'.late t ht (.inr hnot)⟩
  intro k entry hlookup
  by_cases hk : k = key
  · rw [hk, hnone] at hlookup
    cases hlookup
  · exact h'.one k entry hk hlookup

theorem Idle.schedule (h : Idle d key) (cfg : DemandConfig) (hptr : entry.ptr < d.nextPtr)
    (hnew : ∀ t ∈ d.timers, t.key = key → t.entry ≠ entry.ptr) :
    Polled (d.scheduleLocked cfg key entry) := by
  have hlookup := scheduleLocked_lookup cfg d key entry
  obtain ⟨interval, htimers⟩ : ∃ interval, (d.scheduleLocked cfg key entry).timers =
      d.timers ++ [{ id := d.nextTimer, key := key, entry := entry.ptr, interval := interval }] :=
    ⟨_, rfl⟩
  refine ⟨⟨?_, ?_, ?_⟩, ?_, ?_⟩
  · rw [htimers, map_append, nodup_append]
    refine ⟨h.fresh.ids, by simp, ?_⟩
    rintro id hid id' hid' rfl
    obtain ⟨t, ht, rfl⟩ := mem_map.mp hid
    have := (h.fresh.timers t ht).1
    simp only [map_cons, map_nil, mem_singleton] at hid'
    omega
  · intro t ht
    rw [htimers, mem_append, mem_singleton] at ht
    change t.id < d.nextTimer + 1 ∧ t.entry < d.nextPtr
    rcases ht with ht | rfl
    · obtain ⟨hid, hentry⟩ := h.fresh.timers t ht
      exact ⟨by omega, hentry⟩
    · exact ⟨Nat.lt_succ_self _, hptr⟩
  · intro k e he
    rw [hlookup] at he
    split at he
    · cases he
      exact hptr
    · exact h.fresh.entries k e he
  · intro k e he
    rw [hlookup] at he
    unfold Chained
    rw [htimers, filter_append]
    by_cases hk : k = key
    · -- the timer just armed is the only one that captured the entry
      subst hk
      rw [if_pos rfl] at he
      cases he
      refine ⟨{ id := d.nextTimer, key := k, entry := entry.ptr, interval := interval }, ?_, rfl⟩
      rw [filter_eq_nil_iff.mpr]
      · rw [nil_append, filter_cons_of_pos, filter_nil]
        exact captured_iff.mpr ⟨rfl, rfl⟩
      · intro t ht hcap
        obtain ⟨hkey, hentry⟩ := captured_iff.mp hcap
        exact hnew t ht hkey hentry
    · rw [if_neg hk] at he
      obtain ⟨t, hfilter, hstop⟩ := h.one k e hk he
      refine ⟨t, ?_, hstop⟩
      rw [hfilter, filter_cons_of_neg, filter_nil, append_nil]
      intro hcap
      exact hk (captured_iff.mp hcap).1.symm
  · intro t ht hnot
    rw [htimers, mem_append, mem_singleton] at ht
    rcases ht with ht | rfl
    · refine h.late t ht ?_
      by_cases hk : t.key = key
      · exact .inl hk
      · refine .inr fun hcurrent => hnot ?_
        obtain ⟨e, he, hptr'⟩ := hcurrent
        exact ⟨e, by rw [hlookup, if_neg hk, he], hptr'⟩
    · refine absurd ⟨{ entry with stop := some d.nextTimer }, ?_, rfl⟩ hnot
      rw [hlookup, if_pos rfl]

theorem Idle.schedule_new (h : Idle d key) (hsessions : d'.sessions = d.sessions.insert key entry)
    (hentry : entry.ptr = d.nextPtr) (hentry' : entry'.ptr = d.nextPtr)
    (htimers : d'.timers = d.timers) (hnext : d'.nextTimer = d.nextTimer)
    (hptr : d'.nextPtr = d.nextPtr + 1) (cfg : DemandConfig) :
    Polled (d'.scheduleLocked cfg key entry') := by
  have hidle : Idle d' key := by
    refine h.frame htimers (by omega) hnext ?_ ?_
    · intro k hk
      rw [hsessions, Finmap.lookup_insert_of_ne _ hk]
    · intro e he
      rw [hsessions, Finmap.lookup_insert, Option.some.injEq] at he
      rw [← he]
      omega
  refine hidle.schedule cfg (by omega) fun t ht _ hcaptured => ?_
  rw [htimers] at ht
  have := (h.fresh.timers t ht).2
  omega

section

variable (h : Polled d) (hlookup : d.sessions.lookup key = some entry)
include h hlookup

theorem Polled.reschedule (hstop : entry'.stop = entry.stop) (cfg : DemandConfig) :
    Polled (d.rescheduleLocked cfg key entry') := by
  refine (h.idle_cancel hlookup hstop).schedule_new rfl ?_ ?_ ?_ ?_ ?_ cfg <;> rfl

theorem Polled.teardown (hstop : entry'.stop = entry.stop) (cfg : DemandConfig) (give : Give) :
    Polled (d.teardownLocked cfg key entry' give).1 := by
  have hidle := h.idle_cancel hlookup hstop
  unfold Demand.teardownLocked
  split
  · exact hidle.erase rfl rfl ⟨rfl, rfl⟩
  · exact hidle.erase rfl rfl ⟨rfl, rfl⟩

theorem Polled.store (hptr : entry'.ptr = entry.ptr) (hstop : entry'.stop = entry.stop) :
    Polled (d.store key entry') := by
  have hold : ∀ k e, (d.store key entry').sessions.lookup k = some e →
      ∃ e', d.sessions.lookup k = some e' ∧ e.ptr = e'.ptr ∧ e.stop = e'.stop := by
    intro k e he
    by_cases hk : k = key
    · subst hk
      rw [Demand.store, Finmap.lookup_insert, Option.some.injEq] at he
      subst he
      exact ⟨entry, hlookup, hptr, hstop⟩
    · rw [Demand.store, Finmap.lookup_insert_of_ne _ hk] at he
      exact ⟨e, he, rfl, rfl⟩
  refine ⟨⟨h.fresh.ids, h.fresh.timers, ?_⟩, ?_, ?_⟩
  · intro k e he
    obtain ⟨e', he', hp, -⟩ := hold k e he
    rw [hp]
    exact h.fresh.entries k e' he'
  · intro k e he
    obtain ⟨e', he', hp, hs⟩ := hold k e he
    obtain ⟨t, hfilter, hid⟩ := h.one k e' he'
    refine ⟨t, ?_, hs.trans hid⟩
    unfold Timer.captured at hfilter ⊢
    rw [hp]
    exact hfilter
  · intro t ht hnot
    refine h.late t ht fun hcurrent => hnot ?_
    obtain ⟨e, he, hp⟩ := hcurrent
    by_cases hk : t.key = key
    · rw [hk, hlookup, Option.some.injEq] at he
      subst he
      exact ⟨entry', by rw [hk]; exact Finmap.lookup_insert _, hptr.trans hp⟩
    · exact ⟨e, by rw [← he]; exact Finmap.lookup_insert_of_ne _ hk, hp⟩

end

/-! ## Operations -/

theorem poll_superseded (cfg : DemandConfig) {scheduled : Nat} (refresh : Refresh) (serve : Serve)
    (hnot : ∀ entry, d.sessions.lookup key = some entry → entry.ptr ≠ scheduled) :
    d.poll cfg key scheduled refresh serve = d := by
  unfold Demand.poll
  split
  · rfl
  · rename_i entry hlookup
    rw [if_pos (hnot entry hlookup)]

section

variable (h : Polled d) (cfg : DemandConfig) (key : SessionKey)
include h

theorem Polled.acquire (serve : Serve) : Polled (d.acquire cfg key serve).1 := by
  unfold Demand.acquire
  split
  · exact h
  · dsimp only
    have h' : Polled { d with acquired := Function.update d.acquired key (d.acquired key + 1) } :=
      ⟨⟨h.fresh.ids, h.fresh.timers, h.fresh.entries⟩, h.one, h.late⟩
    split
    · rename_i entry hlookup
      exact h'.store hlookup rfl rfl
    · rename_i hnone
      refine (h'.idle_of_unwatched hnone).schedule_new rfl ?_ ?_ ?_ ?_ ?_ cfg <;> rfl

theorem Polled.release (give : Give) : Polled (d.release cfg key give).1 := by
  unfold Demand.release
  split
  · exact h
  · split
    · exact h
    · rename_i entry hlookup
      split
      · exact h
      · dsimp only
        have h' : Polled
            { d with released := Function.update d.released key (d.released key + 1) } :=
          ⟨⟨h.fresh.ids, h.fresh.timers, h.fresh.entries⟩, h.one, h.late⟩
        split
        · exact h'.store hlookup rfl rfl
        · exact h'.teardown hlookup rfl cfg give

theorem Polled.rebind (ctx : Expiry) (give : Give) (serve : Serve) :
    Polled (d.rebind cfg key ctx give serve).1 := by
  have hbelow : ∀ w : Below, Polled { d with below := w } := fun w =>
    ⟨⟨h.fresh.ids, h.fresh.timers, h.fresh.entries⟩, h.one, h.late⟩
  unfold Demand.rebind
  split
  · exact h
  · split
    · exact h
    · split
      · exact h
      · rename_i entry hlookup
        have hnext : ∀ (w : Below) (entry' : DemandSession), entry'.stop = entry.stop →
            Polled (({ d with below := w } : Demand).rescheduleLocked cfg key entry') :=
          fun w entry' hstop => (hbelow w).reschedule hlookup hstop cfg
        split
        · dsimp only
          split
          · exact hnext _ _ rfl
          · exact hnext _ _ rfl
        · exact hnext _ _ rfl

end

theorem Polled.poll (h : Polled d) (cfg : DemandConfig) (hi : d.timers[i]? = some t)
    (refresh : Refresh) (serve : Serve) :
    Polled (({ d with timers := d.timers.eraseIdx i } : Demand).poll cfg t.key t.entry refresh
      serve) := by
  by_cases hcurrent : d.Current t
  · obtain ⟨entry, hlookup, hptr⟩ := hcurrent
    obtain ⟨hidle, hnew⟩ := h.idle_poll hi hlookup hptr
    unfold Demand.poll
    rw [show ({ d with timers := d.timers.eraseIdx i } : Demand).sessions.lookup t.key =
      some entry from hlookup]
    dsimp only
    rw [if_neg (not_not.mpr hptr)]
    have hbelow : ∀ w : Below,
        Idle ({ d with timers := d.timers.eraseIdx i, below := w } : Demand) t.key := fun w =>
      ⟨⟨hidle.fresh.ids, hidle.fresh.timers, hidle.fresh.entries⟩, hidle.one, hidle.late⟩
    exact (hbelow _).schedule cfg (h.fresh.entries t.key entry hlookup) hnew
  · have hsame : ({ d with timers := d.timers.eraseIdx i } : Demand).poll cfg t.key t.entry refresh
        serve = { d with timers := d.timers.eraseIdx i } :=
      poll_superseded cfg refresh serve fun entry hlookup hptr => hcurrent ⟨entry, hlookup, hptr⟩
    rw [hsame, eraseIdx_eq_filter h.fresh.ids hi]
    refine ⟨h.fresh.filter _ rfl rfl ⟨rfl, rfl⟩, ?_, ?_⟩
    · intro k entry hlookup
      obtain ⟨u, hfilter, hstop⟩ := h.one k entry hlookup
      refine ⟨u, ?_, hstop⟩
      rw [filter_filter, ← hfilter]
      refine filter_congr fun v hv => ?_
      by_cases hcap : v.captured k entry = true
      · have hne : v.id ≠ t.id := by
          intro hid
          obtain ⟨hkey, hentry⟩ := captured_iff.mp hcap
          rw [h.fresh.eq_of_id hv (mem_of_getElem? hi) hid] at hkey hentry
          exact hcurrent ⟨entry, by rw [hkey, hlookup], hentry.symm⟩
        simp [hcap, hne]
      · simp [hcap]
    · intro u hu hnot
      exact h.late u (mem_filter.mp hu).1 hnot

/-- The timers once the callback of one of them has started. -/
def Timer.started (id : Nat) (t : Timer) : Timer :=
  if t.id = id then { t with running := true } else t

theorem started_same (id : Nat) (t : Timer) :
    (t.started id).id = t.id ∧ (t.started id).key = t.key ∧ (t.started id).entry = t.entry := by
  unfold Timer.started
  split <;> exact ⟨rfl, rfl, rfl⟩

theorem set_eq_map_started {timers : List Timer} (hids : (timers.map (·.id)).Nodup)
    (hi : timers[i]? = some t) :
    timers.set i { t with running := true } = timers.map (Timer.started t.id) := by
  induction timers generalizing i with
  | nil => simp at hi
  | cons u rest ih =>
    rw [map_cons, nodup_cons] at hids
    cases i with
    | zero =>
      simp only [getElem?_cons_zero, Option.some.injEq] at hi
      subst hi
      have hrest : rest.map (Timer.started u.id) = rest := by
        refine (map_congr_left fun v hv => ?_).trans (map_id _)
        have hne : v.id ≠ u.id := fun heq => hids.1 (heq ▸ mem_map_of_mem hv)
        rw [Timer.started, if_neg hne]
        rfl
      rw [set_cons_zero, map_cons, hrest, Timer.started, if_pos rfl]
    | succ i =>
      have hne : u.id ≠ t.id := by
        intro heq
        exact hids.1 (heq ▸ mem_map_of_mem (mem_of_getElem? hi))
      rw [set_cons_succ, map_cons, ih hids.2 hi, Timer.started, if_neg hne]

theorem Polled.fire (h : Polled d) (hi : d.timers[i]? = some t) :
    Polled { d with timers := d.timers.set i { t with running := true } } := by
  rw [set_eq_map_started h.fresh.ids hi]
  refine ⟨⟨?_, ?_, h.fresh.entries⟩, ?_, ?_⟩
  · have hids : (d.timers.map (Timer.started t.id)).map (·.id) = d.timers.map (·.id) := by
      rw [map_map]
      exact map_congr_left fun u _ => (started_same t.id u).1
    rw [hids]
    exact h.fresh.ids
  · intro u hu
    obtain ⟨v, hv, rfl⟩ := mem_map.mp hu
    obtain ⟨hid, -, hentry⟩ := started_same t.id v
    rw [hid, hentry]
    exact h.fresh.timers v hv
  · intro k entry hlookup
    obtain ⟨u, hfilter, hstop⟩ := h.one k entry hlookup
    refine ⟨u.started t.id, ?_, hstop.trans (congrArg some (started_same t.id u).1.symm)⟩
    rw [filter_map]
    have hcomp : ((·.captured k entry) ∘ Timer.started t.id : Timer → Bool) =
        (·.captured k entry) := by
      funext v
      obtain ⟨-, hkey, hentry⟩ := started_same t.id v
      rw [Function.comp, Timer.captured, hkey, hentry, Timer.captured]
    rw [hcomp, hfilter, map_singleton]
  · intro u hu hnot
    obtain ⟨v, hv, rfl⟩ := mem_map.mp hu
    obtain ⟨-, hkey, hentry⟩ := started_same t.id v
    have hrunning := h.late v hv fun hcurrent => hnot (by
      obtain ⟨entry, hlookup, hptr⟩ := hcurrent
      exact ⟨entry, by rw [hkey]; exact hlookup, hptr.trans hentry.symm⟩)
    unfold Timer.started
    split
    · rfl
    · exact hrunning

theorem Polled.closeLoop (h : Polled d) (cfg : DemandConfig) (give : SessionKey → Give)
    (order : List SessionKey) (failures : List RouteError) :
    Polled (Demand.closeLoop cfg give order d failures).1 := by
  induction order generalizing d failures with
  | nil => exact h
  | cons key rest ih =>
    rw [Demand.closeLoop]
    split
    · exact ih h failures
    · rename_i entry hlookup
      have htorn := h.teardown hlookup rfl cfg (give key)
      generalize d.teardownLocked cfg key entry (give key) = torn at htorn
      obtain ⟨d', result⟩ := torn
      dsimp only at htorn ⊢
      split
      · exact ih htorn _
      · exact ih htorn _

theorem Polled.step {cfg : DemandConfig} {act : Act} (hstep : d.step cfg act = some d')
    (h : Polled d) : Polled d' := by
  have hbelow : ∀ w : Below, Polled { d with below := w } := fun w =>
    ⟨⟨h.fresh.ids, h.fresh.timers, h.fresh.entries⟩, h.one, h.late⟩
  cases act with
  | acquire key serve =>
    cases hstep
    exact h.acquire cfg key serve
  | release key give =>
    cases hstep
    exact h.release cfg key give
  | rebind key ctx give serve =>
    cases hstep
    exact h.rebind cfg key ctx give serve
  | close order give =>
    obtain ⟨-, ⟨⟩⟩ := Option.ite_none_right_eq_some.mp hstep
    have hclosing : Polled { d with closed := true } :=
      ⟨⟨h.fresh.ids, h.fresh.timers, h.fresh.entries⟩, h.one, h.late⟩
    exact hclosing.closeLoop cfg give order []
  | fire i =>
    simp only [Demand.step] at hstep
    split at hstep
    · cases hstep
    · rename_i t hi
      split at hstep
      · cases hstep
      · cases hstep
        exact h.fire hi
  | poll i refresh serve =>
    simp only [Demand.step] at hstep
    split at hstep
    · cases hstep
    · rename_i t hi
      split at hstep
      · cases hstep
        exact h.poll cfg hi refresh serve
      · cases hstep
  | push p =>
    cases hstep
    exact hbelow _
  | closeTable order seams =>
    obtain ⟨-, hstep⟩ := Option.ite_none_right_eq_some.mp hstep
    obtain ⟨routed, -, rfl⟩ := Option.map_eq_some_iff.mp hstep
    exact hbelow _

/-- In every run of the plane, between two critical sections: a watched session has exactly
one outstanding timer that captured its current entry; every other outstanding callback has
started already, and returns without touching anything but its own timer; and a session
without an entry, as every session of a closed plane is, has only such callbacks. -/
theorem Demand.one_poll_chain (cfg : DemandConfig) {acts : List Act} {d : Demand}
    (hrun : Runs.exec (Demand.step cfg) {} acts = some d) :
    (∀ key entry, d.sessions.lookup key = some entry →
      ∃ t, d.timers.filter (fun t => t.key = key ∧ t.entry = entry.ptr) = [t]) ∧
    (∀ i t refresh serve, d.timers[i]? = some t →
      (∀ entry, d.sessions.lookup t.key = some entry → entry.ptr ≠ t.entry) →
        t.running = true ∧
          d.step cfg (.poll i refresh serve) = some { d with timers := d.timers.eraseIdx i }) ∧
    (∀ key, d.closed = true ∨ d.released key = d.acquired key →
      d.sessions.lookup key = none ∧ ∀ i t refresh serve, d.timers[i]? = some t → t.key = key →
        t.running = true ∧
          d.step cfg (.poll i refresh serve) = some { d with timers := d.timers.eraseIdx i }) := by
  have hpolled : Polled d :=
    Runs.exec_invariant (fun _ _ _ hstep => Polled.step hstep) hrun polled_init
  have hinv : d.Inv :=
    Runs.exec_invariant (fun _ _ _ hstep => Demand.Inv.step hstep) hrun demand_init
  have hsuperseded : ∀ i t refresh serve, d.timers[i]? = some t →
      (∀ entry, d.sessions.lookup t.key = some entry → entry.ptr ≠ t.entry) →
        t.running = true ∧
          d.step cfg (.poll i refresh serve) = some { d with timers := d.timers.eraseIdx i } := by
    intro i t refresh serve hi hnot
    have hrunning : t.running = true := by
      refine hpolled.late t (mem_of_getElem? hi) ?_
      rintro ⟨entry, hlookup, hptr⟩
      exact hnot entry hlookup hptr
    refine ⟨hrunning, ?_⟩
    simp only [Demand.step, hi, hrunning, if_true, Option.some.injEq]
    exact poll_superseded cfg refresh serve hnot
  refine ⟨?_, hsuperseded, ?_⟩
  · intro key entry hlookup
    obtain ⟨t, hfilter, -⟩ := hpolled.one key entry hlookup
    exact ⟨t, hfilter⟩
  · intro key hgone
    have hnone : d.sessions.lookup key = none := by
      cases hclosed : d.closed with
      | true => exact (hinv.ended hclosed).emptied key
      | false =>
        have hlive := hinv.live hclosed
        have hcount := hlive.counted key
        cases hlookup : d.sessions.lookup key with
        | none => rfl
        | some entry =>
          have := hlive.subscribers key entry hlookup
          rw [Demand.watching_of_lookup hlookup] at hcount
          rcases hgone with hclosed' | hreleased
          · cases hclosed.symm.trans hclosed'
          · omega
    refine ⟨hnone, fun i t refresh serve hi hkey => hsuperseded i t refresh serve hi ?_⟩
    intro entry hlookup
    rw [hkey, hnone] at hlookup
    cases hlookup

/-- A poll that finds the owner gone. -/
def goneRefresh : Refresh :=
  { owner := .ok none, observe := ownedSeams, give := { seams := ownedSeams } }

/-- A callback starts, a rebind replaces the entry behind it, and the callback gets the lock. -/
theorem one_poll_chain_racedRebind :
    ∃ d, Runs.exec (Demand.step plainPlane) {}
        [.acquire ⟨"t", "s"⟩ { seams := ownedSeams }, .fire 0,
          .rebind ⟨"t", "s"⟩ .never { seams := ownedSeams } { seams := ownedSeams }] = some d ∧
      d.timers.length = 2 ∧
      d.step plainPlane (.poll 0 goneRefresh { seams := ownedSeams }) =
        some { d with timers := d.timers.eraseIdx 0 } := by
  obtain ⟨d, hrun, hlength, hstale⟩ : ∃ d, Runs.exec (Demand.step plainPlane) {}
      [.acquire ⟨"t", "s"⟩ { seams := ownedSeams }, .fire 0,
        .rebind ⟨"t", "s"⟩ .never { seams := ownedSeams } { seams := ownedSeams }] = some d ∧
      d.timers.length = 2 ∧
      ∃ t entry, d.timers[0]? = some t ∧ d.sessions.lookup t.key = some entry ∧
        entry.ptr ≠ t.entry :=
    ⟨_, rfl, by decide +kernel, _, _, rfl, rfl, by decide +kernel⟩
  obtain ⟨t, entry, hi, hlookup, hne⟩ := hstale
  refine ⟨d, hrun, hlength, ((Demand.one_poll_chain plainPlane hrun).2.1 0 t _ _ hi ?_).2⟩
  intro entry' hlookup'
  rw [hlookup, Option.some.injEq] at hlookup'
  exact hlookup' ▸ hne

end Factory.Routing
