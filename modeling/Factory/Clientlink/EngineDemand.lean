import Factory.Clientlink.Engine
import Mathlib.Data.List.Count
import Mathlib.Logic.Relation

/-!
# What the ClientLink edge holds of the demand plane

Every operation is a few moves (`Move`): an entry is made by a successful `Acquire`, counts one
binding more or less, is scheduled to be given back when it counts none, and is given back by a
timer of its own generation or a flush. What the moves keep (`Engine.Inv`) gives the accounts of
every run (`demand_accounts`): one unit of demand for each entry and none besides, an entry's
count that of the handles not released, and no effect of a handle's second call or of a callback
that was superseded.
-/

namespace Factory.Clientlink

open List Runs

/-! ## Counts -/

/-- A successful `Acquire` of the key. -/
def DemandCall.acquires (key : SessionKey) : DemandCall → Bool
  | .acquire k ok => k = key && ok
  | .release _ _ => false

def DemandCall.releases (key : SessionKey) : DemandCall → Bool
  | .acquire _ _ => false
  | .release k _ => k = key

/-- The handle is one of the key that was not called. -/
def Handle.holds (key : SessionKey) (h : Handle) : Bool := h.key = key && !h.released

/-- The handles of the key not released. -/
def Engine.unreleased (e : Engine) (key : SessionKey) : Nat := e.handles.countP (Handle.holds key)

/-- What the table, the handles and the calls say of a key. -/
def Engine.of (e : Engine) (key : SessionKey) : Option DemandEntry × Nat × Nat × Nat :=
  (e.demand.lookup key, e.unreleased key, e.log.countP (DemandCall.acquires key),
    e.log.countP (DemandCall.releases key))

/-! ## Moves -/

/-- A timer's identity and what its callback captured. -/
def Timer.captured (t : Timer) : Nat × SessionKey × Nat × Nat :=
  (t.id, t.key, t.entry, t.generation)

/-- The timer is outstanding and was armed for the entry as it is. -/
structure Timer.Schedules (t : Timer) (timers : List Timer) (key : SessionKey)
    (scheduled : DemandEntry) : Prop where
  outstanding : t ∈ timers
  stop : scheduled.stop = some t.id
  key : t.key = key
  entry : t.entry = scheduled.ptr
  generation : t.generation = scheduled.generation

/-- A scheduled release is that of an outstanding timer armed for the entry. -/
def Armed (timers : List Timer) (key : SessionKey) (entry : DemandEntry) : Prop :=
  entry.stop ≠ none → ∃ t : Timer, t.Schedules timers key entry

/-- The timers are some of the engine's, with those its entries are scheduled by, but for the entry
of a key. -/
structure Fewer (e : Engine) (but : Option SessionKey) (timers : List Timer) : Prop where
  sublist : (timers.map Timer.captured).Sublist (e.timers.map Timer.captured)
  kept : ∀ key entry (t : Timer), but ≠ some key → e.demand.lookup key = some entry →
    t.Schedules e.timers key entry → t.captured ∈ timers.map Timer.captured

theorem Fewer.of_sublist {e : Engine} {but : Option SessionKey} {timers : List Timer}
    (h : timers.Sublist e.timers) (hkept : ∀ key entry (t : Timer), but ≠ some key →
      e.demand.lookup key = some entry → t.Schedules e.timers key entry → t ∈ timers) :
    Fewer e but timers where
  sublist := h.map Timer.captured
  kept key entry t hbut hlookup ht := mem_map_of_mem (hkept key entry t hbut hlookup ht)

theorem Fewer.rfl (e : Engine) (but : Option SessionKey) : Fewer e but e.timers :=
  .of_sublist (.refl _) fun _ _ _ _ _ ht => ht.outstanding

theorem Fewer.armed {e : Engine} {but : Option SessionKey} {timers : List Timer}
    (h : Fewer e but timers) {key : SessionKey} {entry : DemandEntry} (hbut : but ≠ some key)
    (hlookup : e.demand.lookup key = some entry) (harmed : Armed e.timers key entry) :
    Armed timers key entry := by
  intro hstop
  obtain ⟨t, ht⟩ := harmed hstop
  obtain ⟨t', ht', hsame⟩ := mem_map.mp (h.kept key entry t hbut hlookup ht)
  simp only [Timer.captured, Prod.mk.injEq] at hsame
  obtain ⟨hid, hkey, hentry, hgeneration⟩ := hsame
  exact ⟨t', ht', hid ▸ ht.stop, hkey.trans ht.key, hentry.trans ht.entry,
    hgeneration.trans ht.generation⟩

/-- The entry after a binding more: a scheduled release is superseded. -/
def DemandEntry.again (entry : DemandEntry) : DemandEntry :=
  match entry.stop with
  | none => { entry with bindings := entry.bindings + 1 }
  | some _ =>
    { entry with
      bindings := entry.bindings + 1, stop := none, generation := entry.generation + 1 }

/-- The first binding of a key. -/
def Engine.boundFirst (e : Engine) (key : SessionKey) : Engine :=
  { e with
    demand := e.demand.insert key { ptr := e.nextPtr, bindings := 1 }
    nextPtr := e.nextPtr + 1
    handles := e.handles ++ [{ key := key }]
    log := e.log ++ [.acquire key true] }

/-- A binding more of a key, with the timers left. -/
def Engine.boundAgain (e : Engine) (key : SessionKey) (entry : DemandEntry) (timers : List Timer) :
    Engine :=
  { e with
    demand := e.demand.insert key entry.again
    timers := timers
    handles := e.handles ++ [{ key := key }] }

inductive Move (e : Engine) : Engine → Prop where
  | idle {timers : List Timer} (htimers : Fewer e none timers) : Move e { e with timers := timers }
  | refused (key : SessionKey) : Move e { e with log := e.log ++ [.acquire key false] }
  | first {key : SessionKey} (hfree : e.demand.lookup key = none) : Move e (e.boundFirst key)
  | again {key : SessionKey} {entry : DemandEntry} {timers : List Timer}
      (hlookup : e.demand.lookup key = some entry) (htimers : Fewer e (some key) timers) :
      Move e (e.boundAgain key entry timers)
  | fewer {i : Nat} {handle : Handle} {entry : DemandEntry} (hi : e.handles[i]? = some handle)
      (hheld : handle.released = false) (hlookup : e.demand.lookup handle.key = some entry)
      (hmore : 1 < entry.bindings) :
      Move e
        { e with
          demand := e.demand.insert handle.key { entry with bindings := entry.bindings - 1 }
          handles := e.handles.set i { handle with released := true } }
  | last {i : Nat} {handle : Handle} {entry : DemandEntry} (hi : e.handles[i]? = some handle)
      (hheld : handle.released = false) (hlookup : e.demand.lookup handle.key = some entry)
      (hone : entry.bindings = 1) :
      Move e
        { e with
          demand := e.demand.insert handle.key
            { entry with bindings := 0, stop := some e.nextTimer }
          timers := e.timers ++ [⟨e.nextTimer, handle.key, entry.ptr, entry.generation, false⟩]
          nextTimer := e.nextTimer + 1
          handles := e.handles.set i { handle with released := true } }
  | giveBack {key : SessionKey} {entry : DemandEntry} {timers : List Timer} (ok : Bool)
      (hlookup : e.demand.lookup key = some entry) (hnone : entry.bindings = 0)
      (htimers : Fewer e (some key) timers) :
      Move e
        { e with
          demand := e.demand.erase key
          timers := timers
          log := e.log ++ [.release key ok] }

/-! ## The invariant -/

/-- What holds of an entry of the table. -/
structure Engine.EntryOk (e : Engine) (key : SessionKey) (entry : DemandEntry) : Prop where
  bindings : entry.bindings = e.unreleased key
  scheduled : entry.stop ≠ none ↔ entry.bindings = 0
  ptr : entry.ptr < e.nextPtr
  balance : e.log.countP (DemandCall.acquires key) = e.log.countP (DemandCall.releases key) + 1

/-- A timer is the one its entry is scheduled by, or was superseded. -/
structure Engine.TimerOk (e : Engine) (t : Timer) : Prop where
  ptr : t.entry < e.nextPtr
  id : t.id < e.nextTimer
  entry : ∀ entry, e.demand.lookup t.key = some entry → entry.ptr = t.entry →
    t.generation ≤ entry.generation ∧ (t.generation = entry.generation → entry.stop = some t.id)

/-- The timers are told apart by their identities, and every scheduled release is one of theirs. -/
structure Engine.TimersOk (e : Engine) : Prop where
  timer : ∀ t ∈ e.timers, e.TimerOk t
  ids : (e.timers.map Timer.id).Nodup
  armed : ∀ key entry, e.demand.lookup key = some entry → Armed e.timers key entry

structure Engine.Inv (e : Engine) : Prop extends e.TimersOk where
  held : ∀ key entry, e.demand.lookup key = some entry → e.EntryOk key entry
  free : ∀ key, e.demand.lookup key = none → e.unreleased key = 0 ∧
    e.log.countP (DemandCall.acquires key) = e.log.countP (DemandCall.releases key)

theorem Engine.inv_init : ({} : Engine).Inv where
  held key entry h := by simp at h
  free key _ := ⟨rfl, rfl⟩
  timer t h := by cases h
  ids := nodup_nil
  armed key entry h := by simp at h

variable {i : Nat} {new : DemandEntry}

theorem unreleased_set {handles : List Handle} {handle : Handle} (hi : handles[i]? = some handle)
    (hheld : handle.released = false) (k : SessionKey) :
    (handles.set i { handle with released := true }).countP (Handle.holds k) +
      (if handle.key = k then 1 else 0) = handles.countP (Handle.holds k) := by
  induction handles generalizing i with
  | nil => cases hi
  | cons h rest ih =>
    cases i with
    | zero =>
      cases hi
      by_cases hk : handle.key = k
      · simp [Handle.holds, hk, hheld]
      · simp [Handle.holds, hk]
    | succ i =>
      have := ih hi
      simp only [set_cons_succ, countP_cons]
      omega

variable {e e' : Engine} {key : SessionKey} {entry : DemandEntry}

theorem Engine.Inv.touch (h : e.Inv) (key : SessionKey) (hof : ∀ k, k ≠ key → e'.of k = e.of k)
    (hptr : e.nextPtr ≤ e'.nextPtr)
    (hheld : ∀ entry, e'.demand.lookup key = some entry → e'.EntryOk key entry)
    (hfree : e'.demand.lookup key = none → e'.unreleased key = 0 ∧ e'.log.countP
      (DemandCall.acquires key) = e'.log.countP (DemandCall.releases key))
    (htimers : e'.TimersOk) : e'.Inv := by
  simp only [Engine.of, Prod.mk.injEq] at hof
  refine ⟨htimers, fun k entry hk => ?_, fun k hk => ?_⟩
  · by_cases heq : k = key
    · subst heq
      exact hheld entry hk
    · obtain ⟨hlookup, hunreleased, hacquires, hreleases⟩ := hof k heq
      have hok := h.held k entry (hlookup ▸ hk)
      exact ⟨hok.bindings.trans hunreleased.symm, hok.scheduled, Nat.lt_of_lt_of_le hok.ptr hptr,
        by rw [hacquires, hreleases]; exact hok.balance⟩
  · by_cases heq : k = key
    · subst heq
      exact hfree hk
    · obtain ⟨hlookup, hunreleased, hacquires, hreleases⟩ := hof k heq
      rw [hunreleased, hacquires, hreleases]
      exact h.free k (hlookup ▸ hk)

theorem lookup_insert_cases {k : SessionKey} {found : DemandEntry}
    (h : (e.demand.insert key new).lookup k = some found) :
    k = key ∧ found = new ∨ k ≠ key ∧ e.demand.lookup k = some found := by
  by_cases hk : k = key
  · subst hk
    rw [Finmap.lookup_insert] at h
    exact .inl ⟨rfl, (Option.some.inj h).symm⟩
  · rw [Finmap.lookup_insert_of_ne _ hk] at h
    exact .inr ⟨hk, h⟩

theorem lookup_erase_cases {k : SessionKey} {found : DemandEntry}
    (h : (e.demand.erase key).lookup k = some found) :
    k ≠ key ∧ e.demand.lookup k = some found := by
  by_cases hk : k = key
  · rw [hk, Finmap.lookup_erase] at h
    cases h
  · rw [Finmap.lookup_erase_ne hk] at h
    exact ⟨hk, h⟩

theorem Engine.Inv.put (h : e.Inv) (hdemand : e'.demand = e.demand.insert key new)
    (hof : ∀ k, k ≠ key → e'.of k = e.of k) (hptr : e.nextPtr ≤ e'.nextPtr)
    (hnew : e'.EntryOk key new) (htimers : e'.TimersOk) : e'.Inv := by
  have hlookup : e'.demand.lookup key = some new := by rw [hdemand, Finmap.lookup_insert]
  refine h.touch key hof hptr (fun entry hk => ?_) (fun hk => ?_) htimers
  · cases hlookup.symm.trans hk
    exact hnew
  · cases hlookup.symm.trans hk

theorem Engine.Inv.release (h : e.Inv) {handle : Handle} (hi : e.handles[i]? = some handle)
    (hheld : handle.released = false) (hlookup : e.demand.lookup handle.key = some entry)
    (hdemand : e'.demand = e.demand.insert handle.key new)
    (hhandles : e'.handles = e.handles.set i { handle with released := true })
    (hnextPtr : e'.nextPtr = e.nextPtr) (hlog : e'.log = e.log)
    (hbindings : new.bindings + 1 = entry.bindings) (hptr : new.ptr = entry.ptr)
    (hscheduled : new.stop ≠ none ↔ new.bindings = 0) (htimers : e'.TimersOk) :
    e'.Inv := by
  have hok := h.held handle.key entry hlookup
  have hset := unreleased_set hi hheld
  refine h.put hdemand (fun k hk => ?_) (Nat.le_of_eq hnextPtr.symm) ⟨?_, hscheduled, ?_, ?_⟩
    htimers
  · have hsame := hset k
    rw [if_neg (Ne.symm hk), Nat.add_zero] at hsame
    simp [Engine.of, Engine.unreleased, hdemand, hhandles, hlog, hsame,
      Finmap.lookup_insert_of_ne _ hk]
  · have hless := hset handle.key
    rw [if_pos rfl] at hless
    have hheld := hok.bindings
    unfold Engine.unreleased at hheld ⊢
    rw [hhandles]
    omega
  · rw [hptr, hnextPtr]
    exact hok.ptr
  · rw [hlog]
    exact hok.balance

/-- An entry after a move: a new one, or one that was there, whose scheduled release is the same
unless its generation is newer. -/
def Evolves (e e' : Engine) : Prop :=
  ∀ key entry, e'.demand.lookup key = some entry →
    e.nextPtr ≤ entry.ptr ∨ ∃ old, e.demand.lookup key = some old ∧ entry.ptr = old.ptr ∧
      old.generation ≤ entry.generation ∧
      (entry.generation = old.generation → entry.stop = old.stop ∨ old.stop = none)

theorem Evolves.refl_of_demand (h : e'.demand = e.demand) : Evolves e e' := by
  intro key entry hentry
  rw [h] at hentry
  exact .inr ⟨entry, hentry, rfl, le_rfl, fun _ => .inl rfl⟩

theorem evolves_insert (hdemand : e'.demand = e.demand.insert key new)
    (hnew : e.nextPtr ≤ new.ptr ∨ ∃ old, e.demand.lookup key = some old ∧ new.ptr = old.ptr ∧
      old.generation ≤ new.generation ∧ (new.generation = old.generation → new.stop = old.stop ∨
      old.stop = none)) : Evolves e e' := by
  intro k entry hentry
  rw [hdemand] at hentry
  rcases lookup_insert_cases hentry with ⟨rfl, rfl⟩ | ⟨-, hentry⟩
  · exact hnew
  · exact .inr ⟨entry, hentry, rfl, le_rfl, fun _ => .inl rfl⟩

theorem DemandEntry.again_evolves (entry : DemandEntry) :
    entry.again.ptr = entry.ptr ∧ entry.generation ≤ entry.again.generation ∧
      (entry.again.generation = entry.generation →
        entry.again.stop = entry.stop ∨ entry.stop = none) := by
  unfold DemandEntry.again
  split
  · rename_i hstop
    exact ⟨rfl, le_rfl, fun _ => .inr hstop⟩
  · refine ⟨rfl, Nat.le_succ _, fun hsame => ?_⟩
    dsimp only at hsame
    omega

theorem Move.evolves (hinv : e.Inv) (h : Move e e') : Evolves e e' := by
  cases h with
  | idle | refused => exact .refl_of_demand rfl
  | first hfree => exact evolves_insert rfl (.inl le_rfl)
  | again hlookup _ => exact evolves_insert rfl (.inr ⟨_, hlookup, DemandEntry.again_evolves _⟩)
  | fewer hi hheld hlookup hmore =>
    exact evolves_insert rfl (.inr ⟨_, hlookup, rfl, le_rfl, fun _ => .inl rfl⟩)
  | @last i handle entry hi hheld hlookup hone =>
    refine evolves_insert rfl (.inr ⟨_, hlookup, rfl, le_rfl, fun _ => .inr ?_⟩)
    -- a binding is held, so no release is scheduled
    by_contra hstop
    have := (hinv.held handle.key entry hlookup).scheduled.mp hstop
    omega
  | @giveBack key entry timers ok hlookup hnone htimers =>
    intro k found hfound
    exact .inr ⟨found, (lookup_erase_cases hfound).2, rfl, le_rfl, fun _ => .inl rfl⟩

/-- What a move does to the timers: some are gone, or one is armed for an entry. -/
theorem Move.timers (h : Move e e') :
    (e'.timers.map Timer.captured).Sublist (e.timers.map Timer.captured) ∨
      ∃ (t : Timer) (old new : DemandEntry), e'.timers = e.timers ++ [t] ∧ t.id = e.nextTimer ∧
        e'.nextTimer = e.nextTimer + 1 ∧ e.demand.lookup t.key = some old ∧
        e'.demand.lookup t.key = some new ∧ old.ptr = t.entry ∧ new.ptr = t.entry ∧
        t.generation = new.generation ∧ new.stop = some t.id := by
  cases h with
  | idle htimers | again _ htimers | giveBack _ _ _ htimers => exact .inl htimers.sublist
  | refused | first | fewer => exact .inl (.refl _)
  | last hi hheld hlookup hone =>
    exact .inr ⟨_, _, _, rfl, rfl, rfl, hlookup, Finmap.lookup_insert _, rfl, rfl, rfl, rfl⟩

theorem Move.timer (h : Move e e') {t : Timer} (ht : t ∈ e'.timers) :
    (∃ t' ∈ e.timers, t.id = t'.id ∧ t.key = t'.key ∧ t.entry = t'.entry ∧
        t.generation = t'.generation) ∨
      t.id = e.nextTimer ∧ e'.nextTimer = e.nextTimer + 1 ∧
        ∃ old new, e.demand.lookup t.key = some old ∧ e'.demand.lookup t.key = some new ∧
          old.ptr = t.entry ∧ new.ptr = t.entry ∧ t.generation = new.generation ∧
          new.stop = some t.id := by
  rcases h.timers with hsub | ⟨last, old, new, htimers, hid, hnext, hlast⟩
  · obtain ⟨t', ht', hsame⟩ := mem_map.mp (hsub.subset (mem_map_of_mem ht))
    simp only [Timer.captured, Prod.mk.injEq] at hsame
    exact .inl ⟨t', ht', hsame.1.symm, hsame.2.1.symm, hsame.2.2.1.symm, hsame.2.2.2.symm⟩
  · rw [htimers] at ht
    rcases mem_append.mp ht with ht | ht
    · exact .inl ⟨t, ht, rfl, rfl, rfl, rfl⟩
    · cases mem_singleton.mp ht
      exact .inr ⟨hid, hnext, old, new, hlast⟩

theorem Move.next_le (h : Move e e') : e.nextPtr ≤ e'.nextPtr ∧ e.nextTimer ≤ e'.nextTimer := by
  cases h with
  | first _ => exact ⟨Nat.le_succ _, le_rfl⟩
  | last _ _ _ _ => exact ⟨le_rfl, Nat.le_succ _⟩
  | _ => exact ⟨le_rfl, le_rfl⟩

theorem Move.timerOk (hinv : e.Inv) (h : Move e e') {t : Timer} (ht : t ∈ e'.timers) :
    e'.TimerOk t := by
  obtain ⟨hptr, hid⟩ := h.next_le
  rcases h.timer ht with ⟨t', ht', hid', hkey, hentry, hgen⟩ |
    ⟨hid', hnext, old, new, hold, hnew, hp', hp, hg, hstop⟩
  · have hok := hinv.timer t' ht'
    refine ⟨by rw [hentry]; exact Nat.lt_of_lt_of_le hok.ptr hptr,
      by rw [hid']; exact Nat.lt_of_lt_of_le hok.id hid, ?_⟩
    rw [hkey, hentry, hgen, hid']
    intro entry hlookup hsame
    rcases h.evolves hinv t'.key entry hlookup with hfresh | ⟨old, hold, hold', hle, hstop⟩
    · have := hok.ptr
      omega
    · obtain ⟨hle', hstop'⟩ := hok.entry old hold (hold'.symm.trans hsame)
      refine ⟨Nat.le_trans hle' hle, fun heq => ?_⟩
      have hscheduled := hstop' (by omega)
      rcases hstop (by omega) with hs | hs
      · rw [hs, hscheduled]
      · cases hs.symm.trans hscheduled
  · refine ⟨?_, by omega, fun entry hlookup hsame => ?_⟩
    · rw [← hp']
      exact Nat.lt_of_lt_of_le (hinv.held t.key old hold).ptr hptr
    · cases hnew.symm.trans hlookup
      exact ⟨Nat.le_of_eq hg, fun _ => hstop⟩

theorem DemandEntry.again_bindings (entry : DemandEntry) :
    entry.again.bindings = entry.bindings + 1 ∧ entry.again.stop = none := by
  unfold DemandEntry.again
  split
  · next hstop => exact ⟨rfl, hstop⟩
  · exact ⟨rfl, rfl⟩

theorem Move.ids (hinv : e.Inv) (h : Move e e') : (e'.timers.map Timer.id).Nodup := by
  rcases h.timers with hsub | ⟨last, old, new, htimers, hid, -⟩
  · have hids := hsub.map Prod.fst
    rw [map_map, map_map] at hids
    exact hinv.ids.sublist hids
  · -- the new timer's identity is above those there were
    rw [htimers, map_append, map_singleton, hid]
    refine nodup_append.mpr ⟨hinv.ids, nodup_singleton _, fun id hid last hlast => ?_⟩
    obtain ⟨t, ht, rfl⟩ := mem_map.mp hid
    rw [mem_singleton.mp hlast]
    exact Nat.ne_of_lt (hinv.timer t ht).id

theorem Move.armed (hinv : e.Inv) (h : Move e e') :
    ∀ key entry, e'.demand.lookup key = some entry → Armed e'.timers key entry := by
  intro k found hfound
  cases h with
  | idle htimers => exact htimers.armed nofun hfound (hinv.armed k found hfound)
  | refused => exact hinv.armed k found hfound
  | first =>
    rcases lookup_insert_cases hfound with ⟨-, rfl⟩ | ⟨-, hfound⟩
    · exact fun hstop => absurd rfl hstop
    · exact hinv.armed k found hfound
  | @again _ entry _ _ htimers =>
    rcases lookup_insert_cases hfound with ⟨-, rfl⟩ | ⟨hk, hfound⟩
    · exact fun hstop => absurd entry.again_bindings.2 hstop
    · exact htimers.armed (fun h => hk (Option.some.inj h).symm) hfound (hinv.armed k found hfound)
  | fewer _ _ hlookup _ =>
    rcases lookup_insert_cases hfound with ⟨rfl, rfl⟩ | ⟨-, hfound⟩
    · exact fun hstop => (hinv.armed _ _ hlookup hstop).imp fun t ht =>
        ⟨ht.outstanding, ht.stop, ht.key, ht.entry, ht.generation⟩
    · exact hinv.armed k found hfound
  | last =>
    rcases lookup_insert_cases hfound with ⟨rfl, rfl⟩ | ⟨-, hfound⟩
    · exact fun _ => ⟨_, mem_append_right _ mem_cons_self, rfl, rfl, rfl, rfl⟩
    · exact fun hstop => (hinv.armed k found hfound hstop).imp fun t ht =>
        ⟨mem_append_left _ ht.outstanding, ht.stop, ht.key, ht.entry, ht.generation⟩
  | giveBack _ _ _ htimers =>
    obtain ⟨hk, hfound⟩ := lookup_erase_cases hfound
    exact htimers.armed (fun h => hk (Option.some.inj h).symm) hfound (hinv.armed k found hfound)

theorem Move.inv (hinv : e.Inv) (h : Move e e') : e'.Inv := by
  have htimers : e'.TimersOk := ⟨fun t ht => h.timerOk hinv ht, h.ids hinv, h.armed hinv⟩
  cases h with
  | idle => exact ⟨htimers, fun k entry hk => ⟨(hinv.held k entry hk).bindings,
      (hinv.held k entry hk).scheduled, (hinv.held k entry hk).ptr, (hinv.held k entry hk).balance⟩,
      hinv.free⟩
  | refused key =>
    refine hinv.touch key (fun k hk => ?_) le_rfl (fun entry hk => ?_) (fun hk => ?_) htimers
    · simp [Engine.of, Engine.unreleased, DemandCall.acquires, DemandCall.releases]
    · have hok := hinv.held key entry hk
      exact ⟨hok.bindings, hok.scheduled, hok.ptr,
        by simpa [DemandCall.acquires, DemandCall.releases] using hok.balance⟩
    · exact (hinv.free key hk).imp_right fun h => by
        simpa [DemandCall.acquires, DemandCall.releases] using h
  | @first key hfree =>
    obtain ⟨hnone, hbalance⟩ := hinv.free key hfree
    unfold Engine.unreleased at hnone
    refine hinv.put rfl (fun k hk => ?_) (Nat.le_succ _) ⟨?_, by simp, Nat.lt_succ_self _, ?_⟩
      htimers
    · simp [Engine.of, Engine.boundFirst, Engine.unreleased, Handle.holds, DemandCall.acquires,
        DemandCall.releases, Ne.symm hk, Finmap.lookup_insert_of_ne _ hk]
    · simp [Engine.boundFirst, Engine.unreleased, Handle.holds, hnone]
    · simp [Engine.boundFirst, DemandCall.acquires, DemandCall.releases, hbalance]
  | @again key entry timers hlookup _ =>
    have hok := hinv.held key entry hlookup
    obtain ⟨hbindings, hstop⟩ := entry.again_bindings
    refine hinv.put rfl (fun k hk => ?_) le_rfl
      ⟨?_, by simp [hbindings, hstop], ?_, hok.balance⟩ htimers
    · simp [Engine.of, Engine.boundAgain, Engine.unreleased, Handle.holds, Ne.symm hk,
        Finmap.lookup_insert_of_ne _ hk]
    · rw [hbindings, hok.bindings]
      simp [Engine.boundAgain, Engine.unreleased, Handle.holds]
    · rw [(DemandEntry.again_evolves entry).1]
      exact hok.ptr
  | @fewer i handle entry hi hheld hlookup hmore =>
    have hscheduled := (hinv.held handle.key entry hlookup).scheduled
    refine hinv.release hi hheld hlookup rfl rfl rfl rfl ?_ rfl ?_ htimers
    · exact Nat.sub_add_cancel (Nat.le_of_lt hmore)
    · dsimp only
      rw [hscheduled]
      omega
  | @last i handle entry hi hheld hlookup hone =>
    exact hinv.release hi hheld hlookup rfl rfl rfl rfl hone.symm rfl (by simp) htimers
  | @giveBack key entry timers ok hlookup hnone _ =>
    have hok := hinv.held key entry hlookup
    refine hinv.touch key (fun k hk => ?_) le_rfl (fun found hfound => ?_)
      (fun hk => ⟨?_, ?_⟩) htimers
    · simp [Engine.of, Engine.unreleased, DemandCall.acquires, DemandCall.releases, Ne.symm hk,
        Finmap.lookup_erase_ne hk]
    · rw [Finmap.lookup_erase] at hfound
      cases hfound
    · exact hok.bindings.symm.trans hnone
    · simp [DemandCall.acquires, DemandCall.releases, hok.balance]

abbrev Moves : Engine → Engine → Prop := Relation.ReflTransGen Move

theorem Moves.inv (h : Moves e e') (hinv : e.Inv) : e'.Inv := by
  induction h with
  | refl => exact hinv
  | tail _ hmove ih => exact hmove.inv ih

/-! ## Steps -/

/-- Stopping the timer of an entry leaves those of the other keys. -/
theorem stopTimer_fewer (hinv : e.Inv) (hlookup : e.demand.lookup key = some entry) {id : Nat}
    (hid : entry.stop = some id) : Fewer e (some key) (e.stopTimer id).timers := by
  refine .of_sublist filter_sublist fun k other t hk _ ht => ?_
  obtain ⟨own, hown⟩ := hinv.armed key entry hlookup (by simp [hid])
  refine mem_filter.mpr ⟨ht.outstanding, decide_eq_true (.inl fun heq => ?_)⟩
  have hsame : t = own := inj_on_of_nodup_map hinv.ids ht.outstanding hown.outstanding
    (heq.trans (Option.some.inj (hid.symm.trans hown.stop)))
  exact hk (congrArg some (hown.key.symm.trans (hsame ▸ ht.key)))

/-- What `Bind` does: it is refused, or it binds the key of the channel. -/
theorem bind_cases (core : Identifiers) (hinv : e.Inv) (principal : Principal) (channel : String)
    (authorized ok : Bool) :
    (Move e (e.bind core principal channel authorized ok).1 ∧
        (e.bind core principal channel authorized ok).2 ≠ .ok ()) ∨
      ∃ key, demandKeyOf core principal channel = .ok key ∧
        (e.demand.lookup key = none ∧
            (e.bind core principal channel authorized ok).1 = e.boundFirst key ∨
          ∃ entry timers, e.demand.lookup key = some entry ∧ Fewer e (some key) timers ∧
            (e.bind core principal channel authorized ok).1 = e.boundAgain key entry timers) := by
  have hidle : Move e e := .idle (.rfl e none)
  unfold Engine.bind
  split
  · exact .inl ⟨hidle, nofun⟩
  · split
    · exact .inl ⟨hidle, nofun⟩
    · rename_i key hkey
      unfold Engine.acquire
      cases hlookup : e.demand.lookup key with
      | none =>
        cases ok with
        | false => exact .inl ⟨.refused key, nofun⟩
        | true => exact .inr ⟨key, hkey, .inl ⟨hlookup, rfl⟩⟩
      | some entry =>
        refine .inr ⟨key, hkey, .inr ?_⟩
        unfold Engine.boundAgain DemandEntry.again Engine.cancelRelease
        cases hstop : entry.stop with
        | none =>
          refine ⟨entry, e.timers, hlookup, .rfl e _, ?_⟩
          simp only [hstop]
          rfl
        | some id =>
          refine ⟨entry, _, hlookup, stopTimer_fewer hinv hlookup hstop, ?_⟩
          simp only [hstop]
          rfl

theorem bind_move (core : Identifiers) (hinv : e.Inv) (principal : Principal) (channel : String)
    (authorized ok : Bool) : Move e (e.bind core principal channel authorized ok).1 := by
  rcases bind_cases core hinv principal channel authorized ok with
    ⟨hmove, -⟩ | ⟨key, -, ⟨hfree, hbound⟩ | ⟨entry, timers, hlookup, htimers, hbound⟩⟩
  · exact hmove
  · rw [hbound]
    exact .first hfree
  · rw [hbound]
    exact .again hlookup htimers

theorem release_move (hinv : e.Inv) {handle : Handle} (hi : e.handles[i]? = some handle)
    (hheld : handle.released = false) : Move e (e.release i) := by
  have hpos : 0 < e.unreleased handle.key := by
    refine countP_pos_iff.mpr ⟨handle, mem_of_getElem? hi, ?_⟩
    simp [Handle.holds, hheld]
  unfold Engine.release
  simp only [hi, hheld]
  unfold Engine.releaseBinding
  cases hlookup : e.demand.lookup handle.key with
  | none =>
    have := (hinv.free handle.key hlookup).1
    omega
  | some entry =>
    have hbindings := (hinv.held handle.key entry hlookup).bindings
    have hsome : entry.bindings ≠ 0 := by omega
    by_cases hone : entry.bindings = 1
    · have hmove : Move e _ := .last hi hheld hlookup hone
      simpa [hone, Engine.store, hlookup] using hmove
    · have hmove : Move e _ := .fewer hi hheld hlookup (by omega)
      have hleft : 0 < entry.bindings - 1 := by omega
      simpa [hsome, hleft, Engine.store, hlookup] using hmove

/-- What a callback or a flush does: it gives back demand of keys no handle of which is left. -/
structure GivesBack (e e' : Engine) : Prop where
  moves : Moves e e'
  handles : e'.handles = e.handles
  calls : ∃ calls, e'.log = e.log ++ calls ∧ ∀ call ∈ calls, ∃ key ok, call = .release key ok ∧
    e.unreleased key = 0

theorem GivesBack.refl (e : Engine) : GivesBack e e :=
  ⟨.refl, rfl, [], (append_nil _).symm, by simp⟩

theorem GivesBack.trans {e'' : Engine} (h : GivesBack e e') (h' : GivesBack e' e'') :
    GivesBack e e'' := by
  obtain ⟨calls, hlog, hcalls⟩ := h.calls
  obtain ⟨calls', hlog', hcalls'⟩ := h'.calls
  refine ⟨h.moves.trans h'.moves, h'.handles.trans h.handles, calls ++ calls', ?_,
    fun call hcall => ?_⟩
  · rw [hlog', hlog, append_assoc]
  · rcases mem_append.mp hcall with hcall | hcall
    · exact hcalls call hcall
    · obtain ⟨key, ok, heq, hnone⟩ := hcalls' call hcall
      refine ⟨key, ok, heq, ?_⟩
      unfold Engine.unreleased at hnone ⊢
      rw [← h.handles]
      exact hnone

theorem giveBack_givesBack (hinv : e.Inv) {timers : List Timer} (ok : Bool)
    (hlookup : e.demand.lookup key = some entry) (hnone : entry.bindings = 0)
    (htimers : Fewer e (some key) timers) :
    GivesBack e ({ e with timers := timers }.giveBack key ok) := by
  have hmove : Move e ({ e with timers := timers }.giveBack key ok) :=
    .giveBack ok hlookup hnone htimers
  refine ⟨.single hmove, rfl, _, rfl, fun call hcall => ?_⟩
  rw [mem_singleton] at hcall
  exact ⟨key, ok, hcall, (hinv.held key entry hlookup).bindings.symm.trans hnone⟩

theorem releaseIdle_givesBack (ok : SessionKey → Bool) (order : List SessionKey) (hinv : e.Inv) :
    GivesBack e (Engine.releaseIdle ok order e) := by
  induction order generalizing e with
  | nil => exact .refl e
  | cons key rest ih =>
    unfold Engine.releaseIdle
    split
    · exact ih hinv
    · rename_i entry hlookup
      split
      · exact ih hinv
      · rename_i hidle
        obtain ⟨hnone, hstop⟩ := not_or.mp hidle
        obtain ⟨id, hid⟩ := Option.ne_none_iff_exists'.mp hstop
        have hgive := giveBack_givesBack hinv (ok key) hlookup (by omega)
          (stopTimer_fewer hinv hlookup hid)
        have hcancel : (e.cancelRelease entry).1 = e.stopTimer id := by
          unfold Engine.cancelRelease
          rw [hid]
        rw [hcancel]
        exact hgive.trans (ih (hgive.moves.inv hinv))

/-- Of the timers only the one drained is gone. -/
theorem eraseIdx_fewer {t : Timer} (hi : e.timers[i]? = some t) {but : Option SessionKey}
    (hkept : ∀ entry, but ≠ some t.key → e.demand.lookup t.key = some entry →
      ¬ t.Schedules e.timers t.key entry) : Fewer e but (e.timers.eraseIdx i) := by
  refine .of_sublist (eraseIdx_sublist ..) fun key entry t' hbut hlookup ht' => ?_
  obtain ⟨j, hj⟩ := mem_iff_getElem?.mp ht'.outstanding
  refine mem_eraseIdx_iff_getElem?.mpr ⟨j, fun hji => ?_, hj⟩
  subst hji
  cases hi.symm.trans hj
  cases ht'.key
  exact hkept entry hbut hlookup ht'

variable {core : Identifiers}

/-- A callback gives back the demand of its entry, when the entry is scheduled by its timer, or
does nothing. -/
theorem drain_givesBack (hinv : e.Inv) {ok : Bool} (h : e.step core (.drain i ok) = some e') :
    GivesBack e e' ∧ ∃ t, e.timers[i]? = some t ∧
      ((∃ entry, e.demand.lookup t.key = some entry ∧ t.Schedules e.timers t.key entry) ∧
          e'.demand = e.demand.erase t.key ∧ e'.log = e.log ++ [.release t.key ok] ∨
        (¬ ∃ entry, e.demand.lookup t.key = some entry ∧ t.Schedules e.timers t.key entry) ∧
          e'.demand = e.demand ∧ e'.log = e.log) := by
  simp only [Engine.step] at h
  split at h
  · cases h
  rename_i t hi
  obtain ⟨-, ⟨⟩⟩ := Option.ite_none_right_eq_some.mp h
  have ht := List.mem_of_getElem? hi
  unfold Engine.drain
  by_cases hdue : ∃ entry, e.demand.lookup t.key = some entry ∧ t.Schedules e.timers t.key entry
  · obtain ⟨entry, hlookup, hs⟩ := hdue
    have hnone : entry.bindings = 0 := (hinv.held _ _ hlookup).scheduled.mp (by simp [hs.stop])
    simp only [hlookup, hs.entry, hs.generation, hnone, ne_eq, not_true_eq_false, or_self, if_false]
    exact ⟨giveBack_givesBack hinv ok hlookup hnone (eraseIdx_fewer hi fun _ hne => absurd rfl hne),
      t, hi, .inl ⟨⟨entry, hlookup, hs⟩, rfl, rfl⟩⟩
  · have hidle : GivesBack e { e with timers := e.timers.eraseIdx i } :=
      ⟨.single (.idle (eraseIdx_fewer hi fun entry _ hlookup hs => hdue ⟨entry, hlookup, hs⟩)), rfl,
        [],
        (append_nil _).symm, by simp⟩
    split
    · exact ⟨hidle, t, hi, .inr ⟨hdue, rfl, rfl⟩⟩
    · rename_i entry hlookup
      split
      · exact ⟨hidle, t, hi, .inr ⟨hdue, rfl, rfl⟩⟩
      · rename_i hcond
        simp only [not_or, not_not] at hcond
        have hstop := ((hinv.timer t ht).entry entry hlookup hcond.1).2 hcond.2.1.symm
        exact absurd ⟨entry, hlookup, ht, hstop, rfl, hcond.1.symm, hcond.2.1.symm⟩ hdue

theorem step_moves (hinv : e.Inv) {act : Act} (h : e.step core act = some e') : Moves e e' := by
  cases act with
  | bind principal channel authorized ok =>
    cases h
    exact .single (bind_move core hinv principal channel authorized ok)
  | release i =>
    obtain ⟨hlt, ⟨⟩⟩ := Option.ite_none_right_eq_some.mp h
    cases hheld : e.handles[i].released with
    | false => exact .single (release_move hinv (getElem?_eq_getElem hlt) hheld)
    | true =>
      unfold Engine.release
      simp only [getElem?_eq_getElem hlt, hheld]
      exact .refl
  | releaseIdleDemand order ok =>
    obtain ⟨-, ⟨⟩⟩ := Option.ite_none_right_eq_some.mp h
    exact (releaseIdle_givesBack ok order hinv).moves
  | fire i =>
    simp only [Engine.step] at h
    split at h
    · cases h
    rename_i t hi
    split at h
    · cases h
    cases h
    -- a callback that starts captured what it captured when it was armed
    have hsame : (e.timers.set i { t with running := true }).map Timer.captured =
        e.timers.map Timer.captured := by
      obtain ⟨hlt, rfl⟩ := List.getElem?_eq_some_iff.mp hi
      rw [map_set]
      change (e.timers.map Timer.captured).set i (Timer.captured e.timers[i]) = _
      rw [← map_set, set_getElem_self]
    refine .single (.idle ⟨hsame ▸ .refl _, fun _ _ t' _ _ ht' => ?_⟩)
    rw [hsame]
    exact mem_map_of_mem ht'.outstanding
  | drain i ok => exact (drain_givesBack hinv h).1.moves

theorem Engine.Inv.step (hinv : e.Inv) {act : Act} (h : e.step core act = some e') :
    e'.Inv := (step_moves hinv h).inv hinv

theorem Engine.inv_exec {acts : List Act} (hrun : exec (Engine.step core) {} acts = some e) :
    e.Inv :=
  exec_invariant (fun _ _ _ hs h => h.step hs) hrun Engine.inv_init

/-! ## Superseded callbacks -/

/-- Every timer of the key armed before the `n`-th is of an older generation than the entry. -/
def Superseded (n : Nat) (key : SessionKey) (e : Engine) : Prop :=
  n ≤ e.nextTimer ∧ ∀ t ∈ e.timers, t.id < n → t.key = key →
    ∀ entry, e.demand.lookup key = some entry → entry.ptr = t.entry →
      t.generation < entry.generation

theorem Superseded.move {n : Nat} (h : Superseded n key e) (hinv : e.Inv) (hmove : Move e e') :
    Superseded n key e' := by
  obtain ⟨hn, hold⟩ := h
  refine ⟨Nat.le_trans hn hmove.next_le.2, fun t ht hid hkey entry hlookup hptr => ?_⟩
  rcases hmove.timer ht with ⟨t', ht', hid', hkey', hentry, hgen⟩ | ⟨hid', -⟩
  · rcases hmove.evolves hinv key entry hlookup with hfresh | ⟨old, hlookup', hptr', hle, -⟩
    · have := (hinv.timer t' ht').ptr
      omega
    · have := hold t' ht' (by omega) (hkey'.symm.trans hkey) old hlookup' (by omega)
      omega
  · omega

theorem Superseded.moves {n : Nat} (h : Superseded n key e) (hinv : e.Inv) (hmoves : Moves e e') :
    Superseded n key e' := by
  induction hmoves with
  | refl => exact h
  | tail hbefore hmove ih => exact ih.move (Moves.inv hbefore hinv) hmove

theorem superseded_again (hinv : e.Inv) (hlookup : e.demand.lookup key = some entry) {t : Timer}
    (ht : t ∈ e.timers) (hkey : t.key = key) (hptr : entry.again.ptr = t.entry) :
    t.generation < entry.again.generation := by
  rw [(DemandEntry.again_evolves entry).1] at hptr
  obtain ⟨hle, hstop⟩ := (hinv.timer t ht).entry entry (hkey ▸ hlookup) hptr
  unfold DemandEntry.again
  split
  · rename_i hnone
    refine Nat.lt_of_le_of_ne hle fun heq => ?_
    have := hstop heq
    cases hnone.symm.trans this
  · dsimp only
    omega

theorem superseded_of_bind (hinv : e.Inv) {principal : Principal} {channel : String}
    {authorized ok : Bool} (hkey : demandKeyOf core principal channel = .ok key)
    (hbound : (e.bind core principal channel authorized ok).2 = .ok ()) :
    Superseded e.nextTimer key (e.bind core principal channel authorized ok).1 := by
  have hmove := bind_move core hinv principal channel authorized ok
  refine ⟨hmove.next_le.2, fun t ht hid hk found hfound hptr => ?_⟩
  rcases hmove.timer ht with ⟨t', ht', hid', hkey', hentry, hgen⟩ | ⟨hid', -⟩
  · rw [hgen]
    rw [hentry] at hptr
    rcases bind_cases core hinv principal channel authorized ok with
      ⟨-, hne⟩ | ⟨key', hkey'', ⟨hfree, heq⟩ | ⟨entry, timers, hlookup, htimers, heq⟩⟩
    · exact absurd hbound hne
    · -- the entry is new, and no timer was armed for it
      cases hkey.symm.trans hkey''
      rw [heq, Engine.boundFirst, Finmap.lookup_insert] at hfound
      cases hfound
      exact absurd ((hinv.timer t' ht').ptr) (Nat.not_lt.mpr (Nat.le_of_eq hptr))
    · cases hkey.symm.trans hkey''
      rw [heq, Engine.boundAgain, Finmap.lookup_insert] at hfound
      cases hfound
      exact superseded_again hinv hlookup ht' (hkey'.symm.trans hk) hptr
  · omega

/-! ## Runs -/

/-- What a run has to have kept when the engine is in `e`. -/
structure Accounts (core : Identifiers) (acts : List Act) (e : Engine) : Prop where
  /-- The demand held is one unit for an entry of the table, and none without one. -/
  balance : ∀ key, e.log.countP (DemandCall.acquires key) =
    e.log.countP (DemandCall.releases key) + if key ∈ e.demand then 1 else 0
  /-- An entry counts the handles of its key not released; without one there are none. -/
  bindings : ∀ key, e.unreleased key = ((e.demand.lookup key).map (·.bindings)).getD 0
  /-- A release is scheduled exactly when no binding is counted, and then by an outstanding timer
  armed for the entry as it is. -/
  scheduled : ∀ key entry, e.demand.lookup key = some entry →
    (entry.stop ≠ none ↔ entry.bindings = 0) ∧ Armed e.timers key entry
  /-- Neither a callback nor a flush gives back demand of a key with a handle not released. -/
  held : ∀ act e', e.step core act = some e' →
    (∃ i ok, act = .drain i ok) ∨ (∃ order ok, act = .releaseIdleDemand order ok) →
      ∀ calls key ok, e'.log = e.log ++ calls → .release key ok ∈ calls → e.unreleased key = 0
  /-- The callback of a timer that schedules an entry gives its demand back. -/
  due : ∀ i t entry ok e', e.timers[i]? = some t → e.demand.lookup t.key = some entry →
    t.Schedules e.timers t.key entry → e.step core (.drain i ok) = some e' →
      e'.demand = e.demand.erase t.key ∧ e'.log = e.log ++ [.release t.key ok]
  /-- A handle's second call does nothing. -/
  twice : ∀ i handle e', e.handles[i]? = some handle → handle.released = true →
    e.step core (.release i) = some e' → e' = e
  /-- A callback armed for a key before a bind of the key returned a handle does nothing. -/
  superseded : ∀ before after u principal channel authorized granted key,
    acts = before ++ .bind principal channel authorized granted :: after →
    exec (Engine.step core) {} before = some u →
    demandKeyOf core principal channel = .ok key →
    (u.bind core principal channel authorized granted).2 = .ok () →
    ∀ i t ok e', e.timers[i]? = some t → t.key = key → t.id < u.nextTimer →
      e.step core (.drain i ok) = some e' → e'.demand = e.demand ∧ e'.log = e.log

/-- The demand of the ClientLink edge is accounted for in every run: one unit of demand for each
entry, the entry's count that of the handles not released, a release scheduled exactly when there
are none, and no effect of what was released or superseded. -/
theorem demand_accounts (core : Identifiers) {acts : List Act} {e : Engine}
    (hrun : exec (Engine.step core) {} acts = some e) : Accounts core acts e := by
  have hinv : e.Inv := Engine.inv_exec hrun
  refine ⟨fun key => ?_, fun key => ?_,
    fun key entry hlookup =>
      ⟨(hinv.held key entry hlookup).scheduled, hinv.armed key entry hlookup⟩,
    ?_, ?_, ?_, ?_⟩
  · cases hlookup : e.demand.lookup key with
    | none =>
      rw [if_neg (Finmap.lookup_eq_none.mp hlookup)]
      exact (hinv.free key hlookup).2
    | some entry =>
      rw [if_pos (Finmap.mem_of_lookup_eq_some hlookup)]
      exact (hinv.held key entry hlookup).balance
  · cases hlookup : e.demand.lookup key with
    | none => exact (hinv.free key hlookup).1
    | some entry => exact (hinv.held key entry hlookup).bindings.symm
  · intro act e' hstep hact calls key ok hlog hmem
    have hgives : GivesBack e e' := by
      rcases hact with ⟨i, ok, rfl⟩ | ⟨order, ok, rfl⟩
      · exact (drain_givesBack hinv hstep).1
      · obtain ⟨-, ⟨⟩⟩ := Option.ite_none_right_eq_some.mp hstep
        exact releaseIdle_givesBack ok order hinv
    obtain ⟨calls', hlog', hcalls⟩ := hgives.calls
    rw [hlog] at hlog'
    cases append_cancel_left hlog'
    obtain ⟨key', ok', ⟨⟩, hnone⟩ := hcalls _ hmem
    exact hnone
  · intro i t entry ok e' hi hlookup hdue hstep
    obtain ⟨-, t', hi', ⟨-, hgiven⟩ | ⟨hnot, -⟩⟩ := drain_givesBack hinv hstep
    all_goals cases hi.symm.trans hi'
    · exact hgiven
    · exact absurd ⟨entry, hlookup, hdue⟩ hnot
  · intro i handle e' hi hreleased hstep
    obtain ⟨-, ⟨⟩⟩ := Option.ite_none_right_eq_some.mp hstep
    unfold Engine.release
    simp [hi, hreleased]
  · intro before after u principal channel authorized granted key hsplit hu hkey hbound
      i t ok e' hi htkey hid hstep
    subst hsplit
    have huinv : u.Inv := Engine.inv_exec hu
    have hrest := exec_tail rfl (exec_rest hu hrun)
    have hsuper : Superseded u.nextTimer key e := by
      apply exec_invariant_under (fun _ _ _ hw hv => Engine.Inv.step hv hw) hrest
        ((bind_move core huinv ..).inv huinv) (superseded_of_bind huinv hkey hbound)
      exact fun v act w hv hw hsuper => hsuper.moves hv (step_moves hv hw)
    obtain ⟨-, t', hi', ⟨⟨entry, hlookup, hdue⟩, -⟩ | ⟨-, hsame⟩⟩ := drain_givesBack hinv hstep
    all_goals cases hi.symm.trans hi'
    · have := hsuper.2 t (mem_of_getElem? hi) hid htkey entry (htkey ▸ hlookup) hdue.entry.symm
      have := hdue.generation
      omega
    · exact hsame

/-- Every identifier is one Core carries. -/
def anyIdentifiers : Identifiers := ⟨fun _ => true, fun _ => true⟩

/-- A viewer leaves, the debounce runs out, and its callback is waiting for the lock when another
viewer comes; both leave again, one of them twice, and a flush gives the demand back. -/
def reboundRun : List Act :=
  [.bind ⟨"t"⟩ "session:t:s" true true, .release 0, .fire 0, .bind ⟨"t"⟩ "session:t:s" true false,
    .drain 0 true, .release 0, .release 1, .releaseIdleDemand [⟨"t", "s"⟩] fun _ => true]

theorem demand_accounts_rebound : ∃ e, exec (Engine.step anyIdentifiers) {} reboundRun = some e ∧
    e.log = [.acquire ⟨"t", "s"⟩ true, .release ⟨"t", "s"⟩ true] ∧
    Accounts anyIdentifiers reboundRun e :=
  ⟨_, rfl, by decide +kernel, demand_accounts anyIdentifiers rfl⟩

end Factory.Clientlink
