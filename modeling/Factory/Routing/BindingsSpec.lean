import Factory.Lib.Ledger
import Factory.Routing.Bindings

/-!
# What the operations of the routing table do

What an operation of the table does to the routes it holds is one of three things, or a
sequence of them (`Change`): nothing, with calls that neither bind nor unbind; a session
without a route gets one, with one successful `Bind`; a route is given up, with one `Unbind`.
Read as a ledger (`binds`), what is outstanding of the calls is what the table holds (`Tracks`).
-/

namespace Factory.Routing

open Function List Ledger

/-! ## The table's views -/

section Views

variable (b : Bindings) (key : SessionKey) (route : SessionRoute)

theorem binding_insert :
    ({ b with sessions := b.sessions.insert key route } : Bindings).binding =
      Function.update b.binding key (if route.bound then some route.binding else none) := by
  funext k
  by_cases hk : k = key
  · subst hk
    simp [Bindings.binding]
  · simp [Bindings.binding, hk, Finmap.lookup_insert_of_ne]

theorem binding_erase :
    ({ b with sessions := b.sessions.erase key } : Bindings).binding =
      Function.update b.binding key none := by
  funext k
  by_cases hk : k = key
  · subst hk
    simp [Bindings.binding]
  · simp [Bindings.binding, hk, Finmap.lookup_erase_ne]

theorem demand_insert :
    ({ b with sessions := b.sessions.insert key route } : Bindings).demand =
      Function.update b.demand key route.demand := by
  funext k
  by_cases hk : k = key
  · subst hk
    simp [Bindings.demand]
  · simp [Bindings.demand, hk, Finmap.lookup_insert_of_ne]

theorem demand_erase :
    ({ b with sessions := b.sessions.erase key } : Bindings).demand =
      Function.update b.demand key 0 := by
  funext k
  by_cases hk : k = key
  · subst hk
    simp [Bindings.demand]
  · simp [Bindings.demand, hk, Finmap.lookup_erase_ne]

variable {b key route}

theorem binding_of_lookup (h : b.sessions.lookup key = some route) :
    b.binding key = if route.bound then some route.binding else none := by
  simp [Bindings.binding, h]

theorem demand_of_lookup (h : b.sessions.lookup key = some route) :
    b.demand key = route.demand := by
  simp [Bindings.demand, h]

theorem demand_getD : b.demand key = ((b.sessions.lookup key).getD {}).demand := by
  unfold Bindings.demand
  split <;> rename_i h <;> simp [h]

theorem binding_getD :
    b.binding key =
      if ((b.sessions.lookup key).getD {}).bound then
        some ((b.sessions.lookup key).getD {}).binding else none := by
  unfold Bindings.binding
  split <;> rename_i h <;> simp [h]

end Views

/-! ## Ledger of binds -/

def BindingKey.sessionKey (key : BindingKey) : SessionKey := ⟨key.tenant, key.session⟩

def bindTuple (req : HostLinkBindRequest) : BindingKey :=
  { tenant := req.tenant, session := req.session, host := req.host
    hostGeneration := req.hostGeneration, leaseEpoch := req.leaseEpoch }

def unbindTuple (req : HostLinkUnbindRequest) : BindingKey :=
  { tenant := req.tenant, session := req.session, host := req.host
    hostGeneration := req.hostGeneration, leaseEpoch := req.leaseEpoch }

@[simp] theorem bindTuple_bindRequest (core : BindCore) (binding : Binding) :
    bindTuple (bindRequest core binding) = binding.key := rfl

/-- A successful `Bind` opens its tuple, an attempted `Unbind` closes it. -/
def binds : Reading BindingCall HostLinkBindRequest BindingKey where
  opens
    | .bind _ req none => some req
    | _ => none
  closes
    | .unbind req _ => some (unbindTuple req)
    | _ => none
  key := bindTuple
  apart := by
    intro e req k hopens
    cases e <;> simp_all

@[simp] theorem binds_key (req : HostLinkBindRequest) : binds.key req = bindTuple req := rfl

/-- A call that neither binds nor unbinds. -/
def Inert (call : BindingCall) : Prop := binds.opens call = none ∧ binds.closes call = none

/-- The requests of the calls carry the idempotency key of their tuple. -/
def Keyed (core : BindCore) : BindingCall → Prop
  | .bind _ req _ => req.idempotencyKey = bindIdempotencyKey core (bindTuple req)
  | .unbind req _ => req.idempotencyKey = bindIdempotencyKey core (unbindTuple req)
  | _ => True

/-- What operations do to the routes held, with the calls they make. -/
inductive Change (core : BindCore) :
    (SessionKey → Option Binding) → List BindingCall → (SessionKey → Option Binding) → Prop
  | quiet (held : SessionKey → Option Binding) (calls : List BindingCall)
      (hinert : ∀ call ∈ calls, Inert call ∧ Keyed core call) : Change core held calls held
  | bind (held : SessionKey → Option Binding) (key : SessionKey)
      (observed : HostLinkRegistryObservation) (hnone : held key = none) :
      Change core held
        [.bind observed.internalEndpoint (bindRequest core (bindingOf key observed)) none]
        (Function.update held key (some (bindingOf key observed)))
  | unbind (held : SessionKey → Option Binding) (key : SessionKey) (binding : Binding)
      (err : Option SeamError) (hheld : held key = some binding) :
      Change core held [.unbind (unbindRequest core binding) err] (Function.update held key none)
  | trans {held held' held'' : SessionKey → Option Binding} {calls calls' : List BindingCall}
      (h : Change core held calls held') (h' : Change core held' calls' held'') :
      Change core held (calls ++ calls') held''

/-- The bindings held are outstanding, and the log is balanced. -/
structure Tracks (core : BindCore) (held : SessionKey → Option Binding)
    (log : List BindingCall) : Prop where
  own : ∀ key binding, held key = some binding → binding.key.sessionKey = key
  outstanding : ∀ req, req ∈ Ledger.outstanding binds log ↔
    ∃ key binding, held key = some binding ∧ req = bindRequest core binding
  nodup : ((Ledger.outstanding binds log).map bindTuple).Nodup
  balanced : Balanced binds log
  keyed : ∀ call ∈ log, Keyed core call

theorem tracks_init (core : BindCore) : Tracks core (fun _ => none) [] where
  own key binding h := by cases h
  outstanding req := by simp [Ledger.outstanding]
  nodup := by simp [Ledger.outstanding]
  balanced := balanced_nil
  keyed call h := by cases h

variable {held : SessionKey → Option Binding} {log : List BindingCall} {core : BindCore}

theorem Tracks.inert (h : Tracks core held log) {call : BindingCall} (hinert : Inert call)
    (hkeyed : Keyed core call) : Tracks core held (log ++ [call]) := by
  have hsame := outstanding_other log hinert.1 hinert.2
  refine ⟨h.own, ?_, ?_, ?_, ?_⟩
  · rw [hsame]
    exact h.outstanding
  · rw [hsame]
    exact h.nodup
  · refine h.balanced.snoc fun k hk => ?_
    cases hinert.2.symm.trans hk
  · intro c hc
    rcases mem_append.mp hc with hc | hc
    · exact h.keyed c hc
    · rw [mem_singleton.mp hc]
      exact hkeyed

variable {key : SessionKey}

theorem Tracks.bind (h : Tracks core held log) (observed : HostLinkRegistryObservation)
    (hnone : held key = none) :
    Tracks core (Function.update held key (some (bindingOf key observed)))
      (log ++
        [.bind observed.internalEndpoint (bindRequest core (bindingOf key observed)) none]) := by
  have hout := outstanding_open (L := binds) log
    (show binds.opens (.bind observed.internalEndpoint
      (bindRequest core (bindingOf key observed)) none) = some _ from rfl)
  refine ⟨?_, ?_, ?_, ?_, ?_⟩
  · intro k binding hk
    by_cases heq : k = key
    · subst heq
      rw [update_self, Option.some.injEq] at hk
      subst hk
      rfl
    · rw [update_of_ne heq] at hk
      exact h.own k binding hk
  · intro req
    rw [hout, mem_append, h.outstanding, mem_singleton]
    constructor
    · rintro (⟨k, binding, hk, rfl⟩ | rfl)
      · have hne : k ≠ key := by
          rintro rfl
          cases hnone.symm.trans hk
        exact ⟨k, binding, by rw [update_of_ne hne, hk], rfl⟩
      · exact ⟨key, _, update_self _ _ _, rfl⟩
    · rintro ⟨k, binding, hk, rfl⟩
      by_cases heq : k = key
      · subst heq
        rw [update_self, Option.some.injEq] at hk
        exact .inr (by rw [hk])
      · rw [update_of_ne heq] at hk
        exact .inl ⟨k, binding, hk, rfl⟩
  · rw [hout, map_append, nodup_append]
    refine ⟨h.nodup, by simp, ?_⟩
    rintro t ht t' ht' rfl
    obtain ⟨req, hreq, rfl⟩ := mem_map.mp ht
    obtain ⟨k, binding, hk, rfl⟩ := (h.outstanding req).mp hreq
    simp only [map_cons, map_nil, mem_singleton, bindTuple_bindRequest] at ht'
    have heq : key = k := by
      rw [← h.own k binding hk, ht']
      rfl
    rw [← heq, hnone] at hk
    cases hk
  · exact h.balanced.snoc fun k hk => by cases hk
  · intro c hc
    rcases mem_append.mp hc with hc | hc
    · exact h.keyed c hc
    · rw [mem_singleton.mp hc]
      rfl

theorem Tracks.filter_tuple (h : Tracks core held log) {binding : Binding}
    (hheld : held key = some binding) :
    (Ledger.outstanding binds log).filter (fun req => binds.key req = binding.key) =
      [bindRequest core binding] := by
  have hmem := (h.outstanding _).mpr ⟨key, binding, hheld, rfl⟩
  have hnodup := h.nodup
  generalize Ledger.outstanding binds log = reqs at hmem hnodup
  induction reqs with
  | nil => cases hmem
  | cons req rest ih =>
    rw [map_cons, nodup_cons] at hnodup
    by_cases hreq : req = bindRequest core binding
    · subst hreq
      rw [filter_cons_of_pos (by simp), cons_inj_right, filter_eq_nil_iff]
      intro other hother htuple
      refine hnodup.1 (mem_map.mpr ⟨other, hother, ?_⟩)
      exact of_decide_eq_true htuple
    · have hrest := (mem_cons.mp hmem).resolve_left (Ne.symm hreq)
      rw [filter_cons_of_neg, ih hrest hnodup.2]
      intro htuple
      have heq : bindTuple req = bindTuple (bindRequest core binding) := by
        exact of_decide_eq_true htuple
      exact hnodup.1 (heq ▸ mem_map_of_mem hrest)

theorem Tracks.unbind (h : Tracks core held log) {binding : Binding} (err : Option SeamError)
    (hheld : held key = some binding) :
    Tracks core (Function.update held key none)
      (log ++ [.unbind (unbindRequest core binding) err]) := by
  have hcloses : binds.closes (.unbind (unbindRequest core binding) err) = some binding.key := rfl
  have hout := outstanding_close log hcloses
  refine ⟨?_, ?_, ?_, ?_, ?_⟩
  · intro k b hk
    by_cases heq : k = key
    · subst heq
      rw [update_self] at hk
      cases hk
    · rw [update_of_ne heq] at hk
      exact h.own k b hk
  · intro req
    rw [hout, mem_filter, h.outstanding]
    constructor
    · rintro ⟨⟨k, b, hk, rfl⟩, hne⟩
      have hkey : k ≠ key := by
        rintro rfl
        rw [hheld, Option.some.injEq] at hk
        subst hk
        simp at hne
      exact ⟨k, b, by rw [update_of_ne hkey, hk], rfl⟩
    · rintro ⟨k, b, hk, rfl⟩
      by_cases heq : k = key
      · subst heq
        rw [update_self] at hk
        cases hk
      · rw [update_of_ne heq] at hk
        refine ⟨⟨k, b, hk, rfl⟩, ?_⟩
        have hne : b.key ≠ binding.key := by
          intro hbad
          rw [← h.own k b hk, hbad, h.own key binding hheld] at heq
          exact heq rfl
        exact decide_eq_true hne
  · rw [hout]
    exact h.nodup.sublist (List.Sublist.map _ filter_sublist)
  · refine h.balanced.snoc fun k hk => ?_
    rw [hcloses, Option.some.injEq] at hk
    subst hk
    exact ⟨_, h.filter_tuple hheld⟩
  · intro c hc
    rcases mem_append.mp hc with hc | hc
    · exact h.keyed c hc
    · rw [mem_singleton.mp hc]
      rfl

/-- A change of what is held keeps the account of the binds. -/
theorem Tracks.change {held' : SessionKey → Option Binding} {calls : List BindingCall}
    (h : Tracks core held log) (hchange : Change core held calls held') :
    Tracks core held' (log ++ calls) := by
  induction hchange generalizing log with
  | quiet held calls hinert =>
    induction calls generalizing log with
    | nil => simpa using h
    | cons call rest ih =>
      obtain ⟨hcall, hkeyed⟩ := hinert call mem_cons_self
      have := ih (forall_mem_cons.mp hinert).2 (h.inert hcall hkeyed)
      rwa [append_assoc, singleton_append] at this
  | bind held key observed hnone => exact h.bind observed hnone
  | unbind held key binding err hheld => exact h.unbind err hheld
  | trans _ _ ih ih' =>
    have := ih' (ih h)
    rwa [append_assoc] at this

/-! ## What each operation does -/

/-- Every route of the table has demand. -/
def Bindings.Demanded (b : Bindings) : Prop :=
  ∀ key route, b.sessions.lookup key = some route → 1 ≤ route.demand

theorem Bindings.Demanded.insert {b : Bindings} (h : b.Demanded) {route : SessionRoute}
    (hroute : 1 ≤ route.demand) :
    ({ b with sessions := b.sessions.insert key route } : Bindings).Demanded := by
  intro k r hk
  by_cases heq : k = key
  · subst heq
    rw [Finmap.lookup_insert, Option.some.injEq] at hk
    exact hk ▸ hroute
  · rw [Finmap.lookup_insert_of_ne _ heq] at hk
    exact h k r hk

theorem Bindings.Demanded.erase {b : Bindings} (h : b.Demanded) (key : SessionKey) :
    ({ b with sessions := b.sessions.erase key } : Bindings).Demanded := by
  intro k r hk
  by_cases heq : k = key
  · subst heq
    rw [Finmap.lookup_erase] at hk
    cases hk
  · rw [Finmap.lookup_erase_ne heq] at hk
    exact h k r hk

/-- What an operation leaves of the routes, the demand and the ledger. -/
structure Effect (core : BindCore) (b : Bindings) (calls : List BindingCall) (b' : Bindings)
    (demand : SessionKey → Nat) : Prop where
  change : Change core b.binding calls b'.binding
  demand : b'.demand = demand
  closed : b'.closed = b.closed
  demanded : b.Demanded → b'.Demanded

theorem Change.bound (observed : HostLinkRegistryObservation) (hnone : held key = none) :
    Change core held
      [.owner key, .bind observed.internalEndpoint (bindRequest core (bindingOf key observed)) none]
      (Function.update held key (some (bindingOf key observed))) := by
  have howner : Change core held [.owner key] held :=
    .quiet _ _ fun call hcall => by
      rw [mem_singleton.mp hcall]
      exact ⟨⟨rfl, rfl⟩, trivial⟩
  exact howner.trans (.bind held key observed hnone)

variable (core) (b : Bindings)

theorem Effect.none : Effect core b [] b b.demand :=
  ⟨.quiet _ _ (by simp), rfl, rfl, id⟩

theorem Effect.reads {calls : List BindingCall}
    (hcalls : ∀ call ∈ calls, Inert call ∧ Keyed core call) : Effect core b calls b b.demand :=
  ⟨.quiet _ _ hcalls, rfl, rfl, id⟩

theorem bindLocked_cases (seams : Seams) (key : SessionKey) :
    (∃ e calls, (∀ call ∈ BindingCall.owner key :: calls, Inert call ∧ Keyed core call) ∧
      b.bindLocked core seams key =
        { table := b, calls := .owner key :: calls, result := .error e }) ∨
    (∃ observed, b.bindLocked core seams key =
      { table := b
        calls := [.owner key,
          .bind observed.internalEndpoint (bindRequest core (bindingOf key observed)) none]
        result := .ok (bindingOf key observed) }) := by
  have howner : Inert (.owner key) ∧ Keyed core (.owner key) := ⟨⟨rfl, rfl⟩, trivial⟩
  unfold Bindings.bindLocked
  split
  · exact .inl ⟨_, [], by simpa using howner, rfl⟩
  · exact .inl ⟨_, [], by simpa using howner, rfl⟩
  · rename_i observed _
    dsimp only
    by_cases hvalid : core.validateBind (bindRequest core (bindingOf key observed)) = true
    · rw [if_pos hvalid]
      cases seams.bind (bindingOf key observed).endpoint
          (bindRequest core (bindingOf key observed)) with
      | some e =>
        refine .inl ⟨_, [_], ?_, rfl⟩
        intro call hcall
        rcases mem_cons.mp hcall with rfl | hcall
        · exact howner
        · rw [mem_singleton.mp hcall]
          exact ⟨⟨rfl, rfl⟩, rfl⟩
      | none => exact .inr ⟨observed, rfl⟩
    · rw [if_neg hvalid]
      exact .inl ⟨_, [], by simpa using howner, rfl⟩

theorem routeLocked_cases (seams : Seams) (key : SessionKey) :
    (∃ route, b.sessions.lookup key = some route ∧ route.bound = true ∧
      b.routeLocked core seams key = { table := b, result := .ok route }) ∨
    (∃ e calls, b.binding key = none ∧
      (∀ call ∈ BindingCall.owner key :: calls, Inert call ∧ Keyed core call) ∧
      b.routeLocked core seams key =
        { table := b, calls := .owner key :: calls, result := .error e }) ∨
    (∃ observed, b.binding key = none ∧
      b.routeLocked core seams key =
        { table :=
            { b with
              sessions := b.sessions.insert key
                { demand := b.demand key, binding := bindingOf key observed, bound := true } }
          calls := [.owner key,
            .bind observed.internalEndpoint (bindRequest core (bindingOf key observed)) none]
          result := .ok
            { demand := b.demand key, binding := bindingOf key observed, bound := true } }) := by
  unfold Bindings.routeLocked
  dsimp only
  by_cases hbound : ((b.sessions.lookup key).getD {}).bound = true
  · left
    rw [if_pos hbound]
    cases hlookup : b.sessions.lookup key with
    | none =>
      rw [hlookup] at hbound
      cases hbound
    | some route =>
      rw [hlookup] at hbound
      exact ⟨route, rfl, hbound, rfl⟩
  · right
    have hnone : b.binding key = none := by rw [binding_getD, if_neg hbound]
    rw [if_neg hbound]
    rcases bindLocked_cases core b seams key with ⟨e, calls, hcalls, hdid⟩ | ⟨observed, hdid⟩
    · left
      refine ⟨e, calls, hnone, hcalls, ?_⟩
      rw [hdid]
    · right
      refine ⟨observed, hnone, ?_⟩
      rw [hdid, demand_getD]

variable (seams : Seams)

/-- A failed `Acquire` changes nothing; otherwise it adds one demand. -/
theorem acquire_cases (key : SessionKey) :
    (∃ e, (b.acquire core seams key).result = .error e ∧ (b.acquire core seams key).table = b ∧
      Effect core b (b.acquire core seams key).calls (b.acquire core seams key).table b.demand) ∨
    (∃ binding, (b.acquire core seams key).result = .ok binding ∧
      (b.acquire core seams key).table.binding key = some binding ∧
      Effect core b (b.acquire core seams key).calls (b.acquire core seams key).table
        (Function.update b.demand key (b.demand key + 1))) := by
  unfold Bindings.acquire
  by_cases hclosed : b.closed = true
  · rw [if_pos hclosed]
    exact .inl ⟨_, rfl, rfl, Effect.none core b⟩
  · rw [if_neg hclosed]
    rcases routeLocked_cases core b seams key with
      ⟨route, hlookup, hbound, hdid⟩ | ⟨e, calls, -, hcalls, hdid⟩ | ⟨observed, hnone, hdid⟩
    · -- the route held is handed out again
      right
      rw [hdid]
      dsimp only
      refine ⟨route.binding, rfl, ?_, ?_, ?_, rfl, fun h => h.insert (by simp)⟩
      · rw [binding_insert]
        simp [hbound]
      · rw [binding_insert, if_pos hbound]
        have hsame : Function.update b.binding key (some route.binding) = b.binding := by
          rw [update_eq_self_iff, binding_of_lookup hlookup, if_pos hbound]
        rw [hsame]
        exact .quiet _ _ (by simp)
      · rw [demand_insert, demand_of_lookup hlookup]
    · left
      rw [hdid]
      exact ⟨e, rfl, rfl, Effect.reads core b hcalls⟩
    · right
      rw [hdid]
      dsimp only
      refine ⟨bindingOf key observed, rfl, ?_, ?_, ?_, rfl, fun h => ?_⟩
      · rw [Finmap.insert_insert, binding_insert, if_pos rfl, update_self]
      · rw [Finmap.insert_insert, binding_insert, if_pos rfl]
        exact Change.bound observed hnone
      · rw [Finmap.insert_insert, demand_insert]
      · rw [Finmap.insert_insert]
        exact h.insert (by simp)

/-- An acquire of a session without a route reads its owner first. -/
theorem acquire_reads {b : Bindings} (hopen : b.closed = false)
    (hnone : b.binding key = none) :
    ∃ later, (b.acquire core seams key).calls = .owner key :: later := by
  unfold Bindings.acquire
  rw [if_neg (by simp [hopen])]
  rcases routeLocked_cases core b seams key with
    ⟨route, hlookup, hbound, -⟩ | ⟨e, calls, -, -, hdid⟩ | ⟨observed, -, hdid⟩
  · rw [binding_of_lookup hlookup, if_pos hbound] at hnone
    cases hnone
  · rw [hdid]
    exact ⟨calls, rfl⟩
  · rw [hdid]
    exact ⟨[_], rfl⟩

/-- `Release` takes one demand. -/
theorem release_effect (key : SessionKey) (hopen : b.closed = false) :
    Effect core b (b.release core seams key).calls (b.release core seams key).table
      (Function.update b.demand key (b.demand key - 1)) := by
  have hstay : b.demand key = 0 → Effect core b [] b
      (Function.update b.demand key (b.demand key - 1)) := by
    intro hzero
    have hsame : Function.update b.demand key (b.demand key - 1) = b.demand := by
      rw [update_eq_self_iff]
      omega
    rw [hsame]
    exact Effect.none core b
  unfold Bindings.release
  rw [if_neg (by simp [hopen])]
  split
  · rename_i hlookup
    exact hstay (by simp [Bindings.demand, hlookup])
  · rename_i route hlookup
    have hdemand := demand_of_lookup hlookup
    have hbinding := binding_of_lookup hlookup
    by_cases hzero : route.demand = 0
    · rw [if_pos hzero]
      exact hstay (hdemand.trans hzero)
    · rw [if_neg hzero]
      by_cases hmore : 0 < route.demand - 1
      · rw [if_pos hmore]
        refine ⟨?_, ?_, rfl, fun h => h.insert (by dsimp only; omega)⟩
        · rw [binding_insert]
          have hsame : Function.update b.binding key
              (if route.bound then some route.binding else none) = b.binding := by
            rw [update_eq_self_iff, hbinding]
          rw [hsame]
          exact .quiet _ _ (by simp)
        · rw [demand_insert, hdemand]
      · rw [if_neg hmore]
        have hlast : b.demand key - 1 = 0 := by omega
        rw [hlast]
        dsimp only
        by_cases hbound : route.bound = true
        · rw [if_pos hbound] at hbinding ⊢
          refine ⟨?_, demand_erase b key, rfl, fun h => h.erase key⟩
          rw [binding_erase]
          exact .unbind _ _ _ _ hbinding
        · rw [if_neg hbound] at hbinding ⊢
          refine ⟨?_, demand_erase b key, rfl, fun h => h.erase key⟩
          rw [binding_erase, update_eq_self_iff.mpr hbinding.symm]
          exact .quiet _ _ (by simp)

/-- The last `Release` unbinds and forgets the route. -/
theorem release_last {b : Bindings} (hopen : b.closed = false)
    (hone : b.demand key = 1) :
    (b.release core seams key).table.sessions.lookup key = none ∧
      ∀ binding, b.binding key = some binding →
        (b.release core seams key).calls =
          [.unbind (unbindRequest core binding) (seams.unbind (unbindRequest core binding))] := by
  cases hlookup : b.sessions.lookup key with
  | none => simp [Bindings.demand, hlookup] at hone
  | some route =>
    rw [demand_of_lookup hlookup] at hone
    have hbinding := binding_of_lookup hlookup
    simp only [Bindings.release, hopen, hlookup, hone, Bool.false_eq_true, if_false,
      Nat.one_ne_zero, Nat.sub_self, Nat.lt_irrefl]
    by_cases hbound : route.bound = true
    · rw [if_pos hbound] at hbinding ⊢
      refine ⟨Finmap.lookup_erase .., fun binding h => ?_⟩
      rw [hbinding, Option.some.injEq] at h
      rw [h]
    · rw [if_neg hbound] at hbinding ⊢
      refine ⟨Finmap.lookup_erase .., fun binding h => ?_⟩
      cases hbinding.symm.trans h

/-- `Deliver` leaves the demand. -/
theorem deliver_effect (key : SessionKey) :
    Effect core b (b.deliver core seams key).calls (b.deliver core seams key).table b.demand := by
  unfold Bindings.deliver
  by_cases hclosed : b.closed = true
  · rw [if_pos hclosed]
    exact Effect.none core b
  · rw [if_neg hclosed]
    split
    · exact Effect.none core b
    · rename_i route hlookup
      by_cases hzero : route.demand = 0
      · rw [if_pos hzero]
        exact Effect.none core b
      · rw [if_neg hzero]
        rcases routeLocked_cases core b seams key with
          ⟨route', -, -, hdid⟩ | ⟨e, calls, -, hcalls, hdid⟩ | ⟨observed, hnone, hdid⟩
        · rw [hdid]
          exact Effect.none core b
        · rw [hdid]
          exact Effect.reads core b hcalls
        · -- demand survived an invalidation, and the route is bound again
          rw [hdid]
          refine ⟨?_, ?_, rfl, fun h => h.insert ?_⟩
          · dsimp only
            rw [binding_insert, if_pos rfl]
            exact Change.bound observed hnone
          · dsimp only
            rw [demand_insert, update_eq_self]
          · rw [demand_of_lookup hlookup]
            exact Nat.one_le_iff_ne_zero.mpr hzero

/-- `Observe` leaves the demand. -/
theorem observe_effect (observed : HostLinkRegistryObservation) :
    Effect core b (b.observe core seams observed).calls (b.observe core seams observed).table
      b.demand := by
  unfold Bindings.observe
  dsimp only
  split
  · exact Effect.none core b
  · split
    · exact Effect.none core b
    · rename_i route hlookup
      split
      · exact Effect.none core b
      · rename_i hbound
        split
        · exact Effect.none core b
        · split
          · exact Effect.none core b
          · have hbinding := binding_of_lookup hlookup
            rw [if_pos (by simpa using hbound)] at hbinding
            refine ⟨?_, ?_, rfl, fun h => h.insert ?_⟩
            · rw [binding_insert]
              exact .unbind _ _ _ _ hbinding
            · rw [demand_insert, ← demand_of_lookup hlookup, update_eq_self]
            · exact h _ route hlookup

/-- `Close` forgets every session it visits. -/
theorem closeLoop_effect (order : List SessionKey) (b : Bindings)
    (failures : List SeamError) :
    Effect core b (Bindings.closeLoop core seams order b failures).calls
      (Bindings.closeLoop core seams order b failures).table
      (fun k => if k ∈ order then 0 else b.demand k) := by
  induction order generalizing b failures with
  | nil => simpa [Bindings.closeLoop] using Effect.none core b
  | cons key rest ih =>
    have hdemand : (fun k => if k ∈ rest then 0 else Function.update b.demand key 0 k) =
        fun k => if k ∈ key :: rest then 0 else b.demand k := by
      funext k
      by_cases hk : k = key
      · simp [hk]
      · simp [hk]
    rw [Bindings.closeLoop]
    dsimp only
    have hbinding := @binding_getD b key
    by_cases hbound : ((b.sessions.lookup key).getD {}).bound = true
    · rw [if_pos hbound] at hbinding ⊢
      have h := ih { b with sessions := b.sessions.erase key }
        (failures ++ ((seams.unbind (unbindRequest core
          ((b.sessions.lookup key).getD {}).binding)).filter (· ≠ .routeGone)).toList)
      have hchange := h.change
      rw [binding_erase] at hchange
      refine ⟨(Change.unbind _ _ _ _ hbinding).trans hchange, ?_, h.closed,
        fun hd => h.demanded (hd.erase key)⟩
      rw [← hdemand, ← demand_erase]
      exact h.demand
    · rw [if_neg hbound] at hbinding ⊢
      have h := ih { b with sessions := b.sessions.erase key } failures
      have hchange := h.change
      rw [binding_erase, update_eq_self_iff.mpr hbinding.symm] at hchange
      refine ⟨hchange, ?_, h.closed, fun hd => h.demanded (hd.erase key)⟩
      rw [← hdemand, ← demand_erase]
      exact h.demand

/-- Core as a run of the table sees it when every request is valid. -/
def plainCore : BindCore :=
  { currentWireVersion := 1, validateBind := fun _ => true, digest := fun _ => "key" }

end Factory.Routing
