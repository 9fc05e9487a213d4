import Factory.Placement.DesiredWrites
import Factory.Placement.PlacementCalls

/-!
# What licenses a revival

A placement call writes the desired state of a session only in `reviveReleased`, and it comes there
only with a live pending restore of the session among the commands it was listed
(`PlacementCall.revives`). The restore is carried as one boolean, from the pages to the request.
-/

namespace Factory.Placement

open List Dialogue

/-! ## What a call was listed -/

/-- The entry is a live pending restore. -/
def InboxEntry.restoring (e : InboxEntry) (now : Int) : Bool :=
  e.state == .pending && e.live now && e.descriptor.kind == .restore

/-- The entries of a session that an answer lists. -/
def listed (key : SessionKey) : Sigma PlaceAnswer → List InboxEntry
  | ⟨.listDueDispositionCommands _, answer⟩ =>
    match answer with
    | .ok page => page.commands.filter (·.key = key)
    | .error _ => []
  | ⟨.listSessionDispositionCommands asked _ _, answer⟩ =>
    match answer with
    | .ok page => if asked = key then page.commands else []
    | .error _ => []
  | _ => []

/-- The entries of a session a call was listed. -/
def listing (key : SessionKey) (past : List (Sigma PlaceAnswer)) : List InboxEntry :=
  past.flatMap (listed key)

theorem listing_append (key : SessionKey) (past later : List (Sigma PlaceAnswer)) :
    listing key (past ++ later) = listing key past ++ listing key later := flatMap_append

/-- The call was listed a restore of the session, live and pending at a clock it read. -/
def RestoreSeen (key : SessionKey) (past : List (Sigma PlaceAnswer)) : Prop :=
  ∃ entry now, entry ∈ listing key past ∧ ⟨.now, now⟩ ∈ past ∧ entry.restoring now = true

variable {past : List (Sigma PlaceAnswer)}

theorem RestoreSeen.append {key : SessionKey} (h : RestoreSeen key past)
    (log : List (Sigma PlaceAnswer)) : RestoreSeen key (past ++ log) := by
  obtain ⟨entry, now, hentry, hnow, hrestoring⟩ := h
  refine ⟨entry, now, ?_, mem_append_left _ hnow, hrestoring⟩
  rw [listing_append]
  exact mem_append_left _ hentry

/-! ## Inventories -/

theorem OpenSession.add_restore (s : OpenSession) (e : InboxEntry) (now : Int) :
    (s.add e now).restore = (s.restore || e.restoring now) := by
  unfold OpenSession.add InboxEntry.restoring
  cases hstate : e.state with
  | pending | claimed =>
    cases hlive : e.live now <;> simp
  | _ => simp

/-- The sessions that report a restore are sessions of which one was seen. -/
def Licensed (past : List (Sigma PlaceAnswer)) (order : List OpenSession) : Prop :=
  ∀ s ∈ order, s.restore = true → RestoreSeen s.key past

theorem Licensed.append {order : List OpenSession} (h : Licensed past order)
    (log : List (Sigma PlaceAnswer)) : Licensed (past ++ log) order :=
  fun s hs hrestore => (h s hs hrestore).append log

theorem licensed_nil (past : List (Sigma PlaceAnswer)) : Licensed past [] :=
  fun _ hs => absurd hs not_mem_nil

theorem Licensed.addEntry {order : List OpenSession} {now : Int} {e : InboxEntry}
    (h : Licensed past order) (hnow : ⟨.now, now⟩ ∈ past) (he : e ∈ listing e.key past) :
    Licensed past (addEntry now order e) := by
  have hadded : ∀ s : OpenSession, s.key = e.key → (s.restore = true → RestoreSeen s.key past) →
      (s.add e now).restore = true → RestoreSeen (s.add e now).key past := by
    intro s hkey hs hrestore
    rw [OpenSession.add_restore, Bool.or_eq_true] at hrestore
    rw [OpenSession.add_key]
    rcases hrestore with hrestore | hrestoring
    · exact hs hrestore
    · rw [hkey]
      exact ⟨e, now, he, hnow, hrestoring⟩
  intro s hs hrestore
  unfold Placement.addEntry at hs
  split at hs
  · obtain ⟨old, hold, rfl⟩ := mem_map.mp hs
    split at hrestore
    · next hkey =>
      rw [if_pos hkey]
      exact hadded old hkey (h old hold) hrestore
    · next hkey =>
      rw [if_neg hkey]
      exact h old hold hrestore
  · rcases mem_append.mp hs with hs | hs
    · exact h s hs hrestore
    · rw [mem_singleton] at hs
      subst hs
      exact hadded { key := e.key } rfl (fun hnone => (nomatch hnone)) hrestore

theorem Licensed.foldl {now : Int} (hnow : ⟨.now, now⟩ ∈ past) (entries : List InboxEntry)
    {order : List OpenSession} (hentries : ∀ e ∈ entries, e ∈ listing e.key past)
    (h : Licensed past order) : Licensed past (entries.foldl (Placement.addEntry now) order) := by
  induction entries generalizing order with
  | nil => exact h
  | cons e entries ih =>
    exact ih (fun e' he' => hentries e' (mem_cons_of_mem _ he'))
      (h.addEntry hnow (hentries e mem_cons_self))

variable {cfg : PendingSweeperConfig} {log : List (Sigma PlaceAnswer)}

theorem collecting_licensed {shard : Nat} {now : Int} {n : Nat} {c out : Collected}
    (hnow : ⟨.now, now⟩ ∈ past) (hc : Licensed past c.order)
    (h : Returns (collecting cfg shard now n c) log out) : Licensed (past ++ log) out.order := by
  induction n generalizing c past log with
  | zero =>
    obtain ⟨rfl, rfl⟩ := returns_pure.mp h
    exact hc.append []
  | succ n ih =>
    obtain ⟨answer, rest, rfl, hrest⟩ := returns_query_bind.mp h
    match answer, hrest with
    | .error .refusedCursor, hrest =>
      obtain ⟨rfl, rfl⟩ := returns_pure.mp hrest
      exact licensed_nil _
    | .error .other, hrest =>
      obtain ⟨rfl, rfl⟩ := returns_pure.mp hrest
      exact licensed_nil _
    | .ok page, hrest =>
      have hread : ∀ request : ListDueRequest, Licensed
          (past ++ [⟨.listDueDispositionCommands request, .ok page⟩])
          (page.commands.foldl (addEntry now) c.order) := by
        intro request
        refine Licensed.foldl (mem_append_left _ hnow) _ (fun e he => ?_) (hc.append _)
        rw [listing_append]
        refine mem_append_right _ (mem_flatMap.mpr ⟨_, mem_singleton.mpr rfl, ?_⟩)
        exact mem_filter.mpr ⟨he, decide_eq_true rfl⟩
      dsimp only at hrest
      split at hrest
      · obtain ⟨rfl, rfl⟩ := returns_pure.mp hrest
        exact hread _
      · rw [append_cons]
        exact ih (mem_append_left _ hnow) (hread _) hrest

variable {notice : AdmissionNotice} {session : OpenSession}

theorem admissionFallback_licensed {shards : List Nat} {remaining : Nat}
    (h : Returns (admissionFallback cfg notice shards remaining) log (.ok (some session))) :
    session.restore = true → RestoreSeen session.key (past ++ log) := by
  induction shards generalizing remaining past log with
  | nil => cases (returns_pure.mp h).2
  | cons shard shards ih =>
    unfold admissionFallback at h
    split at h
    · cases (returns_pure.mp h).2
    · obtain ⟨now, rest, rfl, hrest⟩ := returns_query_bind.mp h
      obtain ⟨first, later, c, rfl, hcollected, hlater⟩ := returns_bind.mp hrest
      have hlicensed : Licensed ((past ++ [⟨.now, now⟩]) ++ first) c.order :=
        collecting_licensed mem_concat_self (licensed_nil _) hcollected
      cases hfault : c.fault with
      | some fault =>
        simp only [hfault] at hlater
        cases (returns_pure.mp hlater).2
      | none =>
        simp only [hfault] at hlater
        rw [append_cons, ← append_assoc]
        split at hlater
        · next found hfound =>
          obtain ⟨rfl, heq⟩ := returns_pure.mp hlater
          split at heq
          · cases heq
          · cases heq
            rw [append_nil]
            exact hlicensed session (mem_of_find?_eq_some hfound)
        · exact ih hlater

theorem collectAdmissionFallback_licensed
    (h : Returns (collectAdmissionFallback cfg notice) log (.ok (some session))) :
    session.restore = true → RestoreSeen session.key (past ++ log) := by
  obtain ⟨shards, rest, rfl, hrest⟩ := returns_query_bind.mp h
  rw [append_cons]
  exact admissionFallback_licensed hrest

theorem addCommands_licensed {entries : List InboxEntry} {target out : OpenSession}
    (hentries : ∀ e ∈ entries, e ∈ listing target.key past)
    (htarget : target.restore = true → RestoreSeen target.key past)
    (h : Returns (addCommands entries target) log out) :
    out.key = target.key ∧ (out.restore = true → RestoreSeen target.key (past ++ log)) := by
  induction entries generalizing target past log with
  | nil =>
    obtain ⟨rfl, rfl⟩ := returns_pure.mp h
    rw [append_nil]
    exact ⟨rfl, htarget⟩
  | cons e entries ih =>
    obtain ⟨now, rest, rfl, hrest⟩ := returns_query_bind.mp h
    rw [append_cons, ← OpenSession.add_key target e now]
    have hlisting : ∀ e' ∈ e :: entries, e' ∈ listing target.key (past ++ [⟨.now, now⟩]) := by
      intro e' he'
      rw [listing_append]
      exact mem_append_left _ (hentries e' he')
    refine ih (fun e' he' => ?_) (fun hrestore => ?_) hrest
    · rw [OpenSession.add_key]
      exact hlisting e' (mem_cons_of_mem _ he')
    · rw [OpenSession.add_restore, Bool.or_eq_true] at hrestore
      rw [OpenSession.add_key]
      rcases hrestore with hrestore | hrestoring
      · exact (htarget hrestore).append _
      · exact ⟨e, now, hlisting e mem_cons_self, mem_concat_self, hrestoring⟩

theorem sessionPages_licensed {n after : Nat} {target out : OpenSession}
    (hkey : target.key = notice.key) (htarget : target.restore = true → RestoreSeen target.key past)
    (h : Returns (sessionPages cfg notice n after target) log (.ok out)) :
    out.restore = true → RestoreSeen out.key (past ++ log) := by
  induction n generalizing after target past log with
  | zero =>
    obtain ⟨rfl, ⟨⟩⟩ := returns_pure.mp h
    rw [append_nil]
    exact htarget
  | succ n ih =>
    obtain ⟨answer, rest, rfl, hrest⟩ := returns_query_bind.mp h
    rw [append_cons]
    cases answer with
    | error err => cases (returns_pure.mp hrest).2
    | ok page =>
      dsimp only at hrest
      split at hrest
      · obtain ⟨rfl, ⟨⟩⟩ := returns_pure.mp hrest
        rw [append_nil]
        exact fun hrestore => (htarget hrestore).append _
      · split at hrest
        · cases (returns_pure.mp hrest).2
        · obtain ⟨first, later, added, rfl, hadded, hlater⟩ := returns_bind.mp hrest
          have hlisted : ∀ e ∈ page.commands, e ∈ listing target.key
              (past ++ [⟨.listSessionDispositionCommands notice.key after cfg.pageLimit,
                .ok page⟩]) := by
            intro e he
            rw [listing_append, hkey]
            refine mem_append_right _ (mem_flatMap.mpr ⟨_, mem_singleton.mpr rfl, ?_⟩)
            simp only [listed, if_true]
            exact he
          obtain ⟨hsame, hseen⟩ := addCommands_licensed hlisted
            (fun hrestore => (htarget hrestore).append _) hadded
          rw [← hsame] at hseen
          rw [← append_assoc]
          split at hlater
          · obtain ⟨rfl, ⟨⟩⟩ := returns_pure.mp hlater
            rw [append_nil]
            exact hseen
          · split at hlater
            · obtain ⟨rfl, ⟨⟩⟩ := returns_pure.mp hlater
              rw [append_nil]
              exact hseen
            · exact ih (hsame.trans hkey) hseen hlater

theorem collectAdmissionSession_licensed
    (h : Returns (collectAdmissionSession cfg notice) log (.ok (some session))) :
    session.restore = true → RestoreSeen session.key (past ++ log) := by
  obtain ⟨first, later, paged, rfl, hpaged, hlater⟩ := returns_bind.mp h
  rw [← append_assoc]
  cases paged with
  | error fault => cases (returns_pure.mp hlater).2
  | ok target =>
    dsimp only at hlater
    split at hlater
    · obtain ⟨rfl, ⟨⟩⟩ := returns_pure.mp hlater
      rw [append_nil]
      exact sessionPages_licensed rfl (fun hnone => absurd hnone Bool.false_ne_true) hpaged
    · exact collectAdmissionFallback_licensed hlater

/-! ## What a call asks -/

/-- A desired-state write is asked for only with a restore of the session seen, over a version the
call has read and found released. -/
def RevivesOnly (past : List (Sigma PlaceAnswer)) (q : PlaceAsk) : Prop :=
  ∀ request, q = .updateCatalogDesiredState request → RestoreSeen request.key past ∧
    ∃ sha256 entry desired idempotencyKey,
      ⟨.getCatalogEntry request.key, .ok entry⟩ ∈ past ∧
      reviving sha256 request.key entry.record = .write desired idempotencyKey ∧
      request = writeRequest request.key entry desired idempotencyKey

theorem revivesOnly_of_read {q : PlaceAsk} (h : q.isUpdate = false) : RevivesOnly past q := by
  rintro request rfl
  cases h

theorem asks_read {β : Type} {q : PlaceAsk} {f : PlaceAnswer q → Dialogue PlaceAnswer β}
    (hq : q.isUpdate = false) (hf : ∀ answer, Asks RevivesOnly (past ++ [⟨q, answer⟩]) (f answer)) :
    Asks RevivesOnly past (query q >>= f) :=
  asks_query_bind.mpr ⟨revivesOnly_of_read hq, hf⟩

theorem collecting_asks {shard : Nat} {now : Int} (n : Nat) (c : Collected)
    (past : List (Sigma PlaceAnswer)) : Asks RevivesOnly past (collecting cfg shard now n c) := by
  induction n generalizing c past with
  | zero => exact asks_pure _
  | succ n ih =>
    refine asks_read rfl fun answer => ?_
    match answer with
    | .error .refusedCursor => exact asks_pure _
    | .error .other => exact asks_pure _
    | .ok page =>
      by_cases hlast : page.nextCursor = ""
      · simp only [if_pos hlast]
        exact asks_pure _
      · simp only [if_neg hlast]
        exact ih _ _

theorem admissionFallback_asks (shards : List Nat) (remaining : Nat)
    (past : List (Sigma PlaceAnswer)) :
    Asks RevivesOnly past (admissionFallback cfg notice shards remaining) := by
  induction shards generalizing remaining past with
  | nil => exact asks_pure _
  | cons shard shards ih =>
    unfold admissionFallback
    split
    · exact asks_pure _
    · refine asks_read rfl fun now => ?_
      refine (collecting_asks _ _ _).bind fun log c _ => ?_
      split
      · exact asks_pure _
      · split
        · exact asks_pure _
        · exact ih _ _

theorem collectAdmissionFallback_asks (past : List (Sigma PlaceAnswer)) :
    Asks RevivesOnly past (collectAdmissionFallback cfg notice) :=
  asks_read rfl fun _ => admissionFallback_asks _ _ _

theorem addCommands_asks (entries : List InboxEntry) (target : OpenSession)
    (past : List (Sigma PlaceAnswer)) : Asks RevivesOnly past (addCommands entries target) := by
  induction entries generalizing target past with
  | nil => exact asks_pure _
  | cons e entries ih =>
    exact asks_read rfl fun now => ih _ _

theorem sessionPages_asks (n after : Nat) (target : OpenSession) (past : List (Sigma PlaceAnswer)) :
    Asks RevivesOnly past (sessionPages cfg notice n after target) := by
  induction n generalizing after target past with
  | zero => exact asks_pure _
  | succ n ih =>
    refine asks_read rfl fun answer => ?_
    cases answer with
    | error err => exact asks_pure _
    | ok page =>
      dsimp only
      split
      · exact asks_pure _
      · split
        · exact asks_pure _
        · refine (addCommands_asks _ _ _).bind fun log added _ => ?_
          split
          · exact asks_pure _
          · split
            · exact asks_pure _
            · exact ih _ _ _

theorem collectAdmissionSession_asks (past : List (Sigma PlaceAnswer)) :
    Asks RevivesOnly past (collectAdmissionSession cfg notice) := by
  refine (sessionPages_asks _ _ _ _).bind fun log paged _ => ?_
  cases paged with
  | error fault => exact asks_pure _
  | ok target =>
    dsimp only
    split
    · exact asks_pure _
    · exact collectAdmissionFallback_asks _

theorem reviveReleased_asks {sha256 : Bytes → String} {key : SessionKey} {entry : CatalogEntry}
    (hseen : RestoreSeen key past) (hentry : ⟨.getCatalogEntry key, .ok entry⟩ ∈ past) :
    Asks RevivesOnly past (reviveReleased sha256 key entry) := by
  have hasks : Asks (Rewrites key (reviving sha256 key) entry) past
      (reviveReleased sha256 key entry) := rewrite_asks 2 0 (.inl rfl)
  refine (hasks.since prefix_rfl).imp fun l q hq => ?_
  obtain ⟨hpast, rfl | ⟨read, desired, idempotencyKey, hread, hdecide, rfl⟩⟩ := hq
  · exact revivesOnly_of_read rfl
  · rintro request heq
    cases heq
    obtain ⟨later, rfl⟩ := hpast
    refine ⟨hseen.append later, sha256, read, desired, idempotencyKey, ?_, hdecide, rfl⟩
    rcases hread with rfl | hread
    · exact mem_append_left _ hentry
    · exact hread

variable {req : ReconcileRequest}

theorem place_asks {cfg : PlacerConfig} {owner : Option OwnerObservation} {now : Int}
    {entry : CatalogEntry} {writes : Nat} :
    Asks RevivesOnly past (cfg.place req owner now entry writes) := by
  unfold PlacerConfig.place
  dsimp only
  split
  · split
    · exact asks_query (revivesOnly_of_read rfl)
    · refine asks_read rfl fun answer => ?_
      cases answer <;> exact asks_pure _
  · split
    · exact asks_pure _
    · split
      · exact asks_pure _
      · refine asks_read rfl fun answer => ?_
        cases answer with
        | some err => exact asks_pure _
        | none => exact asks_query (revivesOnly_of_read rfl)
  · exact asks_pure _

theorem underClaim_asks {cfg : PlacerConfig} {owner : Option OwnerObservation} {now : Int}
    (hdesired : req.desired = none)
    (hseen : req.restoreRequested = true → RestoreSeen req.key past) :
    Asks RevivesOnly past (cfg.underClaim req owner now) := by
  refine asks_read rfl fun answer => ?_
  cases answer with
  | error err => exact asks_pure _
  | ok entry =>
    simp only [hdesired]
    split
    · next hrestore =>
      refine (reviveReleased_asks ((hseen hrestore).append _)
        mem_concat_self).bind fun log revived _ => ?_
      split
      · exact asks_pure _
      · exact place_asks
    · exact place_asks

theorem deferToHolder_asks : Asks RevivesOnly past (deferToHolder req) := by
  refine asks_read rfl fun answer => ?_
  cases answer with
  | error err => exact asks_pure _
  | ok entry =>
    refine asks_read rfl fun answer => ?_
    cases answer with
    | error err => exact asks_pure _
    | ok owner =>
      refine asks_read rfl fun now => ?_
      split
      · exact asks_pure _
      · exact asks_pure _

theorem reconcile_asks {cfg : PlacerConfig} (hdesired : req.desired = none)
    (hseen : req.restoreRequested = true → RestoreSeen req.key past) :
    Asks RevivesOnly past (cfg.reconcile req) := by
  refine asks_read rfl fun answer => ?_
  cases answer with
  | error err => exact asks_pure _
  | ok entry =>
    refine asks_read rfl fun answer => ?_
    cases answer with
    | error err => exact asks_pure _
    | ok owner =>
      refine asks_read rfl fun now => ?_
      split
      · exact asks_query (revivesOnly_of_read rfl)
      · refine asks_read rfl fun answer => ?_
        cases answer with
        | some err =>
          dsimp only
          split
          · exact deferToHolder_asks
          · exact asks_pure _
        | none =>
          refine (underClaim_asks hdesired fun hrestore => ?_).bind fun log out _ => ?_
          · exact ((((hseen hrestore).append _).append _).append _).append _
          · exact asks_read rfl fun _ => asks_pure _

theorem sweepAnswer_asks (out : Except ReconcileFault Reconciled)
    (past : List (Sigma PlaceAnswer)) : Asks RevivesOnly past (sweepAnswer out) := by
  unfold sweepAnswer
  split
  · exact asks_pure _
  · exact asks_pure _
  · exact asks_read rfl fun _ => asks_pure _
  · exact asks_pure _

variable {placer : PlacerConfig}

theorem placing_asks (sessions : List OpenSession) (p : Placed) (h : Licensed past sessions) :
    Asks RevivesOnly past (placing placer sessions p) := by
  induction sessions generalizing p past with
  | nil => exact asks_pure _
  | cons session sessions ih =>
    have hrest : Licensed past sessions := (forall_mem_cons.mp h).2
    unfold placing
    split
    · refine (reconcile_asks rfl (h session mem_cons_self)).bind fun log out _ => ?_
      refine (sweepAnswer_asks _ _).bind fun log' answer _ => ?_
      split
      · exact asks_pure _
      · exact ih _ ((hrest.append _).append _)
    · exact ih _ hrest

theorem sweeping_asks {s : PendingSweeper} : Asks RevivesOnly [] (s.sweeping cfg placer) := by
  refine asks_read rfl fun answer => ?_
  cases answer with
  | some err => exact asks_pure _
  | none =>
    refine asks_read rfl fun shards => ?_
    split
    · exact asks_pure _
    · refine asks_read rfl fun now => ?_
      refine (collecting_asks _ _ _).bind fun log c hcollected => ?_
      split
      · refine (placing_asks _ _ ?_).bind fun _ _ _ => asks_pure _
        exact collecting_licensed mem_concat_self (licensed_nil _) hcollected
      · exact asks_pure _

theorem collectAdmission_licensed {seams : AdmissionSeams}
    (h : Returns (collectAdmission cfg seams notice) log (.ok (some session))) :
    session.restore = true → RestoreSeen session.key (past ++ log) := by
  unfold collectAdmission at h
  split at h
  · exact collectAdmissionSession_licensed h
  · exact collectAdmissionFallback_licensed h

theorem placeFound_asks (found : Except AdmissionFault (Option OpenSession))
    (hfound : ∀ session, found = .ok (some session) → session.restore = true → RestoreSeen
      session.key past) : Asks RevivesOnly past (placeFound placer found) := by
  match found, hfound with
  | .error fault, _ => exact asks_pure _
  | .ok none, _ => exact asks_pure _
  | .ok (some target), hfound =>
    unfold placeFound
    dsimp only
    split
    · refine (reconcile_asks rfl (hfound target rfl)).bind fun log out _ => ?_
      cases out <;> exact asks_pure _
    · exact asks_pure _

theorem placeInventory_asks {seams : AdmissionSeams} :
    Asks RevivesOnly past (placeInventory cfg seams placer notice) := by
  have hcollected : Asks RevivesOnly past (collectAdmission cfg seams notice) := by
    unfold collectAdmission
    split
    · exact collectAdmissionSession_asks _
    · exact collectAdmissionFallback_asks _
  refine hcollected.bind fun log found hreturns => placeFound_asks found ?_
  rintro session rfl
  exact collectAdmission_licensed hreturns

theorem placeAdmissionWith_asks {seams : AdmissionSeams} :
    Asks RevivesOnly [] (placeAdmissionWith cfg seams placer notice) := by
  refine asks_read rfl fun answer => ?_
  cases answer with
  | some err => exact asks_pure _
  | none =>
    dsimp only
    split
    · exact asks_pure _
    · refine asks_read rfl fun now => ?_
      split
      · exact asks_pure _
      · split
        · refine asks_read rfl fun answer => ?_
          cases answer with
          | error err => exact asks_pure _
          | ok entry =>
            refine asks_read rfl fun answer => ?_
            match answer with
            | .error err => exact asks_pure _
            | .ok none => exact placeInventory_asks
            | .ok (some owner) =>
              refine asks_read rfl fun now => ?_
              split
              · exact asks_pure _
              · exact placeInventory_asks
        · exact placeInventory_asks

/-! ## The calls -/

/-- A call of either trigger, on any replica: what its replica is configured with, and what the
sweeper remembers or what the notice says. -/
inductive PlacementCall where
  | sweep (cfg : PendingSweeperConfig) (placer : PlacerConfig) (sweeper : PendingSweeper)
  | admission (cfg : PendingSweeperConfig) (seams : AdmissionSeams) (placer : PlacerConfig)
      (notice : AdmissionNotice)

inductive PlacementReturn where
  | swept (sweeper : PendingSweeper) (pass : Option Pass)
  | placed (result : Except AdmissionFault Reconciled)

def PlacementCall.program : PlacementCall → Dialogue PlaceAnswer PlacementReturn
  | .sweep cfg placer sweeper => do
    let (sweeper, pass) ← sweeper.sweeping cfg placer
    pure (.swept sweeper pass)
  | .admission cfg seams placer notice => do
    let result ← placeAdmissionWith cfg seams placer notice
    pure (.placed result)

/-- A call revives only a released session it was listed a restore of. -/
theorem PlacementCall.revives (call : PlacementCall) : Asks RevivesOnly [] call.program := by
  cases call with
  | sweep cfg placer sweeper => exact sweeping_asks.bind fun _ _ _ => asks_pure _
  | admission cfg seams placer notice =>
    exact placeAdmissionWith_asks.bind fun _ _ _ => asks_pure _

end Factory.Placement
