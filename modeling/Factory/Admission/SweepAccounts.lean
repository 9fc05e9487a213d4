import Factory.Admission.SweepClaims

/-!
# Both deadline sweeps conserve claims and account for their rows

The work of either sweep on a row keeps what is known of the claims and counts that row, or ends
the pass (`settle_row`, `Reconciler.settle_row`). By the rule of the page loop the same is then
known of a whole pass, however it ended, and the release after it gives back what the memo says
(`release_calls`).
-/

namespace Factory.Admission

open List Dialogue

/-! ## One row -/

/-- What is known after `settle`: if it returned without error the pass goes on with one more row
counted, and else the pass has ended. -/
structure RowSettled (calls : List StoreCall) (fault : Option SweepError) (w' : Working) (n : Nat) :
    Prop where
  left : Left calls w'
  goes : fault = none → Holding calls w' ∧ Counted w'.result (n + 1)
  ends : ∀ e, fault = some e → Counted w'.result n

variable {calls : List StoreCall} {w w' : Working} {n : Nat}

theorem RowSettled.counted {d : Disposition} (h : Holding calls w) (hn : Counted w.result n)
    (hsame : SameClaims w w') (hd : d ≠ .settleable)
    (hdispositions : ∀ c, w'.result.dispositions c = if c = d then w.result.dispositions c + 1 else
      w.result.dispositions c)
    (hrejected : w'.result.rejected = if d = .rejected then w.result.rejected + 1 else
      w.result.rejected) : RowSettled calls none w' n :=
  ⟨(h.same hsame).toLeft, fun _ => ⟨h.same hsame, hn.row hd hdispositions hrejected⟩,
    fun _ he => (nomatch he)⟩

theorem RowSettled.faulted (h : Left calls w) (hn : Counted w.result n) (e : SweepError) :
    RowSettled calls (some e) w n :=
  ⟨h, fun hnone => (nomatch hnone), fun _ _ => hn⟩

variable {fault : Option SweepError} {cfg : DispositionReconcilerConfig}

/-- A row whose session was claimed, or tried: the claim's failure ends the pass, a session another
replica holds is counted deferred, and a row of a claimed session is settled by one rejection. -/
theorem claimed_row {key : SessionKey} {now : Int} {later : List StoreCall} {w₁ : Working}
    {own : List (Sigma DispositionAnswer)} {out : Except SweepError Bool} (h : Holding calls w)
    (hn : Counted w.result n) (hclaim : Returns (claim cfg key now w) own (out, w₁))
    (hfailed : ∀ err, out = .error err → later = [] ∧ fault = some err ∧ w' = w₁)
    (hdeferred : out = .ok false → later = [] ∧ fault = none ∧ SameClaims w₁ w' ∧ (∀ c,
      w'.result.dispositions c = if c = .deferred then w₁.result.dispositions c + 1 else
      w₁.result.dispositions c) ∧ w'.result.rejected = w₁.result.rejected)
    (hsettled : out = .ok true → later = [.reject key] ∧ ∀ calls, Holding calls w₁.queried → Counted
      w₁.queried.result n → RowSettled calls fault w' n) :
    RowSettled (calls ++ own.filterMap dispositionCall ++ later) fault w' n := by
  obtain ⟨hleft, hholds, hdispositions, hrejected⟩ := h.claim hclaim
  have hn₁ : Counted w₁.result n := hn.same hdispositions hrejected
  rcases out with err | _ | _
  · obtain ⟨rfl, rfl, rfl⟩ := hfailed err rfl
    rw [append_nil]
    exact .faulted hleft hn₁ err
  · obtain ⟨rfl, rfl, hsame, hcount, hkeep⟩ := hdeferred rfl
    rw [append_nil]
    exact .counted (hholds false rfl).1 hn₁ hsame (by simp) hcount hkeep
  · obtain ⟨rfl, hrow⟩ := hsettled rfl
    obtain ⟨hholding, hheld⟩ := hholds true rfl
    exact hrow _ (hholding.call (.inr ⟨key, rfl, hheld⟩)) (hn₁.same rfl rfl)

theorem dispositionRefusal_ne_settleable {err : SeamError} {d : Disposition}
    (h : dispositionRefusal err = some d) : d ≠ .settleable := by
  unfold dispositionRefusal at h
  split at h
  · cases h
    simp
  · split at h <;> cases h <;> simp

theorem settled_row {entry : DispositionInboxEntry} {answer : Except SeamError Bool}
    (h : Holding calls w) (hn : Counted w.result n) (hrun : (fault, w') = settled entry w answer) :
    RowSettled calls fault w' n := by
  unfold settled at hrun
  split at hrun
  · cases hrun
    exact .counted (d := .terminal) h hn ⟨rfl, rfl, rfl, rfl, rfl⟩ (by simp) (fun _ => rfl) rfl
  · cases hrun
    exact .counted (d := .rejected) h hn ⟨rfl, rfl, rfl, rfl, rfl⟩ (by simp) (fun _ => rfl) rfl
  · split at hrun
    · next d hd =>
      cases hrun
      exact .counted (d := d) h hn ⟨rfl, rfl, rfl, rfl, rfl⟩ (dispositionRefusal_ne_settleable hd)
        (fun _ => rfl) (if_neg (dispositionRefusal_ne_rejected hd)).symm
    · cases hrun
      exact .faulted h.toLeft hn _

variable {log : List (Sigma DispositionAnswer)}

theorem settle_row {now : Int} {entry : DispositionInboxEntry} (h : Holding calls w)
    (hn : Counted w.result n)
    (hrun : Returns (DispositionReconciler.settle cfg now entry w) log (fault, w')) :
    RowSettled (calls ++ log.filterMap dispositionCall) fault w' n := by
  unfold DispositionReconciler.settle at hrun
  dsimp only at hrun
  split at hrun
  · next hd =>
    obtain ⟨rfl, ⟨⟩⟩ := returns_pure.mp hrun
    rw [filterMap_nil, append_nil]
    exact .counted h hn ⟨rfl, rfl, rfl, rfl, rfl⟩ hd (fun _ => rfl)
      (if_neg (dispositionSettleable_ne_rejected _ _)).symm
  · obtain ⟨first, later, ⟨out, w₁⟩, rfl, hclaim, hrest⟩ := returns_bind.mp hrun
    rw [filterMap_append, ← append_assoc]
    refine claimed_row h hn hclaim ?_ ?_ ?_
    · rintro err rfl
      obtain ⟨rfl, ⟨⟩⟩ := returns_pure.mp hrest
      exact ⟨rfl, rfl, rfl⟩
    · rintro rfl
      obtain ⟨rfl, ⟨⟩⟩ := returns_pure.mp hrest
      exact ⟨rfl, rfl, ⟨rfl, rfl, rfl, rfl, rfl⟩, fun _ => rfl, rfl⟩
    · rintro rfl
      obtain ⟨answer, rest, rfl, hlast⟩ := returns_query_bind.mp hrest
      obtain ⟨rfl, heq⟩ := returns_pure.mp hlast
      exact ⟨rfl, fun calls hholding hcounted => settled_row hholding hcounted heq⟩

/-! ### The legacy sweep -/

theorem settleable_ne_rejected (record : InboxRecord) (now : Int) :
    settleable record now ≠ .rejected := by
  unfold settleable
  split
  · simp
  split
  · simp
  split
  · simp
  split <;> simp

theorem settlementRefusal_ne {err : SeamError} {d : Disposition}
    (h : settlementRefusal err = some d) : d ≠ .settleable ∧ d ≠ .rejected := by
  unfold settlementRefusal at h
  split at h <;> cases h <;> simp

theorem Reconciler.settled_row {answer : Option SeamError} (h : Holding calls w)
    (hn : Counted w.result n) (hrun : (fault, w') = Reconciler.settled w answer) :
    RowSettled calls fault w' n := by
  unfold Reconciler.settled at hrun
  split at hrun
  · cases hrun
    exact .counted (d := .rejected) h hn ⟨rfl, rfl, rfl, rfl, rfl⟩ (by simp) (fun _ => rfl) rfl
  · split at hrun
    · next d hd =>
      cases hrun
      obtain ⟨hsettleable, hrejected⟩ := settlementRefusal_ne hd
      exact .counted (d := d) h hn ⟨rfl, rfl, rfl, rfl, rfl⟩ hsettleable (fun _ => rfl)
        (if_neg hrejected).symm
    · cases hrun
      exact .faulted h.toLeft hn _

theorem returns_claimant {α : Type} {part : Dialogue DispositionAnswer α}
    {log : List (Sigma ReconcilerAnswer)} {a : α} (h : Returns (claimant part) log a) :
    ∃ own, Returns part own a ∧ log.filterMap reconcilerCall = own.filterMap dispositionCall := by
  obtain ⟨own, rfl, hown⟩ := returns_embed h
  refine ⟨own, hown, ?_⟩
  rw [filterMap_map]
  rfl

theorem Reconciler.settle_row {cfg : ReconcilerConfig} {now : Int} {entry : InboxEntry}
    {log : List (Sigma ReconcilerAnswer)} (h : Holding calls w) (hn : Counted w.result n)
    (hrun : Returns (Reconciler.settle cfg now entry w) log (fault, w')) :
    RowSettled (calls ++ log.filterMap reconcilerCall) fault w' n := by
  unfold Reconciler.settle at hrun
  dsimp only at hrun
  split at hrun
  · next hd =>
    obtain ⟨rfl, ⟨⟩⟩ := returns_pure.mp hrun
    rw [filterMap_nil, append_nil]
    exact .counted h hn ⟨rfl, rfl, rfl, rfl, rfl⟩ hd (fun _ => rfl)
      (if_neg (settleable_ne_rejected _ _)).symm
  · obtain ⟨first, later, ⟨out, w₁⟩, rfl, hembedded, hrest⟩ := returns_bind.mp hrun
    obtain ⟨own, hclaim, hcalls⟩ := returns_claimant hembedded
    rw [filterMap_append, ← append_assoc, hcalls]
    refine claimed_row h hn hclaim ?_ ?_ ?_
    · rintro err rfl
      obtain ⟨rfl, ⟨⟩⟩ := returns_pure.mp hrest
      exact ⟨rfl, rfl, rfl⟩
    · rintro rfl
      obtain ⟨rfl, ⟨⟩⟩ := returns_pure.mp hrest
      exact ⟨rfl, rfl, ⟨rfl, rfl, rfl, rfl, rfl⟩, fun _ => rfl, rfl⟩
    · rintro rfl
      obtain ⟨answer, rest, rfl, hlast⟩ := returns_query_bind.mp hrest
      obtain ⟨rfl, heq⟩ := returns_pure.mp hlast
      exact ⟨rfl, fun calls hholding hcounted => Reconciler.settled_row hholding hcounted heq⟩

/-! ## A pass -/

section Pass

variable {Q : Type} {A : Q → Type} {P Row : Type}

/-- What is known of the calls, read off by `call`, and of the result while a pass goes on. -/
def Going (call : Sigma A → Option StoreCall) (past : List (Sigma A)) (r : Working × Nat) : Prop :=
  Holding (past.filterMap call) r.1 ∧ Counted r.1.result r.2

/-- What is known when it has ended. -/
def Over (call : Sigma A → Option StoreCall) (past : List (Sigma A)) (r : Working × Nat) : Prop :=
  Left (past.filterMap call) r.1 ∧ Counted r.1.result r.2

/-- The parts of a sweep's page loop that read pages and count them, and the work on a row. -/
structure SettlesRows (l : PageLoop A P Row Working) (call : Sigma A → Option StoreCall) :
    Prop where
  list : ∀ {c log a}, Returns (l.list c) log a → log.filterMap call = [.list]
  queried : l.queried = Working.queried
  count : ∀ page w, SameClaims w (l.count page w) ∧
    (l.count page w).result.dispositions = w.result.dispositions ∧
    (l.count page w).result.rejected = w.result.rejected
  work : ∀ {calls row w n log fault w'}, Holding calls w → Counted w.result n →
    Returns (l.work row w) log (fault, w') →
    RowSettled (calls ++ log.filterMap call) fault w' n
  exhausted : ∀ w, l.exhausted w = w
  truncated : ∀ w, l.truncated w = { w with result := { w.result with truncated := true } }

theorem SettlesRows.ends {l : PageLoop A P Row Working} {call : Sigma A → Option StoreCall}
    (h : SettlesRows l call) : l.tallied.Ends (Going call) (Over call) where
  list := by
    rintro past c log a ⟨w, n⟩ ⟨hholding, hcounted⟩ hlist
    constructor
    · rw [filterMap_append, h.list hlist]
      change Holding _ (l.queried w)
      rw [h.queried]
      exact hholding.call (.inl rfl)
    · change Counted (l.queried w).result n
      rw [h.queried]
      exact hcounted.same rfl rfl
  count := by
    rintro past page ⟨w, n⟩ ⟨hholding, hcounted⟩
    obtain ⟨hsame, hdispositions, hrejected⟩ := h.count page w
    exact ⟨hholding.same hsame, hcounted.same hdispositions hrejected⟩
  worked := by
    rintro past row ⟨w, n⟩ log ⟨w', n'⟩ ⟨hholding, hcounted⟩ hrun
    obtain ⟨first, later, ⟨fault, w₁⟩, rfl, hwork, hrest⟩ := returns_bind.mp hrun
    have hrow := h.work hholding hcounted hwork
    cases fault with
    | some e =>
      obtain ⟨rfl, ⟨⟩⟩ := returns_pure.mp hrest
    | none =>
      obtain ⟨rfl, ⟨⟩⟩ := returns_pure.mp hrest
      rw [Going, append_nil, filterMap_append]
      exact hrow.goes rfl
  faulted := by
    rintro past row ⟨w, n⟩ log e ⟨w', n'⟩ ⟨hholding, hcounted⟩ hrun
    obtain ⟨first, later, ⟨fault, w₁⟩, rfl, hwork, hrest⟩ := returns_bind.mp hrun
    have hrow := h.work hholding hcounted hwork
    cases fault with
    | none =>
      obtain ⟨rfl, ⟨⟩⟩ := returns_pure.mp hrest
    | some e' =>
      obtain ⟨rfl, ⟨⟩⟩ := returns_pure.mp hrest
      rw [Over, append_nil, filterMap_append]
      exact ⟨hrow.left, hrow.ends e rfl⟩
  exhausted := by
    rintro past ⟨w, n⟩ hgoing
    change Going call past (l.exhausted w, n)
    rw [h.exhausted]
    exact hgoing
  truncated := by
    rintro past ⟨w, n⟩ ⟨hholding, hcounted⟩
    change Going call past (l.truncated w, n)
    rw [h.truncated]
    exact ⟨hholding.same ⟨rfl, rfl, rfl, rfl, rfl⟩, hcounted.same rfl rfl⟩
  ended := fun h => ⟨h.1.toLeft, h.2⟩

end Pass

theorem dispositions_settlesRows (cfg : DispositionReconcilerConfig) (shard : Nat) (now : Int) :
    SettlesRows (DispositionReconciler.pageLoop cfg shard now) dispositionCall where
  list h := by
    rw [returns_query.mp h]
    rfl
  queried := rfl
  count _ _ := ⟨⟨rfl, rfl, rfl, rfl, rfl⟩, rfl, rfl⟩
  work := settle_row
  exhausted _ := rfl
  truncated _ := rfl

theorem reconciler_settlesRows (cfg : ReconcilerConfig) (shard : Nat) (now : Int) :
    SettlesRows (Reconciler.pageLoop cfg shard now) reconcilerCall where
  list h := by
    rw [returns_query.mp h]
    rfl
  queried := rfl
  count _ _ := ⟨⟨rfl, rfl, rfl, rfl, rfl⟩, rfl, rfl⟩
  work := Reconciler.settle_row
  exhausted _ := rfl
  truncated _ := rfl

/-! ## The release -/

/-- `release` gives back the claims the memo says were taken, one call each. -/
structure ReleaseMove (held : List (SessionKey × Bool)) (result result' : SweepResult)
    (calls : List StoreCall) : Prop where
  calls_eq : calls = (held.filter (·.2)).map fun entry => .release entry.1
  balance : result'.released + result'.releaseFailures =
    result.released + result.releaseFailures + held.countP (·.2)
  queries : result'.queries = result.queries + held.countP (·.2)
  claimed : result'.claimed = result.claimed
  dispositions : result'.dispositions = result.dispositions
  rejected : result'.rejected = result.rejected

variable {held : List (SessionKey × Bool)} {result : SweepResult}

theorem ReleaseMove.cons {before result' : SweepResult} (h : ReleaseMove held before result' calls)
    (key : SessionKey)
    (hbalance : before.released + before.releaseFailures = result.released + result.releaseFailures
      + 1) (hqueries : before.queries = result.queries + 1)
    (hclaimed : before.claimed = result.claimed)
    (hdispositions : before.dispositions = result.dispositions)
    (hrejected : before.rejected = result.rejected) :
    ReleaseMove ((key, true) :: held) result result' (.release key :: calls) := by
  have hcount : List.countP (·.2) ((key, true) :: held) = held.countP (·.2) + 1 :=
    countP_cons_of_pos rfl
  refine ⟨?_, ?_, ?_, h.claimed.trans hclaimed, h.dispositions.trans hdispositions,
    h.rejected.trans hrejected⟩
  · rw [h.calls_eq]
    rfl
  · rw [h.balance, hbalance, hcount]
    omega
  · rw [h.queries, hqueries, hcount]
    omega

theorem release_calls {result' : SweepResult} (h : Returns (release cfg held result) log result') :
    ReleaseMove held result result' (log.filterMap dispositionCall) := by
  induction held generalizing result log with
  | nil =>
    obtain ⟨rfl, rfl⟩ := returns_pure.mp h
    exact ⟨rfl, rfl, rfl, rfl, rfl, rfl⟩
  | cons entry held ih =>
    obtain ⟨key, _ | _⟩ := entry
    · have hrest := ih h
      refine ⟨hrest.calls_eq, ?_, ?_, hrest.claimed, hrest.dispositions, hrest.rejected⟩
      · rw [hrest.balance, countP_cons_of_neg (by simp)]
      · rw [hrest.queries, countP_cons_of_neg (by simp)]
    · obtain ⟨answer, rest, rfl, hrest⟩ := returns_query_bind.mp h
      cases answer with
      | none => exact (ih hrest).cons key (Nat.add_right_comm _ _ _) rfl rfl rfl rfl
      | some err => exact (ih hrest).cons key rfl rfl rfl rfl rfl

theorem count_release (held : List (SessionKey × Bool)) (key : SessionKey) :
    ((held.filter (·.2)).map fun entry => StoreCall.release entry.1).count (.release key) =
      held.count (key, true) := by
  induction held with
  | nil => rfl
  | cons entry held ih =>
    obtain ⟨k, _ | _⟩ := entry
    · rw [filter_cons_of_neg (by simp), ih, count_cons_of_ne (by simp)]
    · rw [filter_cons_of_pos rfl, map_cons, count_cons, count_cons, ih]
      simp

theorem Left.conserves {more : List StoreCall} (h : Left calls w) (hn : Counted w.result n)
    (hrelease : ReleaseMove w.held w.result result more) : Conserves (calls ++ more) result n := by
  have hmore : ∀ call ∈ more, ∃ key, call = .release key ∧ (key, true) ∈ w.held := by
    rw [hrelease.calls_eq]
    intro call hcall
    obtain ⟨⟨key, taken⟩, hentry, rfl⟩ := mem_map.mp hcall
    obtain ⟨hheld, ⟨⟩⟩ := mem_filter.mp hentry
    exact ⟨key, rfl, hheld⟩
  have hacquire : ∀ key, more.count (.acquire key true) = 0 := by
    intro key
    refine count_eq_zero.mpr fun hmem => ?_
    obtain ⟨k, ⟨⟩, -⟩ := hmore _ hmem
  have hlength : more.length = w.held.countP (·.2) := by
    rw [hrelease.calls_eq, length_map, countP_eq_length_filter]
  have hcounted := hn.same hrelease.dispositions hrelease.rejected
  refine ⟨fun key => ?_, fun key => ?_, fun key => ?_, fun past key hpast => ?_, ?_,
    hcounted.total, hcounted.settleable, hcounted.rejected, fun past key hpast => ?_, ?_⟩
  · rw [count_append, h.acquired, hacquire]
    exact nodup_iff_count_le_one.mp h.keys.of_map _
  · have hasks : more.countP (·.asksFor key) = 0 := by
      refine countP_eq_zero.mpr fun call hcall => ?_
      obtain ⟨k, rfl, -⟩ := hmore call hcall
      exact Bool.false_ne_true
    rw [countP_append, hasks]
    exact h.asked key
  · rw [count_append, count_append, count_eq_zero.mpr (h.unreleased key), hacquire,
      hrelease.calls_eq, count_release, h.acquired, Nat.zero_add, Nat.add_zero]
  · -- A release is no call of the pass, so all calls of the pass came before it.
    have hbefore : calls <+: past := by
      have hle : calls.length ≤ past.length := by
        by_contra hlt
        have hin : past ++ [StoreCall.release key] <+: calls := by
          refine prefix_of_prefix_length_le hpast (prefix_append _ _) ?_
          rw [length_append, length_singleton]
          omega
        exact h.unreleased key (hin.subset mem_concat_self)
      exact prefix_of_prefix_length_le (prefix_append _ _) ((prefix_append _ _).trans hpast) hle
    have hcall : StoreCall.release key ∈ calls ++ more :=
      hpast.subset mem_concat_self
    obtain ⟨k, ⟨⟩, hheld⟩ := hmore _ ((mem_append.mp hcall).resolve_left (h.unreleased key))
    refine hbefore.subset ?_
    rw [← count_pos_iff, h.acquired]
    exact count_pos_iff.mpr hheld
  · have hbalance := hrelease.balance
    have hreleased := h.released
    have hfailures := h.releaseFailures
    rw [hrelease.claimed, h.claimed]
    omega
  · have hin : past ++ [StoreCall.reject key] <+: calls := by
      refine prefix_of_not_mem (fun hmem => ?_) hpast
      obtain ⟨k, ⟨⟩, -⟩ := hmore _ hmem
    refine ⟨h.rejects past key hin, fun hmem => h.unreleased key (hin.subset ?_)⟩
    exact mem_append_left _ hmem
  · rw [hrelease.queries, h.queries, length_append, hlength]

/-! ## A sweep -/

/-- The result `Sweep` returns: the zero result with an error from before its pass. -/
def sweptResult : Except SweepError (SweepPass SweepResult) → SweepResult
  | .error _ => {}
  | .ok pass => pass.result

section Sweep

variable {Q : Type} {A : Q → Type} {P Row : Type}

/-- `settle` returned from `settled` rows without error, in a sweep that asked `log` and returned
`out`. The pass begins with its one reading of the clock, and its loop, told to count, counts
so many. -/
def SettledRows (clock : Int → Sigma A) (loop : Nat → Int → PageLoop A P Row Working)
    (maxPages : Nat) (log : List (Sigma A)) (out : Except SweepError (SweepPass SweepResult))
    (settled : Nat) : Prop :=
  match out with
  | .error _ => settled = 0
  | .ok pass => ∃ before now calls after kept w, log = before ++ clock now :: (calls ++ after) ∧
      Returns ((loop pass.shard now).tallied.pages maxPages pass.start
        ({ result := { shard := pass.shard, resumed := pass.start ≠ "" } }, 0))
        calls (kept, pass.fault, w, settled)

theorem Going.init (call : Sigma A → Option StoreCall) (shard : Nat) (resumed : Bool) :
    Going call [] ({ result := { shard := shard, resumed := resumed } }, 0) := by
  refine ⟨⟨⟨nodup_nil, fun _ => rfl, fun _ => Nat.zero_le _, fun _ => not_mem_nil,
    fun past key hpast => ?_, rfl, rfl, rfl, rfl⟩, fun _ _ => rfl⟩, ⟨?_, rfl, rfl⟩⟩
  · simp at hpast
  · exact Finset.sum_const_zero

theorem Conserves.init : Conserves [] {} 0 := by
  refine ⟨fun _ => Nat.zero_le _, fun _ => Nat.zero_le _, fun _ => rfl, fun past key hpast => ?_,
    rfl, Finset.sum_const_zero, rfl, rfl, fun past key hpast => ?_, rfl⟩
  · simp at hpast
  · simp at hpast

theorem SettlesRows.conserves {call : Sigma A → Option StoreCall}
    {loop : Nat → Int → PageLoop A P Row Working} {clock : Int → Sigma A} {shard : Nat} {now : Int}
    (h : SettlesRows (loop shard now) call) {maxPages : Nat} {start kept : Cursor}
    (before : List (Sigma A)) {calls after : List (Sigma A)} {made : SweepPass SweepResult}
    (hbefore : (before ++ [clock now]).filterMap call = [])
    (hpages : Returns ((loop shard now).pages maxPages start { result := { shard := shard, resumed
      := start ≠ "" } }) calls (kept, fault, w))
    (hrelease : ReleaseMove w.held w.result result (after.filterMap call))
    (hshard : made.shard = shard) (hstart : made.start = start) (hfault : made.fault = fault)
    (hresult : made.result = result) :
    ∃ settled, SettledRows clock loop maxPages (before ++ clock now :: (calls ++ after))
        (.ok made) settled ∧
      Conserves ((before ++ clock now :: (calls ++ after)).filterMap call)
        (sweptResult (.ok made)) settled := by
  subst hshard hstart hfault hresult
  obtain ⟨settled, htallied⟩ := PageLoop.tallied_pages hpages 0
  refine ⟨settled, ⟨before, now, calls, after, kept, w, rfl, htallied⟩, ?_⟩
  obtain ⟨hleft, hcounted⟩ := h.ends.pages (Going.init call _ _) htallied
  rw [append_cons, filterMap_append, hbefore, nil_append, filterMap_append]
  exact hleft.conserves hcounted hrelease

end Sweep

theorem DispositionReconciler.sweep_conserves {rotor rotor' : Rotor}
    {out : Except SweepError (SweepPass SweepResult)}
    (hrun : Returns (DispositionReconciler.sweep cfg rotor) log (rotor', out)) :
    ∃ settled, SettledRows (fun now => ⟨.now, now⟩) (DispositionReconciler.pageLoop cfg)
        cfg.maxPages log out settled ∧
      Conserves (log.filterMap dispositionCall) (sweptResult out) settled := by
  rcases dispositions_sweep_cases hrun with ⟨e, rfl, -, hasked⟩ | ⟨shards, shard, cursor, rotor₁,
    now, paged, released, next, fault, w, result, -, rfl, hpages, hrelease, -, rfl⟩
  · have hnone : log.filterMap dispositionCall = [] := by
      refine filterMap_eq_nil_iff.mpr fun c hc => ?_
      obtain ⟨question, answer⟩ := c
      rcases hasked _ hc with hq | hq
      · cases hq
        rfl
      · cases hq
        rfl
    rw [hnone]
    exact ⟨0, rfl, .init⟩
  · exact (dispositions_settlesRows cfg shard now).conserves
      [⟨.authorizeServiceSweep, none⟩, ⟨.controlShards, shards⟩] rfl hpages
      (release_calls hrelease) rfl rfl rfl rfl

theorem Reconciler.sweep_conserves {cfg : ReconcilerConfig} {rotor rotor' : Rotor}
    {log : List (Sigma ReconcilerAnswer)} {out : Except SweepError (SweepPass SweepResult)}
    (hrun : Returns (Reconciler.sweep cfg rotor) log (rotor', out)) :
    ∃ settled, SettledRows (fun now => ⟨.shared .now, now⟩) (Reconciler.pageLoop cfg)
        cfg.maxPages log out settled ∧
      Conserves (log.filterMap reconcilerCall) (sweptResult out) settled := by
  obtain ⟨denied, rest, rfl, hauthorized⟩ := returns_query_bind.mp hrun
  cases denied with
  | some err =>
    obtain ⟨rfl, ⟨⟩⟩ := returns_pure.mp hauthorized
    exact ⟨0, rfl, .init⟩
  | none =>
    obtain ⟨shards, rest, rfl, hcounted⟩ := returns_query_bind.mp hauthorized
    cases hrotate : rotor.rotate cfg.minControlShards shards with
    | none =>
      rw [hrotate] at hcounted
      obtain ⟨rfl, ⟨⟩⟩ := returns_pure.mp hcounted
      exact ⟨0, rfl, .init⟩
    | some rotated =>
      obtain ⟨shard, rotor₁⟩ := rotated
      rw [hrotate] at hcounted
      obtain ⟨paged, later, ⟨fault, w⟩, rfl, hpage, hlater⟩ := returns_bind.mp hcounted
      obtain ⟨now, onward, rfl, hloop⟩ := returns_query_bind.mp hpage
      obtain ⟨calls, dropped, ⟨kept, fault₁, w₁⟩, rfl, hpages, hdrop⟩ := returns_bind.mp hloop
      obtain ⟨rfl, ⟨⟩⟩ := returns_pure.mp hdrop
      obtain ⟨after, last, result, rfl, hreleased, hend⟩ := returns_bind.mp hlater
      obtain ⟨own, hrelease, hcalls⟩ := returns_claimant hreleased
      obtain ⟨rfl, ⟨⟩⟩ := returns_pure.mp hend
      rw [append_nil, append_nil]
      have hmove := release_calls hrelease
      rw [← hcalls] at hmove
      exact (reconciler_settlesRows cfg shard now).conserves
        [⟨.shared .authorizeServiceSweep, none⟩, ⟨.shared .controlShards, shards⟩] rfl
        hpages hmove rfl rfl rfl rfl

/-- Whatever the seams answer, both sweeps take each claim at most once and give back exactly
those they took, reject under a claim they hold, and count every row and every call. -/
theorem deadline_sweeps_conserve_claims :
    (∀ (cfg : ReconcilerConfig) (rotor : Rotor)
      (answers : Nat → (q : ReconcilerAsk) → ReconcilerAnswer q),
      let made := (Reconciler.sweep cfg rotor).run answers 0
      ∃ settled, SettledRows (fun now => ⟨.shared .now, now⟩) (Reconciler.pageLoop cfg)
          cfg.maxPages made.1 made.2.2 settled ∧
        Conserves (made.1.filterMap reconcilerCall) (sweptResult made.2.2) settled) ∧
    ∀ (cfg : DispositionReconcilerConfig) (rotor : Rotor)
      (answers : Nat → (q : DispositionAsk) → DispositionAnswer q),
      let made := (DispositionReconciler.sweep cfg rotor).run answers 0
      ∃ settled, SettledRows (fun now => ⟨.now, now⟩) (DispositionReconciler.pageLoop cfg)
          cfg.maxPages made.1 made.2.2 settled ∧
        Conserves (made.1.filterMap dispositionCall) (sweptResult made.2.2) settled := by
  constructor
  · intro cfg rotor answers
    exact Reconciler.sweep_conserves (returns_run answers _ 0)
  · intro cfg rotor answers
    exact DispositionReconciler.sweep_conserves (returns_run answers _ 0)

end Factory.Admission
