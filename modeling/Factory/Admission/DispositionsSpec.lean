import Factory.Admission.Dispositions
import Factory.Admission.RotorSpec

/-!
# What a pass of the disposition sweep does

One lemma for each function of the sweep: what it asks and what it records (`claim_spec`,
`release_spec`, `settle_spec`, `dispositions_sweep_cases`). From them the sweep is seen to make
bounded passes over the due views of its shards (`dispositions_sweepsPages`), and its counters to
count the rows it recorded (`DispositionAccounted`).
-/

namespace Factory.Admission

open List Dialogue

/-! ## What is asked -/

/-- The due view of a shard: the empty cursor is its head and its end. -/
def dispositionShape : Paging.Shape Cursor DispositionDueCommandPage DispositionInboxEntry where
  head := ""
  next page := page.nextCursor
  rows page := page.commands

/-- The page read a question was, with what it came to: a cursor is refused by an inbox error with
the code `cursor`. -/
def dispositionRead :
    Sigma DispositionAnswer → Option (Cursor × Paging.Answer DispositionDueCommandPage)
  | ⟨.listDueDispositionCommands request, answer⟩ =>
    some (request.cursor, pageAnswer (fun e => e.inbox = some .cursor) answer)
  | _ => none

/-- The shard a page read was of. -/
def dispositionShardOf : Sigma DispositionAnswer → Option Nat
  | ⟨.listDueDispositionCommands request, _⟩ => some request.shard
  | _ => none

/-- The command a question rejected, if this call did. -/
def acceptedRejection : Sigma DispositionAnswer → Option CommandDescriptor
  | ⟨.rejectDispositionCommand request, answer⟩ =>
    match answer with
    | .ok true => some request.descriptor
    | .ok false => none
    | .error _ => none
  | _ => none

/-- The questions about reconciliation claims, which neither read a page nor reject. -/
def AboutClaims (log : List (Sigma DispositionAnswer)) : Prop :=
  ∀ e ∈ log, (∃ request answer, e = ⟨.acquireReconciliationClaim request, answer⟩) ∨
    ∃ request answer, e = ⟨.releaseReconciliationClaim request, answer⟩

theorem AboutClaims.nil : AboutClaims [] := fun _ h => absurd h not_mem_nil

variable {log : List (Sigma DispositionAnswer)}

theorem AboutClaims.filterMap_eq_nil (h : AboutClaims log) {β : Type}
    {f : Sigma DispositionAnswer → Option β}
    (hacquire : ∀ request answer, f ⟨.acquireReconciliationClaim request, answer⟩ = none)
    (hrelease : ∀ request answer, f ⟨.releaseReconciliationClaim request, answer⟩ = none) :
    log.filterMap f = [] := by
  refine filterMap_eq_nil_iff.mpr fun e he => ?_
  rcases h e he with ⟨request, answer, rfl⟩ | ⟨request, answer, rfl⟩
  · exact hacquire request answer
  · exact hrelease request answer

theorem AboutClaims.reads (h : AboutClaims log) : log.filterMap dispositionRead = [] :=
  h.filterMap_eq_nil (fun _ _ => rfl) fun _ _ => rfl

theorem AboutClaims.rejections (h : AboutClaims log) : log.filterMap acceptedRejection = [] :=
  h.filterMap_eq_nil (fun _ _ => rfl) fun _ _ => rfl

/-! ## What is recorded -/

/-- The rows a result accounts for. -/
def SweepResult.rows (r : SweepResult) : List DispositionInboxEntry := r.recorded.map (·.1)

/-- The commands a result counts as rejected. -/
def SweepResult.rejections (r : SweepResult) : List CommandDescriptor :=
  (r.recorded.filter (·.2 = .rejected)).map (·.1.record.descriptor)

/-- The counters of a result count the rows it accounts for. -/
structure SweepResult.Tallied (r : SweepResult) : Prop where
  dispositions : ∀ d, r.dispositions d = r.recorded.countP (·.2 = d)
  rejected : r.rejected = r.dispositions .rejected

/-- The two results account for the same rows. -/
structure SweepResult.Alike (r r' : SweepResult) : Prop where
  recorded : r'.recorded = r.recorded
  dispositions : r'.dispositions = r.dispositions
  rejected : r'.rejected = r.rejected

theorem SweepResult.Alike.refl (r : SweepResult) : r.Alike r := ⟨rfl, rfl, rfl⟩

variable {r' r : SweepResult}

theorem SweepResult.Alike.trans {r'' : SweepResult} (h : r.Alike r') (h' : r'.Alike r'') :
    r.Alike r'' :=
  ⟨h'.recorded.trans h.recorded, h'.dispositions.trans h.dispositions, h'.rejected.trans h.rejected⟩

theorem SweepResult.Alike.rows (h : r.Alike r') : r'.rows = r.rows := by
  rw [SweepResult.rows, h.recorded, SweepResult.rows]

theorem SweepResult.Alike.rejections (h : r.Alike r') : r'.rejections = r.rejections := by
  rw [SweepResult.rejections, h.recorded, SweepResult.rejections]

theorem SweepResult.Alike.tallied (h : r.Alike r') (ht : r.Tallied) : r'.Tallied := by
  refine ⟨fun d => ?_, ?_⟩
  · rw [h.dispositions, h.recorded, ht.dispositions]
  · rw [h.rejected, h.dispositions, ht.rejected]

theorem Working.dispose_rows (w : Working) (entry : DispositionInboxEntry) (d : Disposition) :
    (w.dispose entry d).result.rows = w.result.rows ++ [entry] := by
  simp [Working.dispose, SweepResult.rows]

variable {d : Disposition}

theorem Working.dispose_rejections (w : Working) (entry : DispositionInboxEntry)
    (hd : d ≠ .rejected) : (w.dispose entry d).result.rejections = w.result.rejections := by
  simp [Working.dispose, SweepResult.rejections, hd]

variable {w : Working}

theorem Working.dispose_dispositions (entry : DispositionInboxEntry) (d : Disposition)
    (h : ∀ c, w.result.dispositions c = w.result.recorded.countP (·.2 = c)) :
    ∀ c, (w.dispose entry d).result.dispositions c =
      (w.dispose entry d).result.recorded.countP (·.2 = c) := by
  intro c
  by_cases hc : c = d
  · simp [Working.dispose, h, hc]
  · simp [Working.dispose, h, hc, Ne.symm hc]

theorem Working.dispose_tallied (h : w.result.Tallied) (entry : DispositionInboxEntry)
    (hd : d ≠ .rejected) : (w.dispose entry d).result.Tallied := by
  refine ⟨Working.dispose_dispositions entry d h.dispositions, ?_⟩
  simp [Working.dispose, h.rejected, Ne.symm hd]

/-! ## Claims -/

theorem unresolvedClaim_alike (key : SessionKey) (err : Option SeamError) (w : Working) :
    w.result.Alike (unresolvedClaim key err w).2.result := by
  unfold unresolvedClaim
  split <;> exact .refl _

variable {cfg : DispositionReconcilerConfig} {w' : Working} {now : Int}

theorem acquireClaim_spec {key : SessionKey} {attempts : Nat} {err : Option SeamError}
    {out : Except SweepError Bool}
    (h : Returns (acquireClaim cfg key now attempts err w) log (out, w')) :
    AboutClaims log ∧ w.result.Alike w'.result := by
  induction attempts generalizing err w log with
  | zero =>
    obtain ⟨rfl, heq⟩ := returns_pure.mp h
    have := unresolvedClaim_alike key err w
    rw [← heq] at this
    exact ⟨.nil, this⟩
  | succ attempts ih =>
    obtain ⟨answer, rest, rfl, hrest⟩ := returns_query_bind.mp h
    have hqueried : w.result.Alike w.queried.result := ⟨rfl, rfl, rfl⟩
    have hone : ∀ {rest : List (Sigma DispositionAnswer)}, AboutClaims rest →
        AboutClaims (⟨.acquireReconciliationClaim
          { key := key, holder := cfg.holderID, expiresAt := now + cfg.claimTTL }, answer⟩ ::
            rest) := by
      intro rest hrest e he
      rcases mem_cons.mp he with rfl | he
      · exact .inl ⟨_, _, rfl⟩
      · exact hrest e he
    cases answer with
    | none =>
      obtain ⟨rfl, ⟨⟩⟩ := returns_pure.mp hrest
      exact ⟨hone .nil, rfl, rfl, rfl⟩
    | some err =>
      dsimp only at hrest
      split at hrest
      · obtain ⟨rfl, ⟨⟩⟩ := returns_pure.mp hrest
        exact ⟨hone .nil, rfl, rfl, rfl⟩
      · obtain ⟨hclaims, halike⟩ := ih hrest
        exact ⟨hone hclaims, hqueried.trans halike⟩
      all_goals
        obtain ⟨rfl, heq⟩ := returns_pure.mp hrest
        have halike := unresolvedClaim_alike key (some err) w.queried
        rw [← heq] at halike
        exact ⟨hone .nil, hqueried.trans halike⟩

theorem claim_spec {key : SessionKey} {out : Except SweepError Bool}
    (h : Returns (claim cfg key now w) log (out, w')) :
    AboutClaims log ∧ w.result.Alike w'.result := by
  unfold claim at h
  split at h
  · obtain ⟨rfl, ⟨⟩⟩ := returns_pure.mp h
    exact ⟨.nil, .refl _⟩
  · exact acquireClaim_spec h

theorem release_spec {held : List (SessionKey × Bool)} (h : Returns (release cfg held r) log r') :
    AboutClaims log ∧ r.Alike r' := by
  induction held generalizing r log with
  | nil =>
    obtain ⟨rfl, rfl⟩ := returns_pure.mp h
    exact ⟨.nil, .refl _⟩
  | cons entry held ih =>
    obtain ⟨key, taken⟩ := entry
    cases taken with
    | false => exact ih h
    | true =>
      obtain ⟨answer, rest, rfl, hrest⟩ := returns_query_bind.mp h
      have hrest : AboutClaims rest ∧ r.Alike r' := by
        cases answer with
        | none =>
          obtain ⟨hclaims, halike⟩ := ih hrest
          exact ⟨hclaims, halike.1, halike.2, halike.3⟩
        | some err =>
          obtain ⟨hclaims, halike⟩ := ih hrest
          exact ⟨hclaims, halike.1, halike.2, halike.3⟩
      refine ⟨fun e he => ?_, hrest.2⟩
      rcases mem_cons.mp he with rfl | he
      · exact .inr ⟨_, _, rfl⟩
      · exact hrest.1 e he

/-! ## Settling a row -/

theorem dispositionSettleable_ne_rejected (record : DispositionInboxRecord) (now : Int) :
    dispositionSettleable record now ≠ .rejected := by
  unfold dispositionSettleable
  cases record.state <;> simp only [ne_eq, reduceCtorEq, not_false_eq_true]
  all_goals repeat' split
  all_goals simp

theorem dispositionRefusal_ne_rejected {err : SeamError} (h : dispositionRefusal err = some d)
    : d ≠ .rejected := by
  rintro rfl
  unfold dispositionRefusal at h
  split at h
  · cases h
  · split at h <;> cases h

variable {entry : DispositionInboxEntry} {fault : Option SweepError}

/-- A row is disposed of without a rejection, or faults in its claim, or its rejection was asked
for: then it was settleable at the clock reading of the pass. -/
theorem settle_spec (h : Returns (DispositionReconciler.settle cfg now entry w) log (fault, w')) :
    ∃ claims w₁, AboutClaims claims ∧ w.result.Alike w₁.result ∧
      ((∃ d, d ≠ .rejected ∧ log = claims ∧ fault = none ∧ w' = w₁.dispose entry d) ∨
        (∃ e, log = claims ∧ fault = some e ∧ w' = w₁) ∨
        ∃ answer, dispositionSettleable entry.record now = .settleable ∧
          log = claims ++ [⟨.rejectDispositionCommand entry.rejection, answer⟩] ∧
          (fault, w') = settled entry w₁ answer) := by
  unfold DispositionReconciler.settle at h
  dsimp only at h
  split at h
  · obtain ⟨rfl, ⟨⟩⟩ := returns_pure.mp h
    exact ⟨[], w, .nil, .refl _, .inl ⟨_, dispositionSettleable_ne_rejected _ _, rfl, rfl, rfl⟩⟩
  · next hsettleable =>
    obtain ⟨claims, rest, ⟨claimed, w₁⟩, rfl, hclaim, hrest⟩ := returns_bind.mp h
    obtain ⟨hclaims, halike⟩ := claim_spec hclaim
    cases claimed with
    | error err =>
      obtain ⟨rfl, ⟨⟩⟩ := returns_pure.mp hrest
      exact ⟨claims, _, hclaims, halike, .inr (.inl ⟨err, append_nil _, rfl, rfl⟩)⟩
    | ok claimed =>
      cases claimed with
      | false =>
        obtain ⟨rfl, ⟨⟩⟩ := returns_pure.mp hrest
        exact ⟨claims, w₁, hclaims, halike, .inl ⟨.deferred, by decide, append_nil _, rfl, rfl⟩⟩
      | true =>
        obtain ⟨answer, later, rfl, hlater⟩ := returns_query_bind.mp hrest
        obtain ⟨rfl, heq⟩ := returns_pure.mp hlater
        exact ⟨claims, w₁.queried, hclaims, halike.trans ⟨rfl, rfl, rfl⟩,
          .inr (.inr ⟨answer, not_not.mp hsettleable, rfl, heq⟩)⟩

/-- What the answer to a rejection makes of the row: it faults and is not recorded, or it is
disposed of, as rejected exactly when this call rejected it. -/
theorem settled_cases {answer : Except SeamError Bool} (h : (fault, w') = settled entry w answer) :
    (∃ e, answer ≠ .ok true ∧ fault = some e ∧ w' = w) ∨
    (∃ d, d ≠ .rejected ∧ answer ≠ .ok true ∧ fault = none ∧ w' = w.dispose entry d) ∨
    (answer = .ok true ∧ fault = none ∧
      w' = { w with result := { w.result with rejected := w.result.rejected + 1 } }.dispose entry
        .rejected) := by
  unfold settled at h
  split at h
  · cases h
    exact .inr (.inl ⟨.terminal, by decide, by simp, rfl, rfl⟩)
  · cases h
    exact .inr (.inr ⟨rfl, rfl, rfl⟩)
  · split at h
    · next hrefusal =>
      cases h
      exact .inr (.inl ⟨_, dispositionRefusal_ne_rejected hrefusal, by simp, rfl, rfl⟩)
    · cases h
      exact .inl ⟨_, by simp, rfl, rfl⟩

/-! ## The page loop -/

theorem settle_reads {out : Option SweepError × Working}
    (h : Returns (DispositionReconciler.settle cfg now entry w) log out) :
    log.filterMap dispositionRead = [] := by
  obtain ⟨fault, w'⟩ := out
  obtain ⟨claims, w₁, hclaims, -, ⟨_, -, rfl, -⟩ | ⟨_, rfl, -⟩ | ⟨answer, -, rfl, -⟩⟩ :=
    settle_spec h
  · exact hclaims.reads
  · exact hclaims.reads
  · rw [filterMap_append, hclaims.reads]
    rfl

theorem settle_rows (h : Returns (DispositionReconciler.settle cfg now entry w) log (fault, w')) :
    (fault = none → w'.result.rows = w.result.rows ++ [entry]) ∧
      (fault ≠ none → w'.result.rows = w.result.rows) := by
  obtain ⟨claims, w₁, -, halike,
    ⟨d, -, -, rfl, rfl⟩ | ⟨_, -, rfl, rfl⟩ | ⟨answer, -, -, hsettled⟩⟩ := settle_spec h
  · exact ⟨fun _ => by rw [Working.dispose_rows, halike.rows], fun hne => absurd rfl hne⟩
  · exact ⟨fun hnone => (nomatch hnone), fun _ => halike.rows⟩
  · rcases settled_cases hsettled with ⟨_, -, rfl, rfl⟩ | ⟨d, -, -, rfl, rfl⟩ | ⟨-, rfl, rfl⟩
    · exact ⟨fun hnone => (nomatch hnone), fun _ => halike.rows⟩
    · exact ⟨fun _ => by rw [Working.dispose_rows, halike.rows], fun hne => absurd rfl hne⟩
    · refine ⟨fun _ => ?_, fun hne => absurd rfl hne⟩
      rw [Working.dispose_rows]
      exact congrArg (· ++ [entry]) halike.rows

theorem settle_tallied (ht : w.result.Tallied)
    (h : Returns (DispositionReconciler.settle cfg now entry w) log (fault, w')) :
    w'.result.Tallied := by
  obtain ⟨claims, w₁, -, halike, ⟨d, hd, -, -, rfl⟩ | ⟨_, -, -, rfl⟩ | ⟨answer, -, -, hsettled⟩⟩ :=
    settle_spec h
  all_goals have ht := halike.tallied ht
  · exact Working.dispose_tallied ht entry hd
  · exact ht
  · rcases settled_cases hsettled with ⟨_, -, -, rfl⟩ | ⟨d, hd, -, -, rfl⟩ | ⟨-, -, rfl⟩
    · exact ht
    · exact Working.dispose_tallied ht entry hd
    · refine ⟨Working.dispose_dispositions entry .rejected ht.dispositions, ?_⟩
      simp [Working.dispose, ht.rejected]

theorem settle_rejections
    (h : Returns (DispositionReconciler.settle cfg now entry w) log (fault, w')) :
    w'.result.rejections = w.result.rejections ++ log.filterMap acceptedRejection := by
  obtain ⟨claims, w₁, hclaims, halike,
    ⟨d, hd, rfl, -, rfl⟩ | ⟨_, rfl, -, rfl⟩ | ⟨answer, -, rfl, hsettled⟩⟩ := settle_spec h
  · rw [Working.dispose_rejections _ _ hd, halike.rejections, hclaims.rejections, append_nil]
  · rw [halike.rejections, hclaims.rejections, append_nil]
  · rw [filterMap_append, hclaims.rejections, nil_append]
    have hother : answer ≠ .ok true → List.filterMap acceptedRejection
        [⟨.rejectDispositionCommand entry.rejection, answer⟩] = [] := by
      intro hne
      rcases answer with e | b
      · rfl
      · cases b with
        | false => rfl
        | true => exact absurd rfl hne
    rcases settled_cases hsettled with ⟨_, hne, -, rfl⟩ | ⟨d, hd, hne, -, rfl⟩ | ⟨rfl, -, rfl⟩
    · rw [hother hne, append_nil, halike.rejections]
    · rw [hother hne, append_nil, Working.dispose_rejections _ _ hd, halike.rejections]
    · rw [← halike.rejections]
      simp [Working.dispose, SweepResult.rejections, acceptedRejection,
        DispositionInboxEntry.rejection]

theorem dispositions_loopReads (cfg : DispositionReconcilerConfig) (shard : Nat) (now : Int) :
    LoopReads (DispositionReconciler.pageLoop cfg shard now) dispositionShape dispositionRead
      (fun w => w.result.rows) (fun _ => []) id where
  head := rfl
  next _ := rfl
  rows page := (map_id page.commands).symm
  list h := by
    rw [returns_query.mp h]
    rfl
  unread h := settle_reads h
  queried _ := rfl
  count _ _ := (append_nil _).symm
  worked h := (settle_rows h).1 rfl
  faulted h := (settle_rows h).2 (fun hnone => nomatch hnone)
  exhausted _ := rfl
  truncated _ := rfl

theorem AboutClaims.readsShard (h : AboutClaims log) (shard : Nat) :
    ReadsShard dispositionShardOf shard log := by
  intro e he k hk
  rcases h e he with ⟨_, _, rfl⟩ | ⟨_, _, rfl⟩ <;> cases hk

theorem settle_readsShard {out : Option SweepError × Working} (shard : Nat)
    (h : Returns (DispositionReconciler.settle cfg now entry w) log out) :
    ReadsShard dispositionShardOf shard log := by
  obtain ⟨fault, w'⟩ := out
  obtain ⟨claims, w₁, hclaims, -, ⟨_, -, rfl, -⟩ | ⟨_, rfl, -⟩ | ⟨answer, -, rfl, -⟩⟩ :=
    settle_spec h
  · exact hclaims.readsShard shard
  · exact hclaims.readsShard shard
  · refine (hclaims.readsShard shard).append fun e he k hk => ?_
    rw [mem_singleton.mp he] at hk
    cases hk

/-- What the loop keeps: it reads the shard's pages only, its counters count its rows, and the
rejections it counts are those the store made for it. -/
structure LoopAccount (shard : Nat) (log : List (Sigma DispositionAnswer)) (w : Working) :
    Prop where
  readsShard : ReadsShard dispositionShardOf shard log
  tallied : w.result.Tallied
  rejections : w.result.rejections = log.filterMap acceptedRejection

theorem dispositions_keeps (cfg : DispositionReconcilerConfig) (shard : Nat) (now : Int) :
    (DispositionReconciler.pageLoop cfg shard now).Keeps (LoopAccount shard) where
  list := by
    intro past c log a w h hlist
    rw [returns_query.mp hlist]
    refine ⟨h.readsShard.append ?_, ⟨h.tallied.1, h.tallied.2⟩, ?_⟩
    · intro e he k hk
      rw [mem_singleton.mp he] at hk
      cases hk
      rfl
    · rw [filterMap_append]
      exact h.rejections.trans (append_nil _).symm
  count h := ⟨h.readsShard, ⟨h.tallied.1, h.tallied.2⟩, h.rejections⟩
  work := by
    intro past entry w log fault w' h hwork
    refine ⟨h.readsShard.append (settle_readsShard shard hwork), settle_tallied h.tallied hwork, ?_⟩
    rw [filterMap_append, ← h.rejections]
    exact settle_rejections hwork
  exhausted h := h
  truncated h := ⟨h.readsShard, ⟨h.tallied.1, h.tallied.2⟩, h.rejections⟩

/-! ## The sweep -/

/-- What a pass asked and what its result counts. -/
structure DispositionAccounted (log : List (Sigma DispositionAnswer))
    (pass : SweepPass SweepResult) : Prop where
  readsShard : ReadsShard dispositionShardOf pass.shard log
  tallied : pass.result.Tallied
  rejections : pass.result.rejections = log.filterMap acceptedRejection

/-- A call of `Sweep` returns before its pass, or asks the authorizer, the shard count and the
clock, runs the page loop over the shard it was given, and gives its claims back. -/
theorem dispositions_sweep_cases {rotor rotor' : Rotor}
    {out : Except SweepError (SweepPass SweepResult)}
    (h : Returns (DispositionReconciler.sweep cfg rotor) log (rotor', out)) :
    (∃ e, out = .error e ∧ rotor' = rotor ∧
      ∀ c ∈ log, c.1 = .authorizeServiceSweep ∨ c.1 = .controlShards) ∨
    ∃ shards shard cursor rotor₁ now paged released next fault w result,
      rotor.begin cfg.minControlShards shards = some (shard, cursor, rotor₁) ∧
      log = ⟨.authorizeServiceSweep, none⟩ :: ⟨.controlShards, shards⟩ :: ⟨.now, now⟩ ::
        (paged ++ released) ∧
      Returns ((DispositionReconciler.pageLoop cfg shard now).pages cfg.maxPages cursor
        { result := { shard := shard, resumed := cursor ≠ "" } }) paged (next, fault, w) ∧
      Returns (release cfg w.held w.result) released result ∧
      rotor' = rotor₁.commit shard next ∧
      out = .ok { shards := shards, shard := shard, start := cursor, kept := next
                  result := result, fault := fault } := by
  obtain ⟨denied, rest, rfl, hauthorized⟩ := returns_query_bind.mp h
  cases denied with
  | some err =>
    obtain ⟨rfl, ⟨⟩⟩ := returns_pure.mp hauthorized
    exact .inl ⟨_, rfl, rfl, by simp⟩
  | none =>
    obtain ⟨shards, rest, rfl, hcounted⟩ := returns_query_bind.mp hauthorized
    cases hbegin : rotor.begin cfg.minControlShards shards with
    | none =>
      rw [hbegin] at hcounted
      obtain ⟨rfl, ⟨⟩⟩ := returns_pure.mp hcounted
      exact .inl ⟨_, rfl, rfl, by simp⟩
    | some begun =>
      obtain ⟨shard, cursor, rotor₁⟩ := begun
      rw [hbegin] at hcounted
      obtain ⟨paged, later, ⟨next, fault, w⟩, rfl, hpage, hlater⟩ := returns_bind.mp hcounted
      obtain ⟨released, last, result, rfl, hrelease, hend⟩ := returns_bind.mp hlater
      obtain ⟨rfl, ⟨⟩⟩ := returns_pure.mp hend
      obtain ⟨now, paged, rfl, hpages⟩ := returns_query_bind.mp hpage
      rw [append_nil]
      exact .inr ⟨shards, shard, cursor, rotor₁, now, paged, released, next, fault, w, result,
        hbegin, rfl, hpages, hrelease, rfl, rfl⟩

/-- The disposition sweep is a bounded pass of the round robin. -/
theorem dispositions_sweepsPages (cfg : DispositionReconcilerConfig) :
    SweepsPages (DispositionReconciler.sweep cfg) dispositionShape cfg.maxPages dispositionRead
      SweepResult.rows where
  idle h := by
    rcases dispositions_sweep_cases h with ⟨_, -, rfl, -⟩ |
      ⟨_, _, _, _, _, _, _, _, _, _, _, -, -, -, -, -, hout⟩
    · rfl
    · cases hout
  pass h := by
    rcases dispositions_sweep_cases h with ⟨_, hout, -⟩ | ⟨shards, shard, cursor, rotor₁, now,
      paged, released, next, fault, w, result, hbegin, rfl, hpages, hrelease, rfl, hout⟩
    · cases hout
    · cases hout
      obtain ⟨new, hrows, hreading⟩ := (dispositions_loopReads cfg shard now).pages hpages
      obtain ⟨hclaims, halike⟩ := release_spec hrelease
      have hnew : result.rows = new := halike.rows.trans hrows
      subst hnew
      refine Rotor.paging_step rfl cfg.minControlShards_pos hbegin ?_
      have hreads : (paged ++ released).filterMap dispositionRead =
          paged.filterMap dispositionRead := by
        rw [filterMap_append, hclaims.reads, append_nil]
      rw [← hreads] at hreading
      exact hreading

/-- What a pass of the disposition sweep counts is what it was answered. -/
theorem dispositions_accounted {rotor rotor' : Rotor} {pass : SweepPass SweepResult}
    (h : Returns (DispositionReconciler.sweep cfg rotor) log (rotor', .ok pass)) :
    DispositionAccounted log pass := by
  rcases dispositions_sweep_cases h with ⟨_, hout, -⟩ | ⟨shards, shard, cursor, rotor₁, now,
    paged, released, next, fault, w, result, -, rfl, hpages, hrelease, -, hout⟩
  · cases hout
  · cases hout
    have hstart : LoopAccount shard [⟨.authorizeServiceSweep, none⟩, ⟨.controlShards, shards⟩,
        ⟨.now, now⟩] { result := { shard := shard, resumed := cursor ≠ "" } } := by
      refine ⟨?_, ⟨fun _ => rfl, rfl⟩, rfl⟩
      simp [ReadsShard, dispositionShardOf]
    have hloop := (dispositions_keeps cfg shard now).pages hstart hpages
    obtain ⟨hclaims, halike⟩ := release_spec hrelease
    refine ⟨hloop.readsShard.append (hclaims.readsShard shard), halike.tallied hloop.tallied, ?_⟩
    have hasked : List.filterMap acceptedRejection ([⟨.authorizeServiceSweep, none⟩,
        ⟨.controlShards, shards⟩, ⟨.now, now⟩] ++ paged ++ released) = _ :=
      filterMap_append
    rw [hclaims.rejections, append_nil, ← hloop.rejections, ← halike.rejections] at hasked
    exact hasked.symm

end Factory.Admission
