import Mathlib.Algebra.BigOperators.Group.Finset.Piecewise
import Mathlib.Data.List.Count
import Mathlib.Data.List.Infix
import Mathlib.Data.Fintype.Basic
import Factory.Admission.DispositionsSpec
import Factory.Admission.Reconciler

/-!
# Claims and counters of the deadline sweeps

Both deadline sweeps take reconciliation claims through one claimant and give them back when the
pass has ended, however it ended. What they ask of the store is read off as a list of calls
(`StoreCall`), and what one sweep's calls and counters amount to is said once for both
(`Conserves`).

While a pass goes on, the memo tells the claims it has taken from the sessions it need not ask
for again (`Holding`). A failed acquisition ends the pass with a session that was asked for and
is in no memo, and so less is known when a pass has ended (`Left`).
-/

namespace Factory.Admission

open List Dialogue

/-! ## Store calls -/

/-- A call of a sweep that reaches a provider; an acquisition is told with its success. -/
inductive StoreCall where
  | list
  | acquire (key : SessionKey) (granted : Bool)
  | reject (key : SessionKey)
  | release (key : SessionKey)
deriving DecidableEq

def StoreCall.asksFor (key : SessionKey) : StoreCall → Bool
  | .acquire k _ => k = key
  | .list | .reject _ | .release _ => false

/-- The call of the disposition sweep a question was. `ControlShards` reaches no provider. -/
def dispositionCall : Sigma DispositionAnswer → Option StoreCall
  | ⟨.authorizeServiceSweep, _⟩ => none
  | ⟨.controlShards, _⟩ => none
  | ⟨.now, _⟩ => none
  | ⟨.listDueDispositionCommands _, _⟩ => some .list
  | ⟨.acquireReconciliationClaim request, err⟩ => some (.acquire request.key (Option.isNone err))
  | ⟨.rejectDispositionCommand request, _⟩ =>
    some (.reject ⟨request.descriptor.tenant, request.descriptor.session⟩)
  | ⟨.releaseReconciliationClaim request, _⟩ => some (.release request.key)

/-- The call of the legacy sweep a question was. -/
def reconcilerCall : Sigma ReconcilerAnswer → Option StoreCall
  | ⟨.shared question, answer⟩ => dispositionCall ⟨question, answer⟩
  | ⟨.listDueCommands _, _⟩ => some .list
  | ⟨.rejectCommand request, _⟩ => some (.reject ⟨request.tenant, request.session⟩)

instance : Fintype Disposition :=
  Fintype.ofList
    [.settleable, .rejected, .unexpired, .claimLive, .applying, .terminal, .evidence, .raceLost,
      .deferred, .unrecognized]
    (by intro d; cases d <;> simp)

/-- What the calls of one sweep, its result and the number of rows `settle` returned from without
error have to do with each other. -/
structure Conserves (calls : List StoreCall) (result : SweepResult) (settled : Nat) : Prop where
  acquired_once : ∀ key, calls.count (.acquire key true) ≤ 1
  asked_twice : ∀ key, calls.countP (·.asksFor key) ≤ 2
  released_once : ∀ key, calls.count (.release key) = calls.count (.acquire key true)
  released_after : ∀ past key, past ++ [StoreCall.release key] <+: calls → .acquire key true ∈ past
  claimed : result.claimed = result.released + result.releaseFailures
  dispositions : ∑ d, result.dispositions d = settled
  settleable : result.dispositions .settleable = 0
  rejected : result.rejected = result.dispositions .rejected
  reject_held : ∀ past key, past ++ [StoreCall.reject key] <+: calls →
    .acquire key true ∈ past ∧ .release key ∉ past
  queries : result.queries = calls.length

/-! ## The rows settled -/

/-- The loop, also counting the rows its work returned from without a fault. -/
def PageLoop.tallied {Q : Type} {A : Q → Type} {P Row R : Type} (l : PageLoop A P Row R) :
    PageLoop A P Row (R × Nat) where
  list := l.list
  refusedCursor := l.refusedCursor
  resumeText := l.resumeText
  pageText := l.pageText
  nextCursor := l.nextCursor
  rows := l.rows
  queried r := (l.queried r.1, r.2)
  count page r := (l.count page r.1, r.2)
  work row r := do
    match ← l.work row r.1 with
    | (some e, r') => pure (some e, r', r.2)
    | (none, r') => pure (none, r', r.2 + 1)
  exhausted r := (l.exhausted r.1, r.2)
  truncated r := (l.truncated r.1, r.2)

section Tallied

variable {Q : Type} {A : Q → Type} {P Row R : Type} {l : PageLoop A P Row R}

variable {fault : Option SweepError}

variable {log : List (Sigma A)}

theorem PageLoop.tallied_work {row : Row} {r r' : R} (h : Returns (l.work row r) log (fault, r'))
    (n : Nat) : ∃ m, Returns (l.tallied.work row (r, n)) log (fault, r', m) := by
  cases fault with
  | some e => exact ⟨n, returns_bind.mpr ⟨log, [], _, (append_nil _).symm, h, .refl _⟩⟩
  | none => exact ⟨n + 1, returns_bind.mpr ⟨log, [], _, (append_nil _).symm, h, .refl _⟩⟩

theorem PageLoop.tallied_workAll {rows : List Row} {r r' : R}
    (h : Returns (l.workAll rows r) log (fault, r')) (n : Nat) :
    ∃ m, Returns (l.tallied.workAll rows (r, n)) log (fault, r', m) := by
  induction rows generalizing r log n with
  | nil =>
    obtain ⟨rfl, ⟨⟩⟩ := returns_pure.mp h
    exact ⟨n, .refl _⟩
  | cons row rows ih =>
    obtain ⟨first, later, ⟨fault₁, r₁⟩, rfl, hwork, hrest⟩ := returns_bind.mp h
    obtain ⟨m₁, hwork⟩ := PageLoop.tallied_work hwork n
    cases fault₁ with
    | some e =>
      obtain ⟨rfl, ⟨⟩⟩ := returns_pure.mp hrest
      exact ⟨m₁, returns_bind.mpr ⟨first, [], _, rfl, hwork, .refl _⟩⟩
    | none =>
      obtain ⟨m, hrest⟩ := ih hrest m₁
      exact ⟨m, returns_bind.mpr ⟨first, later, _, rfl, hwork, hrest⟩⟩

/-- Counting the rows beside the loop changes nothing of it. -/
theorem PageLoop.tallied_pages {n : Nat} {c kept : Cursor} {r r' : R}
    (h : Returns (l.pages n c r) log (kept, fault, r')) (k : Nat) :
    ∃ m, Returns (l.tallied.pages n c (r, k)) log (kept, fault, r', m) := by
  induction n generalizing c r log k with
  | zero =>
    obtain ⟨rfl, ⟨⟩⟩ := returns_pure.mp h
    exact ⟨k, .refl _⟩
  | succ n ih =>
    obtain ⟨first, later, answer, rfl, hlist, hrest⟩ := returns_bind.mp h
    cases answer with
    | error e =>
      dsimp only at hrest
      split at hrest
      · next hrefused =>
        obtain ⟨rfl, ⟨⟩⟩ := returns_pure.mp hrest
        refine ⟨k, returns_bind.mpr ⟨first, [], .error e, rfl, hlist, ?_⟩⟩
        dsimp only
        rw [if_pos (show l.tallied.refusedCursor e = true from hrefused)]
        exact .refl _
      · next hfailed =>
        obtain ⟨rfl, ⟨⟩⟩ := returns_pure.mp hrest
        refine ⟨k, returns_bind.mpr ⟨first, [], .error e, rfl, hlist, ?_⟩⟩
        dsimp only
        rw [if_neg (show ¬l.tallied.refusedCursor e = true from hfailed)]
        exact .refl _
    | ok page =>
      obtain ⟨worked, onward, ⟨fault₁, r₁⟩, rfl, hwork, hnext⟩ := returns_bind.mp hrest
      obtain ⟨m₁, hwork⟩ := PageLoop.tallied_workAll hwork k
      cases fault₁ with
      | some e =>
        obtain ⟨rfl, ⟨⟩⟩ := returns_pure.mp hnext
        exact ⟨m₁, returns_bind.mpr ⟨first, worked ++ [], .ok page, rfl, hlist,
          returns_bind.mpr ⟨worked, [], _, rfl, hwork, .refl _⟩⟩⟩
      | none =>
        dsimp only at hnext
        split at hnext
        · next hend =>
          obtain ⟨rfl, ⟨⟩⟩ := returns_pure.mp hnext
          refine ⟨m₁, returns_bind.mpr ⟨first, worked ++ [], .ok page, rfl, hlist,
            returns_bind.mpr ⟨worked, [], _, rfl, hwork, ?_⟩⟩⟩
          dsimp only
          rw [if_pos (show l.tallied.nextCursor page = "" from hend)]
          exact .refl _
        · next hmore =>
          obtain ⟨m, hnext⟩ := ih hnext m₁
          refine ⟨m, returns_bind.mpr ⟨first, worked ++ onward, .ok page, rfl, hlist,
            returns_bind.mpr ⟨worked, onward, _, rfl, hwork, ?_⟩⟩⟩
          dsimp only
          rw [if_neg (show ¬l.tallied.nextCursor page = "" from hmore)]
          exact hnext

end Tallied

/-! ## The memo of claims -/

/-- What the calls of a pass and its memo have to do with each other when it has ended. -/
structure Left (calls : List StoreCall) (w : Working) : Prop where
  keys : (w.held.map (·.1)).Nodup
  acquired : ∀ key, calls.count (.acquire key true) = w.held.count (key, true)
  asked : ∀ key, calls.countP (·.asksFor key) ≤ 2
  unreleased : ∀ key, StoreCall.release key ∉ calls
  rejects : ∀ past key, past ++ [StoreCall.reject key] <+: calls → .acquire key true ∈ past
  claimed : w.result.claimed = w.held.countP (·.2)
  released : w.result.released = 0
  releaseFailures : w.result.releaseFailures = 0
  queries : w.result.queries = calls.length

/-- While a pass goes on, it has asked for the sessions in its memo only. -/
structure Holding (calls : List StoreCall) (w : Working) : Prop extends Left calls w where
  unasked : ∀ key, w.held.lookup key = none → calls.countP (·.asksFor key) = 0

/-- What asking for claims changes of a pass: the memo and the counters of claims and calls. -/
structure ClaimMove (w w' : Working) (calls : List StoreCall) (memo : List (SessionKey × Bool)) :
    Prop where
  held : w'.held = w.held ++ memo
  claimed : w'.result.claimed = w.result.claimed + memo.countP (·.2)
  queries : w'.result.queries = w.result.queries + calls.length
  released : w'.result.released = w.result.released
  releaseFailures : w'.result.releaseFailures = w.result.releaseFailures
  dispositions : w'.result.dispositions = w.result.dispositions
  rejected : w'.result.rejected = w.result.rejected

/-- What one session's attempts come to: the calls, the answer of `claim` and the memo's entry. -/
inductive Attempts (key : SessionKey) (attempts : Nat) :
    List StoreCall → Except SweepError Bool → List (SessionKey × Bool) → Prop
  | granted (lost : Nat) (h : lost < attempts) :
      Attempts key attempts (List.replicate lost (.acquire key false) ++ [.acquire key true])
        (.ok true) [(key, true)]
  | deferred (lost : Nat) (h : lost ≤ attempts) :
      Attempts key attempts (List.replicate lost (.acquire key false)) (.ok false) [(key, false)]
  | faulted (lost : Nat) (h : lost ≤ attempts) (e : SweepError) :
      Attempts key attempts (List.replicate lost (.acquire key false)) (.error e) []

variable {calls : List StoreCall} {out : Except SweepError Bool} {memo : List (SessionKey × Bool)}
  {key : SessionKey} {attempts : Nat}

theorem Attempts.succ (h : Attempts key attempts calls out memo) :
    Attempts key (attempts + 1) (.acquire key false :: calls) out memo := by
  cases h with
  | granted lost h => exact .granted (lost + 1) (by omega)
  | deferred lost h => exact .deferred (lost + 1) (by omega)
  | faulted lost h e => exact .faulted (lost + 1) (by omega) e

variable {w w' : Working}

theorem ClaimMove.queried (h : ClaimMove w.queried w' calls memo) (call : StoreCall) :
    ClaimMove w w' (call :: calls) memo := by
  refine ⟨h.held, h.claimed, ?_, h.released, h.releaseFailures, h.dispositions, h.rejected⟩
  rw [h.queries, length_cons, Working.queried]
  dsimp only
  omega

theorem unresolvedClaim_attempts {err : Option SeamError}
    (h : (out, w') = unresolvedClaim key err w) (attempts : Nat) :
    ∃ memo, Attempts key attempts [] out memo ∧ ClaimMove w w' [] memo := by
  unfold unresolvedClaim at h
  split at h
  · cases h
    exact ⟨_, .deferred 0 (Nat.zero_le _), rfl, rfl, rfl, rfl, rfl, rfl, rfl⟩
  · cases h
    exact ⟨_, .faulted 0 (Nat.zero_le _) _, (append_nil _).symm, rfl, rfl, rfl, rfl, rfl, rfl⟩

theorem acquireClaim_attempts {cfg : DispositionReconcilerConfig} {now : Int}
    {err : Option SeamError} {log : List (Sigma DispositionAnswer)}
    (h : Returns (acquireClaim cfg key now attempts err w) log (out, w')) :
    ∃ memo, Attempts key attempts (log.filterMap dispositionCall) out memo ∧
      ClaimMove w w' (log.filterMap dispositionCall) memo := by
  induction attempts generalizing err w log with
  | zero =>
    obtain ⟨rfl, heq⟩ := returns_pure.mp h
    exact unresolvedClaim_attempts heq 0
  | succ attempts ih =>
    obtain ⟨answer, rest, rfl, hrest⟩ := returns_query_bind.mp h
    cases answer with
    | none =>
      obtain ⟨rfl, ⟨⟩⟩ := returns_pure.mp hrest
      exact ⟨_, .granted 0 (Nat.succ_pos _), rfl, rfl, rfl, rfl, rfl, rfl, rfl⟩
    | some err =>
      have hlost : ∃ memo, Attempts key attempts (rest.filterMap dispositionCall) out memo ∧
          ClaimMove w.queried w' (rest.filterMap dispositionCall) memo := by
        dsimp only at hrest
        split at hrest
        · obtain ⟨rfl, ⟨⟩⟩ := returns_pure.mp hrest
          exact ⟨_, .deferred 0 (Nat.zero_le _), rfl, rfl, rfl, rfl, rfl, rfl, rfl⟩
        · exact ih hrest
        · obtain ⟨rfl, heq⟩ := returns_pure.mp hrest
          exact unresolvedClaim_attempts heq attempts
        · obtain ⟨rfl, heq⟩ := returns_pure.mp hrest
          exact unresolvedClaim_attempts heq attempts
      obtain ⟨memo, hattempts, hmove⟩ := hlost
      exact ⟨memo, hattempts.succ, hmove.queried _⟩

/-! ### What the attempts add up to -/

theorem Attempts.count_granted (h : Attempts key attempts calls out memo) (k : SessionKey) :
    calls.count (.acquire k true) = memo.count (k, true) := by
  cases h with
  | granted lost h => simp [count_replicate, count_singleton]
  | _ => simp [count_replicate]

theorem Attempts.countP_asksFor (h : Attempts key attempts calls out memo) (k : SessionKey) :
    calls.countP (·.asksFor k) ≤ if k = key then attempts else 0 := by
  have hlost : ∀ lost : Nat, (List.replicate lost (StoreCall.acquire key false)).countP
      (·.asksFor k) = if k = key then lost else 0 := by
    intro lost
    rw [countP_replicate]
    simp [StoreCall.asksFor, eq_comm]
  cases h with
  | granted lost h =>
    rw [countP_append, hlost, countP_singleton]
    by_cases hk : k = key
    · simp only [StoreCall.asksFor, hk, decide_true, if_true]
      omega
    · simp [StoreCall.asksFor, hk, Ne.symm hk]
  | _ =>
    rw [hlost]
    split <;> omega

theorem Attempts.memo_of_ok {taken : Bool} (h : Attempts key attempts calls (.ok taken) memo) :
    memo = [(key, taken)] := by
  cases h <;> rfl

theorem Attempts.acquires (h : Attempts key attempts calls out memo) :
    ∀ call ∈ calls, ∃ g, call = .acquire key g := by
  intro call hcall
  cases h with
  | granted lost h =>
    rcases mem_append.mp hcall with hcall | hcall
    · exact ⟨false, eq_of_mem_replicate hcall⟩
    · exact ⟨true, mem_singleton.mp hcall⟩
  | _ => exact ⟨false, eq_of_mem_replicate hcall⟩

theorem prefix_of_not_mem {α : Type} {past calls more : List α} {a : α} (hmore : a ∉ more)
    (h : past ++ [a] <+: calls ++ more) : past ++ [a] <+: calls := by
  induction more using List.reverseRecOn with
  | nil => rwa [append_nil] at h
  | append_singleton more b ih =>
    rw [← append_assoc, prefix_concat_iff] at h
    rcases h with heq | h
    · have hlast := (append_inj' heq rfl).2
      rw [singleton_inj] at hlast
      rw [hlast] at hmore
      simp at hmore
    · exact ih (fun hmem => hmore (mem_append_left _ hmem)) h

theorem Holding.attempt {more : List StoreCall} (h : Holding calls w)
    (hnew : w.held.lookup key = none) (hattempts : Attempts key 2 more out memo)
    (hmove : ClaimMove w w' more memo) : Left (calls ++ more) w' := by
  have hacquires := hattempts.acquires
  refine ⟨?_, ?_, ?_, ?_, ?_, ?_, ?_, ?_, ?_⟩
  · rw [hmove.held, map_append]
    have hfresh : key ∉ w.held.map (·.1) := by
      intro hmem
      obtain ⟨⟨k, taken⟩, hentry, rfl⟩ := mem_map.mp hmem
      rw [lookup_eq_none_iff] at hnew
      exact absurd (hnew _ hentry) (by simp)
    have hmemo : memo.map (·.1) = [] ∨ memo.map (·.1) = [key] := by
      cases hattempts with
      | granted | deferred => exact .inr rfl
      | faulted lost h e => exact .inl rfl
    rcases hmemo with hmemo | hmemo
    · rw [hmemo, append_nil]
      exact h.keys
    · rw [hmemo, ← concat_eq_append]
      exact h.keys.concat hfresh
  · intro k
    rw [count_append, h.acquired, hattempts.count_granted, hmove.held, count_append]
  · intro k
    have hle := hattempts.countP_asksFor k
    rw [countP_append]
    by_cases hk : k = key
    · subst hk
      rw [if_pos rfl] at hle
      rw [h.unasked k hnew]
      omega
    · rw [if_neg hk] at hle
      have hasked := h.asked k
      omega
  · intro k hmem
    rcases mem_append.mp hmem with hmem | hmem
    · exact h.unreleased k hmem
    · obtain ⟨g, ⟨⟩⟩ := hacquires _ hmem
  · refine fun past k hpast => h.rejects past k (prefix_of_not_mem (fun hmem => ?_) hpast)
    obtain ⟨g, ⟨⟩⟩ := hacquires _ hmem
  · rw [hmove.claimed, h.claimed, hmove.held, countP_append]
  · rw [hmove.released, h.released]
  · rw [hmove.releaseFailures, h.releaseFailures]
  · rw [hmove.queries, h.queries, length_append]

/-- An answered claim is kept in the memo. -/
theorem Holding.claim {now : Int} {cfg : DispositionReconcilerConfig}
    {log : List (Sigma DispositionAnswer)} (h : Holding calls w)
    (hrun : Returns (claim cfg key now w) log (out, w')) :
    Left (calls ++ log.filterMap dispositionCall) w' ∧
      (∀ taken, out = .ok taken → Holding (calls ++ log.filterMap dispositionCall) w' ∧
        (key, taken) ∈ w'.held) ∧
      w'.result.dispositions = w.result.dispositions ∧ w'.result.rejected = w.result.rejected := by
  unfold Factory.Admission.claim at hrun
  cases hlookup : w.held.lookup key with
  | some answer =>
    rw [hlookup] at hrun
    obtain ⟨rfl, ⟨⟩⟩ := returns_pure.mp hrun
    rw [filterMap_nil, append_nil]
    refine ⟨h.toLeft, ?_, rfl, rfl⟩
    intro taken heq
    cases heq
    obtain ⟨before, after, hheld, -⟩ := lookup_eq_some_iff.mp hlookup
    refine ⟨h, ?_⟩
    rw [hheld]
    exact mem_append_right _ mem_cons_self
  | none =>
    rw [hlookup] at hrun
    obtain ⟨memo, hattempts, hmove⟩ := acquireClaim_attempts hrun
    have hleft := h.attempt hlookup hattempts hmove
    refine ⟨hleft, ?_, hmove.dispositions, hmove.rejected⟩
    rintro taken rfl
    have hmemo := hattempts.memo_of_ok
    refine ⟨⟨hleft, fun k hk => ?_⟩, ?_⟩
    · rw [hmove.held, hmemo, lookup_append, Option.or_eq_none_iff] at hk
      have hne : k ≠ key := by
        rintro rfl
        simp at hk
      have hle := hattempts.countP_asksFor k
      rw [if_neg hne] at hle
      rw [countP_append, h.unasked k hk.1]
      omega
    · rw [hmove.held, hmemo]
      exact mem_concat_self

/-- A list, or a reject of a session held, is one more query. -/
theorem Holding.call (h : Holding calls w) {call : StoreCall}
    (hcall : call = .list ∨ ∃ key, call = .reject key ∧ (key, true) ∈ w.held) :
    Holding (calls ++ [call]) w.queried := by
  have hacquire : ∀ key, call ≠ .acquire key true := by
    rcases hcall with rfl | ⟨key, rfl, -⟩ <;> intro k hk <;> cases hk
  have hasks : ∀ key, call.asksFor key = false := by
    rcases hcall with rfl | ⟨key, rfl, -⟩ <;> intro k <;> rfl
  refine ⟨⟨h.keys, fun key => ?_, fun key => ?_, fun key hmem => ?_, fun past key hpast => ?_,
    h.claimed, h.released, h.releaseFailures, ?_⟩, fun key hkey => ?_⟩
  · rw [count_append, count_singleton, if_neg (by simp [hacquire key]), h.acquired]
    rfl
  · rw [countP_append, countP_singleton, hasks, if_neg Bool.false_ne_true]
    exact h.asked key
  · rcases mem_append.mp hmem with hmem | hmem
    · exact h.unreleased key hmem
    · rw [mem_singleton] at hmem
      rcases hcall with rfl | ⟨k, rfl, -⟩ <;> cases hmem
  · rcases prefix_concat_iff.mp hpast with heq | hpast
    · obtain ⟨rfl, hlast⟩ := append_inj' heq rfl
      rcases hcall with rfl | ⟨k, rfl, hheld⟩
      · cases hlast
      · cases hlast
        have hcount := h.acquired key
        rw [← count_pos_iff, hcount]
        exact count_pos_iff.mpr hheld
    · exact h.rejects past key hpast
  · rw [length_append, length_singleton, ← h.queries]
    rfl
  · rw [countP_append, countP_singleton, hasks, if_neg Bool.false_ne_true]
    exact h.unasked key hkey

/-- The claims' part of a pass is in its memo and four of its counters. -/
structure SameClaims (w w' : Working) : Prop where
  held : w'.held = w.held
  claimed : w'.result.claimed = w.result.claimed
  released : w'.result.released = w.result.released
  releaseFailures : w'.result.releaseFailures = w.result.releaseFailures
  queries : w'.result.queries = w.result.queries

theorem Holding.same (h : Holding calls w) (hsame : SameClaims w w') : Holding calls w' := by
  refine ⟨⟨?_, ?_, h.asked, h.unreleased, h.rejects, ?_, ?_, ?_, ?_⟩, ?_⟩
  · rw [hsame.held]
    exact h.keys
  · rw [hsame.held]
    exact h.acquired
  · rw [hsame.claimed, hsame.held, h.claimed]
  · rw [hsame.released, h.released]
  · rw [hsame.releaseFailures, h.releaseFailures]
  · rw [hsame.queries, h.queries]
  · rw [hsame.held]
    exact h.unasked

/-! ## The counters of rows -/

/-- The counters of a result after so many rows. -/
structure Counted (result : SweepResult) (settled : Nat) : Prop where
  total : ∑ d, result.dispositions d = settled
  settleable : result.dispositions .settleable = 0
  rejected : result.rejected = result.dispositions .rejected

theorem Counted.same {result result' : SweepResult} {n : Nat} (h : Counted result n)
    (hdispositions : result'.dispositions = result.dispositions)
    (hrejected : result'.rejected = result.rejected) : Counted result' n := by
  refine ⟨?_, ?_, ?_⟩
  · rw [hdispositions]
    exact h.total
  · rw [hdispositions]
    exact h.settleable
  · rw [hdispositions, hrejected]
    exact h.rejected

/-- One more row, counted under its disposition. -/
theorem Counted.row {result result' : SweepResult} {n : Nat} (h : Counted result n)
    {d : Disposition} (hd : d ≠ .settleable)
    (hdispositions : ∀ c, result'.dispositions c =
      if c = d then result.dispositions c + 1 else result.dispositions c)
    (hrejected : result'.rejected = if d = .rejected then result.rejected + 1
      else result.rejected) : Counted result' (n + 1) := by
  refine ⟨?_, ?_, ?_⟩
  · have hone : ∀ c, result'.dispositions c = result.dispositions c + if c = d then 1 else 0 := by
      intro c
      rw [hdispositions]
      split <;> rfl
    simp only [hone, Finset.sum_add_distrib, h.total, Finset.sum_ite_eq', Finset.mem_univ, if_true]
  · rw [hdispositions, if_neg (Ne.symm hd)]
    exact h.settleable
  · rw [hdispositions, hrejected, h.rejected]
    simp only [eq_comm]

end Factory.Admission
