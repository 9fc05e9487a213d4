import Factory.Lib.Dialogue
import Factory.Wire
import Mathlib.Algebra.BigOperators.Group.List.Basic

/-!
# Candidate discovery

Model of `internal/routing/directory.go`: `Candidates` lists compatible Hosts, and while a page
reports lapsed rows it spends a part of one page budget on cleaning them up and lists again. What a
cleanup is allowed is the budget left over the cleanups left, rounded up (`allowances`).
-/

namespace Factory.Routing

open List Dialogue

structure DirectoryLimits where
  candidatePageLimit : Int
  reconcilePageLimit : Int
  reconcileMaxPages : Int
  maxCleanupAttempts : Int
deriving DecidableEq

/-- What `NewDirectory` refuses, by the field it names; `maxOrderedPageLimit` and
`maxHostTargetReconcilePages` are the store's. -/
def DirectoryLimits.invalidField (l : DirectoryLimits)
    (maxOrderedPageLimit maxHostTargetReconcilePages : Int) : Option String :=
  if l.candidatePageLimit < 1 ∨ maxOrderedPageLimit < l.candidatePageLimit then
    some "CandidatePageLimit"
  else if l.reconcilePageLimit < 1 ∨ maxOrderedPageLimit < l.reconcilePageLimit then
    some "ReconcilePageLimit"
  else if l.reconcileMaxPages < 1 ∨ maxHostTargetReconcilePages < l.reconcileMaxPages then
    some "ReconcileMaxPages"
  else if l.maxCleanupAttempts < 1 ∨ l.reconcileMaxPages < l.maxCleanupAttempts then
    some "MaxCleanupAttempts"
  else none

/-- A `Directory`: limits that `NewDirectory` accepted. -/
structure Directory where
  limits : DirectoryLimits
  maxOrderedPageLimit : Int
  maxHostTargetReconcilePages : Int
  accepted : limits.invalidField maxOrderedPageLimit maxHostTargetReconcilePages = none

structure ListCompatibleHostsRequest (Key : Type) where
  key : Key
  cursor : Cursor := ""
  limit : Int := 0

structure HostTargetPage (Host : Type) where
  hosts : List Host
  lapsedSkipped : Int := 0
  nextCursor : Cursor := ""

structure ReconcileHostTargetsRequest where
  limit : Int
  maxPages : Nat
  cursor : Cursor
deriving DecidableEq

/-- `sessionstore.HostTargetReconcileResult`, what `Candidates` reads of it. -/
structure HostTargetReconcileResult where
  exhausted : Bool
  nextCursor : Cursor
deriving DecidableEq

variable {Key Host Err : Type}

/-- A call of the store. -/
inductive DirectoryAsk (Key : Type) where
  | listCompatibleHosts (request : ListCompatibleHostsRequest Key)
  | reconcileHostTargets (request : ReconcileHostTargetsRequest)

def DirectoryAsk.Answer (Key Host Err : Type) : DirectoryAsk Key → Type
  | .listCompatibleHosts _ => Except Err (HostTargetPage Host)
  | .reconcileHostTargets _ => Except Err HostTargetReconcileResult

/-- `ListCompatibleHosts`. -/
def listHosts (request : ListCompatibleHostsRequest Key) :
    Dialogue (DirectoryAsk.Answer Key Host Err) (Except Err (HostTargetPage Host)) :=
  query (A := DirectoryAsk.Answer Key Host Err) (.listCompatibleHosts request)

/-- `ReconcileHostTargets`. -/
def reconcileTargets (request : ReconcileHostTargetsRequest) :
    Dialogue (DirectoryAsk.Answer Key Host Err) (Except Err HostTargetReconcileResult) :=
  query (A := DirectoryAsk.Answer Key Host Err) (.reconcileHostTargets request)

/-- The pages left over the cleanups left, rounded up. -/
def pagesThisAttempt (remainingPages remainingAttempts : Nat) : Nat :=
  (remainingPages + remainingAttempts - 1) / remainingAttempts

/-- The loop of `Candidates`, with the cleanups and the pages that remain. -/
def candidatesLoop (reconcilePageLimit : Int) (req : ListCompatibleHostsRequest Key) :
    Nat → Nat → Cursor →
      Dialogue (DirectoryAsk.Answer Key Host Err) (Except Err (HostTargetPage Host))
  | 0, _, _ => listHosts req
  | attempts + 1, remainingPages, dueCursor => do
    match ← listHosts req with
    | .error err => pure (.error err)
    | .ok page =>
      if page.lapsedSkipped = 0 ∨ remainingPages = 0 then pure (.ok page)
      else
        let pages := pagesThisAttempt remainingPages (attempts + 1)
        match ← reconcileTargets ⟨reconcilePageLimit, pages, dueCursor⟩ with
        | .error err => pure (.error err)
        | .ok result =>
          candidatesLoop reconcilePageLimit req attempts (remainingPages - pages)
            (if result.exhausted then "" else result.nextCursor)

/-- The limit of every listing. -/
def Directory.clamp (d : Directory) (limit : Int) : Int :=
  if limit = 0 ∨ d.limits.candidatePageLimit < limit then d.limits.candidatePageLimit else limit

def Directory.candidates (d : Directory) (original : ListCompatibleHostsRequest Key) :
    Dialogue (DirectoryAsk.Answer Key Host Err) (Except Err (HostTargetPage Host)) :=
  candidatesLoop d.limits.reconcilePageLimit { original with limit := d.clamp original.limit }
    d.limits.maxCleanupAttempts.toNat d.limits.reconcileMaxPages.toNat ""

/-! ## The budget -/

/-- What `n` cleanups may read of so many pages, one after the other. -/
def allowances : Nat → Nat → List Nat
  | 0, _ => []
  | n + 1, pages =>
    pagesThisAttempt pages (n + 1) :: allowances n (pages - pagesThisAttempt pages (n + 1))

theorem pagesThisAttempt_spec (pages n : Nat) :
    pages ≤ pagesThisAttempt pages (n + 1) * n + pagesThisAttempt pages (n + 1) ∧
      pagesThisAttempt pages (n + 1) * n + pagesThisAttempt pages (n + 1) ≤ pages + n := by
  have hdiv := Nat.div_add_mod (pages + (n + 1) - 1) (n + 1)
  have hmod : (pages + (n + 1) - 1) % (n + 1) < n + 1 := Nat.mod_lt _ (Nat.succ_pos n)
  have hmul : (n + 1) * ((pages + (n + 1) - 1) / (n + 1)) =
      pagesThisAttempt pages (n + 1) * n + pagesThisAttempt pages (n + 1) := by
    rw [pagesThisAttempt, Nat.mul_comm, Nat.mul_succ]
  omega

theorem mem_allowances {n pages low high a : Nat} (hlow : low * n ≤ pages)
    (hhigh : pages ≤ high * n) (ha : a ∈ allowances n pages) : low ≤ a ∧ a ≤ high := by
  induction n generalizing pages with
  | zero => cases ha
  | succ n ih =>
    obtain ⟨hle, hge⟩ := pagesThisAttempt_spec pages n
    rw [Nat.mul_succ] at hlow hhigh
    rw [allowances] at ha
    generalize pagesThisAttempt pages (n + 1) = share at hle hge ha
    have hlow' : low ≤ share := by
      by_contra hlt
      have := Nat.mul_le_mul_right n (Nat.le_of_lt_succ (Nat.lt_succ_of_lt (Nat.not_le.mp hlt)))
      omega
    have hhigh' : share ≤ high := by
      by_contra hlt
      have := Nat.mul_le_mul_right n (Nat.succ_le_of_lt (Nat.not_le.mp hlt))
      rw [Nat.succ_mul] at this
      omega
    rcases mem_cons.mp ha with rfl | ha
    · exact ⟨hlow', hhigh'⟩
    · refine ih ?_ ?_ ha
      · rcases Nat.eq_or_lt_of_le hlow' with heq | hlt
        · omega
        · have := Nat.mul_le_mul_right n hlt
          rw [Nat.succ_mul] at this
          omega
      · have := Nat.mul_le_mul_right n hhigh'
        omega

theorem sum_allowances {n pages : Nat} (hn : 0 < n) : (allowances n pages).sum = pages := by
  induction n generalizing pages with
  | zero => omega
  | succ n ih =>
    have hshare : 0 ≤ pagesThisAttempt pages (n + 1) ∧ pagesThisAttempt pages (n + 1) ≤ pages :=
      mem_allowances (n := n + 1) (by omega) (Nat.le_mul_of_pos_right pages n.succ_pos)
        mem_cons_self
    rw [allowances, sum_cons]
    rcases Nat.eq_zero_or_pos n with rfl | hpos
    · have := pagesThisAttempt_spec pages 0
      rw [allowances, sum_nil]
      omega
    · rw [ih hpos]
      exact Nat.add_sub_cancel' hshare.2

theorem pairwise_allowances (n pages : Nat) : (allowances n pages).Pairwise (· ≥ ·) := by
  induction n generalizing pages with
  | zero => exact .nil
  | succ n ih =>
    refine .cons (fun a ha => ?_) (ih _)
    have hle := (pagesThisAttempt_spec pages n).1
    exact (mem_allowances (by omega : 0 * n ≤ _) (by omega) ha).2

theorem length_allowances (n pages : Nat) : (allowances n pages).length = n := by
  induction n generalizing pages with
  | zero => rfl
  | succ n ih => rw [allowances, length_cons, ih]

/-! ## Calls -/

def cleanups (log : List (Sigma (DirectoryAsk.Answer Key Host Err))) :
    List ReconcileHostTargetsRequest :=
  log.filterMap fun e => match e.1 with
    | .listCompatibleHosts _ => none
    | .reconcileHostTargets request => some request

def listings (log : List (Sigma (DirectoryAsk.Answer Key Host Err))) :
    List (ListCompatibleHostsRequest Key) :=
  log.filterMap fun e => match e.1 with
    | .listCompatibleHosts request => some request
    | .reconcileHostTargets _ => none

/-- What the loop asks from where it stands, and what it returns. -/
structure Spends (req : ListCompatibleHostsRequest Key) (attempts pages : Nat)
    (log : List (Sigma (DirectoryAsk.Answer Key Host Err)))
    (out : Except Err (HostTargetPage Host)) : Prop where
  cleanups : (cleanups log).map (·.maxPages) <+: allowances attempts pages
  listings : (listings log).length ≤ (Routing.cleanups log).length + 1
  same : ∀ r ∈ Routing.listings log, r = req
  page : ∀ page, out = .ok page → log.getLast? = some ⟨.listCompatibleHosts req, .ok page⟩

theorem candidatesLoop_spends {limit : Int} {req : ListCompatibleHostsRequest Key}
    {attempts pages : Nat} {cursor : Cursor}
    {log : List (Sigma (DirectoryAsk.Answer Key Host Err))}
    {out : Except Err (HostTargetPage Host)}
    (h : Returns (candidatesLoop limit req attempts pages cursor) log out) :
    Spends req attempts pages log out := by
  have hlisted : ∀ {attempts pages} {answer out : Except Err (HostTargetPage Host)},
      (∀ page, out = .ok page → answer = .ok page) →
      Spends req attempts pages
        [(⟨.listCompatibleHosts req, answer⟩ : Sigma (DirectoryAsk.Answer Key Host Err))] out := by
    intro attempts pages answer out hout
    refine ⟨ nil_prefix, Nat.le_refl 1, fun r hr => mem_singleton.mp hr, ?_⟩
    intro page hpage
    rw [hout page hpage]
    rfl
  induction attempts generalizing pages cursor log with
  | zero =>
    cases returns_query.mp h
    exact hlisted fun _ h => h
  | succ n ih =>
    obtain ⟨answer, rest, rfl, hrest⟩ := returns_query_bind.mp h
    match answer, hrest with
    | .error err, hrest =>
      obtain ⟨rfl, rfl⟩ := returns_pure.mp hrest
      exact hlisted fun _ h => h
    | .ok page, hrest =>
      dsimp only at hrest
      split at hrest
      · obtain ⟨rfl, rfl⟩ := returns_pure.mp hrest
        exact hlisted fun _ h => h
      · obtain ⟨answer, rest, rfl, hcleaned⟩ := returns_query_bind.mp hrest
        match answer, hcleaned with
        | .error err, hcleaned =>
          obtain ⟨rfl, rfl⟩ := returns_pure.mp hcleaned
          refine ⟨⟨_, rfl⟩, by simp [listings, cleanups], fun r hr => mem_singleton.mp hr, ?_⟩
          intro page hpage
          cases hpage
        | .ok result, hcleaned =>
          obtain ⟨hcleanups, hlistings, hsame, hpage⟩ := ih hcleaned
          refine ⟨(prefix_cons_inj _).mpr hcleanups, Nat.succ_le_succ hlistings, ?_, ?_⟩
          · intro r hr
            exact (mem_cons.mp hr).elim id (hsame r)
          · intro page hout
            rw [getLast?_cons_cons, getLast?_cons, hpage page hout]
            rfl

theorem Directory.bounds (d : Directory) : 1 ≤ d.limits.candidatePageLimit ∧
    1 ≤ d.limits.maxCleanupAttempts ∧
    d.limits.maxCleanupAttempts ≤ d.limits.reconcileMaxPages := by
  have haccepted := d.accepted
  unfold DirectoryLimits.invalidField at haccepted
  split at haccepted <;> try cases haccepted
  split at haccepted <;> try cases haccepted
  split at haccepted <;> try cases haccepted
  split at haccepted <;> try cases haccepted
  omega

/-- What one call of `Candidates` asked and returned. -/
structure SpendsBudget (d : Directory) (original : ListCompatibleHostsRequest Key)
    (log : List (Sigma (DirectoryAsk.Answer Key Host Err)))
    (out : Except Err (HostTargetPage Host)) : Prop where
  attempts : (cleanups log).length ≤ d.limits.maxCleanupAttempts
  listings : (listings log).length ≤ (cleanups log).length + 1
  positive : ∀ c ∈ cleanups log, 1 ≤ c.maxPages
  total : ((cleanups log).map (·.maxPages)).sum ≤ d.limits.reconcileMaxPages
  whole : (cleanups log).length = d.limits.maxCleanupAttempts →
    ((cleanups log).map (·.maxPages)).sum = d.limits.reconcileMaxPages
  falling : ((cleanups log).map (·.maxPages)).Pairwise (· ≥ ·)
  even : ∀ c ∈ cleanups log, ∀ c' ∈ cleanups log, c.maxPages ≤ c'.maxPages + 1
  same : ∀ r ∈ Routing.listings log, r = { original with limit := d.clamp original.limit }
  clamped : 0 ≤ original.limit → 1 ≤ d.clamp original.limit ∧
    d.clamp original.limit ≤ d.limits.candidatePageLimit
  page : ∀ page, out = .ok page → log.getLast? = some
    ⟨.listCompatibleHosts { original with limit := d.clamp original.limit }, .ok page⟩

/-- Whatever the store answers, `Candidates` stays within the budget of the limits `NewDirectory`
accepted, spends all of it when it makes every cleanup, and returns the last listing. -/
theorem Directory.candidates_spend_budget (d : Directory)
    (original : ListCompatibleHostsRequest Key)
    (answers : Nat → (q : DirectoryAsk Key) → q.Answer Key Host Err) :
    SpendsBudget d original (run answers (d.candidates original) 0).1
      (run answers (d.candidates original) 0).2 := by
  obtain ⟨hcandidates, hattempts, hpages⟩ := d.bounds
  obtain ⟨hstart, hlistings, hsame, hpage⟩ :=
    candidatesLoop_spends (returns_run answers (d.candidates original) 0)
  generalize (run answers (d.candidates original) 0).1 = log at *
  generalize (run answers (d.candidates original) 0).2 = out at *
  generalize hn : d.limits.maxCleanupAttempts.toNat = n at hstart
  generalize hp : d.limits.reconcileMaxPages.toNat = pages at hstart
  have hpos : 0 < n := by omega
  have hmem : ∀ {c low high}, c ∈ cleanups log → low * n ≤ pages → pages ≤ high * n →
      low ≤ c.maxPages ∧ c.maxPages ≤ high := fun hc hlow hhigh =>
    mem_allowances hlow hhigh (hstart.subset (mem_map_of_mem hc))
  have hlength : (cleanups log).length ≤ n := by
    have := hstart.length_le
    rwa [length_map, length_allowances] at this
  have hfloor : pages / n * n ≤ pages := Nat.div_mul_le_self pages n
  have hceil : pages ≤ (pages / n + 1) * n := by
    rw [Nat.mul_comm]
    exact (Nat.lt_mul_div_succ pages hpos).le
  refine ⟨by omega, hlistings, ?_, ?_, ?_, ?_, ?_, hsame, ?_, hpage⟩
  · intro c hc
    exact (hmem hc (by omega : 1 * n ≤ pages) hceil).1
  · obtain ⟨rest, hrest⟩ := hstart
    have hsum : (allowances n pages).sum = pages := sum_allowances hpos
    rw [← hrest, sum_append] at hsum
    omega
  · intro hall
    have heq := hstart.eq_of_length (by rw [length_map, length_allowances]; omega)
    rw [heq, sum_allowances hpos]
    omega
  · exact (pairwise_allowances n pages).sublist hstart.sublist
  · intro c hc c' hc'
    have hle := (hmem hc hfloor hceil).2
    have hge := (hmem hc' hfloor hceil).1
    omega
  · unfold Directory.clamp
    split <;> omega

/-- Five pages for two cleanups. -/
def fivePages : Directory where
  limits := ⟨10, 10, 5, 2⟩
  maxOrderedPageLimit := 100
  maxHostTargetReconcilePages := 64
  accepted := rfl

/-- Every listing reports a lapsed row, and every cleanup ends. -/
def lapsing : Nat → (q : DirectoryAsk Unit) → q.Answer Unit Unit Unit
  | _, .listCompatibleHosts _ => .ok ⟨[], 1, ""⟩
  | _, .reconcileHostTargets _ => .ok ⟨true, ""⟩

theorem candidates_spend_budget_fivePages :
    (cleanups (run lapsing (fivePages.candidates { key := () }) 0).1).map (·.maxPages) = [3, 2] ∧
      SpendsBudget fivePages { key := () } (run lapsing (fivePages.candidates { key := () }) 0).1
        (run lapsing (fivePages.candidates { key := () }) 0).2 :=
  ⟨rfl, fivePages.candidates_spend_budget _ lapsing⟩

end Factory.Routing
