import Factory.Placement.Attach

/-!
# The calls of a pooled placement

What each part of `placePooled` adds to the calls made so far. A candidate is asked the same
and ends the same whatever was done before it (`asks`, `ends`), so the loop over a page asks the
candidates up to the first one that does not let the next be asked (`mem_candidates`), and the
calls about the candidates of one round are those of the loop over that round's page
(`mem_placePooled`).
-/

namespace Factory.Placement

open List

/-! ## Calls added -/

/-- The calls of `u` are those of `t` and then calls that satisfy `P`. -/
def Adds (P : Call → Prop) (t u : Tried) : Prop :=
  ∃ calls, u.log = t.log ++ calls ∧ ∀ c ∈ calls, P c

section Adds

variable {P Q : Call → Prop} {t u v : Tried}

theorem Adds.refl (t : Tried) : Adds P t t := ⟨[], by simp, by simp⟩

theorem Adds.trans (htu : Adds P t u) (huv : Adds P u v) : Adds P t v := by
  obtain ⟨cs, hcs, hPcs⟩ := htu
  obtain ⟨ds, hds, hPds⟩ := huv
  refine ⟨cs ++ ds, by rw [hds, hcs, append_assoc], ?_⟩
  intro c hc
  rcases mem_append.mp hc with hc | hc
  · exact hPcs c hc
  · exact hPds c hc

theorem Adds.call {c : Call} (h : Adds P t u) (hc : P c) : Adds P t (u.call c) :=
  h.trans ⟨[c], rfl, by simpa using hc⟩

theorem Adds.of_log (h : Adds P t u) (hlog : v.log = u.log) : Adds P t v := by
  obtain ⟨cs, hcs, hP⟩ := h
  exact ⟨cs, hlog.trans hcs, hP⟩

theorem Adds.mono (h : Adds P t u) (hPQ : ∀ c, P c → Q c) : Adds Q t u := by
  obtain ⟨cs, hcs, hP⟩ := h
  exact ⟨cs, hcs, fun c hc => hPQ c (hP c hc)⟩

theorem Adds.mem (h : Adds P t u) {c : Call} (hc : c ∈ t.log) : c ∈ u.log := by
  obtain ⟨cs, hcs, -⟩ := h
  exact hcs ▸ mem_append_left _ hc

theorem Adds.of_mem (h : Adds P t u) {c : Call} (hc : c ∈ u.log) : c ∈ t.log ∨ P c := by
  obtain ⟨cs, hcs, hP⟩ := h
  rw [hcs] at hc
  exact (mem_append.mp hc).imp id (hP c)

end Adds

@[simp] theorem Tried.call_log (t : Tried) (c : Call) : (t.call c).log = t.log ++ [c] := rfl
@[simp] theorem Tried.decides_log (t : Tried) (d : Decision) : (t.decides d).log = t.log := rfl
@[simp] theorem Tried.returns_tried (t : Tried) : t.returns.tried = t := rfl

/-- The answer lets the next candidate of the page be asked. -/
def Answer.goesOn : Answer → Bool
  | .abort _ => false
  | .accepted _ => false
  | .stale _ => false
  | .refused _ => true
  | .unsupported => true
  | .unreachable => true
  | .failed => true
  | .unaddressable => true

/-- The round a call belongs to; the calls of the wake belong to none. -/
def Call.round : Call → Option Nat
  | .wait round _ => some round
  | .owner round _ => some round
  | .candidates round _ _ _ _ => some round
  | .accepts _ round _ _ => some round
  | .attach round _ _ _ => some round
  | _ => none

/-- The round and the rank of the candidate a call asks. -/
def Call.place : Call → Option (Nat × Nat)
  | .accepts _ round rank _ => some (round, rank)
  | .attach round rank _ _ => some (round, rank)
  | _ => none

variable {round rank : Nat} {c : Call}

theorem Call.round_of_place (h : c.place = some (round, rank)) : c.round = some round := by
  cases c <;> simp_all [Call.place, Call.round]

/-! ## The wake -/

/-- The call belongs to the wake, or to the reads before the rounds. -/
def Call.Roundless (c : Call) : Prop := c.round = none

/-- The call asks the Host a route was bound to, or delivers to it. -/
inductive Call.OfWake : Call → Prop
  | boundAccepts (capability : Capability) (of : HostLinkRegistryObservation) :
      OfWake (.boundAccepts capability of)
  | deliverCommand (key : SessionKey) (delivery : HostLinkCommandDelivery) :
      OfWake (.deliverCommand key delivery)

theorem Call.OfWake.roundless (h : c.OfWake) : c.Roundless := by
  cases h <;> rfl

theorem Waking.test_adds {w u : Waking} {links : HostLinks} {req : Request}
    {observation : HostLinkRegistryObservation} {command : CommandID} {capability : Capability}
    {ok : Bool} (h : w.test links req observation command capability = (ok, u)) :
    Adds Call.OfWake w.tried u.tried := by
  unfold Waking.test at h
  split at h
  · split at h
    · cases h
      exact Adds.refl _
    · cases h
      exact Adds.call (Adds.refl _) (.boundAccepts _ _)
  · cases h
    exact Adds.refl _

theorem Waking.command_adds (w : Waking) (links : HostLinks) (req : Request)
    (observation : HostLinkRegistryObservation) (i : Nat) (command : CommandID) :
    Adds Call.OfWake w.tried (w.command links req observation i command).tried := by
  unfold Waking.command
  split
  · rename_i w1 heq
    exact test_adds heq
  · rename_i w1 heq
    have h1 := test_adds heq
    split
    · rename_i w2 heq
      exact (h1.trans (test_adds heq)).of_log rfl
    · rename_i w2 heq
      have h2 := h1.trans (test_adds heq)
      split
      · rename_i w3 heq
        exact (h2.trans (test_adds heq)).of_log rfl
      · rename_i w3 heq
        have h3 : Adds Call.OfWake w.tried (w3.tried.call (.deliverCommand req.key ⟨command⟩)) :=
          (h2.trans (test_adds heq)).call (.deliverCommand _ _)
        split
        · exact h3.of_log rfl
        · exact h3.of_log rfl

theorem Waking.commands_adds (w : Waking) (links : HostLinks) (req : Request)
    (observation : HostLinkRegistryObservation) (i : Nat) (wake : List CommandID) :
    Adds Call.OfWake w.tried (w.commands links req observation i wake).tried := by
  induction wake generalizing w i with
  | nil => exact Adds.refl _
  | cons command rest ih =>
    exact (w.command_adds links req observation i command).trans (ih _ (i + 1))

variable (t : Tried) (cfg : ReconcilerConfig) (links : HostLinks) (req : Request)
  (observation : HostLinkRegistryObservation) (attached : Bool)

/-- The calls of `bindAndDeliver` after its route read and its bind. -/
theorem Tried.bindAndDeliver_calls :
    Adds (fun c => c.OfWake ∨ ∃ unbind, c = .unbind unbind)
      ((t.call (.routeFor req.key)).call
        (.bind observation.internalEndpoint (cfg.bindRequestFor observation)))
      (t.bindAndDeliver cfg links req observation attached).tried := by
  unfold Tried.bindAndDeliver
  split
  · exact Adds.refl _
  · split
    · refine Adds.call (Adds.trans (Adds.of_log (Adds.refl _) ?_)
        ((Waking.commands_adds { tried := _ } links req observation 0 req.wake).mono
          fun _ hc => .inl hc)) (.inr ⟨_, rfl⟩)
      rfl
    · refine Adds.trans (Adds.of_log (Adds.refl _) ?_)
        ((Waking.commands_adds { tried := _ } links req observation 0 req.wake).mono
          fun _ hc => .inl hc)
      rfl

theorem Tried.bindAndDeliver_adds :
    Adds Call.Roundless t (t.bindAndDeliver cfg links req observation attached).tried := by
  have hbound : Adds Call.Roundless t
      ((t.call (.routeFor req.key)).call
        (.bind observation.internalEndpoint (cfg.bindRequestFor observation))) :=
    Adds.call (Adds.call (Adds.refl t) rfl) rfl
  refine hbound.trans ((t.bindAndDeliver_calls cfg links req observation attached).mono ?_)
  rintro c (hc | ⟨unbind, rfl⟩)
  · exact hc.roundless
  · rfl

theorem Tried.wake_adds (owner : HostLinkRegistryObservation) :
    Adds Call.Roundless t (t.wake cfg links req owner).tried := by
  unfold Tried.wake
  split
  · exact Adds.refl _
  · exact t.bindAndDeliver_adds cfg links req owner false

/-! ## One candidate -/

/-- A placement that has done nothing yet. -/
def blank : Tried := { result := {} }

namespace Placing

variable (p : Placing) (seams : Seams)

/-- How the loop's body ends for a candidate. -/
def ends (round rank : Nat) (candidate : HostLinkCapacityReport) : Ended :=
  (p.candidate round rank candidate blank).1

/-- The calls the loop's body makes for a candidate. -/
def asks (round rank : Nat) (candidate : HostLinkCapacityReport) : List Call :=
  (p.candidate round rank candidate blank).2.log

/-- From `t` and from `u` the same was done: the same end and the same calls, all of them about
the candidate at one place. -/
def Alike {α : Type} (round rank : Nat) (t u : Tried) (x y : α × Tried) : Prop :=
  x.1 = y.1 ∧ ∃ calls, x.2.log = t.log ++ calls ∧ y.2.log = u.log ++ calls ∧
    ∀ c ∈ calls, c.place = some (round, rank)

variable {t : Tried}

variable {u : Tried}

theorem Alike.after_call {α : Type} {x y : α × Tried} (hc : c.place = some (round, rank))
    (h : Alike round rank (t.call c) (u.call c) x y) : Alike round rank t u x y := by
  obtain ⟨hends, calls, ht, hu, hplace⟩ := h
  refine ⟨hends, c :: calls, ?_, ?_, ?_⟩
  · rw [ht, Tried.call_log, append_assoc, singleton_append]
  · rw [hu, Tried.call_log, append_assoc, singleton_append]
  · intro d hd
    rcases mem_cons.mp hd with rfl | hd
    · exact hc
    · exact hplace d hd

theorem Alike.of_log {α : Type} {t' u' : Tried} {a : α} (ht : t'.log = t.log) (hu : u'.log = u.log)
    : Alike round rank t u (a, t') (a, u') :=
  ⟨rfl, [], by simp [ht], by simp [hu], by simp⟩

/-- What the filters ask does not depend on what was done before. -/
theorem filters_alike (round rank : Nat) (candidate : HostLinkCapacityReport)
    (cs : List Capability) (t u : Tried) :
    Alike round rank t u (p.filters round rank candidate cs t)
      (p.filters round rank candidate cs u) := by
  induction cs generalizing t u with
  | nil => exact Alike.of_log rfl rfl
  | cons capability rest ih =>
    unfold filters
    split
    · exact ih t u
    · refine Alike.after_call (c := .accepts capability round rank (questioned p.req candidate))
        rfl ?_
      split
      · exact ih _ _
      all_goals exact Alike.of_log rfl rfl

/-- The first capability that is needed is asked about. -/
theorem first_mem_filters (round rank : Nat) (candidate : HostLinkCapacityReport)
    {cs : List Capability} {capability : Capability}
    (h : cs.find? (fun c => p.req.requiring c ≠ []) = some capability) (t : Tried) :
    .accepts capability round rank (questioned p.req candidate) ∈
      (p.filters round rank candidate cs t).2.log := by
  induction cs with
  | nil => cases h
  | cons c rest ih =>
    unfold filters
    split
    · rename_i hunneeded
      rw [find?_cons_of_neg (by simp [hunneeded])] at h
      exact ih h
    · rename_i hneeded
      rw [find?_cons_of_pos (by simp [hneeded])] at h
      cases h
      have hmem : Call.accepts capability round rank (questioned p.req candidate) ∈
          (t.call (.accepts capability round rank (questioned p.req candidate))).log := by simp
      split
      · obtain ⟨-, calls, hlog, -⟩ := p.filters_alike round rank candidate rest
          (t.call (.accepts capability round rank (questioned p.req candidate))) blank
        rw [hlog]
        exact mem_append_left _ hmem
      all_goals exact hmem

variable {candidate : HostLinkCapacityReport}

theorem filters_of_unneeded {cs : List Capability} (h : ∀ c ∈ cs, p.req.requiring c = [])
    (t : Tried) : p.filters round rank candidate cs t = (none, t) := by
  induction cs with
  | nil => rfl
  | cons c rest ih =>
    rw [filters, if_pos (h c mem_cons_self)]
    exact ih (forall_mem_cons.mp h).2

theorem attach_mem_attach (t : Tried) :
    .attach round rank candidate.internalEndpoint
        (p.cfg.attachRequest p.record candidate (attachMode p.record)) ∈
      (p.attach round rank candidate t).2.log := by
  unfold attach
  split
  all_goals exact mem_append_right _ mem_cons_self

section Candidate

variable (round rank : Nat) (candidate : HostLinkCapacityReport) (t u : Tried)

/-- Nor does what an attach asks. -/
theorem attach_alike :
    Alike round rank t u (p.attach round rank candidate t) (p.attach round rank candidate u) := by
  unfold attach
  refine Alike.after_call (c := .attach round rank candidate.internalEndpoint
    (p.cfg.attachRequest p.record candidate (attachMode p.record))) rfl ?_
  split
  all_goals exact Alike.of_log rfl rfl

theorem candidate_alike :
    Alike round rank t u (p.candidate round rank candidate t)
      (p.candidate round rank candidate u) := by
  unfold Placing.candidate
  split
  · obtain ⟨hends, calls, ht, hu, hplace⟩ :=
      p.filters_alike round rank candidate capabilities t u
    rcases hft : p.filters round rank candidate capabilities t with ⟨end1, t1⟩
    rcases hfu : p.filters round rank candidate capabilities u with ⟨end2, u1⟩
    rw [hft, hfu] at hends
    rw [hft] at ht
    rw [hfu] at hu
    subst hends
    cases end1 with
    | some ended => exact ⟨rfl, calls, ht, hu, hplace⟩
    | none =>
      obtain ⟨hends, more, ht', hu', hplace'⟩ := p.attach_alike round rank candidate t1 u1
      refine ⟨hends, calls ++ more, ?_, ?_, ?_⟩
      · rw [← append_assoc, ← ht]
        exact ht'
      · rw [← append_assoc, ← hu]
        exact hu'
      · intro c hc
        exact (mem_append.mp hc).elim (hplace c) (hplace' c)
  · exact Alike.of_log rfl rfl

/-- A candidate is asked the same, whatever was done before. -/
theorem candidate_log :
    (p.candidate round rank candidate t).2.log = t.log ++ p.asks round rank candidate := by
  obtain ⟨-, calls, ht, hblank, -⟩ := p.candidate_alike round rank candidate t blank
  rw [ht, asks, hblank]
  rfl

end Candidate

theorem place_of_mem_asks (hc : c ∈ p.asks round rank candidate) :
    c.place = some (round, rank) := by
  obtain ⟨-, calls, -, hblank, hplace⟩ := p.candidate_alike round rank candidate blank blank
  rw [asks, hblank] at hc
  exact hplace c (by simpa [blank] using hc)

/-! ## One page -/

/-- The call is one the loop over a page makes: it asks a candidate all of whose predecessors
let the next be asked. -/
def Asked (round first : Nat) (hosts : List HostLinkCapacityReport) (c : Call) : Prop :=
  ∃ k host, hosts[k]? = some host ∧
    (∀ j < k, ∀ earlier, hosts[j]? = some earlier → p.ends round (first + j) earlier = .next) ∧
    c ∈ p.asks round (first + k) host

theorem asked_cons {first : Nat} {host : HostLinkCapacityReport}
    {rest : List HostLinkCapacityReport} :
    p.Asked round first (host :: rest) c ↔
      c ∈ p.asks round first host ∨
        p.ends round first host = .next ∧ p.Asked round (first + 1) rest c := by
  constructor
  · rintro ⟨k, at', hk, hbefore, hc⟩
    cases k with
    | zero =>
      cases hk
      exact .inl hc
    | succ k =>
      refine .inr ⟨hbefore 0 (Nat.succ_pos k) host rfl, k, at', hk, ?_, ?_⟩
      · intro j hj earlier hearlier
        have := hbefore (j + 1) (by omega) earlier hearlier
        rwa [show first + (j + 1) = first + 1 + j by omega] at this
      · rwa [show first + (k + 1) = first + 1 + k by omega] at hc
  · rintro (hc | ⟨hends, k, at', hk, hbefore, hc⟩)
    · exact ⟨0, host, rfl, fun j hj => absurd hj (Nat.not_lt_zero j), hc⟩
    · refine ⟨k + 1, at', hk, ?_, ?_⟩
      · intro j hj earlier hearlier
        cases j with
        | zero =>
          cases hearlier
          exact hends
        | succ j =>
          rw [show first + (j + 1) = first + 1 + j by omega]
          exact hbefore j (by omega) earlier hearlier
      · rwa [show first + (k + 1) = first + 1 + k by omega]

variable {hosts : List HostLinkCapacityReport}

theorem mem_candidates {first : Nat} :
    c ∈ (p.candidates round first hosts t).2.log ↔ c ∈ t.log ∨ p.Asked round first hosts c := by
  induction hosts generalizing first t with
  | nil => simp [candidates, Asked]
  | cons host rest ih =>
    have hends : _ = p.ends round first host := (p.candidate_alike round first host t blank).1
    have hlog := p.candidate_log round first host t
    rw [asked_cons]
    unfold candidates
    split
    · rename_i u heq
      rw [heq] at hends hlog
      rw [ih, hlog, mem_append, ← hends, or_assoc]
      simp
    · rename_i hne
      rcases hu : p.candidate round first host t with ⟨ended, u⟩
      rw [hu] at hends hlog
      dsimp only at hends hlog
      have hnot : p.ends round first host ≠ .next := by
        rintro hnext
        rw [hnext] at hends
        exact hne u (by rw [hu, hends])
      rw [hlog, mem_append]
      simp [hnot]

/-! ## The rounds -/

/-- The round whose page a call reads. -/
def page : Call → Option Nat
  | .candidates round _ _ _ _ => some round
  | _ => none

theorem round_of_page (h : page c = some round) : c.round = some round := by
  cases c <;> simp_all [page, Call.round]

theorem opening_error {returned : Returned} (h : p.opening seams round t = (u, .error returned)) :
    Adds (fun c => c.place = none ∧ (c.Roundless ∨ c.round = some round) ∧
      (page c = some round → ∃ err, seams.candidates round = .error err)) t returned.tried := by
  have hwaited : Adds (fun c => c.place = none ∧ (c.Roundless ∨ c.round = some round) ∧
      (page c = some round → ∃ err, seams.candidates round = .error err)) t
      (if round = 0 then t
        else (Tried.mk { t.result with replacements := t.result.replacements + 1 } t.log).call
          (.wait round (p.cfg.backoff round))) := by
    split
    · exact Adds.refl t
    · exact Adds.call (Adds.of_log (Adds.refl t) rfl) ⟨rfl, .inr rfl, by simp [page]⟩
  unfold opening at h
  dsimp only at h
  split at h
  · cases h
    exact hwaited
  · have howner := hwaited.call (c := .owner round p.req.key) ⟨rfl, .inr rfl, by simp [page]⟩
    split at h
    · cases h
      exact howner
    · split at h
      · cases h
        refine (howner.of_log rfl).trans (Adds.mono (Tried.wake_adds _ _ _ _ _) ?_)
        intro c hc
        refine ⟨?_, .inl hc, fun hpage => ?_⟩
        · rcases hplace : c.place with _ | ⟨r, k⟩
          · rfl
          · exact absurd (hc.symm.trans (Call.round_of_place hplace)) (by simp)
        · exact absurd (hc.symm.trans (round_of_page hpage)) (by simp)
      · split at h
        · rename_i err herr
          cases h
          exact howner.call ⟨rfl, .inr rfl, fun _ => ⟨err, herr⟩⟩
        · cases h

theorem opening_ok (h : p.opening seams round t = (u, .ok hosts)) :
    seams.candidates round = .ok hosts ∧
      Adds (fun c => c.place = none ∧ c.round = some round) t u := by
  have hwaited : Adds (fun c => c.place = none ∧ c.round = some round) t
      (if round = 0 then t
        else (Tried.mk { t.result with replacements := t.result.replacements + 1 } t.log).call
          (.wait round (p.cfg.backoff round))) := by
    split
    · exact Adds.refl t
    · exact Adds.call (Adds.of_log (Adds.refl t) rfl) ⟨rfl, rfl⟩
  unfold opening at h
  dsimp only at h
  split at h
  · cases h
  · split at h
    · cases h
    · split at h
      · cases h
      · split at h
        · cases h
        · rename_i hpage
          cases h
          exact ⟨hpage, Adds.call (Adds.call hwaited ⟨rfl, rfl⟩) ⟨rfl, rfl⟩⟩

/-- What a round came to: it returned before the candidates, or after them, or it left the
session to the next round. -/
theorem rounds_cases (left round : Nat) (t : Tried) :
    (∃ u, p.opening seams round t = (u, .error (p.rounds seams left round t))) ∨
      ∃ u hosts, p.opening seams round t = (u, .ok hosts) ∧
        (Adds Call.Roundless (p.candidates round 0 hosts u).2 (p.rounds seams left round t).tried ∨
          ∃ fewer, left = fewer + 1 ∧ p.rounds seams left round t =
            p.rounds seams fewer (round + 1) (p.candidates round 0 hosts u).2) := by
  rcases hopen : p.opening seams round t with ⟨u, ret | hosts⟩
  · left
    refine ⟨u, ?_⟩
    rw [rounds, hopen]
  · right
    refine ⟨u, hosts, rfl, ?_⟩
    rw [rounds, hopen]
    dsimp only
    rcases p.candidates round 0 hosts u with ⟨ended, v⟩
    cases ended with
    | next => exact .inl (Adds.of_log (Adds.refl v) rfl)
    | accepted candidate observation =>
      exact .inl
        (Adds.trans (Adds.of_log (Adds.refl v) rfl) (Tried.bindAndDeliver_adds _ _ _ _ _ _))
    | abort err => exact .inl (Adds.refl v)
    | stale =>
      cases left with
      | zero => exact .inl (Adds.of_log (Adds.refl v) rfl)
      | succ fewer => exact .inr ⟨fewer, rfl, rfl⟩

theorem candidates_adds (round first : Nat) (hosts : List HostLinkCapacityReport) (t : Tried) :
    Adds (fun c => c.round = some round) t (p.candidates round first hosts t).2 := by
  induction hosts generalizing first t with
  | nil => exact Adds.refl t
  | cons host rest ih =>
    have hone : Adds (fun c => c.round = some round) t (p.candidate round first host t).2 :=
      ⟨_, p.candidate_log round first host t,
        fun c hc => Call.round_of_place (p.place_of_mem_asks hc)⟩
    unfold candidates
    split
    · rename_i u heq
      rw [heq] at hone
      exact hone.trans (ih (first + 1) u)
    · exact hone

theorem loop_adds (h : p.opening seams round t = (u, .ok hosts)) :
    Adds (fun c => c.round = some round) t (p.candidates round 0 hosts u).2 :=
  ((p.opening_ok seams h).2.mono fun _ hc => hc.2).trans (p.candidates_adds round 0 hosts u)

theorem rounds_adds (left round : Nat) (t : Tried) :
    Adds (fun c => c.Roundless ∨ ∃ r, c.round = some r ∧ round ≤ r) t
      (p.rounds seams left round t).tried := by
  induction left using Nat.strongRecOn generalizing round t with
  | _ left ih =>
    rcases p.rounds_cases seams left round t with ⟨u, hopen⟩ | ⟨u, hosts, hopen, hrest⟩
    · refine (p.opening_error seams hopen).mono ?_
      rintro c ⟨-, hc | hc, -⟩
      · exact .inl hc
      · exact .inr ⟨round, hc, le_rfl⟩
    · refine Adds.trans ((p.loop_adds seams hopen).mono fun c hc => .inr ⟨round, hc, le_rfl⟩) ?_
      rcases hrest with hadds | ⟨fewer, rfl, heq⟩
      · exact hadds.mono fun c hc => .inl hc
      · rw [heq]
        refine (ih fewer (Nat.lt_succ_self fewer) (round + 1) _).mono ?_
        rintro c (hc | ⟨r, hc, hr⟩)
        · exact .inl hc
        · exact .inr ⟨r, hc, by omega⟩

theorem mem_rounds {left first : Nat} (hbefore : ∀ c ∈ t.log, ∀ r, c.round = some r → r < first)
    (hround : first ≤ round) (hpage : seams.candidates round = .ok hosts)
    (hread : ∃ c ∈ (p.rounds seams left first t).tried.log, page c = some round)
    (hc : c.place = some (round, rank)) :
    c ∈ (p.rounds seams left first t).tried.log ↔ p.Asked round 0 hosts c := by
  induction left using Nat.strongRecOn generalizing first t with
  | _ left ih =>
    obtain ⟨read, hmem, hreads⟩ := hread
    rcases p.rounds_cases seams left first t with ⟨u, hopen⟩ | ⟨u, hosts', hopen, hrest⟩
    · -- the round at hand returned, so no page was read
      exfalso
      rcases (p.opening_error seams hopen).of_mem hmem with hold | ⟨-, hin, hfault⟩
      · have := hbefore read hold round (round_of_page hreads)
        omega
      · rcases hin with hin | hin
        · exact absurd (hin.symm.trans (round_of_page hreads)) (by simp)
        · obtain rfl : round = first := by
            rw [round_of_page hreads] at hin
            exact Option.some.inj hin
          obtain ⟨err, herr⟩ := hfault hreads
          cases hpage.symm.trans herr
    · have hloop := p.loop_adds seams hopen
      -- what comes after the loop is about later rounds, or about none
      have hlater : Adds (fun c => c.Roundless ∨ ∃ r, c.round = some r ∧ first < r)
          (p.candidates first 0 hosts' u).2 (p.rounds seams left first t).tried := by
        rcases hrest with hadds | ⟨fewer, rfl, heq⟩
        · exact hadds.mono fun c hc => .inl hc
        · rw [heq]
          exact p.rounds_adds seams fewer (first + 1) _
      by_cases hsame : round = first
      · subst hsame
        obtain ⟨hpage', hopened⟩ := p.opening_ok seams hopen
        cases hpage.symm.trans hpage'
        constructor
        · intro hmem
          rcases hlater.of_mem hmem with hmem | hmem | ⟨r, hr, hlt⟩
          · rcases p.mem_candidates.mp hmem with hmem | hasked
            · rcases hopened.of_mem hmem with hmem | ⟨hnone, -⟩
              · exact absurd (hbefore c hmem round (Call.round_of_place hc)) (lt_irrefl round)
              · cases hc.symm.trans hnone
            · exact hasked
          · exact absurd (hmem.symm.trans (Call.round_of_place hc)) (by simp)
          · rw [Call.round_of_place hc] at hr
            cases hr
            exact absurd hlt (lt_irrefl round)
        · intro hasked
          exact hlater.mem (p.mem_candidates.mpr (.inr hasked))
      · -- a later round: the loop at hand left the session to the next one
        have hread' : ¬ Adds Call.Roundless (p.candidates first 0 hosts' u).2
            (p.rounds seams left first t).tried := by
          intro hadds
          rcases hadds.of_mem hmem with hmem | hmem
          · rcases hloop.of_mem hmem with hmem | hmem
            · have := hbefore read hmem round (round_of_page hreads)
              omega
            · rw [round_of_page hreads] at hmem
              exact hsame (Option.some.inj hmem)
          · exact absurd (hmem.symm.trans (round_of_page hreads)) (by simp)
        rcases hrest with hadds | ⟨fewer, rfl, heq⟩
        · exact absurd hadds hread'
        · rw [heq] at hmem ⊢
          refine ih fewer (Nat.lt_succ_self fewer) ?_ (by omega) ⟨read, hmem, hreads⟩
          intro d hd r hr
          rcases hloop.of_mem hd with hd | hd
          · exact lt_trans (hbefore d hd r hr) (Nat.lt_succ_self first)
          · cases hr.symm.trans hd
            exact Nat.lt_succ_self _

end Placing

/-- The calls of a placement about the candidates of one round are those of the loop over the
page it read then. -/
theorem mem_placePooled {cfg : ReconcilerConfig} {links : HostLinks} {seams : Seams} {req : Request}
    {writes : Nat} {record : CatalogRecord} {hosts : List HostLinkCapacityReport}
    (hrecord : seams.getCatalogEntry = .ok record) (hpage : seams.candidates round = .ok hosts)
    (hread : ∃ c ∈ (placePooled cfg links seams req writes).tried.log, Placing.page c = some round)
    (hc : c.place = some (round, rank)) :
    c ∈ (placePooled cfg links seams req writes).tried.log ↔
      Placing.Asked ⟨cfg, links, req, record⟩ round 0 hosts c := by
  unfold placePooled at hread ⊢
  rw [hrecord] at hread ⊢
  dsimp only at hread ⊢
  split at hread
  · rename_i hpooled
    rw [if_pos hpooled]
    refine Placing.mem_rounds _ seams ?_ (Nat.zero_le round) hpage hread hc
    intro d hd r hr
    simp only [Tried.call_log, nil_append, mem_singleton] at hd
    rw [hd] at hr
    cases hr
  · obtain ⟨d, hd, hpage'⟩ := hread
    simp only [Tried.returns_tried, Tried.decides_log, Tried.call_log, nil_append,
      mem_singleton] at hd
    rw [hd] at hpage'
    cases hpage'

end Factory.Placement
