import Factory.Placement.AttachSpec

/-!
# The order of the attaches of a placement

What every call of `placePooled` may rest on among the calls before it (`Allowed`): an attach is
sent to a candidate of the page of its own round, admissible and affirmed there, after the owner
was read and found unusable, and no earlier attach may have been accepted or left undecided; a bind
names a residency that was read or accepted before it. The loops are followed with what the calls
so far leave open (`Past`), and every list of calls of a placement is made of allowed ones
(`placePooled_disciplined`).
-/

namespace Factory.Placement

open List

/-! ## What a call may rest on -/

/-- The answer ends the round and no more. -/
def Answer.isStale : Answer → Bool
  | .stale _ => true
  | _ => false

/-- After an attach at rank `k` of round `r` another may be sent at a rank of a round: the first
went on and the other is at a higher rank of the same round, or the other is in a later round. -/
def Follows (links : HostLinks) (round rank r k : Nat) : Prop :=
  (r = round ∧ k < rank ∧ (attachAnswer (links.attach r k)).goesOn = true) ∨
    (r < round ∧ ((attachAnswer (links.attach r k)).goesOn = true ∨
      (attachAnswer (links.attach r k)).isStale = true))

variable {round rank : Nat}

theorem Follows.later {links : HostLinks} {r k : Nat} (h : Follows links round rank r k) :
    Follows links round (rank + 1) r k := by
  rcases h with ⟨hr, hk, hanswer⟩ | h
  · exact .inl ⟨hr, Nat.lt_succ_of_lt hk, hanswer⟩
  · exact .inr h

theorem Follows.next_round {links : HostLinks} {r k : Nat} (h : Follows links round rank r k) :
    Follows links (round + 1) 0 r k := by
  rcases h with ⟨hr, -, hanswer⟩ | ⟨hr, hanswer⟩
  · exact .inr ⟨by omega, .inl hanswer⟩
  · exact .inr ⟨by omega, hanswer⟩

/-- The answer to the call makes the placement return an error. -/
def Call.Aborts (links : HostLinks) (seams : Seams) : Call → Prop
  | .wait round _ => ∃ err, seams.wait round = some err
  | .owner round _ => ∃ err, seams.owner round = .error err
  | .candidates round _ _ _ _ => ∃ err, seams.candidates round = .error err
  | .accepts capability round rank _ =>
    ∃ err, classifyGateCapability (links.accepts capability round rank) = .abort err
  | .attach round rank _ _ => ∃ err, attachAnswer (links.attach round rank) = .abort err
  | _ => False

/-- What makes a candidate admissible for a session. -/
structure Admissible (candidate : HostLinkCapacityReport) (record : CatalogRecord) : Prop where
  agent : candidate.agent = record.agent
  runtimeCompatibility : candidate.runtimeCompatibility = record.runtimeCompatibility
  placement : candidate.placement = record.desiredPlacement
  crossTenantIsolated : candidate.crossTenantIsolated = true
  accepting : candidate.accepting = true
  availableCapacity : 0 < candidate.availableCapacity

theorem Admissible.of_admissible {candidate : HostLinkCapacityReport} {record : CatalogRecord}
    (h : admissible candidate record = true) : Admissible candidate record := by
  simp only [admissible, Bool.and_eq_true, beq_iff_eq, decide_eq_true_eq] at h
  obtain ⟨⟨⟨⟨⟨hagent, hcompatible⟩, hplacement⟩, hisolated⟩, haccepting⟩, hcapacity⟩ := h
  exact ⟨hagent, hcompatible, hplacement, hisolated, haccepting, hcapacity⟩

namespace Placing

variable (p : Placing) (seams : Seams)

/-- The candidate affirmed the capability in the round. -/
def Affirmed (before : List Call) (round rank : Nat) (candidate : HostLinkCapacityReport)
    (capability : Capability) : Prop :=
  .accepts capability round rank (questioned p.req candidate) ∈ before ∧
    p.links.accepts capability round rank = .ok true

/-- The round read the owner and its page, and the owner is not the session's to reuse. -/
structure Opened (before : List Call) (round : Nat) (hosts : List HostLinkCapacityReport) :
    Prop where
  owner : .owner round p.req.key ∈ before
  unowned : ∃ owner, seams.owner round = .ok owner ∧
    ∀ o, owner = some o → reusableOwner o p.record (seams.now round) = false
  page : .candidates round p.record.agent p.record.runtimeCompatibility p.record.desiredPlacement
    p.cfg.candidateLimit ∈ before
  hosts : seams.candidates round = .ok hosts

/-- The calls so far leave the candidate at a rank of a round to be asked: every attach among them
lets another follow there, all have the same mode and key, and no call made the placement
return. -/
structure Open (before : List Call) (round rank : Nat) : Prop where
  earlier : ∀ r k endpoint req, Call.attach r k endpoint req ∈ before →
    Follows p.links round rank r k ∧ req.mode = attachMode p.record ∧
      req.idempotencyKey = p.cfg.attachKey p.record (attachMode p.record)
  unaborted : ∀ c ∈ before, ¬ c.Aborts p.links seams

/-- What an attach rests on. -/
structure Attaches (before : List Call) (round rank : Nat) (endpoint : InternalEndpoint)
    (req : AttachRequest) : Prop where
  candidate : ∃ hosts candidate, p.Opened seams before round hosts ∧
    hosts[rank]? = some candidate ∧ Admissible candidate p.record ∧
    endpoint = candidate.internalEndpoint ∧ req.host = candidate.host ∧
    req.hostGeneration = candidate.hostGeneration ∧
    ∀ capability, p.req.requiring capability ≠ [] →
      p.Affirmed before round rank candidate capability
  mode : req.mode = attachMode p.record
  idempotencyKey : req.idempotencyKey = p.cfg.attachKey p.record (attachMode p.record)

/-- A residency the calls found: an accepted attach, or a registry owner that is the session's. -/
def Resident (before : List Call) (observation : HostLinkRegistryObservation) : Prop :=
  (∃ round rank endpoint req, Call.attach round rank endpoint req ∈ before ∧
    p.links.attach round rank = .ok observation) ∨
  ∃ round owner, Call.owner round p.req.key ∈ before ∧ seams.owner round = .ok (some owner) ∧
    reusableOwner owner p.record (seams.now round) = true ∧
    observation = owner.toHostLinkRegistryObservation

/-- What a call rests on. -/
structure Allowed (before : List Call) (c : Call) : Prop where
  round : ∀ round, c.round = some round → round < p.cfg.attempts
  asked : ∀ round rank, c.place = some (round, rank) → p.Open seams before round rank
  attach : ∀ round rank endpoint req, c = .attach round rank endpoint req →
    p.Attaches seams before round rank endpoint req
  bind : ∀ endpoint req, c = .bind endpoint req → ∃ observation,
    p.Resident seams before observation ∧ endpoint = observation.internalEndpoint ∧
    req.host = observation.host ∧ req.hostGeneration = observation.hostGeneration ∧
    req.leaseEpoch = observation.leaseEpoch

/-- Every call is allowed by those before it. -/
def Disciplined (log : List Call) : Prop :=
  ∀ before c after, log = before ++ c :: after → p.Allowed seams before c

/-! ## Calls one after another -/

variable {p seams}

theorem disciplined_nil : p.Disciplined seams [] := by
  intro before c after h
  have := congrArg List.length h
  simp at this

variable {log : List Call} {c : Call}

theorem Disciplined.snoc (h : p.Disciplined seams log) (hc : p.Allowed seams log c)
    : p.Disciplined seams (log ++ [c]) := by
  intro before d after heq
  rcases eq_nil_or_concat after with rfl | ⟨earlier, last, rfl⟩
  · obtain ⟨rfl, ⟨⟩⟩ := append_inj' heq rfl
    exact hc
  · rw [concat_eq_append, ← cons_append, ← append_assoc] at heq
    obtain ⟨hlog, -⟩ := append_inj' heq rfl
    exact h before d earlier hlog

variable {before : List Call}

theorem allowed_of_round (hround : round < p.cfg.attempts) (hc : c.round = some round)
    (hasked : ∀ r k, c.place = some (r, k) → p.Open seams before r k)
    (hattach : ∀ r k endpoint req, c ≠ .attach r k endpoint req) : p.Allowed seams before c := by
  refine ⟨fun r hr => ?_, hasked, fun r k endpoint req heq =>
    absurd heq (hattach r k endpoint req), fun endpoint req heq => ?_⟩
  · rw [hc] at hr
    cases hr
    exact hround
  · rw [heq] at hc
    cases hc

theorem allowed_of_roundless (hc : c.Roundless) (hbind : ∀ endpoint req, c ≠ .bind endpoint req)
    : p.Allowed seams before c := by
  refine ⟨fun r hr => ?_, fun r k hplace => ?_, fun r k endpoint req heq => ?_,
    fun endpoint req heq => absurd heq (hbind endpoint req)⟩
  · rw [hc] at hr
    cases hr
  · cases hc.symm.trans (Call.round_of_place hplace)
  · rw [heq] at hc
    cases hc

theorem Disciplined.append {calls : List Call} (h : p.Disciplined seams log)
    (hcalls : ∀ before, ∀ c ∈ calls, p.Allowed seams before c) :
    p.Disciplined seams (log ++ calls) := by
  induction calls generalizing log with
  | nil => rwa [append_nil]
  | cons c calls ih =>
    rw [append_cons]
    exact ih (h.snoc (hcalls log c mem_cons_self)) fun before d hd =>
      hcalls before d (mem_cons_of_mem _ hd)

variable {t : Tried}

variable {u : Tried}

theorem Disciplined.adds {P : Call → Prop} (h : p.Disciplined seams t.log) (hadds : Adds P t u)
    (hP : ∀ before c, P c → p.Allowed seams before c) : p.Disciplined seams u.log := by
  obtain ⟨calls, hlog, hcalls⟩ := hadds
  rw [hlog]
  exact h.append fun before c hc => hP before c (hcalls c hc)

theorem Disciplined.bindAndDeliver {observation : HostLinkRegistryObservation}
    (h : p.Disciplined seams log) (hresident : p.Resident seams log observation)
    (hlog : t.log = log) (attached : Bool) :
    p.Disciplined seams (t.bindAndDeliver p.cfg p.links p.req observation attached).tried.log := by
  subst hlog
  refine Disciplined.adds (h := ?_)
    (t.bindAndDeliver_calls p.cfg p.links p.req observation attached) ?_
  · have hrouted : p.Disciplined seams (t.call (.routeFor p.req.key)).log :=
      h.snoc (allowed_of_roundless rfl fun _ _ => by simp)
    refine hrouted.snoc ⟨fun r hr => (nomatch hr), fun r k hplace => (nomatch hplace),
      fun r k endpoint req heq => (nomatch heq), ?_⟩
    rintro endpoint req heq
    cases heq
    refine ⟨observation, ?_, rfl, rfl, rfl, rfl⟩
    rcases hresident with ⟨round, rank, endpoint, req, hmem, hattach⟩ |
      ⟨round, owner, hmem, howner⟩
    · exact .inl ⟨round, rank, endpoint, req, mem_append_left _ hmem, hattach⟩
    · exact .inr ⟨round, owner, mem_append_left _ hmem, howner⟩
  · rintro before c (hc | ⟨unbind, rfl⟩)
    · cases hc <;> exact allowed_of_roundless rfl fun _ _ => by simp
    · exact allowed_of_roundless rfl fun _ _ => by simp

/-! ## The loops -/

/-- The calls so far are allowed and leave an attach to be made. -/
structure Past (p : Placing) (seams : Seams) (round rank : Nat) (t : Tried) : Prop where
  disciplined : p.Disciplined seams t.log
  follows : p.Open seams t.log round rank
  round_lt : round < p.cfg.attempts

theorem Past.allowed (h : p.Past seams round rank t) (hc : c.round = some round)
    (hplace : ∀ r k, c.place = some (r, k) → (r, k) = (round, rank))
    (hattach : ∀ r k endpoint req, c ≠ .attach r k endpoint req) : p.Allowed seams t.log c := by
  refine allowed_of_round h.round_lt hc (fun r k heq => ?_) hattach
  cases hplace r k heq
  exact h.follows

theorem Past.call (h : p.Past seams round rank t) (hc : c.round = some round)
    (hplace : ∀ r k, c.place = some (r, k) → (r, k) = (round, rank))
    (hattach : ∀ r k endpoint req, c ≠ .attach r k endpoint req)
    (haborts : ¬ c.Aborts p.links seams) : p.Past seams round rank (t.call c) := by
  refine ⟨h.disciplined.snoc (h.allowed hc hplace hattach), ⟨?_, ?_⟩, h.round_lt⟩
  · intro r k endpoint req hmem
    rcases mem_append.mp hmem with hmem | hmem
    · exact h.follows.earlier r k endpoint req hmem
    · exact absurd (mem_singleton.mp hmem).symm (hattach r k endpoint req)
  · intro d hd
    rcases mem_append.mp hd with hd | hd
    · exact h.follows.unaborted d hd
    · rw [mem_singleton] at hd
      subst hd
      exact haborts

theorem Past.of_log (h : p.Past seams round rank t) (hlog : u.log = t.log) :
    p.Past seams round rank u := by
  refine ⟨?_, ?_, h.round_lt⟩
  · rw [hlog]
    exact h.disciplined
  · rw [hlog]
    exact h.follows

variable {hosts : List HostLinkCapacityReport}

theorem Opened.append (h : p.Opened seams before round hosts) (calls : List Call) :
    p.Opened seams (before ++ calls) round hosts :=
  ⟨mem_append_left _ h.owner, h.unowned, mem_append_left _ h.page, h.hosts⟩

variable {candidate : HostLinkCapacityReport}

theorem capable_iff {answer : Except Err Bool}
    (h : classifyGateCapability answer = .capable) : answer = .ok true := by
  match answer, h with
  | .ok true, _ => rfl
  | .ok false, h => cases h
  | .error err, h =>
    unfold classifyGateCapability at h
    dsimp only at h
    split at h
    · cases h
    · split at h
      · cases h
      · cases h

theorem attachAnswer_accepted {answer : Except Err HostLinkRegistryObservation}
    {observation : HostLinkRegistryObservation}
    (h : attachAnswer answer = .accepted observation) : answer = .ok observation := by
  match answer, h with
  | .ok _, rfl => rfl
  | .error err, h =>
    unfold attachAnswer at h
    dsimp only at h
    split at h
    · split at h
      · cases h
      · cases h
    · repeat' split at h
      all_goals cases h

/-- What the filters of a candidate come to: it affirmed all that is required, it is passed over,
or the placement returns. -/
theorem filters_past (cs : List Capability) {out : Option Ended} (h : p.Past seams round rank t)
    (heq : p.filters round rank candidate cs t = (out, u)) :
    (∃ calls, u.log = t.log ++ calls) ∧
      ((out = none ∧ p.Past seams round rank u ∧ ∀ capability ∈ cs,
          p.req.requiring capability ≠ [] → p.Affirmed u.log round rank candidate capability) ∨
        (out = some .next ∧ p.Past seams round rank u) ∨
        ∃ err, out = some (.abort err) ∧ p.Disciplined seams u.log) := by
  induction cs generalizing t with
  | nil =>
    cases heq
    exact ⟨⟨[], (append_nil _).symm⟩, .inl ⟨rfl, h, fun _ hmem =>
      absurd hmem not_mem_nil⟩⟩
  | cons capability rest ih =>
    unfold filters at heq
    split at heq
    · next hunneeded =>
      obtain ⟨hlog, hout⟩ := ih h heq
      refine ⟨hlog, hout.imp_left ?_⟩
      rintro ⟨hnone, hpast, haffirmed⟩
      refine ⟨hnone, hpast, ?_⟩
      intro other hother hneeded
      rcases mem_cons.mp hother with rfl | hother
      · exact absurd hunneeded hneeded
      · exact haffirmed other hother hneeded
    · have hlogged : (t.call (.accepts capability round rank (questioned p.req candidate))).log =
          t.log ++ [.accepts capability round rank (questioned p.req candidate)] := rfl
      have hdisciplined := h.disciplined.snoc
        (c := .accepts capability round rank (questioned p.req candidate))
        (h.allowed rfl (fun r k hplace => (Option.some.inj hplace).symm) fun _ _ _ _ => by simp)
      have hpast : (∀ err, classifyGateCapability (p.links.accepts capability round rank) ≠
          .abort err) → p.Past seams round rank
            (t.call (.accepts capability round rank (questioned p.req candidate))) :=
        fun hanswer => h.call rfl (fun r k hplace => (Option.some.inj hplace).symm)
          (fun _ _ _ _ => by simp) (by
            rintro ⟨err, herr⟩
            exact hanswer err herr)
      cases hclass : classifyGateCapability (p.links.accepts capability round rank) with
      | capable =>
        rw [hclass] at heq hpast
        obtain ⟨⟨calls, hlog⟩, hout⟩ := ih (hpast fun _ => by simp) heq
        refine ⟨⟨.accepts capability round rank (questioned p.req candidate) :: calls, ?_⟩,
          hout.imp_left ?_⟩
        · rw [hlog, hlogged, append_assoc]
          rfl
        · rintro ⟨hnone, hu, haffirmed⟩
          refine ⟨hnone, hu, ?_⟩
          intro other hother hneeded
          rcases mem_cons.mp hother with rfl | hother
          · rw [hlog]
            exact ⟨mem_append_left _ mem_concat_self, capable_iff hclass⟩
          · exact haffirmed other hother hneeded
      | unaddressable | incapable | unreachable =>
        rw [hclass] at heq hpast
        cases heq
        exact ⟨⟨_, hlogged⟩, .inr (.inl ⟨rfl, (hpast fun _ => by simp).of_log rfl⟩)⟩
      | abort err =>
        rw [hclass] at heq
        cases heq
        exact ⟨⟨_, hlogged⟩, .inr (.inr ⟨err, rfl, hdisciplined⟩)⟩

/-- What is left when the body of the candidate loop has ended at a rank of a round. -/
def Left (p : Placing) (seams : Seams) (round rank : Nat) : Ended → Tried → Prop
  | .next, t => p.Past seams round (rank + 1) t
  | .stale, t => p.Disciplined seams t.log ∧ p.Open seams t.log (round + 1) 0
  | .accepted _ observation, t =>
    p.Disciplined seams t.log ∧ p.Resident seams t.log observation
  | .abort _, t => p.Disciplined seams t.log

theorem Open.attach {round' rank' : Nat} {endpoint : InternalEndpoint} {req : AttachRequest}
    (h : p.Open seams before round rank) (hmode : req.mode = attachMode p.record)
    (hkey : req.idempotencyKey = p.cfg.attachKey p.record (attachMode p.record))
    (hearlier : ∀ r k, Follows p.links round rank r k → Follows p.links round' rank' r k)
    (hown : Follows p.links round' rank' round rank)
    (haborts : ∀ err, attachAnswer (p.links.attach round rank) ≠ .abort err) :
    p.Open seams (before ++ [.attach round rank endpoint req]) round' rank' := by
  refine ⟨fun r k endpoint' req' hmem => ?_, fun c hc => ?_⟩
  · rcases mem_append.mp hmem with hmem | hmem
    · obtain ⟨hfollows, hsame⟩ := h.earlier r k endpoint' req' hmem
      exact ⟨hearlier r k hfollows, hsame⟩
    · rw [mem_singleton] at hmem
      cases hmem
      exact ⟨hown, hmode, hkey⟩
  · rcases mem_append.mp hc with hc | hc
    · exact h.unaborted c hc
    · rw [mem_singleton] at hc
      subst hc
      exact fun ⟨err, herr⟩ => haborts err herr

section

variable (h : p.Past seams round rank t)
include h

theorem attach_left (hopened : p.Opened seams t.log round hosts)
    (hrank : hosts[rank]? = some candidate) (hadmissible : admissible candidate p.record = true)
    (haffirmed : ∀ capability, p.req.requiring capability ≠ [] → p.Affirmed t.log round rank
      candidate capability) :
    p.Left seams round rank (p.attach round rank candidate t).1
      (p.attach round rank candidate t).2 := by
  have hallowed : p.Allowed seams t.log (.attach round rank candidate.internalEndpoint
      (p.cfg.attachRequest p.record candidate (attachMode p.record))) := by
    refine ⟨fun r hr => ?_, fun r k hplace => ?_, fun r k endpoint req heq => ?_,
      fun endpoint req heq => (nomatch heq)⟩
    · cases hr
      exact h.round_lt
    · cases hplace
      exact h.follows
    · cases heq
      exact ⟨⟨hosts, candidate, hopened, hrank, .of_admissible hadmissible, rfl, rfl, rfl,
        haffirmed⟩, rfl, rfl⟩
  have hdisciplined := h.disciplined.snoc hallowed
  have hgoes : ∀ u : Tried, u.log = t.log ++ [.attach round rank candidate.internalEndpoint
      (p.cfg.attachRequest p.record candidate (attachMode p.record))] →
      (attachAnswer (p.links.attach round rank)).goesOn = true →
      p.Past seams round (rank + 1) u := by
    intro u hlog hanswer
    refine ⟨by rw [hlog]; exact hdisciplined, ?_, h.round_lt⟩
    rw [hlog]
    refine h.follows.attach rfl rfl (fun r k hrk => hrk.later)
      (.inl ⟨rfl, Nat.lt_succ_self rank, hanswer⟩) fun err herr => ?_
    rw [herr] at hanswer
    cases hanswer
  unfold attach
  cases hanswer : attachAnswer (p.links.attach round rank) with
  | abort err => exact hdisciplined
  | accepted observation =>
    refine ⟨hdisciplined, .inl ⟨round, rank, _, _, mem_concat_self, ?_⟩⟩
    exact attachAnswer_accepted hanswer
  | stale code =>
    refine ⟨hdisciplined, h.follows.attach rfl rfl (fun r k hrk => hrk.next_round)
      (.inr ⟨Nat.lt_succ_self round, .inr (by rw [hanswer]; rfl)⟩) fun err herr => ?_⟩
    cases hanswer.symm.trans herr
  | _ => exact hgoes _ rfl (by rw [hanswer]; rfl)

theorem Past.later : p.Past seams round (rank + 1) t :=
  ⟨h.disciplined, ⟨fun r k endpoint req hmem =>
      ⟨(h.follows.earlier r k endpoint req hmem).1.later,
        (h.follows.earlier r k endpoint req hmem).2⟩,
    h.follows.unaborted⟩, h.round_lt⟩

theorem candidate_left (hopened : p.Opened seams t.log round hosts)
    (hrank : hosts[rank]? = some candidate) :
    p.Left seams round rank (p.candidate round rank candidate t).1
      (p.candidate round rank candidate t).2 := by
  unfold Placing.candidate
  split
  · next hadmissible =>
    cases hfilters : p.filters round rank candidate capabilities t with
    | mk out u =>
      obtain ⟨⟨calls, hlog⟩, hnone | hnext | ⟨err, rfl, hdisciplined⟩⟩ :=
        filters_past capabilities h hfilters
      · obtain ⟨rfl, hpast, haffirmed⟩ := hnone
        refine attach_left hpast ?_ hrank hadmissible fun capability hneeded => ?_
        · rw [hlog]
          exact hopened.append calls
        · exact haffirmed capability (by cases capability <;> decide) hneeded
      · obtain ⟨rfl, hpast⟩ := hnext
        exact hpast.later
      · exact hdisciplined
  · exact h.later

theorem candidates_left {left : List HostLinkCapacityReport}
    (hopened : p.Opened seams t.log round hosts) (hleft : ∀ j, left[j]? = hosts[rank + j]?) :
    ∃ last, p.Left seams round last (p.candidates round rank left t).1
      (p.candidates round rank left t).2 := by
  induction left generalizing rank t with
  | nil => exact ⟨rank, h.later⟩
  | cons candidate left ih =>
    have hone := candidate_left h hopened (hleft 0).symm
    have hlog := p.candidate_log round rank candidate t
    unfold candidates
    cases hended : p.candidate round rank candidate t with
    | mk ended u =>
      rw [hended] at hone hlog
      cases ended with
      | next =>
        refine ih hone ?_ fun j => ?_
        · rw [hlog]
          exact hopened.append _
        · have hnumber : rank + 1 + j = rank + (j + 1) := by omega
          rw [hnumber]
          exact hleft (j + 1)
      | _ => exact ⟨rank, hone⟩

end

/-! ## The rounds -/

/-- What the reads of a round come to: the page is read and the owner is not to be reused, or the
placement returns. -/
theorem opening_past {out : Except Returned (List HostLinkCapacityReport)}
    (h : p.Past seams round 0 t) (heq : p.opening seams round t = (u, out)) :
    (∃ hosts, out = .ok hosts ∧ p.Past seams round 0 u ∧ p.Opened seams u.log round hosts) ∨
      ∃ returned, out = .error returned ∧ p.Disciplined seams returned.tried.log := by
  obtain ⟨waited, hwaited, hpast⟩ : ∃ waited : Tried, waited = (if round = 0 then t
      else (Tried.mk { t.result with replacements := t.result.replacements + 1 } t.log).call
        (.wait round (p.cfg.backoff round))) ∧
      ((if round = 0 then none else seams.wait round) = none → p.Past seams round 0 waited) ∧
      p.Disciplined seams waited.log := by
    refine ⟨_, rfl, ?_⟩
    split
    · exact ⟨fun _ => h, h.disciplined⟩
    · refine ⟨fun hnone => ?_, ?_⟩
      · refine Past.call (h.of_log rfl) rfl (fun _ _ hplace => (nomatch hplace))
          (fun _ _ _ _ => by simp) fun ⟨err, herr⟩ => ?_
        cases hnone.symm.trans herr
      · exact h.disciplined.snoc
          (h.allowed rfl (fun _ _ hplace => (nomatch hplace)) fun _ _ _ _ => by simp)
  unfold opening at heq
  rw [← hwaited] at heq
  split at heq
  · cases heq
    exact .inr ⟨_, rfl, hpast.2⟩
  · next hnone =>
    have hready := hpast.1 hnone
    have hread : p.Disciplined seams (waited.call (.owner round p.req.key)).log :=
      hready.disciplined.snoc
        (hready.allowed rfl (fun _ _ hplace => (nomatch hplace)) fun _ _ _ _ => by simp)
    split at heq
    · cases heq
      exact .inr ⟨_, rfl, hread⟩
    · next owner howner =>
      have hobserved : p.Past seams round 0 (waited.call (.owner round p.req.key)) := by
        refine hready.call rfl (fun _ _ hplace => (nomatch hplace)) (fun _ _ _ _ => by simp)
          fun ⟨err, herr⟩ => ?_
        cases howner.symm.trans herr
      split at heq
      · next found hfound =>
        cases heq
        obtain ⟨rfl, hreusable⟩ := Option.filter_eq_some_iff.mp hfound
        refine .inr ⟨_, rfl, ?_⟩
        unfold Tried.wake
        split
        · exact hread
        · refine hread.bindAndDeliver (.inr ⟨round, found, ?_, howner, hreusable, rfl⟩) ?_ false
          · exact mem_concat_self
          · rfl
      · next hunowned =>
        have hunusable : ∀ o, owner = some o →
            reusableOwner o p.record (seams.now round) = false := by
          intro o ho
          exact Bool.eq_false_iff.mpr (Option.filter_eq_none_iff.mp hunowned o ho)
        split at heq
        · cases heq
          refine .inr ⟨_, rfl, hobserved.disciplined.snoc ?_⟩
          exact hobserved.allowed rfl (fun _ _ hplace => (nomatch hplace)) fun _ _ _ _ => by simp
        · next hosts hpage =>
          cases heq
          refine .inl ⟨hosts, rfl, hobserved.call rfl (fun _ _ hplace => (nomatch hplace))
            (fun _ _ _ _ => by simp) ?_, ?_⟩
          · rintro ⟨err, herr⟩
            cases hpage.symm.trans herr
          · refine ⟨mem_append_left _ ?_, ⟨owner, howner, hunusable⟩, mem_concat_self, hpage⟩
            exact mem_concat_self

theorem rounds_disciplined {left : Nat} (h : p.Past seams round 0 t)
    (hattempts : round + left < p.cfg.attempts) :
    p.Disciplined seams (p.rounds seams left round t).tried.log := by
  induction left using Nat.strongRecOn generalizing round t with
  | _ left ih =>
    rw [rounds]
    cases hopening : p.opening seams round t with
    | mk u out =>
      rcases opening_past h hopening with ⟨hosts, rfl, hpast, hopened⟩ | ⟨returned, rfl, hreturned⟩
      · obtain ⟨last, hleft⟩ := candidates_left hpast hopened fun j => by rw [Nat.zero_add]
        dsimp only
        cases hended : p.candidates round 0 hosts u with
        | mk ended v =>
          rw [hended] at hleft
          cases ended with
          | next => exact hleft.disciplined
          | accepted found observation =>
            refine hleft.1.bindAndDeliver hleft.2 ?_ true
            rfl
          | abort err => exact hleft
          | stale =>
            cases left with
            | zero => exact hleft.1
            | succ fewer =>
              exact ih fewer (Nat.lt_succ_self fewer) ⟨hleft.1, hleft.2, by omega⟩ (by omega)
      · exact hreturned

end Placing

/-- Every call of a pooled placement is allowed by the calls before it, at the record it read; a
placement that could not read the record makes no other call. -/
theorem placePooled_disciplined (cfg : ReconcilerConfig) (links : HostLinks) (seams : Seams)
    (req : Request) (writes : Nat) :
    (∀ record, seams.getCatalogEntry = .ok record →
      Placing.Disciplined ⟨cfg, links, req, record⟩ seams
        (placePooled cfg links seams req writes).tried.log) ∧
    ∀ err, seams.getCatalogEntry = .error err →
      (placePooled cfg links seams req writes).tried.log = [.getCatalogEntry req.key] := by
  refine ⟨fun record hrecord => ?_, fun err herr => ?_⟩
  · have hread : Placing.Disciplined ⟨cfg, links, req, record⟩ seams [.getCatalogEntry req.key] :=
      Placing.disciplined_nil.snoc (Placing.allowed_of_roundless rfl fun _ _ => by simp)
    have hattempts : 0 < cfg.attempts := by
      unfold ReconcilerConfig.attempts
      split
      · decide
      · omega
    unfold placePooled
    rw [hrecord]
    dsimp only
    split
    · refine Placing.rounds_disciplined ⟨hread, ⟨?_, ?_⟩, hattempts⟩ (by
        change 0 + (cfg.attempts - 1) < cfg.attempts
        omega)
      · intro r k endpoint areq hmem
        cases mem_singleton.mp hmem
      · intro c hc
        rw [mem_singleton.mp hc]
        exact id
    · exact hread
  · unfold placePooled
    rw [herr]
    rfl

/-- The first round meets a lease held elsewhere, the second attaches to another Host and binds
with the epoch it returned. -/
theorem placePooled_disciplined_replaced :
    ∃ cfg links seams req record, seams.getCatalogEntry = .ok record ∧
      Placing.Disciplined ⟨cfg, links, req, record⟩ seams
        (placePooled cfg links seams req 0).tried.log ∧
      (placePooled cfg links seams req 0).tried.log.filterMap Call.place = [(0, 0), (1, 0)] ∧
      (placePooled cfg links seams req 0).tried.result.bound = true := by
  let host : HostID → HostLinkCapacityReport := fun id =>
    { host := id, hostGeneration := 1, internalEndpoint := "e", agent := "a"
      runtimeCompatibility := "rc", placement := .pooled, crossTenantIsolated := true
      accepting := true, availableCapacity := 1 }
  let record : CatalogRecord :=
    { tenant := "t", session := "s", agent := "a", runtimeCompatibility := "rc"
      desiredPlacement := .pooled }
  let observation : HostLinkRegistryObservation :=
    { tenant := "t", session := "s", host := "h1", hostGeneration := 1, leaseEpoch := 7
      internalEndpoint := "e" }
  let links : HostLinks :=
    { acceptsGateResponses := fun _ _ => .ok true, acceptsPayloadReferences := fun _ _ => .ok true
      acceptsCommandPrincipal := fun _ _ => .ok true
      attach := fun round _ => if round = 0 then .error [.attachRefusal { code := .epochMismatch }]
        else .ok observation
      routeFor := none, bind := none, boundAccepts := fun _ => .ok true
      deliverCommand := fun _ => none }
  let seams : Seams :=
    { getCatalogEntry := .ok record, wait := fun _ => none, owner := fun _ => .ok none
      now := fun _ => 0, candidates := fun round => .ok [host (if round = 0 then "h0" else "h1")] }
  let req : Request :=
    { key := ⟨"t", "s"⟩, wake := [], gateResponses := [], payloadReferences := []
      principalCommands := [], restoreRequested := false }
  let cfg : ReconcilerConfig :=
    { actorID := "r", candidateLimit := 1, replaceAttempts := 2, replaceBackoff := 1
      currentWireVersion := 1, sha256 := fun _ => "", actorID_ne := by decide
      replaceAttempts_le := by decide, replaceBackoff_le := by decide }
  exact ⟨cfg, links, seams, req, record, rfl,
    (placePooled_disciplined cfg links seams req 0).1 record rfl, by decide +kernel,
    by decide +kernel⟩

end Factory.Placement
