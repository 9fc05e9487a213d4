import Factory.Placement.AttachSpec

/-!
# What a wake delivers

`bindAndDeliver` binds the Host of an observation, goes once through the commands of the wake and
gives back a route it created. A command may require up to three capabilities of the Host, tested
in the order of `tested`. The Host is asked for a capability when the first command gets to its
test, and the answer is kept for the commands after it.

What one test does to the calls and to the kept answers is said once (`Woken.test`); from it
follow one command (`Woken.step`) and the loop (`Woken.loop`).
-/

namespace Factory.Placement

open List

/-! ## What a command needs -/

/-- The capabilities in the order a wake tests them. -/
def tested : List Capability := [.payloadReferences, .gateResponses, .commandPrincipal]

/-- The bound Host affirms the capability, without error. -/
def HostLinks.Affirms (links : HostLinks) (capability : Capability) : Prop :=
  links.boundAccepts capability = .ok true

/-- What the command requires of a list of capabilities is affirmed. -/
def Request.Met (req : Request) (links : HostLinks) (cs : List Capability) (command : CommandID) :
    Prop :=
  ∀ capability ∈ cs, command ∈ req.requiring capability → links.Affirms capability

/-- The command needs the capability, and what is tested before it is affirmed. -/
def Request.Reaches (req : Request) (links : HostLinks) (capability : Capability)
    (command : CommandID) : Prop :=
  command ∈ req.requiring capability ∧ req.Met links (tested.takeWhile (· ≠ capability)) command

instance (links : HostLinks) (capability : Capability) : Decidable (links.Affirms capability) :=
  match h : links.boundAccepts capability with
  | .ok true => .isTrue h
  | .ok false => .isFalse fun h' => by
      rw [HostLinks.Affirms, h] at h'
      cases h'
  | .error _ => .isFalse fun h' => by
      rw [HostLinks.Affirms, h] at h'
      cases h'

instance (req : Request) (links : HostLinks) (cs : List Capability) (command : CommandID) :
    Decidable (req.Met links cs command) :=
  inferInstanceAs (Decidable (∀ capability ∈ cs,
    command ∈ req.requiring capability → links.Affirms capability))

section Wake

variable {links : HostLinks} {req : Request} {observation : HostLinkRegistryObservation}
  {t : Tried} {w u : Waking} {command : CommandID} {capability : Capability}

theorem toOption_beq_true {answer : Except Err Bool} :
    (answer.toOption == some true) = true ↔ answer = .ok true := by
  cases answer with
  | error err => simp [Except.toOption]
  | ok b => cases b <;> simp [Except.toOption]

theorem Request.met_cons {cs : List Capability} :
    req.Met links (capability :: cs) command ↔
      (command ∈ req.requiring capability → links.Affirms capability) ∧
        req.Met links cs command := by
  unfold Request.Met
  simp only [mem_cons, forall_eq_or_imp]

@[simp] theorem Request.met_nil : req.Met links [] command := fun _ h => absurd h not_mem_nil

/-! ## One test -/

def Call.delivers : Call → Option CommandID
  | .deliverCommand _ delivery => some delivery.command
  | _ => none

/-- The loop has added calls that ask the Host for some capabilities, once each, and deliver some
commands; the answers are kept and the deliveries counted. -/
structure Woken (links : HostLinks) (req : Request) (observation : HostLinkRegistryObservation)
    (t : Tried) (asked : Capability → Prop) (delivered : List CommandID) (w : Waking) : Prop where
  calls : ∃ calls, w.tried.log = t.log ++ calls ∧
    (∀ c ∈ calls, (∃ capability, c = .boundAccepts capability observation) ∨
      ∃ command, c = .deliverCommand req.key ⟨command⟩) ∧
    (∀ capability, .boundAccepts capability observation ∈ calls ↔ asked capability) ∧
    (∀ capability, calls.count (.boundAccepts capability observation) ≤ 1) ∧
    calls.filterMap Call.delivers = delivered
  memo : ∀ capability, (asked capability → w.memo.get capability = some (links.boundAccepts
    capability)) ∧ (¬asked capability → w.memo.get capability = none)
  counted : w.tried.result.delivered + w.tried.result.deliveryFailures =
    t.result.delivered + t.result.deliveryFailures + delivered.length

theorem Memo.get_set (m : Memo) (answer : Except Err Bool) (c d : Capability) :
    (m.set answer c).get d = if d = c then some answer else m.get d := by
  cases c <;> cases d <;> rfl

variable {asked : Capability → Prop} {delivered : List CommandID}

theorem Woken.test {ok : Bool} (h : Woken links req observation t asked delivered w)
    (heq : w.test links req observation command capability = (ok, u)) :
    (ok = true ↔ (command ∈ req.requiring capability → links.Affirms capability)) ∧
      Woken links req observation t
        (fun c => asked c ∨ c = capability ∧ command ∈ req.requiring capability) delivered u := by
  unfold Waking.test at heq
  split at heq
  · next hneeds =>
    obtain ⟨⟨calls, hlog, hof, hasked, honce, hdelivered⟩, hmemo, hcounted⟩ := h
    have hsame : ∀ c, (asked c ∨ c = capability ∧ command ∈ req.requiring capability) ↔
        (asked c ∨ c = capability) := fun c => by simp [hneeds]
    by_cases hknown : asked capability
    · rw [(hmemo capability).1 hknown] at heq
      cases heq
      refine ⟨?_, ⟨calls, hlog, hof, fun c => ?_, honce, hdelivered⟩, fun c => ?_, hcounted⟩
      · rw [toOption_beq_true]
        exact ⟨fun h _ => h, fun h => h hneeds⟩
      · rw [hasked, hsame]
        exact ⟨.inl, fun hc => hc.elim id fun hc => hc ▸ hknown⟩
      · rw [hsame]
        refine ⟨fun hc => (hmemo c).1 (hc.elim id fun hc => hc ▸ hknown), fun hc => ?_⟩
        exact (hmemo c).2 fun hasked => hc (.inl hasked)
    · rw [(hmemo capability).2 hknown] at heq
      cases heq
      refine ⟨?_, ⟨calls ++ [.boundAccepts capability observation], ?_, ?_, ?_, ?_, ?_⟩,
        fun c => ?_, hcounted⟩
      · rw [toOption_beq_true]
        exact ⟨fun h _ => h, fun h => h hneeds⟩
      · rw [Tried.call_log, hlog, append_assoc]
      · intro c hc
        rcases mem_append.mp hc with hc | hc
        · exact hof c hc
        · exact .inl ⟨capability, mem_singleton.mp hc⟩
      · intro c
        rw [hsame, mem_append, hasked, mem_singleton]
        simp
      · intro c
        rw [count_append]
        by_cases hc : c = capability
        · subst hc
          rw [count_eq_zero.mpr fun hmem => hknown ((hasked c).mp hmem)]
          simp
        · rw [count_singleton, if_neg (by simpa using fun h => hc h.symm)]
          exact honce c
      · rw [filterMap_append, hdelivered]
        exact append_nil _
      · rw [hsame]
        rw [Memo.get_set]
        split
        · next hc =>
          subst hc
          exact ⟨fun _ => rfl, fun hc => absurd (.inr rfl) hc⟩
        · next hc =>
          exact ⟨fun h => (hmemo c).1 (h.resolve_right hc), fun h => (hmemo c).2 fun h' =>
            h (.inl h')⟩
  · next hfree =>
    cases heq
    refine ⟨⟨fun _ h => absurd h hfree, fun _ => rfl⟩, ?_⟩
    simpa only [hfree, and_false, or_false] using h

/-! ## One command -/

theorem Woken.congr {asked' : Capability → Prop} {w' : Waking}
    (h : Woken links req observation t asked delivered w)
    (hasked : ∀ c, asked c ↔ asked' c) (hlog : w'.tried.log = w.tried.log)
    (hmemo : w'.memo = w.memo)
    (hresult : w'.tried.result.delivered + w'.tried.result.deliveryFailures =
      w.tried.result.delivered + w.tried.result.deliveryFailures) :
    Woken links req observation t asked' delivered w' := by
  obtain rfl : asked = asked' := funext fun c => propext (hasked c)
  obtain ⟨hcalls, hkept, hcounted⟩ := h
  exact ⟨hlog ▸ hcalls, hmemo ▸ hkept, hresult.trans hcounted⟩

theorem Woken.deliver {w' : Waking} (h : Woken links req observation t asked delivered w)
    (hlog : w'.tried.log = w.tried.log ++ [.deliverCommand req.key ⟨command⟩])
    (hmemo : w'.memo = w.memo)
    (hresult : w'.tried.result.delivered + w'.tried.result.deliveryFailures =
      w.tried.result.delivered + w.tried.result.deliveryFailures + 1) :
    Woken links req observation t asked (delivered ++ [command]) w' := by
  obtain ⟨⟨calls, hold, hof, hasked, honce, hdelivered⟩, hkept, hcounted⟩ := h
  refine ⟨⟨calls ++ [.deliverCommand req.key ⟨command⟩], ?_, ?_, ?_, ?_, ?_⟩, hmemo ▸ hkept, ?_⟩
  · rw [hlog, hold, append_assoc]
  · intro c hc
    rcases mem_append.mp hc with hc | hc
    · exact hof c hc
    · exact .inr ⟨command, mem_singleton.mp hc⟩
  · intro c
    rw [mem_append, hasked]
    simp
  · intro c
    rw [count_append, count_singleton, if_neg (by simp)]
    exact honce c
  · rw [filterMap_append, hdelivered]
    rfl
  · rw [hresult, hcounted, length_append, length_singleton]
    omega

theorem reaches_payloadReferences : req.Reaches links .payloadReferences command ↔
    command ∈ req.requiring .payloadReferences := and_iff_left Request.met_nil

theorem reaches_gateResponses : req.Reaches links .gateResponses command ↔
    command ∈ req.requiring .gateResponses ∧ req.Met links [.payloadReferences] command := Iff.rfl

theorem reaches_commandPrincipal : req.Reaches links .commandPrincipal command ↔
    command ∈ req.requiring .commandPrincipal ∧
      req.Met links [.payloadReferences, .gateResponses] command := Iff.rfl

theorem not_met_of_test {ok : Bool}
    (hok : ok = true ↔ (command ∈ req.requiring capability → links.Affirms capability))
    (hfalse : ok = false) {cs : List Capability} (hmem : capability ∈ cs) :
    ¬req.Met links cs command := by
  intro hmet
  rw [hok.mpr (hmet capability hmem)] at hfalse
  cases hfalse

theorem Woken.step (h : Woken links req observation t asked delivered w) (i : Nat)
    (command : CommandID) :
    Woken links req observation t (fun c => asked c ∨ req.Reaches links c command)
      (delivered ++ if req.Met links tested command then [command] else [])
      (w.command links req observation i command) := by
  unfold Waking.command
  cases hreference : w.test links req observation command .payloadReferences with
  | mk ok1 w1 =>
  obtain ⟨hok1, h1⟩ := h.test hreference
  cases ok1 with
  | false =>
    have hnot : ∀ cs, Capability.payloadReferences ∈ cs → ¬req.Met links cs command :=
      fun cs hmem => not_met_of_test hok1 rfl hmem
    rw [if_neg (hnot _ (by decide)), append_nil]
    refine h1.congr (fun c => or_congr_right ?_) rfl rfl rfl
    cases c with
    | payloadReferences => simp [reaches_payloadReferences]
    | gateResponses => simp [reaches_gateResponses, hnot]
    | commandPrincipal => simp [reaches_commandPrincipal, hnot]
  | true =>
  have hmet1 : req.Met links [.payloadReferences] command :=
    Request.met_cons.mpr ⟨hok1.mp rfl, Request.met_nil⟩
  dsimp only
  cases hgate : w1.test links req observation command .gateResponses with
  | mk ok2 w2 =>
  obtain ⟨hok2, h2⟩ := h1.test hgate
  cases ok2 with
  | false =>
    have hnot : ∀ cs, Capability.gateResponses ∈ cs → ¬req.Met links cs command :=
      fun cs hmem => not_met_of_test hok2 rfl hmem
    rw [if_neg (hnot _ (by decide)), append_nil]
    refine h2.congr (fun c => ?_) rfl rfl rfl
    rw [or_assoc]
    refine or_congr_right ?_
    cases c with
    | payloadReferences => simp [reaches_payloadReferences]
    | gateResponses => simp [reaches_gateResponses, hmet1]
    | commandPrincipal => simp [reaches_commandPrincipal, hnot]
  | true =>
  have hmet2 : req.Met links [.payloadReferences, .gateResponses] command :=
    Request.met_cons.mpr ⟨hok1.mp rfl, Request.met_cons.mpr ⟨hok2.mp rfl, Request.met_nil⟩⟩
  dsimp only
  cases hprincipal : w2.test links req observation command .commandPrincipal with
  | mk ok3 w3 =>
  obtain ⟨hok3, h3⟩ := h2.test hprincipal
  have hsettled : Woken links req observation t
      (fun c => asked c ∨ req.Reaches links c command) delivered w3 := by
    refine h3.congr (fun c => ?_) rfl rfl rfl
    rw [or_assoc, or_assoc]
    refine or_congr_right ?_
    cases c with
    | payloadReferences => simp [reaches_payloadReferences]
    | gateResponses => simp [reaches_gateResponses, hmet1]
    | commandPrincipal => simp [reaches_commandPrincipal, hmet2]
  cases ok3 with
  | false =>
    rw [if_neg (not_met_of_test hok3 rfl (by decide)), append_nil]
    exact hsettled.congr (fun _ => Iff.rfl) rfl rfl rfl
  | true =>
    have hmet : req.Met links tested command :=
      Request.met_cons.mpr ⟨hok1.mp rfl, Request.met_cons.mpr ⟨hok2.mp rfl,
        Request.met_cons.mpr ⟨hok3.mp rfl, Request.met_nil⟩⟩⟩
    rw [if_pos hmet]
    dsimp only
    split
    · exact hsettled.deliver rfl rfl (Nat.add_assoc _ _ _).symm
    · exact hsettled.deliver rfl rfl (Nat.add_right_comm _ _ _)

/-! ## The loop -/

theorem Woken.loop (h : Woken links req observation t asked delivered w) (i : Nat)
    (wake : List CommandID) :
    Woken links req observation t
      (fun c => asked c ∨ ∃ command ∈ wake, req.Reaches links c command)
      (delivered ++ wake.filter fun command => req.Met links tested command)
      (w.commands links req observation i wake) := by
  induction wake generalizing w i asked delivered with
  | nil =>
    rw [filter_nil, append_nil]
    exact h.congr (fun c => by simp) rfl rfl rfl
  | cons command rest ih =>
    have hrest := ih (h.step i command) (i + 1)
    rw [append_assoc] at hrest
    have hfilter : (if req.Met links tested command then [command] else []) ++
        rest.filter (fun command => req.Met links tested command) =
        (command :: rest).filter fun command => req.Met links tested command := by
      split <;> simp_all
    rw [hfilter] at hrest
    refine hrest.congr (fun c => ?_) rfl rfl rfl
    simp only [mem_cons, exists_eq_or_imp, or_assoc]

variable (links req observation) in
theorem woken_start (t : Tried) :
    Woken links req observation t (fun _ => False) [] { tried := t } := by
  refine ⟨⟨[], by simp, by simp, by simp, by simp, rfl⟩, fun c => ?_, rfl⟩
  exact ⟨fun h => h.elim, fun _ => by cases c <;> rfl⟩

end Wake

/-! ## The whole run -/

/-- The route a call gives back. -/
def Call.unbinds : Call → Option HostLinkUnbindRequest
  | .unbind req => some req
  | _ => none

/-- What the calls after the bind are, and what the result counts of them. -/
structure Wakes (cfg : ReconcilerConfig) (links : HostLinks) (req : Request)
    (observation : HostLinkRegistryObservation) (before after : Result) (calls : List Call) :
    Prop where
  /-- A failed bind is the last call. -/
  failed : links.bind ≠ none → calls = []
  /-- The commands delivered are those of the wake whose every requirement is affirmed. -/
  delivered : links.bind = none →
    calls.filterMap Call.delivers = req.wake.filter fun command => req.Met links tested command
  /-- They go to the session of the request, and what they require was asked for. -/
  affirmed : ∀ key delivery, .deliverCommand key delivery ∈ calls → key = req.key ∧
    ∀ capability, delivery.command ∈ req.requiring capability →
      .boundAccepts capability observation ∈ calls ∧ links.Affirms capability
  /-- A capability is asked of the bound observation only, -/
  observed : ∀ capability of, .boundAccepts capability of ∈ calls → of = observation
  /-- at most once, -/
  once : ∀ capability, calls.count (.boundAccepts capability observation) ≤ 1
  /-- and exactly when a command whose earlier requirements are affirmed needs it. -/
  needed : links.bind = none → ∀ capability, .boundAccepts capability observation ∈ calls ↔
    ∃ command ∈ req.wake, req.Reaches links capability command
  /-- The deliveries are counted. -/
  counted : after.delivered + after.deliveryFailures =
    before.delivered + before.deliveryFailures + (calls.filterMap Call.delivers).length
  /-- The route is given back once, by the tuple and the key of the bind, when there was none. -/
  unbound : calls.filterMap Call.unbinds =
    if links.bind = none ∧ links.routeFor = none then
      [unbindRequestFor (cfg.bindRequestFor observation)]
    else []

section Run

variable {links : HostLinks} {req : Request} {observation : HostLinkRegistryObservation}
  {t : Tried} {w : Waking}

theorem Woken.wakes (cfg : ReconcilerConfig) {before : Result} (hbind : links.bind = none)
    (hbefore : before.delivered + before.deliveryFailures =
      t.result.delivered + t.result.deliveryFailures)
    (h : Woken links req observation t
      (fun c => False ∨ ∃ command ∈ req.wake, req.Reaches links c command)
      ([] ++ req.wake.filter fun command => req.Met links tested command) w) :
    ∃ calls, w.tried.log = t.log ++ calls ∧
      Wakes cfg links req observation before w.tried.result
        (calls ++ if links.routeFor = none then
          [.unbind (unbindRequestFor (cfg.bindRequestFor observation))] else []) := by
  obtain ⟨⟨calls, hlog, hof, hasked, honce, hdelivered⟩, -, hcounted⟩ := h
  rw [nil_append] at hdelivered hcounted
  simp only [false_or] at hasked
  have hunbinds : calls.filterMap Call.unbinds = [] := by
    rw [filterMap_eq_nil_iff]
    intro c hc
    rcases hof c hc with ⟨capability, rfl⟩ | ⟨command, rfl⟩ <;> rfl
  have hlast : ∀ c, c ∈ (if links.routeFor = none then
      [Call.unbind (unbindRequestFor (cfg.bindRequestFor observation))] else []) →
      c = .unbind (unbindRequestFor (cfg.bindRequestFor observation)) := by
    intro c hc
    split at hc
    · exact mem_singleton.mp hc
    · exact absurd hc not_mem_nil
  have hdelivers : (calls ++ if links.routeFor = none then
      [Call.unbind (unbindRequestFor (cfg.bindRequestFor observation))] else []).filterMap
        Call.delivers = req.wake.filter fun command => req.Met links tested command := by
    rw [filterMap_append, hdelivered]
    split <;> exact append_nil _
  have hmem : ∀ capability of, Call.boundAccepts capability of ∈ calls ++
      (if links.routeFor = none then
        [Call.unbind (unbindRequestFor (cfg.bindRequestFor observation))] else []) ↔
      .boundAccepts capability of ∈ calls := by
    intro capability of
    rw [mem_append, or_iff_left]
    intro hc
    cases hlast _ hc
  refine ⟨calls, hlog, ?_, fun _ => hdelivers, ?_, ?_, ?_, ?_, ?_, ?_⟩
  · exact fun hfailed => absurd hbind hfailed
  · intro key delivery hc
    have hdelivery : delivery.command ∈ req.wake.filter fun command =>
        req.Met links tested command := by
      rw [← hdelivers, mem_filterMap]
      exact ⟨_, hc, rfl⟩
    obtain ⟨hwake, hmet⟩ := mem_filter.mp hdelivery
    have hmet := of_decide_eq_true hmet
    rcases mem_append.mp hc with hc | hc
    · refine ⟨?_, fun capability hneeds => ⟨?_, ?_⟩⟩
      · rcases hof _ hc with ⟨capability, hcall⟩ | ⟨command, hcall⟩
        · cases hcall
        · cases hcall
          rfl
      · rw [hmem, hasked]
        exact ⟨_, hwake, hneeds, fun c hc => hmet c ((takeWhile_sublist _).subset hc)⟩
      · exact hmet capability (by cases capability <;> decide) hneeds
    · cases hlast _ hc
  · intro capability of hc
    rcases hof _ ((hmem capability of).mp hc) with ⟨capability', hcall⟩ | ⟨command, hcall⟩
    · cases hcall
      rfl
    · cases hcall
  · intro capability
    have hnone : List.count (Call.boundAccepts capability observation)
        (if links.routeFor = none then
          [Call.unbind (unbindRequestFor (cfg.bindRequestFor observation))] else []) = 0 := by
      rw [count_eq_zero]
      intro hc
      cases hlast _ hc
    rw [count_append, hnone]
    exact honce capability
  · intro _ capability
    rw [hmem, hasked]
  · rw [hcounted, hdelivers, hbefore]
  · rw [filterMap_append, hunbinds, nil_append]
    by_cases hroute : links.routeFor = none
    · rw [if_pos hroute, if_pos ⟨hbind, hroute⟩]
      rfl
    · rw [if_neg hroute, if_neg fun h => hroute h.2]
      rfl

end Run

/-- What was done up to and with a bind that succeeded. -/
def Tried.bound (t : Tried) (cfg : ReconcilerConfig) (req : Request)
    (observation : HostLinkRegistryObservation) : Tried where
  result := { t.result with bound := true }
  log := t.log ++ [.routeFor req.key,
    .bind observation.internalEndpoint (cfg.bindRequestFor observation)]

theorem bindAndDeliver_bound (t : Tried) (cfg : ReconcilerConfig) {links : HostLinks}
    (req : Request) (observation : HostLinkRegistryObservation) (attached : Bool)
    (hbind : links.bind = none) :
    ∃ w, w = Waking.commands { tried := t.bound cfg req observation } links req observation 0
        req.wake ∧
      (t.bindAndDeliver cfg links req observation attached).tried.log = w.tried.log ++
        (if links.routeFor = none then
          [.unbind (unbindRequestFor (cfg.bindRequestFor observation))] else []) ∧
      (t.bindAndDeliver cfg links req observation attached).tried.result = w.tried.result := by
  have hstart : Tried.bound t cfg req observation =
      { result := { t.result with bound := true }
        log := (t.log ++ [.routeFor req.key]) ++
          [.bind observation.internalEndpoint (cfg.bindRequestFor observation)] } := by
    rw [append_assoc]
    rfl
  refine ⟨_, rfl, ?_⟩
  rw [hstart]
  unfold Tried.bindAndDeliver
  rw [hbind]
  cases links.routeFor with
  | none => exact ⟨rfl, rfl⟩
  | some host => exact ⟨(append_nil _).symm, rfl⟩

end Factory.Placement
