import Factory.Placement.RestoreIntent
import Factory.Placement.ReviveReleased

/-!
# Restores and releases of one session

The catalog record and the inbox of one session, under any number of placement calls of any
replicas. A call that was listed a live pending restore revives whatever release it then meets. So
a restore accepted before a deletion and not settled by then undoes it (`earlier_restore_revives`).
When a session is released only with its restores settled and no call under way that was listed
one, every revival answers a restore accepted after the release (`revived_by_later_restore`).

`AcceptedCommand.generation` is not in the source: it is the desired generation at the command's
acceptance. A command was accepted after the release that wrote generation `g` exactly when this
is at least `g`, as generations only grow.
-/

namespace Factory.Placement

open List Dialogue

/-! ## The world -/

/-- A command of the session, as its record stands, and the desired generation it was accepted
under. -/
structure AcceptedCommand where
  entry : InboxEntry
  generation : Nat
deriving DecidableEq

structure RestoreWorld where
  catalog : CatalogStore
  commands : List AcceptedCommand := []

/-- What happens beside the placement calls: a command is accepted, makes progress until it is
terminal, or another writer writes the catalog record. -/
inductive RestoreEvent where
  | accept (entry : InboxEntry)
  | progress (i : Nat) (state : InboxState)
  | catalog (e : CatalogEvent)
deriving DecidableEq

def RestoreWorld.event (key : SessionKey) (w : RestoreWorld) : RestoreEvent → Option RestoreWorld
  | .accept entry =>
    if entry.key = key ∧ entry.state = .pending ∧
        ∀ c ∈ w.commands, c.entry.descriptor.command ≠ entry.descriptor.command then
      some { w with
        commands := w.commands ++ [⟨entry, w.catalog.current.record.desiredGeneration⟩] }
    else none
  | .progress i state =>
    match w.commands[i]? with
    | none => none
    | some c =>
      if c.entry.state = .terminal then none
      else
        some { w with
          commands := w.commands.set i { c with entry := { c.entry with state := state } } }
  | .catalog e => (w.catalog.event e).map fun catalog => { w with catalog := catalog }

/-- The environment's part in an answer: any answer to what the world does not decide, and how the
store serves a write. -/
structure PlaceChoice where
  answer : (q : PlaceAsk) → PlaceAnswer q
  write : WriteChoice

/-- The session's record is read and written as it is, and what is listed of the session are its
commands as they are. Everything else is answered in any way. -/
def RestoreWorld.answer (key : SessionKey) (w : RestoreWorld) (choice : PlaceChoice) :
    (q : PlaceAsk) → Option (PlaceAnswer q × RestoreWorld)
  | .getCatalogEntry asked =>
    if asked = key then
      some ((choice.answer (.getCatalogEntry asked)).map fun _ => w.catalog.current, w)
    else some (choice.answer (.getCatalogEntry asked), w)
  | .updateCatalogDesiredState req =>
    if req.key = key then
      (w.catalog.update true req choice.write).map fun out => (out.1, { w with catalog := out.2 })
    else some (choice.answer (.updateCatalogDesiredState req), w)
  | q =>
    if (listed key ⟨q, choice.answer q⟩).all fun e => w.commands.any (·.entry = e) then
      some (choice.answer q, w)
    else none

/-- Placement calls of any replicas beside the events of one session. -/
def restoreSystem (key : SessionKey) :
    Threads.System RestoreWorld PlaceAnswer PlacementCall PlacementReturn RestoreEvent
      PlaceChoice where
  program := PlacementCall.program
  begins _ _ := true
  event w e := w.event key e
  answer w _ choice q := w.answer key choice q

/-! ## What an answer does -/

variable {v w : RestoreWorld} {key : SessionKey}

/-- An answer changes nothing, and then shows the session as it is, or it is that of a write of the
session. -/
theorem RestoreWorld.answer_cases {choice : PlaceChoice} {q : PlaceAsk} {a : PlaceAnswer q}
    (h : w.answer key choice q = some (a, v)) :
    (v = w ∧ (∀ e ∈ listed key ⟨q, a⟩, ∃ c ∈ w.commands, c.entry = e) ∧
      ∀ entry, (⟨q, a⟩ : Sigma PlaceAnswer) = ⟨.getCatalogEntry key, .ok entry⟩ →
        entry = w.catalog.current) ∨
    (listed key ⟨q, a⟩ = [] ∧ (∀ entry, (⟨q, a⟩ : Sigma PlaceAnswer) ≠
      ⟨.getCatalogEntry key, .ok entry⟩) ∧ v.commands = w.commands ∧
      ∃ request out, q = .updateCatalogDesiredState request ∧ request.key = key ∧
        w.catalog.update true request choice.write = some (out, v.catalog)) := by
  unfold RestoreWorld.answer at h
  split at h
  · next asked =>
    left
    split at h
    · next hkey =>
      cases h
      refine ⟨rfl, by simp [listed], fun entry he => ?_⟩
      cases hread : choice.answer (.getCatalogEntry asked) with
      | error err =>
        rw [hread] at he
        cases he
      | ok read =>
        rw [hread] at he
        cases he
        rfl
    · next hkey =>
      cases h
      refine ⟨rfl, by simp [listed], fun entry he => ?_⟩
      exact absurd (PlaceAsk.getCatalogEntry.inj (Sigma.mk.inj he).1) hkey
  · next req =>
    split at h
    · next hkey =>
      obtain ⟨⟨out, catalog⟩, hupdate, ⟨⟩⟩ := Option.map_eq_some_iff.mp h
      refine .inr ⟨rfl, fun entry he => ?_, rfl, req, out, rfl, hkey, hupdate⟩
      cases he
    · cases h
      refine .inl ⟨rfl, by simp [listed], fun entry he => ?_⟩
      cases he
  · next hread hupdate =>
    left
    obtain ⟨hlisted, ⟨⟩⟩ := Option.ite_none_right_eq_some.mp h
    refine ⟨rfl, fun e he => ?_, fun entry heq => ?_⟩
    · obtain ⟨c, hc, hentry⟩ := any_eq_true.mp (all_eq_true.mp hlisted e he)
      exact ⟨c, hc, of_decide_eq_true hentry⟩
    · exact absurd (Sigma.mk.inj heq).1 (hread key)

/-! ## What calls know -/

/-- What is known of an answer of a call: a version read is one the record has had, and a command
listed was accepted. -/
structure CallKnows (key : SessionKey) (w : RestoreWorld) (e : Sigma PlaceAnswer) : Prop where
  read : ∀ entry, e = ⟨.getCatalogEntry key, .ok entry⟩ → entry ∈ w.catalog.versions
  listed : ∀ entry ∈ listed key e, ∃ c ∈ w.commands, c.entry.descriptor = entry.descriptor

/-- Whatever was accepted stays, under the generation it was accepted under. -/
def RestoreWorld.Keeps (w v : RestoreWorld) : Prop :=
  ∀ c ∈ w.commands, ∃ c' ∈ v.commands,
    c'.entry.descriptor = c.entry.descriptor ∧ c'.generation = c.generation

theorem RestoreWorld.keeps_of_eq (h : v.commands = w.commands) : w.Keeps v := by
  intro c hc
  rw [← h] at hc
  exact ⟨c, hc, rfl, rfl⟩

/-- What an event does: a command is accepted under the current generation, a command that is not
terminal makes progress, or the catalog record moves. -/
theorem RestoreWorld.event_cases {e : RestoreEvent} (h : w.event key e = some v) :
    (∃ entry, e = .accept entry ∧ v.catalog = w.catalog ∧
      v.commands = w.commands ++ [⟨entry, w.catalog.current.record.desiredGeneration⟩]) ∨
    (∃ i state c, e = .progress i state ∧ v.catalog = w.catalog ∧ w.commands[i]? = some c ∧
      c.entry.state ≠ .terminal ∧
      v.commands = w.commands.set i { c with entry := { c.entry with state := state } }) ∨
    (∃ change, e = .catalog change ∧ w.catalog.event change = some v.catalog ∧
      v.commands = w.commands) := by
  cases e with
  | accept entry =>
    obtain ⟨-, ⟨⟩⟩ := Option.ite_none_right_eq_some.mp h
    exact .inl ⟨entry, rfl, rfl, rfl⟩
  | progress i state =>
    unfold RestoreWorld.event at h
    dsimp only at h
    split at h
    · cases h
    · next c hc =>
      split at h
      · cases h
      · next hopen =>
        cases h
        exact .inr (.inl ⟨i, state, c, rfl, rfl, hc, hopen, rfl⟩)
  | catalog change =>
    obtain ⟨catalog, hchange, ⟨⟩⟩ := Option.map_eq_some_iff.mp h
    exact .inr (.inr ⟨change, rfl, hchange, rfl⟩)

theorem RestoreWorld.event_keeps {e : RestoreEvent} (h : w.event key e = some v) : w.Keeps v := by
  rcases RestoreWorld.event_cases h with ⟨entry, -, -, hcommands⟩ |
    ⟨i, state, c, -, -, hc, -, hcommands⟩ | ⟨_, -, -, hcommands⟩
  · intro c hc
    rw [hcommands]
    exact ⟨c, mem_append_left _ hc, rfl, rfl⟩
  · intro c' hc'
    obtain ⟨j, hj⟩ := mem_iff_getElem?.mp hc'
    rw [hcommands]
    by_cases hij : i = j
    · subst hij
      cases hc.symm.trans hj
      have hlt := (List.getElem?_eq_some_iff.mp hc).1
      exact ⟨_, mem_set hlt _, rfl, rfl⟩
    · refine ⟨c', mem_iff_getElem?.mpr ⟨j, ?_⟩, rfl, rfl⟩
      rw [getElem?_set_ne hij]
      exact hj
  · exact RestoreWorld.keeps_of_eq hcommands

theorem grows_of_keeps (hversions : ∀ e ∈ w.catalog.versions, e ∈ v.catalog.versions)
    (hkeeps : w.Keeps v) :
    Threads.Grows (fun (_ : RestoreWorld) (_ : PlacementCall) => True)
      (fun w _ e => CallKnows key w e) w v where
  input _ _ := trivial
  asked _ e hknows := by
    refine ⟨fun entry he => hversions _ (hknows.read entry he), fun entry hentry => ?_⟩
    obtain ⟨c, hc, hdescriptor⟩ := hknows.listed entry hentry
    obtain ⟨c', hc', hsame, -⟩ := hkeeps c hc
    exact ⟨c', hc', hsame.trans hdescriptor⟩

theorem update_versions {s v : CatalogStore} {called : Bool}
    {req : UpdateCatalogDesiredStateRequest} {choice : WriteChoice}
    {a : Except Admission.SeamError CatalogEntry} (h : s.update called req choice = some (a, v)) :
    ∀ e ∈ s.versions, e ∈ v.versions := by
  intro e he
  rcases CatalogStore.update_cases h with ⟨rfl, -⟩ | ⟨-, -, -, -, hpast, -⟩
  · exact he
  · rw [CatalogStore.versions, hpast]
    exact mem_cons_of_mem _ he

theorem restoreSystem_rule (key : SessionKey) :
    (restoreSystem key).Rule (fun _ past q => RevivesOnly past q) (fun _ => True)
      (fun _ _ => True) (fun w _ e => CallKnows key w e) where
  asks call := call.revives
  begins _ _ := trivial
  event := by
    intro w e v _ hevent
    refine ⟨trivial, grows_of_keeps ?_ (RestoreWorld.event_keeps hevent)⟩
    rcases RestoreWorld.event_cases hevent with ⟨_, -, hcatalog, -⟩ | ⟨_, _, _, -, hcatalog, -⟩ |
      ⟨change, -, hchange, -⟩
    · rw [hcatalog]
      exact fun _ he => he
    · rw [hcatalog]
      exact fun _ he => he
    · exact fun _ he => (CatalogStore.event_move hchange).versions he
  answer := by
    intro w _ past choice q a v _ _ _ _ hanswer
    rcases RestoreWorld.answer_cases hanswer with ⟨rfl, hlisted, hread⟩ |
      ⟨hnone, hnot, hcommands, request, out, -, -, hupdate⟩
    · refine ⟨trivial, ⟨fun _ h => h, fun _ _ h => h⟩, fun entry he => ?_, fun entry hentry => ?_⟩
      · rw [hread entry he]
        exact mem_cons_self
      · obtain ⟨c, hc, rfl⟩ := hlisted entry hentry
        exact ⟨c, hc, rfl⟩
    · refine ⟨trivial, grows_of_keeps (update_versions hupdate)
        (RestoreWorld.keeps_of_eq hcommands), fun entry he => absurd he (hnot entry), ?_⟩
      rw [hnone]
      exact fun entry hentry => absurd hentry not_mem_nil

/-! ## Releases that wait for the restores -/

/-- The desire wants no workload. -/
def Desired.releases (desired : Desired) : Bool :=
  desired.placement == .dedicated && desired.workload.payloadVersion == "" &&
    desired.workload.payload.isEmpty

def InboxEntry.pendingRestore (e : InboxEntry) : Bool :=
  e.state == .pending && e.descriptor.kind == .restore

/-- Every restore of the session is settled, and no call under way was listed a pending one. -/
def restoresSettled (key : SessionKey)
    (σ : Threads.State RestoreWorld PlaceAnswer PlacementCall PlacementReturn) : Bool :=
  (σ.world.commands.all fun c =>
    c.entry.descriptor.kind != .restore || c.entry.state == .terminal) &&
  σ.threads.all fun t =>
    t.returned.isSome || (listing key t.asked).all fun e => !e.pendingRestore

/-- The step is no release, or the restores are settled before it. -/
def releasedAfterRestores (key : SessionKey)
    (σ : Threads.State RestoreWorld PlaceAnswer PlacementCall PlacementReturn) :
    Threads.Act PlacementCall RestoreEvent PlaceChoice → Bool
  | .event (.catalog (.write req _)) => !req.desired.releases || restoresSettled key σ
  | _ => true

/-- If the session is released, its release is no later than the generation. -/
def RestoreWorld.Fresh (w : RestoreWorld) (generation : Nat) : Prop :=
  released w.catalog.current.record = true → w.catalog.current.record.desiredGeneration ≤ generation

/-- The restores that may still be listed, and those listed to calls under way, were accepted after
the release, if the session is released. -/
structure RestoresLater (key : SessionKey)
    (σ : Threads.State RestoreWorld PlaceAnswer PlacementCall PlacementReturn) : Prop where
  inbox : ∀ c ∈ σ.world.commands, c.entry.descriptor.kind = .restore →
    c.entry.state ≠ .terminal → σ.world.Fresh c.generation
  calls : ∀ t ∈ σ.threads, t.returned = none → ∀ e ∈ listing key t.asked,
    e.pendingRestore = true → ∃ c ∈ σ.world.commands,
      c.entry.descriptor = e.descriptor ∧ σ.world.Fresh c.generation

theorem fresh_of_not_released (h : released w.catalog.current.record = false) (generation : Nat) :
    w.Fresh generation := by
  intro hreleased
  cases h.symm.trans hreleased

theorem released_store {record : DesiredRecord} {desired : Desired} {idempotencyKey : String}
    (h : desired.releases = false) : released (record.store desired idempotencyKey) = false := by
  cases hreleased : released (record.store desired idempotencyKey) with
  | false => rfl
  | true =>
    simp only [released, DesiredRecord.store, Bool.and_eq_true] at hreleased
    obtain ⟨⟨⟨hplacement, -⟩, hversion⟩, hpayload⟩ := hreleased
    simp only [Desired.releases, hplacement, hversion, hpayload, Bool.and_true] at h
    cases h

theorem reviving_releases {sha256 : Bytes → String} {record : DesiredRecord} {desired : Desired}
    {idempotencyKey : String} (h : reviving sha256 key record = .write desired idempotencyKey) :
    desired.releases = false := by
  unfold reviving at h
  split at h
  · cases h
  · split at h
    · cases h
    · next template htemplate =>
      cases h
      have hfilled := (Option.filter_eq_some_iff.mp htemplate).2
      simp only [Bool.not_eq_true', Bool.or_eq_false_iff] at hfilled
      simp only [Desired.releases, hfilled.1, Bool.and_false, Bool.false_and]

section Steps

variable {key : SessionKey}
  {σ τ : Threads.State RestoreWorld PlaceAnswer PlacementCall PlacementReturn}

theorem RestoresLater.calls_of_keeps (h : RestoresLater key σ) (hkeeps : σ.world.Keeps v)
    (hfresh : ∀ g, σ.world.Fresh g → v.Fresh g) :
    ∀ t ∈ σ.threads, t.returned = none → ∀ e ∈ listing key t.asked, e.pendingRestore = true →
      ∃ c ∈ v.commands, c.entry.descriptor = e.descriptor ∧ v.Fresh c.generation := by
  intro t ht hreturned e he hpending
  obtain ⟨c, hc, hdescriptor, hgeneration⟩ := h.calls t ht hreturned e he hpending
  obtain ⟨c', hc', hsame, hkept⟩ := hkeeps c hc
  refine ⟨c', hc', hsame.trans hdescriptor, ?_⟩
  rw [hkept]
  exact hfresh _ hgeneration

theorem RestoresLater.accepted (h : RestoresLater key σ) {entry : InboxEntry}
    (hcatalog : v.catalog = σ.world.catalog)
    (hcommands : v.commands = σ.world.commands ++ [⟨entry,
      σ.world.catalog.current.record.desiredGeneration⟩]) (hkeeps : σ.world.Keeps v) :
    RestoresLater key { σ with world := v } := by
  have hfresh : ∀ g, σ.world.Fresh g → v.Fresh g := by
    intro g hg
    rw [RestoreWorld.Fresh, hcatalog]
    exact hg
  refine ⟨fun c hc hkind hopen => ?_, h.calls_of_keeps hkeeps hfresh⟩
  rw [hcommands] at hc
  rcases mem_append.mp hc with hc | hc
  · exact hfresh _ (h.inbox c hc hkind hopen)
  · rw [mem_singleton] at hc
    subst hc
    rw [RestoreWorld.Fresh, hcatalog]
    exact fun _ => le_rfl

theorem RestoresLater.progressed (h : RestoresLater key σ) {i : Nat} {state : InboxState}
    {c : AcceptedCommand} (hcatalog : v.catalog = σ.world.catalog)
    (hc : σ.world.commands[i]? = some c) (hopen : c.entry.state ≠ .terminal)
    (hcommands : v.commands = σ.world.commands.set i { c with entry := { c.entry with state := state
      } }) (hkeeps : σ.world.Keeps v) : RestoresLater key { σ with world := v } := by
  have hfresh : ∀ g, σ.world.Fresh g → v.Fresh g := by
    intro g hg
    rw [RestoreWorld.Fresh, hcatalog]
    exact hg
  refine ⟨fun c' hc' hkind hopen' => ?_, h.calls_of_keeps hkeeps hfresh⟩
  rw [hcommands] at hc'
  rcases mem_or_eq_of_mem_set hc' with hc' | rfl
  · exact hfresh _ (h.inbox c' hc' hkind hopen')
  · exact hfresh _ (h.inbox c (mem_of_getElem? hc) hkind hopen)

theorem RestoresLater.unreleased (h : RestoresLater key σ)
    (hcommands : v.commands = σ.world.commands)
    (hreleased : released v.catalog.current.record = false) :
    RestoresLater key { σ with world := v } :=
  ⟨fun c _ _ _ => fresh_of_not_released hreleased c.generation,
    h.calls_of_keeps (RestoreWorld.keeps_of_eq hcommands)
      fun g _ => fresh_of_not_released hreleased g⟩

theorem restoresLater_of_settled (hcommands : v.commands = σ.world.commands)
    (hsettled : restoresSettled key σ = true) : RestoresLater key { σ with world := v } := by
  obtain ⟨hinbox, hcalls⟩ := Bool.and_eq_true_iff.mp hsettled
  refine ⟨fun c hc hkind hopen => ?_, fun t ht hreturned e he hpending => ?_⟩
  · rw [hcommands] at hc
    have hdone := all_eq_true.mp hinbox c hc
    simp [hkind, hopen] at hdone
  · have hnone := all_eq_true.mp hcalls t ht
    rw [hreturned, Option.isSome_none, Bool.false_or] at hnone
    have hnot := all_eq_true.mp hnone e he
    rw [hpending] at hnot
    cases hnot

theorem RestoresLater.catalogEvent (h : RestoresLater key σ) {e : CatalogEvent}
    (hevent : σ.world.catalog.event e = some v.catalog) (hcommands : v.commands = σ.world.commands)
    (hcondition : releasedAfterRestores key σ (.event (.catalog e)) = true) :
    RestoresLater key { σ with world := v } := by
  have hsame : ∀ record : DesiredRecord, v.catalog.current.record = record →
      released record = released σ.world.catalog.current.record →
      record.desiredGeneration = σ.world.catalog.current.record.desiredGeneration →
      RestoresLater key { σ with world := v } := by
    intro record hrecord hreleased hgeneration
    have hfresh : ∀ g, σ.world.Fresh g → v.Fresh g := by
      intro g hg
      rw [RestoreWorld.Fresh, hrecord, hreleased, hgeneration]
      exact hg
    refine ⟨fun c hc hkind hopen => ?_,
      h.calls_of_keeps (RestoreWorld.keeps_of_eq hcommands) hfresh⟩
    rw [hcommands] at hc
    exact hfresh _ (h.inbox c hc hkind hopen)
  cases e with
  | touch l c revision => exact hsame _ (CatalogStore.touch_move hevent).1 rfl rfl
  | write req revision =>
    rcases CatalogStore.write_move hevent with heq | hreplaces
    · exact hsame _ (congrArg (fun s : CatalogStore => s.current.record) heq) rfl rfl
    · simp only [releasedAfterRestores, Bool.or_eq_true, Bool.not_eq_true'] at hcondition
      rcases hcondition with hreleases | hsettled
      · refine h.unreleased hcommands ?_
        rw [hreplaces.record]
        exact released_store hreleases
      · exact restoresLater_of_settled hcommands hsettled

theorem RestoresLater.answered (h : RestoresLater key σ) {i : Nat}
    {t : Threads.Thread PlaceAnswer PlacementCall PlacementReturn} {q : PlaceAsk}
    {k : PlaceAnswer q → Dialogue PlaceAnswer PlacementReturn} {a : PlaceAnswer q}
    (ht : σ.threads[i]? = some t) (hrest : t.rest = .ask q k)
    (hlisted : ∀ e ∈ listed key ⟨q, a⟩, ∃ c ∈ σ.world.commands, c.entry = e) :
    RestoresLater key { σ with threads := σ.threads.set i (t.answered a (k a)) } := by
  refine ⟨h.inbox, fun u hu hreturned e he hpending => ?_⟩
  rcases mem_or_eq_of_mem_set hu with hu | rfl
  · exact h.calls u hu hreturned e he hpending
  · have hunder : t.returned = none := by
      rw [Threads.Thread.returned, hrest]
    change e ∈ listing key (t.asked ++ [⟨q, a⟩]) at he
    rw [listing_append] at he
    rcases mem_append.mp he with he | he
    · exact h.calls t (mem_of_getElem? ht) hunder e he hpending
    · obtain ⟨_, hmem, he⟩ := mem_flatMap.mp he
      rw [mem_singleton] at hmem
      subst hmem
      obtain ⟨c, hc, rfl⟩ := hlisted e he
      simp only [InboxEntry.pendingRestore, Bool.and_eq_true, beq_iff_eq] at hpending
      refine ⟨c, hc, rfl, h.inbox c hc hpending.2 ?_⟩
      rw [hpending.1]
      decide

/-- A write a call asked for, when it applies: the call saw a restore, and the version it replaced
was released and is not any more. -/
theorem revival_of_update {t : Threads.Thread PlaceAnswer PlacementCall PlacementReturn}
    {request : UpdateCatalogDesiredStateRequest} {choice : WriteChoice}
    {out : Except Admission.SeamError CatalogEntry} (hknown : ∀ e ∈ t.asked, CallKnows key w e)
    (hquestion : RevivesOnly t.asked (.updateCatalogDesiredState request))
    (hkey : request.key = key)
    (hupdate : w.catalog.update true request choice = some (out, v.catalog)) :
    v.catalog = w.catalog ∨
      (RestoreSeen key t.asked ∧ released w.catalog.current.record = true ∧
        released v.catalog.current.record = false ∧
        v.catalog.applied =
          w.catalog.applied ++ [⟨true, w.catalog.current, v.catalog.current⟩]) := by
  rcases CatalogStore.update_cases hupdate with ⟨heq, -⟩ |
    ⟨-, hrevision, -, hrecord, -, happlied, -⟩
  · exact .inl heq
  · obtain ⟨hseen, sha256, entry, desired, idempotencyKey, hread, hdecide, hrequest⟩ :=
      hquestion request rfl
    rw [hkey] at hseen hread
    have hcurrent : entry = w.catalog.current := by
      refine CatalogStore.eq_current ((hknown _ hread).read entry rfl) ?_
      rw [hrequest] at hrevision
      exact hrevision
    refine .inr ⟨hseen, ?_, ?_, happlied⟩
    · rw [← hcurrent]
      exact (reviving_write hdecide).1
    · rw [hrecord, hrequest]
      exact released_store (reviving_releases hdecide)

theorem RestoresLater.step {act : Threads.Act PlacementCall RestoreEvent PlaceChoice}
    (hstep : (restoreSystem key).step σ act = some τ)
    (hcondition : releasedAfterRestores key σ act = true)
    (hstanding : σ.Standing (restoreSystem key) (fun _ => True) (fun _ _ => True)
      (fun w _ e => CallKnows key w e))
    (h : RestoresLater key σ) : RestoresLater key τ := by
  rcases Threads.System.step_cases hstep with ⟨e, w, rfl, hevent, rfl⟩ | ⟨x, -, -, rfl⟩ |
    ⟨i, c, t, q, k, a, w, -, ht, hrest, hanswer, rfl⟩
  · have hkeeps := RestoreWorld.event_keeps hevent
    rcases RestoreWorld.event_cases hevent with ⟨entry, -, hcatalog, hcommands⟩ |
      ⟨i, state, c, -, hcatalog, hc, hopen, hcommands⟩ | ⟨change, rfl, hchange, hcommands⟩
    · exact h.accepted hcatalog hcommands hkeeps
    · exact h.progressed hcatalog hc hopen hcommands hkeeps
    · exact h.catalogEvent hchange hcommands hcondition
  · refine ⟨h.inbox, fun t ht hreturned e he hpending => ?_⟩
    rcases mem_append.mp ht with ht | ht
    · exact h.calls t ht hreturned e he hpending
    · rw [mem_singleton] at ht
      subst ht
      exact absurd he not_mem_nil
  · have hknown := hstanding.threads t (mem_of_getElem? ht)
    rcases RestoreWorld.answer_cases hanswer with ⟨rfl, hlisted, -⟩ |
      ⟨hnone, -, hcommands, request, out, rfl, hkey, hupdate⟩
    · exact h.answered ht hrest hlisted
    · have hquestion := (restoreSystem_rule key).question hknown hrest
      have hanswered : RestoresLater key
          { σ with threads := σ.threads.set i (t.answered a (k a)) } := by
        refine h.answered ht hrest fun e he => ?_
        exact absurd he not_mem_nil
      rcases revival_of_update hknown.asked hquestion hkey hupdate with hsame |
        ⟨-, -, hreleased, -⟩
      · have hworld : w = σ.world := by
          cases w
          cases hsame
          cases hcommands
          rfl
        rw [hworld]
        exact hanswered
      · exact hanswered.unreleased hcommands hreleased

/-- A step that applies a write of a call is an answer to one that saw a restore, and what it
replaced was released. -/
theorem revival_of_step {act : Threads.Act PlacementCall RestoreEvent PlaceChoice} {a : Applied}
    (hstep : (restoreSystem key).step σ act = some τ)
    (hstanding : σ.Standing (restoreSystem key) (fun _ => True) (fun _ _ => True)
      (fun w _ e => CallKnows key w e))
    (happlied : τ.world.catalog.applied = σ.world.catalog.applied ++ [a])
    (hcalled : a.called = true) :
    ∃ i choice t, act = .answer i choice ∧ σ.threads[i]? = some t ∧ t.returned = none ∧
      RestoreSeen key t.asked ∧ released σ.world.catalog.current.record = true ∧
      a = ⟨true, σ.world.catalog.current, τ.world.catalog.current⟩ := by
  have hunchanged : τ.world.catalog.applied ≠ σ.world.catalog.applied := by
    intro heq
    rw [heq] at happlied
    have := congrArg List.length happlied
    rw [length_append, length_singleton] at this
    omega
  rcases Threads.System.step_cases hstep with ⟨e, w, rfl, hevent, rfl⟩ | ⟨x, -, -, rfl⟩ |
    ⟨i, choice, t, q, k, b, w, rfl, ht, hrest, hanswer, rfl⟩
  · exfalso
    rcases RestoreWorld.event_cases hevent with ⟨_, -, hcatalog, -⟩ | ⟨_, _, _, -, hcatalog, -⟩ |
      ⟨change, -, hchange, -⟩
    · exact hunchanged (congrArg CatalogStore.applied hcatalog)
    · exact hunchanged (congrArg CatalogStore.applied hcatalog)
    · cases change with
      | touch l c revision => exact hunchanged (CatalogStore.touch_move hchange).2.2
      | write req revision =>
        rcases CatalogStore.write_move hchange with heq | hreplaces
        · exact hunchanged (congrArg CatalogStore.applied heq)
        · have hlast := append_cancel_left (happlied.symm.trans hreplaces.applied)
          cases hlast
          cases hcalled
  · exact absurd rfl hunchanged
  · have hknown := hstanding.threads t (mem_of_getElem? ht)
    rcases RestoreWorld.answer_cases hanswer with ⟨rfl, -⟩ |
      ⟨-, -, -, request, out, rfl, hkey, hupdate⟩
    · exact absurd rfl hunchanged
    · have hquestion := (restoreSystem_rule key).question hknown hrest
      rcases revival_of_update hknown.asked hquestion hkey hupdate with hsame |
        ⟨hseen, hreleased, -, hwritten⟩
      · exact absurd (congrArg CatalogStore.applied hsame) hunchanged
      · have hunder : t.returned = none := by
          rw [Threads.Thread.returned, hrest]
        have hlast := append_cancel_left (happlied.symm.trans hwritten)
        exact ⟨i, choice, t, rfl, ht, hunder, hseen, hreleased, (List.cons.inj hlast).1⟩

end Steps

/-- When a session is released only with its restores settled and no call under way that was listed
one, a placement call writes over a generation only if it was released, and only if the call was
listed a restore, pending and inside its deadline, that was accepted after that release. -/
theorem revived_by_later_restore (key : SessionKey) (w₀ : RestoreWorld)
    (hcommands : w₀.commands = [])
    (acts : List (Threads.Act PlacementCall RestoreEvent PlaceChoice))
    (act : Threads.Act PlacementCall RestoreEvent PlaceChoice)
    (σ τ : Threads.State RestoreWorld PlaceAnswer PlacementCall PlacementReturn)
    (hrun : Runs.exec (restoreSystem key).step { world := w₀ } acts = some σ)
    (hmeets : Runs.Meets (restoreSystem key).step
      (fun σ act => releasedAfterRestores key σ act = true) { world := w₀ } acts)
    (hstep : (restoreSystem key).step σ act = some τ) (a : Applied)
    (happlied : τ.world.catalog.applied = σ.world.catalog.applied ++ [a])
    (hcalled : a.called = true) :
    a.before = σ.world.catalog.current ∧ released a.before.record = true ∧
      ∃ i choice t, act = .answer i choice ∧ σ.threads[i]? = some t ∧
        ∃ entry now c, entry ∈ listing key t.asked ∧ ⟨.now, now⟩ ∈ t.asked ∧
          entry.descriptor.kind = .restore ∧ entry.state = .pending ∧
          now < entry.applyDeadline ∧ c ∈ σ.world.commands ∧
          c.entry.descriptor = entry.descriptor ∧
          a.before.record.desiredGeneration ≤ c.generation := by
  have hstart : RestoresLater key
      ({ world := w₀ } : Threads.State RestoreWorld PlaceAnswer PlacementCall PlacementReturn) := by
    refine ⟨fun c hc => ?_, fun t ht => absurd ht not_mem_nil⟩
    rw [hcommands] at hc
    exact absurd hc not_mem_nil
  obtain ⟨hstanding, hlater⟩ := Runs.exec_invariant_of_meets
    (I := fun σ => σ.Standing (restoreSystem key) (fun _ => True) (fun _ _ => True)
      (fun w _ e => CallKnows key w e) ∧ RestoresLater key σ)
    (fun s act u hcondition hstep hs => ⟨(restoreSystem_rule key).step hstep hs.1,
      hs.2.step hstep hcondition hs.1⟩)
    hrun hmeets ⟨⟨trivial, fun t ht => absurd ht not_mem_nil⟩, hstart⟩
  obtain ⟨i, choice, t, rfl, ht, hunder, hseen, hreleased, heq⟩ :=
    revival_of_step hstep hstanding happlied hcalled
  subst heq
  obtain ⟨entry, now, hentry, hnow, hrestoring⟩ := hseen
  simp only [InboxEntry.restoring, Bool.and_eq_true, beq_iff_eq, InboxEntry.live,
    decide_eq_true_eq] at hrestoring
  obtain ⟨⟨hstate, hdeadline⟩, hkind⟩ := hrestoring
  have hpending : entry.pendingRestore = true := by
    simp only [InboxEntry.pendingRestore, hstate, hkind, beq_self_eq_true, Bool.and_self]
  obtain ⟨c, hc, hdescriptor, hfresh⟩ :=
    hlater.calls t (mem_of_getElem? ht) hunder entry hentry hpending
  exact ⟨rfl, hreleased, i, choice, t, rfl, ht, entry, now, c, hentry, hnow, hkind, hstate,
    hdeadline, hc, hdescriptor, hfresh hreleased⟩

/-! ## A restore before and after the release -/

/-- A dedicated session as it was created. -/
def sampleSession : CatalogStore where
  current :=
    { record :=
        { tenant := "t", session := "s", agent := "a", runtimeCompatibility := "rc"
          desiredPlacement := .dedicated, desiredGeneration := 1, desiredWorkload := ⟨"v1", [1]⟩
          idempotencyKey := "create", publicCreate := some ⟨"v1", [1]⟩ }
      revision := 1 }
  older _ he := absurd he not_mem_nil
  kept _ he := absurd he not_mem_nil

/-- Its deletion. -/
def sampleRelease : UpdateCatalogDesiredStateRequest :=
  { key := ⟨"t", "s"⟩, expectedRevision := 1, idempotencyKey := "delete"
    desired := ⟨.dedicated, "rc", {}⟩ }

/-- A restore of it. -/
def sampleRestore : InboxEntry :=
  { descriptor := { tenant := "t", session := "s", command := "c", kind := .restore }
    state := .pending, applyDeadline := 10 }

/-- A sweep of a replica that composes a workload controller. -/
def sampleSweep : PlacementCall :=
  .sweep
    { horizon := 10, pageLimit := 1, maxPages := 1, minControlShards := 1
      horizon_pos := by decide, pageLimit_pos := Nat.zero_lt_one
      maxPages_pos := Nat.zero_lt_one, minControlShards_pos := Nat.zero_lt_one }
    { holderID := "r", claimTTL := 1, candidateLimit := 1, links := false, workloads := true
      sha256 := fun _ => "" }
    {}

/-- The sweep is authorised, finds no owner and is granted the claim; it is listed the restore, and
its write applies at revision 3. -/
def sampleChoice : PlaceChoice where
  answer
    | .authorizeServiceSweep => none
    | .controlShards => 1
    | .now => 0
    | .contextDone => false
    | .listDueDispositionCommands _ => .ok { commands := [sampleRestore] }
    | .listSessionDispositionCommands _ _ _ => .ok {}
    | .getCatalogEntry _ => .ok sampleSession.current
    | .owner _ => .ok none
    | .acquireReconciliationClaim _ => none
    | .releaseReconciliationClaim _ => none
    | .updateCatalogDesiredState _ => .error {}
    | .candidates _ _ _ _ => .ok []
    | .ensureWorkload _ => none
    | .wake _ _ => .ok {}
    | .placePooled _ _ => .ok {}
    | .placeDedicated _ _ _ => .ok {}
  write := .serve 3 none

/-- The sweep, up to its write. -/
def sampleCall : List (Threads.Act PlacementCall RestoreEvent PlaceChoice) :=
  .start sampleSweep :: List.replicate 9 (.answer 0 sampleChoice)

/-- What a run and one more answer to its first call do: the writes applied before, and after,
and the generations the commands were accepted under. -/
def sampleOutcome (acts : List (Threads.Act PlacementCall RestoreEvent PlaceChoice)) :
    Option (List Applied × List Applied × List Nat) := do
  let σ ← Runs.exec (restoreSystem ⟨"t", "s"⟩).step { world := { catalog := sampleSession } } acts
  let τ ← (restoreSystem ⟨"t", "s"⟩).step σ (.answer 0 sampleChoice)
  pure (σ.world.catalog.applied, τ.world.catalog.applied, σ.world.commands.map (·.generation))

theorem sampleOutcome_some {acts : List (Threads.Act PlacementCall RestoreEvent PlaceChoice)}
    {before after : List Applied} {generations : List Nat}
    (h : sampleOutcome acts = some (before, after, generations)) :
    ∃ σ τ, Runs.exec (restoreSystem ⟨"t", "s"⟩).step
        { world := { catalog := sampleSession } } acts = some σ ∧
      (restoreSystem ⟨"t", "s"⟩).step σ (.answer 0 sampleChoice) = some τ ∧
      σ.world.catalog.applied = before ∧ τ.world.catalog.applied = after ∧
      σ.world.commands.map (·.generation) = generations := by
  obtain ⟨σ, hσ, hrest⟩ := Option.bind_eq_some_iff.mp h
  obtain ⟨τ, hτ, ⟨⟩⟩ := Option.bind_eq_some_iff.mp hrest
  exact ⟨σ, τ, hσ, hτ, rfl, rfl, rfl⟩

/-- The sample session's deletion. -/
def sampleDelete : Applied :=
  ⟨false, sampleSession.current,
    ⟨sampleSession.current.record.store sampleRelease.desired "delete", 2⟩⟩

/-- And the write of the sweep that revives it. -/
def sampleRevive : Applied :=
  ⟨true, sampleDelete.after,
    ⟨sampleDelete.after.record.store ⟨.dedicated, "rc", ⟨"v1", [1]⟩⟩ "revive-", 3⟩⟩

/-- The session is deleted, then a restore is accepted, and a sweep revives the session. -/
theorem revived_by_later_restore_after :
    ∃ acts act σ τ a, Runs.exec (restoreSystem ⟨"t", "s"⟩).step
        { world := { catalog := sampleSession } } acts = some σ ∧
      (restoreSystem ⟨"t", "s"⟩).step σ act = some τ ∧
      τ.world.catalog.applied = σ.world.catalog.applied ++ [a] ∧ a.called = true ∧
      released a.before.record = true ∧
      ∃ c ∈ σ.world.commands, a.before.record.desiredGeneration ≤ c.generation := by
  let acts := .event (.catalog (.write sampleRelease 2)) :: .event (.accept sampleRestore) ::
    sampleCall
  have hrun : sampleOutcome acts =
      some ([sampleDelete], [sampleDelete, sampleRevive], [2]) := by decide +kernel
  have hmeets : Runs.Meets (restoreSystem ⟨"t", "s"⟩).step
      (fun σ act => releasedAfterRestores ⟨"t", "s"⟩ σ act = true)
      { world := { catalog := sampleSession } } acts := by decide +kernel
  obtain ⟨σ, τ, hσ, hτ, hbefore, hafter, -⟩ := sampleOutcome_some hrun
  have happlied : τ.world.catalog.applied = σ.world.catalog.applied ++ [sampleRevive] := by
    rw [hbefore, hafter]
    rfl
  obtain ⟨-, hreleased, _, _, _, -, -, _, _, c, -, -, -, -, -, hc, -, hlater⟩ :=
    revived_by_later_restore ⟨"t", "s"⟩ { catalog := sampleSession } rfl acts _ σ τ hσ hmeets hτ
      _ happlied rfl
  exact ⟨acts, _, σ, τ, _, hσ, hτ, happlied, rfl, hreleased, c, hc, hlater⟩

/-- A restore is accepted, then the session is deleted, and the next sweep revives it although no
command was accepted after the deletion. -/
theorem earlier_restore_revives :
    ∃ acts act σ τ a, Runs.exec (restoreSystem ⟨"t", "s"⟩).step
        { world := { catalog := sampleSession } } acts = some σ ∧
      (restoreSystem ⟨"t", "s"⟩).step σ act = some τ ∧
      τ.world.catalog.applied = σ.world.catalog.applied ++ [a] ∧ a.called = true ∧
      released a.before.record = true ∧
      ∀ c ∈ σ.world.commands, c.generation < a.before.record.desiredGeneration := by
  let acts := .event (.accept sampleRestore) :: .event (.catalog (.write sampleRelease 2)) ::
    sampleCall
  have hrun : sampleOutcome acts =
      some ([sampleDelete], [sampleDelete, sampleRevive], [1]) := by decide +kernel
  obtain ⟨σ, τ, hσ, hτ, hbefore, hafter, hgenerations⟩ := sampleOutcome_some hrun
  refine ⟨acts, _, σ, τ, sampleRevive, hσ, hτ, ?_, rfl, by decide, fun c hc => ?_⟩
  · rw [hbefore, hafter]
    rfl
  · have hmem : c.generation ∈ σ.world.commands.map (·.generation) := mem_map_of_mem hc
    rw [hgenerations, mem_singleton] at hmem
    rw [hmem]
    decide

/-! ## Sweeps -/

/-- Whatever happens meanwhile, a `Sweep` that made a pass did what `PendingSweeper.sweep` does on
some answers, and its result counts each session handed to the placer under one answer. -/
theorem swept_pass_accounts (key : SessionKey) {w : RestoreWorld} {acts σ}
    (hrun : Runs.exec (restoreSystem key).step { world := w } acts = some σ) :
    ∀ t ∈ σ.threads, ∀ cfg placer s s' pass, t.input = .sweep cfg placer s →
      t.returned = some (.swept s' (some pass)) →
        (∃ input, s.sweep cfg input = (s', some pass)) ∧ pass.placed.Accounts := by
  intro t ht cfg placer s s' pass hcall hswept
  have hthread := ((restoreSystem_rule key).exec hrun trivial).threads t ht
  have hreturned := t.returns_of_returned hthread.steps hswept
  rw [hcall] at hreturned
  obtain ⟨_, _, ⟨_, _⟩, -, hreturns, hout⟩ := returns_bind.mp hreturned
  obtain ⟨-, ⟨⟩⟩ := returns_pure.mp hout
  obtain ⟨input, hsweep⟩ := sweeping_returns hreturns
  exact ⟨⟨input, hsweep⟩, sweep_accounts hsweep⟩

/-- The sample sweep hands its session over. -/
theorem swept_pass_accounts_sample :
    ∃ w acts σ, Runs.exec (restoreSystem ⟨"t", "s"⟩).step { world := w } acts = some σ ∧
      ∃ t ∈ σ.threads, ∃ s pass, t.returned = some (.swept s (some pass)) ∧
        pass.placed.handed.map (·.key) = [⟨"t", "s"⟩] ∧ pass.placed.Accounts := by
  have hrun : Runs.exec (restoreSystem ⟨"t", "s"⟩).step { world := { catalog := sampleSession } }
    (.event (.accept sampleRestore) :: sampleCall ++ List.replicate 3 (.answer 0 sampleChoice)) =
      some _ := rfl
  have hpass := swept_pass_accounts _ hrun _ mem_cons_self _ _ _ _ _ rfl rfl
  exact ⟨_, _, _, hrun, _, mem_cons_self, _, _, rfl, rfl, hpass.2⟩

end Factory.Placement
