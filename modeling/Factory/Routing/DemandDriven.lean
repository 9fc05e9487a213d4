import Factory.Routing.BindingsBalance
import Factory.Routing.DemandHolder

/-!
# The demand plane drives the routing table

Whatever the plane does, the table below sees a run of its own operations (`Driven`), so what holds
in every run of the table holds below the plane.
-/

namespace Factory.Routing

variable {cfg : DemandConfig} {w : Below} {d d' : Demand} {key : SessionKey} {give : Give}

/-- The table is in a state that its own operations reach. -/
def Driven (cfg : DemandConfig) (routed : Routed) : Prop :=
  ∃ ops, Runs.exec (Routed.step cfg.core) {} ops = some routed

theorem Driven.op {σ σ' : Routed} (op : TableOp) (h : Driven cfg σ)
    (hop : σ.step cfg.core op = some σ') : Driven cfg σ' := by
  obtain ⟨ops, hops⟩ := h
  exact ⟨ops ++ [op], Runs.exec_append.mpr ⟨σ, hops, Runs.exec_cons.mpr ⟨σ', hop, rfl⟩⟩⟩

@[grind ←] theorem Driven.pushed (h : Driven cfg w.routed) (pushes : List Push) :
    Driven cfg (w.pushed cfg pushes).routed := by
  induction pushes generalizing w with
  | nil => exact h
  | cons p rest ih =>
    refine @ih (w.push cfg p) ?_
    unfold Below.push
    cases hstep : w.routed.step cfg.core p.op with
    | none => exact h
    | some routed => exact h.op _ hstep

@[grind ←] theorem Driven.release (h : Driven cfg w.routed) :
    Driven cfg (w.release cfg key give).1.routed :=
  Driven.op (.release key give.seams) (h.pushed give.before) rfl

@[grind ←] theorem Driven.serveLocked {held serve} (h : Driven cfg w.routed) :
    Driven cfg (w.serveLocked cfg key held serve).1.routed := by
  have hacquired := Driven.op (.acquire key serve.seams) (h.pushed serve.before) rfl
  grind [Below.serveLocked, Below.bindLocked, Below.hintLocked, Below.call, Below.table]

@[grind ←] theorem Driven.refreshLocked {refresh} (h : Driven cfg w.routed) :
    Driven cfg (w.refreshLocked cfg key refresh).1.routed := by
  have hobserved σ (hσ : Driven cfg σ) observed :=
    Driven.op (.observe observed refresh.observe) hσ rfl
  grind [Below.refreshLocked, Below.transportHolds, Below.call, Below.table]

@[grind ←] theorem Driven.teardownLocked {entry} (h : Driven cfg d.below.routed) :
    Driven cfg (d.teardownLocked cfg key entry give).1.below.routed := by
  grind [Demand.teardownLocked, cancelPoll_below, Below.call]

theorem Driven.closeLoop {give order failures} (h : Driven cfg d.below.routed) :
    Driven cfg (Demand.closeLoop cfg give order d failures).1.below.routed := by
  fun_induction Demand.closeLoop cfg give order d failures <;> grind

theorem Driven.step {act} (hstep : d.step cfg act = some d') (h : Driven cfg d.below.routed) :
    Driven cfg d'.below.routed := by
  cases act with
  | acquire key serve =>
    grind [Demand.step, Demand.acquire, Demand.entry, Demand.store, Demand.scheduleLocked,
      Below.call]
  | release key give => grind [Demand.step, Demand.release, Demand.store]
  | rebind key ctx give serve => grind [Demand.step, Demand.rebind, rescheduleLocked_below]
  | close order give => grind [Demand.step, Demand.close, Driven.closeLoop]
  | fire i => grind [Demand.step]
  | poll i refresh serve => grind [Demand.step, Demand.poll, Demand.scheduleLocked, Demand.store]
  | push p =>
    cases hstep
    exact h.pushed [p]
  | closeTable order seams =>
    obtain ⟨-, hstep⟩ := Option.ite_none_right_eq_some.mp hstep
    obtain ⟨routed, hop, rfl⟩ := Option.map_eq_some_iff.mp hstep
    exact h.op _ hop

/-- In every run of the plane the table below goes through a run of its own operations. The binds
not yet followed by an unbind are of sessions watched here, at most one for each. -/
theorem Demand.binds_only_watched {acts} (hrun : Runs.exec (Demand.step cfg) {} acts = some d) :
    Driven cfg d.below.routed ∧
    (∀ req ∈ Ledger.outstanding binds d.below.routed.log,
      1 ≤ d.watching ⟨req.tenant, req.session⟩) ∧
    ((Ledger.outstanding binds d.below.routed.log).map fun req =>
      SessionKey.mk req.tenant req.session).Nodup := by
  have hinv : d.Inv := Runs.exec_invariant (fun _ _ _ => Demand.Inv.step) hrun demand_init
  obtain ⟨ops, hops⟩ : Driven cfg d.below.routed :=
    Runs.exec_invariant (fun _ _ _ hstep => Driven.step hstep) hrun ⟨[], rfl⟩
  obtain ⟨htracks, hdemanded⟩ : d.below.routed.Inv cfg.core :=
    Runs.exec_invariant (fun _ _ _ => Routed.Inv.step) hops (routed_init cfg.core)
  refine ⟨⟨ops, hops⟩, fun req hreq => ?_, ?_⟩
  · obtain ⟨key, binding, hbinding, rfl⟩ := (htracks.outstanding req).mp hreq
    obtain rfl := htracks.own key binding hbinding
    -- a route has demand, which only an entry of the plane can hold
    have hunit : d.below.table.demand binding.key.sessionKey ≠ 0 := fun hzero => by
      rw [binding_none (hdemanded.lookup_none hzero)] at hbinding
      cases hbinding
    cases hclosed : d.closed with
    | true => exact absurd ((hinv.ended hclosed).units _) hunit
    | false =>
      have hlive := hinv.live hclosed
      rw [hlive.units, Demand.holds] at hunit
      cases hlookup : d.sessions.lookup binding.key.sessionKey with
      | none => simp [hlookup] at hunit
      | some entry => exact Demand.watching_of_lookup hlookup ▸ hlive.subscribers _ entry hlookup
  · refine (htracks.nodup.of_map bindTuple).map_on fun req hreq other hother hsame => ?_
    obtain ⟨key, binding, hbinding, rfl⟩ := (htracks.outstanding req).mp hreq
    obtain ⟨key', binding', hbinding', rfl⟩ := (htracks.outstanding other).mp hother
    have hkey : key = key' :=
      (htracks.own key _ hbinding).symm.trans (hsame.trans (htracks.own key' _ hbinding'))
    rw [hkey, hbinding'] at hbinding
    cases hbinding
    rfl

theorem binds_only_watched_acquired :
    ∃ d req, Runs.exec (Demand.step plainPlane) {}
        [.acquire ⟨"t", "s"⟩ { seams := ownedSeams }] = some d ∧
      req ∈ Ledger.outstanding binds d.below.routed.log ∧
      1 ≤ d.watching ⟨req.tenant, req.session⟩ := by
  refine ⟨_, _, rfl, List.mem_of_getElem? (i := 0) rfl, ?_⟩
  exact (@Demand.binds_only_watched plainPlane _ [.acquire ⟨"t", "s"⟩ { seams := ownedSeams }]
    rfl).2.1 _ (List.mem_of_getElem? (i := 0) rfl)

end Factory.Routing
