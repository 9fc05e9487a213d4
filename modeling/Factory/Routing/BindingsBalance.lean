import Factory.Routing.BindingsSpec

/-!
# Binds and unbinds of the routing table

In every run the calls of the table are balanced: each `Unbind` closes the one outstanding bind
of its tuple, and what is outstanding is what the table holds (`Routed.binds_balance`).
-/

namespace Factory.Routing

open Ledger

/-- The ledger is in step with the table, and every route has demand. -/
structure Routed.Inv (core : BindCore) (σ : Routed) : Prop where
  tracks : Tracks core σ.table.binding σ.log
  demanded : σ.table.Demanded

theorem routed_init (core : BindCore) : Routed.Inv core {} where
  tracks := tracks_init core
  demanded key route h := by
    cases h

theorem Routed.Inv.after {core : BindCore} {σ : Routed} (h : σ.Inv core) {α : Type} {did : Did α}
    {demand : SessionKey → Nat} (heffect : Effect core σ.table did.calls did.table demand) :
    (σ.after did).Inv core where
  tracks := h.tracks.change heffect.change
  demanded := heffect.demanded h.demanded

/-- Every operation keeps the account of the binds. -/
theorem Routed.Inv.step {core : BindCore} {σ σ' : Routed} {op : TableOp}
    (hstep : σ.step core op = some σ') (h : σ.Inv core) : σ'.Inv core := by
  cases op with
  | acquire key seams =>
    cases hstep
    rcases acquire_cases core σ.table seams key with ⟨_, -, -, heffect⟩ | ⟨_, -, -, heffect⟩
    · exact h.after heffect
    · exact h.after heffect
  | release key seams =>
    cases hstep
    by_cases hopen : σ.table.closed = false
    · exact h.after (release_effect core σ.table seams key hopen)
    · have hrefused : σ.table.release core seams key =
          { table := σ.table, result := .error .bindingsClosed } :=
        if_pos (by simpa using hopen)
      rw [hrefused]
      exact h.after (Effect.none core σ.table)
  | deliver key delivery seams =>
    simp only [Routed.step] at hstep
    have hafter := h.after (deliver_effect core σ.table seams key)
    split at hstep
    · cases hstep
      exact hafter
    · cases hstep
      exact ⟨hafter.tracks, hafter.demanded⟩
  | rpc i =>
    simp only [Routed.step] at hstep
    split at hstep
    · cases hstep
    · cases hstep
      exact ⟨h.tracks.inert ⟨rfl, rfl⟩ trivial, h.demanded⟩
  | observe observed seams =>
    cases hstep
    exact h.after (observe_effect core σ.table seams observed)
  | close order seams =>
    simp only [Routed.step] at hstep
    split at hstep
    · cases hstep
      have heffect := closeLoop_effect core seams order { σ.table with closed := true } []
      exact ⟨h.tracks.change heffect.change, heffect.demanded h.demanded⟩
    · cases hstep

/-- In every run of the table: the successful binds not yet followed by an unbind of their
tuple are those of the bound routes, one each; a bound route is bound for the session it is
stored under; every unbind ends exactly one of them, under its idempotency key; every route has
demand; and a failed first `Acquire` leaves the table as it was. -/
theorem Routed.binds_balance (core : BindCore) {ops : List TableOp} {σ : Routed}
    (hrun : Runs.exec (Routed.step core) {} ops = some σ) :
    (Ledger.outstanding binds σ.log).Nodup ∧
    (∀ req, req ∈ Ledger.outstanding binds σ.log ↔
      ∃ key route, σ.table.sessions.lookup key = some route ∧ route.bound = true ∧
        req = bindRequest core route.binding) ∧
    (∀ key route, σ.table.sessions.lookup key = some route → route.bound = true →
      route.binding.key.sessionKey = key) ∧
    (∀ before req err after, σ.log = before ++ .unbind req err :: after →
      ∃ bound, (Ledger.outstanding binds before).filter
          (fun other => bindTuple other = unbindTuple req) = [bound] ∧
        bound.idempotencyKey = req.idempotencyKey) ∧
    (∀ tuple, σ.log.countP (fun call => (binds.opens call).any fun req => bindTuple req = tuple) =
      σ.log.countP (fun call => binds.closes call = some tuple) +
        (Ledger.outstanding binds σ.log).countP fun req => bindTuple req = tuple) ∧
    (∀ key route, σ.table.sessions.lookup key = some route → 1 ≤ route.demand) ∧
    (∀ key seams e, σ.table.sessions.lookup key = none →
      (σ.table.acquire core seams key).result = .error e →
        (σ.table.acquire core seams key).table = σ.table) := by
  have hinv : σ.Inv core :=
    Runs.exec_invariant (fun _ _ _ hstep => Routed.Inv.step hstep) hrun (routed_init core)
  obtain ⟨htracks, hdemanded⟩ := hinv
  refine ⟨htracks.nodup.of_map bindTuple, ?_, ?_, ?_, htracks.balanced.count, hdemanded, ?_⟩
  · intro req
    rw [htracks.outstanding]
    constructor
    · rintro ⟨key, binding, hkey, rfl⟩
      unfold Bindings.binding at hkey
      split at hkey
      · cases hkey
      · rename_i route hlookup
        split at hkey
        · rename_i hbound
          cases hkey
          exact ⟨key, route, hlookup, hbound, rfl⟩
        · cases hkey
    · rintro ⟨key, route, hlookup, hbound, rfl⟩
      exact ⟨key, route.binding, by rw [binding_of_lookup hlookup, if_pos hbound], rfl⟩
  · intro key route hlookup hbound
    exact htracks.own key _ (by rw [binding_of_lookup hlookup, if_pos hbound])
  · intro before req err after hlog
    obtain ⟨bound, hfilter⟩ := htracks.balanced before _ after _ hlog rfl
    refine ⟨bound, hfilter, ?_⟩
    have hmem : bound ∈ (Ledger.outstanding binds before).filter
        (fun other => binds.key other = unbindTuple req) := by
      rw [hfilter]
      exact List.mem_singleton_self bound
    obtain ⟨hopen, htuple⟩ := List.mem_filter.mp hmem
    obtain ⟨call, hcall, hopens⟩ := mem_outstanding hopen
    have hbind := htracks.keyed call (by rw [hlog]; exact List.mem_append_left _ hcall)
    have hunbind := htracks.keyed (.unbind req err) (by rw [hlog]; simp)
    cases call with
    | bind endpoint req' err' =>
      cases err' with
      | none =>
        cases hopens
        have htuple : bindTuple bound = unbindTuple req := of_decide_eq_true htuple
        exact hbind.trans (htuple ▸ hunbind.symm)
      | some e => cases hopens
    | _ => cases hopens
  · intro key seams e _ herror
    rcases acquire_cases core σ.table seams key with ⟨e', -, htable, -⟩ | ⟨binding, hok, -⟩
    · exact htable
    · cases hok.symm.trans herror

/-- A session is bound, its owner moves, and a delivery binds it again. -/
def movedOwner : List TableOp :=
  let key : SessionKey := ⟨"t", "s"⟩
  let owner (host : HostID) (epoch : Nat) : HostLinkRegistryObservation :=
    { tenant := "t", session := "s", host := host, hostGeneration := 1, leaseEpoch := epoch }
  let answers (host : HostID) (epoch : Nat) : Seams :=
    { owner := fun _ => .ok (some (owner host epoch)), bind := fun _ _ => none
      unbind := fun _ => some .other }
  [.acquire key (answers "h1" 1), .observe (owner "h2" 2) (answers "h2" 2),
    .deliver key { command := "c" } (answers "h2" 2), .rpc 0]

theorem binds_balance_movedOwner :
    ∃ σ, Runs.exec (Routed.step plainCore) {} movedOwner = some σ ∧
      (Ledger.outstanding binds σ.log).map (·.host) = ["h2"] ∧
      ∀ before req err after, σ.log = before ++ .unbind req err :: after →
        ∃ bound, (Ledger.outstanding binds before).filter
            (fun other => bindTuple other = unbindTuple req) = [bound] ∧
          bound.idempotencyKey = req.idempotencyKey := by
  obtain ⟨σ, hrun, hout⟩ : ∃ σ, Runs.exec (Routed.step plainCore) {} movedOwner = some σ ∧
      (Ledger.outstanding binds σ.log).map (·.host) = ["h2"] := ⟨_, rfl, by decide +kernel⟩
  exact ⟨σ, hrun, hout, (Routed.binds_balance plainCore hrun).2.2.2.1⟩

end Factory.Routing
