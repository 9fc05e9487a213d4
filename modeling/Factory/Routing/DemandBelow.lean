import Factory.Routing.BindingsSpec
import Factory.Routing.Demand

/-!
# Below the demand plane

Whatever an operation of the demand plane does below it, with the observations and deliveries
that reach the lower table in between, changes the table's demand for its own session only, by
what it makes of the session's entry (`Below.Moves`).
-/

namespace Factory.Routing

open Function

/-- What the plane did below it: the table's demand afterwards. -/
structure Below.Moves (w w' : Below) (demand : SessionKey → Nat) : Prop where
  demand : w'.table.demand = demand
  closed : w'.table.closed = w.table.closed
  demanded : w.table.Demanded → w'.table.Demanded

theorem Below.Moves.refl (w : Below) : w.Moves w w.table.demand := ⟨rfl, rfl, id⟩

theorem Below.Moves.trans {w w' w'' : Below} {demand demand' : SessionKey → Nat}
    (h : w.Moves w' demand) (h' : w'.Moves w'' demand') : w.Moves w'' demand' :=
  ⟨h'.demand, h'.closed.trans h.closed, fun hd => h'.demanded (h.demanded hd)⟩

theorem Below.Moves.of_effect {core : BindCore} (w : Below) {α : Type} {did : Did α}
    {demand : SessionKey → Nat} (h : Effect core w.table did.calls did.table demand) :
    w.Moves { w with routed := w.routed.after did } demand :=
  ⟨h.demand, h.closed, h.demanded⟩

variable (cfg : DemandConfig) (w : Below)

theorem Below.push_moves (p : Push) : w.Moves (w.push cfg p) w.table.demand := by
  cases p with
  | observe observed seams =>
    exact .of_effect w (observe_effect cfg.core w.table seams observed)
  | deliver key delivery seams =>
    have h := Below.Moves.of_effect w (deliver_effect cfg.core w.table seams key)
    unfold Below.push Push.op Routed.step
    dsimp only
    split
    · exact h
    · exact ⟨h.demand, h.closed, h.demanded⟩
  | rpc i =>
    unfold Below.push Push.op Routed.step
    dsimp only
    split
    · exact Below.Moves.refl w
    · exact ⟨rfl, rfl, id⟩

/-- What reaches the table meanwhile leaves the demand. -/
theorem Below.pushed_moves (pushes : List Push) : w.Moves (w.pushed cfg pushes) w.table.demand := by
  induction pushes generalizing w with
  | nil => exact .refl w
  | cons p rest ih =>
    have hpush := w.push_moves cfg p
    have hrest := ih (w.push cfg p)
    rw [hpush.demand] at hrest
    exact hpush.trans hrest

/-- A release takes one unit of the session's demand. -/
theorem Below.release_moves (key : SessionKey) (give : Give) (hopen : w.table.closed = false) :
    w.Moves (w.release cfg key give).1
      (Function.update w.table.demand key (w.table.demand key - 1)) := by
  have hpushed := w.pushed_moves cfg give.before
  have heffect := release_effect cfg.core (w.pushed cfg give.before).table give.seams key
    (hpushed.closed.trans hopen)
  rw [hpushed.demand] at heffect
  exact hpushed.trans (.of_effect _ heffect)

theorem Below.bindLocked_moves (key : SessionKey) (serve : Serve) :
    w.Moves (w.bindLocked cfg key serve).1
      (Function.update w.table.demand key
        (w.table.demand key + (w.bindLocked cfg key serve).2.toNat)) := by
  have hpushed := w.pushed_moves cfg serve.before
  unfold Below.bindLocked
  dsimp only
  rcases acquire_cases cfg.core (w.pushed cfg serve.before).table serve.seams key with
    ⟨e, hresult, -, heffect⟩ | ⟨binding, hresult, -, heffect⟩
  · rw [hpushed.demand] at heffect
    rw [hresult]
    simp only [Bool.toNat_false, Nat.add_zero, update_eq_self]
    exact hpushed.trans (.of_effect _ heffect)
  · rw [hpushed.demand] at heffect
    rw [hresult]
    exact hpushed.trans (.of_effect _ heffect)

theorem Below.hintLocked_moves (key : SessionKey) (serve : Serve) :
    w.Moves (w.hintLocked cfg key serve) w.table.demand := by
  unfold Below.hintLocked
  split
  · exact ⟨rfl, rfl, id⟩
  · split
    · exact ⟨rfl, rfl, id⟩
    · exact ⟨rfl, rfl, id⟩

/-- `serveLocked` leaves one unit exactly when it says so. -/
theorem Below.serveLocked_moves (key : SessionKey) (held : Bool) (serve : Serve)
    (hunit : w.table.demand key = held.toNat) :
    w.Moves (w.serveLocked cfg key held serve).1
      (Function.update w.table.demand key (w.serveLocked cfg key held serve).2.toNat) := by
  unfold Below.serveLocked
  cases held with
  | true =>
    simp only [if_true]
    rw [← hunit, update_eq_self]
    exact .refl w
  | false =>
    have hbind := w.bindLocked_moves cfg key serve
    rw [hunit, Bool.toNat_false, Nat.zero_add] at hbind
    generalize w.bindLocked cfg key serve = bound at hbind
    obtain ⟨w', held⟩ := bound
    cases held with
    | true =>
      exact hbind
    | false =>
      have hhint := w'.hintLocked_moves cfg key serve
      rw [hbind.demand] at hhint
      exact hbind.trans hhint

/-- So does `refreshLocked`, of a session that had one. -/
theorem Below.refreshLocked_moves (key : SessionKey) (refresh : Refresh)
    (hopen : w.table.closed = false) (hunit : w.table.demand key = 1) :
    w.Moves (w.refreshLocked cfg key refresh).1
      (Function.update w.table.demand key (w.refreshLocked cfg key refresh).2.toNat) := by
  -- the two ends of the function, from any point it reaches with the demand unchanged
  have hkept : ∀ w' : Below, w.Moves w' w.table.demand →
      w.Moves w' (Function.update w.table.demand key (true : Bool).toNat) := by
    intro w' h
    rwa [Bool.toNat_true, ← hunit, update_eq_self]
  have hgiven : ∀ w' : Below, w.Moves w' w.table.demand →
      w.Moves (w'.release cfg key refresh.give).1
        (Function.update w.table.demand key (false : Bool).toNat) := by
    intro w' h
    have hrelease := w'.release_moves cfg key refresh.give (h.closed.trans hopen)
    rw [h.demand, hunit] at hrelease
    exact h.trans hrelease
  have hcall : w.Moves (w.call (.owner key)) w.table.demand := ⟨rfl, rfl, id⟩
  unfold Below.refreshLocked
  dsimp only
  split
  · exact hkept _ hcall
  · exact hgiven _ hcall
  · rename_i observed _
    generalize w.call (.owner key) = w₀ at hcall
    have h₁ := hcall.trans (hcall.demand ▸ w₀.pushed_moves cfg refresh.beforeObserve)
    generalize w₀.pushed cfg refresh.beforeObserve = w₁ at h₁
    have h₂ := h₁.trans (h₁.demand ▸ Below.Moves.of_effect w₁
      (observe_effect cfg.core w₁.table refresh.observe observed))
    generalize w₁.table.observe cfg.core refresh.observe observed = did at h₂
    generalize ({ w₁ with routed := w₁.routed.after did } : Below) = w₂ at h₂
    have h₃ := h₂.trans (h₂.demand ▸ w₂.pushed_moves cfg refresh.beforeBinding)
    generalize w₂.pushed cfg refresh.beforeBinding = w₃ at h₃
    split
    · unfold Below.transportHolds
      split
      · have h₄ : w.Moves (w₃.call (.routeHeld key)) w.table.demand :=
          ⟨h₃.demand, h₃.closed, h₃.demanded⟩
        split
        · exact hkept _ h₄
        · exact hgiven _ h₄
      · exact hkept _ h₃
    · exact hgiven _ h₃

end Factory.Routing
