import Factory.Hostlink.Pool
import Factory.Lib.Tally

/-!
# What the pool's critical sections do

Every section moves the pool by a few primitive steps (`Moves`): it raises a link's recorded
generation, stores a link just dialled, drops one with its routes, adds or removes a session's
route, reaps an idle link, or clears the pool. `Moves` keeps account of the links stored and
removed; what it does to the representation (`Moves.rep`), to the number of stored links
(`Moves.balance`) and to where they are stored (`Moves.kept`) is proved once, for all sections.
-/

namespace Factory.Hostlink

open Function List Tally

/-! ## The representation -/

/-- The sessions bound over the link stored under a key. -/
def Pool.carries (p : Pool) (linked : LinkKey) : Finset SessionKey :=
  match p.links.lookup linked with
  | none => ∅
  | some pooled => pooled.bindings

variable {linked : LinkKey} {p : Pool}

theorem mem_carries {key : SessionKey} :
    key ∈ p.carries linked ↔
      ∃ pooled, p.links.lookup linked = some pooled ∧ key ∈ pooled.bindings := by
  unfold Pool.carries
  split <;> rename_i h <;> simp [h]

variable {pooled : PooledLink}

theorem carries_of_lookup (h : p.links.lookup linked = some pooled) :
    p.carries linked = pooled.bindings := by
  simp [Pool.carries, h]

theorem carries_insert (p : Pool) (linked : LinkKey) (pooled : PooledLink) (closed : Bool)
    (routes : SessionKey → Option HostID) :
    (Pool.mk closed (p.links.insert linked pooled) routes).carries =
      Function.update p.carries linked pooled.bindings := by
  funext k
  by_cases hk : k = linked
  · subst hk
    simp [Pool.carries]
  · simp [Pool.carries, hk, Finmap.lookup_insert_of_ne]

theorem carries_erase (p : Pool) (linked : LinkKey) (closed : Bool)
    (routes : SessionKey → Option HostID) :
    (Pool.mk closed (p.links.erase linked) routes).carries =
      Function.update p.carries linked ∅ := by
  funext k
  by_cases hk : k = linked
  · subst hk
    simp [Pool.carries]
  · simp [Pool.carries, hk, Finmap.lookup_erase_ne]

/-- The two maps and the binding sets agree, the ceiling is kept, and a closed pool has no
link. -/
structure Rep (cfg : PoolConfig) (p : Pool) : Prop where
  routes : ∀ key host, p.routes key = some host ↔ key ∈ p.carries (linkOf key host)
  tenants : ∀ linked, ∀ key ∈ p.carries linked, key.tenant = linked.tenant
  ceiling : p.links.keys.card ≤ cfg.maxLinks
  emptied : p.closed = true → p.links = ∅

theorem rep_init (cfg : PoolConfig) : Rep cfg {} where
  routes key host := by simp [Pool.carries]
  tenants linked key h := by simp [Pool.carries] at h
  ceiling := by simp
  emptied h := by cases h

variable {cfg : PoolConfig}

/-- A closed pool stores no link. -/
theorem Rep.open_of_lookup (h : Rep cfg p) (hlookup : p.links.lookup linked = some pooled) :
    p.closed = false := by
  cases hclosed : p.closed with
  | false => rfl
  | true =>
    rw [h.emptied hclosed, Finmap.lookup_empty] at hlookup
    cases hlookup

variable {old : PooledLink}

theorem card_keys_overwrite (new : PooledLink) (h : p.links.lookup linked = some old) :
    (p.links.insert linked new).keys.card = p.links.keys.card := by
  rw [keys_insert, Finset.insert_eq_of_mem (mem_keys_iff_lookup.mpr ⟨old, h⟩)]

theorem card_keys_erase (h : p.links.lookup linked = some old) :
    (p.links.erase linked).keys.card + 1 = p.links.keys.card := by
  rw [keys_erase]
  exact Finset.card_erase_add_one (mem_keys_iff_lookup.mpr ⟨old, h⟩)

variable (l : PooledLink) (dial : Target)

@[simp]
theorem observe_link : (l.observe dial).link = l.link := by
  unfold PooledLink.observe
  split <;> rfl

@[simp]
theorem observe_endpoint : (l.observe dial).endpoint = l.endpoint := by
  unfold PooledLink.observe
  split <;> rfl

@[simp]
theorem observe_bindings : (l.observe dial).bindings = l.bindings := by
  unfold PooledLink.observe
  split <;> rfl

/-- A stored link is dropped with the routes over it. -/
theorem dropLinkLocked_of_lookup (h : p.links.lookup linked = some old) :
    p.dropLinkLocked linked old.link =
      ({ p with
          links := p.links.erase linked
          routes := fun key => (p.routes key).filter fun routed => linkOf key routed ≠ linked },
        true) := by
  unfold Pool.dropLinkLocked
  rw [h]
  exact if_neg (not_not.mpr rfl)

/-- A link is dropped only under its own identity. -/
theorem dropLinkLocked_cases (p : Pool) (linked : LinkKey) (stale : LinkID) :
    (∃ old, p.links.lookup linked = some old ∧ old.link = stale) ∨
      p.dropLinkLocked linked stale = (p, false) := by
  unfold Pool.dropLinkLocked
  split
  · exact .inr rfl
  · rename_i current hlookup
    by_cases hlink : current.link = stale
    · exact .inl ⟨current, hlookup, hlink⟩
    · exact .inr (if_pos hlink)

/-! ## Primitive steps -/

/-- A link stored: under which key, the address it was dialled at, and the link. -/
structure Storing where
  linked : LinkKey
  endpoint : InternalEndpoint
  link : LinkID
deriving DecidableEq

/-- What sections do to the pool, with the links they store and those they remove from it. -/
inductive Moves (cfg : PoolConfig) : Pool → List Storing → List LinkID → Pool → Prop
  | refl (p : Pool) : Moves cfg p [] [] p
  | overwrite (p : Pool) (linked : LinkKey) (old new : PooledLink)
      (hlookup : p.links.lookup linked = some old) (hlink : new.link = old.link)
      (hendpoint : new.endpoint = old.endpoint) (hbindings : new.bindings = old.bindings) :
      Moves cfg p [] [] { p with links := p.links.insert linked new }
  | store (p : Pool) (linked : LinkKey) (dial : Target) (link : LinkID) (now : Int)
      (hfree : p.links.lookup linked = none) (hroom : p.links.keys.card < cfg.maxLinks)
      (hopen : p.closed = false) :
      Moves cfg p [⟨linked, dial.endpoint, link⟩] []
        { p with links := p.links.insert linked (newPooledLink link dial now) }
  | drop (p : Pool) (linked : LinkKey) (old : PooledLink)
      (hlookup : p.links.lookup linked = some old) :
      Moves cfg p [] [old.link] (p.dropLinkLocked linked old.link).1
  | bind (p : Pool) (key : SessionKey) (host : HostID) (old : PooledLink)
      (hlookup : p.links.lookup (linkOf key host) = some old)
      (hroute : ∀ bound, p.routes key = some bound → bound = host) :
      Moves cfg p [] []
        { p with
          links := p.links.insert (linkOf key host) { old with bindings := insert key old.bindings }
          routes := Function.update p.routes key (some host) }
  | unbind (p : Pool) (key : SessionKey) (host : HostID) (old : PooledLink) (idleSince : Int)
      (hroute : p.routes key = some host)
      (hlookup : p.links.lookup (linkOf key host) = some old) :
      Moves cfg p [] []
        { p with
          links := p.links.insert (linkOf key host)
            { old with bindings := old.bindings.erase key, idleSince := idleSince }
          routes := Function.update p.routes key none }
  | reap (p : Pool) (linked : LinkKey) (old : PooledLink)
      (hlookup : p.links.lookup linked = some old) (hidle : old.bindings = ∅) :
      Moves cfg p [] [old.link] { p with links := p.links.erase linked }
  | clear (p : Pool) (order : List LinkKey) (henum : p.Enumerates order) :
      Moves cfg p [] (order.filterMap fun linked => (p.links.lookup linked).map (·.link))
        { p with closed := true, links := ∅, routes := fun _ => none }
  | trans {p p' p'' : Pool} {new new' : List Storing} {removed removed' : List LinkID}
      (h : Moves cfg p new removed p') (h' : Moves cfg p' new' removed' p'') :
      Moves cfg p (new ++ new') (removed ++ removed') p''

/-! ### The representation -/

variable {p' : Pool}

theorem Rep.same (h : Rep cfg p) (hroutes : p'.routes = p.routes)
    (hcarries : p'.carries = p.carries) (hceiling : p'.links.keys.card ≤ cfg.maxLinks)
    (hopen : p'.closed = false) : Rep cfg p' where
  routes key host := by rw [hroutes, hcarries, h.routes]
  tenants linked key hkey := by
    rw [hcarries] at hkey
    exact h.tenants linked key hkey
  ceiling := hceiling
  emptied hclosed := absurd (hopen.symm.trans hclosed) Bool.false_ne_true

theorem Rep.reroute (h : Rep cfg p) {key : SessionKey} {host : HostID} {route : Option HostID}
    (carried : Finset SessionKey) (hroutes : p'.routes = Function.update p.routes key route)
    (hcarries : p'.carries = Function.update p.carries (linkOf key host) carried)
    (hself : ∀ bound, route = some bound ↔ bound = host ∧ key ∈ carried)
    (hrest : ∀ k, k ≠ key → (k ∈ carried ↔ k ∈ p.carries (linkOf key host)))
    (helsewhere : ∀ bound, key ∈ p.carries (linkOf key bound) → bound = host)
    (hceiling : p'.links.keys.card ≤ cfg.maxLinks) (hopen : p'.closed = false) : Rep cfg p' where
  routes k bound := by
    rw [hroutes, hcarries]
    by_cases hk : k = key
    · subst hk
      rw [update_self, hself]
      by_cases hb : bound = host
      · subst hb
        simp
      · have hne : linkOf k bound ≠ linkOf k host := fun heq => hb (congrArg LinkKey.host heq)
        rw [update_of_ne hne]
        constructor
        · rintro ⟨heq, -⟩
          exact absurd heq hb
        · intro hmem
          exact absurd (helsewhere bound hmem) hb
    · rw [update_of_ne hk, h.routes]
      by_cases hlink : linkOf k bound = linkOf key host
      · rw [hlink, update_self]
        exact (hrest k hk).symm
      · rw [update_of_ne hlink]
  tenants linked k hmem := by
    rw [hcarries] at hmem
    by_cases hlink : linked = linkOf key host
    · subst hlink
      rw [update_self] at hmem
      by_cases hk : k = key
      · rw [hk]
        rfl
      · exact h.tenants _ k ((hrest k hk).mp hmem)
    · rw [update_of_ne hlink] at hmem
      exact h.tenants linked k hmem
  ceiling := hceiling
  emptied hclosed := absurd (hopen.symm.trans hclosed) Bool.false_ne_true

theorem Rep.drop (h : Rep cfg p) (hlookup : p.links.lookup linked = some old) :
    Rep cfg (p.dropLinkLocked linked old.link).1 := by
  rw [dropLinkLocked_of_lookup hlookup]
  have hcard := card_keys_erase hlookup
  have hceiling := h.ceiling
  refine ⟨?_, ?_, by dsimp only; omega, ?_⟩
  · intro key host
    rw [carries_erase]
    by_cases hlink : linkOf key host = linked
    · subst hlink
      rw [update_self]
      simp only [Finset.notMem_empty, iff_false]
      intro hroute
      obtain ⟨-, hne⟩ := Option.filter_eq_some_iff.mp hroute
      simp at hne
    · rw [update_of_ne hlink, ← h.routes, Option.filter_eq_some_iff]
      simp [hlink]
  · intro k key hmem
    rw [carries_erase] at hmem
    by_cases hk : k = linked
    · subst hk
      rw [update_self] at hmem
      exact absurd hmem (Finset.notMem_empty key)
    · rw [update_of_ne hk] at hmem
      exact h.tenants k key hmem
  · intro hclosed
    exact absurd ((h.open_of_lookup hlookup).symm.trans hclosed) Bool.false_ne_true

variable {removed : List LinkID} {new : List Storing}

/-- Every move keeps the table well formed. -/
theorem Moves.rep (h : Moves cfg p new removed p') (hrep : Rep cfg p) : Rep cfg p' := by
  induction h with
  | refl p => exact hrep
  | overwrite p linked old new hlookup hlink hendpoint hbindings =>
    refine hrep.same rfl ?_ ?_ (hrep.open_of_lookup hlookup)
    · rw [carries_insert, hbindings, ← carries_of_lookup hlookup, update_eq_self]
    · rw [card_keys_overwrite new hlookup]
      exact hrep.ceiling
  | store p linked dial link now hfree hroom hopen =>
    refine hrep.same rfl ?_ ?_ hopen
    · rw [carries_insert, update_eq_self_iff]
      simp [newPooledLink, Pool.carries, hfree]
    · rw [keys_insert, Finset.card_insert_of_notMem (notMem_keys_iff_lookup.mpr hfree)]
      exact hroom
  | drop p linked old hlookup => exact hrep.drop hlookup
  | bind p key host old hlookup hroute =>
    refine hrep.reroute (insert key old.bindings) rfl (carries_insert ..) ?_ ?_ ?_ ?_
      (hrep.open_of_lookup hlookup)
    · simp [eq_comm]
    · intro k hk
      rw [carries_of_lookup hlookup, Finset.mem_insert]
      exact or_iff_right hk
    · intro bound hmem
      exact hroute bound ((hrep.routes key bound).mpr hmem)
    · rw [card_keys_overwrite _ hlookup]
      exact hrep.ceiling
  | unbind p key host old idleSince hroute hlookup =>
    refine hrep.reroute (old.bindings.erase key) rfl (carries_insert ..) ?_ ?_ ?_ ?_
      (hrep.open_of_lookup hlookup)
    · simp
    · intro k hk
      rw [carries_of_lookup hlookup, Finset.mem_erase]
      exact and_iff_right hk
    · intro bound hmem
      have hbound := (hrep.routes key bound).mpr hmem
      rw [hroute, Option.some.injEq] at hbound
      exact hbound.symm
    · rw [card_keys_overwrite _ hlookup]
      exact hrep.ceiling
  | reap p linked old hlookup hidle =>
    have hcard := card_keys_erase hlookup
    have hceiling := hrep.ceiling
    refine hrep.same rfl ?_ (by dsimp only; omega) (hrep.open_of_lookup hlookup)
    rw [carries_erase, update_eq_self_iff, carries_of_lookup hlookup, hidle]
  | clear p order henum =>
    refine ⟨?_, ?_, by simp, fun _ => rfl⟩
    · simp [Pool.carries]
    · intro linked key hmem
      simp [Pool.carries] at hmem
  | trans _ _ ih ih' => exact ih' (ih hrep)

/-! ### The links stored -/

/-- How many times the pool stores a link. -/
def Pool.stored (p : Pool) (l : LinkID) : Nat := tally p.links fun pooled => pooled.link = l

/-- How many of some storings are of a link. -/
def storedIn (new : List Storing) (l : LinkID) : Nat := new.countP fun st => st.link = l

theorem toNat_decide_eq (a l : LinkID) : (decide (a = l)).toNat = [a].count l := by
  by_cases h : a = l
  · simp [h]
  · simp [h]

theorem dropLinkLocked_stored (hlookup : p.links.lookup linked = some old) (l : LinkID) :
    p.stored l = (p.dropLinkLocked linked old.link).1.stored l + [old.link].count l := by
  rw [dropLinkLocked_of_lookup hlookup]
  unfold Pool.stored
  rw [tally_erase hlookup, toNat_decide_eq]

/-- What was stored and is newly stored is stored or removed. -/
theorem Moves.balance (h : Moves cfg p new removed p') (l : LinkID) :
    p.stored l + storedIn new l = p'.stored l + removed.count l := by
  induction h with
  | refl p => rfl
  | overwrite p linked old new hlookup hlink hendpoint hbindings =>
    have hsame : Pool.stored { p with links := p.links.insert linked new } l = p.stored l :=
      tally_overwrite hlookup (by rw [hlink])
    rw [hsame]
    rfl
  | store p linked dial link now hfree hroom hopen =>
    have hmore : Pool.stored
        { p with links := p.links.insert linked (newPooledLink link dial now) } l =
          p.stored l + [link].count l := by
      unfold Pool.stored
      rw [tally_insert hfree]
      exact congrArg _ (toNat_decide_eq link l)
    rw [hmore]
    by_cases hl : link = l
    · simp [storedIn, hl]
    · simp [storedIn, hl]
  | drop p linked old hlookup =>
    rw [dropLinkLocked_stored hlookup]
    rfl
  | bind p key host old hlookup hroute =>
    have hsame : tally (p.links.insert (linkOf key host)
        { old with bindings := insert key old.bindings }) (fun pooled => pooled.link = l) =
          p.stored l := tally_overwrite hlookup rfl
    simp only [Pool.stored] at hsame ⊢
    rw [hsame]
    rfl
  | unbind p key host old idleSince hroute hlookup =>
    have hsame : tally (p.links.insert (linkOf key host)
        { old with bindings := old.bindings.erase key, idleSince := idleSince })
          (fun pooled => pooled.link = l) = p.stored l := tally_overwrite hlookup rfl
    simp only [Pool.stored] at hsame ⊢
    rw [hsame]
    rfl
  | reap p linked old hlookup hidle =>
    have hless : p.stored l =
        Pool.stored { p with links := p.links.erase linked } l + [old.link].count l := by
      unfold Pool.stored
      rw [tally_erase hlookup, toNat_decide_eq]
    rw [hless]
    rfl
  | clear p order henum =>
    have hwalk := tally_enumerate henum.1 henum.2 fun pooled => decide (pooled.link = l)
    have hempty :
        Pool.stored { p with closed := true, links := ∅, routes := fun _ => none } l = 0 :=
      tally_empty _
    have hcount : (order.filterMap fun linked => (p.links.lookup linked).map (·.link)).count l =
        p.stored l := by
      rw [Pool.stored, ← hwalk, List.count, ← map_filterMap, countP_map]
      refine countP_congr fun pooled _ => ?_
      simp
    rw [hempty, hcount]
    simp [storedIn]
  | trans _ _ ih ih' =>
    unfold storedIn at ih ih' ⊢
    rw [countP_append, count_append]
    omega

/-- The pool stores the link, at its address, under the key. -/
def Pool.HasLink (p : Pool) (linked : LinkKey) (pooled : PooledLink) : Prop :=
  ∃ old, p.links.lookup linked = some old ∧ old.link = pooled.link ∧ old.endpoint = pooled.endpoint

theorem hasLink_of_insert {k : LinkKey} {upd : PooledLink}
    (hfound : (p.links.insert k upd).lookup linked = some pooled)
    (hold : p.links.lookup k = some old) (hlink : upd.link = old.link)
    (hendpoint : upd.endpoint = old.endpoint) : p.HasLink linked pooled := by
  by_cases hk : linked = k
  · subst hk
    rw [Finmap.lookup_insert, Option.some.injEq] at hfound
    subst hfound
    exact ⟨old, hold, hlink.symm, hendpoint.symm⟩
  · rw [Finmap.lookup_insert_of_ne _ hk] at hfound
    exact ⟨pooled, hfound, rfl, rfl⟩

theorem hasLink_of_erase {k : LinkKey} (hfound : (p.links.erase k).lookup linked = some pooled) :
    p.HasLink linked pooled := by
  by_cases hk : linked = k
  · subst hk
    rw [Finmap.lookup_erase] at hfound
    cases hfound
  · rw [Finmap.lookup_erase_ne hk] at hfound
    exact ⟨pooled, hfound, rfl, rfl⟩

/-- A link stored after a section was stored under its key before, at its address, or is one
of those the section stored. -/
theorem Moves.kept (h : Moves cfg p new removed p') (hlookup : p'.links.lookup linked = some pooled)
    : p.HasLink linked pooled ∨ (⟨linked, pooled.endpoint, pooled.link⟩ : Storing) ∈ new := by
  induction h generalizing pooled with
  | refl p => exact .inl ⟨pooled, hlookup, rfl, rfl⟩
  | overwrite p k old upd hold hlink hendpoint _ =>
    exact .inl (hasLink_of_insert hlookup hold hlink hendpoint)
  | store p k dial link now hfree hroom hopen =>
    by_cases hk : linked = k
    · subst hk
      rw [Finmap.lookup_insert, Option.some.injEq] at hlookup
      subst hlookup
      exact .inr (mem_singleton_self _)
    · rw [Finmap.lookup_insert_of_ne _ hk] at hlookup
      exact .inl ⟨pooled, hlookup, rfl, rfl⟩
  | drop p k old hold =>
    rw [dropLinkLocked_of_lookup hold] at hlookup
    exact .inl (hasLink_of_erase hlookup)
  | bind p key host old hold _ => exact .inl (hasLink_of_insert hlookup hold rfl rfl)
  | unbind p key host old idleSince _ hold =>
    exact .inl (hasLink_of_insert hlookup hold rfl rfl)
  | reap p k old hold _ => exact .inl (hasLink_of_erase hlookup)
  | clear p order henum =>
    cases hlookup
  | trans _ _ ih ih' =>
    rcases ih' hlookup with ⟨mid, hmid, hlink, hendpoint⟩ | hnew
    · rcases ih hmid with ⟨old, hold, hlink', hendpoint'⟩ | hnew
      · exact .inl ⟨old, hold, hlink'.trans hlink, hendpoint'.trans hendpoint⟩
      · rw [hlink, hendpoint] at hnew
        exact .inr (mem_append_left _ hnew)
    · exact .inr (mem_append_right _ hnew)

/-- A closed pool stays closed. -/
theorem Moves.closed (h : Moves cfg p new removed p') (hclosed : p.closed = true) :
    p'.closed = true := by
  induction h with
  | drop p k old hold =>
    rw [dropLinkLocked_of_lookup hold]
    exact hclosed
  | clear p order henum => rfl
  | trans _ _ ih ih' => exact ih' (ih hclosed)
  | _ => exact hclosed

end Factory.Hostlink
