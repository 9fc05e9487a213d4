import Factory.Placement.PendingSweep

/-!
# What a placement sweep steps over

A pass keeps its position after reading and before placing. `Pass.StepsOverNothing` says
that when the position kept lies where the last page read ended, every session on a page
the pass read that needs a Host was handed to the placer. `Uninterrupted` is when that
holds: no page after the first faulted while an earlier one had such a session, and no
placement failed with the context done while another such session was still to come.
-/

namespace Factory.Placement

open List

/-! ## The sessions of some entries -/

theorem OpenSession.add_needsHost (s : OpenSession) (e : InboxEntry) (now : Int) :
    (s.add e now).needsHost = (s.needsHost || e.needsHost now) := by
  unfold OpenSession.add InboxEntry.needsHost
  cases e.state <;> cases hl : e.live now <;> simp

/-- The sessions collected from some entries: one for each key, needing a Host exactly when
one of its entries does. -/
structure Inventory (now : Int) (entries : List InboxEntry) (order : List OpenSession) :
    Prop where
  nodup : (order.map (·.key)).Nodup
  listed : ∀ e ∈ entries, ∃ s ∈ order, s.key = e.key
  entered : ∀ s ∈ order, ∃ e ∈ entries, e.key = s.key
  needs : ∀ s ∈ order, (s.needsHost = true ↔ ∃ e ∈ entries, e.key = s.key ∧ e.needsHost now = true)

theorem inventory_nil (now : Int) : Inventory now [] [] :=
  ⟨nodup_nil, by simp, by simp, by simp⟩

theorem map_add_keys (now : Int) (order : List OpenSession) (e : InboxEntry) :
    (order.map fun s => if s.key = e.key then s.add e now else s).map (·.key) =
      order.map (·.key) := by
  rw [map_map]
  refine map_congr_left ?_
  intro s _
  simp only [Function.comp_apply]
  split <;> simp

theorem needed_append (now : Int) (entries : List InboxEntry) (e : InboxEntry) (key : SessionKey) :
    (∃ e' ∈ entries ++ [e], e'.key = key ∧ e'.needsHost now = true) ↔
      (∃ e' ∈ entries, e'.key = key ∧ e'.needsHost now = true) ∨
        (e.key = key ∧ e.needsHost now = true) := by
  simp only [mem_append, mem_singleton, or_and_right, exists_or, exists_eq_left]

variable {entries : List InboxEntry}

variable {order : List OpenSession} {now : Int}

theorem Inventory.addListed (h : Inventory now entries order) {e : InboxEntry}
    (hlisted : ∃ s ∈ order, s.key = e.key) :
    Inventory now (entries ++ [e])
      (order.map fun s => if s.key = e.key then s.add e now else s) := by
  refine ⟨?_, ?_, ?_, ?_⟩
  · rw [map_add_keys]
    exact h.nodup
  · intro e' he'
    have hold : ∃ s ∈ order, s.key = e'.key := by
      rcases mem_append.mp he' with he' | he'
      · exact h.listed e' he'
      · rw [mem_singleton.mp he']
        exact hlisted
    obtain ⟨s, hs, hkey⟩ := hold
    refine ⟨_, mem_map_of_mem hs, ?_⟩
    split <;> simp [hkey]
  · intro s' hs'
    obtain ⟨s, hs, rfl⟩ := mem_map.mp hs'
    obtain ⟨e', he', hkey⟩ := h.entered s hs
    refine ⟨e', mem_append_left _ he', ?_⟩
    split <;> simp [hkey]
  · intro s' hs'
    obtain ⟨s, hs, rfl⟩ := mem_map.mp hs'
    rw [needed_append]
    by_cases hkey : s.key = e.key
    · rw [if_pos hkey, OpenSession.add_needsHost, OpenSession.add_key, Bool.or_eq_true,
        h.needs s hs]
      exact or_congr_right (and_iff_right hkey.symm).symm
    · rw [if_neg hkey, h.needs s hs]
      exact (or_iff_left fun hadded => hkey hadded.1.symm).symm

theorem Inventory.addNew (h : Inventory now entries order) {e : InboxEntry} {s₀ : OpenSession}
    (hnew : ∀ s ∈ order, s.key ≠ e.key) (hkey₀ : s₀.key = e.key)
    (hneeds₀ : s₀.needsHost = e.needsHost now) :
    Inventory now (entries ++ [e]) (order ++ [s₀]) := by
  refine ⟨?_, ?_, ?_, ?_⟩
  · rw [map_append, map_singleton, hkey₀]
    refine nodup_append.mpr ⟨h.nodup, by simp, ?_⟩
    intro k hk k' hk'
    obtain ⟨s, hs, rfl⟩ := mem_map.mp hk
    rw [mem_singleton.mp hk']
    exact hnew s hs
  · intro e' he'
    rcases mem_append.mp he' with he' | he'
    · obtain ⟨s, hs, hkey⟩ := h.listed e' he'
      exact ⟨s, mem_append_left _ hs, hkey⟩
    · rw [mem_singleton.mp he']
      exact ⟨s₀, mem_concat_self, hkey₀⟩
  · intro s hs
    rcases mem_append.mp hs with hs | hs
    · obtain ⟨e', he', hkey⟩ := h.entered s hs
      exact ⟨e', mem_append_left _ he', hkey⟩
    · rw [mem_singleton.mp hs]
      exact ⟨e, mem_concat_self, hkey₀.symm⟩
  · intro s hs
    rw [needed_append]
    rcases mem_append.mp hs with hs | hs
    · rw [h.needs s hs]
      exact (or_iff_left fun hadded => hnew s hs hadded.1.symm).symm
    · rw [mem_singleton.mp hs, hneeds₀, hkey₀]
      refine ⟨fun hn => .inr ⟨rfl, hn⟩, ?_⟩
      rintro (⟨e', he', hk, -⟩ | ⟨-, hn⟩)
      · obtain ⟨s', hs', hkey'⟩ := h.listed e' he'
        exact absurd (hkey'.trans hk) (hnew s' hs')
      · exact hn

theorem Inventory.addEntry (h : Inventory now entries order) (e : InboxEntry)
    : Inventory now (entries ++ [e]) (addEntry now order e) := by
  unfold Placement.addEntry
  split
  · rename_i hany
    exact h.addListed (by simpa using hany)
  · rename_i hany
    refine h.addNew (by simpa using hany) (OpenSession.add_key ..) ?_
    rw [OpenSession.add_needsHost]
    exact Bool.false_or _

/-- Induction over the entries, in the order they were read. -/
theorem inventory_induction {P : List InboxEntry → List OpenSession → Prop} (hnil : P [] [])
    (hadd : ∀ entries order e, P entries order → P (entries ++ [e]) (addEntry now order e))
    (entries : List InboxEntry) : P entries (inventory now entries) := by
  have hfold : ∀ (rest pre : List InboxEntry) (order : List OpenSession),
      P pre order → P (pre ++ rest) (rest.foldl (addEntry now) order) := by
    intro rest
    induction rest with
    | nil =>
      simpa using h
    | cons e rest ih =>
      intro pre order h
      rw [append_cons]
      exact ih (pre ++ [e]) _ (hadd pre order e h)
  exact hfold entries [] [] hnil

/-- The inventory groups the open commands by session. -/
theorem inventory_spec (now : Int) (entries : List InboxEntry) :
    Inventory now entries (inventory now entries) :=
  inventory_induction (inventory_nil now) (fun _ _ e h => h.addEntry e) entries

/-! ## The pages of a pass -/

/-- The pages the store's answers let a pass read, at most `n` of them from the `i`-th on. -/
def pagesOf (pages : Nat → Except PageFault DuePage) : Nat → Nat → List DuePage
  | 0, _ => []
  | n + 1, i =>
    match pages i with
    | .ok page => page :: if page.nextCursor = "" then [] else pagesOf pages n (i + 1)
    | .error _ => []

/-- The fault that ends the reads of a pass, if one does. -/
def faultOf (pages : Nat → Except PageFault DuePage) : Nat → Nat → Option PageFault
  | 0, _ => none
  | n + 1, i =>
    match pages i with
    | .ok page => if page.nextCursor = "" then none else faultOf pages n (i + 1)
    | .error fault => some fault

/-- The commands on some pages. -/
def entriesOf (pages : List DuePage) : List InboxEntry := pages.flatMap (·.commands)

/-- Where a page leads: nowhere at the end of the view. -/
def DuePage.after (page : DuePage) : Option Cursor :=
  if page.nextCursor = "" then none else some page.nextCursor

/-- The pages read from a position on, each where the last one led, and where they end. -/
inductive Reads : Option Cursor → List (Cursor × DuePage) → Option Cursor → Prop
  | nil (o : Option Cursor) : Reads o [] o
  | cons {c : Cursor} {page : DuePage} {rest : List (Cursor × DuePage)} {o : Option Cursor}
      (h : Reads page.after rest o) : Reads (some c) ((c, page) :: rest) o

/-- What `collectPages` adds to what was collected. -/
structure CollectSpec (now : Int) (pages : Nat → Except PageFault DuePage) (n i : Nat)
    (c c' : Collected) : Prop where
  fault : c'.fault = faultOf pages n i
  order : c'.fault = none → c'.order = (entriesOf (pagesOf pages n i)).foldl (addEntry now) c.order
  read : ∃ read o, c'.read = c.read ++ read ∧ read.map (·.2) = pagesOf pages n i ∧
    Reads (some c.cursor) read o ∧
    (c'.fault = some .refusedCursor → c'.cursor = "" ∧ o.isSome) ∧
    (c'.fault ≠ some .refusedCursor → c'.cursor = o.getD "") ∧
    (c'.fault = some .other → o.isSome)

theorem collectPages_spec (cfg : PendingSweeperConfig) (shard : Nat) (now : Int)
    (pages : Nat → Except PageFault DuePage) (n i : Nat) (c : Collected) (hc : c.fault = none) :
    CollectSpec now pages n i c (collectPages cfg shard now pages n i c) := by
  induction n generalizing i c with
  | zero =>
    refine ⟨hc, fun _ => rfl, [], some c.cursor, by simp [collectPages], rfl, .nil _, ?_, ?_, ?_⟩
    · intro h
      simp [collectPages, hc] at h
    · intro _
      rfl
    · intro _
      rfl
  | succ n ih =>
    rw [collectPages]
    cases hp : pages i with
    | error fault =>
      cases fault with
      | refusedCursor =>
        refine ⟨by simp [faultOf, hp], fun h => (by cases h), [], some c.cursor, by simp,
          by simp [pagesOf, hp], .nil _, fun _ => ⟨rfl, rfl⟩, fun h => absurd rfl h, fun _ => rfl⟩
      | other =>
        refine ⟨by simp [faultOf, hp], fun h => (by cases h), [], some c.cursor, by simp,
          by simp [pagesOf, hp], .nil _, fun h => (by cases h), fun _ => rfl, fun _ => rfl⟩
    | ok page =>
      dsimp only
      by_cases hend : page.nextCursor = ""
      · rw [if_pos hend]
        refine ⟨by simp [faultOf, hp, hend, hc], fun _ => by simp [pagesOf, hp, hend, entriesOf],
          [(c.cursor, page)], none, rfl, by simp [pagesOf, hp, hend], ?_, ?_, ?_, ?_⟩
        · refine .cons ?_
          rw [DuePage.after, if_pos hend]
          exact .nil _
        · intro h
          cases hc.symm.trans h
        · intro _
          exact hend
        · intro h
          cases hc.symm.trans h
      · rw [if_neg hend]
        generalize hc₁ : ({ c with
          order := page.commands.foldl (addEntry now) c.order
          cursor := page.nextCursor
          read := c.read ++ [(c.cursor, page)]
          requests := c.requests ++ [_] } : Collected) = c₁
        have hspec := ih (i + 1) c₁ (by rw [← hc₁]; exact hc)
        obtain ⟨read, o, hread, hpages, hreads, hrest⟩ := hspec.read
        refine ⟨?_, ?_, (c.cursor, page) :: read, o, ?_, ?_, ?_, hrest⟩
        · rw [hspec.fault]
          simp [faultOf, hp, hend]
        · intro hnone
          rw [hspec.order hnone, ← hc₁]
          simp [pagesOf, hp, hend, entriesOf]
        · rw [hread, ← hc₁]
          simp
        · simp [pagesOf, hp, hend, hpages]
        · refine .cons ?_
          rw [DuePage.after, if_neg hend]
          rw [← hc₁] at hreads
          exact hreads

/-! ## The placements of a pass -/

/-- The requests made for some sessions that all need a Host. -/
def handedOf (answers : Nat → ReconcileAnswer) : List OpenSession → Nat → List Request
  | [], _ => []
  | s :: rest, i =>
    s.request :: if answers i = .failed true then [] else handedOf answers rest (i + 1)

theorem placeAll_handed (answers : Nat → ReconcileAnswer) (order : List OpenSession) (i : Nat)
    (p : Placed) :
    (placeAll answers order i p).handed =
      p.handed ++ handedOf answers (order.filter (·.needsHost)) i := by
  induction order generalizing i p with
  | nil => simp [placeAll, handedOf]
  | cons s rest ih =>
    rw [placeAll]
    by_cases hn : s.needsHost = true
    · rw [if_pos hn, filter_cons_of_pos hn, handedOf]
      by_cases hf : answers i = .failed true
      · rw [if_pos hf, if_pos hf]
      · rw [if_neg hf, if_neg hf, ih]
        simp
    · rw [if_neg hn, filter_cons_of_neg hn, ih]

/-- Every session is handed to the placer exactly when no placement but the last one fails
with the context done. -/
theorem handedOf_all_iff (answers : Nat → ReconcileAnswer) {needing : List OpenSession}
    (hnodup : (needing.map (·.key)).Nodup) (i : Nat) :
    (∀ s ∈ needing, s.key ∈ (handedOf answers needing i).map (·.key)) ↔
      ∀ k, k + 1 < needing.length → answers (i + k) ≠ .failed true := by
  induction needing generalizing i with
  | nil => simp
  | cons s rest ih =>
    rw [map_cons, nodup_cons] at hnodup
    have hfresh : ∀ s' ∈ rest, s'.key ≠ s.key := by
      intro s' hs' heq
      exact hnodup.1 (heq ▸ mem_map_of_mem hs')
    by_cases hf : answers i = .failed true
    · -- the pass ends with `s`
      rw [handedOf, if_pos hf]
      constructor
      · intro hall k hk hfail
        cases rest with
        | nil => simp at hk
        | cons s' rest =>
          have hmem := hall s' (by simp)
          simp only [map_cons, map_nil, mem_singleton, OpenSession.request] at hmem
          exact hfresh s' (by simp) hmem
      · intro hnone
        cases rest with
        | nil => simp [OpenSession.request]
        | cons s' rest => exact absurd hf (hnone 0 (by simp))
    · rw [handedOf, if_neg hf]
      have hrest := ih hnodup.2 (i + 1)
      constructor
      · intro hall k hk
        have hlater : ∀ s' ∈ rest, s'.key ∈ (handedOf answers rest (i + 1)).map (·.key) := by
          intro s' hs'
          have hmem := hall s' (mem_cons_of_mem _ hs')
          rw [map_cons, mem_cons] at hmem
          exact hmem.resolve_left (hfresh s' hs')
        cases k with
        | zero => exact hf
        | succ k =>
          rw [length_cons] at hk
          have := hrest.mp hlater k (by omega)
          rwa [Nat.add_assoc, Nat.add_comm 1 k] at this
      · intro hnone s' hs'
        rw [map_cons, mem_cons]
        rcases mem_cons.mp hs' with rfl | hs'
        · exact .inl rfl
        · refine .inr (hrest.mpr ?_ s' hs')
          intro k hk
          have := hnone (k + 1) (by rw [length_cons]; omega)
          rwa [← Nat.add_assoc, Nat.add_right_comm] at this

/-! ## One pass -/

/-- When the position kept is where the last page read ended, every session on a page the
pass read that needs a Host was handed to the placer. The end of the view, which is kept as
the empty cursor, lies beyond every page. -/
def Pass.StepsOverNothing (pass : Pass) (kept : Cursor) : Prop :=
  ∀ last, pass.collected.read.getLast? = some last → last.2.nextCursor = kept →
    ∀ r ∈ pass.collected.read, ∀ e ∈ r.2.commands,
      ∀ s ∈ inventory pass.now (entriesOf (pass.collected.read.map (·.2))),
        s.key = e.key → s.needsHost = true → s.key ∈ pass.handed

/-- The sessions that need a Host on the pages a pass can read. -/
def needing (cfg : PendingSweeperConfig) (input : SweepInput) : List OpenSession :=
  (inventory input.now (entriesOf (pagesOf input.pages cfg.maxPages 0))).filter (·.needsHost)

/-- No page faults after a page with a session that needs a Host, except by refusing the
cursor; and no placement fails with the context done while another is still to come. -/
def Uninterrupted (cfg : PendingSweeperConfig) (input : SweepInput) : Prop :=
  (faultOf input.pages cfg.maxPages 0 = some .other → needing cfg input = []) ∧
    (faultOf input.pages cfg.maxPages 0 = none →
      ∀ k, k + 1 < (needing cfg input).length → input.reconciles k ≠ .failed true)

theorem Reads.of_nil {a o : Option Cursor} (h : Reads a [] o) : a = o := by
  cases h
  rfl

theorem Reads.last {a o : Option Cursor} {read : List (Cursor × DuePage)} (h : Reads a read o)
    {last : Cursor × DuePage} (hlast : read.getLast? = some last) : last.2.after = o := by
  induction h with
  | nil o => simp at hlast
  | @cons c page rest o hrest ih =>
    cases rest with
    | nil =>
      simp only [getLast?_singleton, Option.some.injEq] at hlast
      subst hlast
      exact hrest.of_nil
    | cons r rest =>
      exact ih hlast

theorem DuePage.after_getD (page : DuePage) : page.after.getD "" = page.nextCursor := by
  unfold DuePage.after
  split
  · rename_i h
    exact h.symm
  · rfl

/-- What a call of `Sweep` that made a pass did. -/
structure SweepSpec (cfg : PendingSweeperConfig) (s : PendingSweeper) (input : SweepInput)
    (s' : PendingSweeper) (pass : Pass) : Prop where
  begun : ∃ s₁, s.begin cfg input.shards = some (pass.shard, pass.start, s₁) ∧
    s' = s₁.commit pass.shard pass.collected.cursor
  now : pass.now = input.now
  collected : CollectSpec input.now input.pages cfg.maxPages 0 { cursor := pass.start }
    pass.collected
  requests : pass.placed.handed = if pass.collected.fault = none then
    handedOf input.reconciles (pass.collected.order.filter (·.needsHost)) 0 else []

variable {cfg : PendingSweeperConfig} {s' s : PendingSweeper} {input : SweepInput} {pass : Pass}

/-- What a pass reads, keeps and hands over. -/
theorem sweep_spec (h : s.sweep cfg input = (s', some pass)) : SweepSpec cfg s input s' pass := by
  unfold PendingSweeper.sweep at h
  split at h
  · split at h
    · cases h
    · rename_i shard start s₁ hbegin
      cases h
      refine ⟨⟨s₁, hbegin, rfl⟩, rfl, collectPages_spec _ _ _ _ _ _ _ rfl, ?_⟩
      split
      · rw [placeAll_handed]
        rfl
      · rfl
  · cases h

variable (h : SweepSpec cfg s input s' pass)
include h

theorem SweepSpec.handed :
    pass.handed = if pass.collected.fault = none then
      (handedOf input.reconciles (pass.collected.order.filter (·.needsHost)) 0).map (·.key)
      else [] := by
  unfold Pass.handed
  rw [h.requests]
  split <;> rfl

theorem SweepSpec.kept : s'.cursors pass.shard = pass.collected.cursor := by
  obtain ⟨s₁, -, rfl⟩ := h.begun
  simp [PendingSweeper.commit]

/-- A pass reads the pages it is given, up to its bound. -/
theorem SweepSpec.pages : pass.collected.read.map (·.2) = pagesOf input.pages cfg.maxPages 0 := by
  obtain ⟨read, o, hread, hpages, -⟩ := h.collected.read
  rw [hread]
  exact hpages

theorem SweepSpec.kept_last {last : Cursor × DuePage}
    (hlast : pass.collected.read.getLast? = some last) :
    last.2.nextCursor = s'.cursors pass.shard ↔ pass.collected.fault ≠ some .refusedCursor := by
  obtain ⟨read, o, hread, -, hreads, hrefused, hother, -⟩ := h.collected.read
  have hread' : pass.collected.read = read := hread
  rw [hread'] at hlast
  have hafter := hreads.last hlast
  rw [h.kept]
  constructor
  · intro heq href
    obtain ⟨hempty, hsome⟩ := hrefused href
    rw [← hafter] at hsome
    unfold DuePage.after at hsome
    rw [if_pos (heq.trans hempty)] at hsome
    cases hsome
  · intro hne
    rw [hother hne, ← hafter, DuePage.after_getD]

/-- Without a refused cursor, a pass steps over nothing exactly when it handed over every
session that needs a Host. -/
theorem SweepSpec.stepsOverNothing_iff (hfault : pass.collected.fault ≠ some .refusedCursor) :
    pass.StepsOverNothing (s'.cursors pass.shard) ↔
      ∀ t ∈ needing cfg input, t.key ∈ pass.handed := by
  have hinv := inventory_spec input.now (entriesOf (pagesOf input.pages cfg.maxPages 0))
  unfold Pass.StepsOverNothing needing
  rw [h.now, h.pages]
  constructor
  · intro hover t ht
    obtain ⟨hmem, hneeds⟩ := mem_filter.mp ht
    obtain ⟨e, he, hkey⟩ := hinv.entered t hmem
    obtain ⟨page, hpage, hcmd⟩ := mem_flatMap.mp he
    rw [← h.pages] at hpage
    obtain ⟨r, hr, rfl⟩ := mem_map.mp hpage
    cases hlast : pass.collected.read.getLast? with
    | none =>
      rw [getLast?_eq_none_iff.mp hlast] at hr
      cases hr
    | some last =>
      exact hover last hlast ((h.kept_last hlast).mpr hfault) r hr e hcmd t hmem hkey.symm hneeds
  · intro hall last _ _ r _ e _ t ht _ hneeds
    exact hall t (mem_filter.mpr ⟨ht, hneeds⟩)

/-- A pass steps over nothing exactly when it is not interrupted. -/
theorem SweepSpec.uninterrupted_iff :
    pass.StepsOverNothing (s'.cursors pass.shard) ↔ Uninterrupted cfg input := by
  have hfault := h.collected.fault
  unfold Uninterrupted
  rw [← hfault]
  cases hf : pass.collected.fault with
  | none =>
    rw [h.stepsOverNothing_iff (by simp [hf]), h.handed, if_pos hf]
    have hinv := inventory_spec input.now (entriesOf (pagesOf input.pages cfg.maxPages 0))
    have horder : pass.collected.order.filter (·.needsHost) = needing cfg input := by
      rw [h.collected.order hf]
      rfl
    have hnodup : ((needing cfg input).map (·.key)).Nodup :=
      hinv.nodup.sublist (List.Sublist.map _ filter_sublist)
    rw [horder, handedOf_all_iff _ hnodup]
    simp
  | some fault =>
    cases fault with
    | other =>
      rw [h.stepsOverNothing_iff (by simp [hf]), h.handed, if_neg (by simp [hf])]
      simp [eq_nil_iff_forall_not_mem]
    | refusedCursor =>
      refine iff_of_true ?_ (by simp)
      intro last hlast hkept
      exact absurd hf ((h.kept_last hlast).mp hkept)

end Factory.Placement
