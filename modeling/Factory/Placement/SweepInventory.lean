import Factory.Placement.Attach
import Factory.Placement.SweepCycle

/-!
# What a pass tells the placer about a session

`placePooled` filters Hosts by what the request requires (`Request.requiring`): gate responses,
payload references and commands that carry a principal. A pass lists what it read, and it reads a
bounded run of pages from the position it resumes at, so a session whose commands lie on pages
before that position or behind the last page read is handed over with part of its inventory.
`whole_inventory_iff` says exactly when every request of a pass is whole.
-/

namespace Factory.Placement

open List

/-! ## What the pages list -/

/-- The live command requires the capability. A claimed command requires no more than that its
principal is carried. -/
def InboxEntry.requires (e : InboxEntry) (now : Int) : Capability → Bool
  | .gateResponses => e.state == .pending && e.live now && e.descriptor.kind == .gateResponse
  | .payloadReferences =>
    e.state == .pending && e.live now && e.descriptor.payloadObject &&
      (e.descriptor.kind == .createSession || e.descriptor.kind == .input)
  | .commandPrincipal =>
    (e.state == .pending || e.state == .claimed) && e.live now &&
      (e.descriptor.principal || e.descriptor.metadata)

/-- The list of a session for a capability. -/
def OpenSession.lists (s : OpenSession) : Capability → List CommandID
  | .gateResponses => s.gates
  | .payloadReferences => s.references
  | .commandPrincipal => s.principals

theorem OpenSession.add_lists (s : OpenSession) (e : InboxEntry) (now : Int) (k : Capability) :
    (s.add e now).lists k =
      s.lists k ++ if e.requires now k then [e.descriptor.command] else [] := by
  have happend (p : Prop) [Decidable p] (l : List CommandID) (c : CommandID) :
      (if p then l ++ [c] else l) = l ++ if p then [c] else [] := by
    split
    · rfl
    · exact (append_nil l).symm
  unfold OpenSession.add
  cases hstate : e.state with
  | pending =>
    cases hlive : e.live now with
    | false => cases k <;> simp [InboxEntry.requires, hstate, hlive]
    | true =>
      cases k <;> simp [OpenSession.lists, InboxEntry.requires, hstate, hlive, happend]
  | claimed =>
    cases hlive : e.live now with
    | false => cases k <;> simp [InboxEntry.requires, hstate, hlive]
    | true => cases k <;> simp [OpenSession.lists, InboxEntry.requires, hstate, hlive, happend]
  | applying => cases k <;> simp [OpenSession.lists, InboxEntry.requires, hstate]
  | terminal => cases k <;> simp [InboxEntry.requires, hstate]

/-- Each session of an inventory lists its entries and nothing else. -/
structure Lists (now : Int) (entries : List InboxEntry) (order : List OpenSession) : Prop where
  inventory : Inventory now entries order
  listed : ∀ s ∈ order, ∀ k c, c ∈ s.lists k ↔
    ∃ e ∈ entries, e.key = s.key ∧ e.requires now k = true ∧ e.descriptor.command = c

theorem Lists.addEntry {now : Int} {entries : List InboxEntry} {order : List OpenSession}
    (h : Lists now entries order) (e : InboxEntry) :
    Lists now (entries ++ [e]) (addEntry now order e) := by
  refine ⟨h.inventory.addEntry e, ?_⟩
  -- what one more entry adds to a list
  have hone (k : Capability) (c : CommandID) (key : SessionKey) :
      (∃ e' ∈ entries ++ [e], e'.key = key ∧ e'.requires now k = true ∧ e'.descriptor.command = c) ↔
        (∃ e' ∈ entries, e'.key = key ∧ e'.requires now k = true ∧ e'.descriptor.command = c) ∨
        (e.key = key ∧ e.requires now k = true ∧ e.descriptor.command = c) := by
    simp only [mem_append, mem_singleton, or_and_right, exists_or, exists_eq_left]
  have hadded (k : Capability) (c : CommandID) :
      c ∈ (if e.requires now k then [e.descriptor.command] else []) ↔
        e.requires now k = true ∧ e.descriptor.command = c := by
    split
    next hreq => simp [hreq, eq_comm]
    next hreq => simp [hreq]
  unfold Placement.addEntry
  split
  · intro s' hs' k c
    obtain ⟨s, hs, rfl⟩ := mem_map.mp hs'
    rw [hone]
    by_cases hkey : s.key = e.key
    · rw [if_pos hkey, OpenSession.add_lists, OpenSession.add_key, mem_append, hadded,
        h.listed s hs]
      exact or_congr_right (and_iff_right hkey.symm).symm
    · rw [if_neg hkey, h.listed s hs]
      exact (or_iff_left fun hnew => hkey hnew.1.symm).symm
  next hany =>
    have hnew : ∀ s ∈ order, s.key ≠ e.key := by simpa using hany
    intro s hs k c
    rw [hone]
    rcases mem_append.mp hs with hs | hs
    · rw [h.listed s hs]
      exact (or_iff_left fun hadd => hnew s hs hadd.1.symm).symm
    · rw [mem_singleton.mp hs, OpenSession.add_lists, OpenSession.add_key, mem_append, hadded]
      constructor
      · rintro (hold | hadd)
        · cases k <;> cases hold
        · exact .inr ⟨rfl, hadd⟩
      · rintro (⟨e', he', hkey, -⟩ | ⟨-, hadd⟩)
        · obtain ⟨s', hs', hkey'⟩ := h.inventory.listed e' he'
          exact absurd (hkey'.trans hkey) (hnew s' hs')
        · exact .inr hadd

theorem inventory_lists (now : Int) (entries : List InboxEntry) :
    Lists now entries (inventory now entries) :=
  inventory_induction ⟨inventory_nil now, by simp⟩ (fun _ _ e h => h.addEntry e) entries

/-! ## What is handed over -/

/-- A request is made for each session in turn, up to the first placement that fails with the
context done. -/
theorem mem_handedOf {answers : Nat → ReconcileAnswer} {sessions : List OpenSession} {i : Nat}
    {r : Request} :
    r ∈ handedOf answers sessions i ↔
      ∃ k t, sessions[k]? = some t ∧ (∀ j < k, answers (i + j) ≠ .failed true) ∧ r = t.request := by
  induction sessions generalizing i with
  | nil => simp [handedOf]
  | cons s rest ih =>
    rw [handedOf, mem_cons]
    constructor
    · rintro (rfl | hr)
      · exact ⟨0, s, rfl, fun j hj => absurd hj (Nat.not_lt_zero j), rfl⟩
      · split at hr
        · cases hr
        next hgo =>
          obtain ⟨k, t, ht, hbefore, rfl⟩ := ih.mp hr
          refine ⟨k + 1, t, ht, ?_, rfl⟩
          intro j hj
          cases j with
          | zero => exact hgo
          | succ j =>
            have := hbefore j (by omega)
            rwa [Nat.add_assoc, Nat.add_comm 1] at this
    · rintro ⟨k, t, ht, hbefore, rfl⟩
      cases k with
      | zero =>
        cases ht
        exact .inl rfl
      | succ k =>
        have hgo : answers i ≠ .failed true := hbefore 0 (Nat.succ_pos k)
        right
        rw [if_neg hgo]
        refine ih.mpr ⟨k, t, ht, ?_, rfl⟩
        intro j hj
        rw [Nat.add_assoc, Nat.add_comm 1]
        exact hbefore (j + 1) (by omega)

/-! ## The whole inventory -/

/-- The command has a row on some page of the view. -/
def OnView (view : Cursor → DuePage) (e : InboxEntry) : Prop :=
  ∃ i c, pageAt view i = some c ∧ e ∈ (view c).commands

/-- The request lists every command of its session on the view, for each capability the command
requires. -/
def Request.Whole (r : Request) (view : Cursor → DuePage) (now : Int) : Prop :=
  ∀ e, OnView view e → e.key = r.key → ∀ k, e.requires now k = true →
    e.descriptor.command ∈ r.requiring k

/-- The pages a pass can read hold, for every session on them that it gets to place, all of the
session's commands on the view that require something of a Host. -/
def Unsplit (cfg : PendingSweeperConfig) (input : SweepInput) (view : Cursor → DuePage) : Prop :=
  faultOf input.pages cfg.maxPages 0 = none →
    ∀ i t, (needing cfg input)[i]? = some t → (∀ j < i, input.reconciles j ≠ .failed true) →
      ∀ e, OnView view e → e.key = t.key → ∀ k, e.requires input.now k = true →
        ∃ e' ∈ entriesOf (pagesOf input.pages cfg.maxPages 0), e'.key = t.key ∧
          e'.requires input.now k = true ∧ e'.descriptor.command = e.descriptor.command

/-- **The whole inventory.** Every request a pass hands to the placer lists the whole inventory
of its session exactly when the pages it can read split no session it gets to place. -/
theorem whole_inventory_iff (cfg : PendingSweeperConfig) (s s' : PendingSweeper)
    (input : SweepInput) (pass : Pass) (view : Cursor → DuePage)
    (hsweep : s.sweep cfg input = (s', some pass)) :
    (∀ r ∈ pass.placed.handed, r.Whole view input.now) ↔ Unsplit cfg input view := by
  have hspec := sweep_spec hsweep
  have hlists := inventory_lists input.now (entriesOf (pagesOf input.pages cfg.maxPages 0))
  have hneeding : ∀ {i : Nat} {t : OpenSession}, (needing cfg input)[i]? = some t →
      t ∈ inventory input.now (entriesOf (pagesOf input.pages cfg.maxPages 0)) := by
    intro i t ht
    exact (mem_filter.mp (mem_of_getElem? ht)).1
  -- the requests are those of the sessions on the pages read, as far as the pass gets
  have hhanded (r : Request) : r ∈ pass.placed.handed ↔
      faultOf input.pages cfg.maxPages 0 = none ∧ ∃ i t, (needing cfg input)[i]? = some t ∧
        (∀ j < i, input.reconciles j ≠ .failed true) ∧ r = t.request := by
    rw [hspec.requests, ← hspec.collected.fault]
    split
    next hnone =>
      have horder : pass.collected.order.filter (·.needsHost) = needing cfg input := by
        rw [hspec.collected.order hnone]
        rfl
      rw [horder, mem_handedOf]
      simp only [Nat.zero_add, hnone, true_and]
    next hsome => simp [hsome]
  constructor
  · intro hwhole hnone i t ht hbefore e he hkey k hreq
    have hmem := hwhole t.request ((hhanded _).mpr ⟨hnone, i, t, ht, hbefore, rfl⟩) e he hkey k hreq
    exact (hlists.listed t (hneeding ht) k _).mp hmem
  · intro hunsplit r hr e he hkey k hreq
    obtain ⟨hnone, i, t, ht, hbefore, rfl⟩ := (hhanded r).mp hr
    exact (hlists.listed t (hneeding ht) k _).mpr (hunsplit hnone i t ht hbefore e he hkey k hreq)

theorem unsplit_of_whole_view {cfg : PendingSweeperConfig} {s s' : PendingSweeper}
    {input : SweepInput} {pass : Pass} {view : Cursor → DuePage}
    (hsweep : s.sweep cfg input = (s', some pass)) (hview : pass.Unchanging view pass.shard)
    (hstart : pass.start = "") (hend : pass.ReachedEnd) : Unsplit cfg input view := by
  intro _ i t _ _ e he hkey k hreq
  have hspec := sweep_spec hsweep
  refine ⟨e, ?_, hkey, hreq, rfl⟩
  obtain ⟨j, c, hplace, hmem⟩ := he
  obtain ⟨read, o, hread, -, hreads, -, hcursor, -⟩ := hspec.collected.read
  have hread' : pass.collected.read = read := hread
  subst hread'
  have hnone : o = none :=
    hspec.end_reached hend hreads (hcursor (by rw [hend.1]; exact fun h => nomatch h))
  -- every page of the view was visited
  have hvisits := hreads.visits (hview rfl)
  have hhead : pageAt view 0 = some pass.start := by rw [hstart]; rfl
  have hreached : pageAt view (0 + _) = o := hvisits.reached hhead
  have hj : j < 0 + (pass.collected.read.map (·.1)).length := by
    by_contra hpast
    rw [hnone] at hreached
    rw [pageAt, Walk.place_none_of_le hreached (Nat.le_of_not_lt hpast)] at hplace
    cases hplace
  obtain ⟨r, hr, rfl⟩ := mem_map.mp (hvisits.place_mem hhead (Nat.zero_le j) hj hplace)
  rw [← hview rfl r hr] at hmem
  rw [← hspec.pages]
  exact mem_flatMap.mpr ⟨r.2, mem_map_of_mem hr, hmem⟩

/-! ## A session on two pages -/

/-- A session with an input on the first page and the answer to a gate on the second. -/
def splitSession (c : Cursor) : DuePage :=
  let entry (command : CommandID) (kind : CommandKind) : InboxEntry :=
    { descriptor := { tenant := "t", session := "s", command := command, kind := kind }
      state := .pending, applyDeadline := 10 }
  if c = "" then { commands := [entry "input" .input], nextCursor := "page-2" }
  else { commands := [entry "answer" .gateResponse] }

/-- The store's answers to a pass over it from the head. -/
def splitPages (i : Nat) : Except PageFault DuePage :=
  .ok (splitSession (if i = 0 then "" else "page-2"))

/-- A pass of two pages reads the whole view. -/
theorem whole_inventory_iff_splitSession :
    ∃ s' pass, PendingSweeper.sweep (pagesAPass 2 (by decide)) {} (passOver splitPages) =
        (s', some pass) ∧ pass.Unchanging splitSession pass.shard ∧
      pass.placed.handed.map (·.gateResponses) = [["answer"]] ∧
      ∀ r ∈ pass.placed.handed, r.Whole splitSession 0 := by
  have hpass : ∃ s' pass, PendingSweeper.sweep (pagesAPass 2 (by decide)) {}
      (passOver splitPages) = (s', some pass) ∧ pass.Unchanging splitSession pass.shard ∧
        pass.start = "" ∧ pass.ReachedEnd ∧
        pass.placed.handed.map (·.gateResponses) = [["answer"]] := by
    refine ⟨_, _, rfl, ?_⟩
    simp only [Pass.Unchanging, Pass.ReachedEnd]
    decide +kernel
  obtain ⟨s', pass, hsweep, hview, hstart, hend, hhanded⟩ := hpass
  exact ⟨s', pass, hsweep, hview, hhanded, (whole_inventory_iff _ _ _ _ _ splitSession hsweep).mpr
    (unsplit_of_whole_view hsweep hview hstart hend)⟩

/-- A pass of one page hands the session over without the answer it has pending. -/
theorem split_session_handed_in_part :
    ∃ s' pass, PendingSweeper.sweep (pagesAPass 1 (by decide)) {} (passOver splitPages) =
        (s', some pass) ∧ pass.Unchanging splitSession pass.shard ∧
      pass.placed.handed.map (·.gateResponses) = [[]] ∧
      ¬ ∀ r ∈ pass.placed.handed, r.Whole splitSession 0 := by
  have hpass : ∃ s' pass, PendingSweeper.sweep (pagesAPass 1 (by decide)) {}
      (passOver splitPages) = (s', some pass) ∧ pass.Unchanging splitSession pass.shard ∧
        pass.placed.handed = [⟨⟨"t", "s"⟩, ["input"], [], [], [], false⟩] := by
    refine ⟨_, _, rfl, ?_⟩
    simp only [Pass.Unchanging]
    decide +kernel
  obtain ⟨s', pass, hsweep, hview, hhanded⟩ := hpass
  refine ⟨s', pass, hsweep, hview, by rw [hhanded]; rfl, ?_⟩
  intro hwhole
  have hmem := hwhole _ (by rw [hhanded]; exact mem_cons_self) _
    ⟨1, "page-2", rfl, mem_cons_self⟩ rfl .gateResponses rfl
  cases hmem

end Factory.Placement
