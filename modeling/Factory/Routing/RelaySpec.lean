import Factory.Routing.Relay

/-!
# What the relay's helpers do

One inversion lemma for each helper of `Relay.lean`: what it leaves of a binding, and
which of the logs it extends. The invariants of the next modules are proved from these
and never unfold the helpers themselves.
-/

namespace Factory.Routing

open List Factory.Delivery
open DeliveryLog (Item)

variable {Link : Type}

/-! ## Reads and publishes -/

variable (w : World Link)

/-- A tip read fails, or is recorded. -/
theorem World.readTip_cases :
    (∃ w', w.readTip = (none, w') ∧ w'.logs = w.logs) ∨
      ∃ tip w', w.readTip = (some tip, w') ∧
        w'.logs = { w.logs with reads := w.logs.reads ++ [.tip tip] } := by
  unfold World.readTip
  split
  · exact .inl ⟨_, rfl, rfl⟩
  · exact .inl ⟨_, rfl, rfl⟩
  · exact .inr ⟨_, _, rfl, rfl⟩

/-- A tip read takes a tip off the answers, and answers it. -/
theorem World.readTip_tips : w.readTip.2.answers.tips ⊆ w.answers.tips ∧
    ∀ tip, w.readTip.1 = some tip → some tip ∈ w.answers.tips := by
  unfold World.readTip
  split
  · exact ⟨List.Subset.refl _, nofun⟩
  · rename_i htips
    rw [htips]
    exact ⟨subset_cons_self _ _, nofun⟩
  · rename_i tip tips htips
    rw [htips]
    refine ⟨subset_cons_self _ _, fun t ht => ?_⟩
    cases ht
    exact mem_cons_self

@[simp] theorem World.closeLink_reads (link : Link) (reason : String) :
    (w.closeLink link reason).logs.reads = w.logs.reads := rfl

@[simp] theorem World.noteResets_reads (calls : List (ResetCall Link)) :
    (w.noteResets calls).logs.reads = w.logs.reads := rfl

@[simp] theorem closeAll_reads (reason : String) (bs : List (DeliveryBinding Link))
    (w : World Link) : (closeAll reason bs w).logs.reads = w.logs.reads := by
  induction bs generalizing w with
  | nil => rfl
  | cons b bs ih => exact ih _

/-! ## Resets -/

/-- What `resetBindingLocked` leaves of a binding it keeps. -/
structure ResetTo (cfg : Config) (b : DeliveryBinding Link) (tip : Nat)
    (b' : DeliveryBinding Link) : Prop where
  link : b'.link = b.link
  buf : b'.queue.buf = [controlOf (resetOf cfg b tip)]
  queueOpen : b'.queue.closed = false
  log : b'.log = b.log

variable (cfg : Config)

/-- A reset of one binding asks nothing of the store. -/
theorem resetBindingLocked_asks (b : DeliveryBinding Link) (tip : Nat) (w : World Link) :
    (resetBindingLocked cfg b tip w).2.1.logs.reads = w.logs.reads ∧
      (resetBindingLocked cfg b tip w).2.1.answers = w.answers := by
  unfold resetBindingLocked
  dsimp only
  split
  · split <;> exact ⟨rfl, rfl⟩
  · exact ⟨rfl, rfl⟩

/-- What `resetBindingLocked` keeps of a binding is reset to the tip. -/
theorem resetBindingLocked_after {cfg : Config} {b b' : DeliveryBinding Link} {tip : Nat}
    {w : World Link} (h : (resetBindingLocked cfg b tip w).1 = some b') :
    ResetTo cfg b tip b' := by
  unfold resetBindingLocked at h
  dsimp only at h
  split at h
  · split at h
    · rename_i queue hq
      cases h
      unfold Queue.repair at hq
      split at hq
      · simp at hq
      · rename_i hopen
        cases hq
        exact ⟨rfl, rfl, by simpa using hopen, rfl⟩
    · simp at h
  · simp at h

theorem resetAll_reads (tip : Nat) (bs : List (DeliveryBinding Link)) (w : World Link) :
    (resetAll cfg tip bs w).2.1.logs.reads = w.logs.reads := by
  induction bs generalizing w with
  | nil => rfl
  | cons b bs ih => exact (ih _).trans (resetBindingLocked_asks cfg b tip w).1

theorem resetAll_pairs {cfg : Config} {tip : Nat} {bs : List (DeliveryBinding Link)}
    {w : World Link} {pair : DeliveryBinding Link × Option (DeliveryBinding Link)}
    (h : pair ∈ (resetAll cfg tip bs w).1) :
    pair.1 ∈ bs ∧ ∃ w', pair.2 = (resetBindingLocked cfg pair.1 tip w').1 := by
  induction bs generalizing w with
  | nil => simp [resetAll] at h
  | cons b bs ih =>
    simp only [resetAll, mem_cons] at h
    rcases h with rfl | h
    · exact ⟨mem_cons_self, w, rfl⟩
    · obtain ⟨hmem, hafter⟩ := ih h
      exact ⟨mem_cons_of_mem b hmem, hafter⟩

/-- A host binding after every binding was reset to a tip: what is left are reset
bindings with the tail's new position in their logs. -/
theorem resetToTip_spec (path : ResetPath) (h : HostBinding Link) (tip : Nat) (w : World Link) :
    (resetToTip cfg path h tip w).2.1.logs.reads = w.logs.reads ∧
    (resetToTip cfg path h tip w).1.queue = h.queue ∧
    (resetToTip cfg path h tip w).1.stopped = h.stopped ∧
    (resetToTip cfg path h tip w).1.tailKnown = true ∧
    (resetToTip cfg path h tip w).1.tailSeq = tip ∧
    ∀ b' ∈ (resetToTip cfg path h tip w).1.deliveries, ∃ b ∈ h.deliveries, ∃ b'',
      ResetTo cfg b tip b'' ∧ b' = { b'' with log := b''.log ++ [.told tip] } := by
  refine ⟨resetAll_reads cfg tip h.deliveries w, rfl, rfl, rfl, rfl, ?_⟩
  intro b' hb'
  simp only [resetToTip, HostBinding.anchorLocked, mem_map, mem_filterMap] at hb'
  obtain ⟨b'', ⟨pair, hpair, hafter⟩, rfl⟩ := hb'
  obtain ⟨hmem, w', hreset⟩ := resetAll_pairs hpair
  exact ⟨pair.1, hmem, b'', resetBindingLocked_after (hreset.symm.trans hafter), rfl⟩

/-! ## Fan-out -/

/-- A record that fits is queued. -/
theorem fanOutLocked_fits (h : HostBinding Link) {b : DeliveryBinding Link}
    (hopen : b.queue.closed = false) {record : Rec} (w : World Link)
    (hne : (b.queue.enqueue record).2 ≠ some .overflow) : fanOutLocked cfg h b record w =
      (some { b with queue := (b.queue.enqueue record).1 }, w, []) := by
  unfold fanOutLocked
  rcases Queue.enqueue_fits hopen hne with ⟨queue, hq⟩ | hq <;> rw [hq]

/-- One record to one binding: it is queued, or the binding is closed, or it is reset to a tip
the store answered. -/
theorem fanOutLocked_cases (h : HostBinding Link) {b : DeliveryBinding Link}
    (hopen : b.queue.closed = false) (record : Rec) (w : World Link) :
    ((b.queue.enqueue record).2 ≠ some .overflow ∧
      (fanOutLocked cfg h b record w).1 = some { b with queue := (b.queue.enqueue record).1 } ∧
      (fanOutLocked cfg h b record w).2.1 = w) ∨
    (fanOutLocked cfg h b record w).1 = none ∨
    ∃ tip, some tip ∈ w.answers.tips ∧
      (fanOutLocked cfg h b record w).2.1.logs.reads = w.logs.reads ++ [.tip tip] ∧
      ∃ w', (fanOutLocked cfg h b record w).1 = (resetBindingLocked cfg b tip w').1 := by
  by_cases hover : (b.queue.enqueue record).2 = some .overflow
  · unfold fanOutLocked
    rw [(Queue.enqueue_overflow hopen hover).1]
    refine .inr ?_
    have htips := w.readTip_tips.2
    rcases w.readTip_cases with ⟨w', hw, -⟩ | ⟨tip, w', hw, hlogs⟩
    · refine .inl ?_
      simp [hw]
    · rw [hw] at htips
      refine .inr ⟨tip, htips tip rfl, ?_, ?_⟩
      · simp [hw, hlogs, (resetBindingLocked_asks cfg b tip w').1]
      · exact ⟨w', by simp only [hw]⟩
  · rw [fanOutLocked_fits cfg h hopen w hover]
    exact .inl ⟨hover, rfl, rfl⟩

theorem fanOutLocked_tips (h : HostBinding Link) (b : DeliveryBinding Link) (record : Rec)
    (w : World Link) :
    (fanOutLocked cfg h b record w).2.1.answers.tips ⊆ w.answers.tips := by
  have htips := w.readTip_tips.1
  unfold fanOutLocked
  split
  · exact List.Subset.refl _
  · exact List.Subset.refl _
  · split
    · rename_i hr
      rwa [hr] at htips
    · rename_i tip w' hr
      rwa [hr, ← (resetBindingLocked_asks cfg b tip w').2] at htips
  · exact List.Subset.refl _

/-- An overflow of the route queue is repaired. -/
theorem enqueueHost_eq {h : HostBinding Link} (hopen : h.queue.closed = false) (record : Rec)
    (w : World Link) :
    enqueueHost cfg h record w =
      if (h.queue.enqueue record).2 = some .overflow then repair cfg { h with stopped := true } w
      else ({ h with queue := (h.queue.enqueue record).1 }, w, []) := by
  unfold enqueueHost
  by_cases hover : (h.queue.enqueue record).2 = some .overflow
  · rw [if_pos hover, (Queue.enqueue_overflow hopen hover).1]
  · rw [if_neg hover]
    rcases Queue.enqueue_fits hopen hover with ⟨queue, hq⟩ | hq <;> rw [hq]

@[simp] theorem probe_queue (h : HostBinding Link) (seq : Nat) (w : World Link) :
    (probe cfg h seq w).1.queue = h.queue := by
  unfold probe
  split
  · dsimp only
    split
    · unfold resetForGapLocked
      dsimp only
      split <;> rfl
    · rfl
  · rfl

@[simp] theorem HostBinding.raiseTail_queue (h : HostBinding Link) (seq : Nat) :
    (h.raiseTail seq).queue = h.queue := by
  unfold HostBinding.raiseTail
  split <;> rfl

@[simp] theorem HostBinding.raiseTail_deliveries (h : HostBinding Link) (seq : Nat) :
    (h.raiseTail seq).deliveries = h.deliveries := by
  unfold HostBinding.raiseTail
  split <;> rfl

/-! ## The reads only grow -/

theorem World.readTip_extends : w.logs.reads <+: w.readTip.2.logs.reads := by
  rcases w.readTip_cases with ⟨w', hw, hlogs⟩ | ⟨tip, w', hw, hlogs⟩
  · rw [hw, hlogs]
  · rw [hw, hlogs]
    exact prefix_append _ _

variable (cfg : Config) (h : HostBinding Link)

theorem fanOutLocked_extends (b : DeliveryBinding Link) (record : Rec) (w : World Link) :
    w.logs.reads <+: (fanOutLocked cfg h b record w).2.1.logs.reads := by
  unfold fanOutLocked
  split
  · exact prefix_rfl
  · exact prefix_rfl
  · have hw := w.readTip_extends
    split
    · rename_i hr
      rwa [hr] at hw
    · rename_i hr
      rw [hr] at hw
      simpa [(resetBindingLocked_asks ..).1] using hw
  · exact prefix_rfl

theorem fanOutAll_extends (record : Rec) (bs : List (DeliveryBinding Link)) (w : World Link) :
    w.logs.reads <+: (fanOutAll cfg h record bs w).2.1.logs.reads := by
  induction bs generalizing w with
  | nil => exact prefix_rfl
  | cons b bs ih => exact (fanOutLocked_extends cfg h b record w).trans (ih _)

theorem fanOutQueue_extends (n : Nat) (h : HostBinding Link) (w : World Link) :
    w.logs.reads <+: (fanOutQueue cfg n h w).2.1.logs.reads := by
  induction n generalizing h w with
  | zero => exact prefix_rfl
  | succ n ih =>
    unfold fanOutQueue
    split
    · exact prefix_rfl
    · exact (fanOutAll_extends cfg _ _ _ w).trans (ih _ _)

@[simp] theorem DeliveryBinding.advance_queue (b : DeliveryBinding Link) (record : Rec) :
    (b.advance record).queue = b.queue := by
  unfold DeliveryBinding.advance
  split <;> rfl

@[simp] theorem DeliveryBinding.advance_link (b : DeliveryBinding Link) (record : Rec) :
    (b.advance record).link = b.link := by
  unfold DeliveryBinding.advance
  split <;> rfl

@[simp] theorem DeliveryBinding.advance_log (b : DeliveryBinding Link) (record : Rec) :
    (b.advance record).log = b.log ++ (itemOf record).toList := by
  unfold DeliveryBinding.advance
  split <;> rfl

@[simp] theorem drainLocked_reads (n : Nat) (b : DeliveryBinding Link) (w : World Link) :
    (drainLocked n b w).2.1.logs.reads = w.logs.reads := by
  induction n generalizing b w with
  | zero => rfl
  | succ n ih =>
    simp only [drainLocked]
    split
    · rfl
    · rename_i record queue _
      have hw : (w.publish b.link record).2.logs.reads = w.logs.reads := rfl
      rcases hp : w.publish b.link record with ⟨answer, w'⟩
      rw [hp] at hw
      cases answer with
      | ok => exact (ih _ _).trans hw
      | wouldBlock => exact hw
      | failed => exact hw

@[simp] theorem drainAll_reads (bs : List (DeliveryBinding Link)) (w : World Link) :
    (drainAll bs w).2.1.logs.reads = w.logs.reads := by
  induction bs generalizing w with
  | nil => rfl
  | cons b bs ih =>
    simp only [drainAll]
    rw [ih, drainLocked_reads]

/-- `Pump` only adds to what was read. -/
theorem pumpHost_extends (w : World Link) : w.logs.reads <+: (pumpHost cfg h w).2.1.logs.reads := by
  simp only [pumpHost, drainAll_reads]
  exact fanOutQueue_extends cfg _ h w

/-- What `Resync` and a repair do: every link is closed when the tip cannot be read, and every
binding is reset to the tip when it is. -/
inductive Restart (cfg : Config) (path : ResetPath) (stopped : Bool) (h : HostBinding Link)
    (w : World Link) : HostBinding Link → World Link → Prop where
  | closed {w' : World Link} (reason : String) (hlogs : w'.logs = w.logs) :
      Restart cfg path stopped h w
        { h with deliveries := [], queue := h.queue.clear, stopped := stopped }
        (closeAll reason h.deliveries w')
  | reset {w' : World Link} (tip : Nat)
      (hlogs : w'.logs = { w.logs with reads := w.logs.reads ++ [.tip tip] }) :
      Restart cfg path stopped h w
        { (resetToTip cfg path h tip w').1 with queue := h.queue.clear, stopped := stopped }
        (resetToTip cfg path h tip w').2.1

/-- A repair restarts every binding. -/
theorem repair_restart (w : World Link) :
    Restart cfg .repair false h w (repair cfg h w).1 (repair cfg h w).2.1 := by
  unfold repair
  rcases w.readTip_cases with ⟨w', hw, hlogs⟩ | ⟨tip, w', hw, hlogs⟩
  · simp only [hw]
    exact .closed _ hlogs
  · simp only [hw]
    exact .reset tip hlogs

/-- `Resync` restarts every binding. -/
theorem resyncHost_restart (w : World Link) :
    Restart cfg .resync h.stopped h w (resyncHost cfg h w).1 (resyncHost cfg h w).2.1 := by
  unfold resyncHost
  rcases w.readTip_cases with ⟨w', hw, hlogs⟩ | ⟨tip, w', hw, hlogs⟩
  · simp only [hw]
    exact .closed _ hlogs
  · simp only [hw]
    exact .reset tip hlogs

/-- A restart only adds reads. -/
theorem Restart.extends {cfg : Config} {path : ResetPath} {stopped : Bool}
    {h h' : HostBinding Link} {w w' : World Link} (hr : Restart cfg path stopped h w h' w') :
    w.logs.reads <+: w'.logs.reads := by
  cases hr with
  | closed reason hlogs => rw [closeAll_reads, hlogs]
  | @reset w' tip hlogs =>
    rw [(resetToTip_spec cfg path h tip w').1, hlogs]
    exact prefix_append _ _

theorem gapTip_extends (tip : Nat) (probeErr : Bool) (w : World Link) :
    w.logs.reads <+: (gapTip tip probeErr w).2.logs.reads := by
  unfold gapTip
  split
  · have hw := w.readTip_extends
    split
    · rename_i hr
      rwa [hr] at hw
    · rename_i hr
      rwa [hr] at hw
  · exact prefix_rfl

theorem resetForGapLocked_extends (seq tip : Nat) (probeErr : Bool) (w : World Link) :
    w.logs.reads <+: (resetForGapLocked cfg h seq tip probeErr w).2.logs.reads := by
  have hg := gapTip_extends tip probeErr w
  unfold resetForGapLocked
  dsimp only
  split
  · simpa using hg
  · simpa [(resetToTip_spec cfg .gap h _ _).1] using hg

theorem probeGap_extends (last seq : Nat) (w : World Link) :
    w.logs.reads <+: (probeGap cfg last seq w).2.logs.reads := by
  unfold probeGap
  split
  · exact prefix_rfl
  · split <;> exact prefix_append _ _

theorem probe_extends (seq : Nat) (w : World Link) :
    w.logs.reads <+: (probe cfg h seq w).2.logs.reads := by
  unfold probe
  split
  · dsimp only
    split
    · exact (probeGap_extends cfg h.tailSeq seq w).trans (resetForGapLocked_extends ..)
    · exact probeGap_extends cfg h.tailSeq seq w
  · exact prefix_rfl

theorem enqueueHost_extends (record : Rec) (w : World Link) :
    w.logs.reads <+: (enqueueHost cfg h record w).2.1.logs.reads := by
  unfold enqueueHost
  split
  · exact prefix_rfl
  · exact prefix_rfl
  · exact (repair_restart cfg _ w).extends
  · exact prefix_rfl

/-- `Receive` only adds to what was read. -/
theorem receiveHost_extends (record : Rec) (w : World Link) :
    w.logs.reads <+: (receiveHost cfg h record w).2.1.logs.reads := by
  unfold receiveHost
  split
  · have hsent : w.logs.reads <+: (w.noteSent record.seq).logs.reads := prefix_append _ _
    exact hsent.trans ((probe_extends cfg h record.seq _).trans (enqueueHost_extends ..))
  · exact enqueueHost_extends cfg h record w

end Factory.Routing
