import Factory.Routing.RelayLanes

/-!
# One client never changes what its peers receive

Two runs of one call sequence that differ only in how the transport answers link `A`. Between
calls the two sessions are `Alike A`: they share the route queue and the tail position, and hold
the same bindings and the same history for every link but `A`. Each call keeps this, because its
work is done binding by binding (`RelayLanes`), so at no point does a peer of `A` see a
difference (`peers_unaffected`).
-/

namespace Factory.Routing

open List Factory.Delivery Lanes

variable {Link : Type} [LinearOrder Link]

/-! ## Alike but for one link -/

/-- The two environments differ at most in the transport's answers for `A`. -/
structure Environment.AgreeExcept (A : Link) (e e' : Environment Link) : Prop where
  tip : e.tip = e'.tip
  page : e.page = e'.page
  publish : ∀ link, link ≠ A → e.publish link = e'.publish link
  stopOk : e.stopOk = e'.stopOk
  rebindOk : e.rebindOk = e'.rebindOk
  resumeOk : e.resumeOk = e'.resumeOk

/-- Bindings alike but for those of `A`, in link order on both sides. -/
structure BindingsAlike (A : Link) (bs bs' : List (DeliveryBinding Link)) : Prop where
  same : others DeliveryBinding.link A bs = others DeliveryBinding.link A bs'
  sorted : bs.Pairwise fun b c => b.link < c.link
  sorted' : bs'.Pairwise fun b c => b.link < c.link

structure HostAlike (A : Link) (h h' : HostBinding Link) : Prop where
  queue : h.queue = h'.queue
  stopped : h.stopped = h'.stopped
  tailSeq : h.tailSeq = h'.tailSeq
  tailKnown : h.tailKnown = h'.tailKnown
  bindings : BindingsAlike A h.deliveries h'.deliveries

structure LogsAlike (A : Link) (l l' : Logs Link) : Prop where
  calls : others PublisherCall.link A l.calls = others PublisherCall.link A l'.calls
  resets : others ResetCall.link A l.resets = others ResetCall.link A l'.resets

/-- The two sessions differ at most in what belongs to `A`. -/
structure Alike (A : Link) (σ σ' : Session Link) : Prop where
  closed : σ.closed = σ'.closed
  foreign : σ.foreign = σ'.foreign
  host : Option.Rel (HostAlike A) σ.host σ'.host
  logs : LogsAlike A σ.logs σ'.logs

variable {A : Link} {t : Option Nat} {n n' : Nat} {w v w' v' : World Link}

theorem bindingsAlike_nil : BindingsAlike A ([] : List (DeliveryBinding Link)) [] :=
  ⟨rfl, List.Pairwise.nil, List.Pairwise.nil⟩

variable {bs' bs : List (DeliveryBinding Link)}

theorem BindingsAlike.flatMap (h : BindingsAlike A bs bs')
    {f f' : DeliveryBinding Link → Option (DeliveryBinding Link)}
    (hf : ∀ b c, f b = some c → c.link = b.link) (hf' : ∀ b c, f' b = some c → c.link = b.link)
    (hff' : ∀ b, b.link ≠ A → f b = f' b) :
    BindingsAlike A (bs.flatMap fun b => (f b).toList) (bs'.flatMap fun b => (f' b).toList) where
  same := by
    refine flatMap_congr_others ?_ ?_ ?_ h.same
    · intro b c hc
      exact hf b c (Option.mem_toList.mp hc)
    · intro b c hc
      exact hf' b c (Option.mem_toList.mp hc)
    · intro b hb
      rw [hff' b hb]
  sorted := sorted_flatMap hf h.sorted
  sorted' := sorted_flatMap hf' h.sorted'

theorem LogsAlike.extends {calls calls' : List (PublisherCall Link)}
    {resets resets' : List (ResetCall Link)} (hlogs : LogsAlike A w.logs w'.logs)
    (h : Extends t n w v calls resets) (h' : Extends t n' w' v' calls' resets')
    (hcalls : others PublisherCall.link A calls = others PublisherCall.link A calls')
    (hresets : others ResetCall.link A resets = others ResetCall.link A resets') :
    LogsAlike A v.logs v'.logs where
  calls := by
    rw [h.calls, h'.calls]
    exact append_congr_others hlogs.calls hcalls
  resets := by
    rw [h.resets, h'.resets]
    exact append_congr_others hlogs.resets hresets

/-- What two calls on alike hosts leave. -/
structure Outcome (A : Link) (t : Option Nat) (n n' : Nat) (h h' : HostBinding Link)
    (w w' : World Link) : Prop where
  host : HostAlike A h h'
  logs : LogsAlike A w.logs w'.logs
  tips : Tips t n w
  tips' : Tips t n' w'

/-! ## Closing and resetting -/

variable {h' h : HostBinding Link}

theorem closeAll_alike (ho : Outcome A t n n' h h' w w') (reason : String) :
    Outcome A t n n' { h with deliveries := [] } { h' with deliveries := [] }
      (closeAll reason h.deliveries w) (closeAll reason h'.deliveries w') := by
  have hext := closeAll_extends ho.tips reason h.deliveries
  have hext' := closeAll_extends ho.tips' reason h'.deliveries
  refine ⟨⟨ho.host.queue, ho.host.stopped, ho.host.tailSeq, ho.host.tailKnown,
    bindingsAlike_nil⟩, ho.logs.extends hext hext' ?_ rfl, hext.tips, hext'.tips⟩
  exact map_congr_others (fun _ => rfl) ho.host.bindings.same

variable (cfg : Config)

theorem resetToTip_alike (path : ResetPath) (tip : Nat) (ho : Outcome A t n n' h h' w w') :
    Outcome A t n n' (resetToTip cfg path h tip w).1 (resetToTip cfg path h' tip w').1
      (resetToTip cfg path h tip w).2.1 (resetToTip cfg path h' tip w').2.1 := by
  obtain ⟨hhost, hext⟩ := resetToTip_lanes ho.tips cfg path h tip
  obtain ⟨hhost', hext'⟩ := resetToTip_lanes ho.tips' cfg path h' tip
  refine ⟨?_, ho.logs.extends hext hext' ?_ ?_, hext.tips, hext'.tips⟩
  · rw [hhost, hhost']
    exact ⟨ho.host.queue, ho.host.stopped, rfl, rfl, ho.host.bindings.flatMap
      (tellLane_link cfg tip) (tellLane_link cfg tip) fun _ _ => rfl⟩
  · exact flatMap_congr_others (fun b => (resetLane_link cfg tip b).2)
      (fun b => (resetLane_link cfg tip b).2) (fun _ _ => rfl) ho.host.bindings.same
  · exact map_congr_others (fun _ => rfl) ho.host.bindings.same

/-! ## Repairs and gaps -/

theorem Outcome.readTip (ho : Outcome A t (n + 1) (n' + 1) h h' w w') :
    ∃ v v', w.readTip = (t, v) ∧ w'.readTip = (t, v') ∧ Outcome A t n n' h h' v v' := by
  obtain ⟨v, hv, hext⟩ := readTip_eq ho.tips
  obtain ⟨v', hv', hext'⟩ := readTip_eq ho.tips'
  exact ⟨v, v', hv, hv', ho.host, ho.logs.extends hext hext' rfl rfl, hext.tips, hext'.tips⟩

theorem Outcome.mono {m m' : Nat} (ho : Outcome A t n n' h h' w w') (hm : m ≤ n) (hm' : m' ≤ n') :
    Outcome A t m m' h h' w w' :=
  ⟨ho.host, ho.logs, ho.tips.mono hm, ho.tips'.mono hm'⟩

theorem Outcome.route (ho : Outcome A t n n' h h' w w') {queue queue' : Queue Encoded}
    {stopped stopped' : Bool} (hqueue : queue = queue') (hstopped : stopped = stopped') :
    Outcome A t n n' { h with queue := queue, stopped := stopped }
      { h' with queue := queue', stopped := stopped' } w w' :=
  ⟨⟨hqueue, hstopped, ho.host.tailSeq, ho.host.tailKnown, ho.host.bindings⟩, ho.logs, ho.tips,
    ho.tips'⟩

theorem repair_alike (ho : Outcome A t (n + 1) (n' + 1) h h' w w') :
    Outcome A t n n' (repair cfg h w).1 (repair cfg h' w').1
      (repair cfg h w).2.1 (repair cfg h' w').2.1 := by
  obtain ⟨v, v', hv, hv', hread⟩ := ho.readTip
  simp only [repair, hv, hv']
  cases t with
  | none =>
    have hclosed := closeAll_alike hread "repair tip unavailable"
    exact hclosed.route (congrArg Queue.clear ho.host.queue) rfl
  | some tip =>
    have hreset := resetToTip_alike cfg .repair tip hread
    exact hreset.route (congrArg Queue.clear hreset.host.queue) rfl

theorem resyncHost_alike (ho : Outcome A t (n + 1) (n' + 1) h h' w w') :
    Outcome A t n n' (resyncHost cfg h w).1 (resyncHost cfg h' w').1
      (resyncHost cfg h w).2.1 (resyncHost cfg h' w').2.1 := by
  obtain ⟨v, v', hv, hv', hread⟩ := ho.readTip
  simp only [resyncHost, hv, hv']
  cases t with
  | none =>
    have hclosed := closeAll_alike hread "resync tip unavailable"
    exact hclosed.route (congrArg Queue.clear ho.host.queue) ho.host.stopped
  | some tip =>
    have hreset := resetToTip_alike cfg .resync tip hread
    exact hreset.route (congrArg Queue.clear hreset.host.queue) hreset.host.stopped

theorem BindingsAlike.map (h : BindingsAlike A bs bs')
    {f : DeliveryBinding Link → DeliveryBinding Link} (hf : ∀ b, (f b).link = b.link) :
    BindingsAlike A (bs.map f) (bs'.map f) where
  same := map_congr_others hf h.same
  sorted := h.sorted.map f fun b c hbc => by rwa [hf, hf]
  sorted' := h.sorted'.map f fun b c hbc => by rwa [hf, hf]

theorem probeGap_alike (last seq : Nat) (ho : Outcome A t n n' h h' w w')
    (hpage : w.answers.page = w'.answers.page) :
    (probeGap cfg last seq w).1 = (probeGap cfg last seq w').1 ∧
      Outcome A t n n' h h' (probeGap cfg last seq w).2 (probeGap cfg last seq w').2 := by
  simp only [probeGap, ← hpage]
  cases w.answers.page with
  | none => exact ⟨rfl, ho⟩
  | some page =>
    dsimp only
    split
    · exact ⟨rfl, ho.host, ⟨ho.logs.calls, ho.logs.resets⟩, ho.tips, ho.tips'⟩
    · exact ⟨rfl, ho.host, ⟨ho.logs.calls, ho.logs.resets⟩, ho.tips, ho.tips'⟩

theorem gapTip_alike (tip : Nat) (probeErr : Bool) (ho : Outcome A t (n + 1) (n' + 1) h h' w w') :
    (gapTip tip probeErr w).1 = (gapTip tip probeErr w').1 ∧
      Outcome A t n n' h h' (gapTip tip probeErr w).2 (gapTip tip probeErr w').2 := by
  obtain ⟨v, v', hv, hv', hread⟩ := ho.readTip
  cases probeErr with
  | false => exact ⟨rfl, ho.mono (Nat.le_succ n) (Nat.le_succ n')⟩
  | true =>
    simp only [gapTip, if_true, hv, hv']
    cases t <;> exact ⟨rfl, hread⟩

theorem resetForGapLocked_alike (seq tip : Nat) (probeErr : Bool)
    (ho : Outcome A t (n + 1) (n' + 1) h h' w w') :
    Outcome A t n n' (resetForGapLocked cfg h seq tip probeErr w).1
      (resetForGapLocked cfg h' seq tip probeErr w').1
      (resetForGapLocked cfg h seq tip probeErr w).2
      (resetForGapLocked cfg h' seq tip probeErr w').2 := by
  obtain ⟨htip, hread⟩ := gapTip_alike tip probeErr ho
  simp only [resetForGapLocked, ← htip]
  split
  · have hclosed := closeAll_alike hread "a gap in the tail cannot be repaired from the journal tip"
    exact ⟨⟨hclosed.host.queue, hclosed.host.stopped, hclosed.host.tailSeq, rfl,
      hclosed.host.bindings⟩, hclosed.logs, hclosed.tips, hclosed.tips'⟩
  · exact resetToTip_alike cfg .gap _ hread

theorem probe_alike (seq : Nat) (ho : Outcome A t (n + 1) (n' + 1) h h' w w')
    (hpage : w.answers.page = w'.answers.page) :
    Outcome A t n n' (probe cfg h seq w).1 (probe cfg h' seq w').1
      (probe cfg h seq w).2 (probe cfg h' seq w').2 := by
  simp only [probe, ← ho.host.tailKnown, ← ho.host.tailSeq]
  split
  · obtain ⟨hanswer, hprobed⟩ := probeGap_alike cfg h.tailSeq seq ho hpage
    simp only [← hanswer]
    split
    · exact resetForGapLocked_alike cfg seq _ _ hprobed
    · exact hprobed.mono (Nat.le_succ n) (Nat.le_succ n')
  · exact ho.mono (Nat.le_succ n) (Nat.le_succ n')

theorem raiseTail_alike (seq : Nat) (ho : Outcome A t n n' h h' w w') :
    Outcome A t n n' (h.raiseTail seq) (h'.raiseTail seq) w w' := by
  simp only [HostBinding.raiseTail, ← ho.host.tailKnown, ← ho.host.tailSeq]
  split
  · exact ⟨⟨ho.host.queue, ho.host.stopped, rfl, rfl, ho.host.bindings⟩, ho.logs, ho.tips, ho.tips'⟩
  · exact ho

theorem enqueueHost_alike (record : Rec) (ho : Outcome A t (n + 1) (n' + 1) h h' w w') :
    Outcome A t n n' (enqueueHost cfg h record w).1 (enqueueHost cfg h' record w').1
      (enqueueHost cfg h record w).2.1 (enqueueHost cfg h' record w').2.1 := by
  have hmono := ho.mono (Nat.le_succ n) (Nat.le_succ n')
  simp only [enqueueHost, ← ho.host.queue]
  split
  · exact hmono.route rfl ho.host.stopped
  · exact hmono.route rfl ho.host.stopped
  · exact repair_alike cfg (ho.route rfl rfl)
  · exact hmono

theorem receiveHost_alike (record : Rec) (ho : Outcome A t (n + 2) (n' + 2) h h' w w')
    (hpage : w.answers.page = w'.answers.page) :
    Outcome A t n n' (receiveHost cfg h record w).1 (receiveHost cfg h' record w').1
      (receiveHost cfg h record w).2.1 (receiveHost cfg h' record w').2.1 := by
  unfold receiveHost
  split
  · have hsent : Outcome A t (n + 2) (n' + 2) h h' (w.noteSent record.seq)
        (w'.noteSent record.seq) :=
      ⟨ho.host, ⟨ho.logs.calls, ho.logs.resets⟩, ho.tips, ho.tips'⟩
    have hprobed := probe_alike cfg record.seq hsent hpage
    exact enqueueHost_alike cfg record (raiseTail_alike record.seq hprobed)
  · exact enqueueHost_alike cfg record (ho.mono (Nat.le_succ _) (Nat.le_succ _))

/-! ## Pumping -/

theorem fanOutLanes_alike (t : Option Nat) (n : Nat) (ho : HostAlike A h h') :
    HostAlike A (fanOutLanes cfg t n h).1 (fanOutLanes cfg t n h').1 ∧
      others PublisherCall.link A (fanOutLanes cfg t n h).2.1 =
        others PublisherCall.link A (fanOutLanes cfg t n h').2.1 ∧
      others ResetCall.link A (fanOutLanes cfg t n h).2.2 =
        others ResetCall.link A (fanOutLanes cfg t n h').2.2 := by
  induction n generalizing h h' with
  | zero => exact ⟨ho, rfl, rfl⟩
  | succ n ih =>
    simp only [fanOutLanes, ← ho.queue]
    split
    · exact ⟨ho, rfl, rfl⟩
    next record queue _ =>
      -- one record: the same work is done on both sides
      have hlane : fanOutLane cfg t { h with queue := queue } record =
          fanOutLane cfg t { h' with queue := queue } record := by
        funext b
        simp only [fanOutLane, overflowReset, ho.tailSeq, ho.tailKnown]
      have hlink := fanOutLane_link cfg t { h with queue := queue } record
      rw [← hlane]
      have hnext : HostAlike A
          { h with
            queue := queue
            deliveries := h.deliveries.flatMap fun b =>
              (fanOutLane cfg t { h with queue := queue } record b).1.toList }
          { h' with
            queue := queue
            deliveries := h'.deliveries.flatMap fun b =>
              (fanOutLane cfg t { h with queue := queue } record b).1.toList } :=
        ⟨rfl, ho.stopped, ho.tailSeq, ho.tailKnown, ho.bindings.flatMap
          (fun b => (hlink b).1) (fun b => (hlink b).1) fun _ _ => rfl⟩
      obtain ⟨hhost, hcalls, hresets⟩ := ih hnext
      refine ⟨hhost, append_congr_others ?_ hcalls, append_congr_others ?_ hresets⟩
      · exact flatMap_congr_others (fun b => (hlink b).2.1) (fun b => (hlink b).2.1)
          (fun _ _ => rfl) ho.bindings.same
      · exact flatMap_congr_others (fun b => (hlink b).2.2) (fun b => (hlink b).2.2)
          (fun _ _ => rfl) ho.bindings.same

variable {e' e : Environment Link}

theorem pumpLane_congr (he : e.AgreeExcept A e') {calls calls' : List (PublisherCall Link)}
    (hcalls : others PublisherCall.link A calls = others PublisherCall.link A calls')
    (b : DeliveryBinding Link) (hb : b.link ≠ A) :
    pumpLane e.publish calls b = pumpLane e'.publish calls' b := by
  rw [pumpLane, pumpLane, he.publish b.link hb, lane_of_others hb hcalls]

theorem pumpHost_lanes (cfg : Config) (e : Environment Link) (h : HostBinding Link)
    (w : World Link) (htips : Tips e.tip (h.queue.len * h.deliveries.length) w)
    (hpublishes : w.answers.publishes = pumpAnswers e.publish
      (w.logs.calls ++ (fanOutLanes cfg e.tip h.queue.len h).2.1)
      (fanOutLanes cfg e.tip h.queue.len h).1.deliveries) :
    let fanned := fanOutLanes cfg e.tip h.queue.len h
    let calls := w.logs.calls ++ fanned.2.1
    (pumpHost cfg h w).1 = { fanned.1 with
        deliveries := fanned.1.deliveries.flatMap fun b => (pumpLane e.publish calls b).1.toList } ∧
      (pumpHost cfg h w).2.1.logs.calls =
        calls ++ fanned.1.deliveries.flatMap (fun b => (pumpLane e.publish calls b).2) ∧
      (pumpHost cfg h w).2.1.logs.resets = w.logs.resets ++ fanned.2.2 := by
  intro fanned calls
  obtain ⟨hhost, hext⟩ := fanOutQueue_lanes cfg h.queue.len h (m := 0)
    (htips.mono (by rw [Nat.zero_add]))
  have hanswers : (fanOutQueue cfg h.queue.len h w).2.1.answers.publishes =
      pumpAnswers e.publish calls fanned.1.deliveries ++ [] := by
    rw [hext.publishes, hpublishes, append_nil]
  obtain ⟨hafter, hcalls, hresets⟩ := drainAll_lanes e.publish calls fanned.1.deliveries hanswers
  simp only [pumpHost, hhost]
  refine ⟨?_, ?_, ?_⟩
  · rw [hafter]
  · rw [hcalls, hext.calls]
  · rw [hresets, hext.resets]

theorem pumpHost_alike (cfg : Config) (he : e.AgreeExcept A e') (ho : HostAlike A h h')
    (hl : LogsAlike A w.logs w'.logs) (htips : Tips e.tip (h.queue.len * h.deliveries.length) w)
    (htips' : Tips e'.tip (h'.queue.len * h'.deliveries.length) w')
    (hpublishes : w.answers.publishes = pumpAnswers e.publish (w.logs.calls ++ (fanOutLanes cfg
      e.tip h.queue.len h).2.1) (fanOutLanes cfg e.tip h.queue.len h).1.deliveries)
    (hpublishes' : w'.answers.publishes = pumpAnswers e'.publish (w'.logs.calls ++ (fanOutLanes cfg
      e'.tip h'.queue.len h').2.1) (fanOutLanes cfg e'.tip h'.queue.len h').1.deliveries) :
    HostAlike A (pumpHost cfg h w).1 (pumpHost cfg h' w').1 ∧
      LogsAlike A (pumpHost cfg h w).2.1.logs (pumpHost cfg h' w').2.1.logs := by
  obtain ⟨hhost, hcalls, hresets⟩ := pumpHost_lanes cfg e h w htips hpublishes
  obtain ⟨hhost', hcalls', hresets'⟩ := pumpHost_lanes cfg e' h' w' htips' hpublishes'
  rw [← he.tip, ← ho.queue] at hhost' hcalls' hresets'
  obtain ⟨hfanned, hfcalls, hfresets⟩ := fanOutLanes_alike cfg e.tip h.queue.len ho
  have hsofar : others PublisherCall.link A
      (w.logs.calls ++ (fanOutLanes cfg e.tip h.queue.len h).2.1) =
      others PublisherCall.link A (w'.logs.calls ++ (fanOutLanes cfg e.tip h.queue.len h').2.1) :=
    append_congr_others hl.calls hfcalls
  have hlane := pumpLane_congr he hsofar
  constructor
  · rw [hhost, hhost']
    refine ⟨hfanned.queue, hfanned.stopped, hfanned.tailSeq, hfanned.tailKnown, ?_⟩
    exact hfanned.bindings.flatMap (fun b => (pumpLane_link _ _ b).1)
      (fun b => (pumpLane_link _ _ b).1) fun b hb => by rw [hlane b hb]
  · constructor
    · rw [hcalls, hcalls']
      refine append_congr_others hsofar (flatMap_congr_others (fun b => (pumpLane_link _ _ b).2)
        (fun b => (pumpLane_link _ _ b).2) ?_ hfanned.bindings.same)
      intro b hb
      rw [hlane b hb]
    · rw [hresets, hresets']
      exact append_congr_others hl.resets hfresets

/-! ## Sessions -/

variable {σ' σ : Session Link}

theorem Alike.hosts (ha : Alike A σ σ') :
    σ.host = none ∧ σ'.host = none ∨
      ∃ h h', σ.host = some h ∧ σ'.host = some h' ∧ HostAlike A h h' := by
  have hrel := ha.host
  cases hh : σ.host <;> cases hh' : σ'.host <;> rw [hh, hh'] at hrel
  · exact .inl ⟨rfl, rfl⟩
  · cases hrel
  · cases hrel
  · obtain ⟨halike⟩ := hrel
    exact .inr ⟨_, _, rfl, rfl, halike⟩

theorem withHost_alike (ha : Alike A σ σ') {answers answers' : Answers}
    {f f' : HostBinding Link → World Link → HostBinding Link × World Link × List RelayError}
    (hf : ∀ h h', σ.host = some h → σ'.host = some h' → HostAlike A h h' → HostAlike A (f h
      ⟨answers, σ.logs⟩).1 (f' h' ⟨answers', σ'.logs⟩).1 ∧ LogsAlike A (f h ⟨answers,
      σ.logs⟩).2.1.logs (f' h' ⟨answers', σ'.logs⟩).2.1.logs) :
    Alike A (σ.withHost answers f).1 (σ'.withHost answers' f').1 := by
  unfold Session.withHost
  rw [← ha.closed]
  split
  · exact ha
  · rcases ha.hosts with ⟨hh, hh'⟩ | ⟨h, h', hh, hh', halike⟩
    · simp only [hh, hh']
      exact ha
    · simp only [hh, hh']
      obtain ⟨hhost, hlogs⟩ := hf h h' hh hh' halike
      exact ⟨rfl, ha.foreign, .some hhost, hlogs⟩

variable (cfg : Config)

theorem opened_alike (ha : Alike A σ σ') : Alike A (σ.opened cfg).1 (σ'.opened cfg).1 := by
  unfold Session.opened
  rw [← ha.closed]
  split
  · exact ha
  · rcases ha.hosts with ⟨hh, hh'⟩ | ⟨h, h', hh, hh', halike⟩
    · simp only [hh, hh']
      split
      · exact ha
      · exact ⟨rfl, ha.foreign, .some ⟨rfl, rfl, rfl, rfl, bindingsAlike_nil⟩, ha.logs⟩
    · simp only [hh, hh']
      exact ha

theorem BindingsAlike.insert (h : BindingsAlike A bs bs') (b : DeliveryBinding Link)
    (hb : ∀ c ∈ bs, c.link ≠ b.link) (hb' : ∀ c ∈ bs', c.link ≠ b.link) :
    BindingsAlike A (bs.orderedInsert (fun b c => b.link ≤ c.link) b)
      (bs'.orderedInsert (fun b c => b.link ≤ c.link) b) where
  same := by rw [others_orderedInsert b h.sorted, others_orderedInsert b h.sorted', h.same]
  sorted := sorted_orderedInsert h.sorted hb
  sorted' := sorted_orderedInsert h.sorted' hb'

theorem BindingsAlike.symm (h : BindingsAlike A bs bs') :
    BindingsAlike A bs' bs := ⟨h.same.symm, h.sorted', h.sorted⟩

theorem BindingsAlike.insert_left (h : BindingsAlike A bs bs') (b : DeliveryBinding Link)
    (hA : b.link = A) (hb : ∀ c ∈ bs, c.link ≠ b.link) :
    BindingsAlike A (bs.orderedInsert (fun b c => b.link ≤ c.link) b) bs' where
  same := by rw [others_orderedInsert b h.sorted, if_pos hA, h.same]
  sorted := sorted_orderedInsert h.sorted hb
  sorted' := h.sorted'

theorem BindingsAlike.any (h : BindingsAlike A bs bs') {link : Link} (hlink : link ≠ A) :
    (bs.any (·.link = link)) = bs'.any (·.link = link) := by
  have hlane := lane_of_others hlink h.same
  have hany (l : List (DeliveryBinding Link)) :
      l.any (·.link = link) = !(lane DeliveryBinding.link link l).isEmpty := by
    rw [Bool.eq_iff_iff]
    simp [lane, filter_eq_nil_iff]
  rw [hany, hany, hlane]

/-- The bindings after `Subscribe`. -/
def subscribed (queue : Queue Encoded) (link : Link) (bs : List (DeliveryBinding Link)) :
    List (DeliveryBinding Link) :=
  if bs.any (·.link = link) then bs
  else bs.orderedInsert (fun a b => a.link ≤ b.link) { link := link, queue := queue }

theorem BindingsAlike.subscribed (h : BindingsAlike A bs bs') (queue : Queue Encoded)
    (link : Link) : BindingsAlike A (subscribed queue link bs) (subscribed queue link bs') := by
  have hfree {l : List (DeliveryBinding Link)} (hl : ¬ l.any (·.link = link) = true) :
      ∀ c ∈ l, c.link ≠ link := by
    intro c hc hlink
    exact hl (any_eq_true.mpr ⟨c, hc, decide_eq_true hlink⟩)
  unfold Routing.subscribed
  split
  next hbound =>
    split
    · exact h
    next hnot =>
      -- bound on one side only: the link is `A`
      have hA : link = A := by
        by_contra hne
        exact hnot ((h.any hne).symm.trans hbound)
      exact (h.symm.insert_left _ hA (hfree hnot)).symm
  next hnot =>
    split
    next hbound' =>
      have hA : link = A := by
        by_contra hne
        exact hnot ((h.any hne).trans hbound')
      exact h.insert_left _ hA (hfree hnot)
    next hnot' => exact h.insert _ (hfree hnot) (hfree hnot')

theorem subscribe_alike (link : Link) (ha : Alike A σ σ') :
    Alike A (σ.subscribe cfg link).1 (σ'.subscribe cfg link).1 := by
  have hrefused {τ : Session Link} {h : HostBinding Link} (hclosed : τ.closed = false)
      (hh : τ.host = some h) {err : Delivery.DeliveryError}
      (hnew : Queue.new (E := Encoded) cfg.limits.deliveryBindingQueue = .error err) :
      (τ.subscribe cfg link).1 = τ := by
    simp only [Session.subscribe, hclosed, hh, hnew, Bool.false_eq_true, if_false]
    split <;> rfl
  have hopened {τ : Session Link} {h : HostBinding Link} (hclosed : τ.closed = false)
      (hh : τ.host = some h) {queue : Queue Encoded}
      (hnew : Queue.new cfg.limits.deliveryBindingQueue = .ok queue) :
      (τ.subscribe cfg link).1 =
        { τ with host := some { h with deliveries := subscribed queue link h.deliveries } } := by
    obtain ⟨host, closed, foreign, logs⟩ := τ
    cases hclosed
    cases hh
    simp only [Session.subscribe, hnew, Bool.false_eq_true, if_false, subscribed]
    split <;> rfl
  cases hclosed : σ.closed with
  | true =>
    have hclosed' := ha.closed.symm.trans hclosed
    simp only [Session.subscribe, hclosed, hclosed', if_true]
    exact ha
  | false =>
    have hclosed' := ha.closed.symm.trans hclosed
    rcases ha.hosts with ⟨hh, hh'⟩ | ⟨h, h', hh, hh', halike⟩
    · simp only [Session.subscribe, hclosed, hclosed', hh, hh', Bool.false_eq_true, if_false]
      exact ha
    · cases hnew : Queue.new (E := Encoded) cfg.limits.deliveryBindingQueue with
      | error err =>
        rw [hrefused hclosed hh hnew, hrefused hclosed' hh' hnew]
        exact ha
      | ok queue =>
        rw [hopened hclosed hh hnew, hopened hclosed' hh' hnew]
        exact ⟨ha.closed, ha.foreign, .some ⟨halike.queue, halike.stopped, halike.tailSeq,
          halike.tailKnown, halike.bindings.subscribed queue link⟩, ha.logs⟩

theorem BindingsAlike.filter (h : BindingsAlike A bs bs') (p : DeliveryBinding Link → Bool) :
    BindingsAlike A (bs.filter p) (bs'.filter p) where
  same := by
    have hcomm (l : List (DeliveryBinding Link)) : others DeliveryBinding.link A (l.filter p) =
        (others DeliveryBinding.link A l).filter p := by
      simp only [others, filter_filter, Bool.and_comm]
    rw [hcomm, hcomm, h.same]
  sorted := h.sorted.filter p
  sorted' := h.sorted'.filter p

theorem unsubscribe_alike (link : Link) (ha : Alike A σ σ') :
    Alike A (σ.unsubscribe link) (σ'.unsubscribe link) := by
  refine ⟨ha.closed, ha.foreign, ?_, ha.logs⟩
  rcases ha.hosts with ⟨hh, hh'⟩ | ⟨h, h', hh, hh', halike⟩
  · simp only [Session.unsubscribe, hh, hh', Option.map_none]
    exact .none
  · simp only [Session.unsubscribe, hh, hh', Option.map_some]
    exact .some ⟨halike.queue, halike.stopped, halike.tailSeq, halike.tailKnown,
      halike.bindings.filter _⟩

/-! ## Calls -/

section

variable (he : e.AgreeExcept A e') (ha : Alike A σ σ')
include he ha

theorem answers_outcome (m : Method Link) (hh : σ.host = some h) (hh' : σ'.host = some h')
    (halike : HostAlike A h h') :
    Outcome A e.tip 2 2 h h' ⟨e.answers cfg σ m, σ.logs⟩ ⟨e'.answers cfg σ' m, σ'.logs⟩ ∧
      (e.answers cfg σ m).page = (e'.answers cfg σ' m).page := by
  simp only [Environment.answers, hh, hh']
  refine ⟨⟨halike, ha.logs, ⟨_, Nat.le_add_right 2 _, rfl⟩, ?_⟩, ?_⟩
  · rw [he.tip]
    exact ⟨_, Nat.le_add_right 2 _, rfl⟩
  · rw [he.page, halike.tailSeq]

theorem receive_alike (frame : Frame) :
    Alike A (σ.receive cfg frame (e.answers cfg σ (.receive frame))).1
      (σ'.receive cfg frame (e'.answers cfg σ' (.receive frame))).1 := by
  unfold Session.receive
  rw [← ha.closed]
  split
  · exact ha
  · rcases ha.hosts with ⟨hh, hh'⟩ | ⟨h, h', hh, hh', halike⟩
    · simp only [hh, hh']
      exact ha
    · simp only [hh, hh', ← halike.stopped]
      split
      · exact ha
      · split
        · refine ⟨rfl, ?_, .some halike, ha.logs⟩
          rw [ha.foreign]
        · exact ha
        next record _ =>
          refine withHost_alike ha ?_
          intro h h' hh hh' halike
          obtain ⟨houtcome, hpage⟩ := answers_outcome cfg he ha (.receive frame) hh hh' halike
          have hreceived := receiveHost_alike cfg record houtcome hpage
          exact ⟨hreceived.host, hreceived.logs⟩

theorem serve_alike (m : Method Link) : Alike A (serve cfg σ (m, e)) (serve cfg σ' (m, e')) := by
  cases m with
  | opened => exact opened_alike cfg ha
  | subscribe link => exact subscribe_alike cfg link ha
  | unsubscribe link => exact unsubscribe_alike link ha
  | receive frame => exact receive_alike cfg he ha frame
  | pump =>
    refine withHost_alike ha ?_
    intro h h' hh hh' halike
    refine pumpHost_alike cfg he halike ha.logs ?_ ?_ ?_ ?_
    · simp only [Environment.answers, hh]
      exact ⟨_, Nat.le_add_left _ 2, rfl⟩
    · simp only [Environment.answers, hh']
      exact ⟨_, Nat.le_add_left _ 2, rfl⟩
    · simp only [Environment.answers, hh]
    · simp only [Environment.answers, hh']
  | hostLinkClosed =>
    refine withHost_alike ha ?_
    intro h h' hh hh' halike
    obtain ⟨houtcome, _⟩ := answers_outcome cfg he ha .hostLinkClosed hh hh' halike
    have hrepaired := repair_alike cfg (houtcome.route halike.queue (Eq.refl true))
    exact ⟨hrepaired.host, hrepaired.logs⟩
  | resync =>
    refine withHost_alike ha ?_
    intro h h' hh hh' halike
    obtain ⟨houtcome, _⟩ := answers_outcome cfg he ha .resync hh hh' halike
    have hresynced := resyncHost_alike cfg houtcome
    exact ⟨hresynced.host, hresynced.logs⟩
  | anchor =>
    refine withHost_alike ha ?_
    intro h h' hh hh' halike
    obtain ⟨houtcome, _⟩ := answers_outcome cfg he ha .anchor hh hh' halike
    obtain ⟨v, v', hv, hv', hread⟩ := houtcome.readTip
    simp only [hv, hv']
    cases e.tip with
    | none => exact ⟨hread.host, hread.logs⟩
    | some tip =>
      exact ⟨⟨hread.host.queue, hread.host.stopped, rfl, rfl,
        hread.host.bindings.map fun _ => rfl⟩, hread.logs⟩
  | forget => exact ⟨ha.closed, ha.foreign, .none, ha.logs⟩
  | close => exact ⟨rfl, ha.foreign, .none, ha.logs⟩

end

/-! ## Runs -/

/-- Two runs of one call sequence whose environments agree off `A`, call by call. -/
def SameCalls (A : Link) : List (Method Link × Environment Link) →
    List (Method Link × Environment Link) → Prop :=
  List.Forall₂ fun x y => x.1 = y.1 ∧ x.2.AgreeExcept A y.2

theorem serveAll_alike {calls calls' : List (Method Link × Environment Link)}
    (h : SameCalls A calls calls') : Alike A (serveAll cfg calls) (serveAll cfg calls') := by
  -- the induction is over the calls from any two sessions that are alike
  suffices hfrom : ∀ σ σ' : Session Link, Alike A σ σ' →
      Alike A (calls.foldl (serve cfg) σ) (calls'.foldl (serve cfg) σ') from
    hfrom {} {} ⟨rfl, rfl, .none, rfl, rfl⟩
  induction h with
  | nil =>
    intro σ σ' ha
    exact ha
  | @cons x y _ _ hxy _ ih =>
    obtain ⟨m, e⟩ := x
    obtain ⟨m', e'⟩ := y
    obtain ⟨rfl, he⟩ := hxy
    intro σ σ' ha
    exact ih _ _ (serve_alike cfg he ha m)

/-- The calls made of the publisher for one link: what was published to it and when it was
closed. -/
def callsTo (σ : Session Link) (link : Link) : List (PublisherCall Link) :=
  lane PublisherCall.link link σ.logs.calls

/-- The resets one link was given. -/
def resetsTo (σ : Session Link) (link : Link) : List (ResetCall Link) :=
  lane ResetCall.link link σ.logs.resets

/-- The binding of one link, with what is queued for it. -/
def boundTo (σ : Session Link) (link : Link) : List (DeliveryBinding Link) :=
  lane DeliveryBinding.link link ((σ.host.map (·.deliveries)).getD [])

/-- **Peers.** In two runs of one call sequence whose seams answer alike but for what the
transport answers link `A`, every other link is called alike at every point of the sequence: the
same records published with the same answers, the same resets, closed at the same calls, and the
same binding left. -/
theorem peers_unaffected (cfg : Config) (A : Link)
    (calls calls' : List (Method Link × Environment Link)) (hsame : SameCalls A calls calls')
    (B : Link) (hne : B ≠ A) (k : Nat) :
    callsTo (serveAll cfg (calls.take k)) B = callsTo (serveAll cfg (calls'.take k)) B ∧
      resetsTo (serveAll cfg (calls.take k)) B = resetsTo (serveAll cfg (calls'.take k)) B ∧
      boundTo (serveAll cfg (calls.take k)) B = boundTo (serveAll cfg (calls'.take k)) B := by
  have ha := serveAll_alike cfg (forall₂_take k hsame)
  refine ⟨lane_of_others hne ha.logs.calls, lane_of_others hne ha.logs.resets, ?_⟩
  unfold boundTo
  rcases ha.hosts with ⟨hh, hh'⟩ | ⟨h, h', hh, hh', halike⟩
  · rw [hh, hh']
  · rw [hh, hh']
    exact lane_of_others hne halike.bindings.same

/-- A store whose tip is 9, and a transport that takes every record but those of client 0. -/
def answeringClient (answer : PublishAnswer) : Environment Nat where
  tip := some 9
  page _ := none
  publish link _ _ := if link = 0 then answer else .ok

/-- Two clients and two records. -/
def twoClients (answer : PublishAnswer) : List (Method Nat × Environment Nat) :=
  [.opened, .subscribe 0, .subscribe 1, .receive (byteFrame 1), .pump, .receive (byteFrame 2),
    .pump].map fun m => (m, answeringClient answer)

/-- Client 0 is closed in the one run and served in the other; client 1 gets both records in
both. -/
theorem peers_unaffected_twoClients :
    (callsTo (serveAll (byteConfig 4 4) (twoClients .failed)) 0).length = 2 ∧
      callsTo (serveAll (byteConfig 4 4) (twoClients .ok)) 0 ≠
        callsTo (serveAll (byteConfig 4 4) (twoClients .failed)) 0 ∧
      (callsTo (serveAll (byteConfig 4 4) (twoClients .ok)) 1).length = 2 ∧
      callsTo (serveAll (byteConfig 4 4) ((twoClients .failed).take 7)) 1 =
        callsTo (serveAll (byteConfig 4 4) ((twoClients .ok).take 7)) 1 := by
  have hsame : SameCalls 0 (twoClients .failed) (twoClients .ok) := by
    unfold SameCalls twoClients
    rw [forall₂_map_left_iff, forall₂_map_right_iff, forall₂_same]
    intro m _
    refine ⟨rfl, rfl, rfl, ?_, rfl, rfl, rfl⟩
    intro link hlink
    simp only [answeringClient, hlink, if_false]
  refine ⟨by decide +kernel, by decide +kernel, by decide +kernel, ?_⟩
  exact (peers_unaffected (byteConfig 4 4) 0 _ _ hsame 1 (by decide) 7).1

end Factory.Routing
