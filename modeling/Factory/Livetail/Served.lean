import Factory.Livetail.Channel

/-!
# One event as a step of the channel

`Served pub lo hi cfg tail ev tail' out` is the abstract step: handling the event `ev`
at the tail position `tail` (`none` when it is unknown) publishes `out` and leaves the
tail at `tail'`. `lo` and `hi` bound the journal's position while the event is handled.
`handle_served` is the refinement: every event `handle` takes is such a step, except that
it may close the channel's viewers instead.
-/

namespace Factory.Livetail

open List Factory.Delivery Factory.Routing
open DeliveryLog (Item)

/-- The sequence of an enduring publication the relay accepts, `none` for any other frame. -/
def seqOf (cfg : Config) (data : Bytes) : Option Nat :=
  match classify cfg (frameOf cfg data) with
  | .ok record => if record.cls = .enduring then some record.seq else none
  | .error _ => none

def Event.seq (cfg : Config) : Event → Option Nat
  | .frame data _ => seqOf cfg data
  | _ => none

/-- The event says that the tail has a hole of unknown extent. -/
def Event.full : Event → Bool
  | .live initial => !initial
  | .lost => true
  | _ => false

/-- The abstract step of the channel. -/
inductive Served (pub : Nat → Prop) (lo hi : Nat) (cfg : Config) (tail : Option Nat) :
    Event → Option Nat → List Item → Prop
  | idle {ev : Event} (hfull : ev.full = false) (hseq : ev.seq cfg = none) :
      Served pub lo hi cfg tail ev tail []
  | anchored {t : Nat} (hlo : lo ≤ t) (hhi : t ≤ hi) :
      Served pub lo hi cfg tail (.live true) (some t) []
  | reset {ev : Event} {t : Nat} (hinit : ev ≠ .live true) (hseq : ev.seq cfg = none)
      (hlo : lo ≤ t) (hhi : t ≤ hi) : Served pub lo hi cfg tail ev (some t) [.reset t]
  | record {ev : Event} {s : Nat} (hseq : ev.seq cfg = some s)
      (hgap : ∀ n, tail = some n → ∀ p, pub p → n < p → p < s → False) :
      Served pub lo hi cfg tail ev (tail.map (max · s)) [.record s]
  | gap {ev : Event} {s t : Nat} (hseq : ev.seq cfg = some s) (hlo : lo ≤ t) (hhi : t ≤ hi)
      (hreach : s ≤ t + 1) :
      Served pub lo hi cfg tail ev (some (max t s)) [.reset t, .record s]
  | gapFull {ev : Event} {s t t' : Nat} (hseq : ev.seq cfg = some s) (hlo : lo ≤ t)
      (hle : t ≤ t') (hhi : t' ≤ hi) : Served pub lo hi cfg tail ev (some (max t s)) [.reset t']

/-- The relay between two events: it holds no record. -/
structure Quiet (σ : Session Unit) : Prop where
  running : σ.closed = false
  host : ∀ h, σ.host = some h → Lane h [] ∧ (Holds h none ∨ Holds h (some []))

def tailOf (σ : Session Unit) : Option Nat := σ.host.bind HostBinding.tail

/-! ## Before the pump -/

@[simp] theorem raiseTail_stopped (h : HostBinding Unit) (seq : Nat) :
    (h.raiseTail seq).stopped = h.stopped := by
  unfold HostBinding.raiseTail
  split <;> rfl

/-- A HostBinding as the pump will find it: the link was closed, or what the channel and
the route queue hold is what the event publishes. -/
structure Staged (pub : Nat → Prop) (lo hi : Nat) (cfg : Config) (tail : Option Nat)
    (ev : Event) (reads : List StoreEvent) (h : HostBinding Unit)
    (calls : List (PublisherCall Unit)) : Prop where
  lane : ∃ route, Lane h route ∧ route.length ≤ 1 ∧
    ((Cuts calls ∧ Holds h none) ∨
      (calls = [] ∧ ∃ q, Holds h (some q) ∧
        Served pub lo hi cfg tail ev h.tail (items q ++ items route) ∧
        (q ≠ [] → route ≠ [] → ∀ t', t' ≤ hi → (∀ e ∈ reads, e.isAnswer → e.value ≤ t') →
          Served pub lo hi cfg tail ev h.tail [.reset t'])))
  tail_le : ∀ m, h.tail = some m → m ≤ hi

/-- What a call that handles an event leaves, when the store answered it as assumed. -/
def Worked (pub : Nat → Prop) (lo hi : Nat) (cfg : Config) (tail : Option Nat) (ev : Event)
    (l : Logs Unit) (h : HostBinding Unit) (l' : Logs Unit) : Prop :=
  ∃ reads, l'.reads = l.reads ++ reads ∧
    (Fresh pub lo hi reads → ∃ calls, l'.calls = l.calls ++ calls ∧
      Staged pub lo hi cfg tail ev reads h calls)

variable {pub : Nat → Prop} {lo hi : Nat} {cfg : Config} {tail : Option Nat}

variable {h : HostBinding Unit} {ev : Event}

theorem Restarted.worked {h' : HostBinding Unit} {l l' : Logs Unit} (hr : Restarted h l h' l')
    (hinit : ev ≠ .live true) (hseq : ev.seq cfg = none) (htail : ∀ m, h.tail = some m → m ≤ hi) :
    Worked pub lo hi cfg tail ev l h' l' := by
  rcases hr.outcome with ⟨tip, calls, hg, ht, hres⟩ | ⟨calls, hg, ht, hcut, hnone⟩
  · refine ⟨[.tip tip], hg.reads_eq, fun hfresh => ⟨calls, hg.calls_eq, ?_, ?_⟩⟩
    · obtain ⟨hlo, hhi⟩ := hfresh.tip (mem_singleton_self _)
      refine ⟨[], hr.lane, Nat.zero_le _, ?_⟩
      rcases hres with ⟨hcalls, reset, htip, hholds⟩ | hcut
      · refine .inr ⟨hcalls, _, hholds, ?_, fun _ hne => absurd rfl hne⟩
        rw [ht, items_control, htip]
        exact .reset hinit hseq hlo hhi
      · exact .inl hcut
    · intro m hm
      cases ht.symm.trans hm
      exact (hfresh.tip (mem_singleton_self _)).2
  · refine ⟨[], hg.reads_eq, fun _ => ⟨calls, hg.calls_eq, ?_, ht ▸ htail⟩⟩
    exact ⟨[], hr.lane, Nat.zero_le _, .inl ⟨hcut, hnone⟩⟩

variable {record : Rec}

theorem receiveHost_enduring (hsmall : hi + 1 < 2 ^ 64) (hl : Lane h []) (hb : Holds h (some []))
    (htail : ∀ m, h.tail = some m → m ≤ hi) (hcls : record.cls = .enduring)
    (hseq : ev.seq cfg = some record.seq) (hs : record.seq ≤ hi) (w : World Unit) :
    (receiveHost cfg h record w).2.2 = [] ∧
      Worked pub lo hi cfg h.tail ev w.logs (receiveHost cfg h record w).1
        (receiveHost cfg h record w).2.1.logs := by
  obtain ⟨reads, calls, hg, hstop, hprobed⟩ :=
    probe_channel pub lo hsmall cfg hb record.seq (w.noteSent record.seq) htail
  have hqueue := probe_queue cfg h record.seq (w.noteSent record.seq)
  unfold receiveHost
  rw [if_pos hcls]
  generalize probe cfg h record.seq (w.noteSent record.seq) = r at hg hstop hprobed hqueue ⊢
  obtain ⟨h1, w1⟩ := r
  dsimp only at hg hstop hprobed hqueue ⊢
  have hl1 : Lane (h1.raiseTail record.seq) [] := by
    refine ⟨?_, ?_, ?_⟩
    · rw [HostBinding.raiseTail_queue, hqueue]
      exact hl.queueOpen
    · rw [HostBinding.raiseTail_queue, hqueue]
      exact hl.buf
    · rw [raiseTail_stopped, hstop]
      exact hl.running
  obtain ⟨h2, heq, hl2, hd2, ht2⟩ := enqueueHost_lane cfg hl1 record w1
  rw [HostBinding.raiseTail_deliveries] at hd2
  rw [HostBinding.raiseTail_tail] at ht2
  have hitem : items [record] = [.record record.seq] := by
    rw [items_cons, items_enduring hcls]
    rfl
  rw [heq]
  refine ⟨rfl, [.sent record.seq] ++ reads, ?_, fun hfresh => ⟨calls, hg.calls_eq, ?_⟩⟩
  · rw [hg.reads_eq, ← append_assoc]
    rfl
  · cases hprobed hfresh.right with
    | clear hcalls hgap =>
      refine ⟨⟨[record], hl2, le_refl _, .inr ⟨hcalls, [], hb.of_eq hd2, ?_, ?_⟩⟩, ?_⟩
      · rw [ht2, hitem]
        exact .record hseq hgap
      · intro hne
        exact absurd rfl hne
      · intro m hm
        rw [ht2] at hm
        obtain ⟨n, hn, rfl⟩ := Option.map_eq_some_iff.mp hm
        exact max_le (htail n hn) hs
    | reset e he hanswer hreach ht1 hcalls reset hreset hholds =>
      obtain ⟨hlo, hhi⟩ := hfresh.right.range e he hanswer
      rw [ht1, Option.map_some] at ht2
      refine ⟨⟨[record], hl2, le_refl _, .inr ⟨hcalls, _, hholds.of_eq hd2, ?_, ?_⟩⟩, ?_⟩
      · rw [ht2, hitem, items_control, hreset]
        exact .gap hseq hlo hhi hreach
      · intro _ _ t' ht' hmax
        rw [ht2]
        exact .gapFull hseq hlo (hmax e (mem_append_right _ he) hanswer) ht'
      · intro m hm
        cases ht2.symm.trans hm
        exact max_le hhi hs
    | cut hcuts hholds ht1 =>
      refine ⟨⟨[record], hl2, le_refl _, .inl ⟨hcuts, hholds.of_eq hd2⟩⟩, ?_⟩
      intro m hm
      rw [ht2] at hm
      obtain ⟨n, hn, rfl⟩ := Option.map_eq_some_iff.mp hm
      exact max_le (ht1 n hn) hs

theorem receiveHost_other (hl : Lane h []) (hb : Holds h (some []))
    (htail : ∀ m, h.tail = some m → m ≤ hi) (hcls : record.cls ≠ .enduring)
    (hitem : itemOf record = none) (hfull : ev.full = false) (hseq : ev.seq cfg = none)
    (w : World Unit) :
    (receiveHost cfg h record w).2.2 = [] ∧
      Worked pub lo hi cfg h.tail ev w.logs (receiveHost cfg h record w).1
        (receiveHost cfg h record w).2.1.logs := by
  unfold receiveHost
  rw [if_neg hcls]
  obtain ⟨h', heq, hl', hd', ht'⟩ := enqueueHost_lane cfg hl record w
  have hitems : items [record] = [] := by simp [items, hitem]
  rw [heq]
  refine ⟨rfl, [], by simp, fun _ => ⟨[], by simp, ?_, ht' ▸ htail⟩⟩
  refine ⟨[record], hl', le_refl _, .inr ⟨rfl, [], hb.of_eq hd', ?_, ?_⟩⟩
  · rw [ht', hitems]
    exact .idle hfull hseq
  · intro hne
    exact absurd rfl hne

/-! ## One event -/

variable {σ : Session Unit}

theorem withHost_some (hrun : σ.closed = false) (hhost : σ.host = some h) (answers : Answers)
    (f : HostBinding Unit → World Unit → HostBinding Unit × World Unit × List RelayError) :
    σ.withHost answers f =
      ({ σ with host := some (f h ⟨answers, σ.logs⟩).1, logs := (f h ⟨answers, σ.logs⟩).2.1.logs },
        (f h ⟨answers, σ.logs⟩).2.2) := by
  simp [Session.withHost, hrun, hhost]

theorem handle_ready (hlim : cfg.limits.validate = .ok ()) (hq : Quiet σ) :
    ∃ h, Lane h [] ∧ Holds h (some []) ∧ h.tail = tailOf σ ∧
      ∀ a ev, ev ≠ .forget → ev ≠ .restored → handle cfg σ a ev =
        (apply cfg (dispatch cfg { σ with host := some h } a ev) (.pump a.pump)).1 := by
  have hpos : ¬ cfg.limits.hostBindingQueue < 1 ∧ ¬ cfg.limits.deliveryBindingQueue < 1 := by
    unfold RepairLimits.validate at hlim
    split at hlim
    · cases hlim
    · rename_i hhost
      split at hlim
      · cases hlim
      · rename_i hdel
        exact ⟨hhost, hdel⟩
  -- the HostBinding `Open` leaves, with the channel bound or not
  have hopened : ∃ h, apply cfg σ .opened = ({ σ with host := some h }, []) ∧ Lane h [] ∧
      (Holds h none ∨ Holds h (some [])) ∧ h.tail = tailOf σ := by
    cases hhost : σ.host with
    | some h =>
      obtain ⟨hl, hb⟩ := hq.host h hhost
      refine ⟨h, ?_, hl, hb, by simp [tailOf, hhost]⟩
      have hσ : { σ with host := some h } = σ := by rw [← hhost]
      rw [hσ]
      simp [apply, Session.opened, hq.running, hhost]
    | none =>
      simp only [apply, Session.opened, hq.running, hhost, Queue.new, hpos.1, Bool.false_eq_true,
        if_false, dite_false]
      exact ⟨_, rfl, ⟨rfl, rfl, rfl⟩, .inl rfl, by simp [tailOf, hhost, HostBinding.tail]⟩
  obtain ⟨h, hopen, hl, hb, htail⟩ := hopened
  have hsub : ∃ h', apply cfg { σ with host := some h } (.subscribe ()) =
      ({ σ with host := some h' }, []) ∧ Lane h' [] ∧ Holds h' (some []) ∧ h'.tail = h.tail := by
    rcases hb with hnone | hsome
    · have hd : h.deliveries = [] := hnone
      simp only [apply, Session.subscribe, hq.running, hd, Queue.new, hpos.2, Bool.false_eq_true,
        if_false, dite_false, any_nil, orderedInsert_nil]
      exact ⟨_, rfl, ⟨hl.queueOpen, hl.buf, hl.running⟩, ⟨_, rfl, rfl, rfl⟩, rfl⟩
    · obtain ⟨b, hd, hrest⟩ := hsome
      refine ⟨h, ?_, hl, ⟨b, hd, hrest⟩, rfl⟩
      simp [apply, Session.subscribe, hq.running, hd]
  obtain ⟨h', hsub, hl', hb', htail'⟩ := hsub
  refine ⟨h', hl', hb', htail'.trans htail, ?_⟩
  intro a ev hforget hrestored
  cases ev with
  | forget => exact absurd rfl hforget
  | restored => exact absurd rfl hrestored
  | _ => simp only [handle, hopen, hsub]

/-- The relay's part of an event, before the pump, leaves its work to be published. -/
def Dispatched (pub : Nat → Prop) (lo hi : Nat) (cfg : Config) (h : HostBinding Unit)
    (σ : Session Unit) (a : Seams) (ev : Event) : Prop :=
  (dispatch cfg σ a ev).closed = false ∧ ∃ h', (dispatch cfg σ a ev).host = some h' ∧
    Worked pub lo hi cfg h.tail ev σ.logs h' (dispatch cfg σ a ev).logs

section dispatched

variable (hl : Lane h []) (hb : Holds h (some [])) (htail : ∀ m, h.tail = some m → m ≤ hi)
  (hrun : σ.closed = false) (hhost : σ.host = some h)

include hl hb htail hrun hhost

theorem anchor_worked (a : Seams) : Dispatched pub lo hi cfg h σ a (.live true) := by
  unfold Dispatched
  simp only [dispatch, apply, Session.anchor, withHost_some hrun hhost]
  refine ⟨hrun, _, rfl, ?_⟩
  rcases World.readTip_cases ⟨a.call, σ.logs⟩ with ⟨w', hw, hlogs⟩ | ⟨tip, w', hw, hlogs⟩
  · simp only [hw, hlogs]
    refine ⟨[], by simp, fun _ => ⟨[], by simp, ?_, htail⟩⟩
    refine ⟨[], hl, Nat.zero_le _, .inr ⟨rfl, [], hb, .idle rfl rfl, ?_⟩⟩
    intro hne
    exact absurd rfl hne
  · simp only [hw, hlogs]
    refine ⟨[.tip tip], rfl, fun hfresh => ⟨[], by simp, ?_, ?_⟩⟩
    · obtain ⟨hlo, hhi⟩ := hfresh.tip (mem_singleton_self _)
      refine ⟨[], ⟨hl.queueOpen, hl.buf, hl.running⟩, Nat.zero_le _,
        .inr ⟨rfl, [], ?_, .anchored hlo hhi, ?_⟩⟩
      · obtain ⟨b, hd, ho, he⟩ := hb
        exact ⟨{ b with log := b.log ++ [.trusted tip] },
          by simp [HostBinding.anchorLocked, hd], ho, he⟩
      · intro hne
        exact absurd rfl hne
    · intro m hm
      cases hm
      exact (hfresh.tip (mem_singleton_self _)).2

theorem refused_worked {data : Bytes} (ephemeral : Bool) {err : RelayError}
    (hc : classify cfg (frameOf cfg data) = .error err) (a : Seams) :
    Dispatched pub lo hi cfg h σ a (.frame data ephemeral) := by
  have hnone : seqOf cfg data = none := by simp [seqOf, hc]
  have hrecv : ∃ σ' e, apply cfg σ (.receive (frameOf cfg data) a.call) = (σ', [e]) ∧
      σ'.closed = false ∧ σ'.host = some h ∧ σ'.logs = σ.logs := by
    simp only [apply, Session.receive, hrun, hhost, hl.running, hc, Bool.false_eq_true, if_false]
    split
    · exact ⟨_, _, rfl, rfl, rfl, rfl⟩
    · exact ⟨_, _, rfl, hrun, hhost, rfl⟩
    · rename_i hok
      cases hok
  obtain ⟨σ', e, hrecv, hrun', hhost', hlogs⟩ := hrecv
  simp only [Dispatched, dispatch, hrecv]
  simp only [apply, withHost_some hrun' hhost']
  refine ⟨hrun', _, rfl, ?_⟩
  rw [← hlogs]
  exact (repair_channel cfg hl hb _).worked (by simp) hnone htail

theorem received_worked (hsmall : hi + 1 < 2 ^ 64) {data : Bytes} {ephemeral : Bool}
    (hseq : ∀ s, Event.seq cfg (.frame data ephemeral) = some s → s ≤ hi)
    (hc : classify cfg (frameOf cfg data) = .ok record) (a : Seams) :
    Dispatched pub lo hi cfg h σ a (.frame data ephemeral) := by
  have hrecv : apply cfg σ (.receive (frameOf cfg data) a.call) =
      σ.withHost a.call fun h w => receiveHost cfg h record w := by
    simp [apply, Session.receive, hrun, hhost, hl.running, hc]
  have hworked : (receiveHost cfg h record ⟨a.call, σ.logs⟩).2.2 = [] ∧
      Worked pub lo hi cfg h.tail (.frame data ephemeral) σ.logs
        (receiveHost cfg h record ⟨a.call, σ.logs⟩).1
        (receiveHost cfg h record ⟨a.call, σ.logs⟩).2.1.logs := by
    by_cases hcls : record.cls = .enduring
    · have hs : Event.seq cfg (.frame data ephemeral) = some record.seq := by
        simp [Event.seq, seqOf, hc, hcls]
      exact receiveHost_enduring hsmall hl hb htail hcls hs (hseq _ hs) _
    · have hs : Event.seq cfg (.frame data ephemeral) = none := by
        simp [Event.seq, seqOf, hc, hcls]
      exact receiveHost_other hl hb htail hcls ((classify_cls hc).resolve_left hcls) rfl hs _
  rw [withHost_some hrun hhost, hworked.1] at hrecv
  simp only [Dispatched, dispatch, hrecv]
  exact ⟨hrun, _, rfl, hworked.2⟩

variable (pub lo) in
theorem dispatch_worked (hsmall : hi + 1 < 2 ^ 64) (hseq : ∀ s, ev.seq cfg = some s → s ≤ hi)
    (hforget : ev ≠ .forget) (hrestored : ev ≠ .restored) (a : Seams) :
    Dispatched pub lo hi cfg h σ a ev := by
  cases ev with
  | forget => exact absurd rfl hforget
  | restored => exact absurd rfl hrestored
  | lost =>
    simp only [Dispatched, dispatch, apply, withHost_some hrun hhost]
    exact ⟨hrun, _, rfl, (repair_channel cfg hl hb _).worked (by simp) rfl htail⟩
  | live initial =>
    cases initial with
    | false =>
      simp only [Dispatched, dispatch, apply, withHost_some hrun hhost]
      refine ⟨hrun, _, rfl, Restarted.worked ?_ (by simp) rfl htail⟩
      have hrestart := resyncHost_restart cfg h ⟨a.call, σ.logs⟩
      rw [hl.running] at hrestart
      exact restart_channel hrestart hl.queueOpen hb
    | true => exact anchor_worked hl hb htail hrun hhost a
  | frame data ephemeral =>
    cases hc : classify cfg (frameOf cfg data) with
    | error err => exact refused_worked hl hb htail hrun hhost ephemeral hc a
    | ok record => exact received_worked hl hb htail hrun hhost hsmall hseq hc a

end dispatched

theorem Seams.pump_unblocked (a : Seams) (l : Logs Unit) : Unblocked ⟨a.pump, l⟩ := by
  intro hmem
  obtain ⟨ok, -, hok⟩ := mem_map.mp hmem
  cases ok <;> cases hok

/-- What one event did to the channel: its viewers were closed before anything was
published, or the event is a step of the abstract channel whose items were published,
all of them or those before the viewers were closed. -/
def Outcome (pub : Nat → Prop) (lo hi : Nat) (cfg : Config) (tail : Option Nat) (ev : Event)
    (calls : List (PublisherCall Unit)) (tail' : Option Nat) : Prop :=
  (closes calls = true ∧ heard calls = []) ∨
    ∃ out, Served pub lo hi cfg tail ev tail' out ∧ Sent calls out

/-- Every event the drainer handles between two quiet states is a step of the abstract
channel, when the store answered it as assumed. -/
theorem handle_served (hlim : cfg.limits.validate = .ok ()) (hsmall : hi + 1 < 2 ^ 64)
    (hq : Quiet σ) (htail : ∀ m, tailOf σ = some m → m ≤ hi) (hforget : ev ≠ .forget)
    (hseq : ∀ s, ev.seq cfg = some s → s ≤ hi) (a : Seams)
    (hfresh : Fresh pub lo hi ((handle cfg σ a ev).logs.reads.drop σ.logs.reads.length)) :
    Quiet (handle cfg σ a ev) ∧ (∀ m, tailOf (handle cfg σ a ev) = some m → m ≤ hi) ∧
      ∃ calls, (handle cfg σ a ev).logs.calls = σ.logs.calls ++ calls ∧
        Outcome pub lo hi cfg (tailOf σ) ev calls (tailOf (handle cfg σ a ev)) := by
  by_cases hrestored : ev = .restored
  · subst hrestored
    refine ⟨hq, htail, [], by simp [handle], .inr ⟨[], .idle rfl rfl, sent_nil⟩⟩
  · obtain ⟨h, hl, hb, ht, hhandle⟩ := handle_ready hlim hq
    rw [← ht] at htail ⊢
    rw [hhandle a ev hforget hrestored] at hfresh ⊢
    obtain ⟨hrun, h', hhost, reads, hreads, hworked⟩ :=
      dispatch_worked pub lo (σ := { σ with host := some h }) hl hb htail hq.running rfl hsmall
        hseq hforget hrestored a
    generalize dispatch cfg { σ with host := some h } a ev = σ'
      at hrun hhost hreads hworked hfresh ⊢
    simp only [apply, withHost_some hrun hhost] at hfresh ⊢
    obtain ⟨later, hlater⟩ := pumpHost_extends cfg h' ⟨a.pump, σ'.logs⟩
    rw [← hlater, hreads, append_assoc, drop_left] at hfresh
    obtain ⟨calls, hcalls, ⟨route, hl', hone, hstage⟩, htail'⟩ := hworked hfresh.left
    rcases hstage with ⟨hcut, hnone⟩ | ⟨rfl, q, hholds, hserved, hover⟩
    · obtain ⟨hlogs, hl'', ht'', hnone'⟩ := pumpHost_closed cfg hl' hone hnone ⟨a.pump, σ'.logs⟩
      refine ⟨⟨hrun, ?_⟩, ?_, calls, ?_, .inl ⟨hcut.closes, hcut.heard⟩⟩
      · intro h'' hh
        cases hh
        exact ⟨hl'', .inl hnone'⟩
      · intro m hm
        exact htail' m (ht'' ▸ hm)
      · rw [hlogs, hcalls]
    · obtain ⟨reads', calls', out, hg, hl'', ht'', hholds', hsent, hout⟩ :=
        pumpHost_channel cfg hl' hone hholds (a.pump_unblocked σ'.logs)
      have hsame : later = reads' := by
        have := hg.reads_eq
        rw [← hlater] at this
        exact append_cancel_left this
      subst hsame
      refine ⟨⟨hrun, ?_⟩, ?_, calls', ?_, .inr ⟨out, ?_, hsent⟩⟩
      · intro h'' hh
        cases hh
        exact ⟨hl'', hholds'⟩
      · intro m hm
        exact htail' m (ht'' ▸ hm)
      · rw [hg.calls_eq, hcalls, append_nil]
      · have ht : tailOf { σ' with
            host := some (pumpHost cfg h' ⟨a.pump, σ'.logs⟩).1
            logs := (pumpHost cfg h' ⟨a.pump, σ'.logs⟩).2.1.logs } = h'.tail := ht''
        rw [ht]
        rcases hout with rfl | ⟨hq', hroute, t, hmem, rfl⟩
        · exact hserved
        · refine hover hq' hroute t (hfresh.right.tip hmem).2 ?_
          intro e he hanswer
          exact (pairwise_append.mp hfresh.monotone).2.2 e he _ hmem hanswer rfl

/-! ## The anchored position -/

theorem fanOutQueue_tail (cfg : Config) (n : Nat) (h : HostBinding Unit) (w : World Unit) :
    (fanOutQueue cfg n h w).1.tail = h.tail := by
  induction n generalizing h w with
  | zero => rfl
  | succ n ih =>
    rw [fanOutQueue]
    split
    · rfl
    · rw [ih]
      rfl

/-- After the first viewer's tail went live, the tail is at the tip the drainer read, or
where it was when it could read none. -/
theorem handle_anchor (hlim : cfg.limits.validate = .ok ()) (hq : Quiet σ) (a : Seams) :
    (∃ tip, a.call.tips.head? = some (some tip) ∧
      tailOf (handle cfg σ a (.live true)) = some tip) ∨
      tailOf (handle cfg σ a (.live true)) = tailOf σ := by
  obtain ⟨h, -, -, ht, hhandle⟩ := handle_ready hlim hq
  rw [hhandle a (.live true) (by simp) (by simp), ← ht]
  have hrun : ({ σ with host := some h } : Session Unit).closed = false := hq.running
  have htail : ∀ (h' : HostBinding Unit) (l : Logs Unit),
      tailOf (apply cfg { σ with host := some h', logs := l } (.pump a.pump)).1 = h'.tail := by
    intro h' l
    have hrun' : ({ σ with host := some h', logs := l } : Session Unit).closed = false := hrun
    simp only [apply, withHost_some hrun' rfl]
    exact fanOutQueue_tail cfg h'.queue.len h' _
  have hanchor : ∀ σ' : Session Unit, dispatch cfg σ' a (.live true) = (σ'.anchor a.call).1 :=
    fun _ => rfl
  rw [hanchor, Session.anchor, withHost_some hrun rfl, htail]
  cases htips : a.call.tips with
  | nil => exact .inr (by simp [World.readTip, htips])
  | cons answer tips =>
    cases answer with
    | none => exact .inr (by simp [World.readTip, htips])
    | some tip =>
      refine .inl ⟨tip, rfl, ?_⟩
      simp [World.readTip, htips, HostBinding.anchorLocked, HostBinding.tail]

/-- The only record published is the one the event carries. -/
theorem Served.record_seq {tail' : Option Nat} {out : List Item}
    (h : Served pub lo hi cfg tail ev tail' out) {s : Nat} (hs : Item.record s ∈ out) :
    ev.seq cfg = some s := by
  cases h with
  | idle | anchored | reset => simp at hs
  | record hseq =>
    cases mem_singleton.mp hs
    exact hseq
  | gap hseq =>
    simp only [mem_cons, reduceCtorEq, Item.record.injEq, not_mem_nil, or_false, false_or] at hs
    exact hs ▸ hseq
  | gapFull => simp at hs

theorem Served.plain {tail' : Option Nat} {out : List Item}
    (h : Served pub lo hi cfg tail ev tail' out) : ∀ x ∈ out, x.Plain := by
  cases h <;> simp [Item.Plain]

end Factory.Livetail
