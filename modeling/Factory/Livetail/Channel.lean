import Factory.Livetail.Plane
import Factory.Routing.RelayCoverage

/-!
# What the relay publishes on a session's channel

The plane gives a session one delivery binding and pumps it after every event, and its
publisher never asks to wait. So between two events the relay holds no record: its
state is its tail position alone (`Quiet`), and one event is a step of a small relation
on that position and on what is published (`Served`). `handle_served` says that every
event `handle` takes is such a step, or ends with the channel's viewers closed.
-/

namespace Factory.Livetail

open List Factory.Delivery Factory.Routing
open DeliveryLog (Item)

/-! ## What a viewer hears -/

/-- The items some calls of the publisher put on the channel. -/
def heard : List (PublisherCall Unit) → List Item
  | [] => []
  | .closeLink _ _ :: calls => heard calls
  | .publish _ record .ok :: calls => (itemOf record).toList ++ heard calls
  | .publish _ _ _ :: calls => heard calls

/-- Some call closes the viewers' links. -/
def closes (calls : List (PublisherCall Unit)) : Bool :=
  calls.any fun
    | .closeLink _ _ => true
    | .publish _ _ _ => false

/-- What a link was sent grew by the items `out`, or by a part of them before it was
closed. -/
def Sent (calls : List (PublisherCall Unit)) (out : List Item) : Prop :=
  (closes calls = false ∧ heard calls = out) ∨ (closes calls = true ∧ heard calls <+: out)

@[simp] theorem sent_nil : Sent [] [] := .inl ⟨rfl, rfl⟩

/-! ## The store while one event is handled -/

/-- What the store answered during one event: tips between the journal's position when
the event was taken and its position afterwards, in order, and truthful pages. -/
structure Fresh (pub : Nat → Prop) (lo hi : Nat) (reads : List StoreEvent) : Prop where
  range : ∀ e ∈ reads, e.isAnswer → lo ≤ e.value ∧ e.value ≤ hi
  truthful : ∀ request page, StoreEvent.page request page ∈ reads → Truthful pub request page
  monotone : reads.Pairwise fun e e' => e.isAnswer → e'.isAnswer → e.value ≤ e'.value

variable {pub : Nat → Prop} {l : List StoreEvent} {w : World Unit}

variable {m : List StoreEvent} {hi lo : Nat}

theorem Fresh.sublist (h : Fresh pub lo hi m) (hsub : l.Sublist m) : Fresh pub lo hi l where
  range e he := h.range e (hsub.subset he)
  truthful request page hp := h.truthful request page (hsub.subset hp)
  monotone := h.monotone.sublist hsub

theorem Fresh.left (h : Fresh pub lo hi (l ++ m)) :
    Fresh pub lo hi l := h.sublist (sublist_append_left l m)

theorem Fresh.right (h : Fresh pub lo hi (l ++ m)) :
    Fresh pub lo hi m := h.sublist (sublist_append_right l m)

theorem Fresh.tip {t : Nat} (h : Fresh pub lo hi l) (ht : .tip t ∈ l) :
    lo ≤ t ∧ t ≤ hi := h.range _ ht rfl

/-! ## Shapes of a HostBinding with one channel -/

/-- Two logs, the second the first and what was read and called since. -/
structure Grows (l l' : Logs Unit) (reads : List StoreEvent)
    (calls : List (PublisherCall Unit)) : Prop where
  reads_eq : l'.reads = l.reads ++ reads
  calls_eq : l'.calls = l.calls ++ calls

theorem Grows.refl (l : Logs Unit) : Grows l l [] [] := ⟨by simp, by simp⟩

variable {calls : List (PublisherCall Unit)}

theorem Grows.trans {l m n : Logs Unit} {reads reads' : List StoreEvent}
    {calls' : List (PublisherCall Unit)} (h : Grows l m reads calls)
    (h' : Grows m n reads' calls') : Grows l n (reads ++ reads') (calls ++ calls') :=
  ⟨by rw [h'.reads_eq, h.reads_eq, append_assoc],
    by rw [h'.calls_eq, h.calls_eq, append_assoc]⟩

/-- An open route queue holding the given records, on a tail that is not stopped. -/
structure Lane (h : HostBinding Unit) (route : List Rec) : Prop where
  queueOpen : h.queue.closed = false
  buf : h.queue.buf = route
  running : h.stopped = false

/-- The channel's binding is gone, or is open and holds the given records. -/
def Holds (h : HostBinding Unit) : Option (List Rec) → Prop
  | none => h.deliveries = []
  | some q => ∃ b, h.deliveries = [b] ∧ b.queue.closed = false ∧ b.queue.buf = q

/-- The calls closed the channel's link and did nothing else. -/
def Cuts (calls : List (PublisherCall Unit)) : Prop :=
  ∃ link reason, calls = [.closeLink link reason]

theorem Cuts.closes (h : Cuts calls) : closes calls = true := by
  obtain ⟨link, reason, rfl⟩ := h
  rfl

theorem Cuts.heard (h : Cuts calls) : heard calls = [] := by
  obtain ⟨link, reason, rfl⟩ := h
  rfl

/-- After a reset to a tip the channel holds the reset alone, or its link was closed. -/
def ResetOrCut (h : HostBinding Unit) (calls : List (PublisherCall Unit)) (tip : Nat) : Prop :=
  (calls = [] ∧ ∃ reset : SessionReset, reset.journalTip = tip ∧
    Holds h (some [controlOf reset])) ∨ (Cuts calls ∧ Holds h none)

/-! ## The relay's operations on one channel -/

variable {h : HostBinding Unit} {q : List Rec}

theorem resetToTip_channel (cfg : Config) (path : ResetPath) (hb : Holds h (some q)) (tip : Nat)
    (w : World Unit) :
    ∃ calls, Grows w.logs (resetToTip cfg path h tip w).2.1.logs [] calls ∧
      ResetOrCut (resetToTip cfg path h tip w).1 calls tip := by
  obtain ⟨b, hd, hopen, -⟩ := hb
  obtain ⟨hreads, -⟩ := resetToTip_spec cfg path h tip w
  by_cases hm : cfg.core.marshalReset (resetOf cfg b tip) = true
  · refine ⟨[], ⟨by simpa using hreads, ?_⟩, .inl ⟨rfl, resetOf cfg b tip, rfl, ?_⟩⟩
    · simp [resetToTip, hd, resetAll, resetBindingLocked, hm, Queue.repair, hopen, World.noteResets]
    · refine ⟨_, by
        simp [resetToTip, hd, resetAll, resetBindingLocked, hm, Queue.repair, hopen,
          HostBinding.anchorLocked]
        rfl, ?_, ?_⟩
      · rfl
      · rfl
  · refine ⟨[.closeLink b.link "repair control is incoherent"], ⟨by simpa using hreads, ?_⟩,
      .inr ⟨⟨_, _, rfl⟩, ?_⟩⟩
    · simp [resetToTip, hd, resetAll, resetBindingLocked, hm, World.noteResets, World.closeLink]
    · simp [Holds, resetToTip, hd, resetAll, resetBindingLocked, hm, HostBinding.anchorLocked]

theorem closeAll_channel (hb : Holds h (some q)) (reason : String) (w : World Unit) :
    ∃ calls, Grows w.logs (closeAll reason h.deliveries w).logs [] calls ∧ Cuts calls := by
  obtain ⟨b, hd, -, -⟩ := hb
  refine ⟨[.closeLink b.link reason], ⟨by simp, ?_⟩, _, _, rfl⟩
  rw [hd]
  rfl

/-- What `Resync` and a repair leave: the reset of a fresh tip and a tail anchored there,
or a closed link. -/
structure Restarted (h : HostBinding Unit) (l : Logs Unit) (h' : HostBinding Unit)
    (l' : Logs Unit) : Prop where
  lane : Lane h' []
  outcome : (∃ tip calls, Grows l l' [.tip tip] calls ∧ h'.tail = some tip ∧
      ResetOrCut h' calls tip) ∨
    ∃ calls, Grows l l' [] calls ∧ h'.tail = h.tail ∧ Cuts calls ∧ Holds h' none

variable {route : List Rec}

/-- What `Resync` and a repair do to the one channel. -/
theorem restart_channel {cfg : Config} {path : ResetPath} {h' : HostBinding Unit} {w' : World Unit}
    (hr : Restart cfg path false h w h' w') (hl : h.queue.closed = false) (hb : Holds h (some q)) :
    Restarted h w.logs h' w'.logs := by
  cases hr with
  | closed reason hlogs =>
    obtain ⟨calls, hg, hcut⟩ := closeAll_channel hb reason _
    refine ⟨⟨by simpa using hl, Queue.clear_buf hl, rfl⟩, .inr ?_⟩
    exact ⟨calls, hlogs ▸ hg, rfl, hcut, rfl⟩
  | @reset w' tip hlogs =>
    obtain ⟨calls, hg, hres⟩ := resetToTip_channel cfg path hb tip w'
    obtain ⟨-, -, -, hknown, hseq, -⟩ := resetToTip_spec cfg path h tip w'
    refine ⟨⟨by simpa using hl, Queue.clear_buf hl, rfl⟩, .inl ⟨tip, calls, ?_, ?_, hres⟩⟩
    · exact (show Grows w.logs w'.logs [.tip tip] [] by rw [hlogs]; exact ⟨rfl, by simp⟩).trans hg
    · simp [HostBinding.tail, hknown, hseq]

variable (cfg : Config)

theorem repair_channel (hl : Lane h route) (hb : Holds h (some q)) (w : World Unit) :
    Restarted h w.logs (repair cfg { h with stopped := true } w).1
      (repair cfg { h with stopped := true } w).2.1.logs := by
  obtain ⟨hlane, houtcome⟩ :=
    restart_channel (repair_restart cfg { h with stopped := true } w) hl.queueOpen hb
  exact ⟨hlane, houtcome⟩

/-- The outcomes of the probe of an arriving record `s`: there is nothing public between
the tail and `s`, or the channel was reset to a fresh tip that reaches `s - 1`, or its link
was closed. -/
inductive Probed (pub : Nat → Prop) (lo hi s : Nat) (h : HostBinding Unit)
    (reads : List StoreEvent) (calls : List (PublisherCall Unit)) : HostBinding Unit → Prop
  | clear (hcalls : calls = [])
      (hgap : ∀ n, h.tail = some n → ∀ p, pub p → n < p → p < s → False) :
      Probed pub lo hi s h reads calls h
  | reset {h' : HostBinding Unit} (e : StoreEvent) (he : e ∈ reads) (hanswer : e.isAnswer)
      (hreach : s ≤ e.value + 1) (htail : h'.tail = some e.value)
      (hcalls : calls = []) (reset : SessionReset) (hreset : reset.journalTip = e.value)
      (hholds : Holds h' (some [controlOf reset])) : Probed pub lo hi s h reads calls h'
  | cut {h' : HostBinding Unit} (hcuts : Cuts calls) (hholds : Holds h' none)
      (htail : ∀ m, h'.tail = some m → m ≤ hi) : Probed pub lo hi s h reads calls h'

theorem resetForGapLocked_channel (pub : Nat → Prop) (lo hi : Nat) (cfg : Config)
    (hb : Holds h (some q)) {s : Nat} (hs : 1 < s) (tip : Nat) (probeErr : Bool) (w : World Unit)
    (before : List StoreEvent)
    (htip : probeErr = false → ∃ e ∈ before, e.isAnswer = true ∧ e.value = tip) :
    ∃ reads calls, Grows w.logs (resetForGapLocked cfg h s tip probeErr w).2.logs reads calls ∧
      (Fresh pub lo hi (before ++ reads) →
        Probed pub lo hi s h (before ++ reads) calls
          (resetForGapLocked cfg h s tip probeErr w).1) := by
  -- the tip is an answer of the store, or zero after a failed read
  have hgap : ∃ t w' reads, gapTip tip probeErr w = (t, w') ∧ Grows w.logs w'.logs reads [] ∧
      (t = 0 ∨ ∃ e ∈ before ++ reads, e.isAnswer = true ∧ e.value = t) := by
    unfold gapTip
    cases probeErr with
    | false =>
      obtain ⟨e, he, hanswer, hval⟩ := htip rfl
      exact ⟨tip, w, [], rfl, Grows.refl _, .inr ⟨e, by simpa using he, hanswer, hval⟩⟩
    | true =>
      rw [if_pos rfl]
      rcases w.readTip_cases with ⟨w', hw, hlogs⟩ | ⟨t, w', hw, hlogs⟩
      · exact ⟨0, w', [], by rw [hw], hlogs ▸ Grows.refl _, .inl rfl⟩
      · refine ⟨t, w', [.tip t], by rw [hw], ?_, .inr ⟨.tip t, by simp, rfl, rfl⟩⟩
        rw [hlogs]
        exact ⟨rfl, by simp⟩
  obtain ⟨t, w', reads, hg, hgrow, ht⟩ := hgap
  unfold resetForGapLocked
  rw [hg]
  dsimp only
  split
  · obtain ⟨calls, hclose, hcut⟩ := closeAll_channel hb
      "a gap in the tail cannot be repaired from the journal tip" w'
    refine ⟨reads, calls, by simpa using hgrow.trans hclose, fun _ => ?_⟩
    exact .cut hcut rfl (by simp [HostBinding.tail])
  · have hreach' : s ≤ t + 1 := by
      have := succ64_le t
      omega
    have ht' : ∃ e ∈ before ++ reads, e.isAnswer = true ∧ e.value = t := by
      rcases ht with rfl | ht
      · omega
      · exact ht
    obtain ⟨e, he, hanswer, hval⟩ := ht'
    obtain ⟨calls, hreset, hres⟩ := resetToTip_channel cfg .gap hb t w'
    obtain ⟨-, -, -, hknown, hseq, -⟩ := resetToTip_spec cfg .gap h t w'
    have htail : (resetToTip cfg .gap h t w').1.tail = some t := by
      simp [HostBinding.tail, hknown, hseq]
    refine ⟨reads, calls, by simpa using hgrow.trans hreset, fun hfresh => ?_⟩
    rcases hres with ⟨hcalls, reset, htip', hholds⟩ | ⟨hcut, hholds⟩
    · exact .reset e he hanswer (by omega) (hval ▸ htail) hcalls reset (hval ▸ htip') hholds
    · refine .cut hcut hholds ?_
      intro m hm
      cases hm
      exact hval ▸ (hfresh.range e he hanswer).2

theorem resetForGapLocked_stopped (h : HostBinding Unit) (s tip : Nat) (probeErr : Bool)
    (w : World Unit) : (resetForGapLocked cfg h s tip probeErr w).1.stopped = h.stopped := by
  unfold resetForGapLocked
  dsimp only
  split <;> rfl

/-- What a gap probe does to the one channel. -/
theorem probe_channel (pub : Nat → Prop) (lo : Nat) (hsmall : hi + 1 < 2 ^ 64) (cfg : Config)
    (hb : Holds h (some q)) (s : Nat) (w : World Unit) (htail : ∀ m, h.tail = some m → m ≤ hi) :
    ∃ reads calls, Grows w.logs (probe cfg h s w).2.logs reads calls ∧
      (probe cfg h s w).1.stopped = h.stopped ∧
      (Fresh pub lo hi reads → Probed pub lo hi s h reads calls (probe cfg h s w).1) := by
  have hsucc : h.tailKnown = true → succ64 h.tailSeq = h.tailSeq + 1 := by
    intro hknown
    have := htail h.tailSeq (by simp [HostBinding.tail, hknown])
    exact Nat.mod_eq_of_lt (by omega)
  unfold probe
  split
  · rename_i hgap
    have hs : 1 < s := by
      have := hsucc hgap.1
      omega
    have hknown : h.tail = some h.tailSeq := by simp [HostBinding.tail, hgap.1]
    rcases probeGap_cases pub cfg h.tailSeq s w with hp | ⟨page, hole, w', -, hp, hlogs, hclear⟩
    · obtain ⟨reads, calls, hg, hres⟩ := resetForGapLocked_channel pub lo hi cfg hb hs
        0 true w [] (by simp)
      rw [hp]
      exact ⟨reads, calls, hg, resetForGapLocked_stopped cfg h s 0 true w, hres⟩
    · have hpage : Grows w.logs w'.logs [.page (probeRequest cfg h.tailSeq s) page] [] := by
        rw [hlogs]
        exact ⟨rfl, by simp⟩
      rw [hp]
      cases hole with
      | false =>
        refine ⟨_, _, hpage, rfl, fun hfresh => .clear rfl ?_⟩
        intro n hn p hp' hnp hps
        cases hknown.symm.trans hn
        exact hclear rfl (hfresh.truthful _ _ (by simp)) p hp' hnp hps
      | true =>
        obtain ⟨reads, calls, hg, hres⟩ := resetForGapLocked_channel pub lo hi cfg hb hs
          page.capturedTip false w' [.page (probeRequest cfg h.tailSeq s) page]
          (fun _ => ⟨_, mem_singleton_self _, rfl, rfl⟩)
        exact ⟨_, _, hpage.trans hg, resetForGapLocked_stopped cfg h s _ false w', hres⟩
  · rename_i hgap
    refine ⟨[], [], Grows.refl _, rfl, fun _ => .clear rfl ?_⟩
    intro n hn p _ hnp hps
    simp only [HostBinding.tail, Option.ite_none_right_eq_some, Option.some.injEq] at hn
    obtain ⟨hknown, rfl⟩ := hn
    have := hsucc hknown
    exact hgap ⟨hknown, by omega⟩

theorem enqueue_room {q : Queue Encoded} (hopen : q.closed = false)
    (hroom : q.buf.length < q.capacity) (record : Rec) :
    (q.enqueue record).2 = none ∧ (q.enqueue record).1.buf = q.buf ++ [record] := by
  simp [Queue.enqueue, hopen, hroom]

/-- An empty route queue takes a record. -/
theorem enqueueHost_lane (hl : Lane h []) (record : Rec) (w : World Unit) :
    ∃ h', enqueueHost cfg h record w = (h', w, []) ∧ Lane h' [record] ∧
      h'.deliveries = h.deliveries ∧ h'.tail = h.tail := by
  have hroom := enqueue_room hl.queueOpen (by rw [hl.buf]; exact h.queue.pos) record
  rw [enqueueHost_eq cfg hl.queueOpen, if_neg (by simp [hroom.1])]
  refine ⟨_, rfl, ⟨by simpa using hl.queueOpen, ?_, hl.running⟩, rfl, rfl⟩
  rw [hroom.2, hl.buf]
  rfl

theorem Holds.of_eq {h' : HostBinding Unit} {q : Option (List Rec)} (hb : Holds h q)
    (he : h'.deliveries = h.deliveries) : Holds h' q := by
  cases q with
  | none => exact he.trans hb
  | some q =>
    obtain ⟨b, hd, hrest⟩ := hb
    exact ⟨b, he.trans hd, hrest⟩

/-! ## Pumping one channel -/

/-- The publisher never asks to wait. -/
def Unblocked (w : World Unit) : Prop := .wouldBlock ∉ w.answers.publishes

theorem Unblocked.publish (hw : Unblocked w) (link : Unit) (record : Rec) :
    ∃ answer w', w.publish link record = (answer, w') ∧ answer ≠ .wouldBlock ∧ Unblocked w' ∧
      Grows w.logs w'.logs [] [.publish link record answer] := by
  refine ⟨_, _, rfl, ?_, ?_, by simp, rfl⟩
  · intro heq
    cases hp : w.answers.publishes with
    | nil =>
      rw [hp] at heq
      cases heq
    | cons a rest =>
      rw [hp] at heq
      apply hw
      rw [hp, ← heq]
      exact mem_cons_self
  · intro hin
    exact hw (mem_of_mem_tail hin)

theorem drainLocked_channel (n : Nat) {b : DeliveryBinding Unit} (hopen : b.queue.closed = false)
    (hlen : b.queue.buf.length ≤ n) (hw : Unblocked w) :
    ∃ calls, Grows w.logs (drainLocked n b w).2.1.logs [] calls ∧
      ((∃ b', (drainLocked n b w).1 = some b' ∧ b'.queue.closed = false ∧ b'.queue.buf = [] ∧
          closes calls = false ∧ heard calls = items b.queue.buf) ∨
        ((drainLocked n b w).1 = none ∧ closes calls = true ∧
          heard calls <+: items b.queue.buf)) := by
  induction n generalizing b w with
  | zero =>
    have hnil : b.queue.buf = [] := length_eq_zero_iff.mp (Nat.le_zero.mp hlen)
    exact ⟨[], Grows.refl _, .inl ⟨b, rfl, hopen, hnil, rfl, by rw [hnil]; rfl⟩⟩
  | succ n ih =>
    rw [drainLocked]
    rcases Queue.next_open hopen with ⟨hnext, hnil⟩ | ⟨record, q', hnext, hbuf, hopen', -⟩
    · rw [hnext]
      exact ⟨[], Grows.refl _, .inl ⟨b, rfl, hopen, hnil, rfl, by rw [hnil]; rfl⟩⟩
    · obtain ⟨answer, w', hp, hne, hw', hfirst⟩ := hw.publish b.link record
      simp only [hnext, hp]
      cases answer with
      | wouldBlock => exact absurd rfl hne
      | failed =>
        refine ⟨_,
          hfirst.trans (⟨by simp, rfl⟩ : Grows _ _ [] [.closeLink b.link "publish failed"]),
          .inr ⟨rfl, rfl, nil_prefix⟩⟩
      | ok =>
        -- published: the rest of the queue follows
        rw [hbuf, length_cons] at hlen
        obtain ⟨calls, hg, hres⟩ := ih (b := { b with queue := q' }.advance record) (w := w')
          (by simpa using hopen') (by simpa using Nat.le_of_succ_le_succ hlen) hw'
        rw [DeliveryBinding.advance_queue] at hres
        rw [hbuf, items_cons]
        refine ⟨_, hfirst.trans hg, ?_⟩
        rcases hres with ⟨b', hb', ho, he, hc, hh⟩ | ⟨hb', hc, hh⟩
        · refine .inl ⟨b', hb', ho, he, by simpa [closes] using hc, ?_⟩
          simp [heard, hh]
        · refine .inr ⟨hb', by simpa [closes] using hc, ?_⟩
          exact (prefix_append_right_inj _).mpr hh

/-- What one record does to the channel it is fanned out to: it is queued; or the queue is
full and is reset to a tip read for it; or the link is closed. -/
def FannedOut (q : List Rec) (record : Rec) (reads : List StoreEvent)
    (calls : List (PublisherCall Unit)) : Option (DeliveryBinding Unit) → Prop
  | some b => b.queue.closed = false ∧ calls = [] ∧
      (items b.queue.buf = items q ++ items [record] ∨
        (q ≠ [] ∧ ∃ t, .tip t ∈ reads ∧ items b.queue.buf = [.reset t]))
  | none => Cuts calls

theorem fanOutLocked_channel (h : HostBinding Unit) {b : DeliveryBinding Unit}
    (hopen : b.queue.closed = false) (record : Rec) (w : World Unit) :
    ∃ reads calls, Grows w.logs (fanOutLocked cfg h b record w).2.1.logs reads calls ∧
      (fanOutLocked cfg h b record w).2.1.answers.publishes = w.answers.publishes ∧
      FannedOut b.queue.buf record reads calls (fanOutLocked cfg h b record w).1 := by
  by_cases hover : (b.queue.enqueue record).2 = some .overflow
  · have hfull : b.queue.buf ≠ [] := by
      intro hnil
      have := (enqueue_room hopen (by rw [hnil]; exact b.queue.pos) record).1
      cases this.symm.trans hover
    rcases hq : b.queue.enqueue record with ⟨q, err⟩
    rw [hq] at hover
    subst hover
    unfold fanOutLocked
    rw [hq]
    cases ht : w.answers.tips with
    | nil =>
      simp only [World.readTip, ht]
      exact ⟨[], _, ⟨by simp, rfl⟩, rfl, _, _, rfl⟩
    | cons tip tips =>
      cases tip with
      | none =>
        simp only [World.readTip, ht]
        exact ⟨[], _, ⟨by simp, rfl⟩, rfl, _, _, rfl⟩
      | some t =>
        simp only [World.readTip, ht]
        by_cases hm : cfg.core.marshalReset (resetOf cfg b t) = true
        · simp only [resetBindingLocked, hm, if_true, Queue.repair, hopen, Bool.false_eq_true,
            if_false]
          exact ⟨[.tip t], [], ⟨rfl, by simp [World.noteResets]⟩, rfl, rfl, rfl,
            .inr ⟨hfull, t, by simp, rfl⟩⟩
        · simp only [resetBindingLocked, hm, if_false, Bool.false_eq_true]
          exact ⟨[.tip t], _, ⟨rfl, rfl⟩, rfl, _, _, rfl⟩
  · have hitems : items (b.queue.enqueue record).1.buf = items b.queue.buf ++ items [record] := by
      rw [items_enqueue hopen hover, items_cons]
      simp [items]
    rw [fanOutLocked_fits cfg h hopen w hover]
    exact ⟨[], [], Grows.refl _, rfl, by simpa using hopen, rfl, .inl hitems⟩

theorem Lane.next {record : Rec} (hl : Lane h (record :: route))
    (hone : (record :: route).length ≤ 1) : route = [] ∧ ∃ queue,
      h.queue.next = some (record, queue) ∧ queue.closed = false ∧ queue.buf = [] := by
  have hnil : route = [] := by
    simpa using hone
  rcases Queue.next_open hl.queueOpen with ⟨-, hempty⟩ | ⟨r, queue, hnext, hbuf, hopen, -⟩
  · cases hl.buf.symm.trans hempty
  · rw [hl.buf] at hbuf
    obtain ⟨rfl, hrest⟩ := List.cons.inj hbuf
    exact ⟨hnil, queue, hnext, hopen, hrest.symm.trans hnil⟩

theorem fanOutQueue_channel (hl : Lane h route) (hone : route.length ≤ 1) (hb : Holds h (some q))
    (w : World Unit) :
    ∃ reads calls, Grows w.logs (fanOutQueue cfg h.queue.len h w).2.1.logs reads calls ∧
      (fanOutQueue cfg h.queue.len h w).2.1.answers.publishes = w.answers.publishes ∧
      Lane (fanOutQueue cfg h.queue.len h w).1 [] ∧
      (fanOutQueue cfg h.queue.len h w).1.tail = h.tail ∧
      ((calls = [] ∧ ∃ q', Holds (fanOutQueue cfg h.queue.len h w).1 (some q') ∧
          (items q' = items q ++ items route ∨
            (q ≠ [] ∧ route ≠ [] ∧ ∃ t, .tip t ∈ reads ∧ items q' = [.reset t]))) ∨
        (Cuts calls ∧ Holds (fanOutQueue cfg h.queue.len h w).1 none)) := by
  obtain ⟨b, hd, hopen, hq⟩ := hb
  have hlen : h.queue.len = route.length := by rw [Queue.len, hl.buf]
  rw [hlen]
  cases route with
  | nil =>
    refine ⟨[], [], Grows.refl _, rfl, hl, rfl, .inl ⟨rfl, q, ⟨b, hd, hopen, hq⟩, .inl ?_⟩⟩
    simp [items]
  | cons record route =>
    obtain ⟨rfl, queue, hnext, hopen', hrest⟩ := hl.next hone
    obtain ⟨reads, calls, hg, hpubs, hout⟩ :=
      fanOutLocked_channel cfg { h with queue := queue } hopen record w
    have hstep : fanOutQueue cfg [record].length h w =
        ({ h with
            queue := queue
            deliveries :=
              (fanOutLocked cfg { h with queue := queue } b record w).1.toList ++ [] },
          (fanOutLocked cfg { h with queue := queue } b record w).2.1,
          ((fanOutLocked cfg { h with queue := queue } b record w).2.2 ++ []) ++ []) := by
      simp only [length_singleton, fanOutQueue, hnext, hd, fanOutAll]
    rw [hstep]
    refine ⟨reads, calls, hg, hpubs, ⟨hopen', hrest, hl.running⟩, rfl, ?_⟩
    cases hafter : (fanOutLocked cfg { h with queue := queue } b record w).1 with
    | none =>
      rw [hafter] at hout
      exact .inr ⟨hout, rfl⟩
    | some b' =>
      rw [hafter] at hout
      obtain ⟨ho, hcalls, hitems⟩ := hout
      rw [hq] at hitems
      refine .inl ⟨hcalls, b'.queue.buf, ⟨b', rfl, ho, rfl⟩, hitems.imp_right ?_⟩
      rintro ⟨hne, htip⟩
      exact ⟨hne, by simp, htip⟩

/-- A pump publishes what the channel and the route queue hold, or, when the channel was
not empty and overflowed, the reset that replaces it. -/
theorem pumpHost_channel (hl : Lane h route) (hone : route.length ≤ 1) (hb : Holds h (some q))
    (hw : Unblocked w) :
    ∃ reads calls out, Grows w.logs (pumpHost cfg h w).2.1.logs reads calls ∧
      Lane (pumpHost cfg h w).1 [] ∧ (pumpHost cfg h w).1.tail = h.tail ∧
      (Holds (pumpHost cfg h w).1 none ∨ Holds (pumpHost cfg h w).1 (some [])) ∧
      Sent calls out ∧
      (out = items q ++ items route ∨
        (q ≠ [] ∧ route ≠ [] ∧ ∃ t, .tip t ∈ reads ∧ out = [.reset t])) := by
  obtain ⟨reads, calls, hg, hpubs, hl', htail, hres⟩ := fanOutQueue_channel cfg hl hone hb w
  unfold pumpHost
  generalize fanOutQueue cfg h.queue.len h w = r at hg hpubs hl' htail hres ⊢
  obtain ⟨h', w', errs⟩ := r
  dsimp only at hg hpubs hl' htail hres ⊢
  have hw' : Unblocked w' := by
    unfold Unblocked
    rw [hpubs]
    exact hw
  rcases hres with ⟨rfl, q', ⟨b, hd, hopen, hq⟩, hitems⟩ | ⟨hcut, hnone⟩
  · obtain ⟨calls', hg', hdrain⟩ := drainLocked_channel b.queue.len hopen (le_refl _) hw'
    rw [hq] at hdrain
    rw [hd, drainAll]
    refine ⟨reads, calls', items q', by simpa [drainAll] using hg.trans hg',
      ⟨hl'.queueOpen, hl'.buf, hl'.running⟩,
      htail, ?_, ?_, hitems⟩
    · rcases hdrain with ⟨b', hb', ho, he, -⟩ | ⟨hb', -⟩
      · exact .inr ⟨b', by simp [hb', drainAll], ho, he⟩
      · exact .inl (by simp [Holds, hb', drainAll])
    · rcases hdrain with ⟨-, -, -, -, hc, hh⟩ | ⟨-, hc, hh⟩
      · exact .inl ⟨hc, hh⟩
      · exact .inr ⟨hc, hh⟩
  · have hd : h'.deliveries = [] := hnone
    rw [hd, drainAll]
    refine ⟨reads, calls, items q ++ items route, hg, ⟨hl'.queueOpen, hl'.buf, hl'.running⟩, htail,
      .inl rfl, .inr ⟨hcut.closes, ?_⟩, .inl rfl⟩
    rw [hcut.heard]
    exact nil_prefix

/-- A pump for a viewer that is gone publishes nothing. -/
theorem pumpHost_closed (hl : Lane h route) (hone : route.length ≤ 1) (hb : Holds h none)
    (w : World Unit) :
    (pumpHost cfg h w).2.1.logs = w.logs ∧ Lane (pumpHost cfg h w).1 [] ∧
      (pumpHost cfg h w).1.tail = h.tail ∧ Holds (pumpHost cfg h w).1 none := by
  have hd : h.deliveries = [] := hb
  have hlen : h.queue.len = route.length := by rw [Queue.len, hl.buf]
  unfold pumpHost
  rw [hlen]
  cases route with
  | nil =>
    simp only [length_nil, fanOutQueue, hd, drainAll]
    exact ⟨trivial, ⟨hl.queueOpen, hl.buf, hl.running⟩, rfl, rfl⟩
  | cons record route =>
    obtain ⟨rfl, queue, hnext, hopen', hrest⟩ := hl.next hone
    simp only [length_singleton, fanOutQueue, hnext, hd, fanOutAll, drainAll]
    exact ⟨trivial, ⟨hopen', hrest, hl.running⟩, rfl, rfl⟩

end Factory.Livetail
