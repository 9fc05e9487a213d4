import Factory.Lib.Flow
import Factory.Routing.RelaySpec

/-!
# No enduring record is lost silently

Assume of the store that every tip it answers is at least every tip answered and every
enduring sequence received before, and that a page tells the truth about the positions
it covers (`StoreOk`). Then the log of every open binding is gapless: at each enduring
record published to the link, every public sequence above the anchored position was
published or lies under a session.reset published before.

`HostOk` is the invariant. Each binding's path from the tail to the link is a
`DeliveryLog.Flow`, and each helper of the relay is one or more moves of it.
-/

namespace Factory.Routing

open List Factory.Delivery
open DeliveryLog (Item Flow Gapless Covered floor)

variable {Link : Type}

/-! ## The store -/

/-- The sequence an event of the store names. -/
def StoreEvent.value : StoreEvent → Nat
  | .sent s => s
  | .tip t => t
  | .page _ answer => answer.capturedTip

/-- The event is an answer of the store, not an arrival. -/
def StoreEvent.isAnswer : StoreEvent → Bool
  | .sent _ => false
  | _ => true

/-- A page tells the truth about the range it covers: no public record lies before its
first event, or, if it has none, at or below the position it covers. -/
def Truthful (pub : Nat → Prop) (request : ProbeRequest) (page : JournalPage) : Prop :=
  match page.events with
  | first :: _ => ∀ p, pub p → request.fromSeq ≤ p → ¬ p < first
  | [] => ∀ p, pub p → request.fromSeq ≤ p → ¬ p ≤ page.coveredThrough

/-- What is assumed of the store: an answer is at least everything before it, and a
page is truthful. The last field says that no position is the last one a `uint64` can
name. -/
structure StoreOk (pub : Nat → Prop) (reads : List StoreEvent) : Prop where
  monotone : reads.Pairwise fun e e' => e'.isAnswer → e.value ≤ e'.value
  truthful : ∀ request page, StoreEvent.page request page ∈ reads → Truthful pub request page
  small : ∀ e ∈ reads, e.value + 1 < 2 ^ 64

/-- The greatest sequence named so far. -/
def high (reads : List StoreEvent) : Nat := reads.foldr (fun e n => max e.value n) 0

variable {reads : List StoreEvent}

variable {e : StoreEvent}

theorem le_high (he : e ∈ reads) : e.value ≤ high reads := by
  induction reads with
  | nil => simp at he
  | cons a reads ih =>
    rcases mem_cons.mp he with rfl | he
    · exact le_max_left _ _
    · exact (ih he).trans (le_max_right _ _)

theorem high_le {n : Nat} (h : ∀ e ∈ reads, e.value ≤ n) : high reads ≤ n := by
  induction reads with
  | nil => simp [high]
  | cons a reads ih =>
    exact max_le (h a mem_cons_self) (ih (forall_mem_cons.mp h).2)

variable {l m : List StoreEvent}

theorem high_mono (h : l <+: m) : high l ≤ high m :=
  high_le fun _ he => le_high (h.subset he)

variable {pub : Nat → Prop}

theorem StoreOk.of_extends (h : StoreOk pub m) (hlm : l <+: m) : StoreOk pub l := by
  exact ⟨h.monotone.sublist hlm.sublist,
    fun request page hp => h.truthful request page (hlm.subset hp),
    fun e he => h.small e (hlm.subset he)⟩

theorem StoreOk.high_le_answer (h : StoreOk pub (reads ++ [e])) (he : e.isAnswer) :
    high reads ≤ e.value :=
  high_le fun e' he' =>
    (pairwise_append.mp h.monotone).2.2 e' he' e (mem_singleton_self e) he

theorem high_append (reads : List StoreEvent) (e : StoreEvent) :
    high (reads ++ [e]) = max (high reads) e.value := by
  induction reads with
  | nil => simp [high]
  | cons a reads ih =>
    simp only [high, cons_append, foldr_cons] at ih ⊢
    rw [ih, max_assoc]

theorem StoreOk.high_append (h : StoreOk pub (reads ++ [e])) (he : e.isAnswer) :
    high (reads ++ [e]) = e.value := by
  rw [Routing.high_append]
  exact max_eq_right (h.high_le_answer he)

theorem StoreOk.high_small (h : StoreOk pub reads) : high reads + 1 < 2 ^ 64 := by
  have hle : high reads ≤ 2 ^ 64 - 2 := high_le fun e he => by
    have := h.small e he
    omega
  omega

/-! ## The invariant -/

/-- What a queue's records are to the link they go to. -/
def items (buf : List Rec) : List Item := buf.filterMap itemOf

variable {record : Rec}

theorem itemOf_plain {x : Item} (h : itemOf record = some x) : x.Plain := by
  unfold itemOf at h
  split at h <;> cases h <;> trivial

theorem items_plain (buf : List Rec) : ∀ x ∈ items buf, x.Plain := by
  intro x hx
  obtain ⟨record, -, hitem⟩ := mem_filterMap.mp hx
  exact itemOf_plain hitem

theorem items_cons (record : Rec) (buf : List Rec) :
    items (record :: buf) = (itemOf record).toList ++ items buf := by
  unfold items
  cases h : itemOf record <;> simp [h]

@[simp] theorem items_control (reset : SessionReset) :
    items [controlOf reset] = [.reset reset.journalTip] := rfl

theorem items_enduring (h : record.cls = .enduring) :
    (itemOf record).toList = [.record record.seq] := by
  simp [itemOf, h]

/-- A record that is taken comes last. -/
theorem items_enqueue {q : Queue Encoded} (hopen : q.closed = false)
    (hok : (q.enqueue record).2 ≠ some .overflow) :
    items (q.enqueue record).1.buf = items q.buf ++ (itemOf record).toList := by
  rw [items, Queue.enqueue_filterMap (fun _ h => by simp [itemOf, h]) hopen hok, items]
  cases h : itemOf record <;> simp [h]

/-- The tail position, when it is known. -/
def HostBinding.tail (h : HostBinding Link) : Option Nat :=
  if h.tailKnown then some h.tailSeq else none

/-- The invariant of one binding, at a bound, a tail position and a route queue. -/
structure BindingOk (pub : Nat → Prop) (n : Nat) (tail : Option Nat) (route : List Item)
    (b : DeliveryBinding Link) : Prop where
  queueOpen : b.queue.closed = false
  flow : Flow pub n tail b.log (items b.queue.buf) route

/-- The invariant of a session's HostBinding. -/
structure HostOk (pub : Nat → Prop) (h : HostBinding Link) (reads : List StoreEvent) : Prop where
  queueOpen : h.queue.closed = false
  bounded : ∀ s, Item.record s ∈ items h.queue.buf → s ≤ high reads
  tail_le : ∀ n, h.tail = some n → n ≤ high reads
  bindings : ∀ b ∈ h.deliveries, BindingOk pub (high reads) h.tail (items h.queue.buf) b

/-- What a repair needs of a HostBinding: its bindings are sound at some tail position,
not necessarily the present one. -/
structure Repairable (pub : Nat → Prop) (h : HostBinding Link) (reads : List StoreEvent) :
    Prop where
  queueOpen : h.queue.closed = false
  bounded : ∀ s, Item.record s ∈ items h.queue.buf → s ≤ high reads
  tail_le : ∀ n, h.tail = some n → n ≤ high reads
  bindings : ∀ b ∈ h.deliveries, ∃ tail, BindingOk pub (high reads) tail (items h.queue.buf) b

variable {h : HostBinding Link}

theorem HostOk.repairable (hok : HostOk pub h reads) : Repairable pub h reads :=
  ⟨hok.queueOpen, hok.bounded, hok.tail_le, fun b hb => ⟨h.tail, hok.bindings b hb⟩⟩

theorem Repairable.stop (hok : Repairable pub h reads) (stopped : Bool) :
    Repairable pub { h with stopped := stopped } reads :=
  ⟨hok.queueOpen, hok.bounded, hok.tail_le, hok.bindings⟩

variable {b : DeliveryBinding Link} {tail : Option Nat} {route : List Item}

theorem BindingOk.raise {m n : Nat} (h : BindingOk pub m tail route b) (hmn : m ≤ n) :
    BindingOk pub n tail route b := ⟨h.queueOpen, h.flow.raise hmn⟩

theorem HostOk.raise (hok : HostOk pub h l) (hlm : l <+: m) : HostOk pub h m :=
  ⟨hok.queueOpen, fun s hs => (hok.bounded s hs).trans (high_mono hlm),
    fun n hn => (hok.tail_le n hn).trans (high_mono hlm),
    fun b hb => (hok.bindings b hb).raise (high_mono hlm)⟩

variable {b' : DeliveryBinding Link}

variable {cfg : Config}

theorem BindingOk.overflow {n t : Nat} {route' : List Item} (h : BindingOk pub n tail route b)
    (hr : route' ⊆ route) (hnt : n ≤ t) (hreset : ResetTo cfg b t b')
    : BindingOk pub t tail route' b' := by
  refine ⟨hreset.queueOpen, ?_⟩
  rw [hreset.log, hreset.buf, items_control]
  exact h.flow.overflow hr hnt

theorem BindingOk.told {n t : Nat} {route' : List Item} (h : BindingOk pub n tail route b)
    (hr : route' ⊆ route) (hnt : n ≤ t) (hreset : ResetTo cfg b t b') :
    BindingOk pub t (some t) route' { b' with log := b'.log ++ [.told t] } := by
  refine ⟨hreset.queueOpen, ?_⟩
  rw [hreset.log, hreset.buf, items_control]
  exact h.flow.told hr hnt

/-! ## Fan-out and drain -/

variable {pub : Nat → Prop} {cfg : Config}

variable {w : World Link}

theorem fanOutLocked_ok (hst : StoreOk pub (fanOutLocked cfg h b record w).2.1.logs.reads)
    (hb : BindingOk pub (high w.logs.reads) tail ((itemOf record).toList ++ route) b)
    (hafter : (fanOutLocked cfg h b record w).1 = some b') :
    BindingOk pub (high (fanOutLocked cfg h b record w).2.1.logs.reads) tail route b' := by
  rcases fanOutLocked_cases cfg h hb.queueOpen record w with
    ⟨hne, hres, hw⟩ | hres | ⟨tip, -, hw, w', hreset⟩
  · cases hres.symm.trans hafter
    rw [hw]
    refine ⟨by simpa using hb.queueOpen, ?_⟩
    rw [items_enqueue hb.queueOpen hne]
    exact hb.flow.forward
  · cases hres.symm.trans hafter
  · rw [hw] at hst ⊢
    have hle : high w.logs.reads ≤ tip := hst.high_le_answer rfl
    rw [show high (w.logs.reads ++ [.tip tip]) = tip from hst.high_append rfl]
    exact hb.overflow (subset_append_right _ _) hle
      (resetBindingLocked_after (hreset.symm.trans hafter))

theorem fanOutAll_ok {bs : List (DeliveryBinding Link)}
    (hst : StoreOk pub (fanOutAll cfg h record bs w).2.1.logs.reads)
    (hbs : ∀ b ∈ bs, BindingOk pub (high w.logs.reads) tail ((itemOf record).toList ++ route) b) :
    ∀ b' ∈ (fanOutAll cfg h record bs w).1,
      BindingOk pub (high (fanOutAll cfg h record bs w).2.1.logs.reads) tail route b' := by
  induction bs generalizing w with
  | nil => intro b' hb'; simp [fanOutAll] at hb'
  | cons b bs ih =>
    intro b' hb'
    simp only [fanOutAll, mem_append, Option.mem_toList] at hst hb' ⊢
    have hb := hbs b mem_cons_self
    have hpre := fanOutLocked_extends cfg h b record w
    have hpre' := fanOutAll_extends cfg h record bs (fanOutLocked cfg h b record w).2.1
    rcases hb' with hb' | hb'
    · exact (fanOutLocked_ok (hst.of_extends hpre') hb hb').raise (high_mono hpre')
    · exact ih hst (fun c hc => (hbs c (mem_cons_of_mem b hc)).raise (high_mono hpre)) b' hb'

theorem fanOutQueue_ok (n : Nat) (hst : StoreOk pub (fanOutQueue cfg n h w).2.1.logs.reads)
    (hok : HostOk pub h w.logs.reads) :
    HostOk pub (fanOutQueue cfg n h w).1 (fanOutQueue cfg n h w).2.1.logs.reads := by
  induction n generalizing h w with
  | zero => exact hok
  | succ n ih =>
    rcases Queue.next_open hok.queueOpen with ⟨hnext, -⟩ | ⟨record, queue, hnext, hbuf, hq', -⟩
    · simp only [fanOutQueue, hnext]
      exact hok
    · simp only [fanOutQueue, hnext] at hst ⊢
      have hpre := fanOutAll_extends cfg { h with queue := queue } record h.deliveries w
      have hst' := hst.of_extends (fanOutQueue_extends cfg n _ _)
      have hitems : items h.queue.buf = (itemOf record).toList ++ items queue.buf := by
        rw [hbuf, items_cons]
      refine ih hst ⟨hq', ?_, fun m hm => (hok.tail_le m hm).trans (high_mono hpre), ?_⟩
      · intro s hs
        have hs' : Item.record s ∈ items h.queue.buf := by
          rw [hitems]
          exact mem_append_right _ hs
        exact (hok.bounded s hs').trans (high_mono hpre)
      · refine fanOutAll_ok hst' ?_
        intro b hb
        have := hok.bindings b hb
        rwa [hitems] at this

theorem drainLocked_ok {m : Nat} (n : Nat) (hb : BindingOk pub m tail route b)
    (hafter : (drainLocked n b w).1 = some b') : BindingOk pub m tail route b' := by
  induction n generalizing b w with
  | zero =>
    cases hafter
    exact hb
  | succ n ih =>
    rcases Queue.next_open hb.queueOpen with ⟨hnext, -⟩ | ⟨record, queue, hnext, hbuf, hq', -⟩
    · simp only [drainLocked, hnext] at hafter
      cases hafter
      exact hb
    · simp only [drainLocked, hnext] at hafter
      rcases hp : w.publish b.link record with ⟨answer, w'⟩
      rw [hp] at hafter
      cases answer with
      | ok =>
        refine ih ?_ hafter
        have hflow := hb.flow
        rw [hbuf, items_cons] at hflow
        unfold DeliveryBinding.advance
        split
        · exact ⟨hq', hflow.publish⟩
        · exact ⟨hq', hflow.publish⟩
      | wouldBlock =>
        cases hafter
        exact hb
      | failed => cases hafter

theorem drainAll_ok {m : Nat} {bs : List (DeliveryBinding Link)}
    (hbs : ∀ b ∈ bs, BindingOk pub m tail route b) :
    ∀ b' ∈ (drainAll bs w).1, BindingOk pub m tail route b' := by
  induction bs generalizing w with
  | nil => intro b' hb'; simp [drainAll] at hb'
  | cons b bs ih =>
    intro b' hb'
    simp only [drainAll, mem_append, Option.mem_toList] at hb'
    rcases hb' with hb' | hb'
    · exact drainLocked_ok _ (hbs b mem_cons_self) hb'
    · exact ih (forall_mem_cons.mp hbs).2 b' hb'

/-! ## The host-level steps -/

theorem pumpHost_ok (hst : StoreOk pub (pumpHost cfg h w).2.1.logs.reads)
    (hok : HostOk pub h w.logs.reads) :
    HostOk pub (pumpHost cfg h w).1 (pumpHost cfg h w).2.1.logs.reads := by
  simp only [pumpHost, drainAll_reads] at hst ⊢
  have hfan := fanOutQueue_ok h.queue.len hst hok
  exact ⟨hfan.queueOpen, hfan.bounded, hfan.tail_le, drainAll_ok hfan.bindings⟩

variable {tip : Nat}

theorem resetToTip_ok (cfg : Config) (path : ResetPath) {queue : Queue Encoded} (stopped : Bool)
    (hok : Repairable pub h reads) (hle : high reads ≤ tip) (htip : high w.logs.reads = tip)
    (hopen : queue.closed = false) (hsub : items queue.buf ⊆ items h.queue.buf) :
    HostOk pub { (resetToTip cfg path h tip w).1 with queue := queue, stopped := stopped }
      (resetToTip cfg path h tip w).2.1.logs.reads := by
  obtain ⟨hreads, -, -, hknown, hseq, hbs⟩ := resetToTip_spec cfg path h tip w
  rw [hreads]
  have htail : ∀ q s, ({ (resetToTip cfg path h tip w).1 with queue := q, stopped := s } :
      HostBinding Link).tail = some tip := by
    intro q s
    simp [HostBinding.tail, hknown, hseq]
  refine ⟨hopen, fun s hs => ?_, fun n hn => ?_, fun b' hb' => ?_⟩
  · rw [htip]
    exact (hok.bounded s (hsub hs)).trans hle
  · cases hn
    exact le_of_eq htip.symm
  · obtain ⟨b, hb, b'', hreset, rfl⟩ := hbs b' hb'
    obtain ⟨tail, hbind⟩ := hok.bindings b hb
    rw [htip, htail]
    exact hbind.told hsub hle hreset

theorem Repairable.closed_all (hok : Repairable pub h reads) (stopped known : Bool)
    {queue : Queue Encoded} (hopen : queue.closed = false)
    (hsub : items queue.buf ⊆ items h.queue.buf) (hknown : known = true → h.tailKnown = true) :
    HostOk pub ({ h with queue := queue, stopped := stopped, deliveries := [],
                         tailKnown := known } : HostBinding Link) reads := by
  refine ⟨hopen, fun s hs => hok.bounded s (hsub hs), fun n hn => hok.tail_le n ?_, by simp⟩
  cases known with
  | false => simp [HostBinding.tail] at hn
  | true =>
    simp only [HostBinding.tail, if_true] at hn
    simp [HostBinding.tail, hknown rfl, hn]

theorem items_clear {q : Queue Encoded} (hopen : q.closed = false) (l : List Item) :
    items q.clear.buf ⊆ l := by
  rw [Queue.clear_buf hopen]
  exact nil_subset l

theorem Restart.ok {path : ResetPath} {stopped : Bool} {h' : HostBinding Link} {w' : World Link}
    (hr : Restart cfg path stopped h w h' w') (hst : StoreOk pub w'.logs.reads)
    (hok : Repairable pub h w.logs.reads) : HostOk pub h' w'.logs.reads := by
  have hopen : h.queue.clear.closed = false := by simpa using hok.queueOpen
  cases hr with
  | closed reason hlogs =>
    rw [closeAll_reads, hlogs]
    exact hok.closed_all _ _ hopen (items_clear hok.queueOpen _) id
  | @reset w' tip hlogs =>
    rw [(resetToTip_spec cfg path h tip w').1, hlogs] at hst
    refine resetToTip_ok cfg path _ hok (hst.high_le_answer rfl) ?_ hopen
      (items_clear hok.queueOpen _)
    rw [hlogs]
    exact hst.high_append rfl

/-! ## A gap in the tail -/

/-- The outcomes of a probe: it failed, or the page it was answered is logged and,
when there is no hole, no public record lies in the gap. -/
theorem probeGap_cases (pub : Nat → Prop) (cfg : Config) (last seq : Nat) (w : World Link) :
    (probeGap cfg last seq w = ((true, 0, true), w)) ∨
      ∃ page hole w', w.answers.page = some page ∧
        probeGap cfg last seq w = ((hole, page.capturedTip, false), w') ∧
        w'.logs = { w.logs with
          reads := w.logs.reads ++ [.page (probeRequest cfg last seq) page] } ∧
        (hole = false → Truthful pub (probeRequest cfg last seq) page →
          ∀ p, pub p → last < p → p < seq → False) := by
  unfold probeGap
  split
  · exact .inl rfl
  · rename_i page hanswer
    refine .inr ⟨page, ?_⟩
    have hfrom : (probeRequest cfg last seq).fromSeq ≤ last + 1 := succ64_le last
    split
    · rename_i first rest hevents
      refine ⟨_, _, hanswer, rfl, rfl, fun hhole htruth p hp hlast hseq => ?_⟩
      simp only [Truthful, hevents] at htruth
      simp only [decide_eq_false_iff_not, not_lt] at hhole
      exact htruth p hp (by omega) (by omega)
    · rename_i hevents
      refine ⟨_, _, hanswer, rfl, rfl, fun hhole htruth p hp hlast hseq => ?_⟩
      simp only [Truthful, hevents] at htruth
      simp only [decide_eq_false_iff_not, not_lt] at hhole
      have := succ64_le page.coveredThrough
      exact htruth p hp (by omega) (by omega)

/-- A page the store may answer to a probe in a journal with the public sequences `pub`. It
scanned at most `scanLimit` positions from `fromSeq` on, through `coveredThrough`, and its
event is the first public one among them. -/
structure Scanned (pub : Nat → Prop) (request : ProbeRequest) (page : JournalPage) : Prop where
  bounded : page.coveredThrough < request.fromSeq + request.scanLimit
  within : ∀ first ∈ page.events.head?, first ≤ page.coveredThrough
  truthful : Truthful pub request page

variable {seq : Nat}

/-- What `probeGap` asks when `seq` skips a position: nothing wraps around. -/
theorem probeRequest_eq (cfg : Config) {last : Nat} (hgap : last + 1 < seq) (hseq : seq < 2 ^ 64)
    : sub64 seq last = seq - last ∧
      sub64 (sub64 seq last) 1 = seq - last - 1 ∧ probeRequest cfg last seq =
        { fromSeq := last + 1, limit := 1, scanLimit := min (seq - last - 1) cfg.maxGapProbe } := by
  have hfirst : sub64 seq last = seq - last := by
    unfold sub64
    omega
  have hsecond : sub64 (seq - last) 1 = seq - last - 1 := by
    unfold sub64
    omega
  have hfrom : succ64 last = last + 1 := Nat.mod_eq_of_lt (by omega)
  rw [probeRequest, hfirst, hsecond, hfrom]
  exact ⟨rfl, rfl, rfl⟩

/-- A page that does not reach the predecessor of `seq` is answered as a hole. -/
theorem probeGap_short {last : Nat} {w : World Link} {page : JournalPage} (hseq : seq < 2 ^ 64)
    (hanswer : w.answers.page = some page)
    (hwithin : ∀ first ∈ page.events.head?, first ≤ page.coveredThrough)
    (hshort : page.coveredThrough + 1 < seq) : (probeGap cfg last seq w).1.1 = true := by
  unfold probeGap
  rw [hanswer]
  dsimp only
  split
  · rename_i first rest hevents
    have hle : first ≤ page.coveredThrough := hwithin first (by simp [hevents])
    exact decide_eq_true (by omega)
  · have hcovered : succ64 page.coveredThrough = page.coveredThrough + 1 :=
      Nat.mod_eq_of_lt (by omega)
    exact decide_eq_true (by omega)

/-- A probe answers no hole only if no public record lies strictly between `last` and `seq`. An
error, a scan that stopped short and a gap wider than the cap are holes. -/
theorem probeGap_misses_no_hole {cfg : Config} {last seq : Nat} {w : World Link}
    (hgap : last + 1 < seq) (hseq : seq < 2 ^ 64) (hcap : 0 < cfg.maxGapProbe)
    (hpage : ∀ page, w.answers.page = some page → Scanned pub (probeRequest cfg last seq) page) :
    ((probeGap cfg last seq w).1.1 = false → ∀ p, pub p → last < p → ¬ p < seq) ∧
      (w.answers.page = none → (probeGap cfg last seq w).1.1 = true) ∧
      (∀ page, w.answers.page = some page → page.coveredThrough + 1 < seq →
        (probeGap cfg last seq w).1.1 = true) ∧
      (cfg.maxGapProbe < seq - last - 1 → (probeGap cfg last seq w).1.1 = true) ∧
      0 < (probeRequest cfg last seq).scanLimit ∧
      (probeRequest cfg last seq).scanLimit ≤ cfg.maxGapProbe ∧
      (sub64 seq last : Int) = seq - last ∧ (sub64 (sub64 seq last) 1 : Int) = seq - last - 1 := by
  obtain ⟨hfirst, hsecond, hrequest⟩ := probeRequest_eq cfg hgap hseq
  have hfailed : w.answers.page = none → (probeGap cfg last seq w).1.1 = true := by
    intro hnone
    rw [probeGap, hnone]
  have hshort : ∀ page, w.answers.page = some page → page.coveredThrough + 1 < seq →
      (probeGap cfg last seq w).1.1 = true :=
    fun page hanswer => probeGap_short hseq hanswer (hpage page hanswer).within
  refine ⟨?_, hfailed, hshort, ?_, ?_, ?_, by omega, by omega⟩
  · intro hhole p hp hlast hlt
    rcases probeGap_cases pub cfg last seq w with
      hprobe | ⟨page, hole, w', hanswer, hprobe, -, hclear⟩
    · rw [hprobe] at hhole
      cases hhole
    · rw [hprobe] at hhole
      exact hclear hhole (hpage page hanswer).truthful p hp hlast hlt
  · -- the scan of a wide gap ends before the predecessor of `seq`
    intro hwide
    cases hanswer : w.answers.page with
    | none => exact hfailed hanswer
    | some page =>
      have hbounded := (hpage page hanswer).bounded
      rw [hrequest] at hbounded
      dsimp only at hbounded
      exact hshort page hanswer (by omega)
  · rw [hrequest]
    dsimp only
    omega
  · exact min_le_right _ _

/-- Nothing public lies between 0 and 3, and the page covers both positions. -/
theorem probeGap_misses_no_hole_covered :
    ((probeGap (byteConfig 4 4) 0 3 { answers := { page := some ⟨[], 2, 3⟩ }, logs := {} } :
      (Bool × Nat × Bool) × World Nat).1.1 = false) ∧ ∀ p, p = 3 → 0 < p → ¬ p < 3 := by
  have hpage : ∀ page, some ⟨[], 2, 3⟩ = some page →
      Scanned (· = 3) (probeRequest (byteConfig 4 4) 0 3) page := by
    rintro page ⟨⟩
    exact ⟨by decide, by simp, fun p hp _ => by simp [hp]⟩
  have hprobe := probeGap_misses_no_hole
    (w := (⟨{ page := some ⟨[], 2, 3⟩ }, {}⟩ : World Nat)) (by decide) (by decide) (by decide) hpage
  exact ⟨by decide, hprobe.1 (by decide)⟩

theorem gapTip_cases {probeErr : Bool} (htip : probeErr = false → high w.logs.reads = tip)
    (hst : StoreOk pub (gapTip tip probeErr w).2.logs.reads) :
    (gapTip tip probeErr w).1 = 0 ∨
      high (gapTip tip probeErr w).2.logs.reads = (gapTip tip probeErr w).1 := by
  unfold gapTip at hst ⊢
  cases probeErr with
  | false => exact .inr (htip rfl)
  | true =>
    rw [if_pos rfl] at hst ⊢
    rcases w.readTip_cases with ⟨w', hw, hlogs⟩ | ⟨t, w', hw, hlogs⟩
    · rw [hw]
      exact .inl rfl
    · rw [hw] at hst ⊢
      rw [hlogs] at hst ⊢
      exact .inr (hst.high_append rfl)

/-- After a hole all bindings are closed and the tail is unknown, or all are reset to a
tip that reaches the record's predecessor. -/
theorem resetForGapLocked_ok {probeErr : Bool} (htip : probeErr = false → high w.logs.reads = tip)
    (hseq : 1 < seq) (hst : StoreOk pub (resetForGapLocked cfg h seq tip probeErr w).2.logs.reads)
    (hok : HostOk pub h w.logs.reads) :
    HostOk pub (resetForGapLocked cfg h seq tip probeErr w).1
        (resetForGapLocked cfg h seq tip probeErr w).2.logs.reads ∧
      ∀ n, (resetForGapLocked cfg h seq tip probeErr w).1.tail = some n → seq ≤ n + 1 := by
  have hpre := gapTip_extends tip probeErr w
  have hhigh : StoreOk pub _ → _ := gapTip_cases htip
  unfold resetForGapLocked at hst ⊢
  rcases hg : gapTip tip probeErr w with ⟨t, w'⟩
  rw [hg] at hpre hhigh hst
  dsimp only at hpre hhigh hst ⊢
  split
  · rw [closeAll_reads]
    refine ⟨?_, fun n hn => by simp [HostBinding.tail] at hn⟩
    exact (hok.raise hpre).repairable.closed_all _ false hok.queueOpen (List.Subset.refl _)
      (by simp)
  · rename_i hreach
    rw [if_neg hreach] at hst
    obtain ⟨hreads, hqueue, -, hknown, hseq', -⟩ := resetToTip_spec cfg .gap h t w'
    refine ⟨?_, fun n hn => ?_⟩
    · rw [hreads] at hst
      have ht : high w'.logs.reads = t := by
        refine (hhigh hst).resolve_left ?_
        rintro rfl
        exact hreach (by simpa [succ64] using hseq)
      have := resetToTip_ok cfg .gap (resetToTip cfg .gap h t w').1.stopped
        (hok.raise hpre).repairable (le_of_eq ht) ht hok.queueOpen (List.Subset.refl _)
      rwa [← hqueue] at this
    · simp only [HostBinding.tail, hknown, hseq', if_true, Option.some.injEq] at hn
      have := succ64_le t
      omega

theorem HostOk.succ64_tailSeq (hok : HostOk pub h reads) (hst : StoreOk pub reads)
    (hknown : h.tailKnown = true) : succ64 h.tailSeq = h.tailSeq + 1 := by
  have hle := hok.tail_le h.tailSeq (by simp [HostBinding.tail, hknown])
  have := hst.high_small
  exact Nat.mod_eq_of_lt (by omega)

theorem probe_ok (hst : StoreOk pub (probe cfg h seq w).2.logs.reads)
    (hok : HostOk pub h w.logs.reads) :
    HostOk pub (probe cfg h seq w).1 (probe cfg h seq w).2.logs.reads ∧
      ∀ n, (probe cfg h seq w).1.tail = some n → ∀ p, pub p → n < p → p < seq → False := by
  have hsucc := hok.succ64_tailSeq (hst.of_extends (probe_extends cfg h seq w))
  unfold probe at hst ⊢
  split
  · rename_i hgap
    rw [if_pos hgap] at hst
    have hseq : 1 < seq := by
      have := hsucc hgap.1
      omega
    rcases probeGap_cases pub cfg h.tailSeq seq w with
      hp | ⟨page, hole, w', -, hp, hlogs, hclear⟩
    · rw [hp] at hst ⊢
      have htip : true = false → high w.logs.reads = 0 := by simp
      obtain ⟨hok', htail⟩ := resetForGapLocked_ok htip hseq hst hok
      exact ⟨hok', fun n hn p _ hnp hps => by have := htail n hn; omega⟩
    · rw [hp] at hst ⊢
      have hpre : w.logs.reads <+: w'.logs.reads := by
        rw [hlogs]
        exact prefix_append _ _
      cases hole with
      | false =>
        simp only [Bool.false_eq_true, if_false] at hst ⊢
        refine ⟨hok.raise hpre, fun n hn p hp' hnp hps => ?_⟩
        simp only [HostBinding.tail, hgap.1, if_true, Option.some.injEq] at hn
        subst hn
        rw [hlogs] at hst
        exact hclear rfl (hst.truthful _ page (by simp)) p hp' hnp hps
      | true =>
        simp only [if_true] at hst ⊢
        have htip : high w'.logs.reads = page.capturedTip := by
          have hst' := hst.of_extends (resetForGapLocked_extends ..)
          rw [hlogs] at hst' ⊢
          exact hst'.high_append rfl
        obtain ⟨hok', htail⟩ := resetForGapLocked_ok (fun _ => htip) hseq hst (hok.raise hpre)
        exact ⟨hok', fun n hn p _ hnp hps => by have := htail n hn; omega⟩
  · rename_i hgap
    refine ⟨hok, fun n hn p _ hnp hps => ?_⟩
    simp only [HostBinding.tail] at hn
    split at hn
    · rename_i hknown
      cases hn
      have := hsucc hknown
      exact hgap ⟨hknown, by omega⟩
    · cases hn

/-! ## Receiving -/

theorem HostBinding.raiseTail_tail (h : HostBinding Link) (seq : Nat) :
    (h.raiseTail seq).tail = h.tail.map (max · seq) := by
  unfold HostBinding.raiseTail HostBinding.tail
  cases hk : h.tailKnown with
  | false => simp
  | true =>
    by_cases hlt : h.tailSeq < seq
    · simp [hlt, max_eq_right hlt.le]
    · simp [hk, hlt, max_eq_left (not_lt.mp hlt)]

theorem HostOk.raiseTail_repairable (hok : HostOk pub h reads) (hseq : seq ≤ high reads)
    : Repairable pub (h.raiseTail seq) reads := by
  refine ⟨by simpa using hok.queueOpen, by simpa using hok.bounded, fun n hn => ?_, ?_⟩
  · rw [h.raiseTail_tail] at hn
    obtain ⟨m, hm, rfl⟩ := Option.map_eq_some_iff.mp hn
    exact max_le (hok.tail_le m hm) hseq
  · simpa using hok.repairable.bindings

theorem HostOk.enqueue_enduring (hok : HostOk pub h reads) (hcls : record.cls = .enduring)
    (hseq : record.seq ≤ high reads)
    (hgap : ∀ n, h.tail = some n → ∀ p, pub p → n < p → p < record.seq → False)
    (hne : (h.queue.enqueue record).2 ≠ some .overflow) :
    HostOk pub { h.raiseTail record.seq with queue := (h.queue.enqueue record).1 } reads := by
  have hitems := items_enqueue hok.queueOpen hne
  rw [items_enduring hcls] at hitems
  have htail : ({ h.raiseTail record.seq with queue := (h.queue.enqueue record).1 } :
      HostBinding Link).tail = h.tail.map (max · record.seq) := h.raiseTail_tail record.seq
  refine ⟨by simpa using hok.queueOpen, fun s hs => ?_, fun n hn => ?_, fun b hb => ?_⟩
  · rw [hitems] at hs
    rcases mem_append.mp hs with hs | hs
    · exact hok.bounded s hs
    · cases mem_singleton.mp hs
      exact hseq
  · rw [htail] at hn
    obtain ⟨m, hm, rfl⟩ := Option.map_eq_some_iff.mp hn
    exact max_le (hok.tail_le m hm) hseq
  · rw [htail]
    rw [hitems]
    have hbind := hok.bindings b (by simpa using hb)
    exact ⟨hbind.queueOpen, hbind.flow.receive hseq hgap⟩

theorem HostOk.enqueue_other (hok : HostOk pub h reads) (hitem : itemOf record = none)
    (hne : (h.queue.enqueue record).2 ≠ some .overflow) :
    HostOk pub { h with queue := (h.queue.enqueue record).1 } reads := by
  have hitems : items (h.queue.enqueue record).1.buf = items h.queue.buf := by
    simpa [hitem] using items_enqueue hok.queueOpen hne
  refine ⟨by simpa using hok.queueOpen, fun s hs => ?_, hok.tail_le, fun b hb => ?_⟩
  · rw [hitems] at hs
    exact hok.bounded s hs
  · rw [hitems]
    exact hok.bindings b hb

theorem receiveHost_ok (hcls : record.cls = .enduring ∨ itemOf record = none)
    (hst : StoreOk pub (receiveHost cfg h record w).2.1.logs.reads)
    (hok : HostOk pub h w.logs.reads) :
    HostOk pub (receiveHost cfg h record w).1 (receiveHost cfg h record w).2.1.logs.reads := by
  unfold receiveHost at hst ⊢
  split
  · rename_i hend
    rw [if_pos hend] at hst
    have hsent : w.logs.reads <+: (w.noteSent record.seq).logs.reads := prefix_append _ _
    have hpre := probe_extends cfg h record.seq (w.noteSent record.seq)
    rcases hp : probe cfg h record.seq (w.noteSent record.seq) with ⟨h₁, w₁⟩
    rw [hp] at hst hpre
    dsimp only at hst hpre ⊢
    have hst₁ : StoreOk pub (probe cfg h record.seq (w.noteSent record.seq)).2.logs.reads := by
      rw [hp]
      exact hst.of_extends (enqueueHost_extends ..)
    obtain ⟨hok₁, hgap⟩ := probe_ok hst₁ (hok.raise hsent)
    rw [hp] at hok₁ hgap
    have hseq : record.seq ≤ high w₁.logs.reads :=
      le_high (e := .sent record.seq) (hpre.subset (by simp [World.noteSent]))
    rw [enqueueHost_eq cfg (by simpa using hok₁.queueOpen)] at hst ⊢
    split
    · rename_i hover
      rw [if_pos hover] at hst
      exact (repair_restart cfg _ w₁).ok hst ((hok₁.raiseTail_repairable hseq).stop true)
    · rename_i hne
      rw [HostBinding.raiseTail_queue] at hne ⊢
      exact hok₁.enqueue_enduring hend hseq hgap hne
  · rename_i hend
    rw [if_neg hend, enqueueHost_eq cfg hok.queueOpen] at hst
    rw [enqueueHost_eq cfg hok.queueOpen]
    split
    · rename_i hover
      rw [if_pos hover] at hst
      exact (repair_restart cfg _ w).ok hst (hok.repairable.stop true)
    · rename_i hne
      exact hok.enqueue_other (hcls.resolve_left hend) hne

theorem anchorLocked_ok (hst : StoreOk pub (reads ++ [.tip tip])) (hok : HostOk pub h reads) :
    HostOk pub (h.anchorLocked .trusted tip) (reads ++ [.tip tip]) := by
  have hle : high reads ≤ tip := hst.high_le_answer rfl
  have htip : high (reads ++ [.tip tip]) = tip := hst.high_append rfl
  refine ⟨hok.queueOpen, fun s hs => ?_, fun n hn => ?_, fun b hb => ?_⟩
  · rw [htip]
    exact (hok.bounded s hs).trans hle
  · cases hn
    exact le_of_eq htip.symm
  · obtain ⟨b', hb', rfl⟩ := mem_map.mp hb
    have hbind := hok.bindings b' hb'
    rw [htip]
    exact ⟨hbind.queueOpen, hbind.flow.trusted hle⟩

/-! ## Sessions -/

theorem classify_cls {frame : Frame} (h : classify cfg frame = .ok record) :
    record.cls = .enduring ∨ itemOf record = none := by
  unfold classify at h
  split at h
  · cases h
  · split at h
    · cases h
    · split at h
      · cases h
        exact .inl rfl
      · cases h
  · split at h
    · cases h
    · split at h
      · cases h
        exact .inr rfl
      · cases h
  · cases h

/-- The invariant of a session, while the store is as assumed. -/
def SessionOk (pub : Nat → Prop) (σ : Session Link) : Prop :=
  StoreOk pub σ.logs.reads → ∀ h, σ.host = some h → HostOk pub h σ.logs.reads

variable {σ : Session Link}

variable {answers : Answers}

theorem withHost_ok
    {f : HostBinding Link → World Link → HostBinding Link × World Link × List RelayError}
    (hpre : ∀ h w, w.logs.reads <+: (f h w).2.1.logs.reads)
    (hf : ∀ h w, StoreOk pub (f h w).2.1.logs.reads → HostOk pub h w.logs.reads → HostOk pub (f h
      w).1 (f h w).2.1.logs.reads) (hσ : SessionOk pub σ) :
    SessionOk pub (σ.withHost answers f).1 := by
  unfold Session.withHost
  split
  · exact hσ
  · split
    · exact hσ
    · rename_i h hh
      intro hst h' hh'
      cases hh'
      have hprefix := hpre h ⟨answers, σ.logs⟩
      exact hf h ⟨answers, σ.logs⟩ hst (hσ (hst.of_extends hprefix) h hh)

section

variable (hσ : SessionOk pub σ)
include hσ

theorem opened_ok : SessionOk pub (σ.opened cfg).1 := by
  unfold Session.opened
  split
  · exact hσ
  · split
    · exact hσ
    · split
      · exact hσ
      · rename_i queue hq
        obtain ⟨hopen, hbuf⟩ := Queue.new_ok hq
        intro _ h hh
        cases hh
        exact ⟨hopen, by simp [hbuf, items], by simp [HostBinding.tail], by simp⟩

theorem subscribe_ok [LinearOrder Link] {link : Link} : SessionOk pub (σ.subscribe cfg link).1 := by
  unfold Session.subscribe
  split
  · exact hσ
  · split
    · exact hσ
    · rename_i h hh
      split
      · exact hσ
      · split
        · exact hσ
        · rename_i queue hq
          obtain ⟨hopen, hbuf⟩ := Queue.new_ok hq
          intro hst h' hh'
          cases hh'
          have hok := hσ hst h hh
          refine ⟨hok.queueOpen, hok.bounded, hok.tail_le, fun b hb => ?_⟩
          rcases (mem_orderedInsert _).mp hb with rfl | hb
          · refine ⟨hopen, ?_⟩
            rw [hbuf]
            exact Flow.join (items_plain _) hok.bounded hok.tail_le
          · exact hok.bindings b hb

theorem unsubscribe_ok [DecidableEq Link] {link : Link} : SessionOk pub (σ.unsubscribe link) := by
  intro hst h' hh'
  obtain ⟨h, hh, rfl⟩ := Option.map_eq_some_iff.mp hh'
  have hok := hσ hst h hh
  exact ⟨hok.queueOpen, hok.bounded, hok.tail_le, fun b hb => hok.bindings b (mem_filter.mp hb).1⟩

theorem receive_ok {frame : Frame} : SessionOk pub (σ.receive cfg frame answers).1 := by
  unfold Session.receive
  split
  · exact hσ
  · split
    · exact hσ
    · split
      · exact hσ
      · split
        · exact hσ
        · exact hσ
        · rename_i record hrec
          exact withHost_ok (receiveHost_extends cfg · record ·)
            (fun h w => receiveHost_ok (classify_cls hrec)) hσ

theorem anchor_ok : SessionOk pub (σ.anchor answers).1 := by
  refine withHost_ok (fun h w => ?_) (fun h w hst hok => ?_) hσ
  · rcases w.readTip_cases with ⟨w', hw, hlogs⟩ | ⟨tip, w', hw, hlogs⟩
    · rw [hw]
      exact (prefix_rfl).trans (by rw [hlogs])
    · rw [hw]
      exact (prefix_append _ _).trans (by rw [hlogs])
  · rcases w.readTip_cases with ⟨w', hw, hlogs⟩ | ⟨tip, w', hw, hlogs⟩
    · rw [hw]
      rwa [hlogs]
    · rw [hw] at hst ⊢
      rw [hlogs] at hst ⊢
      exact anchorLocked_ok hst hok

end

theorem apply_ok [LinearOrder Link] (op : Op Link) (hσ : SessionOk pub σ) :
    SessionOk pub (apply cfg σ op).1 := by
  cases op with
  | opened => exact opened_ok hσ
  | subscribe link => exact subscribe_ok hσ
  | unsubscribe link => exact unsubscribe_ok hσ
  | receive frame answers => exact receive_ok hσ
  | pump answers => exact withHost_ok (pumpHost_extends cfg) (fun h w => pumpHost_ok) hσ
  | hostLinkClosed answers =>
    exact withHost_ok (fun h w => (repair_restart cfg _ w).extends)
      (fun h w hst hok => (repair_restart cfg _ w).ok hst (hok.repairable.stop true)) hσ
  | resync answers =>
    exact withHost_ok (fun h w => (resyncHost_restart cfg h w).extends)
      (fun h w hst hok => (resyncHost_restart cfg h w).ok hst hok.repairable) hσ
  | anchor answers => exact anchor_ok hσ
  | _ =>
    intro _ h hh
    cases hh

theorem log_gapless [LinearOrder Link] {ops : List (Op Link)}
    (hrun : Runs.exec (step cfg) {} ops = some σ) (hst : StoreOk pub σ.logs.reads)
    (hh : σ.host = some h) (hb : b ∈ h.deliveries) : Gapless pub b.log := by
  have hinv : SessionOk pub σ := by
    refine Runs.exec_invariant (fun s op t hs hok => ?_) hrun fun _ h hh => by cases hh
    cases hs
    exact apply_ok op hok
  exact ((hinv hst h hh).bindings b hb).flow.log_gapless

/-- The mark of a position the tail was anchored at: by `Anchor`, or by a reset. -/
def Anchored (mark : Item) (a : Nat) : Prop := mark = .trusted a ∨ mark = .told a

theorem floor_of_anchored {l : List Item} {mark : Item} {a : Nat} (h : Anchored mark a) :
    ∃ f, floor (l ++ [mark]) = some f ∧ f ≤ a := by
  rcases h with rfl | rfl
  · exact ⟨a, by simp, le_refl a⟩
  · refine ⟨min ((floor l).getD a) a, ?_, min_le_right _ _⟩
    simp [DeliveryLog.floor_append, DeliveryLog.floorStep]

/-- Let a binding be present when the tail is anchored at `a`, and let an enduring
record `s` be published to its link later. Then every public sequence from above `a`
through `s`, and above every tip `Anchor` itself read in between, was published to the
link or lies under a session.reset published to it before `s`. -/
theorem published_or_reset [LinearOrder Link] {ops : List (Op Link)} {σ : Session Link}
    (hrun : Runs.exec (step cfg) {} ops = some σ) (hst : StoreOk pub σ.logs.reads)
    {h : HostBinding Link} (hh : σ.host = some h) {b : DeliveryBinding Link}
    (hb : b ∈ h.deliveries) {before mid after : List Item} {mark : Item} {a s p : Nat}
    (hmark : Anchored mark a)
    (hlog : b.log = before ++ mark :: (mid ++ .record s :: after))
    (hpub : pub p) (hap : a < p) (hps : p ≤ s) (hanchor : ∀ c, Item.trusted c ∈ mid → c < p) :
    Item.record p ∈ before ++ mark :: (mid ++ [.record s]) ∨
      ∃ t, p ≤ t ∧ Item.reset t ∈ before ++ mark :: mid := by
  rcases Nat.lt_or_eq_of_le hps with hlt | rfl
  · obtain ⟨f₀, hf₀, hle₀⟩ := floor_of_anchored (l := before) hmark
    -- the floor at `s` is still below `p`
    have hfloor : ∃ f, floor (before ++ mark :: mid) = some f ∧ f < p := by
      rw [append_cons]
      obtain ⟨f, hf⟩ := DeliveryLog.floor_some_append hf₀ mid
      have hf' := DeliveryLog.floor_le_of_marks (a := p - 1) hf₀ (by omega)
        (fun c hc => by have := hanchor c hc; omega) hf
      exact ⟨f, hf, by omega⟩
    obtain ⟨f, hf, hfp⟩ := hfloor
    have hsplit : b.log = (before ++ mark :: mid) ++ .record s :: after := by
      rw [hlog]
      simp
    obtain ⟨x, hx, hcov⟩ := log_gapless hrun hst hh hb _ s after hsplit f hf p hpub hfp hlt
    cases x with
    | record s' =>
      cases hcov
      refine .inl ?_
      have : before ++ mark :: (mid ++ [.record s]) = (before ++ mark :: mid) ++ [.record s] := by
        simp
      rw [this]
      exact mem_append_left _ hx
    | reset t => exact .inr ⟨t, hcov, hx⟩
    | _ => exact hcov.elim
  · exact .inl (by simp)

theorem state_of_run {ops : List (Op Nat)} {log : List Item}
    (hrun : (Runs.exec (step cfg) {} ops).bind (fun σ => σ.host.bind fun h => h.deliveries.head?.map
      fun b => decide (b.log = log ∧ σ.logs.reads = reads)) = some true) :
    ∃ σ h b, Runs.exec (step cfg) {} ops = some σ ∧ σ.host = some h ∧ b ∈ h.deliveries ∧
      b.log = log ∧ σ.logs.reads = reads := by
  obtain ⟨σ, hσ, hrest⟩ := Option.bind_eq_some_iff.mp hrun
  obtain ⟨h, hh, hlast⟩ := Option.bind_eq_some_iff.mp hrest
  obtain ⟨b, hb, hdecide⟩ := Option.map_eq_some_iff.mp hlast
  exact ⟨σ, h, b, hσ, hh, mem_of_head? hb, of_decide_eq_true hdecide⟩

/-- A run with a hole in the tail: record 2 is public and never relayed. -/
def gapRun : List (Op Nat) :=
  [.opened, .subscribe 0, .anchor { tips := [some 0] }, .receive (byteFrame 1) {},
   .pump { publishes := [.ok] },
   .receive (byteFrame 3) { page := some { events := [2], coveredThrough := 2, capturedTip := 3 } },
   .pump { publishes := [.ok, .ok] }]

theorem gapRun_state : ∃ σ h b, Runs.exec (step (byteConfig 4 4)) {} gapRun = some σ ∧
    σ.host = some h ∧ b ∈ h.deliveries ∧
    b.log = [.trusted 0, .record 1, .told 3, .reset 3, .record 3] ∧
    σ.logs.reads = [.tip 0, .sent 1, .sent 3, .page ⟨2, 1, 1⟩ ⟨[2], 2, 3⟩] :=
  state_of_run (by decide +kernel)

theorem gapRun_store : StoreOk (fun _ => True)
    [.tip 0, .sent 1, .sent 3, .page ⟨2, 1, 1⟩ ⟨[2], 2, 3⟩] where
  monotone := by decide
  truthful request page h := by
    simp only [mem_cons, reduceCtorEq, StoreEvent.page.injEq, not_mem_nil, or_false, false_or] at h
    obtain ⟨rfl, rfl⟩ := h
    intro p _ hfrom
    exact Nat.not_lt.mpr hfrom
  small := by decide

/-- In `gapRun` record 2 lies under the reset at 3. -/
theorem published_or_reset_gapRun :
    ∃ σ h b, Runs.exec (step (byteConfig 4 4)) {} gapRun = some σ ∧ σ.host = some h ∧
      b ∈ h.deliveries ∧ b.log = [] ++ .trusted 0 :: ([.record 1, .told 3, .reset 3] ++
        .record 3 :: []) ∧
      (Item.record 2 ∈ [] ++ .trusted 0 :: ([.record 1, .told 3, .reset 3] ++ [.record 3]) ∨
        ∃ t, 2 ≤ t ∧ Item.reset t ∈ [] ++ .trusted 0 :: [.record 1, .told 3, .reset 3]) := by
  obtain ⟨σ, h, b, hrun, hh, hb, hlog, hreads⟩ := gapRun_state
  have hst : StoreOk (fun _ => True) σ.logs.reads := hreads ▸ gapRun_store
  have hsplit : b.log = [] ++ .trusted 0 :: ([.record 1, .told 3, .reset 3] ++ .record 3 :: []) :=
    hlog
  have hcovered := published_or_reset (p := 2) hrun hst hh hb (.inl rfl) hsplit trivial
    (by decide) (by decide) (by simp)
  exact ⟨σ, h, b, hrun, hh, hb, hsplit, hcovered⟩

/-- A run that anchors twice: record 3 is public and committed between the two. -/
def reanchoredRun : List (Op Nat) :=
  [.opened, .subscribe 0, .anchor { tips := [some 0] }, .anchor { tips := [some 5] },
   .receive (byteFrame 6) {}, .pump { publishes := [.ok] }]

theorem reanchoredRun_state : ∃ σ h b, Runs.exec (step (byteConfig 4 4)) {} reanchoredRun = some σ ∧
    σ.host = some h ∧ b ∈ h.deliveries ∧ b.log = [.trusted 0, .trusted 5, .record 6] ∧
    σ.logs.reads = [.tip 0, .tip 5, .sent 6] :=
  state_of_run (by decide +kernel)

/-- A second `Anchor` moves the tail past a record nobody was told about: record 3 is
public, above the first anchored position and below the published record 6. -/
theorem reanchored_record_lost :
    ∃ σ h b, Runs.exec (step (byteConfig 4 4)) {} reanchoredRun = some σ ∧
      StoreOk (fun p => p = 3 ∨ p = 6) σ.logs.reads ∧ σ.host = some h ∧ b ∈ h.deliveries ∧
      Anchored (.trusted 0) 0 ∧ b.log = [] ++ .trusted 0 :: ([.trusted 5] ++ .record 6 :: []) ∧
      ¬ (Item.record 3 ∈ b.log ∨ ∃ t, 3 ≤ t ∧ Item.reset t ∈ b.log) := by
  obtain ⟨σ, h, b, hrun, hh, hb, hlog, hreads⟩ := reanchoredRun_state
  have hstore : StoreOk (fun p => p = 3 ∨ p = 6) σ.logs.reads := by
    rw [hreads]
    exact ⟨by decide, by simp, by decide⟩
  refine ⟨σ, h, b, hrun, hstore, hh, hb, .inl rfl, hlog, ?_⟩
  rw [hlog]
  simp

end Factory.Routing
