import Factory.Routing.RelayCoverage

/-!
# What a step owes the bindings it keeps

With no assumption about the tips the store answers, an enduring record that waits for a
binding, on its own queue or on the route queue, is accounted for by every step that keeps the
binding open: it is published, or it still waits, or a reset is told that reaches it or leaves
the tail at its tip (`HostCovers`). `Resync`, a repair and a gap reset anchor the tail at the
tip they name. An overflow in `fanOutLocked` does not move the tail, so a `Pump` accounts for
what it discards only when the tips it reads are in time (`InTime`): `discards_covered`.

`Carries` says it of one binding, from any position of its log on, and composes; each helper of
the relay carries the bindings it keeps.
-/

namespace Factory.Routing

open Function List Factory.Delivery
open DeliveryLog (Item)

variable {Link : Type}

/-! ## The property -/

/-- What a link has been told since position `n` of its log, followed by what waits for it on
its own queue and on the route queue. -/
def due (n : Nat) (b : DeliveryBinding Link) (route : List Rec) : List Item :=
  b.log.drop n ++ items (b.queue.buf ++ route)

/-- The tail is known and left at or below `tip`, or at the record right after it, which is
the one in hand and waits on the route queue. -/
def HostBinding.Anchored (h : HostBinding Link) (tip : Nat) : Prop :=
  h.tailKnown = true ∧ (h.tailSeq ≤ tip ∨
    h.tailSeq = succ64 tip ∧ Item.record h.tailSeq ∈ items h.queue.buf)

/-- Every enduring record that waited for a binding kept open is told or still waits, or a
reset is that reaches it or has the tail anchored at its tip. -/
def HostCovers (h h' : HostBinding Link) : Prop :=
  ∀ b ∈ h.deliveries, ∀ b' ∈ h'.deliveries, b'.link = b.link →
    ∀ s, .record s ∈ items (b.queue.buf ++ h.queue.buf) →
      .record s ∈ due b.log.length b' h'.queue.buf ∨
        ∃ tip, .reset tip ∈ due b.log.length b' h'.queue.buf ∧ (s ≤ tip ∨ h'.Anchored tip)

/-- A step between two sessions covers what the session had. -/
def Covers (σ σ' : Session Link) : Prop :=
  ∀ h h', σ.host = some h → σ'.host = some h' → HostCovers h h'

/-- Every tip the store answers a `Pump` is at least every enduring sequence the Host has sent,
or at least the tail's position when that is known. The other calls need nothing. -/
def InTime (σ : Session Link) : Op Link → Prop
  | .pump answers => ∀ h, σ.host = some h → ∀ tip, some tip ∈ answers.tips →
      (∀ s, .sent s ∈ σ.logs.reads → s ≤ tip) ∨ h.tailKnown = true ∧ h.tailSeq ≤ tip
  | _ => True

/-! ## One binding carried -/

/-- The record `s` is in the list, or a reset at a good tip is. -/
def Met (good : Nat → Nat → Prop) (s : Nat) (l : List Item) : Prop :=
  .record s ∈ l ∨ ∃ tip, .reset tip ∈ l ∧ good s tip

theorem Met.mono {good : Nat → Nat → Prop} {s : Nat} {l m : List Item} (h : Met good s l)
    (hlm : l ⊆ m) : Met good s m :=
  h.imp (fun hs => hlm hs) fun ⟨tip, htip, hgood⟩ => ⟨tip, hlm htip, hgood⟩

/-- `b'` is what is left of `b` when the route queue goes from `route` to `route'`: its queue
is open and holds nothing new, and what was met since any position of its log still is. -/
structure Carries (good : Nat → Nat → Prop) (route route' : List Rec)
    (b b' : DeliveryBinding Link) : Prop where
  link : b'.link = b.link
  queueOpen : b'.queue.closed = false
  old : ∀ s, .record s ∈ items b'.queue.buf → .record s ∈ items (b.queue.buf ++ route)
  length : b.log.length ≤ b'.log.length
  met : ∀ n ≤ b.log.length, ∀ s, Met good s (due n b route) → Met good s (due n b' route')

variable {good : Nat → Nat → Prop} {route route' route'' : List Rec}
  {b b' b'' : DeliveryBinding Link}

theorem items_append (l m : List Rec) : items (l ++ m) = items l ++ items m :=
  filterMap_append

theorem Carries.trans (h : Carries good route route' b b') (h' : Carries good route' route'' b' b'')
    (hroute : items route' ⊆ items route) : Carries good route route'' b b'' where
  link := h'.link.trans h.link
  queueOpen := h'.queueOpen
  old s hs := by
    have hmid := h'.old s hs
    rw [items_append] at hmid
    rcases mem_append.mp hmid with hmid | hmid
    · exact h.old s hmid
    · rw [items_append]
      exact mem_append_right _ (hroute hmid)
  length := h.length.trans h'.length
  met n hn s hs := h'.met n (hn.trans h.length) s (h.met n hn s hs)

/-- A move that loses nothing of what is due carries the binding. -/
theorem Carries.of_due (hlink : b'.link = b.link) (hopen : b'.queue.closed = false)
    (hold : items b'.queue.buf ⊆ items (b.queue.buf ++ route))
    (hlen : b.log.length ≤ b'.log.length)
    (hdue : ∀ n ≤ b.log.length, due n b route ⊆ due n b' route') :
    Carries good route route' b b' :=
  ⟨hlink, hopen, fun _ hs => hold hs, hlen, fun n hn _ hs => hs.mono (hdue n hn)⟩

/-- A binding that is left alone is carried while the route queue loses nothing. -/
theorem Carries.stay (hopen : b.queue.closed = false) (hroute : items route ⊆ items route') :
    Carries good route route' b b := by
  refine .of_due rfl hopen (by simp [items_append]) le_rfl fun n _ => ?_
  rw [due, due, items_append, items_append]
  grind

/-- A mark in the log of a binding carries it. -/
theorem Carries.mark (hopen : b.queue.closed = false) (x : Item) :
    Carries good route route b { b with log := b.log ++ [x] } := by
  refine .of_due rfl hopen (by simp [items_append]) (by simp) fun n hn => ?_
  unfold due
  rw [drop_append_of_le_length hn]
  simp

variable {g : Nat → Nat → Prop}

/-- A reset at a good tip carries the binding, whatever is dropped from its queue and the
route queue. -/
theorem Carries.reset {cfg : Config} {tip : Nat} (h : Carries g route route b b')
    (hreset : ResetTo cfg b' tip b'') (hgood : ∀ s, good s tip) :
    Carries good route route' b b'' := by
  refine ⟨hreset.link.trans h.link, hreset.queueOpen, ?_, ?_, ?_⟩
  · rw [hreset.buf, items_control]
    simp
  · rw [hreset.log]
    exact h.length
  · intro n _ s _
    refine .inr ⟨tip, ?_, hgood s⟩
    rw [due, hreset.buf, items_append, items_control]
    simp [resetOf]

/-! ## Every binding of a list carried -/

/-- Each binding of `bs'` is what is left of one of `bs`, and the links are among its links,
in order. -/
structure Kept (P : DeliveryBinding Link → DeliveryBinding Link → Prop)
    (bs bs' : List (DeliveryBinding Link)) : Prop where
  mem : ∀ b' ∈ bs', ∃ b ∈ bs, P b b'
  links : (bs'.map (·.link)).Sublist (bs.map (·.link))

variable {P Q R : DeliveryBinding Link → DeliveryBinding Link → Prop}
  {bs bs' bs'' : List (DeliveryBinding Link)}

theorem Kept.nil (bs : List (DeliveryBinding Link)) : Kept P bs [] :=
  ⟨by simp, nil_sublist _⟩

theorem Kept.trans (h : Kept P bs bs') (h' : Kept Q bs' bs'')
    (hR : ∀ a b c, P a b → Q b c → R a c) : Kept R bs bs'' := by
  refine ⟨fun c hc => ?_, h'.links.trans h.links⟩
  obtain ⟨b, hb, hbc⟩ := h'.mem c hc
  obtain ⟨a, ha, hab⟩ := h.mem b hb
  exact ⟨a, ha, hR a b c hab hbc⟩

/-- One more binding at the head, of which something or nothing is left. -/
theorem Kept.cons {after : Option (DeliveryBinding Link)} (h : Kept P bs bs')
    (hafter : ∀ c, after = some c → P b c ∧ c.link = b.link) :
    Kept P (b :: bs) (after.toList ++ bs') := by
  have hmem : ∀ c ∈ bs', ∃ a ∈ b :: bs, P a c := by
    intro c hc
    obtain ⟨a, ha, hac⟩ := h.mem c hc
    exact ⟨a, mem_cons_of_mem b ha, hac⟩
  cases after with
  | none => exact ⟨hmem, h.links.cons _⟩
  | some c =>
    obtain ⟨hc, hlink⟩ := hafter c rfl
    constructor
    · intro c' hc'
      rcases mem_cons.mp hc' with rfl | hc'
      · exact ⟨b, mem_cons_self, hc⟩
      · exact hmem c' hc'
    · simpa [hlink] using h.links

/-- The same bindings, each with something done to it that keeps its link. -/
theorem Kept.map {f : DeliveryBinding Link → DeliveryBinding Link}
    (hlink : ∀ b, (f b).link = b.link) (hf : ∀ b ∈ bs, P b (f b)) : Kept P bs (bs.map f) := by
  refine ⟨fun c hc => ?_, by simp [comp_def, hlink]⟩
  obtain ⟨b, hb, rfl⟩ := mem_map.mp hc
  exact ⟨b, hb, hf b hb⟩

theorem Kept.stay (hopen : ∀ b ∈ bs, b.queue.closed = false)
    (hroute : items route ⊆ items route') : Kept (Carries good route route') bs bs :=
  ⟨fun b hb => ⟨b, hb, .stay (hopen b hb) hroute⟩, List.Sublist.refl _⟩

/-! ## Fan-out and drain -/

variable {cfg : Config} {h : HostBinding Link} {w : World Link} {record : Rec}

theorem fanOutLocked_carries (hopen : b.queue.closed = false)
    (hgood : ∀ tip, some tip ∈ w.answers.tips → ∀ s, good s tip)
    (hafter : (fanOutLocked cfg h b record w).1 = some b') :
    Carries good (record :: route) route b b' := by
  rcases fanOutLocked_cases cfg h hopen record w with
    ⟨hne, hres, -⟩ | hres | ⟨tip, htip, -, w', hreset⟩
  · cases hres.symm.trans hafter
    have hitems := items_enqueue hopen hne
    refine .of_due rfl (by simpa using hopen) ?_ le_rfl fun n _ => ?_
    · rw [hitems, items_append, items_cons]
      simp
    · simp [due, items_append, hitems, items_cons]
  · cases hres.symm.trans hafter
  · have hstay : Carries good (record :: route) (record :: route) b b :=
      .stay hopen (List.Subset.refl _)
    exact hstay.reset (resetBindingLocked_after (hreset.symm.trans hafter)) (hgood tip htip)

theorem fanOutAll_kept (hopen : ∀ b ∈ bs, b.queue.closed = false)
    (hgood : ∀ tip, some tip ∈ w.answers.tips → ∀ s, good s tip) :
    Kept (Carries good (record :: route) route) bs (fanOutAll cfg h record bs w).1 ∧
      (fanOutAll cfg h record bs w).2.1.answers.tips ⊆ w.answers.tips := by
  induction bs generalizing w with
  | nil => exact ⟨.nil _, List.Subset.refl _⟩
  | cons b bs ih =>
    have htips := fanOutLocked_tips cfg h b record w
    obtain ⟨hkept, htips'⟩ := ih (forall_mem_cons.mp hopen).2 fun tip htip => hgood tip (htips htip)
    refine ⟨hkept.cons fun c hc => ?_, List.Subset.trans htips' htips⟩
    have hcarries : Carries good (record :: route) route b c :=
      fanOutLocked_carries (hopen b mem_cons_self) hgood hc
    exact ⟨hcarries, hcarries.link⟩

/-- What a loop of `Pump` leaves of a session: its bindings carried, and no more on the
route queue. -/
structure Pumped (good : Nat → Nat → Prop) (h h' : HostBinding Link) : Prop where
  kept : Kept (Carries good h.queue.buf h'.queue.buf) h.deliveries h'.deliveries
  queueOpen : h'.queue.closed = false
  route : items h'.queue.buf ⊆ items h.queue.buf
  tail : h'.tailSeq = h.tailSeq ∧ h'.tailKnown = h.tailKnown

theorem Pumped.refl (hqueue : h.queue.closed = false)
    (hopen : ∀ b ∈ h.deliveries, b.queue.closed = false) : Pumped good h h :=
  ⟨.stay hopen (List.Subset.refl _), hqueue, List.Subset.refl _, rfl, rfl⟩

theorem fanOutQueue_pumped (n : Nat) (hqueue : h.queue.closed = false)
    (hopen : ∀ b ∈ h.deliveries, b.queue.closed = false)
    (hgood : ∀ tip, some tip ∈ w.answers.tips → ∀ s, good s tip) :
    Pumped good h (fanOutQueue cfg n h w).1 := by
  induction n generalizing h w with
  | zero => exact .refl hqueue hopen
  | succ n ih =>
    rcases Queue.next_open hqueue with ⟨hnext, -⟩ | ⟨record, queue, hnext, hbuf, hq', -⟩
    · simp only [fanOutQueue, hnext]
      exact .refl hqueue hopen
    · simp only [fanOutQueue, hnext]
      obtain ⟨hkept, htips⟩ :
          Kept (Carries good (record :: queue.buf) queue.buf) h.deliveries _ ∧ _ :=
        fanOutAll_kept hopen hgood
      have hrest := ih (w := (fanOutAll cfg { h with queue := queue } record h.deliveries w).2.1)
        (h := { h with queue := queue, deliveries := (fanOutAll cfg _ record h.deliveries w).1 })
        hq' (fun c hc => by obtain ⟨b, -, hb⟩ := hkept.mem c hc; exact hb.queueOpen)
        fun tip htip => hgood tip (htips htip)
      have hroute : items queue.buf ⊆ items h.queue.buf := by
        rw [hbuf, items_cons]
        exact subset_append_right _ _
      refine ⟨?_, hrest.queueOpen, List.Subset.trans hrest.route hroute, hrest.tail⟩
      rw [← hbuf] at hkept
      exact hkept.trans hrest.kept fun _ _ _ hab hbc => hab.trans hbc hroute

theorem drainLocked_carries (n : Nat) (hopen : b.queue.closed = false)
    (hafter : (drainLocked n b w).1 = some b') : Carries good route route b b' := by
  induction n generalizing b w with
  | zero =>
    cases hafter
    exact .stay hopen (List.Subset.refl _)
  | succ n ih =>
    rcases Queue.next_open hopen with ⟨hnext, -⟩ | ⟨record, queue, hnext, hbuf, hq', -⟩
    · simp only [drainLocked, hnext] at hafter
      cases hafter
      exact .stay hopen (List.Subset.refl _)
    · simp only [drainLocked, hnext] at hafter
      rcases hp : w.publish b.link record with ⟨answer, w'⟩
      rw [hp] at hafter
      cases answer with
      | ok =>
        -- the published item moves from the head of the queue to the end of the log
        have hstep : Carries good route route b ({ b with queue := queue }.advance record) := by
          refine .of_due (by simp) (by simpa using hq') ?_ (by simp) fun n hn => ?_
          · simp [hbuf, items_cons, items_append]
          · unfold due
            rw [DeliveryBinding.advance_log, drop_append_of_le_length hn]
            simp [hbuf, items_cons]
        exact hstep.trans (ih (by simpa using hq') hafter) (List.Subset.refl _)
      | wouldBlock =>
        cases hafter
        exact .stay hopen (List.Subset.refl _)
      | failed => cases hafter

theorem drainAll_kept (hopen : ∀ b ∈ bs, b.queue.closed = false) :
    Kept (Carries good route route) bs (drainAll bs w).1 := by
  induction bs generalizing w with
  | nil => exact .nil _
  | cons b bs ih =>
    refine (ih (forall_mem_cons.mp hopen).2).cons fun c hc => ?_
    have hcarries : Carries good route route b c :=
      drainLocked_carries _ (hopen b mem_cons_self) hc
    exact ⟨hcarries, hcarries.link⟩

theorem pumpHost_pumped (hqueue : h.queue.closed = false)
    (hopen : ∀ b ∈ h.deliveries, b.queue.closed = false)
    (hgood : ∀ tip, some tip ∈ w.answers.tips → ∀ s, good s tip) :
    Pumped good h (pumpHost cfg h w).1 := by
  have hfan : Pumped good h (fanOutQueue cfg h.queue.len h w).1 :=
    fanOutQueue_pumped h.queue.len hqueue hopen hgood
  refine ⟨hfan.kept.trans (drainAll_kept fun c hc => ?_) fun _ _ _ hab hbc =>
    hab.trans hbc hfan.route, hfan.queueOpen, hfan.route, hfan.tail⟩
  obtain ⟨b, -, hb⟩ := hfan.kept.mem c hc
  exact hb.queueOpen

/-! ## The paths that anchor -/

theorem resetAll_kept (tip : Nat) (bs : List (DeliveryBinding Link)) (w : World Link) :
    Kept (fun b b' => ResetTo cfg b tip b') bs ((resetAll cfg tip bs w).1.filterMap Prod.snd) := by
  induction bs generalizing w with
  | nil => exact .nil _
  | cons b bs ih =>
    have hcons : Kept (fun b b' => ResetTo cfg b tip b') (b :: bs)
        ((resetBindingLocked cfg b tip w).1.toList ++ _) :=
      (ih (resetBindingLocked cfg b tip w).2.1).cons fun c hc =>
        ⟨resetBindingLocked_after hc, (resetBindingLocked_after hc).link⟩
    simp only [resetAll, filterMap_cons]
    split
    · rename_i hnone
      simpa [hnone] using hcons
    · rename_i c hsome
      simpa [hsome] using hcons

/-- Bindings carried to a reset of all of them at a good tip are carried through it. -/
theorem resetToTip_kept (path : ResetPath) (tip : Nat)
    (hkept : Kept (Carries g route route) bs h.deliveries) (hgood : ∀ s, good s tip) :
    Kept (Carries good route route') bs (resetToTip cfg path h tip w).1.deliveries := by
  have hreset : Kept (Carries good route route') bs
      ((resetAll cfg tip h.deliveries w).1.filterMap Prod.snd) :=
    hkept.trans (resetAll_kept tip h.deliveries w) fun _ _ _ hab hbc => hab.reset hbc hgood
  refine ⟨fun c hc => ?_, ?_⟩
  · obtain ⟨b, hb, rfl⟩ := mem_map.mp hc
    obtain ⟨a, ha, hab⟩ := hreset.mem b hb
    have hmark : Carries good route' route' b _ := .mark hab.queueOpen (.told tip)
    exact ⟨a, ha, hab.link, hab.queueOpen, hab.old, hab.length.trans hmark.length,
      fun n hn s hs => hmark.met n (hn.trans hab.length) s (hab.met n hn s hs)⟩
  · simpa [resetToTip, HostBinding.anchorLocked, comp_def] using hreset.links

/-! ## Steps of a session -/

/-- The queues of a session are open and hold only enduring records the Host has sent, and no
two bindings have one link. -/
structure Sound (reads : List StoreEvent) (h : HostBinding Link) : Prop where
  queueOpen : h.queue.closed = false
  bindingsOpen : ∀ b ∈ h.deliveries, b.queue.closed = false
  sent : ∀ s, .record s ∈ items h.queue.buf → .sent s ∈ reads
  bindingsSent : ∀ b ∈ h.deliveries, ∀ s, .record s ∈ items b.queue.buf → .sent s ∈ reads
  links : (h.deliveries.map (·.link)).Nodup

/-- A step of a session: its bindings carried, what is on the route queue sent and, under the
condition `C`, the good tips those that cover a record sent before. -/
structure Moves (C : Prop) (good : Nat → Nat → Prop) (reads reads' : List StoreEvent)
    (h h' : HostBinding Link) : Prop where
  kept : Kept (Carries good h.queue.buf h'.queue.buf) h.deliveries h'.deliveries
  queueOpen : h'.queue.closed = false
  sent : ∀ s, .record s ∈ items h'.queue.buf → .sent s ∈ reads'
  covered : C → ∀ s tip, .sent s ∈ reads → good s tip → s ≤ tip ∨ h'.Anchored tip

variable {C : Prop} {reads reads' : List StoreEvent} {h' : HostBinding Link}

theorem Sound.pending_sent (hs : Sound reads h) (hb : b ∈ h.deliveries) {s : Nat}
    (hmem : .record s ∈ items (b.queue.buf ++ h.queue.buf)) : .sent s ∈ reads := by
  rw [items_append] at hmem
  rcases mem_append.mp hmem with hmem | hmem
  · exact hs.bindingsSent b hb s hmem
  · exact hs.sent s hmem

theorem Moves.sound (hm : Moves C good reads reads' h h') (hs : Sound reads h)
    (hreads : reads <+: reads') : Sound reads' h' where
  queueOpen := hm.queueOpen
  bindingsOpen b' hb' := by
    obtain ⟨b, -, hb⟩ := hm.kept.mem b' hb'
    exact hb.queueOpen
  sent := hm.sent
  bindingsSent b' hb' s hmem := by
    obtain ⟨b, hb, hcarries⟩ := hm.kept.mem b' hb'
    exact hreads.subset (hs.pending_sent hb (hcarries.old s hmem))
  links := hs.links.sublist hm.kept.links

theorem Moves.covers (hm : Moves C good reads reads' h h') (hs : Sound reads h) (hC : C) :
    HostCovers h h' := by
  intro b hb b' hb' hlink s hmem
  obtain ⟨c, hc, hcarries⟩ := hm.kept.mem b' hb'
  obtain rfl : c = b := inj_on_of_nodup_map hs.links hc hb (hcarries.link.symm.trans hlink)
  have hdue : Met good s (due c.log.length c h.queue.buf) :=
    .inl (mem_append_right _ hmem)
  refine (hcarries.met _ le_rfl s hdue).imp_right fun ⟨tip, htip, hgood⟩ => ⟨tip, htip, ?_⟩
  exact hm.covered hC s tip (hs.pending_sent hb hmem) hgood

variable {answers : Answers}

theorem pumpHost_moves {logs : Logs Link} (hs : Sound logs.reads h) :
    ∃ good, Moves (∀ tip, some tip ∈ answers.tips → (∀ s, .sent s ∈ logs.reads → s ≤ tip) ∨
        h.tailKnown = true ∧ h.tailSeq ≤ tip)
      good logs.reads (pumpHost cfg h ⟨answers, logs⟩).2.1.logs.reads h
      (pumpHost cfg h ⟨answers, logs⟩).1 := by
  -- every tip the store may answer is good
  have hp : Pumped (fun _ tip => some tip ∈ answers.tips) h (pumpHost cfg h ⟨answers, logs⟩).1 :=
    pumpHost_pumped hs.queueOpen hs.bindingsOpen fun _ htip _ => htip
  have hreads := (pumpHost_extends cfg h ⟨answers, logs⟩).subset
  refine ⟨_, hp.kept, hp.queueOpen, fun s hmem => hreads (hs.sent s (hp.route hmem)), ?_⟩
  intro hin s tip hsent htip
  refine (hin tip htip).imp (fun hle => hle s hsent) fun ⟨hknown, hle⟩ => ?_
  rw [← hp.tail.1] at hle
  exact ⟨hp.tail.2.trans hknown, .inl hle⟩

/-- A restart of a session whose bindings were carried so far. -/
theorem Restart.moves {path : ResetPath} {stopped : Bool} {h₀ : HostBinding Link} {w' : World Link}
    (hr : Restart cfg path stopped h w h' w') (hqueue : h.queue.closed = false)
    (hkept : Kept (Carries g h₀.queue.buf h₀.queue.buf) h₀.deliveries h.deliveries) :
    ∃ good, Moves True good reads reads' h₀ h' := by
  have hclear : items h.queue.clear.buf = [] := by
    rw [Queue.clear_buf hqueue]
    rfl
  cases hr with
  | closed reason hlogs =>
    exact ⟨fun _ _ => False, .nil _, by simpa using hqueue, by simp [hclear],
      fun _ _ _ _ hf => hf.elim⟩
  | reset tip hlogs =>
    refine ⟨fun _ t => t = tip, resetToTip_kept path tip hkept fun _ => rfl, by simpa using hqueue,
      by simp [hclear], ?_⟩
    rintro - s t - rfl
    exact .inr ⟨rfl, .inl le_rfl⟩

/-! ## Receive -/

/-- The probe of `Receive` carries the bindings it keeps when every tip it may leave the tail
at, which the record in hand is at most one beyond, is good. -/
theorem probe_kept {seq : Nat} (hopen : ∀ b ∈ h.deliveries, b.queue.closed = false)
    (hroute : items h.queue.buf ⊆ items route')
    (hgood : ∀ tip, (probe cfg h seq w).1.tailKnown = true → (probe cfg h seq w).1.tailSeq = tip →
      seq ≤ succ64 tip → ∀ s, good s tip) :
    Kept (Carries good h.queue.buf route') h.deliveries (probe cfg h seq w).1.deliveries := by
  unfold probe at hgood ⊢
  split at hgood
  · rename_i hgap
    rw [if_pos hgap]
    dsimp only at hgood ⊢
    split at hgood
    · rename_i hhole
      rw [if_pos hhole]
      unfold resetForGapLocked at hgood ⊢
      dsimp only at hgood ⊢
      split at hgood
      · rename_i hfar
        rw [if_pos hfar]
        exact .nil _
      · rename_i hnear
        rw [if_neg hnear]
        exact resetToTip_kept (g := good) .gap _ (.stay hopen (List.Subset.refl _))
          (hgood _ rfl rfl (not_lt.mp hnear))
    · rename_i hhole
      rw [if_neg hhole]
      exact .stay hopen hroute
  · rename_i hgap
    rw [if_neg hgap]
    exact .stay hopen hroute

/-- A tail anchored at a tip stays anchored there when the record in hand, at most one beyond
it, joins the route queue. -/
theorem HostBinding.raiseTail_anchored {queue : Queue Encoded} {seq : Nat}
    (hknown : h.tailKnown = true) (hle : seq ≤ succ64 h.tailSeq)
    (hmem : .record seq ∈ items queue.buf) :
    HostBinding.Anchored { h.raiseTail seq with queue := queue } h.tailSeq := by
  unfold HostBinding.raiseTail
  split
  · rename_i hlt
    simp only [hknown, Bool.true_eq_false, false_or] at hlt
    have hseq : seq = succ64 h.tailSeq := by
      unfold succ64 at hle ⊢
      omega
    exact ⟨hknown, .inr ⟨hseq, hmem⟩⟩
  · exact ⟨hknown, .inl le_rfl⟩

theorem record_of_mem_itemOf {s : Nat} (h : .record s ∈ (itemOf record).toList) :
    record.cls = .enduring ∧ s = record.seq := by
  unfold itemOf at h
  split at h
  · rename_i hcls
    exact ⟨hcls, by simpa using h⟩
  · simp at h
  · simp at h

/-- The switch that ends `Receive`, on bindings carried from the session `h` so far: `good` is
what a record that fits needs of the tips they were reset to. -/
theorem enqueueHost_moves {h₁ : HostBinding Link} (hs : Sound reads h)
    (hreads : reads ⊆ w.logs.reads) (hqueue : h₁.queue = h.queue)
    (hsent : record.cls = .enduring → .sent record.seq ∈ w.logs.reads)
    (hkept : Kept (Carries g h.queue.buf h.queue.buf) h.deliveries h₁.deliveries)
    (hfits : (h.queue.enqueue record).2 ≠ some .overflow → Kept (Carries (fun _ =>
      HostBinding.Anchored { h₁ with queue := (h.queue.enqueue record).1 }) h.queue.buf
      (h.queue.enqueue record).1.buf) h.deliveries h₁.deliveries) :
    ∃ good, Moves True good reads (enqueueHost cfg h₁ record w).2.1.logs.reads h
      (enqueueHost cfg h₁ record w).1 := by
  have hopen : h₁.queue.closed = false := hqueue ▸ hs.queueOpen
  rw [enqueueHost_eq cfg hopen]
  by_cases hne : (h.queue.enqueue record).2 = some .overflow
  · rw [if_pos (by rw [hqueue]; exact hne)]
    exact (repair_restart cfg { h₁ with stopped := true } w).moves hopen hkept
  · rw [if_neg (by rw [hqueue]; exact hne), hqueue]
    refine ⟨_, hfits hne, by simpa using hs.queueOpen, fun s hmem => ?_,
      fun _ _ _ _ hgood => .inr hgood⟩
    rw [items_enqueue hs.queueOpen hne] at hmem
    rcases mem_append.mp hmem with hmem | hmem
    · exact hreads (hs.sent s hmem)
    · obtain ⟨hcls, rfl⟩ := record_of_mem_itemOf hmem
      exact hsent hcls

theorem receiveHost_moves (record : Rec) (hs : Sound w.logs.reads h) :
    ∃ good, Moves True good w.logs.reads (receiveHost cfg h record w).2.1.logs.reads h
      (receiveHost cfg h record w).1 := by
  have hroute : (h.queue.enqueue record).2 ≠ some .overflow →
      items h.queue.buf ⊆ items (h.queue.enqueue record).1.buf := fun hne => by
    rw [items_enqueue hs.queueOpen hne]
    exact subset_append_left _ _
  unfold receiveHost
  split
  · rename_i hcls
    have hextends := (probe_extends cfg h record.seq (w.noteSent record.seq)).subset
    refine enqueueHost_moves hs (fun e he => hextends (mem_append_left _ he))
      ((HostBinding.raiseTail_queue ..).trans (probe_queue ..))
      (fun _ => hextends (mem_append_right _ mem_cons_self)) (g := fun _ _ => True) ?_ fun hne => ?_
    · rw [HostBinding.raiseTail_deliveries]
      exact probe_kept hs.bindingsOpen (List.Subset.refl _) fun _ _ _ _ _ => trivial
    · rw [HostBinding.raiseTail_deliveries]
      refine probe_kept hs.bindingsOpen (hroute hne) fun tip hknown hseq hle _ => ?_
      subst hseq
      refine HostBinding.raiseTail_anchored hknown hle ?_
      rw [items_enqueue hs.queueOpen hne, items_enduring hcls]
      simp
  · rename_i hcls
    exact enqueueHost_moves hs (List.Subset.refl _) rfl (fun h => absurd h hcls)
      (g := fun _ _ => True) (.stay hs.bindingsOpen (List.Subset.refl _))
      fun hne => .stay hs.bindingsOpen (hroute hne)

/-! ## Sessions -/

/-- An open session is sound. -/
def SessionSound (σ : Session Link) : Prop := ∀ h, σ.host = some h → Sound σ.logs.reads h

variable {σ σ' : Session Link}

theorem SessionSound.stay (hσ : SessionSound σ) (hhost : σ'.host = σ.host)
    (hlogs : σ'.logs = σ.logs) : SessionSound σ' ∧ (C → Covers σ σ') := by
  refine ⟨fun h hh => ?_, fun _ h h' hh hh' => ?_⟩
  · rw [hlogs]
    exact hσ h (hhost ▸ hh)
  · obtain rfl : h = h' := by
      rw [hhost, hh] at hh'
      exact Option.some.inj hh'
    have hmoves : Moves True (fun _ _ => False) σ.logs.reads σ.logs.reads h h :=
      ⟨.stay (hσ h hh).bindingsOpen (List.Subset.refl _), (hσ h hh).queueOpen, (hσ h hh).sent,
        fun _ _ _ _ hf => hf.elim⟩
    exact hmoves.covers (hσ h hh) trivial

theorem SessionSound.withHost
    {f : HostBinding Link → World Link → HostBinding Link × World Link × List RelayError}
    (hσ : SessionSound σ) (hextends : ∀ h w, w.logs.reads <+: (f h w).2.1.logs.reads)
    (hf : ∀ h, σ.host = some h → ∃ good, Moves C good σ.logs.reads (f h ⟨answers,
      σ.logs⟩).2.1.logs.reads h (f h ⟨answers, σ.logs⟩).1) :
    SessionSound (σ.withHost answers f).1 ∧ (C → Covers σ (σ.withHost answers f).1) := by
  unfold Session.withHost
  split
  · exact hσ.stay rfl rfl
  · split
    · exact hσ.stay rfl rfl
    · rename_i h hh
      obtain ⟨good, hmoves⟩ := hf h hh
      refine ⟨fun h' hh' => ?_, fun hC h₀ h' hh₀ hh' => ?_⟩
      · cases hh'
        exact hmoves.sound (hσ h hh) (hextends h ⟨answers, σ.logs⟩)
      · cases hh.symm.trans hh₀
        cases hh'
        exact hmoves.covers (hσ h hh) hC

theorem SessionSound.opened (hσ : SessionSound σ) :
    SessionSound (σ.opened cfg).1 ∧ (C → Covers σ (σ.opened cfg).1) := by
  unfold Session.opened
  split
  · exact hσ.stay rfl rfl
  · split
    · exact hσ.stay rfl rfl
    · rename_i hnone
      split
      · exact hσ.stay rfl rfl
      · rename_i queue hq
        refine ⟨fun h hh => ?_, fun _ h h' hh => ?_⟩
        · cases hh
          exact ⟨(Queue.new_ok hq).1, by simp, by simp [(Queue.new_ok hq).2, items], by simp,
            nodup_nil⟩
        · cases hnone.symm.trans hh

theorem SessionSound.subscribe [LinearOrder Link] {link : Link} (hσ : SessionSound σ) :
    SessionSound (σ.subscribe cfg link).1 ∧ (C → Covers σ (σ.subscribe cfg link).1) := by
  unfold Session.subscribe
  split
  · exact hσ.stay rfl rfl
  · split
    · exact hσ.stay rfl rfl
    · rename_i h hh
      split
      · exact hσ.stay rfl rfl
      · rename_i hnew
        split
        · exact hσ.stay rfl rfl
        · rename_i queue hq
          have hs := hσ h hh
          obtain ⟨hqopen, hqbuf⟩ := Queue.new_ok hq
          have hnew' : ∀ b ∈ h.deliveries, b.link ≠ link := by simpa using hnew
          refine ⟨fun h' hh' => ?_, fun _ h₀ h' hh₀ hh' b hb b' hb' hlink s hmem => ?_⟩
          · cases hh'
            refine ⟨hs.queueOpen, fun b hb => ?_, hs.sent, fun b hb s hmem => ?_, ?_⟩
            · rcases (mem_orderedInsert _).mp hb with rfl | hb
              · exact hqopen
              · exact hs.bindingsOpen b hb
            · rcases (mem_orderedInsert _).mp hb with rfl | hb
              · simp [hqbuf, items] at hmem
              · exact hs.bindingsSent b hb s hmem
            · refine ((perm_orderedInsert _ _ _).map _).nodup_iff.mpr ?_
              exact nodup_cons.mpr ⟨by simpa using hnew', hs.links⟩
          · cases hh.symm.trans hh₀
            cases hh'
            -- the new binding has a link of its own, and every other is as it was
            rcases (mem_orderedInsert _).mp hb' with rfl | hb'
            · exact absurd hlink.symm (hnew' b hb)
            · obtain rfl := inj_on_of_nodup_map hs.links hb' hb hlink
              exact .inl (mem_append_right _ hmem)

theorem SessionSound.unsubscribe [DecidableEq Link] {link : Link} (hσ : SessionSound σ) :
    SessionSound (σ.unsubscribe link) ∧ (C → Covers σ (σ.unsubscribe link)) := by
  have hmoves : ∀ h, σ.host = some h → Moves True (fun _ _ => False) σ.logs.reads σ.logs.reads h
      { h with deliveries := h.deliveries.filter (·.link ≠ link) } := fun h hh =>
    ⟨⟨fun b hb => ⟨b, (mem_filter.mp hb).1,
        .stay ((hσ h hh).bindingsOpen b (mem_filter.mp hb).1) (List.Subset.refl _)⟩,
        filter_sublist.map _⟩, (hσ h hh).queueOpen, (hσ h hh).sent,
      fun _ _ _ _ hf => hf.elim⟩
  refine ⟨fun h' hh' => ?_, fun _ h h' hh hh' => ?_⟩
  · obtain ⟨h, hh, rfl⟩ := Option.map_eq_some_iff.mp hh'
    exact (hmoves h hh).sound (hσ h hh) prefix_rfl
  · simp only [Session.unsubscribe, hh, Option.map_some, Option.some.injEq] at hh'
    subst hh'
    exact (hmoves h hh).covers (hσ h hh) trivial

theorem SessionSound.anchor (hσ : SessionSound σ) :
    SessionSound (σ.anchor answers).1 ∧ (True → Covers σ (σ.anchor answers).1) := by
  refine hσ.withHost (fun h w => ?_) fun h hh => ?_
  · have hw := w.readTip_extends
    split
    · rename_i hr
      rwa [hr] at hw
    · rename_i hr
      rwa [hr] at hw
  · have hs := hσ h hh
    have hextends := (World.readTip_extends ⟨answers, σ.logs⟩).subset
    refine ⟨fun _ _ => False, ?_⟩
    rcases World.readTip_cases ⟨answers, σ.logs⟩ with ⟨w', hw, -⟩ | ⟨tip, w', hw, -⟩
    all_goals
      rw [hw] at hextends ⊢
    · exact ⟨.stay hs.bindingsOpen (List.Subset.refl _), hs.queueOpen,
        fun s hmem => hextends (hs.sent s hmem), fun _ _ _ _ hf => hf.elim⟩
    · exact ⟨.map (fun _ => rfl) fun b hb => .mark (hs.bindingsOpen b hb) _, hs.queueOpen,
        fun s hmem => hextends (hs.sent s hmem), fun _ _ _ _ hf => hf.elim⟩

theorem SessionSound.receive {frame : Frame} (hσ : SessionSound σ) :
    SessionSound (σ.receive cfg frame answers).1 ∧
      (True → Covers σ (σ.receive cfg frame answers).1) := by
  unfold Session.receive
  split
  · exact hσ.stay rfl rfl
  · split
    · exact hσ.stay rfl rfl
    · split
      · exact hσ.stay rfl rfl
      · split
        · exact hσ.stay rfl rfl
        · exact hσ.stay rfl rfl
        · rename_i record _
          exact hσ.withHost (fun h w => receiveHost_extends cfg h record w)
            fun h hh => receiveHost_moves (w := ⟨answers, σ.logs⟩) record (hσ h hh)

theorem apply_covers [LinearOrder Link] (op : Op Link) (hσ : SessionSound σ) :
    SessionSound (apply cfg σ op).1 ∧ (InTime σ op → Covers σ (apply cfg σ op).1) := by
  cases op with
  | opened => exact hσ.opened
  | subscribe link => exact hσ.subscribe
  | unsubscribe link => exact hσ.unsubscribe
  | receive frame answers => exact hσ.receive
  | pump answers =>
    refine hσ.withHost (fun h w => pumpHost_extends cfg h w) fun h hh => ?_
    obtain ⟨good, hmoves⟩ := pumpHost_moves (hσ h hh)
    exact ⟨good, hmoves.kept, hmoves.queueOpen, hmoves.sent,
      fun hin => hmoves.covered fun tip htip => hin h hh tip htip⟩
  | hostLinkClosed answers =>
    refine hσ.withHost (fun h w => (repair_restart cfg _ w).extends) fun h hh => ?_
    exact (repair_restart cfg { h with stopped := true } _).moves (g := fun _ _ => True)
      (hσ h hh).queueOpen (.stay (hσ h hh).bindingsOpen (List.Subset.refl _))
  | resync answers =>
    refine hσ.withHost (fun h w => (resyncHost_restart cfg h w).extends) fun h hh => ?_
    exact (resyncHost_restart cfg h _).moves (g := fun _ _ => True) (hσ h hh).queueOpen
      (.stay (hσ h hh).bindingsOpen (List.Subset.refl _))
  | anchor answers => exact hσ.anchor
  | forget => exact ⟨nofun, nofun⟩
  | close => exact ⟨nofun, nofun⟩

/-- **Discards.** From every state a run reaches, a step whose tips are in time accounts for
every enduring record that waited for a binding it keeps open. -/
theorem discards_covered [LinearOrder Link] {ops : List (Op Link)} {σ : Session Link}
    (hrun : Runs.exec (step cfg) {} ops = some σ) (op : Op Link) (hin : InTime σ op) :
    Covers σ (apply cfg σ op).1 := by
  have hσ : SessionSound σ := by
    refine Runs.exec_invariant (fun s op t hs hok => ?_) hrun nofun
    cases hs
    exact (apply_covers op hok).1
  exact (apply_covers op hσ).2 hin

/-- A binding's queue of one holds record 1 while record 2 waits on the route queue. -/
def overflowRun : List (Op Nat) :=
  [.opened, .subscribe 0, .anchor { tips := [some 0] }, .receive (byteFrame 1) {},
   .pump { publishes := [.wouldBlock] }, .receive (byteFrame 2) {}]

/-- The `Pump` that fans record 2 out, the tip read for the overflow being `tip`. -/
def overflowPump (tip : Nat) : Op Nat := .pump { tips := [some tip], publishes := [.ok] }

/-- The session before and after that `Pump`: records 1 and 2 wait for a binding that is kept
open, and all it is told is the reset. -/
theorem overflowRun_state (tip : Nat) : ∃ σ h h' b b',
    Runs.exec (step (byteConfig 4 1)) {} overflowRun = some σ ∧
      σ.logs.reads = [.tip 0, .sent 1, .sent 2] ∧ σ.host = some h ∧ h.deliveries = [b] ∧
      items (b.queue.buf ++ h.queue.buf) = [.record 1, .record 2] ∧
      (apply (byteConfig 4 1) σ (overflowPump tip)).1.host = some h' ∧ h'.deliveries = [b'] ∧
      b'.link = b.link ∧ due b.log.length b' h'.queue.buf = [.reset tip] ∧ h'.tailSeq = 2 :=
  ⟨_, _, _, _, _, rfl, rfl, rfl, rfl, rfl, rfl, rfl, rfl, rfl, rfl⟩

/-- A tip read that reaches record 2 covers both records. -/
theorem discards_covered_overflowRun :
    ∃ σ, Runs.exec (step (byteConfig 4 1)) {} overflowRun = some σ ∧
      InTime σ (overflowPump 2) ∧ Covers σ (apply (byteConfig 4 1) σ (overflowPump 2)).1 := by
  obtain ⟨σ, h, h', b, b', hrun, hreads, -⟩ := overflowRun_state 2
  have hin : InTime σ (overflowPump 2) := by
    intro h _ tip htip
    refine .inl fun s hs => ?_
    rw [hreads] at hs
    simp only [mem_singleton, Option.some.injEq] at htip
    simp at hs
    omega
  exact ⟨σ, hrun, hin, discards_covered hrun _ hin⟩

/-- A tip read that lags at 0 loses both: all the link is told is a reset to tip 0, and the
tail stays at 2. -/
theorem overflowRun_uncovered :
    ∃ σ, Runs.exec (step (byteConfig 4 1)) {} overflowRun = some σ ∧
      ¬ Covers σ (apply (byteConfig 4 1) σ (overflowPump 0)).1 := by
  obtain ⟨σ, h, h', b, b', hrun, -, hh, hbs, hitems, hh', hbs', hlink, hdue, htail⟩ :=
    overflowRun_state 0
  refine ⟨σ, hrun, fun hcov => ?_⟩
  have h1 := hcov h h' hh hh' b (by simp [hbs]) b' (by simp [hbs']) hlink 1 (by simp [hitems])
  rw [hdue] at h1
  simp [HostBinding.Anchored, htail, succ64] at h1

end Factory.Routing
