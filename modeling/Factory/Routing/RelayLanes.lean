import Factory.Lib.Lanes
import Factory.Routing.RelaySpec

/-!
# The relay binding by binding

A relay whose store answers every tip read of a call alike, and whose transport answers each link
by what that link was asked, does its work binding by binding: what a call leaves of a binding,
publishes to its link and records of its resets is read off that binding, the shared route queue
and tail position, and the answers for its own link. `Environment` is such a store and transport,
and the lemmas below say it of each helper of `Relay.lean`: the loops over the bindings are
`flatMap`s of the work on one binding alone.
-/

namespace Factory.Routing

open List Factory.Delivery Lanes

variable {Link : Type}

def PublisherCall.link : PublisherCall Link → Link
  | .publish link _ _ => link
  | .closeLink link _ => link

def PublisherCall.answer? : PublisherCall Link → Option PublishAnswer
  | .publish _ _ answer => some answer
  | .closeLink _ _ => none

def ResetCall.link (c : ResetCall Link) : Link := c.before.link

/-- What the seams answer during one call of the relay: the tip every tip read captures, the page
of every probe, the transport's answer to a record, by the link, what was asked of it before,
and the record, and whether the HostLink stops, rebinds and resumes. -/
structure Environment (Link : Type) where
  tip : Option Nat
  page : ProbeRequest → Option JournalPage
  publish : Link → List (PublisherCall Link) → Rec → PublishAnswer
  stopOk : Bool := true
  rebindOk : Bool := true
  resumeOk : Bool := true

/-! ## Worlds that answer tips alike -/

/-- At least `n` more tip reads are answered `t`. -/
def Tips (t : Option Nat) (n : Nat) (w : World Link) : Prop :=
  ∃ m, n ≤ m ∧ w.answers.tips = List.replicate m t

/-- From `w` to `w'` these calls were made of the publisher and these resets recorded, and `n`
more tip reads are answered `t`. -/
structure Extends (t : Option Nat) (n : Nat) (w w' : World Link)
    (calls : List (PublisherCall Link)) (resets : List (ResetCall Link)) : Prop where
  tips : Tips t n w'
  publishes : w'.answers.publishes = w.answers.publishes
  calls : w'.logs.calls = w.logs.calls ++ calls
  resets : w'.logs.resets = w.logs.resets ++ resets

variable {t : Option Nat} {n m : Nat} {w v u : World Link}

theorem Tips.mono (h : Tips t n w) (hle : m ≤ n) : Tips t m w := by
  obtain ⟨k, hk, htips⟩ := h
  exact ⟨k, hle.trans hk, htips⟩

theorem Extends.refl (h : Tips t n w) : Extends t n w w [] [] :=
  ⟨h, rfl, (append_nil _).symm, (append_nil _).symm⟩

theorem Extends.trans {calls calls' : List (PublisherCall Link)}
    {resets resets' : List (ResetCall Link)} (h : Extends t n w v calls resets)
    (h' : Extends t m v u calls' resets') :
    Extends t m w u (calls ++ calls') (resets ++ resets') where
  tips := h'.tips
  publishes := h'.publishes.trans h.publishes
  calls := by rw [h'.calls, h.calls, append_assoc]
  resets := by rw [h'.resets, h.resets, append_assoc]

theorem extends_closeLink (h : Tips t n w) (link : Link) (reason : String) :
    Extends t n w (w.closeLink link reason) [.closeLink link reason] [] :=
  ⟨h, rfl, rfl, (append_nil _).symm⟩

theorem extends_noteResets (h : Tips t n w) (resets : List (ResetCall Link)) :
    Extends t n w (w.noteResets resets) [] resets :=
  ⟨h, rfl, (append_nil _).symm, rfl⟩

/-- A tip read is answered `t`. -/
theorem readTip_eq (h : Tips t (n + 1) w) : ∃ w', w.readTip = (t, w') ∧ Extends t n w w' [] [] := by
  obtain ⟨m, hm, htips⟩ := h
  obtain ⟨m, rfl⟩ : ∃ k, m = k + 1 := ⟨m - 1, by omega⟩
  rw [replicate_succ] at htips
  have hn : n ≤ m := by omega
  cases t with
  | none =>
    have hread : w.readTip =
        (none, { w with answers := { w.answers with tips := List.replicate m none } }) := by
      simp only [World.readTip, htips]
    refine ⟨_, hread, ⟨m, hn, rfl⟩, rfl, ?_, ?_⟩
    all_goals exact (append_nil _).symm
  | some tip =>
    have hread : w.readTip = (some tip,
        { answers := { w.answers with tips := List.replicate m (some tip) }
          logs := { w.logs with reads := w.logs.reads ++ [.tip tip] } }) := by
      simp only [World.readTip, htips]
    refine ⟨_, hread, ⟨m, hn, rfl⟩, rfl, ?_, ?_⟩
    all_goals exact (append_nil _).symm

/-! ## Closing and resetting -/

theorem closeAll_extends (h : Tips t n w) (reason : String) (bs : List (DeliveryBinding Link)) :
    Extends t n w (closeAll reason bs w) (bs.map fun b => .closeLink b.link reason) [] := by
  induction bs generalizing w with
  | nil => exact Extends.refl h
  | cons b bs ih => exact (extends_closeLink h b.link reason).trans (ih h)

/-- `resetBindingLocked` of one binding alone: what is left of it and the calls made. -/
def resetLane (cfg : Config) (tip : Nat) (b : DeliveryBinding Link) :
    Option (DeliveryBinding Link) × List (PublisherCall Link) :=
  let (after, w, _) := resetBindingLocked cfg b tip ⟨{}, {}⟩
  (after, w.logs.calls)

theorem resetBindingLocked_lane (h : Tips t n w) (cfg : Config) (b : DeliveryBinding Link)
    (tip : Nat) :
    (resetBindingLocked cfg b tip w).1 = (resetLane cfg tip b).1 ∧
      Extends t n w (resetBindingLocked cfg b tip w).2.1 (resetLane cfg tip b).2 [] := by
  simp only [resetLane, resetBindingLocked]
  split
  · split
    · exact ⟨rfl, Extends.refl h⟩
    · exact ⟨rfl, extends_closeLink h _ _⟩
  · exact ⟨rfl, extends_closeLink h _ _⟩

variable (cfg : Config) (tip : Nat)

theorem resetLane_link (b : DeliveryBinding Link) :
    (∀ b', (resetLane cfg tip b).1 = some b' → b'.link = b.link) ∧
      ∀ c ∈ (resetLane cfg tip b).2, c.link = b.link := by
  simp only [resetLane, resetBindingLocked]
  split
  · split
    · refine ⟨?_, by simp⟩
      rintro b' ⟨⟩
      rfl
    · refine ⟨by simp, ?_⟩
      intro c hc
      rw [mem_singleton.mp hc]
      rfl
  · refine ⟨by simp, ?_⟩
    intro c hc
    rw [mem_singleton.mp hc]
    rfl

theorem resetAll_lanes (h : Tips t n w) (cfg : Config) (tip : Nat)
    (bs : List (DeliveryBinding Link)) :
    (resetAll cfg tip bs w).1 = bs.map (fun b => (b, (resetLane cfg tip b).1)) ∧
      Extends t n w (resetAll cfg tip bs w).2.1 (bs.flatMap fun b => (resetLane cfg tip b).2)
        [] := by
  induction bs generalizing w with
  | nil => exact ⟨rfl, Extends.refl h⟩
  | cons b bs ih =>
    obtain ⟨hafter, hext⟩ := resetBindingLocked_lane h cfg b tip
    obtain ⟨hrest, hexts⟩ := ih hext.tips
    refine ⟨?_, hext.trans hexts⟩
    simp only [resetAll, map_cons]
    rw [hafter, hrest]

/-- A binding reset to a tip and told of it. -/
def tellLane (cfg : Config) (tip : Nat) (b : DeliveryBinding Link) :
    Option (DeliveryBinding Link) :=
  (resetLane cfg tip b).1.map fun b => { b with log := b.log ++ [.told tip] }

theorem tellLane_link (b c : DeliveryBinding Link) (h : tellLane cfg tip b = some c) :
    c.link = b.link := by
  obtain ⟨d, hd, rfl⟩ := Option.map_eq_some_iff.mp h
  exact (resetLane_link cfg tip b).1 d hd

/-- What a reset path over every binding records of one of them. -/
def tellReset (cfg : Config) (path : ResetPath) (tip : Nat) (b : DeliveryBinding Link) :
    ResetCall Link :=
  { path := path, before := b, after := (resetLane cfg tip b).1, declined := none, tip := tip
    tailSeq := tip, tailKnown := true }

/-- `resetToTip` acts on each binding by itself. -/
theorem resetToTip_lanes (hw : Tips t n w) (cfg : Config) (path : ResetPath)
    (h : HostBinding Link) (tip : Nat) :
    (resetToTip cfg path h tip w).1 = { h with
        tailSeq := tip, tailKnown := true
        deliveries := h.deliveries.flatMap fun b => (tellLane cfg tip b).toList } ∧
      Extends t n w (resetToTip cfg path h tip w).2.1
        (h.deliveries.flatMap fun b => (resetLane cfg tip b).2)
        (h.deliveries.map (tellReset cfg path tip)) := by
  obtain ⟨hpairs, hext⟩ := resetAll_lanes hw cfg tip h.deliveries
  constructor
  · simp only [resetToTip, HostBinding.anchorLocked, hpairs]
    rw [filterMap_map, filterMap_eq_flatMap_toList, map_flatMap]
    simp only [tellLane, Function.comp_apply, Option.toList_map]
  · have hnote := hext.trans (extends_noteResets hext.tips
      (h.deliveries.map (tellReset cfg path tip)))
    rw [append_nil, nil_append] at hnote
    simp only [resetToTip, resetCalls, hpairs, map_map]
    exact hnote

/-! ## Fanning out -/

/-- What `fanOutLocked` records of the reset of an overflow. -/
def overflowReset (cfg : Config) (tip : Nat) (h : HostBinding Link) (record : Rec)
    (b : DeliveryBinding Link) : ResetCall Link :=
  { path := .overflow, before := b, after := (resetLane cfg tip b).1, declined := some record
    tip := tip, tailSeq := h.tailSeq, tailKnown := h.tailKnown }

/-- `fanOutLocked` of one binding alone: what is left of it, the calls made and the resets
recorded. -/
def fanOutLane (cfg : Config) (t : Option Nat) (h : HostBinding Link) (record : Rec)
    (b : DeliveryBinding Link) :
    Option (DeliveryBinding Link) × List (PublisherCall Link) × List (ResetCall Link) :=
  match b.queue.enqueue record with
  | (queue, none) => (some { b with queue := queue }, [], [])
  | (queue, some .dropped) => (some { b with queue := queue }, [], [])
  | (_, some .overflow) =>
    match t with
    | none => (none, [.closeLink b.link "repair tip unavailable"], [])
    | some tip =>
      ((resetLane cfg tip b).1, (resetLane cfg tip b).2, [overflowReset cfg tip h record b])
  | (_, some _) => (some b, [], [])

theorem fanOutLocked_lane (hw : Tips t (n + 1) w) (cfg : Config) (h : HostBinding Link)
    (record : Rec) (b : DeliveryBinding Link) :
    (fanOutLocked cfg h b record w).1 = (fanOutLane cfg t h record b).1 ∧
      Extends t n w (fanOutLocked cfg h b record w).2.1 (fanOutLane cfg t h record b).2.1
        (fanOutLane cfg t h record b).2.2 := by
  have hkeep := hw.mono (Nat.le_succ n)
  obtain ⟨w', hread, hext⟩ := readTip_eq hw
  rcases hq : b.queue.enqueue record with ⟨queue, _ | refusal⟩
  · simp only [fanOutLane, fanOutLocked, hq]
    exact ⟨trivial, Extends.refl hkeep⟩
  · simp only [fanOutLane, fanOutLocked, hq, hread]
    cases refusal with
    | overflow =>
      cases t with
      | none => exact ⟨rfl, hext.trans (extends_closeLink hext.tips _ _)⟩
      | some tip =>
        obtain ⟨hafter, hreset⟩ := resetBindingLocked_lane hext.tips cfg b tip
        refine ⟨hafter, ?_⟩
        simp only [hafter]
        have hnote := extends_noteResets hreset.tips [overflowReset cfg tip h record b]
        have hwhole := (hext.trans hreset).trans hnote
        rw [nil_append, append_nil] at hwhole
        exact hwhole
    | _ => exact ⟨rfl, Extends.refl hkeep⟩

theorem fanOutLane_link (t : Option Nat) (h : HostBinding Link) (record : Rec)
    (b : DeliveryBinding Link) :
    (∀ b', (fanOutLane cfg t h record b).1 = some b' → b'.link = b.link) ∧
      (∀ c ∈ (fanOutLane cfg t h record b).2.1, c.link = b.link) ∧
      ∀ c ∈ (fanOutLane cfg t h record b).2.2, c.link = b.link := by
  unfold fanOutLane
  split
  · refine ⟨?_, by simp, by simp⟩
    rintro b' ⟨⟩
    rfl
  · refine ⟨?_, by simp, by simp⟩
    rintro b' ⟨⟩
    rfl
  · split
    · refine ⟨by simp, ?_, by simp⟩
      intro c hc
      rw [mem_singleton.mp hc]
      rfl
    next tip =>
      obtain ⟨hafter, hcalls⟩ := resetLane_link cfg tip b
      refine ⟨hafter, hcalls, ?_⟩
      intro c hc
      rw [mem_singleton.mp hc]
      rfl
  · refine ⟨?_, by simp, by simp⟩
    rintro b' ⟨⟩
    rfl

theorem fanOutAll_lanes (h : HostBinding Link) (record : Rec) (bs : List (DeliveryBinding Link))
    (hw : Tips t (n + bs.length) w) :
    (fanOutAll cfg h record bs w).1 = bs.flatMap (fun b => (fanOutLane cfg t h record b).1.toList) ∧
      Extends t n w (fanOutAll cfg h record bs w).2.1
        (bs.flatMap fun b => (fanOutLane cfg t h record b).2.1)
        (bs.flatMap fun b => (fanOutLane cfg t h record b).2.2) := by
  induction bs generalizing w with
  | nil => exact ⟨rfl, Extends.refl hw⟩
  | cons b bs ih =>
    obtain ⟨hafter, hext⟩ := fanOutLocked_lane hw cfg h record b
    obtain ⟨hrest, hexts⟩ := ih hext.tips
    refine ⟨?_, hext.trans hexts⟩
    simp only [fanOutAll, flatMap_cons]
    rw [hafter, hrest]

/-- The first loop of `Pump` on bindings alone. -/
def fanOutLanes (cfg : Config) (t : Option Nat) :
    Nat → HostBinding Link → HostBinding Link × List (PublisherCall Link) × List (ResetCall Link)
  | 0, h => (h, [], [])
  | n + 1, h =>
    match h.queue.next with
    | none => (h, [], [])
    | some (record, queue) =>
      let lane := fanOutLane cfg t { h with queue := queue } record
      let (h', calls, resets) := fanOutLanes cfg t n
        { h with queue := queue, deliveries := h.deliveries.flatMap fun b => (lane b).1.toList }
      (h', h.deliveries.flatMap (fun b => (lane b).2.1) ++ calls,
        h.deliveries.flatMap (fun b => (lane b).2.2) ++ resets)

theorem length_flatMap_toList_le {α : Type*} (f : α → Option α) (l : List α) :
    (l.flatMap fun x => (f x).toList).length ≤ l.length := by
  induction l with
  | nil => exact Nat.le_refl 0
  | cons x l ih =>
    rw [flatMap_cons, length_append, length_cons]
    have : (f x).toList.length ≤ 1 := by cases f x <;> simp
    omega

/-- The first loop of `Pump` acts on each binding by itself. -/
theorem fanOutQueue_lanes (n : Nat) (h : HostBinding Link) {m : Nat}
    (hw : Tips t (m + n * h.deliveries.length) w) :
    (fanOutQueue cfg n h w).1 = (fanOutLanes cfg t n h).1 ∧
      Extends t m w (fanOutQueue cfg n h w).2.1 (fanOutLanes cfg t n h).2.1
        (fanOutLanes cfg t n h).2.2 := by
  induction n generalizing h w with
  | zero => exact ⟨rfl, Extends.refl (hw.mono (by omega))⟩
  | succ n ih =>
    have hkeep : Tips t m w := hw.mono (Nat.le_add_right _ _)
    cases hq : h.queue.next with
    | none =>
      simp only [fanOutQueue, fanOutLanes, hq]
      exact ⟨trivial, Extends.refl hkeep⟩
    | some pair =>
      obtain ⟨record, queue⟩ := pair
      simp only [fanOutQueue, fanOutLanes, hq]
      have hfirst : Tips t (m + n * h.deliveries.length + h.deliveries.length) w :=
        hw.mono (by rw [Nat.add_mul, Nat.one_mul]; omega)
      obtain ⟨hafter, hext⟩ :=
        fanOutAll_lanes cfg { h with queue := queue } record h.deliveries hfirst
      -- a record leaves no more bindings than it found, so the tips last for the records to come
      have hlen := Nat.mul_le_mul_left n (length_flatMap_toList_le
        (fun b => (fanOutLane cfg t { h with queue := queue } record b).1) h.deliveries)
      have hmore := hext.tips.mono (Nat.add_le_add_left hlen m)
      rw [hafter]
      obtain ⟨hrest, hexts⟩ := ih { h with
        queue := queue
        deliveries := h.deliveries.flatMap fun b =>
          (fanOutLane cfg t { h with queue := queue } record b).1.toList } hmore
      exact ⟨hrest, hext.trans hexts⟩

/-! ## Draining -/

/-- `drainLocked` of one binding alone, with what its link was asked before: what is left of it
and the calls made. -/
def drainLane (publish : List (PublisherCall Link) → Rec → PublishAnswer) :
    Nat → DeliveryBinding Link → List (PublisherCall Link) →
      Option (DeliveryBinding Link) × List (PublisherCall Link)
  | 0, b, _ => (some b, [])
  | n + 1, b, asked =>
    match b.queue.next with
    | none => (some b, [])
    | some (record, queue) =>
      match publish asked record with
      | .wouldBlock => (some b, [.publish b.link record .wouldBlock])
      | .failed =>
        (none, [.publish b.link record .failed, .closeLink b.link "publish failed"])
      | .ok =>
        let call : PublisherCall Link := .publish b.link record .ok
        let (after, calls) := drainLane publish n ({ b with queue := queue }.advance record)
          (asked ++ [call])
        (after, call :: calls)

/-- The answers the calls were given. -/
def answersOf (calls : List (PublisherCall Link)) : List PublishAnswer :=
  calls.filterMap PublisherCall.answer?

theorem drainLane_link (publish : List (PublisherCall Link) → Rec → PublishAnswer) (n : Nat)
    (b : DeliveryBinding Link) (asked : List (PublisherCall Link)) :
    (∀ b', (drainLane publish n b asked).1 = some b' → b'.link = b.link) ∧
      ∀ c ∈ (drainLane publish n b asked).2, c.link = b.link := by
  induction n generalizing b asked with
  | zero =>
    refine ⟨?_, by simp [drainLane]⟩
    rintro b' ⟨⟩
    rfl
  | succ n ih =>
    simp only [drainLane]
    split
    · refine ⟨?_, by simp⟩
      rintro b' ⟨⟩
      rfl
    next record queue _ =>
      split
      · constructor
        · rintro b' ⟨⟩
          rfl
        · intro c hc
          rw [mem_singleton.mp hc]
          rfl
      · refine ⟨by simp, ?_⟩
        intro c hc
        rcases mem_cons.mp hc with rfl | hc
        · rfl
        · rw [mem_singleton.mp hc]
          rfl
      · obtain ⟨hafter, hcalls⟩ := ih ({ b with queue := queue }.advance record)
          (asked ++ [.publish b.link record .ok])
        rw [DeliveryBinding.advance_link] at hafter hcalls
        refine ⟨hafter, ?_⟩
        intro c hc
        rcases mem_cons.mp hc with rfl | hc
        · rfl
        · exact hcalls c hc

theorem drainLocked_lane (publish : List (PublisherCall Link) → Rec → PublishAnswer) (n : Nat)
    (b : DeliveryBinding Link) (asked : List (PublisherCall Link)) {rest : List PublishAnswer}
    (hw : w.answers.publishes = answersOf (drainLane publish n b asked).2 ++ rest) :
    (drainLocked n b w).1 = (drainLane publish n b asked).1 ∧
      (drainLocked n b w).2.1.answers.publishes = rest ∧
      (drainLocked n b w).2.1.logs.calls = w.logs.calls ++ (drainLane publish n b asked).2 ∧
      (drainLocked n b w).2.1.logs.resets = w.logs.resets := by
  induction n generalizing b asked w with
  | zero => exact ⟨rfl, hw, (append_nil _).symm, rfl⟩
  | succ n ih =>
    simp only [drainLane, drainLocked] at hw ⊢
    cases hq : b.queue.next with
    | none =>
      rw [hq] at hw
      exact ⟨rfl, hw, (append_nil _).symm, rfl⟩
    | some pair =>
      obtain ⟨record, queue⟩ := pair
      simp only [hq] at hw ⊢
      cases hp : publish asked record with
      | wouldBlock =>
        simp only [hp] at hw ⊢
        replace hw : w.answers.publishes = .wouldBlock :: rest := hw
        simp only [World.publish, hw]
        exact ⟨rfl, rfl, rfl, rfl⟩
      | failed =>
        simp only [hp] at hw ⊢
        replace hw : w.answers.publishes = .failed :: rest := hw
        simp only [World.publish, hw]
        refine ⟨rfl, rfl, ?_, rfl⟩
        exact append_assoc _ [_] [_]
      | ok =>
        simp only [hp] at hw ⊢
        replace hw : w.answers.publishes = .ok :: (answersOf (drainLane publish n
          ({ b with queue := queue }.advance record)
          (asked ++ [.publish b.link record .ok])).2 ++ rest) := hw
        simp only [World.publish, hw, headD_cons, tail_cons]
        obtain ⟨hafter, hrest, hcalls, hresets⟩ := ih ({ b with queue := queue }.advance record)
          (asked ++ [.publish b.link record .ok])
          (w := ⟨{ w.answers with publishes := _ }, { w.logs with calls := _ }⟩) rfl
        refine ⟨hafter, hrest, ?_, hresets⟩
        rw [hcalls, append_assoc, singleton_append]

section
variable [LinearOrder Link]

variable (publish : Link → List (PublisherCall Link) → Rec → PublishAnswer)
  (calls : List (PublisherCall Link))

/-- The drain of one binding of `Pump`, when these calls were made before the loop. -/
def pumpLane (b : DeliveryBinding Link) :
    Option (DeliveryBinding Link) × List (PublisherCall Link) :=
  drainLane (publish b.link) b.queue.len b (lane PublisherCall.link b.link calls)

/-- The answers of the whole loop. -/
def pumpAnswers (bs : List (DeliveryBinding Link)) : List PublishAnswer :=
  bs.flatMap fun b => answersOf (pumpLane publish calls b).2

theorem pumpLane_link (b : DeliveryBinding Link) :
    (∀ b', (pumpLane publish calls b).1 = some b' → b'.link = b.link) ∧
      ∀ c ∈ (pumpLane publish calls b).2, c.link = b.link :=
  drainLane_link _ _ _ _

/-- So does the second, each binding with its own answers. -/
theorem drainAll_lanes (bs : List (DeliveryBinding Link)) {rest : List PublishAnswer}
    (hw : w.answers.publishes = pumpAnswers publish calls bs ++ rest) :
    (drainAll bs w).1 = bs.flatMap (fun b => (pumpLane publish calls b).1.toList) ∧
      (drainAll bs w).2.1.logs.calls =
        w.logs.calls ++ bs.flatMap (fun b => (pumpLane publish calls b).2) ∧
      (drainAll bs w).2.1.logs.resets = w.logs.resets := by
  induction bs generalizing w with
  | nil => exact ⟨rfl, (append_nil _).symm, rfl⟩
  | cons b bs ih =>
    rw [pumpAnswers, flatMap_cons, append_assoc] at hw
    obtain ⟨hafter, hanswers, hcalls, hresets⟩ := drainLocked_lane _ _ _ _ hw
    obtain ⟨hrest, hcalls', hresets'⟩ := ih hanswers
    simp only [drainAll, flatMap_cons]
    refine ⟨?_, ?_, hresets'.trans hresets⟩
    · rw [hafter, hrest]
      rfl
    · rw [hcalls', hcalls, append_assoc]
      rfl

/-! ## Calls in an environment -/

/-- A method of the relay, less what its seams answer. -/
inductive Method (Link : Type) where
  | opened
  | subscribe (link : Link)
  | unsubscribe (link : Link)
  | receive (frame : Frame)
  | pump
  | hostLinkClosed
  | resync
  | anchor
  | forget
  | close

/-- The call of a method with these answers. -/
def Method.op (answers : Answers) : Method Link → Op Link
  | .opened => .opened
  | .subscribe link => .subscribe link
  | .unsubscribe link => .unsubscribe link
  | .receive frame => .receive frame answers
  | .pump => .pump answers
  | .hostLinkClosed => .hostLinkClosed answers
  | .resync => .resync answers
  | .anchor => .anchor answers
  | .forget => .forget
  | .close => .close

/-- The sequence a received frame is probed for. -/
def Method.seq (cfg : Config) : Method Link → Nat
  | .receive frame =>
    match classify cfg frame with
    | .ok record => record.seq
    | .error _ => 0
  | _ => 0

/-- What an environment answers a call on a session, in the order the call asks: the tip for every
tip read, the page of the one probe, and the transport's answers binding by binding. -/
def Environment.answers (e : Environment Link) (cfg : Config) (σ : Session Link)
    (m : Method Link) : Answers :=
  match σ.host with
  | none => {}
  | some h =>
    let fanned := fanOutLanes cfg e.tip h.queue.len h
    { tips := List.replicate (2 + h.queue.len * h.deliveries.length) e.tip
      page := e.page (probeRequest cfg h.tailSeq (m.seq cfg))
      publishes := pumpAnswers e.publish (σ.logs.calls ++ fanned.2.1) fanned.1.deliveries
      stopOk := e.stopOk, rebindOk := e.rebindOk, resumeOk := e.resumeOk }

/-- One call in an environment. -/
def serve (cfg : Config) (σ : Session Link) (call : Method Link × Environment Link) :
    Session Link :=
  (apply cfg σ (call.1.op (call.2.answers cfg σ call.1))).1

/-- The calls of a session in order, each in its own environment. -/
def serveAll (cfg : Config) (calls : List (Method Link × Environment Link)) : Session Link :=
  calls.foldl (serve cfg) {}

end

end Factory.Routing
