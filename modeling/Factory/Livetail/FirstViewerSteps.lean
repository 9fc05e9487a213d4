import Factory.Livetail.FirstViewerInvariant

/-!
# The steps between the Host and the first viewer

The transport's deliveries, the viewer's subscribe and durable read, what the drainer takes
from the mailbox, and each publish to the viewer keep `System.Inv`. The drainer's own step is
in the next module.
-/

namespace Factory.Livetail

open List Factory.Delivery Factory.Routing
open DeliveryLog (Item Gapless Covered)
open Pipeline

variable {events : List Event} {s : SessionState}

namespace System

variable {S : Setting} {σ : System}

/-! ## The transport -/

variable {cfg : Config}

theorem seqOf_droppable {data : Bytes} (h : droppableEphemeral cfg data = true) :
    seqOf cfg data = none := by
  unfold droppableEphemeral at h
  split at h
  · split at h
    · rename_i htype
      split at h
      · rename_i publication hpub
        simp [seqOf, classify, frameOf, htype, hpub, h]
      · cases h
    · cases h
  · cases h

/-- A frame marked droppable is no record. -/
def Flagged (cfg : Config) (events : List Event) : Prop :=
  ∀ ev ∈ events, ev.ephemeral = true → ev.seq cfg = none

theorem evict_spec (limit n : Nat) (h : Flagged cfg events) :
    (Plane.evict limit n events).2.Sublist events ∧
      (Plane.evict limit n events).2.flatMap (Event.parts cfg) =
        events.flatMap (Event.parts cfg) := by
  induction n generalizing events with
  | zero => exact ⟨List.Sublist.refl _, rfl⟩
  | succ n ih =>
    unfold Plane.evict
    split
    · have hsub : (events.eraseP (·.ephemeral)).Sublist events := eraseP_sublist
      obtain ⟨hs, hp⟩ := ih (fun ev hev => h ev (hsub.subset hev))
      refine ⟨hs.trans hsub, ?_⟩
      rw [hp]
      rcases exists_or_eq_self_of_eraseP (·.ephemeral) events with
        heq | ⟨ev, l, m, -, hev, rfl, hrest⟩
      · rw [heq]
      · rw [hrest]
        have hnone : Event.parts cfg ev = [] := by
          have hseq := h ev (by simp) hev
          cases ev with
          | frame data ephemeral =>
            have : seqOf cfg data = none := hseq
            simp [Event.parts, partsOf, this]
          | _ => simp [Event.ephemeral] at hev
        simp [hnone]
    · exact ⟨List.Sublist.refl _, rfl⟩

theorem waits_filter_frames (cfg : Config) (events : List Event) (ps : List Part) (p : Nat) :
    Waits ((events.filter (!·.isFrame)).flatMap (Event.parts cfg) ++ .hole :: ps) p := by
  refine waits_append_record ?_ (waits_hole ps p)
  intro s hs
  obtain ⟨ev, hev, hpart⟩ := mem_flatMap.mp hs
  have hframe := (mem_filter.mp hev).2
  cases ev with
  | frame data ephemeral => simp [Event.isFrame] at hframe
  | live initial => cases initial <;> simp [Event.parts, Event.full] at hpart
  | _ => simp [Event.parts, Event.full] at hpart

/-- What one message does to a session's entry. -/
structure Delivered (S : Setting) (message : Message) (s s' : SessionState) : Prop where
  watched : s'.watched = s.watched
  initial : s.initial = false → s'.initial = false
  events : ∀ ev ∈ s'.events, ev ∈ s.events ∨
    (ev ≠ .forget ∧ ev.ephemeral = false ∧ ev.seq S.cfg = none) ∨ ∃ gen data,
      message = .publication gen data ∧ ev = .frame data (droppableEphemeral S.cfg data)
  waits : s.watched = true → s.initial = false → ∀ tail backlog wire p,
    Waits (s.events.flatMap (Event.parts S.cfg) ++
      upstream S.cfg tail backlog s.gen (message :: wire)) p →
    Waits (s'.events.flatMap (Event.parts S.cfg) ++ upstream S.cfg tail backlog s'.gen wire) p

theorem mem_concat {last : Event} {P : Event → Prop} (h : ∀ ev ∈ events, P ev) (hlast : P last) :
    ∀ ev ∈ events ++ [last], P ev := by
  intro ev hev
  rcases mem_append.mp hev with hev | hev
  · exact h ev hev
  · rwa [mem_singleton.mp hev]

/-- What `Sound` says of the session's entry. -/
theorem Sound.entry (h : Sound S σ) (hsession : σ.plane.session = some s) :
    σ.mail = s ∧ (∀ ev ∈ s.events, ev ≠ .forget ∧ (ev.ephemeral = true → ev.seq S.cfg = none) ∧
      ∀ t, ev.seq S.cfg = some t → t ≤ σ.committed) ∧
    (σ.phase ≠ .idle → s.watched = true) ∧ (σ.phase = .returned → s.initial = false) := by
  have hmail : σ.mail = s := by simp [mail, hsession]
  rw [← hmail]
  exact ⟨rfl, h.mailbox, fun hphase => (h.watched hphase).1, h.initial⟩

theorem Delivered.same {message : Message}
    (h : ∀ tail backlog wire, s.watched = true →
      upstream S.cfg tail backlog s.gen (message :: wire) =
        upstream S.cfg tail backlog s.gen wire) : Delivered S message s s where
  watched := rfl
  initial := id
  events ev hev := .inl hev
  waits hw _ tail backlog wire p hp := by
    rw [h tail backlog wire hw] at hp
    exact hp

theorem subscribed_delivered (gen : Nat) (s : SessionState) :
    Delivered S (.subscribed gen) s
      { s with
        gen := gen, initial := false, running := true
        events := s.events ++ [.live s.initial] } where
  watched := rfl
  initial _ := rfl
  events := mem_concat (fun _ => .inl) (.inr (.inl ⟨by simp, rfl, rfl⟩))
  waits _ hi tail backlog wire p hp := by
    simp only [flatMap_append, append_assoc]
    refine hp.append_mono fun _ => ?_
    simp only [flatMap_singleton, hi, Event.parts, Event.full, Bool.not_false, if_true]
    exact waits_hole _ _

theorem ended_delivered (gen : Nat) (s : SessionState) :
    Delivered S (.ended gen) s
      { s with gen := 0, running := true, events := s.events ++ [.lost] } where
  watched := rfl
  initial := id
  events := mem_concat (fun _ => .inl) (.inr (.inl ⟨by simp, rfl, rfl⟩))
  waits _ _ tail backlog wire p hp := by
    simp only [flatMap_append, append_assoc]
    exact hp.append_mono fun _ => waits_hole _ _

theorem SessionState.accepts_iff {gen : Nat} (hw : s.watched = true) :
    s.accepts gen = true ↔ s.gen ≠ 0 ∧ s.gen = gen := by
  simp [SessionState.accepts, hw]

/-- A queued frame of the accepted subscription moves from the wire to the mailbox, whose
other records are as before. -/
theorem frame_delivered {gen : Nat} {data : Bytes} (hacc : s.accepts gen = true)
    (hsub : events.Sublist s.events)
    (hparts : events.flatMap (Event.parts S.cfg) = s.events.flatMap (Event.parts S.cfg)) :
    Delivered S (.publication gen data) s
      { s with
        running := true
        events := events ++ [.frame data (droppableEphemeral S.cfg data)] } where
  watched := rfl
  initial := id
  events := mem_concat (fun _ hev => .inl (hsub.subset hev)) (.inr (.inr ⟨gen, data, rfl, rfl⟩))
  waits hw _ tail backlog wire p hp := by
    have hg := (SessionState.accepts_iff hw).mp hacc
    simp only [upstream, scan, if_pos hg, append_assoc] at hp
    simp only [flatMap_append, flatMap_singleton, hparts, append_assoc]
    exact hp

theorem overflow_delivered (gen : Nat) (data : Bytes) (s : SessionState)
    (hsub : events.Sublist s.events) :
    Delivered S (.publication gen data) s
      { s with
        gen := 0, running := true
        events := events.filter (!·.isFrame) ++ [.lost] } where
  watched := rfl
  initial := id
  events := mem_concat (fun _ hev => .inl (hsub.subset (mem_of_mem_filter hev)))
    (.inr (.inl ⟨by simp, rfl, rfl⟩))
  waits _ _ tail backlog wire p _ := by
    simp only [flatMap_append, append_assoc]
    exact waits_filter_frames S.cfg events _ p

theorem deliver_spec {plane : Plane} (hclosed : plane.closed = false) (hs : plane.session = some s)
    (hflag : Flagged S.cfg s.events) (message : Message) :
    (deliver S plane message).closed = false ∧
      ∃ s', (deliver S plane message).session = some s' ∧ Delivered S message s s' := by
  cases message with
  | subscribed gen =>
    simp only [deliver, Plane.subscribed, hs]
    by_cases hw : s.watched = true
    · simp only [hw, if_true, Plane.pushLocked, hclosed, Bool.false_eq_true, if_false]
      refine ⟨trivial, _, rfl, ?_⟩
      have : Delivered S (.subscribed gen) s _ := subscribed_delivered gen s
      rwa [hw] at this
    · simp only [hw]
      exact ⟨hclosed, s, hs, .same fun _ _ _ hw' => absurd hw' hw⟩
  | ended gen =>
    simp only [deliver, Plane.ended, hs]
    by_cases hacc : s.accepts gen = true
    · simp only [hacc, if_true, Plane.pushLocked, hclosed, Bool.false_eq_true, if_false]
      exact ⟨trivial, _, rfl, ended_delivered gen s⟩
    · simp only [hacc]
      refine ⟨hclosed, s, hs, .same fun tail backlog wire hw => ?_⟩
      simp only [upstream, scan, if_neg (mt (SessionState.accepts_iff hw).mpr hacc)]
  | publication gen data =>
    simp only [deliver, Plane.publication, hs]
    by_cases hacc : s.accepts gen = true
    · simp only [hacc, if_true]
      by_cases hfull : plane.limit ≤ s.events.length
      · simp only [hfull, if_true]
        obtain ⟨hsub, hparts⟩ := evict_spec plane.limit s.events.length hflag
        by_cases heph : droppableEphemeral S.cfg data = true
        · simp only [heph, if_true]
          refine ⟨hclosed, s, rfl, .same fun tail backlog wire hw => ?_⟩
          simp [upstream, scan, partsOf, seqOf_droppable heph]
        · simp only [heph]
          by_cases hstill : plane.limit ≤
              (Plane.evict plane.limit s.events.length s.events).2.length
          · simp only [hstill, if_true, Plane.pushLocked, hclosed, Bool.false_eq_true, if_false]
            exact ⟨trivial, _, rfl, overflow_delivered gen data s hsub⟩
          · simp only [hstill, if_false, Plane.pushLocked, hclosed, Bool.false_eq_true]
            refine ⟨trivial, _, rfl, ?_⟩
            have : Delivered S (.publication gen data) s _ := frame_delivered hacc hsub hparts
            rwa [Bool.not_eq_true _ |>.mp heph] at this
      · simp only [hfull, if_false, Plane.pushLocked, hclosed, Bool.false_eq_true]
        exact ⟨trivial, _, rfl, frame_delivered hacc (List.Sublist.refl _) rfl⟩
    · simp only [hacc]
      refine ⟨hclosed, s, hs, .same fun tail backlog wire hw => ?_⟩
      simp only [upstream, scan, if_neg (mt (SessionState.accepts_iff hw).mpr hacc), nil_append]

/-- The transport delivers the next message of the wire. -/
theorem Inv.receive (h : Inv S σ) {message : Message} {wire : List Message}
    (hwire : σ.wire = message :: wire) :
    Inv S { σ with wire := wire, plane := deliver S σ.plane message } := by
  have hs := h.sound
  have hrest : ∀ m ∈ wire, ∀ s, m.seq S.cfg = some s → s ≤ σ.committed := by
    intro m hm
    exact hs.wire m (by rw [hwire]; exact mem_cons_of_mem _ hm)
  cases hsession : σ.plane.session with
  | none =>
    have hsame : deliver S σ.plane message = σ.plane := by
      cases message <;> simp [deliver, Plane.subscribed, Plane.publication, Plane.ended, hsession]
    rw [hsame]
    refine h.of_parts { hs with wire := hrest } rfl rfl rfl rfl rfl ?_
    intro hphase
    have := (hs.watched (by simp [hphase])).2
    rw [hsession] at this
    cases this
  | some s =>
    obtain ⟨hmail, hmailbox, hwatched, hinitial⟩ := hs.entry hsession
    have hflag : Flagged S.cfg s.events := fun ev hev => (hmailbox ev hev).2.1
    obtain ⟨hclosed, s', hs', hd⟩ := deliver_spec hs.planeOpen hsession hflag message
    have hmail' :
        ({ σ with wire := wire, plane := deliver S σ.plane message } : System).mail = s' := by
      simp [mail, hs']
    refine h.of_parts
      { hs with planeOpen := hclosed, wire := hrest, mailbox := ?_, watched := ?_, initial := ?_ }
      rfl rfl rfl rfl rfl ?_
    · rw [hmail']
      intro ev hev
      rcases hd.events ev hev with hold | ⟨hf, he, hseq⟩ | ⟨gen, data, hm, rfl⟩
      · exact hmailbox ev hold
      · exact ⟨hf, by simp [he], by simp [hseq]⟩
      · refine ⟨by simp, seqOf_droppable, ?_⟩
        intro t ht
        exact hs.wire message (by rw [hwire]; exact mem_cons_self) t (by rw [hm]; exact ht)
    · rw [hmail']
      exact fun hphase => ⟨hd.watched.trans (hwatched hphase), by simp [hs']⟩
    · rw [hmail']
      exact fun hphase => hd.initial (hinitial hphase)
    · intro hphase p hp
      unfold parts at hp ⊢
      rw [hmail', hmail] at *
      rw [hwire] at hp
      exact hp.append_mono (hd.waits (hwatched (by simp [hphase])) (hinitial hphase) _ _ _ p)

theorem Inv.restored (h : Inv S σ) : Inv S { σ with plane := σ.plane.restored } := by
  have hs := h.sound
  by_cases hw : σ.plane.session.isSome ∧ σ.mail.watched = true
  · obtain ⟨s, hsession⟩ := Option.isSome_iff_exists.mp hw.1
    obtain ⟨hmail, hmailbox, hwatched, hinitial⟩ := hs.entry hsession
    have hplane : σ.plane.restored =
        { σ.plane with
          session := some { s with events := s.events ++ [.restored], running := true } } := by
      rw [hmail] at hw
      simp [Plane.restored, hsession, hw.2, Plane.pushLocked, hs.planeOpen]
    rw [hplane]
    refine h.of_parts { hs with mailbox := ?_, watched := ?_, initial := ?_ } rfl rfl rfl rfl rfl ?_
    · exact mem_concat hmailbox ⟨by simp, by simp [Event.ephemeral], by simp [Event.seq]⟩
    · exact fun hphase => ⟨hwatched hphase, rfl⟩
    · exact hinitial
    · intro _ p hp
      unfold parts at hp ⊢
      rw [hmail] at hp
      refine hp.append_mono fun hp => ?_
      show Waits ((s.events ++ [Event.restored]).flatMap (Event.parts S.cfg) ++
        upstream S.cfg σ.tail σ.backlog s.gen σ.wire) p
      simpa [Event.parts, Event.full] using hp
  · have hplane : σ.plane.restored = σ.plane := by
      unfold Plane.restored
      cases hsession : σ.plane.session with
      | none => rfl
      | some s =>
        have : s.watched ≠ true := by
          intro hws
          exact hw ⟨by simp [hsession], by simp [mail, hsession, hws]⟩
        simp [this]
    rw [hplane]
    exact h

/-! ## The viewer's subscribe and read -/

theorem Inv.unread (h : Inv S σ) (hphase : σ.phase ≠ .returned) : σ.viewer.read = none := by
  cases hr : σ.viewer.read with
  | none => rfl
  | some r => exact absurd (h.sound.joined (h.read r hr)) hphase

theorem Inv.watching (h : Inv S σ) (hphase : σ.phase = .idle) :
    Inv S { σ with phase := .window, plane := σ.plane.watching } := by
  have hunread := h.unread (by simp [hphase])
  refine ⟨{ h.sound with mailbox := ?_, joined := ?_, watched := ?_, initial := ?_ }, h.read,
    ?_, ?_⟩
  · exact h.sound.mailbox
  · intro hj
    cases hphase.symm.trans (h.sound.joined hj)
  · intro _
    exact ⟨rfl, rfl⟩
  · intro hp
    cases hp
  · intro r hr
    cases hunread.symm.trans hr
  · intro r hr
    cases hunread.symm.trans hr

/-- The end of `Acquire`: the viewer is joined. -/
theorem Inv.served (h : Inv S σ) (hphase : σ.phase = .window) :
    Inv S { σ with
      phase := .returned, plane := σ.plane.served
      viewer := { σ.viewer with joined := true } } := by
  have hunread := h.unread (by simp [hphase])
  have hmail : ({ σ with
      phase := .returned, plane := σ.plane.served
      viewer := { σ.viewer with joined := true } } : System).mail =
      { σ.mail with initial := false } := by
    simp only [mail, Plane.served]
    cases σ.plane.session <;> rfl
  refine ⟨{ h.sound with
      mailbox := ?_, joined := fun _ => rfl, watched := ?_, initial := ?_ }, fun _ _ => rfl, ?_, ?_⟩
  · rw [hmail]
    exact h.sound.mailbox
  · intro _
    obtain ⟨hw, hsome⟩ := h.sound.watched (by simp [hphase])
    rw [hmail]
    exact ⟨hw, by simpa [Plane.served] using hsome⟩
  · intro _
    rw [hmail]
  · intro r hr
    cases hunread.symm.trans hr
  · intro r hr
    cases hunread.symm.trans hr

theorem Inv.reads (h : Inv S σ) (hjoined : σ.viewer.joined = true) :
    Inv S { σ with viewer := { σ.viewer with read := some σ.committed } } := by
  refine ⟨{ h.sound with }, fun _ _ => hjoined, ?_, ?_⟩
  · intro r hr
    cases hr
    exact (DeliveryLog.gapless_nil _).append_trusted h.sound.plain h.sound.records
  · intro r hr _ p _ hrp hpn
    cases hr
    exact absurd hpn (Nat.not_le.mpr hrp)

/-! ## The drainer -/

theorem Inv.drained (h : Inv S σ) (hsession : σ.plane.session = some s) (hevents : s.events = []) :
    Inv S { σ with
      plane := { σ.plane with
        session :=
          if s.watched then some { s with events := [], running := false } else none } } := by
  have hs := h.sound
  obtain ⟨hmail, -, hwatched, hinitial⟩ := hs.entry hsession
  by_cases hw : s.watched = true
  · simp only [hw, if_true]
    refine h.of_parts { hs with mailbox := ?_, watched := ?_, initial := ?_ } rfl rfl rfl rfl rfl ?_
    · intro ev hev
      simp [mail] at hev
    · intro _
      exact ⟨rfl, rfl⟩
    · exact hinitial
    · intro _ p hp
      unfold parts at hp ⊢
      rw [hmail, hevents] at hp
      exact hp
  · simp only [hw]
    have hidle : σ.phase = .idle := by
      by_contra hne
      exact hw (hwatched hne)
    refine h.of_parts { hs with mailbox := ?_, watched := ?_, initial := ?_ } rfl rfl rfl rfl rfl ?_
    · intro ev hev
      simp [mail] at hev
    · intro hne
      exact absurd hidle hne
    · intro hphase
      cases hidle.symm.trans hphase
    · intro hphase
      cases hidle.symm.trans hphase

theorem parts_eq_handParts {ev : Event} (hfull : ev.full ≠ true) (taken : Nat) :
    Event.parts cfg ev = handParts cfg (some (ev, taken)) := by
  cases ev with
  | frame data ephemeral => rfl
  | live initial => simpa [Event.parts, handParts] using hfull
  | lost => simp [Event.full] at hfull
  | _ => rfl

theorem Inv.taken (h : Inv S σ) (hhand : σ.hand = none) (hout : σ.outbox = [])
    (hsession : σ.plane.session = some s) {ev : Event} {rest : List Event}
    (hevents : s.events = ev :: rest) :
    Inv S { σ with
      plane := { σ.plane with session := some { s with events := rest } }
      hand := some (ev, σ.committed) } := by
  have hs := h.sound
  obtain ⟨hmail, hbox, hwatched, hinitial⟩ := hs.entry hsession
  rw [hevents] at hbox
  have hpartsEq : parts S σ = Event.parts S.cfg ev ++ (rest.flatMap (Event.parts S.cfg) ++
      upstream S.cfg σ.tail σ.backlog s.gen σ.wire) := by
    simp [parts, handParts, hhand, hmail, hevents]
  refine ⟨{ hs with mailbox := ?_, hand := ?_, watched := ?_, initial := ?_ }, h.read, h.gapless,
    ?_⟩
  · intro e he
    exact hbox e (mem_cons_of_mem _ he)
  · intro e taken heq
    cases heq
    obtain ⟨hf, -, hle⟩ := hbox ev mem_cons_self
    exact ⟨hf, le_refl _, hout, hle⟩
  · exact fun hphase => ⟨hwatched hphase, rfl⟩
  · exact hinitial
  · intro r hr hopen p hp hrp hpn
    refine (h.owed r hr hopen p hp hrp hpn).imp_right (Or.imp_left ?_)
    rintro ⟨hrel, hwaits⟩
    refine ⟨hrel, ?_⟩
    -- a hole in hand covers everything committed when it was taken
    by_cases hfull : ev.full = true
    · exact .inr ⟨ev, σ.committed, rfl, hfull, hpn⟩
    · refine .inl ?_
      rcases hwaits with hwaits | ⟨e, taken, he, -⟩
      · rw [hpartsEq, parts_eq_handParts hfull σ.committed] at hwaits
        exact hwaits
      · cases hhand.symm.trans he

/-- The drainer takes the next event, or ends. -/
theorem Inv.take (h : Inv S σ) (hhand : σ.hand = none) (hout : σ.outbox = []) :
    (∀ ev plane, σ.plane.drain = (some ev, plane) →
      Inv S { σ with plane := plane, hand := some (ev, σ.committed) }) ∧
    (∀ plane, σ.plane.drain = (none, plane) → Inv S { σ with plane := plane }) := by
  cases hsession : σ.plane.session with
  | none =>
    have hdrain : σ.plane.drain = (none, σ.plane) := by simp [Plane.drain, hsession]
    rw [hdrain]
    refine ⟨fun ev plane heq => (by cases heq), fun plane heq => ?_⟩
    cases heq
    exact h
  | some s =>
    cases hevents : s.events with
    | nil =>
      have hdrain : σ.plane.drain = (none, { σ.plane with
          session := if s.watched then some { s with events := [], running := false }
            else none }) := by
        simp [Plane.drain, hsession, h.sound.planeOpen, hevents]
      rw [hdrain]
      refine ⟨fun ev plane heq => (by cases heq), fun plane heq => ?_⟩
      cases heq
      exact h.drained hsession hevents
    | cons ev rest =>
      have hdrain : σ.plane.drain = (some ev, { σ.plane with
          session := some { s with events := rest } }) := by
        simp [Plane.drain, hsession, h.sound.planeOpen, hevents]
      rw [hdrain]
      refine ⟨fun ev' plane heq => ?_, fun plane heq => (by cases heq)⟩
      cases heq
      exact h.taken hhand hout hsession hevents

/-! ## The publishes of one event -/

theorem hear_cases (v : Viewer) (call : PublisherCall Unit) (rest : List (PublisherCall Unit)) :
    (v.hear call).joined = v.joined ∧ (v.hear call).read = v.read ∧
    (v.joined = true → (v.hear call).closed = false → v.closed = false ∧
      closes [call] = false ∧ (v.hear call).log ++ heard rest = v.log ++ heard (call :: rest)) ∧
    (v.joined = true → (v.hear call).closed = true → (v.hear call).log = v.log) ∧
    (v.joined = false → v.hear call = v) := by
  obtain ⟨joined, closed, read, log⟩ := v
  cases joined <;> cases closed <;> cases call with
  | closeLink link reason => simp [Viewer.hear]
  | publish link record answer => cases answer <;> simp [Viewer.hear, heard, closes]

theorem heard_rest_subset (call : PublisherCall Unit) (rest : List (PublisherCall Unit)) :
    heard rest ⊆ heard (call :: rest) := by
  cases call with
  | closeLink link reason => exact List.Subset.refl _
  | publish link record answer =>
    cases answer with
    | ok => exact subset_append_right _ _
    | _ => exact List.Subset.refl _

/-- The next item of the outbox reaches the viewer. -/
theorem Inv.publish (h : Inv S σ) {call : PublisherCall Unit} {rest : List (PublisherCall Unit)}
    (hout : σ.outbox = call :: rest) :
    Inv S { σ with outbox := rest, viewer := σ.viewer.hear call } := by
  have hs := h.sound
  obtain ⟨hj, hr, hopen, hclosed, hout'⟩ := hear_cases σ.viewer call rest
  generalize hv : σ.viewer.hear call = v at hj hr hopen hclosed hout'
  -- the stream of a viewer on the channel loses nothing until the viewer is closed
  have hstream : σ.viewer.joined = true →
      ({ σ with outbox := rest, viewer := v } : System).stream <+: σ.stream := by
    intro hjoined
    unfold stream
    cases hc : v.closed with
    | true =>
      simp only [if_true, append_nil, hclosed hjoined hc]
      exact prefix_append _ _
    | false =>
      obtain ⟨hvc, -, hlog⟩ := hopen hjoined hc
      simp only [hvc, Bool.false_eq_true, if_false, hout, hlog]
      exact prefix_refl _
  have hmem : ∀ x ∈ ({ σ with outbox := rest, viewer := v } : System).stream, x ∈ σ.stream := by
    cases hjoined : σ.viewer.joined with
    | true => exact fun x hx => (hstream hjoined).subset hx
    | false =>
      rw [hout' hjoined]
      intro x hx
      rcases mem_append.mp hx with hx | hx
      · exact mem_append_left _ hx
      · refine mem_append_right _ ?_
        split at hx
        · simp at hx
        · rename_i hc
          rw [if_neg hc, hout]
          exact heard_rest_subset call rest hx
  refine ⟨{ hs with hand := ?_, joined := ?_, records := ?_, plain := ?_ }, ?_, ?_, ?_⟩
  · intro ev taken hhand
    have := (hs.hand ev taken hhand).2.2.1
    cases hout.symm.trans this
  · intro hjoined
    exact hs.joined (hj.symm.trans hjoined)
  · exact fun s hrec => hs.records s (hmem _ hrec)
  · exact fun x hx => hs.plain x (hmem x hx)
  · intro r hread
    exact hj.trans (h.read r (hr.symm.trans hread))
  · intro r hread
    have hread' := hr.symm.trans hread
    obtain ⟨m, hm⟩ := hstream (h.read r hread')
    have := h.gapless r hread'
    rw [← hm, ← cons_append] at this
    exact this.left
  · intro r hread hopen' p hp hrp hpn
    have hread' := hr.symm.trans hread
    obtain ⟨hvc, hcall, hlog⟩ := hopen (h.read r hread') hopen'.1
    have hopenσ : σ.Open := by
      refine ⟨hvc, ?_⟩
      have hrest : closes rest = false := hopen'.2
      rw [hout]
      simp only [closes, any_cons, any_nil, Bool.or_false] at hcall hrest ⊢
      rw [hcall, hrest]
      rfl
    have hsame : ({ σ with outbox := rest, viewer := v } : System).stream = σ.stream := by
      have hvc' : v.closed = false := hopen'.1
      simp only [stream, hvc, hvc', hout, hlog, Bool.false_eq_true, if_false]
    refine (h.owed r hread' hopenσ p hp hrp hpn).imp_left ?_
    rw [hsame]
    exact id

end System

end Factory.Livetail
